import ActionDB.Net.Codec.Batch
import ActionDB.Net.Codec.Fields

/-!
# Length header and argument count

What the header and the text of a message should mean to `decod`.

*The header declares the length*, and the message ends with `'!'`. So a message should be passed as
far as it declares, and one whose `'!'` is somewhere else should be rejected. `decod` uses the
header only to see whether enough of the buffer is left; the scan ends at the first `'!'`, wherever
it is, and a `'!'` directly behind an argument moves `parsedLen` over the `'!'` but not over the
argument. `lengthLaw_iff` says for which messages the two agree.

*A message has at most three arguments.* The scan notices a fourth one that a tab ends, and sets
`parseFlag` to `-1`; the end of `parseOneMessage` sets it to `0` again. `overfull_rejected_iff` says
that a message with more arguments is never rejected once `decod` looks at it.
-/

namespace ActionDB.Net.Codec

open ActionDB.Found

/-! ## Length -/

/-- The `'!'` of the message at `parsedLen` is where its header declares it. -/
structure Framed (b : Buffer) (text : List Byte) : Prop extends HasText b text where
  declared : b.declaredLen b.parsedLen = some (text.length + 7)

/-- From `b` to `b'`, `parsedLen` has moved by the declared length, and by one more over a newline
behind the `'!'`. -/
def Exact (b b' : Buffer) : Prop :=
  ∃ text, Framed b text ∧ b'.parsedLen = b.parsedLen + (text.length + 7) +
    if b.byteAt (b.parsedLen + (text.length + 7)) = newline then 1 else 0

/-- No argument is open where the text ends. -/
def Closed (text : List Byte) : Prop := text = [] ∨ text.getLast? = some tab

/-- A text is closed exactly when its open argument is empty. -/
lemma Open.eq_nil_iff {text last : List Byte} (h : Open text last) : last = [] ↔ Closed text := by
  obtain ⟨u, rfl, hu⟩ := h.suffix
  constructor
  · rintro rfl
    rw [List.append_nil]
    exact hu
  · rintro (hnil | htab)
    · exact (List.append_eq_nil_iff.mp hnil).2
    · by_contra hne
      rw [List.getLast?_append_of_ne_nil _ hne] at htab
      exact h.noTab (List.mem_of_getLast? htab)

/-- **Where a message leaves `parsedLen`**: behind its `'!'` exactly when it is not broken by
`readDatalen`, no argument is open before its `'!'`, and it has at most three arguments. -/
lemma parsedLen_place_iff {b : Buffer} {text : List Byte} {p : Place} (hh : b.head = .message)
    (hf : HasText b text) (hp : b.place .record = some p) :
    (p.parsedLen = b.parsedLen + (text.length + 7) +
        if b.byteAt (b.parsedLen + (text.length + 7)) = newline then 1 else 0) ↔
      Unbroken b ∧ Closed text ∧ (arguments text).length ≤ 3 := by
  have hlex := hf.lexed
  unfold Unbroken
  by_cases h6 : ((b.parsedLen + 6 : ℕ) : Int) = b.readDatalen
  · -- nothing is scanned
    rw [Buffer.place, trackMessage, if_pos h6] at hp
    obtain rfl := Option.some.inj hp
    refine iff_of_false ?_ fun h => (h.1 hh).1 h6
    show ¬b.parsedLen + 6 = _
    omega
  have hfate := b.place_fate (r := .record) h6
  rw [hp] at hfate
  -- a scan that is left at an argument is left before the `'!'`
  have hearly : ∀ a ∈ (b.message .record).1, p.parsedLen = a.start →
      (3 < (arguments text).length ∨ ¬NotDrainedAt b.readDatalen (b.message .record).1) →
      ((p.parsedLen = b.parsedLen + (text.length + 7) +
        if b.byteAt (b.parsedLen + (text.length + 7)) = newline then 1 else 0) ↔
      (b.head = .message → ((b.parsedLen + 6 : ℕ) : Int) ≠ b.readDatalen ∧
        ∀ a ∈ (b.message .record).1, (a.start : Int) ≠ b.readDatalen) ∧
      Closed text ∧ (arguments text).length ≤ 3) := by
    intro a ha hpl hwhy
    have hlt := hlex.before a ha
    unfold Arg.stop at hlt
    refine iff_of_false (by omega) ?_
    rintro ⟨hun, -, hfew⟩
    rcases hwhy with hmany | hdrained
    · omega
    · exact hdrained (hun hh).2
  have hle := hlex.length_le
  generalize b.message .record = m at hlex hfate hearly hle ⊢
  cases hfate with
  | drained a mem start n => exact hearly a mem rfl (.inr fun hpass => hpass a mem start)
  | tooMany a mem many n => exact hearly a mem rfl (.inl (by omega))
  | bang few passed last c ending n =>
      cases hlex with
      | bang args last' before stop opened texts =>
          obtain ⟨rfl, hc⟩ := Ending.bang.inj ending
          obtain rfl := Option.some.inj hc
          have hlen := congrArg List.length texts
          rw [List.length_append, List.length_map] at hlen
          unfold Arg.stop at stop
          rw [← opened.eq_nil_iff]
          dsimp only
          constructor
          · intro h
            have hnil : last'.text = [] := by
              apply List.eq_nil_of_length_eq_zero
              split_ifs at h <;> omega
            refine ⟨fun _ => ⟨h6, passed⟩, hnil, ?_⟩
            rw [hnil, arguments_nil, List.length_nil] at hlen
            dsimp only at few
            omega
          · rintro ⟨-, hnil, -⟩
            rw [hnil, List.length_nil] at stop
            split_ifs <;> omega
      | fourth args before texts => cases ending

/-- A message that is scanned is left to dispatch. -/
lemma decod_of_message {b b' : Buffer} {ret : Int} (hrd : b.readDatalen ≤ 100)
    (hh : b.head = .message) (hd : decod .record b = .ok (ret, b')) :
    ∃ l, b.loads .record = .ok l ∧ b' = b.closed l := by
  rw [decod_message .record hrd hh] at hd
  cases hl : b.loads .record with
  | error f =>
      rw [hl] at hd
      cases hd
  | ok l =>
      rw [hl] at hd
      cases hd
      exact ⟨l, rfl, rfl⟩

/-- A framed message is looked at unless it is at or behind `readDatalen`. -/
lemma Framed.head_eq {b : Buffer} {text : List Byte} (h : Framed b text)
    (hstar : b.byteAt b.parsedLen = star) (hlt : b.parsedLen < b.readDatalen) :
    b.head = .message := by
  have hle := h.end_le
  have hlook : ¬(b.readDatalen ≤ b.parsedLen ∨ b.byteAt b.parsedLen ≠ star) := by
    rintro (hrd | hne)
    · omega
    · exact hne hstar
  rw [Buffer.head, if_neg hlook, if_neg (by omega), h.declared]
  exact if_neg (by omega)

/-- The `'!'` of the message at `parsedLen` is not where its header declares it: the declared end is
inside `rBuf` and not at the first `'!'`, or it is not inside `rBuf`, and a `'!'` is. -/
def Misplaced (b : Buffer) : Prop :=
  (¬∃ text, Framed b text) ∧ (b.head = .message ∨ b.head = .cut ∧ ∃ text, HasText b text)

/-- The length header and the terminator agree: a message that is left to dispatch has moved
`parsedLen` by its declared length, and one whose `'!'` is somewhere else is rejected. -/
structure LengthLaw (b : Buffer) : Prop where
  moves : ∀ ret b', decod .record b = .ok (ret, b') → b'.parseFlag = 0 → Exact b b'
  /-- The same whatever the copies of the arguments do. -/
  passes : ∀ b', Pass b b' → Exact b b'
  rejects : Misplaced b → ∃ ret b', decod .record b = .ok (ret, b') ∧ b'.parseFlag = -1

/-- The scan of a message that has a `'!'` ends. -/
lemma HasText.place_ne_none {b : Buffer} {text : List Byte} (h : HasText b text) :
    b.place .record ≠ none := by
  rw [place_ne_none_iff]
  have hlex := h.lexed
  refine .inr (.inr ?_)
  generalize b.message .record = m at hlex
  cases hlex with
  | bang args last => exact Option.some_ne_none _
  | fourth args => trivial

/-- **The length law** holds exactly when every message has its `'!'` at the declared position with
no argument open before it, has at most three arguments, and is not broken by `readDatalen`; and no
`'!'` is in `rBuf` behind the header of a message that is cut off. -/
theorem lengthLaw_iff {b : Buffer} (hrd : b.readDatalen ≤ 100) :
    LengthLaw b ↔
      (b.head = .message → Unbroken b ∧
        ∃ text, Framed b text ∧ Closed text ∧ (arguments text).length ≤ 3) ∧
      (b.head = .cut → ¬∃ text, HasText b text) := by
  constructor
  · intro law
    refine ⟨fun hh => ?_, fun hh htext => ?_⟩
    · by_cases hframed : ∃ text, Framed b text
      · obtain ⟨text, hf⟩ := hframed
        obtain ⟨p, hp⟩ := Option.ne_none_iff_exists'.mp hf.place_ne_none
        obtain ⟨text', hf', hpl⟩ := law.passes _ (.intro p b.argv hh hp)
        obtain ⟨hun, hclosed, hfew⟩ := (parsedLen_place_iff hh hf'.toHasText hp).mp hpl
        exact ⟨hun, text', hf', hclosed, hfew⟩
      · -- a message that is looked at is not rejected
        obtain ⟨ret, b', hd, hflag⟩ := law.rejects ⟨hframed, .inl hh⟩
        obtain ⟨l, -, rfl⟩ := decod_of_message hrd hh hd
        cases hflag
    · have hlook := b.lt_of_head_ne_nothing hrd (by simp [hh])
      have hframed : ¬∃ text, Framed b text := by
        rintro ⟨text, hf⟩
        rw [hf.head_eq hlook.2.1 hlook.2.2] at hh
        cases hh
      obtain ⟨ret, b', hd, hflag⟩ := law.rejects ⟨hframed, .inr ⟨hh, htext⟩⟩
      rw [decod_cut .record hrd hh hlook.1.le] at hd
      cases hd
      cases hflag
  · rintro ⟨hmessage, hcut⟩
    have hexact : ∀ b', Pass b b' → Exact b b' := by
      rintro _ ⟨p, argv, hh, hp⟩
      obtain ⟨hun, text, hf, hclosed, hfew⟩ := hmessage hh
      exact ⟨text, hf, (parsedLen_place_iff hh hf.toHasText hp).mpr ⟨hun, hclosed, hfew⟩⟩
    refine ⟨fun ret b' hd hflag => hexact b' (pass_of_decod hrd hd (by simp [hflag])), hexact, ?_⟩
    rintro ⟨hframed, hh | ⟨hh, htext⟩⟩
    · obtain ⟨-, text, hf, -⟩ := hmessage hh
      exact absurd ⟨text, hf⟩ hframed
    · exact absurd htext (hcut hh)

/-- The buffer of a new connection after its first read. -/
def received (bytes : List Byte) (h : bytes.length ≤ 100) : Buffer :=
  initBuf.filled (.data bytes) (by rwa [show initBuf.corruptMessagelen = 0 from rfl, Nat.zero_add])

/-- The frame of `get k`, and a newline. -/
theorem lengthLaw_frame :
    LengthLaw (received [42, 9, 48, 48, 49, 52, 9, 103, 101, 116, 9, 107, 9, 33, 10]
        (by decide)) ∧
      ∃ ret b', decod .record (received [42, 9, 48, 48, 49, 52, 9, 103, 101, 116, 9, 107, 9, 33, 10]
        (by decide)) = .ok (ret, b') ∧ b'.parseFlag = 0 ∧ b'.parsedLen = 15 := by
  have hframed : Framed (received [42, 9, 48, 48, 49, 52, 9, 103, 101, 116, 9, 107, 9, 33, 10]
      (by decide)) [9, 103, 101, 116, 9, 107, 9] := ⟨⟨⟨_, rfl⟩, by decide⟩, by decide⟩
  refine ⟨(lengthLaw_iff (by decide)).mpr ⟨fun _ => ⟨?_, _, hframed, .inr rfl, by decide⟩, ?_⟩,
    _, _, rfl, rfl, rfl⟩
  · decide +kernel
  · intro hcut
    cases hcut

/-- **A header that lies.** The message `get k` with a header of 20 instead of 14 is dispatched all
the same, and `parsedLen` moves by 14. -/
theorem lengthLaw_fails :
    (received [42, 9, 48, 48, 50, 48, 9, 103, 101, 116, 9, 107, 9, 33] (by decide)).declaredLen 0 =
        some 20 ∧
      ∃ ret b', decod .record (received [42, 9, 48, 48, 50, 48, 9, 103, 101, 116, 9, 107, 9, 33]
        (by decide)) = .ok (ret, b') ∧ b'.parseFlag = 0 ∧ b'.parsedLen = 14 ∧
        dispatch b'.argv = .ok (.get [107]) :=
  ⟨by decide, _, _, rfl, rfl, rfl, by decide +kernel⟩

/-- A header that declares more than `rBuf` holds: the message `get k` with a header of 200 is kept
as a cut one. -/
example :
    let b := received [42, 9, 48, 50, 48, 48, 9, 103, 101, 116, 9, 107, 9, 33] (by decide)
    (∃ text, HasText b text) ∧ ∃ ret b', decod .record b = .ok (ret, b') ∧ b'.parseFlag = 1 :=
  ⟨⟨[9, 103, 101, 116, 9, 107, 9], ⟨_, rfl⟩, by decide⟩, _, _, rfl, rfl⟩

/-! ## Arguments -/

/-- There is a well-framed message at `parsedLen`, and it has more than three arguments. -/
structure Overfull (b : Buffer) (text : List Byte) : Prop extends Framed b text where
  begins : b.byteAt b.parsedLen = star
  many : 3 < (arguments text).length

/-- The message at `parsedLen` is rejected, and the inner loop dispatches nothing for it. -/
def Rejects (b : Buffer) : Prop :=
  (∃ ret b', decod .record b = .ok (ret, b') ∧ b'.parseFlag = -1) ∧
    dispatched (drain .record drainFuel b).1 = []

/-- **Too many arguments.** A well-framed message with more than three arguments is rejected exactly
when `decod` is called at or behind `readDatalen`, and so does not look at it. -/
theorem overfull_rejected_iff {b : Buffer} {text : List Byte} (hrd : b.readDatalen ≤ 100)
    (h : Overfull b text) : Rejects b ↔ b.readDatalen ≤ b.parsedLen := by
  constructor
  · rintro ⟨⟨ret, b', hd, hflag⟩, -⟩
    by_contra hlt
    have hh := h.toFramed.head_eq h.begins (not_le.mp hlt)
    obtain ⟨l, -, rfl⟩ := decod_of_message hrd hh hd
    cases hflag
  · intro hle
    have hd : decod .record b = .ok (0, b.rejected 0) := decod_of_readDatalen_le hrd hle
    refine ⟨⟨_, _, hd, rfl⟩, ?_⟩
    rw [show drainFuel = 99 + 1 from rfl, drain_succ_of_done hd (.inr rfl)]
    rfl

/-- The frame of `set k v x`. -/
def frameKVX : List Byte := makeCommand (strSet ++ [32, 107, 32, 118, 32, 120])

lemma overfull_frameKVX : Overfull (received frameKVX (by decide))
    ([tab] ++ strSet ++ [tab, 107, tab, 118, tab, 120, tab]) :=
  ⟨⟨⟨⟨_, rfl⟩, by decide⟩, by decide⟩, rfl, by decide⟩

/-- `set k v x`, which has four arguments, is not rejected. -/
theorem overfull_not_rejected : ¬Rejects (received frameKVX (by decide)) := by
  rw [overfull_rejected_iff (by decide) overfull_frameKVX]
  decide

/-- **A command with too many arguments** is left with `parseFlag = 0`, and executed with the first
three. -/
theorem overfull_dispatched :
    (∃ text, Overfull (received frameKVX (by decide)) text) ∧
      (∃ ret b', decod .record (received frameKVX (by decide)) = .ok (ret, b') ∧
        b'.parseFlag = 0) ∧
      dispatched (connEvents [.data frameKVX]) = [.set [107] [118]] :=
  ⟨⟨_, overfull_frameKVX⟩, ⟨_, _, rfl, rfl⟩, by decide +kernel⟩

end ActionDB.Net.Codec
