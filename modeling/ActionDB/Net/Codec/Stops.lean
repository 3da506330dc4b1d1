import ActionDB.Net.Codec.Receive
import ActionDB.Net.Codec.Rows

/-!
# Where the scan stops

The scan of `parseOneMessage` has no bound of its own: it runs until it meets a `'!'`, a fourth
tab-terminated argument, or an argument that starts at `readDatalen`. `Fate` lists the ways it can
end and what the bytes of the message look like in each, and two questions about runs are answered
from it:

* **Does it stay inside `rBuf`?** `Region.array` makes every access outside `rBuf` a fault and
  otherwise computes what the machine computes (`decod_record_of_array`). Over all runs a call of
  `decod` stays inside exactly when the bytes it is called on are `Confined`
  (`inBounds_of_mem_calls`); they need not be (`scan_overread`).
* **Does it end at a `'!'`?** Over all runs the scan of a message reads a `'!'` that was received
  exactly when there is one and the message is `Unbroken`: `readDatalen` is neither the end of its
  header nor the start of one of its arguments (`terminated_of_mem_calls`). Otherwise it goes on
  behind what was received, or the loop condition ends it in the middle of the message, which is
  dispatched all the same (`scan_broken`).
-/

namespace ActionDB.Net.Codec

open ActionDB.Found

/-! ## The ways a scan ends -/

/-- How the scan of the arguments `as` can end when `k` arguments have been read before. -/
inductive Fate (rd : Int) (k : ℕ) (as : List Arg) (e : Ending) : Option Place → Prop
  /-- The loop condition fails at an argument. -/
  | drained (a : Arg) (mem : a ∈ as) (start : (a.start : Int) = rd) (n : ℕ) :
      Fate rd k as e (some ⟨.drained, a.start, a.stop + 1, a.start, n⟩)
  /-- A fourth argument is ended by a tab. -/
  | tooMany (a : Arg) (mem : a ∈ as) (many : 3 < k + as.length) (n : ℕ) :
      Fate rd k as e (some ⟨.tooMany, a.start, a.stop + 1, a.start, n⟩)
  /-- A `'!'` is consumed, with the byte behind it if that is a newline. `parsedLen` falls behind
  `cursor` by the argument that the `'!'` ends. -/
  | bang (few : k + as.length ≤ 3) (passed : NotDrainedAt rd as) (last : Arg) (c : Byte)
      (ending : e = .bang last (some c)) (n : ℕ) :
      Fate rd k as e (some ⟨.bang, last.start + (if c = newline then 2 else 1),
        last.stop + (if c = newline then 2 else 1), last.start, n⟩)
  /-- The bytes run out. -/
  | overread (few : k + as.length ≤ 3) (passed : NotDrainedAt rd as)
      (ending : ∀ last c, e ≠ .bang last (some c)) : Fate rd k as e none

/-- A fate behind the first argument is one of all the arguments. -/
lemma Fate.cons {rd : Int} {k : ℕ} {a : Arg} {as : List Arg} {e : Ending} {p : Option Place}
    (h : Fate rd (k + 1) as e p) (ha : (a.start : Int) ≠ rd) : Fate rd k (a :: as) e p := by
  have hlen : k + (a :: as).length = k + 1 + as.length := by
    rw [List.length_cons]
    omega
  have hpass : NotDrainedAt rd as → NotDrainedAt rd (a :: as) := by
    intro h a' ha'
    rcases List.mem_cons.mp ha' with rfl | ha'
    · exact ha
    · exact h a' ha'
  cases h with
  | drained a' mem start n => exact .drained a' (List.mem_cons_of_mem _ mem) start n
  | tooMany a' mem many n => exact .tooMany a' (List.mem_cons_of_mem _ mem) (by omega) n
  | bang few passed last c ending n => exact .bang (by omega) (hpass passed) last c ending n
  | overread few passed ending => exact .overread (by omega) (hpass passed) ending

/-- **Every scan has a fate.** -/
theorem track_fate (rd : Int) (k : ℕ) (as : List Arg) (e : Ending) (hk : k ≤ 3) :
    Fate rd k as e (track rd k as e) := by
  induction as generalizing k with
  | nil =>
      have hpass : NotDrainedAt rd [] := fun a ha => absurd ha List.not_mem_nil
      cases e with
      | bang last next =>
          cases next with
          | none => exact .overread hk hpass (by simp)
          | some c => exact .bang hk hpass last c rfl _
      | fourth => exact .overread hk hpass (by simp)
      | missing => exact .overread hk hpass (by simp)
  | cons a as ih =>
      simp only [track]
      split_ifs with h3 hrd
      · refine .tooMany a List.mem_cons_self ?_ _
        rw [List.length_cons]
        omega
      · exact .drained a List.mem_cons_self hrd _
      · exact (ih (k + 1) (by omega)).cons hrd

/-- The fate of a message whose header does not end at `readDatalen`. -/
lemma Buffer.place_fate {b : Buffer} {r : Region}
    (h6 : ((b.parsedLen + 6 : ℕ) : Int) ≠ b.readDatalen) :
    Fate b.readDatalen 0 (b.message r).1 (b.message r).2 (b.place r) := by
  rw [Buffer.place, trackMessage, if_neg h6]
  exact track_fate b.readDatalen 0 (b.message r).1 (b.message r).2 (Nat.zero_le 3)

/-- The lexer finds a fourth argument exactly when it says so. -/
lemma length_lex (start : ℕ) (text : List Byte) (k : ℕ) (l : List Byte) (hk : k ≤ 3) :
    3 < k + (lex start text k l).1.length ↔ (lex start text k l).2 = .fourth := by
  induction l generalizing start text k with
  | nil => simpa [lex] using hk
  | cons c l ih =>
      unfold lex
      split_ifs with hc ht h3 hb
      · exact ih (start + 1) [] k hk
      · simp only [List.length_singleton, iff_true]
        omega
      · rw [List.length_cons, ← ih _ [] (k + 1) (by omega)]
        omega
      · simpa using hk
      · exact ih start (text ++ [c]) k hk

/-- The lexer stops at the fourth argument. -/
lemma length_lex_le (start : ℕ) (text : List Byte) (k : ℕ) (l : List Byte) (hk : k ≤ 3) :
    k + (lex start text k l).1.length ≤ 4 := by
  induction l generalizing start text k with
  | nil =>
      simp only [lex, List.length_nil]
      omega
  | cons c l ih =>
      unfold lex
      split_ifs with hc ht h3 hb
      · exact ih (start + 1) [] k hk
      · rw [List.length_singleton]
        omega
      · have := ih (start + text.length + 1) [] (k + 1) (by omega)
        rw [List.length_cons]
        omega
      · simp only [List.length_nil]
        omega
      · exact ih start (text ++ [c]) k hk

/-- A message has four arguments exactly when its fourth one is ended by a tab. -/
lemma Buffer.length_message (b : Buffer) (r : Region) :
    3 < 0 + (b.message r).1.length ↔ (b.message r).2 = .fourth :=
  length_lex (b.parsedLen + 6) [] 0 ((b.mem r).drop (b.parsedLen + 6)) (Nat.zero_le 3)

/-- The `'!'` that the lexer finds is in the memory, with the byte behind it. -/
lemma lex_bang {mem : List Byte} {start : ℕ} {text : List Byte} {k : ℕ} {l : List Byte}
    {last : Arg} {next : Option Byte} (hmem : mem.drop (start + text.length) = l)
    (h : (lex start text k l).2 = .bang last next) :
    mem[last.stop]? = some bang ∧ mem[last.stop + 1]? = next := by
  induction l generalizing start text k with
  | nil => simp [lex] at h
  | cons c l ih =>
      have hrest : mem.drop (start + text.length + 1) = l := by
        rw [← List.drop_drop, hmem]
        rfl
      unfold lex at h
      split_ifs at h with hc ht h3 hb
      · subst ht
        exact ih hrest h
      · exact ih hrest h
      · obtain ⟨rfl, rfl⟩ := Ending.bang.inj h
        have hget := congrArg (·[0]?) hmem
        have hnext := congrArg (·[0]?) hrest
        simp only [List.getElem?_drop, Nat.add_zero, List.getElem?_cons_zero] at hget hnext
        rw [hb] at hget
        exact ⟨hget, hnext.trans List.head?_eq_getElem?.symm⟩
      · have hnext : mem.drop (start + (text ++ [c]).length) = l := by
          rw [List.length_append, List.length_singleton, ← Nat.add_assoc]
          exact hrest
        exact ih hnext h

/-- The arguments of a message, the open one too, start behind its header. -/
lemma start_le_lex (start : ℕ) (text : List Byte) (k : ℕ) (l : List Byte) :
    (∀ a ∈ (lex start text k l).1, start ≤ a.start) ∧
      ∀ last next, (lex start text k l).2 = .bang last next → start ≤ last.start := by
  induction l generalizing start text k with
  | nil => simp [lex]
  | cons c l ih =>
      unfold lex
      split_ifs with hc ht h3 hb
      · obtain ⟨hargs, hlast⟩ := ih (start + 1) [] k
        exact ⟨fun a ha => (Nat.le_succ start).trans (hargs a ha),
          fun last next he => (Nat.le_succ start).trans (hlast last next he)⟩
      · refine ⟨fun a ha => ?_, fun last next he => by cases he⟩
        rw [List.mem_singleton.mp ha]
      · obtain ⟨hargs, hlast⟩ := ih (start + text.length + 1) [] (k + 1)
        have hle : start ≤ start + text.length + 1 := by omega
        refine ⟨fun a ha => ?_, fun last next he => hle.trans (hlast last next he)⟩
        rcases List.mem_cons.mp ha with rfl | ha
        · exact le_rfl
        · exact hle.trans (hargs a ha)
      · refine ⟨fun a ha => absurd ha List.not_mem_nil, fun last next he => ?_⟩
        obtain ⟨rfl, -⟩ := Ending.bang.inj he
        exact le_rfl
      · exact ih start (text ++ [c]) k

/-! ## Staying inside the buffer -/

/-- The call of `decod` inspects and logs bytes of `rBuf` only. -/
def InBounds (b : Buffer) : Prop :=
  decod .array b ≠ .error .overread ∧ decod .array b ≠ .error .overlog

instance (b : Buffer) : Decidable (InBounds b) :=
  inferInstanceAs (Decidable (_ ∧ _))

/-- More memory makes no difference to a load that has ended. -/
lemma load_lex_append {rd : Int} {start : ℕ} {text : List Byte} {k : ℕ} {argv : Area Byte argvSize}
    {l : Loaded Byte} (bytes more : List Byte)
    (h : load id rd k argv (lex start text k bytes).1 (lex start text k bytes).2 = .ok l) :
    load id rd k argv (lex start text k (bytes ++ more)).1 (lex start text k (bytes ++ more)).2 =
      .ok l := by
  induction bytes generalizing start text k argv with
  | nil => simp [lex, load] at h
  | cons c bytes ih =>
      rw [List.cons_append]
      unfold lex at h ⊢
      split_ifs at h ⊢ with hc ht h3 hb
      · exact ih h
      · exact h
      · -- the argument is loaded in both; the scans part behind it, if at all
        simp only [load] at h ⊢
        cases hs : storeArg id true argv k text with
        | error f => simp [hs] at h
        | ok argv' =>
            simp only [hs, if_neg h3] at h ⊢
            split_ifs at h ⊢ with hrd
            · exact h
            · exact ih h
      · cases bytes with
        | nil =>
            simp only [load, List.head?_nil] at h
            split at h <;> cases h
        | cons c' bytes => exact h
      · exact ih h

/-- **The strict region watches the same computation**: a call that does not leave `rBuf` does on
the machine what it does in `rBuf` alone. -/
theorem decod_record_of_array {b : Buffer} {x : Int × Buffer} (hrd : b.readDatalen ≤ 100)
    (h : decod .array b = .ok x) : decod .record b = .ok x := by
  cases hh : b.head with
  | nothing => rwa [decod_nothing _ hrd hh] at h ⊢
  | cut =>
      have hp := (b.lt_of_head_ne_nothing hrd (by simp [hh])).1.le
      rwa [decod_cut _ hrd hh hp] at h ⊢
  | malformed =>
      rw [decod_malformed _ hrd hh, rejectHeader_array] at h
      split_ifs at h
      · rw [decod_malformed_record hrd hh, ← h]
        rfl
      · cases h
  | message =>
      have hlt := (b.lt_of_head_ne_nothing hrd (by simp [hh])).1
      rw [decod_message _ hrd hh] at h ⊢
      suffices hl : ∀ l, b.loads .array = .ok l → b.loads .record = .ok l by
        cases hla : b.loads .array with
        | error f => simp [hla, Except.map] at h
        | ok l =>
            rw [hla] at h
            rw [hl l hla, h]
      intro l hl
      have hmem : (b.mem .record).drop (b.parsedLen + 6) =
          (b.mem .array).drop (b.parsedLen + 6) ++
            (List.replicate 12 0).drop (b.parsedLen + 6 - 100) := by
        rw [Buffer.mem, List.drop_append, Buffer.length_rBuf]
        simp [Buffer.mem, Region.slack]
      unfold Buffer.loads loadMessage Buffer.message lexAt at hl ⊢
      rw [hmem]
      split_ifs at hl ⊢
      · exact hl
      · exact load_lex_append _ _ hl

/-- The ending keeps the scan inside the buffer. -/
def Ending.Confined : Ending → Prop
  | bang _ next => next ≠ none
  | fourth => True
  | missing => False

instance (e : Ending) : Decidable e.Confined := by
  cases e <;> unfold Ending.Confined <;> infer_instance

/-- The scan of the message at `parsedLen` is stopped before it has read all the memory it may read:
by a `'!'` that is not the last byte, by a fourth argument, or by the loop condition, which fails at
the end of its header or at the start of one of its arguments. -/
def ScanStops (r : Region) (b : Buffer) : Prop :=
  ((b.parsedLen + 6 : ℕ) : Int) = b.readDatalen ∨
    (∃ a ∈ (b.message r).1, (a.start : Int) = b.readDatalen) ∨ (b.message r).2.Confined

instance (r : Region) (b : Buffer) : Decidable (ScanStops r b) :=
  inferInstanceAs (Decidable (_ ∨ _ ∨ _))

/-- The bytes that `decod` is called on keep it inside `rBuf`: a malformed header is at the start
of a buffer that contains a NUL, and the scan of a message is stopped inside. -/
def Confined (b : Buffer) : Prop :=
  (b.head = .malformed → b.parsedLen = 0 ∧ (0 : Byte) ∈ b.rBuf.cells) ∧
    (b.head = .message → ScanStops .array b)

instance (b : Buffer) : Decidable (Confined b) :=
  inferInstanceAs (Decidable (_ ∧ _))

/-- **A scan ends** exactly when something stops it. -/
lemma place_ne_none_iff (r : Region) (b : Buffer) : b.place r ≠ none ↔ ScanStops r b := by
  by_cases h6 : ((b.parsedLen + 6 : ℕ) : Int) = b.readDatalen
  · rw [Buffer.place, trackMessage, if_pos h6]
    exact iff_of_true (Option.some_ne_none _) (.inl h6)
  · have hlen := b.length_message r
    have hfate := b.place_fate (r := r) h6
    generalize b.place r = p at hfate ⊢
    cases hfate with
    | drained a mem start n =>
        exact iff_of_true (Option.some_ne_none _) (.inr (.inl ⟨a, mem, start⟩))
    | tooMany a mem many n =>
        refine iff_of_true (Option.some_ne_none _) (.inr (.inr ?_))
        rw [hlen.mp many]
        trivial
    | bang few passed last c ending n =>
        refine iff_of_true (Option.some_ne_none _) (.inr (.inr ?_))
        rw [ending]
        exact Option.some_ne_none c
    | overread few passed ending =>
        refine iff_of_false (fun h => h rfl) ?_
        rintro (h | ⟨a, mem, start⟩ | hconf)
        · exact h6 h
        · exact passed a mem start
        · cases he : (b.message r).2 with
          | bang last next =>
              rw [he] at hconf
              obtain ⟨c, rfl⟩ := Option.ne_none_iff_exists'.mp hconf
              exact ending last c he
          | fourth => exact absurd (hlen.mpr he) (by omega)
          | missing =>
              rw [he] at hconf
              exact hconf

/-- **Loading a message** runs out of memory exactly when its scan does not stop, unless an argument
first overflows `argv`. -/
lemma loads_stops (r : Region) (b : Buffer) :
    (b.loads r = .error .overread ∧ ¬ ScanStops r b) ∨ b.loads r = .error .argvOverflow ∨
      (∃ l, b.loads r = .ok l) ∧ ScanStops r b := by
  have hstops := place_ne_none_iff r b
  have htrack := b.loads_track r
  generalize b.place r = p at hstops htrack
  generalize b.loads r = x at htrack
  cases htrack with
  | fits l => exact .inr (.inr ⟨⟨l, rfl⟩, hstops.mp (Option.some_ne_none _)⟩)
  | overread => exact .inl ⟨rfl, fun h => hstops.mpr h rfl⟩
  | overflow => exact .inr (.inl rfl)

/-- One call: its bytes decide whether it stays inside `rBuf`. -/
lemma inBounds_iff {b : Buffer} (hrd : b.readDatalen ≤ 100) :
    (Confined b → InBounds b) ∧
      (InBounds b → Confined b ∨ decod .array b = .error .argvOverflow) := by
  unfold InBounds Confined
  cases hh : b.head with
  | nothing => simp [decod_nothing _ hrd hh]
  | cut =>
      have hp := (b.lt_of_head_ne_nothing hrd (by simp [hh])).1.le
      simp [decod_cut _ hrd hh hp]
  | malformed =>
      rw [decod_malformed _ hrd hh, rejectHeader_array]
      by_cases hz : b.parsedLen = 0 ∧ (0 : Byte) ∈ b.rBuf.cells
      · have hz' : b.starred.messageBeginpos = 0 ∧ (0 : Byte) ∈ b.starred.rBuf.cells := hz
        rw [if_pos hz']
        simp [Except.map, hz]
      · have hz' : ¬ (b.starred.messageBeginpos = 0 ∧ (0 : Byte) ∈ b.starred.rBuf.cells) := hz
        rw [if_neg hz']
        simp [Except.map, hz]
  | message =>
      rw [decod_message _ hrd hh]
      rcases loads_stops .array b with ⟨hl, hc⟩ | hl | ⟨⟨l, hl⟩, hc⟩
      · simp [hl, hc, Except.map]
      · simp [hl, Except.map]
      · simp [hl, hc, Except.map]

/-- **In-bounds scanning.** Whatever the reads deliver, each call of `decod` stays inside `rBuf`
if the bytes it is called on are confined, and only then, unless an argument first overflows
`argv`. -/
theorem inBounds_of_mem_calls (xs : List ReadResult) (b : Buffer)
    (hb : b ∈ calls (connEvents xs)) :
    (Confined b → InBounds b) ∧
      (InBounds b → Confined b ∨ decod .array b = .error .argvOverflow) :=
  inBounds_iff (held_of_mem_calls xs b hb).read_le

/-- A frame that one read delivers is scanned inside `rBuf`. -/
theorem inBounds_of_frame :
    ∃ b ∈ calls (connEvents [.data [42, 9, 48, 48, 49, 52, 9, 103, 101, 116, 9, 97, 9, 33]]),
      b.head = .message ∧ InBounds b :=
  ⟨initBuf.filled (.data [42, 9, 48, 48, 49, 52, 9, 103, 101, 116, 9, 97, 9, 33]) (by decide),
    by decide +kernel, by decide +kernel,
    (inBounds_of_mem_calls [.data [42, 9, 48, 48, 49, 52, 9, 103, 101, 116, 9, 97, 9, 33]] _
      (by decide +kernel)).1 (by decide +kernel)⟩

/-- **A scan that leaves the buffer.** One read of the seven bytes `*`, tab, `0000`, tab: behind
them there are only zeros, so the scan finds neither `'!'` nor an argument and runs past the end
of `rBuf`. -/
theorem scan_overread :
    ∃ b ∈ calls (connEvents [.data [42, 9, 48, 48, 48, 48, 9]]), ¬ InBounds b :=
  ⟨initBuf.filled (.data [42, 9, 48, 48, 48, 48, 9]) (by decide), by decide +kernel,
    by decide +kernel⟩

/-! ## Ending at the `'!'` -/

/-- Only terminated messages are executed: the scan of the message at `parsedLen` ends, by consuming
a `'!'` that is one of the bytes held. -/
structure Terminated (b : Buffer) : Prop where
  /-- It does so whatever its copies do to `argv`. -/
  ends : b.head = .message → ∃ p i, b.place .record = some p ∧ p.exit = .bang ∧ i < b.held ∧
    b.byteAt i = bang ∧ (p.cursor = i + 1 ∨ p.cursor = i + 2)
  /-- So when the call leaves a message to dispatch, that is how the scan was left. -/
  scans : ∀ ret b', decod .record b = .ok (ret, b') → b'.parseFlag = 0 →
    ∃ s i, scanMessage .record b.opened = .ok (.bang, s) ∧ i < b.held ∧ b.byteAt i = bang ∧
      (s.buf.cursor = i + 1 ∨ s.buf.cursor = i + 2)

/-- `readDatalen` is not inside the message: neither the end of its header nor the start of one
of its arguments. -/
def Unbroken (b : Buffer) : Prop :=
  b.head = .message → ((b.parsedLen + 6 : ℕ) : Int) ≠ b.readDatalen ∧
    ∀ a ∈ (b.message .record).1, (a.start : Int) ≠ b.readDatalen

instance (b : Buffer) : Decidable (Unbroken b) :=
  inferInstanceAs (Decidable (_ → _ ∧ _))

/-- There is a `'!'` among the bytes held, behind the header. -/
def HoldsBang (b : Buffer) : Prop :=
  b.head = .message → ∃ i < b.held, b.parsedLen + 6 ≤ i ∧ b.byteAt i = bang

instance (b : Buffer) : Decidable (HoldsBang b) :=
  have : Decidable (∃ i < b.held, b.parsedLen + 6 ≤ i ∧ b.byteAt i = bang) :=
    decidable_of_iff (∃ i ∈ List.range b.held, b.parsedLen + 6 ≤ i ∧ b.byteAt i = bang)
      (by simp [List.mem_range])
  inferInstanceAs (Decidable (_ → _))

/-- The scan that loads a message, seen from outside. -/
lemma scanMessage_of_loads {b : Buffer} {l : Loaded Byte} (h : b.loads .record = .ok l) :
    ∃ s, scanMessage .record b.opened = .ok (l.exit, s) ∧ s.buf.cursor = l.cursor := by
  have heq := scanMessage_eq .record b.opened rfl
  have hl : loadMessage id b.opened.readDatalen b.opened.cursor b.opened.argv
      (lexAt .record b.opened b.opened.cursor) = .ok l := h
  rw [hl] at heq
  cases hs : scanMessage .record b.opened with
  | error f => simp [hs, Except.map] at heq
  | ok x =>
      obtain ⟨e, s⟩ := x
      rw [hs] at heq
      simp only [Except.map, scanResult, loadResult, Except.ok.injEq, Prod.mk.injEq] at heq
      obtain ⟨rfl, hbuf, -⟩ := heq
      exact ⟨s, rfl, congrArg Buffer.cursor hbuf⟩

/-- A `'!'` that the lexer finds is one of the bytes held, since the others are zero. It is behind
the header, and there is a byte behind it. -/
lemma bang_held {b : Buffer} (hb : Held b) {last : Arg} {next : Option Byte}
    (h : (b.message .record).2 = .bang last next) :
    last.stop < b.held ∧ b.byteAt last.stop = bang ∧ b.parsedLen + 6 ≤ last.stop ∧
      next ≠ none := by
  have hfrom : (b.mem .record).drop (b.parsedLen + 6 + ([] : List Byte).length) =
      (b.mem .record).drop (b.parsedLen + 6) := rfl
  obtain ⟨hget, hnext⟩ := lex_bang hfrom h
  have hne : (0 : Byte) ≠ bang := by decide
  have hin : last.stop < b.rBuf.cells.length ∧ b.byteAt last.stop = bang := by
    rw [Buffer.mem] at hget
    by_cases hlt : last.stop < b.rBuf.cells.length
    · rw [List.getElem?_append_left hlt] at hget
      refine ⟨hlt, ?_⟩
      rw [Buffer.byteAt, List.getD_eq_getElem?_getD, hget]
      rfl
    · rw [List.getElem?_append_right (by omega), List.getElem?_replicate] at hget
      split_ifs at hget
      exact absurd (Option.some.inj hget) hne
  obtain ⟨hlt, hbyte⟩ := hin
  refine ⟨?_, hbyte, ?_, ?_⟩
  · by_contra hle
    rw [hb.zero _ (by omega)] at hbyte
    exact hne hbyte
  · have hle := (start_le_lex (b.parsedLen + 6) [] 0 _).2 last next h
    exact hle.trans (Nat.le_add_right _ _)
  · rw [← hnext, Ne, List.getElem?_eq_none_iff, not_le, Buffer.mem, List.length_append,
      List.length_replicate]
    show _ < _ + 12
    omega

/-- Where there is a `'!'`, the lexer finds one, or a fourth argument before it. -/
lemma lex_ne_missing {start : ℕ} {text : List Byte} {k : ℕ} {l : List Byte} (h : bang ∈ l) :
    (lex start text k l).2 ≠ .missing := by
  induction l generalizing start text k with
  | nil => cases h
  | cons c l ih =>
      have htail : c ≠ bang → bang ∈ l := fun hc =>
        (List.mem_cons.mp h).resolve_left fun heq => hc heq.symm
      have htab : tab ≠ bang := by decide
      unfold lex
      split_ifs with hc ht h3 hb
      · exact ih (htail (hc ▸ htab))
      · exact Ending.noConfusion
      · exact ih (htail (hc ▸ htab))
      · exact Ending.noConfusion
      · exact ih (htail hb)

/-- A `'!'` that is held is in the memory that the scan reads. -/
lemma HoldsBang.mem {b : Buffer} (h : HoldsBang b) (hh : b.head = .message) :
    bang ∈ (b.mem .record).drop (b.parsedLen + 6) := by
  obtain ⟨i, -, hle, hbyte⟩ := h hh
  have hne : (0 : Byte) ≠ bang := by decide
  have hget : (b.mem .record)[i]? = some bang := by
    rw [Buffer.byteAt, List.getD_eq_getElem?_getD] at hbyte
    cases hi : b.rBuf.cells[i]? with
    | none =>
        rw [hi] at hbyte
        exact absurd hbyte hne
    | some c =>
        rw [hi] at hbyte
        rw [Buffer.mem, List.getElem?_append_left (List.getElem?_eq_some_iff.mp hi).1, hi]
        exact congrArg some hbyte
  refine List.mem_of_getElem? (i := i - (b.parsedLen + 6)) ?_
  rw [List.getElem?_drop, Nat.add_sub_cancel' hle, hget]

/-- **Where the scan of a message ends**, if the message has no fourth argument: at a `'!'` exactly
when the message is unbroken and a `'!'` is held. -/
lemma terminates_iff {b : Buffer} (hb : Held b) (hh : b.head = .message)
    (hfew : (b.message .record).2 ≠ .fourth) :
    (∃ p i, b.place .record = some p ∧ p.exit = .bang ∧ i < b.held ∧ b.byteAt i = bang ∧
      (p.cursor = i + 1 ∨ p.cursor = i + 2)) ↔ Unbroken b ∧ HoldsBang b := by
  have hlen := b.length_message .record
  constructor
  · rintro ⟨p, -, hp, hexit, -⟩
    have h6 : ((b.parsedLen + 6 : ℕ) : Int) ≠ b.readDatalen := by
      intro h6
      rw [Buffer.place, trackMessage, if_pos h6] at hp
      obtain rfl := Option.some.inj hp
      cases hexit
    have hfate := b.place_fate (r := .record) h6
    rw [hp] at hfate
    cases hfate with
    | drained | tooMany => cases hexit
    | bang few passed last c ending n =>
        obtain ⟨hheld, hbyte, hle, -⟩ := bang_held hb ending
        exact ⟨fun _ => ⟨h6, passed⟩, fun _ => ⟨last.stop, hheld, hle, hbyte⟩⟩
  · rintro ⟨hun, hbang⟩
    obtain ⟨h6, hargs⟩ := hun hh
    have hfate := b.place_fate (r := .record) h6
    generalize b.place .record = p at hfate
    cases hfate with
    | drained a mem start => exact absurd start (hargs a mem)
    | tooMany a mem many => exact absurd (hlen.mp many) hfew
    | bang few passed last c ending n =>
        obtain ⟨hheld, hbyte, -⟩ := bang_held hb ending
        refine ⟨_, last.stop, rfl, rfl, hheld, hbyte, ?_⟩
        dsimp only
        split_ifs <;> simp
    | overread few passed ending =>
        have hmissing : (b.message .record).2 ≠ .missing := lex_ne_missing (hbang.mem hh)
        rcases he : (b.message .record).2 with ⟨last, next⟩ | _ | _
        · obtain ⟨c, rfl⟩ := Option.ne_none_iff_exists'.mp (bang_held hb he).2.2.2
          exact absurd he (ending last c)
        · exact absurd he hfew
        · exact absurd he hmissing

/-- One call: when no message has a fourth argument, the bytes decide whether the scan ends at a
`'!'`. -/
lemma terminated_iff {b : Buffer} (hb : Held b)
    (hfew : b.head = .message → (b.message .record).2 ≠ .fourth) :
    Terminated b ↔ Unbroken b ∧ HoldsBang b := by
  constructor
  · intro hterm
    by_cases hh : b.head = .message
    · exact (terminates_iff hb hh (hfew hh)).mp (hterm.ends hh)
    · exact ⟨fun h => absurd h hh, fun h => absurd h hh⟩
  · intro hcond
    have hends : b.head = .message → _ := fun hh =>
      (terminates_iff hb hh (hfew hh)).mpr hcond
    refine ⟨hends, fun ret b' hd hflag => ?_⟩
    obtain ⟨hh, l, hl, rfl⟩ := decod_dispatches hb.read_le hd (by simp [hflag])
    obtain ⟨p, i, hp, hexit, hi, hbyte, hcursor⟩ := hends hh
    obtain ⟨s, hscan, hcur⟩ := scanMessage_of_loads hl
    obtain rfl : l.place = p := Option.some.inj ((b.place_of_loads hl).symm.trans hp)
    rw [show l.exit = .bang from hexit] at hscan
    refine ⟨s, i, hscan, hi, hbyte, ?_⟩
    rw [hcur]
    exact hcursor

/-- **Only terminated messages are executed.** In every run in which no message has more than
three arguments, the scan of a message ends by consuming a `'!'` among the bytes held exactly when
the message is unbroken and there is a `'!'` among these bytes. -/
theorem terminated_of_mem_calls (xs : List ReadResult)
    (hfew : ∀ b ∈ calls (connEvents xs), b.head = .message → (b.message .record).2 ≠ .fourth)
    (b : Buffer) (hb : b ∈ calls (connEvents xs)) :
    Terminated b ↔ Unbroken b ∧ HoldsBang b :=
  terminated_iff (held_of_mem_calls xs b hb) (hfew b hb)

/-- A frame that one read delivers is terminated. -/
theorem terminated_of_frame :
    ∃ b ∈ calls (connEvents [.data [42, 9, 48, 48, 49, 52, 9, 103, 101, 116, 9, 97, 9, 33]]),
      b.head = .message ∧ Terminated b :=
  ⟨initBuf.filled (.data [42, 9, 48, 48, 49, 52, 9, 103, 101, 116, 9, 97, 9, 33]) (by decide),
    by decide +kernel, by decide +kernel,
    (terminated_of_mem_calls [.data [42, 9, 48, 48, 49, 52, 9, 103, 101, 116, 9, 97, 9, 33]]
      (by decide +kernel) _ (by decide +kernel)).mpr (by decide +kernel)⟩

/-- **A message that is dispatched without its `'!'`.** A read of the six bytes `*`, tab, `0014`
behind the frame of `set k v`: its header ends at `readDatalen`, so the scan ends before it has
read anything, and what the earlier message left in `argv` is dispatched again. -/
theorem scan_broken :
    let xs := [ReadResult.data
        [42, 9, 48, 48, 49, 54, 9, 115, 101, 116, 9, 107, 9, 118, 9, 33],
      .data [42, 9, 48, 48, 49, 52]]
    (∀ b ∈ calls (connEvents xs), b.head = .message → (b.message .record).2 ≠ .fourth) ∧
      (∃ b ∈ calls (connEvents xs), ¬ Terminated b) ∧
      dispatched (connEvents xs) = [.set [107] [118], .set [107] [118]] := by
  intro xs
  have hfew : ∀ b ∈ calls (connEvents xs), b.head = .message →
      (b.message .record).2 ≠ .fourth := by decide +kernel
  have hbroken : ∃ b ∈ calls (connEvents xs), ¬ Unbroken b := by
    decide +kernel
  refine ⟨hfew, ?_, by decide +kernel⟩
  obtain ⟨b, hb, hun⟩ := hbroken
  refine ⟨b, hb, fun hterm => hun ?_⟩
  exact ((terminated_iff (held_of_mem_calls xs b hb) (hfew b hb)).mp hterm).1

end ActionDB.Net.Codec
