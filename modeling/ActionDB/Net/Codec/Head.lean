import ActionDB.Net.Codec.Lex

/-!
# What `decod` does, by the bytes at `parsedLen`

`catchOneMessagefromBuffer` looks at the byte at `parsedLen` and the four digits two bytes behind
it. `Buffer.head` classifies a buffer by these bytes alone, and for each class there is a theorem
(`decod_nothing`, `decod_cut`, `decod_malformed`, `decod_message`) that gives the result of
`decod`, so that later proofs never unfold it. `decod_record` puts them together for the machine.

The tests of the source are arithmetic on `rBuflen`: with `p = parsedLen`, the test
`parseRemainlen <= 6 - 2` is `94 ≤ p`, and `parseRemainlen < messageLen - 2` is
`100 < p + messageLen`. The bytes received so far do not enter either.
-/

namespace ActionDB.Net.Codec

open ActionDB.Found

/-! ## The class of a buffer -/

/-- What `decod` finds at `parsedLen`. -/
inductive Head where
  /-- Nothing, or a byte other than `'*'`. -/
  | nothing
  /-- A message that does not end inside `rBuf`. -/
  | cut
  /-- A `'*'` without four digits. -/
  | malformed
  /-- A message that ends inside `rBuf`, if its length is right. -/
  | message
  deriving DecidableEq, Repr

/-- The value of digits, `none` when one of the bytes is not a digit. -/
def digitsVal : List Byte → ℕ → Option ℕ
  | [], acc => some acc
  | c :: cs, acc => if isDigit c then digitsVal cs (acc * 10 + (c.toNat - 48)) else none

namespace Buffer

/-- The length that the message at offset `p` declares. -/
def declaredLen (b : Buffer) (p : ℕ) : Option ℕ :=
  digitsVal [b.byteAt (p + 2), b.byteAt (p + 3), b.byteAt (p + 4), b.byteAt (p + 5)] 0

/-- The class of a buffer. -/
def head (b : Buffer) : Head :=
  if b.readDatalen ≤ b.parsedLen ∨ b.byteAt b.parsedLen ≠ star then .nothing
  else if 94 ≤ b.parsedLen then .cut
  else
    match b.declaredLen b.parsedLen with
    | none => .malformed
    | some n => if 100 < b.parsedLen + n then .cut else .message

/-! ## The buffers `decod` leaves -/

/-- After a buffer without a message; `skip` is how far the cursor got. -/
def rejected (b : Buffer) (skip : ℕ) : Buffer :=
  { b with
    messageBeginpos := b.parsedLen, cursor := b.parsedLen + skip
    parseFlag := -1, parsedLen := 0, corruptMessagelen := 0 }

/-- The cells of `rBuf` once the bytes from `p` on have been moved to its front. -/
def keptCells (b : Buffer) (p : ℕ) : List Byte :=
  b.rBuf.cells.drop p ++ (List.replicate p 0 ++ b.rBuf.cells.drop p).drop (100 - p)

/-- After a cut message, which becomes the front of `rBuf`. -/
def kept (b : Buffer) (h : b.parsedLen ≤ 100) : Buffer :=
  { b with
    messageBeginpos := b.parsedLen, cursor := b.parsedLen + 2
    parseFlag := 1, parsedLen := 0, corruptMessagelen := 100 - b.parsedLen
    rBuf := ⟨b.keptCells b.parsedLen, by simp [keptCells, initBufferSize]; omega⟩ }

/-- Behind the `'*'` and the byte that is skipped. -/
def starred (b : Buffer) : Buffer :=
  { b with
    messageBeginpos := b.parsedLen, cursor := b.parsedLen + 2, parsedLen := b.parsedLen + 2 }

/-- In front of the arguments of a message. -/
def opened (b : Buffer) : Buffer :=
  { b with
    messageBeginpos := b.parsedLen, cursor := b.parsedLen + 6, parsedLen := b.parsedLen + 6
    copyMessageSeq := b.copyMessageSeq + 1 }

/-- After a message. -/
def closed (b : Buffer) (l : Loaded Byte) : Buffer :=
  { b.opened with
    parsedLen := l.parsedLen, cursor := l.cursor, argBeginpos := l.argBeginpos, argv := l.argv
    parseFlag := 0, argCnt := l.argCnt, parseMessageSeq := b.parseMessageSeq + 1 }

/-- The message at `parsedLen`. -/
def message (r : Region) (b : Buffer) : List Arg × Ending := lexAt r b (b.parsedLen + 6)

/-- The message at `parsedLen`, loaded. -/
def loads (r : Region) (b : Buffer) : Except Fault (Loaded Byte) :=
  loadMessage id b.readDatalen (b.parsedLen + 6) b.argv (b.message r)

/-- Where the scan of the message at `parsedLen` ends, whatever its copies do. -/
def place (r : Region) (b : Buffer) : Option Place :=
  trackMessage b.readDatalen (b.parsedLen + 6) (b.message r)

lemma loads_track (r : Region) (b : Buffer) : Tracks (b.place r) (b.loads r) :=
  loadMessage_track id b.readDatalen (b.parsedLen + 6) b.argv (b.message r)

/-- A message that is loaded. -/
lemma place_of_loads {r : Region} {b : Buffer} {l : Loaded Byte} (h : b.loads r = .ok l) :
    b.place r = some l.place := by
  have htrack := b.loads_track r
  rw [h] at htrack
  generalize hplace : b.place r = p at htrack
  cases htrack with
  | fits => rfl

end Buffer

/-! ## The parts of `decod` -/

/-- The scan of an opened message and what `parseOneMessage` adds to it. -/
lemma parseOneMessage_eq (r : Region) (b : Buffer) :
    parseOneMessage r b.opened =
      (b.loads r).map fun l => ((l.argCnt : Int), b.closed l) := by
  have h := scanMessage_eq r b.opened rfl
  have hl : b.loads r = loadMessage id b.opened.readDatalen b.opened.cursor b.opened.argv
      (lexAt r b.opened b.opened.cursor) := rfl
  rw [hl]
  unfold parseOneMessage
  generalize loadMessage id b.opened.readDatalen b.opened.cursor b.opened.argv
    (lexAt r b.opened b.opened.cursor) = m at h
  cases hs : scanMessage r b.opened with
  | error f =>
      rw [hs] at h
      cases m with
      | error f' => simpa [Except.map] using h
      | ok l => simp [Except.map] at h
  | ok x =>
      rw [hs] at h
      cases m with
      | error f' => simp [Except.map] at h
      | ok l =>
          obtain ⟨e, s⟩ := x
          simp only [Except.map, scanResult, loadResult, Except.ok.injEq, Prod.mk.injEq] at h
          obtain ⟨-, hb, hc⟩ := h
          simp only [Except.map, Except.ok.injEq, Prod.mk.injEq, hc, true_and]
          have := congrArg (fun b' : Buffer => { b' with
            argCnt := l.argCnt, parseMessageSeq := b'.parseMessageSeq + 1 }) hb
          exact this

/-- Inside `rBuf` the digit tests never fault. -/
lemma readDigits_eq (r : Region) (b : Buffer) (is : List ℕ) (acc : ℕ) (h : ∀ i ∈ is, i < 100) :
    readDigits r b is acc = .ok (digitsVal (is.map b.byteAt) acc) := by
  induction is generalizing acc with
  | nil => rfl
  | cons i is ih =>
      have hi : i < 100 := h i List.mem_cons_self
      have his : ∀ j ∈ is, j < 100 := fun j hj => h j (List.mem_cons_of_mem _ hj)
      simp only [readDigits, r.peek_of_lt b hi, List.map_cons, digitsVal]
      split_ifs
      · exact ih _ his
      · rfl

/-- Keeping a cut message never faults. -/
lemma keepCutMessage_eq (b : Buffer) (h : b.parsedLen < 100) {n : Int} (hn : n = 98 - b.parsedLen) :
    keepCutMessage b.starred n = .ok (-1, b.kept h.le) := by
  have hlen : (n + 2).toNat = 100 - b.parsedLen := by omega
  have hsub : 100 - (100 - b.parsedLen) = b.parsedLen := by omega
  have hz : 0 + (List.replicate b.parsedLen (0 : Byte)).length ≤ initBufferSize := by
    simpa using h.le
  have hk : 0 + (b.rBuf.cells.drop b.parsedLen).length ≤ initBufferSize := by
    simp
  unfold keepCutMessage repairLastCorruptMessage
  simp only [Buffer.rBuflen, Buffer.starred, hlen, hsub]
  rw [if_neg (show ¬ 100 < 100 - b.parsedLen by omega), Area.write_of_le hz, Option.bind_some,
    Area.write_of_le hk]
  simp only [Buffer.kept, Buffer.keptCells, Area.put]
  simp

/-- The struct holds every byte that a failed digit test logs. -/
lemma rejectHeader_record (b : Buffer) (h : b.messageBeginpos < 100) :
    rejectHeader .record b = .ok (-1, b.reject) := by
  have hz : cstr ((b.reject.mem .record).drop b.reject.messageBeginpos) ≠ none := by
    rw [Ne, cstr_eq_none_iff, not_not]
    have hlen : b.messageBeginpos ≤ b.rBuf.cells.length := by simpa using h.le
    simp only [Buffer.mem, Buffer.reject, List.drop_append_of_le_length hlen]
    simp [Region.slack]
  obtain ⟨s, hs⟩ := Option.ne_none_iff_exists'.mp hz
  have hlog : b.messageBeginpos + 100 ≤ 232 := by omega
  simp only [rejectHeader, logFile, hs]
  simp [Buffer.reject, Region.logSize, hlog, bind, Except.bind, pure, Except.pure]

/-- Inside `rBuf` alone, a failed digit test is logged without a fault only at the start of a
buffer that contains a NUL. -/
lemma rejectHeader_array (b : Buffer) :
    rejectHeader .array b =
      if b.messageBeginpos = 0 ∧ (0 : Byte) ∈ b.rBuf.cells then .ok (-1, b.reject)
      else .error .overlog := by
  by_cases h0 : b.messageBeginpos = 0
  · by_cases hz : (0 : Byte) ∈ b.rBuf.cells
    · obtain ⟨s, hs⟩ := Option.ne_none_iff_exists'.mp (mt cstr_eq_none_iff.mp (not_not.mpr hz))
      simp [rejectHeader, logFile, Buffer.reject, Buffer.mem, Region.logSize, Region.slack, h0, hz,
        hs, bind, Except.bind, pure, Except.pure]
    · have hs := cstr_eq_none_iff.mpr hz
      simp [rejectHeader, logFile, Buffer.reject, Buffer.mem, Region.logSize, Region.slack, h0, hz,
        hs, bind, Except.bind]
  · have hlog : ¬ b.messageBeginpos + 100 ≤ 100 := by omega
    simp [rejectHeader, logFile, Buffer.reject, Region.logSize, h0, hlog, bind, Except.bind]

/-! ## `decod`, by cases -/

section Decod

variable {b : Buffer} (r : Region)

/-- A byte is inspected only below `readDatalen`, hence inside `rBuf`. -/
lemma Buffer.lt_of_head_ne_nothing (hrd : b.readDatalen ≤ 100) (h : b.head ≠ .nothing) :
    b.parsedLen < 100 ∧ b.byteAt b.parsedLen = star ∧ (b.parsedLen : Int) < b.readDatalen := by
  unfold Buffer.head at h
  split_ifs at h with h1 h2
  all_goals first
    | exact absurd rfl h
    | (rw [not_or, not_not, not_le] at h1
       exact ⟨by omega, h1.2, h1.1⟩)

/-- `decod` finds nothing. -/
theorem decod_nothing (hrd : b.readDatalen ≤ 100) (h : b.head = .nothing) :
    decod r b = .ok (0, b.rejected 0) := by
  have h1 : b.readDatalen ≤ b.parsedLen ∨ b.byteAt b.parsedLen ≠ star := by
    unfold Buffer.head at h
    split_ifs at h with h1 h2
    · exact h1
    · revert h
      cases b.declaredLen b.parsedLen with
      | none => simp
      | some n => simp only []; split_ifs <;> simp
  unfold decod catchOneMessagefromBuffer
  by_cases hle : b.readDatalen ≤ b.parsedLen
  · simp only [if_pos hle]
    rfl
  · have hstar := h1.resolve_left hle
    have hlt : b.parsedLen < 100 := by omega
    have hpeek : r.peek { b with messageBeginpos := b.parsedLen, cursor := b.parsedLen }
        b.parsedLen = .ok (b.byteAt b.parsedLen) := r.peek_of_lt _ hlt
    simp only [if_neg hle, hpeek, if_pos hstar]
    rfl

/-- Behind the `'*'`, by the digits. -/
lemma catchBody_starred (h : b.parsedLen < 100) :
    catchBody r b.starred =
      if 94 ≤ b.parsedLen then .ok (-1, b.kept h.le)
      else
        match b.declaredLen b.parsedLen with
        | none => rejectHeader r b.starred
        | some n =>
            if 100 < b.parsedLen + n then .ok (-1, b.kept h.le)
            else (b.loads r).map fun l => ((l.argCnt : Int), b.closed l) := by
  have hrem : (b.starred.rBuflen : Int) - b.starred.parsedLen = 98 - b.parsedLen := by
    show ((100 : ℕ) : Int) - ((b.parsedLen + 2 : ℕ) : Int) = _
    push_cast
    omega
  unfold catchBody
  simp only [hrem]
  by_cases h94 : 94 ≤ b.parsedLen
  · rw [if_pos (by omega), if_pos h94, keepCutMessage_eq b h rfl]
  · rw [if_neg (by omega), if_neg h94, readDigits_eq r _ _ _ (by simp [Buffer.starred]; omega)]
    have hdig : digitsVal (([b.starred.cursor, b.starred.cursor + 1, b.starred.cursor + 2,
        b.starred.cursor + 3]).map b.starred.byteAt) 0 = b.declaredLen b.parsedLen := rfl
    rw [hdig]
    cases b.declaredLen b.parsedLen with
    | none => rfl
    | some n =>
        simp only []
        by_cases hn : 100 < b.parsedLen + n
        · rw [if_pos (by omega), if_pos hn, keepCutMessage_eq b h rfl]
        · rw [if_neg (by omega), if_neg hn, ← parseOneMessage_eq]
          rfl

/-- Behind the `'*'`, `decod` goes on with the length of what is left of `rBuf`. -/
lemma decod_of_star (hrd : b.readDatalen ≤ 100) (h : b.head ≠ .nothing) :
    decod r b = (catchBody r b.starred).map fun x => (x.1.tdiv 3, x.2) := by
  obtain ⟨hlt, hstar, hgt⟩ := b.lt_of_head_ne_nothing hrd h
  have hpeek : r.peek { b with messageBeginpos := b.parsedLen, cursor := b.parsedLen }
      b.parsedLen = .ok (b.byteAt b.parsedLen) := r.peek_of_lt _ hlt
  unfold decod catchOneMessagefromBuffer
  simp only [if_neg (not_le.mpr hgt), hpeek, hstar, ne_eq, not_true_eq_false, if_false]
  unfold Buffer.starred
  cases catchBody r _ <;> rfl

/-- `decod` keeps a cut message. -/
theorem decod_cut (hrd : b.readDatalen ≤ 100) (h : b.head = .cut) (hp : b.parsedLen ≤ 100) :
    decod r b = .ok (0, b.kept hp) := by
  have hne : b.head ≠ .nothing := by simp [h]
  rw [decod_of_star r hrd hne, catchBody_starred r (b.lt_of_head_ne_nothing hrd hne).1]
  unfold Buffer.head at h
  split_ifs at h with h1 h2
  · rw [if_pos h2]
    rfl
  · rw [if_neg h2]
    cases hd : b.declaredLen b.parsedLen with
    | none => simp [hd] at h
    | some n =>
        have hn : 100 < b.parsedLen + n := by
          by_contra hn
          simp [hd, hn] at h
        simp only [if_pos hn]
        rfl

/-- `decod` logs and rejects a malformed message. -/
theorem decod_malformed (hrd : b.readDatalen ≤ 100) (h : b.head = .malformed) :
    decod r b = (rejectHeader r b.starred).map fun x => (x.1.tdiv 3, x.2) := by
  have hne : b.head ≠ .nothing := by simp [h]
  rw [decod_of_star r hrd hne, catchBody_starred r (b.lt_of_head_ne_nothing hrd hne).1]
  unfold Buffer.head at h
  split_ifs at h with h1 h2
  rw [if_neg h2]
  cases hd : b.declaredLen b.parsedLen with
  | none => rfl
  | some n =>
      simp only [hd] at h
      split_ifs at h

/-- `decod` loads a message. -/
theorem decod_message (hrd : b.readDatalen ≤ 100) (h : b.head = .message) :
    decod r b = (b.loads r).map fun l => ((l.argCnt : Int).tdiv 3, b.closed l) := by
  have hne : b.head ≠ .nothing := by simp [h]
  rw [decod_of_star r hrd hne, catchBody_starred r (b.lt_of_head_ne_nothing hrd hne).1]
  unfold Buffer.head at h
  split_ifs at h with h1 h2
  rw [if_neg h2]
  cases hd : b.declaredLen b.parsedLen with
  | none => simp [hd] at h
  | some n =>
      have hn : ¬ 100 < b.parsedLen + n := by
        intro hn
        simp [hd, hn] at h
      simp only [if_neg hn]
      cases b.loads r <;> rfl

/-- On the machine, a malformed message is always rejected. -/
theorem decod_malformed_record (hrd : b.readDatalen ≤ 100) (h : b.head = .malformed) :
    decod .record b = .ok (0, b.rejected 2) := by
  have hne : b.head ≠ .nothing := by simp [h]
  rw [decod_malformed .record hrd h,
    rejectHeader_record _ (b.lt_of_head_ne_nothing hrd hne).1]
  rfl

/-- What a call of `decod` on the machine can do. -/
inductive Decoded (b : Buffer) : Except Fault (Int × Buffer) → Prop
  /-- There is no message. -/
  | rejected (skip : ℕ) : Decoded b (.ok (0, b.rejected skip))
  /-- A cut message is kept. -/
  | kept (le : b.parsedLen ≤ 100) : Decoded b (.ok (0, b.kept le))
  /-- A message is loaded. -/
  | loaded (l : Loaded Byte) (head : b.head = .message) (loads : b.loads .record = .ok l) :
      Decoded b (.ok ((l.argCnt : Int).tdiv 3, b.closed l))
  /-- Loading it faults. -/
  | faults (f : Fault) (head : b.head = .message) (loads : b.loads .record = .error f) :
      Decoded b (.error f)

/-- **`decod` on the machine**, by what it finds. -/
theorem decod_record (hrd : b.readDatalen ≤ 100) : Decoded b (decod .record b) := by
  cases hh : b.head with
  | nothing =>
      rw [decod_nothing .record hrd hh]
      exact .rejected 0
  | cut =>
      have hp := (b.lt_of_head_ne_nothing hrd (by simp [hh])).1.le
      rw [decod_cut .record hrd hh hp]
      exact .kept hp
  | malformed =>
      rw [decod_malformed_record hrd hh]
      exact .rejected 2
  | message =>
      rw [decod_message .record hrd hh]
      cases hl : b.loads .record with
      | error f => exact .faults f hh hl
      | ok l => exact .loaded l hh hl

/-- **`decod` leaves something to dispatch only after loading a message.** -/
theorem decod_dispatches {b' : Buffer} {ret : Int} (hrd : b.readDatalen ≤ 100)
    (h : decod .record b = .ok (ret, b')) (hflag : ¬ (b'.parseFlag = 1 ∨ b'.parseFlag = -1)) :
    b.head = .message ∧ ∃ l, b.loads .record = .ok l ∧ b' = b.closed l := by
  have hdecod := decod_record hrd
  rw [h] at hdecod
  cases hdecod with
  | rejected skip => exact absurd (.inr rfl) hflag
  | kept le => exact absurd (.inl rfl) hflag
  | loaded l head loads => exact ⟨head, l, loads, rfl⟩

end Decod

/-- The inner loop of `tcpRead` goes on from `b` to `b'`: there is a message, its scan ends, and the
positions have moved there. The rows may be anything: an argument may not fit, and what its copy
leaves in them is then not determined. -/
inductive Pass (b : Buffer) : Buffer → Prop
  | intro (p : Place) (argv : Area Byte argvSize) (head : b.head = .message)
      (place : b.place .record = some p) : Pass b (b.closed (p.loaded argv))

/-- A call of `decod` that leaves something to dispatch is such a pass. -/
lemma pass_of_decod {b b' : Buffer} {ret : Int} (hrd : b.readDatalen ≤ 100)
    (h : decod .record b = .ok (ret, b')) (hflag : ¬ (b'.parseFlag = 1 ∨ b'.parseFlag = -1)) :
    Pass b b' := by
  obtain ⟨hh, l, hl, rfl⟩ := decod_dispatches hrd h hflag
  exact .intro l.place l.argv hh (b.place_of_loads hl)

end ActionDB.Net.Codec
