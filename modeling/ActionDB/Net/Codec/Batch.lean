import ActionDB.Net.Codec.Frame
import ActionDB.Net.Codec.Receive

/-!
# Draining a buffer of frames

The inner loop of `tcpRead` on a buffer that holds frames one behind another, each optionally
followed by a newline. `drain_batch` is the run lemma: by induction on the frames, with
`decod_frame` as the step, the loop dispatches them in order and arrives behind the last one.

The loop condition of the scan compares `parsedLen` with `readDatalen` only, so the run lemma
asks of every frame that it starts before `readDatalen` and that `readDatalen` is not one of its
stops (`Passes`). When one read delivers the whole buffer content this always holds, and decoding
undoes encoding (`readOnce_batch`).
-/

namespace ActionDB.Net.Codec

open ActionDB.Found

/-! ## Batches -/

/-- A frame in the stream, and whether a newline follows it. -/
structure Line where
  command : Command
  newlined : Bool
  deriving DecidableEq, Repr

/-- The bytes of a line. -/
def Line.bytes (l : Line) : List Byte := l.command.frame ++ if l.newlined then [newline] else []

/-- The bytes of lines, one behind another. -/
def batch (ls : List Line) : List Byte := ls.flatMap Line.bytes

lemma Line.length_bytes (l : Line) :
    l.bytes.length = l.command.frameLen + if l.newlined then 1 else 0 := by
  unfold Line.bytes
  split_ifs <;> simp [l.command.length_frame]

lemma batch_cons (l : Line) (ls : List Line) : batch (l :: ls) = l.bytes ++ batch ls := rfl

/-- No line starts with a newline. -/
lemma headD_batch_ne {ls : List Line} {tail : List Byte} (hok : ∀ l ∈ ls, l.command.Ok)
    (htail : tail.headD 0 ≠ newline) : (batch ls ++ tail).headD 0 ≠ newline := by
  cases ls with
  | nil => exact htail
  | cons l ls =>
      have hne : star ≠ newline := by decide
      rw [batch_cons, Line.bytes, l.command.frame_eq (hok l List.mem_cons_self)]
      exact hne

/-- With `readDatalen = rd`, the scan passes lines that start at offset `p`. -/
def Passes (rd : Int) (p : ℕ) : List Line → Prop
  | [] => True
  | l :: ls => (p : Int) < rd ∧ (∀ o ∈ l.command.stops p, (o : Int) ≠ rd) ∧
      Passes rd (p + l.bytes.length) ls

instance Passes.decidable (rd : Int) : (p : ℕ) → (ls : List Line) → Decidable (Passes rd p ls)
  | _, [] => .isTrue trivial
  | p, l :: ls => by
      have := Passes.decidable rd (p + l.bytes.length) ls
      exact inferInstanceAs (Decidable (_ ∧ _ ∧ _))

/-- When `readDatalen` is not inside the lines, the scan passes them. -/
lemma passes_of_le {rd : Int} {p : ℕ} {ls : List Line} (hok : ∀ l ∈ ls, l.command.Ok)
    (h : ((p + (batch ls).length : ℕ) : Int) ≤ rd) : Passes rd p ls := by
  induction ls generalizing p with
  | nil => trivial
  | cons l ls ih =>
      have h14 := (l.command.frameLen_bounds (hok l List.mem_cons_self)).1
      have hlen := l.length_bytes
      rw [batch_cons, List.length_append] at h
      refine ⟨by omega, ?_, ih (fun m hm => hok m (List.mem_cons_of_mem _ hm)) (by omega)⟩
      intro o ho
      have := Command.lt_of_mem_stops ho
      omega

/-! ## The inner loop -/

/-- What decoding a message leaves alone. -/
structure SameInput (b b' : Buffer) : Prop where
  rBuf : b'.rBuf = b.rBuf
  readDatalen : b'.readDatalen = b.readDatalen
  corruptMessagelen : b'.corruptMessagelen = b.corruptMessagelen

/-- One pass of the loop: `decod` leaves a message, which is dispatched. -/
lemma drain_succ_of_message {r : Region} {b b' : Buffer} {ret : Int} {a : Action}
    (hd : decod r b = .ok (ret, b')) (hflag : b'.parseFlag = 0) (ha : dispatch b'.argv = .ok a)
    (hne : a ≠ .shutdown) (fuel : ℕ) :
    drain r (fuel + 1) b = (.decod b :: .act a :: (drain r fuel b').1, (drain r fuel b').2) := by
  have hf : ¬ (b'.parseFlag = 1 ∨ b'.parseFlag = -1) := by
    rw [hflag]
    decide
  rw [drain]
  simp only [hd, if_neg hf, ha]

lemma drain_succ_of_done {r : Region} {b b' : Buffer} {ret : Int}
    (hd : decod r b = .ok (ret, b')) (hflag : b'.parseFlag = 1 ∨ b'.parseFlag = -1) (fuel : ℕ) :
    drain r (fuel + 1) b = ([.decod b], .ok b') := by
  unfold drain
  simp only [hd, if_pos hflag]

lemma Command.action_ne_shutdown (c : Command) : c.action ≠ .shutdown := by
  cases c <;> simp [Command.action]

/-- **Draining lines.** The loop dispatches their commands in order and then stands behind the
last line; or, the loop condition having failed at the last argument of the last line, at
`readDatalen`. -/
theorem drain_batch (ls : List Line) (b : Buffer) (tail : List Byte)
    (hok : ∀ l ∈ ls, l.command.Ok) (hbuf : b.rBuf.cells.drop b.parsedLen = batch ls ++ tail)
    (htail : tail.headD 0 ≠ newline) (hrd : b.readDatalen ≤ 100)
    (hpass : Passes b.readDatalen b.parsedLen ls) :
    ∃ ev b', dispatched ev = ls.map (·.command.action) ∧ SameInput b b' ∧
      (b'.parsedLen = b.parsedLen + (batch ls).length ∨
        (b'.parsedLen : Int) = b.readDatalen ∧
          b.readDatalen < (b.parsedLen + (batch ls).length : ℕ)) ∧
      ∀ fuel, drain .record (ls.length + fuel) b =
        (ev ++ (drain .record fuel b').1, (drain .record fuel b').2) := by
  induction ls generalizing b with
  | nil => exact ⟨[], b, rfl, ⟨rfl, rfl, rfl⟩, .inl rfl, fun fuel => by simp⟩
  | cons l ls ih =>
      obtain ⟨hlt, hstop, hpass'⟩ := hpass
      have hokl := hok l List.mem_cons_self
      have hoks : ∀ m ∈ ls, m.command.Ok := fun m hm => hok m (List.mem_cons_of_mem _ hm)
      have hframe : b.rBuf.cells.drop b.parsedLen =
          l.command.frame ++ ((if l.newlined then [newline] else []) ++ (batch ls ++ tail)) := by
        rw [hbuf, batch_cons, Line.bytes]
        simp only [List.append_assoc]
      obtain ⟨ret, ld, hd, ha, hpos⟩ := decod_frame hokl hframe hrd hlt hstop
      have hstep := drain_succ_of_message (a := l.command.action) hd rfl ha
        l.command.action_ne_shutdown
      have hlen := l.length_bytes
      -- the look-ahead finds the newline of this line and no other
      have hnl : ((if l.newlined then [newline] else []) ++ (batch ls ++ tail)).headD 0 = newline ↔
          l.newlined = true := by
        cases hn : l.newlined with
        | true => simp
        | false => simpa using headD_batch_ne hoks htail
      rw [if_congr hnl rfl rfl] at hpos
      rcases hpos with hpos | ⟨hpos, hshort⟩
      · have hp : (b.closed ld).parsedLen = b.parsedLen + l.bytes.length := by
          show ld.parsedLen = _
          omega
        have hbuf' : (b.closed ld).rBuf.cells.drop (b.closed ld).parsedLen = batch ls ++ tail := by
          show b.rBuf.cells.drop _ = _
          rw [hp, ← List.drop_drop, hbuf, batch_cons, List.append_assoc, List.drop_left]
        obtain ⟨ev, b', hev, hsame, hend, hrun⟩ := ih (b.closed ld) hoks hbuf' hrd
          (by rw [hp]; exact hpass')
        refine ⟨.decod b :: .act l.command.action :: ev, b', ?_,
          ⟨hsame.rBuf, hsame.readDatalen, hsame.corruptMessagelen⟩, ?_, ?_⟩
        · simp only [List.map_cons, ← hev]
          rfl
        · rw [hp, Nat.add_assoc, ← List.length_append, ← batch_cons] at hend
          exact hend
        · intro fuel
          have := hstep (ls.length + fuel)
          rw [hrun fuel] at this
          rw [List.length_cons, Nat.add_right_comm, this]
          rfl
      · -- the scan stopped at `readDatalen`, inside this line: no other line can follow
        have hnil : ls = [] := by
          cases ls with
          | nil => rfl
          | cons m ls =>
              have := hpass'.1
              omega
        subst hnil
        refine ⟨[.decod b, .act l.command.action], b.closed ld, rfl, ⟨rfl, rfl, rfl⟩,
          .inr ⟨hpos, ?_⟩, ?_⟩
        · rw [batch_cons, List.length_append]
          omega
        · intro fuel
          rw [List.length_cons, List.length_nil, Nat.zero_add, Nat.add_comm, hstep fuel]
          rfl

/-! ## Nothing left -/

/-- At or behind `readDatalen` there is nothing to decode. -/
lemma decod_of_readDatalen_le {r : Region} {b : Buffer} (hrd : b.readDatalen ≤ 100)
    (h : b.readDatalen ≤ b.parsedLen) : decod r b = .ok (0, b.rejected 0) :=
  decod_nothing r hrd (by rw [Buffer.head, if_pos (.inl h)])

/-- A batch has few lines. -/
lemma length_le_batch {ls : List Line} (hok : ∀ l ∈ ls, l.command.Ok) :
    14 * ls.length ≤ (batch ls).length := by
  induction ls with
  | nil => simp
  | cons l ls ih =>
      have h14 := (l.command.frameLen_bounds (hok l List.mem_cons_self)).1
      have hlen := l.length_bytes
      have := ih fun m hm => hok m (List.mem_cons_of_mem _ hm)
      rw [batch_cons, List.length_append, List.length_cons]
      omega

/-- **A read that leaves lines at the front of `rBuf`**: they are dispatched, and what is left of
the read is the next call of `decod`, if that ends the loop. -/
theorem readOnce_lines {b : Buffer} {bytes : List Byte}
    (hfit : b.corruptMessagelen + (ReadResult.data bytes).bytes.length ≤ 100)
    (ls : List Line) (tail : List Byte) (hok : ∀ l ∈ ls, l.command.Ok)
    (hbuf : (b.filled (.data bytes) hfit).rBuf.cells = batch ls ++ tail)
    (htail : tail.headD 0 ≠ newline) (hpass : Passes bytes.length 0 ls) :
    ∃ ev b₁, dispatched ev = ls.map (·.command.action) ∧
      SameInput (b.filled (.data bytes) hfit) b₁ ∧
      (b₁.parsedLen = (batch ls).length ∨
        b₁.parsedLen = bytes.length ∧ bytes.length < (batch ls).length) ∧
      ∀ ret b₂, decod .record b₁ = .ok (ret, b₂) → b₂.parseFlag = 1 ∨ b₂.parseFlag = -1 →
        ∃ ev', readOnce b (.data bytes) = (ev', .ok b₂) ∧ dispatched ev' = dispatched ev := by
  have hlen : bytes.length ≤ 100 := (Nat.le_add_left _ _).trans hfit
  have hrd : (b.filled (.data bytes) hfit).readDatalen ≤ 100 := by
    show (bytes.length : Int) ≤ 100
    omega
  obtain ⟨ev, b₁, hev, hsame, hend, hrun⟩ := drain_batch ls (b.filled (.data bytes) hfit) tail hok
    hbuf htail hrd hpass
  refine ⟨ev, b₁, hev, hsame, ?_, ?_⟩
  · rcases hend with h | ⟨h, hlt⟩
    · left
      rw [h]
      exact Nat.zero_add _
    · right
      have h' : (b₁.parsedLen : Int) = bytes.length := h
      have hlt' : (bytes.length : Int) < ((0 + (batch ls).length : ℕ) : Int) := hlt
      omega
  · intro ret b₂ hd hflag
    -- seven lines at most, so the fuel is enough for all of them and the last call
    have hcells := congrArg List.length hbuf
    rw [Buffer.length_rBuf, List.length_append] at hcells
    have hfew := length_le_batch hok
    obtain ⟨fuel, hf⟩ : ∃ fuel, drainFuel = ls.length + (fuel + 1) :=
      ⟨99 - ls.length, by show 100 = _; omega⟩
    refine ⟨ev ++ [.decod b₁], ?_, ?_⟩
    · rw [readOnce_eq, dif_pos hfit, if_neg (by simp), hf, hrun (fuel + 1),
        drain_succ_of_done hd hflag]
    · rw [dispatched_append]
      simp [dispatched]

/-- Zeros are not a newline. -/
lemma headD_zeros_ne (n : ℕ) : (List.replicate n (0 : Byte)).headD 0 ≠ newline := by
  cases n <;> simp [newline, List.replicate_succ]

/-- **Decoding undoes encoding.** A connection that has kept no bytes and receives a batch of
lines in one read dispatches their commands in order, whatever `argv` and `rBuf` held before, and
is left with nothing to decode and nothing kept. -/
theorem readOnce_batch (ls : List Line) (hok : ∀ l ∈ ls, l.command.Ok)
    (hlen : (batch ls).length < initBufferSize) (b : Buffer) (hb : b.corruptMessagelen = 0) :
    ∃ ev b', readOnce b (.data (batch ls)) = (ev, .ok b') ∧
      dispatched ev = ls.map (·.command.action) ∧
      b'.parseFlag = -1 ∧ b'.corruptMessagelen = 0 := by
  have hlt : (batch ls).length < 100 := hlen
  have hfit : b.corruptMessagelen + (ReadResult.data (batch ls)).bytes.length ≤ 100 := by
    rw [hb, Nat.zero_add]
    exact hlt.le
  have hbuf : (b.filled (.data (batch ls)) hfit).rBuf.cells =
      batch ls ++ List.replicate (100 - (batch ls).length) 0 := by
    simp [Buffer.filled, ReadResult.bytes, hb]
  have hpass : Passes (batch ls).length 0 ls := by
    apply passes_of_le hok
    rw [Nat.zero_add]
  obtain ⟨ev, b₁, hev, hsame, hend, hrun⟩ :=
    readOnce_lines hfit ls _ hok hbuf (headD_zeros_ne _) hpass
  have hrd : b₁.readDatalen = (batch ls).length := hsame.readDatalen
  have hdone : decod .record b₁ = .ok (0, b₁.rejected 0) :=
    decod_of_readDatalen_le (by omega) (by omega)
  obtain ⟨ev', hread, hev'⟩ := hrun _ _ hdone (.inr rfl)
  exact ⟨ev', b₁.rejected 0, hread, hev'.trans hev, rfl, rfl⟩

/-- `readOnce_batch` on the batch `set k v`, newline, `get k`. -/
theorem readOnce_batch_pair :
    ∃ ev b', readOnce initBuf (.data (batch [⟨.set [107] [118], true⟩, ⟨.get [107], false⟩])) =
        (ev, .ok b') ∧
      dispatched ev = [.set [107] [118], .get [107]] ∧ b'.parseFlag = -1 ∧
      b'.corruptMessagelen = 0 :=
  readOnce_batch [⟨.set [107] [118], true⟩, ⟨.get [107], false⟩] (by decide) (by decide) initBuf rfl

end ActionDB.Net.Codec
