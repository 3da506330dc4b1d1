import ActionDB.Net.Reply

/-!
# Writing a whole buffer

`tcpWrite` of `net/tcpsocket.c` calls `write(2)` until the whole buffer is out. On a non-blocking
socket it may also give up: at the first call that returns `0` it returns what was sent so far, and
at the first one that fails `-1`.

It returns, for every sequence of results of `write(2)`, and what it returns says whether the buffer
is out: `count` if it is, and less if a part of it is missing (`tcpWrite_sends`). How much is
missing it says only when a call has returned `0`. `replay`, which the server uses, does not say
anything.
-/

namespace ActionDB.Net

open ActionDB.Found ActionDB.Net.Codec ActionDB.Kernel

section Write

variable (sys : ℕ → WriteResult)

/-- The loop; `buf` is what is left to send, and `none` says that the fuel has run out. -/
def tcpWriteLoop : ℕ → Int → Socket → List Byte → Option (Int × Socket)
  | 0, _, _, _ => none
  | fuel + 1, totlen, k, buf =>
      if buf.length = 0 then some (totlen, k)
      else
        let (nwritten, k) := write sys k buf
        if nwritten = 0 then some (totlen, k)
        else if nwritten = -1 then some (-1, k)
        else tcpWriteLoop fuel (totlen + nwritten) k (buf.drop nwritten.toNat)

/-- A pass that goes on takes a byte. Source: `net/tcpsocket.c`, `tcpWrite`. -/
def tcpWrite (k : Socket) (buf : List Byte) : Option (Int × Socket) :=
  tcpWriteLoop sys (buf.length + 1) 0 k buf

variable {sys}

/-- The calls from `k` to `k'` take `sent`, one part after the other, and each of them takes
something. -/
structure Sends (sys : ℕ → WriteResult) (k : Socket) (sent : List Byte) (k' : Socket) : Prop where
  calls_le : k.calls ≤ k'.calls
  accepted : k'.accepted = k.accepted ++ sent
  takes : ∀ i, k.calls ≤ i → i < k'.calls → ∃ more, sys i = .accepted more

lemma Sends.refl (k : Socket) : Sends sys k [] k :=
  ⟨le_rfl, (List.append_nil _).symm, fun _ h₁ h₂ => absurd h₁ (not_le.mpr h₂)⟩

/-- A call that takes a part, and then the others. -/
lemma Sends.head {k k' : Socket} {more : ℕ} {buf sent : List Byte}
    (hcall : sys k.calls = .accepted more) (h : Sends sys (write sys k buf).2 sent k') :
    Sends sys k (buf.take (more + 1) ++ sent) k' := by
  have hle : k.calls + 1 ≤ k'.calls := h.calls_le
  refine ⟨by omega, ?_, fun i h₁ h₂ => ?_⟩
  · rw [h.accepted, write, hcall, List.append_assoc]
    rfl
  · rcases eq_or_lt_of_le h₁ with rfl | hlt
    · exact ⟨more, hcall⟩
    · exact h.takes i hlt h₂

/-- A call that takes something takes a byte. -/
lemma length_part_pos {buf : List Byte} (hne : buf ≠ []) (more : ℕ) :
    0 < (buf.take (more + 1)).length := by
  have hlen := List.length_pos_iff.mpr hne
  rw [List.length_take]
  omega

/-- A pass of the loop whose call takes a part. -/
lemma tcpWriteLoop_accepted {fuel more : ℕ} {totlen : Int} {k : Socket} {buf : List Byte}
    (hne : buf ≠ []) (hcall : sys k.calls = .accepted more) :
    tcpWriteLoop sys (fuel + 1) totlen k buf =
      tcpWriteLoop sys fuel (totlen + (buf.take (more + 1)).length) (write sys k buf).2
        (buf.drop (buf.take (more + 1)).length) := by
  have hlen := List.length_pos_iff.mpr hne
  have hpos := length_part_pos hne more
  rw [tcpWriteLoop, if_neg (by omega)]
  simp only [write, hcall, WriteResult.ret, Int.toNat_natCast]
  rw [if_neg (by omega), if_neg (by omega)]

/-- How the loop can end: with `ret` and the socket `k'`, `buf` being what was left to send and
`totlen` what was sent before. -/
inductive Writes (sys : ℕ → WriteResult) (totlen : Int) (k : Socket) (buf : List Byte) :
    Int → Socket → Prop
  /-- The whole buffer is out. -/
  | whole (k' : Socket) (sends : Sends sys k buf k') :
      Writes sys totlen k buf (totlen + buf.length) k'
  /-- A call returns `0`: what was sent so far is returned. -/
  | short (sent left : List Byte) (k' : Socket) (split : buf = sent ++ left) (left_ne : left ≠ [])
      (sends : Sends sys k sent k') (last : sys k'.calls = .zero) :
      Writes sys totlen k buf (totlen + sent.length) (write sys k' left).2
  /-- A call fails. -/
  | failed (sent left : List Byte) (k' : Socket) (split : buf = sent ++ left) (left_ne : left ≠ [])
      (sends : Sends sys k sent k') (last : sys k'.calls = .again) :
      Writes sys totlen k buf (-1) (write sys k' left).2

/-- A call that takes a part, and then the rest of the loop. -/
lemma Writes.head {totlen ret : Int} {k k' : Socket} {more : ℕ} {buf : List Byte}
    (hcall : sys k.calls = .accepted more)
    (h : Writes sys (totlen + (buf.take (more + 1)).length) (write sys k buf).2
      (buf.drop (buf.take (more + 1)).length) ret k') : Writes sys totlen k buf ret k' := by
  have hwhole : buf.take (more + 1) ++ buf.drop (buf.take (more + 1)).length = buf :=
    List.prefix_iff_eq_append.mp (List.take_prefix _ _)
  have hlen := congrArg List.length hwhole
  rw [List.length_append] at hlen
  cases h with
  | whole k' sends =>
      have hsends := sends.head hcall
      rw [hwhole] at hsends
      rw [Int.add_assoc, ← Int.natCast_add, hlen]
      exact .whole k' hsends
  | short sent left k' split left_ne sends last =>
      rw [Int.add_assoc, ← Int.natCast_add, ← List.length_append]
      refine .short _ left k' ?_ left_ne (sends.head hcall) last
      rw [List.append_assoc, ← split, hwhole]
  | failed sent left k' split left_ne sends last =>
      refine .failed _ left k' ?_ left_ne (sends.head hcall) last
      rw [List.append_assoc, ← split, hwhole]

/-- The loop, by induction on the fuel: every call that takes something makes what is left
shorter. -/
lemma tcpWriteLoop_writes {fuel : ℕ} {totlen : Int} {k : Socket} {buf : List Byte}
    (hfuel : buf.length < fuel) :
    ∃ ret k', tcpWriteLoop sys fuel totlen k buf = some (ret, k') ∧
      Writes sys totlen k buf ret k' := by
  induction fuel generalizing totlen k buf with
  | zero => exact absurd hfuel (Nat.not_lt_zero _)
  | succ fuel ih =>
      by_cases hnil : buf = []
      · subst hnil
        refine ⟨_, k, ?_, .whole k (.refl k)⟩
        simp [tcpWriteLoop]
      have hne : ¬buf.length = 0 := by simpa using hnil
      cases hcall : sys k.calls with
      | zero =>
          refine ⟨_, _, ?_, .short [] buf k rfl hnil (.refl k) hcall⟩
          rw [tcpWriteLoop, if_neg hne]
          simp [write, hcall, WriteResult.ret]
      | again =>
          refine ⟨_, _, ?_, .failed [] buf k rfl hnil (.refl k) hcall⟩
          rw [tcpWriteLoop, if_neg hne]
          simp [write, hcall, WriteResult.ret]
      | accepted more =>
          have hpos := length_part_pos hnil more
          rw [tcpWriteLoop_accepted hnil hcall]
          obtain ⟨ret, k', hrun, hwrites⟩ := @ih (totlen + (buf.take (more + 1)).length)
            (write sys k buf).2 (buf.drop (buf.take (more + 1)).length)
            (by rw [List.length_drop]; omega)
          exact ⟨ret, k', hrun, hwrites.head hcall⟩

/-- What was sent is less than the buffer, if something is left. -/
lemma Writes.accepted_iff {ret : Int} {k k' : Socket} {buf : List Byte}
    (h : Writes sys 0 k buf ret k') : ret = buf.length ↔ k'.accepted = k.accepted ++ buf := by
  -- a call that takes nothing, behind those that have taken a part
  have hpart : ∀ {sent left : List Byte} {k'' : Socket}, buf = sent ++ left → left ≠ [] →
      Sends sys k sent k'' → (sys k''.calls).taken left = [] →
      sent.length < buf.length ∧ (write sys k'' left).2.accepted ≠ k.accepted ++ buf := by
    intro sent left k'' hsplit hleft hsends hnone
    have hpos := List.length_pos_iff.mpr hleft
    refine ⟨by rw [hsplit, List.length_append]; omega, fun heq => hleft ?_⟩
    rw [write, hnone, List.append_nil, hsends.accepted, hsplit] at heq
    exact List.self_eq_append_right.mp (List.append_cancel_left heq)
  cases h with
  | whole k' sends => exact iff_of_true (Int.zero_add _) sends.accepted
  | short sent left k' split left_ne sends last =>
      obtain ⟨hlt, hne⟩ := hpart split left_ne sends (by rw [last]; rfl)
      exact iff_of_false (by omega) hne
  | failed sent left k' split left_ne sends last =>
      obtain ⟨-, hne⟩ := hpart split left_ne sends (by rw [last]; rfl)
      exact iff_of_false (by omega) hne

variable (sys)

/-- **`tcpWrite` returns, and says whether the buffer is out.** It returns `count` exactly when the
socket has taken the buffer, in order and once. Otherwise a call of `write(2)` has returned `0` or
failed, the socket has taken what the calls before it took, and the result is the length of that
part, or `-1`. -/
theorem tcpWrite_sends (k : Socket) (buf : List Byte) :
    ∃ ret k', tcpWrite sys k buf = some (ret, k') ∧ Writes sys 0 k buf ret k' ∧
      (ret = buf.length ↔ k'.accepted = k.accepted ++ buf) := by
  obtain ⟨ret, k', hrun, hwrites⟩ :=
    @tcpWriteLoop_writes sys _ 0 k buf (Nat.lt_succ_self buf.length)
  exact ⟨ret, k', hrun, hwrites, hwrites.accepted_iff⟩

end Write

end ActionDB.Net
