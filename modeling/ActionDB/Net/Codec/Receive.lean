import ActionDB.Net.Codec.Head
import ActionDB.Net.Codec.TcpRead

/-!
# A connection as one loop over its reads

`tcpRead` clears the part of `rBuf` behind the kept bytes, reads into it, and drains it; on
`EAGAIN` it returns, and the next call starts by clearing the same part again. Hence where one
call ends and the next begins makes no difference: `connEvents_eq_feed` reduces a connection to
`feed`, one pass of `readOnce` for each result of `read(2)`.

* `Buffer.filled` is the buffer that `decod` first sees after a read, and `readOnce_eq` replaces
  the writes by it. A read that fails with `EAGAIN` makes no difference to the ones after it
  (`feed_again`).
* `drain_step` says once what a pass of the inner loop can do; what holds of the loop is proved from
  it by induction on the fuel.
* `calls_feed` is the invariant rule: what holds after every read and is kept by `decod` holds
  in every state in which `decod` is called. `held_of_mem_calls` is its use: behind the bytes that
  a buffer holds there are only zeros.
-/

namespace ActionDB.Net.Codec

open ActionDB.Found

/-! ## One read -/

/-- The bytes a result delivers. -/
def ReadResult.bytes : ReadResult → List Byte
  | data bytes => bytes
  | _ => []

/-- The buffer after a read: the kept bytes, the bytes of the read, and zeros. -/
def Buffer.filled (b : Buffer) (x : ReadResult)
    (h : b.corruptMessagelen + x.bytes.length ≤ 100) : Buffer :=
  { b with
    rpos := b.corruptMessagelen, rBuflenRemain := 100 - b.corruptMessagelen
    readDatalen := x.nread, parsedLen := 0
    rBuf := ⟨b.rBuf.cells.take b.corruptMessagelen ++
      (x.bytes ++ List.replicate (100 - (b.corruptMessagelen + x.bytes.length)) 0), by
        simp [initBufferSize]
        omega⟩ }

/-- The buffer with the part behind the kept bytes cleared. -/
def Buffer.cleared (b : Buffer) (h : b.corruptMessagelen ≤ 100) : Buffer :=
  { b with
    rpos := b.corruptMessagelen, rBuflenRemain := 100 - b.corruptMessagelen
    rBuf := ⟨b.rBuf.cells.take b.corruptMessagelen ++
      List.replicate (100 - b.corruptMessagelen) 0, by
        simp [initBufferSize]
        omega⟩ }

/-- The kept bytes, when they fit. -/
lemma Buffer.length_take_kept (b : Buffer) (h : b.corruptMessagelen ≤ 100) :
    (b.rBuf.cells.take b.corruptMessagelen).length = b.corruptMessagelen := by
  simpa using h

lemma prepare_of_le {b : Buffer} (h : b.corruptMessagelen ≤ 100) :
    prepare b = .ok (b.cleared h) := by
  have hw : b.corruptMessagelen + (List.replicate (100 - b.corruptMessagelen) (0 : Byte)).length ≤
      initBufferSize := by
    rw [List.length_replicate]
    show _ ≤ 100
    omega
  simp only [prepare, Buffer.rBuflen, initBufferSize]
  rw [Area.write_of_le hw]
  simp only [Buffer.cleared, Area.put]
  simp [h]

lemma prepare_of_lt {b : Buffer} (h : 100 < b.corruptMessagelen) :
    prepare b = .error .rBufOverflow := by
  have hw : initBufferSize <
      b.corruptMessagelen + (List.replicate (100 - b.corruptMessagelen) (0 : Byte)).length := by
    rw [List.length_replicate]
    show 100 < _
    omega
  simp only [prepare, Buffer.rBuflen, initBufferSize]
  rw [Area.write_of_lt hw]

/-- Clearing a cleared buffer changes nothing. -/
lemma prepare_cleared {b : Buffer} (h : b.corruptMessagelen ≤ 100) :
    prepare (b.cleared h) = .ok (b.cleared h) := by
  rw [prepare_of_le (show (b.cleared h).corruptMessagelen ≤ 100 from h)]
  simp only [Buffer.cleared, List.take_left' (b.length_take_kept h)]

/-- A read that fits fills the cleared buffer. -/
lemma receive_cleared {b : Buffer} {x : ReadResult} (hc : b.corruptMessagelen ≤ 100)
    (h : b.corruptMessagelen + x.bytes.length ≤ 100) :
    receive (b.cleared hc) x = .ok (b.filled x h) := by
  cases x with
  | data bytes =>
      have h' : b.corruptMessagelen + bytes.length ≤ 100 := h
      have hlen := b.length_take_kept hc
      have hsub : 100 - b.corruptMessagelen - bytes.length =
          100 - (b.corruptMessagelen + bytes.length) := by omega
      have hput : (b.cleared hc).rBuf.put b.corruptMessagelen bytes h' = (b.filled _ h).rBuf := by
        ext1
        simp only [Area.put, Buffer.filled, Buffer.cleared, ReadResult.bytes]
        rw [List.take_left' hlen, ← List.drop_drop, List.drop_left' hlen, List.drop_replicate,
          hsub, List.append_assoc]
      simp only [receive]
      rw [Area.write_of_le (show (b.cleared hc).rpos + bytes.length ≤ initBufferSize from h')]
      exact congrArg (fun rBuf => Except.ok { b.filled (.data bytes) h with rBuf }) hput
  | eof | again | error =>
      simp [receive, Buffer.filled, Buffer.cleared, ReadResult.bytes]

/-- **One read**: it fills the buffer, or does not fit. -/
lemma prepare_receive (b : Buffer) (x : ReadResult) :
    (prepare b).bind (receive · x) =
      if h : b.corruptMessagelen + x.bytes.length ≤ 100 then .ok (b.filled x h)
      else .error .rBufOverflow := by
  by_cases hc : b.corruptMessagelen ≤ 100
  · rw [prepare_of_le hc]
    by_cases h : b.corruptMessagelen + x.bytes.length ≤ 100
    · rw [dif_pos h]
      exact receive_cleared hc h
    · rw [dif_neg h]
      cases x with
      | data bytes =>
          have hlt : initBufferSize < (b.cleared hc).rpos + bytes.length := by
            show 100 < b.corruptMessagelen + bytes.length
            exact not_le.mp h
          simp only [Except.bind, receive]
          rw [Area.write_of_lt hlt]
      | eof | again | error => exact absurd hc h
  · rw [prepare_of_lt (by omega), dif_neg (by omega)]
    rfl

/-- `readOnce` on the filled buffer. -/
lemma readOnce_eq (b : Buffer) (x : ReadResult) :
    readOnce b x =
      if h : b.corruptMessagelen + x.bytes.length ≤ 100 then
        if x = .eof ∨ x = .again then ([], .ok (b.filled x h))
        else drain .record drainFuel (b.filled x h)
      else ([], .error (.fault .rBufOverflow)) := by
  unfold readOnce
  rw [prepare_receive]
  by_cases h : b.corruptMessagelen + x.bytes.length ≤ 100
  · rw [dif_pos h, dif_pos h]
    cases x <;> simp
  · rw [dif_neg h, dif_neg h]

/-- Filling a filled buffer: of the first read only what was kept before it is left. -/
lemma filled_filled {b : Buffer} {x y : ReadResult}
    (hx : b.corruptMessagelen + x.bytes.length ≤ 100)
    (hy : b.corruptMessagelen + y.bytes.length ≤ 100) :
    (b.filled x hx).filled y hy = b.filled y hy := by
  have hlen := b.length_take_kept ((Nat.le_add_right _ _).trans hx)
  simp only [Buffer.filled, List.take_left' hlen]

lemma readOnce_filled {b : Buffer} {x : ReadResult}
    (hx : b.corruptMessagelen + x.bytes.length ≤ 100) (y : ReadResult) :
    readOnce (b.filled x hx) y = readOnce b y := by
  have hsame : (b.filled x hx).corruptMessagelen = b.corruptMessagelen := rfl
  rw [readOnce_eq, readOnce_eq]
  by_cases hy : b.corruptMessagelen + y.bytes.length ≤ 100
  · rw [dif_pos hy, dif_pos (hsame ▸ hy), filled_filled hx hy]
  · rw [dif_neg hy, dif_neg (hsame ▸ hy)]

/-- On `EAGAIN` the buffer is cleared behind the kept bytes, and `tcpRead` returns. -/
lemma readOnce_again {b : Buffer} (hk : b.corruptMessagelen ≤ 100) :
    readOnce b .again = ([], .ok (b.filled .again hk)) := by
  have hfit : b.corruptMessagelen + ReadResult.again.bytes.length ≤ 100 := hk
  rw [readOnce_eq, dif_pos hfit, if_pos (.inr rfl)]

/-! ## All reads -/

/-- The events of a connection, one `readOnce` for each result. -/
def feed (b : Buffer) : List ReadResult → List Event
  | [] => []
  | x :: xs =>
      match readOnce b x with
      | (ev, .error _) => ev
      | (ev, .ok b') => if x = .eof then ev else ev ++ feed b' xs

/-- The clearing at the start of `tcpRead` is repeated by its first read. -/
lemma readOnce_cleared {b : Buffer} (h : b.corruptMessagelen ≤ 100) (x : ReadResult) :
    readOnce (b.cleared h) x = readOnce b x := by
  unfold readOnce
  rw [prepare_cleared h, prepare_of_le h]

lemma tcpRead_eq_readLoop (b : Buffer) (xs : List ReadResult) : tcpRead b xs = readLoop b xs := by
  by_cases h : b.corruptMessagelen ≤ 100
  · unfold tcpRead
    rw [prepare_of_le h]
    cases xs <;> simp only [readLoop, readOnce_cleared h]
  · have hp := prepare_of_lt (b := b) (by omega)
    unfold tcpRead
    rw [hp]
    cases xs <;> simp [readLoop, readOnce, hp, Except.bind]

lemma feed_cons_of_error {b : Buffer} {x : ReadResult} {xs : List ReadResult} {ev : List Event}
    {s : Stop} (h : readOnce b x = (ev, .error s)) : feed b (x :: xs) = ev := by
  simp only [feed, h]

lemma feed_cons_of_ok {b b' : Buffer} {x : ReadResult} {xs : List ReadResult} {ev : List Event}
    (h : readOnce b x = (ev, .ok b')) (hx : x ≠ .eof) : feed b (x :: xs) = ev ++ feed b' xs := by
  simp only [feed, h, if_neg hx]

/-- A read that fails with `EAGAIN` changes nothing in what follows. -/
lemma feed_again (b : Buffer) (xs : List ReadResult) : feed b (.again :: xs) = feed b xs := by
  by_cases hk : b.corruptMessagelen ≤ 100
  · rw [feed_cons_of_ok (readOnce_again hk) (by decide), List.nil_append]
    cases xs with
    | nil => rfl
    | cons y ys =>
        have hread := readOnce_filled (x := .again) hk y
        simp only [feed, hread]
  · -- more is kept than fits: every read faults
    have hfault : ∀ x, readOnce b x = ([], .error (.fault .rBufOverflow)) := by
      intro x
      rw [readOnce_eq, dif_neg (by omega)]
    rw [feed_cons_of_error (hfault .again)]
    cases xs with
    | nil => rfl
    | cons y ys => rw [feed_cons_of_error (hfault y)]

/-- What is left of the results after one call of `tcpRead`, whose events come first. -/
lemma readLoop_feed (b : Buffer) (xs : List ReadResult) :
    match readLoop b xs with
    | (ev, .ret code b' rest) =>
        rest.length ≤ xs.length ∧ (xs ≠ [] → rest.length < xs.length) ∧
          feed b xs = ev ++ if code = -1 then feed b' rest else []
    | (ev, .stop _) => feed b xs = ev := by
  induction xs generalizing b with
  | nil =>
      simp only [readLoop, feed]
      have hev : (readOnce b .again).1 = [] := by
        rw [readOnce_eq]
        split_ifs <;> simp_all
      rcases h : readOnce b .again with ⟨ev, s | b'⟩
      · rw [h] at hev
        exact hev.symm
      · rw [h] at hev
        exact ⟨le_rfl, fun h => absurd rfl h, by simpa [feed] using hev⟩
  | cons x xs ih =>
      simp only [readLoop]
      rcases h : readOnce b x with ⟨ev, s | b'⟩
      · exact feed_cons_of_error h
      · cases x with
        | eof => simp [feed, h]
        | again => simp [feed_cons_of_ok h]
        | data bytes | error =>
            have := ih b'
            simp only [feed_cons_of_ok h (by simp)]
            rcases hl : readLoop b' xs with ⟨ev', ⟨code, b'', rest⟩ | s⟩
            · rw [hl] at this
              obtain ⟨hle, -, hfeed⟩ := this
              refine ⟨by simp; omega, fun _ => by simp; omega, ?_⟩
              rw [hfeed, List.append_assoc]
            · rw [hl] at this
              rw [this]

/-- Serving a connection is feeding it, however the results are divided among the calls. -/
lemma serve_eq_feed (n : ℕ) (b : Buffer) (xs : List ReadResult) (hn : xs.length < n) :
    serve n b xs = feed b xs := by
  induction n generalizing b xs with
  | zero => omega
  | succ n ih =>
      unfold serve
      rw [tcpRead_eq_readLoop]
      have h := readLoop_feed b xs
      rcases hl : readLoop b xs with ⟨ev, ⟨code, b', rest⟩ | s⟩
      · rw [hl] at h
        obtain ⟨hle, hlt, hfeed⟩ := h
        simp only []
        rw [hfeed]
        by_cases hc : code = -1
        · by_cases hr : rest = []
          · simp [hc, hr, feed]
          · have hne : xs ≠ [] := by
              rintro rfl
              exact hr (List.eq_nil_of_length_eq_zero (by simpa using hle))
            rw [if_pos ⟨hc, hr⟩, if_pos hc, ih _ _ (by have := hlt hne; omega)]
        · simp [hc]
      · rw [hl] at h
        exact h.symm

/-- **A connection is one loop over its reads.** -/
theorem connEvents_eq_feed (xs : List ReadResult) : connEvents xs = feed initBuf xs :=
  serve_eq_feed _ _ _ (Nat.lt_succ_self _)

/-! ## The invariant rule -/

lemma calls_append (ev ev' : List Event) : calls (ev ++ ev') = calls ev ++ calls ev' :=
  List.filterMap_append

lemma dispatched_append (ev ev' : List Event) :
    dispatched (ev ++ ev') = dispatched ev ++ dispatched ev' :=
  List.filterMap_append

/-- What one pass of the inner loop can do. -/
inductive DrainStep (r : Region) (fuel : ℕ) (b : Buffer) : List Event × Except Stop Buffer → Prop
  /-- `decod` faults. -/
  | overruns (f : Fault) (decodes : decod r b = .error f) :
      DrainStep r fuel b ([.decod b], .error (.fault f))
  /-- There is nothing to dispatch, and the loop ends. -/
  | ends (ret : Int) (b' : Buffer) (decodes : decod r b = .ok (ret, b'))
      (flag : b'.parseFlag = 1 ∨ b'.parseFlag = -1) : DrainStep r fuel b ([.decod b], .ok b')
  /-- The dispatch chain faults. -/
  | unreadable (ret : Int) (b' : Buffer) (f : Fault) (decodes : decod r b = .ok (ret, b'))
      (flag : ¬ (b'.parseFlag = 1 ∨ b'.parseFlag = -1)) (dispatches : dispatch b'.argv = .error f) :
      DrainStep r fuel b ([.decod b], .error (.fault f))
  /-- The process ends. -/
  | shuts (ret : Int) (b' : Buffer) (decodes : decod r b = .ok (ret, b'))
      (flag : ¬ (b'.parseFlag = 1 ∨ b'.parseFlag = -1))
      (dispatches : dispatch b'.argv = .ok .shutdown) :
      DrainStep r fuel b ([.decod b, .act .shutdown], .error .exit)
  /-- A command is dispatched, and the loop goes on. -/
  | goes (ret : Int) (b' : Buffer) (a : Action) (decodes : decod r b = .ok (ret, b'))
      (flag : ¬ (b'.parseFlag = 1 ∨ b'.parseFlag = -1)) (dispatches : dispatch b'.argv = .ok a)
      (stays : a ≠ .shutdown) :
      DrainStep r fuel b (.decod b :: .act a :: (drain r fuel b').1, (drain r fuel b').2)

/-- **One pass of the inner loop.** -/
theorem drain_step (r : Region) (fuel : ℕ) (b : Buffer) :
    DrainStep r fuel b (drain r (fuel + 1) b) := by
  rw [drain]
  cases hd : decod r b with
  | error f => exact .overruns f hd
  | ok x =>
      obtain ⟨ret, b'⟩ := x
      simp only []
      by_cases hflag : b'.parseFlag = 1 ∨ b'.parseFlag = -1
      · rw [if_pos hflag]
        exact .ends ret b' hd hflag
      · rw [if_neg hflag]
        cases ha : dispatch b'.argv with
        | error f => exact .unreadable ret b' f hd hflag ha
        | ok a =>
            cases a with
            | shutdown => exact .shuts ret b' hd hflag ha
            | set key val => exact .goes ret b' _ hd hflag ha Action.noConfusion
            | get key => exact .goes ret b' _ hd hflag ha Action.noConfusion
            | ignored => exact .goes ret b' _ hd hflag ha Action.noConfusion

/-- The one fault of the dispatch chain. -/
lemma dispatch_error {argv : Area Byte argvSize} {f : Fault} (h : dispatch argv = .error f) :
    f = .argvUnterminated := by
  have harg : ∀ i f, argString argv i = .error f → f = .argvUnterminated := by
    intro i f hi
    unfold argString at hi
    split at hi
    · cases hi
    · exact (Except.error.inj hi).symm
  unfold dispatch at h
  split_ifs at h
  · rcases h2 : argString argv 2 with f₂ | val
    · rw [h2] at h
      exact Except.error.inj h ▸ harg 2 f₂ h2
    · rcases h1 : argString argv 1 with f₁ | key
      · rw [h2, h1] at h
        exact Except.error.inj h ▸ harg 1 f₁ h1
      · rw [h2, h1] at h
        cases h
  · rcases h1 : argString argv 1 with f₁ | key
    · rw [h1] at h
      exact Except.error.inj h ▸ harg 1 f₁ h1
    · rw [h1] at h
      cases h

section Invariant

variable {J : Buffer → Prop}

lemma calls_drain
    (hstep : ∀ b ret b', J b → decod .record b = .ok (ret, b') →
      ¬ (b'.parseFlag = 1 ∨ b'.parseFlag = -1) → J b')
    (fuel : ℕ) (b : Buffer) (hb : J b) : ∀ b' ∈ calls (drain .record fuel b).1, J b' := by
  induction fuel generalizing b with
  | zero => simp [drain, calls]
  | succ fuel ih =>
      have hdrain := drain_step .record fuel b
      generalize drain .record (fuel + 1) b = x at hdrain ⊢
      cases hdrain with
      | overruns | ends | unreadable | shuts => simpa [calls] using hb
      | goes ret b₁ a decodes flag dispatches stays =>
          intro b' hb'
          rcases List.mem_cons.mp hb' with rfl | hb'
          · exact hb
          · exact ih b₁ (hstep b ret b₁ hb decodes flag) b' hb'

/-- **The invariant rule**: what every read establishes and `decod` keeps holds in every state in
which `decod` is called, over all the reads of a connection. -/
theorem calls_feed (hfill : ∀ b x h, J (Buffer.filled b x h))
    (hstep : ∀ b ret b', J b → decod .record b = .ok (ret, b') →
      ¬ (b'.parseFlag = 1 ∨ b'.parseFlag = -1) → J b')
    (b : Buffer) (xs : List ReadResult) : ∀ b' ∈ calls (feed b xs), J b' := by
  induction xs generalizing b with
  | nil => simp [feed, calls]
  | cons x xs ih =>
      intro b' hmem
      rcases hr : readOnce b x with ⟨ev, res⟩
      have hone : ∀ b' ∈ calls ev, J b' := by
        rw [readOnce_eq] at hr
        split_ifs at hr with h hx
        · obtain ⟨rfl, -⟩ := Prod.mk.inj hr
          simp [calls]
        · have := calls_drain hstep drainFuel _ (hfill b x h)
          rw [hr] at this
          exact this
        · obtain ⟨rfl, -⟩ := Prod.mk.inj hr
          simp [calls]
      cases res with
      | error s =>
          rw [feed_cons_of_error hr] at hmem
          exact hone b' hmem
      | ok b₁ =>
          by_cases hx : x = .eof
          · simp only [feed, hr, if_pos hx] at hmem
            exact hone b' hmem
          · rw [feed_cons_of_ok hr hx, calls_append, List.mem_append] at hmem
            rcases hmem with hmem | hmem
            · exact hone b' hmem
            · exact ih b₁ b' hmem

end Invariant

/-! ## The bytes a buffer holds -/

/-- The kept bytes and those of the last read. -/
def Buffer.held (b : Buffer) : ℕ := b.corruptMessagelen + b.readDatalen.toNat

/-- What is true whenever `decod` is called: the bytes held lie inside `rBuf`, and all that
follow are zero. -/
structure Held (b : Buffer) : Prop where
  read_le : b.readDatalen ≤ 100
  zero : ∀ i, b.held ≤ i → b.byteAt i = 0

lemma held_filled (b : Buffer) (x : ReadResult)
    (h : b.corruptMessagelen + x.bytes.length ≤ 100) : Held (b.filled x h) := by
  have hx : x.nread.toNat = x.bytes.length ∧ x.nread ≤ x.bytes.length := by
    cases x <;> simp [ReadResult.nread, ReadResult.bytes]
  refine ⟨?_, ?_⟩
  · show x.nread ≤ 100
    omega
  · intro i hi
    have hle : b.corruptMessagelen + x.bytes.length ≤ i := hx.1 ▸ hi
    have hlen : (b.rBuf.cells.take b.corruptMessagelen ++ x.bytes).length =
        b.corruptMessagelen + x.bytes.length := by
      simp only [List.length_append, List.length_take, Buffer.length_rBuf]
      omega
    show (b.rBuf.cells.take b.corruptMessagelen ++ (x.bytes ++ List.replicate _ 0)).getD i 0 = 0
    rw [List.getD_eq_getElem?_getD, ← List.append_assoc,
      List.getElem?_append_right (by omega), List.getElem?_replicate]
    split_ifs <;> rfl

/-- **In every run, `decod` is only called on a buffer whose unread part is zero.** -/
theorem held_of_mem_calls (xs : List ReadResult) : ∀ b ∈ calls (connEvents xs), Held b := by
  rw [connEvents_eq_feed]
  apply calls_feed held_filled
  intro b ret b' hb hd hflag
  obtain ⟨-, l, -, rfl⟩ := decod_dispatches hb.read_le hd hflag
  exact ⟨hb.read_le, hb.zero⟩

end ActionDB.Net.Codec
