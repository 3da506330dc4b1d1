import ActionDB.Net.Codec.Failing
import ActionDB.Net.Codec.Positions

/-!
# A connection in steps

`tcpRead` of one connection, cut into the steps between which other threads may run: a `read(2)`,
one decoded and dispatched message, the end of the inner loop. `Session` are the states that these
steps lead to, with the history of the connection: the results of its reads, and the messages that
were dispatched, each as the `argv` it left.

A connection in steps does what the loops of `tcpRead` do when they run by themselves:
`Session.feed_eq` says that its events so far, followed by what the loops would still do from its
buffer on, are the events of the whole connection. So the messages dispatched at any time are the
first of those that its own reads give, and all of them when `tcpRead` is not in its inner loop
(`Session.messages_prefix`, `Session.messages_eq`).
-/

namespace ActionDB.Net

open ActionDB.Found ActionDB.Net.Codec

/-- Where a connection is. -/
inductive Phase where
  /-- `tcpRead` is at its `read(2)`, or is not running. -/
  | waiting
  /-- `tcpRead` is in the loop that decodes and dispatches. -/
  | dispatching
  /-- `tcpRead` has seen the end of file. -/
  | closed
  deriving DecidableEq, Repr

/-- The message left in the buffer is dispatched, and the loop goes on.
Source: `net/tcpsocket.c`, `tcpRead`, lines 58-75. -/
structure Dispatches (b b' : Buffer) (a : Action) : Prop where
  decodes : ∃ ret, decod .record b = .ok (ret, b')
  flag : ¬(b'.parseFlag = 1 ∨ b'.parseFlag = -1)
  dispatch_eq : dispatch b'.argv = .ok a
  stays : a ≠ .shutdown

/-- There is nothing to dispatch any more. -/
structure Drained (b b' : Buffer) : Prop where
  decodes : ∃ ret, decod .record b = .ok (ret, b')
  flag : b'.parseFlag = 1 ∨ b'.parseFlag = -1

/-- **A connection by itself**: the results of its reads, the messages that were dispatched, where
it is, and its buffer. -/
inductive Session : List ReadResult → List (Area Byte argvSize) → Phase → Buffer → Prop
  /-- `initBuf`. -/
  | opened : Session [] [] .waiting initBuf
  /-- `tcpRead` is called. Source: `net/tcpsocket.c`, `tcpRead`, lines 41-43. -/
  | called {xs : List ReadResult} {ms : List (Area Byte argvSize)} {b b' : Buffer} :
      Session xs ms .waiting b → prepare b = .ok b' → Session xs ms .waiting b'
  /-- `read(2)` says `EAGAIN`, and `tcpRead` returns. -/
  | again {xs : List ReadResult} {ms : List (Area Byte argvSize)} {b b' : Buffer} :
      Session xs ms .waiting b → (prepare b).bind (receive · .again) = .ok b' →
      Session (xs ++ [.again]) ms .waiting b'
  /-- `read(2)` says that the peer has closed, and `tcpRead` returns. -/
  | eof {xs : List ReadResult} {ms : List (Area Byte argvSize)} {b b' : Buffer} :
      Session xs ms .waiting b → (prepare b).bind (receive · .eof) = .ok b' →
      Session (xs ++ [.eof]) ms .closed b'
  /-- `read(2)` returns bytes, or fails. -/
  | read {xs : List ReadResult} {ms : List (Area Byte argvSize)} {b b' : Buffer} {x : ReadResult} :
      Session xs ms .waiting b → (prepare b).bind (receive · x) = .ok b' →
      ¬(x = .eof ∨ x = .again) → Session (xs ++ [x]) ms .dispatching b'
  | command {xs : List ReadResult} {ms : List (Area Byte argvSize)} {b b' : Buffer} {a : Action} :
      Session xs ms .dispatching b → Dispatches b b' a →
      Session xs (ms ++ [b'.argv]) .dispatching b'
  | drained {xs : List ReadResult} {ms : List (Area Byte argvSize)} {b b' : Buffer} :
      Session xs ms .dispatching b → Drained b b' → Session xs ms .waiting b'

/-! ## What is to come -/

/-- The events that are to come when the results of the next reads are `ys`. -/
def toCome (fuel : ℕ) (b : Buffer) : Phase → List ReadResult → List Event
  | .waiting, ys => feed b ys
  | .dispatching, ys =>
      match drain .record fuel b with
      | (ev, .ok b') => ev ++ feed b' ys
      | (ev, .error _) => ev
  | .closed, _ => []

/-- The number of bytes that are kept after the reads `ys`, unless the connection or the process
ends before. -/
def keptOn (b : Buffer) (ys : List ReadResult) : Option ℕ :=
  (readOn b ys).map Buffer.corruptMessagelen

/-- The same, from within a call of `tcpRead`. -/
def keptToCome (fuel : ℕ) (b : Buffer) : Phase → List ReadResult → Option ℕ
  | .waiting, ys => keptOn b ys
  | .dispatching, ys =>
      match (drain .record fuel b).2 with
      | .ok b' => keptOn b' ys
      | .error _ => none
  | .closed, _ => none

section Steps

variable {b b' : Buffer} {x : ReadResult}

lemma drain_of_dispatches {a : Action} (h : Dispatches b b' a) (fuel : ℕ) :
    drain .record (fuel + 1) b =
      (.decod b :: .act a :: (drain .record fuel b').1, (drain .record fuel b').2) := by
  obtain ⟨ret, hd⟩ := h.decodes
  rw [drain, hd]
  simp only [if_neg h.flag, h.dispatch_eq]
  cases a with
  | shutdown => exact absurd rfl h.stays
  | set key val | get key | ignored => rfl

lemma drain_of_drained (h : Drained b b') (fuel : ℕ) :
    drain .record (fuel + 1) b = ([.decod b], .ok b') := by
  obtain ⟨ret, hd⟩ := h.decodes
  exact drain_succ_of_done hd h.flag fuel

/-- The fuel that is left when the loop goes on. -/
lemma exists_fuel {fuel : ℕ} (hf : (drain .record fuel b).2 ≠ .error .outOfFuel) :
    ∃ k, fuel = k + 1 := by
  cases fuel with
  | zero => exact absurd rfl hf
  | succ k => exact ⟨k, rfl⟩

/-- The clearing at the start of a call is not noticed later. -/
lemma feed_of_prepare (h : prepare b = .ok b') (ys : List ReadResult) :
    feed b' ys = feed b ys ∧ keptOn b' ys = keptOn b ys := by
  have hle : b.corruptMessagelen ≤ 100 := by
    by_contra hlt
    rw [prepare_of_lt (not_le.mp hlt)] at h
    cases h
  rw [prepare_of_le hle] at h
  cases h
  cases ys with
  | nil => exact ⟨rfl, rfl⟩
  | cons y ys => simp only [feed, keptOn, readOn, readOnce_cleared hle, and_self]

/-- A read of nothing, as `readOnce` sees it. -/
lemma readOnce_of_idle (h : (prepare b).bind (receive · x) = .ok b') (hx : x = .eof ∨ x = .again) :
    readOnce b x = ([], .ok b') := by
  unfold readOnce
  rw [h]
  rcases hx with rfl | rfl <;> rfl

/-- Any other read is followed by the dispatching. -/
lemma readOnce_of_receive (h : (prepare b).bind (receive · x) = .ok b')
    (hx : ¬(x = .eof ∨ x = .again)) : readOnce b x = drain .record drainFuel b' := by
  unfold readOnce
  rw [h]
  cases x <;> simp_all

end Steps

section Session

variable {xs : List ReadResult} {ms : List (Area Byte argvSize)} {ph : Phase} {b : Buffer}

/-- **A connection in steps is the connection.** What has happened and what is to come are together
the events of the loops. -/
theorem Session.feed_eq (h : Session xs ms ph b) :
    ∃ ev fuel, (∀ ys, feed initBuf (xs ++ ys) = ev ++ toCome fuel b ph ys) ∧
      ms.map dispatch = (dispatched ev).map .ok ∧
      (ph = .dispatching → (drain .record fuel b).2 ≠ .error .outOfFuel) := by
  induction h with
  | opened => exact ⟨[], 0, fun ys => rfl, rfl, by simp⟩
  | called _ hprep ih =>
      obtain ⟨ev, fuel, hev, hms, -⟩ := ih
      refine ⟨ev, fuel, fun ys => ?_, hms, by simp⟩
      rw [hev, toCome, toCome, (feed_of_prepare hprep ys).1]
  | @again xs _ b b' _ hrecv ih =>
      obtain ⟨ev, fuel, hev, hms, -⟩ := ih
      have hread := readOnce_of_idle hrecv (.inr rfl)
      refine ⟨ev, fuel, fun ys => ?_, hms, by simp⟩
      rw [List.append_assoc, List.singleton_append, hev, toCome, toCome,
        feed_cons_of_ok hread (by decide), List.nil_append]
  | @eof xs _ b b' _ hrecv ih =>
      obtain ⟨ev, fuel, hev, hms, -⟩ := ih
      have hread := readOnce_of_idle hrecv (.inl rfl)
      refine ⟨ev, fuel, fun ys => ?_, hms, by simp⟩
      rw [List.append_assoc, List.singleton_append, hev, toCome, toCome]
      simp only [feed, hread, if_true]
  | @read xs _ b b' x _ hrecv hx ih =>
      obtain ⟨ev, fuel, hev, hms, -⟩ := ih
      have hread := readOnce_of_receive hrecv hx
      refine ⟨ev, drainFuel, fun ys => ?_, hms, fun _ => ?_⟩
      · rw [List.append_assoc, List.singleton_append, hev, toCome, toCome]
        rcases hdrain : drain .record drainFuel b' with ⟨ev', s | b''⟩
        · rw [feed_cons_of_error (hread.trans hdrain)]
        · rw [feed_cons_of_ok (hread.trans hdrain) fun h => hx (.inl h)]
      · rw [← hread]
        exact readOnce_ne_outOfFuel b x
  | @command xs _ b b' a _ hdis ih =>
      obtain ⟨ev, fuel, hev, hms, hfuel⟩ := ih
      have hfuel := hfuel rfl
      obtain ⟨k, rfl⟩ := exists_fuel hfuel
      have hdrain := drain_of_dispatches hdis k
      refine ⟨ev ++ [.decod b, .act a], k, fun ys => ?_, ?_, fun _ => ?_⟩
      · rw [hev, toCome, toCome, hdrain]
        rcases drain .record k b' with ⟨ev', s | b''⟩ <;> simp
      · rw [List.map_append, hms, dispatched_append, List.map_append]
        simp [dispatched, hdis.dispatch_eq]
      · rwa [hdrain] at hfuel
  | @drained xs _ b b' _ hdone ih =>
      obtain ⟨ev, fuel, hev, hms, hfuel⟩ := ih
      obtain ⟨k, rfl⟩ := exists_fuel (hfuel rfl)
      refine ⟨ev ++ [.decod b], 0, fun ys => ?_, ?_, by simp⟩
      · rw [hev, toCome, toCome, drain_of_drained hdone k, List.append_assoc]
      · rw [hms, dispatched_append]
        simp [dispatched]

/-- The same for the bytes that are kept. -/
theorem Session.kept_eq (h : Session xs ms ph b) :
    ∃ fuel, (∀ ys, keptOn initBuf (xs ++ ys) = keptToCome fuel b ph ys) ∧
      (ph = .dispatching → (drain .record fuel b).2 ≠ .error .outOfFuel) := by
  induction h with
  | opened => exact ⟨0, fun ys => rfl, by simp⟩
  | called _ hprep ih =>
      obtain ⟨fuel, hkept, -⟩ := ih
      exact ⟨fuel, fun ys => (hkept ys).trans (feed_of_prepare hprep ys).2.symm, by simp⟩
  | again _ hrecv ih =>
      obtain ⟨fuel, hkept, -⟩ := ih
      have hread := readOnce_of_idle hrecv (.inr rfl)
      refine ⟨fuel, fun ys => ?_, by simp⟩
      rw [List.append_assoc, List.singleton_append, hkept, keptToCome, keptToCome, keptOn, keptOn,
        readOn, hread]
      rfl
  | eof _ hrecv ih =>
      obtain ⟨fuel, hkept, -⟩ := ih
      have hread := readOnce_of_idle hrecv (.inl rfl)
      refine ⟨fuel, fun ys => ?_, by simp⟩
      rw [List.append_assoc, List.singleton_append, hkept, keptToCome, keptToCome, keptOn, readOn,
        hread]
      rfl
  | @read _ _ b b' x _ hrecv hx ih =>
      obtain ⟨fuel, hkept, -⟩ := ih
      have hread := readOnce_of_receive hrecv hx
      refine ⟨drainFuel, fun ys => ?_, fun _ => hread ▸ readOnce_ne_outOfFuel b x⟩
      rw [List.append_assoc, List.singleton_append, hkept, keptToCome, keptToCome, keptOn, readOn,
        hread]
      rcases (drain .record drainFuel b').2 with s | b''
      · rfl
      · simp only [if_neg fun h => hx (.inl h)]
        rfl
  | @command _ _ b b' a _ hdis ih =>
      obtain ⟨fuel, hkept, hfuel⟩ := ih
      have hfuel := hfuel rfl
      obtain ⟨k, rfl⟩ := exists_fuel hfuel
      have hdrain := drain_of_dispatches hdis k
      refine ⟨k, fun ys => ?_, fun _ => ?_⟩
      · rw [hkept, keptToCome, keptToCome, hdrain]
      · rwa [hdrain] at hfuel
  | drained _ hdone ih =>
      obtain ⟨fuel, hkept, hfuel⟩ := ih
      obtain ⟨k, rfl⟩ := exists_fuel (hfuel rfl)
      refine ⟨0, fun ys => ?_, by simp⟩
      rw [hkept, keptToCome, keptToCome, drain_of_drained hdone k]

/-- The messages that were dispatched are the first of those that the reads of the connection
give. -/
theorem Session.messages_prefix (h : Session xs ms ph b) :
    ms.map dispatch <+: (dispatched (connEvents xs)).map .ok := by
  obtain ⟨ev, fuel, hev, hms, -⟩ := h.feed_eq
  have hall := hev []
  rw [List.append_nil] at hall
  rw [connEvents_eq_feed, hall, hms, dispatched_append, List.map_append]
  exact List.prefix_append _ _

/-- They are all of them when `tcpRead` is not in its inner loop. -/
theorem Session.messages_eq (h : Session xs ms ph b) (hph : ph ≠ .dispatching) :
    ms.map dispatch = (dispatched (connEvents xs)).map .ok := by
  obtain ⟨ev, fuel, hev, hms, -⟩ := h.feed_eq
  have hrest : toCome fuel b ph [] = [] := by
    cases ph with
    | waiting | closed => rfl
    | dispatching => exact absurd rfl hph
  have hall := hev []
  rw [hrest, List.append_nil, List.append_nil] at hall
  rw [connEvents_eq_feed, hall, hms]

/-- A connection that has seen the end of file is closed. -/
lemma Session.eof_closed (h : Session xs ms ph b) (heof : .eof ∈ xs) : ph = .closed := by
  induction h with
  | opened => cases heof
  | called _ _ ih => exact ih heof
  | again _ _ ih =>
      rcases List.mem_append.mp heof with h | h
      · cases ih h
      · simp at h
  | eof => rfl
  | read _ _ hx ih =>
      rcases List.mem_append.mp heof with h | h
      · cases ih h
      · exact absurd (.inl (List.mem_singleton.mp h).symm) hx
  | command _ _ ih => exact ih heof
  | drained _ _ ih => cases ih heof

lemma Session.eof_of_closed (h : Session xs ms .closed b) : .eof ∈ xs := by
  generalize hph : Phase.closed = ph at h
  induction h with
  | opened | called | again | read | command | drained => cases hph
  | eof => exact List.mem_append_right _ (.head _)

/-- No more is kept than fits, and no more is read than was asked for. -/
lemma Session.kept_le (h : Session xs ms ph b) :
    b.corruptMessagelen ≤ 100 ∧ (ph = .dispatching → b.readDatalen ≤ 100) := by
  have hrecv : ∀ {b b' : Buffer} {x : ReadResult}, (prepare b).bind (receive · x) = .ok b' →
      b'.corruptMessagelen ≤ 100 ∧ b'.readDatalen ≤ 100 := by
    intro b b' x h
    rw [prepare_receive] at h
    split_ifs at h with hfit
    cases h
    exact ⟨(Nat.le_add_right _ _).trans hfit, (held_filled b x hfit).read_le⟩
  induction h with
  | opened => exact ⟨Nat.zero_le _, by simp⟩
  | @called _ _ b b' _ hprep ih =>
      rw [prepare_of_le ih.1] at hprep
      cases hprep
      exact ⟨ih.1, by simp⟩
  | again _ h | eof _ h => exact ⟨(hrecv h).1, by simp⟩
  | read _ h => exact ⟨(hrecv h).1, fun _ => (hrecv h).2⟩
  | command _ hdis ih =>
      obtain ⟨ret, hd⟩ := hdis.decodes
      obtain ⟨-, l, -, rfl⟩ := decod_dispatches (ih.2 rfl) hd hdis.flag
      exact ⟨ih.1, fun _ => ih.2 rfl⟩
  | drained _ hdone ih =>
      obtain ⟨ret, hd⟩ := hdone.decodes
      exact ⟨decod_kept_le (ih.2 rfl) ih.1 hd, by simp⟩

end Session

end ActionDB.Net
