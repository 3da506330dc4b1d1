import ActionDB.Net.Codec.Batch

/-!
# Reads that fail

A message that is cut by the end of `rBuf` is kept at its front, and the next read continues it. In
between `read(2)` may fail any number of times, with any `errno`. A failing read should lose
nothing: no command is dispatched, the kept bytes stay where they are, and the next read finds what
it would have found without it (`LosesNothing`).

`tcpRead` returns on `EAGAIN`, and that does lose nothing: it makes no difference to a run how
often it happens (`connEvents_again`). Every other `errno`, `EINTR` too, goes on to `decod`, with a
`readDatalen` of `-1`. `decod` takes that for the end of the messages and sets `corruptMessagelen`
to `0`: what was kept is forgotten (`losesNothing_iff`), and the rest of the message, when it comes,
is not recognised (`interrupted_read_loses`).
-/

namespace ActionDB.Net.Codec

open ActionDB.Found

/-! ## Errors and reachable states -/

/-- A value of `errno`. -/
abbrev Errno := ℕ

def EINTR : Errno := 4

def EAGAIN : Errno := 11

/-- The result of a read that fails.
Source: `net/tcpsocket.c`, `tcpRead`, line 54. -/
def failedRead (errno : Errno) : ReadResult := if errno = EAGAIN then .again else .error

/-- The buffer after the results; `none` when the connection or the process has ended. -/
def readOn (b : Buffer) : List ReadResult → Option Buffer
  | [] => some b
  | x :: xs =>
      match (readOnce b x).2 with
      | .error _ => none
      | .ok b' => if x = .eof then none else readOn b' xs

/-- The buffer of a connection after some of its reads. -/
def Reachable (b : Buffer) : Prop := ∃ xs, readOn initBuf xs = some b

/-- Processing the failed read dispatches nothing and leaves the kept bytes alone, and the next read
that succeeds is processed as if the read had not failed. -/
def LosesNothing (b : Buffer) (errno : Errno) : Prop :=
  dispatched (readOnce b (failedRead errno)).1 = [] ∧
    ∃ b', (readOnce b (failedRead errno)).2 = .ok b' ∧
      b'.corruptMessagelen = b.corruptMessagelen ∧
      b'.rBuf.cells.take b.corruptMessagelen = b.rBuf.cells.take b.corruptMessagelen ∧
      ∀ bytes, readOnce b' (.data bytes) = readOnce b (.data bytes)

/-! ## No more is kept than fits -/

/-- `decod` keeps no more than there is room for. -/
lemma decod_kept_le {b b' : Buffer} {ret : Int} (hrd : b.readDatalen ≤ 100)
    (hk : b.corruptMessagelen ≤ 100) (hd : decod .record b = .ok (ret, b')) :
    b'.corruptMessagelen ≤ 100 := by
  have hdecod := decod_record hrd
  rw [hd] at hdecod
  cases hdecod with
  | rejected skip => exact Nat.zero_le _
  | kept le => exact Nat.sub_le _ _
  | loaded l head loads => exact hk

/-- So does the inner loop. -/
lemma drain_kept_le {fuel : ℕ} {b b' : Buffer} (hrd : b.readDatalen ≤ 100)
    (hk : b.corruptMessagelen ≤ 100) (hd : (drain .record fuel b).2 = .ok b') :
    b'.corruptMessagelen ≤ 100 := by
  induction fuel generalizing b with
  | zero => cases hd
  | succ fuel ih =>
      have hdrain := drain_step .record fuel b
      generalize drain .record (fuel + 1) b = x at hdrain hd
      cases hdrain with
      | overruns | unreadable | shuts => cases hd
      | ends ret b₁ decodes flag =>
          cases hd
          exact decod_kept_le hrd hk decodes
      | goes ret b₁ a decodes flag dispatches stays =>
          have hk₁ := decod_kept_le hrd hk decodes
          obtain ⟨-, l, -, rfl⟩ := decod_dispatches hrd decodes flag
          exact ih (b := b.closed l) hrd hk₁ hd

/-- So does one read. -/
lemma readOnce_kept_le {b b' : Buffer} {x : ReadResult} (h : (readOnce b x).2 = .ok b') :
    b'.corruptMessagelen ≤ 100 := by
  rw [readOnce_eq] at h
  split_ifs at h with hfit hend
  · cases h
    exact (Nat.le_add_right _ _).trans hfit
  · exact drain_kept_le (held_filled b x hfit).read_le ((Nat.le_add_right _ _).trans hfit) h

/-- So do many. -/
lemma readOn_kept_le {b b' : Buffer} {xs : List ReadResult} (hk : b.corruptMessagelen ≤ 100)
    (h : readOn b xs = some b') : b'.corruptMessagelen ≤ 100 := by
  induction xs generalizing b with
  | nil =>
      cases h
      exact hk
  | cons x xs ih =>
      unfold readOn at h
      cases hr : (readOnce b x).2 with
      | error s =>
          rw [hr] at h
          cases h
      | ok b₁ =>
          simp only [hr] at h
          split_ifs at h
          exact ih (readOnce_kept_le hr) h

/-- There is room for what is kept in every state that reads can lead to. -/
lemma Reachable.kept_le {b : Buffer} (h : Reachable b) : b.corruptMessagelen ≤ 100 := by
  obtain ⟨xs, hxs⟩ := h
  exact readOn_kept_le (Nat.zero_le 100) hxs

/-! ## One failing read -/

/-- On any other error `decod` is called on a `readDatalen` of `-1`, and forgets what was kept. -/
lemma readOnce_error {b : Buffer} (hk : b.corruptMessagelen ≤ 100) :
    readOnce b .error =
      ([.decod (b.filled .error hk)], .ok ((b.filled .error hk).rejected 0)) := by
  have hfit : b.corruptMessagelen + ReadResult.error.bytes.length ≤ 100 := hk
  have hd : decod .record (b.filled .error hfit) = .ok (0, (b.filled .error hfit).rejected 0) :=
    decod_of_readDatalen_le (held_filled b .error hfit).read_le (show (-1 : Int) ≤ 0 by decide)
  rw [readOnce_eq, dif_pos hfit, if_neg (by decide), show drainFuel = 99 + 1 from rfl,
    drain_succ_of_done hd (.inr rfl)]

/-- `EAGAIN` ends the call before anything is decoded. -/
lemma losesNothing_again {b : Buffer} (hk : b.corruptMessagelen ≤ 100) : LosesNothing b EAGAIN := by
  unfold LosesNothing failedRead
  rw [if_pos rfl, readOnce_again hk]
  refine ⟨rfl, b.filled .again hk, rfl, rfl, ?_, ?_⟩
  · exact List.take_left' (b.length_take_kept hk)
  · intro bytes
    exact readOnce_filled (x := .again) hk (.data bytes)

/-- Any other error loses what was kept. -/
lemma not_losesNothing {b : Buffer} {errno : Errno} (hk : b.corruptMessagelen ≤ 100)
    (hc : 0 < b.corruptMessagelen) (he : errno ≠ EAGAIN) : ¬LosesNothing b errno := by
  unfold LosesNothing failedRead
  rw [if_neg he, readOnce_error hk]
  rintro ⟨-, b', hb', hkept, -⟩
  cases hb'
  change 0 = b.corruptMessagelen at hkept
  omega

/-- **Failing reads.** In every reachable state that holds the front of a message, a read that fails
loses nothing exactly when it fails with `EAGAIN`. -/
theorem losesNothing_iff {b : Buffer} (hb : Reachable b) (hc : 0 < b.corruptMessagelen)
    (errno : Errno) : LosesNothing b errno ↔ errno = EAGAIN := by
  constructor
  · intro h
    by_contra he
    exact not_losesNothing hb.kept_le hc he h
  · rintro rfl
    exact losesNothing_again hb.kept_le

/-- A read that fills `rBuf`: six times the frame of `get ab`, and the first ten bytes of that of
`set key value`. -/
def cutFront : List Byte :=
  (List.replicate 6 (Command.get [97, 98]).frame).flatten ++
    (Command.set [107, 101, 121] [118, 97, 108, 117, 101]).frame.take 10

/-- The rest of the last frame. -/
def cutRest : List Byte := (Command.set [107, 101, 121] [118, 97, 108, 117, 101]).frame.drop 10

/-- Ten bytes of a message can be kept. -/
lemma reachable_cutFront : ∃ b, Reachable b ∧ b.corruptMessagelen = 10 := by
  have hkept : (readOn initBuf [.data cutFront]).map Buffer.corruptMessagelen = some 10 := by
    decide +kernel
  obtain ⟨b, hread, hlen⟩ := Option.map_eq_some_iff.mp hkept
  exact ⟨b, ⟨_, hread⟩, hlen⟩

/-- `EAGAIN` after ten bytes of a message. -/
theorem losesNothing_cutFront :
    ∃ b, Reachable b ∧ b.corruptMessagelen = 10 ∧ LosesNothing b EAGAIN := by
  obtain ⟨b, hb, hlen⟩ := reachable_cutFront
  exact ⟨b, hb, hlen, (losesNothing_iff hb (by omega) EAGAIN).mpr rfl⟩

/-- **An interrupted read** after ten bytes of a message: they are forgotten, and the command is
never dispatched. -/
theorem interrupted_read_loses :
    (∃ b, Reachable b ∧ b.corruptMessagelen = 10 ∧ ¬LosesNothing b EINTR) ∧
      dispatched (connEvents [.data cutFront, .data cutRest]) =
        List.replicate 6 (.get [97, 98]) ++ [.set [107, 101, 121] [118, 97, 108, 117, 101]] ∧
      dispatched (connEvents [.data cutFront, failedRead EINTR, .data cutRest]) =
        List.replicate 6 (.get [97, 98]) := by
  refine ⟨?_, by decide +kernel, by decide +kernel⟩
  obtain ⟨b, hb, hlen⟩ := reachable_cutFront
  exact ⟨b, hb, hlen, not_losesNothing hb.kept_le (by omega) (by decide)⟩

/-! ## Runs -/

/-- **`EAGAIN` in a run.** A connection does the same whether or not its reads are interrupted by
reads that fail with `EAGAIN`. -/
theorem connEvents_again (xs : List ReadResult) :
    connEvents (xs.filter (· ≠ .again)) = connEvents xs := by
  rw [connEvents_eq_feed, connEvents_eq_feed]
  generalize initBuf = b
  induction xs generalizing b with
  | nil => rfl
  | cons x xs ih =>
      by_cases hx : x = .again
      · subst hx
        rw [List.filter_cons_of_neg (by decide), feed_again, ih]
      · rw [List.filter_cons_of_pos (by simpa using hx)]
        simp only [feed, ih]

end ActionDB.Net.Codec
