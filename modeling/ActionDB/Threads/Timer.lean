import ActionDB.Threads.Interleave

/-!
# Timers

`net/timer.c`. A timer is a descriptor that becomes readable. `addTimer` hands it to
`aePollAddEvent`, but makes no entry for it in the event table, and the kernel is only asked to add
a descriptor whose entry is exactly `READABLE`. So a caller has to make the entry first, with
`createFileEvent`, as `tests/test_aepolltimer.c` does; then `addTimer` succeeds.

The server makes entries for clients only. As long as its threads do nothing else, a call of
`addTimer` on the loop of a worker fails for every descriptor (`addTimer_fails`), except for that of
a client between the `createFileEvent` and the `aePollAddEvent` of the accept thread, whose own call
then fails instead. That the entries are those of clients that the kernel watches takes what
`Threads.Process` says of `epoll_ctl`: a registration that it refuses leaves an entry behind.
-/

namespace ActionDB.Threads

open ActionDB.Found ActionDB.Kernel ActionDB.Net ActionDB.Net.Codec ActionDB.Net.Conn
open ActionDB.Net.Event

variable {n k : ℕ} {σ : Type} {db : KvStore σ (List Byte) (List Byte)} {store : σ}
  {P : Process n k σ} {i : Fin k} {fd : Int}

/-- Source: `net/timer.c`, `addTimer`. -/
def addTimer (e : EventLoop n) (timerfd : Int) (mask : Mask) (denied : Bool) :
    Except LoopFault (Int × EventLoop n) := do
  let (ret, e) ← aePollAddEvent e timerfd mask denied
  if ret = -1 then return (-1, e) else return (1, e)

/-- `addTimer` is `aePollAddEvent`. -/
lemma addTimer_eq (e : EventLoop n) (mask : Mask) (denied : Bool) :
    addTimer e fd mask denied = aePollAddEvent e fd mask denied := by
  unfold addTimer
  cases hadd : aePollAddEvent e fd mask denied with
  | error => rfl
  | ok r =>
      obtain ⟨ret, e'⟩ := r
      rcases aePollAddEvent_cases hadd with ⟨rfl, rfl⟩ | ⟨rfl, k, rfl⟩
      · rfl
      · rfl

/-- A descriptor that the kernel watches is not added again, and one that it does not watch is not
modified. -/
lemma aePollAddEvent_fails {e : EventLoop n} (h₀ : 0 ≤ fd) (h₁ : fd < n)
    (h : e.mask fd = READABLE ↔ e.epoll fd ≠ none) (mask : Mask) (denied : Bool) :
    aePollAddEvent e fd mask denied = .ok (-1, e) := by
  cases denied with
  | true => exact aePollAddEvent_denied h₀ h₁ mask
  | false =>
      obtain ⟨j, hj⟩ := exists_slot h₀ h₁
      rw [aePollAddEvent_of_slot hj]
      cases hk : e.epoll fd with
      | none =>
          have hne : e.mask fd ≠ READABLE := fun hmask => h.mp hmask hk
          simp only [if_neg hne, epollCtl, hk]
      | some events =>
          have hmask : e.mask fd = READABLE := h.mpr (by simp [hk])
          simp only [if_pos hmask, epollCtl, hk]

/-- The table and the kernel agree on a descriptor, unless it is being registered. -/
lemma Inv.watched_iff (hinv : Inv db store P) (hwindow : P.accept ≠ .created i fd) :
    (P.workers i).loop.mask fd = READABLE ↔ (P.workers i).loop.epoll fd ≠ none := by
  obtain ⟨l, hsys⟩ := hinv.view i
  have hloop : LoopInv (P.workers i).loop ((P.view i).Registered l) ((P.view i).Watched l) :=
    hsys.loop
  have hcreated : (P.view i).accept ≠ .created fd := fun h =>
    hwindow (AcceptPc.view_eq_created.mp h)
  by_cases hwatched : (P.view i).Watched l fd
  · have hreg : (P.view i).Registered l fd := hwatched.imp_right .inr
    exact iff_of_true (hloop.mask_of fd hreg) (by simp [hloop.epoll_of fd hwatched])
  · have hreg : ¬(P.view i).Registered l fd := by
      rintro (h | h | h)
      · exact hwatched (.inl h)
      · exact hcreated h
      · exact hwatched (.inr h)
    rw [hloop.mask_none fd hreg, hloop.epoll_none fd hwatched]
    exact iff_of_false (by decide) (fun h => h rfl)

/-- Between its two calls the accept thread has made the entry and not told the kernel. -/
lemma Inv.created (hinv : Inv db store P) (hpc : P.accept = .created i fd) :
    (P.workers i).loop.mask fd = READABLE ∧ (P.workers i).loop.epoll fd = none := by
  obtain ⟨l, hsys⟩ := hinv.view i
  have hview : (P.view i).accept = .created fd := AcceptPc.view_eq_created.mpr hpc
  have hnew := (hsys.accepting fd (.inr (.inl hview))).2.2.2
  refine ⟨hsys.loop.mask_of fd (.inr (.inl hview)), hsys.loop.epoll_none fd ?_⟩
  rintro (⟨⟨v, hv, hkey⟩, -⟩ | hadded)
  · exact hnew v hv hkey
  · rw [hview] at hadded
    cases hadded

/-- **No timer can be added without an entry of its own**, in any state that a run of the server can
reach and for any descriptor of the table. Where the call succeeds, it takes the place of a client
that is being registered, and the registration fails. -/
theorem addTimer_fails (hreach : Reachable db store P) (i : Fin k) (h₀ : 0 ≤ fd) (h₁ : fd < n)
    (mask : Mask) (denied : Bool) :
    addTimer (P.workers i).loop fd mask denied = .ok (-1, (P.workers i).loop) ∨
      P.accept = .created i fd ∧ ∃ loop,
        addTimer (P.workers i).loop fd mask denied = .ok (1, loop) ∧
        ∀ denied', aePollAddEvent loop fd READABLE denied' = .ok (-1, loop) := by
  rw [addTimer_eq]
  by_cases hwindow : P.accept = .created i fd
  · cases denied with
    | true => exact .inl (aePollAddEvent_denied h₀ h₁ mask)
    | false =>
        obtain ⟨hmask, hepoll⟩ := hreach.inv.created hwindow
        obtain ⟨j, hj⟩ := exists_slot h₀ h₁
        refine .inr ⟨hwindow, ?_⟩
        rw [aePollAddEvent_of_slot hj, if_pos hmask]
        simp only [epollCtl, hepoll]
        refine ⟨_, rfl, aePollAddEvent_fails h₀ h₁ ?_ READABLE⟩
        simp only [Function.update_self]
        exact iff_of_true hmask (Option.some_ne_none _)
  · exact .inl (aePollAddEvent_fails h₀ h₁ (hreach.inv.watched_iff hwindow) mask denied)

/-- Worker 1 has a connection, and is being given another one: only the descriptor of this one can
be added. -/
theorem addTimer_fails_window :
    ∃ P : Process 10 2 (List Byte → Option (List Byte)),
      Reachable (KvStore.map _ _) (fun _ => none) P ∧ (P.workers 1).table.connCnt = 1 ∧
      addTimer (P.workers 1).loop 7 READABLE false = .ok (-1, (P.workers 1).loop) ∧
      ∃ loop, addTimer (P.workers 1).loop 6 READABLE false = .ok (1, loop) ∧
        ∀ denied', aePollAddEvent loop 6 READABLE denied' = .ok (-1, loop) := by
  have hfd : IsFd 5 := by constructor <;> decide
  have hfd' : IsFd 6 := by constructor <;> decide
  have h₁ : Reachable (n := 10) (k := 2) (KvStore.map (List Byte) (List Byte)) (fun _ => none) _ :=
    .tail .refl (.accept (i := 1) rfl hfd (by decide) (by decide))
  have h₂ := h₁.tail (.createFileEvent rfl rfl)
  have h₃ := h₂.tail (.aePollAddEvent rfl rfl (by decide))
  have hfresh : Fresh Table.empty 1 2 3 := ⟨rfl, rfl, rfl⟩
  have h₄ := h₃.tail (.newConn rfl hfresh rfl)
  have h₅ := h₄.tail (.accept (i := 1) rfl hfd' (by decide) (by decide))
  have h₆ := h₅.tail (.createFileEvent rfl rfl)
  refine ⟨_, h₆, rfl, ?_, ?_⟩
  · have h₀ : (0 : Int) ≤ 7 := by decide
    rcases addTimer_fails h₆ 1 h₀ (by decide) READABLE false with h | ⟨h, -⟩
    · exact h
    · cases h
  · have h₀ : (0 : Int) ≤ 6 := by decide
    rcases addTimer_fails h₆ 1 h₀ (by decide) READABLE false with h | ⟨-, h⟩
    · cases h
    · exact h

end ActionDB.Threads
