import ActionDB.Net.Event.Loop

/-!
# Polling

`aePollPoll` of `net/aepoll.c`: the events that `epoll_wait` reports, put into the `fired` array of
the event loop. The kernel reports descriptors that it watches, at most as many as it is asked for,
and may add `EPOLLERR` and `EPOLLHUP` to what was asked for (`Reports`). Only `EPOLLIN` becomes
`READABLE`; an error or a hangup alone is a write event, for which `mainLoop` calls nothing
(`not_readable_of_fired`).
-/

namespace ActionDB.Net.Event

open ActionDB.Found

/-- Source: `struct epoll_event`, with the bits that `aePollPoll` looks at. -/
structure EpollEvent where
  fd : Int
  epollin : Bool
  epollout : Bool
  epollerr : Bool
  epollhup : Bool
  deriving DecidableEq, Repr

/-- Source: `net/aepoll.c`, `aePollPoll`, lines 96-102. -/
def EpollEvent.mask (e : EpollEvent) : Mask :=
  let mask := NONE
  let mask := if e.epollin then mask ||| READABLE else mask
  let mask := if e.epollout then mask ||| WRITEABLE else mask
  let mask := if e.epollerr then mask ||| WRITEABLE else mask
  if e.epollhup then mask ||| WRITEABLE else mask

/-- The entries of `fired` that are in use afterwards; `none` says that `epoll_wait` fails.
Source: `net/aepoll.c`, `aePollPoll`. -/
def aePollPoll (n : ℕ) : Option (List EpollEvent) → Except LoopFault (List (Int × Mask))
  | none => .ok []
  | some events =>
      if events.length ≤ n then .ok (events.map fun e => (e.fd, e.mask)) else .error .outOfBounds

/-- What `epoll_wait` may report, with `maxevents` set to `n`. -/
def Reports (k : Epoll) (n : ℕ) : Option (List EpollEvent) → Prop
  | none => True
  | some events => events.length ≤ n ∧ ∀ e ∈ events, k e.fd ≠ none

section Poll

variable {n : ℕ} {k : Epoll} {answer : Option (List EpollEvent)} {fired : List (Int × Mask)}

/-- Polling does not write outside `fired`, and what has fired is watched. -/
lemma aePollPoll_ok (h : Reports k n answer) :
    ∃ fired, aePollPoll n answer = .ok fired ∧ ∀ p ∈ fired, k p.1 ≠ none := by
  cases answer with
  | none => exact ⟨[], rfl, fun p hp => absurd hp List.not_mem_nil⟩
  | some events =>
      refine ⟨_, if_pos h.1, ?_⟩
      intro p hp
      obtain ⟨e, he, rfl⟩ := List.mem_map.mp hp
      exact h.2 e he

lemma EpollEvent.mask_has_readable (e : EpollEvent) : e.mask.has READABLE ↔ e.epollin = true := by
  -- the descriptor is not looked at
  have hbits : ∀ i o r u : Bool, (EpollEvent.mk 0 i o r u).mask.has READABLE ↔ i = true := by decide
  exact hbits e.epollin e.epollout e.epollerr e.epollhup

/-- What has fired without `EPOLLIN` does not pass the test of `mainLoop`, whatever the table has
for it. -/
lemma not_readable_of_fired {e : EpollEvent} (h : e.epollin = false) (m : Mask) :
    ¬(m &&& e.mask).has READABLE := by
  have hand : ∀ m m' : Mask, (m &&& m').has READABLE → m'.has READABLE := by decide
  intro hread
  have hin := e.mask_has_readable.mp (hand m e.mask hread)
  rw [h] at hin
  cases hin

end Poll

end ActionDB.Net.Event
