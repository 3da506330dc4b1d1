import ActionDB.Found.Heap
import Mathlib.Data.BitVec
import Mathlib.Logic.Function.Basic

/-!
# The event loop and `epoll`

`net/event.c` and `net/aepoll.c`. An `EventLoop` has a table of file events, one for each
descriptor below `setsize`, and an epoll instance. The kernel keeps a set of events for every
descriptor it watches: `EPOLL_CTL_ADD` fails on a descriptor that is watched, `EPOLL_CTL_MOD` and
`EPOLL_CTL_DEL` fail on one that is not (`epollCtl`).

An event mask has two bits, `READABLE` and `WRITEABLE`; `EPOLLIN` and `EPOLLOUT` are the same two
bits for the kernel. The table is an array, and an access outside it is a `LoopFault`.

`aePollDeleteEvent` has no `return`, and its caller compares what it returns with `-1`: that value
is an argument of `deleteFileEvent`.
-/

namespace ActionDB.Net.Event

open ActionDB.Found

/-! ## Masks -/

/-- A set of events. Source: `net/event.h`, `NONE`, `READABLE` and `WRITEABLE`. -/
abbrev Mask := BitVec 2

def NONE : Mask := 0

def READABLE : Mask := 1

def WRITEABLE : Mask := 2

/-- `mask & bit`, as a condition. -/
def Mask.has (m bit : Mask) : Prop := m &&& bit ≠ NONE

instance (m bit : Mask) : Decidable (m.has bit) := inferInstanceAs (Decidable (_ ≠ _))

/-! ## The event loop -/

/-- The callbacks that are registered. -/
inductive FileProc where
  | tcpReadCallback
  | tcpAcceptCallback
  deriving DecidableEq, Repr

/-- Source: `net/event.h`, `struct fileEvent`. -/
structure FileEvent where
  mask : Mask
  rfileProc : Option FileProc
  wfileProc : Option FileProc
  deriving DecidableEq

/-- Accesses outside the table of file events. -/
inductive LoopFault where
  | outOfBounds
  deriving DecidableEq, Repr

/-- What the kernel watches. -/
abbrev Epoll := Int → Option Mask

/-- Source: `net/event.h`, `struct eventLoop`, with the epoll instance behind `apidata`. -/
structure EventLoop (setsize : ℕ) where
  maxfd : Int
  fEvents : Fin setsize → FileEvent
  epoll : Epoll

variable {n : ℕ}

/-- Source: `net/event.c`, `createEventLoop`, and `net/aepoll.c`, `aePollCreate`. -/
def createEventLoop (n : ℕ) : EventLoop n where
  maxfd := 0
  fEvents := fun _ => ⟨NONE, none, none⟩
  epoll := fun _ => none

/-- The place of a descriptor in the table. -/
def slot (n : ℕ) (fd : Int) : Option (Fin n) :=
  if h : 0 ≤ fd ∧ fd < n then some ⟨fd.toNat, by omega⟩ else none

/-- `&eLoop->fEvents[fd]`. -/
def at? (n : ℕ) (fd : Int) : Except LoopFault (Fin n) :=
  match slot n fd with
  | some i => .ok i
  | none => .error .outOfBounds

/-- Source: `net/event.c`, `createFileEvent`. -/
def createFileEvent (e : EventLoop n) (fd : Int) (mask : Mask) (proc : FileProc) :
    Except LoopFault (Int × EventLoop n) :=
  if fd > n then .ok (-1, e)
  else do
    let i ← at? n fd
    let fe := e.fEvents i
    let fe := { fe with
      mask := fe.mask ||| mask
      rfileProc := if mask.has READABLE then some proc else fe.rfileProc
      wfileProc := if mask.has WRITEABLE then some proc else fe.wfileProc }
    return (1, { e with
      fEvents := Function.update e.fEvents i fe
      maxfd := if fd > e.maxfd then fd else e.maxfd })

/-! ## The kernel -/

inductive CtlOp where
  | add
  | mod
  | del
  deriving DecidableEq, Repr

/-- `epoll_ctl`; `none` when it fails. -/
def epollCtl (k : Epoll) (op : CtlOp) (fd : Int) (events : Mask) : Option Epoll :=
  match op, k fd with
  | .add, none => some (Function.update k fd (some events))
  | .mod, some _ => some (Function.update k fd (some events))
  | .del, some _ => some (Function.update k fd none)
  | _, _ => none

/-- The operation is `ADD` when the mask of the descriptor is `1`, as `createFileEvent` leaves it.
`denied` says that the kernel refuses for a reason of its own.
Source: `net/aepoll.c`, `aePollAddEvent`. -/
def aePollAddEvent (e : EventLoop n) (fd : Int) (mask : Mask) (denied : Bool) :
    Except LoopFault (Int × EventLoop n) := do
  let i ← at? n fd
  let op := if (e.fEvents i).mask = 1 then .add else .mod
  let mask := mask ||| (e.fEvents i).mask
  match if denied then none else epollCtl e.epoll op fd mask with
  | some k => return (1, { e with epoll := k })
  | none => return (-1, e)

/-- What `epoll_ctl` returns is not looked at.
Source: `net/aepoll.c`, `aePollDeleteEvent`. -/
def aePollDeleteEvent (e : EventLoop n) (fd : Int) (delmask : Mask) :
    Except LoopFault (EventLoop n) := do
  let i ← at? n fd
  let mask := (e.fEvents i).mask &&& ~~~delmask
  let op := if mask ≠ NONE then .mod else .del
  return { e with epoll := (epollCtl e.epoll op fd mask).getD e.epoll }

/-- The largest `j` below a bound that has events, or `-1`. -/
def lastUsed (f : Fin n → FileEvent) : ℕ → Except LoopFault Int
  | 0 => .ok (-1)
  | j + 1 => do
      let i ← at? n j
      if (f i).mask ≠ NONE then return j else lastUsed f j

/-- `maxfd` when the descriptor `fd` is left with the events `mask`. -/
def maxfdAfter (f : Fin n → FileEvent) (fd maxfd : Int) (mask : Mask) : Except LoopFault Int :=
  if fd = maxfd ∧ mask = NONE then lastUsed f maxfd.toNat else .ok maxfd

/-- `ret` is what the comparison with `-1` finds, as `aePollDeleteEvent` returns nothing. At its
end the function returns nothing itself.
Source: `net/event.c`, `deleteFileEvent`. -/
def deleteFileEvent (e : EventLoop n) (fd : Int) (mask : Mask) (ret : Int) :
    Except LoopFault (Option Int × EventLoop n) :=
  if fd ≥ n then .ok (some (-1), e)
  else do
    let i ← at? n fd
    if (e.fEvents i).mask = NONE then return (some (-1), e)
    else
      let e ← aePollDeleteEvent e fd mask
      if ret = -1 then return (some (-1), e)
      else
        let fe := { e.fEvents i with mask := (e.fEvents i).mask &&& ~~~mask }
        let fEvents := Function.update e.fEvents i fe
        let maxfd ← maxfdAfter fEvents fd e.maxfd fe.mask
        return (none, { e with fEvents, maxfd })

/-! ## What the functions do -/

/-- The events of a descriptor; outside the table there are none. -/
def EventLoop.mask (e : EventLoop n) (fd : Int) : Mask :=
  match slot n fd with
  | some i => (e.fEvents i).mask
  | none => NONE

/-- The callback for reading from a descriptor. -/
def EventLoop.rproc (e : EventLoop n) (fd : Int) : Option FileProc :=
  match slot n fd with
  | some i => (e.fEvents i).rfileProc
  | none => none

lemma mask_createEventLoop : (createEventLoop n).mask = fun _ => NONE := by
  funext fd
  unfold EventLoop.mask
  cases slot n fd <;> rfl

section Specs

variable {e : EventLoop n} {fd : Int}

lemma exists_slot (h₀ : 0 ≤ fd) (h₁ : fd < n) : ∃ i, slot n fd = some i :=
  ⟨⟨fd.toNat, by omega⟩, dif_pos ⟨h₀, h₁⟩⟩

lemma slot_inj {fd' : Int} {i : Fin n} (h : slot n fd = some i) (h' : slot n fd' = some i) :
    fd = fd' := by
  unfold slot at h h'
  split_ifs at h h' with hr hr'
  have h₁ := congrArg Fin.val (Option.some.inj h)
  have h₂ := congrArg Fin.val (Option.some.inj h')
  simp only at h₁ h₂
  omega

lemma at?_of_slot {i : Fin n} (h : slot n fd = some i) : at? n fd = .ok i := by
  unfold at?
  rw [h]

lemma mask_of_slot {i : Fin n} (h : slot n fd = some i) : e.mask fd = (e.fEvents i).mask := by
  unfold EventLoop.mask
  rw [h]

/-- Changing the entry of one descriptor. -/
lemma mask_update {i : Fin n} (h : slot n fd = some i) (fe : FileEvent) (m : Int) (k : Epoll)
    (f : Int) : (EventLoop.mk m (Function.update e.fEvents i fe) k).mask f =
      if f = fd then fe.mask else e.mask f := by
  by_cases hf : f = fd
  · subst hf
    rw [if_pos rfl, mask_of_slot h]
    simp only [Function.update_self]
  · rw [if_neg hf, EventLoop.mask, EventLoop.mask]
    cases hs : slot n f with
    | none => rfl
    | some j =>
        have hji : j ≠ i := by
          rintro rfl
          exact hf (slot_inj hs h)
        simp only [Function.update_of_ne hji]

lemma rproc_update {i : Fin n} (h : slot n fd = some i) (fe : FileEvent) (m : Int) (k : Epoll)
    (f : Int) : (EventLoop.mk m (Function.update e.fEvents i fe) k).rproc f =
      if f = fd then fe.rfileProc else e.rproc f := by
  by_cases hf : f = fd
  · subst hf
    rw [if_pos rfl, EventLoop.rproc, h]
    simp only [Function.update_self]
  · rw [if_neg hf, EventLoop.rproc, EventLoop.rproc]
    cases hs : slot n f with
    | none => rfl
    | some j =>
        have hji : j ≠ i := by
          rintro rfl
          exact hf (slot_inj hs h)
        simp only [Function.update_of_ne hji]

lemma bounds_of_slot {i : Fin n} (h : slot n fd = some i) : 0 ≤ fd ∧ fd < n := by
  unfold slot at h
  split_ifs at h with hr
  exact hr

/-- The loop with events added to an entry of the table. -/
def EventLoop.withEvent (e : EventLoop n) (i : Fin n) (fd : Int) (mask : Mask) (proc : FileProc) :
    EventLoop n :=
  { e with
    maxfd := if fd > e.maxfd then fd else e.maxfd
    fEvents := Function.update e.fEvents i
      { mask := (e.fEvents i).mask ||| mask
        rfileProc := if mask.has READABLE then some proc else (e.fEvents i).rfileProc
        wfileProc := if mask.has WRITEABLE then some proc else (e.fEvents i).wfileProc } }

lemma createFileEvent_of_slot {i : Fin n} (hi : slot n fd = some i) (mask : Mask)
    (proc : FileProc) :
    createFileEvent e fd mask proc = .ok (1, e.withEvent i fd mask proc) := by
  have hfd := bounds_of_slot hi
  unfold createFileEvent
  rw [if_neg (by omega), at?_of_slot hi, ok_bind]
  rfl

/-- `createFileEvent` refuses a descriptor that is too large, or adds the events. -/
lemma createFileEvent_cases {mask : Mask} {proc : FileProc} {r : Int} {e' : EventLoop n}
    (hcall : createFileEvent e fd mask proc = .ok (r, e')) :
    (n : Int) < fd ∧ r = -1 ∧ e' = e ∨
      ∃ i, slot n fd = some i ∧ r = 1 ∧ e' = e.withEvent i fd mask proc := by
  cases hi : slot n fd with
  | none =>
      unfold createFileEvent at hcall
      by_cases hn : fd > n
      · rw [if_pos hn] at hcall
        cases hcall
        exact .inl ⟨hn, rfl, rfl⟩
      · rw [if_neg hn, at?, hi] at hcall
        cases hcall
  | some i =>
      rw [createFileEvent_of_slot hi] at hcall
      cases hcall
      exact .inr ⟨i, rfl, rfl, rfl⟩

/-- **`createFileEvent`** adds events to a descriptor of the table, and tells the kernel nothing. -/
theorem createFileEvent_spec (h₀ : 0 ≤ fd) (h₁ : fd < n) (mask : Mask) (proc : FileProc) :
    ∃ e', createFileEvent e fd mask proc = .ok (1, e') ∧ e'.epoll = e.epoll ∧
      (∀ f, e'.mask f = if f = fd then e.mask fd ||| mask else e.mask f) ∧
      ∀ f, e'.rproc f = if f = fd ∧ mask.has READABLE then some proc else e.rproc f := by
  obtain ⟨i, hi⟩ := exists_slot h₀ h₁
  refine ⟨e.withEvent i fd mask proc, createFileEvent_of_slot hi mask proc, rfl, ?_, ?_⟩
  · intro f
    rw [EventLoop.withEvent, mask_update hi, mask_of_slot hi]
  · intro f
    rw [EventLoop.withEvent, rproc_update hi]
    by_cases hf : f = fd
    · subst hf
      simp only [true_and, if_true, EventLoop.rproc, hi]
    · rw [if_neg hf, if_neg fun h => hf h.1]

/-- `aePollAddEvent` fails exactly when the kernel does. -/
lemma aePollAddEvent_of_slot {i : Fin n} (hi : slot n fd = some i) (mask : Mask) :
    aePollAddEvent e fd mask false =
      match epollCtl e.epoll (if e.mask fd = READABLE then .add else .mod) fd
        (mask ||| e.mask fd) with
      | some k => .ok (1, { e with epoll := k })
      | none => .ok (-1, e) := by
  unfold aePollAddEvent
  rw [at?_of_slot hi, ok_bind, mask_of_slot hi]
  rfl

/-- **`aePollAddEvent`** right after the first `createFileEvent(READABLE)`: the kernel adds the
descriptor. -/
theorem aePollAddEvent_spec (h₀ : 0 ≤ fd) (h₁ : fd < n) (hmask : e.mask fd = READABLE)
    (hk : e.epoll fd = none) :
    aePollAddEvent e fd READABLE false =
      .ok (1, { e with epoll := Function.update e.epoll fd (some READABLE) }) := by
  obtain ⟨i, hi⟩ := exists_slot h₀ h₁
  rw [aePollAddEvent_of_slot hi, hmask, if_pos rfl]
  simp only [epollCtl, hk]
  rfl

/-- A descriptor of the size of the table passes the test of `createFileEvent`, and is outside. -/
lemma createFileEvent_last (h : fd = n) (mask : Mask) (proc : FileProc) :
    createFileEvent e fd mask proc = .error .outOfBounds := by
  have hslot : slot n fd = none := dif_neg (by omega)
  unfold createFileEvent
  rw [if_neg (by omega), at?, hslot]
  rfl

/-- `aePollAddEvent` leaves the table alone, and the kernel too when it fails. -/
lemma aePollAddEvent_cases {mask : Mask} {denied : Bool} {r : Int} {e' : EventLoop n}
    (hcall : aePollAddEvent e fd mask denied = .ok (r, e')) :
    r = -1 ∧ e' = e ∨ r = 1 ∧ ∃ k, e' = { e with epoll := k } := by
  obtain ⟨i, -, hcall⟩ := bind_eq_ok hcall
  simp only [] at hcall
  split at hcall
  · next k _ =>
      cases hcall
      exact .inr ⟨rfl, k, rfl⟩
  · cases hcall
    exact .inl ⟨rfl, rfl⟩

lemma aePollAddEvent_denied (h₀ : 0 ≤ fd) (h₁ : fd < n) (mask : Mask) :
    aePollAddEvent e fd mask true = .ok (-1, e) := by
  obtain ⟨i, hi⟩ := exists_slot h₀ h₁
  unfold aePollAddEvent
  rw [at?_of_slot hi, ok_bind]
  rfl

lemma lastUsed_ok (f : Fin n → FileEvent) (k : ℕ) (hk : k ≤ n) : ∃ m, lastUsed f k = .ok m := by
  induction k with
  | zero => exact ⟨-1, rfl⟩
  | succ j ih =>
      obtain ⟨i, hi⟩ : ∃ i, slot n (j : Int) = some i := exists_slot (by omega) (by omega)
      unfold lastUsed
      rw [at?_of_slot hi, ok_bind]
      split_ifs
      · exact ⟨j, rfl⟩
      · exact ih (by omega)

lemma maxfdAfter_ok (f : Fin n → FileEvent) (h₁ : fd < n) (maxfd : Int) (mask : Mask) :
    ∃ m, maxfdAfter f fd maxfd mask = .ok m := by
  unfold maxfdAfter
  split_ifs with hmax
  · exact lastUsed_ok f _ (by omega)
  · exact ⟨maxfd, rfl⟩

/-- `deleteFileEvent` refuses a descriptor without events. -/
lemma deleteFileEvent_none (h₀ : 0 ≤ fd) (h₁ : fd < n) (hnone : e.mask fd = NONE) (mask : Mask)
    (ret : Int) : deleteFileEvent e fd mask ret = .ok (some (-1), e) := by
  obtain ⟨i, hi⟩ := exists_slot h₀ h₁
  rw [mask_of_slot hi] at hnone
  unfold deleteFileEvent
  rw [if_neg (by omega), at?_of_slot hi, ok_bind, if_pos hnone]
  rfl

/-- The loop with events cleared in an entry of the table, before `maxfd` is looked at. -/
def EventLoop.withoutEvent (e : EventLoop n) (i : Fin n) (fd : Int) (mask : Mask) : EventLoop n :=
  let rest := (e.fEvents i).mask &&& ~~~mask
  { e with
    fEvents := Function.update e.fEvents i { e.fEvents i with mask := rest }
    epoll := (epollCtl e.epoll (if rest ≠ NONE then .mod else .del) fd rest).getD e.epoll }

lemma mask_withoutEvent {i : Fin n} (hi : slot n fd = some i) (mask : Mask) (f : Int) :
    (e.withoutEvent i fd mask).mask f = if f = fd then e.mask fd &&& ~~~mask else e.mask f := by
  rw [EventLoop.withoutEvent, mask_update hi, mask_of_slot hi]

/-- `deleteFileEvent` on a descriptor with events: the entry is cleared, then `maxfd` is set. -/
lemma deleteFileEvent_of_slot {i : Fin n} {ret : Int} (hi : slot n fd = some i)
    (hne : e.mask fd ≠ NONE) (mask : Mask) (hret : ret ≠ -1) :
    deleteFileEvent e fd mask ret =
      (maxfdAfter (e.withoutEvent i fd mask).fEvents fd e.maxfd (e.mask fd &&& ~~~mask)).map
        fun m => (none, { e.withoutEvent i fd mask with maxfd := m }) := by
  have hfd := bounds_of_slot hi
  rw [mask_of_slot hi] at hne ⊢
  unfold deleteFileEvent aePollDeleteEvent
  rw [if_neg (by omega), at?_of_slot hi, ok_bind, if_neg hne]
  simp only [ok_bind, hret, if_false]
  change (maxfdAfter (e.withoutEvent i fd mask).fEvents fd e.maxfd
    ((e.fEvents i).mask &&& ~~~mask) >>= _) = _
  cases maxfdAfter (e.withoutEvent i fd mask).fEvents fd e.maxfd
    ((e.fEvents i).mask &&& ~~~mask) <;> rfl

/-- **`deleteFileEvent`** clears the events of the mask, and tells the kernel what is left. -/
theorem deleteFileEvent_rest {ret : Int} (h₀ : 0 ≤ fd) (h₁ : fd < n) (hne : e.mask fd ≠ NONE)
    (mask : Mask) (hret : ret ≠ -1) :
    ∃ e', deleteFileEvent e fd mask ret = .ok (none, e') ∧
      e'.epoll = (epollCtl e.epoll (if e.mask fd &&& ~~~mask ≠ NONE then .mod else .del) fd
        (e.mask fd &&& ~~~mask)).getD e.epoll ∧
      (∀ f, e'.mask f = if f = fd then e.mask fd &&& ~~~mask else e.mask f) ∧
      ∀ f, e'.rproc f = e.rproc f := by
  obtain ⟨i, hi⟩ := exists_slot h₀ h₁
  obtain ⟨m, hm⟩ := maxfdAfter_ok (e.withoutEvent i fd mask).fEvents h₁ e.maxfd
    (e.mask fd &&& ~~~mask)
  refine ⟨{ e.withoutEvent i fd mask with maxfd := m }, ?_, ?_, mask_withoutEvent hi mask, ?_⟩
  · rw [deleteFileEvent_of_slot hi hne mask hret, hm]
    rfl
  · rw [mask_of_slot hi]
    rfl
  · intro f
    rw [EventLoop.withoutEvent, rproc_update hi]
    split_ifs with hf
    · subst hf
      unfold EventLoop.rproc
      rw [hi]
    · rfl

/-- **`deleteFileEvent`** on a descriptor that is only read from: the events of a mask with
`READABLE` are all it has, and the kernel forgets it. -/
theorem deleteFileEvent_spec {mask : Mask} {ret : Int} (h₀ : 0 ≤ fd) (h₁ : fd < n)
    (hmask : e.mask fd = READABLE) (hk : e.epoll fd ≠ none) (hread : mask.has READABLE)
    (hret : ret ≠ -1) :
    ∃ e', deleteFileEvent e fd mask ret = .ok (none, e') ∧
      e'.epoll = Function.update e.epoll fd none ∧
      (∀ f, e'.mask f = if f = fd then NONE else e.mask f) ∧ ∀ f, e'.rproc f = e.rproc f := by
  obtain ⟨ev, hev⟩ := Option.ne_none_iff_exists'.mp hk
  have hne : e.mask fd ≠ NONE := by
    rw [hmask]
    decide
  have hclear : ∀ m : Mask, m.has READABLE → READABLE &&& ~~~m = NONE := by decide
  have hrest : e.mask fd &&& ~~~mask = NONE := by
    rw [hmask]
    exact hclear mask hread
  obtain ⟨e', hrun, hepoll, hmask', hrproc⟩ := deleteFileEvent_rest h₀ h₁ hne mask hret
  rw [hrest] at hepoll hmask'
  refine ⟨e', hrun, ?_, hmask', hrproc⟩
  simp only [hepoll, ne_eq, not_true_eq_false, if_false, epollCtl, hev, Option.getD_some]

/-- The events of all descriptors but one are the same. -/
def EventLoop.SameOff (e e' : EventLoop n) (fd : Int) : Prop :=
  ∀ f, f ≠ fd → e'.mask f = e.mask f ∧ e'.epoll f = e.epoll f

lemma aePollDeleteEvent_spec {i : Fin n} (hi : slot n fd = some i) (mask : Mask) :
    ∃ k, aePollDeleteEvent e fd mask = .ok { e with epoll := k } ∧ ∀ f ≠ fd, k f = e.epoll f := by
  unfold aePollDeleteEvent
  rw [at?_of_slot hi, ok_bind]
  refine ⟨_, rfl, ?_⟩
  intro f hf
  unfold epollCtl
  split <;> simp only [Option.getD_some, Option.getD_none, Function.update_of_ne hf]

/-- **`deleteFileEvent`** works on its own descriptor, whether or not it succeeds. -/
theorem deleteFileEvent_sameOff {mask : Mask} {ret : Int} {r : Option Int} {e' : EventLoop n}
    (hcall : deleteFileEvent e fd mask ret = .ok (r, e')) : e.SameOff e' fd := by
  intro f hf
  by_cases hn : fd ≥ n
  · unfold deleteFileEvent at hcall
    rw [if_pos hn] at hcall
    cases hcall
    exact ⟨rfl, rfl⟩
  cases hi : slot n fd with
  | none =>
      unfold deleteFileEvent at hcall
      rw [if_neg hn, at?, hi] at hcall
      cases hcall
  | some i =>
      obtain ⟨k, hpoll, hk⟩ := aePollDeleteEvent_spec (e := e) hi mask
      unfold deleteFileEvent at hcall
      rw [if_neg hn, at?_of_slot hi, ok_bind] at hcall
      by_cases hnone : (e.fEvents i).mask = NONE
      · rw [if_pos hnone] at hcall
        cases hcall
        exact ⟨rfl, rfl⟩
      rw [if_neg hnone, hpoll, ok_bind] at hcall
      by_cases hret : ret = -1
      · rw [if_pos hret] at hcall
        cases hcall
        exact ⟨rfl, hk f hf⟩
      · rw [if_neg hret] at hcall
        obtain ⟨m, -, hdone⟩ := bind_eq_ok hcall
        cases hdone
        exact ⟨(mask_update hi _ _ _ f).trans (if_neg hf), hk f hf⟩

end Specs

end ActionDB.Net.Event
