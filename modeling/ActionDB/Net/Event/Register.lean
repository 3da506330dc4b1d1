import ActionDB.Net.Event.Loop

/-!
# Registration and the kernel

An event is registered by `createFileEvent` and then `aePollAddEvent` on the same descriptor and
mask, and deregistered by `deleteFileEvent`. After each of these the kernel should watch every
descriptor for exactly the events of its mask (`InStep`), whatever the masks and whatever came
before.

`aePollAddEvent` should use `EPOLL_CTL_ADD` on a descriptor that is not watched yet and
`EPOLL_CTL_MOD` on one that is. It looks at the mask that `createFileEvent` has already merged, and
takes `READABLE` alone for a descriptor that is new. So it is right about a new descriptor only if
that is registered for reading alone, and about a watched one only if that is left with
`WRITEABLE` (`Addable`). `keepsStep_iff` says that a sequence of operations stays in step exactly
when every registration in it is of this kind. The server makes no other ones: it registers a
descriptor once, for reading.
-/

namespace ActionDB.Net.Event

open ActionDB.Found

variable {n : ℕ}

/-! ## Operations -/

/-- An operation on the event loop. For `deregister`, `ret` is what `deleteFileEvent` takes for the
result of `aePollDeleteEvent`. -/
inductive Call where
  | register (fd : Int) (mask : Mask) (proc : FileProc)
  | deregister (fd : Int) (mask : Mask) (ret : Int)

namespace Call

/-- The descriptor is in the table, the mask is not empty, and `aePollDeleteEvent` is not read as
returning `-1`. -/
def Ok (n : ℕ) : Call → Prop
  | register fd mask _ => 0 ≤ fd ∧ fd < n ∧ mask ≠ NONE
  | deregister fd mask ret => 0 ≤ fd ∧ fd < n ∧ mask ≠ NONE ∧ ret ≠ -1

/-- The operation, and what `aePollAddEvent` returns if it is called. -/
def run (e : EventLoop n) : Call → Except LoopFault (Option Int × EventLoop n)
  | register fd mask proc => do
      let (_, e) ← createFileEvent e fd mask proc
      let (added, e) ← aePollAddEvent e fd mask false
      return (some added, e)
  | deregister fd mask ret => do
      let (_, e) ← deleteFileEvent e fd mask ret
      return (none, e)

/-- The events every descriptor is registered for after the operation. -/
def events (f : Int → Mask) : Call → Int → Mask
  | register fd mask _ => Function.update f fd (f fd ||| mask)
  | deregister fd mask _ => Function.update f fd (f fd &&& ~~~mask)

end Call

/-- The kernel watches every descriptor for the events of its mask. -/
def InStep (e : EventLoop n) : Prop :=
  ∀ fd, e.epoll fd = if e.mask fd = NONE then none else some (e.mask fd)

/-- Every `aePollAddEvent` succeeds, and the kernel is in step after every operation. -/
def KeepsStep : EventLoop n → List Call → Prop
  | _, [] => True
  | e, c :: cs => ∃ r e', c.run e = .ok (r, e') ∧ r ≠ some (-1) ∧ InStep e' ∧ KeepsStep e' cs

/-- A descriptor with the events `old` can be registered for `mask`: if it has none, for reading
alone, and otherwise unless it is left with reading alone. -/
def Addable (old mask : Mask) : Prop :=
  if old = NONE then mask = READABLE else old ||| mask ≠ READABLE

instance (old mask : Mask) : Decidable (Addable old mask) :=
  inferInstanceAs (Decidable (if old = NONE then mask = READABLE else old ||| mask ≠ READABLE))

/-- A registration is one that `aePollAddEvent` is right about; `f` are the events that are
registered before. -/
def Call.Addable (f : Int → Mask) : Call → Prop
  | register fd mask _ => Event.Addable (f fd) mask
  | deregister _ _ _ => True

/-- All registrations are. -/
def AllAddable (f : Int → Mask) : List Call → Prop
  | [] => True
  | c :: cs => c.Addable f ∧ AllAddable (c.events f) cs

/-! ## One operation -/

section Step

variable {e : EventLoop n} {fd : Int} {mask : Mask}

lemma InStep.of_update {e' : EventLoop n} {m : Mask} (h : InStep e)
    (hmask : e'.mask = Function.update e.mask fd m)
    (hepoll : e'.epoll = Function.update e.epoll fd (if m = NONE then none else some m)) :
    InStep e' := by
  intro f
  rw [hmask, hepoll]
  by_cases hf : f = fd
  · subst hf
    simp only [Function.update_self]
  · simp only [Function.update_of_ne hf]
    exact h f

/-- What a registration asks of the kernel. -/
lemma register_run {proc : FileProc} (hc : (Call.register fd mask proc).Ok n) :
    ∃ e₁ : EventLoop n, e₁.epoll = e.epoll ∧
      e₁.mask = Function.update e.mask fd (e.mask fd ||| mask) ∧
      (Call.register fd mask proc).run e =
        match epollCtl e.epoll (if e.mask fd ||| mask = READABLE then .add else .mod) fd
          (e.mask fd ||| mask) with
        | some k => .ok (some 1, { e₁ with epoll := k })
        | none => .ok (some (-1), e₁) := by
  obtain ⟨h₀, h₁, -⟩ := hc
  obtain ⟨i, hi⟩ := exists_slot h₀ h₁
  obtain ⟨e₁, hcreate, hepoll, hmask, -⟩ := createFileEvent_spec h₀ h₁ mask proc
  have hnew : e₁.mask fd = e.mask fd ||| mask := by rw [hmask, if_pos rfl]
  have hmerge : ∀ m old : Mask, m ||| (old ||| m) = old ||| m := by decide
  refine ⟨e₁, hepoll, ?_, ?_⟩
  · funext f
    rw [hmask, Function.update_apply]
  · simp only [Call.run, hcreate, ok_bind, aePollAddEvent_of_slot hi, hnew, hmerge, hepoll]
    cases epollCtl e.epoll (if e.mask fd ||| mask = READABLE then .add else .mod) fd
      (e.mask fd ||| mask) <;> rfl

/-- The kernel's answer to a registration: it knows the descriptor exactly when that has events, so
it takes the operation exactly when that is the right one. -/
lemma epollCtl_register (hin : InStep e) :
    epollCtl e.epoll (if e.mask fd ||| mask = READABLE then .add else .mod) fd
        (e.mask fd ||| mask) = if Addable (e.mask fd) mask then
      some (Function.update e.epoll fd (some (e.mask fd ||| mask))) else none := by
  have hk := hin fd
  by_cases hold : e.mask fd = NONE
  · have hmask : e.mask fd ||| mask = mask := by
      rw [hold]
      exact BitVec.zero_or
    have hadd : Addable (e.mask fd) mask ↔ mask = READABLE := by rw [Addable, if_pos hold]
    rw [if_pos hold] at hk
    simp only [hmask, hadd]
    split_ifs
    · simp only [epollCtl, hk]
    · simp only [epollCtl, hk]
  · have hadd : Addable (e.mask fd) mask ↔ e.mask fd ||| mask ≠ READABLE := by
      rw [Addable, if_neg hold]
    rw [if_neg hold] at hk
    simp only [hadd, ne_eq, ite_not]
    split_ifs
    · simp only [epollCtl, hk]
    · simp only [epollCtl, hk]

/-- The kernel's answer to a deregistration of a descriptor that it watches. -/
lemma epollCtl_deregister {k : Epoll} {ev : Mask} (hk : k fd = some ev) (rest : Mask) :
    epollCtl k (if rest ≠ NONE then .mod else .del) fd rest =
      some (Function.update k fd (if rest = NONE then none else some rest)) := by
  by_cases hrest : rest = NONE
  · rw [if_neg fun h => h hrest, if_pos hrest]
    simp only [epollCtl, hk]
  · rw [if_pos hrest, if_neg hrest]
    simp only [epollCtl, hk]

/-- **A registration** adds the events to the mask. It succeeds and leaves the kernel in step
exactly when the descriptor can be registered for the mask. -/
lemma register_inStep_iff {proc : FileProc} (hc : (Call.register fd mask proc).Ok n)
    (hin : InStep e) : ∃ r e', (Call.register fd mask proc).run e = .ok (r, e') ∧
      e'.mask = Function.update e.mask fd (e.mask fd ||| mask) ∧
      (r ≠ some (-1) ∧ InStep e' ↔ Addable (e.mask fd) mask) := by
  obtain ⟨e₁, hepoll, hmask, hrun⟩ := register_run hc (e := e)
  have hor : ∀ old m : Mask, m ≠ NONE → old ||| m ≠ NONE := by decide
  rw [epollCtl_register hin] at hrun
  split_ifs at hrun with hadd
  · refine ⟨_, _, hrun, hmask, iff_of_true ⟨by decide, .of_update hin hmask ?_⟩ hadd⟩
    rw [if_neg (hor _ _ hc.2.2)]
  · refine ⟨_, _, hrun, hmask, iff_of_false ?_ hadd⟩
    intro h
    exact h.1 rfl

/-- **A deregistration** clears the events from the mask and leaves the kernel in step. -/
lemma deregister_inStep {ret : Int} (hc : (Call.deregister fd mask ret).Ok n) (hin : InStep e) :
    ∃ e', (Call.deregister fd mask ret).run e = .ok (none, e') ∧
      e'.mask = Function.update e.mask fd (e.mask fd &&& ~~~mask) ∧ InStep e' := by
  obtain ⟨h₀, h₁, -, hret⟩ := hc
  have hk := hin fd
  by_cases hnone : e.mask fd = NONE
  · -- there is nothing to clear
    have hclear : e.mask fd &&& ~~~mask = e.mask fd := by
      rw [hnone]
      exact BitVec.zero_and
    refine ⟨e, ?_, ?_, hin⟩
    · simp only [Call.run, deleteFileEvent_none h₀ h₁ hnone, ok_bind]
      rfl
    · rw [hclear, Function.update_eq_self]
  · obtain ⟨e', hrun, hepoll, hmask, -⟩ := deleteFileEvent_rest h₀ h₁ hnone mask hret
    rw [if_neg hnone] at hk
    rw [epollCtl_deregister hk, Option.getD_some] at hepoll
    have hmask' : e'.mask = Function.update e.mask fd (e.mask fd &&& ~~~mask) := by
      funext f
      rw [hmask, Function.update_apply]
    refine ⟨e', ?_, hmask', hin.of_update hmask' hepoll⟩
    simp only [Call.run, hrun, ok_bind]
    rfl

end Step

/-! ## Sequences of operations -/

lemma inStep_createEventLoop : InStep (createEventLoop n) := by
  intro fd
  rw [mask_createEventLoop, if_pos rfl]
  rfl

/-- **One operation** of either kind. -/
lemma Call.inStep_iff {e : EventLoop n} {c : Call} (hc : c.Ok n) (hin : InStep e) :
    ∃ r e', c.run e = .ok (r, e') ∧ e'.mask = c.events e.mask ∧
      (r ≠ some (-1) ∧ InStep e' ↔ c.Addable e.mask) := by
  cases c with
  | register fd mask proc => exact register_inStep_iff hc hin
  | deregister fd mask ret =>
      obtain ⟨e', hrun, hmask, hin'⟩ := deregister_inStep hc hin
      exact ⟨none, e', hrun, hmask, iff_of_true ⟨by simp, hin'⟩ trivial⟩

/-- A sequence of operations from a state in step. -/
lemma keepsStep_of_inStep {e : EventLoop n} {cs : List Call} (hcs : ∀ c ∈ cs, c.Ok n)
    (hin : InStep e) : KeepsStep e cs ↔ AllAddable e.mask cs := by
  induction cs generalizing e with
  | nil => exact Iff.rfl
  | cons c cs ih =>
      have hrest : ∀ c ∈ cs, c.Ok n := fun c h => hcs c (List.mem_cons_of_mem _ h)
      obtain ⟨r, e', hrun, hmask, hiff⟩ := Call.inStep_iff (hcs c List.mem_cons_self) hin
      unfold KeepsStep AllAddable
      rw [← hmask]
      constructor
      · rintro ⟨r₁, e₁, hrun₁, hr, hin', hkeeps⟩
        obtain ⟨rfl, rfl⟩ := ok_pair_inj hrun hrun₁
        exact ⟨hiff.mp ⟨hr, hin'⟩, (ih hrest hin').mp hkeeps⟩
      · rintro ⟨hadd, hall⟩
        obtain ⟨hr, hin'⟩ := hiff.mpr hadd
        exact ⟨r, e', hrun, hr, hin', (ih hrest hin').mpr hall⟩

/-- **The kernel is kept in step** by a sequence of operations on a new event loop exactly when
every registration in it is for reading alone if the descriptor has no events, and leaves the
descriptor with `WRITEABLE` if it has some. -/
theorem keepsStep_iff {cs : List Call} (hcs : ∀ c ∈ cs, c.Ok n) :
    KeepsStep (createEventLoop n) cs ↔ AllAddable (fun _ => NONE) cs := by
  rw [keepsStep_of_inStep hcs inStep_createEventLoop, mask_createEventLoop]

/-- A descriptor that is read from, then also written to, and then neither. -/
theorem keepsStep_readWrite :
    KeepsStep (createEventLoop 8) [.register 3 READABLE .tcpReadCallback,
      .register 3 WRITEABLE .tcpReadCallback, .deregister 3 READABLE 0,
      .deregister 3 WRITEABLE 0] := by
  apply (keepsStep_iff ?_).mpr
  · have hread : Addable NONE READABLE := by decide
    have hwrite : Addable READABLE WRITEABLE := by decide
    exact ⟨hread, hwrite, trivial, trivial, trivial⟩
  · simp [Call.Ok, READABLE, WRITEABLE, NONE]

/-- The first registration of a descriptor for writing fails and leaves its mask, and so does its
second one for reading. -/
theorem keepsStep_fails :
    (∃ e', (Call.register 3 WRITEABLE .tcpReadCallback).run (createEventLoop 8) =
        .ok (some (-1), e') ∧ e'.mask 3 = WRITEABLE ∧ e'.epoll 3 = none) ∧
      ¬KeepsStep (createEventLoop 8) [.register 3 WRITEABLE .tcpReadCallback] ∧
      ¬KeepsStep (createEventLoop 8) [.register 3 READABLE .tcpReadCallback,
        .register 3 READABLE .tcpReadCallback] := by
  refine ⟨⟨_, rfl, by decide, rfl⟩, ?_, ?_⟩
  · rintro ⟨r, e', hrun, hr, -⟩
    cases hrun
    exact hr rfl
  · rintro ⟨r, e', hrun, -, -, r', e'', hrun', hr', -⟩
    cases hrun
    cases hrun'
    exact hr' rfl

end ActionDB.Net.Event
