import ActionDB.Net.Event.Loop

/-!
# Bounds of the event table

`fEvents` has an entry for each descriptor below `setsize`, and `maxfd` is the last one that has
events. `createFileEvent` raises `maxfd`; `deleteFileEvent` looks for the next lower one when the
last one has lost all its events. `MaxfdOk` says what `maxfd` should be: the last descriptor with
events, or at most `0` when there is none.

* `lastUsed_spec` is the downward scan, and `MaxfdOk.create` and `MaxfdOk.delete` are the steps:
  partial deletions, repeated registrations and an emptied table all keep `MaxfdOk`.
* The two functions do not test the descriptor alike. `createFileEvent` refuses `fd > setsize`,
  `deleteFileEvent` refuses `fd >= setsize`: `creates_iff` and `deletes_iff`.

So a sequence of calls stays inside the table, with both functions accepting the same descriptors,
exactly when none is about the descriptor `setsize` itself (`boundsKept_iff`). That one is
accepted by `createFileEvent`, which then writes behind the table (`create_behind_table`).
-/

namespace ActionDB.Net.Event

open ActionDB.Found

variable {n : ℕ}

/-! ## Calls -/

/-- A call on the event table. For `delete`, `ret` is what `deleteFileEvent` takes for the result of
`aePollDeleteEvent`. -/
inductive TableCall where
  | create (fd : Int) (mask : Mask) (proc : FileProc)
  | delete (fd : Int) (mask : Mask) (ret : Int)

namespace TableCall

/-- The descriptor of a call. -/
def fd : TableCall → Int
  | create fd _ _ => fd
  | delete fd _ _ => fd

/-- The descriptor is not negative, the mask is not empty, and `aePollDeleteEvent` is not read as
returning `-1`. -/
def Ok : TableCall → Prop
  | create fd mask _ => 0 ≤ fd ∧ mask ≠ NONE
  | delete fd mask ret => 0 ≤ fd ∧ mask ≠ NONE ∧ ret ≠ -1

instance : DecidablePred Ok
  | create fd mask _ => inferInstanceAs (Decidable (0 ≤ fd ∧ mask ≠ NONE))
  | delete fd mask ret => inferInstanceAs (Decidable (0 ≤ fd ∧ mask ≠ NONE ∧ ret ≠ -1))

/-- What the call leaves. -/
def run (e : EventLoop n) : TableCall → Except LoopFault (EventLoop n)
  | create fd mask proc => (createFileEvent e fd mask proc).map (·.2)
  | delete fd mask ret => (deleteFileEvent e fd mask ret).map (·.2)

lemma Ok.nonneg {c : TableCall} (h : c.Ok) : 0 ≤ c.fd := by
  cases c with
  | create fd mask proc => exact h.1
  | delete fd mask ret => exact h.1

end TableCall

/-- `createFileEvent` accepts the descriptor: it does not refuse it whatever the event loop. -/
def Creates (n : ℕ) (fd : Int) : Prop :=
  ∃ (e : EventLoop n) (mask : Mask) (proc : FileProc),
    createFileEvent e fd mask proc ≠ .ok (-1, e)

/-- `deleteFileEvent` accepts the descriptor: it does not refuse it whatever the event loop. -/
def Deletes (n : ℕ) (fd : Int) : Prop :=
  ∃ (e : EventLoop n) (mask : Mask) (ret : Int), ret ≠ -1 ∧
    deleteFileEvent e fd mask ret ≠ .ok (some (-1), e)

/-- `maxfd` is below `setsize` and bounds the descriptors with events. It is one of them, or there
are none and it is at most `0`. -/
structure MaxfdOk (e : EventLoop n) : Prop where
  lt : e.maxfd < n
  le : ∀ fd, e.mask fd ≠ NONE → fd ≤ e.maxfd
  top : e.mask e.maxfd ≠ NONE ∨ (∀ fd, e.mask fd = NONE) ∧ e.maxfd ≤ 0

/-- `maxfd` is right before and after every call, no call leaves the table, and the two functions
accept the same of the descriptors that the calls are about. -/
def BoundsKept : EventLoop n → List TableCall → Prop
  | e, [] => MaxfdOk e
  | e, c :: cs => MaxfdOk e ∧ (Creates n c.fd ↔ Deletes n c.fd) ∧
      ∃ e', c.run e = .ok e' ∧ BoundsKept e' cs

/-! ## The descriptors that are accepted -/

section Accepted

variable {fd : Int}

lemma creates_iff (h₀ : 0 ≤ fd) : Creates n fd ↔ fd ≤ n := by
  constructor
  · rintro ⟨e, mask, proc, hne⟩
    by_contra hgt
    refine hne ?_
    unfold createFileEvent
    rw [if_pos (not_le.mp hgt)]
  · intro hle
    refine ⟨createEventLoop n, READABLE, .tcpReadCallback, ?_⟩
    rcases hle.lt_or_eq with hlt | heq
    · obtain ⟨i, hi⟩ := exists_slot h₀ hlt
      rw [createFileEvent_of_slot hi]
      intro h
      have hret := congrArg Prod.fst (Except.ok.inj h)
      contradiction
    · rw [createFileEvent_last heq]
      intro h
      cases h

lemma deletes_iff (h₀ : 0 ≤ fd) : Deletes n fd ↔ fd < n := by
  constructor
  · rintro ⟨e, mask, ret, -, hne⟩
    by_contra hge
    refine hne ?_
    unfold deleteFileEvent
    rw [if_pos (not_lt.mp hge)]
  · intro hlt
    -- a loop in which the descriptor has events
    obtain ⟨e, -, -, hmask, -⟩ :=
      createFileEvent_spec (e := createEventLoop n) h₀ hlt READABLE .tcpReadCallback
    have hevents : ∀ m : Mask, m ||| READABLE ≠ NONE := by decide
    have hne : e.mask fd ≠ NONE := by
      rw [hmask, if_pos rfl]
      exact hevents _
    have hret : (0 : Int) ≠ -1 := by decide
    obtain ⟨e', hrun, -⟩ := deleteFileEvent_rest h₀ hlt hne READABLE hret
    refine ⟨e, READABLE, 0, hret, ?_⟩
    rw [hrun]
    intro h
    have hnone := congrArg Prod.fst (Except.ok.inj h)
    contradiction

/-- The two functions disagree on one descriptor. -/
lemma creates_iff_deletes_iff (h₀ : 0 ≤ fd) : (Creates n fd ↔ Deletes n fd) ↔ fd ≠ n := by
  rw [creates_iff h₀, deletes_iff h₀]
  omega

end Accepted

/-! ## One call -/

section Step

variable {e : EventLoop n} {fd : Int} {mask : Mask} {i : Fin n}

/-- Only descriptors of the table have events. -/
lemma bounds_of_mask (h : e.mask fd ≠ NONE) : 0 ≤ fd ∧ fd < n := by
  cases hi : slot n fd with
  | none =>
      rw [EventLoop.mask, hi] at h
      exact absurd rfl h
  | some i => exact bounds_of_slot hi

lemma maxfdOk_createEventLoop (hn : 0 < n) : MaxfdOk (createEventLoop n) := by
  have hnone : ∀ fd, (createEventLoop n).mask fd = NONE := congrFun mask_createEventLoop
  refine ⟨?_, ?_, .inr ⟨hnone, le_rfl⟩⟩
  · show (0 : Int) < n
    omega
  · intro fd hfd
    exact absurd (hnone fd) hfd

/-- **The downward scan** finds the last descriptor below a bound that has events. -/
lemma lastUsed_spec {k : ℕ} {m : Int} (hk : k ≤ n) (h : lastUsed e.fEvents k = .ok m) :
    m < k ∧ (∀ f : Int, m < f → f < k → e.mask f = NONE) ∧ (m = -1 ∨ e.mask m ≠ NONE) := by
  induction k with
  | zero =>
      cases h
      exact ⟨by decide, fun f h₁ h₂ => by omega, .inl rfl⟩
  | succ j ih =>
      obtain ⟨i, hi⟩ : ∃ i, slot n (j : Int) = some i := exists_slot (by omega) (by omega)
      unfold lastUsed at h
      rw [at?_of_slot hi, ok_bind, ← mask_of_slot hi] at h
      by_cases hused : e.mask j ≠ NONE
      · rw [if_pos hused] at h
        cases h
        exact ⟨by omega, fun f h₁ h₂ => by omega, .inr hused⟩
      · rw [if_neg hused] at h
        obtain ⟨hlt, habove, htop⟩ := ih (by omega) h
        refine ⟨by omega, fun f h₁ h₂ => ?_, htop⟩
        rcases eq_or_ne f j with rfl | hf
        · exact not_not.mp hused
        · exact habove f h₁ (by omega)

/-- The scan from a bound above all events leaves `maxfd` right. -/
lemma maxfdOk_of_lastUsed {k : ℕ} {m : Int} (hk : k ≤ n) (hbelow : ∀ f, e.mask f ≠ NONE → f < k)
    (h : lastUsed e.fEvents k = .ok m) : MaxfdOk { e with maxfd := m } := by
  obtain ⟨hlt, habove, htop⟩ := lastUsed_spec hk h
  have hle : ∀ f, e.mask f ≠ NONE → f ≤ m := by
    intro f hf
    by_contra hgt
    exact hf (habove f (not_le.mp hgt) (hbelow f hf))
  refine ⟨?_, hle, htop.symm.imp_right ?_⟩
  · show m < n
    omega
  · rintro rfl
    refine ⟨fun f => ?_, show (-1 : Int) ≤ 0 by decide⟩
    by_contra hf
    have hneg := hle f hf
    have hpos := (bounds_of_mask hf).1
    omega

/-- **Adding events** raises `maxfd` to the descriptor if that is higher. -/
lemma MaxfdOk.create (h : MaxfdOk e) (hi : slot n fd = some i) (hmask : mask ≠ NONE)
    (proc : FileProc) : MaxfdOk (e.withEvent i fd mask proc) := by
  obtain ⟨h₀, h₁⟩ := bounds_of_slot hi
  have hevents : ∀ old m : Mask, m ≠ NONE → old ||| m ≠ NONE := by decide
  have hnew : ∀ f, (e.withEvent i fd mask proc).mask f =
      if f = fd then e.mask fd ||| mask else e.mask f := by
    intro f
    rw [EventLoop.withEvent, mask_update hi, mask_of_slot hi]
  have hmax : (e.withEvent i fd mask proc).maxfd = if fd > e.maxfd then fd else e.maxfd := rfl
  have hlt := h.lt
  constructor
  · rw [hmax]
    split_ifs <;> omega
  · intro f hf
    rw [hnew] at hf
    rw [hmax]
    rcases eq_or_ne f fd with rfl | hne
    · split_ifs <;> omega
    · rw [if_neg hne] at hf
      have hle := h.le f hf
      split_ifs <;> omega
  · left
    rw [hnew, hmax]
    by_cases hgt : fd > e.maxfd
    · rw [if_pos hgt, if_pos rfl]
      exact hevents _ _ hmask
    · rw [if_neg hgt]
      split_ifs with heq
      · exact hevents _ _ hmask
      · -- `maxfd` is above `fd`, so it is not the `0` of an empty table
        rcases h.top with htop | ⟨-, hzero⟩
        · exact htop
        · omega

/-- **Deleting events** lowers `maxfd` when the last descriptor has no events left. -/
lemma MaxfdOk.delete {ret : Int} (h : MaxfdOk e) (hi : slot n fd = some i)
    (hne : e.mask fd ≠ NONE) (mask : Mask) (hret : ret ≠ -1) :
    ∃ e', deleteFileEvent e fd mask ret = .ok (none, e') ∧ MaxfdOk e' := by
  obtain ⟨m, hm⟩ := maxfdAfter_ok (e.withoutEvent i fd mask).fEvents (bounds_of_slot hi).2 e.maxfd
    (e.mask fd &&& ~~~mask)
  refine ⟨{ e.withoutEvent i fd mask with maxfd := m }, ?_, ?_⟩
  · rw [deleteFileEvent_of_slot hi hne mask hret, hm]
    rfl
  have hnew := mask_withoutEvent (e := e) hi mask
  have htop : e.mask e.maxfd ≠ NONE := h.top.resolve_right fun hempty => hne (hempty.1 fd)
  unfold maxfdAfter at hm
  split_ifs at hm with hlast
  · -- the last descriptor is emptied, and the scan looks for the one before it
    obtain ⟨hfd, hrest⟩ := hlast
    have hlow := bounds_of_mask htop
    refine maxfdOk_of_lastUsed (by omega) (fun f hf => ?_) hm
    rw [hnew] at hf
    have hffd : f ≠ fd := by
      rintro rfl
      rw [if_pos rfl] at hf
      exact hf hrest
    rw [if_neg hffd] at hf
    have hle := h.le f hf
    omega
  · -- `maxfd` stays, and it still has events
    obtain rfl : e.maxfd = m := Except.ok.inj hm
    refine ⟨h.lt, fun f hf => ?_, .inl ?_⟩
    · change (e.withoutEvent i fd mask).mask f ≠ NONE at hf
      rw [hnew] at hf
      rcases eq_or_ne f fd with rfl | hffd
      · exact h.le f hne
      · rw [if_neg hffd] at hf
        exact h.le f hf
    · change (e.withoutEvent i fd mask).mask e.maxfd ≠ NONE
      rw [hnew]
      split_ifs with hfd
      · exact fun hrest => hlast ⟨hfd.symm, hrest⟩
      · exact htop

/-- **One call** about any descriptor but `setsize` stays inside the table and keeps `maxfd`
right. -/
lemma MaxfdOk.run (h : MaxfdOk e) {c : TableCall} (hc : c.Ok) (hfd : c.fd ≠ n) :
    ∃ e', c.run e = .ok e' ∧ MaxfdOk e' := by
  cases c with
  | create fd mask proc =>
      change fd ≠ n at hfd
      rcases hfd.lt_or_gt with hlt | hgt
      · obtain ⟨i, hi⟩ := exists_slot hc.1 hlt
        refine ⟨_, ?_, h.create hi hc.2 proc⟩
        rw [TableCall.run, createFileEvent_of_slot hi]
        rfl
      · refine ⟨e, ?_, h⟩
        rw [TableCall.run, createFileEvent, if_pos hgt]
        rfl
  | delete fd mask ret =>
      obtain ⟨h₀, -, hret⟩ := hc
      by_cases hlt : fd < n
      · by_cases hnone : e.mask fd = NONE
        · refine ⟨e, ?_, h⟩
          rw [TableCall.run, deleteFileEvent_none h₀ hlt hnone]
          rfl
        · obtain ⟨i, hi⟩ := exists_slot h₀ hlt
          obtain ⟨e', hrun, hok⟩ := h.delete hi hnone mask hret
          refine ⟨e', ?_, hok⟩
          rw [TableCall.run, hrun]
          rfl
      · refine ⟨e, ?_, h⟩
        rw [TableCall.run, deleteFileEvent, if_pos (not_lt.mp hlt)]
        rfl

end Step

/-! ## All calls -/

/-- The run of the calls from any loop with a right `maxfd`. -/
lemma MaxfdOk.boundsKept {e : EventLoop n} (h : MaxfdOk e) (cs : List TableCall)
    (hok : ∀ c ∈ cs, c.Ok) (hfd : ∀ c ∈ cs, c.fd ≠ n) : BoundsKept e cs := by
  induction cs generalizing e with
  | nil => exact h
  | cons c cs ih =>
      obtain ⟨hc, hcs⟩ := List.forall_mem_cons.mp hok
      obtain ⟨hne, hnes⟩ := List.forall_mem_cons.mp hfd
      obtain ⟨e', hrun, h'⟩ := h.run hc hne
      exact ⟨h, (creates_iff_deletes_iff hc.nonneg).mpr hne, e', hrun, ih h' hcs hnes⟩

lemma BoundsKept.ne {e : EventLoop n} {cs : List TableCall} (h : BoundsKept e cs)
    (hok : ∀ c ∈ cs, c.Ok) : ∀ c ∈ cs, c.fd ≠ n := by
  induction cs generalizing e with
  | nil => exact fun c hc => absurd hc List.not_mem_nil
  | cons c cs ih =>
      obtain ⟨hc, hcs⟩ := List.forall_mem_cons.mp hok
      obtain ⟨-, haccept, e', -, hrest⟩ := h
      exact List.forall_mem_cons.mpr
        ⟨(creates_iff_deletes_iff hc.nonneg).mp haccept, ih hrest hcs⟩

/-- **Bounds of the event table.** On a new event loop of any size, a sequence of calls with
descriptors that are not negative and masks that are not empty stays inside the table, with a right
`maxfd` throughout and both functions accepting the same descriptors, exactly when no call is about
the descriptor `setsize`. -/
theorem boundsKept_iff (hn : 0 < n) (cs : List TableCall) (hok : ∀ c ∈ cs, c.Ok) :
    BoundsKept (createEventLoop n) cs ↔ ∀ c ∈ cs, c.fd ≠ n :=
  ⟨fun h => h.ne hok, (maxfdOk_createEventLoop hn).boundsKept cs hok⟩

/-- Two descriptors, a partial deletion, and a table that is emptied. -/
theorem boundsKept_six :
    BoundsKept (createEventLoop 4) [.create 3 (READABLE ||| WRITEABLE) .tcpReadCallback,
      .create 1 READABLE .tcpAcceptCallback, .delete 3 READABLE 0, .delete 3 WRITEABLE 0,
      .create 7 READABLE .tcpReadCallback, .delete 1 READABLE 0] :=
  (boundsKept_iff (by decide) _ (by decide)).mpr (by decide)

/-- **The descriptor `setsize`** is accepted by `createFileEvent`, which then accesses the entry
behind the last one; `deleteFileEvent` refuses it. -/
theorem create_behind_table :
    createFileEvent (createEventLoop 10000) 10000 READABLE .tcpReadCallback =
        .error .outOfBounds ∧
      deleteFileEvent (createEventLoop 10000) 10000 READABLE 0 =
        .ok (some (-1), createEventLoop 10000) ∧
      ¬BoundsKept (createEventLoop 10000) [.create 10000 READABLE .tcpReadCallback] := by
  have hcreate : createFileEvent (createEventLoop 10000) 10000 READABLE .tcpReadCallback =
      .error .outOfBounds := createFileEvent_last rfl READABLE .tcpReadCallback
  refine ⟨hcreate, rfl, ?_⟩
  rintro ⟨-, -, e', hrun, -⟩
  rw [TableCall.run, hcreate] at hrun
  cases hrun

end ActionDB.Net.Event
