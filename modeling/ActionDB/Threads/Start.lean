import Mathlib.Data.Fintype.EquivFin
import Mathlib.Logic.Relation

/-!
# The workers start

`main` of `server.cc` makes an event loop and a connection tree for each worker, and then starts the
worker threads, all with the same arguments. Which of them gets which is settled by
`initworkThread` of `threads/threads.c`: a thread takes the loop and the tree at `eloopid`, and
counts `eloopid` up, while it holds `eloopidLock`. Here `main` and the threads may be interrupted
between any two accesses.

Behind the last `pthread_create` of a worker `main` calls `pthread_mutex_init(&lock[THREADCNT])`,
one past the array `lock`, which is where `eloopidLock` is. If a worker holds it then, another one
may take it too. Unless this happens, and with one worker in any case, the loop and the tree of a
worker always have the same index, which is inside the arrays, and when all threads have started,
every index has been taken by one of them (`start_indices`). This is why `Threads.Process` may speak
of worker `i`, with its loop and its tree.
-/

namespace ActionDB.Threads

variable {k : ℕ}

/-- Where a worker thread is in `initworkThread`. -/
inductive StartPc where
  | begins
  /-- It holds `eloopidLock`. -/
  | locked
  /-- `server->eLoop` is `globalEloop[i]`. -/
  | looped (i : ℕ)
  /-- `server->tree` is `globalconnTree[j]`. -/
  | treed (i j : ℕ)
  /-- `eloopid` is counted up. -/
  | counted (i j : ℕ)
  /-- The lock is released. -/
  | started (i j : ℕ)
  deriving DecidableEq

/-- `main`, the worker threads, and the globals of `server.cc` that they share. -/
structure Starting (k : ℕ) where
  threads : Fin k → StartPc
  eloopid : ℕ
  eloopidLock : Option (Fin k)
  /-- The workers that `main` has created. -/
  created : ℕ
  /-- `main` has called `pthread_mutex_init(&lock[THREADCNT], NULL)`. -/
  inited : Bool

/-- When `main` begins to create the workers. -/
def Starting.init (k : ℕ) : Starting k := ⟨fun _ => .begins, 0, none, 0, false⟩

/-- The state with thread `t` elsewhere. -/
def Starting.goto (s : Starting k) (t : Fin k) (pc : StartPc) : Starting k :=
  { s with threads := Function.update s.threads t pc }

/-- Source: `server.cc`, `main`, lines 95-99, and `threads/threads.c`, `initworkThread`, lines
38-43. `lock[THREADCNT]` is `eloopidLock`, as the two are declared one behind the other. -/
inductive Starts : Starting k → Starting k → Prop
  /-- `pthread_create` of the next worker. -/
  | create {s : Starting k} (hleft : s.created < k) :
      Starts s { s with created := s.created + 1 }
  /-- `pthread_mutex_init(&lock[THREADCNT], NULL)`: whoever holds the mutex, it is free again. -/
  | initLock {s : Starting k} (hall : s.created = k) (honce : s.inited = false) :
      Starts s { s with eloopidLock := none, inited := true }
  | lock {s : Starting k} {t : Fin k} (hruns : t < s.created) (hpc : s.threads t = .begins)
      (hfree : s.eloopidLock = none) : Starts s { s.goto t .locked with eloopidLock := some t }
  | eLoop {s : Starting k} {t : Fin k} (hpc : s.threads t = .locked) :
      Starts s (s.goto t (.looped s.eloopid))
  | tree {s : Starting k} {t : Fin k} {i : ℕ} (hpc : s.threads t = .looped i) :
      Starts s (s.goto t (.treed i s.eloopid))
  | count {s : Starting k} {t : Fin k} {i j : ℕ} (hpc : s.threads t = .treed i j) :
      Starts s { s.goto t (.counted i j) with eloopid := s.eloopid + 1 }
  | unlock {s : Starting k} {t : Fin k} {i j : ℕ} (hpc : s.threads t = .counted i j) :
      Starts s { s.goto t (.started i j) with eloopidLock := none }

/-- The step does not free a mutex that one of several workers holds. -/
def Undisturbed (s s' : Starting k) : Prop :=
  s'.inited = s.inited ∨ s.eloopidLock = none ∨ k ≤ 1

/-! ## The invariant -/

/-- The thread is between `pthread_mutex_lock` and `pthread_mutex_unlock`. -/
def StartPc.Holds : StartPc → Prop
  | .begins | .started _ _ => False
  | _ => True

/-- The index for which `eloopid` was counted up. -/
def StartPc.index : StartPc → Option ℕ
  | .counted i _ | .started i _ => some i
  | _ => none

/-- What a thread knows: `e` is `eloopid`. -/
def StartPc.Fits (e : ℕ) : StartPc → Prop
  | .looped i => i = e
  | .treed i j => i = e ∧ j = e
  | .counted i j | .started i j => i = j ∧ i < e
  | _ => True

/-- The indices that a thread has read from its arrays. -/
def StartPc.Reads (i : ℕ) : StartPc → Prop
  | .looped j => j = i
  | .treed j j' | .counted j j' | .started j j' => j = i ∨ j' = i
  | _ => False

/-- The threads that have an index. -/
def Starting.taken (s : Starting k) : Finset (Fin k) :=
  Finset.univ.filter fun t => (s.threads t).index ≠ none

/-- What holds at every moment of an undisturbed start. -/
structure StartInv (s : Starting k) : Prop where
  /-- The lock is held by a thread that took it. -/
  lock_holds : ∀ t, s.eloopidLock = some t → (s.threads t).Holds
  /-- No thread holds a free lock; a single one may. -/
  free : s.eloopidLock = none → ∀ t, (s.threads t).Holds → k ≤ 1
  /-- At most one thread is between the two calls. -/
  unique : ∀ t u, (s.threads t).Holds → (s.threads u).Holds → t = u
  fits : ∀ t, (s.threads t).Fits s.eloopid
  distinct : ∀ t u i, (s.threads t).index = some i → (s.threads u).index = some i → t = u
  card_eq : s.taken.card = s.eloopid

section Inv

variable {s s' : Starting k} {t : Fin k}

/-- It holds when `main` begins. -/
lemma startInv_init : StartInv (.init k) where
  lock_holds t h := by cases h
  free _ t h := h.elim
  unique t u h := h.elim
  fits t := trivial
  distinct t u i h := by cases h
  card_eq := by simp [Starting.taken, Starting.init, StartPc.index]

/-- As long as a thread has no index, `eloopid` is one. -/
lemma StartInv.lt_of_index_none (h : StartInv s) (ht : (s.threads t).index = none) :
    s.eloopid < k := by
  have hlt : s.taken.card < Finset.univ.card (α := Fin k) :=
    Finset.card_lt_card (Finset.ssubset_univ_iff.mpr fun hall => ?_)
  · rwa [h.card_eq, Finset.card_fin] at hlt
  · have hmem : t ∈ s.taken := hall ▸ Finset.mem_univ t
    exact (Finset.mem_filter.mp hmem).2 ht

/-- A step of `t` that takes no index: what it changes is its own place and the lock. -/
lemma StartInv.goto (h : StartInv s) {pc : StartPc} {l : Option (Fin k)}
    (hindex : pc.index = (s.threads t).index) (hfits : pc.Fits s.eloopid)
    (hlock : ∀ u, l = some u → (Function.update s.threads t pc u).Holds)
    (hfree : l = none → ∀ u, (Function.update s.threads t pc u).Holds → k ≤ 1)
    (hunique : pc.Holds → ∀ u, u ≠ t → (s.threads u).Holds → u = t) :
    StartInv { s.goto t pc with eloopidLock := l } := by
  have hsame : ∀ u, (Function.update s.threads t pc u).index = (s.threads u).index := by
    intro u
    rcases eq_or_ne u t with rfl | hu
    · rw [Function.update_self, hindex]
    · rw [Function.update_of_ne hu]
  refine ⟨hlock, hfree, fun u v hu hv => ?_, fun u => ?_, fun u v i hu hv => ?_, ?_⟩
  · change (Function.update s.threads t pc u).Holds at hu
    change (Function.update s.threads t pc v).Holds at hv
    rcases eq_or_ne u t with rfl | hut <;> rcases eq_or_ne v u with rfl | hvu
    · rfl
    · rw [Function.update_self] at hu
      rw [Function.update_of_ne hvu] at hv
      exact (hunique hu v hvu hv).symm
    · rfl
    · rw [Function.update_of_ne hut] at hu
      rcases eq_or_ne v t with rfl | hvt
      · rw [Function.update_self] at hv
        exact hunique hv u hut hu
      · rw [Function.update_of_ne hvt] at hv
        exact h.unique u v hu hv
  · change (Function.update s.threads t pc u).Fits s.eloopid
    rcases eq_or_ne u t with rfl | hu
    · rwa [Function.update_self]
    · rw [Function.update_of_ne hu]
      exact h.fits u
  · exact h.distinct u v i ((hsame u).symm.trans hu) ((hsame v).symm.trans hv)
  · refine Eq.trans (congrArg Finset.card ?_) h.card_eq
    exact Finset.filter_congr fun u _ => by rw [← hsame u]; rfl

/-- What a thread between the two calls does leaves the others outside. -/
lemma StartPc.holds_update {pc : StartPc} (ht : (s.threads t).Holds)
    (hpc : pc.Holds) (u : Fin k) :
    (Function.update s.threads t pc u).Holds ↔ (s.threads u).Holds := by
  rcases eq_or_ne u t with rfl | hu
  · rw [Function.update_self]
    exact iff_of_true hpc ht
  · rw [Function.update_of_ne hu]

/-- A step of a thread between the two calls that stays there. -/
lemma StartInv.goto_locked (h : StartInv s) {pc : StartPc} (ht : (s.threads t).Holds)
    (hindex : pc.index = (s.threads t).index) (hfits : pc.Fits s.eloopid) (hpc : pc.Holds) :
    StartInv (s.goto t pc) := by
  refine h.goto (l := s.eloopidLock) hindex hfits (fun u hu => ?_) (fun hnone u hu => ?_)
    fun _ u _ hu => h.unique u t hu ht
  · exact (StartPc.holds_update ht hpc u).mpr (h.lock_holds u hu)
  · exact h.free hnone u ((StartPc.holds_update ht hpc u).mp hu)

/-- A thread that has no index is not changed by another one that counts: no index is `eloopid`
yet, and what the others have read of it they have read with the lock. -/
lemma StartInv.count (h : StartInv s) {i j : ℕ} (hpc : s.threads t = .treed i j) :
    StartInv { s.goto t (.counted i j) with eloopid := s.eloopid + 1 } := by
  have ht : (s.threads t).Holds := by rw [hpc]; trivial
  obtain ⟨rfl, rfl⟩ : i = s.eloopid ∧ j = s.eloopid := by
    have hfits := h.fits t
    rwa [hpc] at hfits
  have hother : ∀ u, u ≠ t → ∀ i, (s.threads u).index = some i → i < s.eloopid := by
    intro u _ i hi
    have hfits := h.fits u
    cases hu : s.threads u with
    | counted | started =>
        rw [hu] at hi hfits
        cases hi
        exact hfits.2
    | begins | locked | looped | treed => rw [hu] at hi; cases hi
  have hcounted : (StartPc.counted s.eloopid s.eloopid).Holds := trivial
  have hholds := StartPc.holds_update ht hcounted
  refine ⟨fun u hu => (hholds u).mpr (h.lock_holds u hu),
    fun hnone u hu => h.free hnone u ((hholds u).mp hu),
    fun u v hu hv => h.unique u v ((hholds u).mp hu) ((hholds v).mp hv), fun u => ?_,
    fun u v n hu hv => ?_, ?_⟩
  · change (Function.update s.threads t _ u).Fits (s.eloopid + 1)
    rcases eq_or_ne u t with rfl | hu
    · rw [Function.update_self]
      exact ⟨rfl, Nat.lt_succ_self _⟩
    · rw [Function.update_of_ne hu]
      have hfits := h.fits u
      have hfree : ¬ (s.threads u).Holds := fun hholds => hu (h.unique u t hholds ht)
      cases hu : s.threads u with
      | begins => trivial
      | started => rw [hu] at hfits; exact ⟨hfits.1, Nat.lt_succ_of_lt hfits.2⟩
      | locked | looped | treed | counted => rw [hu] at hfree; exact absurd trivial hfree
  · change (Function.update s.threads t _ u).index = some n at hu
    change (Function.update s.threads t _ v).index = some n at hv
    rcases eq_or_ne u t with rfl | hut <;> rcases eq_or_ne v u with rfl | hvu
    · rfl
    · rw [Function.update_self] at hu
      rw [Function.update_of_ne hvu] at hv
      cases hu
      exact absurd (hother v hvu _ hv) (lt_irrefl _)
    · rfl
    · rw [Function.update_of_ne hut] at hu
      rcases eq_or_ne v t with rfl | hvt
      · rw [Function.update_self] at hv
        cases hv
        exact absurd (hother u hut _ hu) (lt_irrefl _)
      · rw [Function.update_of_ne hvt] at hv
        exact h.distinct u v n hu hv
  · have hnew : t ∉ s.taken := fun hmem => (Finset.mem_filter.mp hmem).2 (by rw [hpc]; rfl)
    have hinsert : (Finset.univ.filter fun u => (Function.update s.threads t
        (.counted s.eloopid s.eloopid) u).index ≠ none) = insert t s.taken := by
      ext u
      rcases eq_or_ne u t with rfl | hu
      · simp only [Finset.mem_filter, Finset.mem_univ, Finset.mem_insert_self, Function.update_self]
        exact iff_of_true ⟨trivial, Option.some_ne_none _⟩ trivial
      · simp [Starting.taken, hu]
    exact (congrArg Finset.card hinsert).trans
      ((Finset.card_insert_of_notMem hnew).trans (congrArg Nat.succ h.card_eq))

lemma StartInv.step (h : StartInv s) (hstep : Starts s s') (hcalm : Undisturbed s s') :
    StartInv s' := by
  cases hstep with
  | create => exact ⟨h.lock_holds, h.free, h.unique, h.fits, h.distinct, h.card_eq⟩
  | initLock hall honce =>
      refine ⟨fun t ht => (by cases ht), fun _ t ht => ?_, h.unique, h.fits, h.distinct, h.card_eq⟩
      rcases hcalm with hsame | hfree | hone
      · rw [honce] at hsame
        cases hsame
      · exact h.free hfree t ht
      · exact hone
  | @lock t hruns hpc hfree =>
      refine h.goto (by rw [hpc]; rfl) trivial (fun u hu => ?_) (fun hnone => by cases hnone)
        fun _ u hu hholds => ?_
      · obtain rfl := Option.some.inj hu
        rw [Function.update_self]
        trivial
      · have hone := h.free hfree u hholds
        omega
  | @eLoop t hpc =>
      exact h.goto_locked (by rw [hpc]; trivial) (by rw [hpc]; rfl) rfl trivial
  | @tree t i hpc =>
      have hi := h.fits t
      rw [hpc] at hi
      exact h.goto_locked (by rw [hpc]; trivial) (by rw [hpc]; rfl) ⟨hi, rfl⟩ trivial
  | @count t i j hpc => exact h.count hpc
  | @unlock t i j hpc =>
      have hfits := h.fits t
      rw [hpc] at hfits
      have ht : (s.threads t).Holds := by rw [hpc]; trivial
      refine h.goto (by rw [hpc]; rfl) hfits (fun u hu => by cases hu) (fun _ u hu => ?_)
        fun hfalse => hfalse.elim
      rcases eq_or_ne u t with rfl | hne
      · rw [Function.update_self] at hu
        exact hu.elim
      · rw [Function.update_of_ne hne] at hu
        exact absurd (h.unique u t hu ht) hne

lemma StartInv.eloopid_le (h : StartInv s) : s.eloopid ≤ k := by
  calc s.eloopid = s.taken.card := h.card_eq.symm
    _ ≤ Fintype.card (Fin k) := Finset.card_le_univ _
    _ = k := Fintype.card_fin k

lemma StartInv.lt_of_reads (h : StartInv s) {i : ℕ} (hi : (s.threads t).Reads i) : i < k := by
  have hfits := h.fits t
  have hnone := h.lt_of_index_none (t := t)
  have hle := h.eloopid_le
  cases ht : s.threads t with
  | begins | locked => rw [ht] at hi; exact hi.elim
  | looped n =>
      rw [ht] at hi hfits hnone
      have hlt := hnone rfl
      change n = i at hi
      change n = s.eloopid at hfits
      omega
  | treed n m =>
      rw [ht] at hi hfits hnone
      have hlt := hnone rfl
      change n = i ∨ m = i at hi
      change n = s.eloopid ∧ m = s.eloopid at hfits
      omega
  | counted n m | started n m =>
      rw [ht] at hi hfits
      change n = i ∨ m = i at hi
      change n = m ∧ n < s.eloopid at hfits
      omega

/-- A thread between the two calls goes on. -/
lemma Starting.step_of_holds (ht : (s.threads t).Holds) :
    ∃ s', Starts s s' ∧ s'.threads t ≠ s.threads t := by
  cases hpc : s.threads t with
  | begins | started => rw [hpc] at ht; exact ht.elim
  | locked => exact ⟨_, .eLoop hpc, by simp [Starting.goto]⟩
  | looped i => exact ⟨_, .tree hpc, by simp [Starting.goto]⟩
  | treed i j => exact ⟨_, .count hpc, by simp [Starting.goto]⟩
  | counted i j => exact ⟨_, .unlock hpc, by simp [Starting.goto]⟩

/-- The thread with the lock goes on, and when none has it, any thread that is left can take it. -/
lemma StartInv.exists_step (h : StartInv s) (hruns : t < s.created)
    (hleft : ∀ i j, s.threads t ≠ .started i j) :
    ∃ u s', Starts s s' ∧ s'.threads u ≠ s.threads u := by
  cases hlock : s.eloopidLock with
  | some u => exact ⟨u, Starting.step_of_holds (h.lock_holds u hlock)⟩
  | none =>
      cases ht : s.threads t with
      | begins => exact ⟨t, _, .lock hruns ht hlock, by simp [Starting.goto, ht]⟩
      | started i j => exact absurd ht (hleft i j)
      | locked | looped | treed | counted =>
          exact ⟨t, Starting.step_of_holds (by rw [ht]; trivial)⟩

end Inv

/-- Whatever the scheduler does, if the mutex is not freed while one of several workers holds it. -/
abbrev StartReachable : Starting k → Prop :=
  Relation.ReflTransGen (fun s s' => Starts s s' ∧ Undisturbed s s') (.init k)

lemma StartReachable.inv {s : Starting k} (h : StartReachable s) : StartInv s := by
  induction h with
  | refl => exact startInv_init
  | tail _ hstep ih => exact ih.step hstep.1 hstep.2

/-- `globalEloop` and `globalconnTree` are only read inside their `THREADCNT` elements, however the
threads are scheduled, if `main` does not free `eloopidLock` while one of several workers holds it.
The threads then never wait for each other for good, and once all have started, the `THREADCNT`
loops are handed out to them, with each loop the tree of its index. -/
theorem start_indices {s : Starting k} (hreach : StartReachable s) :
    (∀ t i, (s.threads t).Reads i → i < k) ∧
    (∀ t : Fin k, t < s.created → (∀ i j, s.threads t ≠ .started i j) →
      ∃ u s', Starts s s' ∧ s'.threads u ≠ s.threads u) ∧
    ((∀ t, ∃ i j, s.threads t = .started i j) →
      ∃ f : Fin k ≃ Fin k, ∀ t, s.threads t = .started (f t) (f t)) := by
  have hinv := hreach.inv
  have hfits : ∀ t i j, s.threads t = .started i j → i = j ∧ i < s.eloopid := by
    intro t i j ht
    have hfits := hinv.fits t
    rwa [ht] at hfits
  refine ⟨fun t i => hinv.lt_of_reads, fun t => hinv.exists_step, fun hall => ?_⟩
  choose i j hstarted using hall
  have hlt : ∀ t, i t < k := fun t =>
    lt_of_lt_of_le (hfits t (i t) (j t) (hstarted t)).2 hinv.eloopid_le
  have hinj : Function.Injective fun t => (⟨i t, hlt t⟩ : Fin k) := by
    intro t u htu
    have hi : i t = i u := congrArg Fin.val htu
    refine hinv.distinct t u (i t) (by rw [hstarted t]; rfl) ?_
    rw [hstarted u, hi]
    rfl
  -- an injective map of a finite type into itself is onto
  refine ⟨Equiv.ofBijective _ (Finite.injective_iff_bijective.mp hinj), fun t => ?_⟩
  rw [hstarted t, ← (hfits t (i t) (j t) (hstarted t)).1]
  rfl

/-- Two threads, of which the second one is faster. -/
theorem start_indices_swapped : ∃ s : Starting 2, StartReachable s ∧ s.inited = true ∧
    s.threads 1 = .started 0 0 ∧ s.threads 0 = .started 1 1 ∧
    ∃ f : Fin 2 ≃ Fin 2, ∀ t, s.threads t = .started (f t) (f t) := by
  have hcreated : StartReachable (k := 2) _ :=
    (Relation.ReflTransGen.refl.tail ⟨.create (by decide), .inl rfl⟩).tail
      ⟨.create (by decide), .inl rfl⟩
  have hone : StartReachable (k := 2) _ :=
    ((((hcreated.tail ⟨.lock (t := 1) (by decide) rfl rfl, .inl rfl⟩).tail
      ⟨.eLoop (t := 1) rfl, .inl rfl⟩).tail ⟨.tree (t := 1) rfl, .inl rfl⟩).tail
      ⟨.count (t := 1) rfl, .inl rfl⟩).tail ⟨.unlock (t := 1) rfl, .inl rfl⟩
  have hreach : StartReachable (k := 2) _ :=
    (((((hone.tail ⟨.initLock rfl rfl, .inr (.inl rfl)⟩).tail
      ⟨.lock (t := 0) (by decide) rfl rfl, .inl rfl⟩).tail ⟨.eLoop (t := 0) rfl, .inl rfl⟩).tail
      ⟨.tree (t := 0) rfl, .inl rfl⟩).tail ⟨.count (t := 0) rfl, .inl rfl⟩).tail
      ⟨.unlock (t := 0) rfl, .inl rfl⟩
  refine ⟨_, hreach, rfl, rfl, rfl, (start_indices hreach).2.2 fun t => ?_⟩
  match t with
  | 0 => exact ⟨1, 1, rfl⟩
  | 1 => exact ⟨0, 0, rfl⟩

/-- When `main` frees the mutex while a worker holds it, two workers may get the same index. -/
example : ∃ s : Starting 2, Relation.ReflTransGen Starts (.init 2) s ∧
    s.threads 0 = .counted 0 0 ∧ s.threads 1 = .counted 0 0 := by
  have hheld : Relation.ReflTransGen (Starts (k := 2)) (.init 2) _ :=
    ((((Relation.ReflTransGen.refl.tail (.create (by decide))).tail (.create (by decide))).tail
      (.lock (t := 0) (by decide) rfl rfl)).tail (.eLoop (t := 0) rfl)).tail (.tree (t := 0) rfl)
  have hboth : Relation.ReflTransGen (Starts (k := 2)) (.init 2) _ :=
    (((hheld.tail (.initLock rfl rfl)).tail (.lock (t := 1) (by decide) rfl rfl)).tail
      (.eLoop (t := 1) rfl)).tail (.tree (t := 1) rfl)
  exact ⟨_, (hboth.tail (.count (t := 0) rfl)).tail (.count (t := 1) rfl), rfl, rfl⟩

end ActionDB.Threads
