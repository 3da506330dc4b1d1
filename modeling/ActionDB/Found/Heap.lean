import Mathlib.Data.Finmap
import Mathlib.Tactic.Common

/-!
# Heaps

A heap is a finite map from addresses to cells, and a pointer is an address or `none`, the NULL
pointer. Loading or changing a cell through a pointer **fails** when the pointer is NULL or its
block is not allocated (any more). `EqOff S h h'` says that `h'` differs from `h` at addresses of
`S` only; it is the frame of every operation. `SameCells h h'` says that the same cells are
allocated, whatever is in them.
-/

namespace ActionDB.Found

/-- A pointer; `none` is NULL. -/
abbrev Ptr := Option ℕ

/-- Ways for a pointer program to go wrong. -/
inductive MemFault where
  /-- NULL is dereferenced. -/
  | nullDeref
  /-- A block that is not allocated is accessed. -/
  | dangling
  /-- A loop has gone on for longer than there are cells. -/
  | endless
  deriving DecidableEq, Repr

/-- Running on after a step that went well. -/
lemma ok_bind {ε α β : Type} (a : α) (f : α → Except ε β) :
    ((Except.ok a : Except ε α) >>= f) = f a := rfl

/-- Both steps of a computation that went well went well. -/
lemma bind_eq_ok {ε α β : Type} {m : Except ε α} {f : α → Except ε β} {b : β}
    (h : m >>= f = .ok b) : ∃ a, m = .ok a ∧ f a = .ok b := by
  cases m with
  | error e => cases h
  | ok a => exact ⟨a, rfl, h⟩

/-- A computation that went well has one result. -/
lemma ok_pair_inj {ε α β : Type} {m : Except ε (α × β)} {a a' : α} {b b' : β}
    (h : m = .ok (a, b)) (h' : m = .ok (a', b')) : a = a' ∧ b = b' :=
  Prod.mk.inj (Except.ok.inj (h.symm.trans h'))

/-- Cells by address. -/
abbrev Heap (ν : Type) := Finmap fun _ : ℕ => ν

namespace Heap

variable {ν : Type}

/-- `*p`. -/
def load (h : Heap ν) : Ptr → Except MemFault ν
  | none => .error .nullDeref
  | some a =>
      match h.lookup a with
      | some n => .ok n
      | none => .error .dangling

/-- Change the cell at `p`. -/
def modify (h : Heap ν) (p : Ptr) (f : ν → ν) : Except MemFault (Heap ν) :=
  match p with
  | none => .error .nullDeref
  | some a =>
      match h.lookup a with
      | some n => .ok (h.insert a (f n))
      | none => .error .dangling

/-- `free(p)`. -/
def free (h : Heap ν) : Ptr → Except MemFault (Heap ν)
  | none => .ok h
  | some a =>
      match h.lookup a with
      | some _ => .ok (h.erase a)
      | none => .error .dangling

/-- More passes than any loop over distinct cells can make. -/
def bound (h : Heap ν) : ℕ := h.keys.card + 1

variable {h h' : Heap ν} {a : ℕ} {n : ν}

lemma load_of_lookup (hl : h.lookup a = some n) : h.load (some a) = .ok n := by
  simp only [load, hl]

lemma modify_of_lookup (hl : h.lookup a = some n) (f : ν → ν) :
    h.modify (some a) f = .ok (h.insert a (f n)) := by
  simp only [modify, hl]

lemma free_of_lookup (hl : h.lookup a = some n) : h.free (some a) = .ok (h.erase a) := by
  simp only [free, hl]

/-- The cells after an allocation. -/
lemma lookup_insert_some {b : ℕ} {m : ν} (hl : (h.insert a n).lookup b = some m) :
    b = a ∧ m = n ∨ b ≠ a ∧ h.lookup b = some m := by
  by_cases hb : b = a
  · subst hb
    rw [Finmap.lookup_insert] at hl
    exact .inl ⟨rfl, (Option.some.inj hl).symm⟩
  · rw [Finmap.lookup_insert_of_ne _ hb] at hl
    exact .inr ⟨hb, hl⟩

/-- The cells after a release. -/
lemma lookup_erase_some {b : ℕ} {m : ν} (hl : (h.erase a).lookup b = some m) :
    b ≠ a ∧ h.lookup b = some m := by
  by_cases hb : b = a
  · subst hb
    rw [Finmap.lookup_erase] at hl
    cases hl
  · rw [Finmap.lookup_erase_ne hb] at hl
    exact ⟨hb, hl⟩

/-- The heaps differ at addresses of `S` only. -/
def EqOff (S : List ℕ) (h h' : Heap ν) : Prop := ∀ a, a ∉ S → h'.lookup a = h.lookup a

lemma eqOff_insert (h : Heap ν) (a : ℕ) (n : ν) : EqOff [a] h (h.insert a n) := by
  intro b hb
  exact Finmap.lookup_insert_of_ne _ (by simpa using hb)

lemma eqOff_erase (h : Heap ν) (a : ℕ) : EqOff [a] h (h.erase a) := by
  intro b hb
  exact Finmap.lookup_erase_ne (by simpa using hb)

lemma EqOff.refl (S : List ℕ) (h : Heap ν) : EqOff S h h := fun _ _ => rfl

lemma EqOff.mono {S T : List ℕ} (h₁ : EqOff S h h') (hST : ∀ b ∈ S, b ∈ T) : EqOff T h h' :=
  fun b hb => h₁ b fun hS => hb (hST b hS)

/-- The same cells are allocated. -/
def SameCells (h h' : Heap ν) : Prop := ∀ a, h'.lookup a = none ↔ h.lookup a = none

lemma SameCells.refl (h : Heap ν) : SameCells h h := fun _ => Iff.rfl

lemma SameCells.trans {h'' : Heap ν} (h₁ : SameCells h h') (h₂ : SameCells h' h'') :
    SameCells h h'' :=
  fun a => (h₂ a).trans (h₁ a)

lemma modify_sameCells {p : Ptr} {f : ν → ν} (hrun : h.modify p f = .ok h') : SameCells h h' := by
  intro b
  cases p with
  | none => cases hrun
  | some a =>
      cases hl : h.lookup a with
      | none =>
          simp only [modify, hl] at hrun
          cases hrun
      | some n =>
          rw [modify_of_lookup hl] at hrun
          cases hrun
          by_cases hb : b = a
          · subst hb
            rw [Finmap.lookup_insert, hl]
            exact iff_of_false (Option.some_ne_none _) (Option.some_ne_none _)
          · rw [Finmap.lookup_insert_of_ne _ hb]

/-- Distinct addresses of allocated cells are fewer than the bound. -/
lemma length_lt_bound {l : List ℕ} (hnd : l.Nodup) (hmem : ∀ a ∈ l, h.lookup a ≠ none) :
    l.length < h.bound := by
  have hsub : l.toFinset ⊆ h.keys := by
    intro b hb
    have hl := hmem b (List.mem_toFinset.mp hb)
    rw [Finmap.mem_keys]
    by_contra hnot
    exact hl (Finmap.lookup_eq_none.mpr hnot)
  have hcard := Finset.card_le_card hsub
  rw [List.toFinset_card_of_nodup hnd] at hcard
  unfold bound
  omega

end Heap

end ActionDB.Found
