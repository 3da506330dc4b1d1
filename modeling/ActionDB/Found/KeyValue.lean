import Mathlib.Data.List.Basic
import Mathlib.Logic.Function.Basic
import Mathlib.Tactic.Common

/-!
# Key-value stores

A `KvStore` is any state with a `put` and a `get` that behave as update and lookup of a map. What
a store holds after some puts is a matter of their order alone: a key has the value of its latest
put, or its first value if it was never put (`latest`). `KvStore.latest_put` is how a proof by
induction on the puts goes on.
-/

namespace ActionDB.Found

variable {σ K V : Type} [DecidableEq K]

/-- A state with lookup and update. -/
structure KvStore (σ K V : Type) [DecidableEq K] where
  put : σ → K → V → σ
  get : σ → K → Option V
  /-- Putting changes the value of one key. -/
  get_put : ∀ s k v, get (put s k v) = Function.update (get s) k (some v)

/-- The maps themselves. -/
def KvStore.map (K V : Type) [DecidableEq K] : KvStore (K → Option V) K V where
  put := fun s k v => Function.update s k (some v)
  get := id
  get_put := fun _ _ _ => rfl

/-- The value of `k` after the puts of the list: that of its latest pair, or else its first. -/
def latest (init : K → Option V) (l : List (K × V)) (k : K) : Option V :=
  match l.reverse.find? (fun p => p.1 = k) with
  | some p => some p.2
  | none => init k

/-- The first put is the first value for those that follow. -/
lemma latest_cons (init : K → Option V) (k : K) (v : V) (l : List (K × V)) :
    latest init ((k, v) :: l) = latest (Function.update init k (some v)) l := by
  funext j
  simp only [latest, List.reverse_cons, List.find?_append]
  cases l.reverse.find? (fun p => p.1 = j) with
  | some p => rfl
  | none =>
      by_cases hj : k = j
      · subst hj
        simp
      · have hj' : j ≠ k := Ne.symm hj
        simp [hj, Function.update_of_ne hj']

/-- Puts that follow others. -/
lemma latest_append (init : K → Option V) (l₁ l₂ : List (K × V)) :
    latest init (l₁ ++ l₂) = latest (latest init l₁) l₂ := by
  induction l₁ generalizing init with
  | nil => rfl
  | cons p l₁ ih =>
      obtain ⟨k, v⟩ := p
      rw [List.cons_append, latest_cons, latest_cons, ih]

/-- The value of a key depends on its own puts only. -/
lemma latest_filter (init : K → Option V) (l : List (K × V)) (k : K) :
    latest init (l.filter fun p => p.1 = k) k = latest init l k := by
  simp only [latest, ← List.filter_reverse, List.find?_filter, and_self,
    decide_eq_true_eq]

/-- A key that is put has the value of its puts, when they agree. -/
lemma latest_of_mem {init : K → Option V} {l : List (K × V)} {k : K} {v : V} (hmem : (k, v) ∈ l)
    (hall : ∀ w, (k, w) ∈ l → w = v) : latest init l k = some v := by
  unfold latest
  cases hfind : l.reverse.find? (fun p => p.1 = k) with
  | none =>
      have hnone := List.find?_eq_none.mp hfind (k, v) (List.mem_reverse.mpr hmem)
      simp at hnone
  | some p =>
      have hkey : p.1 = k := of_decide_eq_true (List.find?_some hfind :)
      have hp := List.mem_reverse.mp (List.mem_of_find?_eq_some hfind)
      exact congrArg some (hall p.2 (hkey ▸ hp))

/-- A key that is not put keeps its value. -/
lemma latest_of_notMem {init : K → Option V} {l : List (K × V)} {k : K}
    (hall : ∀ v, (k, v) ∉ l) : latest init l k = init k := by
  have hfind : l.reverse.find? (fun p => p.1 = k) = none := by
    refine List.find?_eq_none.mpr fun p hp hkey => ?_
    obtain rfl : p.1 = k := of_decide_eq_true hkey
    exact hall p.2 (List.mem_reverse.mp hp)
  rw [latest, hfind]

/-- A put changes the latest values as it changes the store. -/
lemma KvStore.latest_put (db : KvStore σ K V) (s : σ) (k : K) (v : V) (l : List (K × V)) :
    latest (db.get (db.put s k v)) l = latest (db.get s) ((k, v) :: l) := by
  rw [db.get_put, latest_cons]

end ActionDB.Found
