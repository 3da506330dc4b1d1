import ActionDB.Found.RedBlack
import Mathlib.Algebra.Order.Ring.Nat
import Mathlib.Data.Nat.Log

/-!
# The height of a red-black tree

A path has at most twice as many nodes as black ones, and a tree with `n` black nodes on every path
has at least `2 ^ n - 1` values. So the height of a red-black tree is at most twice the logarithm of
its size (`IsRedBlack.height_le`).
-/

namespace ActionDB.Found.RBTree

variable {α : Type} {t : RBTree α} {n : ℕ}

/-- The number of nodes on a longest path. -/
def height : RBTree α → ℕ
  | nil => 0
  | node _ l _ r => max l.height r.height + 1

/-- A red node is below a black one, or is the root. -/
lemma Valid.height_le (h : t.Valid n) :
    t.height ≤ 2 * n + 1 ∧ (t.color = .black → t.height ≤ 2 * n) := by
  induction t generalizing n with
  | nil => exact ⟨Nat.zero_le _, fun _ => Nat.zero_le _⟩
  | node c l a r ihl ihr =>
      cases c with
      | red =>
          obtain ⟨⟨hl, hr⟩, hvl, hvr⟩ := h
          have hleft := (ihl hvl).2 hl
          have hright := (ihr hvr).2 hr
          refine ⟨?_, fun hc => by cases hc⟩
          simp only [height]
          omega
      | black =>
          cases n with
          | zero => exact h.elim
          | succ n =>
              have hleft := (ihl h.1).1
              have hright := (ihr h.2).1
              simp only [height]
              exact ⟨by omega, fun _ => by omega⟩

/-- Below the root the sizes at least double with each black node. -/
lemma Valid.two_pow_le (h : t.Valid n) : 2 ^ n ≤ t.toList.length + 1 := by
  induction t generalizing n with
  | nil =>
      obtain rfl : n = 0 := h
      exact le_rfl
  | node c l a r ihl ihr =>
      simp only [toList, List.length_append, List.length_cons]
      cases c with
      | red =>
          have hleft := ihl h.2.1
          omega
      | black =>
          cases n with
          | zero => exact h.elim
          | succ n =>
              have hleft := ihl h.1
              have hright := ihr h.2
              rw [pow_succ]
              omega

theorem IsRedBlack.height_le (h : t.IsRedBlack) :
    t.height ≤ 2 * Nat.log 2 (t.toList.length + 1) := by
  obtain ⟨hroot, n, hn⟩ := (isRedBlack_iff t).mp h
  have hlog : n ≤ Nat.log 2 (t.toList.length + 1) :=
    Nat.le_log_of_pow_le (by decide) hn.two_pow_le
  calc t.height ≤ 2 * n := hn.height_le.2 hroot
    _ ≤ 2 * Nat.log 2 (t.toList.length + 1) := Nat.mul_le_mul_left 2 hlog

end ActionDB.Found.RBTree
