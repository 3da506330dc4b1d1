import Mathlib.Data.List.Perm.Basic
import Mathlib.Tactic.Common

/-!
# Values spread over holders

Several holders each hold some values: `Spread R ws ks` says that `ks` are all the values that the
holders `ws` hold, `R w l` being what one of them holds. One holder can be looked at, and changed,
apart from the others (`Spread.focus`); and when no value is held twice, a value has exactly one
holder (`Spread.existsUnique`).
-/

namespace ActionDB.Found

variable {ω α : Type} {R : ω → List α → Prop} {ws : List ω} {ks : List α} {w : ω} {a : α}

/-- All values that are held. -/
inductive Spread (R : ω → List α → Prop) : List ω → List α → Prop
  | nil : Spread R [] []
  | cons {w : ω} {l : List α} {ws : List ω} {ks : List α} :
      R w l → Spread R ws ks → Spread R (w :: ws) (l ++ ks)

/-- **One holder apart from the others.** -/
theorem Spread.focus (hs : Spread R ws ks) {i : ℕ} (hi : ws[i]? = some w) :
    ∃ l rest, R w l ∧ ks.Perm (l ++ rest) ∧
      ∀ w' l', R w' l' → ∃ ks', Spread R (ws.set i w') ks' ∧ ks'.Perm (l' ++ rest) := by
  induction hs generalizing i with
  | nil => cases hi
  | @cons v l ws ks hv hs ih =>
      cases i with
      | zero =>
          obtain rfl : v = w := Option.some.inj hi
          exact ⟨l, ks, hv, .refl _, fun w' l' hw' => ⟨l' ++ ks, .cons hw' hs, .refl _⟩⟩
      | succ i =>
          obtain ⟨l₀, rest, hw, hperm, hset⟩ := ih hi
          refine ⟨l₀, l ++ rest, hw, ?_, ?_⟩
          · exact (hperm.append_left l).trans (List.perm_append_comm_assoc l l₀ rest)
          · intro w' l' hw'
            obtain ⟨ks', hs', hperm'⟩ := hset w' l' hw'
            exact ⟨l ++ ks', .cons hv hs',
              (hperm'.append_left l).trans (List.perm_append_comm_assoc l l' rest)⟩

section Holders

variable {H : ω → α → Prop} (hH : ∀ w l a, R w l → (H w a ↔ a ∈ l))
include hH

/-- The values that are held are those of the holders. -/
theorem Spread.mem_iff (hs : Spread R ws ks) :
    a ∈ ks ↔ ∃ (i : ℕ) (w : ω), ws[i]? = some w ∧ H w a := by
  induction hs with
  | nil => simp
  | @cons v l ws ks hv hs ih =>
      rw [List.mem_append, ih, ← hH v l a hv]
      constructor
      · rintro (h | ⟨i, w, hi, h⟩)
        · exact ⟨0, v, rfl, h⟩
        · exact ⟨i + 1, w, hi, h⟩
      · rintro ⟨i, w, hi, h⟩
        cases i with
        | zero =>
            obtain rfl : v = w := Option.some.inj hi
            exact .inl h
        | succ i => exact .inr ⟨i, w, hi, h⟩

/-- **A value has exactly one holder**, when no value is held twice. -/
theorem Spread.existsUnique (hs : Spread R ws ks) (hnd : ks.Nodup) (ha : a ∈ ks) :
    ∃! i : ℕ, ∃ w, ws[i]? = some w ∧ H w a := by
  induction hs with
  | nil => exact absurd ha List.not_mem_nil
  | @cons v l ws ks hv hs ih =>
      obtain ⟨-, hnd', hdisj⟩ := List.nodup_append.mp hnd
      rcases List.mem_append.mp ha with hal | hak
      · refine ⟨0, ⟨v, rfl, (hH v l a hv).mpr hal⟩, ?_⟩
        rintro i ⟨w, hi, h⟩
        cases i with
        | zero => rfl
        | succ i => exact absurd rfl (hdisj a hal a ((hs.mem_iff hH).mpr ⟨i, w, hi, h⟩))
      · obtain ⟨i, ⟨w, hi, h⟩, huniq⟩ := ih hnd' hak
        refine ⟨i + 1, ⟨w, hi, h⟩, ?_⟩
        rintro j ⟨w', hj, h'⟩
        cases j with
        | zero =>
            obtain rfl : v = w' := Option.some.inj hj
            exact absurd rfl (hdisj a ((hH v l a hv).mp h') a hak)
        | succ j => rw [huniq j ⟨w', hj, h'⟩]

end Holders

end ActionDB.Found
