import ActionDB.Found.Height
import ActionDB.Net.Conn.Table

/-!
# How long a search takes

`rb_search`, `rb_insert` and `rb_erase` all begin with the loop of `rb_search_auxiliary`, which goes
down the tree. Since the tree is a red-black tree after every run of `newConn` and `freeConn`, the
loop makes at most `2 log₂ (n + 1) + 1` passes when there are `n` connections, for any descriptor
(`rbSearchAuxiliary_passes`).
-/

namespace ActionDB.Net.Conn

open ActionDB.Found

variable {h : RbHeap} {root : Ptr} {t : RBTree Item} {ctx : List (Frame Item)}

/-- The loop ends within as many passes as the tree is high, and one more. -/
lemma rbSearchAuxiliary_height (hat : At h root t ctx) (key : Int) :
    ∃ r, ∀ fuel, t.height < fuel →
      rbSearchAuxiliary h key fuel (ptr t) (ctxPtr ctx) = .ok r := by
  induction t generalizing ctx with
  | nil =>
      refine ⟨(none, ctxPtr ctx), fun fuel hfuel => ?_⟩
      cases fuel with
      | zero => exact absurd hfuel (Nat.not_lt_zero _)
      | succ fuel => simp [rbSearchAuxiliary, ptr]
  | node c x v y ihx ihy =>
      have hload : Heap.load h (some v.addr) =
          .ok (cell .left c (ptr x) (ptr y) v (ctxPtr ctx)) :=
        At.load (s := .left) hat
      have hrun : ∀ fuel, rbSearchAuxiliary h key (fuel + 1) (some v.addr) (ctxPtr ctx) =
          if 0 < wrap32 (v.key - key) then rbSearchAuxiliary h key fuel (ptr x) (some v.addr)
          else if 0 > wrap32 (v.key - key) then
            rbSearchAuxiliary h key fuel (ptr y) (some v.addr)
          else .ok (some v.addr, ctxPtr ctx) := by
        intro fuel
        simp only [rbSearchAuxiliary, reduceCtorEq, if_false, hload, ok_bind, key_cell, left_cell,
          right_cell]
        rfl
      obtain ⟨r₁, hr₁⟩ := ihx ((at_down .left c x v y).mp hat)
      obtain ⟨r₂, hr₂⟩ := ihy ((at_down .right c y v x).mp hat)
      refine ⟨if 0 < wrap32 (v.key - key) then r₁ else if 0 > wrap32 (v.key - key) then r₂
        else (some v.addr, ctxPtr ctx), fun fuel hfuel => ?_⟩
      cases fuel with
      | zero => exact absurd hfuel (Nat.not_lt_zero _)
      | succ fuel =>
          simp only [RBTree.height] at hfuel
          rw [show ptr (.node c x v y) = some v.addr from rfl, hrun]
          split_ifs
          · exact hr₁ fuel (by omega)
          · exact hr₂ fuel (by omega)
          · rfl

/-- **A search makes at most `2 log₂ (n + 1) + 1` passes**, `n` being the number of connections:
with that many the loop has found its result, and it does not change with more. -/
theorem rbSearchAuxiliary_passes {es : List Event} {T : Table} (hrun : Run es T) (key : Int) :
    ∃ r, ∀ fuel, 2 * Nat.log 2 (T.connCnt.toNat + 1) + 1 ≤ fuel →
      rbSearchAuxiliary T.nodes key fuel T.root none = .ok r := by
  obtain ⟨l, hinv, -⟩ := hrun.inv
  obtain ⟨t, hrep, hl, hrb⟩ := hinv.holds.tree
  obtain ⟨r, hr⟩ := rbSearchAuxiliary_height (represents_iff_at.mp hrep) key
  refine ⟨r, fun fuel hfuel => ?_⟩
  rw [hrep.root_eq]
  apply hr
  have hheight := hrb.height_le
  rw [hl] at hheight
  have hcnt : T.connCnt.toNat = l.length := by
    rw [hinv.connCnt_eq]
    rfl
  rw [hcnt] at hfuel
  omega

/-- Three connections: five passes are enough. -/
theorem rbSearchAuxiliary_passes_three :
    ∃ T : Table, T.connCnt = 3 ∧ ∃ r, rbSearchAuxiliary T.nodes 3 5 T.root none = .ok r := by
  obtain ⟨T, hrun, hcnt⟩ := run_three
  obtain ⟨r, hr⟩ := rbSearchAuxiliary_passes hrun 3
  refine ⟨T, hcnt, r, hr 5 ?_⟩
  rw [hcnt]
  decide

end ActionDB.Net.Conn
