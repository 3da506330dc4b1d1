import ActionDB.Net.Conn.RbTree

/-!
# Which nodes are allocated

The functions of `net/rbtree.c` change nodes in place. `rb_insert` allocates one node at most, and
`rb_erase` frees the one it has found; rotations and rebalancing neither allocate nor free. Said on
any heap, without a look at the tree: a call that goes well has this effect on the allocated cells
(`rbInsert_cells`, `rbErase_cells`).
-/

namespace ActionDB.Net.Conn

open ActionDB.Found ActionDB.Found.Heap

variable {h h' : RbHeap} {node parent root root' : Ptr} {s : Side}

/-! ## Changes in place -/

/-- A colour is written in place, or not at all. -/
lemma setColorIf_cells {p : Ptr} {c : Color} (hrun : setColorIf h p c = .ok h') :
    SameCells h h' := by
  unfold setColorIf at hrun
  split_ifs at hrun
  · cases hrun
    exact .refl h
  · exact modify_sameCells hrun

/-- So is a parent. -/
lemma setParentIf_cells {p q : Ptr} (hrun : setParentIf h p q = .ok h') : SameCells h h' := by
  unfold setParentIf at hrun
  split_ifs at hrun
  · cases hrun
    exact .refl h
  · exact modify_sameCells hrun

/-- A link is changed in the parent, or in the root. -/
lemma relink_cells {new : Ptr} (hrun : relink s h parent node new root = .ok (root', h')) :
    SameCells h h' := by
  unfold relink at hrun
  split_ifs at hrun
  · cases hrun
    exact .refl h
  · obtain ⟨n, -, hrun⟩ := bind_eq_ok hrun
    obtain ⟨h₁, hset, hrun⟩ := bind_eq_ok hrun
    cases hrun
    exact modify_sameCells hset

/-- A rotation only changes links. -/
lemma rotate_cells (hrun : rotate s h node root = .ok (root', h')) : SameCells h h' := by
  obtain ⟨n, -, hrun⟩ := bind_eq_ok hrun
  obtain ⟨up, -, hrun⟩ := bind_eq_ok hrun
  obtain ⟨h₁, hdown, hrun⟩ := bind_eq_ok hrun
  obtain ⟨h₂, hinner, hrun⟩ := bind_eq_ok hrun
  obtain ⟨h₃, hup, hrun⟩ := bind_eq_ok hrun
  obtain ⟨n', -, hrun⟩ := bind_eq_ok hrun
  obtain ⟨h₄, hparent, hrun⟩ := bind_eq_ok hrun
  obtain ⟨⟨root₁, h₅⟩, hlink, hrun⟩ := bind_eq_ok hrun
  obtain ⟨h₆, hnode, hrun⟩ := bind_eq_ok hrun
  cases hrun
  have hbelow : SameCells h h₃ :=
    (modify_sameCells hdown).trans ((setParentIf_cells hinner).trans (modify_sameCells hup))
  have habove : SameCells h₃ h' :=
    (modify_sameCells hparent).trans ((relink_cells hlink).trans (modify_sameCells hnode))
  exact hbelow.trans habove

/-! ## Insertion -/

/-- One turn of the rebalancing after an insertion: colours and rotations. -/
lemma insertCase_cells {gparent node' : Ptr}
    (hrun : insertCase s h node parent gparent root = .ok (node', root', h')) :
    SameCells h h' := by
  obtain ⟨g, -, hrun⟩ := bind_eq_ok hrun
  obtain ⟨red, -, hrun⟩ := bind_eq_ok hrun
  cases red with
  | true =>
      obtain ⟨h₁, huncle, hrun⟩ := bind_eq_ok hrun
      obtain ⟨h₂, hparent, hrun⟩ := bind_eq_ok hrun
      obtain ⟨h₃, hgparent, hrun⟩ := bind_eq_ok hrun
      cases hrun
      exact (modify_sameCells huncle).trans
        ((modify_sameCells hparent).trans (modify_sameCells hgparent))
  | false =>
      obtain ⟨p, -, hrun⟩ := bind_eq_ok hrun
      by_cases hinner : p.child s.other = node
      · rw [if_pos hinner] at hrun
        obtain ⟨⟨root₁, h₁⟩, hrot₁, hrun⟩ := bind_eq_ok hrun
        obtain ⟨h₂, hnode, hrun⟩ := bind_eq_ok hrun
        obtain ⟨h₃, hgparent, hrun⟩ := bind_eq_ok hrun
        obtain ⟨⟨root₂, h₄⟩, hrot₂, hrun⟩ := bind_eq_ok hrun
        cases hrun
        exact (rotate_cells hrot₁).trans ((modify_sameCells hnode).trans
          ((modify_sameCells hgparent).trans (rotate_cells hrot₂)))
      · rw [if_neg hinner] at hrun
        obtain ⟨h₁, hparent, hrun⟩ := bind_eq_ok hrun
        obtain ⟨h₂, hgparent, hrun⟩ := bind_eq_ok hrun
        obtain ⟨⟨root₁, h₃⟩, hrot, hrun⟩ := bind_eq_ok hrun
        cases hrun
        exact (modify_sameCells hparent).trans
          ((modify_sameCells hgparent).trans (rotate_cells hrot))

/-- All turns. The induction is on the fuel of the loop. -/
lemma rbInsertRebalance_cells {fuel : ℕ}
    (hrun : rbInsertRebalance fuel h node root = .ok (root', h')) : SameCells h h' := by
  induction fuel generalizing h node root with
  | zero => cases hrun
  | succ fuel ih =>
      obtain ⟨n, -, hrun⟩ := bind_eq_ok hrun
      obtain ⟨red, -, hrun⟩ := bind_eq_ok hrun
      cases red with
      | true =>
          obtain ⟨p, -, hrun⟩ := bind_eq_ok hrun
          obtain ⟨g, -, hrun⟩ := bind_eq_ok hrun
          obtain ⟨⟨node₁, root₁, h₁⟩, hcase, hrun⟩ := bind_eq_ok hrun
          exact (insertCase_cells hcase).trans (ih hrun)
      | false =>
          obtain ⟨h₁, hcolor, hrun⟩ := bind_eq_ok hrun
          cases hrun
          exact modify_sameCells hcolor

/-- **`rb_insert`** allocates the new node at most. -/
theorem rbInsert_cells {addr : ℕ} {key : Int} {data : Ptr}
    (hrun : rbInsert h addr key data root = .ok (root', h')) (a : ℕ)
    (ha : h'.lookup a ≠ none) : a = addr ∨ h.lookup a ≠ none := by
  by_contra hnot
  rw [not_or, not_not] at hnot
  obtain ⟨hne, hfree⟩ := hnot
  obtain ⟨⟨found, last⟩, -, hrun⟩ := bind_eq_ok hrun
  by_cases hfound : found = none
  · simp only [hfound, ne_eq, not_true_eq_false, if_false] at hrun
    have hold : ∀ n : RbNode, (Finmap.insert addr n h).lookup a = none := by
      intro n
      rw [Finmap.lookup_insert_of_ne _ hne, hfree]
    by_cases hlast : last = none
    · simp only [hlast, if_true] at hrun
      exact ha ((rbInsertRebalance_cells hrun a).mpr (hold _))
    · simp only [hlast, if_false] at hrun
      obtain ⟨p, -, hrun⟩ := bind_eq_ok hrun
      obtain ⟨h₁, hset, hrun⟩ := bind_eq_ok hrun
      exact ha (((modify_sameCells hset).trans (rbInsertRebalance_cells hrun) a).mpr (hold _))
  · simp only [hfound, ne_eq, not_false_eq_true, if_true] at hrun
    cases hrun
    exact ha hfree

/-! ## Erasure -/

/-- The case of a red sibling. -/
lemma eraseRedSibling_cells {other : Ptr}
    (hrun : eraseRedSibling s h parent root = .ok (other, root', h')) : SameCells h h' := by
  obtain ⟨p, -, hrun⟩ := bind_eq_ok hrun
  obtain ⟨o, -, hrun⟩ := bind_eq_ok hrun
  by_cases hred : o.color = .red
  · rw [if_pos hred] at hrun
    obtain ⟨h₁, hother, hrun⟩ := bind_eq_ok hrun
    obtain ⟨h₂, hparent, hrun⟩ := bind_eq_ok hrun
    obtain ⟨⟨root₁, h₃⟩, hrot, hrun⟩ := bind_eq_ok hrun
    obtain ⟨p', -, hrun⟩ := bind_eq_ok hrun
    cases hrun
    exact (modify_sameCells hother).trans ((modify_sameCells hparent).trans (rotate_cells hrot))
  · rw [if_neg hred] at hrun
    cases hrun
    exact .refl h

/-- The case of a red inner nephew. -/
lemma eraseInner_cells {other other' : Ptr}
    (hrun : eraseInner s h parent other root = .ok (other', root', h')) : SameCells h h' := by
  obtain ⟨o, -, hrun⟩ := bind_eq_ok hrun
  obtain ⟨black, -, hrun⟩ := bind_eq_ok hrun
  cases black with
  | true =>
      obtain ⟨o', -, hrun⟩ := bind_eq_ok hrun
      obtain ⟨h₁, hinner, hrun⟩ := bind_eq_ok hrun
      obtain ⟨h₂, hother, hrun⟩ := bind_eq_ok hrun
      obtain ⟨⟨root₁, h₃⟩, hrot, hrun⟩ := bind_eq_ok hrun
      obtain ⟨p, -, hrun⟩ := bind_eq_ok hrun
      cases hrun
      exact (setColorIf_cells hinner).trans ((modify_sameCells hother).trans (rotate_cells hrot))
  | false =>
      cases hrun
      exact .refl h

/-- The last case, which ends the loop. -/
lemma eraseOuter_cells {other : Ptr}
    (hrun : eraseOuter s h parent other root = .ok (root', h')) : SameCells h h' := by
  obtain ⟨p, -, hrun⟩ := bind_eq_ok hrun
  obtain ⟨h₁, hother, hrun⟩ := bind_eq_ok hrun
  obtain ⟨h₂, hparent, hrun⟩ := bind_eq_ok hrun
  obtain ⟨o, -, hrun⟩ := bind_eq_ok hrun
  obtain ⟨h₃, houter, hrun⟩ := bind_eq_ok hrun
  exact (modify_sameCells hother).trans ((modify_sameCells hparent).trans
    ((setColorIf_cells houter).trans (rotate_cells hrun)))

/-- All turns of the rebalancing after an erasure. -/
lemma rbEraseRebalance_cells {fuel : ℕ}
    (hrun : rbEraseRebalance fuel h node parent root = .ok (root', h')) : SameCells h h' := by
  induction fuel generalizing h node parent root with
  | zero => cases hrun
  | succ fuel ih =>
      obtain ⟨black, -, hrun⟩ := bind_eq_ok hrun
      by_cases hgo : (black && decide (node ≠ root)) = true
      · rw [if_pos hgo] at hrun
        obtain ⟨p, -, hrun⟩ := bind_eq_ok hrun
        obtain ⟨⟨other, root₁, h₁⟩, hred, hrun⟩ := bind_eq_ok hrun
        obtain ⟨both, -, hrun⟩ := bind_eq_ok hrun
        cases both with
        | true =>
            obtain ⟨h₂, hother, hrun⟩ := bind_eq_ok hrun
            obtain ⟨p', -, hrun⟩ := bind_eq_ok hrun
            exact (eraseRedSibling_cells hred).trans ((modify_sameCells hother).trans (ih hrun))
        | false =>
            obtain ⟨⟨other', root₂, h₂⟩, hinner, hrun⟩ := bind_eq_ok hrun
            obtain ⟨⟨root₃, h₃⟩, houter, hrun⟩ := bind_eq_ok hrun
            obtain ⟨h₄, hcolor, hrun⟩ := bind_eq_ok hrun
            cases hrun
            exact (eraseRedSibling_cells hred).trans ((eraseInner_cells hinner).trans
              ((eraseOuter_cells houter).trans (setColorIf_cells hcolor)))
      · rw [if_neg hgo] at hrun
        obtain ⟨h₁, hcolor, hrun⟩ := bind_eq_ok hrun
        cases hrun
        exact setColorIf_cells hcolor

/-- A node with one child at most is taken out of the tree, not freed. -/
lemma unlink_cells {child : Ptr} (hrun : unlink h node child parent root = .ok (root', h')) :
    SameCells h h' := by
  obtain ⟨h₁, hchild, hrun⟩ := bind_eq_ok hrun
  exact (setParentIf_cells hchild).trans (relink_cells hrun)

/-- The successor takes the links of the node that is erased. -/
lemma supplant_cells {old : Ptr} (hrun : supplant h old node root = .ok (root', h')) :
    SameCells h h' := by
  obtain ⟨o, -, hrun⟩ := bind_eq_ok hrun
  obtain ⟨h₁, hnode, hrun⟩ := bind_eq_ok hrun
  obtain ⟨⟨root₁, h₂⟩, hlink, hrun⟩ := bind_eq_ok hrun
  obtain ⟨o₁, -, hrun⟩ := bind_eq_ok hrun
  obtain ⟨h₃, hleft, hrun⟩ := bind_eq_ok hrun
  obtain ⟨o₂, -, hrun⟩ := bind_eq_ok hrun
  obtain ⟨h₄, hright, hrun⟩ := bind_eq_ok hrun
  cases hrun
  exact (modify_sameCells hnode).trans ((relink_cells hlink).trans
    ((modify_sameCells hleft).trans (setParentIf_cells hright)))

/-- The end of `rb_erase`: here the node is freed. -/
lemma rbEraseEnd_cells {old : ℕ} {child : Ptr} {c : Color}
    (hrun : rbEraseEnd h (some old) child parent root c = .ok (root', h')) (a : ℕ) :
    h'.lookup a = none ↔ a = old ∨ h.lookup a = none := by
  obtain ⟨h₁, hfree, hrun⟩ := bind_eq_ok hrun
  have herase : h₁.lookup a = none ↔ a = old ∨ h.lookup a = none := by
    cases hl : h.lookup old with
    | none =>
        simp only [Heap.free, hl] at hfree
        cases hfree
    | some n =>
        rw [free_of_lookup hl] at hfree
        cases hfree
        by_cases ha : a = old
        · subst ha
          rw [Finmap.lookup_erase]
          simp
        · rw [Finmap.lookup_erase_ne ha]
          simp [ha]
  rw [← herase]
  by_cases hc : c = .black
  · rw [if_pos hc] at hrun
    exact rbEraseRebalance_cells hrun a
  · rw [if_neg hc] at hrun
    cases hrun
    exact Iff.rfl

/-- **`rb_erase`** frees the node that the search finds. -/
theorem rbErase_cells {key : Int} {old : ℕ} (hsearch : rbSearch h key root = .ok (some old))
    (hrun : rbErase h key root = .ok (root', h')) (a : ℕ) :
    h'.lookup a = none ↔ a = old ∨ h.lookup a = none := by
  obtain ⟨⟨found, last⟩, haux, hfound⟩ := bind_eq_ok hsearch
  obtain rfl : found = some old := Except.ok.inj hfound
  unfold rbErase at hrun
  simp only [haux, ok_bind, reduceCtorEq, if_false] at hrun
  obtain ⟨o, -, hrun⟩ := bind_eq_ok hrun
  by_cases htwo : o.left ≠ none ∧ o.right ≠ none
  · rw [if_pos htwo] at hrun
    obtain ⟨next, -, hrun⟩ := bind_eq_ok hrun
    obtain ⟨n, -, hrun⟩ := bind_eq_ok hrun
    obtain ⟨⟨root₁, h₁⟩, hunlink, hrun⟩ := bind_eq_ok hrun
    obtain ⟨⟨root₂, h₂⟩, hsupplant, hrun⟩ := bind_eq_ok hrun
    have hsame := (unlink_cells hunlink).trans (supplant_cells hsupplant)
    rw [rbEraseEnd_cells hrun a, hsame a]
  · rw [if_neg htwo] at hrun
    obtain ⟨⟨root₁, h₁⟩, hunlink, hrun⟩ := bind_eq_ok hrun
    rw [rbEraseEnd_cells hrun a, unlink_cells hunlink a]

end ActionDB.Net.Conn
