import ActionDB.Net.Conn.Rep

/-!
# Rebalancing

The two loops that repair a red-black tree, run on the heap. Both walk up from a subtree `t` in a
context `ctx`, and both are followed by one invariant:

* **insertion**: `t` is red and red-black on its own, and `ctx` is red-black around it; the one
  thing that may be wrong is that the parent of `t` is red too (`Inserting`);
* **erasure**: `ctx` is red-black around a hole of black height `n + 1`, and `t` is one black node
  short of that, unless it is red and only needs to be blackened (`Deficit`).

A pass of either loop keeps its invariant, loses and reorders no values, and never follows a NULL
pointer. That a grandparent exists comes from the black root (`insertCase_spec`), and that a
sibling exists comes from the black heights (`Fits.sibling_valid`). Both loops end with a
red-black tree (`Rebalanced`).
-/

namespace ActionDB.Net.Conn

open ActionDB.Found

/-- The program ends, without a fault, in a red-black tree with the values `l`. -/
def Rebalanced (m : Except MemFault (Ptr × RbHeap)) (l : List Item) : Prop :=
  ∃ root h t, m = .ok (root, h) ∧ Represents h root t ∧ t.toList = l ∧ t.IsRedBlack

/-! ## Colours in the heap -/

section Colors

variable {h : RbHeap} {root p : Ptr} {t y : RBTree Item} {s : Side} {d : Color} {v : Item}
  {f : Frame Item} {ctx : List (Frame Item)}

lemma isRed_ptr (ht : Rep h p t) : isRed h (ptr t) = .ok (decide (t.color = .red)) := by
  cases t with
  | nil => rfl
  | node c l v r =>
      unfold isRed
      rw [if_neg (by simp [ptr]), ptr, Heap.load_of_lookup ht.1, ok_bind, color_cell]
      rfl

lemma blackOrNull_ptr (ht : Rep h p t) :
    blackOrNull h (ptr t) = .ok (decide (t.color = .black)) := by
  cases t with
  | nil => rfl
  | node c l v r =>
      unfold blackOrNull
      rw [if_neg (by simp [ptr]), ptr, Heap.load_of_lookup ht.1, ok_bind, color_cell]
      rfl

lemma isRed_ctxPtr (hc : RepCtx h p ctx) :
    isRed h (ctxPtr ctx) = .ok (decide (ctx ≠ [] ∧ parentColor ctx = .red)) := by
  cases ctx with
  | nil => rfl
  | cons f ctx =>
      unfold isRed
      rw [if_neg (by simp [ctxPtr]), ctxPtr, Heap.load_of_lookup hc.1, ok_bind, color_cell]
      simp [parentColor, pure, Except.pure]

/-- Recolouring a subtree that may be empty. -/
lemma setColorIf_spec (hat : At h root t ctx) (c : Color) :
    ∃ h', setColorIf h (ptr t) c = .ok h' ∧ At h' root (t.setColor c) ctx := by
  cases t with
  | nil => exact ⟨h, rfl, hat⟩
  | node d l v r =>
      obtain ⟨h', hrun, hat'⟩ := setColor_spec (s := .left) hat c
      exact ⟨h', hrun, hat'⟩

lemma setColorIf_root (hrep : Represents h root t) (c : Color) :
    ∃ h', setColorIf h root c = .ok h' ∧ Represents h' root (t.setColor c) := by
  obtain ⟨h', hrun, hat'⟩ := setColorIf_spec (represents_iff_at.mp hrep) c
  exact ⟨h', by rw [hrep.root_eq, hrun], represents_iff_at.mpr hat'⟩

lemma setColor_root (hrep : Represents h root t) (ht : t ≠ .nil) (c : Color) :
    ∃ h', setColor h root c = .ok h' ∧ Represents h' root (t.setColor c) := by
  obtain ⟨h', hrun, hrep'⟩ := setColorIf_root hrep c
  unfold setColorIf at hrun
  rw [if_neg fun hp => ht (ptr_eq_none.mp (hrep.root_eq ▸ hp))] at hrun
  exact ⟨h', hrun, hrep'⟩

/-- Recolouring the parent. -/
lemma setColor_parent (hat : At h root t (⟨s, d, v, y⟩ :: ctx)) (c : Color) :
    ∃ h', setColor h (some v.addr) c = .ok h' ∧ At h' root t (⟨s, c, v, y⟩ :: ctx) := by
  obtain ⟨h', hrun, hat'⟩ := setColor_spec ((at_down s d t v y).mpr hat) c
  exact ⟨h', hrun, (at_down s c t v y).mp hat'⟩

/-- Recolouring the grandparent. -/
lemma setColor_grandparent (hat : At h root t (f :: ⟨s, d, v, y⟩ :: ctx)) (c : Color) :
    ∃ h', setColor h (some v.addr) c = .ok h' ∧ At h' root t (f :: ⟨s, c, v, y⟩ :: ctx) := by
  obtain ⟨h', hrun, hat'⟩ := setColor_parent ((at_down _ _ _ _ _).mpr hat) c
  exact ⟨h', hrun, (at_down _ _ _ _ _).mp hat'⟩

/-- Recolouring the sibling. -/
lemma setColor_sibling (hat : At h root t (⟨s, d, v, y⟩ :: ctx)) (hne : y ≠ .nil) (c : Color) :
    ∃ h', setColor h (ptr y) c = .ok h' ∧ At h' root t (⟨s, d, v, y.setColor c⟩ :: ctx) := by
  obtain ⟨h', hrun, hat'⟩ := setColorIf_spec ((at_flip ⟨s, d, v, y⟩).mp hat) c
  unfold setColorIf at hrun
  rw [if_neg fun hp => hne (ptr_eq_none.mp hp)] at hrun
  exact ⟨h', hrun, (at_flip ⟨s, d, v, y.setColor c⟩).mpr hat'⟩

/-- Recolouring the uncle. -/
lemma setColor_uncle (hat : At h root t (f :: ⟨s, d, v, y⟩ :: ctx)) (hne : y ≠ .nil) (c : Color) :
    ∃ h', setColor h (ptr y) c = .ok h' ∧ At h' root t (f :: ⟨s, d, v, y.setColor c⟩ :: ctx) := by
  obtain ⟨h', hrun, hat'⟩ := setColor_sibling ((at_down _ _ _ _ _).mpr hat) hne c
  exact ⟨h', hrun, (at_down _ _ _ _ _).mp hat'⟩

lemma At.load_focus (hat : At h root t ctx) (ht : t ≠ .nil) :
    ∃ n, Heap.load h (ptr t) = .ok n ∧ n.parent = ctxPtr ctx := by
  cases t with
  | nil => exact absurd rfl ht
  | node c l v r => exact ⟨_, At.load (s := .left) hat, rfl⟩

lemma At.load_parent (hat : At h root t (⟨s, d, v, y⟩ :: ctx)) :
    Heap.load h (some v.addr) = .ok (cell s d (ptr t) (ptr y) v (ctxPtr ctx)) :=
  Heap.load_of_lookup hat.around.1

lemma At.load_grandparent (hat : At h root t (f :: ⟨s, d, v, y⟩ :: ctx)) :
    Heap.load h (some v.addr) = .ok (cell s d (some f.val.addr) (ptr y) v (ctxPtr ctx)) :=
  Heap.load_of_lookup hat.around.2.2.1

/-- A node and its sibling are different, as long as one of them is there. -/
lemma At.sibling_ne (hat : At h root t (f :: ctx)) (hne : t ≠ .nil ∨ f.sibling ≠ .nil) :
    ptr f.sibling ≠ ptr t := by
  intro heq
  cases ht : ptr t with
  | none =>
      rw [ht] at heq
      rcases hne with hne | hne
      · exact hne (ptr_eq_none.mp ht)
      · exact hne (ptr_eq_none.mp heq)
  | some a =>
      rw [ht] at heq
      have hdisj := (List.nodup_append.mp hat.nodup).2.2
      exact hdisj a (ptr_mem_addrs ht) a (by simp [ctxAddrs, ptr_mem_addrs heq]) rfl

/-- The rotation that moves an outer grandchild up. -/
lemma rotate_outer {c : Color} {a b : Item} {z : RBTree Item}
    (hat : At h root t (⟨s, c, a, y⟩ :: ⟨s, d, b, z⟩ :: ctx)) :
    ∃ root' h', rotate s.other h (some b.addr) root = .ok (root', h') ∧
      At h' root' t (⟨s, c, a, .join s d y b z⟩ :: ctx) := by
  have hat₁ := (at_down _ _ _ _ _).mpr ((at_down _ _ _ _ _).mpr hat)
  rw [← RBTree.join_other s d, ← RBTree.join_other s c] at hat₁
  obtain ⟨root', h', hrun, hat'⟩ := rotate_spec hat₁
  rw [RBTree.join_other, RBTree.join_other] at hat'
  exact ⟨root', h', hrun, (at_down _ _ _ _ _).mp hat'⟩

end Colors

/-! ## Insertion -/

/-- The invariant of `rb_insert_rebalance`. -/
structure Inserting (h : RbHeap) (root : Ptr) (t : RBTree Item) (ctx : List (Frame Item)) :
    Prop where
  isAt : At h root t ctx
  red : t.color = .red
  balanced : ∃ n, t.Valid n ∧ Fits ctx n

section Insertion

variable {h : RbHeap} {root : Ptr} {t fy gz x y : RBTree Item} {fs s : Side} {fv gv a : Item}
  {f g : Frame Item} {ctx : List (Frame Item)}

/-- A red uncle: the red moves up to the grandparent. -/
lemma insertCase_redUncle (hat : At h root t (⟨fs, .red, fv, fy⟩ :: ⟨s, .black, gv, gz⟩ :: ctx))
    (hz : gz.color = .red) :
    ∃ h', insertCase s h (ptr t) (some fv.addr) (some gv.addr) root =
        .ok (some gv.addr, root, h') ∧
      At h' root (.join s .red (.join fs .black t fv fy) gv (gz.setColor .black)) ctx := by
  have hzne : gz ≠ .nil := by
    rintro rfl
    cases hz
  have huncle : isRed h (ptr gz) = .ok true := by
    rw [isRed_ptr hat.around.2.2.2.1, hz]
    rfl
  obtain ⟨h₁, hrun₁, hat₁⟩ := setColor_uncle hat hzne .black
  obtain ⟨h₂, hrun₂, hat₂⟩ := setColor_parent hat₁ .black
  obtain ⟨h₃, hrun₃, hat₃⟩ := setColor_grandparent hat₂ .red
  refine ⟨h₃, ?_, (at_down _ _ _ _ _).mpr ((at_down _ _ _ _ _).mpr hat₃)⟩
  simp only [insertCase, hat.load_grandparent, ok_bind, child_other_cell, huncle, if_true, hrun₁,
    hrun₂, hrun₃]
  rfl

lemma isRed_uncle (hat : At h root t (f :: ⟨s, .black, gv, gz⟩ :: ctx)) (hz : gz.color = .black) :
    isRed h (ptr gz) = .ok false := by
  rw [isRed_ptr hat.around.2.2.2.1, hz]
  rfl

/-- An outer grandchild: one rotation. -/
lemma insertCase_outer (hat : At h root t (⟨s, .red, fv, fy⟩ :: ⟨s, .black, gv, gz⟩ :: ctx))
    (hz : gz.color = .black) (ht : t ≠ .nil) :
    ∃ root' h', insertCase s h (ptr t) (some fv.addr) (some gv.addr) root =
        .ok (ptr t, root', h') ∧
      At h' root' t (⟨s, .black, fv, .join s .red fy gv gz⟩ :: ctx) := by
  have hne : ptr fy ≠ ptr t := hat.sibling_ne (.inl ht)
  obtain ⟨h₁, hrun₁, hat₁⟩ := setColor_parent hat .black
  obtain ⟨h₂, hrun₂, hat₂⟩ := setColor_grandparent hat₁ .red
  obtain ⟨root₃, h₃, hrun₃, hat₃⟩ := rotate_outer hat₂
  refine ⟨root₃, h₃, ?_, hat₃⟩
  simp only [insertCase, hat.load_grandparent, ok_bind, child_other_cell, isRed_uncle hat hz,
    Bool.false_eq_true, if_false, hat.load_parent, hne, hrun₁, hrun₂, hrun₃]
  rfl

/-- An inner grandchild is first rotated outwards; the loop goes on at its old parent. -/
lemma insertCase_inner
    (hat : At h root (.join s .red x a y) (⟨s.other, .red, fv, fy⟩ :: ⟨s, .black, gv, gz⟩ :: ctx))
    (hz : gz.color = .black) :
    ∃ root' h', insertCase s h (some a.addr) (some fv.addr) (some gv.addr) root =
        .ok (some fv.addr, root', h') ∧
      At h' root' (.join s .red fy fv x) (⟨s, .black, a, .join s .red y gv gz⟩ :: ctx) := by
  have hat₀ := (at_down _ _ _ _ _).mpr hat
  rw [RBTree.join_other] at hat₀
  obtain ⟨root₁, h₁, hrun₁, hat₁⟩ := rotate_spec hat₀
  obtain ⟨h₂, hrun₂, hat₂⟩ := setColor_parent ((at_down _ _ _ _ _).mp hat₁) .black
  obtain ⟨h₃, hrun₃, hat₃⟩ := setColor_grandparent hat₂ .red
  obtain ⟨root₄, h₄, hrun₄, hat₄⟩ := rotate_outer hat₃
  refine ⟨root₄, h₄, ?_, hat₄⟩
  simp only [insertCase, hat.load_grandparent, ok_bind, child_other_cell, isRed_uncle hat hz,
    Bool.false_eq_true, if_false, hat.load_parent, child_cell, ptr_join, if_true, hrun₁, hrun₂,
    hrun₃, hrun₄]
  rfl

/-- The root is black, so a red parent has a parent. -/
lemma Inserting.exists_grandparent (hins : Inserting h root t (f :: ctx)) (hf : f.color = .red) :
    ∃ g ctx', ctx = g :: ctx' := by
  obtain ⟨-, -, n, -, hfits⟩ := hins
  obtain ⟨fs, fc, fv, fy⟩ := f
  obtain rfl : fc = .red := hf
  obtain ⟨-, -, hpar, -⟩ := hfits
  cases ctx with
  | nil => cases hpar
  | cons g ctx => exact ⟨g, ctx, rfl⟩

/-- **One pass of `rb_insert_rebalance`** keeps the invariant and the values, and the loop goes on
in a smaller context. -/
theorem insertCase_spec (hins : Inserting h root t (f :: g :: ctx)) (hf : f.color = .red) :
    ∃ t' ctx' root' h',
      insertCase g.side h (ptr t) (some f.val.addr) (some g.val.addr) root =
        .ok (ptr t', root', h') ∧
      Inserting h' root' t' ctx' ∧ ctx'.length < (f :: g :: ctx).length ∧
      (plug t' ctx').toList = (plug t (f :: g :: ctx)).toList := by
  obtain ⟨hat, hred, n, hvalid, hfits⟩ := hins
  obtain ⟨fs, fc, fv, fy⟩ := f
  obtain ⟨s, gc, gv, gz⟩ := g
  obtain rfl : fc = .red := hf
  obtain ⟨hfy, hfyn, hgc, hfits⟩ := hfits
  obtain rfl : gc = .black := hgc
  obtain ⟨hgz, hfits⟩ := hfits
  have htne : t ≠ .nil := by
    rintro rfl
    cases hred
  cases hz : gz.color with
  | red =>
      obtain ⟨h', hrun, hat'⟩ := insertCase_redUncle hat hz
      refine ⟨_, ctx, root, h', by rw [hrun, ptr_join],
        ⟨hat', RBTree.color_join .., n + 1, ?_, hfits⟩,
        by simp only [List.length_cons]; omega, ?_⟩
      · exact (RBTree.valid_join_red _ _ _ _ _).mpr
          ⟨⟨RBTree.color_join .., RBTree.color_setColor hz⟩,
            (RBTree.valid_join_black _ _ _ _ _).mpr ⟨hvalid, hfyn⟩, hgz.blacken hz⟩
      · refine toList_plug_congr
          (RBTree.toList_join_congr s ?_ (RBTree.toList_setColor .black gz)) ctx
        exact RBTree.toList_join_congr fs rfl rfl
  | black =>
      by_cases hside : fs = s
      · subst hside
        obtain ⟨root', h', hrun, hat'⟩ := insertCase_outer hat hz htne
        refine ⟨t, _, root', h', hrun, ⟨hat', hred, n, hvalid, ?_, hfits⟩, by simp, ?_⟩
        · exact (RBTree.valid_join_red _ _ _ _ _).mpr ⟨⟨hfy, hz⟩, hfyn, hgz⟩
        · exact toList_plug_congr
            (RBTree.toList_rotate fs .black .red .red .black t fy gz fv gv).symm ctx
      · obtain rfl := Side.eq_other_of_ne hside
        obtain ⟨x, a, y, ht⟩ := RBTree.exists_join_of_ne_nil s htne
        rw [hred] at ht
        subst ht
        obtain ⟨⟨hx, hy⟩, hxn, hyn⟩ := (RBTree.valid_join_red _ _ _ _ _).mp hvalid
        obtain ⟨root', h', hrun, hat'⟩ := insertCase_inner hat hz
        refine ⟨_, _, root', h', by rw [ptr_join, hrun, ptr_join],
          ⟨hat', RBTree.color_join .., n, ?_, ?_, hfits⟩, by simp, ?_⟩
        · exact (RBTree.valid_join_red _ _ _ _ _).mpr ⟨⟨hfy, hx⟩, hfyn, hxn⟩
        · exact (RBTree.valid_join_red _ _ _ _ _).mpr ⟨⟨hy, hz⟩, hyn, hgz⟩
        · refine toList_plug_congr ?_ ctx
          rw [RBTree.join_other]
          apply (RBTree.toList_rotate s .black .red .red .black _ y gz a gv).symm.trans
          exact RBTree.toList_join_congr s
            (RBTree.toList_rotate s .red .red .red .red fy x y fv a) rfl

/-- The loop ends when the parent is not red. -/
lemma Inserting.isRedBlack (hins : Inserting h root t ctx)
    (hpar : ctx = [] ∨ parentColor ctx = .black) :
    ((plug t ctx).setColor .black).IsRedBlack := by
  obtain ⟨-, hred, n, hvalid, hfits⟩ := hins
  rcases hpar with rfl | hpar
  · exact (RBTree.isRedBlack_iff _).mpr ⟨RBTree.color_setColor hred, n + 1, hvalid.blacken hred⟩
  · have hrb := (isRedBlack_plug_iff t ctx).mpr ⟨n, hvalid, hfits, fun _ => hpar⟩
    rw [RBTree.setColor_self hrb.root]
    exact hrb

/-- **`rb_insert_rebalance`** repairs the tree. -/
theorem rbInsertRebalance_spec (fuel : ℕ) (hins : Inserting h root t ctx)
    (hfuel : ctx.length < fuel) :
    Rebalanced (rbInsertRebalance fuel h (ptr t) root) (plug t ctx).toList := by
  induction fuel generalizing h root t ctx with
  | zero => exact absurd hfuel (Nat.not_lt_zero _)
  | succ fuel ih =>
      have hat := hins.isAt
      have htne : t ≠ .nil := by
        rintro rfl
        cases hins.red
      obtain ⟨m, hload, hparent⟩ := hat.load_focus htne
      by_cases hred : ctx ≠ [] ∧ parentColor ctx = .red
      · -- a red parent is not the root
        obtain ⟨hne, hpar⟩ := hred
        obtain ⟨f, ctx, rfl⟩ := List.exists_cons_of_ne_nil hne
        obtain ⟨g, ctx, rfl⟩ := hins.exists_grandparent hpar
        obtain ⟨t', ctx', root', h', hrun, hins', hlen, hlist⟩ := insertCase_spec hins hpar
        obtain ⟨root'', h'', T, hrun', hrep, hT, hrb⟩ := ih hins' (by omega)
        refine ⟨root'', h'', T, ?_, hrep, hT.trans hlist, hrb⟩
        have hisRed := isRed_ctxPtr hat.around
        rw [decide_eq_true ⟨hne, hpar⟩] at hisRed
        obtain ⟨fs, fc, fv, fy⟩ := f
        obtain ⟨gs, gc, gv, gz⟩ := g
        have hside : (if some fv.addr = (cell gs gc (some fv.addr) (ptr gz) gv (ctxPtr ctx)).left
            then Side.left else .right) = gs := by
          have hne :=
            ((at_down fs fc t fv fy).mpr hat).sibling_ne (.inl (RBTree.join_ne_nil _ _ _ _ _))
          rw [ptr_join] at hne
          exact (if_congr eq_comm rfl rfl).trans (side_of_cell gs gc _ _ gv _ .left hne)
        rw [ctxPtr_cons] at hisRed
        simp only [rbInsertRebalance, hload, ok_bind, hparent, ctxPtr_cons, hisRed, if_true,
          hat.load_parent, parent_cell, hat.load_grandparent, hside, hrun, hrun']
      · have hisRed := isRed_ctxPtr hat.around
        rw [decide_eq_false hred] at hisRed
        have hpar : ctx = [] ∨ parentColor ctx = .black := by
          by_cases hnil : ctx = []
          · exact .inl hnil
          · right
            cases hc : parentColor ctx with
            | red => exact absurd ⟨hnil, hc⟩ hred
            | black => rfl
        obtain ⟨h', hrun, hrep⟩ :=
          setColor_root (represents_plug_iff.mpr hat) (plug_ne_nil htne ctx) .black
        refine ⟨root, h', _, ?_, hrep, RBTree.toList_setColor _ _, hins.isRedBlack hpar⟩
        simp only [rbInsertRebalance, hload, ok_bind, hparent, hisRed, Bool.false_eq_true, if_false,
          hrun]
        rfl

end Insertion

/-! ## Erasure -/

/-- The balance of `rb_erase_rebalance`: `t` is one black node short of the hole it is in, or is red
and fills it once it is blackened. -/
structure Deficit (t : RBTree Item) (ctx : List (Frame Item)) (n : ℕ) : Prop where
  fits : Fits ctx (n + 1)
  black : t.color = .black → t.Valid n
  red : t.color = .red → (t.setColor .black).Valid (n + 1)

section Erasure

variable {h : RbHeap} {root : Ptr} {t x y x₁ x₂ : RBTree Item} {s : Side} {c d : Color}
  {v w u : Item}  {ctx : List (Frame Item)} {n : ℕ}

lemma At.load_sibling (hat : At h root t (⟨s, c, v, .join s d x w y⟩ :: ctx)) :
    Heap.load h (some w.addr) = .ok (cell s d (ptr x) (ptr y) w (some v.addr)) :=
  Heap.load_of_lookup ((rep_join _ _ _ _ _ _ _).mp hat.around.2.1).1

/-- The children of the sibling. -/
lemma At.rep_nephews (hat : At h root t (⟨s, c, v, .join s d x w y⟩ :: ctx)) :
    Rep h (some w.addr) x ∧ Rep h (some w.addr) y :=
  ((rep_join _ _ _ _ _ _ _).mp hat.around.2.1).2

lemma bothBlack_spec (hat : At h root t (⟨s, c, v, .join s d x w y⟩ :: ctx)) :
    bothBlack h (some w.addr) = .ok (decide (x.color = .black ∧ y.color = .black)) := by
  have hload := hat.load_sibling
  obtain ⟨hx, hy⟩ := hat.rep_nephews
  unfold bothBlack
  rw [hload, ok_bind]
  cases s with
  | left =>
      rw [show (cell .left d (ptr x) (ptr y) w (some v.addr)).left = ptr x from rfl,
        show (cell .left d (ptr x) (ptr y) w (some v.addr)).right = ptr y from rfl,
        blackOrNull_ptr hx, ok_bind, blackOrNull_ptr hy]
      cases x.color <;> cases y.color <;> rfl
  | right =>
      rw [show (cell .right d (ptr x) (ptr y) w (some v.addr)).left = ptr y from rfl,
        show (cell .right d (ptr x) (ptr y) w (some v.addr)).right = ptr x from rfl,
        blackOrNull_ptr hy, ok_bind, blackOrNull_ptr hx]
      cases x.color <;> cases y.color <;> rfl

/-- A red sibling is rotated up, and its inner child becomes the sibling. -/
lemma eraseRedSibling_red (hat : At h root t (⟨s, c, v, .join s .red x w y⟩ :: ctx)) :
    ∃ root' h', eraseRedSibling s h (some v.addr) root = .ok (ptr x, root', h') ∧
      At h' root' t (⟨s, .red, v, x⟩ :: ⟨s, .black, w, y⟩ :: ctx) := by
  obtain ⟨h₁, hrun₁, hat₁⟩ := setColor_sibling hat (RBTree.join_ne_nil _ _ _ _ _) .black
  rw [RBTree.setColor_join] at hat₁
  rw [ptr_join] at hrun₁
  obtain ⟨h₂, hrun₂, hat₂⟩ := setColor_parent hat₁ .red
  obtain ⟨root₃, h₃, hrun₃, hat₃⟩ := rotate_spec ((at_down _ _ _ _ _).mpr hat₂)
  have hat' := (at_down _ _ _ _ _).mp ((at_down _ _ _ _ _).mp hat₃)
  refine ⟨root₃, h₃, ?_, hat'⟩
  simp only [eraseRedSibling, hat.load_parent, ok_bind, child_other_cell, ptr_join,
    hat.load_sibling, color_cell, if_true, hrun₁, hrun₂, hrun₃, hat'.load_parent]
  rfl

lemma eraseRedSibling_black (hat : At h root t (⟨s, c, v, .join s .black x w y⟩ :: ctx)) :
    eraseRedSibling s h (some v.addr) root = .ok (some w.addr, root, h) := by
  simp only [eraseRedSibling, hat.load_parent, ok_bind, child_other_cell, ptr_join,
    hat.load_sibling, color_cell, reduceCtorEq, if_false]
  rfl

/-- **The sibling is made black**, if it is not. -/
lemma eraseRedSibling_spec (hat : At h root t (⟨s, c, v, y⟩ :: ctx))
    (hfits : Fits (⟨s, c, v, y⟩ :: ctx) (n + 1)) :
    ∃ c' x' w' y' ctx' root' h',
      eraseRedSibling s h (some v.addr) root = .ok (some w'.addr, root', h') ∧
      At h' root' t (⟨s, c', v, .join s .black x' w' y'⟩ :: ctx') ∧
      Fits (⟨s, c', v, .join s .black x' w' y'⟩ :: ctx') (n + 1) ∧ (c' = .red ∨ ctx' = ctx) ∧
      (plug t (⟨s, c', v, .join s .black x' w' y'⟩ :: ctx')).toList =
        (plug t (⟨s, c, v, y⟩ :: ctx)).toList := by
  obtain ⟨x', w', y', hy⟩ := RBTree.exists_join_of_ne_nil s hfits.sibling_valid.ne_nil
  cases hc : y.color with
  | black =>
      rw [hc] at hy
      subst hy
      exact ⟨c, x', w', y', ctx, root, h, eraseRedSibling_black hat, hat, hfits, .inr rfl, rfl⟩
  | red =>
      rw [hc] at hy
      subst hy
      -- the parent of a red node is black
      obtain rfl : c = .black := by
        cases c with
        | red => exact absurd hfits.1 (by simp)
        | black => rfl
      obtain ⟨hvalid, hfits⟩ := hfits
      obtain ⟨⟨hx, hy⟩, hxn, hyn⟩ := (RBTree.valid_join_red _ _ _ _ _).mp hvalid
      obtain ⟨root', h', hrun, hat'⟩ := eraseRedSibling_red hat
      obtain ⟨x'', w'', y'', hx'⟩ := RBTree.exists_join_of_ne_nil s hxn.ne_nil
      rw [hx] at hx'
      subst hx'
      rw [ptr_join] at hrun
      refine ⟨.red, x'', w'', y'', _, root', h', hrun, hat', ⟨hx, hxn, rfl, hyn, hfits⟩,
        .inl rfl, ?_⟩
      exact toList_plug_congr (RBTree.toList_rotate s .black .red .red .black t _ y' v w') ctx

/-- Neither child of the sibling is red: the sibling turns red, and the parent is short of a black
node, or is red itself. -/
lemma Deficit.up (hvalid : t.Valid n)
    (hfits : Fits (⟨s, c, v, .join s .black x w y⟩ :: ctx) (n + 1))
    (hxy : x.color = .black ∧ y.color = .black) :
    ∃ m, Deficit (.join s c t v (.join s .red x w y)) ctx m := by
  obtain ⟨hxn, hyn⟩ := (RBTree.valid_join_black _ _ _ _ _).mp hfits.sibling_valid
  have hred : (RBTree.join s .red x w y).Valid n :=
    (RBTree.valid_join_red _ _ _ _ _).mpr ⟨hxy, hxn, hyn⟩
  cases c with
  | black =>
      refine ⟨n + 1, hfits.2, fun _ => ?_, fun hc => ?_⟩
      · exact (RBTree.valid_join_black _ _ _ _ _).mpr ⟨hvalid, hred⟩
      · rw [RBTree.color_join] at hc
        cases hc
  | red =>
      refine ⟨n, hfits.2.2.2, fun hc => ?_, fun _ => ?_⟩
      · rw [RBTree.color_join] at hc
        cases hc
      · rw [RBTree.setColor_join]
        exact (RBTree.valid_join_black _ _ _ _ _).mpr ⟨hvalid, hred⟩

lemma eraseInner_red (hat : At h root t (⟨s, c, v, .join s .black x w y⟩ :: ctx))
    (hy : y.color = .red) :
    eraseInner s h (some v.addr) (some w.addr) root = .ok (some w.addr, root, h) := by
  simp only [eraseInner, hat.load_sibling, ok_bind, child_other_cell,
    blackOrNull_ptr hat.rep_nephews.2, hy, reduceCtorEq, decide_false, Bool.false_eq_true, if_false]
  rfl

/-- The inner child of the sibling is rotated up. -/
lemma eraseInner_black
    (hat : At h root t (⟨s, c, v, .join s .black (.join s .red x₁ u x₂) w y⟩ :: ctx))
    (hy : y.color = .black) :
    ∃ root' h', eraseInner s h (some v.addr) (some w.addr) root = .ok (some u.addr, root', h') ∧
      At h' root' t (⟨s, c, v, .join s .black x₁ u (.join s .red x₂ w y)⟩ :: ctx) := by
  have hat₀ := (at_down _ _ _ _ _).mp ((at_flip _).mp hat)
  obtain ⟨h₁, hrun₁, hat₁⟩ := setColorIf_spec hat₀ .black
  rw [RBTree.setColor_join] at hat₁
  rw [ptr_join] at hrun₁
  obtain ⟨h₂, hrun₂, hat₂⟩ := setColor_parent hat₁ .red
  obtain ⟨root₃, h₃, hrun₃, hat₃⟩ := rotate_outer ((at_down _ _ _ _ _).mp hat₂)
  have hat' := (at_flip ⟨s, c, v, .join s .black x₁ u (.join s .red x₂ w y)⟩).mpr
    ((at_down _ _ _ _ _).mpr hat₃)
  refine ⟨root₃, h₃, ?_, hat'⟩
  simp only [eraseInner, hat.load_sibling, ok_bind, child_other_cell,
    blackOrNull_ptr hat.rep_nephews.2, hy, decide_true, if_true, child_cell, ptr_join, hrun₁, hrun₂,
    hrun₃, hat'.load_parent]
  rfl

/-- **The outer child of the sibling is made red**, if it is not. -/
lemma eraseInner_spec (hat : At h root t (⟨s, c, v, .join s .black x w y⟩ :: ctx))
    (hvalid : x.Valid n ∧ y.Valid n) (hxy : ¬(x.color = .black ∧ y.color = .black)) :
    ∃ x' w' y' root' h',
      eraseInner s h (some v.addr) (some w.addr) root = .ok (some w'.addr, root', h') ∧
      At h' root' t (⟨s, c, v, .join s .black x' w' y'⟩ :: ctx) ∧ y'.color = .red ∧
      (x'.Valid n ∧ y'.Valid n) ∧
      (RBTree.join s .black x' w' y').toList = (RBTree.join s .black x w y).toList := by
  obtain ⟨hxn, hyn⟩ := hvalid
  cases hy : y.color with
  | red => exact ⟨x, w, y, root, h, eraseInner_red hat hy, hat, hy, ⟨hxn, hyn⟩, rfl⟩
  | black =>
      have hx : x.color = .red := by
        cases hx : x.color with
        | red => rfl
        | black => exact absurd ⟨hx, hy⟩ hxy
      have hxne : x ≠ .nil := by
        rintro rfl
        cases hx
      obtain ⟨x₁, u, x₂, hx'⟩ := RBTree.exists_join_of_ne_nil s hxne
      rw [hx] at hx'
      subst hx'
      obtain ⟨⟨-, hx₂⟩, hx₁n, hx₂n⟩ := (RBTree.valid_join_red _ _ _ _ _).mp hxn
      obtain ⟨root', h', hrun, hat'⟩ := eraseInner_black hat hy
      refine ⟨x₁, u, .join s .red x₂ w y, root', h', hrun, hat', RBTree.color_join ..,
        ⟨hx₁n, ?_⟩, ?_⟩
      · exact (RBTree.valid_join_red _ _ _ _ _).mpr ⟨⟨hx₂, hy⟩, hx₂n, hyn⟩
      · exact (RBTree.toList_rotate s .black .red .red .black x₁ x₂ y u w).symm

/-- **The last rotation**: the sibling takes the place of the parent. -/
lemma eraseOuter_spec (hat : At h root t (⟨s, c, v, .join s .black x w y⟩ :: ctx)) :
    ∃ root' h', eraseOuter s h (some v.addr) (some w.addr) root = .ok (root', h') ∧
      At h' root' (.join s c (.join s .black t v x) w (y.setColor .black)) ctx := by
  obtain ⟨h₁, hrun₁, hat₁⟩ := setColor_sibling hat (RBTree.join_ne_nil _ _ _ _ _) c
  rw [RBTree.setColor_join] at hat₁
  rw [ptr_join] at hrun₁
  obtain ⟨h₂, hrun₂, hat₂⟩ := setColor_parent hat₁ .black
  have hat₂' := (at_flip _).mp ((at_down _ _ _ _ _).mp ((at_flip _).mp hat₂))
  obtain ⟨h₃, hrun₃, hat₃⟩ := setColorIf_spec hat₂' .black
  have hat₃' := (at_flip ⟨s, .black, v, .join s c x w (y.setColor .black)⟩).mpr
    ((at_down _ _ _ _ _).mpr ((at_flip ⟨s, c, w, y.setColor .black⟩).mpr hat₃))
  obtain ⟨root₄, h₄, hrun₄, hat₄⟩ := rotate_spec ((at_down _ _ _ _ _).mpr hat₃')
  refine ⟨root₄, h₄, ?_, hat₄⟩
  simp only [eraseOuter, hat.load_parent, ok_bind, color_cell, hrun₁, hrun₂, hat₂.load_sibling,
    child_other_cell]
  rw [show setColorIf h₂ (ptr y) .black = .ok h₃ from hrun₃, ok_bind, hrun₄]

/-- After the last rotation nothing is short of a black node. -/
lemma isRedBlack_outer (ht : t.Valid n) (hxy : x.Valid n ∧ y.Valid n) (hy : y.color = .red)
    {z : RBTree Item} (hfits : Fits (⟨s, c, v, z⟩ :: ctx) (n + 1)) :
    (plug (.join s c (.join s .black t v x) w (y.setColor .black)) ctx).IsRedBlack := by
  have hnear := (RBTree.valid_join_black s t v x n).mpr ⟨ht, hxy.1⟩
  have hfar := hxy.2.blacken hy
  rw [isRedBlack_plug_iff, RBTree.color_join]
  cases c with
  | red =>
      refine ⟨n + 1, ?_, hfits.2.2.2, fun _ => hfits.2.2.1⟩
      exact (RBTree.valid_join_red _ _ _ _ _).mpr
        ⟨⟨RBTree.color_join .., RBTree.color_setColor hy⟩, hnear, hfar⟩
  | black =>
      refine ⟨n + 2, (RBTree.valid_join_black _ _ _ _ _).mpr ⟨hnear, hfar⟩, hfits.2, ?_⟩
      intro hc
      cases hc

/-- The loop ends at a red node and at the root. -/
lemma Deficit.isRedBlack (hdef : Deficit t ctx n) (hstop : t.color = .red ∨ ctx = []) :
    (plug (t.setColor .black) ctx).IsRedBlack := by
  rw [isRedBlack_plug_iff]
  cases hc : t.color with
  | red =>
      refine ⟨n + 1, hdef.red hc, hdef.fits, ?_⟩
      rw [RBTree.color_setColor hc]
      intro hblack
      cases hblack
  | black =>
      rw [RBTree.setColor_self hc, hc]
      rcases hstop with hred | rfl
      · rw [hc] at hred
        cases hred
      · exact ⟨n, hdef.black hc, trivial, fun hred => by cases hred⟩

/-- **`rb_erase_rebalance`** repairs the tree. -/
theorem rbEraseRebalance_spec (fuel : ℕ) (hat : At h root t ctx) (hdef : Deficit t ctx n)
    (hpos : 0 < fuel) (hfuel : t.color = .red ∨ ctx.length < fuel) :
    Rebalanced (rbEraseRebalance fuel h (ptr t) (ctxPtr ctx) root) (plug t ctx).toList := by
  induction fuel generalizing h root t ctx n with
  | zero => exact absurd hpos (Nat.lt_irrefl 0)
  | succ fuel ih =>
      have hblack := blackOrNull_ptr hat.tree
      by_cases hstop : t.color = .red ∨ ctx = []
      · obtain ⟨h', hrun, hat'⟩ := setColorIf_spec hat .black
        refine ⟨root, h', _, ?_, represents_plug_iff.mpr hat',
          toList_plug_congr (RBTree.toList_setColor .black t) ctx, hdef.isRedBlack hstop⟩
        have hcond : (decide (t.color = .black) && decide (ptr t ≠ root)) = false := by
          rcases hstop with hred | rfl
          · simp [hred]
          · simp [hat.root_eq, topPtr]
        simp only [rbEraseRebalance, hblack, ok_bind, hcond, Bool.false_eq_true, if_false, hrun]
        rfl
      · rw [not_or] at hstop
        obtain ⟨hred, hne⟩ := hstop
        obtain ⟨⟨s, c, v, y⟩, ctx, rfl⟩ := List.exists_cons_of_ne_nil hne
        have hc : t.color = .black := by
          cases hc : t.color with
          | red => exact absurd hc hred
          | black => rfl
        have hvalid := hdef.black hc
        have hcond : (decide (t.color = .black) && decide (ptr t ≠ root)) = true := by
          simp [hc, hat.ptr_ne_root]
        have hside : (if (cell s c (ptr t) (ptr y) v (ctxPtr ctx)).left = ptr t then Side.left
            else .right) = s :=
          side_of_cell s c _ _ v _ .left (hat.sibling_ne (.inr hdef.fits.sibling_valid.ne_nil))
        obtain ⟨c', x', w', y', ctx', root₁, h₁, hrun₁, hat₁, hfits, hctx, hlist⟩ :=
          eraseRedSibling_spec hat hdef.fits
        by_cases hxy : x'.color = .black ∧ y'.color = .black
        · obtain ⟨h₂, hrun₂, hat₂⟩ := setColor_sibling hat₁ (RBTree.join_ne_nil _ _ _ _ _) .red
          rw [RBTree.setColor_join] at hat₂
          rw [ptr_join] at hrun₂
          obtain ⟨m, hdef'⟩ := Deficit.up hvalid hfits hxy
          have hlen : ctx.length + 1 < fuel + 1 := hfuel.resolve_left hred
          obtain ⟨root', h', T, hrun, hrep, hT, hrb⟩ := ih ((at_down _ _ _ _ _).mpr hat₂) hdef'
            (by omega) (by
              rw [RBTree.color_join]
              rcases hctx with hc' | rfl
              · exact .inl hc'
              · exact .inr (by omega))
          refine ⟨root', h', T, ?_, hrep, ?_, hrb⟩
          · rw [ptr_join] at hrun
            simp only [rbEraseRebalance, hblack, ok_bind, hcond, if_true, ctxPtr_cons,
              hat.load_parent, hside, hrun₁, bothBlack_spec hat₁, decide_eq_true hxy, hrun₂,
              hat₂.load_parent, parent_cell, hrun]
          · rw [hT, ← hlist]
            refine toList_plug_congr (RBTree.toList_join_congr s rfl ?_) ctx'
            exact RBTree.toList_join_congr s rfl rfl
        · obtain ⟨x'', w'', y'', root₂, h₂, hrun₂, hat₂, hy, hxyn, hsib⟩ := eraseInner_spec hat₁
            ((RBTree.valid_join_black _ _ _ _ _).mp hfits.sibling_valid) hxy
          obtain ⟨root₃, h₃, hrun₃, hat₃⟩ := eraseOuter_spec hat₂
          have hrb := isRedBlack_outer (w := w'') hvalid hxyn hy hfits
          obtain ⟨h₄, hrun₄, hrep₄⟩ := setColorIf_root (represents_plug_iff.mpr hat₃) .black
          rw [RBTree.setColor_self hrb.root] at hrep₄
          refine ⟨root₃, h₄, _, ?_, hrep₄, ?_, hrb⟩
          · simp only [rbEraseRebalance, hblack, ok_bind, hcond, if_true, ctxPtr_cons,
              hat.load_parent, hside, hrun₁, bothBlack_spec hat₁, decide_eq_false hxy,
              Bool.false_eq_true, if_false, hrun₂, hrun₃, hrun₄]
            rfl
          · rw [← hlist]
            refine toList_plug_congr ?_ ctx'
            refine (RBTree.toList_rotate s c' .black .black c' t x'' (y''.setColor .black) v
              w'').trans ?_
            refine RBTree.toList_join_congr s rfl (Eq.trans ?_ hsib)
            exact RBTree.toList_join_congr s rfl (RBTree.toList_setColor .black y'')

end Erasure

end ActionDB.Net.Conn
