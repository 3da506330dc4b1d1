import ActionDB.Net.Conn.RbTree

/-!
# Trees in the heap

`Represents h root t` says that the nodes of the heap `h`, from `root` on, form the tree `t`:
every child is where its parent points, every parent is where its child points, and no two nodes
share an address. The parts of such a tree are separate pieces of the heap (`Rep` for a subtree,
`RepCtx` for a context), so a program that changes pointers is followed piece by piece:

* `At h root t ctx` is `Represents h root (plug t ctx)` taken apart at a subtree;
* `setParentIf_spec` and `relink_spec` say what the two elementary changes do to a piece, and leave
  the rest of the heap alone;
* `setColor_spec`, `rotate_spec`, `unlink_spec`, `supplant_spec` and `attach_spec` are assembled
  from them: after each, the heap is again a tree.
-/

namespace ActionDB.Net.Conn

open ActionDB.Found

/-- What a node holds besides its pointers, and where it is. -/
structure Item where
  addr : ℕ
  key : Int
  data : Ptr
  deriving DecidableEq, Repr

/-! ## Cells -/

/-- The cell of a node, `x` being its child on side `s` and `y` the other. -/
def cell (s : Side) (c : Color) (x y : Ptr) (v : Item) (parent : Ptr) : RbNode :=
  match s with
  | .left => ⟨x, y, parent, v.key, v.data, c⟩
  | .right => ⟨y, x, parent, v.key, v.data, c⟩

section Cell

variable (s : Side) (c : Color) (x y : Ptr) (v : Item) (p q : Ptr)

@[simp] lemma child_cell : (cell s c x y v p).child s = x := by cases s <;> rfl

@[simp] lemma child_other_cell : (cell s c x y v p).child s.other = y := by cases s <;> rfl

@[simp] lemma left_cell : (cell .left c x y v p).left = x := rfl

@[simp] lemma right_cell : (cell .left c x y v p).right = y := rfl

@[simp] lemma parent_cell : (cell s c x y v p).parent = p := by cases s <;> rfl

@[simp] lemma color_cell : (cell s c x y v p).color = c := by cases s <;> rfl

@[simp] lemma key_cell : (cell s c x y v p).key = v.key := by cases s <;> rfl

@[simp] lemma data_cell : (cell s c x y v p).data = v.data := by cases s <;> rfl

@[simp] lemma setChild_cell : (cell s c x y v p).setChild s q = cell s c q y v p := by
  cases s <;> rfl

@[simp] lemma setChild_other_cell :
    (cell s c x y v p).setChild s.other q = cell s c x q v p := by
  cases s <;> rfl

lemma setParent_cell : { cell s c x y v p with parent := q } = cell s c x y v q := by
  cases s <;> rfl

lemma setColor_cell (c' : Color) : { cell s c x y v p with color := c' } = cell s c' x y v p := by
  cases s <;> rfl

/-- Which child a pointer is. -/
lemma side_of_cell (t : Side) (hne : y ≠ x) :
    (if (cell s c x y v p).child t = x then t else t.other) = s := by
  by_cases hts : t = s
  · subst hts
    rw [child_cell, if_pos rfl]
  · obtain rfl := Side.eq_other_of_ne hts
    rw [child_other_cell, if_neg hne, Side.other_other]

end Cell

/-! ## Pieces of the heap -/

/-- The address of the root. -/
def ptr : RBTree Item → Ptr
  | .nil => none
  | .node _ _ v _ => some v.addr

/-- The addresses of a tree. -/
def addrs (t : RBTree Item) : List ℕ := t.toList.map Item.addr

/-- The address of the parent of the hole. -/
def ctxPtr : List (Frame Item) → Ptr
  | [] => none
  | f :: _ => some f.val.addr

/-- The address of the root of the whole tree when `p` is in the hole. -/
def topPtr (p : Ptr) : List (Frame Item) → Ptr
  | [] => p
  | f :: ctx => topPtr (some f.val.addr) ctx

/-- The addresses of a context. -/
def ctxAddrs : List (Frame Item) → List ℕ
  | [] => []
  | f :: ctx => f.val.addr :: addrs f.sibling ++ ctxAddrs ctx

/-- The subtree `t`, under `parent`, is in the heap. -/
def Rep (h : RbHeap) (parent : Ptr) : RBTree Item → Prop
  | .nil => True
  | .node c l v r => h.lookup v.addr = some (cell .left c (ptr l) (ptr r) v parent) ∧
      Rep h (some v.addr) l ∧ Rep h (some v.addr) r

/-- The context `ctx`, with `p` in its hole, is in the heap. -/
def RepCtx (h : RbHeap) (p : Ptr) : List (Frame Item) → Prop
  | [] => True
  | f :: ctx =>
      h.lookup f.val.addr = some (cell f.side f.color p (ptr f.sibling) f.val (ctxPtr ctx)) ∧
        Rep h (some f.val.addr) f.sibling ∧ RepCtx h (some f.val.addr) ctx

/-- **The heap holds the tree `t`** from `root` on. -/
structure Represents (h : RbHeap) (root : Ptr) (t : RBTree Item) : Prop where
  root_eq : root = ptr t
  rep : Rep h none t
  nodup : (addrs t).Nodup

section Pieces

variable {h h' : RbHeap}

lemma ctxPtr_cons (f : Frame Item) (ctx : List (Frame Item)) :
    ctxPtr (f :: ctx) = some f.val.addr := rfl

@[simp] lemma ptr_join (s : Side) (c : Color) (x : RBTree Item) (v : Item) (y : RBTree Item) :
    ptr (.join s c x v y) = some v.addr := by cases s <;> rfl

/-- The addresses of a node and its subtrees, the node first. -/
lemma addrs_join_perm (s : Side) (c : Color) (x : RBTree Item) (v : Item) (y : RBTree Item) :
    (addrs (.join s c x v y)).Perm (v.addr :: (addrs x ++ addrs y)) := by
  cases s with
  | left =>
      simp only [addrs, RBTree.join, RBTree.toList, List.map_append, List.map_cons]
      exact List.perm_middle
  | right =>
      simp only [addrs, RBTree.join, RBTree.toList, List.map_append, List.map_cons]
      exact List.perm_middle.trans (List.perm_append_comm.cons _)

@[simp] lemma addrs_nil : addrs .nil = [] := rfl

lemma mem_addrs_join {s : Side} {c : Color} {x : RBTree Item} {v : Item} {y : RBTree Item} {a : ℕ} :
    a ∈ addrs (.join s c x v y) ↔ a = v.addr ∨ a ∈ addrs x ∨ a ∈ addrs y := by
  rw [(addrs_join_perm s c x v y).mem_iff, List.mem_cons, List.mem_append]

lemma rep_join (h : RbHeap) (p : Ptr) (s : Side) (c : Color) (x : RBTree Item) (v : Item)
    (y : RBTree Item) :
    Rep h p (.join s c x v y) ↔ h.lookup v.addr = some (cell s c (ptr x) (ptr y) v p) ∧
      Rep h (some v.addr) x ∧ Rep h (some v.addr) y := by
  cases s with
  | left => rfl
  | right =>
      rw [show Rep h p (.join .right c x v y) ↔ Rep h p (.node c y v x) from Iff.rfl, Rep,
        and_comm (a := Rep h _ y)]
      rfl

lemma ptr_mem_addrs {t : RBTree Item} {a : ℕ} (ht : ptr t = some a) : a ∈ addrs t := by
  cases t with
  | nil => cases ht
  | node c l v r =>
      obtain rfl := Option.some.inj ht
      simp [addrs, RBTree.toList]

lemma ptr_eq_none {t : RBTree Item} : ptr t = none ↔ t = .nil := by
  cases t <;> simp [ptr]

/-- A piece depends on its own cells only. -/
lemma Rep.congr {p : Ptr} {t : RBTree Item} (ht : Rep h p t)
    (heq : ∀ a ∈ addrs t, h'.lookup a = h.lookup a) : Rep h' p t := by
  induction t generalizing p with
  | nil => trivial
  | node c l v r ihl ihr =>
      have hmem : ∀ a, a ∈ addrs (.node c l v r) ↔ a = v.addr ∨ a ∈ addrs l ∨ a ∈ addrs r :=
        fun a => mem_addrs_join (s := .left)
      obtain ⟨hv, hl, hr⟩ := ht
      refine ⟨?_, ihl hl fun a ha => heq a ((hmem a).mpr (.inr (.inl ha))),
        ihr hr fun a ha => heq a ((hmem a).mpr (.inr (.inr ha)))⟩
      rw [heq v.addr ((hmem _).mpr (.inl rfl)), hv]

lemma RepCtx.congr {p : Ptr} {ctx : List (Frame Item)} (hc : RepCtx h p ctx)
    (heq : ∀ a ∈ ctxAddrs ctx, h'.lookup a = h.lookup a) : RepCtx h' p ctx := by
  induction ctx generalizing p with
  | nil => trivial
  | cons f ctx ih =>
      obtain ⟨hf, hs, hc⟩ := hc
      refine ⟨?_, hs.congr fun a ha => heq a (by simp [ctxAddrs, ha]),
        ih hc fun a ha => heq a (by simp [ctxAddrs, ha])⟩
      rw [heq f.val.addr (by simp [ctxAddrs]), hf]

/-- The heap determines the tree. -/
lemma Rep.unique {p p' : Ptr} {t t' : RBTree Item} (ht : Rep h p t) (ht' : Rep h p' t')
    (hptr : ptr t = ptr t') : t = t' := by
  induction t generalizing t' p p' with
  | nil => exact (ptr_eq_none.mp hptr.symm).symm
  | node c l v r ihl ihr =>
      cases t' with
      | nil => cases hptr
      | node c' l' v' r' =>
          obtain ⟨hv, hl, hr⟩ := ht
          obtain ⟨hv', hl', hr'⟩ := ht'
          have haddr : v.addr = v'.addr := Option.some.inj hptr
          rw [← haddr, hv] at hv'
          have hcell := Option.some.inj hv'
          simp only [cell, RbNode.mk.injEq] at hcell
          obtain ⟨hpl, hpr, -, hkey, hdata, rfl⟩ := hcell
          obtain rfl : v = v' := by
            cases v
            cases v'
            simp_all
          rw [ihl hl hl' hpl, ihr hr hr' hpr]

lemma Rep.lookup_ne_none {p : Ptr} {t : RBTree Item} (ht : Rep h p t) :
    ∀ a ∈ addrs t, h.lookup a ≠ none := by
  induction t generalizing p with
  | nil => simp [addrs, RBTree.toList]
  | node c l v r ihl ihr =>
      obtain ⟨hv, hl, hr⟩ := ht
      intro a ha
      rcases (mem_addrs_join (s := .left)).mp ha with rfl | ha | ha
      · simp [hv]
      · exact ihl hl a ha
      · exact ihr hr a ha

end Pieces

lemma Represents.unique {h : RbHeap} {root : Ptr} {t t' : RBTree Item} (ht : Represents h root t)
    (ht' : Represents h root t') : t = t' :=
  ht.rep.unique ht'.rep (ht.root_eq.symm.trans ht'.root_eq)

/-! ## A tree taken apart at a subtree -/

/-- The heap holds the tree `plug t ctx`. -/
structure At (h : RbHeap) (root : Ptr) (t : RBTree Item) (ctx : List (Frame Item)) : Prop where
  root_eq : root = topPtr (ptr t) ctx
  tree : Rep h (ctxPtr ctx) t
  around : RepCtx h (ptr t) ctx
  nodup : (addrs t ++ ctxAddrs ctx).Nodup

section At

variable {h h' : RbHeap} {root : Ptr} {t : RBTree Item} {ctx : List (Frame Item)}

lemma addrs_plug_perm (t : RBTree Item) (ctx : List (Frame Item)) :
    (addrs (plug t ctx)).Perm (addrs t ++ ctxAddrs ctx) := by
  induction ctx generalizing t with
  | nil => simp [plug, ctxAddrs]
  | cons f ctx ih =>
      refine (ih _).trans (((addrs_join_perm _ _ _ _ _).append_right _).trans ?_)
      simp only [ctxAddrs, List.cons_append, List.append_assoc]
      exact List.perm_middle.symm

/-- Going down one step. -/
lemma at_down (s : Side) (c : Color) (x : RBTree Item) (v : Item) (y : RBTree Item) :
    At h root (.join s c x v y) ctx ↔ At h root x (⟨s, c, v, y⟩ :: ctx) := by
  have hperm : (addrs (.join s c x v y) ++ ctxAddrs ctx).Perm
      (addrs x ++ ctxAddrs (⟨s, c, v, y⟩ :: ctx)) := by
    apply ((addrs_join_perm _ _ _ _ _).append_right _).trans
    simp only [ctxAddrs, List.cons_append, List.append_assoc]
    exact List.perm_middle.symm
  constructor
  · rintro ⟨hroot, htree, hctx, hnd⟩
    rw [rep_join] at htree
    rw [ptr_join] at hroot hctx
    exact ⟨hroot, htree.2.1, ⟨htree.1, htree.2.2, hctx⟩, hperm.nodup_iff.mp hnd⟩
  · rintro ⟨hroot, htree, ⟨hv, hy, hctx⟩, hnd⟩
    refine ⟨?_, (rep_join _ _ _ _ _ _ _).mpr ⟨hv, htree, hy⟩, ?_, hperm.nodup_iff.mpr hnd⟩
    · rw [ptr_join]
      exact hroot
    · rw [ptr_join]
      exact hctx

/-- The root of a tree with a context is in the context. -/
lemma exists_topPtr (p : Ptr) (f : Frame Item) (ctx : List (Frame Item)) :
    ∃ a ∈ ctxAddrs (f :: ctx), topPtr p (f :: ctx) = some a := by
  induction ctx generalizing p f with
  | nil => exact ⟨f.val.addr, by simp [ctxAddrs], rfl⟩
  | cons g ctx ih =>
      obtain ⟨a, ha, htop⟩ := ih (some f.val.addr) g
      refine ⟨a, ?_, htop⟩
      unfold ctxAddrs
      exact List.mem_append_right _ ha

/-- Below the root, a subtree is not the whole tree. -/
lemma At.ptr_ne_root {f : Frame Item} (hat : At h root t (f :: ctx)) : ptr t ≠ root := by
  intro heq
  obtain ⟨a, ha, htop⟩ := exists_topPtr (ptr t) f ctx
  rw [hat.root_eq, htop] at heq
  exact (List.nodup_append.mp hat.nodup).2.2 a (ptr_mem_addrs heq) a ha rfl

/-- **A tree can be taken apart anywhere.** -/
theorem represents_plug_iff : Represents h root (plug t ctx) ↔ At h root t ctx := by
  induction ctx generalizing t with
  | nil =>
      constructor
      · rintro ⟨hroot, hrep, hnd⟩
        exact ⟨hroot, hrep, trivial, by simpa [ctxAddrs, plug] using hnd⟩
      · rintro ⟨hroot, hrep, -, hnd⟩
        exact ⟨hroot, hrep, by simpa [ctxAddrs, plug] using hnd⟩
  | cons f ctx ih => exact ih.trans (at_down _ _ _ _ _)

lemma represents_iff_at : Represents h root t ↔ At h root t [] := by
  rw [← represents_plug_iff, plug]

/-- Going over to the sibling. -/
lemma at_flip (f : Frame Item) :
    At h root t (f :: ctx) ↔ At h root f.sibling (f.flip t :: ctx) := by
  rw [← represents_plug_iff, ← represents_plug_iff, plug_flip]

/-- The cell of the node at the focus. -/
lemma At.lookup {s : Side} {c : Color} {x : RBTree Item} {v : Item} {y : RBTree Item}
    (hat : At h root (.join s c x v y) ctx) :
    h.lookup v.addr = some (cell s c (ptr x) (ptr y) v (ctxPtr ctx)) :=
  ((rep_join _ _ _ _ _ _ _).mp hat.tree).1

/-- The nodes are allocated. -/
lemma At.lookup_ne_none (hat : At h root t ctx) :
    ∀ a ∈ addrs t ++ ctxAddrs ctx, h.lookup a ≠ none := by
  intro a ha
  exact (represents_plug_iff.mpr hat).rep.lookup_ne_none a ((addrs_plug_perm t ctx).mem_iff.mpr ha)

/-- The tree depends on its own cells only. -/
lemma At.congr (hat : At h root t ctx)
    (heq : ∀ a ∈ addrs t ++ ctxAddrs ctx, h'.lookup a = h.lookup a) : At h' root t ctx :=
  ⟨hat.root_eq, hat.tree.congr fun a ha => heq a (List.mem_append_left _ ha),
    hat.around.congr fun a ha => heq a (List.mem_append_right _ ha), hat.nodup⟩

lemma At.load {s : Side} {c : Color} {x : RBTree Item} {v : Item} {y : RBTree Item}
    (hat : At h root (.join s c x v y) ctx) :
    Heap.load h (some v.addr) = .ok (cell s c (ptr x) (ptr y) v (ctxPtr ctx)) :=
  Heap.load_of_lookup hat.lookup

end At

/-! ## Elementary changes -/

section Changes

variable {h : RbHeap}

/-- Give a subtree another parent. -/
lemma setParentIf_spec {p : Ptr} {t : RBTree Item} (ht : Rep h p t) (hnd : (addrs t).Nodup)
    (q : Ptr) :
    ∃ h', setParentIf h (ptr t) q = .ok h' ∧ Rep h' q t ∧ Heap.EqOff (addrs t) h h' := by
  cases t with
  | nil => exact ⟨h, rfl, trivial, Heap.EqOff.refl _ _⟩
  | node c l v r =>
      obtain ⟨hv, hl, hr⟩ := ht
      have hnd' := (addrs_join_perm .left c l v r).nodup_iff.mp hnd
      rw [List.nodup_cons, List.mem_append, not_or] at hnd'
      obtain ⟨⟨hvl, hvr⟩, -⟩ := hnd'
      have hne : ∀ a ∈ addrs l ++ addrs r, a ≠ v.addr := by
        rintro a ha rfl
        rcases List.mem_append.mp ha with ha | ha
        · exact hvl ha
        · exact hvr ha
      refine ⟨h.insert v.addr (cell .left c (ptr l) (ptr r) v q), ?_, ⟨?_, ?_, ?_⟩, ?_⟩
      · unfold setParentIf
        rw [if_neg (by simp [ptr]), ptr, Heap.modify_of_lookup hv, setParent_cell]
      · exact Finmap.lookup_insert _
      · exact hl.congr fun a ha =>
          Finmap.lookup_insert_of_ne _ (hne a (List.mem_append_left _ ha))
      · exact hr.congr fun a ha =>
          Finmap.lookup_insert_of_ne _ (hne a (List.mem_append_right _ ha))
      · exact (Heap.eqOff_insert h v.addr _).mono fun b hb => by
          rw [List.mem_singleton.mp hb]
          exact ptr_mem_addrs rfl

/-- Put another pointer into the hole of a context. -/
lemma setHole_spec {p : Ptr} {f : Frame Item} {ctx : List (Frame Item)}
    (hc : RepCtx h p (f :: ctx)) (hnd : (ctxAddrs (f :: ctx)).Nodup) (q : Ptr) :
    ∃ h', Heap.modify h (some f.val.addr) (·.setChild f.side q) = .ok h' ∧
      RepCtx h' q (f :: ctx) ∧ Heap.EqOff (ctxAddrs (f :: ctx)) h h' := by
  obtain ⟨hf, hs, hc⟩ := hc
  simp only [ctxAddrs, List.cons_append, List.nodup_cons, List.mem_append, not_or] at hnd
  obtain ⟨⟨hfs, hfc⟩, -⟩ := hnd
  refine ⟨h.insert f.val.addr (cell f.side f.color q (ptr f.sibling) f.val (ctxPtr ctx)), ?_,
    ⟨?_, ?_, ?_⟩, ?_⟩
  · rw [Heap.modify_of_lookup hf, setChild_cell]
  · exact Finmap.lookup_insert _
  · refine hs.congr fun b hb => Finmap.lookup_insert_of_ne _ ?_
    rintro rfl
    exact hfs hb
  · refine hc.congr fun b hb => Finmap.lookup_insert_of_ne _ ?_
    rintro rfl
    exact hfc hb
  · exact (Heap.eqOff_insert h f.val.addr _).mono fun b hb => by
      rw [List.mem_singleton.mp hb]
      simp [ctxAddrs]

/-- Put another pointer in the place of a node, wherever the node is. -/
lemma relink_spec {a : ℕ} {ctx : List (Frame Item)} (hc : RepCtx h (some a) ctx)
    (hnd : (ctxAddrs ctx).Nodup) (ha : a ∉ ctxAddrs ctx) (s : Side) (q : Ptr) :
    ∃ h', relink s h (ctxPtr ctx) (some a) q (topPtr (some a) ctx) = .ok (topPtr q ctx, h') ∧
      RepCtx h' q ctx ∧ Heap.EqOff (ctxAddrs ctx) h h' := by
  cases ctx with
  | nil => exact ⟨h, rfl, trivial, Heap.EqOff.refl _ _⟩
  | cons f ctx =>
      have has : ptr f.sibling ≠ some a := by
        intro hp
        exact ha (by simp [ctxAddrs, ptr_mem_addrs hp])
      obtain ⟨h', hrun, hc', hoff⟩ := setHole_spec hc hnd q
      refine ⟨h', ?_, hc', hoff⟩
      unfold relink
      rw [if_neg (by simp [ctxPtr]), ctxPtr, Heap.load_of_lookup hc.1, ok_bind]
      -- the test finds the side on which the node is
      simp only [side_of_cell _ _ _ _ _ _ s has, hrun, ok_bind]
      rfl

end Changes

/-! ## Changes of a tree -/

section Operations

variable {h : RbHeap} {root : Ptr} {ctx : List (Frame Item)} {s : Side} {c c' : Color}
  {x y z : RBTree Item} {v w : Item}

/-- The addresses of a node, its subtrees and its context are all different. -/
lemma At.nodup_join (hat : At h root (.join s c x v y) ctx) :
    (v.addr :: (addrs x ++ (addrs y ++ ctxAddrs ctx))).Nodup := by
  have := ((addrs_join_perm s c x v y).append_right (ctxAddrs ctx)).nodup_iff.mp hat.nodup
  simpa only [List.cons_append, List.append_assoc] using this

/-- **Recolouring a node.** -/
theorem setColor_spec (hat : At h root (.join s c x v y) ctx) (c' : Color) :
    ∃ h', setColor h (some v.addr) c' = .ok h' ∧ At h' root (.join s c' x v y) ctx := by
  have hnd := hat.nodup_join
  obtain ⟨hroot, htree, hctx, hnd₀⟩ := hat
  rw [rep_join] at htree
  obtain ⟨hv, hx, hy⟩ := htree
  rw [List.nodup_cons, List.mem_append, List.mem_append, not_or, not_or] at hnd
  obtain ⟨⟨hvx, hvy, hvc⟩, -⟩ := hnd
  have hoff := Heap.eqOff_insert h v.addr (cell s c' (ptr x) (ptr y) v (ctxPtr ctx))
  have hstay : ∀ a, a ≠ v.addr →
      (h.insert v.addr (cell s c' (ptr x) (ptr y) v (ctxPtr ctx))).lookup a = h.lookup a :=
    fun a ha => hoff a (by simpa using ha)
  refine ⟨h.insert v.addr (cell s c' (ptr x) (ptr y) v (ctxPtr ctx)), ?_, ?_, ?_, ?_, ?_⟩
  · unfold setColor
    rw [Heap.modify_of_lookup hv, setColor_cell]
  · rw [ptr_join] at hroot ⊢
    exact hroot
  · rw [rep_join]
    refine ⟨Finmap.lookup_insert _, hx.congr fun a ha => hstay a ?_,
      hy.congr fun a ha => hstay a ?_⟩
    · rintro rfl
      exact hvx ha
    · rintro rfl
      exact hvy ha
  · rw [ptr_join] at hctx ⊢
    refine hctx.congr fun a ha => hstay a ?_
    rintro rfl
    exact hvc ha
  · exact (((addrs_join_perm s c x v y).trans (addrs_join_perm s c' x v y).symm).append_right
      _).nodup_iff.mp hnd₀

/-- The addresses of two nodes, one above the other, and what is around them. -/
lemma addrs_two_perm (s s' : Side) (c c' : Color) (x y z : RBTree Item) (v w : Item) :
    (addrs (.join s c x v (.join s' c' y w z))).Perm
      (v.addr :: w.addr :: (addrs x ++ (addrs y ++ addrs z))) := by
  refine (addrs_join_perm _ _ _ _ _).trans (List.Perm.cons _ ?_)
  exact ((addrs_join_perm _ _ _ _ _).append_left _).trans List.perm_middle

/-- **Rotating a node** down to side `s`: its child on the other side takes its place. -/
theorem rotate_spec (hat : At h root (.join s c x v (.join s c' y w z)) ctx) :
    ∃ root' h', rotate s h (some v.addr) root = .ok (root', h') ∧
      At h' root' (.join s c' (.join s c x v y) w z) ctx := by
  obtain ⟨hroot, htree, hctx, hnd₀⟩ := hat
  rw [rep_join, rep_join] at htree
  obtain ⟨hv, hx, hw, hy, hz⟩ := htree
  rw [ptr_join] at hroot hctx hv
  have hnd := ((addrs_two_perm s s c c' x y z v w).append_right (ctxAddrs ctx)).nodup_iff.mp hnd₀
  simp only [List.cons_append, List.append_assoc, List.nodup_cons, List.mem_cons, List.mem_append,
    not_or, List.nodup_append] at hnd
  obtain ⟨⟨hvw, hvx, hvy, hvz, hvc⟩, ⟨hwx, hwy, hwz, hwc⟩, -,
    ⟨hndy, ⟨-, hndc, hzc⟩, hyzc⟩, hxyzc⟩ := hnd
  -- the inner subtree goes over to `v`
  set h₁ := h.insert v.addr (cell s c (ptr x) (ptr y) v (ctxPtr ctx)) with hh₁
  have hoff₁ : ∀ a, a ≠ v.addr → h₁.lookup a = h.lookup a :=
    fun a ha => Finmap.lookup_insert_of_ne _ ha
  obtain ⟨h₂, hrun₂, hy₂, hoff₂⟩ := setParentIf_spec
    (hy.congr fun a ha => hoff₁ a (by rintro rfl; exact hvy ha)) hndy (some v.addr)
  have hw₂ : h₂.lookup w.addr = some (cell s c' (ptr y) (ptr z) w (some v.addr)) := by
    rw [hoff₂ _ hwy, hoff₁ _ (Ne.symm hvw), hw]
  -- `w` takes the place of `v`
  set h₃ := h₂.insert w.addr (cell s c' (some v.addr) (ptr z) w (some v.addr)) with hh₃
  have hw₃ : h₃.lookup w.addr = some (cell s c' (some v.addr) (ptr z) w (some v.addr)) :=
    Finmap.lookup_insert _
  have hv₃ : h₃.lookup v.addr = some (cell s c (ptr x) (ptr y) v (ctxPtr ctx)) := by
    rw [hh₃, Finmap.lookup_insert_of_ne _ hvw, hoff₂ _ hvy, hh₁, Finmap.lookup_insert]
  set h₄ := h₃.insert w.addr (cell s c' (some v.addr) (ptr z) w (ctxPtr ctx)) with hh₄
  have hoff₄ : ∀ a, a ≠ v.addr → a ≠ w.addr → a ∉ addrs y → h₄.lookup a = h.lookup a := by
    intro a hav haw hay
    rw [hh₄, Finmap.lookup_insert_of_ne _ haw, hh₃, Finmap.lookup_insert_of_ne _ haw, hoff₂ _ hay,
      hoff₁ _ hav]
  obtain ⟨h₅, hrun₅, hctx₅, hoff₅⟩ := relink_spec
    (hctx.congr fun a ha => hoff₄ a (by rintro rfl; exact hvc ha) (by rintro rfl; exact hwc ha)
      (fun hay => hyzc a hay a (.inr ha) rfl)) hndc hvc .right (some w.addr)
  have hv₅ : h₅.lookup v.addr = some (cell s c (ptr x) (ptr y) v (ctxPtr ctx)) := by
    rw [hoff₅ _ hvc, hh₄, Finmap.lookup_insert_of_ne _ hvw, hv₃]
  set h₆ := h₅.insert v.addr (cell s c (ptr x) (ptr y) v (some w.addr)) with hh₆
  have hoff₆ : ∀ a, a ≠ v.addr → h₆.lookup a = h₅.lookup a :=
    fun a ha => Finmap.lookup_insert_of_ne _ ha
  refine ⟨topPtr (some w.addr) ctx, h₆, ?_, ?_, ?_, ?_, ?_⟩
  · have hrun₁ : Heap.modify h (some v.addr) (·.setChild s.other (ptr y)) = .ok h₁ := by
      rw [Heap.modify_of_lookup hv, setChild_other_cell]
    have hrun₃ : Heap.modify h₂ (some w.addr) (·.setChild s (some v.addr)) = .ok h₃ := by
      rw [Heap.modify_of_lookup hw₂, setChild_cell]
    have hrun₄ : Heap.modify h₃ (some w.addr) (fun n => { n with parent := ctxPtr ctx }) =
        .ok h₄ := by
      rw [Heap.modify_of_lookup hw₃, setParent_cell]
    have hrun₆ : Heap.modify h₅ (some v.addr) (fun n => { n with parent := some w.addr }) =
        .ok h₆ := by
      rw [Heap.modify_of_lookup hv₅, setParent_cell]
    simp only [rotate, Heap.load_of_lookup hv, ok_bind, child_other_cell, Heap.load_of_lookup hw,
      child_cell, hrun₁, hrun₂, hrun₃, Heap.load_of_lookup hv₃, parent_cell, hrun₄, hroot, hrun₅,
      hrun₆]
    rfl
  · rw [ptr_join]
  · rw [rep_join, rep_join, ptr_join]
    refine ⟨?_, ⟨Finmap.lookup_insert _, hx.congr ?_, hy₂.congr ?_⟩, hz.congr ?_⟩
    · rw [hoff₆ _ (Ne.symm hvw), hoff₅ _ hwc, hh₄, Finmap.lookup_insert]
    · intro a ha
      have hav : a ≠ v.addr := by rintro rfl; exact hvx ha
      have haw : a ≠ w.addr := by rintro rfl; exact hwx ha
      rw [hoff₆ a hav, hoff₅ a fun hc => hxyzc a ha a (.inr (.inr hc)) rfl,
        hoff₄ a hav haw fun hay => hxyzc a ha a (.inl hay) rfl]
    · intro a ha
      have hav : a ≠ v.addr := by rintro rfl; exact hvy ha
      have haw : a ≠ w.addr := by rintro rfl; exact hwy ha
      rw [hoff₆ a hav, hoff₅ a fun hc => hyzc a ha a (.inr hc) rfl, hh₄,
        Finmap.lookup_insert_of_ne _ haw, hh₃, Finmap.lookup_insert_of_ne _ haw]
    · intro a ha
      have hav : a ≠ v.addr := by rintro rfl; exact hvz ha
      have haw : a ≠ w.addr := by rintro rfl; exact hwz ha
      rw [hoff₆ a hav, hoff₅ a fun hc => hzc a ha a hc rfl,
        hoff₄ a hav haw fun hay => hyzc a hay a (.inl ha) rfl]
  · rw [ptr_join]
    exact hctx₅.congr fun a ha => hoff₆ a (by rintro rfl; exact hvc ha)
  · have haddrs : addrs (.join s c' (.join s c x v y) w z) =
        addrs (.join s c x v (.join s c' y w z)) :=
      congrArg (List.map Item.addr) (RBTree.toList_rotate s c c' c c' x y z v w)
    rw [haddrs]
    exact hnd₀

/-- **Taking out a node** that has at most one child. Its own cell stays as it was. -/
theorem unlink_spec (hat : At h root (.join s c x v .nil) ctx) :
    ∃ root' h', unlink h (some v.addr) (ptr x) (ctxPtr ctx) root = .ok (root', h') ∧
      At h' root' x ctx ∧ h'.lookup v.addr = h.lookup v.addr := by
  have hnd := hat.nodup_join
  obtain ⟨hroot, htree, hctx, -⟩ := hat
  rw [rep_join] at htree
  obtain ⟨-, hx, -⟩ := htree
  rw [ptr_join] at hroot hctx
  simp only [addrs_nil, List.nil_append, List.nodup_cons, List.mem_append, not_or] at hnd
  obtain ⟨⟨hvx, hvc⟩, hndxc⟩ := hnd
  obtain ⟨hndx, hndc, hxc⟩ := List.nodup_append.mp hndxc
  obtain ⟨h₁, hrun₁, hx₁, hoff₁⟩ := setParentIf_spec hx hndx (ctxPtr ctx)
  obtain ⟨h₂, hrun₂, hctx₂, hoff₂⟩ := relink_spec
    (hctx.congr fun a ha => hoff₁ a fun hax => hxc a hax a ha rfl) hndc hvc .left (ptr x)
  refine ⟨topPtr (ptr x) ctx, h₂, ?_, ⟨rfl, ?_, hctx₂, hndxc⟩, ?_⟩
  · unfold unlink
    rw [hrun₁, ok_bind, hroot, hrun₂]
  · exact hx₁.congr fun a ha => hoff₂ a fun hac => hxc a ha a hac rfl
  · rw [hoff₂ _ hvc, hoff₁ _ hvx]

/-- **Putting a node in the place of another**, which has a left child. The cell of the old node
stays as it was. -/
theorem supplant_spec {n : RbNode} (hat : At h root (.join .left c x v y) ctx) (hxnil : x ≠ .nil)
    (hw : h.lookup w.addr = some n) (hkey : n.key = w.key) (hdata : n.data = w.data)
    (hfresh : w.addr ∉ addrs (.join .left c x v y) ++ ctxAddrs ctx) :
    ∃ root' h', supplant h (some v.addr) (some w.addr) root = .ok (root', h') ∧
      At h' root' (.join .left c x w y) ctx ∧ h'.lookup v.addr = h.lookup v.addr := by
  have hnd := hat.nodup_join
  obtain ⟨hroot, htree, hctx, -⟩ := hat
  rw [rep_join] at htree
  obtain ⟨hv, hx, hy⟩ := htree
  rw [ptr_join] at hroot hctx
  rw [List.nodup_cons, List.mem_append, List.mem_append, not_or, not_or] at hnd
  obtain ⟨⟨hvx, hvy, hvc⟩, hndxyc⟩ := hnd
  obtain ⟨hndx, hndyc, hxyc⟩ := List.nodup_append.mp hndxyc
  obtain ⟨hndy, hndc, hyc⟩ := List.nodup_append.mp hndyc
  rw [List.mem_append, mem_addrs_join, not_or, not_or, not_or] at hfresh
  obtain ⟨⟨hwv, hwx, hwy⟩, hwc⟩ := hfresh
  -- the new node takes over the pointers and the colour of the old one
  set h₁ := h.insert w.addr (cell .left c (ptr x) (ptr y) w (ctxPtr ctx)) with hh₁
  have hoff₁ : ∀ a, a ≠ w.addr → h₁.lookup a = h.lookup a :=
    fun a ha => Finmap.lookup_insert_of_ne _ ha
  obtain ⟨h₂, hrun₂, hctx₂, hoff₂⟩ := relink_spec
    (hctx.congr fun a ha => hoff₁ a (by rintro rfl; exact hwc ha)) hndc hvc .left (some w.addr)
  have hv₂ : h₂.lookup v.addr = some (cell .left c (ptr x) (ptr y) v (ctxPtr ctx)) := by
    rw [hoff₂ _ hvc, hoff₁ _ (Ne.symm hwv), hv]
  -- its children get it as their parent
  have hoffc : ∀ a, a ≠ w.addr → a ∉ ctxAddrs ctx → h₂.lookup a = h.lookup a := by
    intro a haw hac
    rw [hoff₂ a hac, hoff₁ a haw]
  obtain ⟨h₃, hrun₃, hx₃, hoff₃⟩ := setParentIf_spec
    (hx.congr fun a ha => hoffc a (by rintro rfl; exact hwx ha)
      fun hac => hxyc a ha a (List.mem_append_right _ hac) rfl) hndx (some w.addr)
  have hv₃ : h₃.lookup v.addr = some (cell .left c (ptr x) (ptr y) v (ctxPtr ctx)) := by
    rw [hoff₃ _ hvx, hv₂]
  have hdisj : ∀ a ∈ addrs y, a ∉ addrs x := fun a hay hax =>
    hxyc a hax a (List.mem_append_left _ hay) rfl
  obtain ⟨h₄, hrun₄, hy₄, hoff₄⟩ := setParentIf_spec
    ((hy.congr fun a ha => hoffc a (by rintro rfl; exact hwy ha)
      fun hac => hyc a ha a hac rfl).congr fun a ha => hoff₃ a (hdisj a ha)) hndy (some w.addr)
  refine ⟨topPtr (some w.addr) ctx, h₄, ?_, ⟨rfl, ?_, ?_, ?_⟩, ?_⟩
  · have hrun₁ : Heap.modify h (some w.addr) (fun n =>
        { n with parent := ctxPtr ctx, color := c, right := ptr y, left := ptr x }) = .ok h₁ := by
      rw [Heap.modify_of_lookup hw, hh₁, hkey, hdata]
      rfl
    have hrun₃' : Heap.modify h₂ (ptr x) (fun n => { n with parent := some w.addr }) = .ok h₃ := by
      unfold setParentIf at hrun₃
      rw [if_neg fun hp => hxnil (ptr_eq_none.mp hp)] at hrun₃
      exact hrun₃
    simp only [supplant, Heap.load_of_lookup hv, ok_bind, parent_cell, color_cell, left_cell,
      right_cell, hrun₁, hroot, hrun₂, Heap.load_of_lookup hv₂, hrun₃', Heap.load_of_lookup hv₃,
      hrun₄]
    rfl
  · rw [rep_join]
    refine ⟨?_, hx₃.congr fun a ha => hoff₄ a fun hay => hdisj a hay ha, hy₄⟩
    rw [hoff₄ _ hwy, hoff₃ _ hwx, hoff₂ _ hwc, hh₁, Finmap.lookup_insert]
  · rw [ptr_join]
    exact hctx₂.congr fun a ha => by
      rw [hoff₄ a fun hay => hyc a hay a ha rfl,
        hoff₃ a fun hax => hxyc a hax a (List.mem_append_right _ ha) rfl]
  · apply ((addrs_join_perm .left c x w y).append_right _).nodup_iff.mpr
    rw [List.cons_append, List.append_assoc, List.nodup_cons, List.mem_append, List.mem_append]
    exact ⟨not_or.mpr ⟨hwx, not_or.mpr ⟨hwy, hwc⟩⟩, hndxyc⟩
  · rw [hoff₄ _ hvy, hv₃, hv]

/-- **Adding a leaf** under the parent of an empty subtree. -/
theorem attach_spec {f : Frame Item} (hat : At h root .nil (f :: ctx))
    (hfresh : h.lookup v.addr = none) :
    ∃ h', Heap.modify (h.insert v.addr (cell .left c none none v (some f.val.addr)))
        (some f.val.addr) (·.setChild f.side (some v.addr)) = .ok h' ∧
      At h' root (.join .left c .nil v .nil) (f :: ctx) := by
  have hv : v.addr ∉ ctxAddrs (f :: ctx) := by
    intro hmem
    exact hat.lookup_ne_none _ (List.mem_append_right _ hmem) hfresh
  obtain ⟨hroot, -, hctx, hnd⟩ := hat
  obtain ⟨h', hrun, hctx', hoff⟩ := setHole_spec
    (hctx.congr fun a ha => Heap.eqOff_insert h v.addr
      (cell .left c none none v (some f.val.addr)) a
        (by rw [List.mem_singleton]; rintro rfl; exact hv ha)) hnd (some v.addr)
  refine ⟨h', hrun, hroot, ?_, hctx', ?_⟩
  · refine (rep_join _ _ _ _ _ _ _).mpr ⟨?_, trivial, trivial⟩
    rw [hoff _ hv, Finmap.lookup_insert]
    rfl
  · exact List.nodup_cons.mpr ⟨hv, hnd⟩

end Operations

end ActionDB.Net.Conn
