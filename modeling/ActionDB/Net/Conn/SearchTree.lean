import ActionDB.Net.Conn.Rebalance

/-!
# The tree as a sorted list

What the functions of `net/rbtree.c` do, said on the values of the tree in order. `Holds h root l`
is the state between calls: from `root` on, the heap holds a red-black tree with the values `l`,
sorted by key. `rb_search` finds the value with a key, `rb_insert` puts a value in its place and
`rb_erase` takes one out (`rbSearch_spec`, `rbInsert_spec`, `rbErase_spec`), and none of them
faults.

**Keys.** The search compares by the sign of `node->key - key`, an `int` that can overflow. For two
keys that are not negative it cannot; and a difference that overflows is never zero, so a search
for *any* `int` in a tree whose keys are not negative ends well, and finds a node exactly when the
key is there.
-/

namespace ActionDB.Net.Conn

open ActionDB.Found

/-- The values of `int`. -/
def IsInt (x : Int) : Prop := -2 ^ 31 ≤ x ∧ x < 2 ^ 31

/-- The descriptors: the values of `int` that are not negative. -/
def IsFd (x : Int) : Prop := 0 ≤ x ∧ x < 2 ^ 31

lemma IsFd.isInt {x : Int} (h : IsFd x) : IsInt x := ⟨by have := h.1; omega, h.2⟩

lemma wrap32_sub {x y : Int} (hx : IsFd x) (hy : IsFd y) : wrap32 (x - y) = x - y := by
  obtain ⟨hx₀, hx₁⟩ := hx
  obtain ⟨hy₀, hy₁⟩ := hy
  exact Int.bmod_eq_of_le (by omega) (by omega)

lemma wrap32_sub_eq_zero {x y : Int} (hx : IsFd x) (hy : IsInt y) :
    wrap32 (x - y) = 0 ↔ x = y := by
  obtain ⟨hx₀, hx₁⟩ := hx
  obtain ⟨hy₀, hy₁⟩ := hy
  unfold wrap32
  rw [Int.bmod_def]
  omega

/-- **The state of a tree between calls**: the heap holds, from `root` on, a red-black tree with the
values `l` in search order. -/
structure Holds (h : RbHeap) (root : Ptr) (l : List Item) : Prop where
  tree : ∃ t, Represents h root t ∧ t.toList = l ∧ t.IsRedBlack
  sorted : l.Pairwise fun a b => a.key < b.key
  keys : ∀ v ∈ l, IsFd v.key

/-! ## Searching -/

section Search

variable {h : RbHeap} {root : Ptr} {t : RBTree Item} {ctx : List (Frame Item)} {key : Int}
  {l : List Item}

/-- The search for `key` went on below `f` on the side it was left. -/
def Turned (key : Int) (f : Frame Item) : Prop :=
  match f.side with
  | .left => 0 < wrap32 (f.val.key - key)
  | .right => wrap32 (f.val.key - key) < 0

/-- Where the search of `key` can end: at a node whose difference is zero, or at an empty
subtree. -/
theorem rbSearchAuxiliary_spec (fuel : ℕ) (hat : At h root t ctx) (hto : ∀ f ∈ ctx, Turned key f)
    (hfuel : t.toList.length < fuel) :
    ∃ t' ctx', rbSearchAuxiliary h key fuel (ptr t) (ctxPtr ctx) = .ok (ptr t', ctxPtr ctx') ∧
      plug t' ctx' = plug t ctx ∧ (∀ f ∈ ctx', Turned key f) ∧
      ∀ c x v y, t' = .node c x v y → wrap32 (v.key - key) = 0 := by
  induction fuel generalizing t ctx with
  | zero => exact absurd hfuel (Nat.not_lt_zero _)
  | succ fuel ih =>
      cases t with
      | nil =>
          refine ⟨.nil, ctx, ?_, rfl, hto, fun c x v y h => by cases h⟩
          simp [rbSearchAuxiliary, ptr]
      | node c x v y =>
          have hload : Heap.load h (some v.addr) =
              .ok (cell .left c (ptr x) (ptr y) v (ctxPtr ctx)) :=
            At.load (s := .left) hat
          have hlen : x.toList.length + y.toList.length < fuel := by
            simp only [RBTree.toList, List.length_append, List.length_cons] at hfuel
            omega
          have hrun : rbSearchAuxiliary h key (fuel + 1) (some v.addr) (ctxPtr ctx) =
              if 0 < wrap32 (v.key - key) then rbSearchAuxiliary h key fuel (ptr x) (some v.addr)
              else if 0 > wrap32 (v.key - key) then
                rbSearchAuxiliary h key fuel (ptr y) (some v.addr)
              else .ok (some v.addr, ctxPtr ctx) := by
            simp only [rbSearchAuxiliary, reduceCtorEq, if_false, hload, ok_bind, key_cell,
              left_cell, right_cell]
            rfl
          rw [show ptr (.node c x v y) = some v.addr from rfl, hrun]
          by_cases hpos : 0 < wrap32 (v.key - key)
          · rw [if_pos hpos]
            have hat' := (at_down .left c x v y).mp hat
            refine ih hat' ?_ (by omega)
            intro f hf
            rcases List.mem_cons.mp hf with rfl | hf
            · exact hpos
            · exact hto f hf
          · rw [if_neg hpos]
            by_cases hneg : 0 > wrap32 (v.key - key)
            · rw [if_pos hneg]
              have hat' := (at_down .right c y v x).mp hat
              refine ih hat' ?_ (by omega)
              intro f hf
              rcases List.mem_cons.mp hf with rfl | hf
              · exact hneg
              · exact hto f hf
            · rw [if_neg hneg]
              refine ⟨.node c x v y, ctx, rfl, rfl, hto, ?_⟩
              intro c' x' v' y' heq
              cases heq
              omega

/-- Between keys that are not negative, the search turns towards the key. -/
lemma Turned.toward {f : Frame Item} (hf : Turned key f) (hkey : IsFd key)
    (hval : IsFd f.val.key) : Toward Item.key key f := by
  obtain ⟨s, c, v, y⟩ := f
  have hwrap := wrap32_sub hval hkey
  cases s with
  | left =>
      have : 0 < v.key - key := hwrap ▸ hf
      show key < v.key
      omega
  | right =>
      have : v.key - key < 0 := hwrap ▸ hf
      show v.key < key
      omega

/-- No loop over a subtree, or over its ancestors, uses up its passes. -/
lemma At.toList_length_add_lt (hat : At h root t ctx) : t.toList.length + ctx.length < h.bound := by
  have hlt := Heap.length_lt_bound hat.nodup hat.lookup_ne_none
  have hctx : ctx.length ≤ (ctxAddrs ctx).length := by
    clear hat hlt
    induction ctx with
    | nil => exact le_rfl
    | cons f ctx ih =>
        simp only [ctxAddrs, List.cons_append, List.length_cons, List.length_append]
        omega
  rw [List.length_append, addrs, List.length_map] at hlt
  omega

/-- What a search in the tree finds: the node with the key, or the place for it. -/
theorem Holds.search (hh : Holds h root l) (hkey : IsInt key) :
    ∃ t ctx, rbSearchAuxiliary h key h.bound root none = .ok (ptr t, ctxPtr ctx) ∧
      At h root t ctx ∧ (plug t ctx).toList = l ∧ (plug t ctx).IsRedBlack ∧
      ((∃ c x v y, t = .join .left c x v y ∧ v.key = key) ∨
        t = .nil ∧ (∀ v ∈ l, v.key ≠ key) ∧ ∀ f ∈ ctx, Turned key f) := by
  obtain ⟨⟨T, hrep, hl, hrb⟩, hsort, hkeys⟩ := hh
  have hat := represents_iff_at.mp hrep
  obtain ⟨t, ctx, hrun, hplug, hto, hzero⟩ :=
    rbSearchAuxiliary_spec h.bound hat (fun f hf => absurd hf List.not_mem_nil)
      (by have := hat.toList_length_add_lt; omega)
  rw [plug] at hplug
  subst hplug
  refine ⟨t, ctx, ?_, represents_plug_iff.mp hrep, hl, hrb, ?_⟩
  · rw [hrep.root_eq]
    exact hrun
  cases t with
  | node c x v y =>
      refine .inl ⟨c, x, v, y, rfl, ?_⟩
      refine (wrap32_sub_eq_zero (hkeys v ?_) hkey).mp (hzero c x v y rfl)
      rw [← hl, toList_plug]
      simp [RBTree.toList]
  | nil =>
      refine .inr ⟨rfl, ?_, hto⟩
      rintro v hv rfl
      -- a key of the tree is not negative, so the search for it cannot go astray
      have hto' : ∀ f ∈ ctx, Toward Item.key v.key f := fun f hf =>
        (hto f hf).toward (hkeys v hv) (hkeys f.val (hl ▸ mem_toList_plug hf))
      have haround := around_hole Item.key (t := .nil) (by rw [hl]; exact hsort) hto'
      rw [← hl, toList_plug, RBTree.toList, List.append_nil, List.mem_append] at hv
      rcases hv with hv | hv
      · exact lt_irrefl _ (haround.1 v hv)
      · exact lt_irrefl _ (haround.2 v hv)

/-- **`rb_search`** finds the value with the key, for any `int`. -/
theorem rbSearch_spec (hh : Holds h root l) (hkey : IsInt key) :
    (∃ v ∈ l, v.key = key ∧ rbSearch h key root = .ok (some v.addr)) ∨
      (∀ v ∈ l, v.key ≠ key) ∧ rbSearch h key root = .ok none := by
  obtain ⟨t, ctx, hrun, -, hl, -, ⟨c, x, v, y, rfl, hv⟩ | ⟨rfl, hnot, -⟩⟩ := hh.search hkey
  · refine .inl ⟨v, ?_, hv, ?_⟩
    · rw [← hl, toList_plug]
      simp [RBTree.join, RBTree.toList]
    · unfold rbSearch
      rw [hrun, ok_bind, ptr_join]
      rfl
  · refine .inr ⟨hnot, ?_⟩
    unfold rbSearch
    rw [hrun, ok_bind]
    rfl

end Search

/-! ## Inserting -/

section Insert

variable {h : RbHeap} {root : Ptr} {l : List Item} {v : Item}

/-- The new leaf is in the heap, and the rebalancing can begin. -/
lemma inserting_leaf {ctx : List (Frame Item)}
    (hrb : (plug .nil ctx).IsRedBlack) {h' : RbHeap} {root' : Ptr}
    (hat' : At h' root' (.join .left .red .nil v .nil) ctx) :
    Inserting h' root' (.join .left .red .nil v .nil) ctx := by
  obtain ⟨n, hn, hfits, -⟩ := (isRedBlack_plug_iff _ _).mp hrb
  obtain rfl : n = 0 := hn
  refine ⟨hat', rfl, 0, ?_, hfits⟩
  exact (RBTree.valid_join_red _ _ _ _ _).mpr ⟨⟨rfl, rfl⟩, rfl, rfl⟩

/-- The node made by `rb_insert`. -/
lemma leaf_eq_cell (v : Item) (p : Ptr) :
    (⟨none, none, p, v.key, v.data, .red⟩ : RbNode) = cell .left .red none none v p := rfl

/-- Attaching the leaf and rebalancing. -/
lemma rbInsert_rebalanced {ctx : List (Frame Item)} (hat : At h root .nil ctx)
    (hrb : (plug .nil ctx).IsRedBlack) (hfresh : h.lookup v.addr = none)
    (hrun : rbSearchAuxiliary h v.key h.bound root none = .ok (none, ctxPtr ctx))
    (hto : ∀ f ∈ ctx, Toward Item.key v.key f) :
    Rebalanced (rbInsert h v.addr v.key v.data root)
      (plug (.join .left .red .nil v .nil) ctx).toList := by
  cases ctx with
  | nil =>
      have hat' : At (h.insert v.addr (cell .left .red none none v none)) (some v.addr)
          (.join .left .red .nil v .nil) [] :=
        ⟨rfl, ⟨Finmap.lookup_insert _, trivial, trivial⟩, trivial, List.nodup_singleton _⟩
      have hreb := rbInsertRebalance_spec _ (inserting_leaf hrb hat')
        (Nat.lt_of_le_of_lt (Nat.le_add_left _ _) hat'.toList_length_add_lt)
      simp only [rbInsert, hrun, ok_bind, ctxPtr, ne_eq, not_true_eq_false, if_false, if_true]
      exact hreb
  | cons f ctx =>
      obtain ⟨h', hrun', hat'⟩ := attach_spec (c := .red) hat hfresh
      have hreb := rbInsertRebalance_spec _ (inserting_leaf hrb hat')
        (Nat.lt_of_le_of_lt (Nat.le_add_left _ _) hat'.toList_length_add_lt)
      have hload : Heap.load (h.insert v.addr (cell .left .red none none v (some f.val.addr)))
          (some f.val.addr) =
            .ok (cell f.side f.color none (ptr f.sibling) f.val (ctxPtr ctx)) := by
        apply Heap.load_of_lookup
        rw [Finmap.lookup_insert_of_ne, hat.around.1]
        · rfl
        · intro heq
          rw [← heq, hat.around.1] at hfresh
          cases hfresh
      -- the new key goes to the side on which the search left the parent
      have hside : (if f.val.key > v.key then Side.left else .right) = f.side := by
        have hf := hto f List.mem_cons_self
        obtain ⟨s, c, w, y⟩ := f
        cases s with
        | left => exact if_pos hf
        | right => exact if_neg (not_lt_of_gt hf)
      simp only [rbInsert, hrun, ok_bind, ctxPtr_cons, ne_eq, not_true_eq_false, if_false,
        reduceCtorEq, leaf_eq_cell v, hload, key_cell, hside, hrun']
      exact hreb

/-- **`rb_insert`** puts a new key in its place. -/
theorem rbInsert_spec (hh : Holds h root l) (hkey : IsFd v.key) (hnot : ∀ w ∈ l, w.key ≠ v.key)
    (hfresh : h.lookup v.addr = none) :
    ∃ l₁ l₂ root' h', l = l₁ ++ l₂ ∧ rbInsert h v.addr v.key v.data root = .ok (root', h') ∧
      Holds h' root' (l₁ ++ v :: l₂) := by
  obtain ⟨t, ctx, hrun, hat, hl, hrb, ⟨c, x, w, y, rfl, hw⟩ | ⟨rfl, -, hto⟩⟩ := hh.search hkey.isInt
  · refine absurd hw (hnot w ?_)
    rw [← hl, toList_plug]
    simp [RBTree.join, RBTree.toList]
  have hto' : ∀ f ∈ ctx, Toward Item.key v.key f := fun f hf =>
    (hto f hf).toward hkey (hh.keys f.val (hl ▸ mem_toList_plug hf))
  obtain ⟨hbefore, hbehind⟩ := around_hole Item.key (t := .nil) (by rw [hl]; exact hh.sorted) hto'
  have hl' : l = before ctx ++ behind ctx := by
    rw [← hl, toList_plug, RBTree.toList, List.append_nil]
  obtain ⟨root', h', t, hrun', hrep, ht, hrb'⟩ := rbInsert_rebalanced hat hrb hfresh hrun hto'
  have hlist : t.toList = before ctx ++ v :: behind ctx := by
    rw [ht, toList_plug]
    simp [RBTree.join, RBTree.toList]
  refine ⟨before ctx, behind ctx, root', h', hl', hrun', ⟨t, hrep, hlist, hrb'⟩, ?_, ?_⟩
  · have hsort := hh.sorted
    rw [hl', List.pairwise_append] at hsort
    obtain ⟨hsort₁, hsort₂, hcross⟩ := hsort
    refine List.pairwise_append.mpr ⟨hsort₁, List.pairwise_cons.mpr ⟨hbehind, hsort₂⟩, ?_⟩
    intro a ha b hb
    rcases List.mem_cons.mp hb with rfl | hb
    · exact hbefore a ha
    · exact hcross a ha b hb
  · intro w hw
    rcases List.mem_append.mp hw with hw | hw
    · exact hh.keys w (hl' ▸ List.mem_append_left _ hw)
    · rcases List.mem_cons.mp hw with rfl | hw
      · exact hkey
      · exact hh.keys w (hl' ▸ List.mem_append_right _ hw)

end Insert

/-! ## Erasing -/

section Erase

variable {h : RbHeap} {root : Ptr} {t x y : RBTree Item} {s : Side} {c : Color} {v : Item}
  {ctx : List (Frame Item)} {l : List Item} {key : Int}

/-- What the tree lacks when a node with at most one child has left it. -/
lemma spliced (hrb : (plug (.join s c x v .nil) ctx).IsRedBlack) :
    (c = .black → ∃ n, Deficit x ctx n) ∧ (c = .red → (plug x ctx).IsRedBlack) := by
  obtain ⟨n, hvalid, hfits, -⟩ := (isRedBlack_plug_iff _ _).mp hrb
  constructor
  · rintro rfl
    obtain ⟨m, rfl, hx, -⟩ := hvalid.exists_succ
    exact ⟨m, hfits, fun _ => hx, fun hc => hx.blacken hc⟩
  · rintro rfl
    obtain ⟨⟨hc, -⟩, hx, -⟩ := (RBTree.valid_join_red _ _ _ _ _).mp hvalid
    refine (isRedBlack_plug_iff _ _).mpr ⟨n, hx, hfits, ?_⟩
    rw [hc]
    intro hred
    cases hred

lemma rbEraseEnd_spec {a : ℕ} {n : RbNode} (hat : At h root x ctx) (ha : h.lookup a = some n)
    (hout : a ∉ addrs x ++ ctxAddrs ctx) (hblack : c = .black → ∃ n, Deficit x ctx n)
    (hred : c = .red → (plug x ctx).IsRedBlack) :
    Rebalanced (rbEraseEnd h (some a) (ptr x) (ctxPtr ctx) root c) (plug x ctx).toList := by
  have hat' : At (h.erase a) root x ctx := hat.congr fun b hb => Heap.eqOff_erase h a b (by
    rw [List.mem_singleton]
    rintro rfl
    exact hout hb)
  unfold rbEraseEnd
  rw [Heap.free_of_lookup ha, ok_bind]
  cases c with
  | black =>
      obtain ⟨m, hdef⟩ := hblack rfl
      have hlt := hat'.toList_length_add_lt
      rw [if_pos rfl]
      exact rbEraseRebalance_spec _ hat' hdef (by omega) (.inr (by omega))
  | red =>
      rw [if_neg (by simp)]
      exact ⟨root, h.erase a, _, rfl, represents_plug_iff.mpr hat', rfl, hred rfl⟩

/-- The successor: the last node on the left edge. -/
lemma leftmost_spec (fuel : ℕ) (hat : At h root t ctx) (ht : t ≠ .nil)
    (hfuel : t.toList.length < fuel) :
    ∃ rctx c v y, leftmost h fuel (ptr t) = .ok (some v.addr) ∧
      t = plug (.join .left c .nil v y) rctx ∧ ∀ f ∈ rctx, f.side = .left := by
  induction fuel generalizing t ctx with
  | zero => exact absurd hfuel (Nat.not_lt_zero _)
  | succ fuel ih =>
      cases t with
      | nil => exact absurd rfl ht
      | node c x v y =>
          have hload : Heap.load h (some v.addr) =
              .ok (cell .left c (ptr x) (ptr y) v (ctxPtr ctx)) :=
            At.load (s := .left) hat
          have hrun : leftmost h (fuel + 1) (some v.addr) =
              if ptr x = none then .ok (some v.addr) else leftmost h fuel (ptr x) := by
            simp only [leftmost, hload, ok_bind, left_cell]
            rfl
          rw [show ptr (.node c x v y) = some v.addr from rfl, hrun]
          by_cases hx : x = .nil
          · subst hx
            exact ⟨[], c, v, y, rfl, rfl, fun f hf => absurd hf List.not_mem_nil⟩
          · rw [if_neg fun hp => hx (ptr_eq_none.mp hp)]
            obtain ⟨rctx, c', v', y', hrun', hplug, hleft⟩ :=
              ih ((at_down .left c x v y).mp hat) hx (by
                simp only [RBTree.toList, List.length_append, List.length_cons] at hfuel
                omega)
            refine ⟨rctx ++ [⟨.left, c, v, y⟩], c', v', y', hrun', ?_, ?_⟩
            · rw [plug_append, ← hplug]
              rfl
            · intro f hf
              rcases List.mem_append.mp hf with hf | hf
              · exact hleft f hf
              · rw [List.mem_singleton.mp hf]

/-- Erasing a node that has at most one child. -/
lemma rbErase_one (hat : At h root (.join s c x v .nil) ctx)
    (hrb : (plug (.join s c x v .nil) ctx).IsRedBlack)
    (hrun : rbSearchAuxiliary h key h.bound root none = .ok (some v.addr, ctxPtr ctx)) :
    Rebalanced (rbErase h key root) (plug x ctx).toList := by
  obtain ⟨root', h', hrun', hat', hv⟩ := unlink_spec hat
  have hnd := hat.nodup_join
  rw [addrs_nil, List.nil_append, List.nodup_cons] at hnd
  obtain ⟨hblack, hred⟩ := spliced hrb
  have hend := rbEraseEnd_spec hat' (hv.trans hat.lookup) hnd.1 hblack hred
  have hchild : (if (cell s c (ptr x) none v (ctxPtr ctx)).left = none
      then (cell s c (ptr x) none v (ctxPtr ctx)).right
      else (cell s c (ptr x) none v (ctxPtr ctx)).left) = ptr x := by
    cases s with
    | left =>
        rw [left_cell, right_cell]
        split_ifs with hp
        · exact hp.symm
        · rfl
    | right => exact if_pos rfl
  have hone : ¬((cell s c (ptr x) none v (ctxPtr ctx)).left ≠ none ∧
      (cell s c (ptr x) none v (ctxPtr ctx)).right ≠ none) := by
    rintro ⟨hl, hr⟩
    cases s with
    | left => exact hr rfl
    | right => exact hl rfl
  have hload : Heap.load h (some v.addr) = .ok (cell s c (ptr x) none v (ctxPtr ctx)) := hat.load
  simp only [rbErase, hrun, ok_bind, reduceCtorEq, if_false, hload, hone, hchild, parent_cell,
    color_cell, hrun']
  exact hend

/-- A node of a context, seen from the hole and from the node itself. -/
lemma at_append_right (rctx : List (Frame Item)) :
    At h root t (rctx ++ ⟨.right, c, v, x⟩ :: ctx) ↔
      At h root (.join .left c x v (plug t rctx)) ctx := by
  rw [← represents_plug_iff, ← represents_plug_iff, plug_append]
  rfl

lemma mem_addrs_append_right (rctx : List (Frame Item)) {a : ℕ} :
    a ∈ addrs t ++ ctxAddrs (rctx ++ ⟨.right, c, v, x⟩ :: ctx) ↔
      a ∈ addrs (.join .left c x v (plug t rctx)) ++ ctxAddrs ctx := by
  rw [← (addrs_plug_perm _ _).mem_iff, ← (addrs_plug_perm _ _).mem_iff, plug_append]
  rfl

/-- The parent of the hole that the successor leaves behind, once the successor has taken the place
of the erased node. -/
lemma successor_parent {rctx : List (Frame Item)} {w : Item}
    (hnd : (ctxAddrs (rctx ++ ⟨.right, c, v, x⟩ :: ctx)).Nodup) :
    (if ctxPtr (rctx ++ ⟨.right, c, v, x⟩ :: ctx) = some v.addr then some w.addr
      else ctxPtr (rctx ++ ⟨.right, c, v, x⟩ :: ctx)) =
      ctxPtr (rctx ++ ⟨.right, c, w, x⟩ :: ctx) := by
  cases rctx with
  | nil => exact if_pos rfl
  | cons g rctx =>
      refine if_neg fun heq => ?_
      rw [List.cons_append, ctxAddrs, List.cons_append, List.nodup_cons] at hnd
      refine hnd.1 (List.mem_append_right _ ?_)
      rw [Option.some.inj heq]
      clear hnd heq
      induction rctx with
      | nil => simp [ctxAddrs]
      | cons f rctx ih =>
          rw [List.cons_append, ctxAddrs]
          exact List.mem_append_right _ ih

/-- Erasing a node that has two children: its successor takes its place. -/
lemma rbErase_two (hat : At h root (.join .left c x v y) ctx)
    (hrb : (plug (.join .left c x v y) ctx).IsRedBlack) (hx : x ≠ .nil) (hy : y ≠ .nil)
    (hrun : rbSearchAuxiliary h key h.bound root none = .ok (some v.addr, ctxPtr ctx)) :
    Rebalanced (rbErase h key root) (before ctx ++ (x.toList ++ y.toList) ++ behind ctx) := by
  have hfuel : y.toList.length < h.bound := by
    have hlt := hat.toList_length_add_lt
    simp only [RBTree.join, RBTree.toList, List.length_append, List.length_cons] at hlt
    omega
  obtain ⟨rctx, d, w, z, hleft, rfl, hedge⟩ :=
    leftmost_spec h.bound ((at_down .right c y v x).mp hat) hy hfuel
  -- the successor leaves its place
  have hat₀ : At h root (.join .right d z w .nil) (rctx ++ ⟨.right, c, v, x⟩ :: ctx) :=
    (at_append_right rctx).mpr hat
  obtain ⟨root₁, h₁, hrun₁, hat₁, hw⟩ := unlink_spec hat₀
  have hnd₀ := hat₀.nodup_join
  rw [addrs_nil, List.nil_append, List.nodup_cons] at hnd₀
  have hctx₀ := (List.nodup_append.mp hnd₀.2).2.1
  -- it takes the place of the node
  have hat₁' := (at_append_right rctx).mp hat₁
  have hfresh : w.addr ∉ addrs (.join .left c x v (plug z rctx)) ++ ctxAddrs ctx :=
    fun hmem => hnd₀.1 ((mem_addrs_append_right rctx).mpr hmem)
  obtain ⟨root₂, h₂, hrun₂, hat₂, hv⟩ :=
    supplant_spec hat₁' hx (hw.trans hat₀.lookup) (key_cell ..) (data_cell ..) hfresh
  have hat₃ := (at_append_right rctx).mpr hat₂
  -- the node is freed
  have hout : v.addr ∉ addrs z ++ ctxAddrs (rctx ++ ⟨.right, c, w, x⟩ :: ctx) := by
    have hnd₁ := (List.nodup_cons.mp hat₁'.nodup_join).1
    rw [mem_addrs_append_right, List.mem_append, mem_addrs_join]
    rintro ((heq | hmem | hmem) | hmem)
    · rw [← heq] at hfresh
      exact hfresh (List.mem_append_left _ (mem_addrs_join.mpr (.inl rfl)))
    · exact hnd₁ (List.mem_append_left _ hmem)
    · exact hnd₁ (List.mem_append_right _ (List.mem_append_left _ hmem))
    · exact hnd₁ (List.mem_append_right _ (List.mem_append_right _ hmem))
  have hrb₀ : (plug (.join .right d z w .nil) (rctx ++ ⟨.right, c, v, x⟩ :: ctx)).IsRedBlack := by
    rw [plug_append]
    exact hrb
  obtain ⟨hblack, hred⟩ := spliced ((isRedBlack_replace _ rctx ctx .right c v w x).mp hrb₀)
  have hend := rbEraseEnd_spec hat₃ (hv.trans hat₁'.lookup) hout hblack hred
  have hlist : (plug z (rctx ++ ⟨.right, c, w, x⟩ :: ctx)).toList =
      before ctx ++ (x.toList ++ (plug (.join .left d .nil w z) rctx).toList) ++ behind ctx := by
    rw [plug_append, toList_plug, toList_plug, toList_plug, before_eq_nil hedge]
    simp [before, behind, RBTree.join, RBTree.toList]
  rw [← hlist]
  have htwo : ptr x ≠ none ∧ ptr (plug (.join .left d .nil w z) rctx) ≠ none :=
    ⟨fun hp => hx (ptr_eq_none.mp hp), fun hp => hy (ptr_eq_none.mp hp)⟩
  have hload : Heap.load h (some w.addr) =
      .ok (cell .left d none (ptr z) w (ctxPtr (rctx ++ ⟨.right, c, v, x⟩ :: ctx))) := hat₀.load
  simp only [rbErase, hrun, ok_bind, reduceCtorEq, if_false, hat.load, left_cell, right_cell, htwo,
    hleft, hload, parent_cell, color_cell, hrun₁, successor_parent hctx₀, hrun₂, ne_eq,
    not_false_eq_true, and_self, if_true]
  exact hend

/-- **`rb_erase`** takes out the value with the key, for any `int`. -/
theorem rbErase_spec (hh : Holds h root l) (hkey : IsInt key) :
    (∃ l₁ v l₂ root' h', l = l₁ ++ v :: l₂ ∧ v.key = key ∧
      rbErase h key root = .ok (root', h') ∧ Holds h' root' (l₁ ++ l₂)) ∨
      (∀ v ∈ l, v.key ≠ key) ∧ rbErase h key root = .ok (root, h) := by
  obtain ⟨t, ctx, hrun, hat, hl, hrb, ⟨c, x, v, y, rfl, hv⟩ | ⟨rfl, hnot, -⟩⟩ := hh.search hkey
  · rw [ptr_join] at hrun
    have hreb : Rebalanced (rbErase h key root)
        (before ctx ++ (x.toList ++ y.toList) ++ behind ctx) := by
      by_cases hx : x = .nil
      · subst hx
        have hreb := rbErase_one (s := .right) hat hrb hrun
        rwa [toList_plug] at hreb
      · by_cases hy : y = .nil
        · subst hy
          have hreb := rbErase_one (s := .left) hat hrb hrun
          rwa [toList_plug, ← List.append_nil x.toList] at hreb
        · exact rbErase_two hat hrb hx hy hrun
    obtain ⟨root', h', t, hrun', hrep, ht, hrb'⟩ := hreb
    have hl' : l = (before ctx ++ x.toList) ++ v :: (y.toList ++ behind ctx) := by
      rw [← hl, toList_plug]
      simp [RBTree.join, RBTree.toList]
    have hsub : ((before ctx ++ x.toList) ++ (y.toList ++ behind ctx)).Sublist l := by
      rw [hl']
      exact (List.sublist_cons_self v _).append_left _
    refine .inl ⟨_, v, _, root', h', hl', hv, hrun', ⟨t, hrep, ?_, hrb'⟩,
      hh.sorted.sublist hsub, ?_⟩
    · rw [ht]
      simp only [List.append_assoc]
    · intro w hw
      exact hh.keys w (hsub.subset hw)
  · refine .inr ⟨hnot, ?_⟩
    unfold rbErase
    rw [hrun, ok_bind]
    rfl

end Erase

end ActionDB.Net.Conn
