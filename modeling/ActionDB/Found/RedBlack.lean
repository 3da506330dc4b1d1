import Mathlib.Data.List.Basic
import Mathlib.Order.Lattice
import Mathlib.Tactic.Common

/-!
# Red-black trees with a hole

Binary trees with coloured nodes, and the **contexts** a subtree stands in: the list of its
ancestors, nearest first, each with the side it was left on and its other subtree. An algorithm
that walks up a tree and changes it on the way is described by the subtree it stands at and the
context that is left (`plug` puts them together again).

* Left and right are symmetric: `join s c near a far` has `near` on side `s`. Statements about one
  side are statements about `join s`, proved once for both.
* `Valid t n` says that `t` is red-black with black height `n`, and `Fits ctx n` that `ctx` is
  red-black around a hole of black height `n`. `isRedBlack_plug_iff` puts the two together, so
  that a rebalancing step is judged by the few nodes it touches.
* `IsRedBlack` states what a red-black tree is without black heights: a black root, no red node
  with a red child, and equally many black nodes on all paths.
-/

namespace ActionDB.Found

/-- A side of a binary node. -/
inductive Side where
  | left
  | right
  deriving DecidableEq, Repr

/-- The other side. -/
def Side.other : Side → Side
  | left => right
  | right => left

@[simp] lemma Side.other_other (s : Side) : s.other.other = s := by cases s <;> rfl

lemma Side.eq_other_of_ne {s t : Side} (h : s ≠ t) : s = t.other := by
  cases s <;> cases t <;> simp_all [Side.other]

/-- The colour of a node. -/
inductive Color where
  | red
  | black
  deriving DecidableEq, Repr

/-- Binary trees with coloured nodes. -/
inductive RBTree (α : Type) where
  | nil
  | node (c : Color) (l : RBTree α) (a : α) (r : RBTree α)
  deriving DecidableEq, Repr

namespace RBTree

variable {α : Type}

/-- The values in order. -/
def toList : RBTree α → List α
  | nil => []
  | node _ l a r => l.toList ++ a :: r.toList

/-- The colour of the root; an empty tree is black. -/
def color : RBTree α → Color
  | nil => .black
  | node c _ _ _ => c

/-- Give the root a colour. -/
def setColor (c : Color) : RBTree α → RBTree α
  | nil => nil
  | node _ l a r => node c l a r

/-- The node with subtree `near` on side `s` and `far` on the other. -/
def join (s : Side) (c : Color) (near : RBTree α) (a : α) (far : RBTree α) : RBTree α :=
  match s with
  | .left => node c near a far
  | .right => node c far a near

lemma join_other (s : Side) (c : Color) (x : RBTree α) (a : α) (y : RBTree α) :
    join s.other c x a y = join s c y a x := by
  cases s <;> rfl

/-- Every node can be read from either side. -/
lemma exists_join (s : Side) (c : Color) (l : RBTree α) (a : α) (r : RBTree α) :
    ∃ x y, node c l a r = join s c x a y := by
  cases s with
  | left => exact ⟨l, r, rfl⟩
  | right => exact ⟨r, l, rfl⟩

lemma exists_join_of_ne_nil (s : Side) {t : RBTree α} (h : t ≠ nil) :
    ∃ x a y, t = join s t.color x a y := by
  cases t with
  | nil => exact absurd rfl h
  | node c l a r =>
      obtain ⟨x, y, hxy⟩ := exists_join s c l a r
      exact ⟨x, a, y, hxy⟩

@[simp] lemma color_join (s : Side) (c : Color) (x : RBTree α) (a : α) (y : RBTree α) :
    (join s c x a y).color = c := by
  cases s <;> rfl

@[simp] lemma setColor_join (s : Side) (c c' : Color) (x : RBTree α) (a : α) (y : RBTree α) :
    (join s c x a y).setColor c' = join s c' x a y := by
  cases s <;> rfl

lemma join_ne_nil (s : Side) (c : Color) (x : RBTree α) (a : α) (y : RBTree α) :
    join s c x a y ≠ nil := by
  cases s <;> exact fun h => by cases h

@[simp] lemma toList_setColor (c : Color) (t : RBTree α) : (t.setColor c).toList = t.toList := by
  cases t <;> rfl

lemma color_setColor {t : RBTree α} {c : Color} (h : t.color = .red) :
    (t.setColor c).color = c := by
  cases t with
  | nil => cases h
  | node d l a r => rfl

lemma setColor_self {t : RBTree α} {c : Color} (h : t.color = c) : t.setColor c = t := by
  cases t with
  | nil => rfl
  | node d l a r =>
      obtain rfl : d = c := h
      rfl

lemma toList_join_congr (s : Side) {c c' : Color} {x x' y y' : RBTree α} {a : α}
    (hx : x.toList = x'.toList) (hy : y.toList = y'.toList) :
    (join s c x a y).toList = (join s c' x' a y').toList := by
  cases s <;> simp [join, toList, hx, hy]

/-- **A rotation keeps the order.** -/
lemma toList_rotate (s : Side) (c c' d d' : Color) (x y z : RBTree α) (a b : α) :
    (join s d' (join s d x a y) b z).toList = (join s c x a (join s c' y b z)).toList := by
  cases s <;> simp [join, toList]

/-! ## What a red-black tree is -/

/-- No red node has a red child. -/
def NoRedRed : RBTree α → Prop
  | nil => True
  | node c l _ r => (c = .red → l.color = .black ∧ r.color = .black) ∧ l.NoRedRed ∧ r.NoRedRed

/-- The number of black nodes on each path from the root to an empty tree. -/
def blackCounts : RBTree α → List ℕ
  | nil => [0]
  | node c l _ r => (l.blackCounts ++ r.blackCounts).map fun n => if c = .black then n + 1 else n

/-- A red-black tree. -/
structure IsRedBlack (t : RBTree α) : Prop where
  root : t.color = .black
  noRedRed : t.NoRedRed
  blackCounts : ∀ m ∈ t.blackCounts, ∀ n ∈ t.blackCounts, m = n

/-- The tree has no red node with a red child, and `n` black nodes on every path. -/
def Valid : RBTree α → ℕ → Prop
  | nil, n => n = 0
  | node .red l _ r, n => (l.color = .black ∧ r.color = .black) ∧ l.Valid n ∧ r.Valid n
  | node .black _ _ _, 0 => False
  | node .black l _ r, n + 1 => l.Valid n ∧ r.Valid n

lemma valid_join_red (s : Side) (x : RBTree α) (a : α) (y : RBTree α) (n : ℕ) :
    (join s .red x a y).Valid n ↔
      (x.color = .black ∧ y.color = .black) ∧ x.Valid n ∧ y.Valid n := by
  cases s with
  | left => rfl
  | right =>
      show (y.color = .black ∧ x.color = .black) ∧ y.Valid n ∧ x.Valid n ↔ _
      rw [and_comm (a := y.color = .black), and_comm (a := y.Valid n)]

lemma valid_join_black (s : Side) (x : RBTree α) (a : α) (y : RBTree α) (n : ℕ) :
    (join s .black x a y).Valid (n + 1) ↔ x.Valid n ∧ y.Valid n := by
  cases s with
  | left => rfl
  | right => exact and_comm

/-- A black node adds one to the black height. -/
lemma Valid.exists_succ {s : Side} {x : RBTree α} {a : α} {y : RBTree α} {n : ℕ}
    (h : (join s .black x a y).Valid n) : ∃ m, n = m + 1 ∧ x.Valid m ∧ y.Valid m := by
  cases n with
  | zero => cases s <;> exact h.elim
  | succ m => exact ⟨m, rfl, (valid_join_black s x a y m).mp h⟩

/-- A tree that has black nodes is not empty. -/
lemma Valid.ne_nil {t : RBTree α} {n : ℕ} (h : t.Valid (n + 1)) : t ≠ nil := by
  rintro rfl
  cases h

/-- A red tree that is blackened gains a black node. -/
lemma Valid.blacken {t : RBTree α} {n : ℕ} (h : t.Valid n) (hc : t.color = .red) :
    (t.setColor .black).Valid (n + 1) := by
  cases t with
  | nil => cases hc
  | node c l a r =>
      obtain rfl : c = .red := hc
      exact h.2

lemma blackCounts_ne_nil (t : RBTree α) : t.blackCounts ≠ [] := by
  cases t with
  | nil => simp [blackCounts]
  | node c l a r =>
      have := blackCounts_ne_nil l
      simp [blackCounts, this]

/-- `Valid` in terms of paths. -/
lemma valid_iff (t : RBTree α) (n : ℕ) :
    t.Valid n ↔ t.NoRedRed ∧ ∀ m ∈ t.blackCounts, m = n := by
  induction t generalizing n with
  | nil =>
      simp only [Valid, NoRedRed, blackCounts, List.mem_singleton, forall_eq, true_and]
      exact eq_comm
  | node c l a r ihl ihr =>
      cases c with
      | red =>
          simp only [Valid, NoRedRed, blackCounts, ihl, ihr, forall_const, reduceCtorEq, if_false,
            List.map_id', List.mem_append]
          constructor
          · rintro ⟨hc, ⟨hl, hln⟩, hr, hrn⟩
            refine ⟨⟨hc, hl, hr⟩, ?_⟩
            rintro m (hm | hm)
            · exact hln m hm
            · exact hrn m hm
          · rintro ⟨⟨hc, hl, hr⟩, hm⟩
            exact ⟨hc, ⟨hl, fun m h => hm m (.inl h)⟩, hr, fun m h => hm m (.inr h)⟩
      | black =>
          have hmem : (∀ m ∈ (node .black l a r).blackCounts, m = n) ↔
              ∀ m, m ∈ l.blackCounts ∨ m ∈ r.blackCounts → m + 1 = n := by
            simp only [blackCounts, if_true, List.forall_mem_map, List.mem_append]
          cases n with
          | zero =>
              rw [hmem]
              refine ⟨fun h => h.elim, ?_⟩
              rintro ⟨-, hm⟩
              obtain ⟨m, hml⟩ := List.exists_mem_of_ne_nil _ (blackCounts_ne_nil l)
              exact absurd (hm m (.inl hml)) (Nat.succ_ne_zero m)
          | succ n =>
              rw [hmem]
              simp only [Valid, NoRedRed, ihl, ihr, reduceCtorEq, false_implies, true_and,
                Nat.add_right_cancel_iff]
              constructor
              · rintro ⟨⟨hl, hln⟩, hr, hrn⟩
                refine ⟨⟨hl, hr⟩, ?_⟩
                rintro m (hm | hm)
                · exact hln m hm
                · exact hrn m hm
              · rintro ⟨⟨hl, hr⟩, hm⟩
                exact ⟨⟨hl, fun m h => hm m (.inl h)⟩, hr, fun m h => hm m (.inr h)⟩

lemma isRedBlack_iff (t : RBTree α) : t.IsRedBlack ↔ t.color = .black ∧ ∃ n, t.Valid n := by
  constructor
  · rintro ⟨hroot, hred, hcount⟩
    obtain ⟨n, hn⟩ := List.exists_mem_of_ne_nil _ (blackCounts_ne_nil t)
    exact ⟨hroot, n, (valid_iff t n).mpr ⟨hred, fun m hm => hcount m hm n hn⟩⟩
  · rintro ⟨hroot, n, hn⟩
    obtain ⟨hred, hcount⟩ := (valid_iff t n).mp hn
    exact ⟨hroot, hred, fun m hm k hk => (hcount m hm).trans (hcount k hk).symm⟩

end RBTree

/-! ## Contexts -/

/-- An ancestor: the side of the subtree it was left on, and what it has besides. -/
structure Frame (α : Type) where
  side : Side
  color : Color
  val : α
  sibling : RBTree α

variable {α : Type}

/-- Put a subtree back under its ancestors, nearest first. -/
def plug (t : RBTree α) : List (Frame α) → RBTree α
  | [] => t
  | f :: ctx => plug (.join f.side f.color t f.val f.sibling) ctx

/-- The same node, left on the other side. -/
def Frame.flip (f : Frame α) (t : RBTree α) : Frame α := ⟨f.side.other, f.color, f.val, t⟩

/-- Stand at the sibling instead. -/
lemma plug_flip (t : RBTree α) (f : Frame α) (ctx : List (Frame α)) :
    plug f.sibling (f.flip t :: ctx) = plug t (f :: ctx) := by
  simp only [plug, Frame.flip, RBTree.join_other]

lemma plug_append (t : RBTree α) (ctx ctx' : List (Frame α)) :
    plug t (ctx ++ ctx') = plug (plug t ctx) ctx' := by
  induction ctx generalizing t with
  | nil => rfl
  | cons f ctx ih => exact ih _

lemma plug_ne_nil {t : RBTree α} (h : t ≠ .nil) (ctx : List (Frame α)) : plug t ctx ≠ .nil := by
  induction ctx generalizing t with
  | nil => exact h
  | cons f ctx ih => exact ih (RBTree.join_ne_nil _ _ _ _ _)

/-- The values before the hole. -/
def before : List (Frame α) → List α
  | [] => []
  | f :: ctx => before ctx ++ match f.side with
      | .left => []
      | .right => f.sibling.toList ++ [f.val]

/-- The values behind the hole. -/
def behind : List (Frame α) → List α
  | [] => []
  | f :: ctx => (match f.side with
      | .left => f.val :: f.sibling.toList
      | .right => []) ++ behind ctx

/-- Nothing is before a hole on the left edge. -/
lemma before_eq_nil {ctx : List (Frame α)} (h : ∀ f ∈ ctx, f.side = .left) : before ctx = [] := by
  induction ctx with
  | nil => rfl
  | cons f ctx ih =>
      unfold before
      rw [ih fun g hg => h g (List.mem_cons_of_mem f hg), h f List.mem_cons_self]
      rfl

/-- **The values of a tree** are those around the hole and those in it. -/
theorem toList_plug (t : RBTree α) (ctx : List (Frame α)) :
    (plug t ctx).toList = before ctx ++ t.toList ++ behind ctx := by
  induction ctx generalizing t with
  | nil => simp [plug, before, behind]
  | cons f ctx ih =>
      unfold plug
      rw [ih]
      obtain ⟨s, c, a, y⟩ := f
      cases s <;> simp [before, behind, RBTree.join, RBTree.toList]

/-- The values of the ancestors are values of the tree. -/
lemma mem_toList_plug {t : RBTree α} {f : Frame α} {ctx : List (Frame α)} (h : f ∈ ctx) :
    f.val ∈ (plug t ctx).toList := by
  induction ctx generalizing t with
  | nil => exact absurd h List.not_mem_nil
  | cons g ctx ih =>
      rcases List.mem_cons.mp h with rfl | h
      · unfold plug
        rw [toList_plug]
        obtain ⟨s, c, a, y⟩ := f
        cases s <;> simp [RBTree.join, RBTree.toList]
      · exact ih h

lemma toList_plug_congr {t t' : RBTree α} (h : t.toList = t'.toList) (ctx : List (Frame α)) :
    (plug t ctx).toList = (plug t' ctx).toList := by
  rw [toList_plug, toList_plug, h]

/-- The colour of the parent of the hole. The root must be black, as must the children of a red
node: without a parent the colour counts as red. -/
def parentColor : List (Frame α) → Color
  | [] => .red
  | f :: _ => f.color

/-- The context is red-black around a hole of black height `n`. -/
def Fits : List (Frame α) → ℕ → Prop
  | [], _ => True
  | ⟨_, .red, _, y⟩ :: ctx, n =>
      y.color = .black ∧ y.Valid n ∧ parentColor ctx = .black ∧ Fits ctx n
  | ⟨_, .black, _, y⟩ :: ctx, n => y.Valid n ∧ Fits ctx (n + 1)

/-- The sibling of the hole has its black height. -/
lemma Fits.sibling_valid {s : Side} {c : Color} {a : α} {y : RBTree α} {ctx : List (Frame α)}
    {n : ℕ}    (h : Fits (⟨s, c, a, y⟩ :: ctx) n) : y.Valid n := by
  cases c with
  | red => exact h.2.1
  | black => exact h.1

lemma parentColor_replace (ctx ctx' : List (Frame α)) (s : Side) (c : Color) (a b : α)
    (y : RBTree α) :
    parentColor (ctx ++ ⟨s, c, a, y⟩ :: ctx') = parentColor (ctx ++ ⟨s, c, b, y⟩ :: ctx') := by
  cases ctx <;> rfl

/-- The values of the ancestors do not matter. -/
lemma fits_replace (ctx ctx' : List (Frame α)) (s : Side) (c : Color) (a b : α) (y : RBTree α)
    (n : ℕ) :
    Fits (ctx ++ ⟨s, c, a, y⟩ :: ctx') n ↔ Fits (ctx ++ ⟨s, c, b, y⟩ :: ctx') n := by
  induction ctx generalizing n with
  | nil => cases c <;> rfl
  | cons f ctx ih =>
      have hpar := parentColor_replace ctx ctx' s c a b y
      obtain ⟨fs, fc, fa, fy⟩ := f
      cases fc with
      | red => exact and_congr_right' (and_congr_right' (and_congr (Eq.congr_left hpar) (ih n)))
      | black => exact and_congr_right' (ih (n + 1))

/-- **Filling a hole** gives a red-black tree exactly when what fills it has the black height of
the hole, and is black if the hole is at the root or under a red node. -/
theorem isRedBlack_plug_iff (t : RBTree α) (ctx : List (Frame α)) :
    (plug t ctx).IsRedBlack ↔
      ∃ n, t.Valid n ∧ Fits ctx n ∧ (t.color = .red → parentColor ctx = .black) := by
  induction ctx generalizing t with
  | nil =>
      have hcolor : t.color = .black ↔ (t.color = .red → (Color.red : Color) = .black) := by
        cases t.color <;> simp
      unfold plug
      rw [RBTree.isRedBlack_iff, hcolor]
      constructor
      · rintro ⟨hc, n, hn⟩
        exact ⟨n, hn, trivial, hc⟩
      · rintro ⟨n, hn, -, hc⟩
        exact ⟨hc, n, hn⟩
  | cons f ctx ih =>
      obtain ⟨s, c, a, y⟩ := f
      unfold plug
      rw [ih]
      cases c with
      | red =>
          simp only [RBTree.valid_join_red, RBTree.color_join, Fits, parentColor]
          constructor
          · rintro ⟨n, ⟨⟨htc, hyc⟩, ht, hy⟩, hfit, hp⟩
            exact ⟨n, ht, ⟨hyc, hy, hp trivial, hfit⟩, fun h => by rw [htc] at h; cases h⟩
          · rintro ⟨n, ht, ⟨hyc, hy, hp, hfit⟩, hc⟩
            have htc : t.color = .black := by
              cases h : t.color with
              | red => exact absurd (hc h) (by decide)
              | black => rfl
            exact ⟨n, ⟨⟨htc, hyc⟩, ht, hy⟩, hfit, fun _ => hp⟩
      | black =>
          simp only [RBTree.color_join, Fits, parentColor]
          constructor
          · rintro ⟨n, hn, hfit, -⟩
            obtain ⟨m, rfl, ht, hy⟩ := hn.exists_succ
            exact ⟨m, ht, ⟨hy, hfit⟩, fun _ => trivial⟩
          · rintro ⟨n, ht, ⟨hy, hfit⟩, -⟩
            exact ⟨n + 1, (RBTree.valid_join_black s t a y n).mpr ⟨ht, hy⟩, hfit,
              fun h => by cases h⟩

lemma isRedBlack_replace (t : RBTree α) (ctx ctx' : List (Frame α)) (s : Side) (c : Color) (a b : α)
    (y : RBTree α) :
    (plug t (ctx ++ ⟨s, c, a, y⟩ :: ctx')).IsRedBlack ↔
      (plug t (ctx ++ ⟨s, c, b, y⟩ :: ctx')).IsRedBlack := by
  simp only [isRedBlack_plug_iff, fits_replace ctx ctx' s c a b y,
    parentColor_replace ctx ctx' s c a b y]

/-! ## Search order -/

section Order

variable {κ : Type} [LinearOrder κ] (k : α → κ)

/-- A search for the key `x` goes down to the side on which `f` was left. -/
def Toward (x : κ) (f : Frame α) : Prop :=
  match f.side with
  | .left => x < k f.val
  | .right => k f.val < x

/-- **Where a search leads**: in a tree in search order, a key is behind everything before the
place the search for it leads to, and before everything behind it. -/
theorem around_hole {x : κ} {t : RBTree α} {ctx : List (Frame α)}
    (hsort : (plug t ctx).toList.Pairwise fun a b => k a < k b) (hto : ∀ f ∈ ctx, Toward k x f) :
    (∀ a ∈ before ctx, k a < x) ∧ ∀ a ∈ behind ctx, x < k a := by
  induction ctx generalizing t with
  | nil => exact ⟨fun a ha => absurd ha List.not_mem_nil, fun a ha => absurd ha List.not_mem_nil⟩
  | cons f ctx ih =>
      obtain ⟨hbefore, hbehind⟩ := ih hsort fun g hg => hto g (List.mem_cons_of_mem f hg)
      have hf := hto f List.mem_cons_self
      unfold plug at hsort
      rw [toList_plug] at hsort
      have hnode := (List.pairwise_append.mp (List.pairwise_append.mp hsort).1).2.1
      obtain ⟨s, c, v, y⟩ := f
      cases s with
      | left =>
          have hy := (List.pairwise_cons.mp (List.pairwise_append.mp hnode).2.1).1
          refine ⟨?_, ?_⟩
          · intro a ha
            exact hbefore a (by simpa [before] using ha)
          · intro a ha
            simp only [behind, List.cons_append, List.mem_cons, List.mem_append] at ha
            rcases ha with rfl | ha | ha
            · exact hf
            · exact lt_trans hf (hy a ha)
            · exact hbehind a ha
      | right =>
          have hy := (List.pairwise_append.mp hnode).2.2
          refine ⟨?_, ?_⟩
          · intro a ha
            simp only [before, List.mem_append, List.mem_singleton] at ha
            rcases ha with ha | ha | rfl
            · exact hbefore a ha
            · exact lt_trans (hy a ha v List.mem_cons_self) hf
            · exact hf
          · intro a ha
            exact hbehind a (by simpa [behind] using ha)

end Order

end ActionDB.Found
