import ActionDB.Net.Conn.Teardown

/-!
# `newConn` without the lock

`freeConn` of `net/conn.c` holds `connLock`, and `newConn` does not: the accept thread may be
interrupted between `tree->root = root` and `tree->connCnt += 1`, and the worker that owns the tree
may close connections in between. The new connection is then in the tree but not in the count, and
`freeConn` sets the root to NULL when the count gets to 0.

`newConn_race` says what the two statements make of the table, whatever is closed between them, the
new connection included. With no other connection in the tree nothing is closed at all; if two of
the connections are left, all is well; and otherwise the last one is lost, with the count at 1, and
`freeConns` will dereference NULL.
-/

namespace ActionDB.Net.Conn

open ActionDB.Found ActionDB.Net.Codec

/-! ## The statements -/

/-- `newConn` up to the assignment of the root. Source: `net/conn.c`, `newConn`, lines 54-68. -/
def linkConn (T : Table) (fd : Int) (node conn buf : ℕ) : Except MemFault (Ptr × Table) := do
  let conns : Heap Connection := T.conns.insert conn { fd := fd, buf := some buf }
  let bufs : Heap Buffer := T.bufs.insert buf initBuf
  let (root, nodes) ← rbInsert T.nodes node fd (some conn) T.root
  if root ≠ none then return (some conn, { T with root, nodes, conns, bufs })
  else return (none, { T with nodes, conns, bufs })

/-- Source: `net/conn.c`, `newConn`, line 69. -/
def countConn (T : Table) : Table := { T with connCnt := T.connCnt + 1 }

/-- The worker closes connections, one after the other. -/
def closeAll (T : Table) : List Int → Except MemFault Table
  | [] => .ok T
  | fd :: fds => do
      let (_, T) ← freeConn T fd
      closeAll T fds

section Race

variable {T T' : Table} {l : List Item} {v : Item} {fd : Int}

/-- Without an interruption the two statements are `newConn`. -/
lemma newConn_eq (T : Table) (fd : Int) (node conn buf : ℕ) :
    newConn T fd node conn buf = do
      let (connection, T) ← linkConn T fd node conn buf
      return (connection, if connection = none then T else countConn T) := by
  unfold newConn linkConn
  cases rbInsert T.nodes node fd (some conn) T.root with
  | error e => rfl
  | ok r =>
      obtain ⟨root, nodes⟩ := r
      simp only [ok_bind]
      by_cases hroot : root = none
      · simp only [hroot, ne_eq, not_true_eq_false, if_false]
        rfl
      · simp only [ne_eq, hroot, not_false_eq_true, if_true]
        rfl

/-- The connections are `l`, and one of them is not counted yet. -/
structure Uncounted (T : Table) (l : List Item) : Prop extends Linked T l where
  ne_nil : l ≠ []
  connCnt_eq : T.connCnt + 1 = l.length

/-- The count is 0 and nothing can be found any more. -/
structure Lost (T : Table) : Prop where
  root : T.root = none
  connCnt : T.connCnt = 0

/-- With a count of 0 nothing is closed. -/
lemma freeConn_of_zero (h : T.connCnt = 0) (fd : Int) : freeConn T fd = .ok (1, T) := by
  unfold freeConn
  rw [h]
  rfl

lemma closeAll_of_zero (h : T.connCnt = 0) (fds : List Int) : closeAll T fds = .ok T := by
  induction fds with
  | nil => rfl
  | cons fd fds ih =>
      rw [closeAll, freeConn_of_zero h, ok_bind]
      exact ih

/-- The connections that are left when `fds` are closed. -/
def left (l : List Item) (fds : List Int) : List Item := l.filter fun w => w.key ∉ fds

/-- Closing one more of them. -/
lemma left_cons (l : List Item) (fd : Int) (fds : List Int) :
    left l (fd :: fds) = left (left l [fd]) fds := by
  unfold left
  rw [List.filter_filter]
  refine List.filter_congr fun w _ => ?_
  simp [List.mem_cons, not_or, Bool.and_comm]

/-- **One descriptor is closed.** A connection goes; if only one is left then, it is lost. -/
lemma Uncounted.free (h : Uncounted T l) (hlen : 1 < l.length) (hfd : IsInt fd) :
    ∃ ret T', freeConn T fd = .ok (ret, T') ∧
      (1 < (left l [fd]).length ∧ Uncounted T' (left l [fd]) ∨
        (left l [fd]).length = 1 ∧ Lost T') := by
  have hcnt := h.connCnt_eq
  rcases h.toLinked.freeConn_cases (fun _ => by omega) hfd with
    ⟨l₁, u, l₂, root, nodes, a, c, b, rfl, hkey, howner, -, hholds, hrun⟩ | ⟨hnot, hrun⟩
  · -- the others have other keys
    have hothers : ∀ w ∈ l₁ ++ l₂, w.key ≠ fd := fun w hw => hkey ▸ h.holds.key_ne w hw
    have hleft : left (l₁ ++ u :: l₂) [fd] = l₁ ++ l₂ := by
      have hkeep : ∀ {k}, (∀ w ∈ k, w.key ≠ fd) → left k [fd] = k := fun hk =>
        List.filter_eq_self.mpr fun w hw => by simpa using hk w hw
      have hu : left (u :: l₂) [fd] = left l₂ [fd] :=
        List.filter_cons_of_neg (by simp [hkey])
      change List.filter _ (l₁ ++ u :: l₂) = _
      rw [List.filter_append]
      exact congrArg₂ _ (hkeep fun w hw => hothers w (List.mem_append_left _ hw))
        (hu.trans (hkeep fun w hw => hothers w (List.mem_append_right _ hw)))
    have hlen' : (l₁ ++ u :: l₂).length = (l₁ ++ l₂).length + 1 := by
      simp only [List.length_append, List.length_cons]
      omega
    have hne : l₁ ++ l₂ ≠ [] := List.ne_nil_of_length_pos (by omega)
    have hroot : root ≠ none := fun hroot => hne (hholds.root_eq_none.mp hroot)
    rw [if_neg fun hbad => hroot hbad.1] at hrun
    refine ⟨1, _, hrun, ?_⟩
    rw [hleft]
    by_cases hlast : T.connCnt - 1 = 0
    · -- the count is that of the closed connection, and the tree still has another one
      exact .inr ⟨by omega, if_pos hlast, hlast⟩
    · have hlinked := h.toLinked.erase howner hholds (T.connCnt - 1)
      rw [if_neg hlast]
      exact .inl ⟨by omega, hlinked, hne, by simp only; omega⟩
  · have hleft : left l [fd] = l :=
      List.filter_eq_self.mpr fun w hw => by simpa using hnot w hw
    rw [hleft]
    exact ⟨1, T, hrun, .inl ⟨hlen, h⟩⟩

/-- **Any descriptors are closed**: by induction on them, with one connection uncounted until only
one is left. -/
lemma Uncounted.closeAll (h : Uncounted T l) (hlen : 1 < l.length) {fds : List Int}
    (hfds : ∀ f ∈ fds, IsInt f) :
    ∃ T', Conn.closeAll T fds = .ok T' ∧
      (1 < (left l fds).length ∧ Uncounted T' (left l fds) ∨
        (left l fds).length ≤ 1 ∧ Lost T') := by
  induction fds generalizing T l with
  | nil =>
      have hall : left l [] = l := List.filter_eq_self.mpr fun w _ => by simp
      exact ⟨T, rfl, .inl (by rw [hall]; exact ⟨hlen, h⟩)⟩
  | cons fd fds ih =>
      obtain ⟨hfd, hfds⟩ := List.forall_mem_cons.mp hfds
      obtain ⟨ret, T₁, hrun, ⟨hlen₁, h₁⟩ | ⟨hone, hlost⟩⟩ := h.free hlen hfd
      · obtain ⟨T', hclose, hend⟩ := ih h₁ hlen₁ hfds
        refine ⟨T', ?_, by rw [left_cons]; exact hend⟩
        rw [Conn.closeAll, hrun, ok_bind]
        exact hclose
      · have hle : (left l (fd :: fds)).length ≤ 1 := by
          rw [left_cons, ← hone]
          exact List.length_filter_le _ _
        refine ⟨T₁, ?_, .inr ⟨hle, hlost⟩⟩
        rw [Conn.closeAll, hrun, ok_bind]
        exact closeAll_of_zero hlost.connCnt fds

/-! ## The two statements -/

lemma Uncounted.count (h : Uncounted T l) : TableInv (countConn T) l :=
  ⟨h.holds, h.connCnt_eq, h.owns, h.buffered⟩

/-- A table with a count and without a root. -/
lemma Lost.count (h : Lost T) :
    (∀ f, ¬(countConn T).Has f) ∧ freeConns (countConn T) = .error .nullDeref := by
  constructor
  · rintro f ⟨t, hrep, w, hw, -⟩
    rw [ptr_eq_none.mp (hrep.root_eq.symm.trans h.root)] at hw
    exact absurd hw List.not_mem_nil
  · simp only [freeConns, countConn, h.connCnt, freeConnsLoop, freeRoot, h.root]
    rfl

/-- The table has the descriptors `P` and no others, and counts them. -/
def Holding (T : Table) (P : Int → Prop) : Prop := T.Counted ∧ ∀ f, T.Has f ↔ P f

lemma Uncounted.holding (h : Uncounted T l) :
    Holding (countConn T) fun f => ∃ w ∈ l, w.key = f := by
  obtain ⟨t, hrep, ht, -⟩ := h.count.holds.tree
  exact ⟨⟨t, hrep, by rw [h.count.connCnt_eq, ht]⟩, fun f => h.count.linked.has_iff⟩

/-- Two connections are left when two descriptors are. -/
lemma one_lt_length_left_iff {fds : List Int} (hkeys : (l.map Item.key).Nodup) :
    1 < (left l fds).length ↔
      ∃ f g, f ≠ g ∧ (∃ w ∈ l, w.key = f) ∧ (∃ w ∈ l, w.key = g) ∧ f ∉ fds ∧ g ∉ fds := by
  have hmem : ∀ {f}, f ∈ (left l fds).map Item.key ↔ (∃ w ∈ l, w.key = f) ∧ f ∉ fds := by
    intro f
    simp only [left, List.mem_map, List.mem_filter, decide_eq_true_eq]
    constructor
    · rintro ⟨w, ⟨hw, hkey⟩, rfl⟩
      exact ⟨⟨w, hw, rfl⟩, hkey⟩
    · rintro ⟨⟨w, hw, rfl⟩, hkey⟩
      exact ⟨w, ⟨hw, hkey⟩, rfl⟩
  have hnodup : ((left l fds).map Item.key).Nodup := hkeys.sublist (List.filter_sublist.map _)
  rw [← List.length_map (f := Item.key)]
  generalize (left l fds).map Item.key = ks at hmem hnodup
  constructor
  · intro hlen
    obtain ⟨f, ks, rfl⟩ := List.exists_cons_of_length_pos (by omega : 0 < ks.length)
    obtain ⟨g, ks, rfl⟩ := List.exists_cons_of_length_pos (by simpa using hlen : 0 < ks.length)
    obtain ⟨hf, hf'⟩ := hmem.mp List.mem_cons_self
    obtain ⟨hg, hg'⟩ := hmem.mp (List.mem_cons_of_mem _ List.mem_cons_self)
    refine ⟨f, g, ?_, hf, hg, hf', hg'⟩
    rintro rfl
    exact (List.nodup_cons.mp hnodup).1 List.mem_cons_self
  · rintro ⟨f, g, hne, hf, hg, hf', hg'⟩
    have hsub : [f, g] ⊆ ks := by
      intro x hx
      rcases List.mem_pair.mp hx with rfl | rfl
      · exact hmem.mpr ⟨hf, hf'⟩
      · exact hmem.mpr ⟨hg, hg'⟩
    have hpair : [f, g].Nodup := by simpa using hne
    exact (hpair.subperm hsub).length_le

/-- Two of the connections, old and new, are left when `fds` are closed. -/
def TwoLeft (T : Table) (fd : Int) (fds : List Int) : Prop :=
  ∃ f g, f ≠ g ∧ (f = fd ∨ T.Has f) ∧ (g = fd ∨ T.Has g) ∧ f ∉ fds ∧ g ∉ fds

/-- **`newConn` is interrupted** after the tree has the new connection and before the count has it,
and the descriptors `fds` are closed, perhaps the new one too. With no other connection the table
ends with the new one, whatever is closed. Otherwise, if two of the connections are left, the table
has what it should have; and if not, it has nothing any more, and `freeConns` dereferences NULL. -/
theorem newConn_race {es : List Event} {node conn buf : ℕ} (hrun : Run es T)
    (hall : Allowed es T fd node conn buf) (fds : List Int) (hfds : ∀ f ∈ fds, IsInt f) :
    ∃ T₁ T₂, linkConn T fd node conn buf = .ok (some conn, T₁) ∧ closeAll T₁ fds = .ok T₂ ∧
      ((∀ f, ¬T.Has f) → Holding (countConn T₂) fun f => f = fd) ∧
      ((∃ f, T.Has f) → TwoLeft T fd fds →
        Holding (countConn T₂) fun f => (f = fd ∨ T.Has f) ∧ f ∉ fds) ∧
      ((∃ f, T.Has f) → ¬TwoLeft T fd fds →
        (∀ f, ¬(countConn T₂).Has f) ∧ freeConns (countConn T₂) = .error .nullDeref) := by
  obtain ⟨l, hinv, htr⟩ := hrun.inv
  have hnot := fun v hv hkey => hall.not_live ((htr.live_iff fd).mpr ⟨v, hv, hkey⟩)
  obtain ⟨l₁, l₂, root, nodes, rfl, hins, -, hlinked⟩ := hinv.linked.newConn_fresh hall.fd_nonneg
    hnot hall.node_free hall.conn_free hall.buf_free
  have hlink : linkConn T fd node conn buf = .ok (some conn, ⟨T.connCnt, root, nodes,
      T.conns.insert conn ⟨fd, some buf⟩, T.bufs.insert buf initBuf⟩) := by
    simp only [linkConn, hins, ok_bind, rbInsert_root_ne hins, ne_eq, not_false_eq_true, if_true]
    rfl
  have hlen : (l₁ ++ ⟨node, fd, some conn⟩ :: l₂).length = (l₁ ++ l₂).length + 1 := by
    simp only [List.length_append, List.length_cons]
    omega
  have hunc : Uncounted ⟨T.connCnt, root, nodes, T.conns.insert conn ⟨fd, some buf⟩,
      T.bufs.insert buf initBuf⟩ (l₁ ++ ⟨node, fd, some conn⟩ :: l₂) :=
    ⟨⟨hlinked.holds, hlinked.owns, hlinked.buffered⟩, by simp, by
      rw [hlen, hinv.connCnt_eq]
      rfl⟩
  -- the keys of the tree are the old connections and the new one
  have hkeys : ∀ f, (∃ w ∈ l₁ ++ ⟨node, fd, some conn⟩ :: l₂, w.key = f) ↔ f = fd ∨ T.Has f := by
    intro f
    rw [hinv.linked.has_iff]
    constructor
    · rintro ⟨w, hw, rfl⟩
      rcases mem_middle.mp hw with rfl | hw
      · exact .inl rfl
      · exact .inr ⟨w, hw, rfl⟩
    · rintro (rfl | ⟨w, hw, rfl⟩)
      · exact ⟨_, mem_middle.mpr (.inl rfl), rfl⟩
      · exact ⟨w, mem_middle.mpr (.inr hw), rfl⟩
  by_cases hempty : l₁ ++ l₂ = []
  · -- the count is zero, and nothing is closed
    have hnone : ∀ f, ¬T.Has f := by
      intro f hf
      obtain ⟨w, hw, -⟩ := hinv.linked.has_iff.mp hf
      rw [hempty] at hw
      cases hw
    have hzero : T.connCnt = 0 := by
      rw [hinv.connCnt_eq, hempty]
      rfl
    refine ⟨_, _, hlink, closeAll_of_zero (by exact hzero) fds, fun _ => ?_, fun hex => ?_,
      fun hex => ?_⟩
    · refine ⟨hunc.holding.1, fun f => (hunc.holding.2 f).trans ((hkeys f).trans ?_)⟩
      exact or_iff_left (hnone f)
    · exact absurd hex.choose_spec (hnone _)
    · exact absurd hex.choose_spec (hnone _)
  · have hpos := List.length_pos_iff.mpr hempty
    have hsome : ¬∀ f, ¬T.Has f := by
      obtain ⟨w, hw⟩ := List.exists_mem_of_ne_nil _ hempty
      exact fun hnone => hnone w.key (hinv.linked.has_iff.mpr ⟨w, hw, rfl⟩)
    have htwo : 1 < (left (l₁ ++ ⟨node, fd, some conn⟩ :: l₂) fds).length ↔ TwoLeft T fd fds := by
      rw [one_lt_length_left_iff hlinked.holds.keys_nodup]
      simp only [hkeys, TwoLeft]
    obtain ⟨T₂, hclose, ⟨hlt, hgood⟩ | ⟨hle, hlost⟩⟩ := hunc.closeAll (by omega) hfds
    · refine ⟨_, T₂, hlink, hclose, fun hnone => absurd hnone hsome, fun _ _ => ?_,
        fun _ hfew => absurd (htwo.mp hlt) hfew⟩
      refine ⟨hgood.holding.1, fun f => (hgood.holding.2 f).trans ?_⟩
      show _ ↔ (f = fd ∨ T.Has f) ∧ f ∉ fds
      rw [← hkeys]
      simp only [left, List.mem_filter, decide_eq_true_eq]
      constructor
      · rintro ⟨w, ⟨hw, hkey⟩, rfl⟩
        exact ⟨⟨w, hw, rfl⟩, hkey⟩
      · rintro ⟨⟨w, hw, rfl⟩, hkey⟩
        exact ⟨w, ⟨hw, hkey⟩, rfl⟩
    · refine ⟨_, T₂, hlink, hclose, fun hnone => absurd hnone hsome,
        fun _ htwo' => absurd (htwo.mpr htwo') (by omega), fun _ _ => hlost.count⟩

/-- The only client leaves while another one is accepted: nobody is served any more. -/
theorem newConn_race_lost :
    ∃ T T₁ T₂ : Table, T.Has 5 ∧ linkConn T 6 4 5 6 = .ok (some 5, T₁) ∧
      closeAll T₁ [5] = .ok T₂ ∧ (∀ f, ¬(countConn T₂).Has f) ∧
      freeConns (countConn T₂) = .error .nullDeref := by
  have h₁ : Allowed [] .empty 5 1 2 3 := ⟨by constructor <;> decide, by simp [Live], rfl, rfl, rfl⟩
  have hrun := Run.created .nil h₁ rfl
  have hhas : ∀ f, Table.Has _ f ↔ f = 5 := fun f =>
    hrun.live_iff_has.symm.trans (by simp [Live, eq_comm])
  obtain ⟨T₁, T₂, hlink, hclose, -, -, hlost⟩ := newConn_race hrun
    (⟨by constructor <;> decide, by simp [Live], rfl, rfl, rfl⟩ : Allowed _ _ 6 4 5 6) [5]
    (by simp; constructor <;> decide)
  refine ⟨_, T₁, T₂, (hhas 5).mpr rfl, hlink, hclose, hlost ⟨5, (hhas 5).mpr rfl⟩ ?_⟩
  rintro ⟨f, g, hne, hf, hg, hf', hg'⟩
  simp only [hhas, List.mem_singleton] at hf hg hf' hg'
  omega

end Race

end ActionDB.Net.Conn
