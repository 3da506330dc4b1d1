import Mathlib.Data.Finset.Card
import Mathlib.Data.Finset.Range
import ActionDB.Net.Codec.Buffer
import ActionDB.Net.Conn.SearchTree

/-!
# The connection table

`newConn` and `freeConn` of `net/conn.c`: a connection is an allocated `conn` with its own buffer,
and a node of the tree whose key is the descriptor and whose data is the `conn`.

The tree counts its nodes in `connCnt`, apart from the tree itself, and `freeConn` judges the result
of `rb_erase` by that count. `TableInv` says that the two agree, and that the nodes, the `conn`s and
the buffers belong together; `newConn_spec` and `freeConn_spec` say that both functions keep it,
and what they do to the list of connections. What they do whatever the count says is
`Linked.newConn_fresh` and `Linked.freeConn_cases`.

A *run* is any sequence of calls from the empty table (`Run`), newest first: `newConn` on
descriptors that are not in the table, and `freeConn` on any `int`. The results at the end hold
after every call of every run.

`malloc` returns any address that is not in use. `connCnt` is an unbounded number here; it is the
number of descriptors in the table (`Run.connCnt_lt`), which an `int` holds as long as some
descriptor, such as the listening socket's, is not in it.
-/

namespace ActionDB.Net.Conn

open ActionDB.Found ActionDB.Net.Codec

/-! ## The functions -/

/-- Source: `net/conn.h`, `struct conn`, without the fields no function reads. -/
structure Connection where
  fd : Int
  buf : Ptr
  deriving DecidableEq

/-- A `struct connTree` and the memory it is in. -/
structure Table where
  connCnt : Int
  root : Ptr
  nodes : RbHeap
  conns : Heap Connection
  bufs : Heap Buffer

/-- The tree as `main` makes it. Source: `server.cc`, `main`. -/
def Table.empty : Table := ⟨0, none, ∅, ∅, ∅⟩

/-- The addresses are those of the new node, the new `conn` and its buffer.
Source: `net/conn.c`, `newConn`. -/
def newConn (T : Table) (fd : Int) (node conn buf : ℕ) : Except MemFault (Ptr × Table) := do
  let conns : Heap Connection := T.conns.insert conn { fd := fd, buf := some buf }
  let bufs : Heap Buffer := T.bufs.insert buf initBuf
  let (root, nodes) ← rbInsert T.nodes node fd (some conn) T.root
  if root ≠ none then
    return (some conn, { connCnt := T.connCnt + 1, root, nodes, conns, bufs })
  else return (none, { T with nodes, conns, bufs })

/-- Source: `net/conn.c`, `freeConn`. -/
def freeConn (T : Table) (fd : Int) : Except MemFault (Int × Table) := do
  let nd ← if T.connCnt > 0 then rbSearch T.nodes fd T.root else .ok none
  if nd = none then return (1, T)
  else
    let connection := (← T.nodes.load nd).data
    if connection = none then return (-1, T)
    else
      let connCnt := T.connCnt - 1
      let (root, nodes) ← rbErase T.nodes fd T.root
      if root = none ∧ connCnt ≠ 0 then return (-1, { T with connCnt, root, nodes })
      else
        let bufs ← T.bufs.free (← T.conns.load connection).buf
        let conns ← T.conns.free connection
        return (1, { connCnt, root := if connCnt = 0 then none else root, nodes, conns, bufs })

/-! ## NULL is not returned -/

/-- `rb_insert` never returns NULL: it has dereferenced what it returns. -/
lemma rbInsertRebalance_root_ne {fuel : ℕ} {h h' : RbHeap} {node root root' : Ptr}
    (hrun : rbInsertRebalance fuel h node root = .ok (root', h')) : root' ≠ none := by
  induction fuel generalizing h node root with
  | zero => cases hrun
  | succ fuel ih =>
      obtain ⟨nd, -, hrun⟩ := bind_eq_ok hrun
      obtain ⟨red, -, hrun⟩ := bind_eq_ok hrun
      cases red with
      | true =>
          obtain ⟨p, -, hrun⟩ := bind_eq_ok hrun
          obtain ⟨g, -, hrun⟩ := bind_eq_ok hrun
          obtain ⟨⟨node', root'', h''⟩, -, hrun⟩ := bind_eq_ok hrun
          exact ih hrun
      | false =>
          obtain ⟨h₁, hcolor, hrun⟩ := bind_eq_ok hrun
          rintro rfl
          cases hrun
          cases hcolor

lemma rbInsert_root_ne {h h' : RbHeap} {addr : ℕ} {key : Int} {data root root' : Ptr}
    (hrun : rbInsert h addr key data root = .ok (root', h')) : root' ≠ none := by
  obtain ⟨⟨node, parent⟩, hsearch, hrun⟩ := bind_eq_ok hrun
  by_cases hnode : node = none
  · simp only [hnode, ne_eq, not_true_eq_false, if_false] at hrun
    by_cases hparent : parent = none
    · simp only [hparent, if_true] at hrun
      exact rbInsertRebalance_root_ne hrun
    · simp only [hparent, if_false] at hrun
      obtain ⟨p, -, hrun⟩ := bind_eq_ok hrun
      obtain ⟨h₁, -, hrun⟩ := bind_eq_ok hrun
      exact rbInsertRebalance_root_ne hrun
  · simp only [hnode, ne_eq, not_false_eq_true, if_true] at hrun
    cases hrun
    rintro rfl
    cases hsearch
    exact hnode rfl

/-- `newConn` never returns NULL. -/
lemma newConn_ne_none {T T' : Table} {fd : Int} {node conn buf : ℕ} {p : Ptr}
    (hrun : newConn T fd node conn buf = .ok (p, T')) : p ≠ none := by
  obtain ⟨⟨root, nodes⟩, hins, hrun⟩ := bind_eq_ok hrun
  simp only [rbInsert_root_ne hins, ne_eq, not_false_eq_true, if_true] at hrun
  cases hrun
  exact Option.some_ne_none conn

/-! ## The invariant -/

/-- Every `conn` has a buffer of its own. -/
structure Buffered (conns : Heap Connection) (bufs : Heap Buffer) : Prop where
  buffer : ∀ a c, conns.lookup a = some c → ∃ b, c.buf = some b ∧ bufs.lookup b ≠ none
  unshared : ∀ a c a' c', conns.lookup a = some c → conns.lookup a' = some c' → c.buf = c'.buf →
    a = a'

/-- **The connection table between calls**, with the connections `l` in order of their
descriptors. -/
structure TableInv (T : Table) (l : List Item) : Prop where
  holds : Holds T.nodes T.root l
  connCnt_eq : T.connCnt = l.length
  /-- The data of a node is a `conn` for its descriptor. -/
  owns : ∀ v ∈ l, ∃ a c, v.data = some a ∧ T.conns.lookup a = some c ∧ c.fd = v.key
  buffered : Buffered T.conns T.bufs

/-- The same without the count. -/
structure Linked (T : Table) (l : List Item) : Prop where
  holds : Holds T.nodes T.root l
  owns : ∀ v ∈ l, ∃ a c, v.data = some a ∧ T.conns.lookup a = some c ∧ c.fd = v.key
  buffered : Buffered T.conns T.bufs

/-- The connection `v` of a table: its `conn` is the cell `c` at `a`, and its buffer is at `b`. -/
structure Owner (T : Table) (v : Item) (a : ℕ) (c : Connection) (b : ℕ) : Prop where
  data : v.data = some a
  conn : T.conns.lookup a = some c
  fd : c.fd = v.key
  buf : c.buf = some b
  buffer : T.bufs.lookup b ≠ none

section Buffered

variable {conns : Heap Connection} {bufs : Heap Buffer} {a b : ℕ} {c : Connection}

lemma Buffered.insert (hb : Buffered conns bufs) (B : Buffer) (hcb : c.buf = some b)
    (hfresh : bufs.lookup b = none) : Buffered (conns.insert a c) (bufs.insert b B) := by
  -- an old `conn` has a buffer that was in use
  have hold : ∀ a' c', conns.lookup a' = some c' → c'.buf ≠ some b := by
    intro a' c' hc' hcb'
    obtain ⟨b', hb', hlook⟩ := hb.buffer a' c' hc'
    rw [hcb'] at hb'
    obtain rfl := Option.some.inj hb'
    exact hlook hfresh
  constructor
  · intro a' c' hc'
    rcases Heap.lookup_insert_some hc' with ⟨-, rfl⟩ | ⟨-, hc'⟩
    · exact ⟨b, hcb, by rw [Finmap.lookup_insert]; simp⟩
    · obtain ⟨b', hb', hlook⟩ := hb.buffer a' c' hc'
      refine ⟨b', hb', ?_⟩
      rw [Finmap.lookup_insert_of_ne]
      · exact hlook
      · rintro rfl
        exact hold a' c' hc' hb'
  · intro a₁ c₁ a₂ c₂ hc₁ hc₂ heq
    rcases Heap.lookup_insert_some hc₁ with ⟨h₁, h₁'⟩ | ⟨-, h₁⟩
    · rcases Heap.lookup_insert_some hc₂ with ⟨h₂, -⟩ | ⟨-, h₂⟩
      · exact h₁.trans h₂.symm
      · exact absurd (heq.symm.trans (h₁' ▸ hcb)) (hold a₂ c₂ h₂)
    · rcases Heap.lookup_insert_some hc₂ with ⟨-, h₂'⟩ | ⟨-, h₂⟩
      · exact absurd (heq.trans (h₂' ▸ hcb)) (hold a₁ c₁ h₁)
      · exact hb.unshared a₁ c₁ a₂ c₂ h₁ h₂ heq

lemma Buffered.erase (hb : Buffered conns bufs) (hc : conns.lookup a = some c)
    (hcb : c.buf = some b) : Buffered (conns.erase a) (bufs.erase b) := by
  constructor
  · intro a' c' hc'
    obtain ⟨hne, hc'⟩ := Heap.lookup_erase_some hc'
    obtain ⟨b', hb', hlook⟩ := hb.buffer a' c' hc'
    refine ⟨b', hb', ?_⟩
    rw [Finmap.lookup_erase_ne]
    · exact hlook
    · rintro rfl
      exact hne (hb.unshared a' c' a c hc' hc (hb'.trans hcb.symm))
  · intro a₁ c₁ a₂ c₂ hc₁ hc₂ heq
    exact hb.unshared a₁ c₁ a₂ c₂ (Heap.lookup_erase_some hc₁).2 (Heap.lookup_erase_some hc₂).2 heq

lemma Buffered.write (hb : Buffered conns bufs) (b : ℕ) (B : Buffer) :
    Buffered conns (bufs.insert b B) := by
  refine ⟨fun a c hc => ?_, hb.unshared⟩
  obtain ⟨b', hb', hlook'⟩ := hb.buffer a c hc
  refine ⟨b', hb', ?_⟩
  by_cases hbb : b' = b
  · rw [hbb, Finmap.lookup_insert]
    simp
  · rw [Finmap.lookup_insert_of_ne _ hbb]
    exact hlook'

end Buffered

section Inv

variable {T : Table} {l : List Item} {fd : Int}

lemma tableInv_empty : TableInv .empty [] where
  holds := {
    tree := ⟨.nil, ⟨rfl, trivial, List.nodup_nil⟩, rfl, (RBTree.isRedBlack_iff _).mpr ⟨rfl, 0, rfl⟩⟩
    sorted := List.Pairwise.nil
    keys := fun v hv => absurd hv List.not_mem_nil }
  connCnt_eq := rfl
  owns := fun v hv => absurd hv List.not_mem_nil
  buffered := ⟨fun a c h => (by cases h), fun a c a' c' h => (by cases h)⟩

/-- The root is NULL exactly when there is no connection. -/
lemma Holds.root_eq_none {h : RbHeap} {root : Ptr} (hh : Holds h root l) :
    root = none ↔ l = [] := by
  obtain ⟨t, hrep, ht, -⟩ := hh.tree
  rw [hrep.root_eq, ptr_eq_none, ← ht]
  cases t with
  | nil => simp [RBTree.toList]
  | node c x v y => simp [RBTree.toList]

lemma Rep.lookup_item {h : RbHeap} {p : Ptr} {t : RBTree Item} {v : Item} (ht : Rep h p t)
    (hv : v ∈ t.toList) : ∃ n, h.lookup v.addr = some n ∧ n.key = v.key ∧ n.data = v.data := by
  induction t generalizing p with
  | nil => exact absurd hv List.not_mem_nil
  | node c x w y ihx ihy =>
      obtain ⟨hw, hx, hy⟩ := ht
      rw [RBTree.toList, List.mem_append, List.mem_cons] at hv
      rcases hv with hv | rfl | hv
      · exact ihx hx hv
      · exact ⟨_, hw, key_cell .., data_cell ..⟩
      · exact ihy hy hv

/-- The nodes hold what they are said to hold. -/
lemma Holds.lookup {h : RbHeap} {root : Ptr} {v : Item} (hh : Holds h root l) (hv : v ∈ l) :
    ∃ n, h.lookup v.addr = some n ∧ n.key = v.key ∧ n.data = v.data := by
  obtain ⟨t, hrep, rfl, -⟩ := hh.tree
  exact hrep.rep.lookup_item hv

/-- No two connections are for the same descriptor. -/
lemma Holds.keys_nodup {h : RbHeap} {root : Ptr} (hh : Holds h root l) : (l.map Item.key).Nodup :=
  List.pairwise_map.mpr (hh.sorted.imp fun hlt => ne_of_lt hlt)

/-- The connections with one put in between. -/
lemma mem_middle {l₁ l₂ : List Item} {v w : Item} :
    w ∈ l₁ ++ v :: l₂ ↔ w = v ∨ w ∈ l₁ ++ l₂ :=
  List.perm_middle.mem_iff.trans List.mem_cons

/-- The other connections are for other descriptors. -/
lemma Holds.key_ne {h : RbHeap} {root : Ptr} {l₁ l₂ : List Item} {v : Item}
    (hh : Holds h root (l₁ ++ v :: l₂)) : ∀ w ∈ l₁ ++ l₂, w.key ≠ v.key := by
  have hnodup := hh.keys_nodup
  rw [List.map_append, List.map_cons, List.nodup_middle, List.nodup_cons, ← List.map_append]
    at hnodup
  intro w hw heq
  exact hnodup.1 (List.mem_map.mpr ⟨w, hw, heq⟩)

/-- `rb_search` finds the node of a connection. -/
lemma Holds.rbSearch_mem {h : RbHeap} {root : Ptr} {v : Item} (hh : Holds h root l) (hv : v ∈ l) :
    rbSearch h v.key root = .ok (some v.addr) := by
  rcases rbSearch_spec hh (hh.keys v hv).isInt with ⟨w, hw, hkey, hrun⟩ | ⟨hnot, -⟩
  · rw [← List.inj_on_of_nodup_map hh.keys_nodup hw hv hkey]
    exact hkey ▸ hrun
  · exact absurd rfl (hnot v hv)

lemma TableInv.linked (hinv : TableInv T l) : Linked T l := ⟨hinv.holds, hinv.owns, hinv.buffered⟩

lemma Linked.tableInv (hl : Linked T l) (hcnt : T.connCnt = l.length) : TableInv T l :=
  ⟨hl.holds, hcnt, hl.owns, hl.buffered⟩

lemma Linked.exists_owner {v : Item} (hl : Linked T l) (hv : v ∈ l) :
    ∃ a c b, Owner T v a c b := by
  obtain ⟨a, c, hva, hc, hcv⟩ := hl.owns v hv
  obtain ⟨b, hb, hlook⟩ := hl.buffered.buffer a c hc
  exact ⟨a, c, b, hva, hc, hcv, hb, hlook⟩

/-- `newConn` on a descriptor that is not in the table makes a node for it. -/
theorem Linked.newConn_fresh {node conn buf : ℕ} (hl : Linked T l) (hfd : IsFd fd)
    (hnot : ∀ v ∈ l, v.key ≠ fd) (hnode : T.nodes.lookup node = none)
    (hconn : T.conns.lookup conn = none) (hbuf : T.bufs.lookup buf = none) :
    ∃ l₁ l₂ root nodes, l = l₁ ++ l₂ ∧
      rbInsert T.nodes node fd (some conn) T.root = .ok (root, nodes) ∧
      newConn T fd node conn buf = .ok (some conn, ⟨T.connCnt + 1, root, nodes,
        T.conns.insert conn ⟨fd, some buf⟩, T.bufs.insert buf initBuf⟩) ∧
      Linked ⟨T.connCnt + 1, root, nodes, T.conns.insert conn ⟨fd, some buf⟩,
        T.bufs.insert buf initBuf⟩ (l₁ ++ ⟨node, fd, some conn⟩ :: l₂) := by
  obtain ⟨l₁, l₂, root, nodes, rfl, hrun, hholds⟩ :=
    rbInsert_spec (v := ⟨node, fd, some conn⟩) hl.holds hfd hnot hnode
  refine ⟨l₁, l₂, root, nodes, rfl, hrun, ?_, hholds, ?_, hl.buffered.insert initBuf rfl hbuf⟩
  · simp only [newConn, hrun, ok_bind, rbInsert_root_ne hrun, ne_eq, not_false_eq_true, if_true]
    rfl
  · intro v hv
    rcases mem_middle.mp hv with rfl | hv
    · exact ⟨conn, ⟨fd, some buf⟩, rfl, Finmap.lookup_insert _, rfl⟩
    · obtain ⟨a, c, hva, hc, hcv⟩ := hl.owns v hv
      refine ⟨a, c, hva, ?_, hcv⟩
      rw [Finmap.lookup_insert_of_ne, hc]
      rintro rfl
      rw [hconn] at hc
      cases hc

/-- **`newConn`** on a descriptor that is not in the table adds a connection for it. -/
theorem newConn_spec {node conn buf : ℕ} (hinv : TableInv T l) (hfd : IsFd fd)
    (hnot : ∀ v ∈ l, v.key ≠ fd) (hnode : T.nodes.lookup node = none)
    (hconn : T.conns.lookup conn = none) (hbuf : T.bufs.lookup buf = none) :
    ∃ l₁ l₂ T', l = l₁ ++ l₂ ∧ newConn T fd node conn buf = .ok (some conn, T') ∧
      TableInv T' (l₁ ++ ⟨node, fd, some conn⟩ :: l₂) := by
  obtain ⟨l₁, l₂, root, nodes, rfl, -, hrun, hlinked⟩ :=
    hinv.linked.newConn_fresh hfd hnot hnode hconn hbuf
  refine ⟨l₁, l₂, _, rfl, hrun, hlinked.tableInv ?_⟩
  rw [hinv.connCnt_eq]
  simp only [List.length_append, List.length_cons]
  omega

/-- What `freeConn` does, when the count is positive as long as there are connections: it takes the
node out of the tree, and then believes the count about whether that went well. -/
theorem Linked.freeConn_cases (hl : Linked T l) (hpos : l ≠ [] → T.connCnt > 0)
    (hfd : IsInt fd) :
    (∃ l₁ v l₂ root nodes a c b, l = l₁ ++ v :: l₂ ∧ v.key = fd ∧ Owner T v a c b ∧
      rbErase T.nodes fd T.root = .ok (root, nodes) ∧ Holds nodes root (l₁ ++ l₂) ∧
      freeConn T fd =
        if root = none ∧ T.connCnt - 1 ≠ 0 then
          .ok (-1, { T with connCnt := T.connCnt - 1, root, nodes })
        else .ok (1, ⟨T.connCnt - 1, if T.connCnt - 1 = 0 then none else root, nodes,
          T.conns.erase a, T.bufs.erase b⟩)) ∨
      (∀ v ∈ l, v.key ≠ fd) ∧ freeConn T fd = .ok (1, T) := by
  rcases rbErase_spec hl.holds hfd with
    ⟨l₁, v, l₂, root, nodes, rfl, rfl, herase, hholds⟩ | ⟨hnot, -⟩
  · have hv : v ∈ l₁ ++ v :: l₂ := List.mem_append_right _ List.mem_cons_self
    obtain ⟨a, c, b, howner⟩ := hl.exists_owner hv
    obtain ⟨n, hn, -, hdata⟩ := hl.holds.lookup hv
    obtain ⟨B, hB⟩ := Option.ne_none_iff_exists'.mp howner.buffer
    refine .inl ⟨l₁, v, l₂, root, nodes, a, c, b, rfl, rfl, howner, herase, hholds, ?_⟩
    simp only [freeConn, hpos (List.ne_nil_of_mem hv), if_true, hl.holds.rbSearch_mem hv, ok_bind,
      reduceCtorEq, if_false, Heap.load_of_lookup hn, hdata, howner.data, herase,
      Heap.load_of_lookup howner.conn, howner.buf, Heap.free_of_lookup hB,
      Heap.free_of_lookup howner.conn]
    rfl
  · refine .inr ⟨hnot, ?_⟩
    have hsearch : rbSearch T.nodes fd T.root = .ok none := by
      rcases rbSearch_spec hl.holds hfd with ⟨w, hw, hkey, -⟩ | ⟨-, hrun⟩
      · exact absurd hkey (hnot w hw)
      · exact hrun
    simp only [freeConn, hsearch, ite_self, ok_bind, if_true]
    rfl

/-- The other connections keep their `conn`s when one is released. -/
lemma Linked.erase {l₁ l₂ : List Item} {v : Item} {a b : ℕ} {c : Connection} {root : Ptr}
    {nodes : RbHeap} (hl : Linked T (l₁ ++ v :: l₂)) (howner : Owner T v a c b)
    (hholds : Holds nodes root (l₁ ++ l₂)) (connCnt : Int) :
    Linked ⟨connCnt, root, nodes, T.conns.erase a, T.bufs.erase b⟩ (l₁ ++ l₂) := by
  refine ⟨hholds, ?_, hl.buffered.erase howner.conn howner.buf⟩
  intro w hw
  obtain ⟨a', c', hwa, hc', hcw⟩ := hl.owns w (mem_middle.mpr (.inr hw))
  refine ⟨a', c', hwa, ?_, hcw⟩
  rw [Finmap.lookup_erase_ne, hc']
  -- a `conn` belongs to one descriptor only
  rintro rfl
  rw [howner.conn] at hc'
  obtain rfl := Option.some.inj hc'
  exact hl.holds.key_ne w hw (hcw.symm.trans howner.fd)

/-- **`freeConn`** takes out the connection for the descriptor, if there is one, and returns 1. -/
theorem freeConn_spec (hinv : TableInv T l) (hfd : IsInt fd) :
    (∃ l₁ v l₂ T', l = l₁ ++ v :: l₂ ∧ v.key = fd ∧ freeConn T fd = .ok (1, T') ∧
      TableInv T' (l₁ ++ l₂)) ∨
      (∀ v ∈ l, v.key ≠ fd) ∧ freeConn T fd = .ok (1, T) := by
  have hpos : l ≠ [] → T.connCnt > 0 := by
    intro hne
    rw [hinv.connCnt_eq]
    exact Int.natCast_pos.mpr (List.length_pos_iff.mpr hne)
  rcases hinv.linked.freeConn_cases hpos hfd with
    ⟨l₁, v, l₂, root, nodes, a, c, b, rfl, hkey, howner, -, hholds, hrun⟩ | hnot
  · have hcnt : T.connCnt - 1 = (l₁ ++ l₂).length := by
      rw [hinv.connCnt_eq]
      simp only [List.length_append, List.length_cons]
      omega
    have hroot : root = none ↔ T.connCnt - 1 = 0 := by
      rw [hholds.root_eq_none, hcnt, Int.natCast_eq_zero, List.length_eq_zero_iff]
    have hgood : ¬(root = none ∧ T.connCnt - 1 ≠ 0) := fun ⟨hr, hne⟩ => hne (hroot.mp hr)
    have hroot' : (if T.connCnt - 1 = 0 then none else root) = root := by
      split_ifs with hzero
      · exact (hroot.mpr hzero).symm
      · rfl
    rw [if_neg hgood, hroot'] at hrun
    have hlinked := hinv.linked.erase howner hholds (T.connCnt - 1)
    exact .inl ⟨l₁, v, l₂, _, rfl, hkey, hrun, hlinked.tableInv hcnt⟩
  · exact .inr hnot

end Inv

/-! ## The descriptors of a table -/

/-- The descriptor has a node in the tree. -/
def Table.Has (T : Table) (fd : Int) : Prop :=
  ∃ t, Represents T.nodes T.root t ∧ ∃ v ∈ t.toList, v.key = fd

lemma Linked.has_iff {T : Table} {l : List Item} {fd : Int} (hl : Linked T l) :
    T.Has fd ↔ ∃ v ∈ l, v.key = fd := by
  obtain ⟨t, hrep, rfl, -⟩ := hl.holds.tree
  constructor
  · rintro ⟨t', hrep', hv⟩
    rwa [hrep.unique hrep']
  · exact fun hv => ⟨t, hrep, hv⟩

/-! ## Runs -/

/-- A call and what it returned. -/
inductive Event where
  | newConn (fd : Int) (ret : Ptr)
  | freeConn (fd : Int) (ret : Int)

/-- The descriptor was added and not freed since. -/
def Live : List Event → Int → Prop
  | [], _ => False
  | .newConn fd' _ :: es, fd => fd' = fd ∨ Live es fd
  | .freeConn fd' _ :: es, fd => fd' ≠ fd ∧ Live es fd

/-- What the latest `newConn` for the descriptor returned. -/
def lastConn : List Event → Int → Ptr
  | [], _ => none
  | .newConn fd' ret :: es, fd => if fd' = fd then ret else lastConn es fd
  | .freeConn _ _ :: es, fd => lastConn es fd

/-- `newConn` may be called on `fd`, and `malloc` may return these addresses. -/
structure Allowed (es : List Event) (T : Table) (fd : Int) (node conn buf : ℕ) : Prop where
  fd_nonneg : IsFd fd
  not_live : ¬Live es fd
  node_free : T.nodes.lookup node = none
  conn_free : T.conns.lookup conn = none
  buf_free : T.bufs.lookup buf = none

/-- The calls `es`, newest first, lead from the empty table to `T`. -/
inductive Run : List Event → Table → Prop
  | nil : Run [] .empty
  | created {es : List Event} {T T' : Table} {fd : Int} {node conn buf : ℕ} {ret : Ptr} :
      Run es T → Allowed es T fd node conn buf → newConn T fd node conn buf = .ok (ret, T') →
      Run (.newConn fd ret :: es) T'
  | freed {es : List Event} {T T' : Table} {fd ret : Int} :
      Run es T → IsInt fd → freeConn T fd = .ok (ret, T') → Run (.freeConn fd ret :: es) T'

section Run

variable {es : List Event} {T : Table} {fd : Int} {l : List Item}

/-- The connections of a table are those the calls have left. -/
structure Tracks (es : List Event) (l : List Item) : Prop where
  live_iff : ∀ fd, Live es fd ↔ ∃ v ∈ l, v.key = fd
  data_eq : ∀ v ∈ l, v.data = lastConn es v.key

lemma Tracks.newConn {l₁ l₂ : List Item} {node conn : ℕ} (htr : Tracks es (l₁ ++ l₂))
    (hnot : ¬Live es fd) :
    Tracks (.newConn fd (some conn) :: es) (l₁ ++ ⟨node, fd, some conn⟩ :: l₂) := by
  constructor
  · intro fd'
    unfold Live
    rw [htr.live_iff]
    constructor
    · rintro (rfl | ⟨v, hv, hkey⟩)
      · exact ⟨_, mem_middle.mpr (.inl rfl), rfl⟩
      · exact ⟨v, mem_middle.mpr (.inr hv), hkey⟩
    · rintro ⟨v, hv, hkey⟩
      rcases mem_middle.mp hv with rfl | hv
      · exact .inl hkey
      · exact .inr ⟨v, hv, hkey⟩
  · intro v hv
    unfold lastConn
    rcases mem_middle.mp hv with rfl | hv
    · rw [if_pos rfl]
    · rw [if_neg fun heq => hnot ((htr.live_iff fd).mpr ⟨v, hv, heq.symm⟩)]
      exact htr.data_eq v hv

lemma Tracks.freeConn {l₁ l₂ : List Item} {v : Item} {ret : Int} (htr : Tracks es (l₁ ++ v :: l₂))
    (hother : ∀ w ∈ l₁ ++ l₂, w.key ≠ v.key) :
    Tracks (.freeConn v.key ret :: es) (l₁ ++ l₂) := by
  constructor
  · intro fd
    unfold Live
    rw [htr.live_iff]
    constructor
    · rintro ⟨hne, w, hw, rfl⟩
      rcases mem_middle.mp hw with rfl | hw
      · exact absurd rfl hne
      · exact ⟨w, hw, rfl⟩
    · rintro ⟨w, hw, rfl⟩
      exact ⟨Ne.symm (hother w hw), w, mem_middle.mpr (.inr hw), rfl⟩
  · intro w hw
    exact htr.data_eq w (mem_middle.mpr (.inr hw))

/-- **Every run keeps the invariant**, and the table holds the connections the run has left. -/
theorem Run.inv (hrun : Run es T) : ∃ l, TableInv T l ∧ Tracks es l := by
  induction hrun with
  | nil =>
      refine ⟨[], tableInv_empty, fun fd => ?_, fun v hv => absurd hv List.not_mem_nil⟩
      simp [Live]
  | created _ hall hcall ih =>
      obtain ⟨l, hinv, htr⟩ := ih
      have hnot := fun v hv hkey => hall.not_live ((htr.live_iff _).mpr ⟨v, hv, hkey⟩)
      obtain ⟨l₁, l₂, T', rfl, hnew, hinv'⟩ :=
        newConn_spec hinv hall.fd_nonneg hnot hall.node_free hall.conn_free hall.buf_free
      rw [hnew] at hcall
      cases hcall
      exact ⟨_, hinv', htr.newConn hall.not_live⟩
  | freed _ hfd hcall ih =>
      obtain ⟨l, hinv, htr⟩ := ih
      rcases freeConn_spec hinv hfd with ⟨l₁, v, l₂, T', rfl, rfl, hfree, hinv'⟩ | ⟨hnot, hfree⟩
      · rw [hfree] at hcall
        cases hcall
        exact ⟨_, hinv', htr.freeConn hinv.holds.key_ne⟩
      · rw [hfree] at hcall
        cases hcall
        refine ⟨l, hinv, fun fd' => ?_, htr.data_eq⟩
        unfold Live
        rw [htr.live_iff]
        constructor
        · exact fun h => h.2
        · rintro ⟨v, hv, rfl⟩
          exact ⟨Ne.symm (hnot v hv), v, hv, rfl⟩

/-- The descriptors of the table are those the run has left. -/
lemma Run.live_iff_has (hrun : Run es T) : Live es fd ↔ T.Has fd := by
  obtain ⟨l, hinv, htr⟩ := hrun.inv
  rw [htr.live_iff, hinv.linked.has_iff]

/-- The count fits an `int` as long as some descriptor is not in the table. -/
theorem Run.connCnt_lt (hrun : Run es T) {f : Int} (hf : IsFd f) (hfree : ¬Live es f) :
    0 ≤ T.connCnt ∧ T.connCnt < 2 ^ 31 := by
  obtain ⟨l, hinv, htr⟩ := hrun.inv
  have hfd := hinv.holds.keys
  have hnodup : (l.map fun v => v.key.toNat).Nodup := by
    refine List.pairwise_map.mpr (hinv.holds.sorted.imp_of_mem ?_)
    intro v w hv hw hlt heq
    have h₁ := (hfd v hv).1
    have h₂ := (hfd w hw).1
    omega
  have hsub : (l.map fun v => v.key.toNat).toFinset ⊆ (Finset.range (2 ^ 31)).erase f.toNat := by
    intro k hk
    obtain ⟨v, hv, rfl⟩ := List.mem_map.mp (List.mem_toFinset.mp hk)
    obtain ⟨h₀, h₁⟩ := hfd v hv
    have hne : v.key ≠ f := fun heq => hfree ((htr.live_iff _).mpr ⟨v, hv, heq⟩)
    have hf₀ := hf.1
    refine Finset.mem_erase.mpr ⟨?_, Finset.mem_range.mpr ?_⟩
    · omega
    · omega
  have hmem : f.toNat ∈ Finset.range (2 ^ 31) := by
    obtain ⟨h₀, h₁⟩ := hf
    exact Finset.mem_range.mpr (by omega)
  have hcard := Finset.card_le_card hsub
  rw [List.toFinset_card_of_nodup hnodup, List.length_map, Finset.card_erase_of_mem hmem,
    Finset.card_range] at hcard
  rw [hinv.connCnt_eq]
  omega

/-- The next call of a run goes well. -/
lemma Run.newConn_ok {node conn buf : ℕ} (hrun : Run es T) (hall : Allowed es T fd node conn buf) :
    ∃ T', newConn T fd node conn buf = .ok (some conn, T') := by
  obtain ⟨l, hinv, htr⟩ := hrun.inv
  have hnot := fun v hv hkey => hall.not_live ((htr.live_iff _).mpr ⟨v, hv, hkey⟩)
  obtain ⟨l₁, l₂, T', -, hnew, -⟩ :=
    newConn_spec hinv hall.fd_nonneg hnot hall.node_free hall.conn_free hall.buf_free
  exact ⟨T', hnew⟩

lemma Run.freeConn_ok (hrun : Run es T) (hfd : IsInt fd) : ∃ T', freeConn T fd = .ok (1, T') := by
  obtain ⟨l, hinv, -⟩ := hrun.inv
  rcases freeConn_spec hinv hfd with ⟨l₁, v, l₂, T', -, -, hfree, -⟩ | ⟨-, hfree⟩
  · exact ⟨T', hfree⟩
  · exact ⟨T, hfree⟩

/-- **The connection table is a map.** After every run: `connCnt` is the number of nodes;
`rb_search` finds a node exactly for the descriptors that were added and not freed since, and its
data is the `conn` the latest `newConn` returned, which is for that descriptor; the root is NULL
exactly when there is no connection; and the next call succeeds. -/
theorem table_is_map (hrun : Run es T) :
    (∃ t, Represents T.nodes T.root t ∧ T.connCnt = t.toList.length) ∧
      (∀ fd, IsInt fd → ∃ nd, rbSearch T.nodes fd T.root = .ok nd ∧ (nd ≠ none ↔ Live es fd) ∧
        ∀ a, nd = some a → ∃ n p c, T.nodes.lookup a = some n ∧ n.key = fd ∧ n.data = some p ∧
          lastConn es fd = some p ∧ T.conns.lookup p = some c ∧ c.fd = n.key) ∧
      (T.root = none ↔ T.connCnt = 0) ∧
      (∀ fd node conn buf, Allowed es T fd node conn buf →
        ∃ p T', p ≠ none ∧ newConn T fd node conn buf = .ok (p, T')) ∧
      ∀ fd, IsInt fd → ∃ T', freeConn T fd = .ok (1, T') := by
  obtain ⟨l, hinv, htr⟩ := hrun.inv
  refine ⟨?_, ?_, ?_, ?_, fun fd hfd => hrun.freeConn_ok hfd⟩
  · obtain ⟨t, hrep, rfl, -⟩ := hinv.holds.tree
    exact ⟨t, hrep, hinv.connCnt_eq⟩
  · intro fd hfd
    rcases rbSearch_spec hinv.holds hfd with ⟨v, hv, rfl, hsearch⟩ | ⟨hnot, hsearch⟩
    · refine ⟨some v.addr, hsearch, ⟨fun _ => ?_, fun _ => by simp⟩, ?_⟩
      · exact (htr.live_iff _).mpr ⟨v, hv, rfl⟩
      intro a ha
      obtain rfl := Option.some.inj ha
      obtain ⟨n, hn, hkey, hdata⟩ := hinv.holds.lookup hv
      obtain ⟨p, c, hp, hc, hcfd⟩ := hinv.owns v hv
      exact ⟨n, p, c, hn, hkey, hdata.trans hp, (htr.data_eq v hv).symm.trans hp, hc,
        hcfd.trans hkey.symm⟩
    · refine ⟨none, hsearch, ⟨fun h => absurd rfl h, fun hlive => ?_⟩, fun a ha => by cases ha⟩
      obtain ⟨v, hv, hkey⟩ := (htr.live_iff fd).mp hlive
      exact absurd hkey (hnot v hv)
  · rw [hinv.holds.root_eq_none, hinv.connCnt_eq, Int.natCast_eq_zero, List.length_eq_zero_iff]
  · intro fd node conn buf hall
    obtain ⟨T', hnew⟩ := hrun.newConn_ok hall
    exact ⟨some conn, T', by simp, hnew⟩

/-- Four connections, one of them closed again. -/
lemma run_three :
    ∃ T, Run [.freeConn 5 1, .newConn 6 (some 11), .newConn 8 (some 8), .newConn 3 (some 5),
      .newConn 5 (some 2)] T ∧ T.connCnt = 3 := by
  have hrun₁ := Run.created .nil
    (⟨by constructor <;> decide, by simp [Live], rfl, rfl, rfl⟩ : Allowed [] .empty 5 1 2 3) rfl
  have hrun₂ := Run.created hrun₁
    (⟨by constructor <;> decide, by simp [Live], rfl, rfl, rfl⟩ : Allowed _ _ 3 4 5 6) rfl
  have hrun₃ := Run.created hrun₂
    (⟨by constructor <;> decide, by simp [Live], rfl, rfl, rfl⟩ : Allowed _ _ 8 7 8 9) rfl
  have hrun₄ := Run.created hrun₃
    (⟨by constructor <;> decide, by simp [Live], rfl, rfl, rfl⟩ : Allowed _ _ 6 10 11 12) rfl
  exact ⟨_, .freed hrun₄ (by constructor <;> decide) rfl, rfl⟩

/-- Three connections, among them 3, and no longer 5. -/
theorem table_is_map_three :
    ∃ T : Table, T.connCnt = 3 ∧ (∃ t, Represents T.nodes T.root t ∧ T.connCnt = t.toList.length) ∧
      (∃ nd, rbSearch T.nodes 3 T.root = .ok nd ∧ nd ≠ none) ∧
      rbSearch T.nodes 5 T.root = .ok none := by
  obtain ⟨T, hrun, hcnt⟩ := run_three
  obtain ⟨htree, hfind, -⟩ := table_is_map hrun
  obtain ⟨nd, hsearch, hlive, -⟩ := hfind 3 (by constructor <;> decide)
  obtain ⟨nd', hsearch', hlive', -⟩ := hfind 5 (by constructor <;> decide)
  have hgone : nd' = none := by
    by_contra hne
    exact absurd (hlive'.mp hne) (by simp [Live])
  exact ⟨T, hcnt, htree, ⟨nd, hsearch, hlive.mpr (by simp [Live])⟩, hgone ▸ hsearch'⟩

/-- **The connection tree is a red-black tree**, in search order, with every parent pointer right;
and no call dereferences NULL, accesses freed memory or loops. -/
theorem table_is_redBlack (hrun : Run es T) :
    (∃ t, Represents T.nodes T.root t ∧ (t.toList.Pairwise fun a b => a.key < b.key) ∧
      t.IsRedBlack) ∧
      (∀ fd node conn buf, Allowed es T fd node conn buf →
        ∃ r, newConn T fd node conn buf = .ok r) ∧
      ∀ fd, IsInt fd → ∃ r, freeConn T fd = .ok r := by
  obtain ⟨l, hinv, -⟩ := hrun.inv
  obtain ⟨t, hrep, rfl, hrb⟩ := hinv.holds.tree
  refine ⟨⟨t, hrep, hinv.holds.sorted, hrb⟩, ?_, ?_⟩
  · intro fd node conn buf hall
    obtain ⟨T', hnew⟩ := hrun.newConn_ok hall
    exact ⟨_, hnew⟩
  · intro fd hfd
    obtain ⟨T', hfree⟩ := hrun.freeConn_ok hfd
    exact ⟨_, hfree⟩

/-- Three connections. -/
theorem table_is_redBlack_three :
    ∃ T : Table, T.connCnt = 3 ∧ ∃ t, Represents T.nodes T.root t ∧ t.IsRedBlack := by
  obtain ⟨T, hrun, hcnt⟩ := run_three
  obtain ⟨⟨t, hrep, -, hrb⟩, -⟩ := table_is_redBlack hrun
  exact ⟨T, hcnt, t, hrep, hrb⟩

end Run

end ActionDB.Net.Conn
