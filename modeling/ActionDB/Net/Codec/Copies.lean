import ActionDB.Net.Codec.Declared

/-!
# Copies into the argument rows

`parseOneMessage` copies each argument to its row of `argv`, and counts the bytes to copy without a
look at the size of a row. `copies` lists the states in which a scan copies an argument, and
`RowsKept` says what the copies should do: each stays in its row and leaves the last byte of it
alone, so that after the message every argument reads back as the C string of its row.

`stores` is what the scan copies, told from the bytes of the message alone, and `rowsKept_iff` says
for which messages the rows are kept: each copied argument is shorter than a row and has no NUL;
one that a `'!'` ends, whose row is not cleared, finds a NUL behind it; and one that the scan does
not reach is in its row already.
-/

namespace ActionDB.Net.Codec

open ActionDB.Found

/-! ## The copies a scan makes -/

/-- The states in which the scan loop copies an argument, with whether the row is cleared first. The
loop is that of `scan`.
Source: `net/codec.c`, the calls of `memcpy` in `parseOneMessage`. -/
def copies (r : Region) : List Byte → Scan → List (Bool × Scan)
  | [], _ => []
  | c :: rest, s =>
      if (s.buf.parsedLen : Int) = s.buf.readDatalen then []
      else if c = tab ∧ s.argLen = 0 then
        copies r rest { s.advance with preArgLen := s.preArgLen + 1 }
      else if c = tab then
        (true, s) :: match s.copyArg r true with
          | .error _ => []
          | .ok s' => if 3 < s'.nextArg.argCnt then [] else copies r rest s'.nextArg
      else if c = bang then [(false, s)]
      else copies r rest { s.advance with argLen := s.argLen + 1 }

/-- The copies that `parseOneMessage` makes for the message at `parsedLen`. -/
def Buffer.copies (b : Buffer) : List (Bool × Scan) :=
  Codec.copies .record ((b.opened.mem .record).drop b.opened.cursor) (.start b.opened)

/-- The copy stays in its row: there is such a row, the argument leaves its last byte alone, and
nothing but the row and the two positions that are moved to the argument changes. -/
structure InRow (clear : Bool) (s : Scan) : Prop where
  row : s.argCnt < argumentCnt / 2
  fits : s.argLen ≤ argumentCnt - 1
  fields : ∀ s', s.copyArg .record clear = .ok s' → s'.buf = { s.buf with
    argBeginpos := s'.buf.argBeginpos, parsedLen := s'.buf.parsedLen, argv := s'.buf.argv }
  rows : ∀ s', s.copyArg .record clear = .ok s' →
    ∀ j, j < 10 * s.argCnt ∨ 10 * (s.argCnt + 1) ≤ j →
      s'.buf.argv.cells[j]? = s.buf.argv.cells[j]?
  nul : ∀ s', s.copyArg .record clear = .ok s' →
    s.buf.argv.cells[10 * s.argCnt + 9]? = some 0 →
      s'.buf.argv.cells[10 * s.argCnt + 9]? = some 0

/-- The copies made for the message at `parsedLen` stay in their rows, and when `decod` has left it
to dispatch, its arguments are the C strings of the rows. -/
def RowsKept (b : Buffer) : Prop :=
  (b.head = .message → ∀ x ∈ b.copies, InRow x.1 x.2) ∧
    ∀ ret b' text, decod .record b = .ok (ret, b') → b'.parseFlag = 0 → HasText b text →
      ∀ i t, (arguments text)[i]? = some t → argString b'.argv i = .ok t

/-! ## The copies, told from the message -/

/-- The texts that are copied, the `i`-th to row `i`, with whether a tab ends it, so that its row is
cleared first. An argument that starts at `rd` is the last one. -/
def stores (rd : Int) : List Arg → Ending → List (Bool × List Byte)
  | a :: as, e => (true, a.text) :: if (a.start : Int) = rd then [] else stores rd as e
  | [], .bang last _ => [(false, last.text)]
  | [], _ => []

/-- The texts that are copied for the message at `parsedLen`. -/
def Buffer.stores (b : Buffer) : List (Bool × List Byte) :=
  if ((b.parsedLen + 6 : ℕ) : Int) = b.readDatalen then []
  else Codec.stores b.readDatalen (b.message .record).1 (b.message .record).2

/-- Row `i` will read back as `t`, the `i`-th argument of the message. -/
def Shown (b : Buffer) (i : ℕ) (t : List Byte) : Prop :=
  match b.stores[i]? with
  -- the row is cleared
  | some (true, _) => (0 : Byte) ∉ t
  -- the row is not cleared: behind the argument is what an earlier message has left
  | some (false, _) => (0 : Byte) ∉ t ∧ b.argv.cells[10 * i + t.length]? = some 0
  -- the scan does not get to the argument
  | none => argString b.argv i = .ok t

/-- Each argument of the message that is copied is shorter than a row, and each argument will read
back. -/
def Fitting (b : Buffer) : Prop :=
  b.head = .message → (∀ y ∈ b.stores, y.2.length ≤ 9) ∧
    ∀ text, HasText b text → ∀ i t, (arguments text)[i]? = some t → Shown b i t

/-! ## One copy -/

/-- The bytes that a copy writes. -/
def written (clear : Bool) (text : List Byte) : List Byte :=
  text ++ if clear then List.replicate (10 - text.length) 0 else []

lemma length_written_le (clear : Bool) {text : List Byte} (ht : text.length ≤ 9) :
    (written clear text).length ≤ 10 := by
  unfold written
  rw [List.length_append]
  split_ifs
  · rw [List.length_replicate]
    omega
  · rw [List.length_nil]
    omega

/-- Storing a short argument is one write inside its row. -/
lemma storeArg_put (argv : Area Byte argvSize) (clear : Bool) {k : ℕ} {text : List Byte}
    (hk : k ≤ 4) (ht : text.length ≤ 9) :
    ∃ h : 10 * k + (written clear text).length ≤ argvSize,
      storeArg id clear argv k text = .ok (argv.put (10 * k) (written clear text) h) := by
  cases clear with
  | true =>
      have hstore := storeArg_true id argv hk ht
      simp only [List.map_id] at hstore
      exact hstore
  | false =>
      have hw : written false text = text := List.append_nil text
      have h : 10 * k + text.length ≤ argvSize := by
        show 10 * k + text.length ≤ 76
        omega
      have hstore : storeArg id false argv k text = _ :=
        storeArg_false id argv (by rwa [List.map_id])
      simp only [List.map_id] at hstore
      rw [hw]
      exact ⟨h, hstore⟩

/-- A copy of the open argument stays in its row exactly when the argument is shorter than a row. -/
lemma inRow_iff {s : Scan} {start : ℕ} {text rest : List Byte} (h : s.At .record start text rest)
    (hk : s.argCnt ≤ 3) (clear : Bool) : InRow clear s ↔ text.length ≤ 9 := by
  have hlen := h.argLen
  constructor
  · intro hin
    have hfits : s.argLen ≤ 9 := hin.fits
    omega
  · intro ht
    obtain ⟨hle, hput⟩ := storeArg_put s.buf.argv clear (by omega : s.argCnt ≤ 4) ht
    have hw := length_written_le clear ht
    have hcopy := s.copyArg_eq h clear
    rw [hput] at hcopy
    refine ⟨?_, ?_, ?_, ?_, ?_⟩
    · show s.argCnt < 5
      omega
    · show s.argLen ≤ 9
      omega
    · intro s' hs'
      obtain rfl := Except.ok.inj (hcopy.symm.trans hs')
      rfl
    · intro s' hs' j hj
      obtain rfl := Except.ok.inj (hcopy.symm.trans hs')
      rcases hj with hj | hj
      · exact Area.getElem?_put_of_lt hle hj
      · exact Area.getElem?_put_of_le hle (by omega)
    · intro s' hs' hnul
      obtain rfl := Except.ok.inj (hcopy.symm.trans hs')
      cases clear with
      | true =>
          have hdrop := congrArg (·[9]?) (Area.drop_put (a := s.buf.argv) hle)
          simp only [List.getElem?_drop] at hdrop
          refine hdrop.trans ?_
          rw [written, if_pos rfl, List.append_assoc, List.getElem?_append_right ht,
            List.getElem?_append_left (by rw [List.length_replicate]; omega),
            List.getElem?_replicate, if_pos (by omega)]
      | false =>
          have hw : written false text = text := List.append_nil text
          refine (Area.getElem?_put_of_le hle ?_).trans hnul
          rw [hw]
          omega

/-! ## The copies of a message -/

/-- When the loop condition fails nothing is copied. -/
lemma copies_of_drained {r : Region} {s : Scan} (h : (s.buf.parsedLen : Int) = s.buf.readDatalen)
    (rest : List Byte) : copies r rest s = [] := by
  cases rest <;> simp [copies, h]

/-- A tab that ends an argument: the argument is copied, and if it is short the loop goes on behind
the tab, unless it was the fourth. -/
lemma copies_tab {s : Scan} {start : ℕ} {text rest : List Byte}
    (h : s.At .record start text (tab :: rest)) (hk : s.argCnt ≤ 3)
    (hne : (s.buf.parsedLen : Int) ≠ s.buf.readDatalen) (ht : text ≠ []) :
    ∃ tail, copies .record (tab :: rest) s = (true, s) :: tail ∧
      (text.length ≤ 9 → ∃ s' : Scan, s'.At .record (start + text.length + 1) [] rest ∧
        s'.argCnt = s.argCnt + 1 ∧ s'.buf.readDatalen = s.buf.readDatalen ∧
        s'.buf.parsedLen = start ∧ tail = if 3 ≤ s.argCnt then [] else copies .record rest s') := by
  have hlen : s.argLen ≠ 0 := by
    rw [h.argLen]
    simpa using ht
  rw [copies, if_neg hne, if_neg (fun hand => hlen hand.2), if_pos rfl]
  refine ⟨_, rfl, fun h9 => ?_⟩
  obtain ⟨hle, hput⟩ := storeArg_put s.buf.argv true (by omega : s.argCnt ≤ 4) h9
  refine ⟨_, h.nextArg (s.buf.argv.put (10 * s.argCnt) (written true text) hle), rfl, rfl, rfl, ?_⟩
  rw [s.copyArg_eq h, hput]
  have hfour : (3 < s.argCnt + 1) = (3 ≤ s.argCnt) := propext Nat.lt_succ_iff
  simp only [Except.map, Scan.nextArg, hfour]

/-- **The copies stay in their rows exactly when the copied texts are shorter than a row**, from any
state that meets the loop invariant. The induction is that of `scan_eq_load`; as long as the texts
are short no copy faults, so the loop goes on as `stores` does. -/
theorem copies_inRow_iff (rest : List Byte) (s : Scan) (start : ℕ) (text : List Byte)
    (h : s.At .record start text rest) (hk : s.argCnt ≤ 3)
    (hne : (s.buf.parsedLen : Int) ≠ s.buf.readDatalen) :
    (∀ x ∈ copies .record rest s, InRow x.1 x.2) ↔
      ∀ y ∈ stores s.buf.readDatalen (lex start text s.argCnt rest).1
        (lex start text s.argCnt rest).2, y.2.length ≤ 9 := by
  induction rest generalizing s start text with
  | nil => simp [copies, lex, stores]
  | cons c rest ih =>
      by_cases hc : c = tab
      · subst hc
        by_cases ht : text = []
        · subst ht
          rw [copies, if_neg hne, if_pos ⟨rfl, h.argLen⟩, lex, if_pos rfl, if_pos rfl]
          exact ih _ _ _ h.skipTab hk hne
        · obtain ⟨tail, hcopies, hshort⟩ := copies_tab h hk hne ht
          rw [hcopies, List.forall_mem_cons, inRow_iff h hk true, lex, if_pos rfl, if_neg ht]
          by_cases h3 : 3 ≤ s.argCnt
          · rw [if_pos h3, stores, List.forall_mem_cons]
            refine and_congr_right fun h9 => ?_
            obtain ⟨s', -, -, -, -, rfl⟩ := hshort h9
            simp [h3, stores]
          · rw [if_neg h3, stores, List.forall_mem_cons]
            refine and_congr_right fun h9 => ?_
            obtain ⟨s', hAt, hcnt, hrd, hpl, rfl⟩ := hshort h9
            rw [if_neg h3]
            by_cases hd : (start : Int) = s.buf.readDatalen
            · rw [if_pos hd, copies_of_drained (by rw [hpl, hrd, hd])]
              simp
            · have hrest := ih s' _ _ hAt (by omega) (by rwa [hpl, hrd])
              rw [hrd, hcnt] at hrest
              rw [if_neg hd, hrest]
      · by_cases hb : c = bang
        · subst hb
          rw [copies, if_neg hne, if_neg (fun hand => hc hand.1), if_neg hc, if_pos rfl, lex,
            if_neg hc, if_pos rfl, stores, List.forall_mem_singleton, List.forall_mem_singleton]
          exact inRow_iff h hk false
        · rw [copies, if_neg hne, if_neg (fun hand => hc hand.1), if_neg hc, if_neg hb, lex,
            if_neg hc, if_neg hb]
          exact ih _ _ _ h.readByte hk hne

/-- The copies made for a message. -/
lemma Buffer.copies_inRow_iff (b : Buffer) :
    (∀ x ∈ b.copies, InRow x.1 x.2) ↔ ∀ y ∈ b.stores, y.2.length ≤ 9 := by
  unfold Buffer.copies Buffer.stores
  by_cases h6 : ((b.parsedLen + 6 : ℕ) : Int) = b.readDatalen
  · rw [if_pos h6, copies_of_drained (by exact h6)]
    simp
  · have hAt : (Scan.start b.opened).At .record (b.parsedLen + 6) []
        ((b.opened.mem .record).drop b.opened.cursor) := ⟨rfl, rfl, rfl, rfl, rfl⟩
    rw [if_neg h6]
    exact Codec.copies_inRow_iff _ _ _ _ hAt (Nat.zero_le 3) h6

/-! ## What the copies leave -/

/-- `argv'` is `argv` after the texts have been copied, the first to row `k`. -/
structure Stored (argv argv' : Area Byte argvSize) (k : ℕ) (ys : List (Bool × List Byte)) :
    Prop where
  before : argv'.cells.take (10 * k) = argv.cells.take (10 * k)
  copied : ∀ i clear u, ys[i]? = some (clear, u) →
    ∃ rest, argv'.cells.drop (10 * (k + i)) = written clear u ++ rest ∧
      (clear = false → rest = argv.cells.drop (10 * (k + i) + u.length))
  behind : ∀ i, ys.length ≤ i → argv'.cells.drop (10 * (k + i)) = argv.cells.drop (10 * (k + i))

lemma stored_nil (argv : Area Byte argvSize) (k : ℕ) : Stored argv argv k [] :=
  ⟨rfl, fun _ _ _ hi => by simp at hi, fun _ _ => rfl⟩

/-- A copy in front of others, which do not touch its row. -/
lemma Stored.cons {argv argv' : Area Byte argvSize} {k : ℕ} {u : List Byte}
    {ys : List (Bool × List Byte)} (hu : u.length ≤ 9)
    (h : 10 * k + (written true u).length ≤ argvSize)
    (htail : Stored (argv.put (10 * k) (written true u) h) argv' (k + 1) ys) :
    Stored argv argv' k ((true, u) :: ys) := by
  have hw := length_written_le true hu
  have hrows : ∀ {j}, 10 * (k + 1) ≤ j →
      (argv.put (10 * k) (written true u) h).cells.drop j = argv.cells.drop j :=
    fun hj => Area.drop_put_of_le h (by omega)
  have hindex : ∀ i, k + (i + 1) = k + 1 + i := by
    intro i
    omega
  refine ⟨?_, ?_, ?_⟩
  · have htake := congrArg (List.take (10 * k)) htail.before
    rw [List.take_take, List.take_take, min_eq_left (by omega), Area.take_put h le_rfl] at htake
    exact htake
  · intro i clear v hi
    cases i with
    | zero =>
        obtain ⟨rfl, rfl⟩ := Prod.mk.inj (Option.some.inj hi)
        refine ⟨argv'.cells.drop (10 * (k + 1)), ?_, by simp⟩
        have hten : (written true u).length = 10 := by
          simp only [written, if_true, List.length_append, List.length_replicate]
          omega
        have hrow : (argv'.cells.drop (10 * k)).take 10 = written true u := by
          have hnext : 10 * k + 10 = 10 * (k + 1) := by omega
          rw [List.take_drop, hnext, htail.before, ← hnext, ← List.take_drop, Area.drop_put h,
            List.take_left' hten]
        rw [Nat.add_zero, ← hrow, show 10 * (k + 1) = 10 * k + 10 by omega, ← List.drop_drop,
          List.take_append_drop]
    | succ i =>
        obtain ⟨rest, hcells, hold⟩ := htail.copied i clear v hi
        refine ⟨rest, by rw [hindex i, hcells], fun hclear => ?_⟩
        rw [hold hclear, hindex i, hrows (by omega)]
  · intro i hi
    cases i with
    | zero => simp at hi
    | succ i =>
        rw [hindex i, htail.behind i (by simpa using hi), hrows (by omega)]

/-- The copy of an argument that a `'!'` ends. -/
lemma stored_last (argv : Area Byte argvSize) {k : ℕ} {u : List Byte}
    (h : 10 * k + (written false u).length ≤ argvSize) (hu : u.length ≤ 9) :
    Stored argv (argv.put (10 * k) (written false u) h) k [(false, u)] := by
  have hw : (written false u).length = u.length := congrArg List.length (List.append_nil u)
  refine ⟨Area.take_put h le_rfl, ?_, ?_⟩
  · intro i clear v hi
    cases i with
    | zero =>
        obtain ⟨rfl, rfl⟩ := Prod.mk.inj (Option.some.inj hi)
        refine ⟨_, Area.drop_put h, fun _ => ?_⟩
        rw [hw]
        rfl
    | succ i => simp at hi
  · intro i hi
    rw [List.length_singleton] at hi
    exact Area.drop_put_of_le h (by omega)

/-- The message can be loaded behind `k` arguments: it has an end, and at most three arguments, or
a fourth that ends it. -/
def Ready (k : ℕ) (as : List Arg) : Ending → Prop
  | .bang _ next => k + as.length ≤ 3 ∧ next ≠ none
  | .fourth => k + as.length = 4
  | .missing => False

lemma Ready.tail {k : ℕ} {a : Arg} {as : List Arg} {e : Ending} (h : Ready k (a :: as) e) :
    Ready (k + 1) as e := by
  have hlen : k + (a :: as).length = k + 1 + as.length := by
    rw [List.length_cons]
    omega
  cases e with
  | bang last next => exact ⟨hlen ▸ h.1, h.2⟩
  | fourth => exact hlen.symm.trans h
  | missing => exact h

/-- **Loading a message whose copied arguments are short** succeeds, and leaves them in their
rows. -/
theorem load_stored (rd : Int) (k : ℕ) (argv : Area Byte argvSize) (as : List Arg) (e : Ending)
    (hk : k ≤ 3) (h : Ready k as e) (hshort : ∀ y ∈ stores rd as e, y.2.length ≤ 9) :
    ∃ l, load id rd k argv as e = .ok l ∧ Stored argv l.argv k (stores rd as e) := by
  induction as generalizing k argv with
  | nil =>
      cases e with
      | bang last next =>
          obtain ⟨c, rfl⟩ := Option.ne_none_iff_exists'.mp h.2
          have hlast : last.text.length ≤ 9 := hshort (false, last.text) List.mem_cons_self
          obtain ⟨hle, hput⟩ := storeArg_put argv false (by omega : k ≤ 4) hlast
          simp only [load, hput]
          exact ⟨_, rfl, stored_last argv hle hlast⟩
      | fourth =>
          have hfour : k + 0 = 4 := h
          omega
      | missing => exact h.elim
  | cons a as ih =>
      have ha : a.text.length ≤ 9 := hshort (true, a.text) List.mem_cons_self
      obtain ⟨hle, hput⟩ := storeArg_put argv true (by omega : k ≤ 4) ha
      simp only [load, hput, stores]
      by_cases h3 : 3 ≤ k
      · -- the fourth argument is the last one
        have hlast : as = [] ∧ e = .fourth := by
          cases e with
          | bang last next =>
              have hfew : k + (as.length + 1) ≤ 3 := h.1
              omega
          | fourth =>
              have hfour : k + (as.length + 1) = 4 := h
              exact ⟨List.eq_nil_of_length_eq_zero (by omega), rfl⟩
          | missing => exact h.elim
        obtain ⟨rfl, rfl⟩ := hlast
        rw [if_pos h3]
        refine ⟨_, rfl, Stored.cons ha hle ?_⟩
        simpa [stores] using stored_nil _ (k + 1)
      · rw [if_neg h3]
        by_cases hd : (a.start : Int) = rd
        · rw [if_pos hd, if_pos hd]
          exact ⟨_, rfl, Stored.cons ha hle (stored_nil _ (k + 1))⟩
        · rw [if_neg hd, if_neg hd]
          have hshort' : ∀ y ∈ stores rd as e, y.2.length ≤ 9 := by
            intro y hy
            apply hshort y
            rw [stores, if_neg hd]
            exact List.mem_cons_of_mem _ hy
          obtain ⟨l, hload, hstored⟩ := ih (k + 1) _ (by omega) h.tail hshort'
          exact ⟨l, hload, Stored.cons ha hle hstored⟩

/-! ## Reading the rows back -/

lemma argString_eq_ok_iff {argv : Area Byte argvSize} {i : ℕ} {t : List Byte} :
    argString argv i = .ok t ↔ cstr (argv.cells.drop (10 * i)) = some t := by
  unfold argString argumentCnt
  cases cstr (argv.cells.drop (10 * i)) <;> simp

/-- The text that is open where the message ends. -/
def Ending.texts : Ending → List (List Byte)
  | bang last _ => [last.text]
  | _ => []

/-- The texts that are copied are the first ones of the message. -/
lemma stores_prefix (rd : Int) (as : List Arg) (e : Ending) :
    (stores rd as e).map Prod.snd <+: as.map Arg.text ++ e.texts := by
  induction as with
  | nil =>
      cases e with
      | bang last next => exact List.prefix_rfl
      | fourth | missing => exact List.nil_prefix
  | cons a as ih =>
      rw [stores, List.map_cons, List.map_cons, List.cons_append, List.cons_prefix_cons]
      refine ⟨rfl, ?_⟩
      split_ifs
      · exact List.nil_prefix
      · exact ih

/-- The `i`-th text that is copied is the `i`-th argument of the message. -/
lemma stores_text {b : Buffer} {text : List Byte} {i : ℕ} {clear : Bool} {u t : List Byte}
    (ht : HasText b text) (hu : b.stores[i]? = some (clear, u))
    (hi : (arguments text)[i]? = some t) : u = t := by
  -- both lists are prefixes of one list
  suffices hall : ∃ all, b.stores.map Prod.snd <+: all ∧ arguments text <+: all by
    obtain ⟨all, hstores, hargs⟩ := hall
    have hpick : ∀ {l : List (List Byte)} {x}, l <+: all → l[i]? = some x → all[i]? = some x := by
      rintro l x ⟨r, rfl⟩ hx
      rw [List.getElem?_append_left (List.getElem?_eq_some_iff.mp hx).1, hx]
    have hsnd : (b.stores.map Prod.snd)[i]? = some u := by
      rw [List.getElem?_map, hu]
      rfl
    exact Option.some.inj ((hpick hstores hsnd).symm.trans (hpick hargs hi))
  unfold Buffer.stores
  split_ifs
  · exact ⟨_, List.nil_prefix, List.prefix_rfl⟩
  have hpre := stores_prefix b.readDatalen (b.message .record).1 (b.message .record).2
  have hlex := ht.lexed
  generalize b.message .record = m at hlex hpre
  cases hlex with
  | bang args last before stop opened texts =>
      refine ⟨_, hpre, ?_⟩
      rw [← texts]
      refine (List.prefix_append_right_inj _).mpr ?_
      by_cases hnil : last.text = []
      · rw [hnil]
        exact List.nil_prefix
      · rw [arguments_eq_singleton hnil opened.noTab]
        exact List.prefix_rfl
  | fourth args before texts =>
      refine ⟨_, hpre.trans ?_, List.prefix_rfl⟩
      show args.map Arg.text ++ [] <+: arguments text
      rwa [List.append_nil]

/-- A message inside the buffer can be loaded. -/
lemma HasText.ready {b : Buffer} {text : List Byte} (ht : HasText b text) :
    Ready 0 (b.message .record).1 (b.message .record).2 := by
  have hfour := b.length_message .record
  have hle : 0 + (b.message .record).1.length ≤ 4 := length_lex_le _ [] 0 _ (Nat.zero_le 3)
  have hlex := ht.lexed
  generalize b.message .record = m at hlex hfour hle
  cases hlex with
  | bang args last before stop opened texts =>
      refine ⟨?_, Option.some_ne_none _⟩
      exact not_lt.mp fun hmany => Ending.noConfusion (hfour.mp hmany)
  | fourth args before texts => exact le_antisymm hle (hfour.mpr rfl)

/-- Loading the message at `parsedLen`. -/
lemma loads_stored {b : Buffer} {text : List Byte} (ht : HasText b text)
    (hshort : ∀ y ∈ b.stores, y.2.length ≤ 9) :
    ∃ l, b.loads .record = .ok l ∧ Stored b.argv l.argv 0 b.stores := by
  unfold Buffer.stores at hshort ⊢
  unfold Buffer.loads loadMessage
  split_ifs at hshort ⊢
  · exact ⟨_, rfl, stored_nil _ 0⟩
  · exact load_stored _ 0 _ _ _ (Nat.zero_le 3) ht.ready hshort

/-- After the copies, a row reads back as its argument exactly when `Shown` says so. -/
lemma Stored.argString_iff {b : Buffer} {argv : Area Byte argvSize} {text t : List Byte} {i : ℕ}
    (h : Stored b.argv argv 0 b.stores) (hshort : ∀ y ∈ b.stores, y.2.length ≤ 9)
    (ht : HasText b text) (hi : (arguments text)[i]? = some t) :
    argString argv i = .ok t ↔ Shown b i t := by
  rw [argString_eq_ok_iff]
  unfold Shown
  cases hy : b.stores[i]? with
  | none =>
      have hcells := h.behind i (List.getElem?_eq_none_iff.mp hy)
      rw [Nat.zero_add] at hcells
      rw [hcells, argString_eq_ok_iff]
  | some y =>
      obtain ⟨clear, u⟩ := y
      obtain rfl := stores_text ht hy hi
      have h9 : u.length ≤ 9 := hshort _ (List.mem_of_getElem? hy)
      obtain ⟨rest, hcells, hold⟩ := h.copied i clear u hy
      rw [Nat.zero_add] at hcells hold
      rw [hcells, written, List.append_assoc, cstr_append_eq_iff]
      cases clear with
      | true =>
          obtain ⟨n, hn⟩ : ∃ n, 10 - u.length = n + 1 := ⟨9 - u.length, by omega⟩
          simp [hn, List.replicate_succ]
      | false => simp [hold rfl, List.head?_drop]

/-- **Row confinement of one call.** -/
theorem rowsKept_iff {b : Buffer} (hrd : b.readDatalen ≤ 100) : RowsKept b ↔ Fitting b := by
  constructor
  · rintro ⟨hcopies, hstrings⟩ hh
    have hshort := b.copies_inRow_iff.mp (hcopies hh)
    refine ⟨hshort, fun text ht i t hi => ?_⟩
    obtain ⟨l, hl, hstored⟩ := loads_stored ht hshort
    have hd := decod_message .record hrd hh
    rw [hl] at hd
    exact (hstored.argString_iff hshort ht hi).mp (hstrings _ _ text hd rfl ht i t hi)
  · intro hfit
    refine ⟨fun hh => b.copies_inRow_iff.mpr (hfit hh).1, ?_⟩
    intro ret b' text hd hflag ht i t hi
    obtain ⟨hh, l, hl, rfl⟩ := decod_dispatches hrd hd (by simp [hflag])
    obtain ⟨hshort, hshown⟩ := hfit hh
    obtain ⟨l', hl', hstored⟩ := loads_stored ht hshort
    obtain rfl : l' = l := Except.ok.inj (hl'.symm.trans hl)
    exact (hstored.argString_iff hshort ht hi).mpr (hshown text ht i t hi)

/-- **Arguments stay in their rows.** Whatever the reads deliver, each call of `decod` copies the
arguments of its message into their rows, and leaves them there to be read back, if the message is
fitting, and only then. -/
theorem rowsKept_of_mem_calls (xs : List ReadResult) (b : Buffer)
    (hb : b ∈ calls (connEvents xs)) : RowsKept b ↔ Fitting b :=
  rowsKept_iff (held_of_mem_calls xs b hb).read_le

/-- The frame of `set k v`. -/
def frameKV : List Byte := makeCommand (strSet ++ [32, 107, 32, 118])

/-- The arguments of `set k v` stay in their rows. -/
theorem rowsKept_frameKV :
    received frameKV (by decide) ∈ calls (connEvents [.data frameKV]) ∧
      (received frameKV (by decide)).head = .message ∧ RowsKept (received frameKV (by decide)) := by
  have hmem : received frameKV (by decide) ∈ calls (connEvents [.data frameKV]) := by
    decide +kernel
  refine ⟨hmem, by decide +kernel, (rowsKept_of_mem_calls _ _ hmem).mpr fun _ => ?_⟩
  have hstores : (received frameKV (by decide)).stores =
      [(true, strSet), (true, [107]), (true, [118]), (false, [])] := by
    decide +kernel
  have htext : HasText (received frameKV (by decide))
      ([tab] ++ strSet ++ [tab, 107, tab, 118, tab]) := ⟨⟨_, rfl⟩, by decide⟩
  have hargs : arguments ([tab] ++ strSet ++ [tab, 107, tab, 118, tab]) =
      [strSet, [107], [118]] := by
    decide
  refine ⟨by rw [hstores]; decide, fun text ht i t hi => ?_⟩
  rw [ht.unique htext, hargs] at hi
  unfold Shown
  rw [hstores]
  match i, hi with
  | 0, hi | 1, hi | 2, hi =>
      obtain rfl := Option.some.inj hi
      simp [strSet]

/-- A command whose key is as long as a row. -/
def frameLongKey : List Byte := makeCommand (strSet ++ [32] ++ List.replicate 10 97 ++ [32, 118])

/-- **A key that leaves its row.** The key of ten bytes fills its row to the end, so as a C string
it runs on into the value: `set aaaaaaaaaa v` stores under `aaaaaaaaaav`. -/
theorem not_rowsKept_longKey :
    (∃ b ∈ calls (connEvents [.data frameLongKey]), (∃ text, HasText b text) ∧ ¬RowsKept b) ∧
      dispatched (connEvents [.data frameLongKey]) =
        [.set (List.replicate 10 97 ++ [118]) [118]] := by
  refine ⟨⟨received frameLongKey (by decide), by decide +kernel, ?_, ?_⟩, by decide +kernel⟩
  · exact ⟨[tab] ++ strSet ++ [tab] ++ List.replicate 10 97 ++ [tab, 118, tab], ⟨_, rfl⟩, by decide⟩
  · rintro ⟨hcopies, -⟩
    have hlong : ∃ x ∈ (received frameLongKey (by decide)).copies, ¬x.2.argLen ≤ 9 := by
      decide +kernel
    obtain ⟨x, hx, hlen⟩ := hlong
    exact hlen (hcopies (by decide +kernel) x hx).fits

end ActionDB.Net.Codec
