import ActionDB.Net.Codec.Lex
import ActionDB.Net.Codec.TcpRead

/-!
# Argument rows

`Row argv i s` says that row `i` of `argv` holds the string `s` and nothing else: its bytes,
zeros up to the end of the row, and at least one of them. Storing a short argument that a tab
ends makes its row such a row and leaves the others alone (`storeArg_row`), so after a message
whose fields are short every field can be read back (`load_fields`).
-/

namespace ActionDB.Net.Codec

open ActionDB.Found

/-- Row `i` of `argv` holds the string `s`, padded with zeros. -/
structure Row (argv : Area Byte argvSize) (i : ℕ) (s : List Byte) : Prop where
  cells : (argv.cells.drop (10 * i)).take 10 = s ++ List.replicate (10 - s.length) 0
  short : s.length ≤ 9
  noNul : (0 : Byte) ∉ s

/-- A row is read back as its string. -/
lemma Row.cstr_eq {argv : Area Byte argvSize} {i : ℕ} {s : List Byte} (h : Row argv i s) :
    cstr (argv.cells.drop (10 * i)) = some s := by
  obtain ⟨hc, hs, hn⟩ := h
  have hsplit := List.take_append_drop 10 (argv.cells.drop (10 * i))
  obtain ⟨m, hm⟩ : ∃ m, 10 - s.length = m + 1 := ⟨9 - s.length, by omega⟩
  rw [hc, hm, List.replicate_succ, List.append_assoc] at hsplit
  rw [← hsplit]
  exact cstr_append hn _

lemma Row.argString_eq {argv : Area Byte argvSize} {i : ℕ} {s : List Byte} (h : Row argv i s) :
    argString argv i = .ok s := by
  simp only [argString, argumentCnt, h.cstr_eq]

/-- The command name is compared as a C string. -/
lemma Row.strcmpEq_iff {argv : Area Byte argvSize} {s t : List Byte} (h : Row argv 0 s)
    (ht : (0 : Byte) ∉ t) : strcmpEq argv.cells t = true ↔ s = t := by
  have hs := h.cstr_eq
  simp only [Nat.mul_zero, List.drop_zero] at hs
  rw [ActionDB.Found.strcmpEq_iff ht, hs, Option.some.injEq]

/-! ## Storing one argument -/

section Store

variable {α : Type} (cell : Byte → α) (argv : Area α argvSize) {k : ℕ} {text : List Byte}

/-- Copying a text that fits is one write. -/
lemma storeArg_false (h : 10 * k + (text.map cell).length ≤ argvSize) :
    storeArg cell false argv k text = .ok (argv.put (10 * k) (text.map cell) h) := by
  simp only [storeArg, argumentCnt, Bool.false_eq_true, if_false, Option.bind_some,
    Area.write_of_le h]

/-- Clearing a row and copying a short text to it is one write of the padded text. -/
lemma storeArg_true (hk : k ≤ 4) (ht : text.length ≤ 9) :
    ∃ h : 10 * k + ((text ++ List.replicate (10 - text.length) 0).map cell).length ≤ argvSize,
      storeArg cell true argv k text =
        .ok (argv.put (10 * k) ((text ++ List.replicate (10 - text.length) 0).map cell) h) := by
  have hlen : ((text ++ List.replicate (10 - text.length) 0).map cell).length = 10 := by
    rw [List.length_map, List.length_append, List.length_replicate]
    omega
  have hpad : 10 * k + ((text ++ List.replicate (10 - text.length) 0).map cell).length ≤
      argvSize := by
    rw [hlen]
    show 10 * k + 10 ≤ 76
    omega
  have hz : 10 * k + (List.replicate 10 (cell 0)).length ≤ argvSize := by
    show 10 * k + 10 ≤ 76
    omega
  have htx : 10 * k + (text.map cell).length ≤ argvSize := by
    rw [List.length_map]
    show 10 * k + text.length ≤ 76
    omega
  refine ⟨hpad, ?_⟩
  simp only [storeArg, argumentCnt, if_true]
  rw [Area.write_of_le hz, Option.bind_some, Area.write_of_le htx]
  simp only [Except.ok.injEq]
  ext1
  have hdrop : (argv.put (10 * k) (List.replicate 10 (cell 0)) hz).cells.drop
      (10 * k + (text.map cell).length) =
        List.replicate (10 - text.length) (cell 0) ++ argv.cells.drop (10 * k + 10) := by
    rw [← List.drop_drop, Area.drop_put, List.drop_append_of_le_length (by simp; omega),
      List.drop_replicate, List.length_replicate, List.length_map]
  show (argv.put (10 * k) (List.replicate 10 (cell 0)) hz).cells.take (10 * k) ++ text.map cell ++
    (argv.put (10 * k) (List.replicate 10 (cell 0)) hz).cells.drop
      (10 * k + (text.map cell).length) = _
  rw [Area.take_put hz le_rfl, hdrop, Area.put]
  dsimp only
  rw [hlen]
  simp only [List.map_append, List.map_replicate, List.append_assoc]

/-- An empty argument before `'!'` changes nothing. -/
lemma storeArg_nil (hk : k ≤ 5) : storeArg cell false argv k [] = .ok argv := by
  have h : 10 * k + (([] : List Byte).map cell).length ≤ argvSize := by
    show 10 * k + 0 ≤ 76
    omega
  have hput : argv.put (10 * k) (([] : List Byte).map cell) h = argv := by
    ext1
    simp [Area.put]
  rw [storeArg_false cell argv h, hput]

/-- A write inside a row leaves the other rows alone. -/
lemma row_put_of_ne {src : List α} (h : 10 * k + src.length ≤ argvSize) (hsrc : src.length ≤ 10)
    {j : ℕ} (hj : j ≠ k) :
    ((argv.put (10 * k) src h).cells.drop (10 * j)).take 10 =
      (argv.cells.drop (10 * j)).take 10 := by
  rcases lt_or_gt_of_ne hj with hlt | hgt
  · rw [List.take_drop, Area.take_put h (by omega), ← List.take_drop]
  · rw [Area.drop_put_of_le h (by omega)]

end Store

/-- **Storing a short argument that a tab ends**: it becomes a row, and every other row stays. -/
lemma storeArg_row (argv : Area Byte argvSize) {k : ℕ} {text : List Byte} (hk : k ≤ 4)
    (ht : text.length ≤ 9) (hn : (0 : Byte) ∉ text) :
    ∃ argv', storeArg id true argv k text = .ok argv' ∧ Row argv' k text ∧
      ∀ j s, j ≠ k → Row argv j s → Row argv' j s := by
  obtain ⟨h, heq⟩ := storeArg_true id argv hk ht
  have hlen : ((text ++ List.replicate (10 - text.length) (0 : Byte)).map id).length = 10 := by
    rw [List.map_id, List.length_append, List.length_replicate]
    omega
  refine ⟨_, heq, ⟨?_, ht, hn⟩, ?_⟩
  · rw [Area.drop_put, List.take_append_of_le_length hlen.ge, List.take_of_length_le hlen.le,
      List.map_id]
  · rintro j s hj ⟨hc, hs, hsn⟩
    exact ⟨(row_put_of_ne argv h hlen.le hj).trans hc, hs, hsn⟩

/-! ## Fields -/

/-- The arguments that fields make when each is followed by one tab and the first starts at
`start`. -/
def argsFrom (start : ℕ) : List (List Byte) → List Arg
  | [] => []
  | f :: fs => ⟨start, f⟩ :: argsFrom (start + f.length + 1) fs

/-- The offset behind the fields and their tabs. -/
def fieldsEnd (start : ℕ) : List (List Byte) → ℕ
  | [] => start
  | f :: fs => fieldsEnd (start + f.length + 1) fs

/-- The bytes of fields, each followed by a tab. -/
def joinFields (fs : List (List Byte)) : List Byte := fs.flatMap (· ++ [tab])

/-- A field that can stand in a message. -/
structure Field (f : List Byte) : Prop where
  ne_nil : f ≠ []
  short : f.length ≤ 9
  noTab : tab ∉ f
  noBang : bang ∉ f
  noNul : (0 : Byte) ∉ f

/-- The bytes of an argument are read one by one. -/
lemma lex_append (start : ℕ) (text : List Byte) (k : ℕ) {f : List Byte} (rest : List Byte)
    (ht : tab ∉ f) (hb : bang ∉ f) :
    lex start text k (f ++ rest) = lex start (text ++ f) k rest := by
  induction f generalizing text with
  | nil => simp
  | cons c f ih =>
      have hct : c ≠ tab := fun h => ht (by simp [h])
      have hcb : c ≠ bang := fun h => hb (by simp [h])
      rw [List.cons_append, lex, if_neg hct, if_neg hcb,
        ih _ (fun h => ht (List.mem_cons_of_mem _ h)) (fun h => hb (List.mem_cons_of_mem _ h)),
        List.append_assoc, List.singleton_append]

/-- **Lexing well-formed fields** gives them back, with the offsets at which they stand. -/
theorem lex_fields (start k : ℕ) (fs : List (List Byte)) (rest : List Byte)
    (hfs : ∀ f ∈ fs, Field f) (hk : k + fs.length ≤ 3) :
    lex start [] k (joinFields fs ++ bang :: rest) =
      (argsFrom start fs, .bang ⟨fieldsEnd start fs, []⟩ rest.head?) := by
  induction fs generalizing start k with
  | nil =>
      have hne : (bang : Byte) ≠ tab := by decide
      simp [joinFields, lex, argsFrom, fieldsEnd, hne]
  | cons f fs ih =>
      have hf := hfs f List.mem_cons_self
      simp only [List.length_cons] at hk
      have hk3 : ¬ 3 ≤ k := by omega
      have hjoin : joinFields (f :: fs) ++ bang :: rest =
          f ++ tab :: (joinFields fs ++ bang :: rest) := by
        simp [joinFields]
      rw [hjoin, lex_append _ _ _ _ hf.noTab hf.noBang, List.nil_append, lex, if_pos rfl,
        if_neg hf.ne_nil, if_neg hk3,
        ih _ _ (fun g hg => hfs g (List.mem_cons_of_mem _ hg)) (by omega)]
      rfl

/-- The loop condition does not fail at any of the arguments. -/
def NotDrainedAt (rd : Int) (args : List Arg) : Prop := ∀ a ∈ args, (a.start : Int) ≠ rd

lemma start_lt_fieldsEnd (start : ℕ) (f : List Byte) (fs : List (List Byte)) :
    start < fieldsEnd start (f :: fs) := by
  induction fs generalizing start f with
  | nil =>
      simp only [fieldsEnd]
      omega
  | cons g fs ih =>
      have := ih (start + f.length + 1) g
      simp only [fieldsEnd] at this ⊢
      omega

/-- **Loading well-formed fields** puts each of them into its row, and the scan passes the whole
message. The loop condition may fail at the last argument: its row is filled by then, but the
scan stops with `parsedLen = readDatalen`, short of the `'!'`. -/
theorem load_fields (rd : Int) (start k : ℕ) (fs : List (List Byte)) (c : Byte)
    (argv : Area Byte argvSize) (hfs : ∀ f ∈ fs, Field f) (hk : k + fs.length ≤ 3)
    (hrd : NotDrainedAt rd (argsFrom start fs).dropLast) :
    ∃ l, load id rd k argv (argsFrom start fs) (.bang ⟨fieldsEnd start fs, []⟩ (some c)) = .ok l ∧
      (l.parsedLen = fieldsEnd start fs + (if c = newline then 2 else 1) ∨
        (l.parsedLen : Int) = rd ∧ rd < fieldsEnd start fs) ∧
      (∀ i f, fs[i]? = some f → Row l.argv (k + i) f) ∧
      ∀ j s, j < k → Row argv j s → Row l.argv j s := by
  induction fs generalizing start k argv with
  | nil =>
      simp only [argsFrom, fieldsEnd, load]
      rw [storeArg_nil id argv (by simp at hk; omega)]
      exact ⟨_, rfl, .inl rfl, by simp, fun j s _ h => h⟩
  | cons f fs ih =>
      have hf := hfs f List.mem_cons_self
      simp only [List.length_cons] at hk
      have hk3 : ¬ 3 ≤ k := by omega
      obtain ⟨argv₁, hstore, hrow, hkeep⟩ := storeArg_row argv (by omega : k ≤ 4) hf.short hf.noNul
      simp only [argsFrom, load, hstore, if_neg hk3]
      by_cases hd : (start : Int) = rd
      · -- the loop condition can only fail here if no argument is left
        have hnil : fs = [] := by
          cases fs with
          | nil => rfl
          | cons g fs => exact absurd hd (hrd ⟨start, f⟩ (by simp [argsFrom]))
        subst hnil
        rw [if_pos hd]
        refine ⟨_, rfl, .inr ⟨hd, ?_⟩, ?_, fun j s hj h => hkeep j s (by omega) h⟩
        · have := start_lt_fieldsEnd start f []
          omega
        · intro i g hg
          cases i with
          | zero =>
              simp only [List.getElem?_cons_zero, Option.some.injEq] at hg
              exact hg ▸ hrow
          | succ i => simp at hg
      · rw [if_neg hd]
        have hrd' : NotDrainedAt rd (argsFrom (start + f.length + 1) fs).dropLast := by
          intro a ha
          cases fs with
          | nil => simp [argsFrom] at ha
          | cons g fs => exact hrd a (by simpa [argsFrom] using .inr ha)
        obtain ⟨l, hload, hpos, hrows, hkeep'⟩ := ih (start + f.length + 1) (k + 1) argv₁
          (fun g hg => hfs g (List.mem_cons_of_mem _ hg)) (by omega) hrd'
        refine ⟨l, hload, hpos, ?_, fun j s hj h => hkeep' j s (by omega) (hkeep j s (by omega) h)⟩
        intro i g hg
        cases i with
        | zero =>
            simp only [List.getElem?_cons_zero, Option.some.injEq] at hg
            exact hkeep' k g (by omega) (hg ▸ hrow)
        | succ i =>
            have := hrows i g (by simpa using hg)
            rwa [Nat.add_assoc, Nat.add_comm 1 i] at this

end ActionDB.Net.Codec
