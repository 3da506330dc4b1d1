import ActionDB.Net.Codec.Head
import ActionDB.Net.Codec.Rows

/-!
# Frames: what clients send

`makeCommand` of the test clients turns a command such as `set k v` into a **frame**. This file
has the encoder, the shape of the frames it makes (`Command.frame_eq`), and what `decod` does when
`parsedLen` is at the start of a frame (`decod_frame`): it loads the frame's arguments and passes
the frame, unless the loop condition `parsedLen != readDatalen` fails inside it. The offsets at
which that loses arguments are `Command.stops`.
-/

namespace ActionDB.Net.Codec

open ActionDB.Found

/-! ## The encoder -/

/-- The characters `makeCommand` replaces by a tab: tab, carriage return, space and backspace. -/
def isSeparator (c : Byte) : Bool := c == 9 || c == 13 || c == 32 || c == 8

/-- The character of a digit. -/
def digitChar (d : ℕ) : Byte := UInt8.ofNat (d + 48)

/-- The four-digit header of a length. -/
def lenDigits (n : ℕ) : List Byte :=
  [digitChar (n / 1000 % 10), digitChar (n / 100 % 10), digitChar (n / 10 % 10),
    digitChar (n / 1 % 10)]

/-- The `totLen` bytes that `makeCommand` builds: seven for the head, the command with its
separators replaced, and two for the tail.
Source: `tests/testperfset/makecommand.c`, `makeCommand`. -/
def makeCommand (command : List Byte) : List Byte :=
  let totLen := command.length + 7 + 2
  [star, tab] ++ lenDigits totLen ++ [tab] ++
    command.map (fun c => if isSeparator c then tab else c) ++ [tab, bang]

/-- A command of a client. -/
inductive Command where
  | set (key val : List Byte)
  | get (key : List Byte)
  deriving DecidableEq, Repr

/-- A key or value: not empty, at most nine bytes, and none of tab, carriage return, space,
backspace, NUL and `'!'`. -/
structure Word (f : List Byte) : Prop where
  ne_nil : f ≠ []
  short : f.length ≤ 9
  plain : ∀ c ∈ f, isSeparator c = false ∧ c ≠ 0 ∧ c ≠ bang

instance (f : List Byte) : Decidable (Word f) :=
  -- by the bytes of `f`, not by all bytes
  haveI : Decidable (∀ c ∈ f, isSeparator c = false ∧ c ≠ 0 ∧ c ≠ bang) := List.decidableBAll _ f
  decidable_of_iff (f ≠ [] ∧ f.length ≤ 9 ∧ ∀ c ∈ f, isSeparator c = false ∧ c ≠ 0 ∧ c ≠ bang)
    ⟨fun ⟨h₁, h₂, h₃⟩ => ⟨h₁, h₂, h₃⟩, fun ⟨h₁, h₂, h₃⟩ => ⟨h₁, h₂, h₃⟩⟩

namespace Command

/-- Keys and values are words. -/
def Ok : Command → Prop
  | set key val => Word key ∧ Word val
  | get key => Word key

instance (c : Command) : Decidable c.Ok := by
  cases c <;> unfold Ok <;> infer_instance

/-- The fields of a command, its name first. -/
def fields : Command → List (List Byte)
  | set key val => [strSet, key, val]
  | get key => [strGet, key]

/-- The text a client writes: `set k v` or `get k`. -/
def text : Command → List Byte
  | set key val => strSet ++ [32] ++ key ++ [32] ++ val
  | get key => strGet ++ [32] ++ key

/-- The frame of a command. -/
def frame (c : Command) : List Byte := makeCommand c.text

/-- The bytes of the frame. -/
def frameLen (c : Command) : ℕ := c.text.length + 9

/-- What dispatching the command should do. -/
def action : Command → Action
  | set key val => .set key val
  | get key => .get key

end Command

/-! ## The shape of a frame -/

lemma Word.field {f : List Byte} (h : Word f) : Field f where
  ne_nil := h.ne_nil
  short := h.short
  noTab := fun ht => absurd (h.plain _ ht).1 (by decide)
  noBang := fun hb => (h.plain _ hb).2.2 rfl
  noNul := fun h0 => (h.plain _ h0).2.1 rfl

lemma Command.Ok.fields {c : Command} (h : c.Ok) : ∀ f ∈ c.fields, Field f := by
  have hset : Field strSet := ⟨by decide, by decide, by decide, by decide, by decide⟩
  have hget : Field strGet := ⟨by decide, by decide, by decide, by decide, by decide⟩
  intro f hf
  cases c with
  | set key val =>
      simp only [Command.fields, List.mem_cons, List.not_mem_nil, or_false] at hf
      rcases hf with rfl | rfl | rfl
      · exact hset
      · exact h.1.field
      · exact h.2.field
  | get key =>
      simp only [Command.fields, List.mem_cons, List.not_mem_nil, or_false] at hf
      rcases hf with rfl | rfl
      · exact hget
      · exact h.field

lemma Command.length_fields (c : Command) : c.fields.length ≤ 3 := by
  cases c <;> simp [Command.fields]

/-- A word has no separator to replace. -/
lemma Word.map_eq {f : List Byte} (h : Word f) :
    f.map (fun c => if isSeparator c then tab else c) = f := by
  conv_rhs => rw [← List.map_id f]
  apply List.map_congr_left
  intro c hc
  simp [(h.plain c hc).1]

/-- **The shape of a frame**: `'*'`, a tab, the length, a tab, the fields each followed by a tab,
and `'!'`. -/
theorem Command.frame_eq {c : Command} (h : c.Ok) :
    c.frame = star :: tab :: (lenDigits c.frameLen ++ tab :: (joinFields c.fields ++ [bang])) := by
  have hset : strSet.map (fun c => if isSeparator c then tab else c) = strSet := by decide
  have hget : strGet.map (fun c => if isSeparator c then tab else c) = strGet := by decide
  have hsep : (if isSeparator 32 = true then tab else 32) = tab := by decide
  cases c with
  | set key val =>
      simp [Command.frame, makeCommand, Command.text, Command.frameLen, Command.fields, joinFields,
        hset, hsep, h.1.map_eq, h.2.map_eq]
  | get key =>
      have hk : Word key := h
      simp [Command.frame, makeCommand, Command.text, Command.frameLen, Command.fields, joinFields,
        hget, hsep, hk.map_eq]

lemma Command.length_frame (c : Command) : c.frame.length = c.frameLen := by
  simp [Command.frame, makeCommand, Command.frameLen, lenDigits]

/-- A frame is at least fourteen bytes long and at most thirty-two. -/
lemma Command.frameLen_bounds {c : Command} (h : c.Ok) : 14 ≤ c.frameLen ∧ c.frameLen ≤ 32 := by
  have hpos : ∀ f : List Byte, Word f → 1 ≤ f.length :=
    fun f hf => List.length_pos_of_ne_nil hf.ne_nil
  cases c with
  | set key val =>
      have h1 := hpos key h.1
      have h2 := hpos val h.2
      have h3 := h.1.short
      have h4 := h.2.short
      simp only [Command.frameLen, Command.text, strSet, List.length_append, List.length_cons,
        List.length_nil]
      omega
  | get key =>
      have hk : Word key := h
      have h1 := hpos key hk
      have h3 := hk.short
      simp only [Command.frameLen, Command.text, strGet, List.length_append, List.length_cons,
        List.length_nil]
      omega

/-- Where the fields of a frame that starts at `p` end. -/
lemma Command.fieldsEnd_eq (c : Command) (p : ℕ) :
    fieldsEnd (p + 7) c.fields + 1 = p + c.frameLen := by
  cases c <;>
    simp only [Command.fields, fieldsEnd, Command.frameLen, Command.text, strSet, strGet,
      List.length_append, List.length_cons, List.length_nil] <;> omega

/-! ## The length header -/

lemma digitChar_spec {d : ℕ} (h : d < 10) :
    isDigit (digitChar d) = true ∧ (digitChar d).toNat - 48 = d := by
  revert d
  decide

/-- The header of a length below ten thousand is read back. -/
lemma digitsVal_lenDigits {n : ℕ} (h : n < 10000) : digitsVal (lenDigits n) 0 = some n := by
  obtain ⟨h3, v3⟩ := digitChar_spec (Nat.mod_lt (n / 1000) (by decide : 10 > 0))
  obtain ⟨h2, v2⟩ := digitChar_spec (Nat.mod_lt (n / 100) (by decide : 10 > 0))
  obtain ⟨h1, v1⟩ := digitChar_spec (Nat.mod_lt (n / 10) (by decide : 10 > 0))
  obtain ⟨h0, v0⟩ := digitChar_spec (Nat.mod_lt (n / 1) (by decide : 10 > 0))
  simp only [lenDigits, digitsVal, h3, h2, h1, h0, if_true, v3, v2, v1, v0, Option.some.injEq]
  omega

/-! ## Decoding one frame -/

/-- The offsets at which a failing loop condition loses arguments of a frame that starts at `o`:
behind the digits, and the start of every argument but the last. -/
def Command.stops (c : Command) (o : ℕ) : List ℕ :=
  (o + 6) :: (argsFrom (o + 7) c.fields).dropLast.map Arg.start

/-- A frame ends behind all of its stops. -/
lemma Command.lt_of_mem_stops {c : Command} {o i : ℕ} (h : i ∈ c.stops o) :
    i < o + c.frameLen := by
  cases c with
  | set key val =>
      simp only [Command.stops, Command.fields, argsFrom, List.dropLast, List.map_cons,
        List.map_nil, List.mem_cons, List.not_mem_nil, or_false, strSet, List.length_cons,
        List.length_nil] at h
      simp only [Command.frameLen, Command.text, strSet, List.length_append, List.length_cons]
      omega
  | get key =>
      simp only [Command.stops, Command.fields, argsFrom, List.dropLast, List.map_cons,
        List.map_nil, List.mem_cons, List.not_mem_nil, or_false] at h
      simp only [Command.frameLen, Command.text, strGet, List.length_append, List.length_cons]
      omega

lemma Buffer.byteAt_add (b : Buffer) (p i : ℕ) :
    b.byteAt (p + i) = (b.rBuf.cells.drop p).getD i 0 := by
  simp [Buffer.byteAt, List.getD_eq_getElem?_getD, List.getElem?_drop]

/-- The rows of a command dispatch it. -/
lemma dispatch_of_rows {c : Command} {argv : Area Byte argvSize}
    (h : ∀ i f, c.fields[i]? = some f → Row argv i f) : dispatch argv = .ok c.action := by
  cases c with
  | set key val =>
      have h0 := h 0 strSet rfl
      have h1 := h 1 key rfl
      have h2 := h 2 val rfl
      have hname : strcmpEq argv.cells strSet = true := (h0.strcmpEq_iff h0.noNul).mpr rfl
      simp only [dispatch, hname, if_true, h1.argString_eq, h2.argString_eq, Command.action]
  | get key =>
      have h0 := h 0 strGet rfl
      have h1 := h 1 key rfl
      have hset : strcmpEq argv.cells strSet = false := by
        rw [Bool.eq_false_iff, Ne, h0.strcmpEq_iff (by decide)]
        decide
      have hname : strcmpEq argv.cells strGet = true := (h0.strcmpEq_iff h0.noNul).mpr rfl
      simp only [dispatch, hset, hname, Bool.false_eq_true, if_false, if_true, h1.argString_eq,
        Command.action]

section OneFrame

variable {b : Buffer} {c : Command} {rest : List Byte}

/-- A frame at `parsedLen` fits into what is left of `rBuf`. -/
lemma Command.end_le (hbuf : b.rBuf.cells.drop b.parsedLen = c.frame ++ rest) :
    b.parsedLen + c.frameLen ≤ 100 := by
  have hlen := congrArg List.length hbuf
  simp only [List.length_drop, Buffer.length_rBuf, List.length_append, c.length_frame] at hlen
  have : 9 ≤ c.frameLen := by simp [Command.frameLen]
  omega

/-- A frame at `parsedLen` is taken for a message. -/
lemma head_frame (hc : c.Ok) (hbuf : b.rBuf.cells.drop b.parsedLen = c.frame ++ rest)
    (hlt : (b.parsedLen : Int) < b.readDatalen) : b.head = .message := by
  have hle := Command.end_le hbuf
  obtain ⟨hge, hle32⟩ := c.frameLen_bounds hc
  have hstar : b.byteAt b.parsedLen = star := by
    have := b.byteAt_add b.parsedLen 0
    rw [hbuf, c.frame_eq hc] at this
    exact this
  have hlen : b.declaredLen b.parsedLen = some c.frameLen := by
    rw [Buffer.declaredLen, b.byteAt_add, b.byteAt_add, b.byteAt_add, b.byteAt_add, hbuf,
      c.frame_eq hc]
    exact digitsVal_lenDigits (by omega)
  have hne : ¬ (b.readDatalen ≤ b.parsedLen ∨ b.byteAt b.parsedLen ≠ star) := by
    rintro (h | h)
    · omega
    · exact h hstar
  rw [Buffer.head, if_neg hne, if_neg (by omega), hlen]
  exact if_neg (by omega)

/-- The lexer reads a frame back. -/
lemma message_frame (hc : c.Ok) (hbuf : b.rBuf.cells.drop b.parsedLen = c.frame ++ rest) :
    b.message .record = (argsFrom (b.parsedLen + 7) c.fields,
      .bang ⟨fieldsEnd (b.parsedLen + 7) c.fields, []⟩ (some (rest.headD 0))) := by
  have hle := Command.end_le hbuf
  have h14 := (c.frameLen_bounds hc).1
  have hmem : (b.mem .record).drop (b.parsedLen + 6) =
      tab :: (joinFields c.fields ++ bang :: (rest ++ List.replicate 12 0)) := by
    have hp : b.parsedLen + 6 ≤ b.rBuf.cells.length := by
      simp only [Buffer.length_rBuf]
      omega
    rw [Buffer.mem, List.drop_append_of_le_length hp, ← List.drop_drop, hbuf, c.frame_eq hc]
    simp [lenDigits, Region.slack]
  have hnext : (rest ++ List.replicate 12 (0 : Byte)).head? = some (rest.headD 0) := by
    cases rest <;> rfl
  rw [Buffer.message, lexAt, hmem, lex, if_pos rfl, if_pos rfl,
    lex_fields _ _ _ _ hc.fields (by simpa using c.length_fields), hnext]

/-- **Loading a frame.** Its command is what the rows then dispatch, and the scan is behind the
frame and the newline that may follow it; or the loop condition failed at the last argument. -/
lemma loads_frame (hc : c.Ok) (hbuf : b.rBuf.cells.drop b.parsedLen = c.frame ++ rest)
    (hstop : ∀ o ∈ c.stops b.parsedLen, (o : Int) ≠ b.readDatalen) :
    ∃ l, b.loads .record = .ok l ∧ dispatch l.argv = .ok c.action ∧
      (l.parsedLen = b.parsedLen + c.frameLen + (if rest.headD 0 = newline then 1 else 0) ∨
        (l.parsedLen : Int) = b.readDatalen ∧
          b.readDatalen < (b.parsedLen + c.frameLen : ℕ)) := by
  have hdig : ¬ ((b.parsedLen + 6 : ℕ) : Int) = b.readDatalen := hstop _ List.mem_cons_self
  have hargs : NotDrainedAt b.readDatalen (argsFrom (b.parsedLen + 7) c.fields).dropLast :=
    fun a ha => hstop _ (List.mem_cons_of_mem _ (List.mem_map_of_mem ha))
  obtain ⟨l, hload, hpos, hrows, -⟩ := load_fields b.readDatalen (b.parsedLen + 7) 0 c.fields
    (rest.headD 0) b.argv hc.fields (by simpa using c.length_fields) hargs
  have hend := c.fieldsEnd_eq b.parsedLen
  refine ⟨l, ?_, dispatch_of_rows fun i f hf => ?_, ?_⟩
  · rw [Buffer.loads, loadMessage, if_neg hdig, message_frame hc hbuf]
    exact hload
  · simpa using hrows i f hf
  · rcases hpos with h | ⟨h, hlt⟩
    · left
      rw [h]
      split_ifs <;> omega
    · right
      exact ⟨h, by omega⟩

/-- **Decoding a frame**: `decod` leaves a buffer to dispatch, having read nothing but the
frame. -/
theorem decod_frame (hc : c.Ok) (hbuf : b.rBuf.cells.drop b.parsedLen = c.frame ++ rest)
    (hrd : b.readDatalen ≤ 100) (hlt : (b.parsedLen : Int) < b.readDatalen)
    (hstop : ∀ o ∈ c.stops b.parsedLen, (o : Int) ≠ b.readDatalen) :
    ∃ ret l, decod .record b = .ok (ret, b.closed l) ∧ dispatch l.argv = .ok c.action ∧
      (l.parsedLen = b.parsedLen + c.frameLen + (if rest.headD 0 = newline then 1 else 0) ∨
        (l.parsedLen : Int) = b.readDatalen ∧
          b.readDatalen < (b.parsedLen + c.frameLen : ℕ)) := by
  obtain ⟨l, hl, hd, hpos⟩ := loads_frame hc hbuf hstop
  refine ⟨(l.argCnt : Int).tdiv 3, l, ?_, hd, hpos⟩
  rw [decod_message .record hrd (head_frame hc hbuf hlt), hl]
  rfl

end OneFrame

end ActionDB.Net.Codec
