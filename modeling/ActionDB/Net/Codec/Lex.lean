import ActionDB.Net.Codec.Decode

/-!
# What the scan makes of the bytes

The scan loop of `parseOneMessage` mixes three things: finding the arguments, copying them, and
keeping `parsedLen`, `argBeginpos` and `cursor` in step. This file takes them apart.

* `lex` reads the bytes of a message and nothing else: its tab-terminated arguments and how it
  ends. It does not know the buffer.
* `load` goes through the arguments and copies them, with the one test the scan makes on the way:
  `parsedLen` is compared with `readDatalen` whenever it has moved.
* `track` is the way of `load` without the copies. Where these fit, it goes the same way
  (`load_track`); it also goes on where one of them leaves the struct.
* `scanMessage_eq` is the connection: the scan **is** `load` of `lex`. Its invariant, `Scan.At`,
  ties the counters of the loop to the argument that is open: `argBeginpos` and `parsedLen` are
  always equal, and they fall short of its first byte by `preArgLen + separLen`.

`load` is generic in the cells of `argv`, so that it can also be run on rows of which nothing is
known.
-/

namespace ActionDB.Net.Codec

open ActionDB.Found

/-! ## The lexer -/

/-- An argument of a message: the offset of its first byte, and its bytes. -/
structure Arg where
  start : ℕ
  text : List Byte
  deriving DecidableEq, Repr

/-- The offset behind the last byte. -/
def Arg.stop (a : Arg) : ℕ := a.start + a.text.length

/-- How the bytes of a message end. -/
inductive Ending where
  /-- `'!'`, with the argument that is open before it (empty if there is none) and the byte behind
  it (`none` at the end of memory). -/
  | bang (last : Arg) (next : Option Byte)
  /-- A tab ends a fourth argument. -/
  | fourth
  /-- The bytes run out. -/
  | missing
  deriving DecidableEq, Repr

/-- Read a message: the bytes `text` of an argument that starts at `start` have been read, and
`k` arguments before it. -/
def lex (start : ℕ) (text : List Byte) (k : ℕ) : List Byte → List Arg × Ending
  | [] => ([], .missing)
  | c :: rest =>
      if c = tab then
        if text = [] then lex (start + 1) [] k rest
        else if 3 ≤ k then ([⟨start, text⟩], .fourth)
        else
          let m := lex (start + text.length + 1) [] (k + 1) rest
          (⟨start, text⟩ :: m.1, m.2)
      else if c = bang then ([], .bang ⟨start, text⟩ rest.head?)
      else lex start (text ++ [c]) k rest

/-- The message whose arguments begin at offset `p`. -/
def lexAt (r : Region) (b : Buffer) (p : ℕ) : List Arg × Ending := lex p [] 0 ((b.mem r).drop p)

/-! ## Loading the arguments -/

section Load

variable {α : Type}

/-- What the scan leaves behind. -/
structure Loaded (α : Type) where
  exit : Exit
  parsedLen : ℕ
  cursor : ℕ
  argBeginpos : ℕ
  argCnt : ℕ
  argv : Area α argvSize

/-- Copy an argument to row `k`; only an argument that a tab ends has its row cleared first. -/
def storeArg (cell : Byte → α) (clear : Bool) (argv : Area α argvSize) (k : ℕ)
    (text : List Byte) : Except Fault (Area α argvSize) :=
  let row := argumentCnt * k
  let cleared := if clear then argv.write row (List.replicate argumentCnt (cell 0)) else some argv
  match cleared.bind (·.write row (text.map cell)) with
  | some argv => .ok argv
  | none => .error .argvOverflow

/-- Go through the arguments of a message, `readDatalen` being `rd` and `k` arguments having been
loaded. The loop condition is tested again whenever `parsedLen` has moved. A `'!'` that ends an
argument moves `parsedLen` over the `'!'` but not over the argument. -/
def load (cell : Byte → α) (rd : Int) (k : ℕ) (argv : Area α argvSize) :
    List Arg → Ending → Except Fault (Loaded α)
  | a :: as, e =>
      match storeArg cell true argv k a.text with
      | .error f => .error f
      | .ok argv =>
          if 3 ≤ k then .ok ⟨.tooMany, a.start, a.stop + 1, a.start, k + 1, argv⟩
          else if (a.start : Int) = rd then
            .ok ⟨.drained, a.start, a.stop + 1, a.start, k + 1, argv⟩
          else load cell rd (k + 1) argv as e
  | [], .bang last next =>
      match storeArg cell false argv k last.text with
      | .error f => .error f
      | .ok argv =>
          match next with
          | none => .error .overread
          | some c =>
              let past := if c = newline then 2 else 1
              .ok ⟨.bang, last.start + past, last.stop + past, last.start, k + 1, argv⟩
  | [], _ => .error .overread

/-- Load a message whose arguments begin at offset `p`: nothing is read when `parsedLen` is
`readDatalen` from the start. -/
def loadMessage (cell : Byte → α) (rd : Int) (p : ℕ) (argv : Area α argvSize)
    (m : List Arg × Ending) : Except Fault (Loaded α) :=
  if (p : Int) = rd then .ok ⟨.drained, p, p, p, 0, argv⟩ else load cell rd 0 argv m.1 m.2

/-! ### Without the copies -/

/-- Where a scan ends: what it leaves behind, but for the rows. -/
structure Place where
  exit : Exit
  parsedLen : ℕ
  cursor : ℕ
  argBeginpos : ℕ
  argCnt : ℕ
  deriving DecidableEq, Repr

/-- Where the scan of a loaded message has ended. -/
def Loaded.place (l : Loaded α) : Place :=
  ⟨l.exit, l.parsedLen, l.cursor, l.argBeginpos, l.argCnt⟩

/-- A scan that has ended there, with some rows. -/
def Place.loaded (p : Place) (argv : Area α argvSize) : Loaded α :=
  ⟨p.exit, p.parsedLen, p.cursor, p.argBeginpos, p.argCnt, argv⟩

/-- `load` without the copies: `none` when the bytes run out. No copy has a say in where the scan
goes, so this is its way also when an argument does not fit. -/
def track (rd : Int) (k : ℕ) : List Arg → Ending → Option Place
  | a :: as, e =>
      if 3 ≤ k then some ⟨.tooMany, a.start, a.stop + 1, a.start, k + 1⟩
      else if (a.start : Int) = rd then some ⟨.drained, a.start, a.stop + 1, a.start, k + 1⟩
      else track rd (k + 1) as e
  | [], .bang last (some c) =>
      let past := if c = newline then 2 else 1
      some ⟨.bang, last.start + past, last.stop + past, last.start, k + 1⟩
  | [], _ => none

/-- `loadMessage` without the copies. -/
def trackMessage (rd : Int) (p : ℕ) (m : List Arg × Ending) : Option Place :=
  if (p : Int) = rd then some ⟨.drained, p, p, p, 0⟩ else track rd 0 m.1 m.2

/-- The ways in which a load can go, by where the scan ends. -/
inductive Tracks : Option Place → Except Fault (Loaded α) → Prop
  /-- Every argument fits. -/
  | fits (l : Loaded α) : Tracks (some l.place) (.ok l)
  /-- The bytes run out. -/
  | overread : Tracks none (.error .overread)
  /-- An argument does not fit. -/
  | overflow (p : Option Place) : Tracks p (.error .argvOverflow)

/-- The one fault of storing an argument. -/
lemma storeArg_error {cell : Byte → α} {clear : Bool} {argv : Area α argvSize} {k : ℕ}
    {text : List Byte} {f : Fault} (h : storeArg cell clear argv k text = .error f) :
    f = .argvOverflow := by
  simp only [storeArg] at h
  split at h
  · cases h
  · exact (Except.error.inj h).symm

/-- **The copies have no say in where the scan goes.** -/
theorem load_track (cell : Byte → α) (rd : Int) (k : ℕ) (argv : Area α argvSize) (as : List Arg)
    (e : Ending) : Tracks (track rd k as e) (load cell rd k argv as e) := by
  induction as generalizing k argv with
  | nil =>
      cases e with
      | bang last next =>
          cases hs : storeArg cell false argv k last.text with
          | error f =>
              simp only [load, hs, storeArg_error hs]
              exact .overflow _
          | ok argv' =>
              simp only [load, hs]
              cases next with
              | none => exact .overread
              | some c => exact .fits ⟨.bang, _, _, _, _, argv'⟩
      | fourth => exact .overread
      | missing => exact .overread
  | cons a as ih =>
      cases hs : storeArg cell true argv k a.text with
      | error f =>
          simp only [load, hs, storeArg_error hs]
          exact .overflow _
      | ok argv' =>
          simp only [load, track, hs]
          split_ifs
          · exact .fits ⟨.tooMany, _, _, _, _, argv'⟩
          · exact .fits ⟨.drained, _, _, _, _, argv'⟩
          · exact ih (k + 1) argv'

lemma loadMessage_track (cell : Byte → α) (rd : Int) (p : ℕ) (argv : Area α argvSize)
    (m : List Arg × Ending) : Tracks (trackMessage rd p m) (loadMessage cell rd p argv m) := by
  unfold trackMessage loadMessage
  split_ifs
  · exact .fits ⟨.drained, _, _, _, _, argv⟩
  · exact load_track cell rd 0 argv m.1 m.2

end Load

/-! ## The scan is `load` of `lex` -/

/-- The loop invariant: an argument that starts at `start` is open, `text` is what has been read
of it, `rest` is what has not been read at all. -/
structure Scan.At (r : Region) (s : Scan) (start : ℕ) (text rest : List Byte) : Prop where
  parsed : s.buf.parsedLen = s.buf.argBeginpos
  begins : s.buf.argBeginpos + (s.preArgLen + s.separLen) = start
  argLen : s.argLen = text.length
  cursor : s.buf.cursor = start + text.length
  bytes : (s.buf.mem r).drop start = text ++ rest

/-- The buffer of a scan that has loaded the arguments. -/
def Scan.loaded (s : Scan) (l : Loaded Byte) : Buffer :=
  { s.buf with
    parsedLen := l.parsedLen, cursor := l.cursor, argBeginpos := l.argBeginpos, argv := l.argv }

/-- The exit, the buffer and the argument count of a scan; `parseFlag`, which is overwritten
next, is left out. -/
def scanResult (x : Exit × Scan) : Exit × Buffer × ℕ :=
  (x.1, { x.2.buf with parseFlag := 0 }, x.2.argCnt)

/-- The same for a loaded message. -/
def loadResult (s : Scan) (l : Loaded Byte) : Exit × Buffer × ℕ :=
  (l.exit, { s.loaded l with parseFlag := 0 }, l.argCnt)

/-- Copying the open argument, in terms of `storeArg`. -/
lemma Scan.copyArg_eq {r : Region} {s : Scan} {start : ℕ} {text rest : List Byte}
    (h : s.At r start text rest) (clear : Bool) :
    s.copyArg r clear =
      (storeArg id clear s.buf.argv s.argCnt text).map fun argv =>
        { s with buf := { s.buf with argBeginpos := start, parsedLen := start, argv } } := by
  obtain ⟨hp, hb, hl, -, hm⟩ := h
  have hpl : s.buf.parsedLen + (s.preArgLen + s.separLen) = start := by rw [hp, hb]
  have hsrc : ((s.buf.mem r).drop start).take s.argLen = text := by
    rw [hm, hl, List.take_left]
  simp only [Scan.copyArg, storeArg, hb, hpl, hsrc, List.map_id, id]
  cases (if clear then s.buf.argv.write (argumentCnt * s.argCnt) (List.replicate argumentCnt 0)
    else some s.buf.argv).bind (·.write (argumentCnt * s.argCnt) text) <;> rfl

/-! ### What one byte does to the invariant -/

/-- A tab before the argument: it starts one byte later. -/
lemma Scan.At.skipTab {r : Region} {s : Scan} {start : ℕ} {c : Byte} {rest : List Byte}
    (h : s.At r start [] (c :: rest)) :
    Scan.At r { s.advance with preArgLen := s.preArgLen + 1 } (start + 1) [] rest := by
  obtain ⟨hp, hb, hl, hcur, hm⟩ := h
  refine ⟨hp, ?_, hl, ?_, ?_⟩
  · show s.buf.argBeginpos + (s.preArgLen + 1 + s.separLen) = start + 1
    omega
  · show s.buf.cursor + 1 = _
    simp [hcur]
  · show (s.buf.mem r).drop (start + 1) = _
    rw [← List.drop_drop, hm]
    rfl

/-- A byte of the argument. -/
lemma Scan.At.readByte {r : Region} {s : Scan} {start : ℕ} {c : Byte} {text rest : List Byte}
    (h : s.At r start text (c :: rest)) :
    Scan.At r { s.advance with argLen := s.argLen + 1 } start (text ++ [c]) rest := by
  obtain ⟨hp, hb, hl, hcur, hm⟩ := h
  refine ⟨hp, hb, ?_, ?_, ?_⟩
  · simp [hl]
  · show s.buf.cursor + 1 = _
    simp [hcur, Nat.add_assoc]
  · show (s.buf.mem r).drop start = _
    rw [hm, List.append_assoc]
    rfl

/-- A tab behind it, after the copy: the next argument starts behind the tab. -/
lemma Scan.At.nextArg {r : Region} {s : Scan} {start : ℕ} {c : Byte} {text rest : List Byte}
    (h : s.At r start text (c :: rest)) (argv : Area Byte argvSize) :
    Scan.At r (Scan.nextArg { s with
      buf := { s.buf with argBeginpos := start, parsedLen := start, argv } })
      (start + text.length + 1) [] rest := by
  obtain ⟨-, -, hl, hcur, hm⟩ := h
  refine ⟨rfl, ?_, rfl, ?_, ?_⟩
  · show start + (s.argLen + 1) = _
    omega
  · show s.buf.cursor + 1 = _
    simp [hcur]
  · show (s.buf.mem r).drop _ = _
    rw [Nat.add_assoc, ← List.drop_drop, hm, ← List.drop_drop, List.drop_left]
    rfl

/-- When the loop condition fails the scan leaves everything as it is. -/
lemma scan_of_drained {r : Region} {s : Scan} (h : (s.buf.parsedLen : Int) = s.buf.readDatalen)
    (rest : List Byte) : scan r rest s = .ok (.drained, s) := by
  cases rest <;> simp [scan, h]

/-! ### The whole loop -/

/-- **The scan is `load` of `lex`**, from any state that meets the loop invariant. The induction
is on the bytes that have not been read; the test `parsedLen = readDatalen` is made at every byte
but its value changes only when an argument ends, which is where `load` makes it. -/
theorem scan_eq_load (r : Region) (rest : List Byte) (s : Scan) (start : ℕ) (text : List Byte)
    (h : s.At r start text rest) (hk : s.argCnt ≤ 3)
    (hne : (s.buf.parsedLen : Int) ≠ s.buf.readDatalen) :
    (scan r rest s).map scanResult =
      (load id s.buf.readDatalen s.argCnt s.buf.argv (lex start text s.argCnt rest).1
        (lex start text s.argCnt rest).2).map (loadResult s) := by
  induction rest generalizing s start text with
  | nil => simp [scan, hne, lex, load, Except.map]
  | cons c rest ih =>
      have hl := h.argLen
      have hcur := h.cursor
      simp only [scan, if_neg hne]
      by_cases hc : c = tab
      · subst hc
        by_cases ht : text = []
        · subst ht
          rw [if_pos ⟨rfl, hl⟩, ih _ _ _ h.skipTab hk hne]
          simp only [lex, if_true]
          rfl
        · have hlen : s.argLen ≠ 0 := by
            rw [hl]
            simpa using ht
          rw [if_neg (by simp [hlen]), if_pos rfl, s.copyArg_eq h]
          simp only [lex, if_true, if_neg ht]
          cases hstore : storeArg id true s.buf.argv s.argCnt text with
          | error f =>
              by_cases hk3 : 3 ≤ s.argCnt <;> simp [hk3, load, hstore, Except.map]
          | ok argv =>
              simp only [Except.map]
              by_cases hk3 : 3 ≤ s.argCnt
              · have h3 : 3 < s.argCnt + 1 := by omega
                simp [hk3, h3, load, hstore, scanResult, loadResult, Scan.loaded, Scan.nextArg,
                  Scan.advance, Arg.stop, hcur]
              · have h3 : ¬ 3 < s.argCnt + 1 := by omega
                simp only [if_neg hk3, load, hstore]
                set s' : Scan := Scan.nextArg { s with
                  buf := { s.buf with argBeginpos := start, parsedLen := start, argv } }
                  with hs'
                rw [if_neg (by simpa [hs', Scan.nextArg, Scan.advance] using h3)]
                by_cases hd : (start : Int) = s.buf.readDatalen
                · rw [scan_of_drained (by simpa [hs', Scan.nextArg, Scan.advance] using hd)]
                  simp [hd, scanResult, loadResult, Scan.loaded, hs', Scan.nextArg, Scan.advance,
                    Arg.stop, hcur]
                · have hk' : s'.argCnt ≤ 3 := by
                    show s.argCnt + 1 ≤ 3
                    omega
                  rw [if_neg hd]
                  exact ih s' _ _ (h.nextArg argv) hk' hd
      · by_cases hbang : c = bang
        · subst hbang
          have htb : (bang : Byte) ≠ tab := by decide
          rw [if_neg (by simp [htb]), if_neg htb, if_pos rfl, s.copyArg_eq h]
          simp only [lex, if_neg htb, if_true, load]
          cases hstore : storeArg id false s.buf.argv s.argCnt text with
          | error f => simp [Except.map]
          | ok argv =>
              cases rest with
              | nil => simp [Except.map]
              | cons c' rest =>
                  by_cases hn : c' = newline <;>
                    simp [Except.map, hn, scanResult, loadResult, Scan.loaded, Scan.endMessage,
                      Scan.skipNewline, Arg.stop, hcur, Nat.add_assoc]
        · rw [if_neg (by simp [hc]), if_neg hc, if_neg hbang, ih _ _ _ h.readByte hk hne]
          simp only [lex, if_neg hc, if_neg hbang]
          rfl

/-- **`parseOneMessage` in terms of the message it reads.** -/
theorem scanMessage_eq (r : Region) (b : Buffer) (h : b.parsedLen = b.cursor) :
    (scanMessage r b).map scanResult =
      (loadMessage id b.readDatalen b.cursor b.argv (lexAt r b b.cursor)).map
        (loadResult (.start b)) := by
  unfold scanMessage loadMessage
  by_cases hd : (b.cursor : Int) = b.readDatalen
  · have hd' : ((Scan.start b).buf.parsedLen : Int) = (Scan.start b).buf.readDatalen := by
      show (b.parsedLen : Int) = b.readDatalen
      rw [h, hd]
    rw [scan_of_drained hd', if_pos hd]
    simp only [Except.map, scanResult, loadResult, Scan.loaded, Scan.start, h]
  · have hAt : (Scan.start b).At r b.cursor [] ((b.mem r).drop b.cursor) :=
      ⟨h, rfl, rfl, rfl, rfl⟩
    have hd' : ((Scan.start b).buf.parsedLen : Int) ≠ (Scan.start b).buf.readDatalen := by
      show (b.parsedLen : Int) ≠ b.readDatalen
      rwa [h]
    rw [scan_eq_load r _ _ _ _ hAt (Nat.zero_le 3) hd', if_neg hd]
    rfl

end ActionDB.Net.Codec
