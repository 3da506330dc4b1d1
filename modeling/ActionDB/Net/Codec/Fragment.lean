import ActionDB.Net.Codec.Batch

/-!
# Streams cut into reads

A stream of frames arrives in pieces. `decod` judges by two numbers whether a frame is complete:
`rBuflen`, which is always the whole buffer, and `readDatalen`, which counts the last read only.
Neither is the number of bytes held, so a cut is harmless in particular places only:

* a frame may stay incomplete only when the buffer is **full** (`bytes held = 100`);
* every frame and every remainder must start below `readDatalen`, that is in the part of the
  buffer as long as the last read, although `readDatalen` does not count the kept bytes;
* `readDatalen` must not be one of the stops of a frame.

`Timely` says so of the reads of a stream, by the lengths of the reads and of the frames alone.
`connEvents_stream` shows that a stream cut this way is dispatched frame by frame; a cut after the
third byte of a frame loses it (`connEvents_cut`).
-/

namespace ActionDB.Net.Codec

open ActionDB.Found

/-! ## Streams -/

/-- The stream of commands: their frames, one behind another. -/
def stream (cs : List Command) : List Byte := cs.flatMap Command.frame

/-- The bytes that reads deliver. -/
def payload (xs : List ReadResult) : List Byte := xs.flatMap ReadResult.bytes

/-- Every read returns between one byte and as many as were asked for. -/
def FitsRun (b : Buffer) : List ReadResult → Prop
  | [] => True
  | x :: xs => x.Fits b ∧
      match (readOnce b x).2 with
      | .ok b' => FitsRun b' xs
      | .error _ => True

instance FitsRun.decidable : (b : Buffer) → (xs : List ReadResult) → Decidable (FitsRun b xs)
  | _, [] => .isTrue trivial
  | b, x :: xs =>
      have : Decidable (match (readOnce b x).2 with
          | .ok b' => FitsRun b' xs
          | .error _ => True) :=
        match (readOnce b x).2 with
        | .ok b' => FitsRun.decidable b' xs
        | .error _ => .isTrue trivial
      inferInstanceAs (Decidable (x.Fits b ∧ _))

/-- The commands whose frames lie in the first `m` bytes of the stream, and the others. -/
def fit : ℕ → List Command → List Command × List Command
  | _, [] => ([], [])
  | m, c :: cs =>
      if c.frameLen ≤ m then
        let fs := fit (m - c.frameLen) cs
        (c :: fs.1, fs.2)
      else ([], c :: cs)

/-- A command as a line without newline. -/
def Command.line (c : Command) : Line := ⟨c, false⟩

/-- The reads cut the stream of `cs`, of which `k` bytes have been kept, where `tcpRead` can cope
with it. -/
def Timely (k : ℕ) (cs : List Command) : List ReadResult → Prop
  | [] => True
  | .data bytes :: xs =>
      let held := k + bytes.length
      let fs := (fit held cs).1
      let rest := held - (stream fs).length
      1 ≤ bytes.length ∧ held ≤ 100 ∧ Passes bytes.length 0 (fs.map Command.line) ∧
        (rest = 0 ∨ held = 100 ∧ (stream fs).length < bytes.length) ∧
        Timely rest (fit held cs).2 xs
  | .again :: xs => Timely k cs xs
  | _ :: _ => False

instance Timely.decidable :
    (k : ℕ) → (cs : List Command) → (xs : List ReadResult) → Decidable (Timely k cs xs)
  | _, _, [] => .isTrue trivial
  | k, cs, .data bytes :: xs =>
      have := Timely.decidable (k + bytes.length - (stream (fit (k + bytes.length) cs).1).length)
        (fit (k + bytes.length) cs).2 xs
      inferInstanceAs (Decidable (_ ∧ _ ∧ _ ∧ _ ∧ _))
  | k, cs, .again :: xs => Timely.decidable k cs xs
  | _, _, .eof :: _ => .isFalse id
  | _, _, .error :: _ => .isFalse id

/-! ### Splitting a stream -/

lemma stream_append (cs cs' : List Command) : stream (cs ++ cs') = stream cs ++ stream cs' :=
  List.flatMap_append

lemma batch_line (cs : List Command) : batch (cs.map Command.line) = stream cs := by
  induction cs with
  | nil => rfl
  | cons c cs ih =>
      rw [List.map_cons, batch_cons, ih]
      simp [Command.line, Line.bytes, stream]

/-- `fit` divides the commands. -/
lemma fit_append (m : ℕ) (cs : List Command) : (fit m cs).1 ++ (fit m cs).2 = cs := by
  induction cs generalizing m with
  | nil => rfl
  | cons c cs ih =>
      unfold fit
      split_ifs
      · simp [ih]
      · rfl

/-- The frames that fit do fit, and the next one does not. -/
lemma fit_spec (m : ℕ) (cs : List Command) :
    (stream (fit m cs).1).length ≤ m ∧
      ∀ c ∈ (fit m cs).2.head?, m - (stream (fit m cs).1).length < c.frameLen := by
  induction cs generalizing m with
  | nil => simp [fit, stream]
  | cons c cs ih =>
      unfold fit
      split_ifs with h
      · obtain ⟨hle, hlt⟩ := ih (m - c.frameLen)
        have hlen : (stream (c :: (fit (m - c.frameLen) cs).1)).length =
            c.frameLen + (stream (fit (m - c.frameLen) cs).1).length := by
          simp [stream, c.length_frame]
        refine ⟨by rw [hlen]; omega, ?_⟩
        intro c' hc'
        have := hlt c' hc'
        rw [hlen]
        omega
      · refine ⟨by simp [stream], ?_⟩
        intro c' hc'
        simp only [List.head?_cons, Option.mem_def, Option.some.injEq] at hc'
        subst hc'
        simp only [stream, List.flatMap_nil, List.length_nil]
        omega

/-! ## A frame that is cut by the end of the buffer -/

/-- The front of a frame is kept when the rest of the buffer is too short for it. -/
lemma head_cut {b : Buffer} {c : Command} {tail : List Byte} (hc : c.Ok)
    (hbuf : b.rBuf.cells.drop b.parsedLen = (c.frame ++ tail).take (100 - b.parsedLen))
    (hp : 100 < b.parsedLen + c.frameLen) (hp100 : b.parsedLen < 100)
    (hlt : (b.parsedLen : Int) < b.readDatalen) : b.head = .cut := by
  have hbyte : ∀ i, i < 100 - b.parsedLen →
      b.byteAt (b.parsedLen + i) = (c.frame ++ tail).getD i 0 := by
    intro i hi
    rw [b.byteAt_add, hbuf, List.getD_eq_getElem?_getD, List.getD_eq_getElem?_getD,
      List.getElem?_take_of_lt hi]
  have hne : ¬ (b.readDatalen ≤ b.parsedLen ∨ b.byteAt b.parsedLen ≠ star) := by
    rintro (h | h)
    · omega
    · apply h
      have := hbyte 0 (by omega)
      rw [c.frame_eq hc] at this
      exact this
  rw [Buffer.head, if_neg hne]
  by_cases h94 : 94 ≤ b.parsedLen
  · rw [if_pos h94]
  · have hlen : b.declaredLen b.parsedLen = some c.frameLen := by
      rw [Buffer.declaredLen, hbyte 2 (by omega), hbyte 3 (by omega), hbyte 4 (by omega),
        hbyte 5 (by omega), c.frame_eq hc]
      exact digitsVal_lenDigits (by have := (c.frameLen_bounds hc).2; omega)
    rw [if_neg h94, hlen]
    exact if_pos hp

/-- The kept bytes are the ones behind `parsedLen`. -/
lemma take_kept {b : Buffer} (h : b.parsedLen ≤ 100) :
    (b.kept h).rBuf.cells.take (100 - b.parsedLen) = b.rBuf.cells.drop b.parsedLen := by
  have hlen : (b.rBuf.cells.drop b.parsedLen).length = 100 - b.parsedLen := by simp
  exact List.take_left' hlen

/-- A key or value of nine bytes. -/
def nine : List Byte := List.replicate 9 97

/-- A read returns no more bytes than there is room for behind the kept ones. -/
lemma ReadResult.Fits.room {b : Buffer} {x : ReadResult} (hx : x.Fits b)
    (hb : b.corruptMessagelen ≤ 100) : b.corruptMessagelen + x.bytes.length ≤ 100 := by
  cases x with
  | data bytes =>
      have hle : bytes.length ≤ 100 - b.corruptMessagelen := hx.2
      show b.corruptMessagelen + bytes.length ≤ 100
      omega
  | eof | again | error => exact hb

/-- No part of a frame starts with a newline. -/
lemma headD_front_ne {c : Command} {p : List Byte} (hc : c.Ok) (hp : p <+: c.frame) :
    p.headD 0 ≠ newline := by
  have hstar : star ≠ newline := by decide
  cases p with
  | nil => exact headD_zeros_ne 0
  | cons a p =>
      rw [c.frame_eq hc] at hp
      have ha : a = star := (List.cons_prefix_cons.mp hp).1
      rw [ha]
      exact hstar

/-- **A frame cut by the end of the buffer** is moved to the front of `rBuf`, and `decod` asks for
more. -/
lemma decod_front {b : Buffer} {c : Command} {p : List Byte} (hc : c.Ok)
    (hbuf : b.rBuf.cells.drop b.parsedLen = p) (hp : p <+: c.frame) (hne : p ≠ [])
    (hproper : p ≠ c.frame) (hrd : b.readDatalen ≤ 100)
    (hlt : (b.parsedLen : Int) < b.readDatalen) :
    ∃ b', decod .record b = .ok (0, b') ∧ b'.parseFlag = 1 ∧ b'.parsedLen = 0 ∧
      b'.corruptMessagelen = p.length ∧ b'.rBuf.cells.take p.length = p := by
  have hlen : p.length = 100 - b.parsedLen := by
    rw [← hbuf, List.length_drop, Buffer.length_rBuf]
  have hpos := List.length_pos_of_ne_nil hne
  have hshort : p.length < c.frameLen := by
    rw [← c.length_frame]
    exact lt_of_le_of_ne hp.length_le fun h => hproper (hp.eq_of_length h)
  have hfront : b.rBuf.cells.drop b.parsedLen = (c.frame ++ []).take (100 - b.parsedLen) := by
    rw [hbuf, List.append_nil, ← hlen]
    exact List.prefix_iff_eq_take.mp hp
  have hhead : b.head = .cut := head_cut hc hfront (by omega) (by omega) hlt
  refine ⟨_, decod_cut .record hrd hhead (by omega : b.parsedLen ≤ 100), rfl, rfl, hlen.symm, ?_⟩
  rw [hlen, take_kept, hbuf]

/-- **A full buffer.** A read that fills the buffer with lines and the front `p` of one more frame
dispatches the lines in order and keeps `p`: it is copied to the front of `rBuf`, to a range that
does not overlap the one it comes from, and the next read is behind it. -/
theorem readOnce_full {b : Buffer} {ls : List Line} {c : Command} {p : List Byte}
    (hb : b.corruptMessagelen = 0) (hok : ∀ l ∈ ls, l.command.Ok) (hc : c.Ok)
    (hp : p <+: c.frame) (hne : p ≠ []) (hproper : p ≠ c.frame)
    (hlen : (batch ls ++ p).length = initBufferSize) :
    ∃ ev b', readOnce b (.data (batch ls ++ p)) = (ev, .ok b') ∧
      dispatched ev = ls.map (·.command.action) ∧ b'.parseFlag = 1 ∧ b'.parsedLen = 0 ∧
      b'.corruptMessagelen = p.length ∧ b'.rBuf.cells.take p.length = p ∧
      p.length ≤ initBufferSize - p.length ∧
      ∀ x, x.Fits b' → ∃ b'', (prepare b').bind (receive · x) = .ok b'' ∧
        b''.rpos = p.length ∧ b''.rBuflenRemain = initBufferSize - p.length ∧
        b''.rBuf.cells = p ++ (x.bytes ++
          List.replicate (initBufferSize - (p.length + x.bytes.length)) 0) := by
  have hlen' : (batch ls).length + p.length = 100 := by
    rw [← List.length_append]
    exact hlen
  have hpos := List.length_pos_of_ne_nil hne
  have hfit : b.corruptMessagelen + (ReadResult.data (batch ls ++ p)).bytes.length ≤ 100 := by
    rw [hb, Nat.zero_add]
    exact hlen.le
  have hcells : (b.filled (.data (batch ls ++ p)) hfit).rBuf.cells = batch ls ++ p := by
    simp only [Buffer.filled, ReadResult.bytes, hb, hlen, initBufferSize]
    simp
  have hpass : Passes (batch ls ++ p).length 0 ls := by
    apply passes_of_le hok
    rw [hlen, initBufferSize]
    omega
  obtain ⟨ev, b₁, hev, hsame, hend, hrun⟩ := readOnce_lines hfit ls p hok hcells
    (headD_front_ne hc hp) hpass
  have hrd : b₁.readDatalen = 100 := by
    rw [hsame.readDatalen]
    exact congrArg Nat.cast hlen
  have hparsed : b₁.parsedLen = (batch ls).length := by
    rw [List.length_append] at hend
    omega
  have hdrop : b₁.rBuf.cells.drop b₁.parsedLen = p := by
    rw [hsame.rBuf, hcells, hparsed, List.drop_left]
  obtain ⟨b₂, hdecod, hflag, hzero, hkept, htake⟩ :=
    decod_front hc hdrop hp hne hproper hrd.le (by omega)
  obtain ⟨ev', hread, hev'⟩ := hrun _ _ hdecod (.inl hflag)
  refine ⟨ev', b₂, hread, hev'.trans hev, hflag, hzero, hkept, htake, ?_, ?_⟩
  · -- no frame is longer than a third of the buffer
    have h32 := (c.frameLen_bounds hc).2
    have hle := hp.length_le
    rw [c.length_frame] at hle
    simp only [initBufferSize]
    omega
  · intro x hx
    have hroom : b₂.corruptMessagelen + x.bytes.length ≤ 100 := by
      apply hx.room
      rw [hkept]
      omega
    refine ⟨b₂.filled x hroom, ?_, hkept, ?_, ?_⟩
    · rw [prepare_receive, dif_pos hroom]
    · simp only [Buffer.filled, hkept, initBufferSize]
    · simp only [Buffer.filled, hkept, htake, initBufferSize]

/-- `readOnce_full` on three frames of 32 bytes, two of them with a newline, and the first two bytes
of `get k`. -/
theorem readOnce_full_two :
    ∃ ev b', readOnce initBuf (.data (batch [⟨.set nine nine, true⟩, ⟨.set nine nine, true⟩,
        ⟨.set nine nine, false⟩] ++ [star, tab])) = (ev, .ok b') ∧
      dispatched ev = List.replicate 3 (.set nine nine) ∧ b'.corruptMessagelen = 2 := by
  have hok : ∀ l ∈ ([⟨.set nine nine, true⟩, ⟨.set nine nine, true⟩, ⟨.set nine nine, false⟩] :
      List Line), l.command.Ok := by decide
  have hfront : [star, tab] <+: (Command.get [107]).frame := by decide
  obtain ⟨ev, b', hread, hev, -, -, hkept, -⟩ := readOnce_full (b := initBuf) rfl hok (by decide)
    hfront (by decide) (by decide) (by decide)
  exact ⟨ev, b', hread, hev, hkept⟩

/-! ## One read of a stream -/

/-- The buffer holds the first `k` bytes of the stream, which end inside its first frame. -/
structure Holding (b : Buffer) (k : ℕ) (cs : List Command) : Prop where
  kept : b.corruptMessagelen = k
  bytes : b.rBuf.cells.take k = (stream cs).take k
  inside : ∀ c ∈ cs.head?, k < c.frameLen

/-- What the buffer holds after a read of the stream. -/
lemma filled_stream {b : Buffer} {k : ℕ} {cs : List Command} {bytes rest : List Byte}
    (hb : Holding b k cs) (hpay : bytes ++ rest = (stream cs).drop k)
    (hfit : b.corruptMessagelen + (ReadResult.data bytes).bytes.length ≤ 100) :
    (b.filled (.data bytes) hfit).rBuf.cells =
      (stream cs).take (k + bytes.length) ++ List.replicate (100 - (k + bytes.length)) 0 := by
  have htake : (stream cs).take (k + bytes.length) = (stream cs).take k ++ bytes := by
    rw [List.take_add, ← hpay, List.take_left]
  simp only [Buffer.filled, ReadResult.bytes, hb.kept, hb.bytes, htake, List.append_assoc]

/-- What is left of a stream does not begin with a newline. -/
lemma headD_stream_ne {ds : List Command} (hok : ∀ d ∈ ds, d.Ok) (r z : ℕ) :
    ((stream ds).take r ++ List.replicate z (0 : Byte)).headD 0 ≠ newline := by
  cases ds with
  | nil => simpa [stream] using headD_zeros_ne z
  | cons d ds =>
      have hne : star ≠ newline := by decide
      have hd := d.frame_eq (hok d List.mem_cons_self)
      cases r with
      | zero => simpa using headD_zeros_ne z
      | succ r =>
          simp only [stream, List.flatMap_cons, hd, List.cons_append, List.take_succ_cons]
          exact hne

/-- A buffer that is full up to the middle of the next frame of the stream: `decod` keeps the front
of that frame. -/
lemma decod_stream_cut {b : Buffer} {r : ℕ} {ds : List Command} (hok : ∀ d ∈ ds, d.Ok)
    (hdrop : b.rBuf.cells.drop b.parsedLen = (stream ds).take r) (hr : r = 100 - b.parsedLen)
    (hr0 : r ≠ 0) (hinside : ∀ c ∈ ds.head?, r < c.frameLen) (hrd : b.readDatalen ≤ 100)
    (hlt : (b.parsedLen : Int) < b.readDatalen) :
    ∃ b', decod .record b = .ok (0, b') ∧ b'.parseFlag = 1 ∧ Holding b' r ds := by
  cases ds with
  | nil =>
      -- nothing is left of the stream, so the full buffer cannot hold more of it
      have hlen := congrArg List.length hdrop
      simp only [stream, List.flatMap_nil, List.take_nil, List.length_nil, List.length_drop,
        Buffer.length_rBuf] at hlen
      omega
  | cons d ds =>
      have hcut : r < d.frameLen := hinside d rfl
      have hfront : (stream (d :: ds)).take r = d.frame.take r := by
        have hle : r ≤ d.frame.length := by
          rw [d.length_frame]
          exact hcut.le
        simp only [stream, List.flatMap_cons, List.take_append_of_le_length hle]
      have hlenr : (d.frame.take r).length = r := by
        rw [List.length_take, d.length_frame, min_eq_left hcut.le]
      rw [hfront] at hdrop
      have hne : d.frame.take r ≠ [] := List.ne_nil_of_length_pos (by omega)
      have hproper : d.frame.take r ≠ d.frame := by
        intro h
        rw [h, d.length_frame] at hlenr
        omega
      obtain ⟨b', hdecod, hflag, -, hkept, htake⟩ := decod_front (hok d List.mem_cons_self) hdrop
        (List.take_prefix r _) hne hproper hrd hlt
      rw [hlenr] at hkept htake
      refine ⟨b', hdecod, hflag, hkept, ?_, hinside⟩
      rw [htake, hfront]

/-- **One timely read** dispatches the frames that have become complete and keeps the bytes
behind them. -/
theorem readOnce_stream {b : Buffer} {k : ℕ} {cs : List Command} {bytes rest : List Byte}
    (hok : ∀ c ∈ cs, c.Ok) (hb : Holding b k cs)
    (hpay : bytes ++ rest = (stream cs).drop k) (hheld : k + bytes.length ≤ 100)
    (hpass : Passes bytes.length 0 ((fit (k + bytes.length) cs).1.map Command.line))
    (hfull : k + bytes.length - (stream (fit (k + bytes.length) cs).1).length = 0 ∨
      k + bytes.length = 100 ∧ (stream (fit (k + bytes.length) cs).1).length < bytes.length) :
    ∃ ev b', readOnce b (.data bytes) = (ev, .ok b') ∧
      dispatched ev = (fit (k + bytes.length) cs).1.map Command.action ∧
      Holding b' (k + bytes.length - (stream (fit (k + bytes.length) cs).1).length)
        (fit (k + bytes.length) cs).2 := by
  have hfit : b.corruptMessagelen + (ReadResult.data bytes).bytes.length ≤ 100 := by
    rw [hb.kept]
    exact hheld
  have hcells := filled_stream hb hpay hfit
  obtain ⟨hle, hinside⟩ := fit_spec (k + bytes.length) cs
  have hsplit := fit_append (k + bytes.length) cs
  revert hcells hle hinside hsplit hpass hfull
  generalize (fit (k + bytes.length) cs).1 = fs
  generalize (fit (k + bytes.length) cs).2 = ds
  intro hpass hfull hcells hle hinside hsplit
  set m := k + bytes.length with hm
  set r := m - (stream fs).length with hr
  subst hsplit
  have hoks : ∀ l ∈ fs.map Command.line, l.command.Ok := by
    intro l hl
    obtain ⟨c, hc, rfl⟩ := List.mem_map.mp hl
    exact hok c (List.mem_append_left _ hc)
  have htake : (stream (fs ++ ds)).take m = stream fs ++ (stream ds).take r := by
    rw [stream_append, List.take_append, List.take_of_length_le hle]
  rw [htake, List.append_assoc, ← batch_line fs] at hcells
  have htail : ((stream ds).take r ++ List.replicate (100 - m) (0 : Byte)).headD 0 ≠ newline :=
    headD_stream_ne (fun d hd => hok d (List.mem_append_right _ hd)) r (100 - m)
  obtain ⟨ev, b₁, hev, hsame, hend, hrun⟩ :=
    readOnce_lines hfit (fs.map Command.line) _ hoks hcells htail hpass
  have hrd : b₁.readDatalen = bytes.length := hsame.readDatalen
  have hact : (fs.map Command.line).map (·.command.action) = fs.map Command.action := by
    simp [Command.line]
  rw [batch_line] at hend
  rw [hact] at hev
  by_cases hr0 : r = 0
  · -- everything held has been dispatched
    have hdone : decod .record b₁ = .ok (0, b₁.rejected 0) :=
      decod_of_readDatalen_le (by omega) (by omega)
    obtain ⟨ev', hread, hev'⟩ := hrun _ _ hdone (.inr rfl)
    refine ⟨ev', b₁.rejected 0, hread, hev'.trans hev, ?_⟩
    rw [hr0]
    refine ⟨rfl, rfl, ?_⟩
    intro c hc
    have := hinside c hc
    omega
  · -- the buffer is full, and its last frame is cut
    obtain ⟨hfull, hlt⟩ := hfull.resolve_left hr0
    have hp : b₁.parsedLen = (stream fs).length := by omega
    have hr100 : r = 100 - b₁.parsedLen := by omega
    have hdrop : b₁.rBuf.cells.drop b₁.parsedLen = (stream ds).take r := by
      have hz : 100 - m = 0 := by omega
      rw [hsame.rBuf, hcells, hp, batch_line, List.drop_left, hz]
      simp
    obtain ⟨b₂, hdecod, hflag, hhold⟩ := decod_stream_cut
      (fun d hd => hok d (List.mem_append_right _ hd)) hdrop hr100 hr0 hinside (by omega) (by omega)
    obtain ⟨ev', hread, hev'⟩ := hrun _ _ hdecod (.inl hflag)
    exact ⟨ev', b₂, hread, hev'.trans hev, hhold⟩

/-! ## All reads of a stream -/

/-- **Feeding a stream**: by induction on the reads, with `Holding` as the invariant between
them. -/
theorem feed_stream (b : Buffer) (k : ℕ) (cs : List Command) (xs : List ReadResult)
    (hok : ∀ c ∈ cs, c.Ok) (hb : Holding b k cs) (hk : k ≤ 100)
    (hpay : payload xs = (stream cs).drop k) (ht : Timely k cs xs) :
    dispatched (feed b xs) = cs.map Command.action := by
  induction xs generalizing b k cs with
  | nil =>
      cases cs with
      | nil => rfl
      | cons c cs =>
          have hin := hb.inside c rfl
          have hlen := congrArg List.length hpay
          simp only [payload, List.flatMap_nil, List.length_nil, List.length_drop, stream,
            List.flatMap_cons, List.length_append, c.length_frame] at hlen
          omega
  | cons x xs ih =>
      cases x with
      | data bytes =>
          obtain ⟨-, hheld, hpass, hfull, ht'⟩ := ht
          have hpay' : bytes ++ payload xs = (stream cs).drop k := hpay
          obtain ⟨ev, b', hread, hev, hb'⟩ :=
            readOnce_stream hok hb hpay' hheld hpass hfull
          have hsplit := fit_append (k + bytes.length) cs
          obtain ⟨hle, -⟩ := fit_spec (k + bytes.length) cs
          have hrest : payload xs = (stream (fit (k + bytes.length) cs).2).drop
              (k + bytes.length - (stream (fit (k + bytes.length) cs).1).length) := by
            have hall : payload xs = (stream cs).drop (k + bytes.length) := by
              rw [← List.drop_drop, ← hpay', List.drop_left]
            rw [hall]
            conv_lhs => rw [← hsplit, stream_append, List.drop_append,
              List.drop_of_length_le hle, List.nil_append]
          rw [feed_cons_of_ok hread (by simp), dispatched_append, hev,
            ih b' _ _ (fun c hc => hok c (hsplit ▸ List.mem_append_right _ hc)) hb' (by omega)
              hrest ht', ← List.map_append, hsplit]
      | again =>
          rw [feed_again]
          exact ih b k cs hok hb hk hpay ht
      | eof => exact ht.elim
      | error => exact ht.elim

/-- **Fragmentation.** A stream of frames that is cut where `tcpRead` can cope with it is
dispatched frame by frame, in order, each once. -/
theorem connEvents_stream (cs : List Command) (hok : ∀ c ∈ cs, c.Ok) (xs : List ReadResult)
    (hpay : payload xs = stream cs) (ht : Timely 0 cs xs) :
    dispatched (connEvents xs) = cs.map Command.action := by
  rw [connEvents_eq_feed]
  refine feed_stream initBuf 0 cs xs hok ⟨rfl, rfl, ?_⟩ (by decide) hpay ht
  intro c hc
  simp only [Command.frameLen]
  omega

/-- `connEvents_stream` on four frames of 32 bytes: the first read fills the buffer with three of
them and four bytes of the last, the second brings the rest. -/
theorem connEvents_stream_four :
    dispatched (connEvents [.data ((stream (List.replicate 4 (.set nine nine))).take 100), .again,
      .data ((stream (List.replicate 4 (.set nine nine))).drop 100)]) =
      List.replicate 4 (.set nine nine) :=
  connEvents_stream (List.replicate 4 (.set nine nine)) (by decide) _ (by decide) (by decide)

/-- **A cut that loses a command.** The frame of `get a`, cut behind its third byte: both reads
may be results of `read(2)`, and nothing is dispatched. In one piece the frame is. -/
theorem connEvents_cut :
    (Command.get [97]).Ok ∧
      payload [.data ((stream [.get [97]]).take 3), .data ((stream [.get [97]]).drop 3)] =
        stream [.get [97]] ∧
      FitsRun initBuf [.data ((stream [.get [97]]).take 3), .data ((stream [.get [97]]).drop 3)] ∧
      dispatched (connEvents
        [.data ((stream [.get [97]]).take 3), .data ((stream [.get [97]]).drop 3)]) = [] ∧
      dispatched (connEvents [.data (stream [.get [97]])]) = [.get [97]] := by
  decide +kernel

end ActionDB.Net.Codec
