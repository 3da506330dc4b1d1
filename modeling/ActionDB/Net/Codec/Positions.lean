import ActionDB.Found.Heap
import ActionDB.Net.Codec.Declared

/-!
# The two positions of the decoder

`decod` keeps two positions in `rBuf`. `cursor` is where the scan reads; `parsedLen` is where the
next message is looked for, and it is put together from the lengths of arguments and separators.
Neither depends on the copies of the arguments, so what is said of them here is said of `place`, and
of a pass of the inner loop with any rows (`Pass`), also where an argument does not fit.

*In step.* At the end of a message `parsedLen` falls behind `cursor` by the argument that the `'!'`
ends (`Fate.bang`). So the next message is looked for behind this one exactly when the `'!'` ends no
argument, that is when a tab or the header stands before it (`positions_inStep_iff`).

*Progress.* However far it falls behind, `parsedLen` never falls behind the end of the header, and
never runs ahead of `cursor` (`place_advances`). So every message that is left to dispatch moves it
by six bytes at least, and `decod` looks at nothing at or behind `readDatalen`. The measure of the
inner loop is `readDatalen - parsedLen`: a pass lowers it by six or is the last one
(`unread_of_pass`). So there are at most `readDatalen / 6 + 1` passes, whatever the copies do
(`drain_progress`), and no call of `tcpRead` ends for lack of fuel (`tcpRead_ne_outOfFuel`).
-/

namespace ActionDB.Net.Codec

open ActionDB.Found

/-! ## In step -/

/-- The scan of the message at `parsedLen` of `b` ends by consuming a `'!'`, and `b'` is what it
leaves, with any rows. -/
inductive Ended (b : Buffer) : Buffer → Prop
  | intro (p : Place) (argv : Area Byte argvSize) (place : b.place .record = some p)
      (exit : p.exit = .bang) : Ended b (b.closed (p.loaded argv))

/-- So does a call of `parseOneMessage` that consumes a `'!'`. -/
lemma ended_of_scan {b b' : Buffer} {s : Scan} {ret : Int}
    (hscan : scanMessage .record b.opened = .ok (.bang, s))
    (hparse : parseOneMessage .record b.opened = .ok (ret, b')) : Ended b b' := by
  rw [parseOneMessage_eq] at hparse
  cases hl : b.loads .record with
  | error f =>
      rw [hl] at hparse
      cases hparse
  | ok l =>
      rw [hl] at hparse
      obtain ⟨s', hscan', -⟩ := scanMessage_of_loads hl
      have hexit : l.exit = .bang := by
        rw [hscan] at hscan'
        exact (Prod.mk.inj (Except.ok.inj hscan')).1.symm
      obtain ⟨-, rfl⟩ := Prod.mk.inj (Except.ok.inj hparse)
      exact .intro l.place l.argv (b.place_of_loads hl) hexit

/-! ### Where the next message is looked for -/

section Begins

variable {r : Region} {b b' : Buffer} {ret : Int}

lemma repairLastCorruptMessage_begins {n : Int}
    (h : repairLastCorruptMessage b n = .ok (ret, b')) :
    b'.messageBeginpos = b.messageBeginpos := by
  unfold repairLastCorruptMessage at h
  simp only [] at h
  split_ifs at h
  split at h
  · cases h
    rfl
  · cases h

lemma keepCutMessage_begins {n : Int} (h : keepCutMessage b n = .ok (ret, b')) :
    b'.messageBeginpos = b.messageBeginpos := by
  unfold keepCutMessage at h
  split at h
  · cases h
  · next hrepair =>
      cases h
      have hsame := repairLastCorruptMessage_begins hrepair
      exact hsame

lemma rejectHeader_begins (h : rejectHeader r b = .ok (ret, b')) :
    b'.messageBeginpos = b.messageBeginpos := by
  obtain ⟨-, -, h⟩ := bind_eq_ok h
  obtain ⟨-, -, h⟩ := bind_eq_ok h
  cases h
  rfl

lemma catchBody_begins (h : catchBody r b.starred = .ok (ret, b')) :
    b'.messageBeginpos = b.parsedLen := by
  unfold catchBody at h
  simp only [] at h
  split_ifs at h
  · exact keepCutMessage_begins h
  · split at h
    · cases h
    · exact rejectHeader_begins h
    · split_ifs at h
      · exact keepCutMessage_begins h
      · change parseOneMessage r b.opened = _ at h
        rw [parseOneMessage_eq] at h
        cases hl : b.loads r with
        | error f =>
            rw [hl] at h
            cases h
        | ok l =>
            rw [hl] at h
            cases h
            rfl

/-- **A message begins at `parsedLen`**, however the call ends. -/
lemma catchOneMessagefromBuffer_begins (h : catchOneMessagefromBuffer r b = .ok (ret, b')) :
    b'.messageBeginpos = b.parsedLen := by
  unfold catchOneMessagefromBuffer at h
  simp only [] at h
  split_ifs at h
  · cases h
    rfl
  · split at h
    · cases h
    · split_ifs at h
      · cases h
        rfl
      · exact catchBody_begins h

end Begins

/-- The offset behind a message with the text, and behind a newline that follows it. -/
def Buffer.behind (b : Buffer) (text : List Byte) : ℕ :=
  b.parsedLen + (text.length + 7) +
    if b.byteAt (b.parsedLen + (text.length + 7)) = newline then 1 else 0

/-- After the message at `parsedLen` of `b` the two positions of `b'` are the same, right behind the
message, and the next call of `catchOneMessagefromBuffer` starts there. -/
def InStep (b b' : Buffer) : Prop :=
  b'.cursor = b'.parsedLen ∧ ∃ text, HasText b text ∧ b'.parsedLen = b.behind text ∧
    ∀ r ret b'', catchOneMessagefromBuffer r b' = .ok (ret, b'') →
      b''.messageBeginpos = b.behind text

/-- Where a scan that ends at a `'!'` leaves the two positions: `cursor` behind the message,
`parsedLen` there too exactly when no argument is open before the `'!'`. -/
lemma Ended.positions {b b' : Buffer} {text : List Byte} (h : Ended b b') (ht : HasText b text) :
    b'.cursor = b.behind text ∧ (b'.cursor = b'.parsedLen ↔ Closed text) := by
  obtain ⟨p, argv, hp, hexit⟩ := h
  have h6 : ((b.parsedLen + 6 : ℕ) : Int) ≠ b.readDatalen := by
    intro h6
    rw [Buffer.place, trackMessage, if_pos h6] at hp
    obtain rfl := Option.some.inj hp
    cases hexit
  have hlex := ht.lexed
  have hfate := b.place_fate (r := .record) h6
  rw [hp] at hfate
  generalize b.message .record = m at hlex hfate
  cases hfate with
  | drained | tooMany => cases hexit
  | bang few passed last c ending n =>
      cases hlex with
      | bang args last' before stop opened texts =>
          obtain ⟨rfl, hc⟩ := Ending.bang.inj ending
          obtain rfl := Option.some.inj hc
          rw [← opened.eq_nil_iff, ← List.length_eq_zero_iff, Buffer.behind]
          simp only [Buffer.closed, Place.loaded]
          unfold Arg.stop at stop ⊢
          constructor
          · split_ifs <;> omega
          · omega
      | fourth args before texts => cases ending

/-- **The two positions.** After a message, at any offset, whose scan ends by consuming a `'!'`,
they are in step exactly when no argument is open before the `'!'`. This is so for every return of
`parseOneMessage`, and whatever the copies of the arguments have done to `argv`. -/
theorem positions_inStep_iff (b : Buffer) :
    (∀ s ret b', scanMessage .record b.opened = .ok (.bang, s) →
      parseOneMessage .record b.opened = .ok (ret, b') → Ended b b') ∧
    ∀ b', Ended b b' → (InStep b b' ↔ ∃ text, HasText b text ∧ Closed text) := by
  refine ⟨fun s ret b' => ended_of_scan, fun b' hended => ?_⟩
  constructor
  · rintro ⟨hsame, text, ht, -⟩
    exact ⟨text, ht, (hended.positions ht).2.mp hsame⟩
  · rintro ⟨text, ht, hclosed⟩
    obtain ⟨hend, hiff⟩ := hended.positions ht
    have hsame := hiff.mpr hclosed
    have hparsed : b'.parsedLen = b.behind text := hsame.symm.trans hend
    refine ⟨hsame, text, ht, hparsed, fun r ret b'' hnext => ?_⟩
    rw [catchOneMessagefromBuffer_begins hnext, hparsed]

/-- The frame of `get k`. -/
def frameGet : List Byte := makeCommand (strGet ++ [32, 107])

/-- Its `'!'` is behind a tab. -/
theorem positions_inStep_frame :
    ∃ s ret b', scanMessage .record (received frameGet (by decide)).opened = .ok (.bang, s) ∧
      parseOneMessage .record (received frameGet (by decide)).opened = .ok (ret, b') ∧
      InStep (received frameGet (by decide)) b' := by
  have htext : HasText (received frameGet (by decide)) ([tab] ++ strGet ++ [tab, 107, tab]) :=
    ⟨⟨_, rfl⟩, by decide⟩
  obtain ⟨hended, hiff⟩ := positions_inStep_iff (received frameGet (by decide))
  exact ⟨_, _, _, rfl, rfl, (hiff _ (hended _ _ _ rfl rfl)).mpr ⟨_, htext, .inr rfl⟩⟩

/-- The message `get k` whose `'!'` is directly behind `k`, and the frame of `get k`. -/
def untabbedPair : List Byte := [42, 9, 48, 48, 49, 51, 9, 103, 101, 116, 9, 107, 33] ++ frameGet

/-- **A position that falls behind.** After the first message `cursor` is behind its `'!'` and
`parsedLen` on it, so the second message, which is well formed, is not dispatched. -/
theorem positions_not_inStep :
    ∃ s ret b', scanMessage .record (received untabbedPair (by decide)).opened = .ok (.bang, s) ∧
      parseOneMessage .record (received untabbedPair (by decide)).opened = .ok (ret, b') ∧
      b'.cursor = 13 ∧ b'.parsedLen = 12 ∧ ¬InStep (received untabbedPair (by decide)) b' ∧
      dispatched (connEvents [.data untabbedPair]) = [.get [107]] := by
  refine ⟨_, _, _, rfl, rfl, rfl, rfl, ?_, by decide +kernel⟩
  rintro ⟨hsame, -⟩
  cases hsame

/-! ## Progress -/

/-- **The scan of a message** moves `parsedLen` over its header at least, and not past `cursor`. -/
lemma place_advances {r : Region} {b : Buffer} {p : Place} (h : b.place r = some p) :
    b.parsedLen + 6 ≤ p.parsedLen ∧ p.parsedLen ≤ p.cursor := by
  by_cases h6 : ((b.parsedLen + 6 : ℕ) : Int) = b.readDatalen
  · rw [Buffer.place, trackMessage, if_pos h6] at h
    obtain rfl := Option.some.inj h
    exact ⟨le_rfl, le_rfl⟩
  · obtain ⟨hargs, hlast⟩ :=
      start_le_lex (b.parsedLen + 6) [] 0 ((b.mem r).drop (b.parsedLen + 6))
    have hfate := b.place_fate (r := r) h6
    rw [h] at hfate
    cases hfate with
    | drained a mem | tooMany a mem =>
        have hle := hargs a mem
        dsimp only [Arg.stop]
        omega
    | bang few passed last c ending n =>
        have hle := hlast last _ ending
        dsimp only [Arg.stop]
        omega

/-- What a call of `decod` owes to the inner loop: when it leaves a message to dispatch, `parsedLen`
has moved by six at least, and not past `cursor`, whatever the copies do; at or behind `readDatalen`
it ends the loop. -/
structure Advances (b : Buffer) : Prop where
  moves : ∀ b', Pass b b' → b.parsedLen + 6 ≤ b'.parsedLen ∧ b'.parsedLen ≤ b'.cursor
  passes : ∀ ret b', decod .record b = .ok (ret, b') → b'.parseFlag = 0 → Pass b b'
  stops : b.readDatalen ≤ b.parsedLen →
    ∃ ret b', decod .record b = .ok (ret, b') ∧ b'.parseFlag = -1

lemma decod_advances {b : Buffer} (hrd : b.readDatalen ≤ 100) : Advances b where
  moves := by
    rintro _ ⟨p, argv, -, hp⟩
    exact place_advances hp
  passes := fun ret b' hd hflag => pass_of_decod hrd hd (by simp [hflag])
  stops := fun hle => ⟨_, _, decod_of_readDatalen_le hrd hle, rfl⟩

/-- The call of `decod` ends the inner loop. -/
def Ends (b : Buffer) : Prop :=
  ∃ ret b', decod .record b = .ok (ret, b') ∧ (b'.parseFlag = 1 ∨ b'.parseFlag = -1)

/-- When the scan of a message is stopped, the loop ends or goes on. -/
lemma ends_iff {b : Buffer} (hrd : b.readDatalen ≤ 100)
    (hstops : b.head = .message → ScanStops .record b) : Ends b ↔ ¬∃ b', Pass b b' := by
  by_cases hh : b.head = .message
  · obtain ⟨p, hp⟩ :=
      Option.ne_none_iff_exists'.mp ((place_ne_none_iff .record b).mpr (hstops hh))
    refine iff_of_false ?_ fun h => h ⟨_, .intro p b.argv hh hp⟩
    rintro ⟨ret, b', hd, hflag⟩
    obtain ⟨l, -, rfl⟩ := decod_of_message hrd hh hd
    rcases hflag with hflag | hflag <;> cases hflag
  · refine iff_of_true ?_ ?_
    · have hdecod := decod_record hrd
      generalize hd : decod .record b = x at hdecod
      cases hdecod with
      | rejected skip => exact ⟨_, _, hd, .inr rfl⟩
      | kept le => exact ⟨_, _, hd, .inl rfl⟩
      | loaded l head | faults f head => exact absurd head hh
    · rintro ⟨_, -, -, head, -⟩
      exact hh head

/-- The inner loop has gone on `n` times. -/
inductive PassRun (b : Buffer) : ℕ → Buffer → Prop
  | refl : PassRun b 0 b
  | tail {n : ℕ} {c d : Buffer} (run : PassRun b n c) (pass : Pass c d) : PassRun b (n + 1) d

/-- What is left between `parsedLen` and `readDatalen`. -/
def Buffer.unread (b : Buffer) : ℕ := (b.readDatalen - b.parsedLen).toNat

lemma Buffer.unread_le (b : Buffer) : b.unread ≤ b.readDatalen.toNat := by
  unfold Buffer.unread
  omega

/-- A pass lowers what is left by six, or leaves nothing. -/
lemma unread_of_pass {b b' : Buffer} (hrd : b.readDatalen ≤ 100) (h : Pass b b') :
    0 < b.unread ∧ b'.unread ≤ b.unread - 6 ∧ b'.readDatalen ≤ 100 := by
  have hmoves := ((decod_advances hrd).moves b' h).1
  obtain ⟨p, argv, hh, hp⟩ := h
  have hlt := (b.lt_of_head_ne_nothing hrd (by simp [hh])).2.2
  have hsame : (b.closed (p.loaded argv)).readDatalen = b.readDatalen := rfl
  unfold Buffer.unread
  omega

/-- **The bound**: `n` passes take six bytes each, the last one perhaps fewer. -/
lemma PassRun.bound {b c : Buffer} {n : ℕ} (hrd : b.readDatalen ≤ 100) (h : PassRun b n c) :
    6 * n ≤ b.unread + 5 ∧ c.unread ≤ b.unread - 6 * n ∧ c.readDatalen ≤ 100 := by
  induction h with
  | refl => exact ⟨by omega, by omega, hrd⟩
  | tail run pass ih =>
      obtain ⟨hcount, hleft, hrd'⟩ := ih
      obtain ⟨hpos, hless, hrd''⟩ := unread_of_pass hrd' pass
      exact ⟨by omega, by omega, hrd''⟩

/-- **Enough fuel.** The induction is on the fuel: every pass that goes on uses one unit of it and
six bytes of what is left. -/
theorem drain_ne_outOfFuel (fuel : ℕ) (b : Buffer) (hrd : b.readDatalen ≤ 100)
    (hfuel : b.unread + 6 ≤ 6 * fuel) : (drain .record fuel b).2 ≠ .error .outOfFuel := by
  induction fuel generalizing b with
  | zero => omega
  | succ fuel ih =>
      have hdrain := drain_step .record fuel b
      generalize drain .record (fuel + 1) b = x at hdrain ⊢
      cases hdrain with
      | overruns | ends | unreadable | shuts => simp
      | goes ret b' a decodes flag dispatches stays =>
          obtain ⟨hpos, hleft, hrd'⟩ := unread_of_pass hrd (pass_of_decod hrd decodes flag)
          exact ih b' hrd' (by omega)

/-- Each dispatch takes six bytes of what is left, the last one perhaps fewer. -/
lemma dispatched_drain_le (fuel : ℕ) (b : Buffer) (hrd : b.readDatalen ≤ 100) :
    6 * (dispatched (drain .record fuel b).1).length ≤ b.unread + 5 := by
  induction fuel generalizing b with
  | zero => exact Nat.zero_le _
  | succ fuel ih =>
      have hdrain := drain_step .record fuel b
      generalize drain .record (fuel + 1) b = x at hdrain ⊢
      cases hdrain with
      | overruns | ends | unreadable => exact Nat.zero_le _
      | shuts ret b' decodes flag dispatches =>
          have hleft := unread_of_pass hrd (pass_of_decod hrd decodes flag)
          change 6 * 1 ≤ _
          omega
      | goes ret b' a decodes flag dispatches stays =>
          obtain ⟨hpos, hleft, hrd'⟩ := unread_of_pass hrd (pass_of_decod hrd decodes flag)
          have hcount := ih b' hrd'
          change 6 * ((dispatched (drain .record fuel b').1).length + 1) ≤ _
          omega

/-- The calls of `decod` that the loop makes are states of its passes. -/
lemma passes_of_mem_calls {b : Buffer} (hrd : b.readDatalen ≤ 100) (fuel : ℕ) :
    ∀ c ∈ calls (drain .record fuel b).1, ∃ n, PassRun b n c := by
  refine calls_drain (J := fun c => ∃ n, PassRun b n c) ?_ fuel b ⟨0, .refl⟩
  rintro c ret c' ⟨n, hrun⟩ hd hflag
  exact ⟨n + 1, hrun.tail (pass_of_decod (hrun.bound hrd).2.2 hd hflag)⟩

/-- When the scan of a message is stopped, only its arguments can fault. -/
lemma decod_error {b : Buffer} {f : Fault} (hrd : b.readDatalen ≤ 100)
    (hstops : b.head = .message → ScanStops .record b) (h : decod .record b = .error f) :
    f = .argvOverflow := by
  have hdecod := decod_record hrd
  rw [h] at hdecod
  cases hdecod with
  | faults f head loads =>
      rcases loads_stops .record b with ⟨-, hnot⟩ | hl | ⟨⟨l, hl⟩, -⟩
      · exact absurd (hstops head) hnot
      · rw [loads] at hl
        exact Except.error.inj hl
      · rw [loads] at hl
        cases hl

/-- How a run of `drain` ends: as the loop does, with `parseFlag` or with the process; or it is
given up, because an argument does not fit into the struct or is not a string there. The loop itself
goes on from such a state, by a pass. -/
inductive RunEnd : Except Stop Buffer → Prop
  | flag (b : Buffer) (flag : b.parseFlag = 1 ∨ b.parseFlag = -1) : RunEnd (.ok b)
  | exit : RunEnd (.error .exit)
  | givenUp (f : Fault) (argv : f = .argvOverflow ∨ f = .argvUnterminated) :
      RunEnd (.error (.fault f))

/-- How a run ends when every scan is stopped. -/
lemma runEnd_drain (fuel : ℕ) (b : Buffer) (hrd : b.readDatalen ≤ 100)
    (hfuel : (drain .record fuel b).2 ≠ .error .outOfFuel)
    (hstops : ∀ c ∈ calls (drain .record fuel b).1, c.head = .message → ScanStops .record c) :
    RunEnd (drain .record fuel b).2 := by
  induction fuel generalizing b with
  | zero => exact absurd rfl hfuel
  | succ fuel ih =>
      have hdrain := drain_step .record fuel b
      generalize drain .record (fuel + 1) b = x at hdrain hfuel hstops ⊢
      cases hdrain with
      | overruns f decodes =>
          exact .givenUp f (.inl (decod_error hrd (hstops b List.mem_cons_self) decodes))
      | ends ret b' decodes flag => exact .flag b' flag
      | unreadable ret b' f decodes flag dispatches =>
          exact .givenUp f (.inr (dispatch_error dispatches))
      | shuts => exact .exit
      | goes ret b' a decodes flag dispatches stays =>
          have hrd' := (unread_of_pass hrd (pass_of_decod hrd decodes flag)).2.2
          exact ih b' hrd' hfuel fun c hc => hstops c (List.mem_cons_of_mem _ hc)

/-- **The dispatch loop makes progress.** For every buffer and every `readDatalen` up to the size of
`rBuf`, when each scan meets a byte that stops it: from every state of the loop, whatever the copies
of the arguments have done to `argv`, a call of `decod` advances, and it ends the loop unless there
is another pass; and there are at most `readDatalen / 6 + 1` of them. The runs of `drain` consist of
such passes. -/
theorem drain_progress {b : Buffer} (hrd : b.readDatalen ≤ initBufferSize)
    (hstops : ∀ n c, PassRun b n c → c.head = .message → ScanStops .record c) :
    (∀ n c, PassRun b n c →
      Advances c ∧ n ≤ b.readDatalen.toNat / 6 + 1 ∧ (Ends c ↔ ¬∃ d, Pass c d)) ∧
    ∀ fuel, b.readDatalen.toNat / 6 + 1 < fuel →
      (∀ c ∈ calls (drain .record fuel b).1, ∃ n, PassRun b n c) ∧
      (dispatched (drain .record fuel b).1).length ≤ b.readDatalen.toNat / 6 + 1 ∧
      RunEnd (drain .record fuel b).2 := by
  have hunread := b.unread_le
  refine ⟨fun n c hrun => ?_, fun fuel hfuel => ?_⟩
  · obtain ⟨hcount, -, hrd'⟩ := hrun.bound hrd
    exact ⟨decod_advances hrd', by omega, ends_iff hrd' (hstops n c hrun)⟩
  · have hcalls := passes_of_mem_calls hrd fuel
    have hend := drain_ne_outOfFuel fuel b hrd (by omega)
    have hcount := dispatched_drain_le fuel b hrd
    refine ⟨hcalls, by omega, runEnd_drain fuel b hrd hend fun c hc => ?_⟩
    obtain ⟨n, hrun⟩ := hcalls c hc
    exact hstops n c hrun

/-- The message `set k` with a value of sixty bytes, which does not fit into the struct, and behind
it the frame of `get k`. -/
def longPair : List Byte :=
  [42, 9, 48, 48, 55, 53, 9, 115, 101, 116, 9, 107, 9] ++ List.replicate 60 97 ++ [9, 33] ++
    frameGet

/-- Where its two messages end. -/
def longPlace : Place := ⟨.bang, 75, 75, 74, 4⟩
def longPlace' : Place := ⟨.bang, 89, 89, 88, 3⟩

/-- The states of the loop. -/
lemma passRun_longPair {n : ℕ} {c : Buffer} (h : PassRun (received longPair (by decide)) n c) :
    c = received longPair (by decide) ∨
      (∃ v, c = (received longPair (by decide)).closed (longPlace.loaded v)) ∨
      ∃ v v', c = ((received longPair (by decide)).closed (longPlace.loaded v)).closed
        (longPlace'.loaded v') := by
  have hfirst : (received longPair (by decide)).place .record = some longPlace := by decide +kernel
  have hsecond : ((received longPair (by decide)).closed (longPlace.loaded (.fill _ 0))).place
      .record = some longPlace' := by decide +kernel
  induction h with
  | refl => exact .inl rfl
  | tail run pass ih =>
      obtain ⟨p, argv, hh, hp⟩ := pass
      rcases ih with rfl | ⟨v, rfl⟩ | ⟨v, v', rfl⟩
      · obtain rfl := Option.some.inj (hfirst.symm.trans hp)
        exact .inr (.inl ⟨argv, rfl⟩)
      · obtain rfl := Option.some.inj (hsecond.symm.trans hp)
        exact .inr (.inr ⟨v, argv, rfl⟩)
      · cases hh

/-- The loop goes on behind a message that does not fit, and ends behind the next one. -/
theorem drain_progress_long :
    decod .record (received longPair (by decide)) = .error .argvOverflow ∧
      ∃ c d, Pass (received longPair (by decide)) c ∧ c.parsedLen = 75 ∧ Pass c d ∧
        d.parsedLen = 89 ∧ Ends d := by
  have hstops : ∀ n c, PassRun (received longPair (by decide)) n c → c.head = .message →
      ScanStops .record c := by
    intro n c hrun hh
    rcases passRun_longPair hrun with rfl | ⟨v, rfl⟩ | ⟨v, v', rfl⟩
    · decide +kernel
    · have hsame : ScanStops .record
          ((received longPair (by decide)).closed (longPlace.loaded (.fill _ 0))) := by
        decide +kernel
      exact hsame
    · cases hh
  have hfirst : Pass (received longPair (by decide)) _ :=
    .intro longPlace (.fill _ 0) (by decide +kernel) (by decide +kernel)
  have hsecond : Pass ((received longPair (by decide)).closed (longPlace.loaded (.fill _ 0))) _ :=
    .intro longPlace' (.fill _ 0) (by decide +kernel) (by decide +kernel)
  refine ⟨by decide +kernel, _, _, hfirst, rfl, hsecond, rfl, ?_⟩
  have hends := ((drain_progress (by decide) hstops).1 2 _ ((PassRun.refl.tail hfirst).tail
    hsecond)).2.2
  refine hends.mpr ?_
  rintro ⟨_, p, argv, hh, -⟩
  cases hh

/-! ### The fuel of `tcpRead` -/

lemma readOnce_ne_outOfFuel (b : Buffer) (x : ReadResult) :
    (readOnce b x).2 ≠ .error .outOfFuel := by
  rw [readOnce_eq]
  split_ifs with hfit hend
  · simp
  · have hrd := (held_filled b x hfit).read_le
    have hunread := (b.filled x hfit).unread_le
    apply drain_ne_outOfFuel drainFuel _ hrd
    show _ ≤ 6 * 100
    omega
  · simp

lemma readLoop_ne_outOfFuel (b : Buffer) (xs : List ReadResult) :
    (readLoop b xs).2 ≠ .stop .outOfFuel := by
  induction xs generalizing b with
  | nil =>
      have hread := readOnce_ne_outOfFuel b .again
      simp only [readLoop]
      rcases hr : readOnce b .again with ⟨ev, s | b'⟩
      · rw [hr] at hread
        simpa using hread
      · simp
  | cons x xs ih =>
      have hread := readOnce_ne_outOfFuel b x
      simp only [readLoop]
      rcases hr : readOnce b x with ⟨ev, s | b'⟩
      · rw [hr] at hread
        simpa using hread
      · cases x with
        | eof | again => simp
        | data bytes | error => exact ih b'

/-- **The fuel is no limit.** Whatever is read, a call of `tcpRead` never ends because the fuel of
the inner loop has run out. -/
theorem tcpRead_ne_outOfFuel (b : Buffer) (xs : List ReadResult) :
    (tcpRead b xs).2 ≠ .stop .outOfFuel := by
  rw [tcpRead_eq_readLoop]
  exact readLoop_ne_outOfFuel b xs

end ActionDB.Net.Codec
