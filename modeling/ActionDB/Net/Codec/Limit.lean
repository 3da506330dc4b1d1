import ActionDB.Net.Codec.Positions

/-!
# Messages that do not fit

`decod` compares the length that a message declares with what is left of `rBuf`, and keeps a message
that does not fit, up to the end of `rBuf`. A message at the front that declares more than 100 bytes
therefore fills `rBuf`, however few of its bytes have arrived: `tcpRead` asks for 0 bytes next, and
`read(2)` returns 0, which `tcpRead` takes for the end of file. The client is disconnected.

`noRoom_iff` says that this is the only way to lose the connection like that: after a read there is
no room for another byte exactly when the bytes at the front declare a message of more than 100.
Nothing of that read is executed.
-/

namespace ActionDB.Net.Codec

open ActionDB.Found

/-- The length in the header at the front of some bytes; a byte that is missing is no digit. -/
def declares (bytes : List Byte) : Option ℕ :=
  if bytes.getD 0 0 = star then
    digitsVal [bytes.getD 2 0, bytes.getD 3 0, bytes.getD 4 0, bytes.getD 5 0] 0
  else none

/-- What `rBuf` holds after a read: the bytes that were kept, and those of the read. -/
def Buffer.front (b : Buffer) (bytes : List Byte) : List Byte :=
  b.rBuf.cells.take b.corruptMessagelen ++ bytes

/-! ## The inner loop -/

/-- What a call keeps that leaves nothing to dispatch. -/
lemma decod_kept_lt {b b' : Buffer} {ret : Int} (hrd : b.readDatalen ≤ 100)
    (hfirst : b.head = .cut → 0 < b.parsedLen) (hd : decod .record b = .ok (ret, b'))
    (hflag : b'.parseFlag = 1 ∨ b'.parseFlag = -1) : b'.corruptMessagelen < 100 := by
  cases hh : b.head with
  | nothing =>
      rw [decod_nothing .record hrd hh] at hd
      cases hd
      exact Nat.zero_lt_succ _
  | cut =>
      have hp := (b.lt_of_head_ne_nothing hrd (by simp [hh])).1.le
      have hpos := hfirst hh
      rw [decod_cut .record hrd hh hp] at hd
      cases hd
      change 100 - b.parsedLen < 100
      omega
  | malformed =>
      rw [decod_malformed_record hrd hh] at hd
      cases hd
      exact Nat.zero_lt_succ _
  | message =>
      have hdecod := decod_message .record hrd hh
      rw [hd] at hdecod
      cases hl : b.loads .record with
      | error f =>
          rw [hl] at hdecod
          cases hdecod
      | ok l =>
          rw [hl] at hdecod
          cases hdecod
          rcases hflag with hflag | hflag <;> cases hflag

/-- Unless the first message is cut, less than the whole of `rBuf` is kept: a cut message behind
another one starts behind its header. The induction is on the fuel. -/
lemma drain_kept_lt {fuel : ℕ} {b b' : Buffer} {ev : List Event} (hrd : b.readDatalen ≤ 100)
    (hfirst : b.head = .cut → 0 < b.parsedLen) (h : drain .record fuel b = (ev, .ok b')) :
    b'.corruptMessagelen < 100 := by
  induction fuel generalizing b ev with
  | zero => cases h
  | succ fuel ih =>
      have hstep := drain_step .record fuel b
      rw [h] at hstep
      generalize hx : (ev, Except.ok b') = x at hstep
      cases hstep with
      | overruns | unreadable | shuts => cases hx
      | ends ret b₁ hd hflag =>
          cases hx
          exact decod_kept_lt hrd hfirst hd hflag
      | goes ret b₁ a hd hflag ha hstays =>
          obtain ⟨-, l, hl, rfl⟩ := decod_dispatches hrd hd hflag
          have hmoves := ((decod_advances hrd).moves _ (pass_of_decod hrd hd hflag)).1
          have hrest : drain .record fuel (b.closed l) =
              ((drain .record fuel (b.closed l)).1, .ok b') :=
            Prod.ext rfl (Prod.mk.inj hx).2.symm
          exact ih (b := b.closed l) hrd (fun _ => by omega) hrest

/-! ## One read -/

section Read

variable {b b' : Buffer} {bytes : List Byte} {ev : List Event}

/-- Behind the bytes of a read there are only zeros. -/
lemma byteAt_filled (hfit : b.corruptMessagelen + bytes.length ≤ 100) (i : ℕ) :
    (b.filled (.data bytes) hfit).byteAt i = (b.front bytes).getD i 0 := by
  simp only [Buffer.byteAt, Buffer.filled, Buffer.front, ReadResult.bytes]
  rw [← List.append_assoc]
  rcases lt_or_ge i (b.rBuf.cells.take b.corruptMessagelen ++ bytes).length with hi | hi
  · rw [List.getD_eq_getElem?_getD, List.getD_eq_getElem?_getD, List.getElem?_append_left hi]
  · rw [List.getD_eq_getElem?_getD, List.getD_eq_getElem?_getD, List.getElem?_append_right hi,
      List.getElem?_eq_none hi, List.getElem?_replicate]
    split_ifs <;> rfl

/-- The message at the front of a read is cut exactly when it declares more than 100 bytes. -/
lemma head_filled_eq_cut_iff (hfit : b.corruptMessagelen + bytes.length ≤ 100)
    (hne : bytes ≠ []) :
    (b.filled (.data bytes) hfit).head = .cut ↔
      ∃ n, declares (b.front bytes) = some n ∧ 100 < n := by
  have hread : ¬((b.filled (.data bytes) hfit).readDatalen ≤ (0 : ℕ)) := by
    have hpos := List.length_pos_iff.mpr hne
    show ¬((bytes.length : Int) ≤ (0 : ℕ))
    omega
  have hdeclared : (b.filled (.data bytes) hfit).declaredLen 0 =
      digitsVal [(b.front bytes).getD 2 0, (b.front bytes).getD 3 0, (b.front bytes).getD 4 0,
        (b.front bytes).getD 5 0] 0 := by
    simp only [Buffer.declaredLen, byteAt_filled hfit]
  have hparsed : (b.filled (.data bytes) hfit).parsedLen = 0 := rfl
  unfold Buffer.head declares
  rw [hparsed, hdeclared, byteAt_filled hfit]
  by_cases hstar : (b.front bytes).getD 0 0 = star
  · rw [if_neg (not_or.mpr ⟨hread, not_not.mpr hstar⟩), if_neg (by decide), if_pos hstar]
    cases digitsVal _ 0 with
    | none => simp
    | some n =>
        by_cases hn : 100 < n <;> simp [hn]
  · rw [if_pos (.inr hstar), if_neg hstar]
    simp

/-- A cut message at the front is kept with everything behind it, and the loop ends. -/
lemma readOnce_of_cut (hfit : b.corruptMessagelen + bytes.length ≤ 100)
    (hcut : (b.filled (.data bytes) hfit).head = .cut) :
    readOnce b (.data bytes) = ([.decod (b.filled (.data bytes) hfit)],
      .ok ((b.filled (.data bytes) hfit).kept (Nat.zero_le _))) := by
  have hrd := (held_filled b (.data bytes) hfit).read_le
  have hd := decod_cut .record hrd hcut (Nat.zero_le _)
  have hfit' : b.corruptMessagelen + (ReadResult.data bytes).bytes.length ≤ 100 := hfit
  rw [readOnce_eq, dif_pos hfit', if_neg (by simp), show drainFuel = 99 + 1 from rfl,
    drain_succ_of_done hd (.inl rfl)]

/-- A read that does not overrun `rBuf` fits it. -/
lemma readOnce_fits (hread : readOnce b (.data bytes) = (ev, .ok b')) :
    b.corruptMessagelen + bytes.length ≤ 100 := by
  by_contra hfit
  have hfit' : ¬b.corruptMessagelen + (ReadResult.data bytes).bytes.length ≤ 100 := hfit
  rw [readOnce_eq, dif_neg hfit'] at hread
  cases hread

/-- There is no room exactly when the whole of `rBuf` is kept. -/
lemma noRoom_iff_kept (b : Buffer) :
    (∀ more, ¬(ReadResult.data more).Fits b) ↔ 100 ≤ b.corruptMessagelen := by
  constructor
  · intro hroom
    by_contra hlt
    refine hroom [0] ⟨le_rfl, ?_⟩
    show 1 ≤ 100 - b.corruptMessagelen
    omega
  · rintro hk more ⟨hpos, hle⟩
    have hle' : more.length ≤ 100 - b.corruptMessagelen := hle
    omega

/-- **No room is left after a read** exactly when the bytes at the front declare a message of more
than 100 bytes, and then the read has executed nothing. Every `read(2)` from then on asks for 0
bytes, and closes the connection. -/
theorem noRoom_iff (hne : bytes ≠ []) (hread : readOnce b (.data bytes) = (ev, .ok b')) :
    ((∀ more, ¬(ReadResult.data more).Fits b') ↔
        ∃ n, declares (b.front bytes) = some n ∧ 100 < n) ∧
      ((∀ more, ¬(ReadResult.data more).Fits b') → dispatched ev = []) := by
  have hfit : b.corruptMessagelen + bytes.length ≤ 100 := readOnce_fits hread
  rw [noRoom_iff_kept, ← head_filled_eq_cut_iff hfit hne]
  by_cases hcut : (b.filled (.data bytes) hfit).head = .cut
  · rw [readOnce_of_cut hfit hcut] at hread
    cases hread
    exact ⟨iff_of_true le_rfl hcut, fun _ => rfl⟩
  · have hlt : b'.corruptMessagelen < 100 := by
      have hfit' : b.corruptMessagelen + (ReadResult.data bytes).bytes.length ≤ 100 := hfit
      rw [readOnce_eq, dif_pos hfit', if_neg (by simp)] at hread
      exact drain_kept_lt (held_filled b (.data bytes) hfit).read_le (fun h => absurd h hcut) hread
    exact ⟨iff_of_false (by omega) hcut, fun h => absurd h (by omega)⟩

/-- Six bytes of a message of 101 bytes are enough. -/
theorem noRoom_iff_header :
    ∃ ev b', readOnce initBuf (.data [42, 9, 48, 49, 48, 49]) = (ev, .ok b') ∧
      (∀ more, ¬(ReadResult.data more).Fits b') ∧ dispatched ev = [] := by
  have hdeclares : declares (initBuf.front [42, 9, 48, 49, 48, 49]) = some 101 := rfl
  have hfit : initBuf.corruptMessagelen + [42, 9, 48, 49, 48, (49 : Byte)].length ≤ 100 := by decide
  have hcut := (head_filled_eq_cut_iff hfit (List.cons_ne_nil _ _)).mpr ⟨101, hdeclares, by decide⟩
  have hread := readOnce_of_cut hfit hcut
  have hlimit := noRoom_iff (List.cons_ne_nil _ _) hread
  have hroom := hlimit.1.mpr ⟨101, hdeclares, by decide⟩
  exact ⟨_, _, hread, hroom, hlimit.2 hroom⟩

end Read

end ActionDB.Net.Codec
