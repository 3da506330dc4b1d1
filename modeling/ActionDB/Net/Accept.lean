import ActionDB.Net.Callback
import Mathlib.Data.List.Chain

/-!
# Accepting a client

Two properties that `tcpAcceptCallback` should have.

*New connections go to a least loaded worker.* The loop keeps no minimum: it compares every count
with the one before it, and ends with the last worker whose count is below its neighbour's.
`minconnsindex_least_iff` says for which counts that is a worker with the fewest connections.

*A failed accept leaves no trace.* The callback writes the event table, then the epoll set, then
the connection tree, and returns `-1` as soon as one of them fails, without taking the earlier
writes back. `acceptFailed_sameRecords_iff` says in which states nothing is left behind. When
`epoll_ctl` fails, the callback first logs this with a format that lacks its argument; it returns
only if that call does (`AcceptResult.logged`).
-/

namespace ActionDB.Net

open ActionDB.Found ActionDB.Net.Codec ActionDB.Net.Conn ActionDB.Net.Event

variable {n : ℕ}

/-! ## The choice of a worker -/

/-- No count is below that of worker `i`. -/
def Least (cnts : List Int) (i : ℕ) : Prop := ∃ c, cnts[i]? = some c ∧ ∀ c' ∈ cnts, c ≤ c'

/-- The counts never drop from one worker to the next. -/
abbrev Rising (cnts : List Int) : Prop := cnts.IsChain (· ≤ ·)

/-- The loop ends with the last worker whose count is below its neighbour's: the counts never drop
behind it, and they drop to it unless it is the one the loop started with. -/
lemma minconnsindexFrom_spec (i start : ℕ) (cnts : List Int) :
    (minconnsindexFrom (i + 1) start cnts = start ∧ Rising cnts) ∨
      ∃ k c c', minconnsindexFrom (i + 1) start cnts = i + (k + 1) ∧ Rising (cnts.drop (k + 1)) ∧
        cnts[k]? = some c ∧ cnts[k + 1]? = some c' ∧ c' < c := by
  induction cnts generalizing i start with
  | nil => exact .inl ⟨rfl, .nil⟩
  | cons prev cnts ih =>
      cases cnts with
      | nil => exact .inl ⟨rfl, .singleton prev⟩
      | cons cnt cnts =>
          unfold minconnsindexFrom
          rcases ih (i + 1) (if cnt < prev then i + 1 else start) with
            ⟨hend, hrise⟩ | ⟨k, c, c', hend, hrise, hk, hk', hlt⟩
          · rw [hend]
            split_ifs with hdrop
            · exact .inr ⟨0, prev, cnt, rfl, hrise, rfl, rfl, hdrop⟩
            · exact .inl ⟨rfl, .cons_cons (not_lt.mp hdrop) hrise⟩
          · refine .inr ⟨k + 1, c, c', ?_, hrise, hk, hk', hlt⟩
            rw [hend]
            omega

/-- The counts from a worker on which never drop are not below its own. -/
lemma Rising.le {cnts : List Int} {i j : ℕ} {c c' : Int} (h : Rising (cnts.drop i)) (hij : i ≤ j)
    (hi : cnts[i]? = some c) (hj : cnts[j]? = some c') : c ≤ c' := by
  obtain ⟨k, rfl⟩ := Nat.exists_eq_add_of_le hij
  have hi' : (cnts.drop i)[0]? = some c := by rw [List.getElem?_drop, Nat.add_zero, hi]
  have hj' : (cnts.drop i)[k]? = some c' := by rw [List.getElem?_drop, hj]
  rcases Nat.eq_zero_or_pos k with rfl | hk
  · rw [hi'] at hj'
    exact le_of_eq (Option.some.inj hj')
  · obtain ⟨h₀, rfl⟩ := List.getElem?_eq_some_iff.mp hi'
    obtain ⟨h₁, rfl⟩ := List.getElem?_eq_some_iff.mp hj'
    exact List.pairwise_iff_getElem.mp h.pairwise 0 k h₀ h₁ hk

/-- **The worker that is chosen** has the fewest connections exactly when the counts, from some
worker with the fewest on, never drop. -/
theorem minconnsindex_least_iff (cnts : List Int) :
    Least cnts (minconnsindex cnts) ↔ ∃ i, Least cnts i ∧ Rising (cnts.drop i) := by
  have hspec := minconnsindexFrom_spec 0 0 cnts
  change (minconnsindex cnts = 0 ∧ _) ∨ ∃ k c c', minconnsindex cnts = 0 + (k + 1) ∧ _ at hspec
  have hrise : Rising (cnts.drop (minconnsindex cnts)) := by
    rcases hspec with ⟨hend, hrise⟩ | ⟨k, c, c', hend, hrise, -⟩
    · rw [hend]
      exact hrise
    · rw [hend, Nat.zero_add]
      exact hrise
  refine ⟨fun hleast => ⟨_, hleast, hrise⟩, ?_⟩
  rintro ⟨i, ⟨c, hc, hmin⟩, hi⟩
  -- the last drop is not behind `i`
  have hle : minconnsindex cnts ≤ i := by
    rcases hspec with ⟨hend, -⟩ | ⟨k, c₁, c₂, hend, -, h₁, h₂, hlt⟩
    · omega
    · by_contra hgt
      have hrise' : Rising (cnts.drop k) := by
        have := hi.drop (k - i)
        rwa [List.drop_drop, Nat.add_sub_cancel' (by omega)] at this
      exact absurd (hrise'.le (Nat.le_succ k) h₁ h₂) (not_le.mpr hlt)
  have hlt : minconnsindex cnts < cnts.length :=
    lt_of_le_of_lt hle (List.getElem?_eq_some_iff.mp hc).1
  refine ⟨_, List.getElem?_eq_getElem hlt, fun c' hc' => ?_⟩
  exact (hrise.le hle (List.getElem?_eq_getElem hlt) hc).trans (hmin c' hc')

/-- Of workers with 0, 5 and 3 connections the third is chosen. -/
theorem minconnsindex_not_least : ¬ Least [0, 5, 3] (minconnsindex [0, 5, 3]) := by
  rintro ⟨c, hc, hmin⟩
  obtain rfl : 3 = c := Option.some.inj hc
  exact absurd (hmin 0 List.mem_cons_self) (by decide)

/-! ## Failed accepts -/

/-- The event table, the epoll set and the connections of a worker are the same. -/
structure SameRecords (w w' : Worker n) : Prop where
  fEvents : w'.loop.fEvents = w.loop.fEvents
  epoll : w'.loop.epoll = w.loop.epoll
  table : w'.table = w.table

lemma SameRecords.refl (w : Worker n) : SameRecords w w := ⟨rfl, rfl, rfl⟩

/-- The callback for reading is registered already. -/
def Reading (e : EventLoop n) (fd : Int) : Prop :=
  (e.mask fd).has READABLE ∧ e.rproc fd = some .tcpReadCallback

/-- What a registration that fails leaves: nothing when the descriptor is outside the table, and the
new entry of the event table otherwise. -/
lemma register_failed {w w' : Worker n} {fd : Int} {x : AcceptResult} (hpos : 0 < fd)
    (hcall : register w fd x = .ok (-1, w')) :
    (n : Int) < fd ∧ w' = w ∨
      ∃ i, slot n fd = some i ∧
        w' = { w with loop := w.loop.withEvent i fd READABLE .tcpReadCallback } := by
  obtain ⟨⟨created, loop⟩, hcreate, hcall⟩ := bind_eq_ok hcall
  rcases createFileEvent_cases (liftLoop_eq_ok hcreate) with ⟨hn, rfl, rfl⟩ | ⟨i, hi, rfl, rfl⟩
  · cases hcall
    exact .inl ⟨hn, rfl⟩
  · refine .inr ⟨i, hi, ?_⟩
    obtain ⟨⟨added, loop⟩, hadd, hcall⟩ := bind_eq_ok hcall
    rcases aePollAddEvent_cases (liftLoop_eq_ok hadd) with ⟨rfl, rfl⟩ | ⟨rfl, k, rfl⟩
    · -- the failure is logged, if that call returns
      simp only [if_true] at hcall
      split_ifs at hcall
      cases hcall
      rfl
    · -- all three records are written, and the descriptor is returned
      obtain ⟨⟨connection, table⟩, hnew, hcall⟩ := bind_eq_ok hcall
      simp only [newConn_ne_none (liftMem_eq_ok hnew), if_false] at hcall
      cases hcall
      omega

/-- Adding the callback for reading changes nothing exactly when it is registered already. -/
lemma withEvent_fEvents_eq_iff {e : EventLoop n} {fd : Int} {i : Fin n} (hi : slot n fd = some i) :
    (e.withEvent i fd READABLE .tcpReadCallback).fEvents = e.fEvents ↔ Reading e fd := by
  have hmask : ∀ m : Mask, m ||| READABLE = m ↔ m.has READABLE := by decide
  have hread : READABLE.has READABLE := by decide
  have hwrite : ¬READABLE.has WRITEABLE := by decide
  have hproc : e.rproc fd = (e.fEvents i).rfileProc := by rw [EventLoop.rproc, hi]
  unfold Reading
  rw [mask_of_slot hi, hproc]
  simp only [EventLoop.withEvent, Function.update_eq_self_iff, hread, hwrite, if_true, if_false]
  constructor
  · intro h
    exact ⟨(hmask _).mp (congrArg FileEvent.mask h), (congrArg FileEvent.rfileProc h).symm⟩
  · rintro ⟨hm, hp⟩
    rw [(hmask _).mpr hm, ← hp]

/-- Only the worker that is chosen can change. -/
lemma forall₂_set_iff {ws : List (Worker n)} {i : ℕ} {w w' : Worker n} (hw : ws[i]? = some w) :
    List.Forall₂ SameRecords ws (ws.set i w') ↔ SameRecords w w' := by
  obtain ⟨hi, rfl⟩ := List.getElem?_eq_some_iff.mp hw
  rw [List.forall₂_iff_get]
  constructor
  · rintro ⟨hlen, h⟩
    simpa using h i hi (by simpa using hi)
  · refine fun h => ⟨by simp, fun j hj hj' => ?_⟩
    by_cases hij : i = j
    · subst hij
      simpa using h
    · simpa [hij] using SameRecords.refl ws[j]

/-- **A failed accept**, that is a call that returns `-1`, leaves the records of every worker as
they were exactly when it fails before the event table is written, or when the worker it chooses has
the callback in its table already. -/
theorem acceptFailed_sameRecords_iff {ws ws' : List (Worker n)} {x : AcceptResult}
    (hfd : 0 ≤ x.fd) (hcall : tcpAcceptCallback ws x = .ok (-1, ws')) :
    List.Forall₂ SameRecords ws ws' ↔
      x.nonBlock = false ∨ (n : Int) < x.fd ∨
        ∀ w, ws[minconnsindex (ws.map (·.table.connCnt))]? = some w → Reading w.loop x.fd := by
  rcases tcpAcceptCallback_cases hcall with ⟨hbad, hret, rfl⟩ | ⟨⟨hnb, hpos⟩, w, w', hw, hreg, rfl⟩
  · have hnb : x.nonBlock = false := by
      unfold tcpAccept at hret
      rw [if_neg (by omega)] at hret
      split_ifs at hret with hnb
      · omega
      · exact Bool.eq_false_iff.mpr hnb
    exact iff_of_true (List.forall₂_same.mpr fun w _ => .refl w) (.inl hnb)
  · rw [forall₂_set_iff hw, hnb, hw]
    rcases register_failed hpos hreg with ⟨hn, rfl⟩ | ⟨i, hi, rfl⟩
    · exact iff_of_true (.refl w') (.inr (.inl hn))
    · have hlt := (bounds_of_slot hi).2
      have hsame : SameRecords w { w with
          loop := w.loop.withEvent i x.fd READABLE .tcpReadCallback } ↔ Reading w.loop x.fd := by
        rw [← withEvent_fEvents_eq_iff hi]
        exact ⟨fun h => h.fEvents, fun h => ⟨h, rfl, rfl⟩⟩
      rw [hsame]
      constructor
      · rintro hr
        refine .inr (.inr fun v hv => ?_)
        rwa [← Option.some.inj hv]
      · rintro (h | h | h)
        · cases h
        · omega
        · exact h w rfl

/-- A first client whose descriptor is too large for the table leaves no trace. -/
theorem acceptFailed_sameRecords_large :
    ∃ ws', tcpAcceptCallback [⟨createEventLoop 4, .empty⟩] ⟨5, true, false, true, 1, 2, 3⟩ =
        .ok (-1, ws') ∧ List.Forall₂ SameRecords [⟨createEventLoop 4, .empty⟩] ws' := by
  refine ⟨_, rfl, ?_⟩
  apply (acceptFailed_sameRecords_iff (x := ⟨5, true, false, true, 1, 2, 3⟩) (by decide) rfl).mpr
  exact .inr (.inl (by decide))

/-- A first client that `epoll_ctl` refuses leaves its callback in the event table, if the call that
logs the failure returns. -/
theorem acceptFailed_trace :
    ∃ ws', tcpAcceptCallback [⟨createEventLoop 8, .empty⟩] ⟨5, true, true, true, 1, 2, 3⟩ =
        .ok (-1, ws') ∧ ¬List.Forall₂ SameRecords [⟨createEventLoop 8, .empty⟩] ws' ∧
      ∃ w', ws' = [w'] ∧ Reading w'.loop 5 := by
  refine ⟨_, rfl, ?_, _, rfl, by decide, rfl⟩
  rintro (_ | ⟨h, -⟩)
  exact absurd (congrFun h.fEvents 5) (by decide)

end ActionDB.Net
