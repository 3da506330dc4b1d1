import Mathlib.Data.Nat.Digits.Lemmas
import ActionDB.Threads.Answers

/-!
# The commands of the load test

`tests/testperfset/testperfthreads.c` starts ten threads; thread `m` sets the keys `a0`, `a1`, …
from `m * 10000` up to `(m + 1) * 10000`, each to its number. Here these commands are sent by the
clients of `Threads.Protocol`, which write the frames exactly and wait for the replies; the threads
of the test do not quite do so. With any number of such clients, any ranges and any interleaving:
whatever a client has got its reply for is in the store and stays there, and nothing but the keys of
the commands is changed (`testCommands_stored`).

The numbers have at most eight digits, so that a key has at most nine bytes.
-/

namespace ActionDB.Threads

open ActionDB.Found ActionDB.Kernel ActionDB.Net ActionDB.Net.Codec

/-! ## The commands -/

/-- What `sprintf` writes for `%d`. -/
def decimal (i : ℕ) : List Byte :=
  if i = 0 then [digitChar 0] else (Nat.digits 10 i).reverse.map digitChar

/-- The text of a command.
Source: `tests/testperfset/testperfthreads.c`, `doTest`, the loop's `command_set`. -/
def commandSet (loopcnt : ℕ) : List Byte :=
  strSet ++ [tab] ++ (97 :: decimal loopcnt) ++ [tab] ++ decimal loopcnt

/-- The command that the text stands for. -/
def setLoopcnt (loopcnt : ℕ) : Command := .set (97 :: decimal loopcnt) (decimal loopcnt)

/-- The commands of one thread, in the order in which it writes them.
Source: `tests/testperfset/testperfthreads.c`, `doTest`, the range of the loop. -/
def testCommands (arg1 arg2 : ℕ) : List Command := (List.range' arg1 (arg2 - arg1)).map setLoopcnt

/-- The frame is the one that the test makes, of a text with tabs. -/
lemma makeCommand_commandSet (i : ℕ) : makeCommand (commandSet i) = (setLoopcnt i).frame := by
  simp [makeCommand, commandSet, setLoopcnt, Command.frame, Command.text, isSeparator, tab]

/-- It has digits only. -/
lemma mem_decimal {i : ℕ} {c : Byte} (h : c ∈ decimal i) : ∃ d < 10, c = digitChar d := by
  unfold decimal at h
  split at h
  · exact ⟨0, by decide, List.mem_singleton.mp h⟩
  · obtain ⟨d, hd, rfl⟩ := List.mem_map.mp h
    exact ⟨d, Nat.digits_lt_base (by decide) (List.mem_reverse.mp hd), rfl⟩

/-- There is at least one. -/
lemma decimal_ne_nil (i : ℕ) : decimal i ≠ [] := by
  unfold decimal
  split
  · exact List.cons_ne_nil _ _
  · rename_i hi
    simpa [Nat.digits_eq_nil_iff_eq_zero] using hi

/-- There are at most `m` for a number below `10 ^ m`. -/
lemma length_decimal_le {i m : ℕ} (hm : 0 < m) (hi : i < 10 ^ m) : (decimal i).length ≤ m := by
  unfold decimal
  split
  · exact hm
  · rw [List.length_map, List.length_reverse]
    exact (Nat.digits_length_le_iff (by decide) i).mpr hi

/-- No digit is a separator, `NUL` or the end mark. -/
lemma digitChar_plain {d : ℕ} (h : d < 10) :
    isSeparator (digitChar d) = false ∧ digitChar d ≠ 0 ∧ digitChar d ≠ bang := by
  interval_cases d <;> decide

/-- The decoder can cope with the commands. -/
lemma setLoopcnt_ok {i : ℕ} (hi : i < 10 ^ 8) : (setLoopcnt i).Ok := by
  have hlen := length_decimal_le (by decide : 0 < 8) hi
  have hplain : ∀ c ∈ decimal i, isSeparator c = false ∧ c ≠ 0 ∧ c ≠ bang := by
    intro c hc
    obtain ⟨d, hd, rfl⟩ := mem_decimal hc
    exact digitChar_plain hd
  refine ⟨⟨List.cons_ne_nil _ _, ?_, ?_⟩, ⟨decimal_ne_nil i, by omega, hplain⟩⟩
  · rw [List.length_cons]
    omega
  · exact List.forall_mem_cons.mpr ⟨by decide, hplain⟩

/-- The commands are those of the numbers in the range. -/
lemma mem_testCommands {arg1 arg2 : ℕ} {cmd : Command} :
    cmd ∈ testCommands arg1 arg2 ↔ ∃ i, arg1 ≤ i ∧ i < arg2 ∧ cmd = setLoopcnt i := by
  simp only [testCommands, List.mem_map, List.mem_range'_1]
  constructor
  · rintro ⟨i, hi, rfl⟩
    exact ⟨i, hi.1, by omega, rfl⟩
  · rintro ⟨i, hle, hlt, rfl⟩
    exact ⟨i, by omega, rfl⟩

/-- All of them set a value. -/
lemma writers_testCommands {arg1 arg2 : ℕ → ℕ} (hargs : ∀ c, arg2 c ≤ 10 ^ 8) :
    Writers fun c => testCommands (arg1 c) (arg2 c) where
  ok c cmd hcmd := by
    obtain ⟨i, -, hi, rfl⟩ := mem_testCommands.mp hcmd
    exact setLoopcnt_ok (hi.trans_le (hargs c))
  sets c cmd hcmd := by
    obtain ⟨i, -, -, rfl⟩ := mem_testCommands.mp hcmd
    exact ⟨_, _, rfl⟩

/-! ## The store -/

variable {n k : ℕ} {σ : Type} {db : KvStore σ (List Byte) (List Byte)} {store : σ}
  {N : Network n k σ} {arg1 arg2 : ℕ → ℕ}

/-- What is put is what one of the connections sets. -/
lemma mem_putsOf {as : List (ℕ × Action)} {key val : List Byte} :
    (key, val) ∈ putsOf as ↔ ∃ c, .set key val ∈ actionsOf as c := by
  simp only [putsOf, actionsOf, List.mem_filterMap, List.mem_map, List.mem_filter,
    decide_eq_true_eq]
  constructor
  · rintro ⟨⟨c, a⟩, ha, hput⟩
    cases a with
    | set key' val' =>
        obtain ⟨rfl, rfl⟩ := Prod.mk.inj (Option.some.inj hput)
        exact ⟨c, _, ⟨ha, rfl⟩, rfl⟩
    | _ => cases hput
  · rintro ⟨c, ⟨d, a⟩, ⟨ha, -⟩, rfl⟩
    exact ⟨_, ha, rfl⟩

/-- The numbers that a client has got the replies for are among its first commands. -/
lemma setLoopcnt_mem_take {a b e i : ℕ} (hle : a ≤ i) (hb : i < b) (he : i < a + e) :
    setLoopcnt i ∈ (testCommands a b).take e := by
  refine List.mem_take_iff_getElem.mpr ⟨i - a, ?_, ?_⟩
  · simp only [testCommands, List.length_map, List.length_range']
    omega
  · simp only [testCommands, List.getElem_map, List.getElem_range']
    congr 1
    omega

/-- Every put of a run is that of a number in one of the ranges. -/
lemma exists_of_mem_putsOf {as : List (ℕ × Action)} {key val : List Byte}
    (hreach : Exchanged db store (fun c => testCommands (arg1 c) (arg2 c)) N)
    (hargs : ∀ c, arg2 c ≤ 10 ^ 8) (hlin : Linearizes db store N.process as)
    (hput : (key, val) ∈ putsOf as) :
    ∃ c i, arg1 c ≤ i ∧ i < arg2 c ∧ key = 97 :: decimal i ∧ val = decimal i := by
  obtain ⟨c, hact⟩ := mem_putsOf.mp hput
  obtain ⟨e, -, -, hacts, -⟩ := hreach.executed (writers_testCommands hargs).ok hlin c
  rw [hacts] at hact
  obtain ⟨cmd, hcmd, heq⟩ := List.mem_map.mp hact
  obtain ⟨i, hle, hlt, rfl⟩ := mem_testCommands.mp (List.mem_of_mem_take hcmd)
  obtain ⟨rfl, rfl⟩ := Action.set.inj heq
  exact ⟨c, i, hle, hlt, rfl, rfl⟩

/-- **What is acknowledged is stored.** In every state that a run with clients for these commands
can reach: a number that a client has got the reply for is in the store, whatever the other clients
set; every reply is that of a `set`; and keys that no client is to set have their first values. -/
theorem testCommands_stored
    (hreach : Exchanged db store (fun c => testCommands (arg1 c) (arg2 c)) N)
    (hargs : ∀ c, arg2 c ≤ 10 ^ 8) :
    (∀ c i, arg1 c ≤ i → i < arg1 c + (N.clients c).got.length →
      db.get N.process.shared.store (97 :: decimal i) = some (decimal i)) ∧
    (∀ c, ∀ reply ∈ (N.clients c).got, reply = strSetOk) ∧
    ∀ key, (∀ c i, arg1 c ≤ i → i < arg2 c → key ≠ 97 :: decimal i) →
      db.get N.process.shared.store key = db.get store key := by
  obtain ⟨as, -, hlin⟩ := hreach.reachable.exists_acts
  have hexec := hreach.executed (writers_testCommands hargs).ok hlin
  rw [hlin.get_eq]
  refine ⟨fun c i hle hlt => ?_, fun c reply hreply => ?_, fun key hkey => ?_⟩
  · obtain ⟨e, he, -, hacts, hgot⟩ := hexec c
    have hlen := congrArg List.length hgot
    rw [List.length_map, List.length_take, testCommands, List.length_map,
      List.length_range'] at hlen
    refine latest_of_mem (mem_putsOf.mpr ⟨c, ?_⟩) fun w hput => ?_
    · rw [hacts]
      exact List.mem_map_of_mem (setLoopcnt_mem_take hle (by omega) (by omega))
    · obtain ⟨-, j, -, -, hkey, rfl⟩ := exists_of_mem_putsOf hreach hargs hlin hput
      exact (List.cons.inj hkey).2.symm
  · obtain ⟨-, -, -, -, hgot⟩ := hexec c
    rw [hgot] at hreply
    obtain ⟨cmd, hcmd, rfl⟩ := List.mem_map.mp hreply
    obtain ⟨i, -, -, rfl⟩ := mem_testCommands.mp (List.mem_of_mem_take hcmd)
    rfl
  · refine latest_of_notMem fun val hput => ?_
    obtain ⟨c, i, hle, hlt, heq, -⟩ := exists_of_mem_putsOf hreach hargs hlin hput
    exact hkey c i hle hlt heq

/-- The end of the range of thread `m`; there are ten threads.
Source: `tests/testperfset/testperfthreads.c`, `main`. -/
def mainArg2 (m : ℕ) : ℕ := if m < 10 then (m + 1) * 10000 else 0

/-- Ten clients with the ranges of `main`, served to the end. -/
theorem testCommands_stored_main :
    ∃ N : Network 10000 2 (List Byte → Option (List Byte)),
      Exchanged (.map _ _) (fun _ => none) (fun m => testCommands (m * 10000) (mainArg2 m)) N ∧
      ∀ i < 100000, N.process.shared.store (97 :: decimal i) = some (decimal i) := by
  have hargs : ∀ m, mainArg2 m ≤ 10 ^ 8 := by
    intro m
    unfold mainArg2
    split <;> omega
  obtain ⟨N₀, hreach, hroom⟩ := exists_opened (.map (List Byte) (List Byte)) (fun _ => none)
    fun m => testCommands (m * 10000) (mainArg2 m)
  obtain ⟨N, hrun, hdone⟩ := hreach.leads_finished (m := 10) (writers_testCommands hargs)
    (by decide) (by decide) (by omega)
  have hreach' : Exchanged _ _ _ N := hreach.trans hrun
  refine ⟨N, hreach', fun i hi => (testCommands_stored hreach' hargs).1 (i / 10000) i (by omega) ?_⟩
  have hm : i / 10000 < 10 := by omega
  rw [hdone _ hm, testCommands, List.length_map, List.length_range', mainArg2, if_pos hm]
  omega

end ActionDB.Threads
