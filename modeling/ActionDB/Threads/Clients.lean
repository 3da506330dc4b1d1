import ActionDB.Threads.Safety

/-!
# What the clients see

The process from outside: clients send commands, and get replies.

* `linearizes`: whatever the clients send and however the threads interleave, there is one order of
  the executed actions from which the values in the store and all replies follow. The actions of one
  connection are in the order in which it sent them, and none is skipped; and the order never
  changes, it only grows at its end.
* `serves_clients`: when every client has sent frames that arrive where `tcpRead` can cope with the
  cuts (`Sent`), and no worker is in the middle of dispatching, then the commands executed are an
  interleaving of the commands sent; every `set` was answered with `"set ok"` and every `get`, wrong
  as it is, with `"not found.\n"`; and the store has the latest value of each key.
* `isolates_clients`: a key that only one of the clients sets has the value that this client gave it
  last, whatever the others do.
-/

namespace ActionDB.Threads

open ActionDB.Found ActionDB.Kernel ActionDB.Net ActionDB.Net.Codec ActionDB.Net.Conn
open ActionDB.Net.Event

variable {n k : ℕ} {σ : Type} {db : KvStore σ (List Byte) (List Byte)} {store : σ}
  {P : Process n k σ}

/-! ## Actions -/

/-- The pair that an action puts into the store. -/
def putOf : Action → Option (List Byte × List Byte)
  | .set key val => some (key, val)
  | _ => none

/-- The reply to an action that returns. -/
def replyOf : Action → Option (List Byte)
  | .set _ _ => some strSetOk
  | .get _ => some strNotFound
  | _ => none

/-- The pairs that actions of connections put, in order. -/
def putsOf (as : List (ℕ × Action)) : List (List Byte × List Byte) :=
  as.filterMap fun a => putOf a.2

/-- The replies to actions of connections, in order. -/
def repliesOf (as : List (ℕ × Action)) : List (ℕ × List Byte) :=
  as.flatMap fun a => (replyOf a.2).toList.map fun text => (a.1, text)

/-- The actions of one connection. -/
def actionsOf (as : List (ℕ × Action)) (c : ℕ) : List Action :=
  (as.filter fun a => a.1 = c).map Prod.snd

lemma execSetCommand_ok {s s' : σ} {key val : List Byte} {r : Int}
    (h : execSetCommand db s key val = .ok (r, s')) : s' = db.put s key val := by
  unfold execSetCommand createObj at h
  split_ifs at h
  simp only [rocksSet] at h
  split at h
  · cases h
    rfl
  · cases h

/-- `execGetCommand` returns no object, whatever the store has. -/
lemma execGetCommand_ok {s : σ} {key : List Byte} {obj : Option ValObject}
    (h : execGetCommand db s key = .ok obj) : obj = none := by
  unfold execGetCommand at h
  split at h
  · cases h
  · cases h
    rfl

/-- A message that is executed. -/
lemma serveMessage_ok {s s' : σ} {argv : Area Byte argvSize} {reply : Option (List Byte)}
    (h : serveMessage db s argv = .ok (reply, s')) :
    ∃ a, dispatch argv = .ok a ∧ reply = replyOf a ∧
      db.get s' = latest (db.get s) (putOf a).toList := by
  unfold serveMessage at h
  cases ha : dispatch argv with
  | error f =>
      rw [ha] at h
      cases h
  | ok a =>
      rw [ha] at h
      refine ⟨a, rfl, ?_⟩
      cases a with
      | set key val =>
          simp only [] at h
          cases hexec : execSetCommand db s key val with
          | error e =>
              rw [hexec] at h
              cases h
          | ok r =>
              rw [hexec] at h
              cases h
              refine ⟨rfl, ?_⟩
              rw [execSetCommand_ok hexec]
              exact db.latest_put s key val []
      | get key =>
          simp only [] at h
          cases hexec : execGetCommand db s key with
          | error e =>
              rw [hexec] at h
              cases h
          | ok obj =>
              rw [hexec, execGetCommand_ok hexec] at h
              cases h
              exact ⟨rfl, rfl⟩
      | shutdown => cases h
      | ignored =>
          cases h
          exact ⟨rfl, rfl⟩

/-- The actions of messages, each with its connection. -/
def Acts (ms : List (ℕ × Area Byte argvSize)) (as : List (ℕ × Action)) : Prop :=
  List.Forall₂ (fun m a => m.1 = a.1 ∧ dispatch m.2 = .ok a.2) ms as

/-- Messages that are executed one after the other. -/
lemma serveAll_ok {s s' : σ} {ms : List (ℕ × Area Byte argvSize)} {rs : List (ℕ × List Byte)}
    (h : serveAll db s ms = (rs, .ok s')) :
    ∃ as, Acts ms as ∧ rs = repliesOf as ∧ db.get s' = latest (db.get s) (putsOf as) := by
  induction ms generalizing s rs with
  | nil =>
      cases h
      exact ⟨[], .nil, rfl, rfl⟩
  | cons m ms ih =>
      obtain ⟨c, argv⟩ := m
      simp only [serveAll] at h
      cases hm : serveMessage db s argv with
      | error e =>
          rw [hm] at h
          cases h
      | ok r =>
          obtain ⟨reply, s₁⟩ := r
          simp only [hm] at h
          obtain ⟨rfl, hrest⟩ := Prod.mk.inj h
          obtain ⟨a, ha, rfl, hstore⟩ := serveMessage_ok hm
          obtain ⟨as, has, hreplies, hlatest⟩ := ih (Prod.ext rfl hrest)
          refine ⟨(c, a) :: as, .cons ⟨rfl, ha⟩ has, ?_, ?_⟩
          · exact congrArg _ hreplies
          · have hputs : putsOf ((c, a) :: as) = (putOf a).toList ++ putsOf as := by
              unfold putsOf
              rw [List.filterMap_cons]
              cases putOf a <;> rfl
            rw [hputs, latest_append, hlatest, hstore]

/-- The actions of one connection are those of its messages. -/
lemma Acts.of_connection {ms : List (ℕ × Area Byte argvSize)} {as : List (ℕ × Action)}
    (h : Acts ms as) (c : ℕ) :
    ((ms.filter fun m => m.1 = c).map fun m => dispatch m.2) = (actionsOf as c).map .ok := by
  induction h with
  | nil => rfl
  | @cons m a ms as hma _ ih =>
      unfold actionsOf at ih ⊢
      by_cases hc : m.1 = c
      · have hc' : a.1 = c := hma.1 ▸ hc
        simp [hc, hc', hma.2, ih]
      · have hc' : ¬a.1 = c := hma.1 ▸ hc
        simp [hc, hc', ih]

lemma Acts.unique {ms : List (ℕ × Area Byte argvSize)} {as as' : List (ℕ × Action)}
    (h : Acts ms as) (h' : Acts ms as') : as = as' := by
  refine Relator.RightUnique.forall₂ ?_ h h'
  rintro m a a' ⟨hc, ha⟩ ⟨hc', ha'⟩
  exact Prod.ext (hc.symm.trans hc') (Except.ok.inj (ha.symm.trans ha'))

lemma ok_injective : Function.Injective (Except.ok : Action → Except Fault Action) :=
  fun _ _ => Except.ok.inj

/-- **One order of all actions**, from which the values in the store and the replies follow. -/
structure Linearizes (db : KvStore σ (List Byte) (List Byte)) (store : σ) (P : Process n k σ)
    (as : List (ℕ × Action)) : Prop where
  replies : P.shared.history.replies = repliesOf as
  get_eq : db.get P.shared.store = latest (db.get store) (putsOf as)
  /-- The actions of one connection are what the connection, served alone, would have executed. -/
  ordered : ∀ c, actionsOf as c <+: dispatched (connEvents (P.shared.history.reads c))
  /-- All of it, unless a worker is in the middle. -/
  complete : ∀ c, ¬P.Dispatching c →
    actionsOf as c = dispatched (connEvents (P.shared.history.reads c))

/-- The actions that the executed messages stand for. -/
lemma Reachable.exists_acts (hreach : Reachable db store P) :
    ∃ as, Acts P.shared.history.messages as ∧ Linearizes db store P as := by
  obtain ⟨hall, hconn⟩ := executes_in_order hreach
  obtain ⟨as, has, hreplies, hlatest⟩ := serveAll_ok hall
  have hof : ∀ c, (P.shared.history.messagesOf c).map dispatch = (actionsOf as c).map .ok := by
    intro c
    rw [← has.of_connection c, History.messagesOf, List.map_map]
    rfl
  refine ⟨as, has, hreplies, hlatest, fun c => ?_, fun c hnot => ?_⟩
  · have h := (hconn c).1
    rw [hof c] at h
    exact (List.prefix_map_iff_of_injective ok_injective).mp h
  · have h := (hconn c).2 hnot
    rw [hof c] at h
    exact List.map_injective_iff.mpr ok_injective h

/-- What was executed stays executed, and in its place. -/
lemma Step.messages_prefix {P' : Process n k σ} (hstep : Step db P P') :
    P.shared.history.messages <+: P'.shared.history.messages := by
  cases hstep with
  | work hwork =>
      cases hwork with
      | command => exact List.prefix_append _ _
      | poll | skip | unknown | call | recv | drained | deleteFileEvent | freeConn | done =>
          exact List.prefix_refl _
  | accept | createFileEvent | aePollAddEvent | newConn | others => exact List.prefix_refl _

/-- **The process is linearizable.** Whatever it has done is explained by one order of the actions,
and whatever it does from then on by more actions behind them: an action that was answered comes
before every action that is executed later. -/
theorem linearizes {P' : Process n k σ} (hreach : Reachable db store P)
    (hrun : Relation.ReflTransGen (Step db) P P') :
    ∃ as bs, Linearizes db store P as ∧ Linearizes db store P' (as ++ bs) := by
  have hgrows : P.shared.history.messages <+: P'.shared.history.messages := by
    induction hrun with
    | refl => exact List.prefix_refl _
    | tail _ hstep ih => exact ih.trans hstep.messages_prefix
  obtain ⟨as, has, hlin⟩ := hreach.exists_acts
  obtain ⟨as', has', hlin'⟩ := Reachable.exists_acts (hreach.trans hrun)
  -- the actions are determined by the messages
  obtain ⟨ms, hms⟩ := hgrows
  have hfirst : Acts P.shared.history.messages (as'.take P.shared.history.messages.length) := by
    have h := List.forall₂_take P.shared.history.messages.length has'
    rwa [← hms, List.take_left] at h
  refine ⟨as, as'.drop P.shared.history.messages.length, hlin, ?_⟩
  rw [has.unique hfirst, List.take_append_drop]
  exact hlin'

/-- Two workers on the empty store, after a client has sent `set k v` and worker 1 has executed
it. -/
lemma reachable_served :
    ∃ P : Process 10 2 (List Byte → Option (List Byte)),
      Reachable (KvStore.map _ _) (fun _ => none) P ∧ (∀ c, ¬P.Dispatching c) ∧
      P.shared.history.replies = [(0, strSetOk)] ∧ P.shared.history.reads =
        Function.update (fun _ => []) 0 [.data (stream [.set [107] [118]])] := by
  obtain ⟨P, hP⟩ := exists_received (stream [.set [107] [118]]) (by decide) (by decide)
  obtain ⟨ret, b', store, ret', b'', hd, hflag, hserve, hd', hflag'⟩ :
      ∃ ret b' store ret' b'',
      decod .record (received (stream [.set [107] [118]]) (by decide)) = .ok (ret, b') ∧
      ¬(b'.parseFlag = 1 ∨ b'.parseFlag = -1) ∧
      serveMessage (KvStore.map _ _) (fun _ => none) b'.argv = .ok (some strSetOk, store) ∧
      decod .record b' = .ok (ret', b'') ∧ (b''.parseFlag = 1 ∨ b''.parseFlag = -1) :=
    ⟨_, _, _, _, _, rfl, by decide, rfl, rfl, by decide⟩
  rw [← hP.store] at hserve
  have hreach₁ := hP.reachable.tail
    (.work (.command hP.pc hd hflag hserve (changes_iff.mpr ⟨hP.buffer, rfl⟩)))
  have hreach₂ := hreach₁.tail (step_put (.drained hP.pc ⟨⟨ret', hd'⟩, hflag'⟩
    (changes_withBuffer _ 3 b' b'')))
  refine ⟨_, hreach₂, ?_, ?_, hP.reads⟩
  · rintro c ⟨i, fd, mask, buf, fired, hdis, -⟩
    have hi : i = 0 ∨ i = 1 := by omega
    rcases hi with rfl | rfl
    · cases (congrArg Thread.pc hP.worker₀).symm.trans hdis
    · cases hdis
  · simp [Process.put, History.executed, hP.conn, hP.replies]

/-- A client sends `set k v` and `set k w`. The order after the first is executed goes on to that
after the second. -/
theorem linearizes_served :
    ∃ (P P' : Process 10 2 (List Byte → Option (List Byte))) (as bs : List (ℕ × Action)),
      Reachable (KvStore.map _ _) (fun _ => none) P ∧
      Relation.ReflTransGen (Step (KvStore.map _ _)) P P' ∧
      repliesOf as = [(0, strSetOk)] ∧ repliesOf (as ++ bs) = [(0, strSetOk), (0, strSetOk)] ∧
      P'.shared.store = latest (fun _ => none) (putsOf (as ++ bs)) := by
  obtain ⟨P, hP⟩ :=
    exists_received (stream [.set [107] [118], .set [107] [119]]) (by decide) (by decide)
  obtain ⟨ret, b', store, ret', b'', store', hd, hflag, hserve, hd', hflag', hserve'⟩ :
      ∃ ret b' store ret' b'' store',
      decod .record (received (stream [.set [107] [118], .set [107] [119]]) (by decide)) =
        .ok (ret, b') ∧ ¬(b'.parseFlag = 1 ∨ b'.parseFlag = -1) ∧
      serveMessage (KvStore.map _ _) (fun _ => none) b'.argv = .ok (some strSetOk, store) ∧
      decod .record b' = .ok (ret', b'') ∧ ¬(b''.parseFlag = 1 ∨ b''.parseFlag = -1) ∧
      serveMessage (KvStore.map _ _) store b''.argv = .ok (some strSetOk, store') :=
    ⟨_, _, _, _, _, _, rfl, by decide, rfl, rfl, by decide, rfl⟩
  rw [← hP.store] at hserve
  have hreach := hP.reachable.tail
    (.work (.command hP.pc hd hflag hserve (changes_iff.mpr ⟨hP.buffer, rfl⟩)))
  have hrun : Relation.ReflTransGen (Step _) (P.put 1 (
      { P.workers 1 with table := withBuffer (P.workers 1).table 3 b' },
      ⟨store, P.shared.history.executed 5 b'.argv (some strSetOk)⟩)) _ :=
    .single (step_put (.command hP.pc hd' hflag' hserve' (changes_withBuffer _ 3 b' b'')))
  obtain ⟨as, bs, hlin, hlin'⟩ := linearizes hreach hrun
  refine ⟨_, _, as, bs, hreach, hrun, hlin.replies.symm.trans ?_, hlin'.replies.symm.trans ?_,
    hlin'.get_eq⟩
  · simp [Process.put, History.executed, hP.conn, hP.replies]
  · simp [Process.put, History.executed, hP.conn, hP.replies]

/-! ## Clients that send frames -/

/-- The reads of a connection deliver the frames of `cs`, cut where `tcpRead` can cope with it, and
perhaps the end of file. -/
structure Sent (cs : List Command) (xs : List ReadResult) : Prop where
  ok : ∀ c ∈ cs, c.Ok
  reads : ∃ ys, (xs = ys ∨ xs = ys ++ [.eof]) ∧ payload ys = stream cs ∧ Timely 0 cs ys

lemma Sent.payload_eq {cs : List Command} {xs : List ReadResult} (h : Sent cs xs) :
    payload xs = stream cs := by
  obtain ⟨ys, rfl | rfl, hpay, -⟩ := h.reads
  · exact hpay
  · rw [payload, List.flatMap_append, ← hpay]
    exact List.append_nil _

/-- The end of file dispatches nothing. -/
lemma dispatched_feed_eof (b : Buffer) (ys : List ReadResult) :
    dispatched (feed b (ys ++ [.eof])) = dispatched (feed b ys) := by
  induction ys generalizing b with
  | nil =>
      have hnone : (readOnce b .eof).1 = [] := by
        rw [readOnce_eq]
        split_ifs with hfit h
        · rfl
        · exact absurd (.inl rfl) h
        · rfl
      simp only [List.nil_append, feed]
      rcases hread : readOnce b .eof with ⟨ev, s | b'⟩
      · rw [hread] at hnone
        exact congrArg dispatched hnone
      · rw [hread] at hnone
        exact congrArg dispatched hnone
  | cons y ys ih =>
      simp only [List.cons_append, feed]
      rcases readOnce b y with ⟨ev, s | b'⟩
      · rfl
      · simp only []
        split_ifs
        · rfl
        · rw [dispatched_append, dispatched_append, ih]

/-- What such a client gets executed. -/
lemma Sent.dispatched_eq {cs : List Command} {xs : List ReadResult} (h : Sent cs xs) :
    dispatched (connEvents xs) = cs.map Command.action := by
  obtain ⟨ys, hxs, hpay, ht⟩ := h.reads
  have hhold : Holding initBuf 0 cs := by
    refine ⟨rfl, rfl, ?_⟩
    intro c hc
    simp only [Command.frameLen]
    omega
  have hfeed := feed_stream initBuf 0 cs ys h.ok hhold (by decide) hpay ht
  rw [connEvents_eq_feed]
  rcases hxs with rfl | rfl
  · exact hfeed
  · rw [dispatched_feed_eof, hfeed]

/-- The server's answer to a command. -/
def answer : Command → List Byte
  | .set _ _ => strSetOk
  | .get _ => strNotFound

lemma repliesOf_commands (ds : List (ℕ × Command)) :
    repliesOf (ds.map fun d => (d.1, d.2.action)) = ds.map fun d => (d.1, answer d.2) := by
  induction ds with
  | nil => rfl
  | cons d ds ih =>
      obtain ⟨c, _ | _⟩ := d <;> exact congrArg (List.cons _) ih

lemma actionsOf_commands (ds : List (ℕ × Command)) (c : ℕ) :
    actionsOf (ds.map fun d => (d.1, d.2.action)) c =
      ((ds.filter fun d => d.1 = c).map Prod.snd).map Command.action := by
  unfold actionsOf
  rw [List.filter_map, List.map_map, List.map_map]
  rfl

/-- What clients that send frames get executed. -/
lemma Reachable.exists_commands (hreach : Reachable db store P) (hidle : ∀ c, ¬P.Dispatching c)
    {cs : ℕ → List Command} (hsent : ∀ c, Sent (cs c) (P.shared.history.reads c)) :
    ∃ ds : List (ℕ × Command), (∀ c, (ds.filter fun d => d.1 = c).map Prod.snd = cs c) ∧
      P.shared.history.replies = repliesOf (ds.map fun d => (d.1, d.2.action)) ∧
      db.get P.shared.store = latest (db.get store) (ds.filterMap fun d => putOf d.2.action) := by
  obtain ⟨as, -, hlin⟩ := hreach.exists_acts
  have hof : ∀ c, actionsOf as c = (cs c).map Command.action := fun c =>
    (hlin.complete c (hidle c)).trans (hsent c).dispatched_eq
  -- every action is that of a command
  obtain ⟨ds, rfl⟩ : as ∈ Set.range (List.map fun d : ℕ × Command => (d.1, d.2.action)) := by
    rw [Set.range_list_map]
    intro a ha
    have hmem : a.2 ∈ actionsOf as a.1 :=
      List.mem_map_of_mem (List.mem_filter.mpr ⟨ha, by simp⟩)
    rw [hof, List.mem_map] at hmem
    obtain ⟨d, -, hd⟩ := hmem
    exact ⟨(a.1, d), Prod.ext rfl hd⟩
  refine ⟨ds, fun c => ?_, hlin.replies, ?_⟩
  · have hinj : Function.Injective Command.action := by
      rintro (⟨k, v⟩ | k) (⟨k', v'⟩ | k') h <;> cases h <;> rfl
    have h := hof c
    rw [actionsOf_commands] at h
    exact List.map_injective_iff.mpr hinj h
  · rw [hlin.get_eq, putsOf, List.filterMap_map]
    rfl

/-- **Clients that send frames are served.** -/
theorem serves_clients (hreach : Reachable db store P) (hidle : ∀ c, ¬P.Dispatching c)
    (cs : ℕ → List Command) (hsent : ∀ c, Sent (cs c) (P.shared.history.reads c)) :
    ∃ ds : List (ℕ × Command), (∀ c, (ds.filter fun d => d.1 = c).map Prod.snd = cs c) ∧
      P.shared.history.replies = (ds.map fun d => (d.1, answer d.2)) ∧
      db.get P.shared.store = latest (db.get store) (ds.filterMap fun d => putOf d.2.action) := by
  obtain ⟨ds, hds, hreplies, hlatest⟩ := hreach.exists_commands hidle hsent
  exact ⟨ds, hds, hreplies.trans (repliesOf_commands ds), hlatest⟩

/-- The client of connection 0 has sent one frame, and there is no other. -/
lemma sent_first (c : ℕ) : Sent (if c = 0 then [.set [107] [118]] else [])
    (Function.update (fun _ => []) 0 [.data (stream [.set [107] [118]])] c) := by
  by_cases hc : c = 0
  · subst hc
    exact ⟨by decide, _, .inl rfl, by decide, by decide⟩
  · rw [if_neg hc, Function.update_of_ne hc]
    exact ⟨by simp, [], .inl rfl, rfl, trivial⟩

theorem serves_clients_set :
    ∃ (P : Process 10 2 (List Byte → Option (List Byte))) (ds : List (ℕ × Command)),
      Reachable (KvStore.map _ _) (fun _ => none) P ∧
      (ds.filter fun d => d.1 = 0).map Prod.snd = [.set [107] [118]] ∧
      P.shared.store = latest (fun _ => none) (ds.filterMap fun d => putOf d.2.action) := by
  obtain ⟨P, hreach, hidle, -, hreads⟩ := reachable_served
  obtain ⟨ds, hds, -, hlatest⟩ := serves_clients hreach hidle _ (hreads ▸ sent_first)
  exact ⟨P, ds, hreach, hds 0, hlatest⟩

/-! ## Clients with keys of their own -/

/-- The pairs that a client puts, in order. -/
def putsBy (cs : List Command) : List (List Byte × List Byte) :=
  cs.filterMap fun c => putOf c.action

/-- The puts of a key are those of the one client that sets it. -/
lemma filter_puts {ds : List (ℕ × Command)} {c : ℕ} {key : List Byte}
    (honly : ∀ d ∈ ds, d.1 ≠ c → ∀ val, d.2 ≠ .set key val) :
    ((ds.filterMap fun d => putOf d.2.action).filter fun p => p.1 = key) =
      (putsBy ((ds.filter fun d => d.1 = c).map Prod.snd)).filter fun p => p.1 = key := by
  rw [putsBy, List.filterMap_map, List.filter_filterMap, List.filter_filterMap,
    List.filterMap_filter]
  refine List.filterMap_congr fun d hd => ?_
  by_cases hc : d.1 = c
  · rw [if_pos (decide_eq_true hc)]
    rfl
  · rw [if_neg (by simpa using hc)]
    -- what another client puts has another key
    cases hcmd : d.2 with
    | set k v =>
        have hk : k ≠ key := fun hk => honly d hd hc v (by rw [hcmd, hk])
        simp [Command.action, putOf, hk]
    | get k => rfl

/-- **Clients do not disturb each other.** A key that one client only sets has the value that this
client has given it, as if there were no other. -/
theorem isolates_clients (hreach : Reachable db store P) (hidle : ∀ c, ¬P.Dispatching c)
    (cs : ℕ → List Command) (hsent : ∀ c, Sent (cs c) (P.shared.history.reads c)) (c : ℕ)
    (key : List Byte) (honly : ∀ c', c' ≠ c → ∀ val, .set key val ∉ cs c') :
    db.get P.shared.store key = latest (db.get store) (putsBy (cs c)) key := by
  obtain ⟨ds, hds, -, hlatest⟩ := hreach.exists_commands hidle hsent
  have honly' : ∀ d ∈ ds, d.1 ≠ c → ∀ val, d.2 ≠ .set key val := by
    intro d hd hne val heq
    apply honly d.1 hne val
    rw [← hds d.1, ← heq]
    exact List.mem_map_of_mem (List.mem_filter.mpr ⟨hd, by simp⟩)
  calc db.get P.shared.store key
      = latest (db.get store) (ds.filterMap fun d => putOf d.2.action) key := by rw [hlatest]
    _ = latest (db.get store) ((putsBy (cs c)).filter fun p => p.1 = key) key := by
        rw [← latest_filter, filter_puts honly', hds c]
    _ = latest (db.get store) (putsBy (cs c)) key := latest_filter _ _ _

theorem isolates_clients_set :
    ∃ P : Process 10 2 (List Byte → Option (List Byte)),
      Reachable (KvStore.map _ _) (fun _ => none) P ∧ P.shared.store [107] = some [118] := by
  obtain ⟨P, hreach, hidle, -, hreads⟩ := reachable_served
  refine ⟨P, hreach, ?_⟩
  exact isolates_clients hreach hidle _ (hreads ▸ sent_first) 0 [107] fun c hc val => by simp [hc]

end ActionDB.Threads
