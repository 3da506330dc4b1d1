import ActionDB.Threads.Clients

/-!
# The protocol

The process together with clients that wait: such a client writes the frame of a command, and
nothing else, reads the reply, for which it waits as long as it takes, and only then goes on to the
next command. Client `c` is at the other end of connection `c`, and between the two there is a
stream in each direction:

* a frame is written and arrives as a whole, and a `read(2)` of the server takes what has arrived,
  as far as `tcpRead` asks for it (`Delivers`);
* a reply is in the stream once its command is executed, and a client reads what is there, up to 20
  bytes.

This is what a client has to do for the results below, and not a model of a client in the
repository. `doTest` of `tests/testperfset/testperfthreads.c` comes close to it: but the frame that
it gets from `makeCommand` has no terminating `NUL`, and it writes `strlen` bytes of it; and it goes
on to the next command when a second has passed without a reply.

As clients wait for their replies, no two frames of one client are under way at the same time, and
none is cut. So the weaknesses of the decoder do not matter. `ClientInv` is what then holds for each
client in every state that a run can reach, and `Progress` what it says about the commands that are
executed: a client's commands come one by one and in order, and it reads the answers to them.
-/

namespace ActionDB.Threads

open ActionDB.Found ActionDB.Kernel ActionDB.Net ActionDB.Net.Codec ActionDB.Net.Conn
open ActionDB.Net.Event

variable {n k : ℕ} {σ : Type} {db : KvStore σ (List Byte) (List Byte)} {store : σ}

/-! ## Frames that arrive as a whole -/

/-- One read for each frame. -/
def frames (cs : List Command) : List ReadResult := cs.map fun c => .data c.frame

/-- The reads of two lists of commands. -/
lemma frames_append (cs cs' : List Command) : frames (cs ++ cs') = frames cs ++ frames cs' :=
  List.map_append

/-- Just one frame fits in its own length. -/
lemma fit_frame (c : Command) (cs : List Command) : fit c.frameLen (c :: cs) = ([c], cs) := by
  have hnone : fit 0 cs = ([], cs) := by
    cases cs with
    | nil => rfl
    | cons d cs => exact if_neg (by simp [Command.frameLen])
  rw [fit, if_pos le_rfl, Nat.sub_self, hnone]

/-- Such reads are harmless. -/
lemma timely_frames {cs : List Command} {ys : List ReadResult} (hok : ∀ c ∈ cs, c.Ok)
    (hys : ys.filter (· ≠ .again) = frames cs) :
    payload ys = stream cs ∧ Timely 0 cs ys := by
  induction ys generalizing cs with
  | nil =>
      cases cs with
      | nil => exact ⟨rfl, trivial⟩
      | cons c cs => cases hys
  | cons y ys ih =>
      by_cases hy : y = .again
      · subst hy
        rw [List.filter_cons_of_neg (by decide)] at hys
        exact ih hok hys
      · rw [List.filter_cons_of_pos (by simpa using hy)] at hys
        cases cs with
        | nil => cases hys
        | cons c cs =>
            obtain ⟨rfl, hrest⟩ := List.cons.inj hys
            obtain ⟨hpay, ht⟩ := ih (fun d hd => hok d (.tail _ hd)) hrest
            have hc := hok c (.head _)
            have hlen := c.length_frame
            have hbounds := c.frameLen_bounds hc
            have hstream : (stream [c]).length = c.frameLen := by
              simp [stream, hlen]
            have hpass : Passes c.frame.length 0 ([c].map Command.line) := by
              refine passes_of_le ?_ ?_
              · simpa [Command.line] using hc
              · rw [batch_line, hstream, hlen, Nat.zero_add]
            refine ⟨?_, ?_⟩
            · rw [payload, List.flatMap_cons, stream, List.flatMap_cons]
              exact congrArg _ hpay
            · simp only [Timely, Nat.zero_add, hlen, fit_frame, hstream, Nat.sub_self]
              rw [hlen] at hpass
              exact ⟨by omega, by omega, hpass, .inl trivial, ht⟩

/-- A frame in one read leaves nothing behind. -/
lemma readOnce_frame {b : Buffer} {c : Command} (hb : b.corruptMessagelen = 0) (hc : c.Ok) :
    ∃ ev b', readOnce b (.data c.frame) = (ev, .ok b') ∧ b'.corruptMessagelen = 0 := by
  have hok : ∀ d ∈ [c], d.Ok := List.forall_mem_singleton.mpr hc
  obtain ⟨hpay, -, hheld, hpass, hfull, -⟩ := @timely_frames [c] (frames [c]) hok rfl
  have hhold : Holding b 0 [c] := ⟨hb, rfl, by simp [Command.frameLen]⟩
  have hpay' : c.frame ++ [] = (stream [c]).drop 0 := hpay
  obtain ⟨ev, b', hread, -, hhold'⟩ := readOnce_stream hok hhold hpay' hheld hpass hfull
  refine ⟨ev, b', hread, hhold'.kept.trans ?_⟩
  rw [Nat.zero_add, c.length_frame, fit_frame]
  simp [stream, c.length_frame]

/-- Nothing is kept of such reads. -/
lemma readOn_frames {b : Buffer} {cs : List Command} {ys : List ReadResult}
    (hb : b.corruptMessagelen = 0) (hok : ∀ c ∈ cs, c.Ok)
    (hys : ys.filter (· ≠ .again) = frames cs) :
    ∃ b', readOn b ys = some b' ∧ b'.corruptMessagelen = 0 := by
  induction ys generalizing b cs with
  | nil => exact ⟨b, rfl, hb⟩
  | cons y ys ih =>
      by_cases hy : y = .again
      · subst hy
        rw [List.filter_cons_of_neg (by decide)] at hys
        have hkept : b.corruptMessagelen ≤ 100 := by omega
        rw [readOn, readOnce_again hkept]
        exact ih (b := b.filled .again hkept) hb hok hys
      · rw [List.filter_cons_of_pos (by simpa using hy)] at hys
        cases cs with
        | nil => cases hys
        | cons c cs =>
            obtain ⟨rfl, hrest⟩ := List.cons.inj hys
            obtain ⟨ev, b', hread, hkept⟩ := readOnce_frame hb (hok c (.head _))
            rw [readOn, hread]
            exact ih hkept (fun d hd => hok d (.tail _ hd)) hrest

/-! ## The network -/

/-- A client: the commands that it has still to write, those it has written, what its reads have
returned, and whether it has closed its socket. -/
structure Client where
  todo : List Command
  written : List Command
  got : List (List Byte)
  closed : Bool

/-- The replies to one connection. -/
def History.repliesTo (H : History) (c : ℕ) : List (List Byte) :=
  (H.replies.filter fun r => r.1 = c).map Prod.snd

/-- The process and its clients. -/
structure Network (n k : ℕ) (σ : Type) where
  process : Process n k σ
  clients : ℕ → Client

namespace Network

/-- No client has done anything yet. -/
def init (n k : ℕ) (store : σ) (cs : ℕ → List Command) : Network n k σ where
  process := .init n k store
  clients c := ⟨cs c, [], [], false⟩

/-- What a client has written and the server has not read. -/
def pending (N : Network n k σ) (c : ℕ) : List Byte :=
  (stream (N.clients c).written).drop (payload (N.process.shared.history.reads c)).length

/-- What the server has sent and a client has not read. -/
def unread (N : Network n k σ) (c : ℕ) : List Byte :=
  (N.process.shared.history.repliesTo c).flatten.drop (N.clients c).got.flatten.length

def setClient (N : Network n k σ) (c : ℕ) (cl : Client) : Network n k σ :=
  { N with clients := Function.update N.clients c cl }

end Network

/-- What holds of the new client `c` and of all the others. -/
lemma forall_setClient {N : Network n k σ} {c : ℕ} {cl : Client} (Q : ℕ → Client → Prop)
    (hc : Q c cl) (hothers : ∀ d, d ≠ c → Q d (N.clients d)) (d : ℕ) :
    Q d ((N.setClient c cl).clients d) :=
  (Function.forall_update_iff N.clients Q).mpr ⟨hc, hothers⟩ d

/-- The result of a `read(2)` of the server, by what has arrived and the buffer that it is called
for. -/
inductive Delivers (pending : List Byte) (closed : Bool) (b : Buffer) : ReadResult → Prop
  | data (hpending : pending ≠ []) (hroom : b.corruptMessagelen < readGranularity) :
      Delivers pending closed b (.data (pending.take (readGranularity - b.corruptMessagelen)))
  /-- No bytes are asked for. -/
  | full (hroom : readGranularity ≤ b.corruptMessagelen) : Delivers pending closed b .eof
  | eof (hpending : pending = []) (hclosed : closed = true) : Delivers pending closed b .eof
  | again (hpending : pending = []) (hclosed : closed = false) : Delivers pending closed b .again

/-- What is read in a step of the process that leaves `S` is what the network delivers. -/
def Network.Allows (N : Network n k σ) (S : Shared σ) : Prop :=
  ∀ c x, S.history.reads c = N.process.shared.history.reads c ++ [x] →
    ∃ b, readOn initBuf (N.process.shared.history.reads c) = some b ∧
      Delivers (N.pending c) (N.clients c).closed b x

/-- **The steps of the process and its clients.** -/
inductive Exchange (db : KvStore σ (List Byte) (List Byte)) :
    Network n k σ → Network n k σ → Prop
  | serve {N : Network n k σ} {P : Process n k σ} (hstep : Step db N.process P)
      (hreads : N.Allows P.shared) : Exchange db N { N with process := P }
  /-- A client writes its next command, when it has the reply to the one before. -/
  | write {N : Network n k σ} {c : ℕ} {cmd : Command} {rest : List Command}
      (htodo : (N.clients c).todo = cmd :: rest)
      (hidle : (N.clients c).got.length = (N.clients c).written.length) :
      Exchange db N (N.setClient c { N.clients c with
        todo := rest, written := (N.clients c).written ++ [cmd] })
  /-- A client reads. -/
  | read {N : Network n k σ} {c : ℕ}
      (hwaits : (N.clients c).got.length < (N.clients c).written.length)
      (hunread : N.unread c ≠ []) :
      Exchange db N (N.setClient c { N.clients c with
        got := (N.clients c).got ++ [(N.unread c).take 20] })
  /-- A client is done. -/
  | close {N : Network n k σ} {c : ℕ} (htodo : (N.clients c).todo = [])
      (hidle : (N.clients c).got.length = (N.clients c).written.length) :
      Exchange db N (N.setClient c { N.clients c with closed := true })

/-- The states that a run with clients for these commands can reach. -/
def Exchanged (db : KvStore σ (List Byte) (List Byte)) (store : σ) (cs : ℕ → List Command)
    (N : Network n k σ) : Prop :=
  Relation.ReflTransGen (Exchange db) (.init n k store cs) N

/-! ## What the process does to the streams -/

/-- The connection that a worker reads from has not seen the end of file. -/
lemma Inv.open_of_reading {P : Process n k σ} (hinv : Inv db store P) {i : Fin k} {fd : Int}
    {mask : Mask} {buf : Ptr} {fired : List (Int × Mask)}
    (hpc : (P.workers i).pc = .reading fd mask buf fired) :
    .eof ∉ P.shared.history.reads (P.shared.history.conn fd) := by
  obtain ⟨-, p, rfl, hp⟩ := (hinv.thread i).calling fd mask buf fired (.inl hpc)
  obtain ⟨-, B, -, hs⟩ := (hinv.thread i).session fd p hp
  rw [hpc] at hs
  intro heof
  cases hs.eof_closed heof

/-- A step reads from a connection at most once, and not after its end of file. -/
lemma Step.reads_eq {P P' : Process n k σ} (hinv : Inv db store P) (hstep : Step db P P') (c : ℕ) :
    P'.shared.history.reads c = P.shared.history.reads c ∨
      ∃ x, P'.shared.history.reads c = P.shared.history.reads c ++ [x] ∧
        .eof ∉ P.shared.history.reads c := by
  cases hstep with
  | @work i w S hwork =>
      cases hwork with
      | @recv fd mask fired buf b b' table x hpc hrecv hbuf =>
          by_cases hc : c = P.shared.history.conn fd
          · subst hc
            exact .inr ⟨x, Function.update_self _ _ _, hinv.open_of_reading hpc⟩
          · exact .inl (Function.update_of_ne hc _ _)
      | poll | skip | unknown | call | command | drained | deleteFileEvent | freeConn | done =>
          exact .inl rfl
  | accept | createFileEvent | aePollAddEvent | newConn | others => exact .inl rfl

/-- What was read stays read. -/
lemma Step.reads_prefix {P P' : Process n k σ} (hstep : Step db P P') (c : ℕ) :
    P.shared.history.reads c <+: P'.shared.history.reads c := by
  cases hstep with
  | work hwork =>
      cases hwork with
      | @recv fd mask fired buf b b' table x =>
          show _ <+: Function.update P.shared.history.reads _ _ c
          by_cases hc : c = P.shared.history.conn fd
          · rw [hc, Function.update_self]
            exact List.prefix_append _ _
          · rw [Function.update_of_ne hc]
      | poll | skip | unknown | call | command | drained | deleteFileEvent | freeConn | done =>
          exact List.prefix_refl _
  | accept | createFileEvent | aePollAddEvent | newConn | others => exact List.prefix_refl _

/-- What was sent stays sent. -/
lemma Step.replies_prefix {P P' : Process n k σ} (hstep : Step db P P') (c : ℕ) :
    P.shared.history.repliesTo c <+: P'.shared.history.repliesTo c := by
  have hall : P.shared.history.replies <+: P'.shared.history.replies := by
    cases hstep with
    | work hwork =>
        cases hwork with
        | command => exact List.prefix_append _ _
        | poll | skip | unknown | call | recv | drained | deleteFileEvent | freeConn | done =>
            exact List.prefix_refl _
    | accept | createFileEvent | aePollAddEvent | newConn | others => exact List.prefix_refl _
  exact (hall.filter _).map _

section Run

variable {N N' : Network n k σ} {cs : ℕ → List Command} {P : Process n k σ}

/-- The process of a network is in a state that the process can reach. -/
lemma Exchanged.reachable (h : Exchanged db store cs N) : Reachable db store N.process := by
  induction h with
  | refl => exact .refl
  | tail _ hstep ih =>
      cases hstep with
      | serve hstep _ => exact ih.tail hstep
      | write | read | close => exact ih

/-- The replies to a connection are those to its actions. -/
lemma repliesTo_eq {as : List (ℕ × Action)} (hlin : Linearizes db store P as) (c : ℕ) :
    P.shared.history.repliesTo c = (actionsOf as c).filterMap replyOf := by
  rw [History.repliesTo, hlin.replies]
  clear hlin
  induction as with
  | nil => rfl
  | cons a as ih =>
      have hcons : repliesOf (a :: as) =
          ((replyOf a.2).toList.map fun text => (a.1, text)) ++ repliesOf as := List.flatMap_cons
      rw [hcons, List.filter_append, List.map_append, ih]
      by_cases hc : a.1 = c <;> cases hr : replyOf a.2 <;> simp [actionsOf, hc, hr]

/-- The replies to commands are their answers. -/
lemma filterMap_replyOf (ds : List Command) :
    (ds.map Command.action).filterMap replyOf = ds.map answer := by
  rw [List.filterMap_map, ← List.filterMap_eq_map]
  refine List.filterMap_congr fun d _ => ?_
  cases d <;> rfl

/-- Of the commands whose frames have arrived, the first have been executed and answered. -/
lemma Linearizes.executed {as : List (ℕ × Action)} (hlin : Linearizes db store P as) {c : ℕ}
    {ds : List Command} (hsent : Sent ds (P.shared.history.reads c)) :
    ∃ e, e ≤ ds.length ∧ actionsOf as c = (ds.take e).map Command.action ∧
      P.shared.history.repliesTo c = (ds.take e).map answer := by
  have hfirst := hlin.ordered c
  rw [hsent.dispatched_eq, List.prefix_iff_eq_take, ← List.map_take] at hfirst
  have hle : (actionsOf as c).length ≤ ds.length := by
    have hlen := (hlin.ordered c).length_le
    rwa [hsent.dispatched_eq, List.length_map] at hlen
  refine ⟨_, hle, hfirst, ?_⟩
  rw [repliesTo_eq hlin, ← filterMap_replyOf, ← hfirst]

/-! ## The invariant -/

/-- **A client and its connection.** At most one command is under way. -/
structure ClientInv (cs : List Command) (cl : Client) (H : History) (c : ℕ) : Prop where
  split : cl.written ++ cl.todo = cs
  turn : cl.written.length ≤ cl.got.length + 1
  got : cl.got <+: H.repliesTo c
  /-- The server has read the frames that were written, or all of them but one. -/
  delivered : ∃ d ys, d ≤ cl.written.length ∧ cl.written.length ≤ d + 1 ∧
    (H.reads c = ys ∨ H.reads c = ys ++ [.eof]) ∧
    ys.filter (· ≠ .again) = frames (cl.written.take d)
  /-- The server sees the end of file only when the client is done. -/
  finished : .eof ∈ H.reads c → cl.closed = true
  idle : cl.closed = true → cl.todo = [] ∧ cl.got.length = cl.written.length

/-- What follows from it, by the order of all actions: of the commands that have arrived, the first
`e` are executed and answered. -/
structure Progress (as : List (ℕ × Action)) (cl : Client) (H : History) (c d e : ℕ) : Prop where
  read_le : cl.got.length ≤ e
  executed_le : e ≤ d
  delivered_le : d ≤ cl.written.length
  written_le : cl.written.length ≤ d + 1
  actions : actionsOf as c = (cl.written.take e).map Command.action
  replies : H.repliesTo c = (cl.written.take e).map answer
  reads : ∃ ys, (H.reads c = ys ∨ H.reads c = ys ++ [.eof]) ∧
    ys.filter (· ≠ .again) = frames (cl.written.take d)
  sent : Sent (cl.written.take d) (H.reads c)

/-- The numbers of commands that were delivered and executed. -/
lemma ClientInv.progress {cmds : List Command} {cl : Client} {c : ℕ} {as : List (ℕ × Action)}
    (h : ClientInv cmds cl P.shared.history c) (hok : ∀ cmd ∈ cmds, cmd.Ok)
    (hlin : Linearizes db store P as) : ∃ d e, Progress as cl P.shared.history c d e := by
  obtain ⟨d, ys, hd, hd', hreads, hys⟩ := h.delivered
  have hok' : ∀ cmd ∈ cl.written.take d, cmd.Ok := fun cmd hcmd =>
    hok cmd (h.split ▸ List.mem_append_left _ (List.mem_of_mem_take hcmd))
  obtain ⟨hpay, ht⟩ := timely_frames hok' hys
  have hsent : Sent (cl.written.take d) (P.shared.history.reads c) := ⟨hok', ys, hreads, hpay, ht⟩
  obtain ⟨e, he, hact, hrep⟩ := hlin.executed hsent
  rw [List.length_take, min_eq_left hd] at he
  rw [List.take_take, min_eq_left he] at hact hrep
  refine ⟨d, e, ?_, he, hd, hd', hact, hrep, ⟨ys, hreads, hys⟩, hsent⟩
  have hlen := h.got.length_le
  rw [hrep, List.length_map, List.length_take] at hlen
  omega

/-- The frames that were written and have not been read. -/
lemma stream_drop_take (ds : List Command) (d : ℕ) :
    (stream ds).drop (stream (ds.take d)).length = stream (ds.drop d) := by
  conv_lhs => rw [← List.take_append_drop d ds, stream_append]
  rw [List.take_append_drop, List.drop_left]

/-- A `read(2)` of the server takes the frame that is under way, if there is one. -/
lemma Delivers.frame {ds : List Command} {d : ℕ} {closed : Bool} {b : Buffer} {x : ReadResult}
    (h : Delivers (stream (ds.drop d)) closed b x) (hb : b.corruptMessagelen = 0)
    (hok : ∀ cmd ∈ ds, cmd.Ok) (hd : ds.length ≤ d + 1) :
    x = .eof ∧ closed = true ∨ x = .again ∨
      ∃ cmd, x = .data cmd.frame ∧ ds.take (d + 1) = ds.take d ++ [cmd] ∧ d < ds.length := by
  cases h with
  | full hroom =>
      rw [hb] at hroom
      exact absurd hroom (by decide)
  | eof _ hclosed => exact .inl ⟨rfl, hclosed⟩
  | again => exact .inr (.inl rfl)
  | data hpending hroom =>
      have hlt : d < ds.length := by
        by_contra hle
        rw [List.drop_of_length_le (by omega)] at hpending
        exact hpending rfl
      have hone : ds.drop d = [ds[d]] := by
        rw [List.drop_eq_getElem_cons hlt, List.drop_of_length_le hd]
      have hbounds := Command.frameLen_bounds (hok ds[d] (List.getElem_mem hlt))
      refine .inr (.inr ⟨ds[d], ?_, (List.take_append_getElem hlt).symm, hlt⟩)
      rw [hone, hb, stream, List.flatMap_singleton, List.take_of_length_le]
      rw [Command.length_frame]
      show _ ≤ 100 - 0
      omega

/-- A step of the process keeps it: what it reads is a frame as a whole. -/
lemma ClientInv.serve {P' : Process n k σ} {c : ℕ} (hreach : Reachable db store N.process)
    (hinv : ClientInv (cs c) (N.clients c) N.process.shared.history c)
    (hok : ∀ cmd ∈ cs c, cmd.Ok) (hstep : Step db N.process P')
    (hreads : N.Allows P'.shared) :
    ClientInv (cs c) (N.clients c) P'.shared.history c := by
  have hgot := hinv.got.trans (hstep.replies_prefix c)
  obtain ⟨d, ys, hd, hd', hys, hframes⟩ := hinv.delivered
  rcases hstep.reads_eq hreach.inv c with hsame | ⟨x, hx, hopen⟩
  · exact ⟨hinv.split, hinv.turn, hgot, ⟨d, ys, hd, hd', hsame ▸ hys, hframes⟩,
      hsame ▸ hinv.finished, hinv.idle⟩
  · -- the connection is open, so its reads were all frames
    have hys : N.process.shared.history.reads c = ys := by
      refine hys.resolve_right fun h => hopen ?_
      rw [h]
      exact List.mem_append_right _ (.head _)
    have hokw : ∀ cmd ∈ (N.clients c).written, cmd.Ok := fun cmd hcmd =>
      hok cmd (hinv.split ▸ List.mem_append_left _ hcmd)
    have hokd : ∀ cmd ∈ (N.clients c).written.take d, cmd.Ok := fun cmd hcmd =>
      hokw cmd (List.mem_of_mem_take hcmd)
    obtain ⟨b, hb, hdel⟩ := hreads c x hx
    obtain ⟨b', hb', hkept⟩ := readOn_frames (b := initBuf) rfl hokd hframes
    rw [hys, hb'] at hb
    cases hb
    rw [Network.pending, hys, (timely_frames hokd hframes).1, stream_drop_take] at hdel
    rw [hys] at hx hopen
    have hover : ∀ y, y ≠ .eof → .eof ∉ ys ++ [y] := by
      intro y hy hmem
      rcases List.mem_append.mp hmem with h | h
      · exact hopen h
      · exact hy (List.mem_singleton.mp h).symm
    rcases hdel.frame hkept hokw hd' with ⟨rfl, hclosed⟩ | rfl | ⟨cmd, rfl, htake, hlt⟩
    · exact ⟨hinv.split, hinv.turn, hgot, ⟨d, ys, hd, hd', .inr hx, hframes⟩, fun _ => hclosed,
        hinv.idle⟩
    · refine ⟨hinv.split, hinv.turn, hgot, ⟨d, ys ++ [.again], hd, hd', .inl hx, ?_⟩,
        fun h => absurd (hx ▸ h) (hover _ (by simp)), hinv.idle⟩
      rw [List.filter_append, hframes]
      exact List.append_nil _
    · refine ⟨hinv.split, hinv.turn, hgot, ⟨d + 1, ys ++ [.data cmd.frame], hlt, by omega, .inl hx,
        ?_⟩, fun h => absurd (hx ▸ h) (hover _ (by simp)), hinv.idle⟩
      rw [List.filter_append, hframes, htake, frames_append,
        List.filter_cons_of_pos (by simp)]
      rfl

/-- A client that writes has all its replies, so that no frame is under way. -/
lemma ClientInv.write {cmds rest : List Command} {cl : Client} {c : ℕ} {cmd : Command}
    (hreach : Reachable db store P) (hinv : ClientInv cmds cl P.shared.history c)
    (hok : ∀ cmd ∈ cmds, cmd.Ok) (htodo : cl.todo = cmd :: rest)
    (hidle : cl.got.length = cl.written.length) :
    ClientInv cmds { cl with todo := rest, written := cl.written ++ [cmd] } P.shared.history c := by
  obtain ⟨as, -, hlin⟩ := hreach.exists_acts
  obtain ⟨d, e, hp⟩ := hinv.progress hok hlin
  have hread := hp.read_le
  have hexec := hp.executed_le
  have hdel := hp.delivered_le
  obtain ⟨ys, hys, hframes⟩ := hp.reads
  refine ⟨?_, ?_, hinv.got, ⟨d, ys, ?_, ?_, hys, ?_⟩, hinv.finished, fun hclosed => ?_⟩
  · rw [← hinv.split, htodo, List.append_assoc]
    rfl
  · simp only [List.length_append, List.length_singleton]
    omega
  · simp only [List.length_append]
    omega
  · simp only [List.length_append, List.length_singleton]
    omega
  · rw [hframes, List.take_append_of_le_length hdel]
  · cases htodo.symm.trans (hinv.idle hclosed).1

/-- A reply fits in the client's read. -/
lemma length_answer_le (cmd : Command) : (answer cmd).length ≤ 20 := by
  cases cmd with
  | set key val => exact (by decide : strSetOk.length ≤ 20)
  | get key => exact (by decide : strNotFound.length ≤ 20)

/-- A client that reads gets the reply that it waits for, and all of it. -/
lemma ClientInv.unread_eq {c : ℕ} (hreach : Reachable db store N.process)
    (hinv : ClientInv (cs c) (N.clients c) N.process.shared.history c)
    (hok : ∀ cmd ∈ cs c, cmd.Ok) (hunread : N.unread c ≠ []) :
    (N.clients c).got ++ [(N.unread c).take 20] = N.process.shared.history.repliesTo c := by
  obtain ⟨as, -, hlin⟩ := hreach.exists_acts
  obtain ⟨d, e, hp⟩ := hinv.progress hok hlin
  obtain ⟨rest, hrest⟩ := hinv.got
  have hunread_eq : N.unread c = rest.flatten := by
    rw [Network.unread, ← hrest, List.flatten_append, List.drop_left]
  have hlen : rest.length ≤ 1 := by
    have hall := congrArg List.length (hrest.trans hp.replies)
    have hturn := hinv.turn
    simp only [List.length_append, List.length_map, List.length_take] at hall
    omega
  match rest, hlen with
  | [], _ => exact absurd hunread_eq hunread
  | [r], _ =>
      have hmem : r ∈ ((N.clients c).written.take e).map answer := by
        rw [← hp.replies, ← hrest]
        exact List.mem_append_right _ (.head _)
      obtain ⟨cmd, -, rfl⟩ := List.mem_map.mp hmem
      rw [hunread_eq, List.flatten_singleton, List.take_of_length_le (length_answer_le cmd), hrest]

/-- **Every step keeps it.** -/
lemma ClientInv.exchange (hreach : Reachable db store N.process)
    (hinv : ∀ c, ClientInv (cs c) (N.clients c) N.process.shared.history c)
    (hok : ∀ c, ∀ cmd ∈ cs c, cmd.Ok) (hstep : Exchange db N N') (c : ℕ) :
    ClientInv (cs c) (N'.clients c) N'.process.shared.history c := by
  cases hstep with
  | serve hstep hreads => exact ClientInv.serve (N := N) hreach (hinv c) (hok c) hstep hreads
  | @write c' cmd rest htodo hidle =>
      refine forall_setClient (fun c cl => ClientInv (cs c) cl _ c) ?_ (fun d _ => hinv d) c
      exact (hinv c').write hreach (hok c') htodo hidle
  | @read c' hwaits hunread =>
      refine forall_setClient (fun c cl => ClientInv (cs c) cl _ c) ?_ (fun d _ => hinv d) c
      have hgot := (hinv c').unread_eq hreach (hok c') hunread
      refine ⟨(hinv c').split, ?_, hgot ▸ List.prefix_refl _, (hinv c').delivered,
        (hinv c').finished, fun hclosed => ?_⟩
      · have hturn := (hinv c').turn
        simp only [List.length_append]
        omega
      · exact absurd ((hinv c').idle hclosed).2 hwaits.ne
  | @close c' htodo hidle =>
      refine forall_setClient (fun c cl => ClientInv (cs c) cl _ c) ?_ (fun d _ => hinv d) c
      obtain ⟨hsplit, hturn, hgot, hdel, -, -⟩ := hinv c'
      exact ⟨hsplit, hturn, hgot, hdel, fun _ => rfl, fun _ => ⟨htodo, hidle⟩⟩

/-- It holds for every client in every state that a run can reach. -/
lemma Exchanged.inv (hok : ∀ c, ∀ cmd ∈ cs c, cmd.Ok) (h : Exchanged db store cs N) (c : ℕ) :
    ClientInv (cs c) (N.clients c) N.process.shared.history c := by
  induction h generalizing c with
  | refl =>
      exact ⟨rfl, Nat.zero_le _, List.nil_prefix, ⟨0, [], le_rfl, Nat.zero_le _, .inl rfl, rfl⟩,
        fun h => absurd h List.not_mem_nil, fun h => by cases h⟩
  | tail hrun hstep ih => exact ClientInv.exchange (Exchanged.reachable hrun) ih hok hstep c

/-- What was written is the front of the commands. -/
lemma ClientInv.take_written {cmds : List Command} {cl : Client} {H : History} {c e : ℕ}
    (h : ClientInv cmds cl H c) (he : e ≤ cl.written.length) :
    cl.written.take e = cmds.take e := by
  rw [← h.split, List.take_append_of_le_length he]

/-- The replies that a client has are the answers to its commands. -/
lemma ClientInv.got_eq {cmds : List Command} {cl : Client} {H : History} {c d e : ℕ}
    {as : List (ℕ × Action)} (h : ClientInv cmds cl H c) (hp : Progress as cl H c d e) :
    cl.got = (cmds.take cl.got.length).map answer := by
  have hread := hp.read_le
  have hgot := List.prefix_iff_eq_take.mp h.got
  rw [hp.replies, ← List.map_take, List.take_take, min_eq_left hread] at hgot
  rw [← h.take_written (hread.trans (hp.executed_le.trans hp.delivered_le))]
  exact hgot

/-- The actions of a client are the first of its commands: those that it has the replies to, and at
most one more. -/
lemma Exchanged.executed {as : List (ℕ × Action)} (hreach : Exchanged db store cs N)
    (hok : ∀ c, ∀ cmd ∈ cs c, cmd.Ok) (hlin : Linearizes db store N.process as) (c : ℕ) :
    ∃ e, (N.clients c).got.length ≤ e ∧ e ≤ (N.clients c).got.length + 1 ∧
      actionsOf as c = ((cs c).take e).map Command.action ∧
      (N.clients c).got = ((cs c).take (N.clients c).got.length).map answer := by
  have hinv := hreach.inv hok c
  obtain ⟨d, e, hp⟩ := hinv.progress (hok c) hlin
  refine ⟨e, hp.read_le, ?_, ?_, hinv.got_eq hp⟩
  · have hexec := hp.executed_le
    have hdel := hp.delivered_le
    have hturn := hinv.turn
    omega
  · rw [hp.actions, hinv.take_written (hp.executed_le.trans hp.delivered_le)]

end Run

end ActionDB.Threads
