import ActionDB.Kernel.Store

/-!
# Replies

What a connection gets to read. The dispatch loop of `tcpRead` answers a command with `replay`,
which calls `write(2)` once and does not look at what it returns. The socket is non-blocking: a
call may take a part of the reply only, or nothing (`WriteResult`).

The bytes that the socket accepts over a run of commands should be the replies, one after the other.
`accepted_eq_replies_iff` says that they are exactly when every call takes its reply as a whole.
`tcpWrite`, which calls `write(2)` until the whole buffer is out, has no caller.
-/

namespace ActionDB.Net

open ActionDB.Found ActionDB.Net.Codec ActionDB.Kernel

/-! ## The socket -/

/-- What `write(2)` does. -/
inductive WriteResult where
  /-- It takes the first byte, and up to `more` of the bytes behind it. -/
  | accepted (more : ℕ)
  /-- It takes nothing and returns `0`. -/
  | zero
  /-- It fails, as with `EAGAIN`. -/
  | again
  deriving DecidableEq, Repr

/-- The bytes of a buffer that are taken. -/
def WriteResult.taken (buf : List Byte) : WriteResult → List Byte
  | accepted more => buf.take (more + 1)
  | zero => []
  | again => []

/-- What the call returns. -/
def WriteResult.ret (buf : List Byte) : WriteResult → Int
  | accepted more => (buf.take (more + 1)).length
  | zero => 0
  | again => -1

/-- A socket: the calls of `write(2)` that were made, and the bytes it has accepted. -/
structure Socket where
  calls : ℕ
  accepted : List Byte
  deriving DecidableEq, Repr

section Replies

variable {σ : Type} (db : KvStore σ (List Byte) (List Byte)) (sys : ℕ → WriteResult)

/-- `write(fd, buf, len)`; `sys` says what each call does. -/
def write (k : Socket) (buf : List Byte) : Int × Socket :=
  ((sys k.calls).ret buf, ⟨k.calls + 1, k.accepted ++ (sys k.calls).taken buf⟩)

/-- Source: `net/conn.c`, `replay`, on the C string `buf`. -/
def replay (k : Socket) (buf : List Byte) : Int × Socket :=
  if buf.length ≠ 0 then
    let (_, k) := write sys k buf
    (1, k)
  else (1, k)

/-- The dispatch loop on a sequence of messages: the socket and the store at the end.
Source: `net/tcpsocket.c`, `tcpRead`, lines 58-75. -/
def dispatchAll (s : σ) (k : Socket) : List (Area Byte argvSize) → Socket × Except Failure σ
  | [] => (k, .ok s)
  | argv :: rest =>
      match serveMessage db s argv with
      | .error e => (k, .error e)
      | .ok (none, s) => dispatchAll s k rest
      | .ok (some text, s) => dispatchAll s (replay sys k text).2 rest

/-- The replies to a sequence of messages of one connection. -/
def replies (s : σ) (msgs : List (Area Byte argvSize)) : List (List Byte) :=
  (serveAll db s (msgs.map fun argv => (0, argv))).1.map Prod.snd

/-- The call takes the whole text. -/
def WriteResult.Whole (text : List Byte) (w : WriteResult) : Prop :=
  ∃ more, w = .accepted more ∧ text.length ≤ more + 1

/-! ## One reply -/

/-- The server has two replies. -/
lemma reply_cases {s s' : σ} {argv : Area Byte argvSize} {text : List Byte}
    (h : serveMessage db s argv = .ok (some text, s')) : text = strSetOk ∨ text = strNotFound := by
  unfold serveMessage at h
  split at h
  · cases h
  · -- `set`
    split at h
    · cases h
    · cases h
      exact .inl rfl
  · -- `get`, which never has a value to return
    split at h
    · cases h
    · next obj hget =>
        unfold execGetCommand at hget
        split at hget <;> cases hget
    · cases h
      exact .inr rfl
  · cases h
  · cases h

/-- No reply is empty. -/
lemma reply_ne_nil {s s' : σ} {argv : Area Byte argvSize} {text : List Byte}
    (h : serveMessage db s argv = .ok (some text, s')) : text ≠ [] := by
  rcases reply_cases db h with rfl | rfl
  · exact List.cons_ne_nil _ _
  · exact List.cons_ne_nil _ _

lemma length_taken_le (w : WriteResult) (text : List Byte) :
    (w.taken text).length ≤ text.length := by
  cases w with
  | accepted more => exact List.length_take_le' _ _
  | zero | again => exact Nat.zero_le _

/-- A text that is not empty is taken completely exactly when the call takes the whole text. -/
lemma length_taken_eq_iff {text : List Byte} (hne : text ≠ []) (w : WriteResult) :
    (w.taken text).length = text.length ↔ w.Whole text := by
  have hpos := List.length_pos_of_ne_nil hne
  cases w with
  | accepted more =>
      have hlen : (WriteResult.taken text (.accepted more)).length = min (more + 1) text.length :=
        List.length_take
      constructor
      · intro h
        exact ⟨more, rfl, by omega⟩
      · rintro ⟨_, ⟨⟩, h⟩
        omega
  | zero | again =>
      refine iff_of_false hpos.ne fun h => ?_
      obtain ⟨more, hmore, -⟩ := h
      cases hmore

lemma taken_eq_of_length_eq {w : WriteResult} {text : List Byte}
    (h : (w.taken text).length = text.length) : w.taken text = text := by
  cases w with
  | accepted more => exact (List.take_prefix _ _).eq_of_length h
  | zero | again => exact (List.eq_nil_of_length_eq_zero h.symm).symm

/-! ## A run of commands -/

/-- The bytes that are taken of the texts, one call for each from call `i` on. -/
def takenFrom (i : ℕ) : List (List Byte) → List Byte
  | [] => []
  | text :: texts => (sys i).taken text ++ takenFrom (i + 1) texts

/-- The socket accepts what is taken of the replies. -/
lemma accepted_dispatchAll (s : σ) (k : Socket) (msgs : List (Area Byte argvSize)) :
    (dispatchAll db sys s k msgs).1.accepted =
      k.accepted ++ takenFrom sys k.calls (replies db s msgs) := by
  induction msgs generalizing s k with
  | nil => exact (List.append_nil _).symm
  | cons argv rest ih =>
      unfold dispatchAll replies
      simp only [List.map_cons, serveAll]
      cases hserve : serveMessage db s argv with
      | error e => exact (List.append_nil _).symm
      | ok r =>
          obtain ⟨_ | text, s'⟩ := r
          · exact ih s' k
          · have hlen : text.length ≠ 0 := by
              have := reply_ne_nil db hserve
              simpa using this
            simp only [replay, hlen, ne_eq, not_false_eq_true, if_true]
            rw [ih]
            simp only [write, List.append_assoc]
            rfl

/-- Together the calls take no more than there is. -/
lemma length_takenFrom_le (i : ℕ) (texts : List (List Byte)) :
    (takenFrom sys i texts).length ≤ texts.flatten.length := by
  induction texts generalizing i with
  | nil => exact Nat.le_refl 0
  | cons text texts ih =>
      simp only [takenFrom, List.flatten_cons, List.length_append]
      exact Nat.add_le_add (length_taken_le _ _) (ih _)

/-- What one call leaves out no later one can make up for. -/
lemma takenFrom_cons_eq_iff {text : List Byte} (hne : text ≠ []) (i : ℕ)
    (texts : List (List Byte)) : takenFrom sys i (text :: texts) = (text :: texts).flatten ↔
      (sys i).Whole text ∧ takenFrom sys (i + 1) texts = texts.flatten := by
  have h₁ := length_taken_le (sys i) text
  have h₂ := length_takenFrom_le sys (i + 1) texts
  rw [takenFrom, List.flatten_cons, ← length_taken_eq_iff hne]
  constructor
  · intro h
    have hlen := congrArg List.length h
    simp only [List.length_append] at hlen
    have hfirst : ((sys i).taken text).length = text.length := by omega
    exact ⟨hfirst, (List.append_inj h hfirst).2⟩
  · rintro ⟨hfirst, h⟩
    rw [h, taken_eq_of_length_eq hfirst]

/-- Texts are taken completely exactly when every call takes a whole text. -/
lemma takenFrom_eq_flatten_iff (i : ℕ) (texts : List (List Byte)) (hne : ∀ t ∈ texts, t ≠ []) :
    takenFrom sys i texts = texts.flatten ↔
      ∀ j text, texts[j]? = some text → (sys (i + j)).Whole text := by
  induction texts generalizing i with
  | nil => simp [takenFrom]
  | cons text texts ih =>
      rw [takenFrom_cons_eq_iff sys (hne text List.mem_cons_self),
        ih (i + 1) fun t ht => hne t (List.mem_cons_of_mem _ ht)]
      constructor
      · rintro ⟨hfirst, h⟩ (_ | j) t ht
        · rwa [← Option.some.inj ht]
        · rw [← Nat.add_assoc, Nat.add_right_comm]
          exact h j t ht
      · intro h
        refine ⟨h 0 text rfl, fun j t ht => ?_⟩
        rw [Nat.add_assoc, Nat.add_comm 1]
        exact h (j + 1) t ht

/-- The replies are not empty. -/
lemma replies_ne_nil (s : σ) (msgs : List (Area Byte argvSize)) :
    ∀ t ∈ replies db s msgs, t ≠ [] := by
  induction msgs generalizing s with
  | nil => exact fun t ht => absurd ht List.not_mem_nil
  | cons argv rest ih =>
      unfold replies
      simp only [List.map_cons, serveAll]
      cases hserve : serveMessage db s argv with
      | error e => exact fun t ht => absurd ht List.not_mem_nil
      | ok r =>
          obtain ⟨_ | text, s'⟩ := r
          · exact ih s'
          · intro t ht
            rcases List.mem_cons.mp ht with rfl | ht
            · exact reply_ne_nil db hserve
            · exact ih s' t ht

/-- **The reply stream.** Over a run of commands on a new connection, the bytes that the socket
accepts are the replies one after the other exactly when every call of `write(2)` takes the whole
reply it is given. -/
theorem accepted_eq_replies_iff (s : σ) (msgs : List (Area Byte argvSize)) :
    (dispatchAll db sys s ⟨0, []⟩ msgs).1.accepted = (replies db s msgs).flatten ↔
      ∀ i text, (replies db s msgs)[i]? = some text → (sys i).Whole text := by
  rw [accepted_dispatchAll, List.nil_append,
    takenFrom_eq_flatten_iff sys 0 _ (replies_ne_nil db s msgs)]
  simp only [Nat.zero_add]

end Replies

/-- **A reply that is cut off.** A call that takes three bytes leaves `"set"` of the reply to
`set k v`, and one that fails leaves nothing. -/
theorem accepted_ne_replies :
    (replies (KvStore.map _ _) (fun _ => none) [setKV.argv]).flatten = strSetOk ∧
      (dispatchAll (KvStore.map _ _) (fun _ => .accepted 2) (fun _ => none) ⟨0, []⟩
        [setKV.argv]).1.accepted = [115, 101, 116] ∧
      (dispatchAll (KvStore.map _ _) (fun _ => .again) (fun _ => none) ⟨0, []⟩
        [setKV.argv]).1.accepted = [] := by
  refine ⟨?_, ?_, ?_⟩ <;> decide +kernel

end ActionDB.Net
