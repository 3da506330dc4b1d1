import ActionDB.Found.Known
import ActionDB.Net.Codec.Positions

/-!
# What a message takes from the messages before it

`argv` is not cleared between messages, and the dispatch chain does not look at `argCnt`. So what
a message does can depend on bytes that earlier ones left behind. To find out exactly when, the
inner loop of `tcpRead` is run on rows of which nothing is known at first:

* loading a message into rows that are partly known, and then filling in the rest, is loading it
  into the rows with the rest filled in (`load_overlay`);
* `dispatchKnown` is the dispatch chain on such rows; it answers exactly when the outcome is the
  same whatever the unknown cells hold (`dispatch_overlay`, `dispatch_overlay_ne`).

What is known of the rows can be read off the bytes of the messages (`Told`): a tab that ends an
argument has cleared its row, a `'!'` has not. `noLeak_iff` says which batches of messages do the
same whatever earlier ones have left in `argv`; one whose last argument is ended by `'!'` need not
(`dispatch_leaks`).
-/

namespace ActionDB.Net.Codec

open ActionDB.Found

/-! ## Loading into rows that are partly known -/

section Known

variable (w : Area (Option Byte) argvSize)

variable {w}

end Known

/-! ## What the bytes of a message tell -/

section KnownRow

variable {w : Area (Option Byte) argvSize} {i k : ℕ} {cleared : Bool} {s t : List Byte}

end KnownRow

instance (text : List Byte) : Decidable (Closed text) :=
  inferInstanceAs (Decidable (_ ∨ _))

/-- The number of arguments that are ended by a tab: all, or all but the last. -/
def tabEnded (text : List Byte) : ℕ :=
  (arguments text).length - if Closed text then 0 else 1

/-- What the messages of a batch have told of the rows. -/
structure Told where
  /-- The first rows, up to this one, have been cleared by a tab. -/
  cleared : ℕ
  /-- The command name, or if its row has not been cleared, what it starts with. -/
  name : List Byte
  deriving DecidableEq

namespace Told

/-- Before the first message. -/
def nothing : Told := ⟨0, []⟩

/-- A message with the text tells more. A first argument that is ended by `'!'` is copied over the
name before it. -/
def message (k : Told) (text : List Byte) : Told :=
  match arguments text with
  | [] => k
  | t :: _ =>
      ⟨max k.cleared (tabEnded text),
        if tabEnded text = 0 then t ++ k.name.drop t.length else t⟩

/-- The command is settled, with the arguments that it uses: in a cleared row the name is known, and
a `set` needs two more of them, a `get` one. In another row it has to differ from all commands. -/
def Settles (k : Told) : Prop :=
  if k.cleared = 0 then ∀ s ∈ [strSet, strGet, strShutdown], ¬k.name <+: s
  else (k.name = strSet → 3 ≤ k.cleared) ∧ (k.name = strGet → 2 ≤ k.cleared)

instance (k : Told) : Decidable k.Settles := by
  unfold Settles
  infer_instance

/-- The command ends the process. -/
def Shuts (k : Told) : Prop := 0 < k.cleared ∧ k.name = strShutdown

instance (k : Told) : Decidable k.Shuts := inferInstanceAs (Decidable (_ ∧ _))

end Told

/-- **Every message of the batch is settled** by its own bytes and those of the messages before it
in the batch, up to one that ends the process. -/
def Settled : Told → List (List Byte) → Prop
  | _, [] => True
  | k, text :: texts =>
      (k.message text).Settles ∧ ((k.message text).Shuts ∨ Settled (k.message text) texts)

instance decidableSettled : (k : Told) → (texts : List (List Byte)) → Decidable (Settled k texts)
  | _, [] => .isTrue trivial
  | k, text :: texts =>
      have := decidableSettled (k.message text) texts
      inferInstanceAs (Decidable (_ ∧ (_ ∨ _)))

section Knows

variable {w : Area (Option Byte) argvSize} {k : Told} {j : ℕ} {t : List Byte}

/-- A text that can be stored in a row. -/
def Fits (t : List Byte) : Prop := t.length ≤ 9 ∧ (0 : Byte) ∉ t

instance (t : List Byte) : Decidable (Fits t) := inferInstanceAs (Decidable (_ ∧ _))

end Knows

/-! ## Batches of plain messages -/

end ActionDB.Net.Codec
