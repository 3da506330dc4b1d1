import ActionDB.Net.Codec.Frame
import ActionDB.Net.Codec.Stops

/-!
# The arguments of a message

The protocol says what a message is: behind its header a text, ended by the first `'!'`, whose
arguments are what tabs separate. `arguments` reads them off the text, without offsets, rows or
counters, and `lex_text` ties the lexer to it: on a text that is ended by `'!'` it finds the
arguments of the text, the last of them open if no tab ends it, or a fourth one.

`HasText` says that a message in a buffer has a `'!'`, and what stands before it.
-/

namespace ActionDB.Net.Codec

open ActionDB.Found

/-! ## Texts -/

/-- The arguments in the text of a message: what tabs separate, without the empty ones. -/
def arguments (text : List Byte) : List (List Byte) := (text.splitOn tab).filter (!·.isEmpty)

lemma arguments_append_tab (u v : List Byte) :
    arguments (u ++ tab :: v) = arguments u ++ arguments v := by
  unfold arguments List.splitOn
  rw [List.splitOnP_append_cons (p := (· == tab)) u v (beq_self_eq_true tab), List.filter_append]

lemma arguments_nil : arguments [] = [] := rfl

/-- A text without a tab is one argument. -/
lemma arguments_eq_singleton {u : List Byte} (hne : u ≠ []) (ht : tab ∉ u) : arguments u = [u] := by
  unfold arguments
  rw [List.splitOn_eq_singleton ht]
  simpa using hne

/-! ## The lexer on a text -/

/-- The last argument of a text that is ended by `'!'`: what is behind the last tab. -/
structure Open (text last : List Byte) : Prop where
  noTab : tab ∉ last
  suffix : ∃ u, text = u ++ last ∧ (u = [] ∨ u.getLast? = some tab)

/-- What the lexer makes of a text that starts at `start` and is ended by `'!'`. -/
inductive Lexed (start : ℕ) (text : List Byte) (next : Option Byte) : List Arg × Ending → Prop
  /-- It finds the arguments; the one that the `'!'` ends may be empty. -/
  | bang (args : List Arg) (last : Arg) (before : ∀ a ∈ args, a.stop < start + text.length)
      (stop : last.stop = start + text.length) (opened : Open text last.text)
      (texts : args.map Arg.text ++ arguments last.text = arguments text) :
      Lexed start text next (args, .bang last next)
  /-- It stops at a fourth one. -/
  | fourth (args : List Arg) (before : ∀ a ∈ args, a.stop < start + text.length)
      (texts : args.map Arg.text <+: arguments text) :
      Lexed start text next (args, .fourth)

/-- The arguments that tabs end stand before the `'!'`. -/
lemma Lexed.before {start : ℕ} {text : List Byte} {next : Option Byte} {m : List Arg × Ending}
    (h : Lexed start text next m) : ∀ a ∈ m.1, a.stop < start + text.length := by
  cases h with
  | bang args last before => exact before
  | fourth args before => exact before

/-- They are arguments of the text. -/
lemma Lexed.length_le {start : ℕ} {text : List Byte} {next : Option Byte} {m : List Arg × Ending}
    (h : Lexed start text next m) : m.1.length ≤ (arguments text).length := by
  cases h with
  | bang args last before stop opened texts =>
      rw [← texts, List.length_append, List.length_map]
      exact Nat.le_add_right _ _
  | fourth args before texts =>
      have hle := texts.length_le
      rwa [List.length_map] at hle

/-- The open argument of a text is that of what follows a tab. -/
lemma Open.behind {u text last : List Byte} (h : Open text last) :
    Open (u ++ tab :: text) last := by
  obtain ⟨w, rfl, hw⟩ := h.suffix
  refine ⟨h.noTab, u ++ tab :: w, by simp, .inr ?_⟩
  rcases hw with rfl | hw
  · exact List.getLast?_concat
  · have hne : w ≠ [] := by
      rintro rfl
      cases hw
    rw [List.getLast?_append_of_ne_nil _ (List.cons_ne_nil _ _), List.getLast?_cons, hw]
    rfl

/-- Arguments in front of a tab. -/
lemma Lexed.behind {start : ℕ} {u text : List Byte} {next : Option Byte} {args : List Arg}
    {m : List Arg × Ending} (h : Lexed (start + u.length + 1) text next m)
    (hargs : args.map Arg.text = arguments u) (hstop : ∀ a ∈ args, a.stop ≤ start + u.length) :
    Lexed start (u ++ tab :: text) next (args ++ m.1, m.2) := by
  have hlen : start + (u ++ tab :: text).length = start + u.length + 1 + text.length := by
    rw [List.length_append, List.length_cons]
    omega
  have hbefore : ∀ args' : List Arg, (∀ a ∈ args', a.stop < start + u.length + 1 + text.length) →
      ∀ a ∈ args ++ args', a.stop < start + (u ++ tab :: text).length := by
    intro args' hargs' a ha
    rcases List.mem_append.mp ha with ha | ha
    · have := hstop a ha
      omega
    · have := hargs' a ha
      omega
  cases h with
  | bang args' last before stop opened texts =>
      refine .bang _ last (hbefore args' before) (stop.trans hlen.symm) opened.behind ?_
      rw [List.map_append, List.append_assoc, texts, hargs, arguments_append_tab]
  | fourth args' before texts =>
      refine .fourth _ (hbefore args' before) ?_
      rw [List.map_append, hargs, arguments_append_tab]
      exact (List.prefix_append_right_inj _).mpr texts

/-- **The lexer on a text.** The induction is on what has not been read, with the argument that is
open in front of it. -/
theorem lex_text (start : ℕ) (opened : List Byte) (k : ℕ) (text rest : List Byte)
    (ht : tab ∉ opened) (hb : bang ∉ text) :
    Lexed start (opened ++ text) rest.head? (lex start opened k (text ++ bang :: rest)) := by
  induction text generalizing start opened k with
  | nil =>
      have hbt : (bang : Byte) ≠ tab := by decide
      rw [List.nil_append, List.append_nil, lex, if_neg hbt, if_pos rfl]
      exact .bang [] ⟨start, opened⟩ (fun a ha => absurd ha List.not_mem_nil) rfl
        ⟨ht, [], rfl, .inl rfl⟩ rfl
  | cons c text ih =>
      have hcb : c ≠ bang := fun h => hb (h ▸ List.mem_cons_self)
      have hbt : bang ∉ text := fun h => hb (List.mem_cons_of_mem _ h)
      rw [List.cons_append, lex]
      by_cases hc : c = tab
      · subst hc
        rw [if_pos rfl]
        by_cases ho : opened = []
        · subst ho
          rw [if_pos rfl]
          have hargs : ([] : List Arg).map Arg.text = arguments [] := rfl
          exact (ih (start + 1) [] k ht hbt).behind hargs fun a ha => absurd ha List.not_mem_nil
        · rw [if_neg ho]
          by_cases h3 : 3 ≤ k
          · rw [if_pos h3]
            refine .fourth _ ?_ ?_
            · intro a ha
              obtain rfl := List.mem_singleton.mp ha
              simp only [Arg.stop, List.length_append, List.length_cons]
              omega
            · rw [arguments_append_tab, arguments_eq_singleton ho ht]
              exact List.prefix_append _ _
          · rw [if_neg h3]
            have hargs : [Arg.mk start opened].map Arg.text = arguments opened :=
              (arguments_eq_singleton ho ht).symm
            refine (ih (start + opened.length + 1) [] (k + 1) List.not_mem_nil hbt).behind hargs ?_
            intro a ha
            obtain rfl := List.mem_singleton.mp ha
            exact Nat.le_refl _
      · have hto : tab ∉ opened ++ [c] := by
          rw [List.mem_append, List.mem_singleton]
          exact fun h => h.elim ht fun h => hc h.symm
        rw [if_neg hc, if_neg hcb, List.append_cons opened c text]
        exact ih start (opened ++ [c]) k hto hbt

/-! ## The message in a buffer -/

/-- Behind the header of the message at `parsedLen` there is the text, ended by the first `'!'`. -/
structure HasText (b : Buffer) (text : List Byte) : Prop where
  bytes : ∃ rest, b.rBuf.cells.drop (b.parsedLen + 6) = text ++ bang :: rest
  noBang : bang ∉ text

/-- There is one text. -/
lemma HasText.unique {b : Buffer} {text text' : List Byte} (h : HasText b text)
    (h' : HasText b text') : text = text' := by
  obtain ⟨rest, hrest⟩ := h.bytes
  obtain ⟨rest', hrest'⟩ := h'.bytes
  -- it is what stands before the first `'!'`
  have hbefore : ∀ {t r : List Byte}, bang ∉ t → (t ++ bang :: r).takeWhile (· != bang) = t := by
    intro t r ht
    have hall : ∀ c ∈ t, (c != bang) = true := fun c hc => bne_iff_ne.mpr fun h => ht (h ▸ hc)
    rw [List.takeWhile_append_of_pos hall]
    simp
  rw [← hbefore h.noBang, ← hrest, hrest', hbefore h'.noBang]

/-- The message ends inside `rBuf`. -/
lemma HasText.end_le {b : Buffer} {text : List Byte} (h : HasText b text) :
    b.parsedLen + (text.length + 7) ≤ 100 := by
  obtain ⟨rest, hrest⟩ := h.bytes
  have hlen := congrArg List.length hrest
  simp only [List.length_drop, Buffer.length_rBuf, List.length_append, List.length_cons] at hlen
  omega

/-- The lexer on the text of the message in a buffer. -/
theorem HasText.lexed {b : Buffer} {text : List Byte} (h : HasText b text) :
    Lexed (b.parsedLen + 6) text (some (b.byteAt (b.parsedLen + (text.length + 7))))
      (b.message .record) := by
  obtain ⟨rest, hrest⟩ := h.bytes
  have hle := h.end_le
  have hmem : (b.mem .record).drop (b.parsedLen + 6) =
      text ++ bang :: (rest ++ List.replicate 12 0) := by
    have hp : b.parsedLen + 6 ≤ b.rBuf.cells.length := by
      rw [Buffer.length_rBuf]
      omega
    rw [Buffer.mem, List.drop_append_of_le_length hp, hrest]
    simp [Region.slack]
  have hnext : (rest ++ List.replicate 12 (0 : Byte)).head? =
      some (b.byteAt (b.parsedLen + (text.length + 7))) := by
    have hpos : b.parsedLen + (text.length + 7) = b.parsedLen + 6 + (text.length + 1) := by omega
    rw [hpos, b.byteAt_add, hrest, List.getD_eq_getElem?_getD,
      List.getElem?_append_right (Nat.le_succ _)]
    cases rest <;> simp
  have := lex_text (b.parsedLen + 6) [] 0 text (rest ++ List.replicate 12 0) List.not_mem_nil
    h.noBang
  rw [hnext] at this
  unfold Buffer.message lexAt
  rw [hmem]
  exact this

end ActionDB.Net.Codec
