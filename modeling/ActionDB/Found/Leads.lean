import Mathlib.Logic.Relation

/-!
# Where a run leads

`Leads R Stop s Q` says that some run of the steps `R` from `s` comes to a state of `Q`, unless it
stops on the way. The rules follow the parts of a program: `Leads.here` is its end, `Leads.stop` a
place where it stops, `Leads.step` one of its statements, and `Leads.bind` puts one part after
another. `Leads.keeps` adds an invariant.
-/

namespace ActionDB.Found

variable {α : Type*} {R : α → α → Prop} {Stop Q Q' : α → Prop} {s t : α}

/-- Some run from `s` ends in a state of `Q`, or in one of `Stop`. -/
def Leads (R : α → α → Prop) (Stop : α → Prop) (s : α) (Q : α → Prop) : Prop :=
  ∃ t, Relation.ReflTransGen R s t ∧ (Stop t ∨ Q t)

namespace Leads

/-- The run has come to its end. -/
lemma here (h : Q s) : Leads R Stop s Q := ⟨s, .refl, .inr h⟩

/-- The run stops here. -/
lemma stop (h : Stop s) : Leads R Stop s Q := ⟨s, .refl, .inl h⟩

/-- One step, and the run from there. -/
lemma step (h : R s t) (hleads : Leads R Stop t Q) : Leads R Stop s Q := by
  obtain ⟨u, hrun, hu⟩ := hleads
  exact ⟨u, .head h hrun, hu⟩

/-- One run after another. Where the first stops, both do. -/
lemma bind (h : Leads R Stop s Q) (hQ : ∀ t, Q t → Leads R Stop t Q') : Leads R Stop s Q' := by
  obtain ⟨t, hrun, ht | ht⟩ := h
  · exact ⟨t, hrun, .inl ht⟩
  · obtain ⟨u, hrun', hu⟩ := hQ t ht
    exact ⟨u, hrun.trans hrun', hu⟩

/-- What every step keeps holds where the run ends. -/
lemma keeps {I : α → Prop} (h : Leads R Stop s Q) (hI : ∀ a b, I a → R a b → I b) (hs : I s) :
    Leads R Stop s fun t => I t ∧ Q t := by
  obtain ⟨t, hrun, ht⟩ := h
  have hrunI : I t := by
    clear ht
    induction hrun with
    | refl => exact hs
    | tail _ hstep ih => exact hI _ _ ih hstep
  exact ⟨t, hrun, ht.imp_right fun ht => ⟨hrunI, ht⟩⟩

end Leads

end ActionDB.Found
