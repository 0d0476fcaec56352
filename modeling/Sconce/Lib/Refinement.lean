/-
# One design under another

An execution of agents over a concrete state, seen through an abstraction of the state and of
the program counters, is an execution over the abstract one when every concrete step is an
abstract step of the same agent or is not seen (`Execution.refines`).  The abstract steps are
taken at the moments of concrete ones and in their order, so what the agents observe is what
atomic operations would have shown them.
-/
import Sconce.Lib.Interleaving

namespace Interleaving

variable {ι σ π σ' π' : Type*} [DecidableEq ι] {act : Act ι σ π} {act' : Act ι σ' π'}
  {inv : σ → Prop} {at_ : ι → σ → π → Prop} {apart : ι → ι → π → π → Prop}
  {c₀ c : Config ι σ π} {events : List (Event ι σ)}

/-- An event as the abstraction shows it. -/
def Event.image (view : σ → σ') (e : Event ι σ) : Event ι σ' := ⟨e.agent, view e.before, view e.after⟩

/-- A configuration as the abstraction shows it. -/
def Config.image (view : σ → σ') (viewPc : π → π') (c : Config ι σ π) : Config ι σ' π' :=
  ⟨view c.shared, viewPc ∘ c.pc⟩

/-- Every step is one of the abstract design, or is not seen. -/
def Simulates (act : Act ι σ π) (act' : Act ι σ' π') (inv : σ → Prop) (at_ : ι → σ → π → Prop)
    (view : σ → σ') (viewPc : π → π') : Prop :=
  ∀ {i s p s' p'}, act i s p s' p' → inv s → at_ i s p →
    (view s' = view s ∧ viewPc p' = viewPc p) ∨ act' i (view s) (viewPc p) (view s') (viewPc p')

/-- **The refinement rule.**  The steps that are seen make an execution of the abstract design. -/
theorem Execution.refines {view : σ → σ'} {viewPc : π → π'} (h : Outline act inv at_ apart)
    (h₀ : Annotated inv at_ apart c₀) (hsim : Simulates act act' inv at_ view viewPc)
    (hrun : Execution act c₀ events c) :
    ∃ seen : List (Event ι σ), seen.Sublist events ∧
      Execution act' (c₀.image view viewPc) (seen.map (Event.image view)) (c.image view viewPc) := by
  induction hrun with
  | start => exact ⟨[], List.Sublist.refl [], .start⟩
  | @step events c i s p run hact ih =>
    obtain ⟨seen, hsub, hrun'⟩ := ih
    have hc := h.holds h₀ run
    have hpc : viewPc ∘ Function.update c.pc i p = Function.update (viewPc ∘ c.pc) i (viewPc p) :=
      Function.comp_update viewPc c.pc i p
    rcases hsim hact hc.inv (hc.at_ i) with ⟨hstate, hsame⟩ | hact'
    · refine ⟨seen, hsub.trans (List.sublist_append_left events _), ?_⟩
      have hconfig : Config.image view viewPc ⟨s, Function.update c.pc i p⟩
          = c.image view viewPc := by
        unfold Config.image
        dsimp only
        rw [hpc, hstate, hsame]
        congr 1
        exact Function.update_eq_self i (viewPc ∘ c.pc)
      rw [hconfig]
      exact hrun'
    · refine ⟨seen ++ [⟨i, c.shared, s⟩], hsub.append (List.Sublist.refl _), ?_⟩
      rw [List.map_append]
      have hnext := hrun'.step hact'
      unfold Config.image at hnext ⊢
      dsimp only
      rw [hpc]
      exact hnext

end Interleaving
