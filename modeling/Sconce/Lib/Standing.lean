/-
# What a run leaves standing

A step of a machine may set some facts and clear others.  A fact stands at the end of a run if
it stood at the start and no step cleared it, or if some step set it and none after it cleared
it.
-/
import Sconce.Lib.Run

namespace Run

variable {σ α κ : Type*} {step : σ → α → σ}

/-- The facts a machine's states show, with the steps that set and clear them. -/
structure Ledger (step : σ → α → σ) (κ : Type*) where
  shows : σ → κ → Prop
  sets : σ → α → κ → Prop
  clears : σ → α → κ → Prop
  shows_step : ∀ s a k, shows (step s a) k ↔ sets s a k ∨ shows s k ∧ ¬ clears s a k

namespace Ledger

variable (l : Ledger step κ) (s : σ) (as : List α) (k : κ)

/-- No step of the run clears the fact. -/
def Uncleared : Prop := ∀ x ∈ trace step s as, ¬ l.clears x.1 x.2 k

/-- Some step of the run sets the fact, and none after it clears it. -/
def SetSince : Prop := ∃ pre a post, as = pre ++ a :: post ∧ l.sets (final step s pre) a k ∧
  l.Uncleared (step (final step s pre) a) post k

/-- The fact was there and stays, or comes up and stays from then on. -/
def Stands : Prop := l.shows s k ∧ l.Uncleared s as k ∨ l.SetSince s as k

variable {l s as k}

theorem uncleared_cons {a : α} :
    l.Uncleared s (a :: as) k ↔ ¬ l.clears s a k ∧ l.Uncleared (step s a) as k := by
  unfold Uncleared
  rw [trace_cons, List.forall_mem_cons]

/-- The step that sets a fact is the first of the run, or one after it. -/
theorem setSince_cons {a : α} : l.SetSince s (a :: as) k ↔
    l.sets s a k ∧ l.Uncleared (step s a) as k ∨ l.SetSince (step s a) as k := by
  constructor
  · rintro ⟨pre, b, post, has, hsets, hstays⟩
    cases pre with
    | nil =>
      rw [List.nil_append, List.cons.injEq] at has
      obtain ⟨rfl, rfl⟩ := has
      exact Or.inl ⟨hsets, hstays⟩
    | cons c pre =>
      rw [List.cons_append, List.cons.injEq] at has
      obtain ⟨rfl, rfl⟩ := has
      exact Or.inr ⟨pre, b, post, rfl, hsets, hstays⟩
  · rintro (⟨hsets, hstays⟩ | ⟨pre, b, post, rfl, hsets, hstays⟩)
    · exact ⟨[], a, as, rfl, hsets, hstays⟩
    · exact ⟨a :: pre, b, post, rfl, hsets, hstays⟩

/-- **What a run shows at its end is what stands.** -/
theorem shows_final_iff : l.shows (final step s as) k ↔ l.Stands s as k := by
  induction as generalizing s with
  | nil =>
    have hnever : ¬ l.SetSince s [] k := by
      rintro ⟨pre, a, post, has, -, -⟩
      exact List.cons_ne_nil a post (List.append_eq_nil_iff.1 has.symm).2
    constructor
    · intro h
      exact Or.inl ⟨h, fun x hx => absurd hx List.not_mem_nil⟩
    · rintro (⟨h, -⟩ | hset)
      · exact h
      · exact absurd hset hnever
  | cons a as ih =>
    unfold Stands at ih ⊢
    rw [final_cons, ih, l.shows_step, uncleared_cons, setSince_cons]
    tauto

/-- What stands at the end of a run was there, or set by one of its steps. -/
theorem Stands.origin (h : l.Stands s as k) :
    l.shows s k ∨ ∃ x ∈ trace step s as, l.sets x.1 x.2 k := by
  rcases h with ⟨hshows, -⟩ | ⟨pre, a, post, rfl, hsets, -⟩
  · exact Or.inl hshows
  · exact Or.inr ⟨(final step s pre, a), (mem_trace_iff s _ _).2 ⟨pre, post, rfl, rfl⟩, hsets⟩

end Ledger

end Run
