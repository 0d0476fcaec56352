/-
# Noninterference

Several users share a deterministic machine that answers each input.  A user does not notice
the others when the answers to his inputs are those the machine gives with the other inputs
left out.  Two conditions on single steps are enough (`answers_purge`): an input of the others
leaves the user's view as it was, and an input of his own is answered from his view, and
changes it by what is in it.

An input may need something of the state it meets (a name that is still free, say); what one
input needs must survive the others.
-/
import Mathlib.Data.List.Basic
import Mathlib.Tactic

namespace Unwinding

variable {σ τ α ο : Type*}

/-- The answers to a sequence of inputs, each under its input. -/
def answers (step : σ → α → ο × σ) : σ → List α → List (α × ο)
  | _, [] => []
  | s, a :: as => (a, (step s a).1) :: answers step (step s a).2 as

/-- The state after a sequence of inputs. -/
def final (step : σ → α → ο × σ) (s : σ) (as : List α) : σ :=
  as.foldl (fun s a => (step s a).2) s

/-- What each of the inputs needs, and what they need of each other. -/
structure Ready (needs : σ → α → Prop) (apart : α → α → Prop) (s : σ) (as : List α) : Prop where
  each : ∀ a ∈ as, needs s a
  pairwise : as.Pairwise apart

section

variable {step : σ → α → ο × σ} {own : α → Bool} {view : σ → τ} {needs : σ → α → Prop}
  {apart : α → α → Prop}

/-- Inputs that are ready stay so, over the first of them. -/
theorem Ready.tail (hkeep : ∀ s a b, needs s a → needs s b → apart a b → needs (step s a).2 b)
    {s : σ} {a : α} {as : List α} (h : Ready needs apart s (a :: as)) :
    Ready needs apart (step s a).2 as := by
  obtain ⟨ha, has⟩ := List.pairwise_cons.1 h.pairwise
  refine ⟨fun b hb => ?_, has⟩
  exact hkeep s a b (h.each a List.mem_cons_self) (h.each b (List.mem_cons_of_mem a hb)) (ha b hb)

/-- Requests that are ready are so with some left out. -/
theorem Ready.sublist {s : σ} {as bs : List α} (h : Ready needs apart s as) (hsub : bs.Sublist as) :
    Ready needs apart s bs :=
  ⟨fun a ha => h.each a (hsub.subset ha), h.pairwise.sublist hsub⟩

variable (own view) in
/-- **The unwinding rule.**  Leaving out the inputs of the others changes neither the answers
to the user's inputs nor the view he ends with. -/
theorem answers_purge
    (hkeep : ∀ s a b, needs s a → needs s b → apart a b → needs (step s a).2 b)
    (hothers : ∀ s a, needs s a → own a = false → view (step s a).2 = view s)
    (hown : ∀ s t a, needs s a → needs t a → own a = true → view s = view t →
      (step s a).1 = (step t a).1 ∧ view (step s a).2 = view (step t a).2)
    {s t : σ} {as : List α} (hs : Ready needs apart s as)
    (ht : Ready needs apart t (as.filter own)) (hview : view s = view t) :
    (answers step s as).filter (fun x => own x.1) = answers step t (as.filter own) ∧
      view (final step s as) = view (final step t (as.filter own)) := by
  induction as generalizing s t with
  | nil => exact ⟨rfl, hview⟩
  | cons a as ih =>
    have ha := hs.each a List.mem_cons_self
    cases hmine : own a with
    | false =>
      rw [List.filter_cons_of_neg (by simp [hmine])] at ht ⊢
      rw [answers, List.filter_cons_of_neg (by simp [hmine])]
      exact ih (hs.tail hkeep) ht ((hothers s a ha hmine).trans hview)
    | true =>
      rw [List.filter_cons_of_pos hmine] at ht ⊢
      obtain ⟨hanswer, hnext⟩ := hown s t a ha (ht.each a List.mem_cons_self) hmine hview
      obtain ⟨hanswers, hfinal⟩ := ih (hs.tail hkeep) (ht.tail hkeep) hnext
      rw [answers, answers, List.filter_cons_of_pos (by exact hmine), hanswer, hanswers]
      exact ⟨rfl, hfinal⟩

end

end Unwinding
