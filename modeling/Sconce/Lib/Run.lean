/-
# Runs of a deterministic machine

A machine takes one input at a time; a run feeds it a finite sequence.  `final`
is the state a run ends in, `trace` lists each input with the state it met.

Two rules carry every argument about runs: an invariant of the step is an
invariant of the run, and a relation that one pair of steps keeps is kept by two
runs over the same inputs.
-/
import Mathlib.Data.List.Basic
import Mathlib.Tactic

namespace Run

variable {σ τ α : Type*}

/-- The state after a sequence of inputs. -/
def final (step : σ → α → σ) (s : σ) (as : List α) : σ := as.foldl step s

/-- The inputs of a run, each with the state it met. -/
def trace (step : σ → α → σ) : σ → List α → List (σ × α)
  | _, [] => []
  | s, a :: as => (s, a) :: trace step (step s a) as

variable {step : σ → α → σ}

@[simp] theorem final_nil (s : σ) : final step s [] = s := rfl

@[simp] theorem final_cons (s : σ) (a : α) (as : List α) :
    final step s (a :: as) = final step (step s a) as := rfl

@[simp] theorem final_append (s : σ) (as bs : List α) :
    final step s (as ++ bs) = final step (final step s as) bs :=
  List.foldl_append

@[simp] theorem trace_nil (s : σ) : trace step s [] = [] := rfl

@[simp] theorem trace_cons (s : σ) (a : α) (as : List α) :
    trace step s (a :: as) = (s, a) :: trace step (step s a) as := rfl

theorem trace_append (s : σ) (as bs : List α) :
    trace step s (as ++ bs) = trace step s as ++ trace step (final step s as) bs := by
  induction as generalizing s with
  | nil => rfl
  | cons a as ih =>
    rw [List.cons_append, trace_cons, trace_cons, ih, final_cons, List.cons_append]

/-- An input of a run meets the state that the inputs before it lead to. -/
theorem mem_trace_iff (s : σ) (as : List α) (x : σ × α) :
    x ∈ trace step s as ↔ ∃ pre post, as = pre ++ x.2 :: post ∧ x.1 = final step s pre := by
  induction as generalizing s with
  | nil => simp
  | cons a as ih =>
    rw [trace_cons, List.mem_cons, ih]
    constructor
    · rintro (rfl | ⟨pre, post, rfl, hx⟩)
      · exact ⟨[], as, rfl, rfl⟩
      · exact ⟨a :: pre, post, rfl, hx⟩
    · rintro ⟨pre, post, has, hx⟩
      cases pre with
      | nil =>
        rw [List.nil_append, List.cons.injEq] at has
        exact Or.inl (Prod.ext hx has.1.symm)
      | cons b pre =>
        rw [List.cons_append, List.cons.injEq] at has
        obtain ⟨rfl, rfl⟩ := has
        exact Or.inr ⟨pre, post, rfl, hx⟩

/-- **The invariant rule.** What every step keeps holds at the end of a run. -/
theorem final_invariant (inv : σ → Prop) {as : List α}
    (hstep : ∀ a ∈ as, ∀ s, inv s → inv (step s a)) {s : σ} (h : inv s) : inv (final step s as) := by
  induction as generalizing s with
  | nil => exact h
  | cons a as ih =>
    rw [final_cons]
    exact ih (fun b hb => hstep b (List.mem_cons_of_mem a hb))
      (hstep a List.mem_cons_self s h)

/-- What every step keeps from the state it meets holds at the end of a run. -/
theorem final_of_trace {p : σ → Prop} {s : σ} {as : List α}
    (hstep : ∀ x ∈ trace step s as, p x.1 → p (step x.1 x.2)) (h : p s) : p (final step s as) := by
  induction as generalizing s with
  | nil => exact h
  | cons a as ih =>
    rw [trace_cons, List.forall_mem_cons] at hstep
    rw [final_cons]
    exact ih hstep.2 (hstep.1 h)

/-- What every step keeps holds in every state of a run. -/
theorem trace_invariant {inv : σ → Prop} (hstep : ∀ s a, inv s → inv (step s a)) {s : σ}
    (h : inv s) {as : List α} {x : σ × α} (hx : x ∈ trace step s as) : inv x.1 := by
  obtain ⟨pre, post, -, hpre⟩ := (mem_trace_iff s as x).1 hx
  rw [hpre]
  exact final_invariant inv (fun a _ s hs => hstep s a hs) h

/-- **The lockstep rule.** A relation that one pair of steps keeps relates the
ends of two runs over the same inputs. -/
theorem final_lockstep {step' : τ → α → τ} (rel : σ → τ → Prop) {as : List α}
    (hstep : ∀ a ∈ as, ∀ s t, rel s t → rel (step s a) (step' t a)) {s : σ} {t : τ}
    (h : rel s t) : rel (final step s as) (final step' t as) := by
  induction as generalizing s t with
  | nil => exact h
  | cons a as ih =>
    rw [final_cons, final_cons]
    exact ih (fun b hb => hstep b (List.mem_cons_of_mem a hb))
      (hstep a List.mem_cons_self s t h)

/-- Two conditions that agree on every step agree on every run. -/
theorem forall_trace_congr {p q : σ × α → Prop} (h : ∀ x, p x ↔ q x) (s : σ) (as : List α) :
    (∀ x ∈ trace step s as, p x) ↔ ∀ x ∈ trace step s as, q x :=
  forall₂_congr fun x _ => h x

/-- **The safety rule.** If a state with the property keeps it over a step exactly
when the step meets a condition, every state of a run has it exactly when every
step of the run meets the condition. -/
theorem always_iff {p : σ → Prop} {cond : σ × α → Prop}
    (h : ∀ s a, p s → (p (step s a) ↔ cond (s, a))) {s : σ} (hs : p s) (as : List α) :
    (∀ done, done <+: as → p (final step s done)) ↔ ∀ x ∈ trace step s as, cond x := by
  induction as generalizing s with
  | nil =>
    constructor
    · intro _ x hx
      exact absurd hx List.not_mem_nil
    · intro _ done hdone
      rw [List.prefix_nil.1 hdone]
      exact hs
  | cons a as ih =>
    rw [trace_cons, List.forall_mem_cons, ← h s a hs]
    constructor
    · intro hall
      have hone : p (step s a) := hall [a] (List.prefix_append [a] as)
      refine ⟨hone, (ih hone).1 fun done hdone => ?_⟩
      exact hall (a :: done) ((List.prefix_cons_inj a).2 hdone)
    · rintro ⟨hone, hrest⟩ done hdone
      cases done with
      | nil => exact hs
      | cons b done =>
        obtain ⟨rfl, hrun⟩ := List.cons_prefix_cons.1 hdone
        exact (ih hone).2 hrest done hrun

/-- Some run leads from one state to the other. -/
def Reaches (step : σ → α → σ) (s s' : σ) : Prop := ∃ as, final step s as = s'

instance : IsPreorder σ (Reaches step) where
  refl s := ⟨[], rfl⟩
  trans := by
    rintro s _ _ ⟨as, rfl⟩ ⟨bs, rfl⟩
    exact ⟨as ++ bs, final_append s as bs⟩

end Run
