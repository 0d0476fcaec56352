/-
# Worklists with a cap

A worklist takes its items from the front of a queue.  An item whose node is not admitted or was
seen before is dropped; another one is entered into the plan, and what its node leads to joins the
queue.  The loop ends when the queue is empty, or at a new node once the plan is full.

The graph need not be finite: every step lets the queue shrink or the plan grow, and the plan
stops growing at the cap (`run`).  `Sound` is the invariant; from it the plan lists no node twice,
holds only nodes that are reached through planned ones, and, when the queue is empty at the end,
all that are reached (`mem_plan_iff`).
-/
import Mathlib.Data.List.Nodup
import Mathlib.Data.Prod.Lex
import Mathlib.Tactic

/-- What a worklist does with a node: `ω` is what an item carries beside it, `γ` an entry of the
plan. -/
structure Worklist (α ω γ : Type*) where
  admits : α → Bool
  entry : α → ω → γ
  next : α → List (α × ω)
  node : γ → α
  node_entry : ∀ a o, node (entry a o) = a
  cap : ℕ

namespace Worklist

variable {α ω γ : Type*}

/-- The state of the loop. -/
structure State (α ω γ : Type*) where
  queue : List (α × ω)
  seen : List α
  plan : List γ

/-- The state in which the loop starts. -/
def State.start (queue : List (α × ω)) : State α ω γ := ⟨queue, [], []⟩

variable [DecidableEq α] (w : Worklist α ω γ)

/-- One turn of the loop; none at its end. -/
def step (s : State α ω γ) : Option (State α ω γ) :=
  match s.queue with
  | [] => none
  | (a, o) :: rest =>
    if !w.admits a || s.seen.contains a then some { s with queue := rest }
    else if w.cap ≤ s.plan.length then none
    else some ⟨rest ++ w.next a, a :: s.seen, s.plan ++ [w.entry a o]⟩

/-- The nodes of the plan. -/
def planned (s : State α ω γ) : List α := s.plan.map w.node

variable {w} {s s' : State α ω γ}

/-- What a turn does: it drops the first item, or enters its node into the plan. -/
theorem step_cases (h : w.step s = some s') : ∃ a o rest, s.queue = (a, o) :: rest ∧
    ((w.admits a = false ∨ a ∈ s.seen) ∧ s' = { s with queue := rest } ∨
      w.admits a = true ∧ a ∉ s.seen ∧ s.plan.length < w.cap ∧
        s' = ⟨rest ++ w.next a, a :: s.seen, s.plan ++ [w.entry a o]⟩) := by
  unfold step at h
  cases hqueue : s.queue with
  | nil =>
    rw [hqueue] at h
    cases h
  | cons item rest =>
    obtain ⟨a, o⟩ := item
    rw [hqueue] at h
    dsimp only at h
    split_ifs at h with hskip hcap
    · cases h
      refine ⟨a, o, rest, rfl, .inl ⟨?_, rfl⟩⟩
      rw [Bool.or_eq_true, Bool.not_eq_true', List.contains_iff_mem] at hskip
      exact hskip
    · cases h
      rw [Bool.or_eq_true, Bool.not_eq_true', List.contains_iff_mem, not_or] at hskip
      exact ⟨a, o, rest, rfl, .inr ⟨eq_true_of_ne_false hskip.1, hskip.2, not_le.1 hcap, rfl⟩⟩

/-- Where the loop ends: the queue is empty, or the plan is full at a new node. -/
theorem step_eq_none (h : w.step s = none) : s.queue = [] ∨ w.cap ≤ s.plan.length := by
  unfold step at h
  cases hqueue : s.queue with
  | nil => exact .inl rfl
  | cons item rest =>
    rw [hqueue] at h
    dsimp only at h
    split_ifs at h with hskip hcap
    exact .inr hcap

variable (w) in
/-- What every turn makes smaller: the room in the plan, or else the queue. -/
def rank (s : State α ω γ) : ℕ ×ₗ ℕ := toLex (w.cap - s.plan.length, s.queue.length)

theorem rank_lt (h : w.step s = some s') : w.rank s' < w.rank s := by
  obtain ⟨a, o, rest, hqueue, ⟨-, rfl⟩ | ⟨-, -, hcap, rfl⟩⟩ := step_cases h
  · refine Prod.Lex.toLex_lt_toLex.2 (.inr ⟨rfl, ?_⟩)
    rw [hqueue, List.length_cons]
    exact Nat.lt_succ_self _
  · refine Prod.Lex.toLex_lt_toLex.2 (.inl ?_)
    rw [List.length_append, List.length_singleton]
    omega

variable (w) in
/-- The loop. -/
def run (s : State α ω γ) : State α ω γ :=
  match _h : w.step s with
  | some s' => run s'
  | none => s
termination_by w.rank s
decreasing_by exact rank_lt _h

theorem run_of_step (h : w.step s = some s') : w.run s = w.run s' := by
  rw [run]
  split
  · next t ht =>
    rw [h] at ht
    cases ht
    rfl
  · next hnone =>
    rw [h] at hnone
    cases hnone

theorem run_of_end (h : w.step s = none) : w.run s = s := by
  rw [run]
  split
  · next t ht =>
    rw [h] at ht
    cases ht
  · rfl

/-- **The invariant rule.** What every turn keeps holds at the end of the loop. -/
theorem run_invariant (inv : State α ω γ → Prop)
    (hstep : ∀ s s', w.step s = some s' → inv s → inv s') (h : inv s) : inv (w.run s) := by
  induction s using run.induct w with
  | case1 s s' hs ih =>
    rw [run_of_step hs]
    exact ih (hstep s s' hs h)
  | case2 s hs =>
    rw [run_of_end hs]
    exact h

/-- The loop ends after finitely many turns. -/
theorem run_ends (w : Worklist α ω γ) (s : State α ω γ) :
    ∃ turns : ℕ, (fun t => t >>= w.step)^[turns] (some s) = some (w.run s) ∧
      w.step (w.run s) = none := by
  induction s using run.induct w with
  | case1 s s' hs ih =>
    obtain ⟨turns, hturns, hend⟩ := ih
    refine ⟨turns + 1, ?_, ?_⟩
    · rw [Function.iterate_succ_apply, run_of_step hs, ← hturns]
      exact congrArg _ hs
    · rwa [run_of_step hs]
  | case2 s hs =>
    rw [run_of_end hs]
    exact ⟨0, rfl, hs⟩

/-- Where some turns have led to the end, the loop is there. -/
theorem run_eq_of_turns {turns : ℕ}
    (h : (fun t => t >>= w.step)^[turns] (some s) = some s') (hend : w.step s' = none) :
    w.run s = s' := by
  induction turns generalizing s with
  | zero =>
    cases h
    exact run_of_end hend
  | succ turns ih =>
    rw [Function.iterate_succ_apply] at h
    cases hs : w.step s with
    | some t =>
      rw [run_of_step hs]
      exact ih (hs ▸ h)
    | none =>
      have hstuck : ∀ n, (fun t => t >>= w.step)^[n] none = none := fun n =>
        Function.iterate_fixed rfl n
      have hnone := hstuck turns
      change (fun t => t >>= w.step)^[turns] (w.step s) = some s' at h
      rw [hs, hnone] at h
      cases h

/-! ## Reaching -/

variable (w) in
/-- The node is reached from an item of the queue, through nodes of which `among` holds. -/
inductive Reach (queue : List (α × ω)) (among : α → Prop) : α → Prop
  | queued {a : α} {o : ω} (hmem : (a, o) ∈ queue) (hadmits : w.admits a = true) :
    Reach queue among a
  | next {a b : α} {o : ω} (ha : Reach queue among a) (hamong : among a)
    (hmem : (b, o) ∈ w.next a) (hadmits : w.admits b = true) : Reach queue among b

variable {queue : List (α × ω)} {among among' : α → Prop} {a : α}

omit [DecidableEq α] in
/-- What is reached through some nodes is reached through more. -/
theorem Reach.mono (h : w.Reach queue among a) (hsub : ∀ a, among a → among' a) :
    w.Reach queue among' a := by
  induction h with
  | queued hmem hadmits => exact .queued hmem hadmits
  | next _ hamong hmem hadmits ih => exact .next ih (hsub _ hamong) hmem hadmits

/-- What the loop keeps, when it was started with the queue. -/
structure Sound (w : Worklist α ω γ) (queue : List (α × ω)) (s : State α ω γ) : Prop where
  seen : ∀ a, a ∈ s.seen ↔ a ∈ w.planned s
  nodup : (w.planned s).Nodup
  length : s.plan.length ≤ w.cap
  entries : ∀ e ∈ s.plan, ∃ o, e = w.entry (w.node e) o
  /-- What is planned, or is going to be, is reached through planned nodes. -/
  planned : ∀ a ∈ w.planned s, w.Reach queue (· ∈ w.planned s) a
  queued : ∀ a o, (a, o) ∈ s.queue → w.admits a = true → w.Reach queue (· ∈ w.planned s) a
  /-- What the loop started with, and what a planned node leads to, is planned or going to be. -/
  started : ∀ a o, (a, o) ∈ queue → w.admits a = true →
    a ∈ w.planned s ∨ ∃ o', (a, o') ∈ s.queue
  followed : ∀ a ∈ w.planned s, ∀ b o, (b, o) ∈ w.next a → w.admits b = true →
    b ∈ w.planned s ∨ ∃ o', (b, o') ∈ s.queue

omit [DecidableEq α] in
theorem sound_start (w : Worklist α ω γ) (queue : List (α × ω)) : w.Sound queue (.start queue) where
  seen _ := Iff.rfl
  nodup := List.nodup_nil
  length := Nat.zero_le _
  entries := nofun
  planned := nofun
  queued _ _ hmem hadmits := .queued hmem hadmits
  started _ o hmem _ := .inr ⟨o, hmem⟩
  followed := nofun

/-- One turn keeps the invariant. -/
theorem Sound.step (h : w.Sound queue s) (hs : w.step s = some s') : w.Sound queue s' := by
  obtain ⟨a, o, rest, hqueue, ⟨hskip, rfl⟩ | ⟨hadmits, hnew, hcap, rfl⟩⟩ := step_cases hs
  · -- a node that is dropped is not admitted, or planned already
    have hkept {b : α} (hb : w.admits b = true) (hin : ∃ o', (b, o') ∈ s.queue) :
        b ∈ w.planned s ∨ ∃ o', (b, o') ∈ rest := by
      obtain ⟨o', hin⟩ := hin
      rw [hqueue] at hin
      obtain heq | hrest := List.mem_cons.1 hin
      · cases heq
        obtain hno | hseen := hskip
        · rw [hno] at hb
          cases hb
        · exact .inl ((h.seen a).1 hseen)
      · exact .inr ⟨o', hrest⟩
    refine ⟨h.seen, h.nodup, h.length, h.entries, h.planned, fun b o' hmem => ?_,
      fun b o' hmem hb => ?_, fun c hc b o' hmem hb => ?_⟩
    · exact h.queued b o' (hqueue ▸ List.mem_cons_of_mem _ hmem)
    · exact (h.started b o' hmem hb).elim .inl (hkept hb)
    · exact (h.followed c hc b o' hmem hb).elim .inl (hkept hb)
  · have hplanned : w.planned ⟨rest ++ w.next a, a :: s.seen, s.plan ++ [w.entry a o]⟩ =
        w.planned s ++ [a] := by
      unfold Worklist.planned
      rw [List.map_append, List.map_singleton, w.node_entry]
    have hgrow (b : α) (hb : b ∈ w.planned s) : b ∈ w.planned s ++ [a] :=
      List.mem_append_left _ hb
    have hself : a ∈ w.planned s ++ [a] := List.mem_append_right _ (List.mem_singleton_self a)
    have hreach : w.Reach queue (· ∈ w.planned s ++ [a]) a :=
      (h.queued a o (hqueue ▸ List.mem_cons_self) hadmits).mono hgrow
    have hkept {b : α} (hin : ∃ o', (b, o') ∈ s.queue) :
        b ∈ w.planned s ++ [a] ∨ ∃ o', (b, o') ∈ rest ++ w.next a := by
      obtain ⟨o', hin⟩ := hin
      rw [hqueue] at hin
      obtain heq | hrest := List.mem_cons.1 hin
      · cases heq
        exact .inl hself
      · exact .inr ⟨o', List.mem_append_left _ hrest⟩
    constructor
    · intro b
      rw [hplanned, List.mem_cons, List.mem_append, List.mem_singleton, h.seen b, or_comm]
    · rw [hplanned]
      refine List.nodup_append.2 ⟨h.nodup, List.nodup_singleton a, fun b hb c hc hbc => ?_⟩
      rw [List.mem_singleton] at hc
      subst hc hbc
      exact hnew ((h.seen b).2 hb)
    · rw [List.length_append, List.length_singleton]
      omega
    · intro e he
      obtain he | he := List.mem_append.1 he
      · exact h.entries e he
      · rw [List.mem_singleton] at he
        exact ⟨o, by rw [he, w.node_entry]⟩
    · rw [hplanned]
      intro b hb
      obtain hb | hb := List.mem_append.1 hb
      · exact (h.planned b hb).mono hgrow
      · rw [List.mem_singleton] at hb
        exact hb ▸ hreach
    · rw [hplanned]
      intro b o' hmem hb
      obtain hrest | hnext := List.mem_append.1 hmem
      · exact (h.queued b o' (hqueue ▸ List.mem_cons_of_mem _ hrest) hb).mono hgrow
      · exact .next hreach hself hnext hb
    · rw [hplanned]
      intro b o' hmem hb
      exact (h.started b o' hmem hb).elim (fun hin => .inl (hgrow b hin)) hkept
    · rw [hplanned]
      intro c hc b o' hmem hb
      obtain hc | hc := List.mem_append.1 hc
      · exact (h.followed c hc b o' hmem hb).elim (fun hin => .inl (hgrow b hin)) hkept
      · rw [List.mem_singleton] at hc
        exact .inr ⟨o', List.mem_append_right _ (hc ▸ hmem)⟩

theorem sound_run (w : Worklist α ω γ) (queue : List (α × ω)) :
    w.Sound queue (w.run (.start queue)) :=
  run_invariant (w.Sound queue) (fun _ _ hs h => h.step hs) (w.sound_start queue)

/-- With an empty queue at the end, the plan has all that is reached. -/
theorem mem_plan_iff (hend : (w.run (.start queue)).queue = []) :
    a ∈ w.planned (w.run (.start queue)) ↔ w.Reach queue (fun _ => True) a := by
  have h := w.sound_run queue
  have hempty {b : α} : ¬ ∃ o, (b, o) ∈ (w.run (.start queue)).queue := by
    rw [hend]
    exact fun ⟨_, hin⟩ => absurd hin List.not_mem_nil
  constructor
  · exact fun ha => (h.planned a ha).mono fun _ _ => trivial
  · intro ha
    induction ha with
    | queued hmem hadmits => exact (h.started _ _ hmem hadmits).resolve_right hempty
    | next _ _ hmem hadmits ih => exact (h.followed _ ih _ _ hmem hadmits).resolve_right hempty

end Worklist
