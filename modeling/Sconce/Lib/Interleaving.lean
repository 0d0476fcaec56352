/-
# Agents over a shared state

Any number of agents, each with a program counter of its own, act on one shared
state, one atomic step at a time and in any order.  An agent that has no step to
take waits; one that stops for good is an agent that takes no more steps.

An `Outline` annotates such a system: an invariant of the shared state, an
assertion at each program counter, and a relation between the program counters of
two agents.  An annotation that every step keeps, of its own agent and of every
other one, holds in every configuration an execution reaches.
-/
import Mathlib.Logic.Function.Basic
import Mathlib.Tactic

namespace Interleaving

variable {ι σ π γ : Type*}

/-- The shared state and every agent's program counter. -/
structure Config (ι σ π : Type*) where
  shared : σ
  pc : ι → π

/-- A step of an execution: who took it, and the shared states around it. -/
structure Event (ι σ : Type*) where
  agent : ι
  before : σ
  after : σ

/-- The event is the first of its agent. -/
def Event.IsFirst (events : List (Event ι σ)) (e : Event ι σ) : Prop :=
  ∃ earlier later, events = earlier ++ e :: later ∧ ∀ e' ∈ earlier, e'.agent ≠ e.agent

/-- One event comes after another, with others between them. -/
def Between (events : List (Event ι σ)) (first : Event ι σ) (between : List (Event ι σ))
    (last : Event ι σ) : Prop :=
  ∃ earlier later, events = earlier ++ first :: (between ++ last :: later)

/-- `act i s p s' p'` : agent `i` at `p` takes the shared state from `s` to `s'` and
goes to `p'`. -/
abbrev Act (ι σ π : Type*) := ι → σ → π → σ → π → Prop

/-- The executions from a configuration, with the events they take. -/
inductive Execution [DecidableEq ι] (act : Act ι σ π) (c₀ : Config ι σ π) :
    List (Event ι σ) → Config ι σ π → Prop
  | start : Execution act c₀ [] c₀
  | step {events : List (Event ι σ)} {c : Config ι σ π} {i : ι} {s : σ} {p : π}
      (run : Execution act c₀ events c) (hact : act i c.shared (c.pc i) s p) :
      Execution act c₀ (events ++ [⟨i, c.shared, s⟩]) ⟨s, Function.update c.pc i p⟩

/-- An event between two events has the later ones between itself and the last. -/
theorem Between.of_mem {events : List (Event ι σ)} {first last e : Event ι σ}
    {between : List (Event ι σ)} (h : Between events first between last) (he : e ∈ between) :
    ∃ between', Between events e between' last ∧ ∀ e' ∈ between', e' ∈ events := by
  obtain ⟨earlier, later, rfl⟩ := h
  obtain ⟨before, after, rfl⟩ := List.append_of_mem he
  refine ⟨after, ⟨earlier ++ first :: before, later, by simp⟩, fun e' he' => ?_⟩
  simp [he']

/-- The first of two events is of the execution. -/
theorem Between.first_mem {events : List (Event ι σ)} {first last : Event ι σ}
    {between : List (Event ι σ)} (h : Between events first between last) : first ∈ events := by
  obtain ⟨earlier, later, rfl⟩ := h
  simp

/-- The last of two events is of the execution. -/
theorem Between.last_mem {events : List (Event ι σ)} {first last : Event ι σ}
    {between : List (Event ι σ)} (h : Between events first between last) : last ∈ events := by
  obtain ⟨earlier, later, rfl⟩ := h
  simp

/-- The first event of an agent, and where its other events are. -/
theorem eq_or_later {events earlier later earlier' later' : List (Event ι σ)}
    {first e : Event ι σ} (hevents : events = earlier ++ first :: later)
    (hnone : ∀ e ∈ earlier, e.agent ≠ first.agent) (h : events = earlier' ++ e :: later')
    (hagent : e.agent = first.agent) :
    (e = first ∧ later' = later) ∨
      ∃ between, earlier' = earlier ++ first :: between ∧ later = between ++ e :: later' := by
  rcases List.append_eq_append_iff.1 (hevents.symm.trans h) with ⟨as, hearlier, hrest⟩ |
    ⟨bs, hearlier, hrest⟩
  · cases as with
    | nil =>
      obtain ⟨rfl, rfl⟩ := List.cons.inj hrest
      exact Or.inl ⟨rfl, rfl⟩
    | cons a as =>
      obtain ⟨rfl, hlater⟩ := List.cons.inj hrest
      exact Or.inr ⟨as, hearlier, hlater⟩
  · cases bs with
    | nil =>
      obtain ⟨rfl, rfl⟩ := List.cons.inj hrest
      exact Or.inl ⟨rfl, rfl⟩
    | cons b bs =>
      obtain ⟨rfl, -⟩ := List.cons.inj hrest
      exact absurd hagent (hnone e (hearlier ▸ List.mem_append_right _ List.mem_cons_self))

/-- The first event of its agent is of the execution. -/
theorem Event.IsFirst.mem {events : List (Event ι σ)} {e : Event ι σ} (h : e.IsFirst events) :
    e ∈ events := by
  obtain ⟨earlier, later, rfl, -⟩ := h
  exact List.mem_append_right _ List.mem_cons_self

/-- It is the only one. -/
theorem Event.IsFirst.eq {events earlier later : List (Event ι σ)} {first e : Event ι σ}
    (h : e.IsFirst events) (hevents : events = earlier ++ first :: later)
    (hnone : ∀ e ∈ earlier, e.agent ≠ first.agent) (hagent : e.agent = first.agent) :
    e = first := by
  obtain ⟨earlier', later', hevents', hnone'⟩ := h
  rcases eq_or_later hevents hnone hevents' hagent with ⟨heq, -⟩ | ⟨between, hearlier, -⟩
  · exact heq
  · exact absurd hagent.symm
      (hnone' first (hearlier ▸ List.mem_append_right _ List.mem_cons_self))

/-- What comes after an event of the agent comes after its first. -/
theorem Between.mem_later {events earlier later between : List (Event ι σ)}
    {first e last : Event ι σ} (h : Between events e between last)
    (hevents : events = earlier ++ first :: later) (hnone : ∀ e ∈ earlier, e.agent ≠ first.agent)
    (hagent : e.agent = first.agent) : last ∈ later := by
  obtain ⟨earlier', later', hevents'⟩ := h
  rcases eq_or_later hevents hnone hevents' hagent with ⟨-, rfl⟩ | ⟨between', -, rfl⟩
  · exact List.mem_append_right _ List.mem_cons_self
  · exact List.mem_append_right _ (List.mem_cons_of_mem _
      (List.mem_append_right _ List.mem_cons_self))

/-! ## Proof outlines -/

/-- An annotation that every step keeps. -/
structure Outline (act : Act ι σ π) (inv : σ → Prop) (at_ : ι → σ → π → Prop)
    (apart : ι → ι → π → π → Prop) : Prop where
  symm : ∀ {i j p q}, apart i j p q → apart j i q p
  /-- A step keeps the invariant and reaches the assertion at its end. -/
  sound : ∀ {i s p s' p'}, act i s p s' p' → inv s → at_ i s p → inv s' ∧ at_ i s' p'
  /-- A step keeps the assertion of every other agent. -/
  free : ∀ {i j s p s' p' q}, i ≠ j → act i s p s' p' → inv s → at_ i s p → at_ j s q →
    apart i j p q → at_ j s' q
  /-- A step keeps the relation to every other agent. -/
  keeps : ∀ {i j s p s' p' q}, i ≠ j → act i s p s' p' → inv s → at_ i s p → at_ j s q →
    apart i j p q → apart i j p' q

/-- The annotation holds of a configuration. -/
structure Annotated (inv : σ → Prop) (at_ : ι → σ → π → Prop) (apart : ι → ι → π → π → Prop)
    (c : Config ι σ π) : Prop where
  inv : inv c.shared
  at_ : ∀ i, at_ i c.shared (c.pc i)
  apart : ∀ i j, i ≠ j → apart i j (c.pc i) (c.pc j)

section Rules

variable [DecidableEq ι] {act : Act ι σ π} {inv : σ → Prop} {at_ : ι → σ → π → Prop}
  {apart : ι → ι → π → π → Prop} {c₀ c : Config ι σ π} {events : List (Event ι σ)}

/-- A step keeps the annotation of the whole configuration. -/
theorem Outline.step (h : Outline act inv at_ apart) (hc : Annotated inv at_ apart c) {i : ι}
    {s : σ} {p : π} (hact : act i c.shared (c.pc i) s p) :
    Annotated inv at_ apart ⟨s, Function.update c.pc i p⟩ := by
  have hsound := h.sound hact hc.inv (hc.at_ i)
  have hkeeps : ∀ j, i ≠ j → apart i j p (c.pc j) := fun j hj =>
    h.keeps hj hact hc.inv (hc.at_ i) (hc.at_ j) (hc.apart i j hj)
  refine ⟨hsound.1, fun j => ?_, fun j k hjk => ?_⟩
  · show at_ j s (Function.update c.pc i p j)
    by_cases hj : j = i
    · subst hj
      rw [Function.update_self]
      exact hsound.2
    · rw [Function.update_of_ne hj]
      exact h.free (Ne.symm hj) hact hc.inv (hc.at_ i) (hc.at_ j) (hc.apart i j (Ne.symm hj))
  · show apart j k (Function.update c.pc i p j) (Function.update c.pc i p k)
    -- the agent that stepped is the first of the pair, the second, or neither
    by_cases hj : j = i
    · subst hj
      rw [Function.update_self, Function.update_of_ne (Ne.symm hjk)]
      exact hkeeps k hjk
    · rw [Function.update_of_ne hj]
      by_cases hk : k = i
      · subst hk
        rw [Function.update_self]
        exact h.symm (hkeeps j (Ne.symm hj))
      · rw [Function.update_of_ne hk]
        exact hc.apart j k hjk

/-- **The outline rule.** An annotation that every step keeps holds in every
configuration an execution reaches. -/
theorem Outline.holds (h : Outline act inv at_ apart) (h₀ : Annotated inv at_ apart c₀)
    (hrun : Execution act c₀ events c) : Annotated inv at_ apart c := by
  induction hrun with
  | start => exact h₀
  | step run hact ih => exact h.step ih hact

/-- **The silence rule.** If a step that changes `f` leads to a program counter with
`wrote`, and no step leads out of those, an agent elsewhere has never changed `f`. -/
theorem Execution.unchanged {f : σ → γ} {wrote : π → Prop}
    (hwrite : ∀ {i s p s' p'}, act i s p s' p' → f s' ≠ f s → wrote p')
    (hstay : ∀ {i s p s' p'}, act i s p s' p' → wrote p → wrote p')
    (hrun : Execution act c₀ events c) {i : ι} (hi : ¬ wrote (c.pc i)) :
    ∀ e ∈ events, e.agent = i → f e.after = f e.before := by
  induction hrun generalizing i with
  | start =>
    intro e he
    exact absurd he List.not_mem_nil
  | @step events c k s p run hact ih =>
    intro e he hagent
    change ¬ wrote (Function.update c.pc k p i) at hi
    by_cases hk : i = k
    · subst hk
      rw [Function.update_self] at hi
      rcases List.mem_append.1 he with he | he
      · exact ih (fun hw => hi (hstay hact hw)) e he hagent
      · obtain rfl := List.mem_singleton.1 he
        by_contra hne
        exact hi (hwrite hact hne)
    · rw [Function.update_of_ne hk] at hi
      rcases List.mem_append.1 he with he | he
      · exact ih hi e he hagent
      · obtain rfl := List.mem_singleton.1 he
        exact absurd hagent.symm hk

/-- Where an event of an execution happened: the configuration before it, and the step. -/
theorem Execution.split (hrun : Execution act c₀ events c) {e : Event ι σ} (he : e ∈ events) :
    ∃ events' c' p, Execution act c₀ events' c' ∧ c'.shared = e.before ∧
      act e.agent e.before (c'.pc e.agent) e.after p := by
  induction hrun with
  | start => exact absurd he List.not_mem_nil
  | step run hact ih =>
    rcases List.mem_append.1 he with he | he
    · exact ih he
    · obtain rfl := List.mem_singleton.1 he
      exact ⟨_, _, _, run, rfl, hact⟩

/-- An execution, cut in two. -/
theorem Execution.cut {earlier later : List (Event ι σ)}
    (hrun : Execution act c₀ (earlier ++ later) c) :
    ∃ c', Execution act c₀ earlier c' ∧ Execution act c' later c := by
  generalize hall : earlier ++ later = events at hrun
  induction hrun generalizing later with
  | start =>
    obtain ⟨rfl, rfl⟩ := List.append_eq_nil_iff.1 hall
    exact ⟨c₀, .start, .start⟩
  | @step events c i s p run hact ih =>
    rcases List.eq_nil_or_concat' later with rfl | ⟨later', e, rfl⟩
    · rw [List.append_nil] at hall
      subst hall
      exact ⟨_, run.step hact, .start⟩
    · rw [← List.append_assoc] at hall
      obtain ⟨hrest, he⟩ := List.append_inj' hall rfl
      obtain rfl := List.singleton_inj.1 he
      obtain ⟨c', hearlier, hlater⟩ := ih hrest
      exact ⟨c', hearlier, hlater.step hact⟩

/-- The last event of an execution happens where the others lead, and ends where it does. -/
theorem Execution.last {earlier : List (Event ι σ)} {e : Event ι σ}
    (hrun : Execution act c₀ (earlier ++ [e]) c) :
    c.shared = e.after ∧ ∃ c', Execution act c₀ earlier c' ∧ c'.shared = e.before := by
  generalize hall : earlier ++ [e] = events at hrun
  cases hrun with
  | start => exact absurd hall (List.append_ne_nil_of_right_ne_nil _ (List.cons_ne_nil _ _))
  | step run hact =>
    obtain ⟨rfl, he⟩ := List.append_inj' hall rfl
    obtain rfl := List.singleton_inj.1 he
    exact ⟨rfl, _, run, rfl⟩

/-- What every event keeps holds throughout. -/
theorem Execution.preserved {inv : σ → Prop} (hrun : Execution act c₀ events c)
    (hstart : inv c₀.shared) (hkeep : ∀ e ∈ events, inv e.before → inv e.after) :
    inv c.shared ∧ ∀ e ∈ events, inv e.before := by
  induction hrun with
  | start => exact ⟨hstart, fun e he => absurd he List.not_mem_nil⟩
  | step run hact ih =>
    obtain ⟨hinv, hbefore⟩ := ih fun e he => hkeep e (List.mem_append_left _ he)
    have hlast := hkeep _ (List.mem_append_right _ (List.mem_singleton_self _)) hinv
    refine ⟨hlast, fun e he => ?_⟩
    rcases List.mem_append.1 he with he | he
    · exact hbefore e he
    · obtain rfl := List.mem_singleton.1 he
      exact hinv

/-- What holds after an event and is kept by those up to a later one holds before that. -/
theorem Execution.carried (inv : σ → Prop) (hrun : Execution act c₀ events c)
    {first last : Event ι σ} {between : List (Event ι σ)}
    (hbetween : Between events first between last) (hfirst : inv first.after)
    (hkeep : ∀ e ∈ between, inv e.before → inv e.after) : inv last.before := by
  obtain ⟨earlier, later, rfl⟩ := hbetween
  have hall : earlier ++ first :: (between ++ last :: later) =
      ((earlier ++ [first]) ++ (between ++ [last])) ++ later := by simp
  rw [hall] at hrun
  obtain ⟨_, hrun, -⟩ := hrun.cut
  obtain ⟨c₁, hrun₁, hrest⟩ := hrun.cut
  obtain ⟨-, c₂, hrun₂, hlast⟩ := hrest.last
  rw [← hlast]
  exact (hrun₂.preserved (hrun₁.last.1 ▸ hfirst) hkeep).1

/-- A preorder that every step respects holds from any event to the end. -/
theorem Execution.mono {r : σ → σ → Prop} [IsPreorder σ r]
    (hstep : ∀ {i s p s' p'}, act i s p s' p' → r s s') (hrun : Execution act c₀ events c)
    {e : Event ι σ} (he : e ∈ events) : r e.after c.shared := by
  induction hrun with
  | start => exact absurd he List.not_mem_nil
  | step run hact ih =>
    rcases List.mem_append.1 he with he | he
    · exact trans_of r (ih he) (hstep hact)
    · obtain rfl := List.mem_singleton.1 he
      exact refl_of r _

/-- An execution whose events are all `good` is one of the good steps. -/
theorem Execution.restrict {good : Event ι σ → Prop} (hrun : Execution act c₀ events c)
    (hgood : ∀ e ∈ events, good e) :
    Execution (fun i s p s' p' => act i s p s' p' ∧ good ⟨i, s, s'⟩) c₀ events c := by
  induction hrun with
  | start => exact .start
  | step run hact ih =>
    have hlast := hgood _ (List.mem_append_right _ (List.mem_singleton_self _))
    exact (ih fun e he => hgood e (List.mem_append_left _ he)).step ⟨hact, hlast⟩

/-- An execution of good steps is an execution, and its events are good. -/
theorem Execution.unrestrict {good : Event ι σ → Prop}
    (hrun : Execution (fun i s p s' p' => act i s p s' p' ∧ good ⟨i, s, s'⟩) c₀ events c) :
    Execution act c₀ events c ∧ ∀ e ∈ events, good e := by
  induction hrun with
  | start => exact ⟨.start, fun e he => absurd he List.not_mem_nil⟩
  | step run hact ih =>
    refine ⟨ih.1.step hact.1, fun e he => ?_⟩
    rcases List.mem_append.1 he with he | he
    · exact ih.2 e he
    · obtain rfl := List.mem_singleton.1 he
      exact hact.2

/-- The steps an agent takes on its own. -/
def Alone (act : Act ι σ π) (i : ι) : σ × π → σ × π → Prop :=
  Relation.ReflTransGen fun x y => act i x.1 x.2 y.1 y.2

omit [DecidableEq ι] in
theorem Alone.refl {i : ι} (x : σ × π) : Alone act i x x := Relation.ReflTransGen.refl

omit [DecidableEq ι] in
theorem Alone.next {i : ι} {x : σ × π} {s s' : σ} {p p' : π} (h : Alone act i x (s, p))
    (hact : act i s p s' p') : Alone act i x (s', p') := Relation.ReflTransGen.tail h hact

/-- An agent goes on alone from where an execution stands; the others stay. -/
theorem Execution.alone (hrun : Execution act c₀ events c) {i : ι} {y : σ × π}
    (h : Alone act i (c.shared, c.pc i) y) :
    ∃ events' c', Execution act c₀ events' c' ∧ c'.shared = y.1 ∧ c'.pc i = y.2 ∧
      ∀ j, j ≠ i → c'.pc j = c.pc j := by
  induction h with
  | refl => exact ⟨events, c, hrun, rfl, rfl, fun _ _ => rfl⟩
  | @tail y z _ hact ih =>
    obtain ⟨events', c', hrun', hshared, hpc, hothers⟩ := ih
    rw [← hshared, ← hpc] at hact
    refine ⟨_, _, hrun'.step hact, rfl, Function.update_self i z.2 c'.pc, fun j hj => ?_⟩
    exact (Function.update_of_ne hj z.2 c'.pc).trans (hothers j hj)

/-- What an agent does on its own, it does in some execution. -/
theorem Execution.of_alone {i : ι} {x : σ × π} (h : Alone act i (c₀.shared, c₀.pc i) x) :
    ∃ events c, Execution act c₀ events c ∧ c.shared = x.1 ∧ c.pc i = x.2 := by
  obtain ⟨events, c, hrun, hshared, hpc, -⟩ := Execution.start.alone h
  exact ⟨events, c, hrun, hshared, hpc⟩

end Rules

/-! ## Locks -/

/-- Who holds each lock. -/
abbrev Locks (κ ι : Type*) := κ → Option ι

namespace Locks

variable {κ : Type*} [DecidableEq κ] [DecidableEq ι] {l : Locks κ ι} {i j : ι} {k k' : κ}

def acquire (l : Locks κ ι) (k : κ) (i : ι) : Locks κ ι := Function.update l k (some i)

/-- Release whatever the agent holds. -/
def releaseAll (l : Locks κ ι) (i : ι) : Locks κ ι := fun k => if l k = some i then none else l k

omit [DecidableEq ι] in
theorem acquire_self : l.acquire k i k = some i := Function.update_self ..

omit [DecidableEq ι] in
/-- Acquiring a free lock takes nothing from its holders. -/
theorem acquire_keeps (hfree : l k = none) (h : l k' = some j) : l.acquire k i k' = some j := by
  have hne : k' ≠ k := by
    rintro rfl
    exact absurd (hfree.symm.trans h) nofun
  rw [acquire, Function.update_of_ne hne, h]

omit [DecidableEq κ] in
/-- Releasing takes nothing from the other agents. -/
theorem releaseAll_keeps (hij : i ≠ j) (h : l k = some j) : l.releaseAll i k = some j := by
  have hne : l k ≠ some i := by
    rw [h]
    exact fun heq => hij (Option.some.inj heq).symm
  rw [releaseAll, if_neg hne, h]

end Locks

end Interleaving
