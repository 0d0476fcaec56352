/-
# Names that are given up for good

An entity goes by names; a name it gives up is retired, and leads to the entity from then on.
`Step` says what may happen at once: names are given up by retiring them, and only a name that
is not retired is taken.

Then a name, live or retired, leads to one entity, and to the same one ever after.
-/
import Mathlib.Logic.Basic

/-- Which names are live, which are retired, and for whom. -/
@[ext] structure Names (κ ε : Type*) where
  live : κ → ε → Prop
  retired : κ → ε → Prop

namespace Names

variable {κ ε : Type*} {n n' : Names κ ε}

/-- The entity goes by the name, or did. -/
def Known (n : Names κ ε) (k : κ) (e : ε) : Prop := n.live k e ∨ n.retired k e

/-- A name is live for one entity, retired for one, and not live for another one than it is
retired for. -/
structure Sound (n : Names κ ε) : Prop where
  live : ∀ k e e', n.live k e → n.live k e' → e = e'
  retired : ∀ k e e', n.retired k e → n.retired k e' → e = e'
  agree : ∀ k e e', n.live k e → n.retired k e' → e = e'

/-- What may happen at once. -/
structure Step (n n' : Names κ ε) : Prop where
  unique : ∀ k e e', n'.live k e → n'.live k e' → e = e'
  kept : ∀ k e, n.retired k e → n'.retired k e
  /-- A name that is given up is retired. -/
  left : ∀ k e, n.live k e → n'.live k e ∨ n'.retired k e
  /-- A name that is taken is not retired. -/
  taken : ∀ k e, n'.live k e → n.live k e ∨ ∀ e', ¬ n.retired k e'
  /-- A name that is retired was live and is not any more. -/
  given : ∀ k e, n'.retired k e → n.retired k e ∨ (n.live k e ∧ ∀ e', ¬ n'.live k e')

/-- Nothing happens. -/
theorem Sound.step_refl (h : n.Sound) : n.Step n where
  unique := h.live
  kept _ _ hk := hk
  left _ _ hk := Or.inl hk
  taken _ _ hk := Or.inl hk
  given _ _ hk := Or.inl hk

/-- A free name is taken. -/
def take (n : Names κ ε) (k : κ) (e : ε) : Names κ ε where
  live k' e' := n.live k' e' ∨ (k' = k ∧ e' = e)
  retired := n.retired

/-- A name is retired. -/
def giveUp (n : Names κ ε) (k : κ) (e : ε) : Names κ ε where
  live k' e' := n.live k' e' ∧ k' ≠ k
  retired k' e' := n.retired k' e' ∨ (k' = k ∧ e' = e)

/-- Taking a name that nobody has or had is a step. -/
theorem Sound.step_take (h : n.Sound) {k : κ} {e : ε} (hlive : ∀ e', ¬ n.live k e')
    (hretired : ∀ e', ¬ n.retired k e') : n.Step (n.take k e) where
  unique := by
    rintro k' a b (ha | ⟨rfl, rfl⟩) (hb | ⟨hk, rfl⟩)
    · exact h.live k' a b ha hb
    · rw [hk] at ha
      exact absurd ha (hlive a)
    · exact absurd hb (hlive b)
    · rfl
  kept _ _ hk := hk
  left _ _ hk := Or.inl (Or.inl hk)
  taken := by
    rintro k' e' (hold | ⟨rfl, -⟩)
    · exact Or.inl hold
    · exact Or.inr hretired
  given _ _ hk := Or.inl hk

theorem Sound.step_giveUp (h : n.Sound) {k : κ} {e : ε} (hlive : n.live k e) :
    n.Step (n.giveUp k e) where
  unique k' a b ha hb := h.live k' a b ha.1 hb.1
  kept _ _ hk := Or.inl hk
  left := by
    intro k' e' hold
    by_cases hk : k' = k
    · subst hk
      exact Or.inr (Or.inr ⟨rfl, h.live k' e' e hold hlive⟩)
    · exact Or.inl ⟨hold, hk⟩
  taken _ _ hk := Or.inl hk.1
  given := by
    rintro k' e' (hold | ⟨rfl, rfl⟩)
    · exact Or.inl hold
    · exact Or.inr ⟨hlive, fun _ hfree => hfree.2 rfl⟩

/-- An entity that goes by one name goes on by another, free one. -/
theorem Sound.step_move (h : n.Sound) {k k' : κ} {e : ε} (hlive : n.live k e)
    (hfree : ∀ e', ¬ n.live k' e') (hretired : ∀ e', ¬ n.retired k' e') :
    n.Step ((n.giveUp k e).take k' e) where
  unique := by
    rintro x a b (ha | ⟨rfl, rfl⟩) (hb | ⟨hx, rfl⟩)
    · exact h.live x a b ha.1 hb.1
    · rw [hx] at ha
      exact absurd ha.1 (hfree a)
    · exact absurd hb.1 (hfree b)
    · rfl
  kept _ _ hx := Or.inl hx
  left := by
    intro x a ha
    rcases (h.step_giveUp hlive).left x a ha with hstill | hgone
    · exact Or.inl (Or.inl hstill)
    · exact Or.inr hgone
  taken := by
    rintro x a (ha | ⟨rfl, -⟩)
    · exact Or.inl ha.1
    · exact Or.inr hretired
  given := by
    rintro x a (hold | ⟨rfl, rfl⟩)
    · exact Or.inl hold
    · refine Or.inr ⟨hlive, ?_⟩
      rintro b (hb | ⟨rfl, -⟩)
      · exact hb.2 rfl
      · exact hfree a hlive

/-- **A step keeps the names sound.** -/
theorem Step.sound (hstep : n.Step n') (h : n.Sound) : n'.Sound where
  live := hstep.unique
  retired := by
    intro k e e' he he'
    rcases hstep.given k e he with hold | ⟨hlive, -⟩
    · rcases hstep.given k e' he' with hold' | ⟨hlive', -⟩
      · exact h.retired k e e' hold hold'
      · exact (h.agree k e' e hlive' hold).symm
    · rcases hstep.given k e' he' with hold' | ⟨hlive', -⟩
      · exact h.agree k e e' hlive hold'
      · exact h.live k e e' hlive hlive'
  agree := by
    intro k e e' he he'
    rcases hstep.given k e' he' with hold | ⟨-, hfree⟩
    · rcases hstep.taken k e he with hlive | hnever
      · exact h.agree k e e' hlive hold
      · exact absurd hold (hnever e')
    · exact absurd he (hfree e)

/-- A name an entity goes by, or went by, stays known as its own. -/
theorem Known.step {k : κ} {e : ε} (h : n.Known k e) (hstep : n.Step n') : n'.Known k e := by
  rcases h with hlive | hretired
  · exact hstep.left k e hlive
  · exact Or.inr (hstep.kept k e hretired)

/-- **A name leads to one entity.** -/
theorem Sound.known_unique (h : n.Sound) {k : κ} {e e' : ε} (he : n.Known k e)
    (he' : n.Known k e') : e = e' := by
  rcases he with hlive | hretired
  · rcases he' with hlive' | hretired'
    · exact h.live k e e' hlive hlive'
    · exact h.agree k e e' hlive hretired'
  · rcases he' with hlive' | hretired'
    · exact (h.agree k e' e hlive' hretired).symm
    · exact h.retired k e e' hretired hretired'

end Names
