/-
# Ceilings where NULL means unbounded

A nullable column used as an upper limit: a value is a ceiling, NULL is no
ceiling at all.  Read in `WithTop`, NULL is the top element, so "the most
permissive of several ceilings" is a supremum.

A *grant* carries one ceiling per axis.  What a group of grants gives together
is their supremum in `WithBot (WithTop α × WithTop β)`: bottom is "nothing
granted", and each axis takes its own most permissive value.
-/
import Mathlib

namespace Ceiling

variable {α β : Type*}

/-- A nullable ceiling in the order with a top: NULL is no ceiling. -/
def axis : Option α → WithTop α
  | none => ⊤
  | some a => (a : WithTop α)

@[simp] theorem axis_none : axis (none : Option α) = ⊤ := rfl

@[simp] theorem axis_some (a : α) : axis (some a) = (a : WithTop α) := rfl

/-- The end of an axis determines the limit. -/
theorem axis_injective : Function.Injective (axis : Option α → WithTop α) := by
  rintro (_ | a) (_ | b) h
  · rfl
  · exact absurd h WithTop.top_ne_coe
  · exact absurd h WithTop.coe_ne_top
  · rw [WithTop.coe_injective h]

theorem axis_surjective : Function.Surjective (axis : Option α → WithTop α) := by
  intro c
  cases c with
  | top => exact ⟨none, rfl⟩
  | coe a => exact ⟨some a, rfl⟩

/-- An axis is open where there is no limit. -/
theorem axis_eq_top_iff (x : Option α) : axis x = ⊤ ↔ x = none :=
  ⟨fun h => axis_injective h, fun h => by rw [h, axis_none]⟩

/-- The more permissive of two ceilings: NULL wins, else the greater value. -/
def widest [Max α] : Option α → Option α → Option α
  | some a, some b => some (max a b)
  | _, _ => none

/-- The most permissive ceiling of a group: NULL when some member is NULL, else
the maximum. -/
def union [Max α] (xs : List (Option α)) : Option α :=
  if xs.any Option.isNone then none else xs.reduceOption.max?

/-- A nullable ceiling applied to a value: NULL lets everything through. -/
def admits [LE α] [DecidableLE α] (c : Option α) (x : α) : Bool :=
  match c with
  | none => true
  | some a => decide (x ≤ a)

section LinearOrder

variable [LinearOrder α] [LinearOrder β]

/-- The widest of two limits reaches as far as either. -/
@[simp] theorem axis_widest (x y : Option α) : axis (widest x y) = axis x ⊔ axis y := by
  cases x with
  | none => cases y <;> simp [widest]
  | some a =>
      cases y with
      | none => simp [widest]
      | some b => rw [widest, axis_some, axis_some, axis_some, ← WithTop.coe_max]

/-- The union of a nonempty group is its greatest ceiling. -/
theorem isGreatest_axis_union {xs : List (Option α)} (h : xs ≠ []) :
    IsGreatest {c | ∃ x ∈ xs, axis x = c} (axis (union xs)) := by
  unfold union
  by_cases hany : xs.any Option.isNone = true
  · rw [if_pos hany]
    obtain ⟨x, hx, hnone⟩ := List.any_eq_true.1 hany
    rw [Option.isNone_iff_eq_none] at hnone
    exact ⟨⟨x, hx, by rw [hnone]⟩, fun c _ => le_top⟩
  · rw [if_neg hany]
    have hsome : ∀ x ∈ xs, ∃ a, x = some a := by
      intro x hx
      refine Option.ne_none_iff_exists'.1 fun hn => hany ?_
      exact List.any_eq_true.2 ⟨x, hx, by rw [hn]; rfl⟩
    have hmem : ∀ a, a ∈ xs.reduceOption ↔ some a ∈ xs := fun a => List.reduceOption_mem_iff
    cases hmax : xs.reduceOption.max? with
    | none =>
        obtain ⟨x, hx⟩ := List.exists_mem_of_ne_nil xs h
        obtain ⟨a, rfl⟩ := hsome x hx
        rw [List.max?_eq_none_iff] at hmax
        exact absurd ((hmem a).2 hx) (by rw [hmax]; exact List.not_mem_nil)
    | some m =>
        have hm := List.max?_eq_some_iff.1 hmax
        refine ⟨⟨some m, (hmem m).1 hm.1, rfl⟩, ?_⟩
        rintro c ⟨x, hx, rfl⟩
        obtain ⟨a, rfl⟩ := hsome x hx
        exact WithTop.coe_le_coe.2 (hm.2 a ((hmem a).2 hx))

/-! ## What a group of grants gives -/

/-- One ceiling per axis, NULL axes read as unbounded. -/
def both (g : Option α × Option β) : WithTop α × WithTop β := (axis g.1, axis g.2)

/-- What a group of grants gives together: nothing when it is empty, else the
supremum on each axis. -/
def reach (gs : List (WithTop α × WithTop β)) : WithBot (WithTop α × WithTop β) :=
  (Multiset.ofList (gs.map WithBot.some)).sup

/-- A reach is bounded where each of its ceilings is. -/
theorem reach_le_iff (gs : List (WithTop α × WithTop β)) (c : WithBot (WithTop α × WithTop β)) :
    reach gs ≤ c ↔ ∀ g ∈ gs, (g : WithBot (WithTop α × WithTop β)) ≤ c := by
  rw [reach, Multiset.sup_le]
  constructor
  · intro h g hg
    exact h _ (Multiset.mem_coe.2 (List.mem_map_of_mem hg))
  · intro h b hb
    obtain ⟨g, hg, rfl⟩ := List.mem_map.1 (Multiset.mem_coe.1 hb)
    exact h g hg

@[simp] theorem reach_nil : reach ([] : List (WithTop α × WithTop β)) = ⊥ := rfl

theorem reach_cons (g : WithTop α × WithTop β) (gs : List (WithTop α × WithTop β)) :
    reach (g :: gs) = (g : WithBot (WithTop α × WithTop β)) ⊔ reach gs := by
  unfold reach
  rw [List.map_cons, ← Multiset.cons_coe, Multiset.sup_cons]

theorem coe_le_reach {g : WithTop α × WithTop β} {gs : List (WithTop α × WithTop β)}
    (h : g ∈ gs) : (g : WithBot (WithTop α × WithTop β)) ≤ reach gs :=
  (reach_le_iff gs (reach gs)).1 le_rfl g h

/-- A reach is nowhere where there is no ceiling. -/
theorem reach_eq_bot_iff (gs : List (WithTop α × WithTop β)) : reach gs = ⊥ ↔ gs = [] := by
  cases gs with
  | nil => simp
  | cons g gs =>
      have hne : reach (g :: gs) ≠ ⊥ := by
        intro h
        have := coe_le_reach (List.mem_cons_self (a := g) (l := gs))
        rw [h, le_bot_iff] at this
        exact WithBot.coe_ne_bot this
      simp [hne]

/-- A group reaches a pair of ceilings exactly when, on each axis, one of its
grants does: the two grants need not be the same. -/
theorem coe_le_reach_iff (c : WithTop α × WithTop β) (gs : List (WithTop α × WithTop β)) :
    (c : WithBot (WithTop α × WithTop β)) ≤ reach gs ↔
      (∃ g ∈ gs, c.1 ≤ g.1) ∧ ∃ g ∈ gs, c.2 ≤ g.2 := by
  induction gs generalizing c with
  | nil => simp
  | cons g gs ih =>
      rw [reach_cons]
      cases hr : reach gs with
      | bot =>
          rw [reach_eq_bot_iff] at hr
          subst hr
          simp [Prod.le_def]
      | coe s =>
          simp only [hr, WithBot.coe_le_coe, Prod.le_def] at ih
          -- the supremum `s` is reached on both axes, so each axis can be read off alone
          have hs := (ih s).1 ⟨le_rfl, le_rfl⟩
          have hfst : c.1 ≤ s.1 ↔ ∃ g ∈ gs, c.1 ≤ g.1 := by
            have h := ih (c.1, s.2)
            simpa only [le_refl, and_true, iff_true_intro hs.2] using h
          have hsnd : c.2 ≤ s.2 ↔ ∃ g ∈ gs, c.2 ≤ g.2 := by
            have h := ih (s.1, c.2)
            simpa only [le_refl, true_and, iff_true_intro hs.1] using h
          rw [← WithBot.coe_sup, WithBot.coe_le_coe, Prod.le_def, Prod.fst_sup, Prod.snd_sup,
            le_sup_iff, le_sup_iff, hfst, hsnd]
          simp only [List.mem_cons, exists_eq_or_imp]

/-- The supremum of a nonempty group is the union of its ceilings, axis by axis. -/
theorem reach_eq_union {gs : List (Option α × Option β)} (h : gs ≠ []) :
    reach (gs.map both) =
      (both (union (gs.map Prod.fst), union (gs.map Prod.snd)) : WithTop α × WithTop β) := by
  have h1 : gs.map Prod.fst ≠ [] := by simpa using h
  have h2 : gs.map Prod.snd ≠ [] := by simpa using h
  obtain ⟨⟨x, hx, hxmax⟩, hxub⟩ := isGreatest_axis_union h1
  obtain ⟨⟨y, hy, hymax⟩, hyub⟩ := isGreatest_axis_union h2
  apply le_antisymm
  · rw [reach_le_iff]
    intro g hg
    obtain ⟨e, he, rfl⟩ := List.mem_map.1 hg
    rw [WithBot.coe_le_coe]
    exact ⟨hxub ⟨e.1, List.mem_map_of_mem he, rfl⟩, hyub ⟨e.2, List.mem_map_of_mem he, rfl⟩⟩
  · rw [coe_le_reach_iff]
    obtain ⟨e, he, rfl⟩ := List.mem_map.1 hx
    obtain ⟨f, hf, rfl⟩ := List.mem_map.1 hy
    exact ⟨⟨both e, List.mem_map_of_mem he, hxmax.ge⟩, ⟨both f, List.mem_map_of_mem hf, hymax.ge⟩⟩

end LinearOrder

end Ceiling
