/-
# Folding with joins

A fold that joins something to its accumulator at every member of a list ends at the least upper
bound, so it depends only on which members the list has: not on their order, and not on how often
one occurs.
-/
import Mathlib.Order.Lattice
import Mathlib.Data.List.Perm.Basic

namespace List

variable {α β : Type*} [SemilatticeSup β] {step : β → α → β} {floor : α → β}

/-- The fold is bounded by what bounds its start and every member's contribution. -/
theorem foldl_le_iff (hstep : ∀ b a, step b a = b ⊔ floor a) {b u : β} {l : List α} :
    l.foldl step b ≤ u ↔ b ≤ u ∧ ∀ a ∈ l, floor a ≤ u := by
  induction l generalizing b with
  | nil => exact ⟨fun h => ⟨h, nofun⟩, And.left⟩
  | cons a l ih =>
    rw [foldl_cons, ih, hstep, sup_le_iff, forall_mem_cons, and_assoc]

theorem le_foldl (hstep : ∀ b a, step b a = b ⊔ floor a) (b : β) (l : List α) :
    b ≤ l.foldl step b :=
  ((foldl_le_iff hstep).1 le_rfl).1

/-- Lists with the same members have the same fold. -/
theorem foldl_eq_of_mem_iff (hstep : ∀ b a, step b a = b ⊔ floor a) (b : β) {l l' : List α}
    (h : ∀ a, a ∈ l ↔ a ∈ l') : l.foldl step b = l'.foldl step b := by
  refine eq_of_forall_ge_iff fun u => ?_
  rw [foldl_le_iff hstep, foldl_le_iff hstep]
  exact and_congr_right fun _ => forall_congr' fun a => imp_congr_left (h a)

end List
