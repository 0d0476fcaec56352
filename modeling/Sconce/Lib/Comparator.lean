/-
# Comparators

When a three-way comparison orders a set of values, what a sort needs of it there, and the
ranks it gives to the members of a list.
-/
import Mathlib.Data.Set.Basic
import Mathlib.Order.Compare
import Mathlib.Data.List.Sort

variable {α : Type}

/-- Sorting by a decidable total preorder puts a list in order. -/
theorem pairwise_mergeSort_of {r : α → α → Prop} [DecidableRel r]
    (htrans : ∀ a b c, r a b → r b c → r a c) (htotal : ∀ a b, r a b ∨ r b a) (l : List α) :
    (l.mergeSort fun a b => decide (r a b)).Pairwise r := by
  refine (List.pairwise_mergeSort (fun a b c hab hbc => ?_) (fun a b => ?_) l).imp
    of_decide_eq_true
  · exact decide_eq_true (htrans a b c (of_decide_eq_true hab) (of_decide_eq_true hbc))
  · rw [Bool.or_eq_true, decide_eq_true_eq, decide_eq_true_eq]
    exact htotal a b

/-- The comparator is a total preorder on the values of the set. -/
structure OrdersOn (cmp : α → α → Ordering) (S : Set α) : Prop where
  antisymm : ∀ a ∈ S, ∀ b ∈ S, cmp b a = (cmp a b).swap
  trans : ∀ a ∈ S, ∀ b ∈ S, ∀ c ∈ S,
    (cmp a b).isLE = true → (cmp b c).isLE = true → (cmp a c).isLE = true

namespace OrdersOn

variable {cmp : α → α → Ordering} {S : Set α}

/-- An element compares as equal to itself. -/
theorem self (h : OrdersOn cmp S) {a : α} (ha : a ∈ S) : cmp a a = .eq := by
  have hswap := h.antisymm a ha a ha
  cases hcmp : cmp a a <;> simp [hcmp] at hswap ⊢

/-- What is not above is below the other way round. -/
theorem not_lt_iff (h : OrdersOn cmp S) {a b : α} (ha : a ∈ S) (hb : b ∈ S) :
    cmp b a ≠ .lt ↔ (cmp a b).isLE = true := by
  rw [h.antisymm a ha b hb]
  cases cmp a b <;> simp

theorem lt_of_lt_of_le (h : OrdersOn cmp S) {a b c : α} (ha : a ∈ S) (hb : b ∈ S) (hc : c ∈ S)
    (hab : cmp a b = .lt) (hbc : (cmp b c).isLE = true) : cmp a c = .lt := by
  by_contra hnot
  have hca := (h.not_lt_iff hc ha).1 hnot
  have hba := h.trans b hb c hc a ha hbc hca
  exact (h.not_lt_iff hb ha).2 hba hab

/-- How many members of a list are below a value. -/
def rankIn (cmp : α → α → Ordering) (l : List α) (a : α) : ℕ :=
  l.countP fun b => cmp b a == .lt

variable {l : List α}

theorem rankIn_le (h : OrdersOn cmp {a | a ∈ l}) {a b : α} (ha : a ∈ l) (hb : b ∈ l)
    (hab : (cmp a b).isLE = true) : rankIn cmp l a ≤ rankIn cmp l b := by
  unfold rankIn
  apply List.countP_mono_left
  intro c hc hlt
  rw [beq_iff_eq] at hlt ⊢
  exact h.lt_of_lt_of_le hc ha hb hlt hab

theorem rankIn_lt (h : OrdersOn cmp {a | a ∈ l}) {a b : α} (ha : a ∈ l) (hb : b ∈ l)
    (hab : cmp a b = .lt) : rankIn cmp l a < rankIn cmp l b := by
  -- the value itself is counted below the higher one only
  obtain ⟨before, after, rfl⟩ := List.append_of_mem ha
  have hself : cmp a a = .eq := h.self ha
  have hle : ∀ c ∈ before ++ a :: after, (cmp c a == .lt) = true → (cmp c b == .lt) = true := by
    intro c hc hlt
    rw [beq_iff_eq] at hlt ⊢
    exact h.lt_of_lt_of_le hc ha hb hlt (by rw [hab]; rfl)
  have hbefore : before.countP (fun c => cmp c a == .lt) ≤ before.countP fun c => cmp c b == .lt :=
    List.countP_mono_left fun c hc => hle c (List.mem_append_left _ hc)
  have hafter : after.countP (fun c => cmp c a == .lt) ≤ after.countP fun c => cmp c b == .lt :=
    List.countP_mono_left fun c hc => hle c (List.mem_append_right _ (List.mem_cons_of_mem _ hc))
  unfold rankIn
  rw [List.countP_append, List.countP_append, List.countP_cons, List.countP_cons, hself, hab]
  simp only [reduceCtorEq, beq_iff_eq, if_false, if_true]
  omega

/-- **A comparator that orders a list compares ranks** of its members. -/
theorem compare_rankIn (h : OrdersOn cmp {a | a ∈ l}) {a b : α} (ha : a ∈ l) (hb : b ∈ l) :
    cmp a b = compare (rankIn cmp l a) (rankIn cmp l b) := by
  symm
  cases hcmp : cmp a b with
  | lt => exact compare_lt_iff_lt.2 (h.rankIn_lt ha hb hcmp)
  | eq =>
    have hba : cmp b a = .eq := by rw [h.antisymm a ha b hb, hcmp]; rfl
    exact compare_eq_iff_eq.2 (le_antisymm (h.rankIn_le ha hb (by rw [hcmp]; rfl))
      (h.rankIn_le hb ha (by rw [hba]; rfl)))
  | gt =>
    have hba : cmp b a = .lt := by rw [h.antisymm a ha b hb, hcmp]; rfl
    exact compare_gt_iff_gt.2 (h.rankIn_lt hb ha hba)

/-- Sorting by a comparator that orders the list puts it in order. -/
theorem pairwise_mergeSort (h : OrdersOn cmp {a | a ∈ l}) :
    (l.mergeSort fun a b => (cmp a b).isLE).Pairwise fun a b => (cmp a b).isLE = true := by
  have hrank : (l.mergeSort fun a b => (cmp a b).isLE)
      = l.mergeSort fun a b => decide (rankIn cmp l a ≤ rankIn cmp l b) := by
    conv_lhs => rw [← List.map_id (List.mergeSort _ _)]
    rw [List.map_mergeSort (s := fun a b => decide (rankIn cmp l a ≤ rankIn cmp l b)), List.map_id]
    intro a ha b hb
    rw [h.compare_rankIn ha hb]
    exact Bool.eq_iff_iff.2 (by simp [Nat.isLE_compare])
  have hsorted : (l.mergeSort fun a b => decide (rankIn cmp l a ≤ rankIn cmp l b)).Pairwise
      fun a b => rankIn cmp l a ≤ rankIn cmp l b := by
    refine pairwise_mergeSort_of ?_ ?_ l
    · exact fun _ _ _ => le_trans
    · exact fun _ _ => le_total _ _
  rw [hrank]
  refine List.Pairwise.imp_of_mem ?_ hsorted
  intro a b ha hb hab
  rw [h.compare_rankIn (List.mem_mergeSort.1 ha) (List.mem_mergeSort.1 hb), Nat.isLE_compare]
  exact hab

end OrdersOn
