/-
# Counters in balance with what they count

A counter is kept for each key of a store, next to the things it counts.  The counters are in
balance when each equals the number of things under its key, and nothing is counted under a
key without a counter.

Three rules cover every change: counters and things move by the same amount, a counter is
added at zero, a counter at zero is dropped.
-/
import Mathlib.Algebra.Order.Ring.Int
import Mathlib.Tactic

/-- Each counter equals the number of things under its key; a key without a counter has none. -/
def InBalance {κ : Type*} (counter : κ → Option ℤ) (things : κ → ℕ) : Prop :=
  ∀ k, ((counter k).getD 0 = things k)

namespace InBalance

variable {κ : Type*} {counter counter' : κ → Option ℤ} {things things' : κ → ℕ}

/-- A counter is the number of its things. -/
theorem counter_eq (h : InBalance counter things) {k : κ} {c : ℤ} (hk : counter k = some c) :
    c = things k := by
  have hk' := h k
  rwa [hk] at hk'

theorem counter_nonneg (h : InBalance counter things) {k : κ} {c : ℤ} (hk : counter k = some c) :
    0 ≤ c := by
  rw [h.counter_eq hk]
  exact Int.natCast_nonneg _

theorem things_eq_zero (h : InBalance counter things) {k : κ} (hk : counter k = none) :
    things k = 0 := by
  have hk' := h k
  rw [hk] at hk'
  exact (Int.natCast_eq_zero.1 hk'.symm)

/-- What is counted has a counter. -/
theorem counter_isSome (h : InBalance counter things) {k : κ} (hk : 0 < things k) :
    (counter k).isSome := by
  rw [Option.isSome_iff_ne_none]
  exact fun hnone => hk.ne' (h.things_eq_zero hnone)

/-- **The shift rule.** Counters and things move by the same amount, and nothing new appears
under a key without a counter. -/
theorem shift (h : InBalance counter things)
    (hcounter : ∀ k, counter' k = (counter k).map fun c => c + ((things' k : ℤ) - things k))
    (hnew : ∀ k, counter k = none → things' k = 0) : InBalance counter' things' := by
  intro k
  rw [hcounter k]
  cases hk : counter k with
  | none =>
    rw [hnew k hk]
    rfl
  | some c =>
    show c + ((things' k : ℤ) - things k) = things' k
    rw [h.counter_eq hk]
    ring

/-- Things that go leave nothing under a key without a counter. -/
theorem shift_of_le (h : InBalance counter things)
    (hcounter : ∀ k, counter' k = (counter k).map fun c => c + ((things' k : ℤ) - things k))
    (hle : ∀ k, things' k ≤ things k) : InBalance counter' things' :=
  h.shift hcounter fun k hk => Nat.eq_zero_of_le_zero ((hle k).trans (h.things_eq_zero hk).le)

/-- The counters that are there stay, and those added start at zero. -/
theorem create (h : InBalance counter things)
    (hkept : ∀ k c, counter k = some c → counter' k = some c)
    (hnew : ∀ k, counter k = none → (counter' k).getD 0 = 0) : InBalance counter' things := by
  intro k
  cases hk : counter k with
  | none =>
    rw [hnew k hk, h.things_eq_zero hk]
    rfl
  | some c =>
    rw [hkept k c hk]
    exact h.counter_eq hk

/-- Only counters at zero are dropped. -/
theorem drop (h : InBalance counter things)
    (hdrop : ∀ k, counter' k = counter k ∨ (counter k).getD 0 = 0 ∧ counter' k = none) :
    InBalance counter' things := by
  intro k
  rcases hdrop k with hsame | ⟨hzero, hnone⟩
  · rw [hsame]
    exact h k
  · rw [hnone, ← h k, hzero]
    rfl

end InBalance
