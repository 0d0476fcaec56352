/-
# Fixed-width decimals

Numbers written with zeros on the left to a fixed width order as text as they order as numbers,
and a text of such fields orders as the list of their values (`render_lt`).
-/
import Mathlib

namespace FixedWidth

/-! ## One field -/

/-- `{n:0width}`. -/
def padded (width n : ℕ) : List Char :=
  List.replicate (width - (Nat.toDigits 10 n).length) '0' ++ Nat.toDigits 10 n

/-- The last `width` digits. -/
def digits : ℕ → ℕ → List Char
  | 0, _ => []
  | width + 1, n => digits width (n / 10) ++ [Nat.digitChar (n % 10)]

theorem length_digits (width n : ℕ) : (digits width n).length = width := by
  induction width generalizing n with
  | zero => rfl
  | succ width ih => rw [digits, List.length_append, ih, List.length_singleton]

/-- A number that fits is padded to the width. -/
theorem padded_eq_digits {width n : ℕ} (h : n < 10 ^ (width + 1)) :
    padded (width + 1) n = digits (width + 1) n := by
  induction width generalizing n with
  | zero =>
    have hn : n < 10 := h
    rw [padded, Nat.toDigits_of_lt_base hn, digits, Nat.mod_eq_of_lt hn]
    rfl
  | succ width ih =>
    by_cases hn : n < 10
    · have hzero : padded (width + 1) 0 = digits (width + 1) 0 := ih (Nat.pow_pos (by decide))
      rw [padded, Nat.toDigits_zero] at hzero
      rw [padded, Nat.toDigits_of_lt_base hn, digits, Nat.mod_eq_of_lt hn, Nat.div_eq_of_lt hn,
        ← hzero]
      show List.replicate (width + 1) '0' ++ _ = List.replicate width '0' ++ ['0'] ++ _
      rw [List.replicate_succ']
    · have hdiv : n / 10 < 10 ^ (width + 1) := by
        rw [Nat.div_lt_iff_lt_mul (by decide)]
        rwa [Nat.pow_succ] at h
      rw [digits, ← ih hdiv, padded, padded, Nat.toDigits_of_base_le (by decide) (by omega),
        List.length_append, List.length_singleton, Nat.add_sub_add_right, List.append_assoc]

/-! ## The order of texts -/

/-- Texts of one length compare before what follows them. -/
theorem append_lt_append {a b : List Char} (h : a < b) (hlen : a.length = b.length)
    (rest rest' : List Char) : a ++ rest < b ++ rest' := by
  induction a generalizing b with
  | nil =>
    cases b with
    | nil => exact absurd h (List.lt_irrefl _)
    | cons d b => cases hlen
  | cons c a ih =>
    cases b with
    | nil => cases hlen
    | cons d b =>
      rw [List.cons_append, List.cons_append, List.cons_lt_cons_iff]
      rw [List.cons_lt_cons_iff] at h
      rcases h with h | ⟨rfl, h⟩
      · exact .inl h
      · exact .inr ⟨rfl, ih h (Nat.succ.inj hlen)⟩

theorem digitChar_lt {a b : ℕ} (h : a < b) (hb : b < 10) : Nat.digitChar a < Nat.digitChar b := by
  have hall : ∀ b < 10, ∀ a < b, Nat.digitChar a < Nat.digitChar b := by decide
  exact hall b hb a h

/-- **The smaller number is the smaller text.** -/
theorem digits_lt {width n m : ℕ} (h : n < m) (hm : m < 10 ^ width) :
    digits width n < digits width m := by
  induction width generalizing n m with
  | zero =>
    rw [Nat.pow_zero] at hm
    omega
  | succ width ih =>
    have hdiv : m / 10 < 10 ^ width := by
      rw [Nat.div_lt_iff_lt_mul (by decide)]
      rwa [Nat.pow_succ] at hm
    rw [digits, digits]
    by_cases hlt : n / 10 < m / 10
    · exact append_lt_append (ih hlt hdiv) (by rw [length_digits, length_digits]) _ _
    · have heq : n / 10 = m / 10 := by omega
      rw [heq]
      refine List.append_left_lt (List.cons_lt_cons_iff.2 (.inl ?_))
      exact digitChar_lt (by omega) (Nat.mod_lt _ (by decide))

/-! ## A text of fields -/

/-- The values in the widths of a layout, each with the text behind it. -/
def render : List (ℕ × List Char) → List ℕ → List Char
  | (width, behind) :: layout, v :: values => padded width v ++ (behind ++ render layout values)
  | _, _ => []

/-- Every value fits its width. -/
def Fits : List (ℕ × List Char) → List ℕ → Prop :=
  List.Forall₂ fun field v => 0 < field.1 ∧ v < 10 ^ field.1

/-- **A text of fields orders as the values do.** -/
theorem render_lt {layout : List (ℕ × List Char)} {values values' : List ℕ}
    (hfits : Fits layout values) (hfits' : Fits layout values') (h : values < values') :
    render layout values < render layout values' := by
  induction hfits generalizing values' with
  | nil =>
    cases hfits'
    exact absurd h (List.lt_irrefl _)
  | @cons field v layout values hv _ ih =>
    cases hfits' with
    | @cons _ v' _ values' hv' hrest' =>
      obtain ⟨width, behind⟩ := field
      obtain ⟨width, rfl⟩ : ∃ w, width = w + 1 := ⟨width - 1, by have := hv.1; omega⟩
      rw [render, render]
      rw [List.cons_lt_cons_iff] at h
      rcases h with h | ⟨rfl, h⟩
      · rw [padded_eq_digits hv.2, padded_eq_digits hv'.2]
        exact append_lt_append (digits_lt h hv'.2) (by rw [length_digits, length_digits]) _ _
      · exact List.append_left_lt (List.append_left_lt (ih hrest' h))

end FixedWidth
