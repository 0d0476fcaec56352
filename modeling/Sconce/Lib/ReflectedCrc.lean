/-
# Reflected checksums

A register of bits stands for a polynomial over GF(2), the coefficient of `X ^ k` being the bit `k`
places below the most significant one.  Shifting it right by one place, and adding the taps where
a bit falls out, multiplies by `X` modulo the generator (`poly_shift`).

Bytes added to the low end and shifted through leave the remainder of the message they are,
lowest bit first, behind what the register held (`poly_run`).
-/
import Mathlib

namespace ReflectedCrc

open Polynomial

variable {w : ℕ}

/-! ## Registers as polynomials -/

/-- A bit as a coefficient. -/
def bitCoeff (b : Bool) : ZMod 2 := if b then 1 else 0

/-- The polynomial of a register. -/
noncomputable def poly (r : BitVec w) : (ZMod 2)[X] :=
  ∑ k ∈ Finset.range w, monomial k (bitCoeff (r.getMsbD k))

/-- The coefficients of a register, the highest bit first. -/
theorem coeff_poly (r : BitVec w) (k : ℕ) : (poly r).coeff k = bitCoeff (r.getMsbD k) := by
  by_cases hk : k < w
  · simp [poly, coeff_monomial, hk]
  · have hout : r.getMsbD k = false := BitVec.getMsbD_of_ge r k (not_lt.1 hk)
    simp [poly, coeff_monomial, hk, hout, bitCoeff]

theorem degree_poly_lt (r : BitVec w) : (poly r).degree < w := by
  rw [degree_lt_iff_coeff_zero]
  intro k hk
  rw [coeff_poly, BitVec.getMsbD_of_ge r k hk]
  rfl

theorem bitCoeff_xor (a b : Bool) : bitCoeff (a ^^ b) = bitCoeff a + bitCoeff b := by
  cases a <;> cases b <;> decide

/-- Exclusive or adds. -/
theorem poly_xor (r s : BitVec w) : poly (r ^^^ s) = poly r + poly s := by
  ext k
  rw [coeff_add, coeff_poly, coeff_poly, coeff_poly, BitVec.getMsbD_xor, bitCoeff_xor]

/-- The register of a polynomial's low coefficients. -/
noncomputable def register (w : ℕ) (p : (ZMod 2)[X]) : BitVec w :=
  BitVec.ofFnBE fun k : Fin w => decide (p.coeff k = 1)

/-- A register is read back from its polynomial. -/
theorem register_poly (r : BitVec w) : register w (poly r) = r := by
  refine BitVec.eq_of_getMsbD_eq fun k hk => ?_
  rw [register, BitVec.getMsbD_ofFnBE, dif_pos hk, coeff_poly]
  cases r.getMsbD k <;> decide

/-! ## Shifting -/

/-- One place to the right, and the bit that falls out. -/
theorem X_mul_poly {n : ℕ} (r : BitVec (n + 1)) :
    X * poly r = poly (r >>> 1) + if r.getLsbD 0 then X ^ (n + 1) else 0 := by
  ext k
  rw [coeff_add, coeff_poly, BitVec.getMsbD_ushiftRight]
  cases k with
  | zero =>
    rw [coeff_X_mul_zero]
    cases r.getLsbD 0 <;> simp [bitCoeff]
  | succ k =>
    rw [coeff_X_mul, coeff_poly]
    rcases lt_trichotomy k n with hk | rfl | hk
    · have hin : k + 1 < n + 1 := by omega
      have hcoeff : (if r.getLsbD 0 then (X : (ZMod 2)[X]) ^ (n + 1) else 0).coeff (k + 1) = 0 := by
        cases r.getLsbD 0 <;> simp [coeff_X_pow, hk.ne]
      rw [hcoeff, add_zero]
      simp [hin]
    · have hlast : r.getMsbD k = r.getLsbD 0 := by
        rw [BitVec.getMsbD_eq_getLsbD]
        simp
      rw [hlast]
      cases r.getLsbD 0 <;> simp [bitCoeff, coeff_X_pow]
    · have hout : r.getMsbD k = false := BitVec.getMsbD_of_ge r k hk
      have hcoeff : (if r.getLsbD 0 then (X : (ZMod 2)[X]) ^ (n + 1) else 0).coeff (k + 1) = 0 := by
        cases r.getLsbD 0 <;> simp [coeff_X_pow, hk.ne']
      rw [hcoeff, hout, add_zero]
      simp [bitCoeff, show ¬ k < n by omega]

/-- The generator of the taps. -/
noncomputable def generator (taps : BitVec w) : (ZMod 2)[X] := X ^ w + poly taps

/-- The generator's leading coefficient is one. -/
theorem generator_monic (taps : BitVec w) : (generator taps).Monic :=
  monic_X_pow_add (degree_poly_lt taps)

/-- The step of a reflected register. -/
def shift (taps r : BitVec w) : BitVec w :=
  if r.getLsbD 0 then taps ^^^ (r >>> 1) else r >>> 1

/-- **A step multiplies by `X`, and takes the generator away where a bit falls out.** -/
theorem poly_shift {n : ℕ} (taps r : BitVec (n + 1)) :
    poly (shift taps r) = X * poly r + if r.getLsbD 0 then generator taps else 0 := by
  have htwo : (X : (ZMod 2)[X]) ^ (n + 1) + X ^ (n + 1) = 0 := CharTwo.add_self_eq_zero _
  rw [X_mul_poly, shift]
  split_ifs with hbit
  · rw [poly_xor, generator]
    linear_combination -htwo
  · rw [add_zero, add_zero]

section Remainders

variable {n : ℕ} (taps : BitVec (n + 1))

/-- Modulo the generator a step is a multiplication by `X`. -/
theorem mk_shift (r : BitVec (n + 1)) :
    AdjoinRoot.mk (generator taps) (poly (shift taps r))
      = AdjoinRoot.mk (generator taps) (X * poly r) := by
  rw [poly_shift, map_add]
  cases r.getLsbD 0 <;> simp

/-- A shift multiplies by the indeterminate, up to the generator. -/
theorem mk_shifts (m : ℕ) (r : BitVec (n + 1)) :
    AdjoinRoot.mk (generator taps) (poly ((shift taps)^[m] r))
      = AdjoinRoot.mk (generator taps) (X ^ m * poly r) := by
  induction m generalizing r with
  | zero => rw [Function.iterate_zero_apply, pow_zero, one_mul]
  | succ m ih =>
    rw [Function.iterate_succ_apply, ih, map_mul, mk_shift, ← map_mul, pow_succ, mul_assoc]

end Remainders

/-! ## Messages -/

/-- The polynomial of a message, its first bit highest. -/
noncomputable def messagePoly (bits : List Bool) : (ZMod 2)[X] :=
  bits.foldl (fun p b => p * X + C (bitCoeff b)) 0

/-- The bits of bytes, the lowest of each first. -/
def bitsOf (bytes : List (BitVec 8)) : List Bool :=
  bytes.flatMap fun b => (List.range 8).map b.getLsbD

theorem length_bitsOf (bytes : List (BitVec 8)) : (bitsOf bytes).length = 8 * bytes.length := by
  induction bytes with
  | nil => rfl
  | cons b bytes ih =>
    rw [bitsOf, List.flatMap_cons, List.length_append, List.length_map, List.length_range,
      List.length_cons]
    rw [bitsOf] at ih
    omega

theorem messagePoly_append (bits bits' : List Bool) :
    messagePoly (bits ++ bits') = messagePoly bits * X ^ bits'.length + messagePoly bits' := by
  have hfold : ∀ (p : (ZMod 2)[X]), bits'.foldl (fun p b => p * X + C (bitCoeff b)) p
      = p * X ^ bits'.length + messagePoly bits' := by
    unfold messagePoly
    induction bits' with
    | nil => intro p; simp
    | cons b bits' ih =>
      intro p
      rw [List.foldl_cons, List.foldl_cons, ih, ih (0 * X + C (bitCoeff b)), List.length_cons]
      ring
  rw [messagePoly, List.foldl_append]
  exact hfold _

/-- A byte, lowest bit first, is the polynomial of its register. -/
theorem messagePoly_byte (b : BitVec 8) : messagePoly ((List.range 8).map b.getLsbD) = poly b := by
  have hbits : (List.range 8).map b.getLsbD = [b.getLsbD 0, b.getLsbD 1, b.getLsbD 2, b.getLsbD 3,
      b.getLsbD 4, b.getLsbD 5, b.getLsbD 6, b.getLsbD 7] := rfl
  have hmsb : ∀ k < 8, b.getMsbD k = b.getLsbD (7 - k) := by
    intro k hk
    rw [BitVec.getMsbD_eq_getLsbD, decide_eq_true hk, Bool.true_and]
  have hpoly : poly b = ∑ k ∈ Finset.range 8, C (bitCoeff (b.getLsbD (7 - k))) * X ^ k := by
    refine Finset.sum_congr rfl fun k hk => ?_
    rw [hmsb k (Finset.mem_range.1 hk), C_mul_X_pow_eq_monomial]
  rw [hbits, hpoly]
  simp only [messagePoly, List.foldl_cons, List.foldl_nil, Finset.sum_range_succ,
    Finset.sum_range_zero]
  ring

/-- A byte at the low end of a register. -/
theorem poly_setWidth {n : ℕ} (hn : 8 ≤ n) (b : BitVec 8) :
    poly (b.setWidth n) = X ^ (n - 8) * poly b := by
  ext k
  rw [coeff_poly, BitVec.getMsbD_setWidth, coeff_X_pow_mul', coeff_poly]
  split_ifs with hk
  · rw [decide_eq_true hk, Bool.true_and, show k + 8 - n = k - (n - 8) by omega]
  · rw [decide_eq_false hk, Bool.false_and]
    rfl

/-! ## The run over a message -/

/-- Each byte added to the low end, and shifted through. -/
def run (taps : BitVec w) (r : BitVec w) (bytes : List (BitVec 8)) : BitVec w :=
  bytes.foldl (fun r b => (shift taps)^[8] (r ^^^ b.setWidth w)) r

section Run

variable {n : ℕ} (taps : BitVec (n + 1)) (hn : 8 ≤ n + 1)
include hn

/-- One byte. -/
theorem mk_byte (r : BitVec (n + 1)) (b : BitVec 8) :
    AdjoinRoot.mk (generator taps) (poly ((shift taps)^[8] (r ^^^ b.setWidth (n + 1))))
      = AdjoinRoot.mk (generator taps) (X ^ 8 * poly r + X ^ (n + 1) * poly b) := by
  have hpow : (X : (ZMod 2)[X]) ^ 8 * X ^ (n + 1 - 8) = X ^ (n + 1) := by
    rw [← pow_add, Nat.add_sub_cancel' hn]
  rw [mk_shifts, poly_xor, poly_setWidth hn, mul_add, ← mul_assoc, hpow]

/-- The register after a message, up to the generator. -/
theorem mk_run (r : BitVec (n + 1)) (bytes : List (BitVec 8)) :
    AdjoinRoot.mk (generator taps) (poly (run taps r bytes))
      = AdjoinRoot.mk (generator taps)
        (X ^ (n + 1) * messagePoly (bitsOf bytes) + X ^ (8 * bytes.length) * poly r) := by
  induction bytes generalizing r with
  | nil =>
    have hempty : messagePoly (bitsOf []) = 0 := rfl
    have hrun : run taps r [] = r := rfl
    rw [hempty, hrun, mul_zero, zero_add, List.length_nil, mul_zero, pow_zero, one_mul]
  | cons b bytes ih =>
    have hbits : bitsOf (b :: bytes) = (List.range 8).map b.getLsbD ++ bitsOf bytes :=
      List.flatMap_cons
    have hstep : run taps r (b :: bytes)
        = run taps ((shift taps)^[8] (r ^^^ b.setWidth (n + 1))) bytes := rfl
    rw [hstep, ih, map_add, map_mul _ (X ^ (8 * bytes.length)), mk_byte taps hn, ← map_mul, ← map_add,
      hbits, messagePoly_append, messagePoly_byte, length_bitsOf, List.length_cons]
    refine congrArg (AdjoinRoot.mk (generator taps)) ?_
    ring

/-- **What is left in the register is the remainder of the message**, behind what the register
held. -/
theorem poly_run (r : BitVec (n + 1)) (bytes : List (BitVec 8)) :
    poly (run taps r bytes)
      = (X ^ (n + 1) * messagePoly (bitsOf bytes) + X ^ (8 * bytes.length) * poly r)
        %ₘ generator taps := by
  have hmonic := generator_monic taps
  have hdegree : (generator taps).degree = (n + 1 : ℕ) := by
    have hlt : (poly taps).degree < ((X : (ZMod 2)[X]) ^ (n + 1)).degree := by
      rw [degree_X_pow]
      exact degree_poly_lt taps
    rw [generator, degree_add_eq_left_of_degree_lt hlt, degree_X_pow]
  have hself : poly (run taps r bytes) %ₘ generator taps = poly (run taps r bytes) := by
    rw [modByMonic_eq_self_iff hmonic, hdegree]
    exact degree_poly_lt _
  rw [← hself]
  exact modByMonic_eq_of_dvd_sub hmonic (AdjoinRoot.mk_eq_mk.1 (mk_run taps hn r bytes))

end Run

end ReflectedCrc
