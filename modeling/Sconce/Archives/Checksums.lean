/-
# The checksum of an entry

A ZIP entry carries the CRC-32 of its bytes.  As polynomials over GF(2), with the bits of each byte
lowest first: the message is divided by the generator of IEEE 802.3, its first 32 bits inverted
beforehand and the remainder inverted afterwards, and the remainder is read with its highest
coefficient as the lowest bit.

The loop of the source keeps the remainder in a register that it shifts to the right
(`crc32_eq_division`).
-/
import Sconce.Archives.Canonical
import Sconce.Lib.ReflectedCrc

namespace Sconce.Archives

open Polynomial ReflectedCrc

/-! ## The division -/

/-- The generator of IEEE 802.3. -/
noncomputable def ieeeGenerator : (ZMod 2)[X] :=
  X ^ 32 + X ^ 26 + X ^ 23 + X ^ 22 + X ^ 16 + X ^ 12 + X ^ 11 + X ^ 10 + X ^ 8 + X ^ 7 + X ^ 5 +
    X ^ 4 + X ^ 2 + X + 1

/-- 32 ones. -/
noncomputable def ones : (ZMod 2)[X] := ∑ k ∈ Finset.range 32, X ^ k

/-- The remainder of the message behind 32 zeros, its first 32 bits inverted, and inverted. -/
noncomputable def ieeeRemainder (buf : List UInt8) : (ZMod 2)[X] :=
  let bits := bitsOf (buf.map UInt8.toBitVec)
  (X ^ 32 * messagePoly bits + X ^ bits.length * ones) %ₘ ieeeGenerator + ones

/-- The checksum: the coefficient of `X ^ k` is the bit `k` places below the highest. -/
noncomputable def ieeeCrc32 (buf : List UInt8) : UInt32 :=
  UInt32.ofBitVec (register 32 (ieeeRemainder buf))

/-! ## The register -/

/-- `POLY`. -/
def crcTaps : BitVec 32 := 0xEDB88320

/-- The bits of `POLY` are the generator's coefficients below the highest. -/
theorem generator_crcTaps : generator crcTaps = ieeeGenerator := by
  have hbits : ∀ k < 32, crcTaps.getMsbD k
      = decide (k ∈ [0, 1, 2, 4, 5, 7, 8, 10, 11, 12, 16, 22, 23, 26]) := by decide
  have htaps : poly crcTaps = ∑ k ∈ Finset.range 32,
      if k ∈ [0, 1, 2, 4, 5, 7, 8, 10, 11, 12, 16, 22, 23, 26] then X ^ k else 0 := by
    refine Finset.sum_congr rfl fun k hk => ?_
    rw [hbits k (Finset.mem_range.1 hk)]
    by_cases hmem : k ∈ [0, 1, 2, 4, 5, 7, 8, 10, 11, 12, 16, 22, 23, 26]
    · rw [decide_eq_true hmem, if_pos hmem]
      exact monomial_one_right_eq_X_pow k
    · rw [decide_eq_false hmem, if_neg hmem]
      exact monomial_zero_right k
  rw [generator, htaps, ieeeGenerator]
  simp only [Finset.sum_range_succ, Finset.sum_range_zero]
  simp
  ring

/-- The register starts with every coefficient one. -/
theorem poly_allOnes : poly (BitVec.allOnes 32) = ones := by
  refine Finset.sum_congr rfl fun k hk => ?_
  have hk := Finset.mem_range.1 hk
  have hbit : (BitVec.allOnes 32).getMsbD k = true := by
    rw [BitVec.getMsbD_eq_getLsbD, BitVec.getLsbD_allOnes]
    simp [hk, show 31 - k < 32 by omega]
  rw [hbit]
  exact monomial_one_right_eq_X_pow k

/-! ## The loop -/

/-- `POLY ^ (crc >> 1)` where the lowest bit is set, `crc >> 1` where not. -/
def crcBit (crc : UInt32) : UInt32 :=
  if crc &&& 1 ≠ 0 then (0xEDB88320 : UInt32) ^^^ (crc >>> 1) else crc >>> 1

def crcByte (crc : UInt32) (b : UInt8) : UInt32 :=
  (List.range 8).foldl (fun crc _ => crcBit crc) (crc ^^^ b.toUInt32)

theorem crc32_eq (buf : List UInt8) : crc32 buf = buf.foldl crcByte 0xFFFFFFFF ^^^ 0xFFFFFFFF := rfl

/-- The lowest bit as a test. -/
theorem low_bit (crc : UInt32) : crc &&& 1 ≠ 0 ↔ crc.toBitVec.getLsbD 0 = true := by
  have hbits : (crc &&& 1).toBitVec = BitVec.setWidth 32 (BitVec.ofBool (crc.toBitVec.getLsbD 0)) := by
    rw [UInt32.toBitVec_and]
    exact BitVec.and_one_eq_setWidth_ofBool_getLsbD
  rw [Ne, ← UInt32.toBitVec_inj, hbits]
  cases crc.toBitVec.getLsbD 0 <;> decide

/-- **One bit of the loop is a step of the register.** -/
theorem toBitVec_crcBit (crc : UInt32) : (crcBit crc).toBitVec = shift crcTaps crc.toBitVec := by
  unfold crcBit shift
  by_cases hbit : crc.toBitVec.getLsbD 0 = true
  · rw [if_pos ((low_bit crc).2 hbit), if_pos hbit, UInt32.toBitVec_xor]
    rfl
  · rw [if_neg fun h => hbit ((low_bit crc).1 h), if_neg hbit]
    rfl

/-- A byte goes through the table as eight bits go through the register. -/
theorem toBitVec_crcByte (crc : UInt32) (b : UInt8) :
    (crcByte crc b).toBitVec
      = (shift crcTaps)^[8] (crc.toBitVec ^^^ b.toBitVec.setWidth 32) := by
  have hbits : ∀ (l : List ℕ) (crc : UInt32), (l.foldl (fun crc _ => crcBit crc) crc).toBitVec
      = (shift crcTaps)^[l.length] crc.toBitVec := by
    intro l
    induction l with
    | nil => intro crc; rfl
    | cons _ l ih =>
      intro crc
      rw [List.foldl_cons, ih, toBitVec_crcBit, List.length_cons, Function.iterate_succ_apply]
  rw [crcByte, hbits, List.length_range, UInt32.toBitVec_xor]
  rfl

/-- A buffer goes through the table as its bits go through the register. -/
theorem toBitVec_crc (crc : UInt32) (buf : List UInt8) :
    (buf.foldl crcByte crc).toBitVec = run crcTaps crc.toBitVec (buf.map UInt8.toBitVec) := by
  induction buf generalizing crc with
  | nil => rfl
  | cons b buf ih =>
    rw [List.foldl_cons, ih, toBitVec_crcByte]
    rfl

/-- **`crc32` is the IEEE 802.3 checksum**, as a division of polynomials. -/
theorem crc32_eq_division (buf : List UInt8) : crc32 buf = ieeeCrc32 buf := by
  have hones : (0xFFFFFFFF : UInt32).toBitVec = BitVec.allOnes 32 := by decide
  have hregister : poly (crc32 buf).toBitVec = ieeeRemainder buf := by
    rw [crc32_eq, UInt32.toBitVec_xor, poly_xor, toBitVec_crc, poly_run crcTaps (by decide), hones,
      generator_crcTaps, poly_allOnes, ieeeRemainder, length_bitsOf]
  rw [ieeeCrc32, ← hregister, register_poly]

end Sconce.Archives
