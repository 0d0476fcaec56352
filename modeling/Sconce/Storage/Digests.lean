/-
# Digests in hex

`hex32` writes a digest as 64 lower-case digits; `parse_hex32` reads two digits a byte,
in either case, and what `hex32` wrote reads back (`parseHex32_hex32`).
-/
import Sconce.Schema

namespace Sconce

/-! ## Writing -/

/-- `HEX[…]`. -/
def hexDigit (n : ℕ) : Char := "0123456789abcdef".toList.getD n '0'

/-- The digits of the bytes, high half first, after the text. -/
def pushHex (text : String) (bytes : List UInt8) : String :=
  bytes.foldl (fun s b => (s.push (hexDigit (b.toNat / 16))).push (hexDigit (b.toNat % 16))) text

/-- `hex32`, `BlobId::to_hex`. -/
def hex32 (sha : Sha256) : String := pushHex "" sha.bytes.toList

/-! ## Reading -/

/-- `u8::from_str_radix(…, 16)` of two characters: the first may be a sign. -/
def byteOfPair (high low : Char) : Option UInt8 :=
  match digitValue 16 high, digitValue 16 low with
  | some x, some y => some (UInt8.ofNat (16 * x + y))
  | none, some y => if high = '+' then some (UInt8.ofNat y) else none
  | _, none => none

def bytesOfPairs : List Char → Option (List UInt8)
  | [] => some []
  | [_] => none
  | high :: low :: rest => do
    let b ← byteOfPair high low
    let bytes ← bytesOfPairs rest
    return b :: bytes

/-- 32 bytes as a digest. -/
def Sha256.ofBytes (bytes : List UInt8) : Option Sha256 :=
  if h : bytes.length = 32 then some ⟨⟨bytes.toArray, h⟩⟩ else none

/-- `parse_hex32`; a character that is no digit, of whatever width, reads as nothing. -/
def parseHex32 (hex : String) : Option Sha256 := do
  if hex.utf8ByteSize ≠ 64 then none
  let bytes ← bytesOfPairs hex.toList
  Sha256.ofBytes bytes

/-! ## The round trip -/

theorem toList_pushHex (text : String) (bytes : List UInt8) :
    (pushHex text bytes).toList = text.toList ++
      bytes.flatMap fun b => [hexDigit (b.toNat / 16), hexDigit (b.toNat % 16)] := by
  induction bytes generalizing text with
  | nil => rw [pushHex, List.foldl_nil, List.flatMap_nil, List.append_nil]
  | cons b bytes ih =>
    have hstep : pushHex text (b :: bytes)
        = pushHex ((text.push (hexDigit (b.toNat / 16))).push (hexDigit (b.toNat % 16))) bytes :=
      rfl
    rw [hstep, ih, String.toList_push, String.toList_push]
    simp only [List.flatMap_cons, List.append_assoc, List.cons_append, List.nil_append]

/-- A digit reads as its value, and takes one byte. -/
theorem digitValue_hexDigit {n : ℕ} (h : n < 16) :
    digitValue 16 (hexDigit n) = some n ∧ (hexDigit n).utf8Size = 1 := by
  have hall : ∀ k < 16, digitValue 16 (hexDigit k) = some k ∧ (hexDigit k).utf8Size = 1 := by decide
  exact hall n h

theorem utf8ByteSize_pushHex (text : String) (bytes : List UInt8) :
    (pushHex text bytes).utf8ByteSize = text.utf8ByteSize + 2 * bytes.length := by
  induction bytes generalizing text with
  | nil => rfl
  | cons b bytes ih =>
    have hb := b.toNat_lt
    have hhigh := (digitValue_hexDigit (show b.toNat / 16 < 16 by omega)).2
    have hlow := (digitValue_hexDigit (show b.toNat % 16 < 16 by omega)).2
    have hstep : pushHex text (b :: bytes)
        = pushHex ((text.push (hexDigit (b.toNat / 16))).push (hexDigit (b.toNat % 16))) bytes :=
      rfl
    rw [hstep, ih, String.utf8ByteSize_push, String.utf8ByteSize_push, hhigh, hlow,
      List.length_cons]
    omega

/-- The two digits of a byte are read as that byte. -/
theorem byteOfPair_hexDigit (b : UInt8) :
    byteOfPair (hexDigit (b.toNat / 16)) (hexDigit (b.toNat % 16)) = some b := by
  have hb := b.toNat_lt
  have hhigh := (digitValue_hexDigit (show b.toNat / 16 < 16 by omega)).1
  have hlow := (digitValue_hexDigit (show b.toNat % 16 < 16 by omega)).1
  unfold byteOfPair
  rw [hhigh, hlow]
  show some (UInt8.ofNat (16 * (b.toNat / 16) + b.toNat % 16)) = some b
  rw [Nat.div_add_mod, UInt8.ofNat_toNat]

/-- The digits of bytes are read as those bytes. -/
theorem bytesOfPairs_hex (bytes : List UInt8) :
    bytesOfPairs (bytes.flatMap fun b => [hexDigit (b.toNat / 16), hexDigit (b.toNat % 16)])
      = some bytes := by
  induction bytes with
  | nil => rfl
  | cons b bytes ih =>
    rw [List.flatMap_cons, List.cons_append, List.cons_append, List.nil_append, bytesOfPairs,
      byteOfPair_hexDigit, ih]
    rfl

/-- **The digits of a digest read back as the digest.** -/
theorem parseHex32_hex32 (sha : Sha256) : parseHex32 (hex32 sha) = some sha := by
  have hsize : (hex32 sha).utf8ByteSize = 64 := by
    rw [hex32, utf8ByteSize_pushHex, String.utf8ByteSize_empty, Vector.length_toList]
  have hbytes : bytesOfPairs (hex32 sha).toList = some sha.bytes.toList := by
    rw [hex32, toList_pushHex]
    exact bytesOfPairs_hex _
  have hdigest : Sha256.ofBytes sha.bytes.toList = some sha := by
    unfold Sha256.ofBytes
    rw [dif_pos (Vector.length_toList)]
    rfl
  unfold parseHex32
  rw [if_neg (not_not_intro hsize), hbytes]
  exact hdigest

end Sconce
