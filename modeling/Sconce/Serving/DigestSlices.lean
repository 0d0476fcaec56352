/-
# Digests read by byte slices

`parse_hex32` tests the length in bytes, then slices two bytes at a time and hands each slice
to `u8::from_str_radix`.  A slice that would cut a character is a panic (`readHex32`); where
there is none the text reads as `parseHex32` says (`parseHex32_of_readHex32`).

The number parser accepts a sign, so `"+f"` reads as a byte, and 64 bytes may begin a character
inside a pair.  Elsewhere the digests read are exactly the ones written, in either case
(`parsedExactly_iff`).
-/
import Sconce.Lib.ByteSlices
import Sconce.Lib.Utf8
import Sconce.Serving.Routes

namespace Sconce

open ByteSlices
open String (utf8Len)

/-! ## The parser -/

/-- `u8::from_str_radix(text, 16)`. -/
def u8FromHex (text : List Char) : Option UInt8 :=
  let digits :=
    match text with
    | '+' :: rest => rest
    | _ => text
  if digits = [] then none
  else
    (digits.foldlM (fun value c => do
      let digit ← digitValue 16 c
      if 16 * value + digit < 256 then some (16 * value + digit) else none) 0).map UInt8.ofNat

example : u8FromHex ['+', 'f'] = some 15 ∧ u8FromHex ['f', '+'] = none ∧ u8FromHex ['-', '0'] = none
    ∧ u8FromHex ['é'] = none := by decide

/-- The loop of `parse_hex32` over the bytes still to be filled. -/
def readBytes (text : List Char) : List ℕ → Except Panic (Option (List UInt8))
  | [] => .ok (some [])
  | i :: is => do
    let pair ← slice text (i * 2) (i * 2 + 2)
    match u8FromHex pair with
    | none => .ok none
    | some byte =>
      let bytes ← readBytes text is
      .ok (bytes.map (byte :: ·))

/-- `parse_hex32`, with its panic. -/
def readHex32 (hex : String) : Except Panic (Option Sha256) :=
  if hex.utf8ByteSize ≠ 64 then .ok none
  else do
    let bytes ← readBytes hex.toList (List.range 32)
    .ok (bytes.bind Sha256.ofBytes)

/-- How `serve_dist` reads what follows `dist/`, with the panic. -/
def readDistPath (rest : String) : Except Panic (Option (String × Sha256)) :=
  match rsplitOnce '/' rest with
  | none => .ok none
  | some (package, file) =>
    match stripSuffix ".zip" file with
    | none => .ok none
    | some hex => (readHex32 hex).map (Option.map (package, ·))

/-- `serve_dist`, with the panic. -/
def serveDistOrPanic (env : ReadEnv) (store : ObjectStore) (db : Catalog) (repo : Uuid)
    (access : Access) (rest : String) : Except Panic (Except AppError ReadAnswer) := do
  match ← readDistPath rest with
  | none => .ok (serveUpstreamPath env store db repo access ("dist/" ++ rest))
  | some (package, sha) =>
    .ok (if access.allows db repo package && db.repoServesDist repo package sha then
      serveBlob env store sha
    else .error .notFound)

/-- `expected_sha` of `upload_complete`, with the panic. -/
def expectedSha (sha256 : String) : Except Panic (Except AppError Sha256) :=
  (readHex32 sha256).map fun sha =>
    sha.elim (.error (.badRequest "sha256 must be 64 hex chars")) .ok

/-! ## What a text is -/

/-- A hexadecimal digit, in either case. -/
def IsHexDigit (c : Char) : Prop := (digitValue 16 c).isSome = true

instance (c : Char) : Decidable (IsHexDigit c) := inferInstanceAs (Decidable (_ = true))

/-- Two characters `u8::from_str_radix` reads. -/
def ReadsAsByte (high low : Char) : Prop := (high = '+' ∨ IsHexDigit high) ∧ IsHexDigit low

/-- Exactly 64 hexadecimal digits. -/
def IsDigest (hex : String) : Prop := hex.toList.length = 64 ∧ ∀ c ∈ hex.toList, IsHexDigit c

/-- Every pair reads. -/
inductive Pairs : List Char → Prop where
  | nil : Pairs []
  | cons {high low : Char} {rest : List Char} :
      ReadsAsByte high low → Pairs rest → Pairs (high :: low :: rest)

/-- Behind pairs that read, the end of the next two bytes is inside a character. -/
inductive Straddles : List Char → Prop where
  | high {c : Char} (rest : List Char) : 3 ≤ c.utf8Size → Straddles (c :: rest)
  | low {c d : Char} (rest : List Char) : c.utf8Size = 1 → 2 ≤ d.utf8Size →
      Straddles (c :: d :: rest)
  | later {high low : Char} {rest : List Char} :
      ReadsAsByte high low → Straddles rest → Straddles (high :: low :: rest)

/-- A text is answered, accepted exactly where it is 64 digits, and then the digest it is the
lower- or upper-case form of; so is the path of a download, and the digest of an upload. -/
structure ParsedExactly (hex : String) : Prop where
  answers : ∃ parsed, readHex32 hex = .ok parsed
  accepts : (∃ sha, readHex32 hex = .ok (some sha)) ↔ IsDigest hex
  inverse : ∀ sha, readHex32 hex = .ok (some sha) ↔ hex32 sha = hex.toLower
  served : ∀ env store db repo access package, '/' ∉ hex.toList →
    ∃ answer, serveDistOrPanic env store db repo access (package ++ "/" ++ hex ++ ".zip")
      = .ok answer
  completed : ∃ expected, expectedSha hex = .ok expected

/-! ## Characters -/

theorem val_le_of_isHexDigit {c : Char} (h : IsHexDigit c) : c.val ≤ 127 := by
  unfold IsHexDigit digitValue at h
  split_ifs at h with hdec hlower hupper
  · exact UInt32.le_trans (show c.val ≤ '9'.val from hdec.2) (by decide)
  · exact UInt32.le_trans (show c.val ≤ 'f'.val from hlower.2) (by decide)
  · exact UInt32.le_trans (show c.val ≤ 'F'.val from hupper.2) (by decide)
  · cases h

theorem utf8Size_of_isHexDigit {c : Char} (h : IsHexDigit c) : c.utf8Size = 1 := by
  unfold Char.utf8Size
  exact if_pos (val_le_of_isHexDigit h)

/-- Two characters read as a byte are one byte each. -/
theorem ReadsAsByte.utf8Size {high low : Char} (h : ReadsAsByte high low) :
    high.utf8Size = 1 ∧ low.utf8Size = 1 := by
  refine ⟨?_, utf8Size_of_isHexDigit h.2⟩
  rcases h.1 with rfl | hdigit
  · decide
  · exact utf8Size_of_isHexDigit hdigit

theorem digitValue_lt {c : Char} {v : ℕ} (h : digitValue 16 c = some v) : v < 16 := by
  unfold digitValue at h
  exact of_decide_eq_true (Option.filter_eq_some_iff.1 h).2

/-- The number parser on two characters. -/
theorem u8FromHex_pair (high low : Char) : u8FromHex [high, low] = byteOfPair high low := by
  by_cases hsign : high = '+'
  · subst hsign
    cases hlow : digitValue 16 low with
    | none => simp [u8FromHex, byteOfPair, hlow]
    | some y =>
      have hy := digitValue_lt hlow
      have hplus : digitValue 16 '+' = none := by decide
      simp [u8FromHex, byteOfPair, hlow, hplus, show y < 256 by omega]
  · cases hhigh : digitValue 16 high with
    | none => cases hlow : digitValue 16 low <;> simp [u8FromHex, byteOfPair, hsign, hhigh, hlow]
    | some x =>
      have hx := digitValue_lt hhigh
      cases hlow : digitValue 16 low with
      | none => simp [u8FromHex, byteOfPair, hsign, hhigh, hlow]
      | some y =>
        have hy := digitValue_lt hlow
        simp [u8FromHex, byteOfPair, hsign, hhigh, hlow, show x < 256 by omega,
          show 16 * x + y < 256 by omega]

/-- A character of two bytes is no number. -/
theorem u8FromHex_double {c : Char} (h : c.utf8Size = 2) : u8FromHex [c] = none := by
  have hsign : c ≠ '+' := by
    rintro rfl
    exact absurd h (by decide)
  have hdigit : digitValue 16 c = none := by
    by_contra hne
    have := utf8Size_of_isHexDigit (Option.isSome_iff_ne_none.2 hne)
    omega
  simp [u8FromHex, hsign, hdigit]

/-- Which pairs of characters are read as a byte. -/
theorem byteOfPair_isSome_iff (high low : Char) :
    (byteOfPair high low).isSome = true ↔ ReadsAsByte high low := by
  unfold byteOfPair ReadsAsByte IsHexDigit
  cases digitValue 16 high <;> cases digitValue 16 low <;> simp

/-! ## One step of the loop -/

section Step

variable {before : List Char} {i : ℕ} (hbefore : utf8Len before = i * 2) (is : List ℕ)
include hbefore

/-- A slice of two bytes begins where the text before it ends. -/
theorem slice_before (rest : List Char) :
    slice (before ++ rest) (i * 2) (i * 2 + 2)
      = (takeBytes 2 rest).elim (.error .charBoundary) .ok := by
  rw [← hbefore, slice_append]

/-- A pair cut off by a wide character is a panic. -/
theorem readBytes_high {c : Char} (hc : 3 ≤ c.utf8Size) (rest : List Char) :
    readBytes (before ++ c :: rest) (i :: is) = .error .charBoundary := by
  rw [readBytes, slice_before hbefore, takeBytes_two_wide hc]
  rfl

/-- A slice that ends in a wide character panics. -/
theorem readBytes_low {c d : Char} (hc : c.utf8Size = 1) (hd : 2 ≤ d.utf8Size) (rest : List Char) :
    readBytes (before ++ c :: d :: rest) (i :: is) = .error .charBoundary := by
  rw [readBytes, slice_before hbefore, takeBytes_two_single hc, if_pos hd]
  rfl

/-- A character of two bytes ends the loop. -/
theorem readBytes_double {c : Char} (hc : c.utf8Size = 2) (rest : List Char) :
    readBytes (before ++ c :: rest) (i :: is) = .ok none := by
  rw [readBytes, slice_before hbefore, takeBytes_two_double hc]
  show (match u8FromHex [c] with | none => _ | some _ => _) = _
  rw [u8FromHex_double hc]

theorem readBytes_unread {high low : Char} (hhigh : high.utf8Size = 1) (hlow : low.utf8Size = 1)
    (hread : ¬ ReadsAsByte high low) (rest : List Char) :
    readBytes (before ++ high :: low :: rest) (i :: is) = .ok none := by
  rw [readBytes, slice_before hbefore, takeBytes_two_single hhigh, if_neg (by omega)]
  rw [← byteOfPair_isSome_iff, Option.not_isSome_iff_eq_none, ← u8FromHex_pair] at hread
  show (match u8FromHex [high, low] with | none => _ | some _ => _) = _
  rw [hread]

/-- A pair that reads is a byte, and the loop goes on behind it. -/
theorem readBytes_pair {high low : Char} {byte : UInt8} (hread : ReadsAsByte high low)
    (hbyte : byteOfPair high low = some byte) (rest : List Char) :
    readBytes (before ++ high :: low :: rest) (i :: is)
      = (readBytes ((before ++ [high, low]) ++ rest) is).map (Option.map (byte :: ·)) := by
  obtain ⟨hhigh, hlow⟩ := hread.utf8Size
  rw [readBytes, slice_before hbefore, takeBytes_two_single hhigh, if_neg (by omega),
    List.append_assoc]
  show (match u8FromHex [high, low] with | none => _ | some _ => _) = _
  rw [u8FromHex_pair, hbyte]
  show Except.bind _ _ = Except.map _ (readBytes (before ++ high :: low :: rest) is)
  cases readBytes (before ++ high :: low :: rest) is <;> rfl

theorem utf8Len_behind {high low : Char} (hread : ReadsAsByte high low) :
    utf8Len (before ++ [high, low]) = (i + 1) * 2 := by
  obtain ⟨hhigh, hlow⟩ := hread.utf8Size
  rw [String.utf8Len_append, hbefore, String.utf8Len_cons, String.utf8Len_cons, String.utf8Len_nil,
    hhigh, hlow]
  omega

end Step

/-! ## The loop -/

/-- Pairs that read are read, to the end. -/
theorem readBytes_of_pairs {rest : List Char} (h : Pairs rest) {before : List Char} {i n : ℕ}
    (hbefore : utf8Len before = i * 2) (hrest : utf8Len rest = n * 2) :
    readBytes (before ++ rest) (List.range' i n) = .ok (bytesOfPairs rest) := by
  induction h generalizing before i n with
  | nil =>
    obtain rfl : n = 0 := by rw [String.utf8Len_nil] at hrest; omega
    rfl
  | @cons high low rest hread _ ih =>
    obtain ⟨hhigh, hlow⟩ := hread.utf8Size
    rw [String.utf8Len_cons, String.utf8Len_cons, hhigh, hlow] at hrest
    obtain ⟨n, rfl⟩ : ∃ m, n = m + 1 := ⟨n - 1, by omega⟩
    obtain ⟨byte, hbyte⟩ := Option.isSome_iff_exists.1 ((byteOfPair_isSome_iff high low).2 hread)
    have htail := ih (utf8Len_behind hbefore hread) (show utf8Len rest = n * 2 by omega)
    rw [List.range'_succ, readBytes_pair hbefore _ hread hbyte, htail, bytesOfPairs, hbyte]
    cases bytesOfPairs rest <;> rfl

/-- Text is left for another pair. -/
theorem exists_succ_of_utf8Len {c : Char} {tail : List Char} {n : ℕ}
    (h : utf8Len (c :: tail) = n * 2) : ∃ m, n = m + 1 := by
  have hc := c.utf8Size_pos
  rw [String.utf8Len_cons] at h
  exact ⟨n - 1, by omega⟩

/-- Behind a pair there are two bytes less. -/
theorem ReadsAsByte.utf8Len_rest {high low : Char} (hread : ReadsAsByte high low)
    {rest : List Char} {n : ℕ} (h : utf8Len (high :: low :: rest) = (n + 1) * 2) :
    utf8Len rest = n * 2 := by
  obtain ⟨hhigh, hlow⟩ := hread.utf8Size
  rw [String.utf8Len_cons, String.utf8Len_cons, hhigh, hlow] at h
  omega

/-- A character across the end of a pair is a panic. -/
theorem readBytes_of_straddles {rest : List Char} (h : Straddles rest) {before : List Char}
    {i n : ℕ} (hbefore : utf8Len before = i * 2) (hrest : utf8Len rest = n * 2) :
    readBytes (before ++ rest) (List.range' i n) = .error .charBoundary := by
  induction h generalizing before i n with
  | high rest hc =>
    obtain ⟨n, rfl⟩ := exists_succ_of_utf8Len hrest
    rw [List.range'_succ, readBytes_high hbefore _ hc]
  | low rest hc hd =>
    obtain ⟨n, rfl⟩ := exists_succ_of_utf8Len hrest
    rw [List.range'_succ, readBytes_low hbefore _ hc hd]
  | @later high low rest hread _ ih =>
    obtain ⟨n, rfl⟩ := exists_succ_of_utf8Len hrest
    obtain ⟨byte, hbyte⟩ := Option.isSome_iff_exists.1 ((byteOfPair_isSome_iff high low).2 hread)
    have htail := ih (utf8Len_behind hbefore hread) (hread.utf8Len_rest hrest)
    rw [List.range'_succ, readBytes_pair hbefore _ hread hbyte, htail]
    rfl

/-- Any other text is refused. -/
theorem readBytes_of_not {n : ℕ} {rest : List Char} (hpairs : ¬ Pairs rest)
    (hstraddles : ¬ Straddles rest) {before : List Char} {i : ℕ}
    (hbefore : utf8Len before = i * 2) (hrest : utf8Len rest = n * 2) :
    readBytes (before ++ rest) (List.range' i n) = .ok none := by
  induction n generalizing rest before i with
  | zero =>
    obtain rfl := String.utf8Len_eq_zero.1 (hrest.trans (Nat.zero_mul 2))
    exact absurd Pairs.nil hpairs
  | succ n ih =>
    rw [List.range'_succ]
    cases rest with
    | nil =>
      rw [String.utf8Len_nil] at hrest
      omega
    | cons high rest =>
      have hpos := high.utf8Size_pos
      have hhigh : ¬ 3 ≤ high.utf8Size := fun h => hstraddles (.high rest h)
      by_cases hdouble : high.utf8Size = 2
      · exact readBytes_double hbefore _ hdouble rest
      have hone : high.utf8Size = 1 := by omega
      cases rest with
      | nil =>
        -- One byte is left, of an even number.
        rw [String.utf8Len_cons, String.utf8Len_nil] at hrest
        omega
      | cons low rest =>
        have hposlow := low.utf8Size_pos
        have hlow : ¬ 2 ≤ low.utf8Size := fun h => hstraddles (.low rest hone h)
        by_cases hread : ReadsAsByte high low
        · obtain ⟨byte, hbyte⟩ :=
            Option.isSome_iff_exists.1 ((byteOfPair_isSome_iff high low).2 hread)
          have htail := ih (fun h => hpairs (.cons hread h)) (fun h => hstraddles (.later hread h))
            (utf8Len_behind hbefore hread) (hread.utf8Len_rest hrest)
          rw [readBytes_pair hbefore _ hread hbyte, htail]
          rfl
        · exact readBytes_unread hbefore _ hone (by omega) hread rest

/-! ## What is read -/

theorem utf8Len_toList (hex : String) : utf8Len hex.toList = hex.utf8ByteSize := by
  rw [← String.utf8ByteSize_ofList, String.ofList_toList]

theorem utf8Len_start : utf8Len [] = 0 * 2 := rfl

section Sized

variable {hex : String} (hsize : hex.utf8ByteSize = 64)
include hsize

theorem utf8Len_of_size : utf8Len hex.toList = 32 * 2 := by rw [utf8Len_toList, hsize]

/-- The reader takes the slices one by one. -/
theorem readHex32_eq :
    readHex32 hex = (readBytes ([] ++ hex.toList) (List.range' 0 32)).map
      (·.bind Sha256.ofBytes) := by
  rw [readHex32, if_neg (not_not_intro hsize), List.range_eq_range', List.nil_append]
  show Except.bind _ _ = _
  cases readBytes hex.toList (List.range' 0 32) <;> rfl

/-- A text with a character across a slice panics. -/
theorem readHex32_of_straddles (h : Straddles hex.toList) :
    readHex32 hex = .error .charBoundary := by
  rw [readHex32_eq hsize, readBytes_of_straddles h utf8Len_start (utf8Len_of_size hsize)]
  rfl

theorem readHex32_of_pairs (h : Pairs hex.toList) :
    readHex32 hex = .ok ((bytesOfPairs hex.toList).bind Sha256.ofBytes) := by
  rw [readHex32_eq hsize, readBytes_of_pairs h utf8Len_start (utf8Len_of_size hsize)]
  rfl

theorem readHex32_of_not (hpairs : ¬ Pairs hex.toList) (hstraddles : ¬ Straddles hex.toList) :
    readHex32 hex = .ok none := by
  rw [readHex32_eq hsize,
    readBytes_of_not hpairs hstraddles utf8Len_start (utf8Len_of_size hsize)]
  rfl

end Sized

theorem readHex32_of_size {hex : String} (h : hex.utf8ByteSize ≠ 64) : readHex32 hex = .ok none := by
  rw [readHex32, if_pos h]

/-- The pairs of a text that reads give a byte each. -/
theorem Pairs.exists_bytes {cs : List Char} (h : Pairs cs) :
    ∃ bytes, bytesOfPairs cs = some bytes ∧ bytes.length * 2 = utf8Len cs := by
  induction h with
  | nil => exact ⟨[], rfl, rfl⟩
  | @cons high low rest hread _ ih =>
    obtain ⟨bytes, hbytes, hlen⟩ := ih
    obtain ⟨hhigh, hlow⟩ := hread.utf8Size
    obtain ⟨byte, hbyte⟩ := Option.isSome_iff_exists.1 ((byteOfPair_isSome_iff high low).2 hread)
    refine ⟨byte :: bytes, ?_, ?_⟩
    · rw [bytesOfPairs, hbyte, hbytes]
      rfl
    · rw [List.length_cons, String.utf8Len_cons, String.utf8Len_cons, hhigh, hlow, ← hlen]
      omega

/-- Only pairs read as bytes. -/
theorem pairs_of_bytesOfPairs {cs : List Char} (h : (bytesOfPairs cs).isSome = true) : Pairs cs := by
  induction cs using bytesOfPairs.induct with
  | case1 => exact .nil
  | case2 => cases h
  | case3 high low rest ih =>
    rw [bytesOfPairs] at h
    cases hbyte : byteOfPair high low with
    | none => rw [hbyte] at h; cases h
    | some byte =>
      have hread := (byteOfPair_isSome_iff high low).1 (Option.isSome_iff_exists.2 ⟨byte, hbyte⟩)
      rw [hbyte] at h
      cases hrest : bytesOfPairs rest with
      | none => rw [hrest] at h; cases h
      | some bytes => exact .cons hread (ih (Option.isSome_iff_exists.2 ⟨bytes, hrest⟩))

/-- **Where there is no panic the parser is `parseHex32`.** -/
theorem parseHex32_of_readHex32 {hex : String} {parsed : Option Sha256}
    (h : readHex32 hex = .ok parsed) : parseHex32 hex = parsed := by
  by_cases hsize : hex.utf8ByteSize = 64
  · rw [parseHex32, if_neg (not_not_intro hsize)]
    by_cases hpairs : Pairs hex.toList
    · rw [readHex32_of_pairs hsize hpairs] at h
      exact Except.ok.inj h
    · by_cases hstraddles : Straddles hex.toList
      · rw [readHex32_of_straddles hsize hstraddles] at h
        cases h
      · rw [readHex32_of_not hsize hpairs hstraddles] at h
        have hnone : bytesOfPairs hex.toList = none := by
          by_contra hne
          exact hpairs (pairs_of_bytesOfPairs (Option.isSome_iff_ne_none.2 hne))
        rw [hnone]
        exact Except.ok.inj h
  · rw [readHex32_of_size hsize] at h
    rw [parseHex32, if_pos hsize]
    exact Except.ok.inj h

/-! ## Letter case -/

theorem toNat_lt_of_isHexDigit {c : Char} (h : IsHexDigit c) : c.toNat < 128 :=
  Nat.lt_succ_of_le (UInt32.le_iff_toNat_le.1 (val_le_of_isHexDigit h))

/-- The value of a digit does not depend on its case. -/
theorem digitValue_toLower (c : Char) : digitValue 16 c.toLower = digitValue 16 c := by
  by_cases h : c.toNat < 128
  · exact Char.of_ascii (P := fun c => digitValue 16 c.toLower = digitValue 16 c) (by decide) h
  · rw [Char.toLower_of_not_ascii h]

/-- The digit written for the value of a digit is its lower-case form. -/
theorem hexDigit_digitValue {c : Char} {v : ℕ} (h : digitValue 16 c = some v) :
    hexDigit v = c.toLower := by
  have hall : (digitValue 16 c).all (fun v => hexDigit v = c.toLower) = true :=
    Char.of_ascii (P := fun c => (digitValue 16 c).all (fun v => hexDigit v = c.toLower) = true)
      (by decide) (toNat_lt_of_isHexDigit (Option.isSome_iff_exists.2 ⟨v, h⟩))
  rw [h] at hall
  exact of_decide_eq_true hall

/-- A byte read from two digits is written as them, in lower case. -/
theorem hexDigits_byteOfPair {high low : Char} {byte : UInt8} (hhigh : IsHexDigit high)
    (h : byteOfPair high low = some byte) :
    [hexDigit (byte.toNat / 16), hexDigit (byte.toNat % 16)] = [high.toLower, low.toLower] := by
  obtain ⟨x, hx⟩ := Option.isSome_iff_exists.1 hhigh
  have hlow := ((byteOfPair_isSome_iff high low).1 (Option.isSome_iff_exists.2 ⟨byte, h⟩)).2
  obtain ⟨y, hy⟩ := Option.isSome_iff_exists.1 hlow
  have hbyte : UInt8.ofNat (16 * x + y) = byte := by
    rw [byteOfPair, hx, hy] at h
    exact Option.some.inj h
  have hxlt := digitValue_lt hx
  have hylt := digitValue_lt hy
  have hnat : byte.toNat = 16 * x + y := by
    rw [← hbyte, UInt8.toNat_ofNat']
    exact Nat.mod_eq_of_lt (by omega)
  have hdiv : byte.toNat / 16 = x := by omega
  have hmod : byte.toNat % 16 = y := by omega
  rw [hdiv, hmod, hexDigit_digitValue hx, hexDigit_digitValue hy]

/-- Bytes are written as the digits they were read from, in lower case. -/
theorem hexDigits_bytesOfPairs {cs : List Char} {bytes : List UInt8} (h : bytesOfPairs cs = some bytes)
    (hdigits : ∀ c ∈ cs, IsHexDigit c) :
    (bytes.flatMap fun b => [hexDigit (b.toNat / 16), hexDigit (b.toNat % 16)])
      = cs.map Char.toLower := by
  induction cs using bytesOfPairs.induct generalizing bytes with
  | case1 => cases h; rfl
  | case2 => cases h
  | case3 high low rest ih =>
    rw [bytesOfPairs] at h
    obtain ⟨byte, hbyte, h⟩ := Option.bind_eq_some_iff.1 h
    obtain ⟨tail, htail, h⟩ := Option.bind_eq_some_iff.1 h
    cases h
    have hrest := ih htail fun c hc => hdigits c (List.mem_cons_of_mem _ (List.mem_cons_of_mem _ hc))
    rw [List.flatMap_cons, hexDigits_byteOfPair (hdigits high List.mem_cons_self) hbyte, hrest]
    rfl

/-! ## Digests -/

/-- An even number of digits is pairs of digits. -/
theorem pairs_of_digits {cs : List Char} (heven : cs.length % 2 = 0)
    (hdigits : ∀ c ∈ cs, IsHexDigit c) : Pairs cs := by
  induction cs using bytesOfPairs.induct with
  | case1 => exact .nil
  | case2 c => cases heven
  | case3 high low rest ih =>
    have hhigh := hdigits high List.mem_cons_self
    have hlow := hdigits low (List.mem_cons_of_mem _ List.mem_cons_self)
    refine .cons ⟨.inr hhigh, hlow⟩ (ih ?_ fun c hc =>
      hdigits c (List.mem_cons_of_mem _ (List.mem_cons_of_mem _ hc)))
    rw [List.length_cons, List.length_cons] at heven
    omega

/-- Pairs without a sign are digits. -/
theorem Pairs.digits {cs : List Char} (h : Pairs cs) (hsign : '+' ∉ cs) :
    ∀ c ∈ cs, IsHexDigit c := by
  induction h with
  | nil => intro c hc; cases hc
  | @cons high low rest hread _ ih =>
    intro c hc
    rcases List.mem_cons.1 hc with rfl | hc
    · exact hread.1.resolve_left fun hplus => hsign (hplus ▸ List.mem_cons_self)
    · rcases List.mem_cons.1 hc with rfl | hc
      · exact hread.2
      · exact ih (fun hplus => hsign (List.mem_cons_of_mem _ (List.mem_cons_of_mem _ hplus))) c hc

/-- Digits are as many bytes as characters. -/
theorem utf8Len_of_digits {cs : List Char} (hdigits : ∀ c ∈ cs, IsHexDigit c) :
    utf8Len cs = cs.length := by
  induction cs with
  | nil => rfl
  | cons c cs ih =>
    rw [String.utf8Len_cons, ih fun d hd => hdigits d (List.mem_cons_of_mem _ hd),
      utf8Size_of_isHexDigit (hdigits c List.mem_cons_self), List.length_cons]

theorem plus_not_isHexDigit : ¬ IsHexDigit '+' := by decide

namespace IsDigest

variable {hex : String} (h : IsDigest hex)
include h

theorem size : hex.utf8ByteSize = 64 := by
  rw [← utf8Len_toList, utf8Len_of_digits h.2, h.1]

theorem pairs : Pairs hex.toList := pairs_of_digits (by rw [h.1]) h.2

/-- 64 digits are accepted, as the digest written like them in lower case. -/
theorem read : ∃ sha, readHex32 hex = .ok (some sha) ∧ hex32 sha = hex.toLower := by
  obtain ⟨bytes, hbytes, hlen⟩ := h.pairs.exists_bytes
  have hlength : bytes.length = 32 := by
    rw [utf8Len_of_size h.size] at hlen
    omega
  refine ⟨⟨⟨bytes.toArray, hlength⟩⟩, ?_, ?_⟩
  · rw [readHex32_of_pairs h.size h.pairs, hbytes, Option.bind_some, Sha256.ofBytes,
      dif_pos hlength]
  · rw [← String.toList_inj, hex32, toList_pushHex, String.toList_empty, List.nil_append,
      String.toLower, String.toList_map]
    exact hexDigits_bytesOfPairs hbytes h.2

end IsDigest

/-- What is written of a digest is a digest. -/
theorem isDigest_hex32 (sha : Sha256) : IsDigest (hex32 sha) := by
  have hlist : (hex32 sha).toList = sha.bytes.toList.flatMap fun b =>
      [hexDigit (b.toNat / 16), hexDigit (b.toNat % 16)] := by
    rw [hex32, toList_pushHex, String.toList_empty, List.nil_append]
  have hdigits : ∀ c ∈ (hex32 sha).toList, IsHexDigit c := by
    intro c hc
    rw [hlist, List.mem_flatMap] at hc
    obtain ⟨b, -, hb⟩ := hc
    have hlt := b.toNat_lt
    rcases List.mem_pair.1 hb with rfl | rfl
    · exact Option.isSome_iff_exists.2 ⟨_, (digitValue_hexDigit (by omega)).1⟩
    · exact Option.isSome_iff_exists.2 ⟨_, (digitValue_hexDigit (by omega)).1⟩
  refine ⟨?_, hdigits⟩
  rw [← utf8Len_of_digits hdigits, utf8Len_toList, hex32, utf8ByteSize_pushHex,
    String.utf8ByteSize_empty, Vector.length_toList]

theorem isDigest_of_toLower {hex : String} (h : IsDigest hex.toLower) : IsDigest hex := by
  unfold IsDigest at h
  rw [String.toLower, String.toList_map, List.length_map] at h
  refine ⟨h.1, fun c hc => ?_⟩
  have hlower := h.2 _ (List.mem_map_of_mem hc)
  unfold IsHexDigit at hlower
  rwa [digitValue_toLower] at hlower

/-- Different digests are written differently. -/
theorem hex32_injective : Function.Injective hex32 := by
  intro sha sha' heq
  have hparsed := parseHex32_hex32 sha
  rw [heq, parseHex32_hex32] at hparsed
  exact (Option.some.inj hparsed).symm

/-! ## The paths around it -/

/-- A dist path is read as its package and its digest. -/
theorem readDistPath_path {hex : String} (hslash : '/' ∉ hex.toList) (package : String) :
    readDistPath (package ++ "/" ++ hex ++ ".zip")
      = (readHex32 hex).map (Option.map (package, ·)) := by
  have hpath : package ++ "/" ++ hex ++ ".zip" = package ++ String.singleton '/' ++ (hex ++ ".zip") := by
    rw [String.append_assoc]
    rfl
  have hfile : '/' ∉ (hex ++ ".zip").toList := by
    rw [String.toList_append, List.mem_append]
    rintro (hmem | hmem)
    · exact hslash hmem
    · exact absurd hmem (by decide)
  rw [hpath, readDistPath, rsplitOnce_append package hfile]
  show (match stripSuffix ".zip" (hex ++ ".zip") with | none => _ | some _ => _) = _
  rw [stripSuffix_append]

/-- **Where the path is answered, it is answered as `serveDist` answers it.** -/
theorem serveDist_of_serveDistOrPanic {env : ReadEnv} {store : ObjectStore} {db : Catalog}
    {repo : Uuid} {access : Access} {rest : String} {answer : Except AppError ReadAnswer}
    (h : serveDistOrPanic env store db repo access rest = .ok answer) :
    serveDist env store db repo access rest = answer := by
  have hparse : ∀ {parsed}, readDistPath rest = .ok parsed → parseDistPath rest = parsed := by
    intro parsed hparsed
    unfold readDistPath at hparsed
    unfold parseDistPath
    cases hsplit : rsplitOnce '/' rest with
    | none => rw [hsplit] at hparsed; exact Except.ok.inj hparsed
    | some split =>
      obtain ⟨package, file⟩ := split
      rw [hsplit] at hparsed
      show (stripSuffix ".zip" file).bind _ = _
      cases hstrip : stripSuffix ".zip" file with
      | none =>
        simp only [hstrip] at hparsed
        exact Except.ok.inj hparsed
      | some hex =>
        simp only [hstrip] at hparsed
        show (parseHex32 hex).bind _ = _
        cases hread : readHex32 hex with
        | error e => rw [hread] at hparsed; cases hparsed
        | ok sha =>
          rw [parseHex32_of_readHex32 hread]
          rw [hread] at hparsed
          cases sha <;> exact Except.ok.inj hparsed
  unfold serveDistOrPanic at h
  unfold serveDist
  cases hread : readDistPath rest with
  | error e => rw [hread] at h; cases h
  | ok parsed =>
    rw [hparse hread]
    rw [hread] at h
    cases parsed with
    | none => exact Except.ok.inj h
    | some found => exact Except.ok.inj h

/-! ## Exactness -/

/-- A text that is parsed exactly does not panic. -/
theorem ParsedExactly.not_straddles {hex : String} (h : ParsedExactly hex)
    (hsize : hex.utf8ByteSize = 64) : ¬ Straddles hex.toList := by
  intro hstraddles
  obtain ⟨parsed, hparsed⟩ := h.answers
  rw [readHex32_of_straddles hsize hstraddles] at hparsed
  cases hparsed

/-- Pairs with a sign are accepted, and the sign is no digit. -/
theorem ParsedExactly.not_signed {hex : String} (h : ParsedExactly hex)
    (hsize : hex.utf8ByteSize = 64) : ¬ (Pairs hex.toList ∧ '+' ∈ hex.toList) := by
  rintro ⟨hpairs, hsign⟩
  obtain ⟨bytes, hbytes, hlen⟩ := hpairs.exists_bytes
  have hlength : bytes.length = 32 := by
    rw [utf8Len_of_size hsize] at hlen
    omega
  have hread : readHex32 hex = .ok (some ⟨⟨bytes.toArray, hlength⟩⟩) := by
    rw [readHex32_of_pairs hsize hpairs, hbytes, Option.bind_some, Sha256.ofBytes,
      dif_pos hlength]
  exact plus_not_isHexDigit ((h.accepts.1 ⟨_, hread⟩).2 '+' hsign)

/-- Across a slice stands a wide character. -/
theorem Straddles.exists_wide {cs : List Char} (h : Straddles cs) : ∃ c ∈ cs, 2 ≤ c.utf8Size := by
  induction h with
  | high rest hc => exact ⟨_, List.mem_cons_self, by omega⟩
  | low rest _ hd => exact ⟨_, List.mem_cons_of_mem _ List.mem_cons_self, hd⟩
  | later _ _ ih =>
    obtain ⟨c, hc, hwide⟩ := ih
    exact ⟨c, List.mem_cons_of_mem _ (List.mem_cons_of_mem _ hc), hwide⟩

/-- **A text is parsed exactly where it is not 64 bytes long, or no character crosses the end of
a pair that is reached and it is not 32 pairs that read with a sign among them.** -/
theorem parsedExactly_iff (hex : String) :
    ParsedExactly hex ↔ (hex.utf8ByteSize = 64 →
      ¬ Straddles hex.toList ∧ ¬ (Pairs hex.toList ∧ '+' ∈ hex.toList)) := by
  constructor
  · intro h hsize
    exact ⟨h.not_straddles hsize, h.not_signed hsize⟩
  · intro hcond
    -- What is accepted is 64 digits, and nothing panics.
    have hfate : IsDigest hex ∨ readHex32 hex = .ok none := by
      by_cases hsize : hex.utf8ByteSize = 64
      · obtain ⟨hstraddles, hsigned⟩ := hcond hsize
        by_cases hpairs : Pairs hex.toList
        · have hdigits := hpairs.digits fun hsign => hsigned ⟨hpairs, hsign⟩
          refine .inl ⟨?_, hdigits⟩
          rw [← utf8Len_of_digits hdigits, utf8Len_of_size hsize]
        · exact .inr (readHex32_of_not hsize hpairs hstraddles)
      · exact .inr (readHex32_of_size hsize)
    have hdigest : ∀ {sha}, readHex32 hex = .ok (some sha) → IsDigest hex := by
      intro sha hread
      rcases hfate with h | hnone
      · exact h
      · rw [hnone] at hread
        cases hread
    have hanswers : ∃ parsed, readHex32 hex = .ok parsed := by
      rcases hfate with h | hnone
      · obtain ⟨sha, hread, -⟩ := h.read
        exact ⟨_, hread⟩
      · exact ⟨_, hnone⟩
    refine ⟨hanswers, ⟨fun ⟨sha, hread⟩ => hdigest hread, fun h => ?_⟩, fun sha => ⟨fun hread => ?_,
      fun hlower => ?_⟩, fun env store db repo access package hslash => ?_, ?_⟩
    · obtain ⟨sha, hread, -⟩ := h.read
      exact ⟨sha, hread⟩
    · obtain ⟨sha', hread', hlower⟩ := (hdigest hread).read
      rw [hread] at hread'
      cases hread'
      exact hlower
    · have h : IsDigest hex := isDigest_of_toLower (hlower ▸ isDigest_hex32 sha)
      obtain ⟨sha', hread, hlower'⟩ := h.read
      rw [hread, hex32_injective (hlower'.trans hlower.symm)]
    · obtain ⟨parsed, hread⟩ := hanswers
      unfold serveDistOrPanic
      rw [readDistPath_path hslash, hread]
      cases parsed with
      | none => exact ⟨_, rfl⟩
      | some sha => exact ⟨_, rfl⟩
    · obtain ⟨parsed, hread⟩ := hanswers
      unfold expectedSha
      rw [hread]
      exact ⟨_, rfl⟩

namespace SentDigests

/-- A digest in capitals. -/
def capitals : String := String.ofList (List.replicate 64 'A')

/-- 64 bytes whose second character takes two. -/
def crossed : String := String.ofList ('a' :: 'é' :: List.replicate 61 'a')

/-- 32 pairs of a sign and a digit. -/
def signs : String := String.ofList (List.replicate 32 ['+', 'f']).flatten

theorem toList_capitals : capitals.toList = List.replicate 64 'A' := String.toList_ofList

theorem toList_crossed : crossed.toList = 'a' :: 'é' :: List.replicate 61 'a' :=
  String.toList_ofList

theorem toList_signs : signs.toList = (List.replicate 32 ['+', 'f']).flatten :=
  String.toList_ofList

theorem parsedExactly_capitals : ParsedExactly capitals := by
  refine (parsedExactly_iff capitals).2 fun _ => ⟨fun h => ?_, fun ⟨_, hsign⟩ => ?_⟩
  · obtain ⟨c, hc, hwide⟩ := h.exists_wide
    rw [toList_capitals] at hc
    rw [List.eq_of_mem_replicate hc] at hwide
    exact absurd hwide (by decide)
  · rw [toList_capitals] at hsign
    exact absurd (List.eq_of_mem_replicate hsign) (by decide)

/-- The crossed text has the length of a digest. -/
theorem crossed_size : crossed.utf8ByteSize = 64 := by
  rw [← utf8Len_toList, toList_crossed]
  rfl

theorem signs_size : signs.utf8ByteSize = 64 := by
  rw [← utf8Len_toList, toList_signs]
  rfl

/-- The wide character is across the first slice. -/
theorem crossed_straddles : Straddles crossed.toList := by
  rw [toList_crossed]
  exact .low _ (by decide) (by decide)

/-- A sign with a digit is read as a byte. -/
theorem signs_pairs (n : ℕ) : Pairs (List.replicate n ['+', 'f']).flatten := by
  induction n with
  | zero => exact .nil
  | succ n ih => exact .cons ⟨.inl rfl, by decide⟩ ih

/-- **One text of 64 bytes is a panic, and another is accepted without being 64 digits.** -/
theorem crossed_panics :
    readHex32 crossed = .error .charBoundary ∧ ¬ ParsedExactly crossed ∧ ¬ ParsedExactly signs := by
  refine ⟨readHex32_of_straddles crossed_size crossed_straddles,
    fun h => h.not_straddles crossed_size crossed_straddles,
    fun h => h.not_signed signs_size ⟨?_, ?_⟩⟩
  · rw [toList_signs]
    exact signs_pairs 32
  · rw [toList_signs]
    exact List.mem_cons_self

end SentDigests

end Sconce
