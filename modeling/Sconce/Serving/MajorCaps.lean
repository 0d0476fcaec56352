/-
# Version-capped licences

`visible_versions` compares the first component of a normalized version, read as an `int`,
with the cap of the key.  The component of a version that a registry supplies is any text: one
version of a package that does not read as an `int`, a development branch for instance, fails
the query for every capped key (`visibleVersions_capped_iff`).  So does a release date that the
cooldown or the grace of the version moves out of the range of a `timestamptz`.
-/
import Sconce.Serving.ApprovalQueue

namespace Sconce

/-! ## Decimal numbers -/

/-- A decimal number. -/
def IsDecimal (text : List Char) : Prop := text ≠ [] ∧ ∀ c ∈ text, c.isDigit = true

instance (text : List Char) : Decidable (IsDecimal text) := by
  unfold IsDecimal
  infer_instance

/-- The number digits spell after what was read before them. -/
def decimalFrom (acc : ℕ) (digits : List Char) : ℕ :=
  digits.foldl (fun n c => n * 10 + (c.toNat - '0'.toNat)) acc

/-- The number a decimal number spells. -/
def decimalValue (digits : List Char) : ℕ := decimalFrom 0 digits

theorem digitValue_of_isDigit {c : Char} (h : c.isDigit = true) :
    digitValue 10 c = some (c.toNat - '0'.toNat) := by
  have hbounds : 48 ≤ c.toNat ∧ c.toNat ≤ 57 := Char.isDigit_iff_toNat.1 h
  have hrange : '0' ≤ c ∧ c ≤ '9' := hbounds
  unfold digitValue
  rw [if_pos hrange, Option.filter_some, if_pos]
  show decide (c.toNat - 48 < 10) = true
  rw [decide_eq_true_eq]
  omega

/-- Digits are read to their end. -/
theorem scanDigits_of_isDigit {digits : List Char} (h : ∀ c ∈ digits, c.isDigit = true)
    (acc seen : ℕ) :
    scanDigits 10 acc seen digits = some (decimalFrom acc digits, seen + digits.length, []) := by
  induction digits generalizing acc seen with
  | nil => rfl
  | cons c digits ih =>
    rw [List.forall_mem_cons] at h
    unfold scanDigits
    rw [digitValue_of_isDigit h.1]
    dsimp only
    rw [ih h.2, List.length_cons, Nat.add_right_comm, Nat.add_assoc]
    rfl

theorem ne_of_isDigit {c d : Char} (h : c.isDigit = true) (hd : d.isDigit = false) : c ≠ d := by
  rintro rfl
  exact absurd (h.symm.trans hd) nofun

theorem not_isSpace_of_isDigit {c : Char} (h : c.isDigit = true) : isSpace c = false := by
  have hbounds : 48 ≤ c.toNat ∧ c.toNat ≤ 57 := Char.isDigit_iff_toNat.1 h
  unfold isSpace
  simp only [Bool.or_eq_false_iff, beq_eq_false_iff_ne]
  refine ⟨⟨⟨⟨⟨?_, ?_⟩, ?_⟩, ?_⟩, ?_⟩, ?_⟩
  · exact ne_of_isDigit h (by decide)
  · exact ne_of_isDigit h (by decide)
  · exact ne_of_isDigit h (by decide)
  · exact ne_of_isDigit h (by decide)
  · omega
  · omega

/-- The sign an `int` text begins with: whether it is a minus, and the text after it. -/
def signOf : List Char → Bool × List Char
  | '-' :: rest => (true, rest)
  | '+' :: rest => (false, rest)
  | rest => (false, rest)

/-- The base an `int` text announces, and the text after it. -/
def baseOf : List Char → ℕ × List Char
  | '0' :: 'x' :: rest | '0' :: 'X' :: rest => (16, rest)
  | '0' :: 'o' :: rest | '0' :: 'O' :: rest => (8, rest)
  | '0' :: 'b' :: rest | '0' :: 'B' :: rest => (2, rest)
  | rest => (10, rest)

/-- The value of what was scanned, if it is an `int`. -/
def intOf (negative : Bool) : Option (ℕ × ℕ × List Char) → Option ℤ
  | none => none
  | some (value, seen, rest) =>
    if seen = 0 ∨ ¬ rest.all isSpace then none
    else
      let n : ℤ := if negative then -value else value
      if -2147483648 ≤ n ∧ n ≤ 2147483647 then some n else none

/-- A cast reads a sign, a base and digits. -/
theorem castInt_eq (text : List Char) :
    castInt text =
      intOf (signOf (text.dropWhile isSpace)).1
        (scanDigits (baseOf (signOf (text.dropWhile isSpace)).2).1 0 0
          (baseOf (signOf (text.dropWhile isSpace)).2).2) := rfl

/-- A text that begins with a digit has no sign. -/
theorem signOf_of_isDigit {c : Char} (h : c.isDigit = true) (rest : List Char) :
    signOf (c :: rest) = (false, c :: rest) := by
  unfold signOf
  split
  · rename_i heq
    obtain ⟨rfl, -⟩ := List.cons.inj heq
    exact absurd h nofun
  · rename_i heq
    obtain ⟨rfl, -⟩ := List.cons.inj heq
    exact absurd h nofun
  · rfl

theorem baseOf_of_isDigit {text : List Char} (h : ∀ c ∈ text, c.isDigit = true) :
    baseOf text = (10, text) := by
  unfold baseOf
  split
  case h_7 => rfl
  all_goals
    -- the letter of a base in the second place
    exact absurd (h _ (List.mem_cons_of_mem _ List.mem_cons_self)) (by decide)

/-- A decimal number reads as its value, up to the greatest `int`. -/
theorem castInt_of_isDecimal {text : List Char} (h : IsDecimal text) :
    castInt text =
      if decimalValue text ≤ 2147483647 then some (decimalValue text : ℤ) else none := by
  obtain ⟨hne, hdigits⟩ := h
  obtain ⟨c, rest, rfl⟩ := List.exists_cons_of_ne_nil hne
  have hc : c.isDigit = true := hdigits c List.mem_cons_self
  have hdrop : (c :: rest).dropWhile isSpace = c :: rest := by
    rw [List.dropWhile_cons, not_isSpace_of_isDigit hc]
    rfl
  rw [castInt_eq, hdrop, signOf_of_isDigit hc]
  dsimp only
  rw [baseOf_of_isDigit hdigits]
  dsimp only
  rw [scanDigits_of_isDigit hdigits]
  unfold intOf
  dsimp only
  rw [if_neg (by simp), if_neg Bool.false_ne_true]
  unfold decimalValue
  by_cases hle : decimalFrom 0 (c :: rest) ≤ 2147483647
  · rw [if_pos hle, if_pos (by omega)]
  · rw [if_neg hle, if_neg (by omega)]

/-! ## The major version -/

/-- A decimal major that reads is compared by its value. -/
theorem majorClause_of_isDecimal {cap : ℤ} {normalizedVersion : String}
    (hdecimal : IsDecimal (splitPartDot normalizedVersion)) {keep : Bool}
    (h : majorClause (some cap) normalizedVersion = .ok keep) :
    keep = decide ((decimalValue (splitPartDot normalizedVersion) : ℤ) ≤ cap) := by
  unfold majorClause majorOf at h
  dsimp only at h
  split at h
  · rename_i hempty
    exact absurd hempty hdecimal.1
  · rw [castInt_of_isDecimal hdecimal] at h
    split_ifs at h with hle
    · exact (Except.ok.inj h).symm
    · cases h

/-! ## The query under a cap -/

namespace Catalog

variable (db : Catalog) (repo : Uuid) (ses : Session)
  (compareNormalized : String → String → Ordering) (now : Timestamp) (name : String)
  (mode : UpdateMode) (cooldownDays : ℤ) (untilUnix : Option ℤ)

/-- The cap breaks nothing: the query answers, with every version of a decimal major up to the
cap that it returns without the cap, and none of a greater one. -/
def CapBreaksNothing (cap : ℤ) : Prop :=
  ∃ uncapped rows,
    db.visibleVersions repo ses compareNormalized now name mode cooldownDays untilUnix none
      = .ok uncapped ∧
    db.visibleVersions repo ses compareNormalized now name mode cooldownDays untilUnix (some cap)
      = .ok rows ∧
    (∀ r ∈ uncapped, IsDecimal (splitPartDot r.key.normalizedVersion) →
      (decimalValue (splitPartDot r.key.normalizedVersion) : ℤ) ≤ cap → r ∈ rows) ∧
    ∀ r ∈ rows, IsDecimal (splitPartDot r.key.normalizedVersion) →
      (decimalValue (splitPartDot r.key.normalizedVersion) : ℤ) ≤ cap

end Catalog

/-! ## A development branch of a registry -/

namespace BranchShop

/-- A repository that serves what it mirrors at once. -/
def repository : Repository := ⟨1, "main", .auto, 0, true, false, none, none, none⟩

/-- A version as the mirror of a registry inserts it. -/
def mirrored (version normalizedVersion : String) : VersionKey × PackageVersion :=
  (⟨2, normalizedVersion⟩,
    mirroredVersion version "stable" (.object []) DelayedShop.digest "" none none)

/-- A release and a development branch. -/
def branched : Catalog :=
  { Catalog.empty with
    repositories := Table.empty.insertNew 1 repository
    packages := Table.empty.insertNew 2 DelayedShop.tools
    packageVersions :=
      ⟨[mirrored "1.0.0" "1.0.0.0", mirrored "dev-main" "dev-main"], by decide⟩ }

/-- The row of the development branch. -/
def branch : Catalog.VersionRow :=
  ⟨DelayedShop.tools, (mirrored "dev-main" "dev-main").1, (mirrored "dev-main" "dev-main").2⟩

example : branched.visibleVersions 1 .utc compare 0 "acme/tools" .auto 0 none (some 1)
    = .error .castError := rfl

end BranchShop

end Sconce
