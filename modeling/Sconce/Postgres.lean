/-
# What the catalog asks of Postgres

The scalar functions and operators that appear in the catalog's SQL, under
their SQL names.  NULL is `none`.  A cast that raises an error returns `none`
from a function whose value is otherwise not nullable.

What depends on the session's time zone (adding an interval to a `timestamptz`,
printing a date) is a structure `Session`; `Session.utc` is the session of a
server that runs in UTC.
-/
import Sconce.Lib.Calendar
import Sconce.Lib.Ceiling

namespace Sconce

/-! ## NULL -/

/-- `coalesce(a, b)`. -/
def coalesce {α : Type*} (a b : Option α) : Option α := a.or b

/-- `greatest(a, b)`: NULL arguments are ignored. -/
def greatest {α : Type*} [Max α] : Option α → Option α → Option α
  | some a, some b => some (max a b)
  | some a, none => some a
  | none, b => b

@[simp] theorem coalesce_none_right {α : Type*} (a : Option α) : coalesce a none = a :=
  Option.or_none

@[simp] theorem coalesce_some {α : Type*} (a : α) (b : Option α) : coalesce (some a) b = some a :=
  rfl

@[simp] theorem coalesce_none {α : Type*} (b : Option α) : coalesce none b = b := rfl

/-! ## Timestamps -/

/-- A `timestamptz`: microseconds since 1970-01-01 00:00 UTC. -/
abbrev Timestamp := ℤ

/-- The range of a `timestamptz`: from 4714-11-24 BC, the first day of the calendar of Postgres, to
the end of the year 294276.  What is computed outside of it is the error `timestamp out of range`. -/
def InTimestampRange (t : Timestamp) : Prop := -210866803200000000 ≤ t ∧ t < 9224318016000000000

instance (t : Timestamp) : Decidable (InTimestampRange t) :=
  inferInstanceAs (Decidable (-210866803200000000 ≤ t ∧ t < 9224318016000000000))

/-- `to_timestamp(s)`, where that is in range. -/
def toTimestamp (s : ℤ) : Timestamp := s * 1000000

/-- `extract(epoch from t)::bigint`: the cast rounds to the nearest second, halves
away from zero. -/
def epochSeconds (t : ℤ) : ℤ :=
  if 0 ≤ t then (t + 500000) / 1000000 else -((-t + 500000) / 1000000)

theorem epochSeconds_monotone : Monotone epochSeconds := by
  intro a b hab
  unfold epochSeconds
  split_ifs <;> omega

theorem toTimestamp_monotone : Monotone toTimestamp := by
  intro a b hab
  exact Int.mul_le_mul_of_nonneg_right hab (by decide)

/-- The part of date arithmetic and date printing that the session's time zone
decides.  The calendar goes on beyond the range of a `timestamptz` here; a query that
can leave the range asks `plusDays`. -/
structure Session where
  /-- `t + make_interval(months => n)`. -/
  addMonths : Timestamp → ℤ → Timestamp
  /-- `t + make_interval(days => n)`, in range or not. -/
  addDays : Timestamp → ℤ → Timestamp
  /-- `to_char(t, 'YYYY-MM-DD')`. -/
  dateText : Timestamp → String
  /-- Adding months moves forward. -/
  lt_addMonths : ∀ t n, 0 < n → t < addMonths t n

namespace Session

/-- `t + make_interval(days => n)`, with `none` for the error of a date out of range. -/
def plusDays (ses : Session) (t : Timestamp) (n : ℤ) : Option Timestamp :=
  if InTimestampRange (ses.addDays t n) then some (ses.addDays t n) else none

/-- One day in microseconds. -/
def day : ℤ := 86400000000

/-- The calendar number of 1970-01-01. -/
def unixEpoch : ℤ := Calendar.yearStart 1970

/-- Month arithmetic on the UTC calendar date, the time of the day unchanged. -/
def utcAddMonths (t : Timestamp) (n : ℤ) : Timestamp :=
  (Calendar.addMonths (t / day + unixEpoch) n - unixEpoch) * day + t % day

/-- Decimal digits padded with zeros on the left. -/
def padded (width : ℕ) (n : ℤ) : String :=
  let digits := (toString n).toList
  String.ofList (List.replicate (width - digits.length) '0' ++ digits)

/-- `YYYY-MM-DD` of the UTC calendar date; years before 1 print their BC number. -/
def utcDateText (t : Timestamp) : String :=
  let (k, o) := Calendar.monthOf (t / day + unixEpoch)
  let year := if 0 < k / 12 then k / 12 else 1 - k / 12
  padded 4 year ++ "-" ++ padded 2 (k % 12 + 1) ++ "-" ++ padded 2 (o + 1)

theorem lt_utcAddMonths (t : Timestamp) (n : ℤ) (hn : 0 < n) : t < utcAddMonths t n := by
  have hday := Calendar.lt_addMonths (t / day + unixEpoch) hn
  have hsplit : t / day * day + t % day = t := Int.ediv_mul_add_emod t day
  have hpos : 0 < day := by decide
  unfold utcAddMonths
  have hlt : t / day * day < (Calendar.addMonths (t / day + unixEpoch) n - unixEpoch) * day :=
    mul_lt_mul_of_pos_right (lt_sub_iff_add_lt.2 hday) hpos
  linarith

/-- The session of a server in UTC. -/
def utc : Session where
  addMonths := utcAddMonths
  addDays := fun t n => t + n * day
  dateText := utcDateText
  lt_addMonths := lt_utcAddMonths

example : utc.dateText (utc.addMonths (toTimestamp 1706659200) 1) = "2024-02-29" := by decide

end Session

/-! ## Text -/

/-- Whether `text like pattern`: `%` is any run of characters, `_` any one
character, a backslash takes the next character literally.  A pattern that ends
in a lone backslash matches nothing; where a match gets to that backslash, Postgres
raises an error instead (`loneEscape`). -/
def likeChars : List Char → List Char → Bool
  | [], text => text.isEmpty
  | '%' :: p, text => text.tails.any (likeChars p)
  | '\\' :: [], _ => false
  | '\\' :: c :: p, text =>
      match text with
      | [] => false
      | x :: rest => x == c && likeChars p rest
  | c :: p, text =>
      match text with
      | [] => false
      | x :: rest => (c == '_' || x == c) && likeChars p rest

/-- The pattern ends in a backslash that has nothing to escape. -/
def loneEscape : List Char → Bool
  | [] => false
  | '\\' :: [] => true
  | '\\' :: _ :: p => loneEscape p
  | _ :: p => loneEscape p

/-- `name like replace(glob, '*', '%')`. -/
def globMatches (glob name : String) : Bool :=
  likeChars (glob.toList.map fun c => if c == '*' then '%' else c) name.toList

example : globMatches "acme/*" "acme/tools" = true := by decide

/-- `split_part(text, '.', 1)`. -/
def splitPartDot (text : String) : List Char := text.toList.takeWhile (· ≠ '.')

/-- The value of a digit in a base up to 16. -/
def digitValue (base : ℕ) (c : Char) : Option ℕ :=
  let v :=
    if '0' ≤ c ∧ c ≤ '9' then some (c.toNat - '0'.toNat)
    else if 'a' ≤ c ∧ c ≤ 'f' then some (c.toNat - 'a'.toNat + 10)
    else if 'A' ≤ c ∧ c ≤ 'F' then some (c.toNat - 'A'.toNat + 10)
    else none
  v.filter (· < base)

/-- Read digits, single underscores between them allowed: the value so far, the
number of digits read and the rest of the text. -/
def scanDigits (base : ℕ) : ℕ → ℕ → List Char → Option (ℕ × ℕ × List Char)
  | acc, seen, [] => some (acc, seen, [])
  | acc, seen, c :: cs =>
      match digitValue base c with
      | some v => scanDigits base (acc * base + v) (seen + 1) cs
      | none =>
          if c == '_' then
            match cs with
            | [] => none
            | d :: _ =>
                if (digitValue base d).isSome && (base != 10 || seen != 0) then
                  scanDigits base acc seen cs
                else none
          else some (acc, seen, c :: cs)

/-- The white space `int4` input skips at either end. -/
def isSpace (c : Char) : Bool :=
  c == ' ' || c == '\t' || c == '\n' || c == '\r' || c.toNat == 11 || c.toNat == 12

/-- `text::int`, with `none` for the error an unreadable or too large number
raises. -/
def castInt (text : List Char) : Option ℤ :=
  let body := text.dropWhile isSpace
  let (negative, body) :=
    match body with
    | '-' :: rest => (true, rest)
    | '+' :: rest => (false, rest)
    | rest => (false, rest)
  let (base, body) :=
    match body with
    | '0' :: 'x' :: rest | '0' :: 'X' :: rest => (16, rest)
    | '0' :: 'o' :: rest | '0' :: 'O' :: rest => (8, rest)
    | '0' :: 'b' :: rest | '0' :: 'B' :: rest => (2, rest)
    | rest => (10, rest)
  match scanDigits base 0 0 body with
  | none => none
  | some (value, seen, rest) =>
      if seen = 0 ∨ ¬ rest.all isSpace then none
      else
        let n : ℤ := if negative then -value else value
        if -2147483648 ≤ n ∧ n ≤ 2147483647 then some n else none

example : castInt "12".toList = some 12 ∧ castInt "dev-main".toList = none := by decide

end Sconce
