/-
# Slices of a text by byte offsets

A text is its characters, and an offset counts the bytes of their UTF-8 forms.  A slice
exists where both its ends fall between two characters; two bytes are a character of two
bytes, or two characters of one.
-/
import Mathlib

namespace ByteSlices

open String (utf8Len)

/-- An offset inside a character, or behind the text. -/
inductive Panic where
  | charBoundary
  deriving DecidableEq

/-- What follows the first `n` bytes. -/
def dropBytes : ℕ → List Char → Option (List Char)
  | 0, cs => some cs
  | _ + 1, [] => none
  | n + 1, c :: cs => if c.utf8Size ≤ n + 1 then dropBytes (n + 1 - c.utf8Size) cs else none

/-- The first `n` bytes. -/
def takeBytes : ℕ → List Char → Option (List Char)
  | 0, _ => some []
  | _ + 1, [] => none
  | n + 1, c :: cs =>
    if c.utf8Size ≤ n + 1 then (takeBytes (n + 1 - c.utf8Size) cs).map (c :: ·) else none

/-- `&text[start..stop]`. -/
def slice (cs : List Char) (start stop : ℕ) : Except Panic (List Char) :=
  ((dropBytes start cs).bind (takeBytes (stop - start))).elim (.error .charBoundary) .ok

example : slice ['a', 'é', 'b'] 1 3 = .ok ['é'] ∧ slice ['a', 'é', 'b'] 0 2 = .error .charBoundary := by
  decide

theorem dropBytes_append (before rest : List Char) :
    dropBytes (utf8Len before) (before ++ rest) = some rest := by
  induction before with
  | nil => rw [String.utf8Len_nil, List.nil_append, dropBytes]
  | cons c before ih =>
    have hc := c.utf8Size_pos
    obtain ⟨n, hn⟩ : ∃ n, utf8Len (c :: before) = n + 1 :=
      ⟨utf8Len before + c.utf8Size - 1, by rw [String.utf8Len_cons]; omega⟩
    have hrest : n + 1 - c.utf8Size = utf8Len before := by
      rw [← hn, String.utf8Len_cons, Nat.add_sub_cancel]
    have hle : c.utf8Size ≤ n + 1 := by
      rw [← hn, String.utf8Len_cons]
      exact Nat.le_add_left _ _
    rw [hn, List.cons_append, dropBytes, if_pos hle, hrest, ih]

/-- A slice behind whole characters starts at the next one. -/
theorem slice_append (before rest : List Char) (n : ℕ) :
    slice (before ++ rest) (utf8Len before) (utf8Len before + n)
      = (takeBytes n rest).elim (.error .charBoundary) .ok := by
  rw [slice, dropBytes_append, Option.bind_some, Nat.add_sub_cancel_left]

/-- A character of three or more bytes does not end after two. -/
theorem takeBytes_two_wide {c : Char} (h : 3 ≤ c.utf8Size) (rest : List Char) :
    takeBytes 2 (c :: rest) = none := by
  rw [takeBytes, if_neg (by omega)]

/-- A character of two bytes is its own slice. -/
theorem takeBytes_two_double {c : Char} (h : c.utf8Size = 2) (rest : List Char) :
    takeBytes 2 (c :: rest) = some [c] := by
  rw [takeBytes, if_pos (by omega), h, Nat.sub_self, takeBytes, Option.map_some]

/-- Behind a character of one byte, the second one has to be of one byte too. -/
theorem takeBytes_two_single {c : Char} (h : c.utf8Size = 1) (d : Char) (rest : List Char) :
    takeBytes 2 (c :: d :: rest) = if 2 ≤ d.utf8Size then none else some [c, d] := by
  have hd := d.utf8Size_pos
  have hone : 1 + 1 - c.utf8Size = 0 + 1 := by omega
  rw [takeBytes, if_pos (by omega), hone, takeBytes]
  by_cases hlow : 2 ≤ d.utf8Size
  · rw [if_pos hlow, if_neg (by omega), Option.map_none]
  · have hlast : 0 + 1 - d.utf8Size = 0 := by omega
    rw [if_neg hlow, if_pos (by omega), hlast, takeBytes, Option.map_some, Option.map_some]

end ByteSlices
