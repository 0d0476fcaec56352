/-
# Delimited records

Fields joined by a separator, and split again into at most so many pieces.  A field without the
separator is read back; of one that has it, what stands before the first.
-/
import Sconce.Lib.Trimming

section Delimited

variable {α : Type*} [DecidableEq α]

/-- Split into at most `n` pieces; the last keeps the separators left. -/
def splitN (n : ℕ) (sep : α) (s : List α) : List (List α) :=
  match n with
  | 0 => []
  | 1 => [s]
  | n + 2 =>
    match s.dropWhile (· ≠ sep) with
    | [] => [s]
    | _ :: rest => s.takeWhile (· ≠ sep) :: splitN (n + 1) sep rest

variable {sep : α} {field : List α}

/-- A field without the separator is the first piece. -/
theorem splitN_append (n : ℕ) (h : sep ∉ field) (rest : List α) :
    splitN (n + 2) sep (field ++ sep :: rest) = field :: splitN (n + 1) sep rest := by
  rw [splitN, List.dropWhile_ne_append h, List.takeWhile_ne_append h]

/-- Of a field that has the separator, what stands before the first is the first piece. -/
theorem head_splitN_append (n : ℕ) (field rest : List α) :
    (splitN (n + 2) sep (field ++ sep :: rest)).head? = some (field.takeWhile (· ≠ sep)) := by
  by_cases h : sep ∈ field
  · obtain ⟨before, after, rfl, hbefore⟩ := List.eq_append_cons_of_mem h
    rw [List.append_assoc, List.cons_append, splitN_append n hbefore, List.head?_cons,
      List.takeWhile_ne_append hbefore]
  · rw [splitN_append n h, List.head?_cons, List.takeWhile_eq_self_iff.2]
    exact fun a ha => decide_eq_true fun heq => h (heq ▸ ha)

/-- Before the first separator there is none. -/
theorem notMem_takeWhile (sep : α) (field : List α) : sep ∉ field.takeWhile (· ≠ sep) := by
  intro h
  exact absurd (List.mem_takeWhile_imp h) (by simp)

end Delimited
