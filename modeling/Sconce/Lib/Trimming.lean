/-
# Trimming and cutting lists

`trimEnds p` takes what satisfies `p` off both ends of a list.  What is left is `Trimmed`, and only
a trimmed list is left as it is (`trimEnds_eq_self_iff`).

`cutAt a` cuts a list at the first occurrence of `a`.
-/
import Mathlib.Data.List.DropRight

namespace List

variable {α : Type*} {p : α → Bool} {l l' : List α} {a : α}

/-! ## Trimming -/

/-- Neither end of the list satisfies `p`. -/
structure Trimmed (p : α → Bool) (l : List α) : Prop where
  head : ∀ a ∈ l.head?, p a = false
  last : ∀ a ∈ l.getLast?, p a = false

/-- What is left when what satisfies `p` is taken off both ends. -/
def trimEnds (p : α → Bool) (l : List α) : List α := (l.dropWhile p).rdropWhile p

/-- What is dropped whole at the end might not be there. -/
theorem rdropWhile_append_of_all {y : List α} (hy : ∀ a ∈ y, p a) :
    (l ++ y).rdropWhile p = l.rdropWhile p := by
  unfold rdropWhile
  rw [reverse_append, dropWhile_append_of_pos fun a ha => hy a (mem_reverse.1 ha)]

/-- Nothing is dropped where the last stays. -/
theorem rdropWhile_eq_self_of_last (h : ∀ a ∈ l.getLast?, p a = false) : l.rdropWhile p = l := by
  rw [rdropWhile_eq_self_iff]
  intro hl hp
  rw [h _ (getLast_mem_getLast? hl)] at hp
  cases hp

/-- What ends in something else stays before what is dropped. -/
theorem rdropWhile_append_of_last (h : ∀ a ∈ l.getLast?, p a = false) :
    (l ++ l').rdropWhile p = l ++ l'.rdropWhile p := by
  induction l' using reverseRecOn with
  | nil => rw [append_nil, rdropWhile_nil, append_nil, rdropWhile_eq_self_of_last h]
  | append_singleton l' a ih =>
    rw [← append_assoc, rdropWhile_concat, rdropWhile_concat, ih]
    split_ifs
    · rfl
    · rw [append_assoc]

/-- Nothing is dropped where the first stays. -/
theorem dropWhile_eq_self_of_head (h : ∀ a ∈ l.head?, p a = false) : l.dropWhile p = l := by
  cases l with
  | nil => rfl
  | cons a l => exact dropWhile_cons_of_neg (by simp [h a rfl])

/-- What begins with something else stays behind what is dropped. -/
theorem dropWhile_append_of_head (h : ∀ a ∈ l'.head?, p a = false) :
    (l ++ l').dropWhile p = l.dropWhile p ++ l' := by
  rw [dropWhile_append]
  split_ifs with hnil
  · rw [isEmpty_iff.1 hnil, nil_append, dropWhile_eq_self_of_head h]
  · rfl

/-- Nothing is dropped exactly where the first stays. -/
theorem dropWhile_eq_self_iff_head : l.dropWhile p = l ↔ ∀ a ∈ l.head?, p a = false := by
  refine ⟨fun h a ha => ?_, dropWhile_eq_self_of_head⟩
  have hhead := head?_dropWhile_not p l
  rw [h, Option.mem_def.1 ha] at hhead
  exact hhead

/-- Nothing is dropped exactly where the last stays. -/
theorem rdropWhile_eq_self_iff_last : l.rdropWhile p = l ↔ ∀ a ∈ l.getLast?, p a = false := by
  refine ⟨fun h a ha => ?_, rdropWhile_eq_self_of_last⟩
  obtain ⟨x, rfl⟩ := getLast?_eq_some_iff.1 ha
  rw [rdropWhile_concat] at h
  split_ifs at h with hp
  · have hle := ( rdropWhile_prefix p x).length_le
    rw [h, length_append, length_singleton] at hle
    omega
  · exact eq_false_of_ne_true hp

theorem Trimmed.trimEnds_eq (h : l.Trimmed p) : l.trimEnds p = l := by
  unfold trimEnds
  rw [dropWhile_eq_self_of_head h.head, rdropWhile_eq_self_of_last h.last]

/-- The padding around a list is trimmed with it. -/
theorem trimEnds_padded {x y : List α} (hx : ∀ a ∈ x, p a) (hy : ∀ a ∈ y, p a) :
    (x ++ l ++ y).trimEnds p = l.trimEnds p := by
  unfold trimEnds
  rw [append_assoc, dropWhile_append_of_pos hx, dropWhile_append]
  split_ifs with hnil
  · rw [isEmpty_iff.1 hnil, rdropWhile_nil, dropWhile_eq_nil_iff.2 hy, rdropWhile_nil]
  · exact rdropWhile_append_of_all hy

theorem trimmed_trimEnds (p : α → Bool) (l : List α) : (l.trimEnds p).Trimmed p where
  head a ha := by
    obtain ⟨rest, hrest⟩ := rdropWhile_prefix p (l := l.dropWhile p)
    have hhead : a ∈ (l.dropWhile p).head? := by
      rw [← hrest, head?_append_of_ne_nil]
      · exact ha
      · rintro hnil
        unfold trimEnds at ha
        rw [hnil] at ha
        cases ha
    have := head?_dropWhile_not p l
    rw [Option.mem_def.1 hhead] at this
    exact this
  last := rdropWhile_eq_self_iff_last.1 (rdropWhile_idempotent p _)

/-- A list stays exactly where it is trimmed. -/
theorem trimEnds_eq_self_iff : l.trimEnds p = l ↔ l.Trimmed p :=
  ⟨fun h => h ▸ trimmed_trimEnds p l, Trimmed.trimEnds_eq⟩

theorem trimEnds_eq_nil_iff : l.trimEnds p = [] ↔ ∀ a ∈ l, p a := by
  unfold trimEnds
  rw [rdropWhile_eq_nil_iff, ← dropWhile_eq_nil_iff, dropWhile_idempotent, dropWhile_eq_nil_iff]

theorem trimEnds_isInfix (p : α → Bool) (l : List α) : l.trimEnds p <:+: l :=
  ( rdropWhile_prefix p _).isInfix.trans (dropWhile_suffix p).isInfix

theorem length_trimEnds_le (p : α → Bool) (l : List α) : (l.trimEnds p).length ≤ l.length :=
  (trimEnds_isInfix p l).length_le

/-! ## Cutting -/

variable [DecidableEq α]

/-- The list before and after the first `a`. -/
def cutAt (a : α) (l : List α) : Option (List α × List α) :=
  match l.dropWhile (· ≠ a) with
  | [] => none
  | _ :: after => some (l.takeWhile (· ≠ a), after)

theorem takeWhile_ne_of_not_mem (h : a ∉ l) : l.takeWhile (· ≠ a) = l :=
  takeWhile_eq_self_iff.2 fun _ hx => decide_eq_true (ne_of_mem_of_not_mem hx h)

theorem takeWhile_ne_append (h : a ∉ l) : (l ++ a :: l').takeWhile (· ≠ a) = l := by
  rw [takeWhile_append_of_pos fun _ hx => decide_eq_true (ne_of_mem_of_not_mem hx h),
    takeWhile_cons_of_neg (by simp), append_nil]

theorem dropWhile_ne_append (h : a ∉ l) : (l ++ a :: l').dropWhile (· ≠ a) = a :: l' := by
  rw [dropWhile_append_of_pos fun _ hx => decide_eq_true (ne_of_mem_of_not_mem hx h),
    dropWhile_cons_of_neg (by simp)]

theorem cutAt_eq_none (h : a ∉ l) : l.cutAt a = none := by
  unfold cutAt
  rw [dropWhile_eq_nil_iff.2 fun _ hx => decide_eq_true (ne_of_mem_of_not_mem hx h)]

theorem cutAt_append (h : a ∉ l) : (l ++ a :: l').cutAt a = some (l, l') := by
  unfold cutAt
  rw [dropWhile_ne_append h, takeWhile_ne_append h]

/-- What follows the first `pat`, which is not empty. -/
def afterFirst : List α → List α → Option (List α)
  | [], _ => none
  | a :: l, pat => if pat <+: a :: l then some ((a :: l).drop pat.length) else l.afterFirst pat

theorem afterFirst_cons_of_not_start {pat : List α} (h : ¬ pat <+: a :: l) :
    (a :: l).afterFirst pat = l.afterFirst pat :=
  if_neg h

theorem afterFirst_eq_none {pat : List α} (h : ¬ pat <:+: l) : l.afterFirst pat = none := by
  induction l with
  | nil => rfl
  | cons a l ih =>
    rw [afterFirst_cons_of_not_start fun hpat => h hpat.isInfix,
      ih fun hpat => h (hpat.trans (suffix_cons a l).isInfix)]

/-- What precedes the first character of the pattern cannot contain it. -/
theorem afterFirst_append {pat x : List α} (h : a ∉ x) :
    (x ++ (a :: pat ++ l)).afterFirst (a :: pat) = some l := by
  induction x with
  | nil =>
    rw [nil_append, cons_append]
    unfold afterFirst
    rw [if_pos ⟨l, rfl⟩, ← cons_append, drop_left]
  | cons b x ih =>
    obtain ⟨hb, hx⟩ := not_or.1 (mt mem_cons.2 h)
    rw [cons_append, afterFirst_cons_of_not_start, ih hx]
    rintro ⟨r, hr⟩
    exact hb (cons.inj hr).1

/-- A list that contains the pattern is cut after an occurrence. -/
theorem afterFirst_of_infix {pat : List α} (hpat : pat ≠ []) (h : pat <:+: l) :
    ∃ x y, l = x ++ pat ++ y ∧ l.afterFirst pat = some y := by
  induction l with
  | nil => exact absurd (infix_nil.1 h) hpat
  | cons a l ih =>
    by_cases hhere : pat <+: a :: l
    · obtain ⟨y, hy⟩ := hhere
      refine ⟨[], y, by rw [nil_append, hy], ?_⟩
      unfold afterFirst
      rw [if_pos ⟨y, hy⟩, ← hy, drop_left]
    · obtain hprefix | hlater := infix_cons_iff.1 h
      · exact absurd hprefix hhere
      obtain ⟨x, y, hl, hafter⟩ := ih hlater
      exact ⟨a :: x, y, by rw [hl]; rfl, (afterFirst_cons_of_not_start hhere).trans hafter⟩

/-- A list has no `a`, or is cut at its first one. -/
theorem not_mem_or_eq_append_cons (a : α) (l : List α) :
    a ∉ l ∨ ∃ before after, a ∉ before ∧ l = before ++ a :: after := by
  by_cases h : a ∈ l
  · obtain ⟨before, after, rfl, hbefore⟩ := eq_append_cons_of_mem h
    exact .inr ⟨before, after, hbefore, rfl⟩
  · exact .inl h

end List
