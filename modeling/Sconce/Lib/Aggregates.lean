/-
# Outer joins, groups and aggregates

A left join keeps every left row: with its matches, or alone with a null.  Where the left rows
have distinct keys, grouping the join by those keys gives every left row one group, of its own
matches (`groupBy_leftJoin`), and an aggregate that skips nulls is the aggregate of the matches.

`distinct` over rows and a restriction to one key can be taken in either order
(`distinct_restrict`).
-/
import Mathlib.Data.List.Dedup
import Mathlib.Tactic

namespace Aggregates

variable {α β κ ν : Type*}

/-! ## The operations -/

/-- The rows a left row is joined to. -/
def joinedTo (on : α → β → Bool) (right : List β) (a : α) : List (α × Option β) :=
  match right.filter (on a) with
  | [] => [(a, none)]
  | b :: bs => (b :: bs).map fun b => (a, some b)

/-- `left left join right on on`. -/
def leftJoin (on : α → β → Bool) (left : List α) (right : List β) : List (α × Option β) :=
  left.flatMap (joinedTo on right)

/-- `group by key`: each key with its rows. -/
def groupBy [DecidableEq κ] (key : α → κ) (rows : List α) : List (κ × List α) :=
  (rows.map key).dedup.map fun k => (k, rows.filter fun row => key row = k)

/-- `sum`, null where there is nothing to add. -/
def sum (values : List (Option ℤ)) : Option ℤ :=
  match values.reduceOption with
  | [] => none
  | v :: vs => some (v :: vs).sum

/-- `count(column)`. -/
def count (values : List (Option ν)) : ℕ := values.reduceOption.length

/-! ## Nulls -/

/-- `coalesce(sum(column), 0)`. -/
theorem sum_getD (values : List (Option ℤ)) : (sum values).getD 0 = values.reduceOption.sum := by
  unfold sum
  cases values.reduceOption <;> rfl

/-- Nothing is missing from values that are all there. -/
theorem reduceOption_map_some (values : List ν) : (values.map some).reduceOption = values :=
  List.filterMap_map.trans List.filterMap_some

/-- The columns of a left row's matches, without the null of a row that has none. -/
theorem reduceOption_joinedTo (on : α → β → Bool) (right : List β) (a : α) (f : β → ν) :
    ((joinedTo on right a).map fun row => row.2.map f).reduceOption
      = (right.filter (on a)).map f := by
  unfold joinedTo
  cases right.filter (on a) with
  | nil => rfl
  | cons b bs =>
    have hsome : (((b :: bs).map fun b => (a, some b)).map fun row => row.2.map f)
        = ((b :: bs).map f).map some := by
      rw [List.map_map, List.map_map]
      rfl
    show (((b :: bs).map fun b => (a, some b)).map fun row => row.2.map f).reduceOption = _
    rw [hsome, reduceOption_map_some]

/-! ## Groups -/

theorem leftJoin_cons (on : α → β → Bool) (a : α) (left : List α) (right : List β) :
    leftJoin on (a :: left) right = joinedTo on right a ++ leftJoin on left right :=
  List.flatMap_cons

theorem joinedTo_ne_nil (on : α → β → Bool) (right : List β) (a : α) :
    joinedTo on right a ≠ [] := by
  unfold joinedTo
  cases right.filter (on a) <;> exact List.cons_ne_nil _ _

theorem fst_of_mem_joinedTo {on : α → β → Bool} {right : List β} {a : α} {row : α × Option β}
    (h : row ∈ joinedTo on right a) : row.1 = a := by
  unfold joinedTo at h
  cases hmatch : right.filter (on a) with
  | nil =>
    rw [hmatch] at h
    rw [List.mem_singleton.1 h]
  | cons b bs =>
    rw [hmatch] at h
    obtain ⟨b', -, rfl⟩ := List.mem_map.1 h
    rfl

section Groups

variable [DecidableEq κ] (key : α → κ) (on : α → β → Bool) (right : List β)

/-- A left row's rows have its key and no other. -/
theorem dedup_joinedTo_append {a : α} {keys : List κ} (h : key a ∉ keys) :
    ((joinedTo on right a).map (fun row => key row.1) ++ keys).dedup = key a :: keys.dedup := by
  have hkeys : ∀ {rows : List (α × Option β)}, rows ≠ [] → (∀ row ∈ rows, row.1 = a) →
      (rows.map (fun row => key row.1) ++ keys).dedup = key a :: keys.dedup := by
    intro rows hne hrows
    induction rows with
    | nil => exact absurd rfl hne
    | cons row rows ih =>
      have hrow : key row.1 = key a := by rw [hrows row List.mem_cons_self]
      rw [List.map_cons, List.cons_append, hrow]
      cases rows with
      | nil => exact List.dedup_cons_of_notMem h
      | cons row' rows =>
        have htail := ih (List.cons_ne_nil _ _) fun r hr => hrows r (List.mem_cons_of_mem _ hr)
        have hmem : key a ∈ ((row' :: rows).map (fun row => key row.1) ++ keys).dedup := by
          rw [htail]
          exact List.mem_cons_self
        rw [List.dedup_cons_of_mem' hmem, htail]
  exact hkeys (joinedTo_ne_nil on right a) fun row hrow => fst_of_mem_joinedTo hrow

variable {left : List α} (hkeys : (left.map key).Nodup)
include hkeys

theorem keys_leftJoin :
    ((leftJoin on left right).map fun row => key row.1).dedup = left.map key := by
  induction left with
  | nil => rfl
  | cons a left ih =>
    rw [List.map_cons, List.nodup_cons] at hkeys
    have hnot : key a ∉ (leftJoin on left right).map fun row => key row.1 := by
      rw [List.mem_map]
      rintro ⟨row, hrow, hkey⟩
      obtain ⟨a', ha', hrow⟩ := List.mem_flatMap.1 hrow
      rw [fst_of_mem_joinedTo hrow] at hkey
      exact hkeys.1 (hkey ▸ List.mem_map_of_mem ha')
    rw [leftJoin_cons, List.map_append, dedup_joinedTo_append key on right hnot, ih hkeys.2,
      List.map_cons]

/-- The rows of one key are what its row was joined to. -/
theorem filter_leftJoin {a : α} (ha : a ∈ left) :
    ((leftJoin on left right).filter fun row => key row.1 = key a) = joinedTo on right a := by
  have hother : ∀ {a' : α}, key a' ≠ key a →
      ((joinedTo on right a').filter fun row => key row.1 = key a) = [] := by
    intro a' hne
    rw [List.filter_eq_nil_iff]
    intro row hrow
    rw [fst_of_mem_joinedTo hrow]
    exact fun heq => hne (of_decide_eq_true heq)
  have hown : ((joinedTo on right a).filter fun row => key row.1 = key a) = joinedTo on right a := by
    rw [List.filter_eq_self]
    intro row hrow
    rw [fst_of_mem_joinedTo hrow]
    exact decide_eq_true rfl
  induction left with
  | nil => cases ha
  | cons a' left ih =>
    rw [List.map_cons, List.nodup_cons] at hkeys
    rw [leftJoin_cons, List.filter_append]
    rcases List.mem_cons.1 ha with rfl | hmem
    · have hrest : (leftJoin on left right).filter (fun row => key row.1 = key a) = [] := by
        rw [List.filter_eq_nil_iff]
        intro row hrow heq
        obtain ⟨a', ha', hrow⟩ := List.mem_flatMap.1 hrow
        rw [fst_of_mem_joinedTo hrow] at heq
        exact hkeys.1 (of_decide_eq_true heq ▸ List.mem_map_of_mem ha')
      rw [hown, hrest, List.append_nil]
    · have hne : key a' ≠ key a := fun heq => hkeys.1 (heq ▸ List.mem_map_of_mem hmem)
      rw [hother hne, List.nil_append, ih hkeys.2 hmem]

/-- **One group for every left row, of its own matches.** -/
theorem groupBy_leftJoin :
    groupBy (fun row => key row.1) (leftJoin on left right)
      = left.map fun a => (key a, joinedTo on right a) := by
  unfold groupBy
  rw [keys_leftJoin key on right hkeys, List.map_map]
  refine List.map_congr_left fun a ha => ?_
  show (key a, _) = _
  rw [filter_leftJoin key on right hkeys ha]

end Groups

/-! ## Distinct rows -/

/-- **The distinct rows of a key are the rows of the key, made distinct.** -/
theorem distinct_restrict [DecidableEq κ] [DecidableEq ν] (rows : List (κ × ν)) (k : κ) :
    ((rows.dedup.filter fun row => row.1 = k).map Prod.snd).Perm
      ((rows.filter fun row => row.1 = k).map Prod.snd).dedup := by
  have hnodup : ((rows.dedup.filter fun row => row.1 = k).map Prod.snd).Nodup := by
    refine (rows.nodup_dedup.filter _).map_on ?_
    rintro ⟨k₁, v⟩ h₁ ⟨k₂, _⟩ h₂ rfl
    have hk₁ : k₁ = k := of_decide_eq_true (List.mem_filter.1 h₁).2
    have hk₂ : k₂ = k := of_decide_eq_true (List.mem_filter.1 h₂).2
    rw [hk₁, hk₂]
  refine (List.perm_ext_iff_of_nodup hnodup (List.nodup_dedup _)).2 fun v => ?_
  simp only [List.mem_dedup, List.mem_map, List.mem_filter]

/-- Rows taken under a condition on the key. -/
theorem filterMap_restrict [DecidableEq κ] (rows : List (κ × ν)) (k : κ) :
    (rows.filterMap fun row => if row.1 = k then some row.2 else none)
      = (rows.filter fun row => row.1 = k).map Prod.snd := by
  induction rows with
  | nil => rfl
  | cons row rows ih =>
    by_cases hk : row.1 = k
    · simp only [List.filterMap_cons, List.filter_cons, hk, decide_true, if_true, List.map_cons, ih]
    · simp only [List.filterMap_cons, List.filter_cons, hk, decide_false, Bool.false_eq_true,
        if_false, ih]

end Aggregates
