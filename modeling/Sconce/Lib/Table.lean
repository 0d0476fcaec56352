/-
# Keyed tables

A table is a finite list of rows listed under pairwise distinct keys.  The
operations are the statements a relational store runs against a table with a
unique key:

* `insertNew` : insert, on conflict do nothing;
* `upsert` : insert, on conflict merge into the stored row;
* `update` : rewrite the value columns of the rows;
* `delete` : drop the rows a condition selects.

Every operation keeps the keys distinct, so a table is determined up to order
by its lookups `get?`; each operation comes with the lookup it leaves behind.
-/
import Mathlib.Data.List.Nodup
import Mathlib.Data.List.Basic
import Mathlib.Tactic

/-- Rows under pairwise distinct keys. -/
structure Table (κ ν : Type*) where
  /-- The rows, oldest first. -/
  rows : List (κ × ν)
  /-- The unique key. -/
  nodup : (rows.map Prod.fst).Nodup

namespace Table

variable {κ ν μ : Type*}

/-- The table without rows. -/
def empty : Table κ ν := ⟨[], List.nodup_nil⟩

/-- The table of one row. -/
def single (k : κ) (v : ν) : Table κ ν := ⟨[(k, v)], List.nodup_singleton k⟩

instance : EmptyCollection (Table κ ν) := ⟨empty⟩

instance : Inhabited (Table κ ν) := ⟨empty⟩

/-- Rewrite the value columns of every row; a condition on the row is part of
the rewrite. -/
def update (t : Table κ ν) (f : κ → ν → ν) : Table κ ν where
  rows := t.rows.map fun r => (r.1, f r.1 r.2)
  nodup := by
    rw [List.map_map]
    exact t.nodup

/-- Drop the rows the condition selects. -/
def delete (t : Table κ ν) (p : κ → ν → Bool) : Table κ ν where
  rows := t.rows.filter fun r => !p r.1 r.2
  nodup := t.nodup.sublist (List.Sublist.map _ List.filter_sublist)

/-! ## Lookup -/

variable [DecidableEq κ]

/-- The row stored under a key. -/
def get? (t : Table κ ν) (k : κ) : Option ν := t.rows.lookup k

/-- In a list with distinct keys the lookup of a key is the row listed under it. -/
theorem lookup_eq_some_iff {l : List (κ × ν)} (h : (l.map Prod.fst).Nodup) (k : κ) (v : ν) :
    l.lookup k = some v ↔ (k, v) ∈ l := by
  induction l with
  | nil => simp
  | cons r l ih =>
      obtain ⟨k', v'⟩ := r
      simp only [List.map_cons, List.nodup_cons] at h
      rw [List.lookup_cons, List.mem_cons]
      by_cases hk : k = k'
      · subst hk
        have hnot : (k, v) ∉ l := fun hm => h.1 (List.mem_map.2 ⟨_, hm, rfl⟩)
        simp [hnot, eq_comm]
      · rw [beq_false_of_ne hk, ih h.2]
        simp [hk]

/-- A row is listed exactly when the lookup of its key returns it. -/
theorem mem_rows_iff (t : Table κ ν) (k : κ) (v : ν) :
    (k, v) ∈ t.rows ↔ t.get? k = some v :=
  (lookup_eq_some_iff t.nodup k v).symm

/-- A key without a row: nothing is listed under it. -/
theorem get?_eq_none_iff (t : Table κ ν) (k : κ) :
    t.get? k = none ↔ ∀ v, (k, v) ∉ t.rows := by
  rw [Option.eq_none_iff_forall_ne_some]
  exact forall_congr' fun v => by rw [mem_rows_iff]

@[simp] theorem get?_empty (k : κ) : (∅ : Table κ ν).get? k = none := rfl

/-- An update acts on each row under its own key. -/
@[simp] theorem get?_update (t : Table κ ν) (f : κ → ν → ν) (k : κ) :
    (t.update f).get? k = (t.get? k).map (f k) := by
  ext v
  rw [← mem_rows_iff]
  simp only [update, List.mem_map, Prod.mk.injEq, Prod.exists, Option.map_eq_some_iff]
  constructor
  · rintro ⟨k', w, hw, rfl, rfl⟩
    exact ⟨w, (mem_rows_iff t k' w).1 hw, rfl⟩
  · rintro ⟨w, hw, rfl⟩
    exact ⟨k, w, (mem_rows_iff t k w).2 hw, rfl, rfl⟩

/-- An update that rewrites no stored row changes nothing. -/
theorem update_eq_self {t : Table κ ν} {f : κ → ν → ν} (h : ∀ k v, t.get? k = some v → f k v = v) :
    t.update f = t := by
  have hrows : t.rows.map (fun r => (r.1, f r.1 r.2)) = t.rows := by
    refine (List.map_congr_left ?_).trans t.rows.map_id
    rintro ⟨k, v⟩ hr
    show (k, f k v) = (k, v)
    rw [h k v ((mem_rows_iff t k v).1 hr)]
  cases t
  unfold update
  congr

/-- An update changes nothing exactly when it rewrites no stored row. -/
theorem update_eq_self_iff {t : Table κ ν} {f : κ → ν → ν} :
    t.update f = t ↔ ∀ k v, t.get? k = some v → f k v = v := by
  refine ⟨fun h k v hv => ?_, update_eq_self⟩
  have hrow := congrArg (fun t => t.get? k) h
  simp only [get?_update, hv, Option.map_some] at hrow
  exact Option.some.inj hrow

/-- A delete keeps exactly the rows its condition does not select. -/
@[simp] theorem get?_delete (t : Table κ ν) (p : κ → ν → Bool) (k : κ) :
    (t.delete p).get? k = (t.get? k).filter (fun v => !p k v) := by
  ext v
  rw [← mem_rows_iff, Option.filter_eq_some_iff]
  simp only [delete, List.mem_filter, mem_rows_iff]

/-! ## Inserting -/

/-- A key with no row is not among the listed keys. -/
theorem notMem_keys_of_get?_eq_none {t : Table κ ν} {k : κ} (h : t.get? k = none) :
    k ∉ t.rows.map Prod.fst := by
  intro hk
  obtain ⟨⟨k', v⟩, hv, rfl⟩ := List.mem_map.1 hk
  exact (get?_eq_none_iff t k').1 h v hv

/-- Append a row under a key that has none. -/
def append (t : Table κ ν) (k : κ) (v : ν) (h : t.get? k = none) : Table κ ν where
  rows := t.rows ++ [(k, v)]
  nodup := by
    rw [List.map_append, List.nodup_append]
    refine ⟨t.nodup, by simp, ?_⟩
    intro a ha b hb hab
    have hbk : b = k := by simpa using hb
    exact notMem_keys_of_get?_eq_none h (by rw [← hbk, ← hab]; exact ha)

/-- Insert a row, on conflict do nothing. -/
def insertNew (t : Table κ ν) (k : κ) (v : ν) : Table κ ν :=
  if h : t.get? k = none then t.append k v h else t

/-- Insert a row, on conflict merge it into the stored one. -/
def upsert (t : Table κ ν) (k : κ) (v : ν) (merge : ν → ν) : Table κ ν :=
  if h : t.get? k = none then t.append k v h
  else t.update fun k' old => if k' = k then merge old else old

/-- The row appended is found under its key, and the others as before. -/
theorem get?_append (t : Table κ ν) (k : κ) (v : ν) (h : t.get? k = none) (k' : κ) :
    (t.append k v h).get? k' = if k' = k then some v else t.get? k' := by
  ext w
  rw [← mem_rows_iff]
  simp only [append, List.mem_append, mem_rows_iff, List.mem_singleton, Prod.mk.injEq]
  by_cases hk : k' = k
  · subst hk
    simp [h, eq_comm]
  · simp [hk]

/-- After an insert the key holds its old row, or the new one if it had none. -/
theorem get?_insertNew (t : Table κ ν) (k : κ) (v : ν) (k' : κ) :
    (t.insertNew k v).get? k' = if k' = k then some ((t.get? k).getD v) else t.get? k' := by
  unfold insertNew
  split_ifs with h hk hk
  · rw [get?_append, if_pos hk, h, Option.getD_none]
  · rw [get?_append, if_neg hk]
  · obtain ⟨w, hw⟩ := Option.ne_none_iff_exists'.1 h
    rw [hk, hw, Option.getD_some]
  · rfl

/-- After an upsert the key holds the merge of its old row, or the new one. -/
theorem get?_upsert (t : Table κ ν) (k : κ) (v : ν) (merge : ν → ν) (k' : κ) :
    (t.upsert k v merge).get? k' =
      if k' = k then some (((t.get? k).map merge).getD v) else t.get? k' := by
  unfold upsert
  split_ifs with h hk hk
  · rw [get?_append, if_pos hk, h, Option.map_none, Option.getD_none]
  · rw [get?_append, if_neg hk]
  · obtain ⟨w, hw⟩ := Option.ne_none_iff_exists'.1 h
    simp [hk, hw]
  · simp [hk]

/-- The first row a condition selects is still the first after an upsert into it, and an
upsert of a row the condition selects is found where none was, if the merge does not
change what the condition sees. -/
theorem find?_upsert {t : Table κ ν} {k : κ} (p : κ × ν → Bool) (v : ν) {merge : ν → ν}
    (hmerge : ∀ w, p (k, merge w) = p (k, w)) (hv : p (k, v) = true)
    (h : (∃ w, t.rows.find? p = some (k, w)) ∨ (t.rows.find? p = none ∧ t.get? k = none)) :
    ∃ w, (t.upsert k v merge).rows.find? p = some (k, w) := by
  rcases h with ⟨w, hw⟩ | ⟨hnone, hfree⟩
  · have hstored : t.get? k = some w := (mem_rows_iff t k w).1 (List.mem_of_find?_eq_some hw)
    have hsame : (p ∘ fun r : κ × ν => (r.1, if r.1 = k then merge r.2 else r.2)) = p := by
      funext r
      obtain ⟨k', w'⟩ := r
      by_cases hk : k' = k
      · subst hk
        simp [hmerge]
      · simp [hk]
    unfold upsert
    rw [dif_neg (by simp [hstored])]
    refine ⟨merge w, ?_⟩
    show List.find? p (t.rows.map _) = _
    rw [List.find?_map, hsame, hw]
    simp
  · unfold upsert
    rw [dif_pos hfree]
    refine ⟨v, ?_⟩
    show List.find? p (t.rows ++ [(k, v)]) = _
    rw [List.find?_append, hnone]
    simp [hv]

@[simp] theorem get?_insertNew_self (t : Table κ ν) (k : κ) (v : ν) :
    (t.insertNew k v).get? k = some ((t.get? k).getD v) := by
  rw [get?_insertNew, if_pos rfl]

theorem get?_insertNew_of_ne (t : Table κ ν) {k k' : κ} (v : ν) (h : k' ≠ k) :
    (t.insertNew k v).get? k' = t.get? k' := by
  rw [get?_insertNew, if_neg h]

/-- An insert never changes a stored row. -/
theorem get?_insertNew_of_some {t : Table κ ν} {k' : κ} {w : ν} (h : t.get? k' = some w)
    (k : κ) (v : ν) : (t.insertNew k v).get? k' = some w := by
  rw [get?_insertNew]
  split_ifs with hk
  · rw [← hk, h, Option.getD_some]
  · exact h

/-- Inserting under an occupied key does nothing. -/
theorem insertNew_of_some {t : Table κ ν} {k : κ} {w : ν} (h : t.get? k = some w) (v : ν) :
    t.insertNew k v = t := by
  unfold insertNew
  rw [dif_neg (by simp [h])]

/-- An insert leaves a key as it was unless it is the inserted one and had no row. -/
theorem get?_insertNew_eq_iff (t : Table κ ν) (k : κ) (v : ν) (k' : κ) :
    (t.insertNew k v).get? k' = t.get? k' ↔ (k' = k → (t.get? k).isSome) := by
  rw [get?_insertNew]
  split_ifs with hk
  · rw [hk]
    cases t.get? k with
    | none => simp
    | some w => simp
  · exact iff_of_true rfl fun h => absurd h hk

/-- An upsert leaves a key as it was unless it is the upserted one and had no row, or one that
the merge changes. -/
theorem get?_upsert_eq_iff (t : Table κ ν) (k : κ) (v : ν) (merge : ν → ν) (k' : κ) :
    (t.upsert k v merge).get? k' = t.get? k' ↔
      (k' = k → ∃ w, t.get? k = some w ∧ merge w = w) := by
  rw [get?_upsert]
  split_ifs with hk
  · rw [hk]
    cases t.get? k with
    | none => simp
    | some w => simp
  · exact iff_of_true rfl fun h => absurd h hk

/-- What an insert under a free key lists. -/
theorem mem_rows_insertNew {t : Table κ ν} {k : κ} (h : t.get? k = none) (v : ν) (r : κ × ν) :
    r ∈ (t.insertNew k v).rows ↔ r ∈ t.rows ∨ r = (k, v) := by
  unfold insertNew
  rw [dif_pos h]
  show r ∈ t.rows ++ [(k, v)] ↔ _
  rw [List.mem_append, List.mem_singleton]

/-! ## Counting -/

/-- How many rows a condition selects. -/
def count (t : Table κ ν) (p : κ → ν → Bool) : ℕ := t.rows.countP fun r => p r.1 r.2

omit [DecidableEq κ] in
theorem count_mono (t : Table κ ν) {p q : κ → ν → Bool} (h : ∀ k v, p k v = true → q k v = true) :
    t.count p ≤ t.count q :=
  List.countP_mono_left fun r _ => h r.1 r.2

/-- A key lists one row at most: a condition that implies another one everywhere
else selects at most one row more. -/
theorem count_le_add_one (t : Table κ ν) {p q : κ → ν → Bool} (k : κ)
    (h : ∀ k' v, k' ≠ k → p k' v = true → q k' v = true) : t.count p ≤ t.count q + 1 := by
  have hkey : t.rows.countP (fun r => r.1 == k) ≤ 1 := by
    have hnodup := List.nodup_iff_count_le_one.1 t.nodup k
    rwa [List.count, List.countP_map] at hnodup
  have hsplit : ∀ l : List (κ × ν), l.countP (fun r => p r.1 r.2) ≤
      l.countP (fun r => q r.1 r.2) + l.countP (fun r => r.1 == k) := by
    intro l
    induction l with
    | nil => exact Nat.le_refl 0
    | cons r l ih =>
      simp only [List.countP_cons]
      by_cases hk : r.1 = k
      · rw [if_pos (beq_iff_eq.2 hk)]
        split_ifs <;> omega
      · have hr := h r.1 r.2 hk
        split_ifs with hp hq <;> first | omega | exact absurd (hr hp) hq
  exact le_trans (hsplit t.rows) (Nat.add_le_add_left hkey _)

omit [DecidableEq κ] in
/-- Updated rows are counted as they become. -/
theorem count_update (t : Table κ ν) (f : κ → ν → ν) (p : κ → ν → Bool) :
    (t.update f).count p = t.count fun k v => p k (f k v) := by
  unfold count update
  rw [List.countP_map]
  rfl

omit [DecidableEq κ] in
theorem count_delete_le (t : Table κ ν) (q p : κ → ν → Bool) : (t.delete q).count p ≤ t.count p :=
  List.Sublist.countP_le List.filter_sublist

theorem count_append (t : Table κ ν) (k : κ) (v : ν) (h : t.get? k = none) (p : κ → ν → Bool) :
    (t.append k v h).count p = t.count p + if p k v then 1 else 0 := by
  unfold count append
  rw [List.countP_append, List.countP_singleton]

/-- An insert adds its row to the count, or nothing. -/
theorem count_insertNew_le (t : Table κ ν) (k : κ) (v : ν) (p : κ → ν → Bool) :
    (t.insertNew k v).count p ≤ t.count p + if p k v then 1 else 0 := by
  by_cases hfree : t.get? k = none
  · rw [insertNew, dif_pos hfree, count_append]
  · rw [insertNew, dif_neg hfree]
    exact Nat.le_add_right _ _

/-- Two conditions that agree everywhere but at one key count the same rows, but for the row
under the key. -/
theorem count_change {t : Table κ ν} {k : κ} {w : ν} (hk : t.get? k = some w)
    {p q : κ → ν → Bool} (h : ∀ k' v, k' ≠ k → q k' v = p k' v) :
    t.count q + (if p k w then 1 else 0) = t.count p + if q k w then 1 else 0 := by
  obtain ⟨before, after, hrows⟩ := List.append_of_mem ((mem_rows_iff t k w).2 hk)
  have hnodup := t.nodup
  rw [hrows, List.map_append, List.map_cons] at hnodup
  have hkey : k ∉ before.map Prod.fst ∧ k ∉ after.map Prod.fst := by
    refine ⟨fun hmem => ?_, fun hmem => ?_⟩
    · exact (List.nodup_append.1 hnodup).2.2 k hmem k List.mem_cons_self rfl
    · exact (List.nodup_cons.1 (List.nodup_append.1 hnodup).2.1).1 hmem
  have hsame : ∀ l : List (κ × ν), k ∉ l.map Prod.fst →
      l.countP (fun r => q r.1 r.2) = l.countP (fun r => p r.1 r.2) := by
    intro l hl
    refine List.countP_congr fun r hr => ?_
    have hne : r.1 ≠ k := fun he => hl (List.mem_map.2 ⟨r, hr, he⟩)
    rw [h r.1 r.2 hne]
  unfold count
  rw [hrows, List.countP_append, List.countP_append, List.countP_cons, List.countP_cons,
    hsame before hkey.1, hsame after hkey.2]
  dsimp only
  omega

/-- An upsert counts its row for the one it replaces. -/
theorem count_upsert (t : Table κ ν) (k : κ) (v : ν) (merge : ν → ν) (p : κ → ν → Bool) :
    (t.upsert k v merge).count p + (if (t.get? k).any (p k) then 1 else 0)
      = t.count p + if p k (((t.get? k).map merge).getD v) then 1 else 0 := by
  unfold upsert
  by_cases hk : t.get? k = none
  · rw [dif_pos hk, count_append, hk]
    rfl
  · obtain ⟨w, hk⟩ := Option.ne_none_iff_exists'.1 hk
    rw [dif_neg (by simp [hk]), count_update, hk, Option.any_some]
    have hchange := count_change hk (p := p)
      (q := fun k' old => p k' (if k' = k then merge old else old))
      fun k' v' hne => by rw [if_neg hne]
    rw [hchange, if_pos rfl]
    rfl

omit [DecidableEq κ] in
/-- What a delete takes away. -/
theorem count_delete_add (t : Table κ ν) (q p : κ → ν → Bool) :
    (t.delete q).count p + t.count (fun k v => p k v && q k v) = t.count p := by
  have hsplit := List.countP_eq_countP_filter_add t.rows (fun r => p r.1 r.2) fun r => q r.1 r.2
  rw [List.countP_filter] at hsplit
  exact (Nat.add_comm _ _).trans hsplit.symm

/-! ## Statements that select the rows they write -/

/-- Insert every selected row, on conflict do nothing. -/
def insertAll (t : Table κ ν) (sel : List (κ × ν)) : Table κ ν :=
  sel.foldl (fun t r => t.insertNew r.1 r.2) t

/-- Insert every selected row, on conflict merge it (second argument) into the
stored one (first argument). -/
def upsertAll (t : Table κ ν) (sel : List (κ × ν)) (merge : ν → ν → ν) : Table κ ν :=
  sel.foldl (fun t r => t.upsert r.1 r.2 fun old => merge old r.2) t

/-- A stored row survives any selection of inserts. -/
theorem get?_insertAll_of_some {t : Table κ ν} {k : κ} {w : ν} (h : t.get? k = some w)
    (sel : List (κ × ν)) : (t.insertAll sel).get? k = some w := by
  induction sel generalizing t with
  | nil => exact h
  | cons r sel ih => exact ih (get?_insertNew_of_some h r.1 r.2)

/-- A key outside the selection keeps its lookup. -/
theorem get?_insertAll_of_notMem (t : Table κ ν) {k : κ} {sel : List (κ × ν)}
    (h : ∀ v, (k, v) ∉ sel) : (t.insertAll sel).get? k = t.get? k := by
  induction sel generalizing t with
  | nil => rfl
  | cons r sel ih =>
      have hr : k ≠ r.1 := fun hk => h r.2 (by rw [hk]; exact List.mem_cons_self)
      rw [insertAll, List.foldl_cons, ← insertAll, ih _ fun v hv => h v (List.mem_cons_of_mem _ hv),
        get?_insertNew_of_ne _ _ hr]

/-- A selected key holds a row afterwards: its old one, or a selected one. -/
theorem get?_insertAll_of_mem (t : Table κ ν) {k : κ} {v : ν} {sel : List (κ × ν)}
    (h : (k, v) ∈ sel) :
    ∃ w, (t.insertAll sel).get? k = some w ∧ (t.get? k = some w ∨ (k, w) ∈ sel) := by
  induction sel generalizing t with
  | nil => exact absurd h List.not_mem_nil
  | cons r sel ih =>
      obtain ⟨k', v'⟩ := r
      by_cases hk : k = k'
      · subst hk
        refine ⟨(t.get? k).getD v', ?_, ?_⟩
        · exact get?_insertAll_of_some (get?_insertNew_self t k v') sel
        · cases ht : t.get? k with
          | none => exact Or.inr (by simp)
          | some w => exact Or.inl (by simp)
      · have hmem : (k, v) ∈ sel := by
          rcases List.mem_cons.1 h with he | he
          · exact absurd (Prod.mk.inj he).1 hk
          · exact he
        obtain ⟨w, hw, hor⟩ := ih (t.insertNew k' v') hmem
        refine ⟨w, hw, ?_⟩
        rw [get?_insertNew_of_ne _ _ hk] at hor
        exact hor.imp_right (List.mem_cons_of_mem _)

/-- A key outside the selection keeps its lookup. -/
theorem get?_upsertAll_of_notMem (t : Table κ ν) {k : κ} {sel : List (κ × ν)}
    (merge : ν → ν → ν) (h : ∀ v, (k, v) ∉ sel) :
    (t.upsertAll sel merge).get? k = t.get? k := by
  induction sel generalizing t with
  | nil => rfl
  | cons r sel ih =>
      have hr : k ≠ r.1 := fun hk => h r.2 (by rw [hk]; exact List.mem_cons_self)
      rw [upsertAll, List.foldl_cons, ← upsertAll, ih _ fun v hv => h v (List.mem_cons_of_mem _ hv),
        get?_upsert, if_neg hr]

/-- When the selected keys are distinct, a selected key holds the merge of its
old row with the selected one, or the selected one. -/
theorem get?_upsertAll_of_mem (t : Table κ ν) {k : κ} {v : ν} {sel : List (κ × ν)}
    (merge : ν → ν → ν) (hsel : (sel.map Prod.fst).Nodup) (h : (k, v) ∈ sel) :
    (t.upsertAll sel merge).get? k = some (((t.get? k).map fun old => merge old v).getD v) := by
  induction sel generalizing t with
  | nil => exact absurd h List.not_mem_nil
  | cons r sel ih =>
      rw [List.map_cons, List.nodup_cons] at hsel
      rw [upsertAll, List.foldl_cons, ← upsertAll]
      rcases List.mem_cons.1 h with rfl | hmem
      · rw [get?_upsertAll_of_notMem _ _
          (fun w hw => hsel.1 (List.mem_map.2 ⟨(k, w), hw, rfl⟩)), get?_upsert, if_pos rfl]
      · have hne : k ≠ r.1 := fun hk => hsel.1 (List.mem_map.2 ⟨(k, v), hmem, hk⟩)
        rw [ih _ hsel.2 hmem, get?_upsert, if_neg hne]

end Table
