/-
# Slices of a table

The rows of a table that a condition selects, and how the statements of `Table` act on them:
what writes rows of the slice does so on the slice alone, and what writes others is not seen.
-/
import Sconce.Lib.Table

namespace Table

variable {κ ν : Type*}

/-- The rows a condition selects. -/
def only (t : Table κ ν) (p : κ → ν → Bool) : Table κ ν where
  rows := t.rows.filter fun r => p r.1 r.2
  nodup := t.nodup.sublist (List.Sublist.map _ List.filter_sublist)

@[ext] theorem ext_rows {t t' : Table κ ν} (h : t.rows = t'.rows) : t = t' := by
  cases t
  cases t'
  cases h
  rfl

theorem only_congr {t : Table κ ν} {p q : κ → ν → Bool}
    (h : ∀ k v, (k, v) ∈ t.rows → p k v = q k v) : t.only p = t.only q :=
  ext_rows (List.filter_congr fun r hr => h r.1 r.2 hr)

/-- A delete on the slice. -/
theorem only_delete (t : Table κ ν) (p q : κ → ν → Bool) :
    (t.delete q).only p = (t.only p).delete q :=
  ext_rows (List.filter_comm _ _ t.rows)

/-- A delete of other rows is not seen. -/
theorem only_delete_of_disjoint (t : Table κ ν) {p q : κ → ν → Bool}
    (h : ∀ k v, (k, v) ∈ t.rows → p k v = true → q k v = false) : (t.delete q).only p = t.only p := by
  refine ext_rows (List.filter_filter.trans (List.filter_congr fun r hr => ?_))
  cases hp : p r.1 r.2 with
  | false => rfl
  | true => rw [h r.1 r.2 hr hp]; rfl

/-- An update on the slice. -/
theorem only_update (t : Table κ ν) {p : κ → ν → Bool} {f : κ → ν → ν}
    (h : ∀ k v, p k (f k v) = p k v) : (t.update f).only p = (t.only p).update f := by
  refine ext_rows ((List.filter_map ..).trans (congrArg (List.map _) ?_))
  exact List.filter_congr fun r _ => h r.1 r.2

/-- An update of other rows is not seen. -/
theorem only_update_of_disjoint (t : Table κ ν) {p : κ → ν → Bool} {f : κ → ν → ν}
    (h : ∀ k v, p k (f k v) = p k v) (hsame : ∀ k v, (k, v) ∈ t.rows → p k v = true → f k v = v) :
    (t.update f).only p = t.only p := by
  rw [only_update t h]
  refine ext_rows ((List.map_congr_left fun r hr => ?_).trans (List.map_id _))
  obtain ⟨hr, hp⟩ := List.mem_filter.1 hr
  exact Prod.ext rfl (hsame r.1 r.2 hr hp)

variable [DecidableEq κ]

/-- A slice has the rows its condition holds of. -/
theorem get?_only (t : Table κ ν) (p : κ → ν → Bool) (k : κ) :
    (t.only p).get? k = (t.get? k).filter (p k) := by
  ext v
  rw [← mem_rows_iff, Option.filter_eq_some_iff, ← mem_rows_iff]
  exact List.mem_filter

/-- A lookup the condition allows. -/
theorem get?_only_of_pos (t : Table κ ν) {p : κ → ν → Bool} {k : κ}
    (h : ∀ v, t.get? k = some v → p k v = true) : (t.only p).get? k = t.get? k := by
  rw [get?_only]
  cases hk : t.get? k with
  | none => rfl
  | some v => rw [Option.filter_some, if_pos (h v hk)]

theorem only_append_of_pos (t : Table κ ν) {p : κ → ν → Bool} {k : κ} {v : ν}
    (h : t.get? k = none) (h' : (t.only p).get? k = none) (hp : p k v = true) :
    (t.append k v h).only p = (t.only p).append k v h' := by
  refine ext_rows ((List.filter_append ..).trans ?_)
  have hrow : [(k, v)].filter (fun r => p r.1 r.2) = [(k, v)] := List.filter_cons_of_pos hp
  rw [hrow]
  rfl

/-- An insert under a key that the slice would show. -/
theorem only_insertNew_of_pos (t : Table κ ν) {p : κ → ν → Bool} {k : κ} {v : ν}
    (hstored : ∀ w, t.get? k = some w → p k w = true) (hp : p k v = true) :
    (t.insertNew k v).only p = (t.only p).insertNew k v := by
  have hsame := get?_only_of_pos t hstored
  by_cases hk : t.get? k = none
  · unfold insertNew
    rw [dif_pos hk, dif_pos (hsame.trans hk)]
    exact only_append_of_pos t hk _ hp
  · unfold insertNew
    rw [dif_neg hk, dif_neg (by rw [hsame]; exact hk)]

/-- An insert the slice does not show. -/
theorem only_insertNew_of_neg (t : Table κ ν) {p : κ → ν → Bool} {k : κ} {v : ν}
    (hp : p k v = false) : (t.insertNew k v).only p = t.only p := by
  unfold insertNew
  split_ifs with hk
  · refine ext_rows ((List.filter_append ..).trans ?_)
    have hrow : [(k, v)].filter (fun r => p r.1 r.2) = [] :=
      List.filter_cons_of_neg (by simp [hp])
    rw [hrow, List.append_nil]
    rfl
  · rfl

section Keys

variable {p : κ → Bool}

/-- An upsert under a key of the slice. -/
theorem only_upsert_of_pos (t : Table κ ν) {k : κ} (v : ν) (merge : ν → ν) (hp : p k = true) :
    (t.upsert k v merge).only (fun k _ => p k)
      = (t.only fun k _ => p k).upsert k v merge := by
  have hsame : (t.only fun k _ => p k).get? k = t.get? k := get?_only_of_pos t fun _ _ => hp
  by_cases hk : t.get? k = none
  · unfold upsert
    rw [dif_pos hk, dif_pos (hsame.trans hk)]
    exact only_append_of_pos t hk _ hp
  · unfold upsert
    rw [dif_neg hk, dif_neg (by rw [hsame]; exact hk)]
    exact only_update t fun _ _ => rfl

/-- An upsert under another key is not seen. -/
theorem only_upsert_of_neg (t : Table κ ν) {k : κ} (v : ν) (merge : ν → ν) (hp : p k = false) :
    (t.upsert k v merge).only (fun k _ => p k) = t.only fun k _ => p k := by
  by_cases hk : t.get? k = none
  · have hinsert : t.upsert k v merge = t.insertNew k v := by
      unfold upsert insertNew
      rw [dif_pos hk, dif_pos hk]
    rw [hinsert]
    exact only_insertNew_of_neg t hp
  · unfold upsert
    rw [dif_neg hk]
    refine only_update_of_disjoint t (fun _ _ => rfl) fun k' v' _ hp' => if_neg ?_
    rintro rfl
    rw [hp] at hp'
    cases hp'

theorem only_insertAll_of_pos (t : Table κ ν) {sel : List (κ × ν)} (h : ∀ r ∈ sel, p r.1 = true) :
    (t.insertAll sel).only (fun k _ => p k) = (t.only fun k _ => p k).insertAll sel := by
  induction sel generalizing t with
  | nil => rfl
  | cons r sel ih =>
    rw [List.forall_mem_cons] at h
    unfold insertAll at ih ⊢
    rw [List.foldl_cons, List.foldl_cons, ih _ h.2,
      only_insertNew_of_pos t (fun _ _ => h.1) h.1]

theorem only_insertAll_of_neg (t : Table κ ν) {sel : List (κ × ν)} (h : ∀ r ∈ sel, p r.1 = false) :
    (t.insertAll sel).only (fun k _ => p k) = t.only fun k _ => p k := by
  induction sel generalizing t with
  | nil => rfl
  | cons r sel ih =>
    rw [List.forall_mem_cons] at h
    unfold insertAll at ih ⊢
    rw [List.foldl_cons, ih _ h.2, only_insertNew_of_neg t h.1]

theorem only_upsertAll_of_pos (t : Table κ ν) {sel : List (κ × ν)} (merge : ν → ν → ν)
    (h : ∀ r ∈ sel, p r.1 = true) :
    (t.upsertAll sel merge).only (fun k _ => p k)
      = (t.only fun k _ => p k).upsertAll sel merge := by
  induction sel generalizing t with
  | nil => rfl
  | cons r sel ih =>
    rw [List.forall_mem_cons] at h
    unfold upsertAll at ih ⊢
    rw [List.foldl_cons, List.foldl_cons, ih _ h.2, only_upsert_of_pos t _ _ h.1]

/-- Rows outside the slice that are upserted are not seen. -/
theorem only_upsertAll_of_neg (t : Table κ ν) {sel : List (κ × ν)} (merge : ν → ν → ν)
    (h : ∀ r ∈ sel, p r.1 = false) :
    (t.upsertAll sel merge).only (fun k _ => p k) = t.only fun k _ => p k := by
  induction sel generalizing t with
  | nil => rfl
  | cons r sel ih =>
    rw [List.forall_mem_cons] at h
    unfold upsertAll at ih ⊢
    rw [List.foldl_cons, ih _ h.2, only_upsert_of_neg t _ _ h.1]

end Keys

end Table
