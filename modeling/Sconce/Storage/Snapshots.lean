/-
# Snapshots and their retention

The snapshots of one repository, environment and profile, newest first; the pointer to the
latest one; and the statement that keeps the newest and drops the rest.
-/
import Sconce.Dashboard.Cascade
import Sconce.Storage.Blobs
import Sconce.Storage.Uploads

namespace Sconce

open Effect

/-- The snapshot is one of the repository, environment and profile. -/
def Snapshot.isOf (repo : Uuid) (environment profile : String) (s : Snapshot) : Bool :=
  s.repoId == repo && s.environment == environment && s.profile == profile

/-- `order by created_at desc, seq desc`: `a` stands no later than `b`. -/
def Snapshot.precedes (a b : Snapshot) : Bool :=
  b.createdAt < a.createdAt || b.createdAt = a.createdAt && b.seq ≤ a.seq

namespace Catalog

variable (db : Catalog) (repo : Uuid) (environment profile : String)

/-- The snapshots of the variant, newest first. -/
def newestSnapshots : List (Uuid × Snapshot) :=
  (db.snapshots.rows.filter fun r => r.2.isOf repo environment profile).mergeSort fun a b =>
    a.2.precedes b.2

/-- `resolve_latest`. -/
def resolveLatest : Option (Uuid × Snapshot) := do
  let id ← db.snapshotLatest.get? (repo, environment, profile)
  let s ← db.snapshots.get? id
  return (id, s)

/-- What `prune_snapshots` deletes: neither the latest nor one of the `keep` newest. -/
def prunable (keep : ℤ) (id : Uuid) : Bool :=
  (db.snapshots.get? id).any (Snapshot.isOf repo environment profile) &&
    db.snapshotLatest.get? (repo, environment, profile) ≠ some id &&
    id ∉ ((db.newestSnapshots repo environment profile).take keep.toNat).map (·.1)

end Catalog

/-- `prune_snapshots`; how many it deleted. -/
def pruneSnapshots (repo : Uuid) (environment profile : String) (keep : ℤ) :
    Effect Catalog SqlError ℕ := do
  let db ← get
  set (db.dropSnapshots (db.prunable repo environment profile keep))
  return db.snapshots.count fun id _ => db.prunable repo environment profile keep id

/-! ## What the statements can do -/

section Statements

variable (db : Catalog) (repo : Uuid) (environment profile : String)

/-- The row `create_snapshot` inserts. -/
def Catalog.snapshotRow (now : Timestamp) (sha : Sha256) (sizeBytes : ℤ)
    (sourceRef : Option String) : Snapshot where
  repoId := repo
  environment := environment
  profile := profile
  blobSha256 := sha
  sizeBytes := sizeBytes
  sourceRef := sourceRef
  createdAt := now
  seq := db.snapshotSeq + 1

/-- The catalog with one snapshot more. -/
def Catalog.withSnapshot (id : Uuid) (row : Snapshot) : Catalog :=
  { db with
    snapshots := db.snapshots.insertNew id row
    snapshotSeq := db.snapshotSeq + 1
    blobs := blobRefcountBump db.blobs (some row.blobSha256) 1 }

/-- `create_snapshot` inserts its row where the keys admit it, or fails and writes nothing. -/
theorem createSnapshot_cases (now : Timestamp) (newId : Uuid) (sha : Sha256) (sizeBytes : ℤ)
    (sourceRef : Option String) :
    (db.snapshots.get? newId = none ∧ (db.repositories.get? repo).isSome ∧ db.HasBlob sha ∧
      exec (createSnapshot now newId repo environment profile sha sizeBytes sourceRef) db
        = (.ok newId, db.withSnapshot newId
          (db.snapshotRow repo environment profile now sha sizeBytes sourceRef))) ∨
    ((db.snapshots.get? newId).isSome ∨ db.repositories.get? repo = none ∨ ¬ db.HasBlob sha) ∧
      ∃ e, exec (createSnapshot now newId repo environment profile sha sizeBytes sourceRef) db
        = (.error e, db) := by
  unfold createSnapshot Catalog.HasBlob
  simp only [exec_bind, exec_get, andThen]
  by_cases hid : (db.snapshots.get? newId).isSome = true
  · rw [if_pos hid]
    exact .inr ⟨.inl hid, _, rfl⟩
  rw [if_neg hid]
  by_cases hrefs : ((db.repositories.get? repo).isNone || (db.blobs.get? sha).isNone) = true
  · rw [if_pos hrefs]
    rw [Bool.or_eq_true, Option.isNone_iff_eq_none, Option.isNone_iff_eq_none] at hrefs
    refine .inr ⟨.inr (hrefs.imp_right fun hblob => ?_), _, rfl⟩
    rw [hblob]
    exact Bool.false_ne_true
  · rw [if_neg hrefs]
    rw [Bool.or_eq_true, not_or, Option.isNone_iff_eq_none, Option.isNone_iff_eq_none] at hrefs
    exact .inl ⟨Option.not_isSome_iff_eq_none.1 hid, Option.isSome_iff_ne_none.2 hrefs.1,
      Option.isSome_iff_ne_none.2 hrefs.2, rfl⟩

/-- `advance_latest` moves the pointer to a snapshot that is there, or fails. -/
theorem advanceLatest_cases (id : Uuid) :
    ((db.snapshots.get? id).isSome ∧ exec (advanceLatest repo environment profile id) db
        = (.ok (), { db with
          snapshotLatest := db.snapshotLatest.upsert (repo, environment, profile) id fun _ => id })) ∨
      db.snapshots.get? id = none ∧
        exec (advanceLatest repo environment profile id) db = (.error .foreignKeyViolation, db) := by
  unfold advanceLatest
  simp only [exec_bind, exec_get, andThen]
  cases hid : db.snapshots.get? id with
  | none => exact .inr ⟨rfl, rfl⟩
  | some s => exact .inl ⟨rfl, rfl⟩

end Statements

section Outcomes

variable {db db' : Catalog} {repo newId answer id : Uuid} {environment profile : String}
  {now : Timestamp} {sha : Sha256} {sizeBytes : ℤ} {sourceRef : Option String} {e : SqlError}

/-- A snapshot that is created has its repository and its blob, under an id that was free. -/
theorem createSnapshot_ok
    (h : exec (createSnapshot now newId repo environment profile sha sizeBytes sourceRef) db
      = (.ok answer, db')) :
    (db.repositories.get? repo).isSome ∧ db.HasBlob sha ∧ newId = answer ∧
      db.snapshots.get? newId = none ∧ db.withSnapshot newId
        (db.snapshotRow repo environment profile now sha sizeBytes sourceRef) = db' := by
  rcases createSnapshot_cases db repo environment profile now newId sha sizeBytes sourceRef with
    ⟨hfree, hrepo, hblob, hrun⟩ | ⟨-, e, hrun⟩
  · obtain ⟨hanswer, rfl⟩ := Prod.mk.inj (hrun.symm.trans h)
    exact ⟨hrepo, hblob, Except.ok.inj hanswer, hfree, rfl⟩
  · cases (Prod.mk.inj (hrun.symm.trans h)).1

/-- A snapshot that is refused leaves the catalog as it was. -/
theorem createSnapshot_error
    (h : exec (createSnapshot now newId repo environment profile sha sizeBytes sourceRef) db
      = (.error e, db')) :
    ((db.snapshots.get? newId).isSome ∨ db.repositories.get? repo = none ∨ ¬ db.HasBlob sha) ∧
      db = db' := by
  rcases createSnapshot_cases db repo environment profile now newId sha sizeBytes sourceRef with
    ⟨-, -, -, hrun⟩ | ⟨hwhy, e, hrun⟩
  · cases (Prod.mk.inj (hrun.symm.trans h)).1
  · exact ⟨hwhy, (Prod.mk.inj (hrun.symm.trans h)).2⟩

/-- The pointer moves to a stored snapshot. -/
theorem advanceLatest_ok
    (h : exec (advanceLatest repo environment profile id) db = (.ok (), db')) :
    (db.snapshots.get? id).isSome ∧ { db with
      snapshotLatest := db.snapshotLatest.upsert (repo, environment, profile) id fun _ => id }
        = db' := by
  rcases advanceLatest_cases db repo environment profile id with ⟨hid, hrun⟩ | ⟨-, hrun⟩
  · exact ⟨hid, (Prod.mk.inj (hrun.symm.trans h)).2⟩
  · cases (Prod.mk.inj (hrun.symm.trans h)).1

/-- The pointer stays where the snapshot is not stored. -/
theorem advanceLatest_error
    (h : exec (advanceLatest repo environment profile id) db = (.error e, db')) :
    db.snapshots.get? id = none ∧ db = db' := by
  rcases advanceLatest_cases db repo environment profile id with ⟨-, hrun⟩ | ⟨hid, hrun⟩
  · cases (Prod.mk.inj (hrun.symm.trans h)).1
  · exact ⟨hid, (Prod.mk.inj (hrun.symm.trans h)).2⟩

theorem pruneSnapshots_ok {keep : ℤ} {n : ℕ}
    (h : exec (pruneSnapshots repo environment profile keep) db = (.ok n, db')) :
    db.dropSnapshots (db.prunable repo environment profile keep) = db' := congrArg Prod.snd h

end Outcomes

end Sconce
