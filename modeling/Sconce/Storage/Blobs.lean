/-
# Blobs and their objects

The bytes of a blob are an object of the content-addressed store; that the catalog
knows the blob is a row of `blobs`.  A version references its dist, a snapshot its
dump; the foreign keys keep the row of a referenced blob.

Here are the store, the statements of the collector, and the statements that insert a
reference, each with what it does to the rows and the references.
-/
import Sconce.Versions.Store

namespace Sconce

open Effect

/-! ## The object store -/

/-- The objects, by the digest of their bytes. -/
abbrev ObjectStore := Table Sha256 (List UInt8)

/-- `put`: nothing to do where the object is there. -/
def ObjectStore.put (store : ObjectStore) (id : Sha256) (bytes : List UInt8) : ObjectStore :=
  store.insertNew id bytes

/-- `delete`: an absent object is success. -/
def ObjectStore.remove (store : ObjectStore) (id : Sha256) : ObjectStore :=
  store.delete fun k _ => k = id

/-- The object is there. -/
def ObjectStore.holds (store : ObjectStore) (id : Sha256) : Prop := (store.get? id).isSome

theorem ObjectStore.holds_put (store : ObjectStore) (id : Sha256) (bytes : List UInt8) :
    (store.put id bytes).holds id := by
  unfold holds put
  rw [Table.get?_insertNew_self]
  rfl

theorem ObjectStore.holds_put_of_holds {store : ObjectStore} {id : Sha256} (h : store.holds id)
    (id' : Sha256) (bytes : List UInt8) : (store.put id' bytes).holds id := by
  obtain ⟨b, hb⟩ := Option.isSome_iff_exists.1 h
  unfold holds put
  rw [Table.get?_insertNew_of_some hb]
  rfl

theorem ObjectStore.not_holds_remove (store : ObjectStore) (id : Sha256) :
    ¬ (store.remove id).holds id := by
  unfold holds remove
  rw [Table.get?_delete]
  cases store.get? id <;> simp

/-! ## References -/

namespace Catalog

variable (db : Catalog)

/-- A committed row of `package_versions` or `snapshots` references the blob. -/
def References (sha : Sha256) : Prop :=
  (∃ key pv, db.packageVersions.get? key = some pv ∧ pv.distBlobSha256 = some sha) ∨
    ∃ id snapshot, db.snapshots.get? id = some snapshot ∧ snapshot.blobSha256 = sha

/-- The row of the blob is there. -/
def HasBlob (sha : Sha256) : Prop := (db.blobs.get? sha).isSome

/-- The foreign keys on `blobs`. -/
def BlobsReferenced : Prop := ∀ sha, db.References sha → db.HasBlob sha

/-- The same test as the foreign keys make it. -/
def references (sha : Sha256) : Bool :=
  (db.packageVersions.rows.any fun r => r.2.distBlobSha256 = some sha) ||
    db.snapshots.rows.any fun r => r.2.blobSha256 = sha

/-- The guard of the sweep looks for exactly the rows that reference a blob. -/
theorem references_iff (sha : Sha256) : db.references sha = true ↔ db.References sha := by
  unfold references References
  simp only [Bool.or_eq_true, List.any_eq_true, decide_eq_true_eq, Prod.exists]
  simp only [Table.mem_rows_iff]

end Catalog

/-! ## The collector's statements -/

/-- The blob may be collected: nothing counts on it, and it was seen before the grace
window. -/
def Blob.collectable (now grace : ℤ) (b : Blob) : Bool :=
  b.refcount = 0 && b.lastSeenAt < now - grace

/-- `orphan_blobs`: the digests of the collectable blobs, longest unseen first. -/
def Catalog.orphanBlobs (db : Catalog) (now grace : ℤ) : List Sha256 :=
  ((db.blobs.rows.filter fun r => r.2.collectable now grace).mergeSort
    fun a b => a.2.lastSeenAt ≤ b.2.lastSeenAt).map (·.1)

/-- `delete_blob_if_orphan`: whether the row was deleted; a reference forbids it. -/
def deleteBlobIfOrphan (now grace : ℤ) (sha : Sha256) : Effect Catalog SqlError Bool := do
  let db ← get
  if ((db.blobs.get? sha).any fun b => b.collectable now grace) = true then
    if db.references sha then throw .foreignKeyViolation
    modify fun db => { db with blobs := db.blobs.delete fun k _ => k = sha }
    return true
  else return false

/-- `create_snapshot`; the id of the new row. -/
def createSnapshot (now : Timestamp) (newId repo : Uuid) (environment profile : String)
    (sha : Sha256) (sizeBytes : ℤ) (sourceRef : Option String) : Effect Catalog SqlError Uuid := do
  let db ← get
  if (db.snapshots.get? newId).isSome then throw .uniqueViolation
  if (db.repositories.get? repo).isNone || (db.blobs.get? sha).isNone then
    throw .foreignKeyViolation
  let row : Snapshot := {
    repoId := repo, environment, profile, blobSha256 := sha, sizeBytes, sourceRef
    createdAt := now, seq := db.snapshotSeq + 1 }
  modify fun db => { db with
    snapshots := db.snapshots.insertNew newId row
    snapshotSeq := db.snapshotSeq + 1
    blobs := blobRefcountBump db.blobs (some sha) 1 }
  return newId

/-! ## What the statements do to rows and references -/

/-- Counting a reference neither adds nor removes a blob. -/
theorem hasBlob_refcountBump (blobs : Table Sha256 Blob) (sha : Option Sha256) (delta : ℤ)
    (k : Sha256) : ((blobRefcountBump blobs sha delta).get? k).isSome = (blobs.get? k).isSome := by
  unfold blobRefcountBump
  rw [Table.get?_update, Option.isSome_map]

/-- The triggers keep the rows of `blobs`. -/
theorem hasBlob_refcountAdjust (blobs : Table Sha256 Blob) (old new : Option Sha256)
    (k : Sha256) :
    ((blobRefcountAdjust blobs old new).get? k).isSome = (blobs.get? k).isSome := by
  unfold blobRefcountAdjust
  split_ifs
  · rfl
  · rw [hasBlob_refcountBump, hasBlob_refcountBump]

/-- What `delete_blob_if_orphan` can do: delete the row of an unreferenced blob, find
nothing to delete, or fail; only the first writes. -/
theorem deleteBlobIfOrphan_cases (now grace : ℤ) (sha : Sha256) (db : Catalog) :
    (exec (deleteBlobIfOrphan now grace sha) db
        = (.ok true, { db with blobs := db.blobs.delete fun k _ => k = sha }) ∧
      ¬ db.References sha) ∨
    ∃ answer, exec (deleteBlobIfOrphan now grace sha) db = (answer, db) ∧ answer ≠ .ok true := by
  unfold deleteBlobIfOrphan
  simp only [exec_bind, exec_get, andThen]
  split_ifs with hcollectable hreferences
  · exact Or.inr ⟨_, rfl, fun h => by cases h⟩
  · refine Or.inl ⟨rfl, ?_⟩
    rw [← db.references_iff]
    exact hreferences
  · exact Or.inr ⟨_, rfl, by simp⟩

/-- The statement drops no row of a referenced blob, adds no row, and leaves the
references. -/
structure Catalog.Collects (db db' : Catalog) : Prop where
  blobs : ∀ k, db'.HasBlob k → db.HasBlob k
  kept : ∀ k, db.HasBlob k → db.References k → db'.HasBlob k
  references : ∀ k, db'.References k ↔ db.References k

/-- The sweep's delete takes one unreferenced row at most. -/
theorem deleteBlobIfOrphan_collects {now grace : ℤ} {sha : Sha256} {db db' : Catalog}
    {answer : Except SqlError Bool}
    (h : exec (deleteBlobIfOrphan now grace sha) db = (answer, db')) : db.Collects db' := by
  rcases deleteBlobIfOrphan_cases now grace sha db with ⟨heq, hnot⟩ | ⟨_, heq, -⟩
  · obtain rfl := (Prod.mk.inj (heq.symm.trans h)).2
    refine ⟨fun k hk => ?_, fun k hk href => ?_, fun k => Iff.rfl⟩
    · obtain ⟨b, hb⟩ := Option.isSome_iff_exists.1 hk
      rw [Table.get?_delete, Option.filter_eq_some_iff] at hb
      exact Option.isSome_iff_exists.2 ⟨b, hb.1⟩
    · have hne : k ≠ sha := by
        rintro rfl
        exact hnot href
      obtain ⟨b, hb⟩ := Option.isSome_iff_exists.1 hk
      unfold Catalog.HasBlob
      rw [Table.get?_delete, hb]
      simp [hne]
  · obtain rfl := (Prod.mk.inj (heq.symm.trans h)).2
    exact ⟨fun _ hk => hk, fun _ hk _ => hk, fun _ => Iff.rfl⟩

/-- The statement leaves `blobs` with the same digests, and adds at most the reference to
`sha`, whose row is there. -/
structure Catalog.AddsReference (sha : Sha256) (db db' : Catalog) : Prop where
  blobs : ∀ k, db'.HasBlob k ↔ db.HasBlob k
  references : ∀ k, db'.References k → db.References k ∨ (k = sha ∧ db.HasBlob sha)

theorem Catalog.AddsReference.refl (sha : Sha256) (db : Catalog) : db.AddsReference sha db where
  blobs := fun _ => Iff.rfl
  references := fun _ h => Or.inl h

/-- Where the foreign keys of a version hold, the blob it references has its row. -/
theorem Catalog.hasBlob_of_versionReferences {db : Catalog} {package : Uuid} {sha : Sha256}
    (h : db.versionReferences package (some sha) = .ok ()) : db.HasBlob sha := by
  unfold Catalog.versionReferences at h
  split_ifs at h with hpackage hblob
  rw [Option.any_some, Option.isNone_iff_eq_none] at hblob
  exact Option.isSome_iff_ne_none.2 hblob

/-- An inserted version references its archive. -/
theorem insertVersionOnce_addsReference (key : VersionKey) (row : PackageVersion) (sha : Sha256)
    (hrow : row.distBlobSha256 = some sha) (db : Catalog) :
    db.AddsReference sha (exec (insertVersionOnce key row) db).2 := by
  rcases insertVersionOnce_cases key row db with
    ⟨existing, -, hrun⟩ | ⟨hkey, hrefs, hrun⟩ | ⟨e, -, -, hrun⟩
  · rw [hrun]
    exact .refl sha db
  · rw [hrun]
    refine ⟨fun k => ?_, fun k => ?_⟩
    · exact iff_of_eq (congrArg (· = true) (hasBlob_refcountAdjust db.blobs none _ k))
    · rintro (⟨key', pv, hget, hdist⟩ | hsnapshot)
      · change (db.packageVersions.insertNew key row).get? key' = some pv at hget
        rw [Table.get?_insertNew] at hget
        split_ifs at hget with hsame
        · rw [hkey, Option.getD_none] at hget
          obtain rfl := Option.some.inj hget
          rw [hrow] at hrefs hdist
          exact Or.inr ⟨(Option.some.inj hdist).symm, Catalog.hasBlob_of_versionReferences hrefs⟩
        · exact Or.inl (Or.inl ⟨key', pv, hget, hdist⟩)
      · exact Or.inl (Or.inr hsnapshot)
  · rw [hrun]
    exact .refl sha db

/-- A mirrored version references its archive, the stored row overwritten or not. -/
theorem upsertPackageVersion_addsReference (key : VersionKey) (row : PackageVersion) (sha : Sha256)
    (hrow : row.distBlobSha256 = some sha) (db : Catalog) :
    db.AddsReference sha (exec (upsertPackageVersion key row) db).2 := by
  unfold upsertPackageVersion
  simp only [exec_bind, exec_get, exec_ofExcept, andThen]
  cases hrefs : db.versionReferences key.packageId row.distBlobSha256 with
  | error e => exact .refl sha db
  | ok u =>
    have hblob : db.HasBlob sha := Catalog.hasBlob_of_versionReferences (hrow ▸ hrefs)
    refine ⟨fun k => ?_, fun k => ?_⟩
    · exact iff_of_eq (congrArg (· = true) (hasBlob_refcountAdjust db.blobs _ _ k))
    · rintro (⟨key', pv, hget, hdist⟩ | hsnapshot)
      · change (db.packageVersions.upsert key row row.overwritten).get? key' = some pv at hget
        rw [Table.get?_upsert] at hget
        split_ifs at hget with hsame
        · -- the row written, new or over an old one, has the new dist
          have hnew : pv.distBlobSha256 = some sha := by
            rw [← Option.some.inj hget, ← hrow]
            cases db.packageVersions.get? key <;> rfl
          exact Or.inr ⟨Option.some.inj (hdist.symm.trans hnew), hblob⟩
        · exact Or.inl (Or.inl ⟨key', pv, hget, hdist⟩)
      · exact Or.inl (Or.inr hsnapshot)

theorem createSnapshot_addsReference (now : Timestamp) (newId repo : Uuid)
    (environment profile : String) (sha : Sha256) (sizeBytes : ℤ) (sourceRef : Option String)
    (db : Catalog) :
    db.AddsReference sha
      (exec (createSnapshot now newId repo environment profile sha sizeBytes sourceRef) db).2 := by
  unfold createSnapshot
  simp only [exec_bind, exec_get, andThen]
  by_cases hid : (db.snapshots.get? newId).isSome = true
  · rw [if_pos hid]
    exact .refl sha db
  rw [if_neg hid]
  by_cases hrefs : ((db.repositories.get? repo).isNone || (db.blobs.get? sha).isNone) = true
  · rw [if_pos hrefs]
    exact .refl sha db
  · rw [if_neg hrefs]
    simp only [Bool.or_eq_true, not_or] at hrefs
    have hblob : db.HasBlob sha := by
      unfold Catalog.HasBlob
      cases h : db.blobs.get? sha with
      | none => exact absurd (by rw [h]; rfl) hrefs.2
      | some b => rfl
    refine ⟨fun k => ?_, fun k => ?_⟩
    · exact iff_of_eq (congrArg (· = true) (hasBlob_refcountBump db.blobs _ _ k))
    · rintro (hversion | ⟨id, snapshot, hget, hsha⟩)
      · exact Or.inl (Or.inl hversion)
      · change (db.snapshots.insertNew newId _).get? id = some snapshot at hget
        rw [Table.get?_insertNew] at hget
        split_ifs at hget with hsame
        · have hnone : db.snapshots.get? newId = none := by
            rwa [Option.not_isSome_iff_eq_none] at hid
          rw [hnone, Option.getD_none] at hget
          obtain rfl := Option.some.inj hget
          exact Or.inr ⟨hsha.symm, hblob⟩
        · exact Or.inl (Or.inr ⟨id, snapshot, hget, hsha⟩)

end Sconce
