/-
# Refcounts

`blobs.refcount` counts the versions and the snapshots that reference the blob; triggers move
it with every row.  The collector deletes bytes on the strength of it.

A run is any sequence of statements: those of the catalog's functions, and the plain updates
and deletes the triggers are written for.
-/
import Sconce.Lib.Balance
import Sconce.Storage.Snapshots

namespace Sconce

open Effect

/-! ## Counts and references -/

namespace Catalog

variable (db : Catalog)

/-- The refcount of a blob. -/
def refcountOf (sha : Sha256) : Option ℤ := (db.blobs.get? sha).map (·.refcount)

/-- The row references the blob. -/
def versionReferencesBlob (sha : Sha256) (_ : VersionKey) (pv : PackageVersion) : Bool :=
  pv.distBlobSha256 = some sha

def snapshotReferencesBlob (sha : Sha256) (_ : Uuid) (s : Snapshot) : Bool := s.blobSha256 = sha

/-- How many rows reference the blob. -/
def referenceCount (sha : Sha256) : ℕ :=
  db.packageVersions.count (versionReferencesBlob sha) +
    db.snapshots.count (snapshotReferencesBlob sha)

/-- The refcounts are exact. -/
def Counted : Prop := InBalance db.refcountOf db.referenceCount

end Catalog

/-! ## Statements on versions and snapshots -/

/-- The triggers of an update that takes each row from one digest to another. -/
def adjustAll (blobs : Table Sha256 Blob) (changes : List (Option Sha256 × Option Sha256)) :
    Table Sha256 Blob :=
  changes.foldl (fun blobs c => blobRefcountAdjust blobs c.1 c.2) blobs

/-- `update package_versions`: a new dist has to have a blob. -/
def updateVersions (f : VersionKey → PackageVersion → PackageVersion) :
    Effect Catalog SqlError Unit := do
  let db ← get
  if db.packageVersions.rows.any fun r =>
      (f r.1 r.2).distBlobSha256.any fun sha => (db.blobs.get? sha).isNone then
    throw .foreignKeyViolation
  modify fun db => { db with
    packageVersions := db.packageVersions.update f
    blobs := adjustAll db.blobs
      (db.packageVersions.rows.map fun r => (r.2.distBlobSha256, (f r.1 r.2).distBlobSha256)) }

/-- `delete from package_versions`. -/
def deleteVersions (gone : VersionKey → PackageVersion → Bool) : Effect Catalog SqlError Unit :=
  modify fun db => { db with
    packageVersions := db.packageVersions.delete gone
    blobs := releaseBlobs db.blobs
      ((db.packageVersions.rows.filter fun r => gone r.1 r.2).filterMap (·.2.distBlobSha256)) }

/-- `update snapshots`. -/
def updateSnapshots (f : Uuid → Snapshot → Snapshot) : Effect Catalog SqlError Unit := do
  let db ← get
  if db.snapshots.rows.any fun r => (db.blobs.get? (f r.1 r.2).blobSha256).isNone then
    throw .foreignKeyViolation
  modify fun db => { db with
    snapshots := db.snapshots.update f
    blobs := adjustAll db.blobs
      (db.snapshots.rows.map fun r => (some r.2.blobSha256, some (f r.1 r.2).blobSha256)) }

/-! ## What the triggers add up to -/

theorem refcount_bump (blobs : Table Sha256 Blob) (sha : Option Sha256) (delta : ℤ) (k : Sha256) :
    ((blobRefcountBump blobs sha delta).get? k).map (·.refcount)
      = ((blobs.get? k).map (·.refcount)).map fun c => c + if sha = some k then delta else 0 := by
  unfold blobRefcountBump
  rw [Table.get?_update, Option.map_map, Option.map_map]
  refine Option.map_congr fun b _ => ?_
  by_cases hk : sha = some k
  · simp [hk]
  · simp [hk, Ne.symm hk]

/-- A trigger moves the counter of a blob by what the row's change moves its references. -/
theorem refcount_adjust (blobs : Table Sha256 Blob) (old new : Option Sha256) (k : Sha256) :
    ((blobRefcountAdjust blobs old new).get? k).map (·.refcount)
      = ((blobs.get? k).map (·.refcount)).map fun c =>
        c + ((if new = some k then 1 else 0) - if old = some k then 1 else 0) := by
  unfold blobRefcountAdjust
  by_cases hsame : new = old
  · rw [if_pos hsame, hsame, Option.map_map]
    refine Option.map_congr fun b _ => ?_
    dsimp only [Function.comp]
    ring
  · rw [if_neg hsame, refcount_bump, refcount_bump, Option.map_map, Option.map_map,
      Option.map_map]
    refine Option.map_congr fun b _ => ?_
    dsimp only [Function.comp]
    split_ifs <;> ring

/-- Rows that move between blobs add to the counts of those they come to and take from those they
leave. -/
theorem refcount_adjustAll (blobs : Table Sha256 Blob)
    (changes : List (Option Sha256 × Option Sha256)) (k : Sha256) :
    ((adjustAll blobs changes).get? k).map (·.refcount)
      = ((blobs.get? k).map (·.refcount)).map fun c => c +
        (((changes.countP fun x => x.2 = some k) : ℤ) - (changes.countP fun x => x.1 = some k)) := by
  unfold adjustAll
  induction changes generalizing blobs with
  | nil =>
    rw [Option.map_map]
    refine Option.map_congr fun b _ => ?_
    simp
  | cons x changes ih =>
    rw [List.foldl_cons, ih, refcount_adjust, Option.map_map, Option.map_map, Option.map_map]
    refine Option.map_congr fun b _ => ?_
    simp only [Function.comp, List.countP_cons, decide_eq_true_eq]
    push_cast
    ring

/-- Each released reference takes one from its blob's count. -/
theorem refcount_release (blobs : Table Sha256 Blob) (released : List Sha256) (k : Sha256) :
    ((releaseBlobs blobs released).get? k).map (·.refcount)
      = ((blobs.get? k).map (·.refcount)).map fun c => c - (released.count k : ℤ) := by
  unfold releaseBlobs
  rw [Table.get?_update, Option.map_map, Option.map_map]
  rfl

/-! ## Exact counts -/

namespace Catalog

variable {db db' : Catalog}

theorem referenceCount_pos_iff (sha : Sha256) : 0 < db.referenceCount sha ↔ db.References sha := by
  unfold referenceCount References Table.count
  rw [Nat.add_pos_iff_pos_or_pos, List.countP_pos_iff, List.countP_pos_iff]
  unfold versionReferencesBlob snapshotReferencesBlob
  simp only [decide_eq_true_eq, Prod.exists, Table.mem_rows_iff]

/-- Exact counts keep the rows of referenced blobs. -/
theorem Counted.blobsReferenced (h : db.Counted) : db.BlobsReferenced := by
  intro sha hreferences
  have hcounter := h.counter_isSome ((referenceCount_pos_iff sha).2 hreferences)
  unfold refcountOf at hcounter
  rwa [Option.isSome_map] at hcounter

/-- A statement that leaves versions, snapshots and blobs keeps the counts exact. -/
theorem Counted.elsewhere (h : db.Counted) (hversions : db'.packageVersions = db.packageVersions)
    (hsnapshots : db'.snapshots = db.snapshots) (hblobs : db'.blobs = db.blobs) : db'.Counted := by
  unfold Counted refcountOf referenceCount at h ⊢
  rwa [hversions, hsnapshots, hblobs]

/-- A row of `package_versions` that takes its reference from one digest to another, next to
its trigger. -/
theorem Counted.adjust (h : db.Counted) (old new : Option Sha256)
    (hsnapshots : db'.snapshots = db.snapshots)
    (hblobs : db'.blobs = blobRefcountAdjust db.blobs old new)
    (hnew : ∀ sha, new = some sha → db.HasBlob sha)
    (hcount : ∀ k, db'.packageVersions.count (versionReferencesBlob k) +
        (if old = some k then 1 else 0)
      = db.packageVersions.count (versionReferencesBlob k) + if new = some k then 1 else 0) :
    db'.Counted := by
  have hmoved : ∀ k, (db'.referenceCount k : ℤ) - db.referenceCount k
      = (if new = some k then 1 else 0) - if old = some k then 1 else 0 := by
    intro k
    have hk := hcount k
    unfold referenceCount
    rw [hsnapshots]
    split_ifs at hk ⊢ <;> push_cast <;> omega
  refine InBalance.shift h (fun k => ?_) fun k hk => ?_
  · unfold refcountOf
    rw [hblobs, refcount_adjust, hmoved k]
  · have hmissing : new ≠ some k := by
      intro hsome
      have hblob := hnew k hsome
      unfold refcountOf at hk
      rw [Option.map_eq_none_iff] at hk
      unfold HasBlob at hblob
      rw [hk] at hblob
      cases hblob
    have hzero := h.things_eq_zero hk
    have hle := hmoved k
    rw [if_neg hmissing] at hle
    split_ifs at hle <;> omega

/-- Rows that go, next to their triggers. -/
theorem Counted.release (h : db.Counted) {released : List Sha256}
    (hblobs : db'.blobs = releaseBlobs db.blobs released)
    (hcount : ∀ k, db'.referenceCount k + released.count k = db.referenceCount k) :
    db'.Counted := by
  refine InBalance.shift_of_le h (fun k => ?_) fun k => ?_
  · unfold refcountOf
    rw [hblobs, refcount_release]
    refine Option.map_congr fun c _ => ?_
    have hk := hcount k
    omega
  · rw [← hcount k]
    exact Nat.le_add_right _ _

/-! ## The statements keep the counts exact -/

/-- A new blob has no reference, and a stored one keeps its count. -/
theorem Counted.upsertBlob (h : db.Counted) (now : Timestamp) (sha : Sha256) (sizeBytes : ℤ) :
    (exec (upsertBlob now sha sizeBytes : Effect Catalog SqlError Unit) db).2.Counted := by
  refine InBalance.create h (fun k c hk => ?_) fun k hk => ?_
  · show ((db.blobs.upsert sha _ _).get? k).map (·.refcount) = some c
    obtain ⟨b, hb, rfl⟩ := Option.map_eq_some_iff.1 hk
    rw [Table.get?_upsert]
    split_ifs with hsame
    · rw [← hsame, hb]
      rfl
    · rw [hb]
      rfl
  · show (((db.blobs.upsert sha _ _).get? k).map (·.refcount)).getD 0 = 0
    have hb : db.blobs.get? k = none := Option.map_eq_none_iff.1 hk
    rw [Table.get?_upsert]
    split_ifs with hsame
    · rw [← hsame, hb]
      rfl
    · rw [hb]
      rfl

/-- A blob that is deleted had no reference. -/
theorem Counted.deleteBlobIfOrphan (h : db.Counted) (now grace : ℤ) (sha : Sha256) :
    (exec (deleteBlobIfOrphan now grace sha) db).2.Counted := by
  rcases deleteBlobIfOrphan_cases now grace sha db with ⟨hrun, hfree⟩ | ⟨answer, hrun, -⟩
  · rw [hrun]
    refine InBalance.drop h fun k => ?_
    unfold refcountOf
    rw [Table.get?_delete]
    by_cases hk : k = sha
    · have hzero : db.referenceCount k = 0 := by
        refine Nat.eq_zero_of_not_pos fun hpos => hfree ?_
        rwa [referenceCount_pos_iff, hk] at hpos
      refine .inr ⟨(h k).trans (by rw [hzero]; rfl), ?_⟩
      simp [hk]
    · refine .inl ?_
      cases db.blobs.get? k <;> simp [hk]
  · rw [hrun]
    exact h

/-- An inserted version is counted once, a refused one not at all. -/
theorem Counted.insertVersionOnce (h : db.Counted) (key : VersionKey) (row : PackageVersion) :
    (exec (insertVersionOnce key row) db).2.Counted := by
  rcases insertVersionOnce_cases key row db with
    ⟨existing, -, hrun⟩ | ⟨hkey, hrefs, hrun⟩ | ⟨e, -, -, hrun⟩
  · rw [hrun]
    exact h
  · rw [hrun]
    refine h.adjust none row.distBlobSha256 rfl rfl ?_ fun k => ?_
    · intro sha hsha
      exact hasBlob_of_versionReferences (hsha ▸ hrefs)
    · show (db.packageVersions.insertNew key row).count _ + _ = _
      rw [Table.insertNew, dif_pos hkey, Table.count_append]
      simp [versionReferencesBlob]
  · rw [hrun]
    exact h

/-- An overwritten version moves its count from the old archive to the new one. -/
theorem Counted.upsertPackageVersion (h : db.Counted) (key : VersionKey) (row : PackageVersion) :
    (exec (upsertPackageVersion key row) db).2.Counted := by
  unfold Sconce.upsertPackageVersion
  simp only [exec_bind, exec_get, exec_ofExcept, andThen]
  cases hrefs : db.versionReferences key.packageId row.distBlobSha256 with
  | error e => exact h
  | ok u =>
    refine h.adjust (db.distOf key) row.distBlobSha256 rfl rfl ?_ fun k => ?_
    · intro sha hsha
      exact hasBlob_of_versionReferences (hsha ▸ hrefs)
    · have hcount := db.packageVersions.count_upsert key row row.overwritten (versionReferencesBlob k)
      show (db.packageVersions.upsert key row row.overwritten).count _ + _ = _
      unfold Catalog.distOf
      cases hkey : db.packageVersions.get? key with
      | none =>
        rw [hkey] at hcount
        simpa [versionReferencesBlob] using hcount
      | some old =>
        rw [hkey] at hcount
        unfold versionReferencesBlob at hcount ⊢
        simp only [Option.any_some, Option.map_some, Option.getD_some, decide_eq_true_eq] at hcount
        exact hcount

/-- What an update of every row moves, next to its triggers. -/
theorem Counted.adjustAll (h : db.Counted) (changes : List (Option Sha256 × Option Sha256))
    (hblobs : db'.blobs = adjustAll db.blobs changes)
    (hnew : ∀ c ∈ changes, ∀ sha, c.2 = some sha → db.HasBlob sha)
    (hcount : ∀ k, db'.referenceCount k + changes.countP (fun c => c.1 = some k)
      = db.referenceCount k + changes.countP fun c => c.2 = some k) : db'.Counted := by
  refine InBalance.shift h (fun k => ?_) fun k hk => ?_
  · unfold refcountOf
    rw [hblobs, refcount_adjustAll]
    refine Option.map_congr fun c _ => ?_
    have hk := hcount k
    omega
  · have hnone : changes.countP (fun c => c.2 = some k) = 0 := by
      rw [List.countP_eq_zero]
      intro c hc hsome
      have hblob := hnew c hc k (of_decide_eq_true hsome)
      unfold refcountOf at hk
      rw [Option.map_eq_none_iff] at hk
      unfold HasBlob at hblob
      rw [hk] at hblob
      cases hblob
    have hzero := h.things_eq_zero hk
    have hk' := hcount k
    omega

/-- Updated versions move their counts with their archives. -/
theorem Counted.updateVersions (h : db.Counted) (f : VersionKey → PackageVersion → PackageVersion) :
    (exec (updateVersions f) db).2.Counted := by
  unfold Sconce.updateVersions
  simp only [exec_bind, exec_get, andThen]
  by_cases hmissing : (db.packageVersions.rows.any fun r =>
      (f r.1 r.2).distBlobSha256.any fun sha => (db.blobs.get? sha).isNone) = true
  · rw [if_pos hmissing]
    exact h
  rw [if_neg hmissing]
  refine h.adjustAll _ rfl ?_ fun k => ?_
  · intro c hc sha hsha
    obtain ⟨r, hr, rfl⟩ := List.mem_map.1 hc
    by_contra habsent
    refine hmissing (List.any_eq_true.2 ⟨r, hr, ?_⟩)
    dsimp only at hsha
    rw [hsha]
    simpa [HasBlob] using habsent
  · show (db.packageVersions.update f).count _ + db.snapshots.count _ + _ = _
    rw [Table.count_update, List.countP_map, List.countP_map]
    unfold referenceCount versionReferencesBlob Table.count
    dsimp only [Function.comp_def]
    omega

/-- Updated snapshots move their counts with their dumps. -/
theorem Counted.updateSnapshots (h : db.Counted) (f : Uuid → Snapshot → Snapshot) :
    (exec (updateSnapshots f) db).2.Counted := by
  unfold Sconce.updateSnapshots
  simp only [exec_bind, exec_get, andThen]
  by_cases hmissing : (db.snapshots.rows.any fun r =>
      (db.blobs.get? (f r.1 r.2).blobSha256).isNone) = true
  · rw [if_pos hmissing]
    exact h
  rw [if_neg hmissing]
  refine h.adjustAll _ rfl ?_ fun k => ?_
  · intro c hc sha hsha
    obtain ⟨r, hr, rfl⟩ := List.mem_map.1 hc
    obtain rfl := Option.some.inj hsha
    by_contra habsent
    refine hmissing (List.any_eq_true.2 ⟨r, hr, ?_⟩)
    simpa [HasBlob] using habsent
  · show db.packageVersions.count _ + (db.snapshots.update f).count _ + _ = _
    rw [Table.count_update, List.countP_map, List.countP_map]
    unfold referenceCount snapshotReferencesBlob Table.count
    dsimp only [Function.comp_def]
    simp only [Option.some.injEq]
    omega

/-- The digests released with the rows of a delete are those the rows referenced. -/
theorem count_releasedVersions (gone : VersionKey → PackageVersion → Bool) (k : Sha256) :
    ((db.packageVersions.rows.filter fun r => gone r.1 r.2).filterMap (·.2.distBlobSha256)).count k
      = db.packageVersions.count fun key pv => versionReferencesBlob k key pv && gone key pv := by
  unfold List.count Table.count versionReferencesBlob
  rw [List.countP_filterMap, List.countP_filter]
  refine List.countP_congr fun r _ => ?_
  cases hdist : r.2.distBlobSha256 with
  | none => simp [hdist]
  | some sha => simp [hdist]

/-- Deleted versions release their archives. -/
theorem Counted.deleteVersions (h : db.Counted) (gone : VersionKey → PackageVersion → Bool) :
    (exec (deleteVersions gone) db).2.Counted := by
  refine h.release rfl fun k => ?_
  have hcount := db.packageVersions.count_delete_add gone (versionReferencesBlob k)
  rw [count_releasedVersions]
  show (db.packageVersions.delete gone).count _ + db.snapshots.count _ + _ = _
  unfold referenceCount
  omega

/-- Dropped packages release the archives of their versions. -/
theorem Counted.dropPackages (h : db.Counted) (gone : Uuid → Bool) :
    (db.dropPackages gone).Counted := by
  have hversions := h.deleteVersions fun key _ => gone key.packageId
  exact hversions.elsewhere rfl rfl rfl

/-- Dropped snapshots release their dumps. -/
theorem Counted.dropSnapshots (h : db.Counted) (gone : Uuid → Bool) :
    (db.dropSnapshots gone).Counted := by
  refine h.release rfl fun k => ?_
  have hcount := db.snapshots.count_delete_add (fun id _ => gone id) (snapshotReferencesBlob k)
  have hreleased : (db.snapshotBlobs gone).count k
      = db.snapshots.count fun id s => snapshotReferencesBlob k id s && gone id := by
    unfold snapshotBlobs List.count Table.count snapshotReferencesBlob
    rw [List.countP_map, List.countP_filter]
    refine List.countP_congr fun r _ => ?_
    simp
  rw [hreleased]
  show db.packageVersions.count _ + (db.snapshots.delete fun id _ => gone id).count _ + _ = _
  unfold referenceCount
  omega

theorem Counted.dropUpstreams (h : db.Counted) (gone : Uuid → Bool) :
    (db.dropUpstreams gone).Counted := h.elsewhere rfl rfl rfl

theorem Counted.dropEditions (h : db.Counted) (gone : Uuid → Bool) :
    (db.dropEditions gone).Counted := h.elsewhere rfl rfl rfl

theorem Counted.dropLicenseKeys (h : db.Counted) (gone : Uuid → Bool) :
    (db.dropLicenseKeys gone).Counted := h.elsewhere rfl rfl rfl

theorem Counted.dropUploadSessions (h : db.Counted) (gone : Uuid → Bool) :
    (db.dropUploadSessions gone).Counted := h.elsewhere rfl rfl rfl

theorem Counted.dropRepositoryRow (h : db.Counted) (repo : Uuid) :
    (db.dropRepositoryRow repo).Counted := h.elsewhere rfl rfl rfl

/-- Deleting a repository takes its packages' versions and its snapshots. -/
theorem Counted.dropRepository (h : db.Counted) (repo : Uuid) : (db.dropRepository repo).Counted :=
  ((((((h.dropUpstreams _).dropPackages _).dropEditions _).dropLicenseKeys _).dropSnapshots
    _).dropUploadSessions _).dropRepositoryRow repo

/-- A snapshot that is created is counted once. -/
theorem Counted.createSnapshot (h : db.Counted) (now : Timestamp) (newId repo : Uuid)
    (environment profile : String) (sha : Sha256) (sizeBytes : ℤ) (sourceRef : Option String) :
    (exec (createSnapshot now newId repo environment profile sha sizeBytes sourceRef) db).2.Counted := by
  rcases createSnapshot_cases db repo environment profile now newId sha sizeBytes sourceRef with
    ⟨hfree, -, hblob, hrun⟩ | ⟨-, e, hrun⟩
  · rw [hrun]
    have hmoved : ∀ k, (db.withSnapshot newId (db.snapshotRow repo environment profile now sha
        sizeBytes sourceRef)).referenceCount k = db.referenceCount k + if sha = k then 1 else 0 := by
      intro k
      show db.packageVersions.count _ + (db.snapshots.insertNew newId _).count _ = _
      rw [Table.insertNew, dif_pos hfree, Table.count_append]
      unfold referenceCount snapshotReferencesBlob snapshotRow
      simp only [decide_eq_true_eq, Nat.add_assoc]
    refine InBalance.shift h (fun k => ?_) fun k hk => ?_
    · show ((blobRefcountBump db.blobs (some sha) 1).get? k).map (·.refcount) = _
      rw [refcount_bump, hmoved k]
      refine Option.map_congr fun c _ => ?_
      simp only [Option.some.injEq]
      split_ifs <;> push_cast <;> ring
    · have hne : sha ≠ k := by
        rintro rfl
        unfold refcountOf at hk
        rw [Option.map_eq_none_iff] at hk
        unfold HasBlob at hblob
        rw [hk] at hblob
        cases hblob
      rw [hmoved k, if_neg hne, h.things_eq_zero hk]
  · rw [hrun]
    exact h

end Catalog

/-! ## Runs -/

/-- A statement on other tables. -/
structure Elsewhere where
  write : Catalog → Catalog
  versions : ∀ db, (write db).packageVersions = db.packageVersions
  snapshots : ∀ db, (write db).snapshots = db.snapshots
  blobs : ∀ db, (write db).blobs = db.blobs

/-- A statement of a run. -/
inductive BlobStatement where
  | upsertBlob (now : Timestamp) (sha : Sha256) (sizeBytes : ℤ)
  | deleteBlobIfOrphan (now grace : ℤ) (sha : Sha256)
  | insertVersionOnce (key : VersionKey) (row : PackageVersion)
  | upsertPackageVersion (key : VersionKey) (row : PackageVersion)
  | updateVersions (f : VersionKey → PackageVersion → PackageVersion)
  | deleteVersions (gone : VersionKey → PackageVersion → Bool)
  | createSnapshot (now : Timestamp) (newId repo : Uuid) (environment profile : String)
      (sha : Sha256) (sizeBytes : ℤ) (sourceRef : Option String)
  | updateSnapshots (f : Uuid → Snapshot → Snapshot)
  | deleteSnapshots (gone : Uuid → Bool)
  | pruneSnapshots (repo : Uuid) (environment profile : String) (keep : ℤ)
  | deletePackages (gone : Uuid → Bool)
  | deleteRepository (repo : Uuid)
  | elsewhere (statement : Elsewhere)

/-- What a statement leaves, whether it succeeds or not. -/
def runBlobStatement (db : Catalog) : BlobStatement → Catalog
  | .upsertBlob now sha sizeBytes =>
    (exec (upsertBlob now sha sizeBytes : Effect Catalog SqlError Unit) db).2
  | .deleteBlobIfOrphan now grace sha => (exec (deleteBlobIfOrphan now grace sha) db).2
  | .insertVersionOnce key row => (exec (insertVersionOnce key row) db).2
  | .upsertPackageVersion key row => (exec (upsertPackageVersion key row) db).2
  | .updateVersions f => (exec (updateVersions f) db).2
  | .deleteVersions gone => (exec (deleteVersions gone) db).2
  | .createSnapshot now newId repo environment profile sha sizeBytes sourceRef =>
    (exec (createSnapshot now newId repo environment profile sha sizeBytes sourceRef) db).2
  | .updateSnapshots f => (exec (updateSnapshots f) db).2
  | .deleteSnapshots gone => db.dropSnapshots gone
  | .pruneSnapshots repo environment profile keep =>
    (exec (pruneSnapshots repo environment profile keep) db).2
  | .deletePackages gone => db.dropPackages gone
  | .deleteRepository repo => db.dropRepository repo
  | .elsewhere statement => statement.write db

theorem Catalog.Counted.run {db : Catalog} (h : db.Counted) (statement : BlobStatement) :
    (runBlobStatement db statement).Counted := by
  cases statement with
  | upsertBlob now sha sizeBytes => exact h.upsertBlob now sha sizeBytes
  | deleteBlobIfOrphan now grace sha => exact h.deleteBlobIfOrphan now grace sha
  | insertVersionOnce key row => exact h.insertVersionOnce key row
  | upsertPackageVersion key row => exact h.upsertPackageVersion key row
  | updateVersions f => exact h.updateVersions f
  | deleteVersions gone => exact h.deleteVersions gone
  | createSnapshot now newId repo environment profile sha sizeBytes sourceRef =>
    exact h.createSnapshot now newId repo environment profile sha sizeBytes sourceRef
  | updateSnapshots f => exact h.updateSnapshots f
  | deleteSnapshots gone => exact h.dropSnapshots gone
  | pruneSnapshots repo environment profile keep => exact h.dropSnapshots _
  | deletePackages gone => exact h.dropPackages gone
  | deleteRepository repo => exact h.dropRepository repo
  | elsewhere s => exact h.elsewhere (s.versions db) (s.snapshots db) (s.blobs db)

/-- **Refcounts never drift.** In every state a run reaches, each blob's refcount is the number
of versions and snapshots that reference it, it is not negative, and what a version or snapshot
references has its row. -/
theorem refcounts_exact (statements : List BlobStatement) :
    let db := Run.final runBlobStatement Catalog.empty statements
    (∀ sha blob, db.blobs.get? sha = some blob →
      blob.refcount = db.packageVersions.count (fun _ pv => pv.distBlobSha256 = some sha) +
          db.snapshots.count (fun _ s => s.blobSha256 = sha) ∧ 0 ≤ blob.refcount) ∧
      ∀ sha, db.References sha → db.HasBlob sha := by
  have hempty : Catalog.empty.Counted := fun _ => rfl
  have hfinal : (Run.final runBlobStatement Catalog.empty statements).Counted :=
    Run.final_invariant Catalog.Counted (fun statement _ db h => h.run statement) hempty
  refine ⟨fun sha blob hblob => ?_, hfinal.blobsReferenced⟩
  have hcounter : (Run.final runBlobStatement Catalog.empty statements).refcountOf sha
      = some blob.refcount := by
    unfold Catalog.refcountOf
    rw [hblob]
    rfl
  refine ⟨?_, hfinal.counter_nonneg hcounter⟩
  rw [hfinal.counter_eq hcounter]
  exact Nat.cast_add _ _

end Sconce
