/-
# The history of a version

`VersionOp` collects what writes `package_versions`: a publish, one pass of a
composer or of a git mirror, the marks a mirror leaves on packages, and the
operator's decisions.  Whole syncs are runs of these steps, in whatever way
concurrent syncs interleave (`mirrorCheckout_reaches`, `mirrorPackage_reaches`,
`mirror_reaches`).

`stores` reads off the checks of a writer which row it brings to
`package_versions`, and `packageVersions_run` says what a step does to the table:
an insert that leaves a stored row alone, an overwriting upsert, or an update
that leaves every dist alone.
-/
import Sconce.Versions.Writers
import Sconce.Lib.Run

namespace Sconce

open Effect

/-- A step that may write `package_versions`, or that a mirror takes beside one. -/
inductive VersionOp where
  | publish (call : PublishCall)
  | composerVersion (sync : ComposerSync) (stored : String → Option StoredDist) (draw : Draw)
      (obj : Json)
  | gitPath (sync : GitSync) (tag sourcePath : String)
  | markSynced (now : Timestamp) (repo : Uuid) (name : String)
  | markBroken (now : Timestamp) (repo : Uuid) (name reason : String)
  | approveVersion (now : Timestamp) (repo : Uuid) (package normalized : String)
  | approveAllPending (now : Timestamp) (repo : Uuid) (package : Option String)
  | holdVersion (now : Timestamp) (repo : Uuid) (package normalized : String)
  | unholdVersion (repo : Uuid) (package normalized : String)
  | yankVersion (now : Timestamp) (repo : Uuid) (package normalized : String)
  | unyankVersion (repo : Uuid) (package normalized : String)

/-- The state an effect leaves, whatever it answers. -/
def Catalog.after {ε α : Type} (db : Catalog) (m : Effect Catalog ε α) : Catalog := (exec m db).2

/-- The state a step leaves. -/
def VersionOp.run (env : External) (db : Catalog) : VersionOp → Catalog
  | .publish call => db.after (persist env call)
  | .composerVersion sync stored draw obj => db.after (sync.mirrorVersion env stored draw obj)
  | .gitPath sync tag sourcePath =>
    match normalizeTag env tag with
    | some parsed => db.after (sync.mirrorPath env tag parsed sourcePath)
    | none => db
  | .markSynced now repo name => db.after (ε := Empty) (markPackageSynced now repo name)
  | .markBroken now repo name reason =>
    db.after (ε := Empty) (markPackageBroken now repo name reason)
  | .approveVersion now repo package normalized =>
    db.after (ε := Empty) (setVersionTimestamp .approvedAt (some now) repo package normalized)
  | .approveAllPending now repo package =>
    db.after (ε := Empty) (Sconce.approveAllPending now repo package)
  | .holdVersion now repo package normalized =>
    db.after (ε := Empty) (setVersionTimestamp .heldAt (some now) repo package normalized)
  | .unholdVersion repo package normalized =>
    db.after (ε := Empty) (setVersionTimestamp .heldAt none repo package normalized)
  | .yankVersion now repo package normalized =>
    db.after (ε := Empty) (setVersionTimestamp .yankedAt (some now) repo package normalized)
  | .unyankVersion repo package normalized =>
    db.after (ε := Empty) (setVersionTimestamp .yankedAt none repo package normalized)

namespace VersionOp

variable {env : External}

/-- A path of a tag that is a version runs as its sync does. -/
theorem run_gitPath {tag : String} {parsed : ParsedVersion}
    (h : normalizeTag env tag = some parsed) (db : Catalog) (sync : GitSync) (sp : String) :
    (gitPath sync tag sp).run env db = db.after (sync.mirrorPath env tag parsed sp) := by
  show (match normalizeTag env tag with | some parsed => _ | none => _) = _
  rw [h]

/-! ## Whole syncs are runs of steps -/

/-- A program that is one operation is a history of one. -/
theorem reaches_of_run {ε α : Type} {m : Effect Catalog ε α} (op : VersionOp)
    (h : ∀ db, db.after m = op.run env db) : Keeps (Run.Reaches (run env)) m :=
  fun db => ⟨[op], (h db).symm⟩

/-- A checkout is a history of operations, one a tag and path. -/
theorem mirrorCheckout_reaches (sync : GitSync) :
    Keeps (Run.Reaches (run env)) (sync.mirrorCheckout env) := by
  have htag : ∀ report tag, Keeps (Run.Reaches (run env)) (sync.mirrorTag env report tag) := by
    intro report tag
    unfold GitSync.mirrorTag
    cases hparsed : normalizeTag env tag with
    | none => exact keeps_pure _
    | some parsed =>
      apply keeps_foldlM
      intro report sp
      refine keeps_bind (reaches_of_run (.gitPath sync tag sp) fun db => ?_) fun _ => keeps_pure _
      exact (run_gitPath hparsed db sync sp).symm
  unfold GitSync.mirrorCheckout
  refine keeps_bind (keeps_ofExcept _) fun tags => ?_
  refine keeps_bind (keeps_foldlM htag tags _) fun report => ?_
  refine keeps_bind (keeps_forM (fun name => ?_) _) fun _ => keeps_pure _
  exact reaches_of_run (.markSynced sync.finished sync.repo name) fun _ => rfl

/-- A package sync is a history of operations, one a listed version. -/
theorem mirrorPackage_reaches (sync : ComposerSync) :
    Keeps (Run.Reaches (run env)) (sync.mirrorPackage env) := by
  have hinner : Keeps (Run.Reaches (run env)) (sync.mirrorPackageInner env) := by
    unfold ComposerSync.mirrorPackageInner
    refine keeps_bind (keeps_ofExcept _) fun versions => ?_
    refine keeps_bind keeps_get fun db => ?_
    apply keeps_foldlM
    intro report v
    refine keeps_bind ?_ fun _ => keeps_pure _
    exact reaches_of_run (.composerVersion sync _ v.1 v.2) fun _ => rfl
  have hrecord : ∀ result, Keeps (Run.Reaches (run env)) (sync.recordLifecycle result) := by
    intro result
    cases result with
    | ok report =>
      exact reaches_of_run (.markSynced sync.finished sync.upstream.repoId sync.package)
        fun _ => rfl
    | error e =>
      simp only [ComposerSync.recordLifecycle]
      cases e.reason with
      | none => exact keeps_pure _
      | some reason =>
        exact reaches_of_run
          (.markBroken sync.finished sync.upstream.repoId sync.package reason) fun _ => rfl
  unfold ComposerSync.mirrorPackage
  refine keeps_bind (keeps_outcome hinner) fun result => ?_
  exact keeps_bind (hrecord result) fun _ => keeps_ofExcept _

/-- A registry sync is a history of operations. -/
theorem mirror_reaches (sync : RegistrySync) :
    Keeps (Run.Reaches (run env)) (sync.mirror env) := by
  have hname : ∀ archived report name,
      Keeps (Run.Reaches (run env)) (sync.mirrorName env archived report name) := by
    intro archived report name
    unfold RegistrySync.mirrorName
    refine keeps_ite (fun _ => keeps_pure _) fun _ => ?_
    refine keeps_bind (keeps_outcome (mirrorPackage_reaches _)) fun result => ?_
    cases result with
    | ok r => exact keeps_pure _
    | error e => exact keeps_pure _
  have hreconcile : ∀ report existing,
      Keeps (Run.Reaches (run env)) (sync.reconcile report existing) := by
    intro report existing
    unfold RegistrySync.reconcile
    refine keeps_bind keeps_get fun db => ?_
    refine keeps_bind ?_ fun _ => keeps_pure _
    exact reaches_of_run (.markBroken sync.finished sync.upstream.repoId existing "source_gone")
      fun _ => rfl
  unfold RegistrySync.mirror
  refine keeps_bind (keeps_ofExcept _) fun available => ?_
  refine keeps_bind keeps_get fun db => ?_
  refine keeps_bind (keeps_foldlM (hname _) _ _) fun report => ?_
  cases available with
  | none => exact keeps_pure _
  | some listed => exact keeps_bind keeps_get fun _ => keeps_foldlM hreconcile _ _

end VersionOp

/-! ## What the writers bring to the table -/

/-- `upsert_blob` before a write of a version. -/
def Catalog.withBlob (db : Catalog) (now : Timestamp) (sha256 : Sha256) (size : ℤ) : Catalog :=
  { db with blobs := db.blobs.upsert sha256 ⟨size, 0, now⟩ fun b => { b with lastSeenAt := now } }

theorem exec_upsertBlob {ε : Type} (db : Catalog) (now : Timestamp) (sha256 : Sha256) (size : ℤ) :
    exec (upsertBlob now sha256 size : Effect Catalog ε Unit) db
      = (.ok (), db.withBlob now sha256 size) := rfl

/-- The package a writer upserts right after its blob: the catalog is then ready for
the version, or the writer has failed. -/
theorem upsertPackage_withBlob (db : Catalog) (now : Timestamp) (sha256 : Sha256) (size : ℤ)
    (newId repo : Uuid) (name kind : String) (source : Option Json) (visibility : Visibility) :
    (∃ id db', db.upsertedId newId repo name visibility = some id ∧
        exec (upsertPackage newId repo name kind source visibility) (db.withBlob now sha256 size)
          = (.ok id, db') ∧
        db'.Ready db.packageVersions sha256 id ∧
        db.admitPackage repo name visibility = .ok () ∧
        db'.ensurePrivateAllowed repo = db.ensurePrivateAllowed repo) ∨
      ∃ e, db.upsertedId newId repo name visibility = none ∧
        exec (upsertPackage newId repo name kind source visibility) (db.withBlob now sha256 size)
          = (.error e, db.withBlob now sha256 size) := by
  rcases upsertPackage_cases (db.withBlob now sha256 size) newId repo name kind source visibility
    with ⟨id, packages, hid, haccept, hexec, hsome⟩ | ⟨e, hid, hexec⟩
  · refine Or.inl ⟨id, _, hid, hexec, ⟨rfl, ?_, hsome⟩, haccept, rfl⟩
    show ((db.blobs.upsert _ _ _).get? sha256).isSome
    rw [Table.get?_upsert, if_pos rfl]
    rfl
  · exact Or.inr ⟨e, hid, hexec⟩

/-- The row a publish brings to `package_versions`. -/
def PublishCall.stores (env : External) (db : Catalog) (call : PublishCall) :
    Option (VersionKey × PackageVersion) :=
  match normalizeVersion env call.version, db.publishVisibility call with
  | some (normalized, stability), .ok visibility =>
    (db.upsertedId call.draw.newId call.repo call.pkgName visibility).map fun id =>
      (⟨id, normalized⟩, call.versionRow stability)
  | _, _ => none

/-- The row a pass of the git mirror brings. -/
def GitSync.stores (env : External) (db : Catalog) (sync : GitSync) (tag sp : String) :
    Option (VersionKey × PackageVersion) :=
  match normalizeTag env tag with
  | some parsed =>
    match sync.archive env tag parsed sp with
    | .ok (.inr a) =>
      (db.upsertedId (sync.draw tag sp).newId sync.repo a.name sync.visibility).map fun id =>
        (⟨id, parsed.normalized⟩, sync.versionRow env tag parsed a)
    | _ => none
  | none => none

/-- The row a pass of the composer mirror brings. -/
def ComposerSync.stores (env : External) (db : Catalog) (sync : ComposerSync)
    (stored : String → Option StoredDist) (draw : Draw) (obj : Json) :
    Option (VersionKey × PackageVersion) :=
  match sync.list obj with
  | .inl _ => none
  | .inr v =>
    match stored v.normalized, sync.fetch env v with
    | none, .ok f =>
      (db.upsertedId draw.newId sync.upstream.repoId sync.package sync.upstream.visibility).map
        fun id => (⟨id, v.normalized⟩, sync.versionRow v f)
    | _, _ => none

/-- A declaration after the package is admitted succeeds: a package published for
the first time is admitted with the visibility it declares. -/
theorem declareVisibility_ready {db db' : Catalog} {call : PublishCall} {visibility : Visibility}
    {versions : Table VersionKey PackageVersion} {sha : Sha256} {id : Uuid}
    (haccept : db.admitPackage call.repo call.pkgName visibility = .ok ())
    (hallowed : db'.ensurePrivateAllowed call.repo = db.ensurePrivateAllowed call.repo)
    (hready : db'.Ready versions sha id) :
    ∃ db'', exec (declareVisibility call (db.packageVisibility call.repo call.pkgName) visibility)
      db' = (.ok (), db'') ∧ db''.Ready versions sha id := by
  unfold declareVisibility
  split_ifs with hdeclare
  · have hprivate : visibility = .private → db'.ensurePrivateAllowed call.repo = .ok () := by
      rintro rfl
      rw [hallowed]
      exact db.ensurePrivateAllowed_of_admitPackage haccept (Option.isNone_iff_eq_none.1 hdeclare.1)
    obtain ⟨db'', hexec, hready''⟩ :=
      hready.setPackageVisibility hprivate call.draw.now call.pkgName
    refine ⟨db'', ?_, hready''⟩
    simp only [exec_bind, exec_adapt, hexec, exec_pure, andThen, Except.mapError]
  · exact ⟨db', rfl, hready⟩

/-- A publish inserts the row it brings, unless the key has one. -/
theorem packageVersions_persist (env : External) (db : Catalog) (call : PublishCall) :
    (db.after (persist env call)).packageVersions =
      match call.stores env db with
      | some (key, row) => db.packageVersions.insertNew key row
      | none => db.packageVersions := by
  unfold Catalog.after persist PublishCall.stores
  cases hnormal : normalizeVersion env call.version with
  | none => rfl
  | some parsed =>
    obtain ⟨normalized, stability⟩ := parsed
    simp only [exec_bind, exec_get, exec_ofExcept, exec_upsertBlob, exec_adapt, Option.elim, andThen]
    cases hvisibility : db.publishVisibility call with
    | error e => rfl
    | ok visibility =>
      rcases upsertPackage_withBlob db call.draw.now call.prepared.blob call.prepared.size
          call.draw.newId call.repo call.pkgName "upload"
          (some (.object [("kind", .string "upload")])) visibility with
        ⟨id, db', hid, hexec, hready, haccept, hallowed⟩ | ⟨e, hid, hexec⟩
      · obtain ⟨db'', hdeclare, hready''⟩ := declareVisibility_ready haccept hallowed hready
        simp only [hexec, Except.mapError, hdeclare, hid, Option.map_some]
        obtain ⟨published, db₂, hinsert, hversions⟩ := hready''.insertVersionOnce normalized
          (call.versionRow stability) rfl
        simp only [hinsert]
        exact hversions
      · simp only [hexec, Except.mapError, hid, Option.map_none]
        rfl

/-- Binding the upstream leaves a version ready to be stored. -/
theorem GitSync.bindUpstream_ready (sync : GitSync) {db : Catalog}
    {versions : Table VersionKey PackageVersion} {sha : Sha256} {id : Uuid}
    (h : db.Ready versions sha id) :
    ∃ db', exec (sync.bindUpstream id) db = (.ok (), db') ∧ db'.Ready versions sha id := by
  unfold GitSync.bindUpstream
  cases sync.upstream with
  | none => exact ⟨db, rfl, h⟩
  | some uid => exact h.setPackageUpstream id uid

/-- A pass of the git mirror overwrites the stored row with the one it brings. -/
theorem GitSync.packageVersions_mirrorPath (env : External) (db : Catalog) (sync : GitSync)
    {tag : String} {parsed : ParsedVersion} (h : normalizeTag env tag = some parsed) (sp : String) :
    (db.after (sync.mirrorPath env tag parsed sp)).packageVersions =
      match sync.stores env db tag sp with
      | some (key, row) => db.packageVersions.upsert key row row.overwritten
      | none => db.packageVersions := by
  unfold Catalog.after GitSync.mirrorPath GitSync.stores
  simp only [h, exec_bind, exec_ofExcept, andThen]
  cases harchive : sync.archive env tag parsed sp with
  | error e => rfl
  | ok got =>
    cases got with
    | inl entry => rfl
    | inr a =>
      show (exec (sync.store env tag parsed sp a) db).2.packageVersions = _
      unfold GitSync.store
      simp only [exec_bind, exec_upsertBlob, exec_adapt, exec_pure, andThen]
      rcases upsertPackage_withBlob db (sync.draw tag sp).now a.blob (sizeOf a.zip)
          (sync.draw tag sp).newId sync.repo a.name "git"
          (some (.object [("url", .string sync.sourceUrl)])) sync.visibility with
        ⟨id, db', hid, hexec, hready, -, -⟩ | ⟨e, hid, hexec⟩
      · obtain ⟨db₁, hbind, hready₁⟩ := sync.bindUpstream_ready hready
        obtain ⟨db₂, hpath, hready₂⟩ := hready₁.setPackageSourcePath (ε := MirrorError) id sp
        obtain ⟨db₃, hupsert, hversions⟩ := hready₂.upsertPackageVersion parsed.normalized
          (sync.versionRow env tag parsed a) rfl
        simp only [hexec, Except.mapError, hbind, hpath, hupsert, hid, Option.map_some]
        exact hversions
      · simp only [hexec, Except.mapError, hid, Option.map_none]
        rfl

/-- The same rows but for `upstream_dist_path`. -/
def Catalog.SameButPaths (db db' : Catalog) : Prop :=
  ∀ key, (db'.packageVersions.get? key).map (fun pv => { pv with upstreamDistPath := none })
    = (db.packageVersions.get? key).map fun pv => { pv with upstreamDistPath := none }

/-- The comparison writes no more than the upstream path. -/
theorem ComposerSync.compare_sameButPaths (db : Catalog) (sync : ComposerSync) (v : Listed)
    (existing : StoredDist) : db.SameButPaths (db.after (sync.compare v existing)) := by
  unfold ComposerSync.compare
  cases upstreamChange existing v.shasum v.reference with
  | some reason => exact fun _ => rfl
  | none =>
    show db.SameButPaths (exec (sync.backfill v existing >>= fun _ => _) db).2
    rw [exec_bind]
    unfold ComposerSync.backfill
    cases existing.upstreamDistPath with
    | some path => exact fun _ => rfl
    | none =>
      cases sync.distPath v with
      | none => exact fun _ => rfl
      | some path =>
        intro key
        show ((db.packageVersions.update _).get? key).map _ = _
        rw [Table.get?_update, Option.map_map]
        congr 1
        funext pv
        simp only [Function.comp]
        split_ifs <;> rfl

/-- A pass of the composer mirror inserts the row it brings, unless the key has one;
a pass that brings none records a path at most. -/
theorem ComposerSync.packageVersions_mirrorVersion (env : External) (db : Catalog)
    (sync : ComposerSync) (stored : String → Option StoredDist) (draw : Draw) (obj : Json) :
    match sync.stores env db stored draw obj with
    | some (key, row) => (db.after (sync.mirrorVersion env stored draw obj)).packageVersions
        = db.packageVersions.insertNew key row
    | none => db.SameButPaths (db.after (sync.mirrorVersion env stored draw obj)) := by
  cases hlist : sync.list obj with
  | inl entry =>
    simp only [ComposerSync.mirrorVersion, ComposerSync.stores, hlist]
    exact fun _ => rfl
  | inr v =>
    cases hstored : stored v.normalized with
    | some existing =>
      simp only [ComposerSync.mirrorVersion, ComposerSync.stores, hlist, hstored]
      exact sync.compare_sameButPaths db v existing
    | none =>
      simp only [ComposerSync.mirrorVersion, ComposerSync.stores, hlist, hstored, Catalog.after,
        exec_bind, exec_ofExcept, andThen]
      cases hfetch : sync.fetch env v with
      | error e => exact fun _ => rfl
      | ok f =>
        simp only [ComposerSync.store, exec_bind, exec_upsertBlob, exec_adapt, exec_pure, andThen]
        rcases upsertPackage_withBlob db draw.now f.blob (sizeOf f.bytes) draw.newId
            sync.upstream.repoId sync.package "composer"
            (some (.object [("url", .string sync.upstream.trimmedBase)])) sync.upstream.visibility
          with ⟨id, db', hid, hexec, hready, -, -⟩ | ⟨e, hid, hexec⟩
        · obtain ⟨db₁, hupstream, hready₁⟩ :=
            hready.setPackageUpstream (ε := MirrorError) id sync.upstream.id
          obtain ⟨published, db₂, hinsert, hversions⟩ :=
            hready₁.insertVersionOnce v.normalized (sync.versionRow v f) rfl
          simp only [hexec, Except.mapError, hupstream, hinsert, hid, Option.map_some]
          exact hversions
        · simp only [hexec, Except.mapError, hid, Option.map_none]
          exact fun _ => rfl

/-! ## What a step does to a row -/

/-- The bytes a version is served with: their digest, and the sha1 its lock files
hold. -/
def PackageVersion.dist (pv : PackageVersion) : Option Sha256 × Option String :=
  (pv.distBlobSha256, pv.distShasum)

namespace VersionOp

/-- The row a step brings to `package_versions`, as its checks decide it. -/
def stores (env : External) (db : Catalog) : VersionOp → Option (VersionKey × PackageVersion)
  | .publish call => call.stores env db
  | .composerVersion sync stored draw obj => sync.stores env db stored draw obj
  | .gitPath sync tag sourcePath => sync.stores env db tag sourcePath
  | _ => none

/-- Only the git mirror overwrites on conflict. -/
def overwrites : VersionOp → Bool
  | .gitPath .. => true
  | _ => false

/-- The step records an approval of a stored row. -/
def approves (db : Catalog) (key : VersionKey) (pv : PackageVersion) : VersionOp → Bool
  | .approveVersion _ repo package normalized =>
    db.inPackage repo package key.packageId ∧ key.normalizedVersion = normalized
  | .approveAllPending _ repo package => db.pendingIn repo package key pv
  | _ => false

/-- What becomes of the row under `key` in a step. -/
inductive Fate (env : External) (db : Catalog) (key : VersionKey) (op : VersionOp) :
    Option PackageVersion → Option PackageVersion → Prop
  | absent : Fate env db key op none none
  | inserted (row : PackageVersion) (hstores : op.stores env db = some (key, row))
      (happroved : row.approvedAt = none) : Fate env db key op none (some row)
  | overwritten (row old : PackageVersion) (hstores : op.stores env db = some (key, row))
      (hover : op.overwrites = true) : Fate env db key op (some old) (some (row.overwritten old))
  | kept (old new : PackageVersion)
      (hnot : op.overwrites = true → ∀ row, op.stores env db ≠ some (key, row))
      (hdist : new.dist = old.dist)
      (happroved : if op.approves db key old then new.approvedAt.isSome
        else new.approvedAt = old.approvedAt) : Fate env db key op (some old) (some new)

variable {env : External} {db : Catalog} {key : VersionKey} {op : VersionOp}

/-- An operation that inserts once overwrites nothing. -/
theorem stores_ne_of_inserting (hover : op.overwrites = false) :
    op.overwrites = true → ∀ row, op.stores env db ≠ some (key, row) := by
  intro h
  rw [hover] at h
  exact absurd h Bool.false_ne_true

/-- A row that nothing overwrites and nothing approves stays. -/
theorem Fate.same (hnot : op.overwrites = true → ∀ row, op.stores env db ≠ some (key, row))
    (happroves : ∀ pv, op.approves db key pv = false) (x : Option PackageVersion) :
    Fate env db key op x x := by
  cases x with
  | none => exact .absent
  | some old => exact .kept old old hnot rfl (by rw [if_neg (by simp [happroves])])

/-- A row whose path alone is written stays, but for the path. -/
theorem Fate.of_sameButPaths (hnot : op.overwrites = true → ∀ row, op.stores env db ≠ some (key, row))
    (happroves : ∀ pv, op.approves db key pv = false) {x y : Option PackageVersion}
    (h : y.map (fun pv => { pv with upstreamDistPath := none })
      = x.map fun pv => { pv with upstreamDistPath := none }) : Fate env db key op x y := by
  cases x with
  | none =>
    rw [Option.map_none, Option.map_eq_none_iff] at h
    rw [h]
    exact .absent
  | some old =>
    cases y with
    | none => exact absurd h nofun
    | some new =>
      rw [Option.map_some, Option.map_some, Option.some.injEq] at h
      refine .kept old new hnot ?_ ?_
      · show PackageVersion.dist { new with upstreamDistPath := none } = _
        rw [h]
        rfl
      · rw [if_neg (by simp [happroves])]
        show PackageVersion.approvedAt { new with upstreamDistPath := none } = _
        rw [h]

/-- An insert that leaves a stored row alone. -/
theorem Fate.insertNew {k : VersionKey} {row : PackageVersion}
    (hstores : op.stores env db = some (k, row)) (hover : op.overwrites = false)
    (happroved : row.approvedAt = none) (happroves : ∀ pv, op.approves db key pv = false) :
    Fate env db key op (db.packageVersions.get? key)
      ((db.packageVersions.insertNew k row).get? key) := by
  rw [Table.get?_insertNew]
  split_ifs with hk
  · subst hk
    cases hrow : db.packageVersions.get? key with
    | none => exact .inserted row hstores happroved
    | some old => exact .same (stores_ne_of_inserting hover) happroves (some old)
  · exact .same (stores_ne_of_inserting hover) happroves _

/-- `set_version_timestamp`. -/
theorem Fate.setTimestamp (column : VersionTimestamp) (value : Option Timestamp) (repo : Uuid)
    (package normalized : String) (hover : op.overwrites = false)
    (happroves : ∀ pv, op.approves db key pv =
      (decide (column = .approvedAt) && decide (db.inPackage repo package key.packageId = true ∧
        key.normalizedVersion = normalized)))
    (hvalue : column = .approvedAt → value.isSome) :
    Fate env db key op (db.packageVersions.get? key)
      ((db.after (ε := Empty)
        (setVersionTimestamp column value repo package normalized)).packageVersions.get? key) := by
  show Fate env db key op _ ((db.packageVersions.update _).get? key)
  rw [Table.get?_update]
  cases db.packageVersions.get? key with
  | none => exact .absent
  | some old =>
    rw [Option.map_some]
    refine .kept old _ (stores_ne_of_inserting hover) ?_ ?_
    · split_ifs
      · cases column <;> rfl
      · rfl
    · rw [happroves]
      by_cases hsel : db.inPackage repo package key.packageId = true ∧
        key.normalizedVersion = normalized
      · cases column with
        | approvedAt => simpa [hsel, PackageVersion.setTimestamp] using hvalue rfl
        | heldAt => simp [hsel, PackageVersion.setTimestamp]
        | yankedAt => simp [hsel, PackageVersion.setTimestamp]
      · rw [if_neg (by simp only [hsel, decide_false, Bool.and_false]; exact Bool.false_ne_true),
          if_neg hsel]

/-- `approve_all_pending`. -/
theorem Fate.approveAllPending (now : Timestamp) (repo : Uuid) (package : Option String) :
    Fate env db key (.approveAllPending now repo package) (db.packageVersions.get? key)
      (((VersionOp.approveAllPending now repo package).run env db).packageVersions.get? key) := by
  show Fate env db key _ _ ((db.packageVersions.update _).get? key)
  rw [Table.get?_update]
  cases db.packageVersions.get? key with
  | none => exact .absent
  | some old =>
    rw [Option.map_some]
    refine .kept old _ (stores_ne_of_inserting rfl) ?_ ?_
    · split_ifs <;> rfl
    · show if db.pendingIn repo package key old = true then _ else _
      split_ifs <;> rfl

/-- What the writers insert is not approved. -/
theorem approvedAt_of_stores (op : VersionOp) {row : PackageVersion}
    (h : op.stores env db = some (key, row)) : row.approvedAt = none := by
  cases op with
  | publish call =>
    replace h : call.stores env db = some (key, row) := h
    unfold PublishCall.stores at h
    split at h
    · obtain ⟨id, -, heq⟩ := Option.map_eq_some_iff.1 h
      rw [← (Prod.mk.inj heq).2]
      rfl
    · exact absurd h nofun
  | composerVersion sync stored draw obj =>
    replace h : sync.stores env db stored draw obj = some (key, row) := h
    unfold ComposerSync.stores at h
    split at h
    · exact absurd h nofun
    · split at h
      · obtain ⟨id, -, heq⟩ := Option.map_eq_some_iff.1 h
        rw [← (Prod.mk.inj heq).2]
        rfl
      · exact absurd h nofun
  | gitPath sync tag sourcePath =>
    replace h : sync.stores env db tag sourcePath = some (key, row) := h
    unfold GitSync.stores at h
    split at h
    · split at h
      · obtain ⟨id, -, heq⟩ := Option.map_eq_some_iff.1 h
        rw [← (Prod.mk.inj heq).2]
        rfl
      · exact absurd h nofun
    · exact absurd h nofun
  | _ => exact absurd h nofun

/-- **The fate of a row in a step.** -/
theorem fate (env : External) (db : Catalog) (op : VersionOp) (key : VersionKey) :
    Fate env db key op (db.packageVersions.get? key)
      ((op.run env db).packageVersions.get? key) := by
  -- what each operation does to the row of the key: nothing, insert, overwrite or stamp
  cases op with
  | publish call =>
    have hrun := packageVersions_persist env db call
    show Fate env db key _ _ ((db.after (persist env call)).packageVersions.get? key)
    rw [hrun]
    cases hstores : call.stores env db with
    | none => exact .same (stores_ne_of_inserting rfl) (fun _ => rfl) _
    | some stored =>
      exact .insertNew hstores rfl (approvedAt_of_stores (.publish call) hstores) fun _ => rfl
  | composerVersion sync known draw obj =>
    have hrun := sync.packageVersions_mirrorVersion env db known draw obj
    show Fate env db key _ _
      ((db.after (sync.mirrorVersion env known draw obj)).packageVersions.get? key)
    cases hstores : sync.stores env db known draw obj with
    | none =>
      rw [hstores] at hrun
      exact .of_sameButPaths (stores_ne_of_inserting rfl) (fun _ => rfl) (hrun key)
    | some stored =>
      rw [hstores] at hrun
      rw [hrun]
      exact .insertNew hstores rfl
        (approvedAt_of_stores (.composerVersion sync known draw obj) hstores) fun _ => rfl
  | gitPath sync tag sourcePath =>
    cases hparsed : normalizeTag env tag with
    | none =>
      have hrun : (gitPath sync tag sourcePath).run env db = db := by
        show (match normalizeTag env tag with | some parsed => _ | none => db) = db
        rw [hparsed]
      rw [hrun]
      refine .same (fun _ row h => ?_) (fun _ => rfl) _
      replace h : sync.stores env db tag sourcePath = some (key, row) := h
      unfold GitSync.stores at h
      rw [hparsed] at h
      cases h
    | some parsed =>
      rw [run_gitPath hparsed, sync.packageVersions_mirrorPath env db hparsed]
      cases hstores : sync.stores env db tag sourcePath with
      | none =>
        refine .same (fun _ row h => ?_) (fun _ => rfl) _
        cases hstores.symm.trans h
      | some stored =>
        obtain ⟨k, row⟩ := stored
        show Fate env db key _ _ ((db.packageVersions.upsert k row row.overwritten).get? key)
        rw [Table.get?_upsert]
        split_ifs with hk
        · subst hk
          cases hrow : db.packageVersions.get? key with
          | none =>
            exact .inserted row hstores
              (approvedAt_of_stores (.gitPath sync tag sourcePath) hstores)
          | some old => exact .overwritten row old hstores rfl
        · refine .same (fun _ row' h => ?_) (fun _ => rfl) _
          have heq : (k, row) = (key, row') := Option.some.inj (hstores.symm.trans h)
          exact hk (Prod.mk.inj heq).1.symm
  | markSynced now repo name =>
    exact .same (stores_ne_of_inserting rfl) (fun _ => rfl) _
  | markBroken now repo name reason =>
    exact .same (stores_ne_of_inserting rfl) (fun _ => rfl) _
  | approveVersion now repo package normalized =>
    exact .setTimestamp .approvedAt (some now) repo package normalized rfl
      (fun _ => (Bool.true_and _).symm) fun _ => rfl
  | approveAllPending now repo package => exact .approveAllPending now repo package
  | holdVersion now repo package normalized =>
    exact .setTimestamp .heldAt (some now) repo package normalized rfl (fun _ => rfl)
      fun h => by cases h
  | unholdVersion repo package normalized =>
    exact .setTimestamp .heldAt none repo package normalized rfl (fun _ => rfl)
      fun h => by cases h
  | yankVersion now repo package normalized =>
    exact .setTimestamp .yankedAt (some now) repo package normalized rfl (fun _ => rfl)
      fun h => by cases h
  | unyankVersion repo package normalized =>
    exact .setTimestamp .yankedAt none repo package normalized rfl (fun _ => rfl)
      fun h => by cases h

/-- An occupied key keeps its row when a writer that inserts once brings another. -/
theorem get?_run_of_occupied (op : VersionOp) {row old : PackageVersion}
    (hstores : op.stores env db = some (key, row)) (hover : op.overwrites = false)
    (hold : db.packageVersions.get? key = some old) :
    (op.run env db).packageVersions.get? key = some old := by
  have hinsert : (op.run env db).packageVersions = db.packageVersions.insertNew key row := by
    cases op with
    | publish call =>
      have hrun := packageVersions_persist env db call
      rw [show call.stores env db = some (key, row) from hstores] at hrun
      exact hrun
    | composerVersion sync known draw obj =>
      have hrun := sync.packageVersions_mirrorVersion env db known draw obj
      rw [show sync.stores env db known draw obj = some (key, row) from hstores] at hrun
      exact hrun
    | gitPath sync tag sourcePath => exact absurd hover nofun
    | _ => exact absurd hstores nofun
  rw [hinsert, Table.insertNew_of_some hold]
  exact hold

end VersionOp

end Sconce
