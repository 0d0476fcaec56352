/-
# Packages and versions

The catalog's writers of blobs, packages and versions.  Every statement commits
on its own, so a function that fails keeps what its earlier statements wrote:
they are effects on the catalog.  What a function only reads is a plain function
of the catalog.

`now` is the database's clock, `newId` the id a new row of `packages` is given.
-/
import Sconce.Lib.Effect
import Sconce.Schema

namespace Sconce

open Effect

/-! ## Blobs -/

/-- `upsert_blob`. -/
def upsertBlob {ε : Type} (now : Timestamp) (sha256 : Sha256) (sizeBytes : ℤ) :
    Effect Catalog ε Unit :=
  modify fun db => { db with
    blobs := db.blobs.upsert sha256 ⟨sizeBytes, 0, now⟩ fun b => { b with lastSeenAt := now } }

/-- `blob_refcount_bump`; a NULL digest counts for nothing. -/
def blobRefcountBump (blobs : Table Sha256 Blob) (sha : Option Sha256) (delta : ℤ) :
    Table Sha256 Blob :=
  blobs.update fun k b => if some k = sha then { b with refcount := b.refcount + delta } else b

/-- The trigger `blob_refcount_adjust` for a row whose dist changes from `old` to
`new`; an inserted row had none. -/
def blobRefcountAdjust (blobs : Table Sha256 Blob) (old new : Option Sha256) :
    Table Sha256 Blob :=
  if new = old then blobs else blobRefcountBump (blobRefcountBump blobs old (-1)) new 1

/-! ## Packages -/

/-- Why upserting a package failed: a database error, or a repo policy that
forbids it. -/
inductive UpsertPackageError where
  | db (e : SqlError)
  | policy (message : String)
  deriving DecidableEq

/-- The visibility of a package, and whether it was declared rather than derived. -/
structure PackageVisibility where
  visibility : Visibility
  declared : Bool

namespace Catalog

variable (db : Catalog)

/-- `… from packages where repo_id = repo and name = name`. -/
def packageIn (repo : Uuid) (name : String) : Option (Uuid × Package) :=
  db.packages.rows.find? fun r => r.2.repoId = repo ∧ r.2.name = name

/-- An update that keeps the name of every package keeps their ids. -/
theorem packageIn_update {f : Uuid → Package → Package}
    (hf : ∀ id r, (f id r).repoId = r.repoId ∧ (f id r).name = r.name) (repo : Uuid)
    (name : String) :
    (packageIn { db with packages := db.packages.update f } repo name).map Prod.fst
      = (db.packageIn repo name).map Prod.fst := by
  unfold packageIn Table.update
  rw [List.find?_map, Option.map_map]
  have hsame : ((fun r : Uuid × Package => decide (r.2.repoId = repo ∧ r.2.name = name)) ∘
      fun r : Uuid × Package => (r.1, f r.1 r.2))
        = fun r => decide (r.2.repoId = repo ∧ r.2.name = name) := by
    funext r
    show decide ((f r.1 r.2).repoId = repo ∧ (f r.1 r.2).name = name) = _
    rw [(hf r.1 r.2).1, (hf r.1 r.2).2]
  rw [hsame]
  rfl

/-- A package that is appended hides none. -/
theorem packageIn_append (id : Uuid) (row : Package)
    (hid : db.packages.get? id = none) (repo : Uuid) (name : String) :
    packageIn { db with packages := db.packages.append id row hid } repo name
      = (db.packageIn repo name).or
          (if row.repoId = repo ∧ row.name = name then some (id, row) else none) := by
  unfold packageIn Table.append
  rw [List.find?_append, List.find?_singleton]
  simp only [decide_eq_true_eq]

/-- `package_visibility`. -/
def packageVisibility (repo : Uuid) (name : String) : Option PackageVisibility :=
  (db.packageIn repo name).map fun r => ⟨r.2.visibility, r.2.visibilityDeclaredAt.isSome⟩

/-- `has_members`. -/
def hasMembers (repo : Uuid) : Bool := db.repositoryMembers.rows.any fun r => r.1.1 = repo

/-- `allow_private_packages` of a repository, which has to be there. -/
def allowPrivatePackages (repo : Uuid) : Except SqlError Bool :=
  match db.repositories.get? repo with
  | some r => .ok r.allowPrivatePackages
  | none => .error .rowNotFound

/-- `ensure_private_allowed`: refuse a private package in a public-only repository. -/
def ensurePrivateAllowed (repo : Uuid) : Except UpsertPackageError Unit :=
  match db.allowPrivatePackages repo with
  | .error e => .error (.db e)
  | .ok true => .ok ()
  | .ok false =>
    .error (.policy "this repository is public-only and does not allow private packages")

/-- The checks `upsert_package` makes before it writes.  A declared visibility
outlives syncs, so it, not the derived one passed in, is what the repo policy has
to accept. -/
def admitPackage (repo : Uuid) (name : String) (visibility : Visibility) :
    Except UpsertPackageError Unit := do
  let effective := match db.packageVisibility repo name with
    | some ⟨declared, true⟩ => declared
    | _ => visibility
  if effective = .private then db.ensurePrivateAllowed repo
  if db.hasMembers repo then
    throw (.policy ("this repository is made of member repositories and holds no packages "
      ++ "of its own: publish or mirror into one of its members"))

/-- A package new to its repository is admitted as private only where private
packages are. -/
theorem ensurePrivateAllowed_of_admitPackage {repo : Uuid} {name : String}
    (h : db.admitPackage repo name .private = .ok ())
    (hnew : db.packageVisibility repo name = none) : db.ensurePrivateAllowed repo = .ok () := by
  unfold admitPackage at h
  rw [hnew] at h
  cases hp : db.ensurePrivateAllowed repo with
  | ok _ => rfl
  | error e =>
    rw [hp] at h
    exact absurd h (by simp [bind, Except.bind])

/-- The id `insert into packages … on conflict (repo_id, name) do update` returns:
the stored package's, or the new row's if the constraints admit it. -/
def packageId (newId repo : Uuid) (name : String) : Except SqlError Uuid :=
  match db.packageIn repo name with
  | some r => .ok r.1
  | none =>
    if (db.packages.get? newId).isSome then .error .uniqueViolation
    else if (db.repositories.get? repo).isNone then .error .foreignKeyViolation
    else .ok newId

/-- The row `id` names belongs to package `name` of `repo`. -/
def inPackage (repo : Uuid) (name : String) (id : Uuid) : Bool :=
  (db.packages.get? id).any fun p => p.repoId = repo ∧ p.name = name

end Catalog

/-- `insert into packages … on conflict (repo_id, name) do update … returning id`:
a declared visibility stays. -/
def insertPackage (newId repo : Uuid) (name kind : String) (source : Option Json)
    (visibility : Visibility) : Effect Catalog SqlError Uuid := do
  let id ← ofExcept ((← get).packageId newId repo name)
  let row : Package := {
    repoId := repo, name, kind, source, visibility
    visibilityDeclaredAt := none, upstreamId := none, sourcePath := "", syncHealth := .ok
    brokenReason := none, brokenAt := none, lastSuccessAt := none, archivedAt := none }
  modify fun db => { db with
    packages := db.packages.upsert id row fun p => { p with
      kind, source
      visibility := if p.visibilityDeclaredAt.isNone then visibility else p.visibility } }
  return id

/-- What `insert into packages` can do: every name keeps its package but the one it
returns, which was stored or is new; or it fails before it writes. -/
theorem insertPackage_cases (db : Catalog) (newId repo : Uuid) (name kind : String)
    (source : Option Json) (visibility : Visibility) :
    (∃ id packages,
        exec (insertPackage newId repo name kind source visibility) db
          = (.ok id, { db with packages }) ∧
        (∀ k, (packages.get? k).isSome ↔ k = id ∨ (db.packages.get? k).isSome) ∧
        ((db.packageIn repo name).map Prod.fst = some id ∨
          db.packageIn repo name = none ∧ db.packages.get? id = none) ∧
        ∀ repo' name', (Catalog.packageIn { db with packages } repo' name').map Prod.fst
          = if repo' = repo ∧ name' = name then some id
            else (db.packageIn repo' name').map Prod.fst) ∨
      ∃ e, exec (insertPackage newId repo name kind source visibility) db = (.error e, db) := by
  unfold insertPackage
  simp only [exec_bind, exec_get, exec_ofExcept, andThen]
  cases hid : db.packageId newId repo name with
  | error e => exact Or.inr ⟨e, rfl⟩
  | ok id =>
    refine Or.inl ⟨id, _, rfl, fun k => ?_, ?_⟩
    · rw [Table.get?_upsert]
      by_cases hk : k = id
      · rw [if_pos hk]
        exact iff_of_true rfl (Or.inl hk)
      · rw [if_neg hk, or_iff_right hk]
    unfold Catalog.packageId at hid
    cases hpackage : db.packageIn repo name with
    | some r =>
      -- the stored row is updated
      rw [hpackage] at hid
      obtain rfl := Except.ok.inj hid
      have hrow : db.packages.get? r.1 = some r.2 :=
        (Table.mem_rows_iff _ _ _).1 (List.mem_of_find?_eq_some hpackage)
      have hids := db.packageIn_update (f := fun k old => if k = r.1 then
        { old with kind, source, visibility := if old.visibilityDeclaredAt.isNone then visibility
          else old.visibility } else old) (fun k old => by split_ifs <;> exact ⟨rfl, rfl⟩)
      unfold Table.upsert
      rw [dif_neg (by rw [hrow]; exact Option.some_ne_none _)]
      refine ⟨Or.inl rfl, fun repo' name' => (hids repo' name').trans ?_⟩
      split_ifs with hsame
      · rw [hsame.1, hsame.2, hpackage]
        rfl
      · rfl
    | none =>
      -- a row is appended
      rw [hpackage] at hid
      simp only at hid
      split_ifs at hid with hnew hrepo
      obtain rfl := Except.ok.inj hid
      have hnone := Option.not_isSome_iff_eq_none.1 hnew
      unfold Table.upsert
      rw [dif_pos hnone]
      refine ⟨Or.inr ⟨rfl, hnone⟩, fun repo' name' => ?_⟩
      rw [Catalog.packageIn_append]
      by_cases hsame : repo' = repo ∧ name' = name
      · rw [if_pos hsame, hsame.1, hsame.2, hpackage, if_pos ⟨rfl, rfl⟩]
        rfl
      · rw [if_neg hsame, if_neg fun h => hsame ⟨h.1.symm, h.2.symm⟩, Option.or_none]

/-- `upsert_package`. -/
def upsertPackage (newId repo : Uuid) (name kind : String) (source : Option Json)
    (visibility : Visibility) : Effect Catalog UpsertPackageError Uuid := do
  ofExcept ((← get).admitPackage repo name visibility)
  ExceptT.adapt .db (insertPackage newId repo name kind source visibility)

/-- The id `upsert_package` returns; none when it fails. -/
def Catalog.upsertedId (db : Catalog) (newId repo : Uuid) (name : String)
    (visibility : Visibility) : Option Uuid :=
  match db.admitPackage repo name visibility, db.packageId newId repo name with
  | .ok _, .ok id => some id
  | _, _ => none

/-- What `upsert_package` can do: write the package it returns, or fail before it
writes. -/
theorem upsertPackage_cases (db : Catalog) (newId repo : Uuid) (name kind : String)
    (source : Option Json) (visibility : Visibility) :
    (∃ id packages, db.upsertedId newId repo name visibility = some id ∧
        db.admitPackage repo name visibility = .ok () ∧
        exec (upsertPackage newId repo name kind source visibility) db
          = (.ok id, { db with packages }) ∧ (packages.get? id).isSome) ∨
      ∃ e, db.upsertedId newId repo name visibility = none ∧
        exec (upsertPackage newId repo name kind source visibility) db = (.error e, db) := by
  unfold upsertPackage insertPackage Catalog.upsertedId
  simp only [exec_bind, exec_get, exec_ofExcept, exec_adapt, exec_modify, exec_pure, andThen]
  cases haccept : db.admitPackage repo name visibility with
  | error e => exact Or.inr ⟨e, rfl, rfl⟩
  | ok _ =>
    cases hid : db.packageId newId repo name with
    | error e => exact Or.inr ⟨.db e, rfl, rfl⟩
    | ok id =>
      refine Or.inl ⟨id, _, rfl, rfl, rfl, ?_⟩
      rw [Table.get?_upsert, if_pos rfl]
      rfl

/-- An update of the packages a condition selects. -/
def updatePackages {ε : Type} (p : Uuid → Package → Bool) (f : Package → Package) :
    Effect Catalog ε Unit :=
  modify fun db => { db with packages := db.packages.update fun id r => if p id r then f r else r }

/-- The row is package `name` of `repo`. -/
def Package.isNamed (repo : Uuid) (name : String) (_ : Uuid) (r : Package) : Bool :=
  r.repoId = repo ∧ r.name = name

/-- `set_package_visibility`: declare the visibility; whether there was such a
package. -/
def setPackageVisibility (now : Timestamp) (repo : Uuid) (name : String)
    (visibility : Visibility) : Effect Catalog UpsertPackageError Bool := do
  let db ← get
  ofExcept (if visibility = .private then db.ensurePrivateAllowed repo else .ok ())
  updatePackages (Package.isNamed repo name) fun r =>
    { r with visibility, visibilityDeclaredAt := some now }
  return (db.packageIn repo name).isSome

/-- `set_package_upstream`. -/
def setPackageUpstream {ε : Type} (packageId upstream : Uuid) : Effect Catalog ε Unit :=
  updatePackages (fun id _ => id = packageId) fun r => { r with upstreamId := some upstream }

/-- `set_package_source_path`. -/
def setPackageSourcePath {ε : Type} (packageId : Uuid) (sourcePath : String) :
    Effect Catalog ε Unit :=
  updatePackages (fun id _ => id = packageId) fun r => { r with sourcePath }

/-- `mark_package_synced`: a package that synced is healthy again. -/
def markPackageSynced {ε : Type} (now : Timestamp) (repo : Uuid) (name : String) :
    Effect Catalog ε Unit :=
  updatePackages (Package.isNamed repo name) fun r => { r with
    lastSuccessAt := some now, syncHealth := .ok, brokenReason := none, brokenAt := none }

/-- `mark_package_broken`: the first `broken_at` stays, archived packages are
skipped. -/
def markPackageBroken {ε : Type} (now : Timestamp) (repo : Uuid) (name reason : String) :
    Effect Catalog ε Unit :=
  updatePackages (fun id r => Package.isNamed repo name id r && r.archivedAt.isNone) fun r =>
    { r with syncHealth := .broken, brokenReason := some reason
             brokenAt := some (r.brokenAt.getD now) }

/-! ## Versions -/

/-- A row of `package_versions` as a writer inserts it: the columns of the policy
at their defaults. -/
def PackageVersion.inserted (version stability : String) (composerJson : Json)
    (dist : Option Sha256) (shasum reference upstreamDistPath : Option String)
    (releasedAtUnix : Option ℤ) : PackageVersion where
  version := version
  stability := stability
  composerJson := composerJson
  distBlobSha256 := dist
  distShasum := shasum
  sourceReference := reference
  releasedAt := releasedAtUnix.map toTimestamp
  yankedAt := none
  heldAt := none
  approvedAt := none
  graceDays := 0
  entitlementDate := none
  upstreamDistPath := upstreamDistPath

/-- The columns `on conflict … do update` takes from `excluded`; the others, the
operator's decisions among them, are not touched. -/
def PackageVersion.overwritten (excluded old : PackageVersion) : PackageVersion :=
  { old with
    version := excluded.version
    stability := excluded.stability
    composerJson := excluded.composerJson
    distBlobSha256 := excluded.distBlobSha256
    distShasum := excluded.distShasum
    sourceReference := excluded.sourceReference
    releasedAt := excluded.releasedAt }

/-- The foreign keys of `package_versions`. -/
def Catalog.versionReferences (db : Catalog) (packageId : Uuid) (dist : Option Sha256) :
    Except SqlError Unit :=
  if (db.packages.get? packageId).isNone then .error .foreignKeyViolation
  else if dist.any fun sha => (db.blobs.get? sha).isNone then .error .foreignKeyViolation
  else .ok ()

/-- The catalog can take a version of package `id` with dist `sha`; its versions
are still `versions`. -/
structure Catalog.Ready (versions : Table VersionKey PackageVersion) (sha : Sha256) (id : Uuid)
    (db : Catalog) : Prop where
  versions : db.packageVersions = versions
  blob : (db.blobs.get? sha).isSome
  package : (db.packages.get? id).isSome

namespace Catalog.Ready

variable {db : Catalog} {versions : Table VersionKey PackageVersion} {sha : Sha256} {id : Uuid}

/-- A ready version references a stored package and a stored blob. -/
theorem versionReferences (h : db.Ready versions sha id) :
    db.versionReferences id (some sha) = .ok () := by
  unfold Catalog.versionReferences
  rw [if_neg, if_neg]
  · rw [Option.any_some, Option.isNone_iff_eq_none]
    exact Option.isSome_iff_ne_none.1 h.blob
  · rw [Option.isNone_iff_eq_none]
    exact Option.isSome_iff_ne_none.1 h.package

/-- An update of packages leaves the catalog ready. -/
theorem updatePackages {ε : Type} (h : db.Ready versions sha id) (p : Uuid → Package → Bool)
    (f : Package → Package) :
    ((exec (updatePackages p f : Effect Catalog ε Unit) db).2).Ready versions sha id where
  versions := h.versions
  blob := h.blob
  package := by
    show ((db.packages.update _).get? id).isSome
    rw [Table.get?_update, Option.isSome_map]
    exact h.package

/-- Setting the upstream leaves the version ready. -/
theorem setPackageUpstream {ε : Type} (h : db.Ready versions sha id) (packageId upstream : Uuid) :
    ∃ db', exec (setPackageUpstream packageId upstream : Effect Catalog ε Unit) db = (.ok (), db') ∧
      db'.Ready versions sha id :=
  ⟨_, rfl, h.updatePackages (ε := ε) _ _⟩

/-- Setting the source path leaves the version ready. -/
theorem setPackageSourcePath {ε : Type} (h : db.Ready versions sha id) (packageId : Uuid)
    (sourcePath : String) :
    ∃ db', exec (setPackageSourcePath packageId sourcePath : Effect Catalog ε Unit) db
        = (.ok (), db') ∧ db'.Ready versions sha id :=
  ⟨_, rfl, h.updatePackages (ε := ε) _ _⟩

/-- So does a declaration the repository allows, which succeeds. -/
theorem setPackageVisibility (h : db.Ready versions sha id) {repo : Uuid} {visibility : Visibility}
    (hprivate : visibility = .private → db.ensurePrivateAllowed repo = .ok ()) (now : Timestamp)
    (name : String) :
    ∃ db', exec (setPackageVisibility now repo name visibility) db
        = (.ok (db.packageIn repo name).isSome, db') ∧ db'.Ready versions sha id := by
  have hcheck : (if visibility = .private then db.ensurePrivateAllowed repo else .ok ())
      = .ok () := by
    split_ifs with hv
    · exact hprivate hv
    · rfl
  have hready := h.updatePackages (ε := Empty) (Package.isNamed repo name) fun r =>
    { r with visibility, visibilityDeclaredAt := some now }
  refine ⟨_, ?_, hready⟩
  unfold Sconce.setPackageVisibility
  simp only [exec_bind, exec_get, exec_ofExcept, andThen, hcheck]
  rfl

end Catalog.Ready

/-- The dist a stored version references. -/
def Catalog.distOf (db : Catalog) (key : VersionKey) : Option Sha256 :=
  (db.packageVersions.get? key).bind (·.distBlobSha256)

/-- `upsert_package_version`, given the row its `values` make. -/
def upsertPackageVersion (key : VersionKey) (row : PackageVersion) :
    Effect Catalog SqlError Unit := do
  ofExcept ((← get).versionReferences key.packageId row.distBlobSha256)
  modify fun db => { db with
    packageVersions := db.packageVersions.upsert key row row.overwritten
    blobs := blobRefcountAdjust db.blobs (db.distOf key) row.distBlobSha256 }

/-- A ready version is stored, over the row that is there. -/
theorem Catalog.Ready.upsertPackageVersion {db : Catalog}
    {versions : Table VersionKey PackageVersion} {sha : Sha256} {id : Uuid}
    (h : db.Ready versions sha id) (normalized : String) (row : PackageVersion)
    (hrow : row.distBlobSha256 = some sha) :
    ∃ db', exec (upsertPackageVersion ⟨id, normalized⟩ row) db = (.ok (), db') ∧
      db'.packageVersions = versions.upsert ⟨id, normalized⟩ row row.overwritten := by
  have hrefs := h.versionReferences
  rw [← hrow] at hrefs
  unfold Sconce.upsertPackageVersion
  simp only [exec_bind, exec_get, exec_ofExcept, exec_modify, andThen, hrefs]
  exact ⟨_, rfl, by rw [h.versions]⟩

/-- The result of an immutable version insert. -/
inductive PublishOutcome where
  | created
  | alreadyPublished
  | conflict
  deriving DecidableEq

/-- `insert_version_once`, given the row its `values` make: on conflict nothing is
written, and the stored dist tells a retry from a republish. -/
def insertVersionOnce (key : VersionKey) (row : PackageVersion) :
    Effect Catalog SqlError PublishOutcome := do
  match (← get).packageVersions.get? key with
  | some existing =>
    if existing.distBlobSha256 = row.distBlobSha256 then return .alreadyPublished
    else return .conflict
  | none =>
    ofExcept ((← get).versionReferences key.packageId row.distBlobSha256)
    modify fun db => { db with
      packageVersions := db.packageVersions.insertNew key row
      blobs := blobRefcountAdjust db.blobs none row.distBlobSha256 }
    return .created

/-- What an immutable insert can do: find the version stored, and tell a retry from a republish;
store it; or fail on a foreign key. -/
theorem insertVersionOnce_cases (key : VersionKey) (row : PackageVersion) (db : Catalog) :
    (∃ existing, db.packageVersions.get? key = some existing ∧
        exec (insertVersionOnce key row) db
          = (.ok (if existing.distBlobSha256 = row.distBlobSha256 then .alreadyPublished
              else .conflict), db)) ∨
      (db.packageVersions.get? key = none ∧
        db.versionReferences key.packageId row.distBlobSha256 = .ok () ∧
        exec (insertVersionOnce key row) db = (.ok .created, { db with
          packageVersions := db.packageVersions.insertNew key row
          blobs := blobRefcountAdjust db.blobs none row.distBlobSha256 })) ∨
      ∃ e, db.packageVersions.get? key = none ∧
        db.versionReferences key.packageId row.distBlobSha256 = .error e ∧
        exec (insertVersionOnce key row) db = (.error e, db) := by
  unfold insertVersionOnce
  simp only [exec_bind, exec_get, andThen]
  cases db.packageVersions.get? key with
  | some existing =>
    refine Or.inl ⟨existing, rfl, ?_⟩
    by_cases hdist : existing.distBlobSha256 = row.distBlobSha256
    · simp only [if_pos hdist, exec_pure]
    · simp only [if_neg hdist, exec_pure]
  | none =>
    simp only [exec_bind, exec_get, exec_ofExcept, andThen]
    cases db.versionReferences key.packageId row.distBlobSha256 with
    | error e => exact Or.inr (Or.inr ⟨e, trivial, rfl, rfl⟩)
    | ok _ => exact Or.inr (Or.inl ⟨trivial, rfl, rfl⟩)

/-- A ready version is stored where no row is there. -/
theorem Catalog.Ready.insertVersionOnce {db : Catalog}
    {versions : Table VersionKey PackageVersion} {sha : Sha256} {id : Uuid}
    (h : db.Ready versions sha id) (normalized : String) (row : PackageVersion)
    (hrow : row.distBlobSha256 = some sha) :
    ∃ published db', exec (insertVersionOnce ⟨id, normalized⟩ row) db = (.ok published, db') ∧
      db'.packageVersions = versions.insertNew ⟨id, normalized⟩ row := by
  have hrefs := h.versionReferences
  rw [← hrow] at hrefs
  rw [← h.versions]
  rcases insertVersionOnce_cases ⟨id, normalized⟩ row db with
    ⟨existing, hkey, hrun⟩ | ⟨-, -, hrun⟩ | ⟨e, -, hfails, -⟩
  · exact ⟨_, db, hrun, (Table.insertNew_of_some hkey row).symm⟩
  · exact ⟨.created, _, hrun, rfl⟩
  · rw [hrefs] at hfails
    cases hfails

/-- The row `insert_pushed_version` inserts. -/
def pushedVersion (version stability : String) (composerJson : Json) (dist : Sha256)
    (shasum : String) (releasedAtUnix : ℤ) : PackageVersion :=
  .inserted version stability composerJson (some dist) (some shasum) none none
    (some releasedAtUnix)

/-- The row `insert_mirrored_version` inserts. -/
def mirroredVersion (version stability : String) (composerJson : Json) (dist : Sha256)
    (shasum : String) (reference upstreamDistPath : Option String) : PackageVersion :=
  .inserted version stability composerJson (some dist) (some shasum) reference upstreamDistPath
    none

/-- An update of the version `normalized` of package `name` of `repo`. -/
def updateVersion {ε : Type} (repo : Uuid) (name normalized : String)
    (f : PackageVersion → PackageVersion) : Effect Catalog ε Unit :=
  modify fun db => { db with
    packageVersions := db.packageVersions.update fun k pv =>
      if db.inPackage repo name k.packageId ∧ k.normalizedVersion = normalized then f pv else pv }

/-- `backfill_upstream_dist_path`: never overwrites a recorded path. -/
def backfillUpstreamDistPath {ε : Type} (repo : Uuid) (name normalized path : String) :
    Effect Catalog ε Unit :=
  updateVersion repo name normalized fun pv =>
    { pv with upstreamDistPath := some (pv.upstreamDistPath.getD path) }

/-- The dist identity already stored for one version. -/
structure StoredDist where
  shasum : Option String
  reference : Option String
  upstreamDistPath : Option String

/-- `stored_dists`, a map from normalized versions. -/
def Catalog.storedDists (db : Catalog) (repo : Uuid) (name normalized : String) :
    Option StoredDist :=
  (db.packageIn repo name).bind fun r =>
    (db.packageVersions.get? ⟨r.1, normalized⟩).map fun pv =>
      ⟨pv.distShasum, pv.sourceReference, pv.upstreamDistPath⟩

/-! ## The policy of a version -/

/-- The columns `set_version_timestamp` sets. -/
inductive VersionTimestamp where
  | heldAt
  | yankedAt
  | approvedAt
  deriving DecidableEq

/-- `column = value` in a row. -/
def PackageVersion.setTimestamp (column : VersionTimestamp) (value : Option Timestamp)
    (pv : PackageVersion) : PackageVersion :=
  match column with
  | .heldAt => { pv with heldAt := value }
  | .yankedAt => { pv with yankedAt := value }
  | .approvedAt => { pv with approvedAt := value }

/-- `set_version_timestamp`; whether there was such a version. -/
def setVersionTimestamp {ε : Type} (column : VersionTimestamp) (value : Option Timestamp)
    (repo : Uuid) (package normalized : String) : Effect Catalog ε Bool := do
  let found := ((← get).storedDists repo package normalized).isSome
  updateVersion repo package normalized (·.setTimestamp column value)
  return found

/-- No hold, yank or approval yet. -/
def PackageVersion.undecided (pv : PackageVersion) : Bool :=
  pv.heldAt.isNone && pv.yankedAt.isNone && pv.approvedAt.isNone

/-- `approve_all_pending` selects the row: undecided, in `repo`, and of the
package when one is named. -/
def Catalog.pendingIn (db : Catalog) (repo : Uuid) (package : Option String) (key : VersionKey)
    (pv : PackageVersion) : Bool :=
  pv.undecided && (db.packages.get? key.packageId).any fun p =>
    p.repoId = repo ∧ package.all (p.name = ·)

/-- `approve_all_pending`; the number of versions exposed. -/
def approveAllPending {ε : Type} (now : Timestamp) (repo : Uuid) (package : Option String) :
    Effect Catalog ε ℕ := do
  let db ← get
  set { db with
    packageVersions := db.packageVersions.update fun k pv =>
      if db.pendingIn repo package k pv then pv.setTimestamp .approvedAt (some now) else pv }
  return (db.packageVersions.rows.filter fun r => db.pendingIn repo package r.1 r.2).length

/-- `policy_gate`: not yanked, not held, and released under the policy. -/
def policyGate (ses : Session) (now : Timestamp) (mode : UpdateMode) (cooldownDays : ℤ)
    (pv : PackageVersion) : Bool :=
  pv.yankedAt.isNone && pv.heldAt.isNone &&
    (mode = .auto || pv.approvedAt.isSome ||
      (mode = .delayed &&
        pv.releasedAt.any fun released => ses.addDays released cooldownDays ≤ now))

/-- The date that `policy_gate` computes is in range: that of a version on which nothing before it
in the condition decides. -/
def GateInRange (ses : Session) (mode : UpdateMode) (cooldownDays : ℤ) (pv : PackageVersion) :
    Prop :=
  pv.yankedAt = none → pv.heldAt = none → pv.approvedAt = none → mode = .delayed →
    ∀ released, pv.releasedAt = some released → InTimestampRange (ses.addDays released cooldownDays)

/-- `policy_gate` as a query asks it: a date out of range fails it. -/
def gateClause (ses : Session) (now : Timestamp) (mode : UpdateMode) (cooldownDays : ℤ)
    (pv : PackageVersion) : Except SqlError Bool :=
  if pv.yankedAt.isSome || pv.heldAt.isSome then .ok false
  else if mode = .auto || pv.approvedAt.isSome then .ok true
  else if mode = .delayed then
    match pv.releasedAt with
    | none => .ok false
    | some released =>
      match ses.plusDays released cooldownDays with
      | none => .error .datetimeOverflow
      | some due => .ok (decide (due ≤ now))
  else .ok false

/-- In range a query asks `policyGate`; out of it there is an error. -/
theorem gateClause_cases (ses : Session) (now : Timestamp) (mode : UpdateMode) (cooldownDays : ℤ)
    (pv : PackageVersion) :
    GateInRange ses mode cooldownDays pv ∧
        gateClause ses now mode cooldownDays pv = .ok (policyGate ses now mode cooldownDays pv) ∨
      ¬ GateInRange ses mode cooldownDays pv ∧
        gateClause ses now mode cooldownDays pv = .error .datetimeOverflow := by
  unfold GateInRange gateClause policyGate
  cases pv.yankedAt with
  | some t => exact .inl ⟨nofun, rfl⟩
  | none =>
    cases pv.heldAt with
    | some t => exact .inl ⟨fun _ => nofun, rfl⟩
    | none =>
      cases pv.approvedAt with
      | some t => cases mode <;> exact .inl ⟨fun _ _ => nofun, rfl⟩
      | none =>
        cases mode with
        | auto => exact .inl ⟨fun _ _ _ => nofun, rfl⟩
        | manual => exact .inl ⟨fun _ _ _ => nofun, rfl⟩
        | delayed =>
          cases pv.releasedAt with
          | none => exact .inl ⟨fun _ _ _ _ => nofun, rfl⟩
          | some released =>
            simp only [forall_const, Option.some.injEq, forall_eq']
            unfold Session.plusDays
            by_cases hrange : InTimestampRange (ses.addDays released cooldownDays)
            · exact .inl ⟨hrange, by simp [hrange]⟩
            · exact .inr ⟨hrange, by simp [hrange]⟩

end Sconce
