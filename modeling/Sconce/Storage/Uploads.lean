/-
# Chunked uploads

The requests on an upload session as scripts: every statement of the catalog and every
operation of the object store is a statement of its own.  `persistStatements` is
`persist` taken apart; alone it is `persist` again (`runAlone_persistStatements`).

The log says what happened to a session: a request it accepted, a row a completion
inserted, a status written.  `finishing` is the session of a completion that has inserted
its snapshot and not yet written the status.
-/
import Sconce.Concurrency.Collection
import Sconce.Lib.Script
import Sconce.Storage.Digests
import Sconce.Versions.Writers

namespace Sconce

open Effect Script

/-! ## The state -/

/-- What happens to a session. -/
inductive UploadEntry where
  | accepted (session : Uuid)
  | versionCreated (session : Uuid) (key : VersionKey)
  | snapshotCreated (session snapshot : Uuid)
  | statusSet (session : Uuid) (status : UploadStatus)
  deriving DecidableEq

/-- The catalog, the objects, the clock and the log. -/
structure UploadStore (ι : Type) where
  db : Catalog
  objects : ObjectStore
  now : Timestamp
  finishing : ι → Option Uuid
  log : List UploadEntry

/-- A package archived from an upload. -/
structure ArchivedUpload where
  zip : List UInt8
  composerJson : Json
  distShasum : String

/-- The limits, and what third parties compute. -/
structure UploadEnv where
  sha256 : List UInt8 → Sha256
  /-- `archive_targz` up to its put: the upload and the expected name. -/
  archiveTargz : List UInt8 → String → Except AppError ArchivedUpload
  versions : External
  maxPackageBytes : ℕ
  maxSnapshotBytes : ℕ

/-! ## Statements -/

variable {ι α : Type}

/-- A statement on the catalog. -/
def sql (m : Timestamp → Effect Catalog SqlError α) : Script (UploadStore ι) AppError α :=
  .stmt (fun s => { s with db := (exec (m s.now) s.db).2 })
    fun s => .done ((exec (m s.now) s.db).1.mapError .catalog)

/-- A statement that only reads the catalog. -/
def select (f : Catalog → α) : Script (UploadStore ι) AppError α :=
  .stmt (fun s => s) fun s => .done (.ok (f s.db))

/-- `store.get`. -/
def fetchObject (id : Sha256) : Script (UploadStore ι) AppError (List UInt8) :=
  .stmt (fun s => s) fun s => .done ((s.objects.get? id).elim (.error .gone) .ok)

/-- `store.put`; the digest of the bytes. -/
def putObject (env : UploadEnv) (bytes : List UInt8) : Script (UploadStore ι) AppError Sha256 :=
  .stmt (fun s => { s with objects := s.objects.put (env.sha256 bytes) bytes })
    fun _ => .done (.ok (env.sha256 bytes))

/-- The session of the repository, while it is open. -/
def Catalog.openSession (db : Catalog) (uploadId repo : Uuid) : Except AppError UploadSession :=
  match db.uploadSessions.get? uploadId with
  | none => .error .notFound
  | some session =>
    if session.repoId ≠ repo then .error .forbidden
    else if session.status ≠ .open then .error (.conflict "upload session is not open")
    else .ok session

/-- The handlers take a stored session of their repository that is open. -/
theorem Catalog.openSession_eq_ok_iff {db : Catalog} {uploadId repo : Uuid}
    {session : UploadSession} :
    db.openSession uploadId repo = .ok session ↔
      db.uploadSessions.get? uploadId = some session ∧ session.repoId = repo ∧
        session.status = .open := by
  unfold Catalog.openSession
  cases db.uploadSessions.get? uploadId with
  | none => exact ⟨nofun, fun h => absurd h.1 nofun⟩
  | some found =>
    simp only [Option.some.injEq]
    constructor
    · intro h
      split_ifs at h with hrepo hopen
      obtain rfl := Except.ok.inj h
      exact ⟨rfl, not_not.1 hrepo, not_not.1 hopen⟩
    · rintro ⟨rfl, hrepo, hopen⟩
      rw [if_neg (not_not.2 hrepo), if_neg (not_not.2 hopen)]

/-- `open_session`: where it finds the session, the request is accepted. -/
def openSession (uploadId repo : Uuid) : Script (UploadStore ι) AppError UploadSession :=
  .stmt
    (fun s => match s.db.openSession uploadId repo with
      | .ok _ => { s with log := s.log ++ [.accepted uploadId] }
      | .error _ => s)
    fun s => .done (s.db.openSession uploadId repo)

/-- `set_upload_status`. -/
def Catalog.setUploadStatus (db : Catalog) (uploadId : Uuid) (status : UploadStatus) : Catalog :=
  { db with
    uploadSessions := db.uploadSessions.update fun k session =>
      if k = uploadId then { session with status } else session }

/-- The staged parts of a session, in order. -/
def Catalog.uploadPartsOf (db : Catalog) (uploadId : Uuid) : List (ℤ × UploadPart) :=
  ((db.uploadParts.rows.filter fun r => r.1.1 = uploadId).mergeSort
    fun a b => a.1.2 ≤ b.1.2).map fun r => (r.1.2, r.2)

/-- `advance_latest`. -/
def advanceLatest (repo : Uuid) (environment profile : String) (snapshot : Uuid) :
    Effect Catalog SqlError Unit := do
  let db ← get
  if (db.snapshots.get? snapshot).isNone then throw .foreignKeyViolation
  modify fun db => { db with
    snapshotLatest := db.snapshotLatest.upsert (repo, environment, profile) snapshot
      fun _ => snapshot }

/-- `status = 'open' and expires_at <= now()`. -/
def UploadSession.expired (now : Timestamp) (session : UploadSession) : Bool :=
  session.status = .open ∧ session.expiresAt ≤ now

def UploadSession.expire (now : Timestamp) (session : UploadSession) : UploadSession :=
  if session.expired now then { session with status := .aborted } else session

/-- `expire_upload_sessions`; how many sessions it aborted. -/
def expireUploadSessions (now : Timestamp) : Effect Catalog SqlError ℕ := do
  let db ← get
  set { db with uploadSessions := db.uploadSessions.update fun _ session => session.expire now }
  return db.uploadSessions.count fun _ session => session.expired now

/-! ## Persisting a package -/

/-- `insert into package_versions … on conflict do nothing returning id`: whether a row
was inserted. -/
def insertVersionRow (key : VersionKey) (row : PackageVersion) : Effect Catalog SqlError Bool := do
  let db ← get
  if (db.packageVersions.get? key).isSome then return false
  ofExcept (db.versionReferences key.packageId row.distBlobSha256)
  set { db with
    packageVersions := db.packageVersions.insertNew key row
    blobs := blobRefcountAdjust db.blobs none row.distBlobSha256 }
  return true

/-- That insert from an upload session; a row that it inserts is logged. -/
def insertUploadedVersion (uploadId : Uuid) (key : VersionKey) (row : PackageVersion) :
    Script (UploadStore ι) AppError Bool :=
  .stmt
    (fun s => match exec (insertVersionRow key row) s.db with
      | (.ok true, db) => { s with db := db, log := s.log ++ [.versionCreated uploadId key] }
      | (_, db) => { s with db := db })
    fun s => .done ((exec (insertVersionRow key row) s.db).1.mapError .catalog)

section Persist

variable (env : UploadEnv) (uploadId : Uuid) (call : PublishCall)

/-- `ensure_private_allowed`. -/
def ensurePrivateStatement : Script (UploadStore ι) AppError Unit := do
  ret (← select fun db => (db.ensurePrivateAllowed call.repo).mapError policyError)

/-- The visibility `persist` publishes with, and the one the package has. -/
def chooseVisibility : Script (UploadStore ι) AppError (Option PackageVisibility × Visibility) := do
  let (existing, chosen) ← select fun db =>
    (db.packageVisibility call.repo call.pkgName, db.publishVisibility call)
  if existing.isSome ∨ call.requested.isSome then
    return (existing, ← ret chosen)
  else
    -- a new package follows the settings of the repository
    let allowed ← ret (← select fun db => (db.allowPrivatePackages call.repo).mapError .catalog)
    return (existing, if allowed then .private else .public)

/-- A declared visibility outlives what is asked for. -/
def effectiveVisibility (visibility : Visibility) : Option PackageVisibility → Visibility
  | some ⟨declared, true⟩ => declared
  | _ => visibility

/-- `upsert_package`. -/
def upsertPackageStatements (visibility : Visibility) : Script (UploadStore ι) AppError Uuid := do
  let existing ← select (·.packageVisibility call.repo call.pkgName)
  if effectiveVisibility visibility existing = .private then ensurePrivateStatement call
  if ← select (·.hasMembers call.repo) then
    fail (.badRequest ("this repository is made of member repositories and holds no packages "
      ++ "of its own: publish or mirror into one of its members"))
  else
    sql fun _ => insertPackage call.draw.newId call.repo call.pkgName "upload"
      (some (.object [("kind", .string "upload")])) visibility

/-- `set_package_visibility`. -/
def declareStatements (visibility : Visibility) : Script (UploadStore ι) AppError Unit := do
  if visibility = .private then ensurePrivateStatement call
  sql fun now => updatePackages (Package.isNamed call.repo call.pkgName) fun r =>
    { r with visibility, visibilityDeclaredAt := some now }

/-- `insert_version_once`. -/
def insertVersionStatements (key : VersionKey) (row : PackageVersion) :
    Script (UploadStore ι) AppError PublishOutcome := do
  if ← insertUploadedVersion uploadId key row then return .created
  else
    let existing ← select (·.distOf key)
    return if existing = row.distBlobSha256 then .alreadyPublished else .conflict

/-- `persist`. -/
def persistStatements : Script (UploadStore ι) AppError PublishOutcome := do
  let (normalized, stability) ← ret ((normalizeVersion env.versions call.version).elim
    (.error (.badRequest ("\"" ++ call.version
      ++ "\" is not a numeric Composer version (e.g. 1.2.0, v2.0.0-beta1)"))) .ok)
  let (existing, visibility) ← chooseVisibility call
  sql fun now => upsertBlob now call.prepared.blob call.prepared.size
  let packageId ← upsertPackageStatements call visibility
  if existing.isNone ∧ call.requested.isSome then declareStatements call visibility
  insertVersionStatements uploadId ⟨packageId, normalized⟩ (call.versionRow stability)

end Persist

/-! ## The requests -/

/-- A `complete` request, with the ids the rows are given and the time `now_unix` says. -/
structure CompleteRequest where
  uploadId : Uuid
  repo : Uuid
  parts : ℤ
  sha256 : String
  packageId : Uuid
  snapshotId : Uuid
  nowUnix : ℤ

/-- A request on a session, or the sweep of expired ones. -/
inductive UploadRequest where
  | part (uploadId repo : Uuid) (n : ℤ) (body : List UInt8)
  | complete (r : CompleteRequest)
  | abort (uploadId repo : Uuid)
  | expire

/-- What a request is answered. -/
inductive UploadAnswer where
  | noContent
  | published (outcome : PublishOutcome)
  | snapshotCreated (environment profile : String) (blob : Sha256)
  | expired (count : ℕ)

section Requests

variable (env : UploadEnv)

/-- `upload_part`. -/
def uploadPart (uploadId repo : Uuid) (n : ℤ) (body : List UInt8) :
    Script (UploadStore ι) AppError UploadAnswer := do
  let _ ← openSession uploadId repo
  if n < 1 then fail (.badRequest "part number must be >= 1")
  else
    let blob ← putObject env body
    sql fun now => upsertBlob now blob (sizeOf body)
    sql fun _ => recordUploadPart uploadId n blob (sizeOf body)
    return .noContent

/-- Fetch the staged chunks in order and check the digest of the whole. -/
def assemble (ids : List Sha256) (expected : Sha256) (cap : ℕ) :
    Script (UploadStore ι) AppError (List UInt8) := do
  let input ← ids.foldlM (fun input id => do
    let bytes ← fetchObject id
    if (input ++ bytes).length > cap then fail .payloadTooLarge else return input ++ bytes) []
  if env.sha256 input ≠ expected then
    fail (.badRequest "assembled upload does not match the declared sha256")
  else return input

/-- `create_snapshot` of a completion; a row that it inserts is logged, and the completion
still has to write the status. -/
def insertSnapshot [DecidableEq ι] (i : ι) (uploadId newId repo : Uuid) (environment profile : String)
    (blob : Sha256) (size : ℤ) : Script (UploadStore ι) AppError Uuid :=
  let create (now : Timestamp) := createSnapshot now newId repo environment profile blob size none
  .stmt
    (fun s => match exec (create s.now) s.db with
      | (.ok id, db) =>
        { s with
          db := db
          log := s.log ++ [.snapshotCreated uploadId id]
          finishing := Function.update s.finishing i (some uploadId) }
      | (.error _, db) => { s with db := db })
    fun s => .done ((exec (create s.now) s.db).1.mapError .catalog)

/-- `finish_upload`, with `register_snapshot`. -/
def finishUpload [DecidableEq ι] (i : ι) (r : CompleteRequest) (repo : Uuid) (environment : String)
    (profile : Option String) (ids : List Sha256) (expected : Sha256) (total : ℕ) :
    Script (UploadStore ι) AppError UploadAnswer := do
  if total > env.maxSnapshotBytes then fail .payloadTooLarge
  else
    let profile := profile.getD "full"
    let input ← assemble env ids expected env.maxSnapshotBytes
    let blob ← putObject env input
    sql fun now => upsertBlob now blob (sizeOf input)
    let id ← insertSnapshot i r.uploadId r.snapshotId repo environment profile blob (sizeOf input)
    sql fun _ => advanceLatest repo environment profile id
    return .snapshotCreated environment profile blob

/-- The package branch of `upload_complete`. -/
def ingestPackage (r : CompleteRequest) (vendor name version : String)
    (requested : Option Visibility) (ids : List Sha256) (expected : Sha256) (total : ℕ) :
    Script (UploadStore ι) AppError UploadAnswer := do
  if total > env.maxPackageBytes then fail .payloadTooLarge
  else
    let input ← assemble env ids expected env.maxPackageBytes
    let archived ← ret (env.archiveTargz input (vendor ++ "/" ++ name))
    let blob ← putObject env archived.zip
    let outcome ← persistStatements env r.uploadId {
      repo := r.repo, vendor, name, version, requested
      prepared := ⟨blob, sizeOf archived.zip, archived.composerJson, archived.distShasum⟩
      nowUnix := r.nowUnix, draw := ⟨0, r.packageId⟩ }
    return .published outcome

/-- `set_upload_status(id, "completed")`. -/
def markCompleted [DecidableEq ι] (i : ι) (uploadId : Uuid) : Script (UploadStore ι) AppError Unit :=
  .stmt
    (fun s => { s with
      db := s.db.setUploadStatus uploadId .completed
      log := s.log ++ [.statusSet uploadId .completed]
      finishing :=
        if s.finishing i = some uploadId then Function.update s.finishing i none else s.finishing })
    fun _ => .done (.ok ())

/-- `set_upload_status(id, "aborted")`. -/
def markAborted (uploadId : Uuid) : Script (UploadStore ι) AppError Unit :=
  .stmt
    (fun s => { s with
      db := s.db.setUploadStatus uploadId .aborted
      log := s.log ++ [.statusSet uploadId .aborted] })
    fun _ => .done (.ok ())

/-- The parts are numbered from 1 without a gap. -/
def contiguous (parts : List (ℤ × UploadPart)) : Bool :=
  parts.zipIdx.all fun p => p.1.1 = p.2 + 1

/-- `upload_complete` on the session it found. -/
def completeSession [DecidableEq ι] (i : ι) (r : CompleteRequest) (session : UploadSession) :
    Script (UploadStore ι) AppError UploadAnswer := do
  let parts ← select (·.uploadPartsOf r.uploadId)
  if parts.length ≠ r.parts.toNat then
    fail (.badRequest ("expected " ++ toString r.parts ++ " parts, " ++ toString parts.length
      ++ " are staged"))
  else if !contiguous parts then
    fail (.badRequest "staged parts are not contiguous from 1")
  else
    let expected ← ret ((parseHex32 r.sha256).elim
      (.error (.badRequest "sha256 must be 64 hex chars")) .ok)
    let total := (parts.map fun p => p.2.sizeBytes.toNat).sum
    let ids := parts.map fun p => p.2.chunkSha256
    let response ← match session.target with
      | .snapshot environment profile =>
        finishUpload env i r session.repoId environment profile ids expected total
      | .package vendor name version requested =>
        ingestPackage env r vendor name version requested ids expected total
    markCompleted i r.uploadId
    return response

/-- `upload_complete`. -/
def uploadComplete [DecidableEq ι] (i : ι) (r : CompleteRequest) :
    Script (UploadStore ι) AppError UploadAnswer := do
  let session ← openSession r.uploadId r.repo
  completeSession env i r session

/-- `upload_abort`. -/
def uploadAbort (uploadId repo : Uuid) : Script (UploadStore ι) AppError UploadAnswer := do
  let session ← ret (← select fun db =>
    (db.uploadSessions.get? uploadId).elim (.error .notFound) .ok)
  if session.repoId ≠ repo then fail .forbidden
  else
    markAborted uploadId
    return .noContent

/-- The script of a request. -/
def UploadRequest.script [DecidableEq ι] (i : ι) : UploadRequest → Script (UploadStore ι) AppError UploadAnswer
  | .part uploadId repo n body => uploadPart env uploadId repo n body
  | .complete r => uploadComplete env i r
  | .abort uploadId repo => uploadAbort uploadId repo
  | .expire => do return .expired (← sql expireUploadSessions)

end Requests

/-! ## Alone, the statements are `persist` -/

section Alone

variable (env : UploadEnv) (uploadId : Uuid) (call : PublishCall)

/-- What a script does to the catalog while the clock stands at the time of the call. -/
abbrev AsEffect (m : Script (UploadStore ι) AppError α) (e : Effect Catalog AppError α) : Prop :=
  Refines (fun s : UploadStore ι => s.db) (fun s => s.now = call.draw.now) m e

/-- A statement is its effect, at the time it runs. -/
theorem sql_asEffect (m : Timestamp → Effect Catalog SqlError α) :
    AsEffect call (sql m : Script (UploadStore ι) AppError α)
      (ExceptT.adapt .catalog (m call.draw.now)) := by
  intro s hs
  rw [exec_adapt, ← show s.now = call.draw.now from hs]
  exact ⟨rfl, rfl, rfl⟩

/-- What the statements read alone. -/
theorem runAlone_select_bind {β : Type} (f : Catalog → α)
    (k : α → Script (UploadStore ι) AppError β) (s : UploadStore ι) :
    runAlone (select f >>= k) s = runAlone (k (f s.db)) s := rfl

/-- The visibility of a publish: as asked for, else as stored, else the repository's. -/
theorem runAlone_chooseVisibility (s : UploadStore ι) :
    runAlone (chooseVisibility call) s =
      ((s.db.publishVisibility call).map fun v =>
        (s.db.packageVisibility call.repo call.pkgName, v), s) := by
  unfold chooseVisibility
  rw [runAlone_select_bind]
  show runAlone (if _ ∨ _ then _ else _) s = _
  split_ifs with hknown
  · cases s.db.publishVisibility call <;> rfl
  · -- neither the package nor the request names one
    rw [not_or, Option.not_isSome_iff_eq_none, Option.not_isSome_iff_eq_none] at hknown
    unfold Catalog.publishVisibility
    rw [hknown.1, hknown.2, runAlone_select_bind]
    cases s.db.allowPrivatePackages call.repo with
    | error e => rfl
    | ok allowed => cases allowed <;> rfl

/-- The guard of a private package, alone. -/
theorem runAlone_ensurePrivate (s : UploadStore ι) :
    runAlone (ensurePrivateStatement call) s
      = ((s.db.ensurePrivateAllowed call.repo).mapError policyError, s) := rfl

/-- The admission checks, one after the other. -/
theorem admitPackage_eq (db : Catalog) (repo : Uuid) (name : String) (visibility : Visibility) :
    db.admitPackage repo name visibility =
      (if effectiveVisibility visibility (db.packageVisibility repo name) = .private then
        db.ensurePrivateAllowed repo else .ok ()) >>= fun _ =>
      if db.hasMembers repo then
        .error (.policy ("this repository is made of member repositories and holds no packages "
          ++ "of its own: publish or mirror into one of its members"))
      else .ok () := by
  unfold Catalog.admitPackage
  rcases db.packageVisibility repo name with _ | ⟨declared, _ | _⟩
  · cases visibility <;> rfl
  · cases visibility <;> rfl
  · cases declared <;> rfl

/-- Alone, the package is admitted and then inserted. -/
theorem runAlone_upsertPackageStatements (visibility : Visibility) (s : UploadStore ι) :
    runAlone (upsertPackageStatements call visibility) s =
      andThen ((s.db.admitPackage call.repo call.pkgName visibility).mapError policyError, s)
        fun _ s => runAlone (sql fun _ => insertPackage call.draw.newId call.repo call.pkgName
          "upload" (some (.object [("kind", .string "upload")])) visibility) s := by
  unfold upsertPackageStatements
  rw [runAlone_select_bind, admitPackage_eq]
  have hmembers : ∀ k : Bool → Script (UploadStore ι) AppError Uuid,
      runAlone (select (·.hasMembers call.repo) >>= k) s = runAlone (k (s.db.hasMembers call.repo)) s :=
    fun k => runAlone_select_bind _ k s
  by_cases hprivate : effectiveVisibility visibility
      (s.db.packageVisibility call.repo call.pkgName) = .private
  · rw [if_pos hprivate, if_pos hprivate, runAlone_bind, runAlone_ensurePrivate]
    cases s.db.ensurePrivateAllowed call.repo with
    | error e => rfl
    | ok _ =>
      refine (hmembers _).trans ?_
      cases s.db.hasMembers call.repo <;> rfl
  · rw [if_neg hprivate, if_neg hprivate]
    refine (hmembers _).trans ?_
    cases s.db.hasMembers call.repo <;> rfl

/-- The statements of the upsert, alone, are the upsert. -/
theorem upsertPackageStatements_asEffect (visibility : Visibility) :
    AsEffect call (upsertPackageStatements call visibility : Script (UploadStore ι) AppError Uuid)
      (ExceptT.adapt policyError (upsertPackage call.draw.newId call.repo call.pkgName "upload"
        (some (.object [("kind", .string "upload")])) visibility)) := by
  intro s hs
  unfold upsertPackage
  rw [runAlone_upsertPackageStatements]
  simp only [exec_adapt, exec_bind, exec_get, exec_ofExcept, andThen]
  cases s.db.admitPackage call.repo call.pkgName visibility with
  | error e => exact ⟨rfl, rfl, hs⟩
  | ok _ =>
    refine ⟨?_, rfl, hs⟩
    show Except.mapError _ _ = Except.mapError _ (Except.mapError _ _)
    cases (exec (insertPackage _ _ _ _ _ _) s.db).1 <;> rfl

/-- The statements that declare a visibility, alone, are one call. -/
theorem declareStatements_asEffect (visibility : Visibility) :
    AsEffect call (declareStatements call visibility : Script (UploadStore ι) AppError Unit)
      (ExceptT.adapt policyError
        (setPackageVisibility call.draw.now call.repo call.pkgName visibility) >>= fun _ =>
          pure ()) := by
  intro s hs
  unfold declareStatements setPackageVisibility
  simp only [exec_adapt, exec_bind, exec_get, exec_ofExcept, andThen]
  rw [← show s.now = call.draw.now from hs]
  by_cases hprivate : visibility = .private
  · rw [if_pos hprivate, if_pos hprivate, runAlone_bind, runAlone_ensurePrivate]
    cases s.db.ensurePrivateAllowed call.repo with
    | error e => exact ⟨rfl, rfl, rfl⟩
    | ok _ => exact ⟨rfl, rfl, rfl⟩
  · rw [if_neg hprivate, if_neg hprivate]
    exact ⟨rfl, rfl, rfl⟩

/-- What the insert can do: find a row, insert one, or meet a missing reference. -/
theorem insertVersionRow_cases (key : VersionKey) (row : PackageVersion) (db : Catalog) :
    (∃ existing, db.packageVersions.get? key = some existing ∧
        exec (insertVersionRow key row) db = (.ok false, db)) ∨
      (db.packageVersions.get? key = none ∧
        db.versionReferences key.packageId row.distBlobSha256 = .ok () ∧
        exec (insertVersionRow key row) db = (.ok true, { db with
          packageVersions := db.packageVersions.insertNew key row
          blobs := blobRefcountAdjust db.blobs none row.distBlobSha256 })) ∨
      ∃ e, db.packageVersions.get? key = none ∧
        db.versionReferences key.packageId row.distBlobSha256 = .error e ∧
        exec (insertVersionRow key row) db = (.error e, db) := by
  unfold insertVersionRow
  simp only [exec_bind, exec_get, andThen]
  cases hkey : db.packageVersions.get? key with
  | some existing => exact Or.inl ⟨existing, rfl, rfl⟩
  | none =>
    cases hrefs : db.versionReferences key.packageId row.distBlobSha256 with
    | ok _ => exact Or.inr (Or.inl ⟨rfl, rfl, rfl⟩)
    | error e => exact Or.inr (Or.inr ⟨e, rfl, rfl, rfl⟩)

/-- The statements that insert a version, alone, are one call. -/
theorem insertVersionStatements_asEffect (key : VersionKey) (row : PackageVersion) :
    AsEffect call
      (insertVersionStatements uploadId key row : Script (UploadStore ι) AppError PublishOutcome)
      (ExceptT.adapt .catalog (insertVersionOnce key row)) := by
  intro s hs
  have hinsert : ∀ k : Bool → Script (UploadStore ι) AppError PublishOutcome,
      runAlone (insertUploadedVersion uploadId key row >>= k) s =
        andThen (runAlone (insertUploadedVersion uploadId key row) s) fun a s' => runAlone (k a) s' :=
    fun k => runAlone_bind _ k s
  unfold insertVersionStatements insertVersionOnce
  rw [hinsert]
  simp only [insertUploadedVersion, runAlone, exec_adapt, exec_bind, exec_get, andThen]
  rcases insertVersionRow_cases key row s.db with ⟨existing, hkey, hrun⟩ | ⟨hkey, hrefs, hrun⟩ |
    ⟨e, hkey, hrefs, hrun⟩
  · -- the row is there: its dist tells a retry from a republish
    rw [hrun, hkey]
    have hdist : s.db.distOf key = existing.distBlobSha256 := by
      unfold Catalog.distOf
      rw [hkey]
      rfl
    show (runAlone (select (·.distOf key) >>= _) s).1 = _ ∧ _
    rw [runAlone_select_bind, hdist]
    by_cases hsame : existing.distBlobSha256 = row.distBlobSha256
    · simp only [if_pos hsame]
      exact ⟨rfl, rfl, hs⟩
    · simp only [if_neg hsame]
      exact ⟨rfl, rfl, hs⟩
  · rw [hrun, hkey]
    simp only [exec_bind, exec_get, exec_ofExcept, andThen, hrefs]
    exact ⟨rfl, rfl, hs⟩
  · rw [hrun, hkey]
    simp only [exec_bind, exec_get, exec_ofExcept, andThen, hrefs]
    exact ⟨rfl, rfl, hs⟩

/-- **Alone, the statements are `persist`**, at the time of the call. -/
theorem runAlone_persistStatements :
    AsEffect call
      (persistStatements env uploadId call : Script (UploadStore ι) AppError PublishOutcome)
      (persist env.versions call) := by
  unfold persistStatements persist
  refine refines_bind (refines_ret _) fun parsed => ?_
  intro s hs
  have hchosen := runAlone_chooseVisibility call s
  rw [runAlone_bind, hchosen, exec_bind, exec_get]
  simp only [andThen]
  rw [exec_bind, exec_ofExcept]
  cases s.db.publishVisibility call with
  | error e => exact ⟨rfl, rfl, hs⟩
  | ok visibility =>
    -- from here on the statements follow the effect
    refine refines_bind (sql_asEffect call _) (fun _ => ?_) s hs
    refine refines_bind (upsertPackageStatements_asEffect call visibility) fun packageId => ?_
    unfold declareVisibility
    have hinsert := insertVersionStatements_asEffect (ι := ι) uploadId call
      ⟨packageId, parsed.1⟩ (call.versionRow parsed.2)
    by_cases hdeclares : (s.db.packageVisibility call.repo call.pkgName).isNone ∧
        call.requested.isSome
    · rw [if_pos hdeclares, if_pos hdeclares]
      exact refines_bind (declareStatements_asEffect call visibility) fun _ => hinsert
    · rw [if_neg hdeclares, if_neg hdeclares]
      exact hinsert

end Alone

end Sconce
