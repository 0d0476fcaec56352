/-
# Archived packages

`archive_package` sets a flag and deletes the package's pending jobs once.  Of the three ways to
sync a package only the registry mirror looks at the flag, when it collects the names it skips; a
single-package sync, a git sync and the queue do not.

`archive_freezes_iff` says when an archived package stays frozen: exactly when no step of a
single-package or git sync begun meanwhile brings it anything, and no step of the queue makes a
job of it pending.  The registry syncs begun meanwhile need no condition.
-/
import Sconce.Concurrency.MirrorQueue
import Sconce.Versions.History

namespace Sconce

open Effect

/-! ## Archiving -/

/-- The job syncs the package of the repository. -/
def Catalog.jobFor (db : Catalog) (repo : Uuid) (name : String) (job : MirrorJob) : Bool :=
  job.kind = .mirrorPackage && job.package = some name &&
    (job.upstreamId.bind db.upstreams.get?).any fun u => u.repoId = repo

/-- `archive_package`: whether there was such a package. -/
def archivePackage (now : Timestamp) (repo : Uuid) (name : String) :
    Effect Catalog SqlError Bool := do
  updatePackages (Package.isNamed repo name) fun r =>
    { r with archivedAt := some (r.archivedAt.getD now) }
  modify fun db => { db with mirrorJobs := db.mirrorJobs.delete fun _ job =>
    job.status = .pending && db.jobFor repo name job }
  return ((← get).packageIn repo name).isSome

/-- `unarchive_package`: whether there was such a package. -/
def unarchivePackage (repo : Uuid) (name : String) : Effect Catalog SqlError Bool := do
  updatePackages (Package.isNamed repo name) fun r => { r with archivedAt := none }
  return ((← get).packageIn repo name).isSome

/-- The names of the archived packages of a repository, as `mirror_composer_registry` collects
them. -/
def Catalog.archivedNames (db : Catalog) (repo : Uuid) : List String :=
  db.packages.rows.filterMap fun r =>
    if r.2.repoId = repo ∧ r.2.archivedAt.isSome then some r.2.name else none

/-! ## The steps -/

/-- A registry sync under way: when it began, its upstream, and once it has collected them the
names it skips. -/
structure RegistryRun where
  since : ℕ
  upstream : UpstreamRow
  skips : Option (List String)

/-- What a sync of packages does: the composer mirror of one package, for a registry sync or by
itself, with what was stored once it has read that; or the git mirror. -/
inductive SyncWork where
  | composer (fromRegistry : Bool) (sync : ComposerSync)
      (stored : Option (String → Option StoredDist))
  | git (sync : GitSync)

/-- A sync of packages under way, and when it began; of a registry's packages, when the registry
sync did. -/
structure SyncRun where
  since : ℕ
  work : SyncWork

/-- The catalog, how many steps were taken, and the syncs under way. -/
structure FreezeStore where
  db : Catalog
  time : ℕ
  registries : ℕ → Option RegistryRun
  syncs : ℕ → Option SyncRun

/-- A step of archiving, of a sync, or of the queue. -/
inductive FreezeOp where
  | archive (now : Timestamp) (repo : Uuid) (name : String)
  | unarchive (repo : Uuid) (name : String)
  | registryBegins (k : ℕ) (up : UpstreamRow)
  | registryReads (k : ℕ)
  | registryPackage (k j : ℕ) (sync : ComposerSync)
  | packageBegins (j : ℕ) (sync : ComposerSync)
  | packageReads (j : ℕ)
  | packagePass (j : ℕ) (draw : Draw) (obj : Json)
  | gitBegins (j : ℕ) (sync : GitSync)
  | gitPass (j : ℕ) (tag sourcePath : String)
  | markSynced (now : Timestamp) (repo : Uuid) (name : String)
  | markBroken (now : Timestamp) (repo : Uuid) (name reason : String)
  | enqueue (now : Timestamp) (request : JobRequest)
  | claim (now : Timestamp) (id : Uuid)
  | complete (id : Uuid)
  | retry (now : Timestamp) (id : Uuid) (backoff : ℤ) (error : String)
  | fail (id : Uuid) (error : String)

/-- `claim_mirror_job` of a job that is eligible. -/
def Catalog.claimed (db : Catalog) (now : Timestamp) (id : Uuid) : Catalog :=
  match db.mirrorJobs.get? id with
  | some job =>
    if job.status = .pending ∧ job.runAfter ≤ now then
      db.updateJob id (·.claim now (job.attempts + 1))
    else db
  | none => db

/-- The composer mirror reads what is stored of its package. -/
def SyncRun.read (db : Catalog) : SyncRun → SyncRun
  | ⟨since, .composer fromRegistry sync _⟩ =>
    ⟨since, .composer fromRegistry sync
      (some (db.storedDists sync.upstream.repoId sync.package))⟩
  | r => r

/-- Reading does not move what a pass goes by. -/
theorem SyncRun.since_read (db : Catalog) (r : SyncRun) : (r.read db).since = r.since := by
  unfold read
  split <;> rfl

namespace FreezeStore

/-- No sync under way. -/
def start (db : Catalog) : FreezeStore := ⟨db, 0, fun _ => none, fun _ => none⟩

/-- A registry sync goes on to a package it does not skip. -/
def selected (s : FreezeStore) (k j : ℕ) (sync : ComposerSync) : ℕ → Option SyncRun :=
  match s.registries k with
  | some ⟨since, up, some skips⟩ =>
    if sync.package ∈ skips then s.syncs
    else Function.update s.syncs j
      (some ⟨since, .composer true { sync with upstream := up } none⟩)
  | _ => s.syncs

/-- A pass of the composer mirror, once it has read what is stored. -/
def passed (env : External) (s : FreezeStore) (j : ℕ) (draw : Draw) (obj : Json) : Catalog :=
  match s.syncs j with
  | some ⟨_, .composer _ sync (some stored)⟩ => s.db.after (sync.mirrorVersion env stored draw obj)
  | _ => s.db

/-- A pass of the git mirror over a tag that is a version. -/
def gitPassed (env : External) (s : FreezeStore) (j : ℕ) (tag sourcePath : String) : Catalog :=
  match s.syncs j, normalizeTag env tag with
  | some ⟨_, .git sync⟩, some parsed => s.db.after (sync.mirrorPath env tag parsed sourcePath)
  | _, _ => s.db

end FreezeStore

/-- What a step does. -/
def FreezeOp.act (env : External) (s : FreezeStore) : FreezeOp → FreezeStore
  | .archive now repo name => { s with db := s.db.after (archivePackage now repo name) }
  | .unarchive repo name => { s with db := s.db.after (unarchivePackage repo name) }
  | .registryBegins k up =>
    { s with registries := Function.update s.registries k (some ⟨s.time, up, none⟩) }
  | .registryReads k =>
    { s with registries := Function.update s.registries k ((s.registries k).map fun r =>
        { r with skips := some (s.db.archivedNames r.upstream.repoId) }) }
  | .registryPackage k j sync => { s with syncs := s.selected k j sync }
  | .packageBegins j sync =>
    { s with syncs := Function.update s.syncs j (some ⟨s.time, .composer false sync none⟩) }
  | .packageReads j =>
    { s with syncs := Function.update s.syncs j ((s.syncs j).map (·.read s.db)) }
  | .packagePass j draw obj => { s with db := s.passed env j draw obj }
  | .gitBegins j sync =>
    { s with syncs := Function.update s.syncs j (some ⟨s.time, .git sync⟩) }
  | .gitPass j tag sourcePath => { s with db := s.gitPassed env j tag sourcePath }
  | .markSynced now repo name =>
    { s with db := s.db.after (ε := Empty) (markPackageSynced now repo name) }
  | .markBroken now repo name reason =>
    { s with db := s.db.after (ε := Empty) (markPackageBroken now repo name reason) }
  | .enqueue now request => { s with db := s.db.after (enqueueJob now request) }
  | .claim now id => { s with db := s.db.claimed now id }
  | .complete id => { s with db := s.db.after (completeMirrorJob id) }
  | .retry now id backoff error => { s with db := s.db.after (retryMirrorJob now id backoff error) }
  | .fail id error => { s with db := s.db.after (failMirrorJob id error) }

/-- The state a step leaves. -/
def FreezeOp.run (env : External) (s : FreezeStore) (op : FreezeOp) : FreezeStore :=
  { op.act env s with time := s.time + 1 }

/-! ## What is claimed, and when it holds -/

/-- A step of a sync that began before the time. -/
def FreezeOp.Older (t : ℕ) (s : FreezeStore) : FreezeOp → Prop
  | .packagePass j _ _ | .gitPass j _ _ => ∃ r, s.syncs j = some r ∧ r.since < t
  | _ => False

/-- The versions of the package are the same in both. -/
def Catalog.SameVersions (id : Uuid) (db db' : Catalog) : Prop :=
  ∀ normalized, db'.packageVersions.get? ⟨id, normalized⟩ = db.packageVersions.get? ⟨id, normalized⟩

/-- No pending job syncs the package. -/
def Catalog.NoJob (repo : Uuid) (name : String) (db : Catalog) : Prop :=
  ∀ k job, db.mirrorJobs.get? k = some job → job.status = .pending → db.jobFor repo name job = false

/-- Over a run from the state, no step of a sync begun since inserts or changes a version of the
package, and in no state is a job of it pending. -/
structure Freezes (env : External) (repo : Uuid) (name : String) (id : Uuid) (s : FreezeStore)
    (ops : List FreezeOp) : Prop where
  versions : ∀ x ∈ Run.trace (FreezeOp.run env) s ops, ¬ x.2.Older s.time x.1 →
    x.1.db.SameVersions id (x.2.run env x.1).db
  noJob : ∀ done, done <+: ops → (Run.final (FreezeOp.run env) s done).db.NoJob repo name

/-- The path a pass over a stored version records: that of the dist, where the sync found none. -/
def ComposerSync.backfills (sync : ComposerSync) (stored : String → Option StoredDist)
    (obj : Json) : Option (String × String) :=
  match sync.list obj with
  | .inl _ => none
  | .inr v =>
    match stored v.normalized with
    | none => none
    | some existing =>
      match upstreamChange existing v.shasum v.reference, existing.upstreamDistPath with
      | none, none => (sync.distPath v).map fun path => (v.normalized, path)
      | _, _ => none

/-- A pass of the composer mirror brings the package no version that is not stored, and no path
to a version without one. -/
structure ComposerSync.Spares (env : External) (sync : ComposerSync)
    (stored : String → Option StoredDist) (draw : Draw) (obj : Json) (id : Uuid) (db : Catalog) :
    Prop where
  stores : ∀ key row, sync.stores env db stored draw obj = some (key, row) → key.packageId = id →
    (db.packageVersions.get? key).isSome
  backfills : ∀ normalized path, sync.backfills stored obj = some (normalized, path) →
    db.inPackage sync.upstream.repoId sync.package id → ∀ pv,
    db.packageVersions.get? ⟨id, normalized⟩ = some pv → pv.upstreamDistPath.isSome

/-- A pass of the git mirror brings the package nothing but what is stored. -/
def GitSync.Spares (env : External) (sync : GitSync) (tag sourcePath : String) (id : Uuid)
    (db : Catalog) : Prop :=
  ∀ key row, sync.stores env db tag sourcePath = some (key, row) → key.packageId = id →
    ∃ old, db.packageVersions.get? key = some old ∧ row.overwritten old = old

/-- A step of a single-package or git sync begun since brings the package nothing. -/
def FreezeOp.SparesVersions (env : External) (id : Uuid) (t : ℕ) (s : FreezeStore) :
    FreezeOp → Prop
  | .packagePass j draw obj => ∀ since sync stored,
      s.syncs j = some ⟨since, .composer false sync (some stored)⟩ → t ≤ since →
        sync.Spares env stored draw obj id s.db
  | .gitPass j tag sourcePath => ∀ since sync, s.syncs j = some ⟨since, .git sync⟩ → t ≤ since →
      sync.Spares env tag sourcePath id s.db
  | _ => True

/-- A step of the queue makes no job of the package pending: an enqueue of one is a duplicate or
refused, a retry of one refused. -/
def FreezeOp.SparesQueue (repo : Uuid) (name : String) (s : FreezeStore) : FreezeOp → Prop
  | .enqueue now request => s.db.jobFor repo name (request.row now) = true →
      s.db.pendingJob request.key none = true ∨ (s.db.mirrorJobs.get? request.newId).isSome ∨
        s.db.jobReferences request.upstreamId request.repoId = false
  | .retry _ k _ _ => ∀ job, s.db.mirrorJobs.get? k = some job → s.db.jobFor repo name job = true →
      s.db.pendingJob job.key (some k) = true
  | _ => True

/-! ## The packages, the jobs and the upstreams over a sync -/

/-- The same package, archived still. -/
structure Package.Kept (p p' : Package) : Prop where
  repoId : p'.repoId = p.repoId
  name : p'.name = p.name
  archivedAt : p'.archivedAt = p.archivedAt

/-- Every package is kept, and no job and no upstream changes. -/
structure Catalog.SyncFrame (db db' : Catalog) : Prop where
  packages : ∀ id p, db.packages.get? id = some p →
    ∃ p', db'.packages.get? id = some p' ∧ p.Kept p'
  jobs : db'.mirrorJobs = db.mirrorJobs
  upstreams : db'.upstreams = db.upstreams

instance : IsPreorder Catalog Catalog.SyncFrame where
  refl _ := ⟨fun _ p h => ⟨p, h, rfl, rfl, rfl⟩, rfl, rfl⟩
  trans _ _ _ h h' := by
    refine ⟨fun id p hp => ?_, h'.jobs.trans h.jobs, h'.upstreams.trans h.upstreams⟩
    obtain ⟨p', hp', hkept⟩ := h.packages id p hp
    obtain ⟨p'', hp'', hkept'⟩ := h'.packages id p' hp'
    exact ⟨p'', hp'', hkept'.repoId.trans hkept.repoId, hkept'.name.trans hkept.name,
      hkept'.archivedAt.trans hkept.archivedAt⟩

namespace Catalog.SyncFrame

theorem of_packages {db db' : Catalog} (hpackages : db'.packages = db.packages)
    (hjobs : db'.mirrorJobs = db.mirrorJobs) (hupstreams : db'.upstreams = db.upstreams) :
    db.SyncFrame db' := by
  refine ⟨fun id p h => ⟨p, ?_, rfl, rfl, rfl⟩, hjobs, hupstreams⟩
  rw [hpackages]
  exact h

theorem updatePackages {ε : Type} (q : Uuid → Package → Bool) {f : Package → Package}
    (hf : ∀ p : Package, p.Kept (f p)) :
    Keeps SyncFrame (updatePackages q f : Effect Catalog ε Unit) := by
  refine fun db => ⟨fun id p h => ?_, rfl, rfl⟩
  show ∃ p', (db.packages.update _).get? id = some p' ∧ p.Kept p'
  rw [Table.get?_update, h, Option.map_some]
  split_ifs
  · exact ⟨f p, rfl, hf p⟩
  · exact ⟨p, rfl, rfl, rfl, rfl⟩

theorem upsertPackage (newId repo : Uuid) (name kind : String) (source : Option Json)
    (visibility : Visibility) :
    Keeps SyncFrame (upsertPackage newId repo name kind source visibility) := by
  unfold Sconce.upsertPackage Sconce.insertPackage
  refine keeps_bind keeps_get fun _ => keeps_bind (keeps_ofExcept _) fun _ => keeps_adapt ?_
  refine keeps_bind keeps_get fun _ => keeps_bind (keeps_ofExcept _) fun newId => ?_
  refine keeps_bind (fun db => ⟨fun id p h => ?_, rfl, rfl⟩) fun _ => keeps_pure _
  show ∃ p', (db.packages.upsert newId _ _).get? id = some p' ∧ p.Kept p'
  rw [Table.get?_upsert]
  split_ifs with hsame
  · rw [← hsame, h]
    exact ⟨_, rfl, rfl, rfl, rfl⟩
  · exact ⟨p, h, rfl, rfl, rfl⟩

theorem insertVersionOnce (key : VersionKey) (row : PackageVersion) :
    Keeps SyncFrame (insertVersionOnce key row) := by
  intro db
  rcases insertVersionOnce_cases key row db with
    ⟨existing, -, hrun⟩ | ⟨-, -, hrun⟩ | ⟨e, -, -, hrun⟩
  · rw [hrun]
    exact refl_of SyncFrame db
  · rw [hrun]
    exact of_packages rfl rfl rfl
  · rw [hrun]
    exact refl_of SyncFrame db

theorem upsertPackageVersion (key : VersionKey) (row : PackageVersion) :
    Keeps SyncFrame (upsertPackageVersion key row) := by
  unfold Sconce.upsertPackageVersion
  refine keeps_bind keeps_get fun _ => keeps_bind (keeps_ofExcept _) fun _ => ?_
  exact fun _ => of_packages rfl rfl rfl

theorem backfill (sync : ComposerSync) (v : Listed) (existing : StoredDist) :
    Keeps SyncFrame (sync.backfill v existing) := by
  unfold ComposerSync.backfill
  cases existing.upstreamDistPath with
  | some path => exact keeps_pure _
  | none =>
    cases sync.distPath v with
    | none => exact keeps_pure _
    | some path => exact fun _ => of_packages rfl rfl rfl

theorem compare (sync : ComposerSync) (v : Listed) (existing : StoredDist) :
    Keeps SyncFrame (sync.compare v existing) := by
  unfold ComposerSync.compare
  cases upstreamChange existing v.shasum v.reference with
  | some reason => exact keeps_pure _
  | none => exact keeps_bind (backfill sync v existing) fun _ => keeps_pure _

theorem mirrorVersion (env : External) (sync : ComposerSync) (stored : String → Option StoredDist)
    (draw : Draw) (obj : Json) : Keeps SyncFrame (sync.mirrorVersion env stored draw obj) := by
  unfold ComposerSync.mirrorVersion
  cases sync.list obj with
  | inl entry => exact keeps_pure _
  | inr v =>
    cases hstored : stored v.normalized with
    | some existing =>
      simp only [hstored]
      exact compare sync v existing
    | none =>
      simp only [hstored]
      refine keeps_bind (keeps_ofExcept _) fun f => ?_
      unfold ComposerSync.store
      refine keeps_bind (fun _ => of_packages rfl rfl rfl) fun _ => ?_
      refine keeps_bind (keeps_adapt (upsertPackage _ _ _ _ _ _)) fun id => ?_
      refine keeps_bind (updatePackages _ fun _ => ⟨rfl, rfl, rfl⟩) fun _ => ?_
      exact keeps_bind (keeps_adapt (insertVersionOnce _ _)) fun _ => keeps_pure _

theorem mirrorPath (env : External) (sync : GitSync) (tag : String) (parsed : ParsedVersion)
    (sp : String) : Keeps SyncFrame (sync.mirrorPath env tag parsed sp) := by
  unfold GitSync.mirrorPath
  refine keeps_bind (keeps_ofExcept _) fun got => ?_
  cases got with
  | inl entry => exact keeps_pure _
  | inr a =>
    show Keeps SyncFrame (sync.store env tag parsed sp a)
    unfold GitSync.store
    refine keeps_bind (fun _ => of_packages rfl rfl rfl) fun _ => ?_
    refine keeps_bind (keeps_adapt (upsertPackage _ _ _ _ _ _)) fun id => ?_
    refine keeps_bind ?_ fun _ => ?_
    · unfold GitSync.bindUpstream
      cases sync.upstream with
      | none => exact keeps_pure _
      | some uid => exact updatePackages _ fun _ => ⟨rfl, rfl, rfl⟩
    refine keeps_bind (updatePackages _ fun _ => ⟨rfl, rfl, rfl⟩) fun _ => ?_
    exact keeps_bind (keeps_adapt (upsertPackageVersion _ _)) fun _ => keeps_pure _

theorem markPackageSynced {ε : Type} (now : Timestamp) (repo : Uuid) (name : String) :
    Keeps SyncFrame (markPackageSynced now repo name : Effect Catalog ε Unit) :=
  updatePackages _ fun _ => ⟨rfl, rfl, rfl⟩

theorem markPackageBroken {ε : Type} (now : Timestamp) (repo : Uuid) (name reason : String) :
    Keeps SyncFrame (markPackageBroken now repo name reason : Effect Catalog ε Unit) :=
  updatePackages _ fun _ => ⟨rfl, rfl, rfl⟩

end Catalog.SyncFrame

/-! ## The versions over a pass -/

/-- Where a writer is given the id of a package, it is the package it names. -/
theorem Catalog.named_of_upsertedId {db : Catalog} {newId repo id : Uuid} {name : String}
    {visibility : Visibility} (h : db.upsertedId newId repo name visibility = some id)
    {p : Package} (hp : db.packages.get? id = some p) : p.repoId = repo ∧ p.name = name := by
  unfold upsertedId packageId at h
  cases haccepted : db.admitPackage repo name visibility with
  | error e => simp only [haccepted, reduceCtorEq] at h
  | ok _ =>
    simp only [haccepted] at h
    cases hin : db.packageIn repo name with
    | some r =>
      simp only [hin, Option.some.injEq] at h
      have hr : db.packages.get? r.1 = some r.2 :=
        (Table.mem_rows_iff _ r.1 r.2).1 (List.mem_of_find?_eq_some hin)
      rw [h, hp, Option.some.injEq] at hr
      rw [hr]
      unfold packageIn at hin
      have hnamed := List.find?_some hin
      exact of_decide_eq_true hnamed
    | none =>
      simp only [hin] at h
      split_ifs at h with htaken hrepo
      obtain rfl : newId = id := Option.some.inj h
      rw [hp] at htaken
      exact absurd rfl htaken

/-- A pass of the composer mirror inserts the version it brings, or records the path it found. -/
theorem ComposerSync.packageVersions_pass (env : External) (db : Catalog) (sync : ComposerSync)
    (stored : String → Option StoredDist) (draw : Draw) (obj : Json) :
    (db.after (sync.mirrorVersion env stored draw obj)).packageVersions =
      match sync.stores env db stored draw obj, sync.backfills stored obj with
      | some (key, row), _ => db.packageVersions.insertNew key row
      | none, some (normalized, path) =>
        (db.after (ε := Empty) (backfillUpstreamDistPath sync.upstream.repoId sync.package normalized
          path)).packageVersions
      | none, none => db.packageVersions := by
  have hstores := sync.packageVersions_mirrorVersion env db stored draw obj
  cases hlist : sync.list obj with
  | inl entry => simp only [mirrorVersion, stores, backfills, hlist]; rfl
  | inr v =>
    -- a version known is compared and may get its path; a new one is fetched and stored
    cases hstored : stored v.normalized with
    | some existing =>
      simp only [mirrorVersion, stores, backfills, hlist, hstored, compare]
      cases upstreamChange existing v.shasum v.reference with
      | some reason => rfl
      | none =>
        simp only [Catalog.after, exec_bind, exec_pure, backfill]
        cases existing.upstreamDistPath with
        | some path => rfl
        | none =>
          cases sync.distPath v with
          | none => rfl
          | some path => rfl
    | none =>
      simp only [backfills, hlist, hstored]
      cases hrow : sync.stores env db stored draw obj with
      | some stores =>
        rw [hrow] at hstores
        exact hstores
      | none =>
        simp only [mirrorVersion, hlist, hstored, Catalog.after, exec_bind, exec_ofExcept, andThen]
        cases hfetch : sync.fetch env v with
        | error e => rfl
        | ok f =>
          simp only [stores, hlist, hstored, hfetch, Option.map_eq_none_iff] at hrow
          simp only [store, exec_bind, exec_upsertBlob, exec_adapt, andThen]
          rcases upsertPackage_withBlob db draw.now f.blob (sizeOf f.bytes) draw.newId
              sync.upstream.repoId sync.package "composer"
              (some (.object [("url", .string sync.upstream.trimmedBase)])) sync.upstream.visibility
            with ⟨id, db', hid, -⟩ | ⟨e, -, hexec⟩
          · rw [hrow] at hid
            cases hid
          · simp only [hexec, Except.mapError]
            rfl

/-- A pass that brings a version records no path. -/
theorem ComposerSync.backfills_of_stores {env : External} {db : Catalog} {sync : ComposerSync}
    {stored : String → Option StoredDist} {draw : Draw} {obj : Json}
    {row : VersionKey × PackageVersion} (h : sync.stores env db stored draw obj = some row) :
    sync.backfills stored obj = none := by
  unfold stores at h
  unfold backfills
  cases hlist : sync.list obj with
  | inl entry => rfl
  | inr v =>
    cases hstored : stored v.normalized with
    | some existing => simp only [hlist, hstored, reduceCtorEq] at h
    | none => simp only [hstored]

namespace Catalog

variable {db : Catalog} {id : Uuid}

/-- The versions are the same where their table is. -/
theorem SameVersions.of_eq {db' : Catalog} (h : db'.packageVersions = db.packageVersions) :
    db.SameVersions id db' := by
  intro normalized
  rw [h]

/-- The versions are the same when no version of the package is written. -/
theorem sameVersions_iff_of_key {db' : Catalog} {key : VersionKey} {p : Prop}
    (h : ∀ k, db'.packageVersions.get? k = db.packageVersions.get? k ↔ (k = key → p)) :
    db.SameVersions id db' ↔ (key.packageId = id → p) := by
  constructor
  · rintro hsame rfl
    exact (h key).1 (hsame key.normalizedVersion) rfl
  · rintro hp normalized
    exact (h _).2 fun hkey => hp (congrArg VersionKey.packageId hkey).symm

end Catalog

/-- A recorded path leaves the versions as they were where each it is for has one. -/
theorem sameVersions_backfill_iff (db : Catalog) (id repo : Uuid) (name normalized path : String) :
    db.SameVersions id (db.after (ε := Empty) (backfillUpstreamDistPath repo name normalized path)) ↔
      (db.inPackage repo name id → ∀ pv, db.packageVersions.get? ⟨id, normalized⟩ = some pv →
        pv.upstreamDistPath.isSome) := by
  show (∀ n, (db.packageVersions.update _).get? ⟨id, n⟩ = db.packageVersions.get? ⟨id, n⟩) ↔ _
  constructor
  · intro hsame hin pv hpv
    have hrow := hsame normalized
    rw [Table.get?_update, hpv, Option.map_some, if_pos ⟨hin, rfl⟩, Option.some.injEq] at hrow
    rw [← hrow]
    rfl
  · intro hpath n
    rw [Table.get?_update]
    cases hrow : db.packageVersions.get? ⟨id, n⟩ with
    | none => rfl
    | some pv =>
      rw [Option.map_some]
      split_ifs with hsel
      · obtain rfl : n = normalized := hsel.2
        obtain ⟨old, hold⟩ := Option.isSome_iff_exists.1 (hpath hsel.1 pv hrow)
        cases pv with
        | mk =>
          subst hold
          rfl
      · rfl

/-- A pass of the composer mirror leaves the versions of a package as they were exactly when it
spares the package. -/
theorem ComposerSync.sameVersions_pass_iff (env : External) (db : Catalog) (sync : ComposerSync)
    (stored : String → Option StoredDist) (draw : Draw) (obj : Json) (id : Uuid) :
    db.SameVersions id (db.after (sync.mirrorVersion env stored draw obj)) ↔
      sync.Spares env stored draw obj id db := by
  have hpass := sync.packageVersions_pass env db stored draw obj
  cases hstores : sync.stores env db stored draw obj with
  | some stores =>
    obtain ⟨key, row⟩ := stores
    rw [hstores] at hpass
    have hnone := backfills_of_stores hstores
    -- a version stored: the rows of the package stay unless its key was free
    have hkey : db.SameVersions id (db.after (sync.mirrorVersion env stored draw obj)) ↔
        (key.packageId = id → (db.packageVersions.get? key).isSome) := by
      refine Catalog.sameVersions_iff_of_key fun k => ?_
      rw [hpass]
      exact Table.get?_insertNew_eq_iff _ key row k
    rw [hkey]
    constructor
    · refine fun h => ⟨fun key' row' heq => ?_, fun _ _ hpath => ?_⟩
      · obtain ⟨rfl, -⟩ := Prod.mk.inj (Option.some.inj (hstores.symm.trans heq))
        exact h
      · exact absurd (hnone.symm.trans hpath) nofun
    · exact fun h => h.stores key row hstores
  | none =>
    have hno : ∀ key row, sync.stores env db stored draw obj = some (key, row) →
        key.packageId = id → (db.packageVersions.get? key).isSome :=
      fun _ _ h => absurd (hstores.symm.trans h) nofun
    cases hback : sync.backfills stored obj with
    | none =>
      rw [hstores, hback] at hpass
      exact iff_of_true (Catalog.SameVersions.of_eq hpass)
        ⟨hno, fun _ _ hpath => absurd (hback.symm.trans hpath) nofun⟩
    | some found =>
      obtain ⟨normalized, path⟩ := found
      rw [hstores, hback] at hpass
      -- no version, at most a path
      have hbackfill := sameVersions_backfill_iff db id sync.upstream.repoId sync.package normalized
        path
      have hsame : db.SameVersions id (db.after (sync.mirrorVersion env stored draw obj)) ↔
          db.SameVersions id (db.after (ε := Empty) (backfillUpstreamDistPath
            sync.upstream.repoId sync.package normalized path)) := by
        unfold Catalog.SameVersions
        rw [hpass]
      rw [hsame, hbackfill]
      constructor
      · refine fun h => ⟨hno, fun normalized' path' heq => ?_⟩
        obtain ⟨rfl, rfl⟩ := Prod.mk.inj (Option.some.inj (hback.symm.trans heq))
        exact h
      · exact fun h => h.backfills normalized path hback

/-- So does a pass of the git mirror. -/
theorem GitSync.sameVersions_pass_iff {env : External} (db : Catalog) (sync : GitSync)
    {tag : String} {parsed : ParsedVersion} (h : normalizeTag env tag = some parsed) (sp : String)
    (id : Uuid) :
    db.SameVersions id (db.after (sync.mirrorPath env tag parsed sp)) ↔
      sync.Spares env tag sp id db := by
  have hpass := sync.packageVersions_mirrorPath env db h sp
  unfold GitSync.Spares
  cases hstores : sync.stores env db tag sp with
  | some stores =>
    obtain ⟨key, row⟩ := stores
    rw [hstores] at hpass
    have hkey : db.SameVersions id (db.after (sync.mirrorPath env tag parsed sp)) ↔
        (key.packageId = id →
          ∃ old, db.packageVersions.get? key = some old ∧ row.overwritten old = old) := by
      refine Catalog.sameVersions_iff_of_key fun k => ?_
      rw [hpass]
      exact Table.get?_upsert_eq_iff _ key row row.overwritten k
    rw [hkey]
    constructor
    · intro hold key' row' heq
      obtain ⟨rfl, rfl⟩ := Prod.mk.inj (Option.some.inj heq)
      exact hold
    · exact fun hold => hold key row rfl
  | none =>
    rw [hstores] at hpass
    exact iff_of_true (Catalog.SameVersions.of_eq hpass) fun _ _ h => absurd h nofun

/-- A sync of another package spares it. -/
theorem ComposerSync.spares_of_other {env : External} {db : Catalog} {sync : ComposerSync}
    {id : Uuid} {p : Package} (hp : db.packages.get? id = some p)
    (hother : ¬ (sync.upstream.repoId = p.repoId ∧ sync.package = p.name))
    (stored : String → Option StoredDist) (draw : Draw) (obj : Json) :
    sync.Spares env stored draw obj id db where
  stores := by
    rintro key row hstores rfl
    unfold ComposerSync.stores at hstores
    split at hstores
    · cases hstores
    · split at hstores
      · obtain ⟨id, hid, heq⟩ := Option.map_eq_some_iff.1 hstores
        obtain ⟨rfl, -⟩ := Prod.mk.inj heq
        obtain ⟨hrepo, hname⟩ := Catalog.named_of_upsertedId hid hp
        exact absurd ⟨hrepo.symm, hname.symm⟩ hother
      · cases hstores
  backfills := by
    intro normalized path _ hin
    unfold Catalog.inPackage at hin
    rw [hp, Option.any_some, decide_eq_true_eq] at hin
    exact absurd ⟨hin.1.symm, hin.2.symm⟩ hother

/-! ## The pending jobs over a step -/

namespace Catalog

variable {db db' : Catalog} {repo : Uuid} {name : String}

/-- Where every pending job was pending before, none is of the package. -/
theorem NoJob.of_pending (h : db.NoJob repo name) (hupstreams : db'.upstreams = db.upstreams)
    (hjobs : ∀ k job, db'.mirrorJobs.get? k = some job → job.status = .pending →
      db.mirrorJobs.get? k = some job) : db'.NoJob repo name := by
  intro k job hjob hpending
  unfold jobFor
  rw [hupstreams]
  exact h k job (hjobs k job hjob hpending) hpending

theorem NoJob.of_frame (h : db.NoJob repo name) (hframe : db.SyncFrame db') :
    db'.NoJob repo name := by
  refine h.of_pending hframe.upstreams fun k job hjob _ => ?_
  rw [← hframe.jobs]
  exact hjob

/-- A job that is settled or claimed is not pending. -/
theorem NoJob.updateJob (h : db.NoJob repo name) (id : Uuid) {f : MirrorJob → MirrorJob}
    (hf : ∀ job, (f job).status ≠ .pending) : (db.updateJob id f).NoJob repo name := by
  refine h.of_pending rfl fun k job hjob hpending => ?_
  rw [get?_updateJob] at hjob
  split_ifs at hjob with hk
  · obtain ⟨old, -, rfl⟩ := Option.map_eq_some_iff.1 hjob
    exact absurd hpending (hf old)
  · exact hjob

/-- What `archive_package` leaves pending was, and is not of its package. -/
theorem get?_archivePackage {now : Timestamp} {k : Uuid} {job : MirrorJob}
    (h : (db.after (archivePackage now repo name)).mirrorJobs.get? k = some job) :
    db.mirrorJobs.get? k = some job ∧ ¬ (job.status = .pending ∧ db.jobFor repo name job = true) := by
  replace h : (db.mirrorJobs.delete fun _ job =>
    job.status = .pending && db.jobFor repo name job).get? k = some job := h
  rw [Table.get?_delete, Option.filter_eq_some_iff] at h
  refine ⟨h.1, fun hof => ?_⟩
  simp [hof.1, hof.2] at h

theorem noJob_archivePackage (db : Catalog) (now : Timestamp) (repo : Uuid) (name : String) :
    (db.after (archivePackage now repo name)).NoJob repo name := by
  intro k job hjob hpending
  exact Bool.eq_false_iff.2 fun hof => (get?_archivePackage hjob).2 ⟨hpending, hof⟩

theorem noJob_claimed (h : db.NoJob repo name) (now : Timestamp) (id : Uuid) :
    (db.claimed now id).NoJob repo name := by
  unfold claimed
  cases db.mirrorJobs.get? id with
  | none => exact h
  | some job =>
    simp only
    split_ifs
    · exact h.updateJob id fun _ => nofun
    · exact h

/-- Only the jobs differ. -/
def QueueFrame (db db' : Catalog) : Prop := ∃ jobs, db' = { db with mirrorJobs := jobs }

theorem queueFrame_enqueueJob (db : Catalog) (now : Timestamp) (request : JobRequest) :
    db.QueueFrame (db.after (enqueueJob now request)) := by
  unfold after
  rcases enqueueJob_cases now request db with ⟨-, -, hexec⟩ | ⟨answer, hexec⟩
  · rw [hexec]
    exact ⟨_, rfl⟩
  · rw [hexec]
    exact ⟨db.mirrorJobs, rfl⟩

theorem queueFrame_claimed (db : Catalog) (now : Timestamp) (id : Uuid) :
    db.QueueFrame (db.claimed now id) := by
  unfold claimed
  split
  · split_ifs
    · exact ⟨_, rfl⟩
    · exact ⟨db.mirrorJobs, rfl⟩
  · exact ⟨db.mirrorJobs, rfl⟩

theorem queueFrame_retryMirrorJob (db : Catalog) (now : Timestamp) (id : Uuid) (backoff : ℤ)
    (error : String) : db.QueueFrame (db.after (retryMirrorJob now id backoff error)) := by
  unfold after retryMirrorJob
  simp only [exec_bind, exec_get, andThen]
  split_ifs
  · exact ⟨db.mirrorJobs, rfl⟩
  · exact ⟨_, rfl⟩

/-- An enqueue makes a job pending unless one with its key is, or a constraint refuses it. -/
theorem noJob_enqueueJob_iff (h : db.NoJob repo name) (now : Timestamp) (request : JobRequest) :
    (db.after (enqueueJob now request)).NoJob repo name ↔
      (db.jobFor repo name (request.row now) = true →
        db.pendingJob request.key none = true ∨ (db.mirrorJobs.get? request.newId).isSome ∨
          db.jobReferences request.upstreamId request.repoId = false) := by
  unfold after enqueueJob
  simp only [exec_bind, exec_get, andThen]
  split_ifs with hpending htaken hrefs
  · exact iff_of_true h fun _ => Or.inl hpending
  · exact iff_of_true h fun _ => Or.inr (Or.inl htaken)
  · exact iff_of_true h fun _ => Or.inr (Or.inr (by simpa using hrefs))
  · have hnew : db.mirrorJobs.get? request.newId = none := Option.not_isSome_iff_eq_none.1 htaken
    constructor
    · intro hno hof
      have hrow : (db.mirrorJobs.insertNew request.newId (request.row now)).get? request.newId
          = some (request.row now) := by
        rw [Table.get?_insertNew_self, hnew, Option.getD_none]
      cases hof.symm.trans (hno _ _ hrow rfl)
    · intro hcond k job hjob hstatus
      replace hjob : (db.mirrorJobs.insertNew request.newId (request.row now)).get? k = some job :=
        hjob
      rw [Table.get?_insertNew] at hjob
      split_ifs at hjob with hk
      · rw [hnew, Option.getD_none, Option.some.injEq] at hjob
        rw [← hjob]
        refine Bool.eq_false_iff.2 fun hof => ?_
        rcases hcond hof with hdup | hid | hmissing
        · exact hpending hdup
        · exact htaken hid
        · exact hrefs (by simpa using hmissing)
      · exact h k job hjob hstatus

/-- A retry makes a job pending unless one with its key is. -/
theorem noJob_retryMirrorJob_iff (h : db.NoJob repo name) (now : Timestamp) (id : Uuid)
    (backoff : ℤ) (error : String) :
    (db.after (retryMirrorJob now id backoff error)).NoJob repo name ↔
      ∀ job, db.mirrorJobs.get? id = some job → db.jobFor repo name job = true →
        db.pendingJob job.key (some id) = true := by
  unfold after
  cases hjob : db.mirrorJobs.get? id with
  | none =>
    refine iff_of_true ?_ fun _ h => absurd h (Option.some_ne_none _).symm
    unfold retryMirrorJob
    simp only [exec_bind, exec_get, andThen, hjob, Option.any_none]
    refine h.of_pending rfl fun k row hrow _ => ?_
    replace hrow : (db.updateJob id _).mirrorJobs.get? k = some row := hrow
    rw [get?_updateJob] at hrow
    split_ifs at hrow with hk
    · rw [hk, hjob] at hrow
      cases hrow
    · exact hrow
  | some job =>
    rw [exec_retryMirrorJob hjob]
    have hall : (∀ job', some job = some job' → db.jobFor repo name job' = true →
        db.pendingJob job'.key (some id) = true) ↔
          (db.jobFor repo name job = true → db.pendingJob job.key (some id) = true) := by
      simp
    rw [hall]
    split_ifs with hpending
    · exact iff_of_true h fun _ => hpending
    · constructor
      · intro hno hof
        -- the job retried is pending again, so it must be of another package
        have hrow := get?_updateJob_self hjob (·.retry now backoff error)
        have hretried := hno id _ hrow rfl
        cases hof.symm.trans hretried
      · intro hcond k row hrow hstatus
        rw [get?_updateJob] at hrow
        split_ifs at hrow with hk
        · rw [hk, hjob, Option.map_some, Option.some.injEq] at hrow
          rw [← hrow]
          exact Bool.eq_false_iff.2 fun hof => hpending (hcond hof)
        · exact h k row hrow hstatus

end Catalog

namespace FreezeStore

variable (env : External) (s : FreezeStore)

/-- A step that asks for a pass is one of a composer mirror, or does nothing. -/
theorem passed_cases (j : ℕ) (draw : Draw) (obj : Json) :
    (∃ since fromRegistry sync stored,
      s.syncs j = some ⟨since, .composer fromRegistry sync (some stored)⟩ ∧
        s.passed env j draw obj = s.db.after (sync.mirrorVersion env stored draw obj)) ∨
      (∀ since fromRegistry sync stored,
        s.syncs j ≠ some ⟨since, .composer fromRegistry sync (some stored)⟩) ∧
          s.passed env j draw obj = s.db := by
  unfold passed
  split
  · rename_i since fromRegistry sync stored hsync
    exact Or.inl ⟨since, fromRegistry, sync, stored, hsync, rfl⟩
  · rename_i hno
    exact Or.inr ⟨hno, rfl⟩

/-- So is one that asks for a pass of a git mirror. -/
theorem gitPassed_cases (j : ℕ) (tag sp : String) :
    (∃ since sync parsed, s.syncs j = some ⟨since, .git sync⟩ ∧ normalizeTag env tag = some parsed ∧
        s.gitPassed env j tag sp = s.db.after (sync.mirrorPath env tag parsed sp)) ∨
      (∀ since sync parsed, s.syncs j = some ⟨since, .git sync⟩ →
        normalizeTag env tag ≠ some parsed) ∧ s.gitPassed env j tag sp = s.db := by
  unfold gitPassed
  split
  · rename_i since sync parsed hsync hparsed
    exact Or.inl ⟨since, sync, parsed, hsync, hparsed, rfl⟩
  · rename_i hno
    exact Or.inr ⟨hno, rfl⟩

/-- A listed version that has been passed leaves the frame. -/
theorem passed_frame (j : ℕ) (draw : Draw) (obj : Json) :
    s.db.SyncFrame (s.passed env j draw obj) := by
  rcases s.passed_cases env j draw obj with ⟨_, _, sync, stored, -, hpass⟩ | ⟨-, hpass⟩
  · rw [hpass]
    exact Catalog.SyncFrame.mirrorVersion env sync stored draw obj s.db
  · rw [hpass]
    exact refl_of Catalog.SyncFrame s.db

/-- A path that has been passed leaves the frame. -/
theorem gitPassed_frame (j : ℕ) (tag sp : String) :
    s.db.SyncFrame (s.gitPassed env j tag sp) := by
  rcases s.gitPassed_cases env j tag sp with ⟨_, sync, parsed, -, -, hpass⟩ | ⟨-, hpass⟩
  · rw [hpass]
    exact Catalog.SyncFrame.mirrorPath env sync tag parsed sp s.db
  · rw [hpass]
    exact refl_of Catalog.SyncFrame s.db

end FreezeStore

/-- Where no job of the package is pending, a step leaves it so exactly when it spares the
queue. -/
theorem FreezeOp.noJob_run_iff (env : External) {repo : Uuid} {name : String} (s : FreezeStore)
    (op : FreezeOp) (h : s.db.NoJob repo name) :
    (op.run env s).db.NoJob repo name ↔ op.SparesQueue repo name s := by
  cases op with
  | archive now repo' name' =>
    refine iff_of_true (h.of_pending rfl fun k job hjob _ => ?_) trivial
    exact (Catalog.get?_archivePackage hjob).1
  | packagePass j draw obj =>
    exact iff_of_true (h.of_frame (s.passed_frame env j draw obj)) trivial
  | gitPass j tag sp => exact iff_of_true (h.of_frame (s.gitPassed_frame env j tag sp)) trivial
  | enqueue now request => exact Catalog.noJob_enqueueJob_iff h now request
  | claim now id => exact iff_of_true (Catalog.noJob_claimed h now id) trivial
  | complete id => exact iff_of_true (h.updateJob id fun _ => nofun) trivial
  | retry now id backoff error => exact Catalog.noJob_retryMirrorJob_iff h now id backoff error
  | fail id error => exact iff_of_true (h.updateJob id fun _ => nofun) trivial
  | _ => exact iff_of_true h trivial

/-! ## The period of an archived package -/

/-- The invariant of the period that begins at the time: the package is archived, a registry sync
begun since skips it, and none begun since has gone on to it. -/
structure FreezeStore.Archived (t : ℕ) (id : Uuid) (repo : Uuid) (name : String)
    (s : FreezeStore) : Prop where
  package : ∃ p, s.db.packages.get? id = some p ∧ p.repoId = repo ∧ p.name = name ∧
    p.archivedAt.isSome
  registries : ∀ k r skips, s.registries k = some r → t ≤ r.since → r.upstream.repoId = repo →
    r.skips = some skips → name ∈ skips
  syncs : ∀ j since sync stored, s.syncs j = some ⟨since, .composer true sync stored⟩ →
    t ≤ since → ¬ (sync.upstream.repoId = repo ∧ sync.package = name)

/-- Every sync under way began before. -/
structure FreezeStore.Clocked (s : FreezeStore) : Prop where
  registries : ∀ k r, s.registries k = some r → r.since < s.time
  syncs : ∀ j r, s.syncs j = some r → r.since < s.time

namespace FreezeOp

variable {env : External} {s : FreezeStore}

/-- The packages over a step other than the package's own unarchiving. -/
theorem package_act {op : FreezeOp} {id : Uuid} {p : Package}
    (hp : s.db.packages.get? id = some p) (hop : op ≠ .unarchive p.repoId p.name) :
    ∃ p', (op.act env s).db.packages.get? id = some p' ∧ p'.repoId = p.repoId ∧
      p'.name = p.name ∧ (p.archivedAt.isSome → p'.archivedAt.isSome) := by
  have hsame : ∃ p', s.db.packages.get? id = some p' ∧ p'.repoId = p.repoId ∧ p'.name = p.name ∧
      (p.archivedAt.isSome → p'.archivedAt.isSome) := ⟨p, hp, rfl, rfl, fun h => h⟩
  -- a sync keeps the names and the date of archiving
  have hframe : ∀ db', s.db.SyncFrame db' → ∃ p', db'.packages.get? id = some p' ∧
      p'.repoId = p.repoId ∧ p'.name = p.name ∧ (p.archivedAt.isSome → p'.archivedAt.isSome) := by
    intro db' h
    obtain ⟨p', hp', hkept⟩ := h.packages id p hp
    exact ⟨p', hp', hkept.repoId, hkept.name, fun harchived => by rwa [hkept.archivedAt]⟩
  -- the queue holds no packages
  have hqueue : ∀ db', s.db.QueueFrame db' → ∃ p', db'.packages.get? id = some p' ∧
      p'.repoId = p.repoId ∧ p'.name = p.name ∧ (p.archivedAt.isSome → p'.archivedAt.isSome) := by
    rintro _ ⟨jobs, rfl⟩
    exact hsame
  cases op with
  | archive now repo name =>
    show ∃ p', (s.db.packages.update _).get? id = some p' ∧ _
    rw [Table.get?_update, hp, Option.map_some]
    split_ifs
    · exact ⟨_, rfl, rfl, rfl, fun _ => rfl⟩
    · exact ⟨p, rfl, rfl, rfl, fun h => h⟩
  | unarchive repo name =>
    show ∃ p', (s.db.packages.update _).get? id = some p' ∧ _
    rw [Table.get?_update, hp, Option.map_some, if_neg]
    · exact ⟨p, rfl, rfl, rfl, fun h => h⟩
    · intro hnamed
      obtain ⟨rfl, rfl⟩ := of_decide_eq_true hnamed
      exact hop rfl
  | packagePass j draw obj => exact hframe _ (s.passed_frame env j draw obj)
  | gitPass j tag sp => exact hframe _ (s.gitPassed_frame env j tag sp)
  | markSynced now repo name =>
    exact hframe _ (@Catalog.SyncFrame.markPackageSynced Empty now repo name s.db)
  | markBroken now repo name reason =>
    exact hframe _ (@Catalog.SyncFrame.markPackageBroken Empty now repo name reason s.db)
  | enqueue now request => exact hqueue _ (s.db.queueFrame_enqueueJob now request)
  | claim now jobId => exact hqueue _ (s.db.queueFrame_claimed now jobId)
  | retry now jobId backoff error =>
    exact hqueue _ (s.db.queueFrame_retryMirrorJob now jobId backoff error)
  | _ => exact hsame

/-- The name of an archived package is among those a registry sync skips. -/
theorem archivedNames_of_package {db : Catalog} {id : Uuid} {p : Package}
    (hp : db.packages.get? id = some p) (harchived : p.archivedAt.isSome) :
    p.name ∈ db.archivedNames p.repoId := by
  unfold Catalog.archivedNames
  rw [List.mem_filterMap]
  exact ⟨(id, p), (Table.mem_rows_iff _ id p).2 hp, if_pos ⟨rfl, harchived⟩⟩

/-- What a registry sync has read after a step of the period skips the package. -/
theorem registries_act {op : FreezeOp} {t : ℕ} {id repo : Uuid} {name : String}
    (h : s.Archived t id repo name) (k : ℕ) (r : RegistryRun) (skips : List String)
    (hr : (op.act env s).registries k = some r) (hsince : t ≤ r.since)
    (hrepo : r.upstream.repoId = repo) (hskips : r.skips = some skips) : name ∈ skips := by
  cases op with
  | registryBegins j up =>
    replace hr : Function.update s.registries j (some ⟨s.time, up, none⟩) k = some r := hr
    rw [Function.update_apply] at hr
    split_ifs at hr with hk
    · rw [← Option.some.inj hr] at hskips
      exact absurd hskips nofun
    · exact h.registries k r skips hr hsince hrepo hskips
  | registryReads j =>
    replace hr : Function.update s.registries j ((s.registries j).map _) k = some r := hr
    rw [Function.update_apply] at hr
    split_ifs at hr with hk
    · obtain ⟨before, -, rfl⟩ := Option.map_eq_some_iff.1 hr
      obtain ⟨p, hp, rfl, rfl, harchived⟩ := h.package
      rw [← Option.some.inj hskips]
      have hmem := archivedNames_of_package hp harchived
      rw [← hrepo] at hmem
      exact hmem
    · exact h.registries k r skips hr hsince hrepo hskips
  | _ => exact h.registries k r skips hr hsince hrepo hskips

/-- A registry sync begun in the period does not go on to the package. -/
theorem syncs_act {op : FreezeOp} {t : ℕ} {id repo : Uuid} {name : String}
    (h : s.Archived t id repo name) (j since : ℕ) (sync : ComposerSync)
    (stored : Option (String → Option StoredDist))
    (hsync : (op.act env s).syncs j = some ⟨since, .composer true sync stored⟩)
    (hsince : t ≤ since) : ¬ (sync.upstream.repoId = repo ∧ sync.package = name) := by
  cases op with
  | registryPackage k i sync' =>
    replace hsync : s.selected k i sync' j = some ⟨since, .composer true sync stored⟩ := hsync
    unfold FreezeStore.selected at hsync
    rcases hregistry : s.registries k with _ | ⟨began, up, _ | skips⟩
    · rw [hregistry] at hsync
      exact h.syncs j since sync stored hsync hsince
    · rw [hregistry] at hsync
      exact h.syncs j since sync stored hsync hsince
    · simp only [hregistry] at hsync
      split_ifs at hsync with hskipped
      · exact h.syncs j since sync stored hsync hsince
      · rw [Function.update_apply] at hsync
        split_ifs at hsync with hj
        · simp only [Option.some.injEq, SyncRun.mk.injEq, SyncWork.composer.injEq, true_and] at hsync
          obtain ⟨rfl, rfl, -⟩ := hsync
          rintro ⟨hrepo, rfl⟩
          -- what was archived when the registry was read is skipped
          exact hskipped (h.registries k _ _ hregistry hsince hrepo rfl)
        · exact h.syncs j since sync stored hsync hsince
  | packageBegins i sync' =>
    replace hsync : Function.update s.syncs i _ j = some ⟨since, .composer true sync stored⟩ := hsync
    rw [Function.update_apply] at hsync
    split_ifs at hsync with hj
    · exact absurd (Option.some.inj hsync) nofun
    · exact h.syncs j since sync stored hsync hsince
  | gitBegins i sync' =>
    replace hsync : Function.update s.syncs i _ j = some ⟨since, .composer true sync stored⟩ := hsync
    rw [Function.update_apply] at hsync
    split_ifs at hsync with hj
    · exact absurd (Option.some.inj hsync) nofun
    · exact h.syncs j since sync stored hsync hsince
  | packageReads i =>
    replace hsync : Function.update s.syncs i ((s.syncs i).map (·.read s.db)) j
      = some ⟨since, .composer true sync stored⟩ := hsync
    rw [Function.update_apply] at hsync
    split_ifs at hsync with hj
    · obtain ⟨before, hbefore, hread⟩ := Option.map_eq_some_iff.1 hsync
      unfold SyncRun.read at hread
      split at hread
      · simp only [SyncRun.mk.injEq, SyncWork.composer.injEq] at hread
        obtain ⟨rfl, rfl, rfl, -⟩ := hread
        exact h.syncs i _ _ _ hbefore hsince
      · rw [hread] at hbefore
        exact h.syncs i since sync stored hbefore hsince
    · exact h.syncs j since sync stored hsync hsince
  | _ => exact h.syncs j since sync stored hsync hsince

/-- **A step of the period keeps its invariant.** -/
theorem archived_run {op : FreezeOp} {t : ℕ} {id repo : Uuid} {name : String}
    (hop : op ≠ .unarchive repo name) (h : s.Archived t id repo name) :
    (op.run env s).Archived t id repo name where
  package := by
    obtain ⟨p, hp, rfl, rfl, harchived⟩ := h.package
    obtain ⟨p', hp', hrepo, hname, hstill⟩ := package_act hp hop
    exact ⟨p', hp', hrepo, hname, hstill harchived⟩
  registries := registries_act h
  syncs := syncs_act h

/-- A sync begins at the time it does. -/
theorem clocked_run (op : FreezeOp) (h : s.Clocked) : (op.run env s).Clocked where
  registries := by
    intro k r hr
    show r.since < s.time + 1
    have hbefore : ∀ k' r', s.registries k' = some r' → r'.since < s.time + 1 :=
      fun k' r' hr' => Nat.lt_succ_of_lt (h.registries k' r' hr')
    -- only what begins gets a date, the time of the step
    cases op with
    | registryBegins j up =>
      replace hr : Function.update s.registries j (some ⟨s.time, up, none⟩) k = some r := hr
      rw [Function.update_apply] at hr
      split_ifs at hr with hk
      · rw [← Option.some.inj hr]
        exact Nat.lt_succ_self _
      · exact hbefore k r hr
    | registryReads j =>
      replace hr : Function.update s.registries j ((s.registries j).map _) k = some r := hr
      rw [Function.update_apply] at hr
      split_ifs at hr with hk
      · obtain ⟨r', hr', rfl⟩ := Option.map_eq_some_iff.1 hr
        exact hbefore j r' hr'
      · exact hbefore k r hr
    | _ => exact hbefore k r hr
  syncs := by
    intro j r hr
    show r.since < s.time + 1
    have hbefore : ∀ j' r', s.syncs j' = some r' → r'.since < s.time + 1 :=
      fun j' r' hr' => Nat.lt_succ_of_lt (h.syncs j' r' hr')
    cases op with
    | registryPackage k i sync =>
      replace hr : s.selected k i sync j = some r := hr
      unfold FreezeStore.selected at hr
      rcases hregistry : s.registries k with _ | ⟨began, up, _ | skips⟩
      · rw [hregistry] at hr
        exact hbefore j r hr
      · rw [hregistry] at hr
        exact hbefore j r hr
      · simp only [hregistry] at hr
        split_ifs at hr with hskipped
        · exact hbefore j r hr
        · rw [Function.update_apply] at hr
          split_ifs at hr with hj
          · rw [← Option.some.inj hr]
            exact Nat.lt_succ_of_lt (h.registries k _ hregistry)
          · exact hbefore j r hr
    | packageBegins i sync =>
      replace hr : Function.update s.syncs i (some ⟨s.time, .composer false sync none⟩) j = some r :=
        hr
      rw [Function.update_apply] at hr
      split_ifs at hr with hj
      · rw [← Option.some.inj hr]
        exact Nat.lt_succ_self _
      · exact hbefore j r hr
    | gitBegins i sync =>
      replace hr : Function.update s.syncs i (some ⟨s.time, .git sync⟩) j = some r := hr
      rw [Function.update_apply] at hr
      split_ifs at hr with hj
      · rw [← Option.some.inj hr]
        exact Nat.lt_succ_self _
      · exact hbefore j r hr
    | packageReads i =>
      replace hr : Function.update s.syncs i ((s.syncs i).map (·.read s.db)) j = some r := hr
      rw [Function.update_apply] at hr
      split_ifs at hr with hj
      · obtain ⟨r', hr', hread⟩ := Option.map_eq_some_iff.1 hr
        rw [← hread, SyncRun.since_read]
        exact hbefore i r' hr'
      · exact hbefore j r hr
    | _ => exact hbefore j r hr

/-- The period begins as the package is archived: no sync has begun since. -/
theorem archived_archive {id : Uuid} {p : Package} (hclock : s.Clocked)
    (hp : s.db.packages.get? id = some p) (now : Timestamp) :
    ((archive now p.repoId p.name).run env s).Archived (s.time + 1) id p.repoId p.name where
  package := by
    show ∃ p', (s.db.packages.update _).get? id = some p' ∧ _
    have hnamed : Package.isNamed p.repoId p.name id p = true := decide_eq_true ⟨rfl, rfl⟩
    rw [Table.get?_update, hp, Option.map_some, if_pos hnamed]
    exact ⟨_, rfl, rfl, rfl, rfl⟩
  registries := by
    intro k r skips hr hsince
    exact absurd (hclock.registries k r hr) (by omega)
  syncs := by
    intro j since sync stored hsync hsince
    exact absurd (hclock.syncs j _ hsync) (by simp only; omega)

/-! ## The versions over a step -/

/-- **What a step of the period does to the versions.** It leaves them as they were, unless it is
of a sync begun before, exactly when it spares them. -/
theorem sameVersions_run_iff {t : ℕ} {id repo : Uuid} {name : String}
    (h : s.Archived t id repo name) (op : FreezeOp) :
    (¬ op.Older t s → s.db.SameVersions id (op.run env s).db) ↔ op.SparesVersions env id t s := by
  have hqueue : ∀ db', s.db.QueueFrame db' → s.db.SameVersions id db' := by
    rintro _ ⟨jobs, rfl⟩
    exact .of_eq rfl
  cases op with
  | packagePass j draw obj =>
    show (_ → s.db.SameVersions id (s.passed env j draw obj)) ↔ _
    rcases s.passed_cases env j draw obj with
      ⟨since, fromRegistry, sync, stored, hsync, hpass⟩ | ⟨hno, hpass⟩
    · rw [hpass, sync.sameVersions_pass_iff]
      constructor
      · intro hspares since' sync' stored' hsync' hsince
        rw [hsync] at hsync'
        simp only [Option.some.injEq, SyncRun.mk.injEq, SyncWork.composer.injEq] at hsync'
        obtain ⟨rfl, -, rfl, rfl⟩ := hsync'
        refine hspares ?_
        rintro ⟨r, hr, holder⟩
        rw [hsync] at hr
        rw [← Option.some.inj hr] at holder
        exact absurd hsince (Nat.not_le_of_lt holder)
      · intro hspares holder
        -- the sync is not older than the archiving
        have hsince : t ≤ since := Nat.le_of_not_lt fun hlt => holder ⟨_, hsync, hlt⟩
        cases fromRegistry with
        | false => exact hspares since sync stored hsync hsince
        -- one of the registry is of another package
        | true =>
          obtain ⟨p, hp, rfl, rfl, -⟩ := h.package
          exact sync.spares_of_other hp (h.syncs j since sync _ hsync hsince) stored draw obj
    · rw [hpass]
      exact iff_of_true (fun _ => .of_eq rfl) fun since sync stored hsync =>
        absurd hsync (hno since false sync stored)
  | gitPass j tag sp =>
    show (_ → s.db.SameVersions id (s.gitPassed env j tag sp)) ↔ _
    rcases s.gitPassed_cases env j tag sp with
      ⟨since, sync, parsed, hsync, hparsed, hpass⟩ | ⟨hno, hpass⟩
    · rw [hpass, sync.sameVersions_pass_iff s.db hparsed]
      constructor
      · intro hspares since' sync' hsync' hsince
        rw [hsync] at hsync'
        simp only [Option.some.injEq, SyncRun.mk.injEq, SyncWork.git.injEq] at hsync'
        obtain ⟨rfl, rfl⟩ := hsync'
        refine hspares ?_
        rintro ⟨r, hr, holder⟩
        rw [hsync] at hr
        rw [← Option.some.inj hr] at holder
        exact absurd hsince (Nat.not_le_of_lt holder)
      · intro hspares holder
        have hsince : t ≤ since := Nat.le_of_not_lt fun hlt => holder ⟨_, hsync, hlt⟩
        exact hspares since sync hsync hsince
    · rw [hpass]
      refine iff_of_true (fun _ => .of_eq rfl) fun since sync hsync _ key row hstores => ?_
      unfold GitSync.stores at hstores
      cases hparsed : normalizeTag env tag with
      | none =>
        rw [hparsed] at hstores
        exact absurd hstores nofun
      | some parsed => exact absurd hparsed (hno since sync parsed hsync)
  | enqueue now request =>
    exact iff_of_true (fun _ => hqueue _ (s.db.queueFrame_enqueueJob now request)) trivial
  | claim now jobId => exact iff_of_true (fun _ => hqueue _ (s.db.queueFrame_claimed now jobId)) trivial
  | retry now jobId backoff error =>
    exact iff_of_true (fun _ => hqueue _ (s.db.queueFrame_retryMirrorJob now jobId backoff error))
      trivial
  | _ => exact iff_of_true (fun _ => .of_eq rfl) trivial

end FreezeOp

/-! ## A period -/

/-- The state as the package is archived, after a run that begins with no sync under way. -/
def archivedAfter (env : External) (db : Catalog) (before : List FreezeOp) (now : Timestamp)
    (repo : Uuid) (name : String) : FreezeStore :=
  (FreezeOp.archive now repo name).run env
    (Run.final (FreezeOp.run env) (FreezeStore.start db) before)

/-- **An archived package is frozen exactly as far as the steps spare it.**  From the archiving of
a package to its next unarchiving no step of a sync begun since inserts or changes a version of
it, and no job of it is pending, if and only if the passes of the single-package and git syncs
begun since spare its versions and the steps of the queue make no job of it pending. -/
theorem archive_freezes_iff (env : External) (db : Catalog) (before : List FreezeOp)
    (now : Timestamp) {id : Uuid} {p : Package}
    (hp : (Run.final (FreezeOp.run env) (FreezeStore.start db) before).db.packages.get? id = some p)
    (ops : List FreezeOp) (hperiod : ∀ op ∈ ops, op ≠ .unarchive p.repoId p.name) :
    Freezes env p.repoId p.name id (archivedAfter env db before now p.repoId p.name) ops ↔
      ∀ x ∈ Run.trace (FreezeOp.run env) (archivedAfter env db before now p.repoId p.name) ops,
        x.2.SparesVersions env id (archivedAfter env db before now p.repoId p.name).time x.1 ∧
          x.2.SparesQueue p.repoId p.name x.1 := by
  have hclock : (Run.final (FreezeOp.run env) (FreezeStore.start db) before).Clocked :=
    Run.final_invariant _ (fun op _ _ h => FreezeOp.clocked_run op h)
      ⟨fun _ _ h => absurd h (Option.some_ne_none _).symm,
        fun _ _ h => absurd h (Option.some_ne_none _).symm⟩
  have hstart := @FreezeOp.archived_archive env _ _ _ hclock hp now
  have hnojob : (archivedAfter env db before now p.repoId p.name).db.NoJob p.repoId p.name :=
    Catalog.noJob_archivePackage _ now p.repoId p.name
  generalize hs : archivedAfter env db before now p.repoId p.name = s at hnojob ⊢
  have htime : s.time = (Run.final (FreezeOp.run env) (FreezeStore.start db) before).time + 1 := by
    rw [← hs]
    rfl
  replace hstart : s.Archived s.time id p.repoId p.name := by
    rw [htime, ← hs]
    exact hstart
  -- at every step of the period the package is archived since its start
  have hperiodic : ∀ x ∈ Run.trace (FreezeOp.run env) s ops,
      x.1.Archived s.time id p.repoId p.name := by
    intro x hx
    obtain ⟨pre, post, hops, hpre⟩ := (Run.mem_trace_iff s ops x).1 hx
    rw [hpre]
    refine Run.final_invariant _ (fun op hop _ h => FreezeOp.archived_run (hperiod op ?_) h) hstart
    rw [hops]
    exact List.mem_append_left _ hop
  -- no job is queued at any moment when no step queues one
  have hjobs : (∀ done, done <+: ops →
        (Run.final (FreezeOp.run env) s done).db.NoJob p.repoId p.name) ↔
      ∀ x ∈ Run.trace (FreezeOp.run env) s ops, x.2.SparesQueue p.repoId p.name x.1 :=
    @Run.always_iff _ _ _ (fun s' => s'.db.NoJob p.repoId p.name)
      (fun x => x.2.SparesQueue p.repoId p.name x.1)
      (fun s' op => FreezeOp.noJob_run_iff env s' op) s hnojob ops
  constructor
  · intro h x hx
    exact ⟨(FreezeOp.sameVersions_run_iff (hperiodic x hx) x.2).1 (h.versions x hx),
      hjobs.1 h.noJob x hx⟩
  · intro h
    refine ⟨fun x hx => ?_, hjobs.2 fun x hx => (h x hx).2⟩
    exact (FreezeOp.sameVersions_run_iff (hperiodic x hx) x.2).2 (h x hx).1

/-! ## A registry and a single-package sync of an archived package -/

namespace Attic

/-- Nothing is parsed and every dist has one sha1. -/
def external : External := ⟨fun _ => none, fun _ => none, fun _ => "sha1"⟩

def digest : Sha256 := ⟨Vector.replicate 32 0⟩

/-- Repository 1 mirrors acme/tools, package 7 with the version 1.0.0, from upstream 5. -/
def mirrored : Catalog :=
  { Catalog.empty with
    repositories := Table.empty.insertNew 1
      ⟨1, "main", .manual, 0, true, false, none, none, none⟩
    upstreams := Table.empty.insertNew 5
      ⟨1, .composer, "https://repo.example.com", .private, none, none, .basic⟩
    packages := Table.empty.insertNew 7
      ⟨1, "acme/tools", "composer", none, .private, none, some 5, "", .ok, none, none, none, none⟩
    packageVersions := Table.empty.insertNew ⟨7, "1.0.0.0"⟩
      (.inserted "1.0.0" "stable" (.object []) (some digest) (some "sha1") none none none) }

def tools : Package :=
  ⟨1, "acme/tools", "composer", none, .private, none, some 5, "", .ok, none, none, none, none⟩

/-- A sync of acme/tools from the upstream. -/
def sync : ComposerSync where
  upstream := ⟨5, 1, "composer", "https://repo.example.com", .private⟩
  package := "acme/tools"
  sub := []
  metadata := .ok []
  download := fun _ => .ok [1]
  put := fun _ => .ok digest
  finished := 1

/-- What the upstream lists as version 2.0.0. -/
def second : Json :=
  .object [("version", .string "2.0.0"), ("version_normalized", .string "2.0.0.0"),
    ("dist", .object [("url", .string "https://cdn.example.com/2.zip")])]

/-- A registry sync that begins after the archiving skips the package. -/
theorem archive_freezes_registry :
    Freezes external 1 "acme/tools" 7 (archivedAfter external mirrored [] 0 1 "acme/tools")
      [.registryBegins 0 sync.upstream, .registryReads 0, .registryPackage 0 0 sync,
        .packageReads 0, .packagePass 0 ⟨1, 8⟩ second] := by
  refine (@archive_freezes_iff external mirrored [] 0 7 tools rfl _ (by simp)).2 ?_
  intro x hx
  simp only [Run.trace_cons, Run.trace_nil, List.mem_cons, List.not_mem_nil, or_false] at hx
  rcases hx with rfl | rfl | rfl | rfl | rfl
  · exact ⟨trivial, trivial⟩
  · exact ⟨trivial, trivial⟩
  · exact ⟨trivial, trivial⟩
  · exact ⟨trivial, trivial⟩
  · refine ⟨fun since other stored hsync _ => ?_, trivial⟩
    have hnone : (Run.final (FreezeOp.run external)
        (archivedAfter external mirrored [] 0 1 "acme/tools")
        [.registryBegins 0 sync.upstream, .registryReads 0, .registryPackage 0 0 sync,
          .packageReads 0]).syncs 0 = none := by
      rfl
    exact absurd (hnone.symm.trans hsync) nofun

/-- A single-package sync that begins after the archiving stores what the upstream lists. -/
theorem single_sync_thaws :
    ¬ Freezes external 1 "acme/tools" 7 (archivedAfter external mirrored [] 0 1 "acme/tools")
      [.packageBegins 0 sync, .packageReads 0, .packagePass 0 ⟨1, 8⟩ second] := by
  intro h
  let s := Run.final (FreezeOp.run external) (archivedAfter external mirrored [] 0 1 "acme/tools")
    [.packageBegins 0 sync, .packageReads 0]
  have hsame := h.versions (s, .packagePass 0 ⟨1, 8⟩ second)
    (List.mem_cons_of_mem _ (List.mem_cons_of_mem _ List.mem_cons_self)) ?_ "2.0.0.0"
  · have hbefore : s.db.packageVersions.get? ⟨7, "2.0.0.0"⟩ = none := rfl
    have hafter : ((FreezeOp.packagePass 0 ⟨1, 8⟩ second).run external s).db.packageVersions.get?
        ⟨7, "2.0.0.0"⟩ = some (sync.versionRow
          ⟨"2.0.0", "2.0.0.0", "https://cdn.example.com/2.zip", none, none, second⟩
          ⟨[1], "sha1", digest⟩) := rfl
    exact absurd ((hafter.symm.trans hsame).trans hbefore) nofun
  · rintro ⟨r, hr, hsince⟩
    have hbegan : s.syncs 0
        = some ⟨1, .composer false sync (some (mirrored.storedDists 1 "acme/tools"))⟩ := rfl
    obtain rfl := Option.some.inj (hbegan.symm.trans hr)
    exact absurd hsince (by decide)

-- an enqueue brings a job of the package back
example :
    ¬ Freezes external 1 "acme/tools" 7 (archivedAfter external mirrored [] 0 1 "acme/tools")
      [.enqueue 1 ⟨9, .mirrorPackage, some 5, some "acme/tools", none⟩] := by
  intro h
  have hnojob := h.noJob [.enqueue 1 ⟨9, .mirrorPackage, some 5, some "acme/tools", none⟩]
    List.prefix_rfl
  exact absurd (hnojob 9 _ rfl rfl) (by decide)

end Attic

end Sconce
