/-
# What is published stays served

Publishes, syncs, the operator's decisions, uploads to the object store and the collector's
deletions, one after the other in any order.  A version that a publish created is served with its
bytes after all of them, unless one of them yanks it or is a git pass that overwrites it.
-/
import Sconce.Serving.MajorCaps
import Sconce.Serving.Agreement
import Sconce.Versions.Immutability

namespace Sconce

open Effect

/-! ## Packages that stay -/

/-- Every package stays in its repository under its name, and one its repository admits is
admitted still. -/
structure Catalog.KeepsShelves (db db' : Catalog) : Prop where
  packages : ∀ id p, db.packages.get? id = some p → ∃ p', db'.packages.get? id = some p' ∧
    p'.repoId = p.repoId ∧ p'.name = p.name ∧
      (db.admits p.repoId p = true → db'.admits p.repoId p' = true)
  repositories : db'.repositories = db.repositories

instance : IsPreorder Catalog Catalog.KeepsShelves where
  refl _ := ⟨fun _ p h => ⟨p, h, rfl, rfl, fun hadmits => hadmits⟩, rfl⟩
  trans _ _ _ h h' := by
    refine ⟨fun id p hp => ?_, h'.repositories.trans h.repositories⟩
    obtain ⟨p', hp', hrepo, hname, hadmits⟩ := h.packages id p hp
    obtain ⟨p'', hp'', hrepo', hname', hadmits'⟩ := h'.packages id p' hp'
    rw [hrepo] at hrepo' hadmits'
    exact ⟨p'', hp'', hrepo', hname'.trans hname, fun hfirst => hadmits' (hadmits hfirst)⟩

namespace Catalog

/-- A repository admits a package unless it is private and the repository takes none. -/
theorem admits_iff (db : Catalog) (repo : Uuid) (p : Package) : db.admits repo p = true ↔
    ∃ r, db.repositories.get? repo = some r ∧ (p.visibility = .private → r.allowPrivatePackages) := by
  unfold admits
  rw [Option.any_eq_true]
  refine exists_congr fun r => and_congr_right fun _ => ?_
  rw [Bool.or_eq_true, decide_eq_true_eq]
  cases p.visibility with
  | «private» => simp
  | «public» => simp

/-- A private package passes where the repository takes it. -/
theorem ensurePrivateAllowed_ok {db : Catalog} {repo : Uuid}
    (h : db.ensurePrivateAllowed repo = .ok ()) :
    ∃ r, db.repositories.get? repo = some r ∧ r.allowPrivatePackages = true := by
  unfold ensurePrivateAllowed allowPrivatePackages at h
  cases hrepo : db.repositories.get? repo with
  | none =>
    rw [hrepo] at h
    cases h
  | some r =>
    rw [hrepo] at h
    cases hallow : r.allowPrivatePackages with
    | true => exact ⟨r, rfl, hallow⟩
    | false =>
      simp only [hallow, reduceCtorEq] at h

/-- The package found in a repository is there, under the name. -/
theorem named_of_packageIn {db : Catalog} {repo id : Uuid} {name : String} {p : Package}
    (h : db.packageIn repo name = some (id, p)) : p.repoId = repo ∧ p.name = name := by
  unfold packageIn at h
  simpa only [decide_eq_true_eq] using List.find?_some h

/-- The id a writer is given for a package that is stored is that package's. -/
theorem packageIn_of_packageId {db : Catalog} {newId repo id : Uuid} {name : String}
    (h : db.packageId newId repo name = .ok id) {p : Package} (hp : db.packages.get? id = some p) :
    db.packageIn repo name = some (id, p) := by
  unfold packageId at h
  cases hin : db.packageIn repo name with
  | some r =>
    rw [hin] at h
    obtain rfl := Except.ok.inj h
    have hrow := (Table.mem_rows_iff _ _ _).1 (List.mem_of_find?_eq_some hin)
    rw [hp] at hrow
    exact congrArg some (Prod.ext rfl (Option.some.inj hrow).symm)
  | none =>
    rw [hin] at h
    dsimp only at h
    split_ifs at h with hnew
    obtain rfl := Except.ok.inj h
    exact absurd (Option.isSome_iff_exists.2 ⟨p, hp⟩) hnew

/-- A package that is not stored has no visibility. -/
theorem new_of_packageId {db : Catalog} {newId repo id : Uuid} {name : String}
    (h : db.packageId newId repo name = .ok id) (hnone : db.packages.get? id = none) :
    db.packageVisibility repo name = none := by
  unfold packageVisibility
  rw [Option.map_eq_none_iff]
  by_contra hsome
  obtain ⟨stored, hin⟩ := Option.ne_none_iff_exists'.1 hsome
  unfold packageId at h
  rw [hin] at h
  obtain rfl := Except.ok.inj h
  have hrow := (Table.mem_rows_iff _ _ _).1 (List.mem_of_find?_eq_some hin)
  rw [hnone] at hrow
  cases hrow

/-- A package that is stored is left private only where that is allowed. -/
theorem allowed_of_admitPackage {db : Catalog} {repo id : Uuid} {name : String}
    {visibility : Visibility} (h : db.admitPackage repo name visibility = .ok ()) {p : Package}
    (hin : db.packageIn repo name = some (id, p))
    (hprivate : (if p.visibilityDeclaredAt.isNone then visibility else p.visibility) = .private)
    {r : Repository} (hr : db.repositories.get? repo = some r) : r.allowPrivatePackages = true := by
  have hvisibility : db.packageVisibility repo name
      = some ⟨p.visibility, p.visibilityDeclaredAt.isSome⟩ := by
    unfold packageVisibility
    rw [hin, Option.map_some]
  have hallowed : db.ensurePrivateAllowed repo = .ok () := by
    unfold admitPackage at h
    rw [hvisibility] at h
    cases hdeclared : p.visibilityDeclaredAt with
    | none =>
      rw [hdeclared] at h hprivate
      rw [show visibility = .private from hprivate] at h
      obtain ⟨⟨⟩, hallowed, -⟩ := Except.ok_of_bind h
      exact hallowed
    | some t =>
      rw [hdeclared] at h hprivate
      rw [show p.visibility = .private from hprivate] at h
      obtain ⟨⟨⟩, hallowed, -⟩ := Except.ok_of_bind h
      exact hallowed
  obtain ⟨r', hr', hallow⟩ := ensurePrivateAllowed_ok hallowed
  rw [hr] at hr'
  rwa [Option.some.inj hr']

end Catalog

namespace Catalog.KeepsShelves

theorem elsewhere {db db' : Catalog} (hpackages : db'.packages = db.packages)
    (hrepositories : db'.repositories = db.repositories) : db.KeepsShelves db' := by
  refine ⟨fun id p h => ⟨p, by rw [hpackages]; exact h, rfl, rfl, fun hadmits => ?_⟩, hrepositories⟩
  unfold Catalog.admits at hadmits ⊢
  rw [hrepositories]
  exact hadmits

theorem updatePackages {ε : Type} (q : Uuid → Package → Bool) {f : Package → Package}
    (hf : ∀ p : Package, (f p).repoId = p.repoId ∧ (f p).name = p.name ∧
      (f p).visibility = p.visibility) :
    Keeps KeepsShelves (updatePackages q f : Effect Catalog ε Unit) := by
  refine fun db => ⟨fun id p h => ?_, rfl⟩
  show ∃ p', (db.packages.update _).get? id = some p' ∧ _
  rw [Table.get?_update, h, Option.map_some]
  split_ifs
  · obtain ⟨hrepo, hname, hvisibility⟩ := hf p
    refine ⟨f p, rfl, hrepo, hname, fun hadmits => ?_⟩
    rw [Catalog.admits_iff] at hadmits ⊢
    rw [hvisibility]
    exact hadmits
  · exact ⟨p, rfl, rfl, rfl, fun hadmits => hadmits⟩

/-- A visibility is set only where the repository admits it. -/
theorem upsertPackage (newId repo : Uuid) (name kind : String) (source : Option Json)
    (visibility : Visibility) :
    Keeps KeepsShelves (upsertPackage newId repo name kind source visibility) := by
  intro db
  unfold Sconce.upsertPackage Sconce.insertPackage
  simp only [exec_bind, exec_get, exec_ofExcept, exec_adapt, exec_modify, exec_pure, andThen]
  cases haccept : db.admitPackage repo name visibility with
  | error e => exact refl_of KeepsShelves db
  | ok _ =>
    cases hid : db.packageId newId repo name with
    | error e => exact refl_of KeepsShelves db
    | ok id =>
      refine ⟨fun k p hp => ?_, rfl⟩
      show ∃ p', (db.packages.upsert id _ _).get? k = some p' ∧ _
      rw [Table.get?_upsert]
      split_ifs with hk
      · -- the stored package of the name
        rw [hk] at hp
        have hin := Catalog.packageIn_of_packageId hid hp
        obtain ⟨hrepo, -⟩ := Catalog.named_of_packageIn hin
        rw [hp]
        refine ⟨_, rfl, rfl, rfl, fun hadmits => ?_⟩
        obtain ⟨r, hr, -⟩ := (db.admits_iff _ p).1 hadmits
        refine (Catalog.admits_iff _ _ _).2 ⟨r, hr, fun hvisibility => ?_⟩
        rw [hrepo] at hr
        exact Catalog.allowed_of_admitPackage haccept hin hvisibility hr
      · exact ⟨p, hp, rfl, rfl, fun hadmits => hadmits⟩

/-- A visibility that is set keeps the shelves: what becomes private is admitted. -/
theorem setPackageVisibility (now : Timestamp) (repo : Uuid) (name : String)
    (visibility : Visibility) : Keeps KeepsShelves (setPackageVisibility now repo name visibility) := by
  intro db
  unfold Sconce.setPackageVisibility
  simp only [exec_bind, exec_get, exec_ofExcept, exec_pure, andThen]
  cases hallowed : (if visibility = .private then db.ensurePrivateAllowed repo else .ok ()) with
  | error e => exact refl_of KeepsShelves db
  | ok _ =>
    refine ⟨fun k p hp => ?_, rfl⟩
    show ∃ p', (db.packages.update _).get? k = some p' ∧ _
    rw [Table.get?_update, hp, Option.map_some]
    split_ifs with hnamed
    · refine ⟨_, rfl, rfl, rfl, fun hadmits => ?_⟩
      obtain ⟨r, hr, -⟩ := (db.admits_iff _ p).1 hadmits
      refine (Catalog.admits_iff _ _ _).2 ⟨r, hr, fun hvisibility => ?_⟩
      have hrepo : p.repoId = repo := (of_decide_eq_true hnamed).1
      rw [if_pos hvisibility] at hallowed
      obtain ⟨r', hr', hallow⟩ := Catalog.ensurePrivateAllowed_ok hallowed
      rw [hrepo, hr'] at hr
      rwa [← Option.some.inj hr]
    · exact ⟨p, rfl, rfl, rfl, fun hadmits => hadmits⟩

theorem insertVersionOnce (key : VersionKey) (row : PackageVersion) :
    Keeps KeepsShelves (insertVersionOnce key row) := by
  intro db
  rcases insertVersionOnce_cases key row db with
    ⟨existing, -, hrun⟩ | ⟨-, -, hrun⟩ | ⟨e, -, -, hrun⟩
  · rw [hrun]
    exact refl_of KeepsShelves db
  · rw [hrun]
    exact elsewhere rfl rfl
  · rw [hrun]
    exact refl_of KeepsShelves db

theorem upsertPackageVersion (key : VersionKey) (row : PackageVersion) :
    Keeps KeepsShelves (upsertPackageVersion key row) := by
  unfold Sconce.upsertPackageVersion
  refine keeps_bind keeps_get fun _ => keeps_bind (keeps_ofExcept _) fun _ => ?_
  exact fun _ => elsewhere rfl rfl

theorem declareVisibility (call : PublishCall) (existing : Option PackageVisibility)
    (visibility : Visibility) : Keeps KeepsShelves (declareVisibility call existing visibility) := by
  unfold Sconce.declareVisibility
  refine keeps_ite (fun _ => ?_) fun _ => keeps_pure _
  exact keeps_bind (keeps_adapt (setPackageVisibility _ _ _ _)) fun _ => keeps_pure _

theorem persist (env : External) (call : PublishCall) : Keeps KeepsShelves (persist env call) := by
  unfold Sconce.persist
  refine keeps_bind (keeps_ofExcept _) fun parsed => keeps_bind keeps_get fun db => ?_
  refine keeps_bind (keeps_ofExcept _) fun visibility => ?_
  refine keeps_bind (fun _ => elsewhere rfl rfl) fun _ => ?_
  refine keeps_bind (keeps_adapt (upsertPackage _ _ _ _ _ _)) fun id => ?_
  exact keeps_bind (declareVisibility _ _ _) fun _ => keeps_adapt (insertVersionOnce _ _)

theorem mirrorVersion (env : External) (sync : ComposerSync) (stored : String → Option StoredDist)
    (draw : Draw) (obj : Json) : Keeps KeepsShelves (sync.mirrorVersion env stored draw obj) := by
  unfold ComposerSync.mirrorVersion
  cases sync.list obj with
  | inl entry => exact keeps_pure _
  | inr v =>
    cases hstored : stored v.normalized with
    | some existing =>
      simp only [hstored]
      unfold ComposerSync.compare
      cases upstreamChange existing v.shasum v.reference with
      | some reason => exact keeps_pure _
      | none =>
        refine keeps_bind ?_ fun _ => keeps_pure _
        unfold ComposerSync.backfill
        cases existing.upstreamDistPath with
        | some path => exact keeps_pure _
        | none =>
          cases sync.distPath v with
          | none => exact keeps_pure _
          | some path => exact fun _ => elsewhere rfl rfl
    | none =>
      simp only [hstored]
      refine keeps_bind (keeps_ofExcept _) fun f => ?_
      unfold ComposerSync.store
      refine keeps_bind (fun _ => elsewhere rfl rfl) fun _ => ?_
      refine keeps_bind (keeps_adapt (upsertPackage _ _ _ _ _ _)) fun id => ?_
      refine keeps_bind (updatePackages _ fun _ => ⟨rfl, rfl, rfl⟩) fun _ => ?_
      exact keeps_bind (keeps_adapt (insertVersionOnce _ _)) fun _ => keeps_pure _

theorem mirrorPath (env : External) (sync : GitSync) (tag : String) (parsed : ParsedVersion)
    (sp : String) : Keeps KeepsShelves (sync.mirrorPath env tag parsed sp) := by
  unfold GitSync.mirrorPath
  refine keeps_bind (keeps_ofExcept _) fun got => ?_
  cases got with
  | inl entry => exact keeps_pure _
  | inr a =>
    show Keeps KeepsShelves (sync.store env tag parsed sp a)
    unfold GitSync.store
    refine keeps_bind (fun _ => elsewhere rfl rfl) fun _ => ?_
    refine keeps_bind (keeps_adapt (upsertPackage _ _ _ _ _ _)) fun id => ?_
    refine keeps_bind ?_ fun _ => ?_
    · unfold GitSync.bindUpstream
      cases sync.upstream with
      | none => exact keeps_pure _
      | some uid => exact updatePackages _ fun _ => ⟨rfl, rfl, rfl⟩
    refine keeps_bind (updatePackages _ fun _ => ⟨rfl, rfl, rfl⟩) fun _ => ?_
    exact keeps_bind (keeps_adapt (upsertPackageVersion _ _)) fun _ => keeps_pure _

/-- No step takes a package off its shelf. -/
theorem run (env : External) (db : Catalog) (op : VersionOp) : db.KeepsShelves (op.run env db) := by
  cases op with
  | publish call => exact persist env call db
  | composerVersion sync stored draw obj => exact mirrorVersion env sync stored draw obj db
  | gitPath sync tag sp =>
    cases hparsed : normalizeTag env tag with
    | some parsed =>
      rw [VersionOp.run_gitPath hparsed]
      exact mirrorPath env sync tag parsed sp db
    | none =>
      have hrun : (VersionOp.gitPath sync tag sp).run env db = db := by
        simp only [VersionOp.run, hparsed]
      rw [hrun]
      exact refl_of KeepsShelves db
  | markSynced now repo name =>
    have hmark : Keeps KeepsShelves (markPackageSynced (ε := Empty) now repo name) :=
      updatePackages _ fun _ => ⟨rfl, rfl, rfl⟩
    exact hmark db
  | markBroken now repo name reason =>
    have hmark : Keeps KeepsShelves (markPackageBroken (ε := Empty) now repo name reason) :=
      updatePackages _ fun _ => ⟨rfl, rfl, rfl⟩
    exact hmark db
  | approveVersion now repo package normalized => exact elsewhere rfl rfl
  | approveAllPending now repo package => exact elsewhere rfl rfl
  | holdVersion now repo package normalized => exact elsewhere rfl rfl
  | unholdVersion repo package normalized => exact elsewhere rfl rfl
  | yankVersion now repo package normalized => exact elsewhere rfl rfl
  | unyankVersion repo package normalized => exact elsewhere rfl rfl

end Catalog.KeepsShelves

/-! ## Versions that are not yanked -/

namespace VersionOp

/-- The step yanks the version under `key`. -/
def Yanks (db : Catalog) (key : VersionKey) (op : VersionOp) : Prop :=
  ∃ now repo package, op = .yankVersion now repo package key.normalizedVersion ∧
    db.inPackage repo package key.packageId = true

variable {env : External} {db : Catalog} {key : VersionKey} {op : VersionOp}

/-- A version is yanked by a decision on it only. -/
theorem yankedAt_run {old new : PackageVersion} (hold : db.packageVersions.get? key = some old)
    (hyanked : old.yankedAt = none) (hspared : ¬ op.Yanks db key)
    (hnew : (op.run env db).packageVersions.get? key = some new) : new.yankedAt = none := by
  have hkept : db.packageVersions.get? key = some new → new.yankedAt = none := by
    intro hnew
    rw [hold] at hnew
    rwa [← Option.some.inj hnew]
  have hinserted : ∀ {k row}, (op.run env db).packageVersions = db.packageVersions.insertNew k row →
      new.yankedAt = none := by
    intro k row hrun
    rw [hrun, Table.get?_insertNew_of_some hold] at hnew
    rwa [← Option.some.inj hnew]
  have hupdated : ∀ f, (op.run env db).packageVersions = db.packageVersions.update f →
      (f key old).yankedAt = none → new.yankedAt = none := by
    intro f hrun hf
    rw [hrun, Table.get?_update, hold, Option.map_some] at hnew
    rwa [← Option.some.inj hnew]
  have hdecided : ∀ column value repo package normalized,
      op.run env db = db.after (ε := Empty) (setVersionTimestamp column value repo package normalized) →
      (column = .yankedAt → db.inPackage repo package key.packageId = true ∧
        key.normalizedVersion = normalized → value = none) → new.yankedAt = none := by
    intro column value repo package normalized hrun hvalue
    have hversions : (op.run env db).packageVersions = db.packageVersions.update fun k pv =>
        if db.inPackage repo package k.packageId ∧ k.normalizedVersion = normalized then
          pv.setTimestamp column value else pv := by
      rw [hrun]
      rfl
    refine hupdated _ hversions ?_
    split_ifs with hselected
    · cases column with
      | heldAt => exact hyanked
      | yankedAt => exact hvalue rfl hselected
      | approvedAt => exact hyanked
    · exact hyanked
  cases op with
  | publish call =>
    have hrun : ((publish call).run env db).packageVersions = _ := packageVersions_persist env db call
    cases hstores : call.stores env db with
    | none =>
      rw [hrun, hstores] at hnew
      exact hkept hnew
    | some stored =>
      rw [hstores] at hrun
      exact hinserted hrun
  | composerVersion sync stored draw obj =>
    have hrun := sync.packageVersions_mirrorVersion env db stored draw obj
    cases hstores : sync.stores env db stored draw obj with
    | none =>
      -- at most a path is recorded
      rw [hstores] at hrun
      have hpath := hrun key
      rw [hold, show (db.after (sync.mirrorVersion env stored draw obj)).packageVersions.get? key
        = some new from hnew] at hpath
      have hrow := Option.some.inj hpath
      exact (congrArg PackageVersion.yankedAt hrow).trans hyanked
    | some stored =>
      rw [hstores] at hrun
      exact hinserted hrun
  | gitPath sync tag sp =>
    cases hparsed : normalizeTag env tag with
    | none =>
      simp only [run, hparsed] at hnew
      exact hkept hnew
    | some parsed =>
      rw [run_gitPath hparsed, sync.packageVersions_mirrorPath env db hparsed] at hnew
      cases hstores : sync.stores env db tag sp with
      | none =>
        rw [hstores] at hnew
        exact hkept hnew
      | some stored =>
        -- overwriting leaves the operator's decisions
        rw [hstores] at hnew
        change (db.packageVersions.upsert stored.1 stored.2 stored.2.overwritten).get? key = _ at hnew
        rw [Table.get?_upsert] at hnew
        split_ifs at hnew with hk
        · rw [← hk, hold] at hnew
          rw [← Option.some.inj hnew]
          exact hyanked
        · exact hkept hnew
  | markSynced now repo name => exact hkept hnew
  | markBroken now repo name reason => exact hkept hnew
  | approveVersion now repo package normalized =>
    exact hdecided .approvedAt (some now) repo package normalized rfl fun h => by cases h
  | approveAllPending now repo package =>
    have hrun : ((approveAllPending now repo package).run env db).packageVersions =
        db.packageVersions.update fun k pv =>
          if db.pendingIn repo package k pv then pv.setTimestamp .approvedAt (some now) else pv := rfl
    refine hupdated _ hrun ?_
    split_ifs
    · exact hyanked
    · exact hyanked
  | holdVersion now repo package normalized =>
    exact hdecided .heldAt (some now) repo package normalized rfl fun h => by cases h
  | unholdVersion repo package normalized =>
    exact hdecided .heldAt none repo package normalized rfl fun h => by cases h
  | yankVersion now repo package normalized =>
    refine hdecided .yankedAt (some now) repo package normalized rfl fun _ hselected => ?_
    obtain ⟨hin, rfl⟩ := hselected
    exact absurd ⟨now, repo, package, rfl, hin⟩ hspared
  | unyankVersion repo package normalized =>
    exact hdecided .yankedAt none repo package normalized rfl fun _ _ => rfl

end VersionOp

/-! ## A publish -/

/-- Package `id` stands in its repository under its name, and the repository admits it. -/
def Catalog.Shelved (db : Catalog) (repo : Uuid) (name : String) (id : Uuid) : Prop :=
  ∃ p, db.packages.get? id = some p ∧ p.repoId = repo ∧ p.name = name ∧ db.admits repo p = true

theorem Catalog.KeepsShelves.shelved {db db' : Catalog} (h : db.KeepsShelves db') {repo id : Uuid}
    {name : String} (hshelved : db.Shelved repo name id) : db'.Shelved repo name id := by
  obtain ⟨p, hp, rfl, rfl, hadmits⟩ := hshelved
  obtain ⟨p', hp', hrepo, hname, hadmits'⟩ := h.packages id p hp
  exact ⟨p', hp', hrepo, hname, hadmits' hadmits⟩

/-- A package that is upserted is shelved. -/
theorem shelved_upsertPackage (db : Catalog) {newId repo id : Uuid} {name kind : String}
    {source : Option Json} {visibility : Visibility} {r : Repository}
    (hr : db.repositories.get? repo = some r)
    (h : (exec (upsertPackage newId repo name kind source visibility) db).1 = .ok id) :
    (exec (upsertPackage newId repo name kind source visibility) db).2.Shelved repo name id := by
  revert h
  unfold upsertPackage insertPackage
  simp only [exec_bind, exec_get, exec_ofExcept, exec_adapt, exec_modify, exec_pure, andThen]
  cases haccept : db.admitPackage repo name visibility with
  | error e => exact fun h => by cases h
  | ok _ =>
    cases hid : db.packageId newId repo name with
    | error e => exact fun h => by cases h
    | ok id' =>
      intro h
      obtain rfl := Except.ok.inj h
      show ∃ p, (db.packages.upsert id' _ _).get? id' = some p ∧ _
      rw [Table.get?_upsert, if_pos rfl]
      cases hstored : db.packages.get? id' with
      | some p =>
        have hin := Catalog.packageIn_of_packageId hid hstored
        obtain ⟨hrepo, hname⟩ := Catalog.named_of_packageIn hin
        refine ⟨_, rfl, hrepo, hname, (Catalog.admits_iff _ _ _).2 ⟨r, hr, fun hvisibility => ?_⟩⟩
        exact Catalog.allowed_of_admitPackage haccept hin hvisibility hr
      | none =>
        refine ⟨_, rfl, rfl, rfl, (Catalog.admits_iff _ _ _).2 ⟨r, hr, fun hvisibility => ?_⟩⟩
        rw [show visibility = .private from hvisibility] at haccept
        obtain ⟨r', hr', hallow⟩ := Catalog.ensurePrivateAllowed_ok
          (db.ensurePrivateAllowed_of_admitPackage haccept (Catalog.new_of_packageId hid hstored))
        rw [hr] at hr'
        rwa [Option.some.inj hr']

/-- A publish that creates a version stores its row, under a package that is shelved. -/
theorem stored_of_created {env : External} {call : PublishCall} {db : Catalog} {r : Repository}
    (hr : db.repositories.get? call.repo = some r)
    (h : (exec (persist env call) db).1 = .ok .created) :
    ∃ key : VersionKey, ∃ stability,
      (db.after (persist env call)).packageVersions.get? key = some (call.versionRow stability) ∧
      (db.after (persist env call)).Shelved call.repo call.pkgName key.packageId := by
  revert h
  unfold Catalog.after persist
  cases hnormal : normalizeVersion env call.version with
  | none => exact fun h => by cases h
  | some parsed =>
    obtain ⟨normalized, stability⟩ := parsed
    simp only [exec_bind, exec_get, exec_ofExcept, exec_upsertBlob, exec_adapt, Option.elim, andThen]
    cases hvisibility : db.publishVisibility call with
    | error e => exact fun h => by cases h
    | ok visibility =>
      dsimp only
      generalize hpackage : exec (upsertPackage call.draw.newId call.repo call.pkgName "upload"
        (some (.object [("kind", .string "upload")])) visibility) (db.withBlob call.draw.now
          call.prepared.blob call.prepared.size) = upserted
      obtain ⟨answer, db₁⟩ := upserted
      cases answer with
      | error e => exact fun h => by cases h
      | ok id =>
        -- the package is on the shelf before the version is written
        have hshelved := shelved_upsertPackage (db.withBlob call.draw.now call.prepared.blob
          call.prepared.size) hr (congrArg Prod.fst hpackage)
        rw [hpackage] at hshelved
        have hdeclared := Catalog.KeepsShelves.declareVisibility call
          (db.packageVisibility call.repo call.pkgName) visibility db₁
        dsimp only [Except.mapError]
        generalize exec (declareVisibility call (db.packageVisibility call.repo call.pkgName)
          visibility) db₁ = declared at hdeclared ⊢
        obtain ⟨answer, db₂⟩ := declared
        cases answer with
        | error e => exact fun h => by cases h
        | ok _ =>
          -- of the answers only `created` comes from an insert
          have hkept := Catalog.KeepsShelves.insertVersionOnce ⟨id, normalized⟩
            (call.versionRow stability) db₂
          dsimp only
          rcases insertVersionOnce_cases ⟨id, normalized⟩ (call.versionRow stability) db₂ with
            ⟨existing, -, hrun⟩ | ⟨hnew, -, hrun⟩ | ⟨e, -, -, hrun⟩
          · rw [hrun]
            intro h
            split_ifs at h
            · cases h
            · cases h
          · rw [hrun] at hkept ⊢
            refine fun _ => ⟨⟨id, normalized⟩, stability, ?_,
              hkept.shelved (hdeclared.shelved hshelved)⟩
            show (db₂.packageVersions.insertNew _ _).get? _ = _
            rw [Table.get?_insertNew, if_pos rfl, hnew, Option.getD_none]
          · rw [hrun]
            exact fun h => by cases h

/-! ## The registry -/

/-- The catalog and the objects. -/
structure Registry where
  db : Catalog
  objects : ObjectStore

/-- What happens to a registry: a step on its versions, a put of any upload or sync, and the
collector's deletion of one candidate. -/
inductive RegistryEvent where
  | version (op : VersionOp)
  | put (bytes : List UInt8)
  | collect (now grace : ℤ) (id : Sha256)

/-- `gc` on one candidate: the row, and then the object. -/
def Registry.collect (s : Registry) (now grace : ℤ) (id : Sha256) : Registry where
  db := (exec (deleteBlobIfOrphan now grace id) s.db).2
  objects :=
    if (exec (deleteBlobIfOrphan now grace id) s.db).1 = .ok true then s.objects.remove id
    else s.objects

/-- The registry after an event. -/
def Registry.apply (sha256 : List UInt8 → Sha256) (env : External) (s : Registry) :
    RegistryEvent → Registry
  | .version op => { s with db := op.run env s.db }
  | .put bytes => { s with objects := s.objects.put (sha256 bytes) bytes }
  | .collect now grace id => s.collect now grace id

/-- The event neither yanks the version under `key` nor overwrites it with another dist than that
of `row`. -/
def RegistryEvent.Spares (env : External) (key : VersionKey) (row : PackageVersion)
    (x : Registry × RegistryEvent) : Prop :=
  ∀ op, x.2 = .version op → ¬ op.Yanks x.1.db key ∧ VersionOp.Harmless env key row (x.1.db, op)

/-- The version under `key` is stored with the dist of `row`, not yanked, under a package on its
shelf, and its bytes are held. -/
structure Registry.Offers (s : Registry) (call : PublishCall) (key : VersionKey)
    (row : PackageVersion) (zip : List UInt8) : Prop where
  version : ∃ pv, s.db.packageVersions.get? key = some pv ∧ pv.dist = row.dist ∧ pv.yankedAt = none
  package : s.db.Shelved call.repo call.pkgName key.packageId
  object : s.objects.get? call.prepared.blob = some zip

section Steps

variable {sha256 : List UInt8 → Sha256} {env : External} {s : Registry} {call : PublishCall}
  {key : VersionKey} {row : PackageVersion} {zip : List UInt8}

/-- A deletion takes nothing that is referenced. -/
theorem Registry.Offers.collect (h : s.Offers call key row zip)
    (hrow : row.distBlobSha256 = some call.prepared.blob) (now grace : ℤ) (id : Sha256) :
    (s.collect now grace id).Offers call key row zip := by
  unfold Registry.collect
  rcases deleteBlobIfOrphan_cases now grace id s.db with ⟨hrun, hnot⟩ | ⟨answer, hrun, hanswer⟩
  · rw [hrun, if_pos rfl]
    refine ⟨h.version, h.package, ?_⟩
    have hne : call.prepared.blob ≠ id := by
      rintro rfl
      obtain ⟨pv, hpv, hdist, -⟩ := h.version
      exact hnot (.inl ⟨key, pv, hpv, (Prod.mk.inj hdist).1.trans hrow⟩)
    show (s.objects.delete _).get? _ = _
    rw [Table.get?_delete, h.object]
    simp [hne]
  · rw [hrun, if_neg hanswer]
    exact h

/-- What is offered is offered after every event that spares it. -/
theorem Registry.Offers.apply (h : s.Offers call key row zip)
    (hrow : row.distBlobSha256 = some call.prepared.blob) {e : RegistryEvent}
    (hspares : RegistryEvent.Spares env key row (s, e)) :
    (s.apply sha256 env e).Offers call key row zip := by
  cases e with
  | version op =>
    obtain ⟨hyanks, hharmless⟩ := hspares op rfl
    obtain ⟨pv, hpv, hdist, hyanked⟩ := h.version
    obtain ⟨pv', hpv', hdist'⟩ := (VersionOp.serves_run_iff op ⟨pv, hpv, hdist⟩).2 hharmless
    have hyanked' := VersionOp.yankedAt_run hpv hyanked hyanks hpv'
    exact ⟨⟨pv', hpv', hdist', hyanked'⟩, (Catalog.KeepsShelves.run env s.db op).shelved h.package,
      h.object⟩
  | put bytes => exact ⟨h.version, h.package, Table.get?_insertNew_of_some h.object _ _⟩
  | collect now grace id => exact h.collect hrow now grace id

end Steps

/-! ## What a reader finds -/

section Readers

variable {read : ReadEnv} {s : Registry} {call : PublishCall} {key : VersionKey}
  {row : PackageVersion} {zip : List UInt8} {view : Uuid} {p : Package} {access : Access}

/-- The repository that was published to serves the package it has on its shelf. -/
theorem Catalog.Shelved.servedScope {db : Catalog} {repo id : Uuid} {name : String}
    (h : db.Shelved repo name id) :
    ∃ p, db.packages.get? id = some p ∧ db.servedScope repo id p = true := by
  obtain ⟨p, hp, rfl, -, hadmits⟩ := h
  refine ⟨p, hp, ?_⟩
  unfold Catalog.servedScope Catalog.reaches
  rw [hadmits, beq_self_eq_true]
  rfl

end Readers

/-- A reader of `view` finds the version under `key`: its bytes, whatever its policy, and its row
in the document exactly where the policies and the bound let it through.  The document is answered
where its query can tell that of every version of the name; else the database refuses it. -/
structure Registry.Finds (read : ReadEnv) (s : Registry) (call : PublishCall) (key : VersionKey)
    (zip : List UInt8) (view : Uuid) (now : Timestamp) (base : String)
    (authorization : Authorization) (access : Access) (policy : PolicyOverride) : Prop where
  download : serveRoute read s.objects s.db now view base authorization
      (.dist (distPath call.pkgName call.prepared.blob))
    = .ok (.blob call.prepared.blob (deliver read call.prepared.blob zip))
  document : ∀ rows, serveRoute read s.objects s.db now view base authorization
      (.p2 (call.pkgName ++ ".json")) = .ok (.package call.pkgName rows base) →
    ∀ r, s.db.repositories.get? view = some r →
      ((∃ q ∈ rows, q.key = key) ↔ ∃ pv, s.db.packageVersions.get? key = some pv ∧
        policyGate read.session now (s.db.servedPolicy view r policy call.pkgName).1
          (s.db.servedPolicy view r policy call.pkgName).2 pv = true ∧
        PassesClause read.session (access.boundFor call.pkgName) key pv) ∧
      ∀ q ∈ rows, q.key = key →
        q.version.dist = (some call.prepared.blob, some call.prepared.distShasum)
  answered : ∀ r, s.db.repositories.get? view = some r →
    ((∃ rows, serveRoute read s.objects s.db now view base authorization
        (.p2 (call.pkgName ++ ".json")) = .ok (.package call.pkgName rows base)) ↔
      ∀ v, s.db.Stored v → v.package.name = call.pkgName →
        s.db.servedScope view v.key.packageId v.package = true →
        v.Answers read.session now (s.db.servedPolicy view r policy call.pkgName).1
          (s.db.servedPolicy view r policy call.pkgName).2
          (access.boundFor call.pkgName).untilUnix (access.boundFor call.pkgName).major)
  refused : (∀ rows, serveRoute read s.objects s.db now view base authorization
      (.p2 (call.pkgName ++ ".json")) ≠ .ok (.package call.pkgName rows base)) →
    serveRoute read s.objects s.db now view base authorization (.p2 (call.pkgName ++ ".json"))
      = .error (.catalog .castError) ∨
    serveRoute read s.objects s.db now view base authorization (.p2 (call.pkgName ++ ".json"))
      = .error (.catalog .datetimeOverflow)

/-- The versions of a document are those of the query. -/
theorem visibleVersions_of_served {name base : String}
    {versions : Except SqlError (List Catalog.VersionRow)} {rows : List Catalog.VersionRow}
    (h : (versions.mapError AppError.catalog).map (fun rows => ReadAnswer.package name rows base)
      = .ok (.package name rows base)) : versions = .ok rows := by
  cases versions with
  | error e => cases h
  | ok rows' =>
    cases h
    rfl

/-- What is offered is found, as soon as the reader's scope has it. -/
theorem Registry.Offers.finds {read : ReadEnv} {s : Registry} {call : PublishCall}
    {key : VersionKey} {stability : String} {zip : List UInt8}
    (h : s.Offers call key (call.versionRow stability) zip)
    (hname : splitDev call.pkgName = (call.pkgName, false)) {view : Uuid} {p : Package}
    (hp : s.db.packages.get? key.packageId = some p)
    (hscope : s.db.servedScope view key.packageId p = true) {now : Timestamp} {base : String}
    {authorization : Authorization} {access : Access} {policy : PolicyOverride}
    (hauth : authorize read s.db now view authorization = .ok (access, policy))
    (hallows : access.allows s.db view call.pkgName = true) :
    s.Finds read call key zip view now base authorization access policy := by
  obtain ⟨pv, hpv, hdist, hyanked⟩ := h.version
  obtain ⟨p', hp', hrepo, hpname, -⟩ := h.package
  rw [hp] at hp'
  obtain rfl := Option.some.inj hp'
  obtain ⟨hblob, hshasum⟩ := Prod.mk.inj hdist
  have hstored : s.db.Stored ⟨p, key, pv⟩ := ⟨hp, hpv⟩
  -- for such a reader the route is the query
  have hdocument : ∀ r, s.db.repositories.get? view = some r →
      serveRoute read s.objects s.db now view base authorization (.p2 (call.pkgName ++ ".json")) =
        ((s.db.visibleVersions view read.session read.compareNormalized now call.pkgName
          (s.db.servedPolicy view r policy call.pkgName).1
          (s.db.servedPolicy view r policy call.pkgName).2
          (access.boundFor call.pkgName).untilUnix (access.boundFor call.pkgName).major).mapError
            .catalog).map fun rows => .package call.pkgName rows base := by
    intro r hr
    rw [← serveP2_of_allows hname hallows hr]
    show (authorize read s.db now view authorization >>= _) = _
    rw [hauth]
    rfl
  -- a repository that serves the package is there
  obtain ⟨r₀, hr₀, -⟩ := (s.db.admits_iff view p).1 (Bool.and_eq_true_iff.1 hscope).2
  refine ⟨?_, fun rows hrows r hr => ?_, fun r hr => ?_, fun hrefused => ?_⟩
  · have hserves : s.db.repoServesDist view call.pkgName call.prepared.blob = true :=
      (s.db.repoServesDist_iff view _ _).2 ⟨_, hstored, hpname, hblob, hscope, hyanked⟩
    show (authorize read s.db now view authorization >>= _) = _
    rw [hauth]
    exact serveDist_distPath hallows hserves h.object
  · rw [hdocument r hr] at hrows
    have hvisible := visibleVersions_of_served hrows
    have hmem := s.db.mem_visibleVersions view hvisible
    refine ⟨⟨?_, ?_⟩, ?_⟩
    · rintro ⟨q, hq, rfl⟩
      obtain ⟨hq, -, -, hgate, hpasses⟩ := (hmem q).1 hq
      exact ⟨q.version, hq.2, hgate, hpasses⟩
    · rintro ⟨pv', hpv', hgate, hpasses⟩
      exact ⟨⟨p, key, pv'⟩, (hmem _).2 ⟨⟨hp, hpv'⟩, hpname, hscope, hgate, hpasses⟩, rfl⟩
    · rintro q hq rfl
      have hversion := ((hmem q).1 hq).1.2
      rw [hpv] at hversion
      rw [← Option.some.inj hversion]
      exact hdist
  · rw [hdocument r hr, ← s.db.visibleVersions_ok_iff view read.session read.compareNormalized]
    constructor
    · rintro ⟨rows, hrows⟩
      exact ⟨rows, visibleVersions_of_served hrows⟩
    · rintro ⟨rows, hrows⟩
      exact ⟨rows, congrArg (fun versions => (Except.mapError AppError.catalog versions).map _) hrows⟩
  · rw [hdocument r₀ hr₀] at hrefused ⊢
    cases hversions : s.db.visibleVersions view read.session read.compareNormalized now call.pkgName
        (s.db.servedPolicy view r₀ policy call.pkgName).1
        (s.db.servedPolicy view r₀ policy call.pkgName).2
        (access.boundFor call.pkgName).untilUnix (access.boundFor call.pkgName).major with
    | ok rows =>
      rw [hversions] at hrefused
      exact absurd rfl (hrefused rows)
    | error e =>
      rcases s.db.visibleVersions_error view hversions with rfl | rfl
      · exact .inl rfl
      · exact .inr rfl

namespace Acme

/-- A reader with a token, whose text is hashed to the digest the catalog stores. -/
def reader : ReadEnv where
  baseUrl := "https://host"
  scheme := "https"
  session := Session.utc
  tokenHash := fun text => if text = "key" then taggedDigest else pushedDigest
  decodeBasic := fun _ => none
  compareNormalized := compare
  toLowercase := String.toLower
  jsonText := fun _ => ""
  versionId := fun key => key.packageId
  presign := none

/-- The dist of the push is put. -/
def uploaded : Registry where
  db := { opened with tokens := .single 1 ⟨taggedDigest, .repo 1, none, none, ⟨none, none⟩, .manual⟩ }
  objects := Table.empty.insertNew pushedDigest [1]

/-- Another upload, an approval and a collection come after the push. -/
def afterwards : List RegistryEvent :=
  [.put [2], .version (.approveAllPending 1 1 none), .collect 9 0 pushedDigest]

def sha256 (bytes : List UInt8) : Sha256 := if bytes = [1] then pushedDigest else taggedDigest

end Acme

end Sconce
