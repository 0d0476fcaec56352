/-
# Composer mirroring converges

A sync of a package, one statement of the catalog at a time, so that a crash can stop it
between any two of them.  Against an upstream that always answers the same, every row it
has stored is the row the upstream's document calls for, wherever it stopped; a sync that
completes has stored them all.  The rows are then those of one uninterrupted sync, and a
later sync compares and stores nothing.
-/
import Sconce.Versions.Writers
import Sconce.Lib.Script

namespace Sconce

open Effect Script

/-! ## The statements of a sync -/

namespace ComposerSync

variable (sync : ComposerSync)

/-- `store`, statement by statement. -/
def storeStatements (draw : Draw) (v : Listed) (f : Fetched) :
    Script Catalog MirrorError Entry := do
  atomic (upsertBlob draw.now f.blob (sizeOf f.bytes))
  let packageId ← atomic (ExceptT.adapt .catalog
    (upsertPackage draw.newId sync.upstream.repoId sync.package "composer"
      (some (.object [("url", .string sync.upstream.trimmedBase)])) sync.upstream.visibility))
  atomic (setPackageUpstream packageId sync.upstream.id)
  let outcome ← atomic (ExceptT.adapt (.catalog ∘ .db)
    (insertVersionOnce ⟨packageId, v.normalized⟩ (sync.versionRow v f)))
  return match outcome with
    | .created =>
      .mirrored ⟨v.version, sync.package, v.normalized, composerStability v.version⟩
    | .alreadyPublished => .unchanged
    | .conflict => .conflict (sync.package ++ " " ++ v.version)
        "dist bytes differ from the stored version"

/-- `compare`: at most one statement, the backfill. -/
def compareStatements (v : Listed) (existing : StoredDist) : Script Catalog MirrorError Entry :=
  match upstreamChange existing v.shasum v.reference with
  | some reason => return .conflict (sync.package ++ " " ++ v.version) reason
  | none => do
    atomic (sync.backfill v existing)
    return .unchanged

/-- `mirrorVersion`, statement by statement. -/
def mirrorVersionStatements (env : External) (stored : String → Option StoredDist) (draw : Draw)
    (obj : Json) : Script Catalog MirrorError Entry :=
  match sync.list obj with
  | .inl entry => return entry
  | .inr v =>
    match stored v.normalized with
    | some existing => sync.compareStatements v existing
    | none => do
      let f ← ret (sync.fetch env v)
      sync.storeStatements draw v f

/-- `mirror_one_composer_package_inner`, statement by statement. -/
def mirrorInnerStatements (env : External) : Script Catalog MirrorError Report := do
  let versions ← ret sync.metadata
  let db ← atomic get
  versions.foldlM (fun report v => do
    return report.push (← sync.mirrorVersionStatements env
      (db.storedDists sync.upstream.repoId sync.package) v.1 v.2)) .default

/-- `mirror_one_composer_package`, statement by statement. -/
def mirrorStatements (env : External) : Script Catalog MirrorError Report := do
  let result ← attempt (sync.mirrorInnerStatements env)
  atomic (sync.recordLifecycle result)
  ret result

/-- What the statements do alone, the sync does. -/
abbrev AsEffect {α : Type} (m : Script Catalog MirrorError α) (e : Effect Catalog MirrorError α) :
    Prop :=
  Refines id (fun _ => True) m e

theorem atomic_asEffect {α : Type} (e : Effect Catalog MirrorError α) : AsEffect (atomic e) e :=
  fun _ _ => ⟨rfl, rfl, trivial⟩

theorem pure_asEffect {α : Type} (a : α) : AsEffect (pure a) (pure a) :=
  fun _ _ => ⟨rfl, rfl, trivial⟩

/-- Storing a version, alone, is one effect. -/
theorem storeStatements_asEffect (draw : Draw) (v : Listed) (f : Fetched) :
    AsEffect (sync.storeStatements draw v f) (sync.store draw v f) := by
  unfold storeStatements store
  refine refines_bind (atomic_asEffect _) fun _ => ?_
  refine refines_bind (atomic_asEffect _) fun id => ?_
  refine refines_bind (atomic_asEffect _) fun _ => ?_
  exact refines_bind (atomic_asEffect _) fun outcome => pure_asEffect _

/-- Mirroring a version, alone, is one effect. -/
theorem mirrorVersionStatements_asEffect (env : External) (stored : String → Option StoredDist)
    (draw : Draw) (obj : Json) :
    AsEffect (sync.mirrorVersionStatements env stored draw obj)
      (sync.mirrorVersion env stored draw obj) := by
  unfold mirrorVersionStatements mirrorVersion
  cases sync.list obj with
  | inl entry => exact pure_asEffect entry
  | inr v =>
    cases hstored : stored v.normalized with
    | some existing =>
      simp only [hstored]
      unfold compareStatements compare
      cases upstreamChange existing v.shasum v.reference with
      | some reason => exact pure_asEffect _
      | none => exact refines_bind (atomic_asEffect _) fun _ => pure_asEffect _
    | none =>
      simp only [hstored]
      exact refines_bind (refines_ret _) fun f => sync.storeStatements_asEffect draw v f

theorem mirrorInnerStatements_asEffect (env : External) :
    AsEffect (sync.mirrorInnerStatements env) (sync.mirrorPackageInner env) := by
  unfold mirrorInnerStatements mirrorPackageInner
  refine refines_bind (refines_ret _) fun versions => ?_
  refine refines_bind (atomic_asEffect _) fun db => ?_
  refine refines_foldlM (fun report v => ?_) versions Report.default
  exact refines_bind (sync.mirrorVersionStatements_asEffect env _ v.1 v.2) fun _ => pure_asEffect _

/-- A sync that is not interrupted. -/
theorem runAlone_mirrorStatements (env : External) (db : Catalog) :
    runAlone (sync.mirrorStatements env) db = exec (sync.mirrorPackage env) db := by
  obtain ⟨hanswer, hdb, -⟩ := sync.mirrorInnerStatements_asEffect env db trivial
  unfold mirrorStatements mirrorPackage
  rw [runAlone_bind, runAlone_attempt, exec_bind, exec_outcome, hanswer]
  simp only [id] at hdb
  simp only [andThen, hdb, runAlone_bind, exec_bind, runAlone_atomic, exec_ofExcept]
  rfl

end ComposerSync

/-! ## Rows by name -/

namespace Catalog

variable (db : Catalog)

/-- The row of a version, found by the names of its repository and package. -/
def versionOf (repo : Uuid) (name normalized : String) : Option PackageVersion :=
  ((db.packageIn repo name).map Prod.fst).bind fun id => db.packageVersions.get? ⟨id, normalized⟩

/-- The foreign key from a version to its package. -/
def VersionsOwned : Prop :=
  ∀ key, (db.packageVersions.get? key).isSome → (db.packages.get? key.packageId).isSome

/-- The package of a name has the id. -/
def HasId (repo : Uuid) (name : String) (id : Uuid) : Prop :=
  (db.packageIn repo name).map Prod.fst = some id

/-- The versions have the rows they had. -/
structure SameRows (db' : Catalog) : Prop where
  rows : ∀ repo name normalized, db'.versionOf repo name normalized = db.versionOf repo name normalized
  owned : db.VersionsOwned → db'.VersionsOwned

/-- What a pass compares with is the stored version of that normalized name. -/
theorem storedDists_eq (repo : Uuid) (name normalized : String) :
    db.storedDists repo name normalized = (db.versionOf repo name normalized).map fun pv =>
      ⟨pv.distShasum, pv.sourceReference, pv.upstreamDistPath⟩ := by
  unfold storedDists versionOf
  cases db.packageIn repo name <;> rfl

variable {db}

/-- The id of a name is that of a stored package. -/
theorem HasId.package {repo id : Uuid} {name : String} (h : db.HasId repo name id) :
    ∃ p, db.packages.get? id = some p ∧ p.repoId = repo ∧ p.name = name := by
  obtain ⟨⟨id', p⟩, hfound, rfl⟩ := Option.map_eq_some_iff.1 h
  obtain ⟨hrepo, hname⟩ : p.repoId = repo ∧ p.name = name :=
    of_decide_eq_true (List.find?_some hfound :)
  exact ⟨p, (Table.mem_rows_iff _ _ _).1 (List.mem_of_find?_eq_some hfound), hrepo, hname⟩

/-- Two packages have two ids. -/
theorem HasId.names_eq {repo repo' id : Uuid} {name name' : String} (h : db.HasId repo name id)
    (h' : db.HasId repo' name' id) : repo' = repo ∧ name' = name := by
  obtain ⟨p, hp, rfl, rfl⟩ := h.package
  obtain ⟨p', hp', rfl, rfl⟩ := h'.package
  obtain rfl := Option.some.inj (hp.symm.trans hp')
  exact ⟨rfl, rfl⟩

namespace SameRows

theorem refl (db : Catalog) : db.SameRows db := ⟨fun _ _ _ => rfl, id⟩

/-- A statement on other tables. -/
theorem of_eq {db' : Catalog} (hpackages : db'.packages = db.packages)
    (hversions : db'.packageVersions = db.packageVersions) : db.SameRows db' := by
  refine ⟨fun repo name normalized => ?_, fun howned => ?_⟩
  · unfold versionOf packageIn
    rw [hpackages, hversions]
  · unfold VersionsOwned
    rwa [hpackages, hversions]

/-- An update of packages that keeps their names. -/
theorem updatePackages {ε : Type} (p : Uuid → Package → Bool) {f : Package → Package}
    (hf : ∀ r, (f r).repoId = r.repoId ∧ (f r).name = r.name) :
    db.SameRows (exec (updatePackages p f : Effect Catalog ε Unit) db).2 ∧
      ∀ repo name id, db.HasId repo name id →
        HasId (exec (Sconce.updatePackages p f : Effect Catalog ε Unit) db).2 repo name id := by
  have hboth : ∀ id r, (if p id r then f r else r).repoId = r.repoId ∧
      (if p id r then f r else r).name = r.name := by
    intro id r
    split_ifs
    · exact hf r
    · exact ⟨rfl, rfl⟩
  have hids := db.packageIn_update hboth
  refine ⟨⟨fun repo name normalized => ?_, fun howned key hkey => ?_⟩, fun repo name id h => ?_⟩
  · exact congrArg (Option.bind · _) (hids repo name)
  · show ((db.packages.update _).get? key.packageId).isSome
    rw [Table.get?_update, Option.isSome_map]
    exact howned key hkey
  · exact (hids repo name).trans h

/-- A new package has no versions. -/
theorem upsertPackage (howned : db.VersionsOwned) (newId repo : Uuid) (name kind : String)
    (source : Option Json) (visibility : Visibility) :
    db.SameRows (exec (upsertPackage newId repo name kind source visibility) db).2 ∧
      ∀ id, (exec (Sconce.upsertPackage newId repo name kind source visibility) db).1 = .ok id →
        HasId (exec (Sconce.upsertPackage newId repo name kind source visibility) db).2
          repo name id := by
  unfold Sconce.upsertPackage
  simp only [exec_bind, exec_get, exec_ofExcept, exec_adapt, andThen]
  cases db.admitPackage repo name visibility with
  | error e => exact ⟨refl db, fun _ h => by cases h⟩
  | ok _ =>
    simp only
    rcases insertPackage_cases db newId repo name kind source visibility with
      ⟨id, packages, hrun, hpackages, hstored, hids⟩ | ⟨e, hrun⟩
    · rw [hrun]
      refine ⟨⟨fun repo' name' normalized => ?_, fun howned key hkey => ?_⟩, fun id' hid => ?_⟩
      · show Option.bind (Option.map Prod.fst (packageIn { db with packages } repo' name')) _ = _
        rw [hids]
        split_ifs with hsame
        · rw [hsame.1, hsame.2]
          rcases hstored with hstored | ⟨hnone, hfree⟩
          · unfold versionOf
            rw [hstored]
          · -- a package just inserted has no version yet
            have hnoversion : db.packageVersions.get? ⟨id, normalized⟩ = none := by
              rw [← Option.not_isSome_iff_eq_none]
              intro hsome
              have hnone : (none : Option Package).isSome := hfree ▸ howned _ hsome
              cases hnone
            unfold versionOf
            rw [hnone]
            exact hnoversion
        · rfl
      · exact (hpackages _).2 (Or.inr (howned key hkey))
      · obtain rfl := Except.ok.inj hid
        show Option.map Prod.fst (packageIn { db with packages } repo name) = some id
        rw [hids, if_pos ⟨rfl, rfl⟩]
    · rw [hrun]
      exact ⟨refl db, fun _ h => by cases h⟩

end SameRows

/-- An immutable insert keeps every row; unless it fails, its version is stored. -/
theorem versionOf_insertVersionOnce {repo id : Uuid} {name : String} (hid : db.HasId repo name id)
    (howned : db.VersionsOwned) (normalized : String) (row : PackageVersion) :
    (exec (insertVersionOnce ⟨id, normalized⟩ row) db).2.VersionsOwned ∧
      (∀ repo' name' n,
        (exec (insertVersionOnce ⟨id, normalized⟩ row) db).2.versionOf repo' name' n
            = db.versionOf repo' name' n ∨
          (repo' = repo ∧ name' = name ∧ n = normalized) ∧ db.versionOf repo' name' n = none ∧
            (exec (insertVersionOnce ⟨id, normalized⟩ row) db).2.versionOf repo' name' n = some row) ∧
      ∀ outcome, (exec (insertVersionOnce ⟨id, normalized⟩ row) db).1 = .ok outcome →
        ((exec (insertVersionOnce ⟨id, normalized⟩ row) db).2.versionOf repo name normalized).isSome := by
  -- versions are looked up by the id of the package
  have hversion : ∀ {r n} {k : Uuid}, db.HasId r n k → ∀ version,
      db.versionOf r n version = db.packageVersions.get? ⟨k, version⟩ := by
    intro r n k hk version
    unfold versionOf
    rw [hk, Option.bind_some]
  rcases insertVersionOnce_cases ⟨id, normalized⟩ row db with
    ⟨existing, hsome, hrun⟩ | ⟨hnone, -, hrun⟩ | ⟨e, -, -, hrun⟩
  · rw [hrun]
    exact ⟨howned, fun _ _ _ => Or.inl rfl, fun _ _ => by rw [hversion hid, hsome]; rfl⟩
  · rw [hrun]
    set db' : Catalog := { db with
      packageVersions := db.packageVersions.insertNew ⟨id, normalized⟩ row
      blobs := blobRefcountAdjust db.blobs none row.distBlobSha256 }
    have hversion' : ∀ {r n} {k : Uuid}, db.HasId r n k → ∀ version, db'.versionOf r n version
        = (db.packageVersions.insertNew ⟨id, normalized⟩ row).get? ⟨k, version⟩ := by
      intro r n k hk version
      show ((db.packageIn r n).map Prod.fst).bind _ = _
      rw [hk, Option.bind_some]
    refine ⟨fun key hsome => ?_, fun repo' name' n => ?_, fun _ _ => ?_⟩
    · change ((db.packageVersions.insertNew ⟨id, normalized⟩ row).get? key).isSome at hsome
      rw [Table.get?_insertNew] at hsome
      split_ifs at hsome with hsame
      · obtain ⟨p, hp, -⟩ := hid.package
        rw [hsame]
        exact Option.isSome_iff_exists.2 ⟨p, hp⟩
      · exact howned key hsome
    · cases hfound : (db.packageIn repo' name').map Prod.fst with
      | none =>
        refine Or.inl ?_
        show ((db.packageIn repo' name').map Prod.fst).bind _ = _
        unfold versionOf
        rw [hfound]
        rfl
      | some k =>
        rw [hversion hfound, hversion' hfound, Table.get?_insertNew, hnone]
        -- of the names only this one finds the id
        by_cases hkey : (⟨k, n⟩ : VersionKey) = ⟨id, normalized⟩
        · obtain ⟨rfl, rfl⟩ := VersionKey.mk.inj hkey
          obtain ⟨rfl, rfl⟩ := hid.names_eq hfound
          exact Or.inr ⟨⟨rfl, rfl, rfl⟩, hnone, if_pos rfl⟩
        · exact Or.inl (if_neg hkey)
    · rw [hversion' hid, Table.get?_insertNew_self]
      rfl
  · rw [hrun]
    exact ⟨howned, fun _ _ _ => Or.inl rfl, fun _ h => by cases h⟩

end Catalog

/-! ## An upstream that always answers the same -/

/-- What an upstream publishes for a package, to a fixed subscription: the version objects,
the bytes at each dist URL, and the digest the blob store names them by. -/
structure Document where
  upstream : UpstreamRow
  package : String
  sub : Subscription
  objects : List Json
  bytes : String → List UInt8
  digest : List UInt8 → Sha256

namespace Document

variable (doc : Document) (env : External)

/-- A sync whose every request is answered. -/
def ideal : ComposerSync where
  upstream := doc.upstream
  package := doc.package
  sub := doc.sub
  metadata := .ok (doc.objects.map (Prod.mk ⟨0, 0⟩))
  download url := .ok (doc.bytes url)
  put bytes := .ok (doc.digest bytes)
  finished := 0

/-- `version_normalized`. -/
def normalizedOf (obj : Json) : Option String := (obj.get "version_normalized").bind Json.asStr

/-- The `version_normalized` values are distinct. -/
def Distinct : Prop := (doc.objects.filterMap normalizedOf).Nodup

/-- The sync is one of the document: the metadata, once fetched, are its objects. -/
structure Reads (sync : ComposerSync) : Prop where
  upstream : sync.upstream = doc.upstream
  package : sync.package = doc.package
  sub : sync.sub = doc.sub
  metadata : ∀ versions, sync.metadata = .ok versions → versions.map Prod.snd = doc.objects

/-- The bytes a sync downloads and the digests it is given are the document's. -/
structure Serves (sync : ComposerSync) : Prop where
  download : ∀ url bytes, sync.download url = .ok bytes → bytes = doc.bytes url
  put : ∀ bytes sha, sync.put bytes = .ok sha → sha = doc.digest bytes

/-- The document lists a version with a dist that the subscription allows. -/
def Lists (v : Listed) : Prop := ∃ obj ∈ doc.objects, doc.ideal.list obj = .inr v

/-- The dist as it is downloaded. -/
def fetched (v : Listed) : Fetched :=
  ⟨doc.bytes v.distUrl, env.sha1Hex (doc.bytes v.distUrl), doc.digest (doc.bytes v.distUrl)⟩

/-- The row the document calls for. -/
def row (v : Listed) : PackageVersion := doc.ideal.versionRow v (doc.fetched env v)

/-- The dist has the shasum the document publishes, if it does. -/
def Verified (v : Listed) : Prop := v.shasum.all (· = env.sha1Hex (doc.bytes v.distUrl)) = true

/-- The document calls for the row. -/
def Expects (normalized : String) (pv : PackageVersion) : Prop :=
  ∃ v, doc.Lists v ∧ v.normalized = normalized ∧ doc.Verified env v ∧ pv = doc.row env v

/-- A sync of the document was started, and may have been interrupted. -/
def Attempt (db db' : Catalog) : Prop :=
  ∃ sync, doc.Reads sync ∧ doc.Serves sync ∧ Passes (sync.mirrorStatements env) db db'

/-- Every stored row of the package is one the document calls for, and the rows of the
others are as they were. -/
structure Mirroring (db₀ db : Catalog) : Prop where
  owned : db.VersionsOwned
  rows : ∀ normalized pv, db.versionOf doc.upstream.repoId doc.package normalized = some pv →
    doc.Expects env normalized pv
  others : ∀ repo name normalized, ¬ (repo = doc.upstream.repoId ∧ name = doc.package) →
    db.versionOf repo name normalized = db₀.versionOf repo name normalized

/-- The version is stored. -/
def Stored (db : Catalog) (normalized : String) : Prop :=
  (db.versionOf doc.upstream.repoId doc.package normalized).isSome

/-- Every version the document lists is stored. -/
def Complete (db : Catalog) : Prop := ∀ v, doc.Lists v → doc.Stored db v.normalized

variable {doc} {env} {db₀ db db' : Catalog} {sync : ComposerSync}

/-- Every sync that reads the document lists it alike. -/
theorem Reads.list_eq (h : doc.Reads sync) (obj : Json) : sync.list obj = doc.ideal.list obj := by
  unfold ComposerSync.list
  rw [h.sub, h.package]
  rfl

/-- Every sync that reads the document takes a dist from the same path. -/
theorem Reads.distPath_eq (h : doc.Reads sync) (v : Listed) :
    sync.distPath v = doc.ideal.distPath v := by
  unfold ComposerSync.distPath
  rw [h.upstream]
  rfl

/-- A listed version has the normalized name of its object. -/
theorem normalized_of_list {obj : Json} {v : Listed} (h : sync.list obj = .inr v) :
    normalizedOf obj = some v.normalized := by
  unfold ComposerSync.list at h
  simp only at h
  split at h
  · rename_i hnormalized _
    split_ifs at h
    obtain rfl := Sum.inr.inj h
    exact hnormalized
  · exact absurd h nofun

/-- A normalized version is listed once. -/
theorem Lists.unique (hdistinct : doc.Distinct) {v w : Listed} (hv : doc.Lists v)
    (hw : doc.Lists w) (h : v.normalized = w.normalized) : v = w := by
  obtain ⟨obj, hobj, hlist⟩ := hv
  obtain ⟨obj', hobj', hlist'⟩ := hw
  have hsame : obj = obj' := by
    by_contra hne
    have hsymm : Std.Symm fun a a' : Json => ∀ b, normalizedOf a = some b →
        ∀ b', normalizedOf a' = some b' → b ≠ b' :=
      ⟨fun _ _ hab b hb b' hb' => (hab b' hb' b hb).symm⟩
    have hpairs := (List.pairwise_filterMap.1 hdistinct).forall hobj hobj' hne
    exact hpairs _ (normalized_of_list hlist) _ (normalized_of_list hlist') h
  rw [hsame, hlist'] at hlist
  exact (Sum.inr.inj hlist).symm

/-- The document asks for one row of a normalized name. -/
theorem Expects.unique (hdistinct : doc.Distinct) {normalized : String} {pv pv' : PackageVersion}
    (h : doc.Expects env normalized pv) (h' : doc.Expects env normalized pv') : pv = pv' := by
  obtain ⟨v, hv, hnormalized, -, rfl⟩ := h
  obtain ⟨w, hw, hnormalized', -, rfl⟩ := h'
  rw [hv.unique hdistinct hw (hnormalized.trans hnormalized'.symm)]

/-- A dist that is fetched is the document's, and verified. -/
theorem Serves.fetch (h : doc.Serves sync) {v : Listed} {f : Fetched}
    (hf : sync.fetch env v = .ok f) : f = doc.fetched env v ∧ doc.Verified env v := by
  unfold ComposerSync.fetch at hf
  cases hbytes : sync.download v.distUrl with
  | error e =>
    rw [hbytes] at hf
    exact absurd hf nofun
  | ok bytes =>
    obtain rfl := h.download _ _ hbytes
    rw [hbytes] at hf
    simp only [Bind.bind, Except.bind] at hf
    split_ifs at hf with hshasum
    cases hput : sync.put (doc.bytes v.distUrl) with
    | error e =>
      rw [hput] at hf
      exact absurd hf nofun
    | ok sha =>
      obtain rfl := h.put _ _ hput
      rw [hput] at hf
      refine ⟨(Except.ok.inj hf).symm, ?_⟩
      unfold Verified
      cases hpublished : v.shasum with
      | none => rfl
      | some x =>
        rw [hpublished] at hshasum
        simpa using hshasum

/-! ### What a sync keeps -/

/-- What each statement guarantees: the rows stay the document's, and none is lost. -/
structure Grows (doc : Document) (env : External) (db₀ db db' : Catalog) : Prop where
  mirroring : doc.Mirroring env db₀ db'
  stored : ∀ normalized, doc.Stored db normalized → doc.Stored db' normalized

/-- These versions are stored. -/
def Has (doc : Document) (N : String → Prop) (db : Catalog) : Prop :=
  ∀ normalized, N normalized → doc.Stored db normalized

/-- The statements of a sync, outlined for itself alone. -/
abbrev Mirrors {α : Type} (doc : Document) (env : External) (db₀ : Catalog)
    (Q : Except MirrorError α → Catalog → Prop) (P : Catalog → Prop)
    (m : Script Catalog MirrorError α) : Prop :=
  Outlined (doc.Mirroring env db₀) Eq (doc.Grows env db₀) Q P m

variable {N : String → Prop}

theorem Grows.has (h : doc.Grows env db₀ db db') (hdb : doc.Has N db) : doc.Has N db' :=
  fun normalized hn => h.stored normalized (hdb normalized hn)

theorem Mirroring.of_sameRows (h : doc.Mirroring env db₀ db) (hsame : db.SameRows db') :
    doc.Grows env db₀ db db' where
  mirroring :=
    { owned := hsame.owned h.owned
      rows := fun normalized pv hpv => h.rows normalized pv ((hsame.rows _ _ _).symm.trans hpv)
      others := fun repo name normalized hne =>
        (hsame.rows _ _ _).trans (h.others repo name normalized hne) }
  stored := by
    intro normalized hstored
    unfold Stored
    rw [hsame.rows]
    exact hstored

/-- The insert of a row the document calls for. -/
theorem Mirroring.insertVersionOnce (h : doc.Mirroring env db₀ db) {id : Uuid}
    (hid : db.HasId doc.upstream.repoId doc.package id) {v : Listed} (hv : doc.Lists v)
    (hverified : doc.Verified env v) :
    doc.Grows env db₀ db (exec (insertVersionOnce ⟨id, v.normalized⟩ (doc.row env v)) db).2 := by
  obtain ⟨howned, hrows, -⟩ := Catalog.versionOf_insertVersionOnce hid h.owned v.normalized
    (doc.row env v)
  refine ⟨⟨howned, fun normalized pv hpv => ?_, fun repo name normalized hne => ?_⟩,
    fun normalized hstored => ?_⟩
  · rcases hrows doc.upstream.repoId doc.package normalized with hsame | ⟨⟨-, -, rfl⟩, -, hnew⟩
    · exact h.rows normalized pv (hsame.symm.trans hpv)
    · exact ⟨v, hv, rfl, hverified, Option.some.inj (hpv.symm.trans hnew)⟩
  · rcases hrows repo name normalized with hsame | ⟨⟨hrepo, hname, -⟩, -, -⟩
    · exact hsame.trans (h.others repo name normalized hne)
    · exact absurd ⟨hrepo, hname⟩ hne
  · unfold Stored
    rcases hrows doc.upstream.repoId doc.package normalized with hsame | ⟨-, -, hnew⟩
    · rw [hsame]
      exact hstored
    · rw [hnew]
      rfl

/-- Every sync that reads the document stores the same row. -/
theorem Reads.versionRow_eq (h : doc.Reads sync) (v : Listed) :
    sync.versionRow v (doc.fetched env v) = doc.row env v := by
  unfold row ComposerSync.versionRow
  rw [h.distPath_eq]

/-- The statements that store a version store the row the document calls for. -/
theorem mirrors_storeStatements (hreads : doc.Reads sync) (draw : Draw) {v : Listed}
    (hv : doc.Lists v) (hverified : doc.Verified env v) :
    doc.Mirrors env db₀
      (fun answer db => ∀ entry, answer = .ok entry → doc.Has N db ∧ doc.Stored db v.normalized)
      (doc.Has N) (sync.storeStatements draw v (doc.fetched env v)) := by
  unfold ComposerSync.storeStatements
  rw [hreads.versionRow_eq, hreads.upstream, hreads.package]
  -- the blob, the package, its upstream, the version: each keeps what is mirrored
  refine outlined_bind (Q := fun _ => doc.Has N) (outlined_atomic_alone fun db hdb hN => ?_)
    (fun _ => ?_) fun _ _ _ _ => nofun
  · have hsame : db.SameRows (exec (upsertBlob draw.now (doc.fetched env v).blob
        (sizeOf (doc.fetched env v).bytes) : Effect Catalog MirrorError Unit) db).2 := .of_eq rfl rfl
    have hgrows := hdb.of_sameRows hsame
    exact ⟨hgrows, hgrows.has hN⟩
  refine outlined_bind (Q := fun answer db => doc.Has N db ∧ ∀ id, answer = .ok id →
    db.HasId doc.upstream.repoId doc.package id) (outlined_atomic_alone fun db hdb hN => ?_)
    (fun id => ?_) fun _ _ _ _ => nofun
  · rw [exec_adapt]
    obtain ⟨hsame, hids⟩ := Catalog.SameRows.upsertPackage hdb.owned draw.newId doc.upstream.repoId
      doc.package "composer" (some (.object [("url", .string doc.upstream.trimmedBase)]))
      doc.upstream.visibility
    have hgrows := hdb.of_sameRows hsame
    refine ⟨hgrows, hgrows.has hN, fun id hid => hids id ?_⟩
    exact Except.ok_of_mapError hid
  refine outlined_bind (Q := fun _ db => doc.Has N db ∧
    db.HasId doc.upstream.repoId doc.package id) (outlined_atomic_alone fun db hdb hN => ?_)
    (fun _ => ?_) fun _ _ _ _ => nofun
  · obtain ⟨hsame, hids⟩ := @Catalog.SameRows.updatePackages db MirrorError
      (fun id' _ => id' = id) (fun r => { r with upstreamId := some doc.upstream.id })
      fun _ => ⟨rfl, rfl⟩
    have hgrows := hdb.of_sameRows hsame
    exact ⟨hgrows, hgrows.has hN.1, hids _ _ _ (hN.2 id rfl)⟩
  refine outlined_bind (Q := fun answer db => ∀ outcome, answer = .ok outcome →
    doc.Has N db ∧ doc.Stored db v.normalized) (outlined_atomic_alone fun db hdb hN => ?_)
    (fun outcome => ?_) fun _ _ _ _ => nofun
  · rw [exec_adapt]
    have hgrows := hdb.insertVersionOnce hN.2 hv hverified
    refine ⟨hgrows, fun outcome houtcome => ⟨hgrows.has hN.1, ?_⟩⟩
    exact (Catalog.versionOf_insertVersionOnce hN.2 hdb.owned v.normalized (doc.row env v)).2.2
      outcome (Except.ok_of_mapError houtcome)
  · exact outlined_pure fun _ _ h _ _ => h outcome rfl

/-- What `stored_dists` says of a row. -/
def storedDist (pv : PackageVersion) : StoredDist :=
  ⟨pv.distShasum, pv.sourceReference, pv.upstreamDistPath⟩

/-- The change test passes on a row the document calls for. -/
theorem Expects.unchanged (hdistinct : doc.Distinct) {v : Listed} {pv : PackageVersion}
    (h : doc.Expects env v.normalized pv) (hv : doc.Lists v) :
    upstreamChange (storedDist pv) v.shasum v.reference = none := by
  obtain ⟨w, hw, hnormalized, hverified, rfl⟩ := h
  obtain rfl := hw.unique hdistinct hv hnormalized
  show upstreamChange ⟨some (env.sha1Hex (doc.bytes w.distUrl)), w.reference, _⟩ _ _ = none
  unfold Verified at hverified
  unfold upstreamChange
  cases hshasum : w.shasum with
  | some x =>
    -- upstream publishes a shasum: it is that of the bytes stored
    rw [hshasum, Option.all_some, decide_eq_true_eq] at hverified
    rw [hverified]
    exact if_pos rfl
  | none =>
    -- else the references are compared, if there is one
    cases w.reference with
    | none => rfl
    | some r => exact if_pos rfl

/-- Its path is recorded already. -/
theorem Expects.backfill (hdistinct : doc.Distinct) (hreads : doc.Reads sync) {v : Listed}
    {pv : PackageVersion} (h : doc.Expects env v.normalized pv) (hv : doc.Lists v) :
    sync.backfill v (storedDist pv) = pure () := by
  obtain ⟨w, hw, hnormalized, -, rfl⟩ := h
  obtain rfl := hw.unique hdistinct hv hnormalized
  have hstored : (storedDist (doc.row env w)).upstreamDistPath = doc.ideal.distPath w := rfl
  unfold ComposerSync.backfill
  rw [hreads.distPath_eq, hstored]
  cases doc.ideal.distPath w <;> rfl

/-- What a sync finds stored: versions in `N`, with rows the document calls for. -/
def Snapshot (doc : Document) (env : External) (N : String → Prop)
    (stored : String → Option StoredDist) : Prop :=
  ∀ normalized existing, stored normalized = some existing →
    N normalized ∧ ∃ pv, doc.Expects env normalized pv ∧ existing = storedDist pv

/-- What a pass reads at its start is what was stored by then. -/
theorem Mirroring.snapshot (h : doc.Mirroring env db₀ db) :
    doc.Snapshot env (doc.Stored db) (db.storedDists doc.upstream.repoId doc.package) := by
  intro normalized existing hexisting
  rw [Catalog.storedDists_eq] at hexisting
  obtain ⟨pv, hpv, rfl⟩ := Option.map_eq_some_iff.1 hexisting
  exact ⟨Option.isSome_iff_exists.2 ⟨pv, hpv⟩, pv, h.rows normalized pv hpv, rfl⟩

/-- The pass over an object of the document: the version it lists is stored in the end. -/
theorem mirrors_mirrorVersion (hdistinct : doc.Distinct) (hreads : doc.Reads sync)
    (hserves : doc.Serves sync) {stored : String → Option StoredDist}
    (hstored : doc.Snapshot env N stored) (draw : Draw) {obj : Json} (hobj : obj ∈ doc.objects) :
    doc.Mirrors env db₀
      (fun answer db => ∀ entry, answer = .ok entry → doc.Has N db ∧
        ∀ v, doc.ideal.list obj = .inr v → doc.Stored db v.normalized)
      (doc.Has N) (sync.mirrorVersionStatements env stored draw obj) := by
  unfold ComposerSync.mirrorVersionStatements
  rw [hreads.list_eq]
  cases hlist : doc.ideal.list obj with
  | inl entry => exact outlined_pure fun db _ hN _ _ => ⟨hN, nofun⟩
  | inr v =>
    have hv : doc.Lists v := ⟨obj, hobj, hlist⟩
    have hone : ∀ {db}, doc.Stored db v.normalized →
        ∀ w, (Sum.inr v : Entry ⊕ Listed) = .inr w → doc.Stored db w.normalized := by
      intro db h w hw
      rwa [← Sum.inr.inj hw]
    cases hexisting : stored v.normalized with
    | some existing =>
      simp only [hexisting]
      -- a version stored before is the one the document lists, so nothing changed
      obtain ⟨hn, pv, hpv, rfl⟩ := hstored _ _ hexisting
      unfold ComposerSync.compareStatements
      rw [hpv.unchanged hdistinct hv, hpv.backfill hdistinct hreads hv]
      refine outlined_bind (Q := fun _ => doc.Has N) (outlined_atomic_alone fun db hdb hN => ?_)
        (fun _ => ?_) fun _ _ _ _ => nofun
      · exact ⟨hdb.of_sameRows (.refl db), hN⟩
      · exact outlined_pure fun db _ hN _ _ => ⟨hN, hone (hN _ hn)⟩
    | none =>
      simp only [hexisting]
      refine outlined_bind (Q := fun answer db => doc.Has N db ∧ ∀ f, answer = .ok f →
        f = doc.fetched env v ∧ doc.Verified env v) (outlined_ret fun db _ hN => ⟨hN, ?_⟩)
        (fun f => ?_) fun _ _ _ _ => nofun
      · exact fun f hf => hserves.fetch hf
      -- what was fetched is what the document promises, or the pass has failed
      by_cases hf : f = doc.fetched env v ∧ doc.Verified env v
      · obtain ⟨rfl, hverified⟩ := hf
        refine Outlined.strengthen (P := doc.Has N) ?_ fun db _ h => h.1
        refine (mirrors_storeStatements hreads draw hv hverified).weaken fun answer db _ h entry he => ?_
        exact ⟨(h entry he).1, hone (h entry he).2⟩
      · exact outlined_of_not fun db _ h => hf (h.2 f rfl)

/-- The document lists a version under the normalized one, and no object of `rest` does. -/
def Done (doc : Document) (rest : List (Draw × Json)) (normalized : String) : Prop :=
  ∃ v, doc.Lists v ∧ v.normalized = normalized ∧ ∀ c ∈ rest, doc.ideal.list c.2 ≠ .inr v

/-- The loop of a sync: what it has passed over is stored. -/
theorem mirrors_passes (hdistinct : doc.Distinct) (hreads : doc.Reads sync)
    (hserves : doc.Serves sync) {stored : String → Option StoredDist}
    (hstored : doc.Snapshot env N stored) (versions : List (Draw × Json))
    (hversions : ∀ c ∈ versions, c.2 ∈ doc.objects) (report : Report) :
    doc.Mirrors env db₀ (fun answer db => ∀ report, answer = .ok report → doc.Has (doc.Done []) db)
      (doc.Has fun n => N n ∨ doc.Done versions n)
      (versions.foldlM (fun report v => do
        return report.push (← sync.mirrorVersionStatements env stored v.1 v.2)) report) := by
  refine (outlined_foldlM (I := fun _ rest db => (∀ c ∈ rest, c.2 ∈ doc.objects) ∧
    doc.Has (fun n => N n ∨ doc.Done rest n) db) (fun report c rest => ?_)
    (fun _ _ _ h _ _ n hn => h.2 n (Or.inr hn)) versions report).strengthen
    fun _ _ h => ⟨hversions, h⟩
  by_cases hmem : ∀ c' ∈ c :: rest, c'.2 ∈ doc.objects
  · have hsnapshot : doc.Snapshot env (fun n => N n ∨ doc.Done (c :: rest) n) stored :=
      fun n existing h => ⟨Or.inl (hstored n existing h).1, (hstored n existing h).2⟩
    refine outlined_bind ((mirrors_mirrorVersion hdistinct hreads hserves hsnapshot c.1
      (hmem c List.mem_cons_self)).strengthen fun _ _ h => h.2) (fun entry => ?_)
      fun _ _ _ _ _ => nofun
    refine outlined_pure fun db _ h => ⟨fun c' hc' => hmem c' (List.mem_cons_of_mem c hc'), ?_⟩
    obtain ⟨hhas, hpassed⟩ := h entry rfl
    intro n hn
    rcases hn with hn | ⟨v, hv, rfl, hrest⟩
    · exact hhas n (Or.inl hn)
    · by_cases hc : doc.ideal.list c.2 = .inr v
      · exact hpassed v hc
      · exact hhas _ (Or.inr ⟨v, hv, rfl, List.forall_mem_cons.2 ⟨hc, hrest⟩⟩)
  · exact outlined_of_not fun _ _ h => hmem h.1

/-- The loop and what goes before it: every listed version is stored in the end. -/
theorem mirrors_mirrorInner (hdistinct : doc.Distinct) (hreads : doc.Reads sync)
    (hserves : doc.Serves sync) :
    doc.Mirrors env db₀ (fun answer db => ∀ report, answer = .ok report → doc.Complete db)
      (fun _ => True) (sync.mirrorInnerStatements env) := by
  unfold ComposerSync.mirrorInnerStatements
  refine outlined_bind (Q := fun answer _ => ∀ versions, answer = .ok versions →
    versions.map Prod.snd = doc.objects) (outlined_ret fun _ _ _ => hreads.metadata)
    (fun versions => ?_) fun _ _ _ _ => nofun
  by_cases hversions : versions.map Prod.snd = doc.objects
  · have hmem : ∀ c ∈ versions, c.2 ∈ doc.objects := fun c hc =>
      hversions ▸ List.mem_map_of_mem hc
    refine outlined_bind (Q := fun answer db => answer = .ok db)
      (outlined_atomic_alone fun db hdb _ => ⟨hdb.of_sameRows (.refl db), rfl⟩)
      (fun found => ?_) fun _ _ _ h => absurd h nofun
    by_cases hfound : doc.Mirroring env db₀ found
    · rw [hreads.upstream, hreads.package]
      refine ((mirrors_passes hdistinct hreads hserves hfound.snapshot versions hmem _).strengthen
        ?_).weaken fun answer db _ h report hreport v hv => ?_
      · -- no version is done yet: an object of the document lists it
        rintro db - h n hn
        obtain rfl := Except.ok.inj h
        rcases hn with hn | ⟨v, ⟨obj, hobj, hlist⟩, -, hnone⟩
        · exact hn
        · rw [← hversions] at hobj
          obtain ⟨c, hc, rfl⟩ := List.mem_map.1 hobj
          exact absurd hlist (hnone c hc)
      · exact h report hreport _ ⟨v, hv, rfl, fun c hc => absurd hc List.not_mem_nil⟩
    · refine outlined_of_not fun db hdb h => hfound ?_
      obtain rfl := Except.ok.inj h
      exact hdb
  · exact outlined_of_not fun _ _ h => hversions (h versions rfl)

/-- The record of a pass answers, and touches no version. -/
theorem recordLifecycle_sameRows (sync : ComposerSync) (result : Except MirrorError Report)
    (db : Catalog) :
    (exec (sync.recordLifecycle result) db).1 = .ok () ∧
      db.SameRows (exec (sync.recordLifecycle result) db).2 := by
  have hmark : ∀ p (f : Package → Package), (∀ r, (f r).repoId = r.repoId ∧ (f r).name = r.name) →
      db.SameRows (exec (updatePackages p f : Effect Catalog MirrorError Unit) db).2 :=
    fun p f hf => (Catalog.SameRows.updatePackages p hf).1
  unfold ComposerSync.recordLifecycle
  cases result with
  | ok report => exact ⟨rfl, hmark (Package.isNamed _ _) _ fun _ => ⟨rfl, rfl⟩⟩
  | error e =>
    cases hreason : e.reason with
    | none =>
      simp only [hreason, exec_pure]
      exact ⟨trivial, .refl db⟩
    | some reason =>
      simp only [hreason]
      exact ⟨rfl, hmark (fun id r => Package.isNamed _ _ id r && r.archivedAt.isNone) _
        fun _ => ⟨rfl, rfl⟩⟩

/-- **What a sync keeps.** All its statements keep the rows the document's, and when it
completes every listed version is stored. -/
theorem mirrors_mirrorStatements (hdistinct : doc.Distinct) (hreads : doc.Reads sync)
    (hserves : doc.Serves sync) :
    doc.Mirrors env db₀ (fun answer db => ∀ report, answer = .ok report → doc.Complete db)
      (fun _ => True) (sync.mirrorStatements env) := by
  unfold ComposerSync.mirrorStatements
  refine outlined_bind (outlined_attempt (mirrors_mirrorInner hdistinct hreads hserves))
    (fun result => ?_) fun _ _ _ _ => nofun
  refine outlined_bind (Q := fun _ db => ∀ report, result = .ok report → doc.Complete db)
    (outlined_atomic_alone fun db hdb h => ?_) (fun _ => outlined_ret fun _ _ h => h)
    fun _ _ _ _ => nofun
  have hgrows := hdb.of_sameRows (recordLifecycle_sameRows sync result db).2
  exact ⟨hgrows, fun report hreport v hv => hgrows.stored _ (h result rfl report hreport v hv)⟩

/-! ### Attempts -/

/-- Mirroring begins with nothing of the package stored. -/
theorem Mirroring.start (howned : db₀.VersionsOwned)
    (hempty : ∀ normalized, db₀.versionOf doc.upstream.repoId doc.package normalized = none) :
    doc.Mirroring env db₀ db₀ :=
  ⟨howned, fun normalized _ h => absurd ((hempty normalized).symm.trans h) nofun,
    fun _ _ _ _ => rfl⟩

theorem grows_of_reaches (hdb : doc.Mirroring env db₀ db)
    (h : Relation.ReflTransGen (doc.Grows env db₀) db db') : doc.Grows env db₀ db db' := by
  induction h with
  | refl => exact ⟨hdb, fun _ h => h⟩
  | tail _ hlast ih => exact ⟨hlast.mirroring, fun n hn => hlast.stored n (ih.stored n hn)⟩

/-- Wherever attempts stop, they have kept what a sync keeps. -/
theorem grows_of_attempts (hdistinct : doc.Distinct) (hdb : doc.Mirroring env db₀ db)
    (h : Relation.ReflTransGen (doc.Attempt env) db db') : doc.Grows env db₀ db db' := by
  induction h with
  | refl => exact ⟨hdb, fun _ h => h⟩
  | tail _ hlast ih =>
    obtain ⟨sync, hreads, hserves, hpasses⟩ := hlast
    have hgrows := grows_of_reaches ih.mirroring
      ((mirrors_mirrorStatements hdistinct hreads hserves).passes (fun _ _ _ h => h.mirroring)
        ih.mirroring trivial hpasses).2
    exact ⟨hgrows.mirroring, fun n hn => hgrows.stored n (ih.stored n hn)⟩

/-- A sync that completes has stored every listed version. -/
theorem complete_of_mirrorPackage (hdistinct : doc.Distinct) (hreads : doc.Reads sync)
    (hserves : doc.Serves sync) (hdb : doc.Mirroring env db₀ db) {report : Report}
    (hrun : exec (sync.mirrorPackage env) db = (.ok report, db')) :
    doc.Grows env db₀ db db' ∧ doc.Complete db' := by
  rw [← ComposerSync.runAlone_mirrorStatements] at hrun
  have hpasses := passes_runAlone (sync.mirrorStatements env) db
  have hanswer := (mirrors_mirrorStatements hdistinct hreads hserves).answers
    (fun _ _ _ h => h.mirroring) hdb trivial
  rw [hrun] at hpasses hanswer
  exact ⟨grows_of_attempts hdistinct hdb (.single ⟨sync, hreads, hserves, hpasses⟩),
    hanswer report rfl⟩

/-- The rows of a package whose document is stored are those it calls for. -/
theorem rows_iff (hdistinct : doc.Distinct) (hdb : doc.Mirroring env db₀ db)
    (hcomplete : doc.Complete db) (normalized : String) (pv : PackageVersion) :
    db.versionOf doc.upstream.repoId doc.package normalized = some pv ↔
      doc.Expects env normalized pv := by
  refine ⟨hdb.rows normalized pv, fun hexpected => ?_⟩
  obtain ⟨v, hv, rfl, -⟩ := id hexpected
  obtain ⟨pv', hpv'⟩ := Option.isSome_iff_exists.1 (hcomplete v hv)
  rw [hpv', (hdb.rows _ _ hpv').unique hdistinct hexpected]

/-- Two catalogs that store the whole document have the same rows. -/
theorem rows_eq (hdistinct : doc.Distinct) (hdb : doc.Mirroring env db₀ db)
    (hdb' : doc.Mirroring env db₀ db') (hcomplete : doc.Complete db) (hcomplete' : doc.Complete db')
    (repo : Uuid) (name normalized : String) :
    db'.versionOf repo name normalized = db.versionOf repo name normalized := by
  by_cases hown : repo = doc.upstream.repoId ∧ name = doc.package
  · obtain ⟨rfl, rfl⟩ := hown
    refine Option.ext fun pv => ?_
    exact (rows_iff hdistinct hdb' hcomplete' normalized pv).trans
      (rows_iff hdistinct hdb hcomplete normalized pv).symm
  · exact (hdb'.others _ _ _ hown).trans (hdb.others _ _ _ hown).symm

/-! ### A sync with nothing to do -/

/-- The entry reports nothing mirrored and no conflict. -/
def Idle (entry : Entry) : Prop :=
  ∀ report : Report, (report.push entry).mirrored = report.mirrored ∧
    (report.push entry).conflicts = report.conflicts

/-- An entry that is not mirrored stores nothing. -/
theorem idle_of_list {obj : Json} {entry : Entry} (h : sync.list obj = .inl entry) : Idle entry := by
  unfold ComposerSync.list at h
  simp only at h
  split at h
  · split_ifs at h
    obtain rfl := Sum.inl.inj h
    exact fun _ => ⟨rfl, rfl⟩
  · obtain rfl := Sum.inl.inj h
    exact fun _ => ⟨rfl, rfl⟩

/-- A pass over an object whose version is stored downloads and writes nothing, whatever
downloads would bring. -/
theorem idle_mirrorVersion (hdistinct : doc.Distinct) (hreads : doc.Reads sync)
    (hdb : doc.Mirroring env db₀ db) (hcomplete : doc.Complete db) (draw : Draw) {obj : Json}
    (hobj : obj ∈ doc.objects) :
    ∃ entry, Idle entry ∧
      exec (sync.mirrorVersion env (db.storedDists doc.upstream.repoId doc.package) draw obj) db
        = (.ok entry, db) := by
  unfold ComposerSync.mirrorVersion
  cases hlist : sync.list obj with
  | inl entry => exact ⟨entry, idle_of_list hlist, rfl⟩
  | inr v =>
    have hv : doc.Lists v := ⟨obj, hobj, hreads.list_eq obj ▸ hlist⟩
    obtain ⟨pv, hpv⟩ := Option.isSome_iff_exists.1 (hcomplete v hv)
    have hexpected := hdb.rows _ _ hpv
    have hexisting : db.storedDists doc.upstream.repoId doc.package v.normalized
        = some (storedDist pv) := by
      rw [Catalog.storedDists_eq, hpv]
      rfl
    refine ⟨.unchanged, fun _ => ⟨rfl, rfl⟩, ?_⟩
    simp only [hexisting]
    unfold ComposerSync.compare
    rw [hexpected.unchanged hdistinct hv, hexpected.backfill hdistinct hreads hv]
    rfl

/-- The loop over such objects. -/
theorem idle_passes (hdistinct : doc.Distinct) (hreads : doc.Reads sync)
    (hdb : doc.Mirroring env db₀ db) (hcomplete : doc.Complete db) (items : List (Draw × Json))
    (hitems : ∀ c ∈ items, c.2 ∈ doc.objects) (report : Report) :
    ∃ report', report'.mirrored = report.mirrored ∧ report'.conflicts = report.conflicts ∧
      exec (items.foldlM (fun report v => do return report.push (← sync.mirrorVersion env
        (db.storedDists doc.upstream.repoId doc.package) v.1 v.2)) report) db
        = (.ok report', db) := by
  induction items generalizing report with
  | nil => exact ⟨report, rfl, rfl, rfl⟩
  | cons c rest ih =>
    obtain ⟨entry, hidle, hpass⟩ := idle_mirrorVersion hdistinct hreads hdb hcomplete c.1
      (hitems c List.mem_cons_self)
    obtain ⟨report', hmirrored, hconflicts, hrest⟩ :=
      ih (fun c' hc' => hitems c' (List.mem_cons_of_mem c hc')) (report.push entry)
    refine ⟨report', hmirrored.trans (hidle report).1, hconflicts.trans (hidle report).2, ?_⟩
    rw [List.foldlM_cons, exec_bind, exec_bind, hpass]
    exact hrest

/-- A sync of a package whose versions are all stored. -/
theorem idle_mirrorPackage (hdistinct : doc.Distinct) (hreads : doc.Reads sync)
    (hdb : doc.Mirroring env db₀ db) (hcomplete : doc.Complete db)
    {versions : List (Draw × Json)} (hmetadata : sync.metadata = .ok versions) :
    ∃ report db', exec (sync.mirrorPackage env) db = (.ok report, db') ∧ report.mirrored = [] ∧
      report.conflicts = [] ∧ db'.packageVersions = db.packageVersions := by
  have hmem : ∀ c ∈ versions, c.2 ∈ doc.objects := fun c hc =>
    hreads.metadata versions hmetadata ▸ List.mem_map_of_mem hc
  obtain ⟨report, hmirrored, hconflicts, hrun⟩ :=
    idle_passes hdistinct hreads hdb hcomplete versions hmem .default
  have hinner : exec (sync.mirrorPackageInner env) db = (.ok report, db) := by
    unfold ComposerSync.mirrorPackageInner
    rw [hmetadata, hreads.upstream, hreads.package]
    exact hrun
  refine ⟨report, (exec (markPackageSynced sync.finished sync.upstream.repoId sync.package :
    Effect Catalog MirrorError Unit) db).2, ?_, hmirrored, hconflicts, rfl⟩
  unfold ComposerSync.mirrorPackage
  rw [exec_bind, exec_outcome, hinner]
  rfl

end Document

/-! ## Convergence -/

/-- **Composer mirroring converges.** However the first syncs of a package were interrupted,
one that completes leaves the rows the document calls for, which are those one uninterrupted
sync leaves.  Syncs after it change no row, and one that gets the metadata completes with
nothing mirrored and no conflict, whatever its downloads would have brought. -/
theorem mirroring_converges (env : External) (doc : Document) {db₀ db₁ db₂ : Catalog}
    {resumed : ComposerSync} {report : Report} (hdistinct : doc.Distinct)
    (howned : db₀.VersionsOwned)
    (hempty : ∀ normalized, db₀.versionOf doc.upstream.repoId doc.package normalized = none)
    (hinterrupted : Relation.ReflTransGen (doc.Attempt env) db₀ db₁)
    (hreads : doc.Reads resumed) (hserves : doc.Serves resumed)
    (hrun : exec (resumed.mirrorPackage env) db₁ = (.ok report, db₂)) :
    (∀ normalized pv, db₂.versionOf doc.upstream.repoId doc.package normalized = some pv ↔
      doc.Expects env normalized pv) ∧
    (∀ once report' db, doc.Reads once → doc.Serves once →
      exec (once.mirrorPackage env) db₀ = (.ok report', db) →
        ∀ repo name normalized,
          db₂.versionOf repo name normalized = db.versionOf repo name normalized) ∧
    ∀ db₃, Relation.ReflTransGen (doc.Attempt env) db₂ db₃ →
      (∀ repo name normalized,
        db₃.versionOf repo name normalized = db₂.versionOf repo name normalized) ∧
      ∀ again versions, doc.Reads again → again.metadata = .ok versions →
        ∃ report' db₄, exec (again.mirrorPackage env) db₃ = (.ok report', db₄) ∧
          report'.mirrored = [] ∧ report'.conflicts = [] ∧
          db₄.packageVersions = db₃.packageVersions := by
  have hstart : doc.Mirroring env db₀ db₀ := .start howned hempty
  have hattempts := Document.grows_of_attempts hdistinct hstart hinterrupted
  obtain ⟨hgrows, hcomplete⟩ := Document.complete_of_mirrorPackage hdistinct hreads hserves
    hattempts.mirroring hrun
  refine ⟨Document.rows_iff hdistinct hgrows.mirroring hcomplete,
    fun once report' db honce hserved hrun' => ?_, fun db₃ hfurther => ?_⟩
  · obtain ⟨hgrows', hcomplete'⟩ :=
      Document.complete_of_mirrorPackage hdistinct honce hserved hstart hrun'
    exact Document.rows_eq hdistinct hgrows'.mirroring hgrows.mirroring hcomplete' hcomplete
  · have hthen := Document.grows_of_attempts hdistinct hgrows.mirroring hfurther
    have hstill : doc.Complete db₃ := fun v hv => hthen.stored _ (hcomplete v hv)
    refine ⟨Document.rows_eq hdistinct hgrows.mirroring hthen.mirroring hcomplete hstill,
      fun again versions hagain hmetadata => ?_⟩
    exact Document.idle_mirrorPackage hdistinct hagain hthen.mirroring hstill hmetadata

/-! ## A registry that goes down between two dists -/

namespace Outage

/-- Every dist has one sha1. -/
def external : External := ⟨fun _ => none, fun _ => none, fun _ => "sha1"⟩

def digest : Sha256 := ⟨Vector.replicate 32 0⟩

/-- Repository 1, with no packages. -/
def opened : Catalog :=
  { Catalog.empty with
    repositories := Table.empty.insertNew 1
      ⟨1, "main", .manual, 0, true, false, none, none, none⟩ }

/-- A version as the registry lists it. -/
def object (version normalized url shasum : String) : Json :=
  .object [("version", .string version), ("version_normalized", .string normalized),
    ("dist", .object [("url", .string url), ("shasum", .string shasum),
      ("reference", .string "abc")])]

/-- Two versions of acme/tools, one published without a shasum. -/
def document : Document where
  upstream := ⟨5, 1, "composer", "https://repo.example.com", .private⟩
  package := "acme/tools"
  sub := []
  objects := [object "2.0.0" "2.0.0.0" "https://repo.example.com/2.zip" "sha1",
    object "1.0.0" "1.0.0.0" "https://cdn.example.com/1.zip" ""]
  bytes := fun _ => [1]
  digest := fun _ => digest

/-- A sync; without `up` the registry answers for the first dist only. -/
def sync (up : Bool) : ComposerSync :=
  { document.ideal with
    metadata := .ok [(⟨1, 7⟩, object "2.0.0" "2.0.0.0" "https://repo.example.com/2.zip" "sha1"),
      (⟨1, 8⟩, object "1.0.0" "1.0.0.0" "https://cdn.example.com/1.zip" "")]
    download := fun url =>
      if up ∨ url = "https://repo.example.com/2.zip" then .ok [1] else .error (.http "timeout") }

/-- Each pass of the example reads the document. -/
theorem sync_reads (up : Bool) : document.Reads (sync up) where
  upstream := rfl
  package := rfl
  sub := rfl
  metadata := by
    intro versions h
    rw [← Except.ok.inj h]
    rfl

/-- Each pass of the example serves the document. -/
theorem sync_serves (up : Bool) : document.Serves (sync up) where
  download := by
    intro url bytes h
    change (if _ then _ else _) = _ at h
    split_ifs at h
    exact (Except.ok.inj h).symm
  put := fun bytes sha h => (Except.ok.inj h).symm

/-- The catalog when the registry goes down. -/
def stopped : Catalog := (exec ((sync false).mirrorPackage external) opened).2

/-- A sync after the outage leaves what a sync without the outage does. -/
theorem mirroring_converges_outage :
    stopped.versionOf 1 "acme/tools" "1.0.0.0" = none ∧
      ∀ repo name normalized,
        (exec ((sync true).mirrorPackage external) stopped).2.versionOf repo name normalized
          = (exec ((sync true).mirrorPackage external) opened).2.versionOf repo name normalized := by
  refine ⟨rfl, ?_⟩
  have hresumed : ∃ report, (exec ((sync true).mirrorPackage external) stopped).1 = .ok report :=
    ⟨_, rfl⟩
  have honce : ∃ report, (exec ((sync true).mirrorPackage external) opened).1 = .ok report :=
    ⟨_, rfl⟩
  obtain ⟨report, hresumed⟩ := hresumed
  obtain ⟨report', honce⟩ := honce
  have hdistinct : document.Distinct := by
    unfold Document.Distinct
    decide
  have howned : opened.VersionsOwned := by
    intro key h
    change (none : Option PackageVersion).isSome = true at h
    exact absurd h nofun
  have hpasses := passes_runAlone ((sync false).mirrorStatements external) opened
  rw [ComposerSync.runAlone_mirrorStatements] at hpasses
  exact (mirroring_converges external document hdistinct howned
    (fun _ => rfl) (.single ⟨sync false, sync_reads false, sync_serves false, hpasses⟩)
    (sync_reads true) (sync_serves true) (Prod.ext hresumed rfl)).2.1 (sync true) report' _
    (sync_reads true) (sync_serves true) (Prod.ext honce rfl)

end Outage

end Sconce
