/-
# Old lock files

A lock file written against an upstream asks for a dist by its path there.  Several versions
can be recorded under one path.  The lookup takes the one with the least id and only then
asks whether the credential may read it, so that an unreadable version hides the readable
ones behind it.
-/
import Sconce.Lib.Comparator
import Sconce.Serving.Agreement

namespace Sconce

section UpstreamPaths

variable (env : ReadEnv) (store : ObjectStore) (db : Catalog) (repo : Uuid) (access : Access)
  (path : String)

/-- A version recorded under the path that the repository may serve by it: of a package it
owns or draws from an unshadowed member, not hidden by the public-only setting, and not
yanked. -/
structure Catalog.RecordedUnder (r : Catalog.VersionRow) : Prop where
  stored : db.Stored r
  path : r.version.upstreamDistPath = some path
  drawn : r.package.repoId = repo ∨ db.memberExists repo r.package = true
  admitted : db.admits repo r.package = true
  notYanked : r.version.yankedAt = none

/-- Such a version, readable under the credential. -/
def Catalog.ReadableUnder (r : Catalog.VersionRow) : Prop :=
  db.RecordedUnder repo path r ∧ access.allows db repo r.package.name = true

/-- The object store holds the dist of every version. -/
def HoldsDists : Prop :=
  ∀ r sha, db.Stored r → r.version.distBlobSha256 = some sha → (store.get? sha).isSome

/-- The path answers with a blob exactly when a version recorded under it is readable, and the
blob is then the dist of such a version. -/
structure OldLocksInstall : Prop where
  answers : (∃ sha delivery, serveUpstreamPath env store db repo access path
      = .ok (.blob sha delivery)) ↔ ∃ r, db.ReadableUnder repo access path r
  opens : ∀ sha delivery, serveUpstreamPath env store db repo access path
      = .ok (.blob sha delivery) →
    ∃ r, db.ReadableUnder repo access path r ∧ r.version.distBlobSha256 = some sha

/-- Of the versions recorded under the path, the one with the least id. -/
def Catalog.FirstUnder (r : Catalog.VersionRow) : Prop :=
  db.RecordedUnder repo path r ∧
    ∀ r', db.RecordedUnder repo path r' → env.versionId r.key ≤ env.versionId r'.key

variable {env store db repo access path}

/-- The query looks for the versions recorded under the path. -/
theorem mem_filter_recordedUnder (r : Catalog.VersionRow) :
    r ∈ (db.versionRows.filter fun r =>
      (r.package.repoId == repo || db.memberExists repo r.package) &&
        r.version.upstreamDistPath == some path && db.admits repo r.package &&
        r.version.yankedAt.isNone) ↔ db.RecordedUnder repo path r := by
  simp only [List.mem_filter, Catalog.mem_versionRows, Bool.and_eq_true, Bool.or_eq_true,
    beq_iff_eq, Option.isNone_iff_eq_none]
  constructor
  · rintro ⟨hstored, ⟨⟨hdrawn, hpath⟩, hadmitted⟩, hyanked⟩
    exact ⟨hstored, hpath, hdrawn, hadmitted, hyanked⟩
  · intro h
    exact ⟨h.stored, ⟨⟨h.drawn, h.path⟩, h.admitted⟩, h.notYanked⟩

/-- The head of a sorted list is its least element. -/
theorem head?_mergeSort_iff {α : Type} {key : α → ℕ} {l : List α}
    (hkey : ∀ a ∈ l, ∀ b ∈ l, key a = key b → a = b) (a : α) :
    (l.mergeSort fun a b => decide (key a ≤ key b)).head? = some a ↔
      a ∈ l ∧ ∀ b ∈ l, key a ≤ key b := by
  have hsorted : (l.mergeSort fun a b => decide (key a ≤ key b)).Pairwise
      fun a b => key a ≤ key b := by
    refine pairwise_mergeSort_of ?_ ?_ l
    · exact fun _ _ _ => le_trans
    · exact fun _ _ => le_total _ _
  have hmem : ∀ b, b ∈ l.mergeSort (fun a b => decide (key a ≤ key b)) ↔ b ∈ l :=
    fun b => List.mem_mergeSort
  cases hlist : l.mergeSort (fun a b => decide (key a ≤ key b)) with
  | nil =>
    rw [hlist] at hmem
    exact iff_of_false nofun fun h => absurd ((hmem a).2 h.1) List.not_mem_nil
  | cons first rest =>
    rw [hlist] at hsorted hmem
    have hleast : ∀ b ∈ l, key first ≤ key b := by
      intro b hb
      rcases List.mem_cons.1 ((hmem b).2 hb) with rfl | hb
      · exact le_rfl
      · exact (List.pairwise_cons.1 hsorted).1 b hb
    have hfirst := (hmem first).1 List.mem_cons_self
    rw [List.head?_cons, Option.some_inj]
    constructor
    · rintro rfl
      exact ⟨hfirst, hleast⟩
    · rintro ⟨ha, hall⟩
      exact hkey first hfirst a ha (le_antisymm (hleast a ha) (hall first hfirst))

/-- What the lookup by path finds. -/
theorem distByUpstreamPath_eq_some_iff (hids : Function.Injective env.versionId) (name : String)
    (sha : Sha256) :
    db.distByUpstreamPath repo env.versionId path = some (name, sha) ↔
      ∃ r, db.FirstUnder env repo path r ∧ r.package.name = name ∧
        r.version.distBlobSha256 = some sha := by
  have hkey : ∀ r r' : Catalog.VersionRow, db.Stored r → db.Stored r' →
      env.versionId r.key = env.versionId r'.key → r = r' := by
    rintro ⟨p, key, pv⟩ ⟨p', key', pv'⟩ ⟨hp, hpv⟩ ⟨hp', hpv'⟩ h
    obtain rfl : key = key' := hids h
    obtain rfl : p = p' := Option.some.inj (hp.symm.trans hp')
    obtain rfl : pv = pv' := Option.some.inj (hpv.symm.trans hpv')
    rfl
  unfold Catalog.distByUpstreamPath
  rw [Option.bind_eq_some_iff]
  refine exists_congr fun r => ?_
  rw [@head?_mergeSort_iff _ (fun r => env.versionId r.key) _ fun a ha b hb h => hkey a b
    ((mem_filter_recordedUnder a).1 ha).stored ((mem_filter_recordedUnder b).1 hb).stored h]
  simp only [mem_filter_recordedUnder, Option.map_eq_some_iff, Prod.mk.injEq]
  constructor
  · rintro ⟨hfirst, sha', hsha, rfl, rfl⟩
    exact ⟨hfirst, rfl, hsha⟩
  · rintro ⟨hfirst, rfl, hsha⟩
    exact ⟨hfirst, sha, hsha, rfl, rfl⟩

/-- What the path answers: the dist of the first version recorded under it, if that one is
readable. -/
theorem serveUpstreamPath_blob_iff (hids : Function.Injective env.versionId)
    (hstore : HoldsDists store db) (sha : Sha256) :
    (∃ delivery, serveUpstreamPath env store db repo access path = .ok (.blob sha delivery)) ↔
      ∃ r, db.FirstUnder env repo path r ∧ access.allows db repo r.package.name = true ∧
        r.version.distBlobSha256 = some sha := by
  unfold serveUpstreamPath
  constructor
  · rintro ⟨delivery, h⟩
    cases hfound : db.distByUpstreamPath repo env.versionId path with
    | none =>
      rw [hfound] at h
      exact absurd h nofun
    | some found =>
      obtain ⟨name, found⟩ := found
      obtain ⟨r, hfirst, rfl, hsha⟩ := (distByUpstreamPath_eq_some_iff hids _ _).1 hfound
      rw [hfound] at h
      dsimp only at h
      split_ifs at h with hallows
      obtain ⟨bytes, -, hanswer⟩ := serveBlob_cases h
      obtain ⟨rfl, -⟩ := ReadAnswer.blob.inj hanswer
      exact ⟨r, hfirst, hallows, hsha⟩
  · rintro ⟨r, hfirst, hallows, hsha⟩
    have hfound := (distByUpstreamPath_eq_some_iff hids r.package.name sha).2 ⟨r, hfirst, rfl, hsha⟩
    obtain ⟨bytes, hbytes⟩ := Option.isSome_iff_exists.1 (hstore r sha hfirst.1.stored hsha)
    refine ⟨deliver env sha bytes, ?_⟩
    rw [hfound]
    dsimp only
    rw [if_pos hallows, serveBlob_of_get? hbytes]

end UpstreamPaths

/-- **When old lock files keep installing.** A path answers for the readable versions recorded
under it exactly when, if there is one, the version with the least id is readable itself and
has a dist. -/
theorem old_locks_install_iff (env : ReadEnv) (store : ObjectStore) (db : Catalog) (repo : Uuid)
    (access : Access) (path : String) (hids : Function.Injective env.versionId)
    (hstore : HoldsDists store db) :
    OldLocksInstall env store db repo access path ↔
      ((∃ r, db.ReadableUnder repo access path r) →
        ∃ r, db.FirstUnder env repo path r ∧ access.allows db repo r.package.name = true ∧
          r.version.distBlobSha256.isSome) := by
  have hblob := fun sha => @serveUpstreamPath_blob_iff env store db repo access path hids hstore sha
  constructor
  · intro h hreadable
    obtain ⟨sha, hsha⟩ := h.answers.2 hreadable
    obtain ⟨r, hfirst, hallows, hdist⟩ := (hblob sha).1 hsha
    exact ⟨r, hfirst, hallows, Option.isSome_iff_exists.2 ⟨sha, hdist⟩⟩
  · intro h
    have hopens : ∀ sha delivery, serveUpstreamPath env store db repo access path
        = .ok (.blob sha delivery) →
        ∃ r, db.ReadableUnder repo access path r ∧ r.version.distBlobSha256 = some sha := by
      intro sha delivery hserved
      obtain ⟨r, hfirst, hallows, hdist⟩ := (hblob sha).1 ⟨delivery, hserved⟩
      exact ⟨r, ⟨hfirst.1, hallows⟩, hdist⟩
    refine ⟨⟨?_, fun hreadable => ?_⟩, hopens⟩
    · rintro ⟨sha, delivery, hserved⟩
      obtain ⟨r, hr, -⟩ := hopens sha delivery hserved
      exact ⟨r, hr⟩
    · obtain ⟨r, hfirst, hallows, hdist⟩ := h hreadable
      obtain ⟨sha, hsha⟩ := Option.isSome_iff_exists.1 hdist
      exact ⟨sha, (hblob sha).2 ⟨r, hfirst, hallows, hsha⟩⟩

/-! ## Two upstreams with one path -/

namespace LockFiles

open Storefront

/-- A version mirrored from `dist/core.zip` of its upstream. -/
def mirrored (dist : Sha256) : PackageVersion :=
  { release "1.0.0" dist (toTimestamp 50) with upstreamDistPath := some "dist/core.zip" }

/-- A repository open to anonymous readers with a private and a public package, whose
upstreams serve their dists at the same path. -/
def shared : Catalog :=
  { opened with
    packages := ⟨[(1, package "acme/secret" .private), (2, package "acme/core" .public)], by decide⟩
    packageVersions := ⟨[(⟨1, "1.0.0.0"⟩, mirrored (digest 1)),
      (⟨2, "1.0.0.0"⟩, mirrored (digest 2))], by decide⟩ }

/-- The public package alone. -/
def alone : Catalog :=
  { opened with
    packages := ⟨[(2, package "acme/core" .public)], by decide⟩
    packageVersions := ⟨[(⟨2, "1.0.0.0"⟩, mirrored (digest 2))], by decide⟩ }

/-- The ids of the versions, all different. -/
def keyed : ReadEnv :=
  { env with
    versionId := fun key =>
      Encodable.encode (key.packageId, key.normalizedVersion.toList.map Char.toNat) }

theorem keyed_injective : Function.Injective keyed.versionId := by
  rintro ⟨id, version⟩ ⟨id', version'⟩ h
  have hpair : (id, version.toList.map Char.toNat) = (id', version'.toList.map Char.toNat) :=
    Encodable.encode_injective h
  obtain ⟨rfl, hversion⟩ := Prod.mk.inj hpair
  have hchars := List.map_injective_iff.2 (fun c c' hc => Char.toNat_inj.1 hc) hversion
  rw [String.toList_inj.1 hchars]

/-- The version of acme/core, as its row is joined. -/
def coreRow : Catalog.VersionRow :=
  ⟨package "acme/core" .public, ⟨2, "1.0.0.0"⟩, mirrored (digest 2)⟩

/-- The version of acme/secret. -/
def secretRow : Catalog.VersionRow :=
  ⟨package "acme/secret" .private, ⟨1, "1.0.0.0"⟩, mirrored (digest 1)⟩

theorem stored_alone {r : Catalog.VersionRow} (h : alone.Stored r) : r = coreRow := by
  rw [← Catalog.mem_versionRows] at h
  exact List.mem_singleton.1 (h : r ∈ [coreRow])

theorem stored_shared {r : Catalog.VersionRow} (h : shared.Stored r) :
    r = secretRow ∨ r = coreRow := by
  rw [← Catalog.mem_versionRows] at h
  exact List.mem_pair.1 (h : r ∈ [secretRow, coreRow])

/-- The version is recorded under the path. -/
theorem coreRow_recorded : alone.RecordedUnder 1 "dist/core.zip" coreRow :=
  ⟨⟨rfl, rfl⟩, rfl, Or.inl rfl, rfl, rfl⟩

/-- An anonymous reader installs the public package by its old path. -/
theorem old_locks_install_alone :
    OldLocksInstall keyed blobs alone 1 .anonymous "dist/core.zip" := by
  refine (old_locks_install_iff keyed blobs alone 1 .anonymous "dist/core.zip" keyed_injective
    ?_).2 fun _ => ⟨coreRow, ⟨coreRow_recorded, fun r hr => ?_⟩, by with_unfolding_all rfl, rfl⟩
  · intro r sha hr hsha
    rw [stored_alone hr] at hsha
    rw [← Option.some.inj hsha]
    rfl
  · rw [stored_alone hr.stored]

/-- Beside the private one, whose version has the lesser id, the path answers not found. -/
theorem private_version_hides_public :
    ¬ OldLocksInstall keyed blobs shared 1 .anonymous "dist/core.zip" := by
  intro h
  have hreadable : shared.ReadableUnder 1 .anonymous "dist/core.zip" coreRow :=
    ⟨⟨⟨rfl, rfl⟩, rfl, Or.inl rfl, rfl, rfl⟩, by with_unfolding_all rfl⟩
  have hsecret : shared.RecordedUnder 1 "dist/core.zip" secretRow :=
    ⟨⟨rfl, rfl⟩, rfl, Or.inl rfl, rfl, rfl⟩
  have hstore : HoldsDists blobs shared := by
    intro r sha hr hsha
    rcases stored_shared hr with rfl | rfl
    · rw [← Option.some.inj hsha]
      rfl
    · rw [← Option.some.inj hsha]
      rfl
  obtain ⟨sha, hserved⟩ := h.answers.2 ⟨coreRow, hreadable⟩
  obtain ⟨r, hfirst, hallows, -⟩ := (serveUpstreamPath_blob_iff keyed_injective hstore sha).1 hserved
  rcases stored_shared hfirst.1.stored with rfl | rfl
  · -- the private version is not readable
    have hhidden : Access.anonymous.allows shared 1 secretRow.package.name = false := by
      with_unfolding_all rfl
    exact absurd (hallows.symm.trans hhidden) nofun
  · -- and has the lesser id
    have hleast : keyed.versionId coreRow.key ≤ keyed.versionId secretRow.key :=
      hfirst.2 secretRow hsecret
    have hless : keyed.versionId secretRow.key < keyed.versionId coreRow.key := by
      show Encodable.encode (1, _) < Encodable.encode (2, _)
      rw [Encodable.encode_prod_val, Encodable.encode_prod_val]
      exact Nat.pair_lt_pair_left _ (by decide)
    exact absurd hleast (not_le.2 hless)

end LockFiles

end Sconce
