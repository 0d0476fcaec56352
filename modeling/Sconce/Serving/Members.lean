/-
# Member repositories

A repository can serve what other repositories own.  A name several members own is served
from the first of them alone, on every read path, whether or not the first one's package may
be shown.
-/
import Sconce.Serving.Scope

namespace Sconce

namespace Catalog

/-! ## The first owner of a name -/

variable (db : Catalog) (repo : Uuid)

/-- `unique (repo_id, name)` of `packages`, `unique (repo_id, position)` of
`repository_members`. -/
structure MemberKeys : Prop where
  package : ∀ id p id' p', db.packages.get? id = some p → db.packages.get? id' = some p' →
    p.repoId = p'.repoId → p.name = p'.name → id = id'
  position : ∀ m m' position, db.repositoryMembers.get? (repo, m) = some position →
    db.repositoryMembers.get? (repo, m') = some position → m = m'

/-- The repository serves the packages of its members and nothing else. -/
structure MadeOfMembers : Prop where
  ownsNothing : ∀ id p, db.packages.get? id = some p → p.repoId ≠ repo
  noGrants : ∀ id, db.repositoryGrants.get? (repo, id) = none
  noGrantRules : ∀ id rule, db.repositoryGrantRules.get? id = some rule → rule.targetRepoId ≠ repo

/-- The package of the lowest-position member that owns the name. -/
structure FirstOwner (name : String) (id : Uuid) (p : Package) : Prop where
  stored : db.packages.get? id = some p
  named : p.name = name
  first : ∃ position, db.repositoryMembers.get? (repo, p.repoId) = some position ∧
    ∀ id' p' position', db.packages.get? id' = some p' → p'.name = name →
      db.repositoryMembers.get? (repo, p'.repoId) = some position' → position ≤ position'

variable {db repo}

/-- A name has one first owner. -/
theorem FirstOwner.unique (hkeys : db.MemberKeys repo) {name : String} {id id' : Uuid}
    {p p' : Package} (h : db.FirstOwner repo name id p) (h' : db.FirstOwner repo name id' p') :
    id = id' := by
  obtain ⟨position, hposition, hleast⟩ := h.first
  obtain ⟨position', hposition', hleast'⟩ := h'.first
  have hle := hleast id' p' position' h'.stored h'.named hposition'
  have hge := hleast' id p position h.stored h.named hposition
  have hsame : position = position' := le_antisymm hle hge
  subst hsame
  exact hkeys.package id p id' p' h.stored h'.stored
    (hkeys.position _ _ position hposition hposition') (h.named.trans h'.named.symm)

/-- A position is shadowed where a member before it owns the name. -/
theorem shadowed_iff (position : ℤ) (name : String) :
    db.shadowed repo position name = true ↔ ∃ id p position', db.packages.get? id = some p ∧
      p.name = name ∧ db.repositoryMembers.get? (repo, p.repoId) = some position' ∧
      position' < position := by
  unfold shadowed
  simp only [List.any_eq_true, Bool.and_eq_true, beq_iff_eq, decide_eq_true_eq, Prod.exists,
    Table.mem_rows_iff]
  constructor
  · rintro ⟨_, m, position', hmember, ⟨rfl, hlt⟩, id, p, hget, rfl, hname⟩
    exact ⟨id, p, position', hget, hname, hmember, hlt⟩
  · rintro ⟨id, p, position', hget, hname, hmember, hlt⟩
    exact ⟨repo, p.repoId, position', hmember, ⟨rfl, hlt⟩, id, p, hget, rfl, hname⟩

/-- The subquery selects the first owner of each name. -/
theorem memberExists_iff {id : Uuid} {p : Package} (hget : db.packages.get? id = some p) :
    db.memberExists repo p = true ↔ db.FirstOwner repo p.name id p := by
  unfold memberExists
  simp only [List.any_eq_true, Bool.and_eq_true, beq_iff_eq, Bool.not_eq_true',
    ← Bool.not_eq_true, shadowed_iff, Prod.exists, Table.mem_rows_iff]
  constructor
  · rintro ⟨_, _, position, hmember, ⟨rfl, rfl⟩, hunshadowed⟩
    refine ⟨hget, rfl, position, hmember, fun id' p' position' hget' hname hmember' => ?_⟩
    by_contra hlt
    exact hunshadowed ⟨id', p', position', hget', hname, hmember', not_le.1 hlt⟩
  · rintro ⟨-, -, position, hmember, hleast⟩
    refine ⟨repo, p.repoId, position, hmember, ⟨rfl, rfl⟩, ?_⟩
    rintro ⟨id', p', position', hget', hname, hmember', hlt⟩
    exact absurd (hleast id' p' position' hget' hname hmember') (not_le.2 hlt)

/-! ## What reaches a repository made of members -/

/-- Nothing reaches it but the first owner of each name. -/
theorem MadeOfMembers.reaches_iff (h : db.MadeOfMembers repo) {id : Uuid} {p : Package}
    (hget : db.packages.get? id = some p) :
    db.reaches repo id p = true ↔ db.FirstOwner repo p.name id p := by
  have hrule : db.grantRuleExists repo id p = false := by
    unfold grantRuleExists
    rw [List.any_eq_false]
    rintro ⟨rule, gr⟩ hrow
    have htarget := h.noGrantRules rule gr ((db.repositoryGrantRules.mem_rows_iff rule gr).1 hrow)
    simp [htarget]
  unfold reaches
  rw [beq_false_of_ne (h.ownsNothing id p hget), h.noGrants id, hrule]
  exact memberExists_iff hget

/-- What is served belongs to the first owner of its name. -/
theorem MadeOfMembers.firstOwner_of_served (h : db.MadeOfMembers repo) {r : VersionRow}
    (hstored : db.Stored r) (hserved : db.servedScope repo r.key.packageId r.package = true) :
    db.FirstOwner repo r.package.name r.key.packageId r.package := by
  unfold servedScope at hserved
  exact (h.reaches_iff hstored.1).1 (Bool.and_eq_true_iff.1 hserved).1

variable (db repo)

/-- Every read path draws a name from its first owner, and a name has one. -/
structure OneSourcePerName : Prop where
  unique : ∀ name id p id' p', db.FirstOwner repo name id p → db.FirstOwner repo name id' p' →
    id = id'
  allPackageNames : ∀ name, name ∈ db.allPackageNames repo ↔
    ∃ id p, db.FirstOwner repo name id p ∧ db.admits repo p = true
  anonymousPackageNames : ∀ only name, name ∈ db.anonymousPackageNames repo only ↔
    (∀ n, only = some n → name = n) ∧
      ∃ id p, db.FirstOwner repo name id p ∧ p.visibility = .public
  visibleVersions : ∀ ses compareNormalized now name mode cooldownDays untilUnix major rows,
    db.visibleVersions repo ses compareNormalized now name mode cooldownDays untilUnix major
      = .ok rows → ∀ r ∈ rows, db.Stored r ∧ db.FirstOwner repo name r.key.packageId r.package
  servedVersionSummaries : ∀ ses compareNormalized now mode cooldownDays rows,
    db.servedVersionSummaries repo ses compareNormalized now mode cooldownDays = .ok rows →
      ∀ r ∈ rows, db.Stored r ∧ db.FirstOwner repo r.package.name r.key.packageId r.package
  repoServesDist : ∀ name blob, db.repoServesDist repo name blob = true →
    ∃ r, db.Stored r ∧ db.FirstOwner repo name r.key.packageId r.package ∧
      r.version.distBlobSha256 = some blob
  distByUpstreamPath : ∀ versionId path name blob,
    db.distByUpstreamPath repo versionId path = some (name, blob) →
    ∃ r, db.Stored r ∧ db.FirstOwner repo name r.key.packageId r.package ∧
      r.version.distBlobSha256 = some blob ∧ r.version.upstreamDistPath = some path

/-! ## The read paths -/

variable {db repo}

/-- The names listed to full readers are those whose first owner is admitted. -/
theorem MadeOfMembers.mem_allPackageNames_iff (h : db.MadeOfMembers repo) (name : String) :
    name ∈ db.allPackageNames repo ↔
      ∃ id p, db.FirstOwner repo name id p ∧ db.admits repo p = true := by
  unfold allPackageNames
  simp only [List.mem_insertionSort, List.mem_dedup, List.mem_map, List.mem_filter, Prod.exists,
    Table.mem_rows_iff]
  constructor
  · rintro ⟨id, p, ⟨hget, hserved⟩, rfl⟩
    obtain ⟨hreaches, hadmits⟩ := Bool.and_eq_true_iff.1 hserved
    exact ⟨id, p, (h.reaches_iff hget).1 hreaches, hadmits⟩
  · rintro ⟨id, p, howner, hadmits⟩
    have hreaches := (h.reaches_iff howner.stored).2 (howner.named.symm ▸ howner)
    exact ⟨id, p, ⟨howner.stored, Bool.and_eq_true_iff.2 ⟨hreaches, hadmits⟩⟩, howner.named⟩

/-- The names listed to anonymous readers are those whose first owner is public. -/
theorem MadeOfMembers.mem_anonymousPackageNames_iff (h : db.MadeOfMembers repo)
    (hkeys : db.MemberKeys repo) (only : Option String) (name : String) :
    name ∈ db.anonymousPackageNames repo only ↔ (∀ n, only = some n → name = n) ∧
      ∃ id p, db.FirstOwner repo name id p ∧ p.visibility = .public := by
  rw [mem_anonymousPackageNames]
  refine and_congr_right fun _ => ?_
  constructor
  · rintro ⟨⟨id, p, hget, hreaches, rfl⟩, hpublic⟩
    exact ⟨id, p, (h.reaches_iff hget).1 hreaches, hpublic id p hget hreaches rfl⟩
  · rintro ⟨id, p, howner, hpublic⟩
    have hreaches := (h.reaches_iff howner.stored).2 (howner.named.symm ▸ howner)
    refine ⟨⟨id, p, howner.stored, hreaches, howner.named⟩, ?_⟩
    intro id' p' hget' hreaches' hname'
    -- the row the name is drawn from is the only one that reaches the repository
    have howner' : db.FirstOwner repo name id' p' := hname' ▸ (h.reaches_iff hget').1 hreaches'
    obtain rfl := FirstOwner.unique hkeys howner howner'
    obtain rfl := Option.some.inj (howner.stored.symm.trans hget')
    exact hpublic

/-- A lock file's path opens the archive of a first owner. -/
theorem MadeOfMembers.firstOwner_of_upstreamPath (h : db.MadeOfMembers repo)
    {versionId : VersionKey → Uuid} {path name : String} {blob : Sha256}
    (hpath : db.distByUpstreamPath repo versionId path = some (name, blob)) :
    ∃ r, db.Stored r ∧ db.FirstOwner repo name r.key.packageId r.package ∧
      r.version.distBlobSha256 = some blob ∧ r.version.upstreamDistPath = some path := by
  unfold distByUpstreamPath at hpath
  obtain ⟨r, hhead, hblob⟩ := Option.bind_eq_some_iff.1 hpath
  obtain ⟨blob', hsome, hpair⟩ := Option.map_eq_some_iff.1 hblob
  obtain ⟨rfl, rfl⟩ := Prod.mk.inj hpair
  have hmem := List.mem_of_mem_head? hhead
  rw [List.mem_mergeSort, List.mem_filter, mem_versionRows] at hmem
  simp only [Bool.and_eq_true, Bool.or_eq_true, beq_iff_eq] at hmem
  obtain ⟨hstored, ⟨⟨howned | hmember, hupstream⟩, -⟩, -⟩ := hmem
  · exact absurd howned (h.ownsNothing _ _ hstored.1)
  · exact ⟨r, hstored, (memberExists_iff hstored.1).1 hmember, hsome, hupstream⟩

/-- **One source per name.** In a repository made of members every read path draws each name
from the package of the lowest-position member that owns the name, and from no other. -/
theorem members_shadow (db : Catalog) (repo : Uuid) (hmembers : db.MadeOfMembers repo)
    (hkeys : db.MemberKeys repo) : db.OneSourcePerName repo where
  unique := fun _ _ _ _ _ h h' => h.unique hkeys h'
  allPackageNames := hmembers.mem_allPackageNames_iff
  anonymousPackageNames := hmembers.mem_anonymousPackageNames_iff hkeys
  visibleVersions := by
    intro ses compareNormalized now name mode cooldownDays untilUnix major rows hrows r hr
    let bound : LicenseBound := ⟨none, untilUnix, major⟩
    have hbounded : db.visibleVersions repo ses compareNormalized now name mode cooldownDays
        bound.untilUnix bound.major = .ok rows := hrows
    obtain ⟨hstored, rfl, hserved, -⟩ := (db.mem_visibleVersions repo hbounded r).1 hr
    exact ⟨hstored, hmembers.firstOwner_of_served hstored hserved⟩
  servedVersionSummaries := by
    intro ses compareNormalized now mode cooldownDays rows hrows r hr
    obtain ⟨hstored, hserved, -⟩ := (db.mem_servedVersionSummaries repo hrows r).1 hr
    exact ⟨hstored, hmembers.firstOwner_of_served hstored hserved⟩
  repoServesDist := by
    intro name blob hserves
    obtain ⟨r, hstored, rfl, hblob, hserved, -⟩ := (db.repoServesDist_iff repo name blob).1 hserves
    exact ⟨r, hstored, hmembers.firstOwner_of_served hstored hserved, hblob⟩
  distByUpstreamPath := fun _ _ _ _ => hmembers.firstOwner_of_upstreamPath

end Catalog

namespace Composed

/-- A public package of a repository. -/
def package (repoId : Uuid) (name : String) : Package where
  repoId := repoId
  name := name
  kind := "upload"
  source := none
  visibility := .public
  visibilityDeclaredAt := none
  upstreamId := none
  sourcePath := ""
  syncHealth := .ok
  brokenReason := none
  brokenAt := none
  lastSuccessAt := none
  archivedAt := none

def archive (n : UInt8) : Sha256 := ⟨.replicate 32 n⟩

/-- A stable version with this archive. -/
def release (version : String) (n : UInt8) : PackageVersion :=
  .inserted version "stable" (.object []) (some (archive n)) none none none none

/-- Repository 1 serves repository 2 before repository 3; both own the name and have versions
of it, the second more. -/
def store : Catalog :=
  { Catalog.empty with
    organizations := ⟨[(1, ⟨"acme", none⟩)], by decide⟩
    repositories := ⟨[(1, ⟨1, "all", .auto, 0, true, true, none, none, none⟩),
      (2, ⟨1, "own", .auto, 0, true, true, none, none, none⟩),
      (3, ⟨1, "mirror", .auto, 0, true, true, none, none, none⟩)], by decide⟩
    repositoryMembers := ⟨[((1, 3), 1), ((1, 2), 0)], by decide⟩
    packages := ⟨[(1, package 3 "acme/core"), (2, package 2 "acme/core"),
      (3, package 3 "acme/theme")], by decide⟩
    packageVersions := ⟨[(⟨1, "1.0.0.0"⟩, release "1.0.0" 3), (⟨1, "2.0.0.0"⟩, release "2.0.0" 4),
      (⟨2, "1.0.0.0"⟩, release "1.0.0" 2)], by decide⟩ }

/-- The repository of the example serves its members and nothing else. -/
theorem madeOfMembers : store.MadeOfMembers 1 where
  ownsNothing := by
    intro id p hget
    have hall : ∀ r ∈ store.packages.rows, r.2.repoId ≠ 1 := by decide
    exact hall (id, p) ((store.packages.mem_rows_iff id p).2 hget)
  noGrants := fun _ => rfl
  noGrantRules := by
    intro id rule hget
    cases hget

theorem memberKeys : store.MemberKeys 1 where
  package := by
    intro id p id' p' hget hget' hrepo hname
    have hall : ∀ r ∈ store.packages.rows, ∀ r' ∈ store.packages.rows,
        r.2.repoId = r'.2.repoId → r.2.name = r'.2.name → r.1 = r'.1 := by decide
    exact hall (id, p) ((store.packages.mem_rows_iff id p).2 hget) (id', p')
      ((store.packages.mem_rows_iff id' p').2 hget') hrepo hname
  position := by
    intro m m' position hget hget'
    have hall : ∀ r ∈ store.repositoryMembers.rows, ∀ r' ∈ store.repositoryMembers.rows,
        r.2 = r'.2 → r.1.2 = r'.1.2 := by decide
    exact hall ((1, m), position) ((store.repositoryMembers.mem_rows_iff _ _).2 hget)
      ((1, m'), position) ((store.repositoryMembers.mem_rows_iff _ _).2 hget') rfl

/-- The archive served is the first owner's; those of the second are not, the newer one
included. -/
theorem members_shadow_store : store.OneSourcePerName 1 ∧
    store.repoServesDist 1 "acme/core" (archive 2) = true ∧
    store.repoServesDist 1 "acme/core" (archive 3) = false ∧
    store.repoServesDist 1 "acme/core" (archive 4) = false :=
  ⟨Catalog.members_shadow store 1 madeOfMembers memberKeys, by decide, by decide, by decide⟩

end Composed

end Sconce
