/-
# What a repository serves

The queries behind the read routes.  A package reaches a repository as its own, through a
grant, through a grant rule, or as a member repository's package that no earlier member
shadows; `servedScope` takes the private ones away in a public-only repository.

Every query lists the rows it selects with their keys, so that what is served can be traced
to the stored row it comes from.
-/
import Sconce.Licensing.BoundClause
import Sconce.Versions.Store

namespace Sconce

/-! ## Selecting with a condition that can fail -/

/-- The rows a condition selects; the first row it fails on fails the query. -/
def selectRows {ε ρ : Type} (p : ρ → Except ε Bool) : List ρ → Except ε (List ρ)
  | [] => .ok []
  | r :: rows => do
    let keep ← p r
    let rest ← selectRows p rows
    return if keep then r :: rest else rest

/-- The rows of an answered query are those its condition holds of. -/
theorem mem_selectRows {ε ρ : Type} {p : ρ → Except ε Bool} {rows out : List ρ}
    (h : selectRows p rows = .ok out) (r : ρ) : r ∈ out ↔ r ∈ rows ∧ p r = .ok true := by
  induction rows generalizing out with
  | nil =>
    cases h
    simp
  | cons r' rows ih =>
    unfold selectRows at h
    cases hp : p r' with
    -- a row that fails fails the query
    | error e =>
      rw [hp] at h
      cases h
    | ok keep =>
      cases hrest : selectRows p rows with
      | error e =>
        rw [hp, hrest] at h
        cases h
      | ok rest =>
        rw [hp, hrest] at h
        have hout : (if keep then r' :: rest else rest) = out := Except.ok.inj h
        rw [← hout, List.mem_cons]
        have htail := ih hrest
        cases keep with
        | true =>
          rw [if_pos rfl, List.mem_cons, htail]
          constructor
          · rintro (rfl | ⟨hmem, hr⟩)
            · exact ⟨.inl rfl, hp⟩
            · exact ⟨.inr hmem, hr⟩
          · rintro ⟨rfl | hmem, hr⟩
            · exact .inl rfl
            · exact .inr ⟨hmem, hr⟩
        | false =>
          rw [if_neg nofun, htail]
          constructor
          · rintro ⟨hmem, hr⟩
            exact ⟨.inr hmem, hr⟩
          · rintro ⟨rfl | hmem, hr⟩
            · exact absurd (hp.symm.trans hr) nofun
            · exact ⟨hmem, hr⟩

/-- A condition that fails on no row selects as a filter does. -/
theorem selectRows_eq_filter {ε ρ : Type} {p : ρ → Except ε Bool} {f : ρ → Bool} {rows : List ρ}
    (h : ∀ r ∈ rows, p r = .ok (f r)) : selectRows p rows = .ok (rows.filter f) := by
  induction rows with
  | nil => rfl
  | cons r rows ih =>
    rw [List.forall_mem_cons] at h
    unfold selectRows
    rw [h.1, ih h.2, List.filter_cons]
    rfl

/-- A query that fails does so on one of the rows. -/
theorem exists_of_selectRows_error {ε ρ : Type} {p : ρ → Except ε Bool} {rows : List ρ} {e : ε}
    (h : selectRows p rows = .error e) : ∃ r ∈ rows, p r = .error e := by
  induction rows with
  | nil => cases h
  | cons r rows ih =>
    unfold selectRows at h
    cases hr : p r with
    | error e' =>
      rw [hr] at h
      obtain rfl := Except.error.inj h
      exact ⟨r, List.mem_cons_self, hr⟩
    | ok keep =>
      cases hrest : selectRows p rows with
      | error e' =>
        rw [hr, hrest] at h
        obtain rfl := Except.error.inj h
        obtain ⟨r', hr', hfails⟩ := ih hrest
        exact ⟨r', List.mem_cons_of_mem r hr', hfails⟩
      | ok rest =>
        rw [hr, hrest] at h
        cases h

/-- The query answers exactly when the condition fails on no row. -/
theorem selectRows_ok_iff {ε ρ : Type} (p : ρ → Except ε Bool) (rows : List ρ) :
    (∃ out, selectRows p rows = .ok out) ↔ ∀ r ∈ rows, ∃ keep, p r = .ok keep := by
  induction rows with
  | nil => exact iff_of_true ⟨[], rfl⟩ fun r hr => absurd hr List.not_mem_nil
  | cons r rows ih =>
    rw [List.forall_mem_cons, ← ih, selectRows]
    cases p r with
    | error e =>
      constructor
      · rintro ⟨_, ⟨⟩⟩
      · rintro ⟨⟨_, ⟨⟩⟩, -⟩
    | ok keep =>
      cases selectRows p rows with
      | error e =>
        constructor
        · rintro ⟨_, ⟨⟩⟩
        · rintro ⟨-, _, ⟨⟩⟩
      | ok rest => exact iff_of_true ⟨_, rfl⟩ ⟨⟨keep, rfl⟩, rest, rfl⟩

/-- `a and b`: the second condition is asked where the first one holds. -/
def andAlso {ε : Type} (a b : Except ε Bool) : Except ε Bool := do
  if ← a then b else return false

/-- What fails in a conjunction fails in one of its parts. -/
theorem andAlso_error {ε : Type} {a b : Except ε Bool} {e : ε} (h : andAlso a b = .error e) :
    a = .error e ∨ b = .error e := by
  cases a with
  | error e' =>
    obtain rfl := Except.error.inj h
    exact .inl rfl
  | ok holds =>
    cases holds with
    | false => cases h
    | true => exact .inr h

/-- A conjunction holds where both parts do. -/
theorem andAlso_ok_true_iff {ε : Type} (a b : Except ε Bool) :
    andAlso a b = .ok true ↔ a = .ok true ∧ b = .ok true := by
  cases a with
  | error e => exact iff_of_false nofun fun h => nomatch h.1
  | ok holds =>
    cases holds with
    | false => exact iff_of_false nofun fun h => nomatch h.1
    | true => exact (and_iff_right rfl).symm

/-- Both conditions answer, the second one if it is asked. -/
theorem andAlso_ok_iff {ε : Type} (a b : Except ε Bool) :
    (∃ keep, andAlso a b = .ok keep) ↔
      (∃ keep, a = .ok keep) ∧ (a = .ok true → ∃ keep, b = .ok keep) := by
  cases a with
  | error e => exact iff_of_false (fun ⟨_, h⟩ => nomatch h) fun ⟨⟨_, h⟩, _⟩ => nomatch h
  | ok holds =>
    cases holds with
    | false => exact iff_of_true ⟨false, rfl⟩ ⟨⟨false, rfl⟩, nofun⟩
    | true =>
      constructor
      · intro h
        exact ⟨⟨true, rfl⟩, fun _ => h⟩
      · rintro ⟨-, h⟩
        exact h rfl

/-! ## Reaching a repository -/

namespace Catalog

variable (db : Catalog) (repo : Uuid)

/-- `GRANT_RULE_EXISTS`: a set the repository subscribes to takes the package in. -/
def grantRuleExists (id : Uuid) (p : Package) : Bool :=
  db.repositoryGrantRules.rows.any fun gr =>
    gr.2.targetRepoId == repo && (db.packageSets.get? gr.2.setId).isSome &&
      db.setCovers gr.2.setId id p

/-- An earlier member than the one at `position` owns a package of the name. -/
def shadowed (position : ℤ) (name : String) : Bool :=
  db.repositoryMembers.rows.any fun m₂ =>
    m₂.1.1 == repo && decide (m₂.2 < position) &&
      db.packages.rows.any fun p₂ => p₂.2.repoId == m₂.1.2 && p₂.2.name == name

/-- `MEMBER_EXISTS`: a member repository owns the package, and no earlier one shadows it. -/
def memberExists (p : Package) : Bool :=
  db.repositoryMembers.rows.any fun m =>
    m.1.1 == repo && m.1.2 == p.repoId && !db.shadowed repo m.2 p.name

/-- The four ways a package reaches a repository. -/
def reaches (id : Uuid) (p : Package) : Bool :=
  p.repoId == repo || (db.repositoryGrants.get? (repo, id)).isSome ||
    db.grantRuleExists repo id p || db.memberExists repo p

/-- `r.allow_private_packages or p.visibility = 'public'`. -/
def admits (p : Package) : Bool :=
  (db.repositories.get? repo).any fun r => r.allowPrivatePackages || p.visibility = .public

/-- `served_scope`. -/
def servedScope (id : Uuid) (p : Package) : Bool := db.reaches repo id p && db.admits repo p

/-! ## Names -/

/-- `all_package_names`. -/
def allPackageNames : List String :=
  ((db.packages.rows.filter fun r => db.servedScope repo r.1 r.2).map (·.2.name)).dedup.insertionSort
    (· ≤ ·)

/-- `anonymous_package_names`: the names, of one only when it is given, whose every package
that reaches the repository is public. -/
def anonymousPackageNames (only : Option String) : List String :=
  let rows := db.packages.rows.filter fun r =>
    db.reaches repo r.1 r.2 && only.all (r.2.name == ·)
  ((rows.map (·.2.name)).dedup.filter fun name =>
    rows.all fun r => r.2.name != name || r.2.visibility = .public).insertionSort (· ≤ ·)

/-- A name is anonymous where every package of it that reaches the repository is public. -/
theorem mem_anonymousPackageNames (only : Option String) (name : String) :
    name ∈ db.anonymousPackageNames repo only ↔
      (∀ n, only = some n → name = n) ∧
        (∃ id p, db.packages.get? id = some p ∧ db.reaches repo id p = true ∧ p.name = name) ∧
        ∀ id p, db.packages.get? id = some p → db.reaches repo id p = true → p.name = name →
          p.visibility = .public := by
  unfold anonymousPackageNames
  simp only [List.mem_insertionSort, List.mem_filter, List.mem_dedup, List.mem_map,
    List.all_eq_true, Bool.and_eq_true, Bool.or_eq_true, bne_iff_ne, decide_eq_true_eq,
    Prod.exists, Prod.forall, Table.mem_rows_iff]
  have honly : ∀ n, only.all (n == ·) = true ↔ ∀ m, only = some m → n = m := by
    intro n
    cases only <;> simp
  simp only [honly]
  constructor
  · rintro ⟨⟨id, p, ⟨hget, hreach, hname⟩, rfl⟩, hall⟩
    refine ⟨hname, ⟨id, p, hget, hreach, rfl⟩, fun id' p' hget' hreach' hsame => ?_⟩
    rcases hall id' p' ⟨hget', hreach', fun m hm => hsame.trans (hname m hm)⟩ with hne | hpublic
    · exact absurd hsame hne
    · exact hpublic
  · rintro ⟨hname, ⟨id, p, hget, hreach, rfl⟩, hpublic⟩
    refine ⟨⟨id, p, ⟨hget, hreach, hname⟩, rfl⟩, fun id' p' h' => ?_⟩
    by_cases hsame : p'.name = p.name
    · exact .inr (hpublic id' p' h'.1 h'.2.1 hsame)
    · exact .inl hsame

/-! ## Versions -/

/-- A row of `package_versions pv join packages p`. -/
structure VersionRow where
  package : Package
  key : VersionKey
  version : PackageVersion

/-- `package_versions pv join packages p on p.id = pv.package_id`. -/
def versionRows : List VersionRow :=
  db.packageVersions.rows.filterMap fun r =>
    (db.packages.get? r.1.packageId).map fun p => ⟨p, r.1, r.2⟩

/-- The row joins what is stored. -/
def Stored (r : VersionRow) : Prop :=
  db.packages.get? r.key.packageId = some r.package ∧
    db.packageVersions.get? r.key = some r.version

/-- The rows of the join are the stored ones. -/
theorem mem_versionRows (r : VersionRow) : r ∈ db.versionRows ↔ db.Stored r := by
  unfold versionRows Stored
  simp only [List.mem_filterMap, Option.map_eq_some_iff, Prod.exists, Table.mem_rows_iff]
  constructor
  · rintro ⟨key, pv, hget, p, hp, rfl⟩
    exact ⟨hp, hget⟩
  · rintro ⟨hp, hget⟩
    exact ⟨r.key, r.version, hget, r.package, hp, rfl⟩

/-- `repo_serves_dist`. -/
def repoServesDist (name : String) (blob : Sha256) : Bool :=
  db.versionRows.any fun r =>
    r.package.name == name && r.version.distBlobSha256 == some blob &&
      db.servedScope repo r.key.packageId r.package && r.version.yankedAt.isNone

/-- An archive is served where a served version that is not yanked has it. -/
theorem repoServesDist_iff (name : String) (blob : Sha256) :
    db.repoServesDist repo name blob = true ↔ ∃ r, db.Stored r ∧ r.package.name = name ∧
      r.version.distBlobSha256 = some blob ∧
      db.servedScope repo r.key.packageId r.package = true ∧ r.version.yankedAt = none := by
  unfold repoServesDist
  simp only [List.any_eq_true, mem_versionRows, Bool.and_eq_true, beq_iff_eq,
    Option.isNone_iff_eq_none, and_assoc]

/-- `dist_by_upstream_path`: of the packages the repository or a member owns, the version of
the path with the least `id`. -/
def distByUpstreamPath (versionId : VersionKey → Uuid) (path : String) : Option (String × Sha256) :=
  let rows := db.versionRows.filter fun r =>
    (r.package.repoId == repo || db.memberExists repo r.package) &&
      r.version.upstreamDistPath == some path && db.admits repo r.package &&
      r.version.yankedAt.isNone
  ((rows.mergeSort fun a b => versionId a.key ≤ versionId b.key).head?).bind fun r =>
    r.version.distBlobSha256.map fun blob => (r.package.name, blob)

/-- What an upstream path opens is what the repository serves for the package. -/
theorem repoServesDist_of_distByUpstreamPath {versionId : VersionKey → Uuid} {path name : String}
    {blob : Sha256} (h : db.distByUpstreamPath repo versionId path = some (name, blob)) :
    db.repoServesDist repo name blob = true := by
  unfold distByUpstreamPath at h
  obtain ⟨r, hhead, hblob⟩ := Option.bind_eq_some_iff.1 h
  obtain ⟨blob', hsome, hpair⟩ := Option.map_eq_some_iff.1 hblob
  have hmem := List.mem_of_mem_head? hhead
  rw [List.mem_mergeSort, List.mem_filter, mem_versionRows] at hmem
  simp only [Bool.and_eq_true, Bool.or_eq_true, Option.isNone_iff_eq_none] at hmem
  obtain ⟨hstored, ⟨⟨howned, -⟩, hadmits⟩, hyanked⟩ := hmem
  rw [Prod.mk.injEq] at hpair
  rw [repoServesDist_iff]
  refine ⟨r, hstored, hpair.1, hsome.trans (congrArg some hpair.2), ?_, hyanked⟩
  unfold servedScope reaches
  rw [hadmits, Bool.and_true]
  rcases howned with howned | hmember
  · rw [howned]
    rfl
  · rw [hmember, Bool.or_true]

/-- The condition of `visible_versions` on a row, its parts in the order they are written. -/
def versionClause (ses : Session) (now : Timestamp) (name : String) (mode : UpdateMode)
    (cooldownDays : ℤ) (untilUnix major : Option ℤ) (r : VersionRow) : Except SqlError Bool :=
  andAlso (.ok (r.package.name == name && db.servedScope repo r.key.packageId r.package)) <|
    andAlso (gateClause ses now mode cooldownDays r.version) <|
      andAlso (dateClause ses untilUnix r.version) (majorClause major r.key.normalizedVersion)

/-- A version is selected where every clause answers and holds. -/
theorem versionClause_ok_true_iff (ses : Session) (now : Timestamp) (name : String)
    (mode : UpdateMode) (cooldownDays : ℤ) (untilUnix major : Option ℤ) (r : VersionRow) :
    db.versionClause repo ses now name mode cooldownDays untilUnix major r = .ok true ↔
      (r.package.name = name ∧ db.servedScope repo r.key.packageId r.package = true) ∧
        gateClause ses now mode cooldownDays r.version = .ok true ∧
        dateClause ses untilUnix r.version = .ok true ∧
        majorClause major r.key.normalizedVersion = .ok true := by
  unfold versionClause
  rw [andAlso_ok_true_iff, andAlso_ok_true_iff, andAlso_ok_true_iff, Except.ok.injEq,
    Bool.and_eq_true, beq_iff_eq]

/-- `sort_versions_ascending`, by what `compare_normalized` says of two normalized
versions. -/
def sortVersionsAscending (compareNormalized : String → String → Ordering)
    (rows : List VersionRow) : List VersionRow :=
  rows.mergeSort fun a b =>
    (compareNormalized a.key.normalizedVersion b.key.normalizedVersion).isLE

/-- `visible_versions`. -/
def visibleVersions (ses : Session) (compareNormalized : String → String → Ordering)
    (now : Timestamp) (name : String) (mode : UpdateMode) (cooldownDays : ℤ)
    (untilUnix major : Option ℤ) : Except SqlError (List VersionRow) :=
  (selectRows (db.versionClause repo ses now name mode cooldownDays untilUnix major)
    db.versionRows).map (sortVersionsAscending compareNormalized)

/-- The condition answers on a row that is served: each date it computes is in range, and a major
that it compares reads as an `int`. -/
structure VersionRow.Answers (ses : Session) (now : Timestamp) (mode : UpdateMode)
    (cooldownDays : ℤ) (untilUnix major : Option ℤ) (r : VersionRow) : Prop where
  gate : GateInRange ses mode cooldownDays r.version
  dates : policyGate ses now mode cooldownDays r.version = true →
    DatesInRange ses untilUnix r.version
  major : policyGate ses now mode cooldownDays r.version = true →
    timeClause ses untilUnix r.version = true → major.isSome → ReadsMajor r.key.normalizedVersion

/-- The condition answers on the rows that are not served, and on those it is in range for. -/
theorem versionClause_ok_iff (ses : Session) (now : Timestamp) (name : String)
    (mode : UpdateMode) (cooldownDays : ℤ) (untilUnix major : Option ℤ) (r : VersionRow) :
    (∃ keep, db.versionClause repo ses now name mode cooldownDays untilUnix major r = .ok keep) ↔
      (r.package.name = name → db.servedScope repo r.key.packageId r.package = true →
        r.Answers ses now mode cooldownDays untilUnix major) := by
  have hmajor : (∃ keep, majorClause major r.key.normalizedVersion = .ok keep) ↔
      (major.isSome → ReadsMajor r.key.normalizedVersion) := by
    cases major with
    | none => exact iff_of_true ⟨true, rfl⟩ nofun
    | some cap => exact (majorClause_ok_iff cap _).trans ⟨fun h _ => h, fun h => h rfl⟩
  have hanswers : (∃ keep, andAlso (gateClause ses now mode cooldownDays r.version)
      (andAlso (dateClause ses untilUnix r.version)
        (majorClause major r.key.normalizedVersion)) = .ok keep) ↔
      r.Answers ses now mode cooldownDays untilUnix major := by
    rw [andAlso_ok_iff, andAlso_ok_iff, hmajor]
    rcases gateClause_cases ses now mode cooldownDays r.version with ⟨hgate, hrun⟩ | ⟨hgate, hrun⟩
    · rw [hrun, Except.ok.injEq, and_iff_right ⟨_, rfl⟩]
      rcases dateClause_cases ses untilUnix r.version with ⟨hdates, hrun'⟩ | ⟨hdates, hrun'⟩
      · rw [hrun', Except.ok.injEq, and_iff_right ⟨_, rfl⟩]
        constructor
        · intro h
          exact ⟨hgate, fun _ => hdates, h⟩
        · rintro ⟨-, -, h⟩
          exact h
      · rw [hrun']
        constructor
        · intro h
          have hnot : ¬ policyGate ses now mode cooldownDays r.version = true := fun hpasses =>
            absurd (h hpasses).1 fun ⟨_, hok⟩ => nomatch hok
          exact ⟨hgate, fun hpasses => absurd hpasses hnot, fun hpasses => absurd hpasses hnot⟩
        · rintro ⟨-, hin, -⟩ hpasses
          exact absurd (hin hpasses) hdates
    · rw [hrun]
      exact iff_of_false (fun ⟨⟨_, hok⟩, _⟩ => nomatch hok) fun h => hgate h.gate
  unfold versionClause
  rw [andAlso_ok_iff, and_iff_right ⟨_, rfl⟩, hanswers, Except.ok.injEq, Bool.and_eq_true,
    beq_iff_eq, and_imp]

/-- The query answers exactly when its condition does on every row that is served of the name. -/
theorem visibleVersions_ok_iff (ses : Session) (compareNormalized : String → String → Ordering)
    (now : Timestamp) (name : String) (mode : UpdateMode) (cooldownDays : ℤ)
    (untilUnix major : Option ℤ) :
    (∃ rows, db.visibleVersions repo ses compareNormalized now name mode cooldownDays untilUnix major
        = .ok rows) ↔
      ∀ r, db.Stored r → r.package.name = name →
        db.servedScope repo r.key.packageId r.package = true →
        r.Answers ses now mode cooldownDays untilUnix major := by
  have hrows := selectRows_ok_iff
    (db.versionClause repo ses now name mode cooldownDays untilUnix major) db.versionRows
  simp only [mem_versionRows, versionClause_ok_iff] at hrows
  rw [← hrows]
  unfold visibleVersions
  cases selectRows (db.versionClause repo ses now name mode cooldownDays untilUnix major)
      db.versionRows with
  | error e => exact iff_of_false (fun ⟨_, h⟩ => nomatch h) fun ⟨_, h⟩ => nomatch h
  | ok out => exact iff_of_true ⟨_, rfl⟩ ⟨_, rfl⟩

/-- A query that fails does so for a date out of range or a major that is no `int`. -/
theorem visibleVersions_error {ses : Session} {compareNormalized : String → String → Ordering}
    {now : Timestamp} {name : String} {mode : UpdateMode} {cooldownDays : ℤ}
    {untilUnix major : Option ℤ} {e : SqlError}
    (h : db.visibleVersions repo ses compareNormalized now name mode cooldownDays untilUnix major
      = .error e) : e = .castError ∨ e = .datetimeOverflow := by
  unfold visibleVersions at h
  cases hrows : selectRows (db.versionClause repo ses now name mode cooldownDays untilUnix major)
      db.versionRows with
  | ok out =>
    rw [hrows] at h
    cases h
  | error e' =>
    rw [hrows] at h
    obtain rfl := Except.error.inj h
    obtain ⟨r, -, hfails⟩ := exists_of_selectRows_error hrows
    unfold versionClause at hfails
    rcases andAlso_error hfails with hscope | hfails
    · cases hscope
    rcases andAlso_error hfails with hgate | hfails
    · rcases gateClause_cases ses now mode cooldownDays r.version with ⟨-, hrun⟩ | ⟨-, hrun⟩
      · rw [hrun] at hgate
        cases hgate
      · exact .inr (Except.error.inj (hgate.symm.trans hrun))
    rcases andAlso_error hfails with hdate | hmajor
    · rcases dateClause_cases ses untilUnix r.version with ⟨-, hrun⟩ | ⟨-, hrun⟩
      · rw [hrun] at hdate
        cases hdate
      · exact .inr (Except.error.inj (hdate.symm.trans hrun))
    · exact .inl (majorClause_error hmajor)

/-- **What is visible** is stored under the name, served, not yanked, and within the bound. -/
theorem mem_visibleVersions {ses : Session} {compareNormalized : String → String → Ordering}
    {now : Timestamp} {name : String} {mode : UpdateMode} {cooldownDays : ℤ}
    {bound : LicenseBound} {rows : List VersionRow}
    (h : db.visibleVersions repo ses compareNormalized now name mode cooldownDays bound.untilUnix
      bound.major = .ok rows) (r : VersionRow) :
    r ∈ rows ↔ db.Stored r ∧ r.package.name = name ∧
      db.servedScope repo r.key.packageId r.package = true ∧
      policyGate ses now mode cooldownDays r.version = true ∧
      PassesClause ses bound r.key r.version := by
  have hanswers := (db.visibleVersions_ok_iff repo ses compareNormalized now name mode cooldownDays
    bound.untilUnix bound.major).1 ⟨rows, h⟩
  unfold visibleVersions at h
  cases hrows : selectRows (db.versionClause repo ses now name mode cooldownDays bound.untilUnix
      bound.major) db.versionRows with
  | error e =>
    rw [hrows] at h
    cases h
  | ok out =>
    rw [hrows] at h
    have hout : sortVersionsAscending compareNormalized out = rows := Except.ok.inj h
    rw [← hout, sortVersionsAscending, List.mem_mergeSort, mem_selectRows hrows, mem_versionRows,
      versionClause_ok_true_iff, and_assoc]
    unfold PassesClause
    refine and_congr_right fun hstored => and_congr_right fun hname => and_congr_right fun hscope => ?_
    -- in range, the clauses that can fail are those that cannot
    have hrow := hanswers r hstored hname hscope
    rcases gateClause_cases ses now mode cooldownDays r.version with ⟨-, hgate⟩ | ⟨hnot, -⟩
    · rw [hgate, Except.ok.injEq]
      refine and_congr_right fun hpasses => ?_
      rcases dateClause_cases ses bound.untilUnix r.version with ⟨-, hdate⟩ | ⟨hnot, -⟩
      · rw [hdate, Except.ok.injEq]
      · exact absurd (hrow.dates hpasses) hnot
    · exact absurd hrow.gate hnot

theorem yankedAt_of_policyGate {ses : Session} {now : Timestamp} {mode : UpdateMode}
    {cooldownDays : ℤ} {pv : PackageVersion}
    (h : policyGate ses now mode cooldownDays pv = true) : pv.yankedAt = none := by
  unfold policyGate at h
  simp only [Bool.and_eq_true, Option.isNone_iff_eq_none] at h
  exact h.1.1

/-- A visible version's dist is one the repository serves. -/
theorem repoServesDist_of_visible {ses : Session} {compareNormalized : String → String → Ordering}
    {now : Timestamp} {name : String} {mode : UpdateMode} {cooldownDays : ℤ}
    {bound : LicenseBound} {rows : List VersionRow}
    (h : db.visibleVersions repo ses compareNormalized now name mode cooldownDays bound.untilUnix
      bound.major = .ok rows) {r : VersionRow} (hr : r ∈ rows) {blob : Sha256}
    (hblob : r.version.distBlobSha256 = some blob) : db.repoServesDist repo name blob = true := by
  obtain ⟨hstored, hname, hscope, hgate, -⟩ := (db.mem_visibleVersions repo h r).1 hr
  exact (db.repoServesDist_iff repo name blob).2
    ⟨r, hstored, hname, hblob, hscope, yankedAt_of_policyGate hgate⟩

/-- The condition of `served_version_summaries` on a row. -/
def summaryClause (ses : Session) (now : Timestamp) (mode : UpdateMode) (cooldownDays : ℤ)
    (r : VersionRow) : Except SqlError Bool :=
  andAlso (.ok (db.servedScope repo r.key.packageId r.package))
    (gateClause ses now mode cooldownDays r.version)

/-- The order of `served_version_summaries`: by name, then by version. -/
def summaryLe (compareNormalized : String → String → Ordering) (a b : VersionRow) : Bool :=
  ((compare a.package.name b.package.name).then
    (compareNormalized a.key.normalizedVersion b.key.normalizedVersion)).isLE

/-- `served_version_summaries`: what is served under a policy, by name and version. -/
def servedVersionSummaries (ses : Session) (compareNormalized : String → String → Ordering)
    (now : Timestamp) (mode : UpdateMode) (cooldownDays : ℤ) : Except SqlError (List VersionRow) :=
  (selectRows (db.summaryClause repo ses now mode cooldownDays) db.versionRows).map fun rows =>
    rows.mergeSort (summaryLe compareNormalized)

/-- The policy's dates are in range on every version that the repository serves. -/
def SummariesInRange (ses : Session) (mode : UpdateMode) (cooldownDays : ℤ) : Prop :=
  ∀ r, db.Stored r → db.servedScope repo r.key.packageId r.package = true →
    GateInRange ses mode cooldownDays r.version

/-- Outside of the range one version is enough to fail the summaries. -/
theorem servedVersionSummaries_ok {ses : Session} {compareNormalized : String → String → Ordering}
    {now : Timestamp} {mode : UpdateMode} {cooldownDays : ℤ} {rows : List VersionRow}
    (h : db.servedVersionSummaries repo ses compareNormalized now mode cooldownDays = .ok rows) :
    db.SummariesInRange repo ses mode cooldownDays := by
  unfold servedVersionSummaries at h
  cases hrows : selectRows (db.summaryClause repo ses now mode cooldownDays) db.versionRows with
  | error e =>
    rw [hrows] at h
    cases h
  | ok out =>
    intro r hstored hscope
    obtain ⟨keep, hkeep⟩ := (selectRows_ok_iff _ _).1 ⟨out, hrows⟩ r ((db.mem_versionRows r).2 hstored)
    unfold summaryClause at hkeep
    rw [hscope] at hkeep
    rcases gateClause_cases ses now mode cooldownDays r.version with ⟨hin, -⟩ | ⟨-, hgate⟩
    · exact hin
    · rw [hgate] at hkeep
      cases hkeep

/-- In range the summaries are the versions served and admitted, sorted. -/
theorem servedVersionSummaries_eq {ses : Session} {mode : UpdateMode} {cooldownDays : ℤ}
    (hrange : db.SummariesInRange repo ses mode cooldownDays)
    (compareNormalized : String → String → Ordering) (now : Timestamp) :
    db.servedVersionSummaries repo ses compareNormalized now mode cooldownDays =
      .ok ((db.versionRows.filter fun r => db.servedScope repo r.key.packageId r.package &&
        policyGate ses now mode cooldownDays r.version).mergeSort
          (summaryLe compareNormalized)) := by
  have hclause : ∀ r ∈ db.versionRows, db.summaryClause repo ses now mode cooldownDays r =
      .ok (db.servedScope repo r.key.packageId r.package &&
        policyGate ses now mode cooldownDays r.version) := by
    intro r hr
    unfold summaryClause
    cases hscope : db.servedScope repo r.key.packageId r.package with
    | false => rfl
    | true =>
      have hin := hrange r ((db.mem_versionRows r).1 hr) hscope
      rcases gateClause_cases ses now mode cooldownDays r.version with ⟨-, hgate⟩ | ⟨hout, -⟩
      · rw [hgate]
        rfl
      · exact absurd hin hout
  unfold servedVersionSummaries
  rw [selectRows_eq_filter hclause]
  rfl

/-- The index draws the served versions that pass the gate. -/
theorem mem_servedVersionSummaries {ses : Session}
    {compareNormalized : String → String → Ordering} {now : Timestamp} {mode : UpdateMode}
    {cooldownDays : ℤ} {rows : List VersionRow}
    (h : db.servedVersionSummaries repo ses compareNormalized now mode cooldownDays = .ok rows)
    (r : VersionRow) :
    r ∈ rows ↔ db.Stored r ∧ db.servedScope repo r.key.packageId r.package = true ∧
      policyGate ses now mode cooldownDays r.version = true := by
  have hsorted := db.servedVersionSummaries_eq repo (db.servedVersionSummaries_ok repo h)
    compareNormalized now
  rw [h] at hsorted
  rw [Except.ok.inj hsorted, List.mem_mergeSort, List.mem_filter, mem_versionRows,
    Bool.and_eq_true]

end Catalog

/-! ## Policies -/

/-- How strict a mode is. -/
def UpdateMode.rank : UpdateMode → ℕ
  | .manual => 2
  | .delayed => 1
  | .auto => 0

/-- `PolicyOverride::effective`. -/
def PolicyOverride.effective (policy : PolicyOverride) (repoMode : UpdateMode) (repoCooldown : ℤ) :
    UpdateMode × ℤ :=
  let cooldown := policy.cooldownDays.getD 0
  let mode := policy.updateMode.or (if 0 < cooldown then some .delayed else none)
  (match mode with
    | some m => if repoMode.rank < m.rank then m else repoMode
    | none => repoMode,
   max cooldown repoCooldown)

/-- `grant_policy`. -/
def Catalog.grantPolicy (db : Catalog) (repo : Uuid) (package : String) : PolicyOverride :=
  ((db.repositoryGrants.rows.find? fun g => g.1.1 == repo &&
    (db.packages.get? g.1.2).any fun p => p.name == package).map (·.2)).getD ⟨none, none⟩

end Sconce
