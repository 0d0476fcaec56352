/-
# What the dashboard says of a version

Whether a version is served is spelt out four times: in the gate of the read routes, in the
filter of the approval queue, in the count of the overview, and in the label of the package
page.  `Repository.standing` is the rule itself.  The two filters and the gate follow it; the
label follows it except on a version without a release date, which `delayed` never admits and
the page calls live (`saysWhatIsServed_iff`).
-/
import Sconce.Serving.Scope

namespace Sconce

/-! ## The rule -/

/-- Where a version stands under a policy: taken back by an operator, waiting for approval or
for its cooldown, or admitted. -/
inductive Standing where
  | blocked
  | waiting
  | admitted
  deriving DecidableEq

/-- The standing of a version under the policy of a repository. -/
def Repository.standing (r : Repository) (ses : Session) (now : Timestamp) (pv : PackageVersion) :
    Standing :=
  if pv.heldAt.isSome ∨ pv.yankedAt.isSome then .blocked
  else if pv.approvedAt.isSome then .admitted
  else
    match r.updateMode, pv.releasedAt with
    | .auto, _ => .admitted
    | .manual, _ => .waiting
    | .delayed, none => .waiting
    | .delayed, some t => if ses.addDays t r.cooldownDays ≤ now then .admitted else .waiting

/-! ## The dashboard's queries -/

/-- What Postgres folds and prints by the locale and the time zone of the session. -/
structure Locale where
  /-- The case that `ilike` folds to. -/
  lower : String → String
  /-- `t::text`. -/
  timestampText : Timestamp → String
  /-- `to_char(t, 'YYYY-MM-DD HH24:MI')`. -/
  minuteText : Timestamp → String

/-- `text ilike pattern`. -/
def Locale.ilike (loc : Locale) (text pattern : String) : Bool :=
  likeChars (loc.lower pattern).toList (loc.lower text).toList

/-- A row of `admin_package_versions`. -/
structure AdminVersion where
  package : String
  version : String
  normalizedVersion : String
  stability : String
  held : Bool
  approved : Bool
  yanked : Bool
  releasedAt : Option String
  cooldownDaysLeft : Option ℤ
  distShasum : Option String
  sourceReference : Option String

/-- A row of `home_repo_overview`. -/
structure HomeRepo where
  orgId : Uuid
  slug : String
  allowPrivatePackages : Bool
  updateMode : UpdateMode
  cooldownDays : ℤ
  packages : ℕ
  broken : ℕ
  pending : ℕ
  lastSync : Option String

/-- `views::VersionRow`. -/
structure DetailRow where
  version : String
  badgeTone : String
  badgeLabel : String
  released : String
  sha : String
  src : String
  normalized : String
  held : Bool
  yanked : Bool

namespace Catalog

variable (db : Catalog) (ses : Session) (loc : Locale) (now : Timestamp)

/-- `VERSION_FILTER`. -/
def versionFilter (r : Repository) (name state : Option String) (row : VersionRow) : Bool :=
  (name.all fun n => loc.ilike row.package.name ("%" ++ n ++ "%")) &&
    state.all fun s =>
      s == "held" && row.version.heldAt.isSome ||
        s == "yanked" && row.version.yankedAt.isSome ||
        s == "approved" && row.version.approvedAt.isSome ||
        s == "pending" && (row.version.heldAt.isNone && row.version.yankedAt.isNone &&
          row.version.approvedAt.isNone &&
          (r.updateMode = .manual || r.updateMode = .delayed &&
            row.version.releasedAt.all fun t => now < ses.addDays t r.cooldownDays))

/-- The versions of the packages that a repository owns, under the filter. -/
def filteredVersions (repo : Uuid) (r : Repository) (name state : Option String) :
    List VersionRow :=
  db.versionRows.filter fun row =>
    row.package.repoId == repo && versionFilter ses loc now r name state row

/-- `count_package_versions`. -/
def countPackageVersions (repo : Uuid) (name state : Option String) : ℕ :=
  (db.repositories.get? repo).elim 0 fun r =>
    (db.filteredVersions ses loc now repo r name state).length

/-- `greatest(0, ceil(extract(epoch from left) / 86400))::bigint`. -/
def wholeDays (left : ℤ) : ℤ := max 0 (-(-left / Session.day))

/-- The columns `admin_package_versions` selects. -/
def adminVersion (r : Repository) (row : VersionRow) : AdminVersion where
  package := row.package.name
  version := row.version.version
  normalizedVersion := row.key.normalizedVersion
  stability := row.version.stability
  held := row.version.heldAt.isSome
  approved := row.version.approvedAt.isSome
  yanked := row.version.yankedAt.isSome
  releasedAt := row.version.releasedAt.map loc.timestampText
  cooldownDaysLeft := row.version.releasedAt.map fun t =>
    wholeDays (ses.addDays t r.cooldownDays - now)
  distShasum := row.version.distShasum
  sourceReference := row.version.sourceReference

/-- `admin_package_versions`. -/
def adminPackageVersions (repo : Uuid) (limit offset : ℕ) (name state : Option String) :
    List AdminVersion :=
  (db.repositories.get? repo).elim [] fun r =>
    ((((db.filteredVersions ses loc now repo r name state).mergeSort fun a b =>
      ((compare a.package.name b.package.name).then
        (compare a.key.normalizedVersion b.key.normalizedVersion)).isLE).drop offset).take
          limit).map (adminVersion ses loc now r)

/-- What `home_repo_overview` counts as pending. -/
def countsAsPending (r : Repository) (pv : PackageVersion) : Bool :=
  pv.heldAt.isNone && pv.yankedAt.isNone && pv.approvedAt.isNone &&
    (r.updateMode = .manual || r.updateMode = .delayed &&
      (pv.releasedAt.isNone || pv.releasedAt.any fun t => now < ses.addDays t r.cooldownDays))

/-- The condition of the queue and of the count as a query asks it: a date out of range fails it. -/
def pendingClause (r : Repository) (pv : PackageVersion) : Except SqlError Bool :=
  if pv.heldAt.isSome || pv.yankedAt.isSome || pv.approvedAt.isSome then .ok false
  else
    match r.updateMode, pv.releasedAt with
    | .auto, _ => .ok false
    | .manual, _ => .ok true
    | .delayed, none => .ok true
    | .delayed, some t =>
      match ses.plusDays t r.cooldownDays with
      | none => .error .datetimeOverflow
      | some due => .ok (decide (now < due))

/-- The group of a repository in `home_repo_overview`. -/
def homeRepo (repo : Uuid) (r : Repository) : HomeRepo :=
  let owned := db.packages.rows.filter fun p => p.2.repoId == repo
  let versions := db.versionRows.filter fun row => row.package.repoId == repo
  { orgId := r.orgId
    slug := r.slug
    allowPrivatePackages := r.allowPrivatePackages
    updateMode := r.updateMode
    cooldownDays := r.cooldownDays
    packages := owned.length
    broken := (owned.filter fun p => p.2.syncHealth = .broken && p.2.archivedAt.isNone).length
    pending := (versions.filter fun row => countsAsPending ses now r row.version).length
    lastSync := (owned.filterMap (·.2.lastSuccessAt)).max?.map loc.minuteText }

/-- `home_repo_overview`. -/
def homeRepoOverview (orgIds : Option (List Uuid)) : List HomeRepo :=
  ((db.repositories.rows.filter fun r => orgIds.all (·.contains r.2.orgId)).map fun r =>
    db.homeRepo ses loc now r.1 r.2).mergeSort fun a b =>
      ((compare a.orgId b.orgId).then (compare a.slug b.slug)).isLE

/-! ## The package page -/

/-- The tone and the label of `package_detail_page` for a version. -/
def badge (updateMode : UpdateMode) (v : AdminVersion) : String × String :=
  if v.yanked then ("held", "yanked")
  else if v.held then ("held", "held")
  else if v.approved then ("ok", "approved")
  else
    match updateMode with
    | .manual => ("amber", "pending")
    | .delayed =>
      match v.cooldownDaysLeft with
      | none => ("ok", "live")
      | some n =>
        if n = 0 then ("ok", "live") else ("blue", "cooldown · " ++ toString n ++ "d")
    | .auto => ("ok", "live")

/-- The row of `package_detail_page` for a version. -/
def detailRow (updateMode : UpdateMode) (v : AdminVersion) : DetailRow where
  version := v.version
  badgeTone := (badge updateMode v).1
  badgeLabel := (badge updateMode v).2
  released := v.releasedAt.getD ""
  sha := v.distShasum.getD "—"
  src := v.sourceReference.getD "—"
  normalized := v.normalizedVersion
  held := v.held
  yanked := v.yanked

/-- The version rows of `package_detail_page`. -/
def packageDetailRows (repo : Uuid) (r : Repository) (pkg : String) : List DetailRow :=
  (db.adminPackageVersions ses loc now repo 500 0 (some pkg) none).map (detailRow r.updateMode)

/-- A row of the page is a version of a package that the repository owns. -/
theorem exists_of_mem_packageDetailRows {repo : Uuid} {r : Repository} {pkg : String}
    {d : DetailRow} (hrepo : db.repositories.get? repo = some r)
    (hd : d ∈ db.packageDetailRows ses loc now repo r pkg) :
    ∃ row, db.Stored row ∧ row.package.repoId = repo ∧
      d = detailRow r.updateMode (adminVersion ses loc now r row) := by
  unfold packageDetailRows adminPackageVersions at hd
  rw [hrepo, Option.elim_some] at hd
  obtain ⟨v, hv, rfl⟩ := List.mem_map.1 hd
  obtain ⟨row, hrow, rfl⟩ := List.mem_map.1 hv
  have hfiltered := List.mem_of_mem_drop (List.mem_of_mem_take hrow)
  rw [List.mem_mergeSort, filteredVersions, List.mem_filter, mem_versionRows, Bool.and_eq_true,
    beq_iff_eq] at hfiltered
  exact ⟨row, hfiltered.1, hfiltered.2.1, rfl⟩

/-! ## The rule in the two filters and in the gate -/

variable {ses loc now} {r : Repository}

/-- Blocked is what an operator took back. -/
theorem standing_eq_blocked_iff (pv : PackageVersion) :
    r.standing ses now pv = .blocked ↔ pv.heldAt.isSome ∨ pv.yankedAt.isSome := by
  unfold Repository.standing
  split_ifs with hblocked happroved
  · exact iff_of_true rfl hblocked
  · exact iff_of_false nofun hblocked
  · refine iff_of_false ?_ hblocked
    split
    · exact nofun
    · exact nofun
    · exact nofun
    · split_ifs <;> exact nofun

/-- What waits is neither blocked nor approved, and its repository approves by hand or its
cooldown has not passed. -/
theorem standing_eq_waiting_iff (pv : PackageVersion) :
    r.standing ses now pv = .waiting ↔ (pv.heldAt = none ∧ pv.yankedAt = none) ∧
      pv.approvedAt = none ∧ (r.updateMode = .manual ∨ r.updateMode = .delayed ∧
        ∀ t, pv.releasedAt = some t → now < ses.addDays t r.cooldownDays) := by
  have hfree : (pv.heldAt = none ∧ pv.yankedAt = none) ↔
      ¬ (pv.heldAt.isSome ∨ pv.yankedAt.isSome) := by
    rw [not_or, Option.not_isSome_iff_eq_none, Option.not_isSome_iff_eq_none]
  rw [hfree, ← Option.not_isSome_iff_eq_none]
  unfold Repository.standing
  split_ifs with hblocked happroved
  · exact iff_of_false nofun fun h => h.1 hblocked
  · exact iff_of_false nofun fun h => h.2.1 happroved
  · rw [and_iff_right hblocked, and_iff_right happroved]
    cases r.updateMode with
    | auto => simp
    | manual => simp
    | delayed => cases pv.releasedAt <;> simp

/-- The gate admits what the rule admits. -/
theorem policyGate_iff_standing (pv : PackageVersion) :
    policyGate ses now r.updateMode r.cooldownDays pv = true ↔
      r.standing ses now pv = .admitted := by
  have hgate : policyGate ses now r.updateMode r.cooldownDays pv = true ↔
      ¬ (pv.heldAt.isSome ∨ pv.yankedAt.isSome) ∧ (pv.approvedAt.isSome ∨
        r.updateMode = .auto ∨ r.updateMode = .delayed ∧
          ∃ t, pv.releasedAt = some t ∧ ses.addDays t r.cooldownDays ≤ now) := by
    unfold policyGate
    simp only [Bool.and_eq_true, Bool.or_eq_true, decide_eq_true_eq, Option.any_eq_true,
      Option.isNone_iff_eq_none, not_or, Option.not_isSome_iff_eq_none]
    tauto
  rw [hgate]
  unfold Repository.standing
  split_ifs with hblocked happroved
  · exact iff_of_false (fun h => h.1 hblocked) nofun
  · exact iff_of_true ⟨hblocked, .inl happroved⟩ rfl
  · rw [and_iff_right hblocked, or_iff_right happroved]
    cases r.updateMode with
    | auto => simp
    | manual => simp
    | delayed => cases pv.releasedAt <;> simp

/-- The overview counts what waits. -/
theorem countsAsPending_iff_standing (pv : PackageVersion) :
    countsAsPending ses now r pv = true ↔ r.standing ses now pv = .waiting := by
  rw [standing_eq_waiting_iff]
  unfold countsAsPending
  simp only [Bool.and_eq_true, Bool.or_eq_true, decide_eq_true_eq, Option.isNone_iff_eq_none,
    and_assoc]
  cases pv.releasedAt <;> simp

/-- The queue and the count compute the date that the gate does: they fail on the same versions. -/
theorem pendingClause_cases (pv : PackageVersion) :
    GateInRange ses r.updateMode r.cooldownDays pv ∧
        pendingClause ses now r pv = .ok (countsAsPending ses now r pv) ∨
      ¬ GateInRange ses r.updateMode r.cooldownDays pv ∧
        pendingClause ses now r pv = .error .datetimeOverflow := by
  unfold GateInRange pendingClause countsAsPending
  cases pv.heldAt with
  | some t => exact .inl ⟨fun _ => nofun, rfl⟩
  | none =>
    cases pv.yankedAt with
    | some t => exact .inl ⟨nofun, rfl⟩
    | none =>
      cases pv.approvedAt with
      | some t => exact .inl ⟨fun _ _ => nofun, rfl⟩
      | none =>
        cases r.updateMode with
        | auto => exact .inl ⟨fun _ _ _ => nofun, rfl⟩
        | manual => exact .inl ⟨fun _ _ _ => nofun, rfl⟩
        | delayed =>
          cases pv.releasedAt with
          | none => exact .inl ⟨fun _ _ _ _ => nofun, rfl⟩
          | some released =>
            simp only [forall_const, Option.some.injEq, forall_eq']
            unfold Session.plusDays
            by_cases hrange : InTimestampRange (ses.addDays released r.cooldownDays)
            · exact .inl ⟨hrange, by simp [hrange]⟩
            · exact .inr ⟨hrange, by simp [hrange]⟩

/-- The gate answers on a version exactly when the queue and the count do. -/
theorem gateClause_ok_iff_pendingClause (pv : PackageVersion) :
    (∃ keep, gateClause ses now r.updateMode r.cooldownDays pv = .ok keep) ↔
      ∃ pending, pendingClause ses now r pv = .ok pending := by
  rcases gateClause_cases ses now r.updateMode r.cooldownDays pv with
    ⟨hin, hgate⟩ | ⟨hout, hgate⟩ <;>
  rcases @pendingClause_cases ses now r pv with ⟨hin', hpending⟩ | ⟨hout', hpending⟩
  · exact iff_of_true ⟨_, hgate⟩ ⟨_, hpending⟩
  · exact absurd hin hout'
  · exact absurd hin' hout
  · rw [hgate, hpending]

/-- The approval queue lists what waits. -/
theorem versionFilter_pending_iff_standing (row : VersionRow) :
    versionFilter ses loc now r none (some "pending") row = true ↔
      r.standing ses now row.version = .waiting := by
  rw [standing_eq_waiting_iff]
  have hstate : versionFilter ses loc now r none (some "pending") row =
      (row.version.heldAt.isNone && row.version.yankedAt.isNone &&
        row.version.approvedAt.isNone && (r.updateMode = .manual || r.updateMode = .delayed &&
          row.version.releasedAt.all fun t => now < ses.addDays t r.cooldownDays)) := by
    simp [versionFilter]
  rw [hstate]
  simp only [Bool.and_eq_true, Bool.or_eq_true, decide_eq_true_eq, Option.isNone_iff_eq_none,
    Option.all_eq_true, and_assoc]

/-- The overview's count is the length of the queue. -/
theorem pending_homeRepo {repo : Uuid} (hrepo : db.repositories.get? repo = some r) :
    (db.homeRepo ses loc now repo r).pending =
      db.countPackageVersions ses loc now repo none (some "pending") := by
  have hsame : ∀ row : VersionRow, countsAsPending ses now r row.version =
      versionFilter ses loc now r none (some "pending") row := fun row =>
    Bool.eq_iff_iff.2 ((countsAsPending_iff_standing row.version).trans
      (versionFilter_pending_iff_standing row).symm)
  unfold homeRepo countPackageVersions filteredVersions
  rw [hrepo, Option.elim_some]
  simp only [List.filter_filter, hsame, Bool.and_comm]

/-! ## The rule in the label -/

/-- No whole day is left exactly when the time has come. -/
theorem wholeDays_eq_zero_iff (left : ℤ) : wholeDays left = 0 ↔ left ≤ 0 := by
  unfold wholeDays Session.day
  omega

theorem cooldown_ne {s : String} (n : ℤ) (hs : s.toList.head? ≠ some 'c') :
    "cooldown · " ++ toString n ++ "d" ≠ s := by
  rintro rfl
  apply hs
  rw [String.toList_append, String.toList_append]
  rfl

/-- A version without a release date, on which no operator decided, under `delayed`. -/
structure Undated (r : Repository) (pv : PackageVersion) : Prop where
  mode : r.updateMode = .delayed
  released : pv.releasedAt = none
  held : pv.heldAt = none
  yanked : pv.yankedAt = none
  approved : pv.approvedAt = none

theorem Undated.waits {pv : PackageVersion} (h : Undated r pv) :
    r.standing ses now pv = .waiting :=
  (standing_eq_waiting_iff pv).2 ⟨⟨h.held, h.yanked⟩, h.approved,
    .inr ⟨h.mode, fun _ ht => absurd (h.released.symm.trans ht) nofun⟩⟩

/-- The page says of the version that clients get it. -/
def SaysServed (ses : Session) (loc : Locale) (now : Timestamp) (r : Repository)
    (row : VersionRow) : Prop :=
  (detailRow r.updateMode (adminVersion ses loc now r row)).badgeLabel = "live" ∨
    (detailRow r.updateMode (adminVersion ses loc now r row)).badgeLabel = "approved"

/-- The page says so of what the rule admits, and of undated versions. -/
theorem saysServed_iff (row : VersionRow) :
    SaysServed ses loc now r row ↔
      r.standing ses now row.version = .admitted ∨ Undated r row.version := by
  unfold SaysServed detailRow badge adminVersion Repository.standing
  dsimp only
  by_cases hyanked : row.version.yankedAt.isSome
  · rw [if_pos hyanked, if_pos (.inr hyanked)]
    refine iff_of_false (by decide) ?_
    rintro (h | h)
    · exact absurd h nofun
    · exact Option.isSome_iff_ne_none.1 hyanked h.yanked
  by_cases hheld : row.version.heldAt.isSome
  · rw [if_neg hyanked, if_pos hheld, if_pos (.inl hheld)]
    refine iff_of_false (by decide) ?_
    rintro (h | h)
    · exact absurd h nofun
    · exact Option.isSome_iff_ne_none.1 hheld h.held
  rw [if_neg hyanked, if_neg hheld, if_neg (not_or.2 ⟨hheld, hyanked⟩)]
  by_cases happroved : row.version.approvedAt.isSome
  · rw [if_pos happroved, if_pos happroved]
    exact iff_of_true (.inr rfl) (.inl rfl)
  rw [if_neg happroved, if_neg happroved]
  -- nobody decided: the mode and the date do
  cases hmode : r.updateMode with
  | auto => exact iff_of_true (.inl rfl) (.inl rfl)
  | manual =>
    refine iff_of_false ?_ ?_
    · show ¬ ("pending" = "live" ∨ "pending" = "approved")
      decide
    rintro (h | h)
    · exact absurd h nofun
    · exact absurd (hmode.symm.trans h.mode) nofun
  | delayed =>
    cases hreleased : row.version.releasedAt with
    | none =>
      refine iff_of_true (.inl rfl) (.inr ⟨hmode, hreleased, ?_, ?_, ?_⟩)
      · exact Option.not_isSome_iff_eq_none.1 hheld
      · exact Option.not_isSome_iff_eq_none.1 hyanked
      · exact Option.not_isSome_iff_eq_none.1 happroved
    | some t =>
      have hdated : ¬ Undated r row.version := fun h =>
        absurd (hreleased.symm.trans h.released) nofun
      rw [or_iff_left hdated]
      dsimp only [Option.map_some]
      by_cases hleft : wholeDays (ses.addDays t r.cooldownDays - now) = 0
      · rw [if_pos hleft, if_pos (sub_nonpos.1 ((wholeDays_eq_zero_iff _).1 hleft))]
        exact iff_of_true (.inl rfl) rfl
      · rw [if_neg hleft,
          if_neg fun hle => hleft ((wholeDays_eq_zero_iff _).2 (sub_nonpos.2 hle))]
        refine iff_of_false ?_ nofun
        rintro (h | h)
        · exact cooldown_ne _ (by decide) h
        · exact cooldown_ne _ (by decide) h

/-- The overview has the group of each repository. -/
theorem homeRepo_mem_homeRepoOverview {repo : Uuid} (hrepo : db.repositories.get? repo = some r) :
    db.homeRepo ses loc now repo r ∈ db.homeRepoOverview ses loc now none := by
  unfold homeRepoOverview
  rw [List.mem_mergeSort, List.mem_map]
  refine ⟨(repo, r), ?_, rfl⟩
  rw [List.mem_filter, Table.mem_rows_iff]
  exact ⟨hrepo, rfl⟩

/-! ## What the dashboard says -/

/-- The standing as the dashboard and the read routes show it: the two columns, the approval
queue, the gate. -/
def Shows (ses : Session) (loc : Locale) (now : Timestamp) (r : Repository) (row : VersionRow) :
    Standing → Prop
  | .blocked => row.version.heldAt.isSome ∨ row.version.yankedAt.isSome
  | .waiting => versionFilter ses loc now r none (some "pending") row = true
  | .admitted => policyGate ses now r.updateMode r.cooldownDays row.version = true

/-- Every place shows the standing of the rule. -/
theorem shows_iff (row : VersionRow) (s : Standing) :
    Shows ses loc now r row s ↔ r.standing ses now row.version = s := by
  cases s with
  | blocked => exact (standing_eq_blocked_iff row.version).symm
  | waiting => exact versionFilter_pending_iff_standing row
  | admitted => exact policyGate_iff_standing row.version

/-- What the dashboard says of a version is what clients get. -/
structure SaysWhatIsServed (ses : Session) (loc : Locale) (now : Timestamp) (repo : Uuid)
    (r : Repository) (row : VersionRow) : Prop where
  /-- Taken back, in the queue or admitted, and one only. -/
  one : ∃! s, Shows ses loc now r row s
  /-- The overview counts the version exactly when the queue lists it. -/
  counts : countsAsPending ses now r row.version = true ↔ Shows ses loc now r row .waiting
  /-- And what it counts is the length of the queue. -/
  pending : db.homeRepo ses loc now repo r ∈ db.homeRepoOverview ses loc now none ∧
    (db.homeRepo ses loc now repo r).pending =
      db.countPackageVersions ses loc now repo none (some "pending")
  /-- The page says that clients get the version only if the gate admits it. -/
  label : SaysServed ses loc now r row → Shows ses loc now r row .admitted
  /-- The rows of every page are those of owned versions, as `label` reads them. -/
  page : ∀ pkg, ∀ d ∈ db.packageDetailRows ses loc now repo r pkg, ∃ row', db.Stored row' ∧
    row'.package.repoId = repo ∧ d = detailRow r.updateMode (adminVersion ses loc now r row')
  /-- Where the date is out of range, the gate, the queue and the count fail alike. -/
  fails : (∃ keep, gateClause ses now r.updateMode r.cooldownDays row.version = .ok keep) ↔
    ∃ pending, pendingClause ses now r row.version = .ok pending

/-- **The dashboard says what clients get** of every owned version at every moment, except of
an undated version under `delayed`: the page calls it live, the gate never admits it. -/
theorem saysWhatIsServed_iff (ses : Session) (loc : Locale) (now : Timestamp) (repo : Uuid)
    (r : Repository) (row : VersionRow) (hrepo : db.repositories.get? repo = some r) :
    db.SaysWhatIsServed ses loc now repo r row ↔ ¬ Undated r row.version := by
  constructor
  · intro h hundated
    have hadmitted := (shows_iff row .admitted).1 (h.label ((saysServed_iff row).2 (.inr hundated)))
    rw [hundated.waits] at hadmitted
    cases hadmitted
  · intro hdated
    refine ⟨⟨r.standing ses now row.version, (shows_iff row _).2 rfl, ?_⟩, ?_,
      ⟨db.homeRepo_mem_homeRepoOverview hrepo, db.pending_homeRepo hrepo⟩, ?_,
      fun pkg d hd => db.exists_of_mem_packageDetailRows ses loc now hrepo hd,
      gateClause_ok_iff_pendingClause row.version⟩
    · intro s hs
      exact ((shows_iff row s).1 hs).symm
    · rw [shows_iff]
      exact countsAsPending_iff_standing row.version
    · intro hlabel
      rw [shows_iff]
      exact ((saysServed_iff row).1 hlabel).resolve_right hdated

end Catalog

/-! ## A version mirrored from a registry -/

namespace DelayedShop

/-- A repository that delays releases by a week. -/
def repository : Repository := ⟨1, "main", .delayed, 7, true, false, none, none, none⟩

/-- `acme/tools`. -/
def tools : Package where
  repoId := 1
  name := "acme/tools"
  kind := "composer"
  source := none
  visibility := .private
  visibilityDeclaredAt := none
  upstreamId := none
  sourcePath := ""
  syncHealth := .ok
  brokenReason := none
  brokenAt := none
  lastSuccessAt := none
  archivedAt := none

/-- The digest of the dist. -/
def digest : Sha256 := ⟨Vector.replicate 32 0⟩

/-- Version 1.0.0 of `acme/tools` as the mirror of a registry inserts it: undated. -/
def row : Catalog.VersionRow :=
  ⟨tools, ⟨2, "1.0.0.0"⟩, mirroredVersion "1.0.0" "stable" (.object []) digest "" none none⟩

/-- The shop after the mirroring. -/
def db : Catalog :=
  { Catalog.empty with
    repositories := Table.empty.insertNew 1 repository
    packages := Table.empty.insertNew 2 tools
    packageVersions := Table.empty.insertNew row.key row.version }

/-- A locale that folds no case and prints nothing. -/
def locale : Locale := ⟨id, fun _ => "", fun _ => ""⟩

/-- The equivalence, at a version with a date. -/
theorem saysWhatIsServed_iff_dated :
    db.SaysWhatIsServed .utc locale 0 1 repository
        { row with version := { row.version with releasedAt := some 0 } } ↔
      ¬ Catalog.Undated repository { row.version with releasedAt := some 0 } :=
  db.saysWhatIsServed_iff .utc locale 0 1 repository _ rfl

/-- The page calls the mirrored version live; the gate refuses it at every moment. -/
theorem undated_called_live :
    db.repositories.get? 1 = some repository ∧ db.Stored row ∧ row.package.repoId = 1 ∧
      (Catalog.detailRow repository.updateMode
        (Catalog.adminVersion .utc locale 0 repository row)).badgeLabel = "live" ∧
      policyGate .utc 0 repository.updateMode repository.cooldownDays row.version = false ∧
      ¬ db.SaysWhatIsServed .utc locale 0 1 repository row := by
  refine ⟨rfl, ⟨rfl, rfl⟩, rfl, rfl, rfl, fun h => ?_⟩
  have hgate : policyGate .utc 0 repository.updateMode repository.cooldownDays row.version = true :=
    h.label (.inl rfl)
  exact absurd hgate (by decide)

end DelayedShop

end Sconce
