/-
# What a member can write

A request made by someone who is no superadmin and no active admin of the organization it is
aimed at.  The checks of `Post.check` turn it away, but for those four forms of a repository
that look it up for anyone who may see it: the update policy, one version, and the two bulk
actions.  Such a request leaves the database as it is exactly when what it writes is there
already (`members_read_only_iff`).
-/
import Sconce.Dashboard.Posts

namespace Sconce

open Effect

/-! ## Who manages an organization -/

/-- The user is an active admin of an organization of the slug. -/
def Database.IsActiveAdmin (db : Database) (user : Uuid) (org : String) : Prop :=
  ∃ id o m, db.catalog.organizations.get? id = some o ∧ o.slug = org ∧
    db.accounts.membership user id = some m ∧ m.role = .admin ∧ m.active = true

/-- The organization a check is about. -/
def Check.org : Check → Option String
  | .superadmin => none
  | .newRepo org | .orgAdmin org | .repoAdmin org _ | .repoMember org _ => some org

/-- The request acts as a superadmin, or as an active admin of the organization it is aimed
at. -/
def Ui.Manages (ui : Ui) (db : Database) (r : PostRequest) : Prop :=
  ∃ user, ui.auth db.accounts r.fresh.now r.caller = some user ∧
    (user.isSuperadmin = true ∨
      ∃ id org, user.id = some id ∧ r.post.check.org = some org ∧ db.IsActiveAdmin id org)

section Auth

variable {ui : Ui} {acc : Accounts} {now : Timestamp} {caller : Caller} {user : CurrentUser}

/-- Who is neither a superadmin nor signed in to an account is turned away. -/
theorem Ui.signedIn_of_auth (h : ui.auth acc now caller = some user)
    (hplain : user.isSuperadmin = false) :
    ∃ token u, acc.resolveSession ui.credentials now token = some u ∧ user = u.current := by
  unfold auth at h
  by_cases hsingle : ui.singleTenant = true
  · -- a single tenant's dashboard acts as a superadmin
    rw [if_pos hsingle] at h
    have hall : user = .allAccess := by
      cases hpassword : ui.adminPassword with
      | none =>
        rw [hpassword] at h
        exact (Option.some.inj h).symm
      | some expected =>
        rw [hpassword] at h
        simp only at h
        split_ifs at h
        exact (Option.some.inj h).symm
    rw [hall] at hplain
    cases hplain
  · rw [if_neg hsingle] at h
    obtain ⟨u, hu, rfl⟩ := Option.map_eq_some_iff.1 h
    obtain ⟨token, -, hsession⟩ := Option.bind_eq_some_iff.1 hu
    exact ⟨token, u, hsession, rfl⟩

/-- The organizations a session may administer are those of active admin memberships. -/
theorem Accounts.mem_adminOrgIds {env : Credentials} {token : String} {u : AuthUser}
    (h : acc.resolveSession env now token = some u) (org : Uuid) :
    org ∈ u.adminOrgIds ↔ ∃ m, acc.membership u.id org = some m ∧ m.role = .admin ∧
      m.active = true := by
  unfold resolveSession at h
  obtain ⟨s, -, h⟩ := Option.bind_eq_some_iff.1 h
  obtain ⟨row, -, h⟩ := Option.bind_eq_some_iff.1 h
  obtain rfl := Option.some.inj h
  show org ∈ acc.orgsOf s.userId (fun m => m.active && m.role == .admin) ↔ _
  refine (acc.mem_orgsOf _ _ _).trans ⟨?_, ?_⟩
  · rintro ⟨m, hm, hrole⟩
    obtain ⟨hactive, hadmin⟩ := Bool.and_eq_true_iff.1 hrole
    exact ⟨m, hm, eq_of_beq hadmin, hactive⟩
  · rintro ⟨m, hm, hadmin, hactive⟩
    exact ⟨m, hm, Bool.and_eq_true_iff.2 ⟨hactive, beq_iff_eq.2 hadmin⟩⟩

end Auth

section Refused

variable {ui : Ui} {db : Database} {r : PostRequest} {user : CurrentUser}

/-- Who does not manage the organization is no superadmin. -/
theorem Ui.isSuperadmin_of_not_manages (h : ¬ ui.Manages db r)
    (hauth : ui.auth db.accounts r.fresh.now r.caller = some user) : user.isSuperadmin = false :=
  Bool.eq_false_iff.2 fun hsuper => h ⟨user, hauth, Or.inl hsuper⟩

/-- Nor are they an admin of it to the handlers. -/
theorem Ui.notAdminOf_of_not_manages (h : ¬ ui.Manages db r)
    (hauth : ui.auth db.accounts r.fresh.now r.caller = some user) {org : String}
    (horg : r.post.check.org = some org) : db.catalog.NotAdminOf user org := by
  intro id o ho hslug
  have hplain := isSuperadmin_of_not_manages h hauth
  obtain ⟨token, u, hsession, rfl⟩ := signedIn_of_auth hauth hplain
  refine Bool.eq_false_iff.2 fun hadmin => h ⟨_, hauth, Or.inr ⟨u.id, org, rfl, horg, ?_⟩⟩
  unfold CurrentUser.canAdmin at hadmin
  rw [hplain, Bool.false_or, List.contains_iff_mem] at hadmin
  obtain ⟨m, hm, hrole, hactive⟩ := (Accounts.mem_adminOrgIds hsession id).1 hadmin
  exact ⟨id, o, m, ho, hslug, hm, hrole, hactive⟩

/-- Without the admin role no repository is created. -/
theorem Catalog.orgForNewRepo_of_notAdmin {db : Catalog} {org : String}
    (h : db.NotAdminOf user org) : ∃ e, db.orgForNewRepo user org = .error e := by
  unfold orgForNewRepo
  cases hfind : db.listOrganizations.find? fun o => o.slug = org with
  | none => exact ⟨_, rfl⟩
  | some summary =>
    obtain ⟨⟨id, o⟩, ho, rfl⟩ := List.mem_map.1 (List.mem_of_find?_eq_some hfind)
    have hslug := List.find?_some hfind
    have hslug : o.slug = org := of_decide_eq_true hslug
    refine ⟨.forbidden, ?_⟩
    show (if user.canAdmin id = true then _ else _) = _
    rw [h id o ((Table.mem_rows_iff _ id o).1 ho) hslug]
    rfl

/-- Every check but `lookup` turns them away. -/
theorem Check.refuses_of_not_manages (h : ¬ ui.Manages db r)
    (hauth : ui.auth db.accounts r.fresh.now r.caller = some user)
    (hcheck : ∀ org repo, r.post.check ≠ .repoMember org repo) :
    r.post.check.Refuses user db.catalog := by
  have hplain := ui.isSuperadmin_of_not_manages h hauth
  have hadmin : ∀ {org}, r.post.check.org = some org → db.catalog.NotAdminOf user org :=
    ui.notAdminOf_of_not_manages h hauth
  cases hc : r.post.check with
  | superadmin => exact ⟨.forbidden, by unfold CurrentUser.requireSuperadmin; rw [hplain]; rfl⟩
  | newRepo org => exact Catalog.orgForNewRepo_of_notAdmin (hadmin (by rw [hc]; rfl))
  | orgAdmin org => exact Catalog.lookupOrgAdmin_of_notAdmin (hadmin (by rw [hc]; rfl))
  | repoAdmin org repo => exact Catalog.lookupAdmin_of_notAdmin (hadmin (by rw [hc]; rfl))
  | repoMember org repo => exact absurd hc (hcheck org repo)

end Refused

/-! ## What the four forms write -/

/-- What a version has in a column. -/
def PackageVersion.timestamp (column : VersionTimestamp) (pv : PackageVersion) : Option Timestamp :=
  match column with
  | .heldAt => pv.heldAt
  | .yankedAt => pv.yankedAt
  | .approvedAt => pv.approvedAt

/-- A stamp changes nothing where it is there already. -/
theorem PackageVersion.setTimestamp_eq_self_iff {column : VersionTimestamp}
    {value : Option Timestamp} {pv : PackageVersion} :
    pv.setTimestamp column value = pv ↔ pv.timestamp column = value := by
  constructor
  · intro h
    rw [← h]
    cases column <;> rfl
  · rintro rfl
    cases column <;> rfl

/-- The column that is stamped has the stamp. -/
@[simp] theorem PackageVersion.timestamp_setTimestamp (column : VersionTimestamp)
    (value : Option Timestamp) (pv : PackageVersion) :
    (pv.setTimestamp column value).timestamp column = value := by
  cases column <;> rfl

namespace Catalog

variable (db : Catalog) (column : VersionTimestamp) (value : Option Timestamp) (repo : Uuid)

/-- The catalog after `set_version_timestamp` of a package and a normalized version. -/
def stamp (v : String × String) : Catalog :=
  { db with
    packageVersions := db.packageVersions.update fun k pv =>
      if db.inPackage repo v.1 k.packageId ∧ k.normalizedVersion = v.2 then
        pv.setTimestamp column value
      else pv }

/-- Every version of the name has the value in the column. -/
def Stamped (v : String × String) : Prop :=
  ∀ key pv, db.packageVersions.get? key = some pv → db.inPackage repo v.1 key.packageId = true →
    key.normalizedVersion = v.2 → pv.timestamp column = value

variable {db column value repo} {v w : String × String}

/-- A catalog with its own versions is itself. -/
theorem withVersions_eq_self_iff {packageVersions : Table VersionKey PackageVersion} :
    { db with packageVersions } = db ↔ packageVersions = db.packageVersions :=
  ⟨fun h => congrArg Catalog.packageVersions h, fun h => by rw [h]⟩

/-- A version action changes nothing where the version is stamped so already. -/
theorem stamp_eq_self_iff : db.stamp column value repo v = db ↔ db.Stamped column value repo v := by
  unfold stamp
  rw [withVersions_eq_self_iff, Table.update_eq_self_iff]
  refine forall₂_congr fun key pv => imp_congr_right fun _ => ?_
  rw [ite_eq_right_iff, PackageVersion.setTimestamp_eq_self_iff, and_imp]

/-- The rows it leaves. -/
theorem get?_stamp (key : VersionKey) :
    (db.stamp column value repo v).packageVersions.get? key = (db.packageVersions.get? key).map
      fun pv => if db.inPackage repo v.1 key.packageId ∧ key.normalizedVersion = v.2 then
        pv.setTimestamp column value else pv :=
  Table.get?_update _ _ _

/-- A version that is stamped has the stamp. -/
theorem stamped_stamp : (db.stamp column value repo v).Stamped column value repo v := by
  intro key pv hpv hin hkey
  rw [get?_stamp] at hpv
  obtain ⟨old, -, rfl⟩ := Option.map_eq_some_iff.1 hpv
  have hin : db.inPackage repo v.1 key.packageId = true := hin
  rw [if_pos ⟨hin, hkey⟩, PackageVersion.timestamp_setTimestamp]

/-- A stamp stays over stamps of the same column and value. -/
theorem Stamped.stamp (h : db.Stamped column value repo v) :
    (db.stamp column value repo w).Stamped column value repo v := by
  intro key pv hpv hin hkey
  rw [get?_stamp] at hpv
  obtain ⟨old, hold, rfl⟩ := Option.map_eq_some_iff.1 hpv
  split_ifs
  · exact PackageVersion.timestamp_setTimestamp _ _ _
  · exact h key old hold hin hkey

/-- A list of stamps, and what each leaves. -/
theorem stamped_foldl {vs : List (String × String)} (hv : v ∈ vs) (db : Catalog) :
    (vs.foldl (stamp · column value repo) db).Stamped column value repo v := by
  induction vs generalizing db with
  | nil => cases hv
  | cons w vs ih =>
    rcases List.mem_cons.1 hv with rfl | hv
    · -- later stamps write the same value
      clear ih hv
      show (vs.foldl _ (db.stamp column value repo v)).Stamped column value repo v
      have hfirst : (db.stamp column value repo v).Stamped column value repo v := stamped_stamp
      generalize db.stamp column value repo v = first at hfirst
      induction vs generalizing first with
      | nil => exact hfirst
      | cons w vs ih => exact ih _ hfirst.stamp
    · exact ih hv _

/-- Stamps of many versions change nothing where each is stamped already. -/
theorem foldl_stamp_eq_self_iff {vs : List (String × String)} :
    vs.foldl (stamp · column value repo) db = db ↔
      ∀ v ∈ vs, db.Stamped column value repo v := by
  constructor
  · intro h v hv
    rw [← h]
    exact stamped_foldl hv db
  · intro h
    induction vs with
    | nil => rfl
    | cons v vs ih =>
      rw [List.foldl_cons, stamp_eq_self_iff.2 (h v List.mem_cons_self)]
      exact ih fun w hw => h w (List.mem_cons_of_mem _ hw)

end Catalog

/-- The catalog is replaced by the same one. -/
theorem Database.withCatalog_eq_self_iff {db : Database} {catalog : Catalog} :
    { db with catalog } = db ↔ catalog = db.catalog :=
  ⟨fun h => congrArg Database.catalog h, fun h => by rw [h]⟩

/-- One statement of a form, whatever becomes of its answer. -/
theorem snd_exec_bind_pure {σ ε α β : Type} (m : Effect σ ε α) (f : α → β) (s : σ) :
    (exec (m >>= fun a => pure (f a)) s).2 = (exec m s).2 := by
  rw [exec_bind]
  unfold andThen
  cases (exec m s).1 <;> rfl

/-- The bulk forms stamp one version after another. -/
theorem exec_forM_stamp (db : Database) (column : VersionTimestamp) (value : Option Timestamp)
    (repo : Uuid) (vs : List (String × String)) :
    exec (forM vs fun v => do
      let _ ← e500 (onCatalog (setVersionTimestamp (ε := SqlError) column value repo v.1 v.2))) db
      = (.ok ⟨⟩, { db with catalog := vs.foldl (·.stamp column value repo ·) db.catalog }) := by
  induction vs generalizing db with
  | nil => rfl
  | cons v vs ih =>
    rw [List.forM_cons, exec_bind]
    exact ih _

/-- The column a version form writes, and its value; none if it names no action. -/
def Ui.VersionForm.writes (f : Ui.VersionForm) (now : Timestamp) :
    Option (VersionTimestamp × Option Timestamp) :=
  match f.action with
  | "hold" => some (.heldAt, some now)
  | "unhold" => some (.heldAt, none)
  | "approve" => some (.approvedAt, some now)
  | "yank" => some (.yankedAt, some now)
  | "unyank" => some (.yankedAt, none)
  | _ => none

/-- What a form writes of a repository that it looked up for a member is there already. -/
def Post.Written (now : Timestamp) (db : Catalog) (summary : RepoSummary) : Post → Prop
  | .setPolicy _ _ mode cooldownDays => ∀ updateMode, parseUpdateMode mode = some updateMode →
    summary.updateMode = updateMode ∧ summary.cooldownDays = cooldownDays
  | .versionAction _ _ f => ∀ column value, f.writes now = some (column, value) →
    db.Stamped column value summary.id (f.package, f.normalized)
  | .approveBulk _ _ f =>
    match f.versions with
    | some list => ∀ v ∈ selectedVersions list, db.Stamped .approvedAt (some now) summary.id v
    | none => ∀ key pv, db.packageVersions.get? key = some pv →
      db.pendingIn summary.id (f.package.filter fun p => !p.isEmpty) key pv = false
  | .holdBulk _ _ f => ∀ list, f.versions = some list →
    ∀ v ∈ selectedVersions list, db.Stamped .heldAt (some now) summary.id v
  | _ => True

section Written

variable {ui : Ui} {act : Acting} {db : Database} {org repo : String} {summary : RepoSummary}

/-- A version form sets the column of the versions it names. -/
theorem Ui.exec_versionAction (h : db.catalog.lookup act.user org repo = .ok summary)
    (f : Ui.VersionForm) :
    (exec (versionAction act org repo f) db).2 = (f.writes act.fresh.now).elim db fun w =>
      { db with catalog := db.catalog.stamp w.1 w.2 summary.id (f.package, f.normalized) } := by
  obtain ⟨package, normalized, action⟩ := f
  unfold versionAction
  rw [exec_gate_bind_of_ok h]
  by_cases hknown : action ∈ ["hold", "unhold", "approve", "yank", "unyank"]
  · simp only [List.mem_cons, List.not_mem_nil, or_false] at hknown
    rcases hknown with rfl | rfl | rfl | rfl | rfl <;> rfl
  · simp only [List.mem_cons, List.not_mem_nil, or_false, not_or] at hknown
    obtain ⟨hhold, hunhold, happrove, hyank, hunyank⟩ := hknown
    have hnone : VersionForm.writes ⟨package, normalized, action⟩ act.fresh.now = none := by
      unfold VersionForm.writes
      split <;> first | contradiction | rfl
    rw [hnone]
    simp only
    rfl

/-- A version form writes nothing exactly where what it asks for is stored. -/
theorem Ui.versionAction_eq_self_iff (h : db.catalog.lookup act.user org repo = .ok summary)
    (f : Ui.VersionForm) :
    (exec (versionAction act org repo f) db).2 = db ↔
      (Post.versionAction org repo f).Written act.fresh.now db.catalog summary := by
  rw [exec_versionAction h]
  simp only [Post.Written]
  cases hwrites : f.writes act.fresh.now with
  | none =>
    refine iff_of_true rfl fun column value hw => ?_
    cases hw
  | some w =>
    rw [Option.elim_some, Database.withCatalog_eq_self_iff, Catalog.stamp_eq_self_iff]
    constructor
    · intro hstamped column value hw
      obtain rfl := Option.some.inj hw
      exact hstamped
    · exact fun hstamped => hstamped w.1 w.2 rfl

/-- What `lookup` shows of a repository is what its row has. -/
theorem Catalog.row_of_lookup {catalog : Catalog} {user : CurrentUser}
    (h : catalog.lookup user org repo = .ok summary) :
    ∃ r, catalog.repositories.get? summary.id = some r ∧ r.updateMode = summary.updateMode ∧
      r.cooldownDays = summary.cooldownDays := by
  unfold lookup at h
  cases hfind : catalog.listRepositories.find? fun r => r.org = org ∧ r.repo = repo with
  | none =>
    rw [hfind] at h
    cases h
  | some s =>
    rw [hfind] at h
    simp only at h
    split_ifs at h
    obtain rfl := Except.ok.inj h
    obtain ⟨⟨id, r⟩, hr, hs⟩ := List.mem_filterMap.1 (List.mem_of_find?_eq_some hfind)
    obtain ⟨o, -, rfl⟩ := Option.map_eq_some_iff.1 hs
    exact ⟨r, (Table.mem_rows_iff _ _ _).1 hr, rfl, rfl⟩

/-- A policy form writes nothing exactly where what it asks for is stored. -/
theorem Ui.setPolicy_eq_self_iff (h : db.catalog.lookup act.user org repo = .ok summary)
    (mode : String) (cooldownDays : ℤ) :
    (exec (setPolicy act org repo mode cooldownDays) db).2 = db ↔
      (Post.setPolicy org repo mode cooldownDays).Written act.fresh.now db.catalog summary := by
  obtain ⟨row, hrow, hmode, hcooldown⟩ := Catalog.row_of_lookup h
  simp only [Post.Written]
  unfold setPolicy
  rw [exec_gate_bind_of_ok h, snd_exec_bind_pure, exec_adapt]
  show ({ db with catalog := (exec (setUpdatePolicy summary.id mode cooldownDays) db.catalog).2 } :
    Database) = db ↔ _
  rw [Database.withCatalog_eq_self_iff]
  unfold setUpdatePolicy
  cases hparse : parseUpdateMode mode with
  | none =>
    -- a mode that does not parse is refused before anything is written
    refine iff_of_true ?_ fun m hm => by cases hm
    simp only [exec_bind, exec_get, andThen]
    split_ifs <;> rfl
  | some updateMode =>
    show ({ db.catalog with repositories := db.catalog.repositories.update fun id r =>
      if id = summary.id then { r with updateMode, cooldownDays } else r } : Catalog) = _ ↔ _
    -- the state is the same when the table of repositories is
    have htable : ∀ repositories : Table Uuid Repository,
        ({ db.catalog with repositories } : Catalog) = db.catalog ↔
          repositories = db.catalog.repositories :=
      fun _ => ⟨fun h => congrArg Catalog.repositories h, fun h => by rw [h]⟩
    rw [htable, Table.update_eq_self_iff]
    constructor
    · intro hsame m hm
      obtain rfl := Option.some.inj hm
      have hstored := hsame summary.id row hrow
      rw [if_pos rfl] at hstored
      rw [← hmode, ← hcooldown, ← hstored]
      exact ⟨rfl, rfl⟩
    · intro hsame id r hr
      rw [ite_eq_right_iff]
      rintro rfl
      obtain rfl := Option.some.inj (hrow.symm.trans hr)
      obtain ⟨h₁, h₂⟩ := hsame updateMode rfl
      rw [← h₁, ← h₂, ← hmode, ← hcooldown]

/-- A bulk approval writes nothing exactly where what it asks for is stored. -/
theorem Ui.approveBulk_eq_self_iff (h : db.catalog.lookup act.user org repo = .ok summary)
    (f : Ui.ApproveBulkForm) :
    (exec (approveBulk act org repo f) db).2 = db ↔
      (Post.approveBulk org repo f).Written act.fresh.now db.catalog summary := by
  simp only [Post.Written]
  unfold approveBulk
  rw [exec_gate_bind_of_ok h]
  cases hlist : f.versions with
  | some list =>
    rw [exec_bind]
    have hrun := exec_forM_stamp db .approvedAt (some act.fresh.now) summary.id
      (selectedVersions list)
    unfold approveVersion
    rw [hrun]
    show ({ db with catalog := _ } : Database) = db ↔ _
    rw [Database.withCatalog_eq_self_iff, Catalog.foldl_stamp_eq_self_iff]
  | none =>
    rw [snd_exec_bind_pure]
    show ({ db with catalog := { db.catalog with
      packageVersions := db.catalog.packageVersions.update fun key pv =>
        if db.catalog.pendingIn summary.id (f.package.filter fun p => !p.isEmpty) key pv then
          pv.setTimestamp .approvedAt (some act.fresh.now)
        else pv } } : Database) = db ↔ _
    rw [Database.withCatalog_eq_self_iff, Catalog.withVersions_eq_self_iff,
      Table.update_eq_self_iff]
    refine forall₂_congr fun key pv => imp_congr_right fun _ => ?_
    rw [ite_eq_right_iff, PackageVersion.setTimestamp_eq_self_iff, ← Bool.not_eq_true]
    refine imp_congr_right fun hpending => iff_of_false ?_ id
    -- what is pending has no approval yet
    have hundecided := (Bool.and_eq_true_iff.1 hpending).1
    have hnone : pv.approvedAt = none :=
      Option.isNone_iff_eq_none.1 (Bool.and_eq_true_iff.1 hundecided).2
    intro happroved
    cases hnone.symm.trans happroved

/-- A bulk hold writes what it selects. -/
theorem Ui.holdBulk_eq_self_iff (h : db.catalog.lookup act.user org repo = .ok summary)
    (f : Ui.ApproveBulkForm) :
    (exec (holdBulk act org repo f) db).2 = db ↔
      (Post.holdBulk org repo f).Written act.fresh.now db.catalog summary := by
  simp only [Post.Written]
  unfold holdBulk
  rw [exec_gate_bind_of_ok h]
  cases hlist : f.versions with
  | some list =>
    rw [exec_bind]
    have hrun := exec_forM_stamp db .heldAt (some act.fresh.now) summary.id (selectedVersions list)
    unfold holdVersion
    rw [hrun]
    show ({ db with catalog := _ } : Database) = db ↔ _
    rw [Database.withCatalog_eq_self_iff, Catalog.foldl_stamp_eq_self_iff]
    constructor
    · intro hstamped list' hlist'
      obtain rfl := Option.some.inj hlist'
      exact hstamped
    · exact fun hstamped => hstamped list rfl
  | none => exact iff_of_true rfl fun _ h => by cases h

end Written

/-! ## Members are read-only -/

/-- A form that its handler lets a member post asks for nothing new. -/
def Ui.AsksNothing (ui : Ui) (db : Database) (r : PostRequest) : Prop :=
  ∀ org repo, r.post.check = .repoMember org repo → ∀ user,
    ui.auth db.accounts r.fresh.now r.caller = some user → ∀ summary,
      db.catalog.lookup user org repo = .ok summary →
        r.post.Written r.fresh.now db.catalog summary

/-- A form is handled for the user its session belongs to, and not at all without one. -/
theorem Ui.exec_serve (ui : Ui) (db : Database) (r : PostRequest) :
    (exec (ui.serve r) db).2 = (ui.auth db.accounts r.fresh.now r.caller).elim db fun user =>
      (exec (ui.handle (r.actingAs user) r.post) db).2 := by
  unfold serve
  simp only [exec_bind, exec_get, andThen]
  cases ui.auth db.accounts r.fresh.now r.caller <;> rfl

/-- A form that looks its repository up for a member writes nothing exactly when what it writes
is there already. -/
theorem Ui.handle_eq_self_iff {ui : Ui} {act : Acting} {db : Database} {post : Post}
    {org repo : String} (hcheck : post.check = .repoMember org repo) {summary : RepoSummary}
    (h : db.catalog.lookup act.user org repo = .ok summary) :
    (exec (ui.handle act post) db).2 = db ↔ post.Written act.fresh.now db.catalog summary := by
  cases post with
  | setPolicy => cases hcheck; exact setPolicy_eq_self_iff h _ _
  | versionAction => cases hcheck; exact versionAction_eq_self_iff h _
  | approveBulk => cases hcheck; exact approveBulk_eq_self_iff h _
  | holdBulk => cases hcheck; exact holdBulk_eq_self_iff h _
  | _ => cases hcheck

/-- **Members are read-only.** A request of someone who manages nothing of the organization it
is aimed at leaves the database as it is exactly when it is none of the four forms that look the
repository up for a member, or asks them for what is there already. -/
theorem Ui.members_read_only_iff (ui : Ui) (db : Database) (r : PostRequest)
    (h : ¬ ui.Manages db r) : (exec (ui.serve r) db).2 = db ↔ ui.AsksNothing db r := by
  rw [ui.exec_serve]
  cases hauth : ui.auth db.accounts r.fresh.now r.caller with
  | none =>
    refine iff_of_true rfl fun _ _ _ user huser => ?_
    cases hauth.symm.trans huser
  | some user =>
    rw [Option.elim_some]
    by_cases hmember : ∃ org repo, r.post.check = .repoMember org repo
    · obtain ⟨org, repo, hcheck⟩ := hmember
      have hasks : ui.AsksNothing db r ↔ ∀ summary, db.catalog.lookup user org repo = .ok summary →
          r.post.Written r.fresh.now db.catalog summary := by
        constructor
        · intro hnothing
          exact hnothing org repo hcheck user hauth
        · intro hwritten org' repo' hcheck' user' huser'
          obtain ⟨rfl, rfl⟩ := Check.repoMember.inj (hcheck.symm.trans hcheck')
          obtain rfl := Option.some.inj (hauth.symm.trans huser')
          exact hwritten
      rw [hasks]
      cases hlookup : db.catalog.lookup user org repo with
      | error e =>
        refine iff_of_true (handle_refused ?_) fun summary hsummary => by cases hsummary
        rw [hcheck]
        exact ⟨e, hlookup⟩
      | ok summary =>
        have hself : (exec (ui.handle (r.actingAs user) r.post) db).2 = db ↔
            r.post.Written r.fresh.now db.catalog summary := handle_eq_self_iff hcheck hlookup
        rw [hself]
        constructor
        · intro hwritten summary' hsummary
          obtain rfl := Except.ok.inj hsummary
          exact hwritten
        · exact fun hwritten => hwritten summary rfl
    · -- every other check turns them away
      have hnot : ∀ org repo, r.post.check ≠ .repoMember org repo :=
        fun org repo hcheck => hmember ⟨org, repo, hcheck⟩
      have hrefused := Check.refuses_of_not_manages h hauth hnot
      exact iff_of_true (handle_refused hrefused) fun org repo hcheck => absurd hcheck (hnot org repo)

namespace Intern

def ui : Ui where
  credentials := .plain
  secretKey := none
  encrypt := none
  singleTenant := false
  adminPassword := none
  lower := id
  toUppercase := id
  parseUuid := fun _ => none
  castTimestamp := fun _ => none

/-- A repository whose versions are approved by hand, and a member of its organization who is
signed in. -/
def reviewed : Database where
  catalog := { Catalog.empty with
    organizations := .single 1 ⟨"acme", none⟩
    repositories := .single 1 ⟨1, "main", .manual, 0, true, false, none, none, none⟩ }
  accounts := {
    users := .single 1 ⟨"ada@acme.com", "hash", false⟩
    userTenants := .single (1, 1) ⟨.member, true⟩
    sessions := .single (Credentials.plain.tokenHash "session") ⟨1, 100⟩
    passwordResets := ∅
    oidcConnections := ∅
    oidcFlows := ∅
    scimTokens := ∅
    deviceFlows := ∅ }

/-- The member has every version served at once. -/
def request : PostRequest where
  caller := ⟨some "session", none, false⟩
  fresh := ⟨2, "secret", "random", "salt", 0⟩
  ids := fun _ => 0
  minted := ⟨3, "sclk", ⟨Vector.replicate 32 3⟩, none⟩
  post := .setPolicy "acme" "main" "auto" 0

def ada : CurrentUser := ⟨some 1, false, [1], []⟩

theorem auth_request :
    ui.auth reviewed.accounts request.fresh.now request.caller = some ada := by
  rfl

theorem not_manages : ¬ ui.Manages reviewed request := by
  rintro ⟨user, huser, hmanages⟩
  obtain rfl := Option.some.inj (auth_request.symm.trans huser)
  rcases hmanages with hsuper | ⟨id, org, hid, -, org', o, m, -, -, hm, hrole, -⟩
  · cases hsuper
  · have hrow := List.mem_singleton.1 ((Table.mem_rows_iff _ (id, org') m).2 hm)
    rw [(Prod.mk.inj hrow).2] at hrole
    cases hrole

/-- **A member loosens the update policy.** -/
theorem member_writes : ¬ (¬ ui.Manages reviewed request →
    (exec (ui.serve request) reviewed).2 = reviewed) := by
  intro h
  have hmode := congrArg (fun db => (db.catalog.repositories.get? 1).map (·.updateMode))
    (h not_manages)
  cases hmode

/-- The intern's form changes nothing exactly if it asks for nothing. -/
theorem members_read_only_request : (exec (ui.serve request) reviewed).2 = reviewed ↔
    ui.AsksNothing reviewed request :=
  ui.members_read_only_iff reviewed request not_manages

end Intern

end Sconce
