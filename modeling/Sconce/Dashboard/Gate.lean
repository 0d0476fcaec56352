/-
# The dashboard's gate

Who a request acts as, and the lookups every handler starts with: a repository or an
organization by its slugs, for a user who may see it, or for one who administers it.

A lookup writes nothing, so a handler behind one that fails leaves the database as it is
(`exec_gate_bind_of_error`).
-/
import Sconce.Accounts.Provisioning

namespace Sconce

open Effect

/-- A handler of the dashboard. -/
abbrev Handler := Effect Database StatusCode Answer

/-! ## The server -/

/-- What the dashboard is started with, and the functions of its environment. -/
structure Ui where
  credentials : Credentials
  secretKey : Option SecretKey
  /-- `SecretKey::encrypt`, if there is a key. -/
  encrypt : Option (String → List UInt8)
  singleTenant : Bool
  adminPassword : Option String
  /-- The database's `lower`. -/
  lower : String → String
  toUppercase : String → String
  parseUuid : String → Option Uuid
  /-- `text::timestamptz`; none where the database refuses the text. -/
  castTimestamp : String → Option Timestamp

/-! ## The acting user -/

/-- The viewer's access, resolved per request. -/
structure CurrentUser where
  /-- None in single-tenant mode. -/
  id : Option Uuid
  isSuperadmin : Bool
  tenants : List Uuid
  adminTenants : List Uuid

namespace CurrentUser

/-- `CurrentUser::all_access`. -/
def allAccess : CurrentUser := ⟨none, true, [], []⟩

/-- Read access to an organization. -/
def can (user : CurrentUser) (org : Uuid) : Bool := user.isSuperadmin || user.tenants.contains org

/-- Manage access to an organization. -/
def canAdmin (user : CurrentUser) (org : Uuid) : Bool :=
  user.isSuperadmin || user.adminTenants.contains org

end CurrentUser

/-- The user a session shows, as the handlers see it. -/
def AuthUser.current (u : AuthUser) : CurrentUser where
  id := some u.id
  isSuperadmin := u.isSuperadmin
  tenants := u.tenantOrgIds
  adminTenants := u.adminOrgIds

/-- What a handler is given besides its form: the acting user, and what it draws. -/
structure Acting where
  user : CurrentUser
  fresh : Fresh
  /-- The ids of the rows it inserts after its first. -/
  ids : ℕ → Uuid
  /-- The key it mints. -/
  minted : Minted

/-- What `auth` reads of a request. -/
structure Caller where
  /-- The session cookie. -/
  session : Option String
  /-- The password of HTTP basic auth. -/
  basicPassword : Option String
  /-- The rate limiter's word on the request. -/
  limited : Bool

/-- `auth`: the user a signed-in page acts as; none where the request is turned away. -/
def Ui.auth (ui : Ui) (acc : Accounts) (now : Timestamp) (caller : Caller) : Option CurrentUser :=
  if ui.singleTenant then
    match ui.adminPassword with
    | none => some .allAccess
    | some expected =>
      if caller.limited then none
      else if caller.basicPassword = some expected then some .allAccess
      else none
  else
    (caller.session.bind (acc.resolveSession ui.credentials now)).map AuthUser.current

/-! ## Lookups -/

/-- A repository as the dashboard lists it. -/
structure RepoSummary where
  org : String
  orgId : Uuid
  repo : String
  id : Uuid
  updateMode : UpdateMode
  cooldownDays : ℤ

/-- An organization as the dashboard lists it. -/
structure OrgSummary where
  id : Uuid
  slug : String
  name : Option String

namespace Catalog

variable (db : Catalog)

/-- `list_repositories`, up to its order. -/
def listRepositories : List RepoSummary :=
  db.repositories.rows.filterMap fun r => (db.organizations.get? r.2.orgId).map fun o =>
    ⟨o.slug, r.2.orgId, r.2.slug, r.1, r.2.updateMode, r.2.cooldownDays⟩

/-- `list_organizations`, up to its order. -/
def listOrganizations : List OrgSummary :=
  db.organizations.rows.map fun r => ⟨r.1, r.2.slug, r.2.name⟩

/-- `lookup`. -/
def lookup (user : CurrentUser) (org repo : String) : Except StatusCode RepoSummary :=
  match db.listRepositories.find? fun r => r.org = org ∧ r.repo = repo with
  | none => .error .notFound
  | some summary => if user.can summary.orgId then .ok summary else .error .notFound

/-- `lookup_admin`. -/
def lookupAdmin (user : CurrentUser) (org repo : String) : Except StatusCode RepoSummary :=
  match db.lookup user org repo with
  | .error e => .error e
  | .ok summary => if user.canAdmin summary.orgId then .ok summary else .error .forbidden

/-- `lookup_org`. -/
def lookupOrg (user : CurrentUser) (org : String) : Except StatusCode OrgSummary :=
  match db.listOrganizations.find? fun o => o.slug = org with
  | none => .error .notFound
  | some summary => if user.can summary.id then .ok summary else .error .notFound

/-- `lookup_org_admin`. -/
def lookupOrgAdmin (user : CurrentUser) (org : String) : Except StatusCode OrgSummary :=
  match db.lookupOrg user org with
  | .error e => .error e
  | .ok summary => if user.canAdmin summary.id then .ok summary else .error .forbidden

/-- `create_repo` looks for its organization itself. -/
def orgForNewRepo (user : CurrentUser) (org : String) : Except StatusCode OrgSummary :=
  match db.listOrganizations.find? fun o => o.slug = org with
  | none => .error .badRequest
  | some summary => if user.canAdmin summary.id then .ok summary else .error .forbidden

/-- `lookup_set`: a set of the organization, by the id of the path. -/
def lookupSet (ui : Ui) (org : Uuid) (id : String) : Except StatusCode (Uuid × String) :=
  match ui.parseUuid id with
  | none => .error .badRequest
  | some set =>
    match db.packageSets.get? set with
    | none => .error .notFound
    | some s => if s.orgId = org then .ok (set, s.name) else .error .notFound

end Catalog

/-- `if !user.is_superadmin` is a 403. -/
def CurrentUser.requireSuperadmin (user : CurrentUser) : Except StatusCode Unit :=
  if user.isSuperadmin then .ok () else .error .forbidden

/-- A check of the catalog that a handler makes before it writes. -/
def gate {α : Type} (check : Catalog → Except StatusCode α) : Effect Database StatusCode α := do
  ofExcept (check (← get).catalog)

/-- A check answers from the catalog and leaves the database. -/
@[simp] theorem exec_gate {α : Type} (check : Catalog → Except StatusCode α) (db : Database) :
    exec (gate check) db = (check db.catalog, db) := by
  unfold gate
  rw [exec_bind, exec_get]
  exact exec_ofExcept _ _

/-- A handler behind a check that fails writes nothing. -/
theorem exec_gate_bind_of_error {α β : Type} {check : Catalog → Except StatusCode α}
    {db : Database} {e : StatusCode} (h : check db.catalog = .error e)
    (k : α → Effect Database StatusCode β) : exec (gate check >>= k) db = (.error e, db) := by
  rw [exec_bind, exec_gate]
  unfold andThen
  rw [h]

/-- A handler behind a check that passes goes on with what it found. -/
theorem exec_gate_bind_of_ok {α β : Type} {check : Catalog → Except StatusCode α}
    {db : Database} {a : α} (h : check db.catalog = .ok a)
    (k : α → Effect Database StatusCode β) : exec (gate check >>= k) db = exec (k a) db := by
  rw [exec_bind, exec_gate]
  unfold andThen
  rw [h]

namespace Catalog

variable {db : Catalog} {user : CurrentUser} {org repo : String}

/-- What a found repository is. -/
theorem of_lookup {summary : RepoSummary} (h : db.lookup user org repo = .ok summary) :
    summary.org = org ∧ (∃ o, db.organizations.get? summary.orgId = some o ∧ o.slug = org) ∧
      (∃ r, db.repositories.get? summary.id = some r ∧ r.orgId = summary.orgId) ∧
      user.can summary.orgId = true := by
  unfold lookup at h
  cases hfind : db.listRepositories.find? fun r => r.org = org ∧ r.repo = repo with
  | none =>
    rw [hfind] at h
    cases h
  | some s =>
    rw [hfind] at h
    simp only at h
    split_ifs at h with hcan
    obtain rfl := Except.ok.inj h
    have hmem := List.mem_of_find?_eq_some hfind
    have hslugs := List.find?_some hfind
    obtain ⟨⟨id, r⟩, hr, hs⟩ := List.mem_filterMap.1 hmem
    obtain ⟨o, ho, rfl⟩ := Option.map_eq_some_iff.1 hs
    have horg : o.slug = org := (of_decide_eq_true hslugs).1
    exact ⟨horg, ⟨o, ho, horg⟩, ⟨r, (Table.mem_rows_iff _ _ _).1 hr, rfl⟩, hcan⟩

/-- What a found organization is. -/
theorem of_lookupOrg {summary : OrgSummary} (h : db.lookupOrg user org = .ok summary) :
    (∃ o, db.organizations.get? summary.id = some o ∧ o.slug = org) ∧
      user.can summary.id = true := by
  unfold lookupOrg at h
  cases hfind : db.listOrganizations.find? fun o => o.slug = org with
  | none =>
    rw [hfind] at h
    cases h
  | some s =>
    rw [hfind] at h
    simp only at h
    split_ifs at h with hcan
    obtain rfl := Except.ok.inj h
    have hmem := List.mem_of_find?_eq_some hfind
    have hslug := List.find?_some hfind
    obtain ⟨⟨id, o⟩, ho, rfl⟩ := List.mem_map.1 hmem
    exact ⟨⟨o, (Table.mem_rows_iff _ _ _).1 ho, of_decide_eq_true hslug⟩, hcan⟩

/-- What a repository found for an admin is. -/
theorem of_lookupAdmin {summary : RepoSummary} (h : db.lookupAdmin user org repo = .ok summary) :
    db.lookup user org repo = .ok summary ∧ user.canAdmin summary.orgId = true := by
  unfold lookupAdmin at h
  cases hlookup : db.lookup user org repo with
  | error e =>
    rw [hlookup] at h
    cases h
  | ok s =>
    rw [hlookup] at h
    simp only at h
    split_ifs at h with hadmin
    obtain rfl := Except.ok.inj h
    exact ⟨rfl, hadmin⟩

/-- What an organization found for an admin is. -/
theorem of_lookupOrgAdmin {summary : OrgSummary} (h : db.lookupOrgAdmin user org = .ok summary) :
    db.lookupOrg user org = .ok summary ∧ user.canAdmin summary.id = true := by
  unfold lookupOrgAdmin at h
  cases hlookup : db.lookupOrg user org with
  | error e =>
    rw [hlookup] at h
    cases h
  | ok s =>
    rw [hlookup] at h
    simp only at h
    split_ifs at h with hadmin
    obtain rfl := Except.ok.inj h
    exact ⟨rfl, hadmin⟩

/-- The user administers no organization of the slug. -/
def NotAdminOf (db : Catalog) (user : CurrentUser) (org : String) : Prop :=
  ∀ id o, db.organizations.get? id = some o → o.slug = org → user.canAdmin id = false

/-- Without the admin role the lookup for admins of a repository fails. -/
theorem lookupAdmin_of_notAdmin (h : db.NotAdminOf user org) :
    ∃ e, db.lookupAdmin user org repo = .error e := by
  cases hlookup : db.lookupAdmin user org repo with
  | error e => exact ⟨e, rfl⟩
  | ok summary =>
    obtain ⟨hfound, hadmin⟩ := of_lookupAdmin hlookup
    obtain ⟨-, ⟨o, ho, hslug⟩, -⟩ := of_lookup hfound
    rw [h _ o ho hslug] at hadmin
    cases hadmin

/-- Without the admin role the lookup for admins of an organization fails. -/
theorem lookupOrgAdmin_of_notAdmin (h : db.NotAdminOf user org) :
    ∃ e, db.lookupOrgAdmin user org = .error e := by
  cases hlookup : db.lookupOrgAdmin user org with
  | error e => exact ⟨e, rfl⟩
  | ok summary =>
    obtain ⟨hfound, hadmin⟩ := of_lookupOrgAdmin hlookup
    obtain ⟨⟨o, ho, hslug⟩, -⟩ := of_lookupOrg hfound
    rw [h _ o ho hslug] at hadmin
    cases hadmin

end Catalog

/-! ## Form fields -/

/-- An optional text field: trimmed, blank is absent. -/
def trimmed (field : Option String) : Option String :=
  (field.map trim).filter fun s => !s.isEmpty

/-- The decimal digits of a text, if it is made of some. -/
def decimalDigits (s : List Char) : Option ℕ :=
  if s.isEmpty then none
  else s.foldl (fun acc c => acc.bind fun n =>
    if '0' ≤ c ∧ c ≤ '9' then some (n * 10 + (c.toNat - '0'.toNat)) else none) (some 0)

/-- `s.parse::<iN>()` of a signed type of `bits` bits. -/
def parseInt (bits : ℕ) (s : String) : Option ℤ :=
  let value : Option ℤ := match s.toList with
    | '-' :: rest => (decimalDigits rest).map fun n => -(n : ℤ)
    | '+' :: rest => (decimalDigits rest).map fun n => (n : ℤ)
    | digits => (decimalDigits digits).map fun n => (n : ℤ)
  value.filter fun n => -2 ^ (bits - 1) ≤ n ∧ n < 2 ^ (bits - 1)

example : parseInt 32 "-12" = some (-12) ∧ parseInt 32 "2147483648" = none := by decide

/-- A parsed field, or a bad request. -/
def orBadRequest {α : Type} : Option α → Except StatusCode α
  | some a => .ok a
  | none => .error .badRequest

/-- An optional field that is parsed where it is there. -/
def parseField {α : Type} (parse : String → Option α) : Option String → Except StatusCode (Option α)
  | none => .ok none
  | some s => (orBadRequest (parse s)).map some

/-- A cap in days: blank is none, and so is a number that is not positive. -/
def ttlDays (field : Option String) : Except StatusCode (Option ℤ) :=
  (parseField (parseInt 64) (trimmed field)).map fun days => days.filter fun d => 0 < d

/-- The update mode a form names. -/
def parseUpdateMode : String → Option UpdateMode
  | "auto" => some .auto
  | "manual" => some .manual
  | "delayed" => some .delayed
  | _ => none

/-- `s.split(separators)`. -/
def splitOn (separators : List Char) (s : String) : List String :=
  (s.toList.splitOnP fun c => separators.contains c).map String.ofList

/-- `s.split_once(c)`. -/
def splitOnce (c : Char) (s : String) : Option (String × String) :=
  match s.toList.dropWhile (· ≠ c) with
  | [] => none
  | _ :: after => some (String.ofList (s.toList.takeWhile (· ≠ c)), String.ofList after)

/-- `s.lines()`, each line trimmed. -/
def trimmedLines (s : String) : List String := (splitOn ['\n'] s).map trim

/-- `split_domains`: a comma-separated list, blanks dropped; none when nothing is left. -/
def splitDomains (x : Option String) : Option (List String) :=
  (x.map fun s => ((splitOn [','] s).map trim).filter fun d => !d.isEmpty).filter fun list =>
    !list.isEmpty

example : splitDomains (some "acme.com, ,ops.acme.io") = some ["acme.com", "ops.acme.io"] := by
  decide

end Sconce
