/-
# Accounts

The tables behind the dashboard's sign-in: users, their memberships in organizations,
login sessions, single sign-on connections, SCIM tokens and device logins; and the
catalog's functions over them.

A membership is what access is read from: `resolveSession` honours the active ones and
nothing else.
-/
import Sconce.Lib.Effect
import Sconce.Licensing.Editions
import Sconce.Storage.Digests

namespace Sconce

open Effect

/-! ## The tables -/

/-- A row of `users`, keyed by `id`; `email` is unique. -/
structure User where
  email : String
  passwordHash : String
  isSuperadmin : Bool

/-- `role in ('member', 'admin')`. -/
inductive Role where
  | member
  | admin
  deriving DecidableEq

/-- A row of `user_tenants`. -/
structure Membership where
  role : Role
  active : Bool
  deriving DecidableEq

/-- A row of `sessions`, keyed by `token_hash`. -/
structure LoginSession where
  userId : Uuid
  expiresAt : Timestamp

/-- A row of `password_resets`, keyed by `token_hash`. -/
structure PasswordReset where
  userId : Uuid
  expiresAt : Timestamp
  usedAt : Option Timestamp

/-- A row of `oidc_connections`, keyed by `id`; no organization is the instance's default. -/
structure OidcConnection where
  orgId : Option Uuid
  issuerUrl : String
  clientId : String
  clientSecret : Option (List UInt8)
  redirectUrl : String
  scopes : String
  allowedDomains : Option (List String)
  adminDomains : Option (List String)

/-- A row of `oidc_flows`, keyed by `state`. -/
structure OidcFlow where
  connId : Option Uuid
  nonce : String
  pkceVerifier : String
  redirectTo : String
  expiresAt : Timestamp

/-- `status in ('pending', 'approved', 'denied')`. -/
inductive DeviceStatus where
  | pending
  | approved
  | denied
  deriving DecidableEq

/-- A row of `device_flows`, keyed by `device_code_hash`; `user_code` is unique. -/
structure DeviceFlow where
  userCode : String
  status : DeviceStatus
  orgId : Option Uuid
  approvedBy : Option Uuid
  expiresAt : Timestamp

/-- The state of sign-in. -/
structure Accounts where
  users : Table Uuid User
  /-- `user_tenants`, keyed by `(user_id, org_id)`. -/
  userTenants : Table (Uuid × Uuid) Membership
  sessions : Table Sha256 LoginSession
  passwordResets : Table Sha256 PasswordReset
  oidcConnections : Table Uuid OidcConnection
  oidcFlows : Table String OidcFlow
  /-- `scim_tokens.token_hash`, keyed by `org_id`. -/
  scimTokens : Table Uuid Sha256
  deviceFlows : Table Sha256 DeviceFlow

/-- Every table of the database. -/
structure Database where
  catalog : Catalog
  accounts : Accounts

/-- Run a function of the catalog's tables. -/
def onCatalog {ε α : Type} (m : Effect Catalog ε α) : Effect Database ε α :=
  onPart Database.catalog (fun catalog db => { db with catalog }) m

/-- Run a function of the accounts' tables. -/
def onAccounts {ε α : Type} (m : Effect Accounts ε α) : Effect Database ε α :=
  onPart Database.accounts (fun accounts db => { db with accounts }) m

/-! ## What a request takes from outside -/

/-- The functions of the environment that accounts rest on. -/
structure Credentials where
  session : Session
  tokenHash : String → Sha256
  /-- `hash_password`, given its salt. -/
  hashPassword : String → String → String
  verifyPassword : String → String → Bool

/-- Digests that tell texts apart by their lengths, and passwords kept in the clear: all that the
examples ask of the environment. -/
def Credentials.plain : Credentials where
  session := .utc
  tokenHash := fun token => ⟨Vector.replicate 32 (UInt8.ofNat token.length)⟩
  hashPassword := fun _ password => password
  verifyPassword := fun password hash => password = hash

/-- What a request draws: the id of the row it may insert, the secret it may mint, a password
nobody knows, the salt of a password, and the database's clock. -/
structure Fresh where
  id : Uuid
  secret : String
  randomPassword : String
  salt : String
  now : Timestamp

/-! ## Users and memberships -/

namespace Accounts

variable (acc : Accounts)

/-- `… from users where email = email`. -/
def userByEmail (email : String) : Option (Uuid × User) :=
  acc.users.rows.find? fun r => r.2.email = email

/-- The membership of a user in an organization. -/
def membership (user org : Uuid) : Option Membership := acc.userTenants.get? (user, org)

/-- The organizations a condition on the membership selects for a user. -/
def orgsOf (user : Uuid) (p : Membership → Bool) : List Uuid :=
  (acc.userTenants.rows.filter fun r => r.1.1 = user ∧ p r.2).map (·.1.2)

/-- The organizations of a user are those of the memberships. -/
theorem mem_orgsOf (user org : Uuid) (p : Membership → Bool) :
    org ∈ acc.orgsOf user p ↔ ∃ m, acc.membership user org = some m ∧ p m = true := by
  unfold orgsOf membership
  rw [List.mem_map]
  constructor
  · rintro ⟨⟨⟨u, o⟩, m⟩, hr, rfl⟩
    obtain ⟨hrow, hp⟩ := List.mem_filter.1 hr
    obtain ⟨hu, hp⟩ := of_decide_eq_true hp
    have hu : u = user := hu
    exact ⟨m, (Table.mem_rows_iff _ _ _).1 (hu ▸ hrow), hp⟩
  · rintro ⟨m, hm, hp⟩
    refine ⟨((user, org), m), List.mem_filter.2 ⟨(Table.mem_rows_iff _ _ _).2 hm, ?_⟩, rfl⟩
    exact decide_eq_true ⟨rfl, hp⟩

end Accounts

/-- The account of an email: the stored one, or the one an insert creates under the id drawn;
none if that id is taken. -/
def Accounts.accountFor (acc : Accounts) (id : Uuid) (email : String) : Option Uuid :=
  match acc.userByEmail email with
  | some (user, _) => some user
  | none => if (acc.users.get? id).isSome then none else some id

/-- `insert into users … on conflict (email) do update … returning id`: the stored row is
merged, a new one takes the id drawn. -/
def upsertUser (id : Uuid) (row : User) (merge : User → User) : Effect Accounts SqlError Uuid := do
  let acc ← get
  match acc.accountFor id row.email with
  | none => throw .uniqueViolation
  | some user =>
    modify fun acc => { acc with users := acc.users.upsert user row merge }
    return user

/-- What an upsert of a user does. -/
theorem exec_upsertUser (id : Uuid) (row : User) (merge : User → User) (acc : Accounts) :
    exec (upsertUser id row merge) acc = match acc.accountFor id row.email with
      | none => (.error .uniqueViolation, acc)
      | some user => (.ok user, { acc with users := acc.users.upsert user row merge }) := by
  unfold upsertUser
  rw [exec_bind, exec_get]
  simp only [andThen]
  cases acc.accountFor id row.email with
  | none => rfl
  | some user => rfl

/-- The account it returns is the account of the email afterwards. -/
theorem Accounts.userByEmail_upsert {acc : Accounts} {id user : Uuid} {row : User}
    (h : acc.accountFor id row.email = some user) {merge : User → User}
    (hmerge : ∀ u, (merge u).email = u.email) :
    (({ acc with users := acc.users.upsert user row merge } : Accounts).userByEmail row.email).map
      Prod.fst = some user := by
  have hfound : (∃ w, acc.userByEmail row.email = some (user, w)) ∨
      (acc.userByEmail row.email = none ∧ acc.users.get? user = none) := by
    unfold Accounts.accountFor at h
    cases hemail : acc.userByEmail row.email with
    | some r =>
      rw [hemail] at h
      exact Or.inl ⟨r.2, by rw [← Option.some.inj h]⟩
    | none =>
      rw [hemail] at h
      simp only [Option.ite_none_left_eq_some, Option.some.injEq] at h
      exact Or.inr ⟨rfl, h.2 ▸ Option.not_isSome_iff_eq_none.1 h.1⟩
  have hkeeps : ∀ w, decide ((merge w).email = row.email) = decide (w.email = row.email) := by
    intro w
    rw [hmerge]
  obtain ⟨w, hw⟩ := Table.find?_upsert (fun r : Uuid × User => decide (r.2.email = row.email)) row
    hkeeps (decide_eq_true rfl) hfound
  show (List.find? _ _).map Prod.fst = some user
  rw [hw]
  rfl

/-- `create_user`: an existing account gets the password and the flag. -/
def createUser (env : Credentials) (fresh : Fresh) (email password : String)
    (isSuperadmin : Bool) : Effect Accounts SqlError Uuid :=
  let hash := env.hashPassword fresh.salt password
  upsertUser fresh.id ⟨email, hash, isSuperadmin⟩ fun u =>
    { u with passwordHash := hash, isSuperadmin }

/-- `find_or_create_sso_user`: an existing account keeps its password and gets the flag. -/
def findOrCreateSsoUser (env : Credentials) (fresh : Fresh) (email : String)
    (isSuperadmin : Bool) : Effect Accounts SqlError Uuid :=
  let hash := env.hashPassword fresh.salt ("sso_" ++ fresh.randomPassword)
  upsertUser fresh.id ⟨email, hash, isSuperadmin⟩ fun u => { u with isSuperadmin }

/-- `add_user_to_tenant`: whether there are such a user and such an organization.  A stored
membership gets the role and is active again. -/
def addUserToTenant {ε : Type} (email orgSlug : String) (role : Role) : Effect Database ε Bool := do
  let db ← get
  match db.accounts.userByEmail email, db.catalog.orgIdBySlug orgSlug with
  | some (user, _), some org =>
    onAccounts (modify fun acc => { acc with
      userTenants := acc.userTenants.upsert (user, org) ⟨role, true⟩ fun m =>
        { m with role, active := true } })
    return true
  | _, _ => return false

/-- What a grant does to the account of an email. -/
theorem exec_addUserToTenant {ε : Type} {db : Database} {email : String} {user : Uuid}
    (h : (db.accounts.userByEmail email).map Prod.fst = some user) (orgSlug : String) (role : Role) :
    exec (addUserToTenant email orgSlug role : Effect Database ε Bool) db
      = match db.catalog.orgIdBySlug orgSlug with
        | some org => (.ok true, { db with accounts := { db.accounts with
            userTenants := db.accounts.userTenants.upsert (user, org) ⟨role, true⟩ fun m =>
              { m with role, active := true } } })
        | none => (.ok false, db) := by
  obtain ⟨⟨u, row⟩, hfound, hu⟩ := Option.map_eq_some_iff.1 h
  have hu : u = user := hu
  subst hu
  unfold addUserToTenant
  rw [exec_bind, exec_get]
  simp only [andThen, hfound]
  cases db.catalog.orgIdBySlug orgSlug with
  | none => rfl
  | some org => rfl

/-- `remove_from_tenant`: whether there was such a membership. -/
def removeFromTenant {ε : Type} (email orgSlug : String) : Effect Database ε Bool := do
  let db ← get
  match db.accounts.userByEmail email, db.catalog.orgIdBySlug orgSlug with
  | some (user, _), some org =>
    onAccounts (modify fun acc => { acc with
      userTenants := acc.userTenants.delete fun key _ => key = (user, org) })
    return (db.accounts.membership user org).isSome
  | _, _ => return false

/-! ## Sessions -/

/-- `verify_credentials`. -/
def Accounts.verifyCredentials (acc : Accounts) (env : Credentials) (email password : String) :
    Option Uuid :=
  ((acc.userByEmail email).filter fun r => env.verifyPassword password r.2.passwordHash).map (·.1)

/-- `create_session`: the token's plaintext. -/
def createSession (env : Credentials) (fresh : Fresh) (user : Uuid) (ttlDays : ℤ) :
    Effect Accounts SqlError String := do
  let token := "scses_" ++ fresh.secret
  let acc ← get
  if (acc.sessions.get? (env.tokenHash token)).isSome then throw .uniqueViolation
  if (acc.users.get? user).isNone then throw .foreignKeyViolation
  modify fun acc => { acc with
    sessions := acc.sessions.insertNew (env.tokenHash token)
      ⟨user, env.session.addDays fresh.now ttlDays⟩ }
  return token

/-- The signed-in user as a session shows it. -/
structure AuthUser where
  id : Uuid
  isSuperadmin : Bool
  tenantOrgIds : List Uuid
  adminOrgIds : List Uuid

/-- `resolve_session`.  Only active memberships count. -/
def Accounts.resolveSession (acc : Accounts) (env : Credentials) (now : Timestamp)
    (token : String) : Option AuthUser := do
  let s ← (acc.sessions.get? (env.tokenHash token)).filter fun s => now < s.expiresAt
  let u ← acc.users.get? s.userId
  return {
    id := s.userId
    isSuperadmin := u.isSuperadmin
    tenantOrgIds := acc.orgsOf s.userId fun m => m.active
    adminOrgIds := acc.orgsOf s.userId fun m => m.active && m.role == .admin }

/-- A delete of the sessions a condition selects. -/
def deleteSessions {ε : Type} (p : Sha256 → LoginSession → Bool) : Effect Accounts ε Unit :=
  modify fun acc => { acc with sessions := acc.sessions.delete p }

/-- `delete_session`. -/
def deleteSession {ε : Type} (env : Credentials) (token : String) : Effect Accounts ε Unit :=
  deleteSessions fun hash _ => hash = env.tokenHash token

/-- `delete_user_sessions`. -/
def deleteUserSessions {ε : Type} (user : Uuid) : Effect Accounts ε Unit :=
  deleteSessions fun _ s => s.userId = user

/-- `revoke_session_for_user`: whether the user had that session. -/
def revokeSessionForUser {ε : Type} (user : Uuid) (hashHex : String) : Effect Accounts ε Bool := do
  let mine : Sha256 → LoginSession → Bool := fun hash s => s.userId = user ∧ hex32 hash = hashHex
  let acc ← get
  deleteSessions mine
  return acc.sessions.rows.any fun r => mine r.1 r.2

/-! ## Passwords -/

/-- An update of the user of an id. -/
def setPasswordHash {ε : Type} (user : Uuid) (hash : String) : Effect Accounts ε Unit :=
  modify fun acc => { acc with
    users := acc.users.update fun k u => if k = user then { u with passwordHash := hash } else u }

/-- The reset of a token, while it is unused and unexpired. -/
def Accounts.liveReset (acc : Accounts) (env : Credentials) (now : Timestamp) (token : String) :
    Option PasswordReset :=
  (acc.passwordResets.get? (env.tokenHash token)).filter fun r =>
    r.usedAt.isNone ∧ now < r.expiresAt

/-- `password_reset_valid`. -/
def Accounts.passwordResetValid (acc : Accounts) (env : Credentials) (now : Timestamp)
    (token : String) : Bool :=
  (acc.liveReset env now token).isSome

/-- `i32::try_from(ttl_minutes).unwrap_or(i32::MAX)`. -/
def resetMinutes (ttlMinutes : ℤ) : ℤ :=
  if -2147483648 ≤ ttlMinutes ∧ ttlMinutes ≤ 2147483647 then ttlMinutes else 2147483647

/-- The reset that `create_password_reset` inserts. -/
def newReset (user : Uuid) (now : Timestamp) (ttlMinutes : ℤ) : PasswordReset :=
  ⟨user, now + resetMinutes ttlMinutes * 60000000, none⟩

/-- `create_password_reset`: the token's plaintext; none when no user has the email. -/
def createPasswordReset (env : Credentials) (fresh : Fresh) (email : String) (ttlMinutes : ℤ) :
    Effect Accounts SqlError (Option String) := do
  match (← get).userByEmail email with
  | none => return none
  | some (user, _) =>
    let token := "scpr_" ++ fresh.secret
    atomically do
      modify fun acc => { acc with
        passwordResets := acc.passwordResets.delete fun _ r => r.userId = user }
      if ((← get).passwordResets.get? (env.tokenHash token)).isSome then throw .uniqueViolation
      modify fun acc => { acc with
        passwordResets := acc.passwordResets.insertNew (env.tokenHash token)
          (newReset user fresh.now ttlMinutes) }
    return some token

/-- `reset_password`: the user whose password it set. -/
def resetPassword {ε : Type} (env : Credentials) (fresh : Fresh) (token newPassword : String) :
    Effect Accounts ε (Option Uuid) := do
  match (← get).liveReset env fresh.now token with
  | none => return none
  | some r =>
    modify fun acc => { acc with
      passwordResets := acc.passwordResets.update fun hash r =>
        if hash = env.tokenHash token then { r with usedAt := some fresh.now } else r }
    setPasswordHash r.userId (env.hashPassword fresh.salt newPassword)
    deleteUserSessions r.userId
    return some r.userId

/-- What `change_password` did. -/
inductive PasswordChange where
  | changed
  | wrongCurrent
  deriving DecidableEq

/-- `change_password`: the user's other sessions end. -/
def changePassword {ε : Type} (env : Credentials) (fresh : Fresh) (user : Uuid)
    (currentPassword newPassword : String) (keepToken : Option String) :
    Effect Accounts ε PasswordChange := do
  let hash := ((← get).users.get? user).map (·.passwordHash)
  if hash.any (env.verifyPassword currentPassword) then
    setPasswordHash user (env.hashPassword fresh.salt newPassword)
    deleteSessions fun hash s =>
      s.userId = user ∧ keepToken.all fun token => hash ≠ env.tokenHash token
    return .changed
  else
    return .wrongCurrent

/-! ## Device logins -/

/-- `update device_flows … where user_code = userCode`, of a flow that still waits. -/
def decideDeviceFlow {ε : Type} (now : Timestamp) (userCode : String)
    (f : DeviceFlow → DeviceFlow) : Effect Accounts ε Bool := do
  let waits : DeviceFlow → Bool := fun d =>
    d.userCode = userCode ∧ d.status = .pending ∧ now < d.expiresAt
  let acc ← get
  modify fun acc => { acc with
    deviceFlows := acc.deviceFlows.update fun _ d => if waits d then f d else d }
  return acc.deviceFlows.rows.any fun r => waits r.2

/-- `approve_device_flow`. -/
def approveDeviceFlow {ε : Type} (now : Timestamp) (userCode : String) (org : Uuid)
    (approvedBy : Option Uuid) : Effect Accounts ε Bool :=
  decideDeviceFlow now userCode fun d => { d with status := .approved, orgId := some org, approvedBy }

/-- `deny_device_flow`. -/
def denyDeviceFlow {ε : Type} (now : Timestamp) (userCode : String) : Effect Accounts ε Unit := do
  let _ ← decideDeviceFlow now userCode fun d => { d with status := .denied }

/-- `start_device_flow`, given the codes drawn. -/
def startDeviceFlow (env : Credentials) (now : Timestamp) (deviceCode userCode : String)
    (ttlSecs : ℤ) : Effect Accounts SqlError Unit := do
  let acc ← get
  if (acc.deviceFlows.get? (env.tokenHash deviceCode)).isSome then throw .uniqueViolation
  if acc.deviceFlows.rows.any fun r => r.2.userCode = userCode then throw .uniqueViolation
  modify fun acc => { acc with
    deviceFlows := acc.deviceFlows.insertNew (env.tokenHash deviceCode)
      ⟨userCode, .pending, none, none, now + toTimestamp ttlSecs⟩ }

/-- What a poll of a device flow answers. -/
inductive DeviceFlowPoll where
  | pending
  | approved (org : Uuid)
  | denied
  | expired
  deriving DecidableEq

/-- `delete from device_flows … returning org_id`, of a flow that is approved and fresh. -/
def consumeDeviceFlow {ε : Type} (now : Timestamp) (hash : Sha256) :
    Effect Accounts ε (Option (Option Uuid)) := do
  let acc ← get
  match (acc.deviceFlows.get? hash).filter fun d => d.status = .approved ∧ now < d.expiresAt with
  | none => return none
  | some d =>
    modify fun acc => { acc with deviceFlows := acc.deviceFlows.delete fun key _ => key = hash }
    return some d.orgId

/-- What the second statement of `poll_device_flow` reports. -/
def Accounts.deviceFlowState (acc : Accounts) (now : Timestamp) (hash : Sha256) :
    DeviceFlowPoll :=
  match acc.deviceFlows.get? hash with
  | none => .expired
  | some d =>
    if ¬ now < d.expiresAt then .expired
    else if d.status = .denied then .denied
    else .pending

/-- `poll_device_flow`; the org of an approved flow is never NULL. -/
def pollDeviceFlow (env : Credentials) (now : Timestamp) (deviceCode : String) :
    Effect Accounts SqlError DeviceFlowPoll := do
  match ← consumeDeviceFlow now (env.tokenHash deviceCode) with
  | some (some org) => return .approved org
  | some none => throw .unexpectedNull
  | none => return (← get).deviceFlowState now (env.tokenHash deviceCode)

end Sconce
