/-
# SCIM provisioning

The SCIM token of an organization, the catalog's functions that add members and switch
them on and off, and the SCIM 2.0 Users endpoints over them.  A deactivated member's
sessions end with the request.
-/
import Sconce.Accounts.SingleSignOn

namespace Sconce

open Effect

/-! ## The catalog's functions -/

/-- `create_scim_token`: the plaintext; none when there is no such organization. -/
def createScimToken (env : Credentials) (fresh : Fresh) (orgSlug : String) :
    Effect Database EntitlementError (Option String) := do
  let db ← get
  match db.catalog.orgIdBySlug orgSlug with
  | none => return none
  | some org =>
    ofExcept (db.catalog.requireFeature org .scim)
    let token := "scim_" ++ fresh.secret
    let hash := env.tokenHash token
    if db.accounts.scimTokens.rows.any fun r => r.2 = hash ∧ r.1 ≠ org then
      throw (.sqlx .uniqueViolation)
    onAccounts (modify fun acc => { acc with
      scimTokens := acc.scimTokens.upsert org hash fun _ => hash })
    return some token

/-- `resolve_scim_token`. -/
def Accounts.resolveScimToken (acc : Accounts) (env : Credentials) (token : String) : Option Uuid :=
  (acc.scimTokens.rows.find? fun r => r.2 = env.tokenHash token).map (·.1)

/-- `scim_provision`: an active member; a stored membership keeps its role. -/
def scimProvision (env : Credentials) (fresh : Fresh) (org : Uuid) (email : String) :
    Effect Database SqlError Uuid :=
  let hash := env.hashPassword fresh.salt ("scim_" ++ fresh.randomPassword)
  atomically do
    let user ← onAccounts (upsertUser fresh.id ⟨email, hash, false⟩ id)
    if ((← get).catalog.organizations.get? org).isNone then throw .foreignKeyViolation
    onAccounts (modify fun acc => { acc with
      userTenants := acc.userTenants.upsert (user, org) ⟨.member, true⟩ fun m =>
        { m with active := true } })
    return user

/-- `scim_set_active`: whether there is such a membership. -/
def scimSetActive {ε : Type} (org user : Uuid) (active : Bool) : Effect Accounts ε Bool := do
  let acc ← get
  modify fun acc => { acc with
    userTenants := acc.userTenants.update fun key m =>
      if key = (user, org) then { m with active } else m }
  return (acc.membership user org).isSome

/-- `scim_member`. -/
def Accounts.scimMember (acc : Accounts) (org user : Uuid) : Option (String × Bool) := do
  let m ← acc.membership user org
  let u ← acc.users.get? user
  return (u.email, m.active)

/-- `scim_member_by_email`. -/
def Accounts.scimMemberByEmail (acc : Accounts) (lower : String → String) (org : Uuid)
    (email : String) : Option (Uuid × Bool) := do
  let r ← acc.userTenants.rows.find? fun r => r.1.2 = org ∧
    (acc.users.get? r.1.1).any fun u => lower u.email = lower email
  return (r.1.1, r.2.active)

/-! ## The endpoints -/

/-- A request to `/scim/v2/Users` that may write.  The body is parsed JSON, the id of the
path a parsed uuid. -/
inductive ScimRequest where
  /-- `scim_create_user`. -/
  | create (body : Option Json)
  /-- `scim_patch_user`, `scim_put_user`. -/
  | patch (id : Option Uuid) (body : Option Json)
  /-- `scim_delete_user`. -/
  | delete (id : Option Uuid)

/-- `scim_bool`. -/
def scimBool : Json → Option Bool
  | .bool b => some b
  | .string "true" => some true
  | .string "false" => some false
  | _ => none

/-- What one operation of a PATCH asks of `active`: by its path, or in its value. -/
def operationActive (op : Json) : Option Bool :=
  let path := (op.get "path").bind Json.asStr
  let byPath := if path.map String.toLower = some "active" then (op.get "value").bind scimBool
    else none
  byPath.or (((op.get "value").bind fun v => v.get "active").bind scimBool)

/-- `extract_active`: of a PATCH the first operation that says it. -/
def extractActive (body : Json) : Option Bool :=
  match body.get "Operations" with
  | some (.array ops) => ops.findSome? operationActive
  | _ => (body.get "active").bind scimBool

/-- The resource as the endpoints show it. -/
def scimGetUser (acc : Accounts) (org user : Uuid) : Answer :=
  match acc.scimMember org user with
  | some (email, active) => .scimUser user email active
  | none => .scimError 404 "no such user"

/-- `scim_apply_active`. -/
def scimApplyActive (org user : Uuid) (active : Bool) : Effect Database StatusCode Answer := do
  if ← onAccounts (scimSetActive org user active) then
    if !active then onAccounts (deleteUserSessions user)
    match (← get).accounts.scimMember org user with
    | some (email, active) => return .scimUser user email active
    | none => return .scimError 500 "server error"
  else
    return .scimError 404 "no such user"

/-- `scim_create_user` of a parsed body. -/
def scimCreateUser (env : Credentials) (lower : String → String) (fresh : Fresh) (org : Uuid)
    (body : Json) : Effect Database StatusCode Answer := do
  match (body.get "userName").bind Json.asStr with
  | none => return .scimError 400 "userName is required"
  | some email =>
    if ((← get).accounts.scimMemberByEmail lower org email).isSome then
      return .scimError 409 "user already provisioned"
    match ← outcome (scimProvision env fresh org email) with
    | .ok user => return .scimUser user email true
    | .error _ => return .scimError 500 "provisioning failed"

/-- `scim_delete_user`: a deactivation. -/
def scimDeleteUser (org user : Uuid) : Effect Database StatusCode Answer := do
  if ← onAccounts (scimSetActive org user false) then
    onAccounts (deleteUserSessions user)
    return .noContent
  else
    return .scimError 404 "no such user"

/-- The endpoints, for a request that carries a bearer token. -/
def scim (env : Credentials) (lower : String → String) (fresh : Fresh) (bearer : Option String)
    (request : ScimRequest) : Effect Database StatusCode Answer := do
  match bearer with
  | none => return .scimError 401 "missing bearer token"
  | some token =>
    match (← get).accounts.resolveScimToken env token with
    | none => return .scimError 401 "invalid SCIM token"
    | some org =>
      match request with
      | .create none => return .scimError 400 "invalid JSON"
      | .create (some body) => scimCreateUser env lower fresh org body
      | .patch (some user) (some body) =>
        match extractActive body with
        | some active => scimApplyActive org user active
        | none => return scimGetUser (← get).accounts org user
      | .patch _ _ => return .scimError 400 "invalid request"
      | .delete none => return .scimError 404 "no such user"
      | .delete (some user) => scimDeleteUser org user

end Sconce
