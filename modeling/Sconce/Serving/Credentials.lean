/-
# Credentials

The secrets a server mints and the doors they open.  A workflow trades the token its platform
signed for a read token or a publish token; a device login ends in a read token of an
organization; an operator mints service tokens for the management API.
-/
import Sconce.Serving.CiAccess
import Sconce.Management.Api

namespace Sconce

open Effect

/-! ## Minting -/

/-- What the scope of a token refers to is there. -/
def Catalog.scopeThere (db : Catalog) : TokenScope → Bool
  | .repo repo => (db.repositories.get? repo).isSome
  | .org org => (db.organizations.get? org).isSome

/-- `insert into tokens`. -/
def insertReadToken (newId : Uuid) (row : ReadToken) : Effect Catalog SqlError Unit := do
  let db ← get
  if (db.tokens.get? newId).isSome ∨
      (db.tokens.rows.any fun r => r.2.tokenHash = row.tokenHash) = true then
    throw .uniqueViolation
  if !db.scopeThere row.scope then throw .foreignKeyViolation
  set { db with tokens := db.tokens.insertNew newId row }

/-- The row of a token that expires after some seconds. -/
def expiringToken (env : Credentials) (now : Timestamp) (token : String) (scope : TokenScope)
    (label : String) (ttlSecs : ℤ) (origin : TokenOrigin) : ReadToken where
  tokenHash := env.tokenHash token
  scope
  label := some label
  expiresAt := some (now + toTimestamp ttlSecs)
  policy := ⟨none, none⟩
  origin

/-- What the constraints of `service_tokens` and of `publish_tokens` say to a new row. -/
def Catalog.admitsToken (db : Catalog) (table : Table Uuid RepoToken) (newId : Uuid)
    (row : RepoToken) : Except SqlError Unit :=
  if (table.get? newId).isSome ∨ (table.rows.any fun r => r.2.tokenHash = row.tokenHash) = true then
    .error .uniqueViolation
  else if (db.repositories.get? row.repoId).isNone then .error .foreignKeyViolation
  else .ok ()

section Mints

variable (env : Credentials) (fresh : Fresh)

/-- `create_ci_token`. -/
def createCiToken (repo : Uuid) (label : String) (ttlSecs : ℤ) :
    Effect Catalog SqlError String := do
  let token := "sconce_" ++ fresh.secret
  insertReadToken fresh.id (expiringToken env fresh.now token (.repo repo) label ttlSecs .ci)
  return token

/-- `create_org_ci_token`. -/
def createOrgCiToken (org : Uuid) (label : String) (ttlSecs : ℤ) :
    Effect Catalog SqlError String := do
  let token := "sconce_" ++ fresh.secret
  insertReadToken fresh.id (expiringToken env fresh.now token (.org org) label ttlSecs .ci)
  return token

/-- `create_session_token`. -/
def createSessionToken (org : Uuid) (label : String) (ttlSecs : ℤ) :
    Effect Catalog SqlError String := do
  let token := "sconce_" ++ fresh.secret
  insertReadToken fresh.id (expiringToken env fresh.now token (.org org) label ttlSecs .session)
  return token

/-- `create_service_token`: the plaintext and the id; the days are cast to an `int`. -/
def createServiceToken (repo : Uuid) (label : Option String) (expiresDays : Option ℤ) :
    Effect Catalog SqlError (String × Uuid) := do
  let token := "scst_" ++ fresh.secret
  if expiresDays.any fun d => d < -2147483648 ∨ 2147483647 < d then throw .castError
  if expiresDays.any fun d => ¬ InTimestampRange (env.session.addDays fresh.now d) then
    throw .datetimeOverflow
  let row : RepoToken :=
    ⟨repo, env.tokenHash token, label, expiresDays.map (env.session.addDays fresh.now)⟩
  let db ← get
  ofExcept (db.admitsToken db.serviceTokens fresh.id row)
  set { db with serviceTokens := db.serviceTokens.insertNew fresh.id row }
  return (token, fresh.id)

/-- `create_publish_token`. -/
def createPublishToken (repo : Uuid) (label : String) (ttlSecs : ℤ) :
    Effect Catalog SqlError String := do
  let token := "scpt_" ++ fresh.secret
  let row : RepoToken :=
    ⟨repo, env.tokenHash token, some label, some (fresh.now + toTimestamp ttlSecs)⟩
  let db ← get
  ofExcept (db.admitsToken db.publishTokens fresh.id row)
  set { db with publishTokens := db.publishTokens.insertNew fresh.id row }
  return token

end Mints

/-- `revoke_service_token`: whether there was such a token. -/
def revokeServiceToken (repo token : Uuid) : Effect Catalog SqlError Bool := do
  let db ← get
  set { db with serviceTokens := db.serviceTokens.delete fun id t => id = token ∧ t.repoId = repo }
  return (db.serviceTokens.get? token).any fun t => t.repoId = repo

/-! ## Exchanges -/

/-- `CiExchange`. -/
structure CiExchange where
  repository : String
  jwt : String

/-- What validates a workflow's token: its claims, where the keys of the policy's issuer can be
fetched and accept it at that time for the policy's audience. -/
abbrev JwtCheck := String → Timestamp → CiOidcPolicy → Option Json

/-- `ci_match`: none is a 404 without a repository, a 401 where no policy lets the workflow in. -/
def ciMatch (check : JwtCheck) (now : Timestamp) (capability : CiCapability) (db : Catalog)
    (r : CiExchange) : Except AppError CiMatch :=
  match splitOnce '/' r.repository with
  | none => .error .notFound
  | some (org, repo) =>
    match db.resolveRepo org repo with
    | none => .error .notFound
    | some repoId =>
      match db.ciMatch (check r.jwt now) repoId capability with
      | some m => .ok m
      | none => .error .unauthorized

/-- The answer of an exchange. -/
structure AccessToken where
  accessToken : String
  expiresIn : ℤ

section Exchanges

variable (env : Credentials) (check : JwtCheck) (fresh : Fresh)

/-- `oauth_ci`: a read token, of the organization where the policy says so. -/
def oauthCi (r : CiExchange) : Effect Catalog AppError AccessToken := do
  let db ← get
  let m ← ofExcept (ciMatch check fresh.now .read db r)
  match m.tokenScope with
  | .org =>
    -- `org_id_for_repo`
    match (db.repositories.get? m.repoId).map (·.orgId) with
    | none => throw .notFound
    | some org =>
      let token ← ExceptT.adapt .catalog (createOrgCiToken env fresh org m.label m.ttl)
      return ⟨token, m.ttl⟩
  | .repo =>
    let token ← ExceptT.adapt .catalog (createCiToken env fresh m.repoId m.label m.ttl)
    return ⟨token, m.ttl⟩

/-- `oauth_ci_publish`: a publish token, whatever scope the policy names. -/
def oauthCiPublish (r : CiExchange) : Effect Catalog AppError AccessToken := do
  let db ← get
  let m ← ofExcept (ciMatch check fresh.now .publish db r)
  let token ← ExceptT.adapt .catalog (createPublishToken env fresh m.repoId m.label m.ttl)
  return ⟨token, m.ttl⟩

/-- `DEVICE_TOKEN_TTL_SECS`. -/
def deviceTokenTtlSecs : ℤ := 90 * 24 * 60 * 60

/-- What `oauth_device_token` answers. -/
inductive DeviceTokenAnswer where
  | token (t : AccessToken)
  | refused (status : ℕ) (error : String)

/-- `oauth_device_token`: an approved flow is gone once its token is minted. -/
def oauthDeviceToken (deviceCode : String) : Effect Database SqlError DeviceTokenAnswer := do
  match ← outcome (onAccounts (pollDeviceFlow env fresh.now deviceCode)) with
  | .ok (.approved org) =>
    match ← outcome (onCatalog
        (createSessionToken env fresh org "bougie login" deviceTokenTtlSecs)) with
    | .ok token => return .token ⟨token, deviceTokenTtlSecs⟩
    | .error _ => return .refused 500 "server_error"
  | .ok .pending => return .refused 400 "authorization_pending"
  | .ok .denied => return .refused 400 "access_denied"
  | .ok .expired => return .refused 400 "expired_token"
  | .error _ => return .refused 500 "server_error"

end Exchanges

/-! ## The door of the publish routes -/

/-- `resolve_publish_token`: the repository it authorizes. -/
def Catalog.resolvePublishToken (db : Catalog) (now : Timestamp) (hash : Sha256) : Option Uuid :=
  (db.publishTokens.rows.find? fun t => t.2.tokenHash = hash ∧ unexpired now t.2.expiresAt).map
    (·.2.repoId)

/-- `PublishAuthedRepo`: the repository a publish request is authenticated for. -/
def publishAuthedRepo (env : ReadEnv) (db : Catalog) (now : Timestamp) (org repo : String)
    (authorization : Authorization) : Except AppError Uuid :=
  match extractToken env authorization with
  | none => .error .unauthorized
  | some token =>
    match db.resolvePublishToken now (env.tokenHash token) with
    | none => .error .unauthorized
    | some tokenRepo =>
      match db.resolveRepo org repo with
      | none => .error .notFound
      | some pathRepo => if tokenRepo = pathRepo then .ok pathRepo else .error .forbidden

end Sconce
