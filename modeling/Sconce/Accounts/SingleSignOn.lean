/-
# Single sign-on and provisioning

The connections to identity providers, the login flows begun with them, the callback that
ends a flow in a session, and the SCIM endpoints through which an organization's provider
adds and removes members.

The provider itself is a parameter: `IdentityProvider` is what the code exchange and the
check of the ID token answer.
-/
import Sconce.Accounts.Store
import Sconce.Licensing.Operations

namespace Sconce

open Effect

/-! ## Answers -/

/-- The status a handler fails with. -/
inductive StatusCode where
  | badRequest
  | forbidden
  | notFound
  | internalServerError
  deriving DecidableEq

/-- What a handler answers. -/
inductive Answer where
  | redirect (target : String)
  /-- A redirect that sets the session cookie, or clears it. -/
  | redirectWithCookie (target : String) (token : Option String)
  /-- A rendered page: its title, and its notice or error if any. -/
  | page (title message : String)
  | tooManyAttempts
  | scimError (status : ℕ) (detail : String)
  | scimUser (id : Uuid) (email : String) (active : Bool)
  | noContent

/-- A query's error is a 500. -/
def e500 {σ ε α : Type} (m : Effect σ ε α) : Effect σ StatusCode α :=
  ExceptT.adapt (fun _ => .internalServerError) m

/-- The status of an entitlement-gated failure. -/
def entStatus : EntitlementError → StatusCode
  | .denied _ => .forbidden
  | .skuCapReached _ => .forbidden
  | .sqlx _ => .internalServerError

/-- The sign-in page with a message. -/
def loginPage (message : String) : Answer := .page "Sign in" message

/-! ## Connections -/

/-- The part of an email `rsplit('@')` gives first. -/
def emailDomain (email : String) : String :=
  String.ofList (email.toList.reverse.takeWhile (· ≠ '@')).reverse

example : emailDomain "jane@acme.com" = "acme.com" := by decide

/-- `domain_matches`: no list, or an empty one, matches nothing. -/
def domainMatches (email : String) (domains : Option (List String)) : Bool :=
  match domains.filter fun list => !list.isEmpty with
  | none => false
  | some list => list.any fun d => d.toLower == (emailDomain email).toLower

/-- The gate by allowed domains, if any are configured. -/
def OidcConnection.admitsDomain (conn : OidcConnection) (email : String) : Bool :=
  !((conn.allowedDomains.any fun d => !d.isEmpty) && !domainMatches email conn.allowedDomains)

namespace Accounts

variable (acc : Accounts)

/-- `oidc_connection_by_id`. -/
def oidcConnectionById (id : Uuid) : Option (Uuid × OidcConnection) :=
  (acc.oidcConnections.get? id).map fun c => (id, c)

/-- The connection of a scope: an organization's, or the instance's default. -/
def oidcConnectionAt (org : Option Uuid) : Option (Uuid × OidcConnection) :=
  acc.oidcConnections.rows.find? fun r => r.2.orgId = org

/-- The connection of an id, or the instance's default where none is given. -/
def connectionFor (id : Option Uuid) : Option (Uuid × OidcConnection) :=
  match id with
  | some id => acc.oidcConnectionById id
  | none => acc.oidcConnectionAt none

end Accounts

/-- `set_oidc_connection`, of the scope the slug names: the stored connection of that scope
and the flows begun with it go. -/
def setOidcConnection (id : Uuid) (orgSlug : Option String) (c : OidcConnection) :
    Effect Database EntitlementError Unit := do
  let db ← get
  let org ← match orgSlug with
    | none => pure none
    | some slug => match db.catalog.orgIdBySlug slug with
      | none => throw (.sqlx .rowNotFound)
      | some org => do
        ofExcept (db.catalog.requireFeature org .sso)
        pure (some org)
  onAccounts <| atomically do
    modify fun acc => { acc with
      oidcConnections := acc.oidcConnections.delete fun _ c => c.orgId = org
      oidcFlows := acc.oidcFlows.delete fun _ f =>
        f.connId.any fun id => (acc.oidcConnections.get? id).any fun c => c.orgId = org }
    if ((← get).oidcConnections.get? id).isSome then throw (.sqlx .uniqueViolation)
    modify fun acc => { acc with
      oidcConnections := acc.oidcConnections.insertNew id { c with orgId := org } }

/-- `create_oidc_flow`. -/
def createOidcFlow (state : String) (flow : OidcFlow) : Effect Accounts SqlError Unit := do
  let acc ← get
  if (acc.oidcFlows.get? state).isSome then throw .uniqueViolation
  if flow.connId.any fun id => (acc.oidcConnections.get? id).isNone then
    throw .foreignKeyViolation
  modify fun acc => { acc with oidcFlows := acc.oidcFlows.insertNew state flow }

/-- `consume_oidc_flow`: the row goes whether it is fresh or not. -/
def consumeOidcFlow {ε : Type} (now : Timestamp) (state : String) :
    Effect Accounts ε (Option OidcFlow) := do
  let acc ← get
  modify fun acc => { acc with oidcFlows := acc.oidcFlows.delete fun k _ => k = state }
  return (acc.oidcFlows.get? state).filter fun f => now < f.expiresAt

/-! ## Signing in -/

/-- What `oidc::begin` returns. -/
structure Begin where
  authUrl : String
  state : String
  nonce : String
  pkceVerifier : String

/-- The identity provider of a connection. -/
structure IdentityProvider where
  /-- `oidc::begin`, given the connection and its secret. -/
  begin : OidcConnection → Option String → Except String Begin
  /-- `oidc::finish`, given the connection, its secret, the code, the nonce and the verifier:
  the email the ID token asserts. -/
  finish : OidcConnection → Option String → String → String → String → Except String String

/-- `oidc_secret`. -/
def oidcSecret (secretKey : Option SecretKey) (c : OidcConnection) :
    Except StatusCode (Option String) :=
  match c.clientSecret, secretKey with
  | none, _ => .ok none
  | some ciphertext, some key =>
    match key ciphertext with
    | some text => .ok (some text)
    | none => .error .internalServerError
  | some _, none => .error .internalServerError

/-- `auth_start`: a connection's id, or the instance's default. -/
def authStart (secretKey : Option SecretKey) (now : Timestamp) (idp : IdentityProvider)
    (conn : Option Uuid) : Effect Database StatusCode Answer := do
  match (← get).accounts.connectionFor conn with
  | none => throw .notFound
  | some (id, conn) =>
    let secret ← ofExcept (oidcSecret secretKey conn)
    match idp.begin conn secret with
    | .error e => return loginPage ("SSO unavailable: " ++ e)
    | .ok b =>
      e500 <| onAccounts <| createOidcFlow b.state
        ⟨some id, b.nonce, b.pkceVerifier, "/", now + 600000000⟩
      return .redirect b.authUrl

/-- What a callback does with a verified email: find or create the account, make it a member
of the connection's organization, open a session. -/
def provisionSession (env : Credentials) (fresh : Fresh) (conn : OidcConnection) (email : String) :
    Effect Database StatusCode String := do
  let isSuperadmin := domainMatches email conn.adminDomains
  let user ← e500 (onAccounts (findOrCreateSsoUser env fresh email isSuperadmin))
  let db ← get
  match conn.orgId.bind db.catalog.organizations.get? with
  | some org => let _ ← addUserToTenant email org.slug .member
  | none => pure ()
  e500 (onAccounts (createSession env fresh user 7))

/-- The organization a connection makes members of. -/
def Database.homeOrg (db : Database) (conn : OidcConnection) : Option Uuid :=
  (conn.orgId.bind db.catalog.organizations.get?).bind fun org => db.catalog.orgIdBySlug org.slug

/-- The tables once a callback has found or created the account `user` and made it a member. -/
def Database.admitted (db : Database) (env : Credentials) (fresh : Fresh) (conn : OidcConnection)
    (email : String) (user : Uuid) : Database :=
  let isSuperadmin := domainMatches email conn.adminDomains
  let hash := env.hashPassword fresh.salt ("sso_" ++ fresh.randomPassword)
  { db with accounts := { db.accounts with
      users := db.accounts.users.upsert user ⟨email, hash, isSuperadmin⟩ fun u =>
        { u with isSuperadmin }
      userTenants := match db.homeOrg conn with
        | some org => db.accounts.userTenants.upsert (user, org) ⟨.member, true⟩ fun m =>
          { m with role := .member, active := true }
        | none => db.accounts.userTenants } }

/-- What `create_session` can do: store a session under a free key, or fail before it writes. -/
theorem createSession_cases (env : Credentials) (fresh : Fresh) (user : Uuid) (ttlDays : ℤ)
    (acc : Accounts) :
    (∃ e, exec (createSession env fresh user ttlDays) acc = (.error e, acc)) ∨
      (acc.sessions.get? (env.tokenHash ("scses_" ++ fresh.secret)) = none ∧
        exec (createSession env fresh user ttlDays) acc = (.ok ("scses_" ++ fresh.secret),
          { acc with
            sessions := acc.sessions.insertNew (env.tokenHash ("scses_" ++ fresh.secret))
              ⟨user, env.session.addDays fresh.now ttlDays⟩ })) := by
  unfold createSession
  cases htoken : acc.sessions.get? (env.tokenHash ("scses_" ++ fresh.secret)) with
  | some s => exact Or.inl ⟨.uniqueViolation, by simp [exec_bind, andThen, htoken]⟩
  | none =>
    cases huser : acc.users.get? user with
    | none => exact Or.inl ⟨.foreignKeyViolation, by simp [exec_bind, andThen, htoken, huser]⟩
    | some u => exact Or.inr ⟨rfl, by simp [exec_bind, andThen, htoken, huser, Except.map]⟩

/-- **What a verified email does.**  Either the account's insert fails and nothing is written,
or the account is admitted, and then a session of it is opened or nothing more happens. -/
theorem provisionSession_cases (env : Credentials) (fresh : Fresh) (conn : OidcConnection)
    (email : String) (db : Database) :
    (db.accounts.accountFor fresh.id email = none ∧
        (exec (provisionSession env fresh conn email) db).2 = db) ∨
      ∃ user, db.accounts.accountFor fresh.id email = some user ∧
        ((exec (provisionSession env fresh conn email) db).2
            = db.admitted env fresh conn email user ∨
          (db.accounts.sessions.get? (env.tokenHash ("scses_" ++ fresh.secret)) = none ∧
            (exec (provisionSession env fresh conn email) db).2
              = { db.admitted env fresh conn email user with
                  accounts := { (db.admitted env fresh conn email user).accounts with
                    sessions := db.accounts.sessions.insertNew
                      (env.tokenHash ("scses_" ++ fresh.secret))
                      ⟨user, env.session.addDays fresh.now 7⟩ } })) := by
  cases haccount : db.accounts.accountFor fresh.id email with
  | none =>
    refine Or.inl ⟨rfl, ?_⟩
    unfold provisionSession findOrCreateSsoUser e500 onAccounts
    rw [exec_bind]
    simp only [exec_adapt, exec_onPart, exec_upsertUser, haccount]
    rfl
  | some user =>
    refine Or.inr ⟨user, rfl, ?_⟩
    let row : User := ⟨email, env.hashPassword fresh.salt ("sso_" ++ fresh.randomPassword),
      domainMatches email conn.adminDomains⟩
    have hfound := @Accounts.userByEmail_upsert db.accounts fresh.id user row haccount
      (fun u => { u with isSuperadmin := domainMatches email conn.adminDomains }) fun _ => rfl
    -- the grant finds the account just written
    have hrun : exec (provisionSession env fresh conn email) db
        = exec (e500 (onAccounts (createSession env fresh user 7)))
            (db.admitted env fresh conn email user) := by
      unfold provisionSession findOrCreateSsoUser
      rw [exec_bind]
      unfold e500 onAccounts
      simp only [exec_adapt, exec_onPart, exec_upsertUser, haccount, Except.mapError, andThen]
      rw [exec_bind, exec_get]
      simp only [andThen]
      cases horg : conn.orgId.bind db.catalog.organizations.get? with
      | none =>
        unfold Database.admitted Database.homeOrg
        rw [horg]
        rfl
      | some org =>
        unfold Database.admitted Database.homeOrg
        rw [horg]
        simp only [Option.bind_some]
        rw [exec_bind, exec_addUserToTenant hfound]
        cases db.catalog.orgIdBySlug org.slug with
        | none => rfl
        | some id => rfl
    rw [hrun]
    unfold e500 onAccounts
    simp only [exec_adapt, exec_onPart]
    rcases createSession_cases env fresh user 7 (db.admitted env fresh conn email user).accounts
      with ⟨e, he⟩ | ⟨hfree, hok⟩
    · rw [he]
      exact Or.inl rfl
    · rw [hok]
      exact Or.inr ⟨hfree, rfl⟩

/-- The query of `/auth/callback`. -/
structure CallbackParams where
  code : Option String
  state : Option String
  error : Option String

/-- `auth_callback` once its flow is consumed: the connection the flow began with, the
provider's answer, and the gate by domain. -/
def finishFlow (env : Credentials) (secretKey : Option SecretKey) (fresh : Fresh)
    (idp : IdentityProvider) (code : String) (flow : OidcFlow) :
    Effect Database StatusCode Answer := do
  match (← get).accounts.connectionFor flow.connId with
  | none => throw .notFound
  | some (_, conn) =>
    let secret ← ofExcept (oidcSecret secretKey conn)
    match idp.finish conn secret code flow.nonce flow.pkceVerifier with
    | .error e => return loginPage ("SSO failed: " ++ e)
    | .ok email =>
      if !conn.admitsDomain email then
        return loginPage "your email domain is not allowed to sign in"
      let token ← provisionSession env fresh conn email
      let dest := if flow.redirectTo.toList.head? = some '/' then flow.redirectTo else "/"
      return .redirectWithCookie dest (some token)

/-- `auth_callback`. -/
def authCallback (env : Credentials) (secretKey : Option SecretKey) (fresh : Fresh)
    (idp : IdentityProvider) (p : CallbackParams) : Effect Database StatusCode Answer := do
  match p.error with
  | some err => return loginPage ("IdP returned an error: " ++ err)
  | none =>
    match p.code, p.state with
    | some code, some state =>
      match ← onAccounts (consumeOidcFlow fresh.now state) with
      | none => return loginPage "login session expired or invalid — try again"
      | some flow => finishFlow env secretKey fresh idp code flow
    | _, _ => throw .badRequest

/-! ## How far a callback gets -/

/-- The connection and the email a consumed flow goes on with, if it gets to the account. -/
def Accounts.verifies (acc : Accounts) (secretKey : Option SecretKey) (idp : IdentityProvider)
    (code : String) (flow : OidcFlow) : Option (OidcConnection × String) := do
  let (_, conn) ← acc.connectionFor flow.connId
  let secret ← (oidcSecret secretKey conn).toOption
  let email ← (idp.finish conn secret code flow.nonce flow.pkceVerifier).toOption
  if conn.admitsDomain email then some (conn, email) else none

/-- The connection and the email a callback signs in with, if it gets to the account. -/
def Accounts.signsIn (acc : Accounts) (secretKey : Option SecretKey) (now : Timestamp)
    (idp : IdentityProvider) (p : CallbackParams) : Option (OidcConnection × String) :=
  match p.error, p.code, p.state with
  | none, some code, some state =>
    ((acc.oidcFlows.get? state).filter fun f => now < f.expiresAt).bind
      (acc.verifies secretKey idp code)
  | _, _, _ => none

/-- The flow's rest writes only where it gets to the account. -/
theorem exec_finishFlow (env : Credentials) (secretKey : Option SecretKey) (fresh : Fresh)
    (idp : IdentityProvider) (code : String) (flow : OidcFlow) (db : Database) :
    (exec (finishFlow env secretKey fresh idp code flow) db).2
      = match db.accounts.verifies secretKey idp code flow with
        | some (conn, email) => (exec (provisionSession env fresh conn email) db).2
        | none => db := by
  unfold finishFlow Accounts.verifies
  rw [exec_bind, exec_get]
  simp only [andThen]
  cases hconn : db.accounts.connectionFor flow.connId with
  | none => rfl
  | some r =>
    obtain ⟨id, conn⟩ := r
    simp only [Option.bind_eq_bind, Option.bind_some, exec_bind, exec_ofExcept, andThen]
    cases hsecret : oidcSecret secretKey conn with
    | error e => rfl
    | ok secret =>
      simp only [Except.toOption, Option.bind_some]
      cases hfinish : idp.finish conn secret code flow.nonce flow.pkceVerifier with
      | error e => rfl
      | ok email =>
        simp only [Option.bind_some]
        cases hdomain : conn.admitsDomain email with
        | false => rfl
        | true =>
          simp only [Bool.not_true, Bool.false_eq_true, if_false, if_true, exec_bind, exec_pure, andThen]
          cases (exec (provisionSession env fresh conn email) db).1 with
          | ok token => rfl
          | error e => rfl

/-- **What a callback does.**  It may use up its flow; beyond that it writes only where it
signs in. -/
theorem exec_authCallback (env : Credentials) (secretKey : Option SecretKey) (fresh : Fresh)
    (idp : IdentityProvider) (p : CallbackParams) (db : Database) :
    ∃ oidcFlows, (exec (authCallback env secretKey fresh idp p) db).2
      = match db.accounts.signsIn secretKey fresh.now idp p with
        | some (conn, email) => (exec (provisionSession env fresh conn email)
            { db with accounts := { db.accounts with oidcFlows } }).2
        | none => { db with accounts := { db.accounts with oidcFlows } } := by
  unfold authCallback Accounts.signsIn
  cases herror : p.error with
  | some err => exact ⟨db.accounts.oidcFlows, rfl⟩
  | none =>
    cases hcode : p.code with
    | none => exact ⟨db.accounts.oidcFlows, rfl⟩
    | some code =>
      cases hstate : p.state with
      | none => exact ⟨db.accounts.oidcFlows, rfl⟩
      | some state =>
        refine ⟨db.accounts.oidcFlows.delete fun k _ => k = state, ?_⟩
        unfold onAccounts consumeOidcFlow
        simp only [exec_bind, exec_onPart, exec_get, exec_modify, exec_pure, andThen]
        cases hflow : (db.accounts.oidcFlows.get? state).filter fun f => fresh.now < f.expiresAt with
        | none => rfl
        | some flow => exact exec_finishFlow env secretKey fresh idp code flow _

end Sconce
