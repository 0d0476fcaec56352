/-
# A repository's pages

The settings, the update policy, the versions, the packages, the read tokens and the CI
policies of a repository: the catalog's functions behind these pages, and the handlers of
their forms.

Every handler looks the repository up first, most of them for an admin; those of the policy and
of the versions do so for anyone who may see it.
-/
import Sconce.Dashboard.Organizations
import Sconce.Versions.Archive

namespace Sconce

open Effect

/-! ## Settings and policy -/

/-- `RepoSettings`. -/
structure RepoSettings where
  allowRawTokens : Option Bool
  maxTokenTtlDays : Option ℤ
  allowPrivatePackages : Bool
  anonymousAccess : Bool

/-- An update of the repository of an id. -/
def updateRepository {ε : Type} (repo : Uuid) (f : Repository → Repository) :
    Effect Catalog ε Unit :=
  modify fun db => { db with
    repositories := db.repositories.update fun id r => if id = repo then f r else r }

/-- `set_repo_settings`. -/
def setRepoSettings (repo : Uuid) (settings : RepoSettings) : Effect Catalog SqlError Unit :=
  updateRepository repo fun r => { r with
    allowRawTokens := settings.allowRawTokens
    maxTokenTtlDays := settings.maxTokenTtlDays
    allowPrivatePackages := settings.allowPrivatePackages
    anonymousAccess := settings.anonymousAccess }

/-- `set_update_policy`: a check constraint on the row refuses an unknown mode. -/
def setUpdatePolicy (repo : Uuid) (mode : String) (cooldownDays : ℤ) :
    Effect Catalog SqlError Unit := do
  match parseUpdateMode mode with
  | some updateMode => updateRepository repo fun r => { r with updateMode, cooldownDays }
  | none => if ((← get).repositories.get? repo).isSome then throw .checkViolation

/-! ## Versions -/

/-- `hold_version`. -/
def holdVersion (now : Timestamp) (repo : Uuid) (package normalized : String) :
    Effect Catalog SqlError Bool :=
  setVersionTimestamp .heldAt (some now) repo package normalized

/-- `unhold_version`. -/
def unholdVersion (repo : Uuid) (package normalized : String) : Effect Catalog SqlError Bool :=
  setVersionTimestamp .heldAt none repo package normalized

/-- `yank_version`. -/
def yankVersion (now : Timestamp) (repo : Uuid) (package normalized : String) :
    Effect Catalog SqlError Bool :=
  setVersionTimestamp .yankedAt (some now) repo package normalized

/-- `unyank_version`. -/
def unyankVersion (repo : Uuid) (package normalized : String) : Effect Catalog SqlError Bool :=
  setVersionTimestamp .yankedAt none repo package normalized

/-- `approve_version`. -/
def approveVersion (now : Timestamp) (repo : Uuid) (package normalized : String) :
    Effect Catalog SqlError Bool :=
  setVersionTimestamp .approvedAt (some now) repo package normalized

/-! ## Read tokens -/

/-- `min_cap`: no cap is infinity. -/
def minCap : Option ℤ → Option ℤ → Option ℤ
  | some x, some y => some (min x y)
  | only, none => only
  | none, only => only

/-- `effective_token_policy`: a repository can only tighten its organization's. -/
def Catalog.effectiveTokenPolicy (db : Catalog) (repo : Uuid) : Except SqlError OrgSettings :=
  match db.repositories.get? repo with
  | none => .error .rowNotFound
  | some r =>
    let org := db.orgSettings.get? r.orgId
    .ok {
      allowRawTokens := (org.map (·.allowRawTokens)).getD true && r.allowRawTokens.getD true
      maxTokenTtlDays := minCap (org.bind (·.maxTokenTtlDays)) r.maxTokenTtlDays }

/-- Why a token was not created. -/
inductive CreateTokenError where
  | policy (reason : String)
  | db (e : SqlError)
  deriving DecidableEq

/-- What the policy says against an expiry in days. -/
def OrgSettings.refuses (settings : OrgSettings) (expiresInDays : Option ℤ) : Option String :=
  if !settings.allowRawTokens then some "raw tokens are disabled for this repository"
  else
    match settings.maxTokenTtlDays, expiresInDays with
    | some cap, none =>
      some ("this organization requires an expiry of at most " ++ toString cap ++ " day(s)")
    | some cap, some d =>
      if cap < d then
        some ("expiry " ++ toString d ++ " day(s) exceeds the organization limit of " ++
          toString cap ++ " day(s)")
      else none
    | none, _ => none

/-- `create_token`: the plaintext. -/
def createToken (env : Credentials) (fresh : Fresh) (repo : Uuid) (label : Option String)
    (expiresInDays : Option ℤ) : Effect Catalog CreateTokenError String := do
  let db ← get
  let settings ← ofExcept ((db.effectiveTokenPolicy repo).mapError .db)
  match settings.refuses expiresInDays with
  | some reason => throw (.policy reason)
  | none =>
    let token := "sconce_" ++ fresh.secret
    if expiresInDays.any fun d => d < -2147483648 ∨ 2147483647 < d then throw (.db .castError)
    if expiresInDays.any fun d => ¬ InTimestampRange (env.session.addDays fresh.now d) then
      throw (.db .datetimeOverflow)
    if (db.tokens.get? fresh.id).isSome ∨
        (db.tokens.rows.any fun r => r.2.tokenHash = env.tokenHash token) = true then
      throw (.db .uniqueViolation)
    set { db with tokens := db.tokens.insertNew fresh.id {
      tokenHash := env.tokenHash token
      scope := .repo repo
      label
      expiresAt := expiresInDays.map (env.session.addDays fresh.now)
      policy := ⟨none, none⟩ } }
    return token

/-- `revoke_token`: whether there was such a token. -/
def revokeToken (repo token : Uuid) : Effect Catalog SqlError Bool := do
  let db ← get
  set { db with tokens := db.tokens.delete fun id t => id = token ∧ t.scope = TokenScope.repo repo }
  return (db.tokens.get? token).any fun t => t.scope = TokenScope.repo repo

/-- `set_token_policy`: whether a token matched. -/
def setTokenPolicy (repo : Uuid) (label : String) (policy : PolicyOverride) :
    Effect Catalog SqlError Bool := do
  let labelled (t : ReadToken) : Bool := t.scope = TokenScope.repo repo ∧ t.label = some label
  let db ← get
  set { db with tokens := db.tokens.update fun _ t => if labelled t then { t with policy } else t }
  return db.tokens.rows.any fun r => labelled r.2

/-! ## CI policies -/

/-- `add_ci_policy`. -/
def addCiPolicy (newId : Uuid) (policy : CiOidcPolicy) : Effect Catalog SqlError Uuid := do
  let db ← get
  if (db.ciOidcPolicies.get? newId).isSome then throw .uniqueViolation
  if (db.repositories.get? policy.repoId).isNone then throw .foreignKeyViolation
  set { db with ciOidcPolicies := db.ciOidcPolicies.insertNew newId policy }
  return newId

/-- `delete_ci_policy`: whether there was such a policy. -/
def deleteCiPolicy (repo policy : Uuid) : Effect Catalog SqlError Bool := do
  let db ← get
  set { db with
    ciOidcPolicies := db.ciOidcPolicies.delete fun id p => id = policy ∧ p.repoId = repo }
  return (db.ciOidcPolicies.get? policy).any fun p => p.repoId = repo

/-- The matchers `parse_claims` collects from `k=v, k2=v2`; a later one of a key replaces an
earlier. -/
def claimMatchers (raw : String) : List (String × String) :=
  ((splitOn [','] raw).filterMap (splitOnce '=')).foldl
    (fun m pair =>
      if (trim pair.1).isEmpty then m
      else (m.filter fun entry => entry.1 ≠ trim pair.1) ++ [(trim pair.1, trim pair.2)]) []

/-- `parse_claims`. -/
def parseClaims (raw : String) : Json :=
  .object ((claimMatchers raw).map fun entry => (entry.1, .string entry.2))

example : claimMatchers "repository=acme/app, ref = refs/heads/main,,x" =
    [("repository", "acme/app"), ("ref", "refs/heads/main")] := by decide

/-! ## Form fields -/

/-- The override a policy form asks for: an empty mode inherits, and so does a blank
cooldown. -/
def policyOverride (mode : String) (cooldownDays : Option String) :
    Except StatusCode PolicyOverride := do
  let updateMode ← if mode.isEmpty then pure none else (orBadRequest (parseUpdateMode mode)).map some
  let cooldownDays ← parseField (parseInt 32) (trimmed cooldownDays)
  return { updateMode, cooldownDays }

/-- `Visibility::parse`. -/
def Visibility.parse : String → Option Visibility
  | "public" => some .public
  | "private" => some .private
  | _ => none

/-- The set must belong to the organization of the repository. -/
def requireOwnSet (org packageSet : Uuid) : Effect Database StatusCode Unit :=
  gate fun db => if db.setInOrg packageSet org then .ok () else .error .badRequest

/-- The versions a selection lists, one `package|normalized` a line. -/
def selectedVersions (list : String) : List (String × String) :=
  ((splitOn ['\n'] list).filterMap (splitOnce '|')).filterMap fun pair =>
    if (trim pair.1).isEmpty ∨ (trim pair.2).isEmpty then none
    else some (trim pair.1, trim pair.2)

example : selectedVersions "acme/tools|1.0.0.0\n\nacme/tools| 1.1.0.0 \nx|" =
    [("acme/tools", "1.0.0.0"), ("acme/tools", "1.1.0.0")] := by decide

namespace Ui

variable (ui : Ui) (act : Acting)

/-- The page of a repository. -/
def repoPage (org repo : String) : Answer := .redirect ("/r/" ++ org ++ "/" ++ repo)

/-! ## Settings -/

/-- `RepoSettingsForm`. -/
structure RepoSettingsForm where
  allowRawTokens : String
  maxTokenTtlDays : Option String
  allowPrivatePackages : Option String
  anonymousAccess : Option String

/-- `save_repo_settings`. -/
def saveRepoSettings (org repo : String) (f : RepoSettingsForm) : Handler := do
  let summary ← gate (·.lookupAdmin act.user org repo)
  let allowRawTokens := match f.allowRawTokens with
    | "allow" => some true
    | "deny" => some false
    | _ => none
  let maxTokenTtlDays ← ofExcept (ttlDays f.maxTokenTtlDays)
  e500 (onCatalog (setRepoSettings summary.id {
    allowRawTokens
    maxTokenTtlDays
    allowPrivatePackages := f.allowPrivatePackages.isSome
    anonymousAccess := f.anonymousAccess.isSome }))
  return .redirect ("/r/" ++ org ++ "/" ++ repo ++ "/settings")

/-- `rename_repo_action`. -/
def renameRepoAction (org repo slug : String) : Handler := do
  let summary ← gate (·.lookupAdmin act.user org repo)
  let renamed ← outcome (onCatalog (renameRepo act.fresh.id summary.id (trim slug)))
  ofExcept (renameAnswer ("/r/" ++ org ++ "/" ++ trim slug) renamed)

/-- `delete_repo_action`. -/
def deleteRepoAction (org repo confirm : String) : Handler := do
  let summary ← gate (·.lookupAdmin act.user org repo)
  if trim confirm ≠ repo then
    return errorCard "Repository not deleted" "The confirmation name didn't match."
  let _ ← e500 (onCatalog (deleteRepo act.fresh.id summary.id))
  return .redirect ("/o/" ++ org)

/-! ## Policy and versions: `lookup`, not `lookup_admin` -/

/-- `set_policy`. -/
def setPolicy (org repo mode : String) (cooldownDays : ℤ) : Handler := do
  let summary ← gate (·.lookup act.user org repo)
  ExceptT.adapt (fun _ => StatusCode.badRequest)
    (onCatalog (setUpdatePolicy summary.id mode cooldownDays))
  return repoPage org repo

/-- `VersionForm`. -/
structure VersionForm where
  package : String
  normalized : String
  action : String

/-- `version_action`. -/
def versionAction (org repo : String) (f : VersionForm) : Handler := do
  let summary ← gate (·.lookup act.user org repo)
  let now := act.fresh.now
  let _ ← match f.action with
    | "hold" => e500 (onCatalog (holdVersion now summary.id f.package f.normalized))
    | "unhold" => e500 (onCatalog (unholdVersion summary.id f.package f.normalized))
    | "approve" => e500 (onCatalog (approveVersion now summary.id f.package f.normalized))
    | "yank" => e500 (onCatalog (yankVersion now summary.id f.package f.normalized))
    | "unyank" => e500 (onCatalog (unyankVersion summary.id f.package f.normalized))
    | _ => throw .badRequest
  return repoPage org repo

/-- `ApproveBulkForm`. -/
structure ApproveBulkForm where
  package : Option String
  /-- Present but empty means that nothing is ticked. -/
  versions : Option String

/-- `approve_bulk`. -/
def approveBulk (org repo : String) (f : ApproveBulkForm) : Handler := do
  let summary ← gate (·.lookup act.user org repo)
  match f.versions with
  | some list =>
    forM (selectedVersions list) fun v => do
      let _ ← e500 (onCatalog (approveVersion act.fresh.now summary.id v.1 v.2))
  | none =>
    let package := f.package.filter fun p => !p.isEmpty
    let _ ← onCatalog (approveAllPending act.fresh.now summary.id package)
  return repoPage org repo

/-- `hold_bulk`: an explicit selection only. -/
def holdBulk (org repo : String) (f : ApproveBulkForm) : Handler := do
  let summary ← gate (·.lookup act.user org repo)
  match f.versions with
  | some list =>
    forM (selectedVersions list) fun v => do
      let _ ← e500 (onCatalog (holdVersion act.fresh.now summary.id v.1 v.2))
  | none => pure ()
  return repoPage org repo

/-! ## Packages -/

/-- `package_archive`. -/
def packageArchive (org repo package action : String) : Handler := do
  let summary ← gate (·.lookupAdmin act.user org repo)
  let _ ← match action with
    | "archive" => e500 (onCatalog (archivePackage act.fresh.now summary.id package))
    | "unarchive" => e500 (onCatalog (unarchivePackage summary.id package))
    | _ => throw .badRequest
  return repoPage org repo

/-- `package_visibility`. -/
def packageVisibility (org repo package visibility : String) : Handler := do
  let summary ← gate (·.lookupAdmin act.user org repo)
  let visibility ← ofExcept (orBadRequest (Visibility.parse visibility))
  match ← outcome (onCatalog
      (setPackageVisibility act.fresh.now summary.id package visibility)) with
  | .ok true => return .redirect ("/r/" ++ org ++ "/" ++ repo ++ "/p/" ++ package)
  | .ok false => return .page "Package not found" "No such package owned by this repository."
  | .error (.policy reason) => return .page "Not allowed" reason
  | .error (.db _) => throw .internalServerError

/-! ## Tokens -/

/-- `create_token`. -/
def createToken (org repo : String) (label expiresDays : Option String) : Handler := do
  let summary ← gate (·.lookupAdmin act.user org repo)
  let expiresDays ← ofExcept (ttlDays expiresDays)
  match ← outcome (onCatalog (Sconce.createToken ui.credentials act.fresh summary.id
      (trimmed label) expiresDays)) with
  | .ok token => return .page "Token created" token
  | .error (.policy reason) => return .page "Token not created" reason
  | .error (.db _) => throw .internalServerError

/-- `revoke_token`. -/
def revokeToken (org repo id : String) : Handler := do
  let summary ← gate (·.lookupAdmin act.user org repo)
  let tokenId ← ofExcept (orBadRequest (ui.parseUuid id))
  let _ ← e500 (onCatalog (Sconce.revokeToken summary.id tokenId))
  return repoPage org repo

/-- `TokenPolicyForm`. -/
structure TokenPolicyForm where
  label : String
  mode : String
  cooldownDays : Option String

/-- `set_token_policy`. -/
def setTokenPolicy (org repo : String) (f : TokenPolicyForm) : Handler := do
  let summary ← gate (·.lookupAdmin act.user org repo)
  let policy ← ofExcept (policyOverride f.mode f.cooldownDays)
  let _ ← e500 (onCatalog (Sconce.setTokenPolicy summary.id f.label policy))
  return repoPage org repo

/-! ## CI policies -/

/-- `CiForm`. -/
structure CiForm where
  provider : String
  issuer : String
  audience : String
  claims : Option String
  ttl : Option String
  capability : Option String

/-- The capability a form names. -/
def CiForm.parseCapability (f : CiForm) : Option CiCapability :=
  match f.capability.getD "read" with
  | "" | "read" => some .read
  | "publish" => some .publish
  | _ => none

/-- `add_ci`: at least a minute, fifteen by default. -/
def addCi (org repo : String) (f : CiForm) : Handler := do
  let summary ← gate (·.lookupAdmin act.user org repo)
  if f.provider ≠ "github" ∧ f.provider ≠ "gitlab" then throw .badRequest
  let capability ← ofExcept (orBadRequest f.parseCapability)
  let ttl ← ofExcept (parseField (parseInt 64) (trimmed f.ttl))
  let _ ← e500 (onCatalog (addCiPolicy act.fresh.id {
    repoId := summary.id
    provider := f.provider
    issuer := trim f.issuer
    audience := trim f.audience
    claims := parseClaims (f.claims.getD "")
    tokenTtlSecs := (ttl.map fun t => max t 60).getD 900
    capability
    tokenScope := .repo }))
  return .redirect ("/r/" ++ org ++ "/" ++ repo ++ "#tab-ci")

/-- `remove_ci`. -/
def removeCi (org repo id : String) : Handler := do
  let summary ← gate (·.lookupAdmin act.user org repo)
  let policy ← ofExcept (orBadRequest (ui.parseUuid id))
  let _ ← e500 (onCatalog (deleteCiPolicy summary.id policy))
  return .redirect ("/r/" ++ org ++ "/" ++ repo ++ "#tab-ci")

end Ui

end Sconce
