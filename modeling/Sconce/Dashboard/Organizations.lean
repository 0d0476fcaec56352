/-
# Users, organizations and package sets on the dashboard

The catalog's functions behind these pages, and the handlers of their forms.  Every handler
begins with the check that lets it through.
-/
import Sconce.Dashboard.Gate
import Sconce.Serving.Slugs

namespace Sconce

open Effect

/-! ## Slugs -/

/-- Why a slug could not be changed. -/
inductive RenameError where
  | db (e : SqlError)
  | taken
  | retired
  | invalid
  deriving DecidableEq

/-- Its message; a database error shows its own. -/
def RenameError.text : RenameError → Option String
  | .db _ => none
  | .taken => some "that name is already taken"
  | .retired => some "that name was previously used and is retired"
  | .invalid => some "invalid name"

/-- What `rename_org` and `rename_repo` do once they have read the current slug. -/
def renameFrom (newId : Uuid) (scope : SlugScope) (entity : Uuid) (current newSlug : String) :
    Effect Catalog RenameError Unit := do
  let db ← get
  if current = newSlug then return
  if db.slugUnavailable scope newSlug then
    throw (if (db.liveEntity scope newSlug).isSome then .taken else .retired)
  ExceptT.adapt .db (commitRename newId scope entity current newSlug)

/-- `rename_org`. -/
def renameOrg (newId org : Uuid) (newSlug : String) : Effect Catalog RenameError Unit := do
  if (trim newSlug).isEmpty then throw .invalid
  match (← get).organizations.get? org with
  | none => throw .invalid
  | some o => renameFrom newId .org org o.slug (trim newSlug)

/-- `rename_repo`. -/
def renameRepo (newId repo : Uuid) (newSlug : String) : Effect Catalog RenameError Unit := do
  if (trim newSlug).isEmpty then throw .invalid
  match (← get).repositories.get? repo with
  | none => throw .invalid
  | some r => renameFrom newId (.repo r.orgId) repo r.slug (trim newSlug)

/-- `delete_repo`: whether there was such a repository. -/
def deleteRepo (newId repo : Uuid) : Effect Catalog SqlError Bool := do
  match (← get).repositories.get? repo with
  | none => return false
  | some r =>
    commitDelete newId r.orgId repo r.slug
    return true

/-! ## Settings and package sets -/

/-- `set_org_settings`. -/
def setOrgSettings (org : Uuid) (settings : OrgSettings) : Effect Catalog SqlError Unit := do
  let db ← get
  if (db.organizations.get? org).isNone then throw .foreignKeyViolation
  set { db with orgSettings := db.orgSettings.upsert org settings fun _ => settings }

/-- `create_package_set`. -/
def createPackageSet (newId org : Uuid) (name : String) : Effect Catalog SqlError Uuid := do
  let db ← get
  if (db.packageSets.get? newId).isSome ∨
      (db.packageSets.rows.any fun r => r.2.orgId = org ∧ r.2.name = trim name) = true then
    throw .uniqueViolation
  if (db.organizations.get? org).isNone then throw .foreignKeyViolation
  set { db with packageSets := db.packageSets.insertNew newId ⟨org, trim name⟩ }
  return newId

/-- `delete_package_set`: whether there was such a set.  An edition keeps its set. -/
def deletePackageSet (org packageSet : Uuid) : Effect Catalog SqlError Bool := do
  let db ← get
  if !db.setInOrg packageSet org then return false
  if db.editions.rows.any fun r => r.2.setId = packageSet then throw .foreignKeyViolation
  set (db.dropPackageSets fun id => id = packageSet)
  return true

/-- `find_package_in_org`. -/
def Catalog.findPackageInOrg (db : Catalog) (org : Uuid) (name : String) : Option Uuid :=
  (db.packages.rows.find? fun r => db.orgOfRepo r.2.repoId = some org ∧ r.2.name = name).map (·.1)

/-- `add_set_member`. -/
def addSetMember (packageSet package : Uuid) : Effect Catalog SqlError Unit := do
  let db ← get
  if (db.packageSetMembers.get? (packageSet, package)).isSome then return
  if (db.packageSets.get? packageSet).isNone ∨ (db.packages.get? package).isNone then
    throw .foreignKeyViolation
  set { db with packageSetMembers := db.packageSetMembers.insertNew (packageSet, package) () }

/-- `remove_set_member`. -/
def removeSetMember (packageSet package : Uuid) : Effect Catalog SqlError Unit :=
  modify fun db => { db with
    packageSetMembers := db.packageSetMembers.delete fun key _ => key = (packageSet, package) }

/-- `add_set_rule`. -/
def addSetRule (newId packageSet : Uuid) (glob : String) : Effect Catalog SqlError Uuid := do
  let db ← get
  if (db.packageSetRules.get? newId).isSome then throw .uniqueViolation
  if (db.packageSets.get? packageSet).isNone then throw .foreignKeyViolation
  set { db with packageSetRules := db.packageSetRules.insertNew newId ⟨packageSet, trim glob⟩ }
  return newId

/-- `remove_set_rule`: by its id alone. -/
def removeSetRule (rule : Uuid) : Effect Catalog SqlError Unit :=
  modify fun db => { db with packageSetRules := db.packageSetRules.delete fun id _ => id = rule }

/-! ## Pages -/

/-- `error_card`. -/
def errorCard (title message : String) : Answer := .page title message

/-- `rename_failed`. -/
def renameFailed (message : String) : Answer := errorCard "Rename failed" message

/-- What a rename answers: the renamed page, an error card, or a 400. -/
def renameAnswer (target : String) : Except RenameError Unit → Except StatusCode Answer
  | .ok () => .ok (.redirect target)
  | .error e =>
    match e with
    | .taken | .retired => .ok (renameFailed (e.text.getD ""))
    | _ => .error .badRequest

namespace Ui

variable (ui : Ui) (act : Acting)

/-! ## Users -/

/-- `CreateUserForm`. -/
structure CreateUserForm where
  email : String
  password : String
  superadmin : Option String

/-- `create_user`. -/
def createUser (f : CreateUserForm) : Handler := do
  gate fun _ => act.user.requireSuperadmin
  let _ ← e500 (onAccounts
    (Sconce.createUser ui.credentials act.fresh f.email f.password f.superadmin.isSome))
  return .redirect "/users"

/-- `GrantTenantForm`. -/
structure GrantTenantForm where
  email : String
  tenant : String
  role : Option String

/-- `grant_tenant`. -/
def grantTenant (f : GrantTenantForm) : Handler := do
  gate fun _ => act.user.requireSuperadmin
  let role : Role := if f.role = some "admin" then .admin else .member
  let _ ← addUserToTenant f.email f.tenant role
  return .redirect "/users"

/-- `RemoveMemberForm`. -/
structure RemoveMemberForm where
  email : String
  tenant : String

/-- `remove_member`. -/
def removeMember (f : RemoveMemberForm) : Handler := do
  gate fun _ => act.user.requireSuperadmin
  let _ ← removeFromTenant f.email f.tenant
  return .redirect "/users"

/-! ## Creating organizations and repositories -/

/-- `create_org`. -/
def createOrg (slug : String) (name : Option String) : Handler := do
  gate fun _ => act.user.requireSuperadmin
  if (← get).catalog.slugRetired .org (trim slug) then
    return errorCard "Couldn't create organization"
      "That name was previously used and is permanently retired."
  let _ ← e500 (onCatalog
    (Sconce.createOrg act.fresh.id slug (name.filter fun n => !n.isEmpty)))
  return .redirect "/"

/-- `create_repo`. -/
def createRepo (org repo : String) : Handler := do
  let summary ← gate (·.orgForNewRepo act.user org)
  if (← get).catalog.slugRetired (.repo summary.id) (trim repo) then
    return errorCard "Couldn't create repository"
      "That name was previously used in this organization and is retired."
  let _ ← ExceptT.adapt (fun _ => StatusCode.badRequest)
    (onCatalog (Sconce.createRepo act.fresh.id org repo))
  return .redirect ("/r/" ++ org ++ "/" ++ repo)

/-! ## Settings -/

/-- `OrgSettingsForm`. -/
structure OrgSettingsForm where
  allowRawTokens : Option String
  maxTokenTtlDays : Option String

/-- `save_org_settings`. -/
def saveOrgSettings (org : String) (f : OrgSettingsForm) : Handler := do
  let summary ← gate (·.lookupOrgAdmin act.user org)
  let maxTokenTtlDays ← ofExcept (ttlDays f.maxTokenTtlDays)
  e500 (onCatalog (setOrgSettings summary.id ⟨f.allowRawTokens.isSome, maxTokenTtlDays⟩))
  return .redirect ("/o/" ++ org ++ "/settings")

/-- `rename_org_action`. -/
def renameOrgAction (org slug : String) : Handler := do
  let summary ← gate (·.lookupOrgAdmin act.user org)
  let renamed ← outcome (onCatalog (renameOrg act.fresh.id summary.id (trim slug)))
  ofExcept (renameAnswer ("/o/" ++ trim slug ++ "/settings") renamed)

/-- `OidcForm`. -/
structure OidcForm where
  issuer : String
  clientId : String
  clientSecret : Option String
  redirectUrl : String
  scopes : String
  allowedDomains : Option String
  adminDomains : Option String

/-- `save_oidc`: a blank secret keeps the stored one. -/
def saveOidc (org : String) (f : OidcForm) : Handler := do
  let summary ← gate (·.lookupOrgAdmin act.user org)
  let stored := ((← get).accounts.oidcConnectionAt (some summary.id)).bind (·.2.clientSecret)
  let clientSecret := ((trimmed f.clientSecret).map (·.toUTF8.toList)).or stored
  ExceptT.adapt entStatus (setOidcConnection act.fresh.id (some org) {
    orgId := some summary.id
    issuerUrl := trim f.issuer
    clientId := trim f.clientId
    clientSecret
    redirectUrl := trim f.redirectUrl
    scopes := trim f.scopes
    allowedDomains := splitDomains f.allowedDomains
    adminDomains := splitDomains f.adminDomains })
  return .redirect ("/o/" ++ org ++ "/settings")

/-- `gen_scim_token`. -/
def genScimToken (org : String) : Handler := do
  let _ ← gate (·.lookupOrgAdmin act.user org)
  match ← ExceptT.adapt entStatus (createScimToken ui.credentials act.fresh org) with
  | none => throw .notFound
  | some token => return .page "SCIM token" token

/-! ## Package sets -/

/-- `create_set`. -/
def createSet (org name : String) : Handler := do
  let summary ← gate (·.lookupOrgAdmin act.user org)
  match ← outcome (onCatalog (createPackageSet act.fresh.id summary.id name)) with
  | .ok _ => return .redirect ("/o/" ++ org ++ "/sets")
  | .error _ => return errorCard "Couldn't create set" "A set with that name already exists."

/-- `delete_set`. -/
def deleteSet (org id : String) : Handler := do
  let summary ← gate (·.lookupOrgAdmin act.user org)
  let (packageSet, _) ← gate (·.lookupSet ui summary.id id)
  let _ ← e500 (onCatalog (deletePackageSet summary.id packageSet))
  return .redirect ("/o/" ++ org ++ "/sets")

/-- `add_set_member`. -/
def addSetMember (org id package : String) : Handler := do
  let summary ← gate (·.lookupOrgAdmin act.user org)
  let (packageSet, _) ← gate (·.lookupSet ui summary.id id)
  match (← get).catalog.findPackageInOrg summary.id (trim package) with
  | some pid =>
    e500 (onCatalog (Sconce.addSetMember packageSet pid))
    return .redirect ("/o/" ++ org ++ "/sets/" ++ id)
  | none =>
    return errorCard "Package not found" "No package with that name in this organization."

/-- `remove_set_member`. -/
def removeSetMember (org id member : String) : Handler := do
  let summary ← gate (·.lookupOrgAdmin act.user org)
  let (packageSet, _) ← gate (·.lookupSet ui summary.id id)
  let pid ← ofExcept (orBadRequest (ui.parseUuid member))
  e500 (onCatalog (Sconce.removeSetMember packageSet pid))
  return .redirect ("/o/" ++ org ++ "/sets/" ++ id)

/-- `add_set_rule`. -/
def addSetRule (org id glob : String) : Handler := do
  let summary ← gate (·.lookupOrgAdmin act.user org)
  let (packageSet, _) ← gate (·.lookupSet ui summary.id id)
  let _ ← e500 (onCatalog (Sconce.addSetRule act.fresh.id packageSet (trim glob)))
  return .redirect ("/o/" ++ org ++ "/sets/" ++ id)

/-- `remove_set_rule`: the set of the path is looked up, and the rule is not looked for in it. -/
def removeSetRule (org id rule : String) : Handler := do
  let summary ← gate (·.lookupOrgAdmin act.user org)
  let _ ← gate (·.lookupSet ui summary.id id)
  let rid ← ofExcept (orBadRequest (ui.parseUuid rule))
  e500 (onCatalog (Sconce.removeSetRule rid))
  return .redirect ("/o/" ++ org ++ "/sets/" ++ id)

end Ui

end Sconce
