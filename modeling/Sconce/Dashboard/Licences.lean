/-
# A repository's licences

The licence keys and the editions of a repository: the catalog's functions behind these pages
that are not yet there, and the handlers of their forms.
-/
import Sconce.Dashboard.Repositories

namespace Sconce

open Effect

/-! ## The catalog's functions -/

/-- `set_license_policy`: whether a key matched. -/
def setLicensePolicy (repo license : Uuid) (policy : PolicyOverride) :
    Effect Catalog SqlError Bool := do
  let db ← get
  set { db with licenseKeys := db.licenseKeys.update fun id l =>
    if id = license ∧ l.repoId = repo then { l with policy } else l }
  return (db.keyIn repo license).isSome

/-- `entitle_set`: any key and any set. -/
def entitleSet (license packageSet : Uuid) : Effect Catalog SqlError Unit := do
  let db ← get
  if (db.licenseSetEntitlements.get? (license, packageSet)).isSome then return
  if (db.licenseKeys.get? license).isNone ∨ (db.packageSets.get? packageSet).isNone then
    throw .foreignKeyViolation
  set { db with licenseSetEntitlements :=
    db.licenseSetEntitlements.insertNew (license, packageSet) .unbounded }

/-- `remove_set_entitlement`: of any key. -/
def removeSetEntitlement (license packageSet : Uuid) : Effect Catalog SqlError Unit :=
  modify fun db => { db with
    licenseSetEntitlements := db.licenseSetEntitlements.delete fun key _ =>
      key = (license, packageSet) }

/-- The key `issue_license` inserts. -/
def plainKey (repo : Uuid) (buyer : Option String) (minted : Minted) : LicenseKey where
  repoId := repo
  keyHash := minted.hash
  keyCiphertext := minted.ciphertext
  buyerRef := buyer
  status := .active
  editionId := none
  idempotencyKey := none
  bound := .unbounded
  policy := ⟨none, none⟩

/-- `issue_license`: the plaintext; none, and no change, if a package is not in the repository. -/
def issueLicense (repo : Uuid) (buyer : Option String) (packages : List String) (minted : Minted) :
    Effect Catalog SqlError (Option String) := do
  let db ← get
  match packages.mapM fun name => (db.packageIn repo name).map (·.1) with
  | none => return none
  | some ids =>
    if (db.repositories.get? repo).isNone then throw .foreignKeyViolation
    let inserted ← ofExcept (db.insertLicenseKey minted.id (plainKey repo buyer minted))
    set { inserted with
      entitlements := ids.foldl (fun edges id => edges.insertNew (minted.id, id) .unbounded)
        inserted.entitlements }
    return some minted.key

/-- `issue_from_edition`, `issue_account_key_from_edition`. -/
def issueFromEdition (ses : Session) (secret : Option SecretKey) (now : Timestamp) (c : IssueCall) :
    Effect Catalog SqlError (Option IssuedLicense) := do
  let (issued, after) ← ofExcept ((← get).issueFromEditionInner ses secret now c)
  set after
  return issued

/-- What `singleton_set` found or made. -/
inductive SingletonSet where
  | set (id : Uuid)
  | unknownPackage
  | nameCollision
  deriving DecidableEq

/-- The set holds nothing but the package, and has no rules. -/
def Catalog.isSingleton (db : Catalog) (packageSet package : Uuid) : Bool :=
  (!db.packageSetRules.rows.any fun r => r.2.setId = packageSet) &&
    !db.packageSetMembers.rows.any fun r => r.1.1 = packageSet ∧ r.1.2 ≠ package

/-- `singleton_set`. -/
def singletonSet (newId org : Uuid) (package : String) : Effect Catalog SqlError SingletonSet := do
  let db ← get
  match db.findPackageInOrg org package with
  | none => return .unknownPackage
  | some pid =>
    match db.packageSets.rows.find? fun r => r.2.orgId = org ∧ r.2.name = trim package with
    | some (id, _) =>
      if db.isSingleton id pid then
        addSetMember id pid
        return .set id
      else return .nameCollision
    | none =>
      let id ← createPackageSet newId org (trim package)
      addSetMember id pid
      return .set id

/-! ## Form fields -/

/-- `form_int`: there, a number, and not below the least one. -/
def formInt (field : Option String) (least : ℤ) : Except StatusCode {n : ℤ // least ≤ n} := do
  let raw ← orBadRequest (trimmed field)
  let n ← orBadRequest (parseInt 32 raw)
  if h : least ≤ n then .ok ⟨n, h⟩ else .error .badRequest

namespace Ui

variable (ui : Ui) (act : Acting)

/-! ## Keys -/

/-- `create_license`. -/
def createLicense (org repo : String) (buyer : Option String) (packages : String) : Handler := do
  let summary ← gate (·.lookupAdmin act.user org repo)
  let packages := (splitOn [',', ' ', '\n', '\t'] packages).filter fun p => !p.isEmpty
  match ← e500 (onCatalog (issueLicense summary.id (buyer.filter fun b => !b.isEmpty) packages
      act.minted)) with
  | none => throw .badRequest
  | some key => return .page "License created" key

/-- `issue_license_edition`. -/
def issueLicenseEdition (org repo editionId : String) (buyer : Option String) : Handler := do
  let summary ← gate (·.lookupAdmin act.user org repo)
  let edition ← ofExcept (orBadRequest (ui.parseUuid editionId))
  let db ← get
  -- the listing joins the edition's set
  if ((db.catalog.editionIn summary.id edition).bind fun e =>
      db.catalog.packageSets.get? e.setId).isNone then throw .badRequest
  match ← e500 (onCatalog (issueFromEdition ui.credentials.session ui.secretKey act.fresh.now
      ⟨summary.id, edition, trimmed buyer, none, false, act.minted⟩)) with
  | none => throw .badRequest
  | some license =>
    match license.key with
    | none => throw .internalServerError
    | some key => return .page "License created" key

/-- `LicenseBoundForm`. -/
structure LicenseBoundForm where
  id : String
  untilDate : Option String
  major : Option String

/-- `set_license_bound_action`. -/
def setLicenseBoundAction (org repo : String) (f : LicenseBoundForm) : Handler := do
  let summary ← gate (·.lookupAdmin act.user org repo)
  let license ← ofExcept (orBadRequest (ui.parseUuid f.id))
  let major ← ofExcept (parseField (parseInt 32) (trimmed f.major))
  let date := (trimmed f.untilDate).map ui.castTimestamp
  -- the cast is part of the update: it fails where there is a row to update
  if date = some none ∧ ((← get).catalog.keyIn summary.id license).isSome then
    throw .internalServerError
  onCatalog (modify fun db => (db.setLicenseBound summary.id license date.join major).2)
  return repoPage org repo

/-- `LicensePolicyForm`. -/
structure LicensePolicyForm where
  id : String
  mode : String
  cooldownDays : Option String

/-- `set_license_policy`. -/
def setLicensePolicy (org repo : String) (f : LicensePolicyForm) : Handler := do
  let summary ← gate (·.lookupAdmin act.user org repo)
  let license ← ofExcept (orBadRequest (ui.parseUuid f.id))
  let policy ← ofExcept (policyOverride f.mode f.cooldownDays)
  let _ ← e500 (onCatalog (Sconce.setLicensePolicy summary.id license policy))
  return repoPage org repo

/-- `entitle_license_set`: the set is looked for in the organization, the key is not looked for
in the repository. -/
def entitleLicenseSet (org repo id setId : String) : Handler := do
  let summary ← gate (·.lookupAdmin act.user org repo)
  let license ← ofExcept (orBadRequest (ui.parseUuid id))
  let packageSet ← ofExcept (orBadRequest (ui.parseUuid setId))
  requireOwnSet summary.orgId packageSet
  e500 (onCatalog (entitleSet license packageSet))
  return repoPage org repo

/-- `remove_license_set`: neither is looked for. -/
def removeLicenseSet (org repo id setId : String) : Handler := do
  let _ ← gate (·.lookupAdmin act.user org repo)
  let license ← ofExcept (orBadRequest (ui.parseUuid id))
  let packageSet ← ofExcept (orBadRequest (ui.parseUuid setId))
  e500 (onCatalog (removeSetEntitlement license packageSet))
  return repoPage org repo

/-- `merge_license_action`. -/
def mergeLicenseAction (org repo id into : String) : Handler := do
  let summary ← gate (·.lookupAdmin act.user org repo)
  let source ← ofExcept (orBadRequest (ui.parseUuid id))
  let target ← ofExcept (orBadRequest (ui.parseUuid into))
  let merge := (← get).catalog.mergeLicenseKeys summary.id source target
  onCatalog (set merge.2)
  if merge.1 = .merged then return repoPage org repo else throw .badRequest

/-! ## Editions -/

/-- `EditionForm`. -/
structure EditionForm where
  name : String
  slug : Option String
  setId : Option String
  package : Option String
  boundKind : String
  periodMonths : Option String
  major : Option String
  snapshot : Option String
  mode : Option String
  cooldownDays : Option String

/-- The bound a form describes. -/
def EditionForm.bound (f : EditionForm) : Except StatusCode {b : EditionBound // b.Valid} :=
  match f.boundKind with
  | "time" => (formInt f.periodMonths 1).map fun n => ⟨.time n.1, n.2⟩
  | "version" => (formInt f.major 0).map fun n => ⟨.version n.1, n.2⟩
  | _ => .ok ⟨.perpetual, trivial⟩

/-- The override it stamps on the keys: an unknown mode inherits. -/
def EditionForm.policy (f : EditionForm) : Except StatusCode PolicyOverride := do
  let cooldownDays ← parseField (parseInt 32) (trimmed f.cooldownDays)
  if cooldownDays.any (· < 0) then .error .badRequest
  else .ok { updateMode := f.mode.bind parseUpdateMode, cooldownDays }

/-- The set an edition is for: that of a single package, or one of the organization's; an
answer where there is none. -/
def editionTarget (org : Uuid) (f : EditionForm) :
    Effect Database StatusCode (Except Answer Uuid) := do
  match trimmed f.package, trimmed f.setId with
  | some package, _ =>
    match ← e500 (onCatalog (singletonSet act.fresh.id org package)) with
    | .set id => return .ok id
    | .unknownPackage =>
      return .error (errorCard "Package not found"
        "No package with that name in this organization.")
    | .nameCollision =>
      return .error (errorCard "Name already in use"
        ("A package set already has that exact name and holds more than this one package. " ++
          "Select it under “Package set” instead, or rename it."))
  | none, some sid =>
    let packageSet ← ofExcept (orBadRequest (ui.parseUuid sid))
    requireOwnSet org packageSet
    return .ok packageSet
  | none, none =>
    return .error (errorCard "No target"
      "Pick a package set or enter a single package for the edition.")

/-- The card that says why an edition was not created. -/
def editionRefused : EntitlementError → Answer
  | .skuCapReached cap =>
    errorCard "SKU limit reached"
      ("This organization's plan allows at most " ++ toString cap ++
        " editions. Deactivate one or upgrade the plan.")
  | _ =>
    errorCard "Couldn't create edition"
      "An edition with that name may already exist (names are unique per repo)."

/-- `create_edition_action`. -/
def createEditionAction (org repo : String) (f : EditionForm) : Handler := do
  let summary ← gate (·.lookupAdmin act.user org repo)
  let name := trim f.name
  if name.isEmpty then throw .badRequest
  match ← ui.editionTarget act summary.orgId f with
  | .error answer => return answer
  | .ok packageSet =>
    let bound ← ofExcept f.bound
    let policy ← ofExcept f.policy
    match (← get).catalog.createEdition {
        repo := summary.id
        name
        slug := trimmed f.slug
        set := packageSet
        bound := bound.1
        snapshot := f.snapshot.isSome
        policy
        id := act.ids 0
        bound_valid := bound.2 } with
    | .ok (some _, after) =>
      onCatalog (set after)
      return repoPage org repo
    | .ok (none, _) => throw .badRequest
    | .error e => return editionRefused e

/-- `deactivate_edition`. -/
def deactivateEdition (org repo id : String) : Handler := do
  let summary ← gate (·.lookupAdmin act.user org repo)
  let edition ← ofExcept (orBadRequest (ui.parseUuid id))
  match (← get).catalog.setEditionActive summary.id edition false with
  | .ok (_, after) =>
    onCatalog (set after)
    return repoPage org repo
  | .error _ => throw .internalServerError

end Ui

end Sconce
