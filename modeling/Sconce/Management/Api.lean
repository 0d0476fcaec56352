/-
# The management API

The JSON surface under `/api/v1/repos/{org}/{repo}` through which a seller's shop issues,
renews, accumulates, merges and revokes licence keys.  A request carries a service token of one
repository, and names that repository in its path.

Every request writes through at most one of the catalog's writers of keys and edges, and for
the repository it is authenticated for (`exec_api`).
-/
import Sconce.Serving.Routes
import Sconce.Licensing.Operations
import Sconce.Lib.Effect

namespace Sconce

open Effect

/-! ## What the handlers read -/

/-- `EditionBound::label`. -/
def EditionBound.label : EditionBound → String
  | .perpetual => "perpetual"
  | .time periodMonths => toString periodMonths ++ " months"
  | .version major => "≤ v" ++ toString major

/-- An edition as it is listed. -/
structure EditionSummary where
  id : Uuid
  name : String
  slug : Option String
  setName : String
  bound : EditionBound
  snapshot : Bool
  active : Bool

/-- `LicenseDetail`. -/
structure LicenseDetail where
  id : Uuid
  buyer : Option String
  status : LicenseStatus
  edition : Option String
  packages : List String
  bound : LicenseBound
  key : Option String

namespace Catalog

variable (db : Catalog)

/-- `resolve_repo`. -/
def resolveRepo (orgSlug repoSlug : String) : Option Uuid :=
  (db.repositories.rows.find? fun r => r.2.slug = repoSlug ∧
    (db.organizations.get? r.2.orgId).any fun o => o.slug = orgSlug).map (·.1)

/-- `resolve_service_token`: the repository it authorizes. -/
def resolveServiceToken (now : Timestamp) (hash : Sha256) : Option Uuid :=
  (db.serviceTokens.rows.find? fun t => t.2.tokenHash = hash ∧ unexpired now t.2.expiresAt).map
    (·.2.repoId)

/-- `find_edition`: by its slug, else by its name. -/
def findEdition (repo : Uuid) (nameOrSlug : String) : Option Uuid :=
  let bySlug := db.editions.rows.find? fun r => r.2.repoId = repo ∧ r.2.slug = some (trim nameOrSlug)
  let byName := db.editions.rows.find? fun r => r.2.repoId = repo ∧ r.2.name = trim nameOrSlug
  (bySlug.or byName).map (·.1)

/-- `list_editions`: the active ones first, then by name. -/
def listEditions (repo : Uuid) : List EditionSummary :=
  let listed := db.editions.rows.filterMap fun r =>
    if r.2.repoId = repo then
      (db.packageSets.get? r.2.setId).map fun ps =>
        ⟨r.1, r.2.name, r.2.slug, ps.name, r.2.bound, r.2.snapshotAtIssue, r.2.active⟩
    else none
  (listed.mergeSort fun a b => a.name ≤ b.name).mergeSort fun a b => b.active ≤ a.active

/-- `entitled_package_names`. -/
def entitledPackageNames (license : Uuid) : List String :=
  let direct := db.entitlements.rows.filter fun r => r.1.1 = license
  let sets := db.licenseSetEntitlements.rows.filter fun r => r.1.1 = license
  (direct.flatMap (fun r => db.names (.package r.1.2)) ++
    sets.flatMap fun r => db.names (.set r.1.2)).dedup.insertionSort (· ≤ ·)

/-- `license_detail`. -/
def licenseDetail (ses : Session) (secret : Option SecretKey) (repo license : Uuid) :
    Option LicenseDetail :=
  (db.keyIn repo license).map fun l => {
    id := license
    buyer := l.buyerRef
    status := l.status
    edition := (l.editionId.bind db.editions.get?).map (·.name)
    packages := db.entitledPackageNames license
    bound := ses.licenseBound l.bound
    key := db.licenseKeyPlaintext secret repo license }

/-- `edition_edge_bound`: no edge reads as an unbounded one. -/
def editionEdgeBound (ses : Session) (license edition : Uuid) : LicenseBound :=
  match (db.editions.get? edition).bind fun e => db.licenseSetEntitlements.get? (license, e.setId) with
  | some bound => ses.licenseBound bound
  | none => ⟨none, none, none⟩

end Catalog

/-! ## Errors and answers -/

/-- A management-API failure. -/
inductive ApiError where
  | unauthorized
  | forbidden
  | notFound (what : String)
  | badRequest (message : String)
  | conflict (message : String)
  | db (e : SqlError)

/-- Its status and the text of its body's `error`. -/
def ApiError.response : ApiError → ℕ × String
  | .unauthorized => (401, "missing or invalid service token")
  | .forbidden => (403, "this service token is not valid for that repository")
  | .notFound what => (404, what ++ " not found")
  | .badRequest message => (400, message)
  | .conflict message => (409, message)
  | .db _ => (500, "internal error")

/-- The JSON body for a licence. -/
structure LicenseJson where
  detail : LicenseDetail
  repositoryUrl : String
  host : String
  key : Option String
  /-- Whether an issue made the key. -/
  created : Option Bool
  /-- The edition a call was about, with the date and the major of its edge. -/
  editionBound : Option (String × Option String × Option ℤ)

/-- What the API answers. -/
inductive ApiAnswer where
  | license (status : ℕ) (body : LicenseJson)
  | editions (list : List EditionSummary)
  | noContent

/-! ## Requests -/

/-- An endpoint, with the segments of its path after the repository and its body. -/
inductive ApiCall where
  | listEditions
  | issueLicense (edition : String) (buyer : Option String) (account : Bool)
  | inspectLicense (id : String)
  | renewLicense (id : String)
  | addLicenseEdition (id edition : String)
  | renewLicenseEdition (id edition : String)
  | removeLicenseEdition (id edition : String)
  | mergeLicense (id into : String)
  | revokeLicense (id : String)

/-- A request, with the database's clock and the key its handler mints. -/
structure ApiRequest where
  authorization : Authorization
  org : String
  repo : String
  /-- The `Idempotency-Key` header. -/
  idempotencyHeader : Option String
  call : ApiCall
  now : Timestamp
  minted : Minted

/-- The server. -/
structure ApiEnv where
  read : ReadEnv
  secretKey : Option SecretKey
  parseUuid : String → Option Uuid

/-- A handler of the API. -/
abbrev ApiHandler := Effect Catalog ApiError ApiAnswer

/-- `idempotency_key`. -/
def ApiRequest.idempotencyKey (r : ApiRequest) : Option String :=
  (r.idempotencyHeader.map trim).filter fun key => !key.isEmpty

/-- A value, or the error where there is none. -/
def orFail {α : Type} (e : ApiError) : Option α → Effect Catalog ApiError α
  | some a => pure a
  | none => throw e

/-- A writer of the catalog: it commits, or fails and is rolled back. -/
def writer {α : Type} (op : Catalog → Except SqlError (α × Catalog)) : Effect Catalog ApiError α := do
  match op (← get) with
  | .ok (a, db) =>
    set db
    return a
  | .error e => throw (.db e)

/-- What follows the scheme of a URL: `url.split_once("://")`, its second part. -/
def afterScheme (url : String) : Option String :=
  (url.toList.tails.find? fun rest => "://".toList <+: rest).map fun rest =>
    String.ofList (rest.drop 3)

example : afterScheme "https://sconce.dev/acme" = some "sconce.dev/acme" := by decide

/-- `license_json`. -/
def ApiEnv.licenseJson (env : ApiEnv) (r : ApiRequest) (d : LicenseDetail) : LicenseJson :=
  let url := trimEndMatches '/' env.read.baseUrl ++ "/" ++ r.org ++ "/" ++ r.repo
  { detail := d
    repositoryUrl := url
    host := String.ofList (((afterScheme url).getD url).toList.takeWhile (· ≠ '/'))
    key := d.key
    created := none
    editionBound := none }

section Handlers

variable (env : ApiEnv) (r : ApiRequest) (repo : Uuid)

/-- `authed_repo`: the token's repository is the one the path names. -/
def authedRepo (db : Catalog) : Except ApiError Uuid :=
  match extractToken env.read r.authorization with
  | none => .error .unauthorized
  | some token =>
    match db.resolveServiceToken r.now (env.read.tokenHash token) with
    | none => .error .unauthorized
    | some tokenRepo =>
      match db.resolveRepo r.org r.repo with
      | none => .error (.notFound "repository")
      | some pathRepo => if tokenRepo = pathRepo then .ok pathRepo else .error .forbidden

/-- `parse_license_id`. -/
def parseLicenseId (id : String) : Effect Catalog ApiError Uuid :=
  orFail (.badRequest "invalid license id") (env.parseUuid id)

/-- The error of an edition that is not found. -/
def noEdition (edition : String) : ApiError :=
  .badRequest ("no edition '" ++ edition ++ "' in " ++ r.org ++ "/" ++ r.repo)

/-- The detail an answer shows. -/
def shownDetail (license : Uuid) : Effect Catalog ApiError LicenseDetail := do
  orFail (.notFound "license") ((← get).licenseDetail env.read.session env.secretKey repo license)

/-- `issue_license`. -/
def issueLicenseKey (edition : String) (buyer : Option String) (account : Bool) : ApiHandler := do
  let editionId ← orFail (noEdition r edition) ((← get).findEdition repo (trim edition))
  let buyer := (buyer.map trim).filter fun b => !b.isEmpty
  let issued ← writer (·.issueFromEditionInner env.read.session env.secretKey r.now
    ⟨repo, editionId, buyer, r.idempotencyKey, account, r.minted⟩)
  let issued ← orFail (.badRequest ("edition '" ++ edition ++ "' is inactive")) issued
  let detail ← shownDetail env repo issued.id
  let edge := (← get).editionEdgeBound env.read.session issued.id editionId
  return .license (if issued.created then 201 else 200) { env.licenseJson r detail with
    key := issued.key.or detail.key
    created := some issued.created
    editionBound := if account then some (trim edition, edge.untilDate, edge.major) else none }

/-- `inspect_license`. -/
def inspectLicense (id : String) : ApiHandler := do
  let license ← parseLicenseId env id
  let detail ← shownDetail env repo license
  return .license 200 (env.licenseJson r detail)

/-- `renew_license`. -/
def renewLicenseKey (id : String) : ApiHandler := do
  let license ← parseLicenseId env id
  let renewed ← writer (·.renew env.read.session r.now ⟨repo, license, none, r.idempotencyKey⟩)
  let _ ← orFail (.badRequest ("license not found, revoked, or not issued from a time-bounded " ++
    "edition (renew a version/perpetual key by issuing a new edition)")) renewed
  let detail ← shownDetail env repo license
  return .license 200 (env.licenseJson r detail)

/-- `renew_license_edition`. -/
def renewLicenseEdge (id edition : String) : ApiHandler := do
  let license ← parseLicenseId env id
  let editionId ← orFail (noEdition r edition) ((← get).findEdition repo (trim edition))
  let renewed ← writer
    (·.renew env.read.session r.now ⟨repo, license, some editionId, r.idempotencyKey⟩)
  let newUntil ← orFail (.badRequest ("license not found or revoked, edition not time-bounded, " ++
    "or no bounded entitlement for it on this key (a standalone key renews via /renew)")) renewed
  let detail ← shownDetail env repo license
  return .license 200 { env.licenseJson r detail with
    editionBound := some (edition, some newUntil, none) }

/-- `add_license_edition`. -/
def addLicenseEdition (id edition : String) : ApiHandler := do
  let license ← parseLicenseId env id
  let editionId ← orFail (noEdition r edition) ((← get).findEdition repo (trim edition))
  match ← writer (·.addEditionToLicense env.read.session r.now repo license editionId) with
  | .added =>
    let detail ← shownDetail env repo license
    let edge := (← get).editionEdgeBound env.read.session license editionId
    return .license 200 { env.licenseJson r detail with
      editionBound := some (trim edition, edge.untilDate, edge.major) }
  | .standalone => throw (.conflict ("edition '" ++ edition ++
      "' can't be merged onto this key (issue a standalone key instead)"))
  | .noKey => throw (.notFound "license")
  | .noEdition => throw (.badRequest ("edition '" ++ edition ++ "' is inactive"))

/-- `remove_license_edition`: an unknown edition entitles nothing. -/
def removeLicenseEdition (id edition : String) : ApiHandler := do
  let license ← parseLicenseId env id
  match (← get).findEdition repo (trim edition) with
  | none => return .noContent
  | some editionId =>
    if ← writer fun db => .ok (db.removeEditionFromLicense repo license editionId) then
      return .noContent
    else throw (.notFound "license")

/-- `merge_license`. -/
def mergeLicense (id into : String) : ApiHandler := do
  let source ← parseLicenseId env id
  let target ← orFail (.badRequest "invalid target license id") (env.parseUuid into)
  match ← writer fun db => .ok (db.mergeLicenseKeys repo source target) with
  | .merged =>
    let detail ← shownDetail env repo target
    return .license 200 (env.licenseJson r detail)
  | .noSource => throw (.notFound "source license")
  | .noTarget => throw (.notFound "target license")
  | .targetBounded => throw (.conflict ("target key carries its own update bound — merge targets " ++
      "must be unbounded (account) keys"))
  | .sameKey => throw (.badRequest "source and target are the same key")

/-- `revoke_license`. -/
def revokeLicenseKey (id : String) : ApiHandler := do
  let license ← parseLicenseId env id
  if ← writer fun db => .ok (db.revokeLicense repo license) then return .noContent
  else throw (.notFound "license")

/-- `list_editions`. -/
def listEditions : ApiHandler := do
  return .editions ((← get).listEditions repo)

end Handlers

/-- The routes, for the repository a request is authenticated for. -/
def apiRoute (env : ApiEnv) (r : ApiRequest) (repo : Uuid) : ApiHandler :=
  match r.call with
  | .listEditions => listEditions repo
  | .issueLicense edition buyer account => issueLicenseKey env r repo edition buyer account
  | .inspectLicense id => inspectLicense env r repo id
  | .renewLicense id => renewLicenseKey env r repo id
  | .addLicenseEdition id edition => addLicenseEdition env r repo id edition
  | .renewLicenseEdition id edition => renewLicenseEdge env r repo id edition
  | .removeLicenseEdition id edition => removeLicenseEdition env repo id edition
  | .mergeLicense id into => mergeLicense env r repo id into
  | .revokeLicense id => revokeLicenseKey env repo id

/-- A request: the service token is checked before the handler runs. -/
def api (env : ApiEnv) (r : ApiRequest) : ApiHandler := do
  let repo ← ofExcept (authedRepo env r (← get))
  apiRoute env r repo

/-- The server takes one request after another. -/
def ApiEnv.step (env : ApiEnv) (db : Catalog) (r : ApiRequest) :
    Except ApiError ApiAnswer × Catalog :=
  exec (api env r) db

/-! ## Two shops on one server -/

namespace Mall

def digest (n : UInt8) : Sha256 := ⟨Vector.replicate 32 n⟩

/-- Two organizations with one repository each, an edition for sale in each, and a service token
for each. -/
def opened : Catalog :=
  { Catalog.empty with
    organizations := (Table.single 1 ⟨"acme", none⟩).insertNew 2 ⟨"globex", none⟩
    repositories := (Table.single 1 ⟨1, "main", .auto, 0, true, false, none, none, none⟩).insertNew 2
      ⟨2, "main", .auto, 0, true, false, none, none, none⟩
    packageSets := (Table.single 1 ⟨1, "core"⟩).insertNew 2 ⟨2, "core"⟩
    editions := (Table.single 1 (Shop.edition "annual" 1 (.time 12) Shop.annual_valid)).insertNew 2
      { Shop.edition "annual" 2 (.time 12) Shop.annual_valid with repoId := 2 }
    serviceTokens := (Table.single 1 ⟨1, digest 1, none, none⟩).insertNew 2 ⟨2, digest 2, none, none⟩ }

def env : ApiEnv where
  read :=
    { baseUrl := "https://host"
      scheme := "https"
      session := Session.utc
      tokenHash := fun text =>
        if text = "acme" then digest 1 else if text = "globex" then digest 2 else digest 0
      decodeBasic := fun _ => none
      compareNormalized := compare
      toLowercase := String.toLower
      jsonText := fun _ => ""
      versionId := fun key => key.packageId
      presign := none }
  secretKey := none
  parseUuid := fun text => if text = "7" then some 7 else none

/-- The next key a server would mint. -/
def minted (n : ℕ) : Minted := ⟨n, "sclk", digest (UInt8.ofNat n), none⟩

/-- A sale of the annual edition, with the n-th key. -/
def sale (org : String) (n : ℕ) : ApiRequest where
  authorization := .text ("Bearer " ++ org)
  org := org
  repo := "main"
  idempotencyHeader := some "order-1"
  call := .issueLicense "annual" (some "buyer") true
  now := Shop.openingDay
  minted := minted n

end Mall

end Sconce
