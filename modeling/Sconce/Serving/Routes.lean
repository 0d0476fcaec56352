/-
# The read routes

`packages.json`, a package's document, a download by digest, a download by upstream path and
the human index.  A repository is addressed by its path on the main host or by its custom
domain; a credential grants all of it, the packages of a licence, or, where there is none and
the repository allows it, its public packages.

An answer keeps the rows it is made from.
-/
import Sconce.Licensing.Editions
import Sconce.Serving.Metadata
import Sconce.Storage.Blobs
import Sconce.Versions.Writers

namespace Sconce

/-! ## Addresses -/

/-- `RepoLocation`. -/
structure RepoLocation where
  repoId : Uuid
  orgSlug : String
  repoSlug : String
  moved : Bool
  deriving DecidableEq

namespace Catalog

variable (db : Catalog)

/-- The organization of a slug, live or retired: its id, its slug, whether it moved. -/
def resolveOrgCanonical (org : String) : Option (Uuid × String × Bool) :=
  match db.organizations.rows.find? fun o => o.2.slug == org with
  | some o => some (o.1, o.2.slug, false)
  | none => do
    let h ← db.slugHistory.rows.find? fun h => h.2.scope = .org && h.2.oldSlug == org &&
      (db.organizations.get? h.2.entityId).isSome
    let o ← db.organizations.get? h.2.entityId
    return (h.2.entityId, o.slug, true)

/-- `resolve_repo_canonical`. -/
def resolveRepoCanonical (org repo : String) : Option RepoLocation := do
  let (orgId, orgSlug, orgMoved) ← db.resolveOrgCanonical org
  match db.repositories.rows.find? fun r => r.2.orgId == orgId && r.2.slug == repo with
  | some r => return ⟨r.1, orgSlug, r.2.slug, orgMoved⟩
  | none => do
    let h ← db.slugHistory.rows.find? fun h => h.2.scope = .repo orgId && h.2.oldSlug == repo &&
      (db.repositories.get? h.2.entityId).isSome
    let r ← db.repositories.get? h.2.entityId
    return ⟨h.2.entityId, orgSlug, r.slug, true⟩

/-- `repo_by_custom_domain`. -/
def repoByCustomDomain (host : String) : Option RepoLocation := do
  let host := (trimEndMatches '.' host).toLower
  let r ← db.repositories.rows.find? fun r => r.2.customDomain == some host &&
    (db.organizations.get? r.2.orgId).isSome
  let o ← db.organizations.get? r.2.orgId
  return ⟨r.1, o.slug, r.2.slug, false⟩

end Catalog

/-- Where a request addresses a repository: below its path on the main host, or at the root
of the custom domain the request's Host names. -/
inductive Mount where
  | path (org repo : String)
  | domain (authority : String)
  deriving DecidableEq

/-- `domain_part`. -/
def domainPart (authority : String) : Option String :=
  if "[".toList <+: authority.toList then none
  else
    let host := ((rsplitOnce ':' authority).map (·.1)).getD authority
    some (trimEndMatches '.' host).toLower

/-- The repository a mount addresses; what no custom domain matches is no request of this
kind. -/
def Mount.resolve (db : Catalog) : Mount → Option RepoLocation
  | .path org repo => db.resolveRepoCanonical org repo
  | .domain authority => (domainPart authority).bind db.repoByCustomDomain

/-! ## Credentials -/

/-- The `Authorization` header of a request. -/
inductive Authorization where
  | absent
  | notText
  | text (value : String)
  deriving DecidableEq

/-- What the deployment and third parties decide. -/
structure ReadEnv where
  baseUrl : String
  scheme : String
  session : Session
  /-- `token_hash`. -/
  tokenHash : String → Sha256
  /-- Basic credentials: base64, then UTF-8. -/
  decodeBasic : String → Option String
  compareNormalized : String → String → Ordering
  /-- `text.to_lowercase()`. -/
  toLowercase : String → String
  /-- The text of a JSON value that is no string. -/
  jsonText : Json → String
  versionId : VersionKey → Uuid
  /-- `presigned_get`, on an object-store backend. -/
  presign : Option (Sha256 → String)

/-- `text.split_once(':')`, the part after it. -/
def afterColon (text : String) : Option String :=
  match text.toList.dropWhile (· ≠ ':') with
  | [] => none
  | _ :: rest => some (String.ofList rest)

/-- `extract_token`. -/
def extractToken (env : ReadEnv) : Authorization → Option String
  | .absent => none
  | .notText => none
  | .text value =>
    match stripStart "Bearer " value with
    | some bearer => some (trim bearer)
    | none =>
      match stripStart "Basic " value with
      | some basic => (env.decodeBasic (trim basic)).bind afterColon
      | none => none

/-- `expires_at is null or expires_at > now()`. -/
def unexpired (now : Timestamp) (expiresAt : Option Timestamp) : Bool :=
  expiresAt.all (now < ·)

/-- `t.repo_id = r.id or t.org_id = r.org_id`. -/
def TokenScope.covers (repo : Uuid) (r : Repository) : TokenScope → Bool
  | .repo id => id == repo
  | .org id => id == r.orgId

namespace Catalog

variable (db : Catalog)

/-- `resolve_token_policy`. -/
def resolveTokenPolicy (now : Timestamp) (repo : Uuid) (hash : Sha256) : Option PolicyOverride := do
  let r ← db.repositories.get? repo
  let t ← db.tokens.rows.find? fun t => t.2.tokenHash == hash && unexpired now t.2.expiresAt &&
    t.2.scope.covers repo r
  return t.2.policy

/-- `resolve_license`. -/
def resolveLicense (now : Timestamp) (repo : Uuid) (hash : Sha256) : Option Uuid :=
  (db.licenseKeys.rows.find? fun l => l.2.repoId == repo && l.2.keyHash == hash &&
    l.2.status = .active && unexpired now l.2.expiresAt).map (·.1)

end Catalog

/-- What a credential is allowed to see in a repository. -/
inductive Access where
  | full
  | licensed (entitled : List (String × LicenseBound))
  | anonymous

/-- `Access::allows`. -/
def Access.allows (db : Catalog) (repo : Uuid) (package : String) : Access → Bool
  | .full => true
  | .licensed entitled => (entitled.lookup package).isSome
  | .anonymous => !(db.anonymousPackageNames repo (some package)).isEmpty

/-- `Access::bound_for`. -/
def Access.boundFor (package : String) : Access → LicenseBound
  | .full => ⟨none, none, none⟩
  | .anonymous => ⟨none, none, none⟩
  | .licensed entitled => (entitled.lookup package).getD ⟨none, none, none⟩

/-- A row a query insists on. -/
def fetchOne {α : Type} : Option α → Except AppError α
  | some a => .ok a
  | none => .error (.catalog .rowNotFound)

/-- `authorize`: a token before a licence key, and anonymous only without any header. -/
def authorize (env : ReadEnv) (db : Catalog) (now : Timestamp) (repo : Uuid)
    (authorization : Authorization) : Except AppError (Access × PolicyOverride) := do
  if authorization = .absent then
    let settings ← fetchOne (db.repositories.get? repo)
    if settings.anonymousAccess then
      return (.anonymous, ⟨none, none⟩)
    throw .unauthorized
  match extractToken env authorization with
  | none => throw .unauthorized
  | some credential =>
    match db.resolveTokenPolicy now repo (env.tokenHash credential) with
    | some policy => return (.full, policy)
    | none =>
      match db.resolveLicense now repo (env.tokenHash credential) with
      | some license =>
        let key ← fetchOne (db.licenseKeys.get? license)
        return (.licensed (entitledPackageBounds env.session db license), key.policy)
      | none => throw .unauthorized

/-! ## Requests and answers -/

/-- What follows the repository in the path. -/
inductive ReadRoute where
  | index (q : Option String)
  | packagesJson
  | p2 (rest : String)
  | dist (rest : String)
  | upstream (path : String)
  deriving DecidableEq

/-- A request on a read route. -/
structure ReadRequest where
  mount : Mount
  route : ReadRoute
  authorization : Authorization

/-- How a blob is delivered. -/
inductive Delivery where
  | bytes (bytes : List UInt8)
  | redirect (url : String)

/-- An entry of the index: a package and its newest version. -/
structure IndexPackage where
  name : String
  latest : Option String
  description : Option String
  hidden : Bool

/-- What a read route answers. -/
inductive ReadAnswer where
  /-- A 301 to the repository's current slugs. -/
  | moved (location : String)
  | root (manifest : RootManifest)
  /-- `render_package` of the rows under the base; without rows, `{ name: [] }`. -/
  | package (name : String) (versions : List Catalog.VersionRow) (base : String)
  | blob (id : Sha256) (delivery : Delivery)
  | index (listed : Bool) (packages : List IndexPackage)

/-- `repo_base`, and the base a custom domain is served at. -/
def Mount.base (env : ReadEnv) (loc : RepoLocation) : Mount → String
  | .path _ _ => trimEndMatches '/' env.baseUrl ++ "/" ++ loc.orgSlug ++ "/" ++ loc.repoSlug
  | .domain authority => env.scheme ++ "://" ++ authority

/-- `serve_blob`. -/
def serveBlob (env : ReadEnv) (store : ObjectStore) (id : Sha256) : Except AppError ReadAnswer :=
  match env.presign with
  | some url =>
    if (store.get? id).isSome then .ok (.blob id (.redirect (url id))) else .error .notFound
  | none =>
    match store.get? id with
    | some bytes => .ok (.blob id (.bytes bytes))
    | none => .error .notFound

section Routes

variable (env : ReadEnv) (store : ObjectStore) (db : Catalog) (now : Timestamp)

/-- `serve_upstream_path`. -/
def serveUpstreamPath (repo : Uuid) (access : Access) (path : String) :
    Except AppError ReadAnswer :=
  match db.distByUpstreamPath repo env.versionId path with
  | none => .error .notFound
  | some (name, sha) =>
    if access.allows db repo name then serveBlob env store sha else .error .notFound

/-- `serve_dist`: what is no `vendor/name/<sha256>.zip` may be an upstream's path. -/
def serveDist (repo : Uuid) (access : Access) (rest : String) : Except AppError ReadAnswer :=
  match parseDistPath rest with
  | none => serveUpstreamPath env store db repo access ("dist/" ++ rest)
  | some (package, sha) =>
    if access.allows db repo package && db.repoServesDist repo package sha then
      serveBlob env store sha
    else .error .notFound

/-- `serve_root`. -/
def serveRoot (repo : Uuid) (access : Access) (base : String) : ReadAnswer :=
  .root (renderRoot
    (match access with
      | .full => db.allPackageNames repo
      | .licensed entitled => (entitled.map (·.1)).insertionSort (· ≤ ·)
      | .anonymous => db.anonymousPackageNames repo none) base)

/-- The package a document's stem names, and whether it is the `~dev` document. -/
def splitDev (stem : String) : String × Bool :=
  match stripSuffix "~dev" stem with
  | some p => (p, true)
  | none => (stem, false)

/-- The policy of the repository, tightened by the credential's and by the grant's. -/
def Catalog.servedPolicy (db : Catalog) (repo : Uuid) (r : Repository) (policy : PolicyOverride)
    (package : String) : UpdateMode × ℤ :=
  let (mode, cooldownDays) := policy.effective r.updateMode r.cooldownDays
  (db.grantPolicy repo package).effective mode cooldownDays

/-- `serve_p2`. -/
def serveP2 (repo : Uuid) (access : Access) (policy : PolicyOverride) (base rest : String) :
    Except AppError ReadAnswer := do
  match stripSuffix ".json" rest with
  | none => throw .notFound
  | some stem =>
    let (package, isDev) := splitDev stem
    if isDev || !access.allows db repo package then
      return .package package [] base
    let bound := access.boundFor package
    let r ← fetchOne (db.repositories.get? repo)
    let (mode, cooldownDays) := db.servedPolicy repo r policy package
    let versions ← (db.visibleVersions repo env.session env.compareNormalized now package mode
      cooldownDays bound.untilUnix bound.major).mapError .catalog
    return .package package versions base

/-- The versions of one name, in the order served: its newest stable one, else its last. -/
def newestOf (versions : List Catalog.VersionRow) : Option Catalog.VersionRow :=
  (versions.reverse.find? fun r => r.version.stability == "stable").or versions.getLast?

/-- `composer_json->>'description'`. -/
def descriptionText (r : Catalog.VersionRow) : Option String :=
  match r.version.composerJson.get "description" with
  | none => none
  | some .null => none
  | some (.string s) => some s
  | some j => some (env.jsonText j)

/-- `summarize`, one entry a name; a blank description is none. -/
def summarize (versions : List Catalog.VersionRow) : List IndexPackage :=
  (versions.map (·.package.name)).dedup.map fun name =>
    let newest := newestOf (versions.filter fun r => r.package.name == name)
    ⟨name, newest.map (·.version.version),
      (newest.bind (descriptionText env)).filter fun d => trim d ≠ "", false⟩

/-- `search_text` contains every word of the search. -/
def matchesTerms (q : String) (p : IndexPackage) : Bool :=
  let text := (env.toLowercase (p.name ++ " " ++ p.description.getD "")).toList
  ((env.toLowercase (trim q)).toList.splitOnP isWhitespace).all fun term =>
    text.tails.any (term.isPrefixOf ·)

/-- The names an access may list. -/
def Access.names (repo : Uuid) : Access → List String
  | .full => db.allPackageNames repo
  | .licensed entitled => entitled.map (·.1)
  | .anonymous => db.anonymousPackageNames repo none

/-- `serve_index`: without a credential and without anonymous access it lists nothing. -/
def serveIndex (repo : Uuid) (authorization : Authorization) (q : Option String) :
    Except AppError ReadAnswer := do
  let r ← fetchOne (db.repositories.get? repo)
  if authorization ≠ .absent || r.anonymousAccess then
    let (access, policy) ← authorize env db now repo authorization
    let (mode, cooldown) := policy.effective r.updateMode r.cooldownDays
    let versions ← (db.servedVersionSummaries repo env.session env.compareNormalized now mode
      cooldown).mapError .catalog
    let allowed := access.names db repo
    let packages := summarize env (versions.filter fun v => v.package.name ∈ allowed)
    return .index true (packages.map fun p => { p with hidden := !matchesTerms env (q.getD "") p })
  return .index false []

/-- The path of a route below its repository. -/
def ReadRoute.suffix : ReadRoute → String
  | .index _ => ""
  | .packagesJson => "packages.json"
  | .p2 rest => "p2/" ++ rest
  | .dist rest => "dist/" ++ rest
  | .upstream path => path

/-- The route served for a repository, below a base. -/
def serveRoute (repo : Uuid) (base : String) (authorization : Authorization) :
    ReadRoute → Except AppError ReadAnswer
  | .index q => serveIndex env db now repo authorization q
  | .packagesJson => do
    let (access, _) ← authorize env db now repo authorization
    return serveRoot db repo access base
  | .p2 rest => do
    let (access, policy) ← authorize env db now repo authorization
    serveP2 env db now repo access policy base rest
  | .dist rest => do
    let (access, _) ← authorize env db now repo authorization
    serveDist env store db repo access rest
  | .upstream path => do
    let (access, _) ← authorize env db now repo authorization
    serveUpstreamPath env store db repo access path

/-- A request: where its repository moved, a redirect, else the route. -/
def serve (request : ReadRequest) : Except AppError ReadAnswer :=
  match request.mount.resolve db with
  | none => .error .notFound
  | some loc =>
    if loc.moved then
      .ok (.moved ("/" ++ loc.orgSlug ++ "/" ++ loc.repoSlug ++ "/" ++ request.route.suffix))
    else
      serveRoute env store db now loc.repoId (request.mount.base env loc) request.authorization
        request.route

end Routes

end Sconce
