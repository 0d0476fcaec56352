/-
# What a repository is supplied from

Grants from other repositories, subscriptions to package sets, upstreams and their mirror jobs,
and the dependency plan: the catalog's functions behind these pages, and the handlers of their
forms.
-/
import Sconce.Dashboard.Repositories
import Sconce.Concurrency.MirrorQueue

namespace Sconce

open Effect

/-! ## Grants -/

/-- `grant_package`: whether the source has such a package. -/
def grantPackage (target source : Uuid) (package : String) : Effect Catalog SqlError Bool := do
  let db ← get
  match db.packageIn source package with
  | none => return false
  | some (pid, _) =>
    if (db.repositoryGrants.get? (target, pid)).isNone ∧ (db.repositories.get? target).isNone then
      throw .foreignKeyViolation
    set { db with repositoryGrants := db.repositoryGrants.insertNew (target, pid) ⟨none, none⟩ }
    return true

/-- `set_grant_policy`: whether a grant matched. -/
def setGrantPolicy (repo : Uuid) (package : String) (policy : PolicyOverride) :
    Effect Catalog SqlError Bool := do
  let db ← get
  let selected (key : Uuid × Uuid) : Bool :=
    key.1 = repo ∧ (db.packages.get? key.2).any fun p => p.name = package
  set { db with
    repositoryGrants := db.repositoryGrants.update fun key old =>
      if selected key then policy else old }
  return db.repositoryGrants.rows.any fun r => selected r.1

/-- `add_grant_rule`. -/
def addGrantRule (newId target packageSet : Uuid) : Effect Catalog EntitlementError Unit := do
  let db ← get
  match db.orgOfRepo target with
  | none => throw (.sqlx .rowNotFound)
  | some org =>
    ofExcept (db.requireFeature org .agency)
    if db.repositoryGrantRules.rows.any fun r =>
        r.1 = newId ∨ (r.2.targetRepoId = target ∧ r.2.setId = packageSet) then return
    if (db.packageSets.get? packageSet).isNone then throw (.sqlx .foreignKeyViolation)
    set { db with
      repositoryGrantRules := db.repositoryGrantRules.insertNew newId ⟨target, packageSet⟩ }

/-- `remove_grant_rule`: of the repository. -/
def removeGrantRule (target rule : Uuid) : Effect Catalog SqlError Unit :=
  modify fun db => { db with
    repositoryGrantRules := db.repositoryGrantRules.delete fun id r =>
      id = rule ∧ r.targetRepoId = target }

/-! ## Subscription entries -/

/-- An entry of a subscription. -/
structure UpstreamRequire.Spec where
  matchKind : MatchKind
  pattern : String
  versionFloor : Option String
  deriving DecidableEq

/-- `s.trim_start_matches(c)`. -/
def trimStartMatches (c : Char) (s : String) : String := String.ofList (s.toList.dropWhile (· == c))

/-- The matcher of an entry and the version after `@`, if one is there. -/
def splitFloor (spec : String) : String × Option String :=
  match splitOnce '@' spec with
  | some (matcher, version) =>
    if (trim version).isEmpty then (trim (trimEndMatches '@' spec), none)
    else (trim matcher, some (trim version))
  | none => (trim (trimEndMatches '@' spec), none)

/-- What a matcher matches: `*` all, `re:` a regex, a trailing star or slash a prefix. -/
def parseMatcher (spec : String) (matcher : List Char) : Except String (MatchKind × String) :=
  match matcher with
  | ['*'] => .ok (.all, "")
  | 'r' :: 'e' :: ':' :: regex =>
    if regex.isEmpty then .error ("empty regex in '" ++ spec ++ "'")
    else .ok (.regex, String.ofList regex)
  | _ =>
    if matcher.isEmpty then .error ("empty match in '" ++ spec ++ "'")
    else if matcher.getLast? = some '*' then .ok (.prefixOf, String.ofList matcher.dropLast)
    else if matcher.getLast? = some '/' then .ok (.prefixOf, String.ofList matcher)
    else .ok (.exact, String.ofList matcher)

/-- `UpstreamRequire::parse`. -/
def UpstreamRequire.parse (spec : String) : Except String UpstreamRequire.Spec := do
  let (matcher, versionFloor) := splitFloor (trim spec)
  let (matchKind, pattern) ← parseMatcher (trim spec) matcher.toList
  return { matchKind, pattern, versionFloor }

example : (UpstreamRequire.parse " acme/*@2.4 ").toOption =
    some ⟨.prefixOf, "acme/", some "2.4"⟩ := by decide

/-! ## Upstreams -/

/-- `create_upstream`: a public upstream has no credential, whatever is passed. -/
def createUpstream (newId : Uuid) (row : Upstream) : Effect Catalog SqlError Uuid := do
  let db ← get
  let credential := if row.visibility = .public then none else row.credential
  if (db.upstreams.get? newId).isSome then throw .uniqueViolation
  if (db.repositories.get? row.repoId).isNone then throw .foreignKeyViolation
  set { db with upstreams := db.upstreams.insertNew newId { row with credential } }
  return newId

/-- The upstream is one of the repository. -/
def Catalog.upstreamIn (db : Catalog) (repo upstream : Uuid) : Bool :=
  (db.upstreams.get? upstream).any fun u => u.repoId = repo

/-- `list_upstreams`, their ids. -/
def Catalog.listUpstreams (db : Catalog) (repo : Uuid) : List Uuid :=
  (db.upstreams.rows.filter fun r => r.2.repoId = repo).map (·.1)

/-- `delete_upstream`: whether the repository had it. -/
def deleteUpstream (repo upstream : Uuid) : Effect Catalog SqlError Bool := do
  let db ← get
  if db.upstreamIn repo upstream then
    set (db.dropUpstreams fun id => id = upstream)
    return true
  else return false

/-- `set_upstream_requires`: the entries in their order, the stored ones replaced. -/
def setUpstreamRequires (ids : ℕ → Uuid) (repo upstream : Uuid)
    (requires : List UpstreamRequire.Spec) : Effect Catalog SqlError Unit := atomically do
  if !(← get).upstreamIn repo upstream then return
  modify fun db => { db with
    upstreamRequires := db.upstreamRequires.delete fun _ r => r.upstreamId = upstream }
  forM requires.zipIdx fun entry => do
    let db ← get
    let (spec, pos) := entry
    if (db.upstreamRequires.get? (ids pos)).isSome then throw .uniqueViolation
    set { db with
      upstreamRequires := db.upstreamRequires.insertNew (ids pos)
        ⟨upstream, min pos 2147483647, spec.matchKind, spec.pattern, spec.versionFloor⟩ }

/-- The paths `set_upstream_source_paths` stores: no blank one, none twice. -/
def cleanedPaths (paths : List String) : List String :=
  ((paths.map fun p => trimStartMatches '/' (trimEndMatches '/' (trim p))).filter fun p =>
    !p.isEmpty).foldl (fun seen p => if seen.contains p then seen else seen ++ [p]) []

example : cleanedPaths ["/packages/a/", "", "packages/a", "packages/b"] =
    ["packages/a", "packages/b"] := by decide

/-- `set_upstream_source_paths`. -/
def setUpstreamSourcePaths (ids : ℕ → Uuid) (repo upstream : Uuid) (paths : List String) :
    Effect Catalog SqlError Unit := atomically do
  if !(← get).upstreamIn repo upstream then return
  modify fun db => { db with
    upstreamSourcePaths := db.upstreamSourcePaths.delete fun _ p => p.upstreamId = upstream }
  forM (cleanedPaths paths).zipIdx fun entry => do
    let db ← get
    let (path, pos) := entry
    if (db.upstreamSourcePaths.get? (ids pos)).isSome then throw .uniqueViolation
    set { db with
      upstreamSourcePaths := db.upstreamSourcePaths.insertNew (ids pos) ⟨upstream, path⟩ }

/-! ## Jobs -/

/-- `enqueue_mirror_job`. -/
def enqueueMirrorJob (now : Timestamp) (newId upstream : Uuid) : Effect Catalog SqlError Bool :=
  enqueueJob now ⟨newId, .mirrorUpstream, some upstream, none, none⟩

/-- `enqueue_mirror_package_job`. -/
def enqueueMirrorPackageJob (now : Timestamp) (newId upstream : Uuid) (package : String) :
    Effect Catalog SqlError Bool :=
  enqueueJob now ⟨newId, .mirrorPackage, some upstream, some package, none⟩

/-- `enqueue_resolve_closure_job`. -/
def enqueueResolveClosureJob (now : Timestamp) (newId repo : Uuid) :
    Effect Catalog SqlError Bool :=
  enqueueJob now ⟨newId, .resolveClosure, none, none, some repo⟩

namespace Ui

variable (ui : Ui) (act : Acting)

/-! ## Grants and subscriptions to sets -/

/-- `create_grant`: the source is one the user may see. -/
def createGrant (org repo package source : String) : Handler := do
  let target ← gate (·.lookupAdmin act.user org repo)
  let (srcOrg, srcRepo) ← ofExcept (orBadRequest (splitOnce '/' source))
  let source ← gate (·.lookup act.user srcOrg srcRepo)
  let _ ← e500 (onCatalog (grantPackage target.id source.id package))
  return repoPage org repo

/-- `GrantPolicyForm`. -/
structure GrantPolicyForm where
  package : String
  mode : String
  cooldownDays : Option String

/-- `set_grant_policy_action`. -/
def setGrantPolicyAction (org repo : String) (f : GrantPolicyForm) : Handler := do
  let summary ← gate (·.lookupAdmin act.user org repo)
  let policy ← ofExcept (policyOverride f.mode f.cooldownDays)
  let _ ← e500 (onCatalog (setGrantPolicy summary.id (trim f.package) policy))
  return repoPage org repo

/-- `add_autogrant`. -/
def addAutogrant (org repo setId : String) : Handler := do
  let summary ← gate (·.lookupAdmin act.user org repo)
  let packageSet ← ofExcept (orBadRequest (ui.parseUuid setId))
  requireOwnSet summary.orgId packageSet
  ExceptT.adapt entStatus (onCatalog (addGrantRule act.fresh.id summary.id packageSet))
  return repoPage org repo

/-- `remove_autogrant`. -/
def removeAutogrant (org repo id : String) : Handler := do
  let summary ← gate (·.lookupAdmin act.user org repo)
  let rule ← ofExcept (orBadRequest (ui.parseUuid id))
  e500 (onCatalog (removeGrantRule summary.id rule))
  return repoPage org repo

/-! ## Upstreams -/

/-- `UpstreamForm`. -/
structure UpstreamForm where
  kind : String
  visibility : String
  base : String
  label : Option String
  credential : Option String
  credUser : Option String
  credentialType : Option String
  requires : Option String
  sourcePaths : Option String

/-- The kind of an upstream a form names. -/
def parseUpstreamKind : String → Option UpstreamKind
  | "git" => some .git
  | "composer" => some .composer
  | _ => none

/-- The type of credential a form names. -/
def parseCredentialType : String → Option CredentialType
  | "basic" => some .basic
  | "github" => some .github
  | "gitlab" => some .gitlab
  | "bearer" => some .bearer
  | _ => none

/-- The lines of a field that are not blank, trimmed. -/
def filledLines (field : Option String) : List String :=
  (trimmedLines (field.getD "")).filter fun line => !line.isEmpty

/-- The credential to store: of basic auth the username is put before the token, unless the
token brings one. -/
def UpstreamForm.combined (f : UpstreamForm) (credentialType : CredentialType) : Option String :=
  match credentialType, trimmed f.credUser, trimmed f.credential with
  | .basic, some user, some token =>
    if token.toList.contains ':' then some token else some (user ++ ":" ++ token)
  | _, _, token => token

/-- `create_upstream`. -/
def createUpstream (org repo : String) (f : UpstreamForm) : Handler := do
  let summary ← gate (·.lookupAdmin act.user org repo)
  let visibility ← ofExcept (orBadRequest (Visibility.parse f.visibility))
  let kind ← ofExcept (orBadRequest (parseUpstreamKind f.kind))
  let credentialType ← ofExcept (orBadRequest (parseCredentialType (f.credentialType.getD "basic")))
  let requires ← ofExcept (orBadRequest
    ((filledLines f.requires).mapM fun line => (UpstreamRequire.parse line).toOption))
  -- a composer upstream must be scoped
  if kind = .composer ∧ requires.isEmpty then return .page "Upstream not added" "filter"
  let credential := f.combined credentialType
  match credential, ui.encrypt with
  | some _, none => return .page "Upstream not added" "nokey"
  | _, _ =>
    let ciphertext := credential.bind fun text => ui.encrypt.map fun encrypt => encrypt text
    let id ← e500 (onCatalog (Sconce.createUpstream act.fresh.id {
      repoId := summary.id
      kind
      base := f.base
      visibility
      label := trimmed f.label
      credential := ciphertext
      credentialType }))
    if !requires.isEmpty then
      e500 (onCatalog (setUpstreamRequires act.ids summary.id id requires))
    if kind = .git ∧ (filledLines f.sourcePaths).isEmpty = false then
      e500 (onCatalog (setUpstreamSourcePaths act.ids summary.id id (filledLines f.sourcePaths)))
    return repoPage org repo

/-- `remove_upstream`. -/
def removeUpstream (org repo id : String) : Handler := do
  let summary ← gate (·.lookupAdmin act.user org repo)
  let upstream ← ofExcept (orBadRequest (ui.parseUuid id))
  let _ ← e500 (onCatalog (deleteUpstream summary.id upstream))
  return repoPage org repo

/-- `sync_upstream`. -/
def syncUpstream (org repo id : String) : Handler := do
  let summary ← gate (·.lookupAdmin act.user org repo)
  let upstream ← ofExcept (orBadRequest (ui.parseUuid id))
  if !((← get).catalog.listUpstreams summary.id).contains upstream then throw .notFound
  let _ ← e500 (onCatalog (enqueueMirrorJob act.fresh.now act.fresh.id upstream))
  return repoPage org repo

/-- `sync_all_upstreams`. -/
def syncAllUpstreams (org repo : String) : Handler := do
  let summary ← gate (·.lookupAdmin act.user org repo)
  forM ((← get).catalog.listUpstreams summary.id).zipIdx fun entry => do
    let _ ← e500 (onCatalog (enqueueMirrorJob act.fresh.now (act.ids entry.2) entry.1))
  return repoPage org repo

/-! ## Dependencies -/

/-- `resolve_deps`. -/
def resolveDeps (org repo : String) : Handler := do
  let summary ← gate (·.lookupAdmin act.user org repo)
  let _ ← e500 (onCatalog (enqueueResolveClosureJob act.fresh.now act.fresh.id summary.id))
  return repoPage org repo

/-- `add_dep`: a planned dependency that something resolves. -/
def addDep (org repo package : String) : Handler := do
  let summary ← gate (·.lookupAdmin act.user org repo)
  match (← get).catalog.dependencyPlan.get? (summary.id, package) with
  | none => throw .notFound
  | some entry =>
    let upstream ← ofExcept (orBadRequest entry.resolverUpstreamId)
    let _ ← e500 (onCatalog
      (enqueueMirrorPackageJob act.fresh.now act.fresh.id upstream package))
    return repoPage org repo

end Ui

end Sconce
