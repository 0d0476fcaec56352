/-
# The catalog's tables

The columns of the migrations that the modelled functions read or write, one
structure a table, keyed by the table's unique key.  A column with a check
constraint over a few texts is an enumeration.

`Catalog` is the state the catalog's functions transform.
-/
import Sconce.Lib.Table
import Sconce.Postgres

namespace Sconce

/-! ## Column types -/

/-- A `uuid`. -/
abbrev Uuid := ℕ

/-- A sha256 digest, the key of a blob. -/
structure Sha256 where
  bytes : Vector UInt8 32
  deriving DecidableEq

/-- A JSON value; a number keeps its text. -/
inductive Json where
  | null
  | bool (b : Bool)
  | number (text : String)
  | string (s : String)
  | array (items : List Json)
  | object (fields : List (String × Json))

/-- `value.get(key)`: the member of an object. -/
def Json.get (j : Json) (key : String) : Option Json :=
  match j with
  | .object fields => fields.lookup key
  | _ => none

/-- `value.as_str()`. -/
def Json.asStr : Json → Option String
  | .string s => some s
  | _ => none

/-- `visibility in ('private', 'public')`. -/
inductive Visibility where
  | «private»
  | «public»
  deriving DecidableEq

/-- `update_mode in ('auto', 'manual', 'delayed')`. -/
inductive UpdateMode where
  | auto
  | manual
  | delayed
  deriving DecidableEq

/-- `sync_health in ('ok', 'broken')`. -/
inductive SyncHealth where
  | ok
  | broken
  deriving DecidableEq

/-- `status in ('active', 'revoked')`. -/
inductive LicenseStatus where
  | active
  | revoked
  deriving DecidableEq

/-! ## Blobs, packages and versions -/

/-- A row of `blobs`, keyed by `sha256`. -/
structure Blob where
  sizeBytes : ℤ
  refcount : ℤ
  lastSeenAt : Timestamp

/-- A row of `organizations`, keyed by `id`. -/
structure Organization where
  slug : String
  name : Option String := none

/-- A row of `repositories`, keyed by `id`. -/
structure Repository where
  orgId : Uuid
  slug : String
  updateMode : UpdateMode
  cooldownDays : ℤ
  allowPrivatePackages : Bool := true
  anonymousAccess : Bool := false
  customDomain : Option String := none
  allowRawTokens : Option Bool := none
  maxTokenTtlDays : Option ℤ := none

/-- What a retired slug was the slug of: an organization, or a repository of the
organization given. -/
inductive SlugScope where
  | org
  | repo (orgId : Uuid)
  deriving DecidableEq

/-- A row of `slug_history`, keyed by `id`. -/
structure RetiredSlug where
  scope : SlugScope
  oldSlug : String
  entityId : Uuid

/-- A row of `packages`, keyed by `id`; `(repo_id, name)` is unique. -/
structure Package where
  repoId : Uuid
  name : String
  kind : String
  source : Option Json
  visibility : Visibility
  visibilityDeclaredAt : Option Timestamp
  upstreamId : Option Uuid
  sourcePath : String
  syncHealth : SyncHealth
  brokenReason : Option String
  brokenAt : Option Timestamp
  lastSuccessAt : Option Timestamp
  archivedAt : Option Timestamp

/-- The unique key of `package_versions`: `(package_id, normalized_version)`. -/
structure VersionKey where
  packageId : Uuid
  normalizedVersion : String
  deriving DecidableEq

/-- The other columns of a row of `package_versions`. -/
structure PackageVersion where
  version : String
  stability : String
  composerJson : Json
  distBlobSha256 : Option Sha256
  distShasum : Option String
  sourceReference : Option String
  releasedAt : Option Timestamp
  yankedAt : Option Timestamp
  heldAt : Option Timestamp
  approvedAt : Option Timestamp
  graceDays : ℤ
  entitlementDate : Option Timestamp
  upstreamDistPath : Option String

/-! ## Package sets -/

/-- A row of `package_sets`, keyed by `id`. -/
structure PackageSet where
  orgId : Uuid
  name : String

/-- A row of `package_set_rules`, keyed by `id`. -/
structure PackageSetRule where
  setId : Uuid
  glob : String

/-! ## Read credentials and grants -/

/-- A policy override: `None` inherits. -/
structure PolicyOverride where
  updateMode : Option UpdateMode
  cooldownDays : Option ℤ
  deriving DecidableEq

/-- `(repo_id is null) <> (org_id is null)`. -/
inductive TokenScope where
  | repo (id : Uuid)
  | org (id : Uuid)
  deriving DecidableEq

/-- `origin in ('manual', 'session', 'ci')`. -/
inductive TokenOrigin where
  | manual
  | session
  | ci
  deriving DecidableEq

/-- A row of `tokens`, keyed by `id`. -/
structure ReadToken where
  tokenHash : Sha256
  scope : TokenScope
  label : Option String
  expiresAt : Option Timestamp
  policy : PolicyOverride
  origin : TokenOrigin := .manual

/-- A row of `service_tokens` or of `publish_tokens`, keyed by `id`. -/
structure RepoToken where
  repoId : Uuid
  tokenHash : Sha256
  label : Option String
  expiresAt : Option Timestamp

/-- A row of `repository_grant_rules`, keyed by `id`. -/
structure GrantRule where
  targetRepoId : Uuid
  setId : Uuid

/-! ## Licences -/

/-- An edition's update-bound template: none, a number of months from the sale,
or a highest major version. -/
inductive EditionBound where
  | perpetual
  | time (periodMonths : ℤ)
  | version (major : ℤ)
  deriving DecidableEq

/-- What both entry points check of a bound before it is stored: at least one
month, no negative major version. -/
def EditionBound.Valid : EditionBound → Prop
  | .perpetual => True
  | .time periodMonths => 0 < periodMonths
  | .version major => 0 ≤ major

instance (b : EditionBound) : Decidable b.Valid := by
  cases b <;> unfold EditionBound.Valid <;> infer_instance

/-- A row of `editions`, keyed by `id`. -/
structure Edition where
  repoId : Uuid
  name : String
  slug : Option String
  setId : Uuid
  bound : EditionBound
  snapshotAtIssue : Bool
  policy : PolicyOverride
  active : Bool
  bound_valid : bound.Valid

/-- The two nullable ceilings `update_until` and `version_cap_major`, as they
stand on a key or on an entitlement edge. -/
structure UpdateBound where
  updateUntil : Option Timestamp
  versionCapMajor : Option ℤ
  deriving DecidableEq

/-- A row of `license_keys`, keyed by `id`. -/
structure LicenseKey where
  repoId : Uuid
  keyHash : Sha256
  keyCiphertext : Option (List UInt8)
  buyerRef : Option String
  status : LicenseStatus
  expiresAt : Option Timestamp := none
  editionId : Option Uuid
  idempotencyKey : Option String
  bound : UpdateBound
  policy : PolicyOverride

/-! ## Snapshots and uploads -/

/-- A row of `snapshots`, keyed by `id`. -/
structure Snapshot where
  repoId : Uuid
  environment : String
  profile : String
  blobSha256 : Sha256
  sizeBytes : ℤ
  sourceRef : Option String
  createdAt : Timestamp
  seq : ℤ

/-- What an upload session is for: the columns `kind` tells apart. -/
inductive UploadTarget where
  | package (vendor name version : String) (visibility : Option Visibility)
  | snapshot (environment : String) (profile : Option String)

/-- `status in ('open', 'completed', 'aborted')`. -/
inductive UploadStatus where
  | «open»
  | completed
  | aborted
  deriving DecidableEq

/-- A row of `upload_sessions`, keyed by `id`. -/
structure UploadSession where
  repoId : Uuid
  target : UploadTarget
  status : UploadStatus
  expiresAt : Timestamp

/-- A row of `upload_parts`, keyed by `(session_id, part_number)`. -/
structure UploadPart where
  chunkSha256 : Sha256
  sizeBytes : ℤ

/-! ## Upstreams and their jobs -/

/-- `kind in ('git', 'composer')`. -/
inductive UpstreamKind where
  | git
  | composer
  deriving DecidableEq

/-- `credential_type in ('basic', 'github', 'gitlab', 'bearer')`. -/
inductive CredentialType where
  | basic
  | github
  | gitlab
  | bearer
  deriving DecidableEq

/-- A row of `upstreams`, keyed by `id`. -/
structure Upstream where
  repoId : Uuid
  kind : UpstreamKind
  base : String
  visibility : Visibility
  label : Option String
  credential : Option (List UInt8)
  credentialType : CredentialType

/-- `kind in ('mirror_upstream', 'mirror_package', 'resolve_closure')`. -/
inductive JobKind where
  | mirrorUpstream
  | mirrorPackage
  | resolveClosure
  deriving DecidableEq

/-- `status in ('pending', 'running', 'ready', 'failed')`. -/
inductive JobStatus where
  | pending
  | running
  | ready
  | failed
  deriving DecidableEq

/-- A row of `mirror_jobs`, keyed by `id`. -/
structure MirrorJob where
  kind : JobKind
  upstreamId : Option Uuid
  package : Option String
  repoId : Option Uuid
  status : JobStatus
  attempts : ℤ
  runAfter : Timestamp
  claimedAt : Option Timestamp
  lastError : Option String

/-- `match_kind in ('prefix', 'exact', 'all', 'regex')`. -/
inductive MatchKind where
  | prefixOf
  | exact
  | all
  | regex
  deriving DecidableEq

/-- A row of `upstream_requires`, keyed by `id`. -/
structure UpstreamRequire where
  upstreamId : Uuid
  position : ℤ
  matchKind : MatchKind
  pattern : String
  versionFloor : Option String

/-- A row of `upstream_source_paths`, keyed by `id`. -/
structure UpstreamSourcePath where
  upstreamId : Uuid
  sourcePath : String

/-- A row of `dependency_plan`, keyed by `(repo_id, name)`. -/
structure DependencyPlanRow where
  status : String
  resolverUpstreamId : Option Uuid
  requiredBy : Option String

/-! ## Organizations' settings -/

/-- A row of `org_settings`, keyed by `org_id`. -/
structure OrgSettings where
  allowRawTokens : Bool
  maxTokenTtlDays : Option ℤ

/-- The feature switches of a row of `org_entitlements` that the catalog checks. -/
structure OrgFeatures where
  agency : Bool
  sso : Bool
  scim : Bool

/-- `capability in ('read', 'publish')`. -/
inductive CiCapability where
  | read
  | publish
  deriving DecidableEq

/-- `token_scope in ('repo', 'org')`. -/
inductive CiTokenScope where
  | repo
  | org
  deriving DecidableEq

/-- A row of `ci_oidc_policies`, keyed by `id`. -/
structure CiOidcPolicy where
  repoId : Uuid
  provider : String
  issuer : String
  audience : String
  claims : Json
  tokenTtlSecs : ℤ
  capability : CiCapability
  tokenScope : CiTokenScope

/-- A row of `org_remotes`, keyed by `id`. -/
structure OrgRemote where
  orgId : Uuid
  remote : String
  snapshotRepoId : Option Uuid
  snapshotEnv : Option String
  snapshotProfile : Option String

/-! ## The catalog -/

/-- The catalog's state. -/
structure Catalog where
  blobs : Table Sha256 Blob
  organizations : Table Uuid Organization
  slugHistory : Table Uuid RetiredSlug
  repositories : Table Uuid Repository
  /-- `repository_members`: member positions, keyed by `(repo_id, member_repo_id)`. -/
  repositoryMembers : Table (Uuid × Uuid) ℤ
  packages : Table Uuid Package
  packageVersions : Table VersionKey PackageVersion
  packageSets : Table Uuid PackageSet
  /-- `package_set_members`, keyed by `(set_id, package_id)`. -/
  packageSetMembers : Table (Uuid × Uuid) Unit
  packageSetRules : Table Uuid PackageSetRule
  tokens : Table Uuid ReadToken
  /-- `repository_grants`, keyed by `(repo_id, package_id)`. -/
  repositoryGrants : Table (Uuid × Uuid) PolicyOverride
  repositoryGrantRules : Table Uuid GrantRule
  /-- `org_entitlements.max_skus`, keyed by `org_id`. -/
  maxSkus : Table Uuid ℤ
  editions : Table Uuid Edition
  licenseKeys : Table Uuid LicenseKey
  /-- `entitlements`, keyed by `(license_key_id, package_id)`. -/
  entitlements : Table (Uuid × Uuid) UpdateBound
  /-- `license_set_entitlements`, keyed by `(license_key_id, set_id)`. -/
  licenseSetEntitlements : Table (Uuid × Uuid) UpdateBound
  /-- `license_renewals`, keyed by `(license_key_id, idempotency_key)`. -/
  licenseRenewals : Table (Uuid × String) Unit
  snapshots : Table Uuid Snapshot
  /-- The last value drawn from the sequence of `snapshots.seq`. -/
  snapshotSeq : ℤ
  /-- `snapshot_latest.snapshot_id`, keyed by `(repo_id, environment, profile)`. -/
  snapshotLatest : Table (Uuid × String × String) Uuid
  uploadSessions : Table Uuid UploadSession
  uploadParts : Table (Uuid × ℤ) UploadPart
  upstreams : Table Uuid Upstream
  upstreamRequires : Table Uuid UpstreamRequire
  upstreamSourcePaths : Table Uuid UpstreamSourcePath
  mirrorJobs : Table Uuid MirrorJob
  /-- `dependency_plan`, keyed by `(repo_id, name)`. -/
  dependencyPlan : Table (Uuid × String) DependencyPlanRow
  serviceTokens : Table Uuid RepoToken
  publishTokens : Table Uuid RepoToken
  /-- `org_settings`, keyed by `org_id`. -/
  orgSettings : Table Uuid OrgSettings
  /-- The switches of `org_entitlements`, keyed by `org_id`. -/
  orgFeatures : Table Uuid OrgFeatures
  ciOidcPolicies : Table Uuid CiOidcPolicy
  orgRemotes : Table Uuid OrgRemote

/-- The catalog after the migrations: no rows. -/
def Catalog.empty : Catalog where
  blobs := ∅
  organizations := ∅
  slugHistory := ∅
  repositories := ∅
  repositoryMembers := ∅
  packages := ∅
  packageVersions := ∅
  packageSets := ∅
  packageSetMembers := ∅
  packageSetRules := ∅
  tokens := ∅
  repositoryGrants := ∅
  repositoryGrantRules := ∅
  maxSkus := ∅
  editions := ∅
  licenseKeys := ∅
  entitlements := ∅
  licenseSetEntitlements := ∅
  licenseRenewals := ∅
  snapshots := ∅
  snapshotSeq := 0
  snapshotLatest := ∅
  uploadSessions := ∅
  uploadParts := ∅
  upstreams := ∅
  upstreamRequires := ∅
  upstreamSourcePaths := ∅
  mirrorJobs := ∅
  dependencyPlan := ∅
  serviceTokens := ∅
  publishTokens := ∅
  orgSettings := ∅
  orgFeatures := ∅
  ciOidcPolicies := ∅
  orgRemotes := ∅

/-- `org_id_by_slug`. -/
def Catalog.orgIdBySlug (db : Catalog) (slug : String) : Option Uuid :=
  (db.organizations.rows.find? fun o => o.2.slug = slug).map (·.1)

/-- Why a statement fails: in the database, or when its NULL answer is read into
a column type without NULL. -/
inductive SqlError where
  | rowNotFound
  | uniqueViolation
  | foreignKeyViolation
  | checkViolation
  | castError
  | datetimeOverflow
  | invalidEscapeSequence
  | unexpectedNull
  deriving DecidableEq

end Sconce
