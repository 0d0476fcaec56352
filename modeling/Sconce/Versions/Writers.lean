/-
# Publishing and mirroring

The three writers of versions: the upload handler (`persist`), the git mirror
(`mirror_checkout`) and the composer mirror (`mirror_one_composer_package`, and
`mirror_composer_registry` over it).

What a writer gets from outside the repository (a checkout, a registry's answers,
the blob store, a version parser, a digest) is data of the call or a field of
`External`; the effects are on the catalog alone.
-/
import Sconce.Versions.Store

namespace Sconce

open Effect

/-- A version as `composer_semver` parses it. -/
structure SemverVersion where
  numeric : Bool
  normalized : String
  stability : String

/-- The third-party functions the writers call. -/
structure External where
  /-- `composer_semver::Version::parse`. -/
  parseVersion : String → Option SemverVersion
  /-- `serde_json::from_slice`. -/
  parseJson : List UInt8 → Option Json
  /-- `sha1_hex`. -/
  sha1Hex : List UInt8 → String

/-- What one pass of a writer draws: the database's clock, and the id a new row of
`packages` is given. -/
structure Draw where
  now : Timestamp
  newId : Uuid

/-- A normalized version and its stability. -/
structure ParsedVersion where
  normalized : String
  stability : String

/-- `normalize_tag`: only numeric versions are kept. -/
def normalizeTag (env : External) (tag : String) : Option ParsedVersion :=
  match env.parseVersion tag with
  | some version => if version.numeric then some ⟨version.normalized, version.stability⟩ else none
  | none => none

/-- `i64::try_from(len).unwrap_or(i64::MAX)`. -/
def sizeOf (bytes : List UInt8) : ℤ := min bytes.length (2 ^ 63 - 1)

/-! ## Publishing -/

/-- Why a request is refused. -/
inductive AppError where
  | notFound
  | unauthorized
  | forbidden
  | badRequest (message : String)
  | conflict (message : String)
  | payloadTooLarge
  | gone
  | catalog (e : SqlError)
  deriving DecidableEq

/-- A prepared upload. -/
structure Prepared where
  blob : Sha256
  size : ℤ
  composerJson : Json
  distShasum : String

/-- A completed upload to publish. -/
structure PublishCall where
  repo : Uuid
  vendor : String
  name : String
  version : String
  requested : Option Visibility
  prepared : Prepared
  nowUnix : ℤ
  draw : Draw

namespace PublishCall

variable (call : PublishCall)

/-- `format!("{vendor}/{name}")`. -/
def pkgName : String := call.vendor ++ "/" ++ call.name

/-- The row a publish inserts. -/
def versionRow (stability : String) : PackageVersion :=
  pushedVersion call.version stability call.prepared.composerJson call.prepared.blob
    call.prepared.distShasum call.nowUnix

end PublishCall

/-- `normalize_version` of the upload handler: the test `normalize_tag` makes. -/
def normalizeVersion (env : External) (v : String) : Option (String × String) :=
  (normalizeTag env v).map fun parsed => (parsed.normalized, parsed.stability)

/-- `policy_error`. -/
def policyError : UpsertPackageError → AppError
  | .policy m => .badRequest m
  | .db e => .catalog e

/-- `visibility.as_str()`. -/
def Visibility.asStr : Visibility → String
  | .private => "private"
  | .public => "public"

/-- The visibility of the package published to: its own, which a publish never
changes, else the requested one, else what the repository allows. -/
def Catalog.publishVisibility (db : Catalog) (call : PublishCall) : Except AppError Visibility :=
  match db.packageVisibility call.repo call.pkgName, call.requested with
  | some current, some asked =>
    if current.visibility = asked then .ok current.visibility
    else .error (.conflict (call.pkgName ++ " is " ++ current.visibility.asStr
      ++ "; publishing does not change a package's visibility (use `sconce package visibility`)"))
  | some current, none => .ok current.visibility
  | none, some asked => .ok asked
  | none, none =>
    match db.allowPrivatePackages call.repo with
    | .ok true => .ok .private
    | .ok false => .ok .public
    | .error e => .error (.catalog e)

/-- Asking for a visibility when creating the package is a declaration. -/
def declareVisibility (call : PublishCall) (existing : Option PackageVisibility)
    (visibility : Visibility) : Effect Catalog AppError Unit :=
  if existing.isNone ∧ call.requested.isSome then do
    let _ ← ExceptT.adapt policyError
      (setPackageVisibility call.draw.now call.repo call.pkgName visibility)
  else pure ()

/-- `persist`: register the blob, upsert the package, and insert the version
immutably. -/
def persist (env : External) (call : PublishCall) : Effect Catalog AppError PublishOutcome := do
  let (normalized, stability) ← ofExcept ((normalizeVersion env call.version).elim
    (.error (.badRequest ("\"" ++ call.version
      ++ "\" is not a numeric Composer version (e.g. 1.2.0, v2.0.0-beta1)"))) .ok)
  let db ← get
  let visibility ← ofExcept (db.publishVisibility call)
  upsertBlob call.draw.now call.prepared.blob call.prepared.size
  let packageId ← ExceptT.adapt policyError
    (upsertPackage call.draw.newId call.repo call.pkgName "upload"
      (some (.object [("kind", .string "upload")])) visibility)
  declareVisibility call (db.packageVisibility call.repo call.pkgName) visibility
  ExceptT.adapt .catalog (insertVersionOnce ⟨packageId, normalized⟩ (call.versionRow stability))

/-! ## What the mirrors share -/

/-- Why mirroring fails, as far as the modelled functions can. -/
inductive MirrorError where
  | git
  | cas
  | catalog (e : UpsertPackageError)
  | badComposerJson (tag : String)
  | noName (tag : String)
  | http (message : String)
  | httpStatus (code : ℕ) (url : String)
  | badMetadata (package : String)
  | shasumMismatch (package version : String)
  | filterRequired
  deriving DecidableEq

namespace MirrorError

/-- The `Display` of an error. -/
def text : MirrorError → String
  | .git => "reading git source"
  | .cas => "content store i/o"
  | .catalog _ => "catalog"
  | .badComposerJson tag => "composer.json at " ++ tag ++ " is not valid JSON"
  | .noName tag => "composer.json at " ++ tag ++ " has no \"name\""
  | .http message => "http error: " ++ message
  | .httpStatus code url => "http " ++ toString code ++ " from " ++ url
  | .badMetadata package => "upstream metadata for " ++ package ++ " is malformed"
  | .shasumMismatch package version => "dist sha1 mismatch for " ++ package ++ " " ++ version
      ++ " (corrupt download or tampered upstream)"
  | .filterRequired => "a composer upstream requires a non-empty package filter "
      ++ "(refusing to mirror the entire registry)"

/-- `reason`: the stable code of a terminal failure. -/
def reason : MirrorError → Option String
  | .badComposerJson _ | .noName _ | .badMetadata _ => some "bad_content"
  | .httpStatus code _ =>
    if code = 401 ∨ code = 403 then some "auth_failed"
    else if code = 404 ∨ code = 410 then some "source_gone"
    else none
  | .filterRequired => some "config_error"
  | _ => none

/-- `is_terminal`: retrying will fail the same way. -/
def isTerminal : MirrorError → Bool
  | .badComposerJson _ | .noName _ | .badMetadata _ | .filterRequired => true
  | .httpStatus code _ => code ∈ [401, 403, 404, 410]
  | .git | .cas | .catalog _ | .http _ | .shasumMismatch .. => false

/-- A failure has a reason exactly when it is terminal. -/
theorem isSome_reason (e : MirrorError) : e.reason.isSome = e.isTerminal := by
  cases e with
  | httpStatus code url =>
    show (if code = 401 ∨ code = 403 then _ else _ : Option String).isSome
      = decide (code ∈ [401, 403, 404, 410])
    simp only [List.mem_cons, List.not_mem_nil, or_false]
    split_ifs with hauth hgone
    · rcases hauth with rfl | rfl <;> rfl
    · rcases hgone with rfl | rfl <;> rfl
    · rw [Option.isSome_none, eq_comm, decide_eq_false_iff_not]
      omega
  | _ => rfl

end MirrorError

/-- How a require entry matches a package name. -/
inductive Match where
  | all
  | namePrefix (p : String)
  | exact (e : String)
  | regex (isMatch : String → Bool)

/-- A require entry; its constraint says which normalized versions parse and
satisfy it. -/
structure CompiledRequire where
  matcher : Match
  constraint : Option (String → Bool)

/-- `matches_name` of an entry. -/
def CompiledRequire.matchesName (c : CompiledRequire) (name : String) : Bool :=
  match c.matcher with
  | .all => true
  | .namePrefix p => p.toList.isPrefixOf name.toList
  | .exact e => name = e
  | .regex isMatch => isMatch name

/-- A compiled subscription. -/
abbrev Subscription := List CompiledRequire

namespace Subscription

variable (sub : Subscription)

/-- `matches_name`: any entry matches. -/
def matchesName (name : String) : Bool := sub.any (·.matchesName name)

/-- `version_allowed`: some matching entry keeps the version, or no entry matches
the name. -/
def versionAllowed (name normalized : String) : Bool :=
  let matching := sub.filter (·.matchesName name)
  matching.isEmpty || matching.any fun c => c.constraint.all (· normalized)

end Subscription

/-- A version that was mirrored. -/
structure Mirrored where
  tag : String
  package : String
  normalized : String
  stability : String

/-- Outcome of mirroring a source. -/
structure Report where
  mirrored : List Mirrored
  skipped : List (String × String)
  unchanged : ℕ
  conflicts : List (String × String)

/-- `Report::default()`. -/
def Report.default : Report := ⟨[], [], 0, []⟩

/-- What one pass of a mirror loop adds to the report. -/
inductive Entry where
  | mirrored (m : Mirrored)
  | skipped (item reason : String)
  | unchanged
  | conflict (version reason : String)

/-- Add an entry to the report. -/
def Report.push (r : Report) : Entry → Report
  | .mirrored m => { r with mirrored := r.mirrored ++ [m] }
  | .skipped item reason => { r with skipped := r.skipped ++ [(item, reason)] }
  | .unchanged => { r with unchanged := r.unchanged + 1 }
  | .conflict version reason => { r with conflicts := r.conflicts ++ [(version, reason)] }

/-- Add the report of one package to that of the registry. -/
def Report.extend (r s : Report) : Report :=
  ⟨r.mirrored ++ s.mirrored, r.skipped ++ s.skipped, r.unchanged + s.unchanged,
    r.conflicts ++ s.conflicts⟩

/-! ## The git mirror -/

/-- A checkout of a git source, and the store its archives go to. -/
structure Checkout where
  tags : Except MirrorError (List String)
  commitTime : String → Option ℤ
  readFile : String → String → Except MirrorError (Option (List UInt8))
  archiveSubtree : String → String → Except MirrorError (List UInt8)
  /-- `store.put`: the id of the stored bytes. -/
  put : List UInt8 → Except MirrorError Sha256

/-- A call of `mirror_checkout`; `draw` is what its pass over a tag and a subpath
draws, `finished` the clock when it marks the packages. -/
structure GitSync where
  repo : Uuid
  checkout : Checkout
  sourceUrl : String
  visibility : Visibility
  upstream : Option Uuid
  sub : Subscription
  sourcePaths : List String
  draw : String → String → Draw
  finished : Timestamp

/-- A package at a tag, archived. -/
structure Archived where
  name : String
  composerJson : Json
  zip : List UInt8
  blob : Sha256

namespace GitSync

variable (sync : GitSync)

/-- The listed subpaths, or the repository's root. -/
def paths : List String := if sync.sourcePaths.isEmpty then [""] else sync.sourcePaths

/-- `label`. -/
def label (sp item : String) : String := if sp.isEmpty then item else sp ++ ": " ++ item

/-- The part of a pass that reads the checkout: skip, or archive the subtree of the
package at the tag. -/
def archive (env : External) (tag : String) (parsed : ParsedVersion) (sp : String) :
    Except MirrorError (Entry ⊕ Archived) := do
  let cjPath := if sp.isEmpty then "composer.json" else sp ++ "/composer.json"
  match ← sync.checkout.readFile tag cjPath with
  | none => return .inl (.skipped tag (label sp "no composer.json"))
  | some cjBytes =>
    let some composerJson := env.parseJson cjBytes | throw (.badComposerJson tag)
    let some name := (composerJson.get "name").bind Json.asStr | throw (.noName tag)
    if sync.sub.versionAllowed name parsed.normalized then
      let zip ← sync.checkout.archiveSubtree tag sp
      let blob ← sync.checkout.put zip
      return .inr ⟨name, composerJson, zip, blob⟩
    else
      return .inl (.skipped tag (label sp "below version floor"))

/-- The row a pass stores. -/
def versionRow (env : External) (tag : String) (parsed : ParsedVersion) (a : Archived) :
    PackageVersion :=
  .inserted tag parsed.stability a.composerJson (some a.blob) (some (env.sha1Hex a.zip)) none none
    (sync.checkout.commitTime tag)

/-- Bind the package to the upstream it is mirrored from, if there is one. -/
def bindUpstream (packageId : Uuid) : Effect Catalog MirrorError Unit :=
  match sync.upstream with
  | some uid => setPackageUpstream packageId uid
  | none => pure ()

/-- The part of a pass that writes the catalog. -/
def store (env : External) (tag : String) (parsed : ParsedVersion) (sp : String) (a : Archived) :
    Effect Catalog MirrorError Entry := do
  let draw := sync.draw tag sp
  upsertBlob draw.now a.blob (sizeOf a.zip)
  let packageId ← ExceptT.adapt .catalog
    (upsertPackage draw.newId sync.repo a.name "git"
      (some (.object [("url", .string sync.sourceUrl)])) sync.visibility)
  sync.bindUpstream packageId
  setPackageSourcePath packageId sp
  ExceptT.adapt (.catalog ∘ .db)
    (upsertPackageVersion ⟨packageId, parsed.normalized⟩ (sync.versionRow env tag parsed a))
  return .mirrored ⟨tag, a.name, parsed.normalized, parsed.stability⟩

/-- The pass of `mirror_checkout` over a tag and a subpath. -/
def mirrorPath (env : External) (tag : String) (parsed : ParsedVersion) (sp : String) :
    Effect Catalog MirrorError Entry := do
  match ← ofExcept (sync.archive env tag parsed sp) with
  | .inl entry => return entry
  | .inr a => sync.store env tag parsed sp a

/-- The pass over a tag. -/
def mirrorTag (env : External) (report : Report) (tag : String) :
    Effect Catalog MirrorError Report :=
  match normalizeTag env tag with
  | none => return report.push (.skipped tag "unrecognized version")
  | some parsed =>
    sync.paths.foldlM
      (fun report sp => do return report.push (← sync.mirrorPath env tag parsed sp)) report

/-- `mirror_checkout`. -/
def mirrorCheckout (env : External) : Effect Catalog MirrorError Report := do
  let tags ← ofExcept sync.checkout.tags
  let report ← tags.foldlM (sync.mirrorTag env) .default
  -- clears any earlier broken flag on the packages the sync produced
  forM (report.mirrored.map (·.package)).eraseDups fun name =>
    markPackageSynced sync.finished sync.repo name
  return report

end GitSync

/-! ## The composer mirror -/

/-- The columns of an upstream the composer mirror reads. -/
structure UpstreamRow where
  id : Uuid
  repoId : Uuid
  kind : String
  base : String
  visibility : Visibility

/-- `base.trim_end_matches('/')`. -/
def UpstreamRow.trimmedBase (up : UpstreamRow) : String :=
  .ofList (up.base.toList.reverse.dropWhile (· = '/')).reverse

/-- A call of `mirror_one_composer_package`: the upstream's p2 metadata of the
package, expanded, each version with what its pass draws. -/
structure ComposerSync where
  upstream : UpstreamRow
  package : String
  sub : Subscription
  metadata : Except MirrorError (List (Draw × Json))
  download : String → Except MirrorError (List UInt8)
  put : List UInt8 → Except MirrorError Sha256
  finished : Timestamp

/-- A version the upstream lists with a dist. -/
structure Listed where
  version : String
  normalized : String
  distUrl : String
  shasum : Option String
  reference : Option String
  obj : Json

/-- A downloaded dist. -/
structure Fetched where
  bytes : List UInt8
  actualShasum : String
  blob : Sha256

/-- `upstream_relative_path`: the path of a dist on the upstream's base, without
its query. -/
def upstreamRelativePath (base distUrl : String) : Option String := do
  let rest ← base.toList.isPrefixOf? distUrl.toList
  let rest ← ['/'].isPrefixOf? rest
  let path := rest.takeWhile fun c => c ≠ '?' ∧ c ≠ '#'
  if path.isEmpty then none else some (.ofList path)

/-- `upstream_change`: why the upstream's dist no longer matches the stored one.
The shasum decides when the upstream publishes one, else the reference. -/
def upstreamChange (stored : StoredDist) (shasum reference : Option String) : Option String :=
  match shasum with
  | some shasum =>
    if stored.shasum = some shasum then none
    else some "upstream dist shasum changed since it was mirrored"
  | none =>
    match stored.reference, reference with
    | some old, some upstream =>
      if old = upstream then none
      else some "upstream dist reference changed since it was mirrored"
    | _, _ => none

/-- `composer_stability`. -/
def composerStability (version : String) : String :=
  let v := version.toList.map Char.toLower
  let labels := [("dev", "dev"), ("alpha", "alpha"), ("beta", "beta"), ("rc", "RC")]
  ((labels.find? fun l => decide (l.1.toList <:+: v)).map (·.2)).getD "stable"

namespace ComposerSync

variable (sync : ComposerSync)

/-- The part of a pass that reads the metadata: skip, or go on with the dist.  An
empty shasum or reference counts as absent. -/
def list (obj : Json) : Entry ⊕ Listed :=
  let version := (obj.get "version").bind Json.asStr
  let normalized := (obj.get "version_normalized").bind Json.asStr
  let field (key : String) := ((obj.get "dist").bind (·.get key)).bind Json.asStr
  match version, normalized, field "url" with
  | some version, some normalized, some distUrl =>
    if sync.sub.versionAllowed sync.package normalized then
      .inr { version, normalized, distUrl, obj
             shasum := (field "shasum").filter (· ≠ "")
             reference := (field "reference").filter (· ≠ "") }
    else .inl (.skipped version "below version floor")
  | version, _, _ => .inl (.skipped (version.getD "?") "no dist")

/-- Download the dist verbatim, verify the upstream's sha1 when it publishes one,
and store the bytes. -/
def fetch (env : External) (v : Listed) : Except MirrorError Fetched := do
  let bytes ← sync.download v.distUrl
  let actualShasum := env.sha1Hex bytes
  if v.shasum.any (· ≠ actualShasum) then throw (.shasumMismatch sync.package v.version)
  let blob ← sync.put bytes
  return ⟨bytes, actualShasum, blob⟩

/-- The path of the dist relative to the upstream's base. -/
def distPath (v : Listed) : Option String :=
  upstreamRelativePath sync.upstream.trimmedBase v.distUrl

/-- The row a pass inserts. -/
def versionRow (v : Listed) (f : Fetched) : PackageVersion :=
  mirroredVersion v.version (composerStability v.version) v.obj f.blob f.actualShasum v.reference
    (sync.distPath v)

/-- The part of a pass that writes a version not stored yet. -/
def store (draw : Draw) (v : Listed) (f : Fetched) : Effect Catalog MirrorError Entry := do
  upsertBlob draw.now f.blob (sizeOf f.bytes)
  let packageId ← ExceptT.adapt .catalog
    (upsertPackage draw.newId sync.upstream.repoId sync.package "composer"
      (some (.object [("url", .string sync.upstream.trimmedBase)])) sync.upstream.visibility)
  setPackageUpstream packageId sync.upstream.id
  let outcome ← ExceptT.adapt (.catalog ∘ .db)
    (insertVersionOnce ⟨packageId, v.normalized⟩ (sync.versionRow v f))
  return match outcome with
    | .created =>
      .mirrored ⟨v.version, sync.package, v.normalized, composerStability v.version⟩
    | .alreadyPublished => .unchanged
    | .conflict => .conflict (sync.package ++ " " ++ v.version)
        "dist bytes differ from the stored version"

/-- Record where the dist of a stored version lives, when no path is recorded. -/
def backfill (v : Listed) (existing : StoredDist) : Effect Catalog MirrorError Unit :=
  match existing.upstreamDistPath, sync.distPath v with
  | none, some path =>
    backfillUpstreamDistPath sync.upstream.repoId sync.package v.normalized path
  | _, _ => pure ()

/-- The part of a pass over a version that is stored already. -/
def compare (v : Listed) (existing : StoredDist) : Effect Catalog MirrorError Entry :=
  match upstreamChange existing v.shasum v.reference with
  | some reason => return .conflict (sync.package ++ " " ++ v.version) reason
  | none => do
    sync.backfill v existing
    return .unchanged

/-- The pass over a version of the metadata, given what was stored when the sync
began. -/
def mirrorVersion (env : External) (stored : String → Option StoredDist) (draw : Draw)
    (obj : Json) : Effect Catalog MirrorError Entry :=
  match sync.list obj with
  | .inl entry => return entry
  | .inr v =>
    match stored v.normalized with
    | some existing => sync.compare v existing
    | none => do
      let f ← ofExcept (sync.fetch env v)
      sync.store draw v f

/-- `mirror_one_composer_package_inner`. -/
def mirrorPackageInner (env : External) : Effect Catalog MirrorError Report := do
  let versions ← ofExcept sync.metadata
  let stored := (← get).storedDists sync.upstream.repoId sync.package
  versions.foldlM
    (fun report v => do return report.push (← sync.mirrorVersion env stored v.1 v.2)) .default

/-- Record the package's lifecycle: healthy after a success, broken after a terminal
failure. -/
def recordLifecycle (result : Except MirrorError Report) : Effect Catalog MirrorError Unit :=
  match result with
  | .ok _ => markPackageSynced sync.finished sync.upstream.repoId sync.package
  | .error e =>
    match e.reason with
    | some reason => markPackageBroken sync.finished sync.upstream.repoId sync.package reason
    | none => pure ()

/-- `mirror_one_composer_package`. -/
def mirrorPackage (env : External) : Effect Catalog MirrorError Report := do
  let result ← outcome (sync.mirrorPackageInner env)
  sync.recordLifecycle result
  ofExcept result

end ComposerSync

/-- A call of `mirror_composer_registry`: what the registry's `packages.json` lists,
and the sync of each package. -/
structure RegistrySync where
  upstream : UpstreamRow
  sub : Subscription
  available : Except MirrorError (Option (List String))
  package : String → ComposerSync
  finished : Timestamp

namespace RegistrySync

variable (sync : RegistrySync)

/-- The pass over a selected package: a failure is reported and the run goes on. -/
def mirrorName (env : External) (archived : List String) (report : Report) (name : String) :
    Effect Catalog MirrorError Report :=
  if name ∈ archived then return report.push (.skipped name "archived")
  else do
    match ← outcome ((sync.package name).mirrorPackage env) with
    | .ok r => return report.extend r
    | .error e => return report.push (.skipped name e.text)

/-- Flag a package the registry no longer lists. -/
def reconcile (report : Report) (existing : String) : Effect Catalog MirrorError Report := do
  let flagged := (← get).packages.rows.any fun r =>
    Package.isNamed sync.upstream.repoId existing r.1 r.2 && r.2.archivedAt.isNone
  markPackageBroken sync.finished sync.upstream.repoId existing "source_gone"
  return if flagged then report.push (.skipped existing "removed upstream") else report

/-- The packages the registry lists, if the sync may run at all. -/
def listed : Except MirrorError (Option (List String)) := do
  if sync.upstream.kind ≠ "composer" then throw (.http "expected a 'composer' upstream")
  if sync.sub.isEmpty then throw .filterRequired
  sync.available

/-- `mirror_composer_registry`. -/
def mirror (env : External) : Effect Catalog MirrorError Report := do
  let available ← ofExcept sync.listed
  let db ← get
  -- archived packages are frozen
  let archived := db.packages.rows.filterMap fun r =>
    if r.2.repoId = sync.upstream.repoId ∧ r.2.archivedAt.isSome then some r.2.name else none
  let names := (available.getD []).filter sync.sub.matchesName
  let report ← names.foldlM (sync.mirrorName env archived) .default
  match available with
  | none => return report
  | some listed =>
    let mirrored := (← get).packages.rows.filterMap fun r =>
      if r.2.upstreamId = some sync.upstream.id ∧ r.2.archivedAt.isNone then some r.2.name
      else none
    (mirrored.filter (· ∉ listed)).foldlM sync.reconcile report

end RegistrySync

end Sconce
