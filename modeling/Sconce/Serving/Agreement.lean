/-
# Metadata and downloads agree

What each read route can answer, once for every route; and that what a package's document
points at is what the same credential downloads.
-/
import Sconce.Serving.Routes

namespace Sconce

/-! ## What a route answers -/

/-- How the backend delivers a blob it holds. -/
def deliver (env : ReadEnv) (id : Sha256) (bytes : List UInt8) : Delivery :=
  match env.presign with
  | some url => .redirect (url id)
  | none => .bytes bytes

section Answers

variable {env : ReadEnv} {store : ObjectStore} {db : Catalog} {now : Timestamp} {repo : Uuid}
  {access : Access} {answer : ReadAnswer}

theorem serveBlob_of_get? {id : Sha256} {bytes : List UInt8} (h : store.get? id = some bytes) :
    serveBlob env store id = .ok (.blob id (deliver env id bytes)) := by
  unfold serveBlob deliver
  cases env.presign with
  | some url => rw [h]; rfl
  | none => rw [h]

theorem serveBlob_cases {id : Sha256} (h : serveBlob env store id = .ok answer) :
    ∃ bytes, store.get? id = some bytes ∧ answer = .blob id (deliver env id bytes) := by
  cases hget : store.get? id with
  | some bytes =>
    rw [serveBlob_of_get? hget] at h
    exact ⟨bytes, rfl, (Except.ok.inj h).symm⟩
  | none =>
    unfold serveBlob at h
    rw [hget] at h
    cases hpresign : env.presign <;> rw [hpresign] at h <;> cases h

/-- A download opens a stored blob the repository serves for a package the credential may
read. -/
def Opens (env : ReadEnv) (store : ObjectStore) (db : Catalog) (repo : Uuid) (access : Access)
    (answer : ReadAnswer) : Prop :=
  ∃ name id bytes, access.allows db repo name = true ∧ db.repoServesDist repo name id = true ∧
    store.get? id = some bytes ∧ answer = .blob id (deliver env id bytes)

/-- A lock file's path opens what the reader may open. -/
theorem serveUpstreamPath_opens {path : String}
    (h : serveUpstreamPath env store db repo access path = .ok answer) :
    Opens env store db repo access answer := by
  unfold serveUpstreamPath at h
  cases hpath : db.distByUpstreamPath repo env.versionId path with
  | none =>
    rw [hpath] at h
    cases h
  | some found =>
    obtain ⟨name, id⟩ := found
    rw [hpath] at h
    dsimp only at h
    split_ifs at h with hallows
    obtain ⟨bytes, hget, hanswer⟩ := serveBlob_cases h
    exact ⟨name, id, bytes, hallows, db.repoServesDist_of_distByUpstreamPath repo hpath, hget,
      hanswer⟩

/-- A dist URL opens what the reader may open. -/
theorem serveDist_opens {rest : String} (h : serveDist env store db repo access rest = .ok answer) :
    Opens env store db repo access answer := by
  unfold serveDist at h
  cases hparse : parseDistPath rest with
  | none =>
    rw [hparse] at h
    exact serveUpstreamPath_opens h
  | some parsed =>
    obtain ⟨name, id⟩ := parsed
    rw [hparse] at h
    dsimp only at h
    split_ifs at h with hopen
    obtain ⟨hallows, hserves⟩ := Bool.and_eq_true_iff.1 hopen
    obtain ⟨bytes, hget, hanswer⟩ := serveBlob_cases h
    exact ⟨name, id, bytes, hallows, hserves, hget, hanswer⟩

/-- A blob the repository serves for a package the credential may read is opened under the
path the package's document gives it. -/
theorem serveDist_distPath {name : String} {id : Sha256} {bytes : List UInt8}
    (hallows : access.allows db repo name = true) (hserves : db.repoServesDist repo name id = true)
    (hget : store.get? id = some bytes) :
    serveDist env store db repo access (distPath name id)
      = .ok (.blob id (deliver env id bytes)) := by
  unfold serveDist
  rw [parseDistPath_distPath]
  dsimp only
  rw [hallows, hserves, Bool.and_self, if_pos rfl]
  exact serveBlob_of_get? hget

/-- The index lists nothing, or what is served of the names the credential may list. -/
theorem serveIndex_cases {authorization : Authorization} {q : Option String}
    (h : serveIndex env db now repo authorization q = .ok answer) :
    ∃ listed packages, answer = .index listed packages ∧ (packages = [] ∨
      ∃ access policy mode cooldownDays versions, authorize env db now repo authorization
          = .ok (access, policy) ∧
        db.servedVersionSummaries repo env.session env.compareNormalized now mode cooldownDays
          = .ok versions ∧
        packages = (summarize env (versions.filter fun v =>
            v.package.name ∈ access.names db repo)).map fun p =>
              { p with hidden := !matchesTerms env (q.getD "") p }) := by
  obtain ⟨r, -, hrest⟩ := Except.ok_of_bind h
  split_ifs at hrest
  · obtain ⟨⟨access, policy⟩, hauth, hsummaries⟩ := Except.ok_of_bind hrest
    obtain ⟨versions, hversions, hanswer⟩ := Except.ok_of_bind hsummaries
    exact ⟨true, _, (Except.ok.inj hanswer).symm,
      .inr ⟨access, policy, _, _, versions, hauth, Except.ok_of_mapError hversions, rfl⟩⟩
  · exact ⟨false, [], (Except.ok.inj hrest).symm, .inl rfl⟩

/-- A package's document is empty, or lists what is visible of a package the credential may
read, under the bound it reads it under. -/
theorem serveP2_cases {policy : PolicyOverride} {base rest : String}
    (h : serveP2 env db now repo access policy base rest = .ok answer) :
    ∃ package rows, (stripSuffix ".json" rest).map (fun stem => (splitDev stem).1) = some package ∧
      answer = .package package rows base ∧ (rows = [] ∨
        access.allows db repo package = true ∧ ∃ mode cooldownDays,
          db.visibleVersions repo env.session env.compareNormalized now package mode cooldownDays
            (access.boundFor package).untilUnix (access.boundFor package).major = .ok rows) := by
  unfold serveP2 at h
  cases hstem : stripSuffix ".json" rest with
  | none =>
    rw [hstem] at h
    cases h
  | some stem =>
    rw [hstem] at h
    dsimp only at h
    split_ifs at h with hwithheld
    · exact ⟨_, [], rfl, (Except.ok.inj h).symm, .inl rfl⟩
    · rw [Bool.or_eq_true, not_or, Bool.not_eq_true', Bool.not_eq_false] at hwithheld
      obtain ⟨r, -, hrest⟩ := Except.ok_of_bind h
      obtain ⟨rows, hrows, hanswer⟩ := Except.ok_of_bind hrest
      have hvisible := Except.ok_of_mapError hrows
      exact ⟨_, rows, rfl, (Except.ok.inj hanswer).symm, .inr ⟨hwithheld.2, _, _, hvisible⟩⟩

/-- The document of a package a credential may read is what is visible of it. -/
theorem serveP2_of_allows {policy : PolicyOverride} {base name : String} {r : Repository}
    (hname : splitDev name = (name, false))
    (hallows : access.allows db repo name = true) (hr : db.repositories.get? repo = some r) :
    serveP2 env db now repo access policy base (name ++ ".json") =
      ((db.visibleVersions repo env.session env.compareNormalized now name
        (db.servedPolicy repo r policy name).1 (db.servedPolicy repo r policy name).2
        (access.boundFor name).untilUnix (access.boundFor name).major).mapError .catalog).map
          fun rows => .package name rows base := by
  unfold serveP2
  rw [stripSuffix_append]
  dsimp only
  rw [hname, hallows, hr]
  show ((db.visibleVersions repo env.session env.compareNormalized now name
    (db.servedPolicy repo r policy name).1 (db.servedPolicy repo r policy name).2
    (access.boundFor name).untilUnix (access.boundFor name).major).mapError AppError.catalog >>=
      fun versions => pure (ReadAnswer.package name versions base)) = _
  generalize db.visibleVersions repo env.session env.compareNormalized now name
    (db.servedPolicy repo r policy name).1 (db.servedPolicy repo r policy name).2
    (access.boundFor name).untilUnix (access.boundFor name).major = versions
  cases versions with
  | error e => rfl
  | ok rows => rfl

variable {base : String} {authorization : Authorization} {route : ReadRoute}

/-- Behind a document, a credential and what it may read. -/
theorem serveRoute_package {name base' : String} {rows : List Catalog.VersionRow}
    (h : serveRoute env store db now repo base authorization route
      = .ok (.package name rows base')) :
    ∃ access policy, authorize env db now repo authorization = .ok (access, policy) ∧
      base' = base ∧ (rows = [] ∨ access.allows db repo name = true ∧ ∃ mode cooldownDays,
        db.visibleVersions repo env.session env.compareNormalized now name mode cooldownDays
          (access.boundFor name).untilUnix (access.boundFor name).major = .ok rows) := by
  cases route with
  | index q =>
    obtain ⟨_, _, hanswer, -⟩ := serveIndex_cases h
    cases hanswer
  | packagesJson =>
    obtain ⟨⟨access, policy⟩, -, hroot⟩ := Except.ok_of_bind h
    exact absurd (Except.ok.inj hroot) nofun
  | p2 rest =>
    obtain ⟨⟨access, policy⟩, hauth, hp2⟩ := Except.ok_of_bind h
    obtain ⟨package, rows', -, hanswer, hrows⟩ := serveP2_cases hp2
    cases hanswer
    exact ⟨access, policy, hauth, rfl, hrows⟩
  | dist rest =>
    obtain ⟨⟨access, policy⟩, -, hdist⟩ := Except.ok_of_bind h
    obtain ⟨_, _, _, -, -, -, hanswer⟩ := serveDist_opens hdist
    cases hanswer
  | upstream path =>
    obtain ⟨⟨access, policy⟩, -, hpath⟩ := Except.ok_of_bind h
    obtain ⟨_, _, _, -, -, -, hanswer⟩ := serveUpstreamPath_opens hpath
    cases hanswer

/-- Behind a download, a credential and what it opens. -/
theorem serveRoute_blob {id : Sha256} {delivery : Delivery}
    (h : serveRoute env store db now repo base authorization route = .ok (.blob id delivery)) :
    ∃ access policy, authorize env db now repo authorization = .ok (access, policy) ∧
      Opens env store db repo access (.blob id delivery) := by
  cases route with
  | index q =>
    obtain ⟨_, _, hanswer, -⟩ := serveIndex_cases h
    cases hanswer
  | packagesJson =>
    obtain ⟨⟨access, policy⟩, -, hroot⟩ := Except.ok_of_bind h
    exact absurd (Except.ok.inj hroot) nofun
  | p2 rest =>
    obtain ⟨⟨access, policy⟩, -, hp2⟩ := Except.ok_of_bind h
    obtain ⟨_, _, -, hanswer, -⟩ := serveP2_cases hp2
    cases hanswer
  | dist rest =>
    obtain ⟨⟨access, policy⟩, hauth, hdist⟩ := Except.ok_of_bind h
    exact ⟨access, policy, hauth, serveDist_opens hdist⟩
  | upstream path =>
    obtain ⟨⟨access, policy⟩, hauth, hpath⟩ := Except.ok_of_bind h
    exact ⟨access, policy, hauth, serveUpstreamPath_opens hpath⟩

variable {request : ReadRequest}

/-- A request answered is answered by its route, or redirected. -/
theorem serve_cases (h : serve env store db now request = .ok answer) :
    ∃ loc, request.mount.resolve db = some loc ∧
      ((∃ location, answer = .moved location) ∨ loc.moved = false ∧
        serveRoute env store db now loc.repoId (request.mount.base env loc) request.authorization
          request.route = .ok answer) := by
  unfold serve at h
  cases hloc : request.mount.resolve db with
  | none =>
    rw [hloc] at h
    cases h
  | some loc =>
    rw [hloc] at h
    refine ⟨loc, rfl, ?_⟩
    dsimp only at h
    split_ifs at h with hmoved
    · exact .inl ⟨_, (Except.ok.inj h).symm⟩
    · exact .inr ⟨Bool.eq_false_iff.2 hmoved, h⟩

/-- A request that resolves is served by its route. -/
theorem serve_of_resolve {loc : RepoLocation} (hloc : request.mount.resolve db = some loc)
    (hmoved : loc.moved = false) :
    serve env store db now request = serveRoute env store db now loc.repoId
      (request.mount.base env loc) request.authorization request.route := by
  unfold serve
  rw [hloc]
  dsimp only
  rw [if_neg (Bool.eq_false_iff.1 hmoved)]

end Answers

/-! ## Following a document -/

/-- The request for a URL below the base of a document, with the same credential. -/
def ReadRequest.follow (request : ReadRequest) (base url : String) : Option ReadRequest :=
  (stripStart (trimEndMatches '/' base ++ "/dist/") url).map fun rest =>
    { request with route := .dist rest }

/-- **Metadata and downloads agree.** Every dist URL a package's document puts in is
answered, to the credential the document was served to, with the blob of the version. -/
theorem dist_urls_served (env : ReadEnv) (store : ObjectStore) (db : Catalog) (now : Timestamp)
    (request : ReadRequest) {name base : String} {rows : List Catalog.VersionRow}
    (h : serve env store db now request = .ok (.package name rows base)) {r : Catalog.VersionRow}
    (hr : r ∈ rows) {sha : Sha256} (hsha : r.version.distBlobSha256 = some sha)
    {bytes : List UInt8} (hheld : store.get? sha = some bytes) :
    ∃ entry ∈ (renderPackage name rows base).entries, ∃ dist url,
      entry = versionEntry name (trimEndMatches '/' base) r ∧
      entry.lookup "dist" = some (.object dist) ∧ dist.lookup "url" = some (.string url) ∧
      dist.lookup "shasum" = r.version.distShasum.map .string ∧
      ∃ download, request.follow base url = some download ∧
        serve env store db now download = .ok (.blob sha (deliver env sha bytes)) := by
  have hblock := lookup_distBlock name (trimEndMatches '/' base) sha r.version.distShasum
  refine ⟨_, List.mem_map_of_mem hr, _, _, rfl, lookup_dist_versionEntry name _ r hsha, hblock.1,
    hblock.2, { request with route := .dist (distPath name sha) }, ?_, ?_⟩
  · unfold ReadRequest.follow
    rw [stripStart_append]
    rfl
  · obtain ⟨loc, hloc, ⟨_, hanswer⟩ | ⟨hmoved, hroute⟩⟩ := serve_cases h
    · cases hanswer
    · obtain ⟨access, policy, hauth, -, hempty | ⟨hallows, mode, cooldownDays, hvisible⟩⟩ :=
        serveRoute_package hroute
      · rw [hempty] at hr
        exact absurd hr List.not_mem_nil
      · have hserves := db.repoServesDist_of_visible loc.repoId hvisible hr hsha
        have hopen : serveDist env store db loc.repoId access (distPath name sha)
            = .ok (.blob sha (deliver env sha bytes)) := serveDist_distPath hallows hserves hheld
        have hdownload : ({ request with route := .dist (distPath name sha) } : ReadRequest).mount.resolve
            db = some loc := hloc
        rw [serve_of_resolve hdownload hmoved]
        show (authorize env db now loc.repoId request.authorization >>= _) = _
        rw [hauth]
        exact hopen

namespace Storefront

/-- Digests that differ in one byte. -/
def digest (n : UInt8) : Sha256 := ⟨Vector.replicate 32 n⟩

/-- A package of the one repository. -/
def package (name : String) (visibility : Visibility) : Package where
  repoId := 1
  name := name
  kind := "upload"
  source := none
  visibility := visibility
  visibilityDeclaredAt := none
  upstreamId := none
  sourcePath := ""
  syncHealth := .ok
  brokenReason := none
  brokenAt := none
  lastSuccessAt := none
  archivedAt := none

/-- A release with its dist. -/
def release (version : String) (dist : Sha256) (releasedAt : Timestamp) : PackageVersion where
  version := version
  stability := "stable"
  composerJson := .object [("name", .string "acme/core")]
  distBlobSha256 := some dist
  distShasum := some "da39a3ee5e6b4b0d3255bfef95601890afd80709"
  sourceReference := none
  releasedAt := some releasedAt
  yankedAt := none
  heldAt := none
  approvedAt := none
  graceDays := 0
  entitlementDate := none
  upstreamDistPath := none

/-- A key for updates until second 100 of the epoch. -/
def annualKey : LicenseKey where
  repoId := 1
  keyHash := digest 9
  keyCiphertext := none
  buyerRef := none
  status := .active
  editionId := none
  idempotencyKey := none
  bound := ⟨some (toTimestamp 100), none⟩
  policy := ⟨none, none⟩

/-- A repository open to anonymous readers, with a public and a private package; the public
one has a release within the key's year and a later one. -/
def opened : Catalog :=
  { Catalog.empty with
    organizations := .single 1 ⟨"acme", none⟩
    repositories := ⟨[(1, ⟨1, "main", .auto, 0, true, true, none, none, none⟩)], by decide⟩
    packages := ⟨[(1, package "acme/core" .public), (2, package "acme/secret" .private)], by decide⟩
    packageVersions := ⟨[(⟨1, "1.0.0.0"⟩, release "1.0.0" (digest 1) (toTimestamp 50)),
      (⟨1, "2.0.0.0"⟩, release "2.0.0" (digest 2) (toTimestamp 200))], by decide⟩
    licenseKeys := ⟨[(1, annualKey)], by decide⟩
    entitlements := ⟨[((1, 1), ⟨none, none⟩)], by decide⟩ }

def blobs : ObjectStore := ⟨[(digest 1, [1]), (digest 2, [2])], by decide⟩

/-- The key is the text whose digest the catalog stores; versions are compared as text. -/
def env : ReadEnv where
  baseUrl := "https://host"
  scheme := "https"
  session := Session.utc
  tokenHash := fun text => if text = "key" then digest 9 else digest 0
  decodeBasic := fun _ => none
  compareNormalized := compare
  toLowercase := String.toLower
  jsonText := fun _ => ""
  versionId := fun key => key.packageId
  presign := none

/-- The document of acme/core, asked for with the key. -/
def coreDocument : ReadRequest := ⟨.path "acme" "main", .p2 "acme/core.json", .text "Bearer key"⟩

/-- The release within the key's year, as its row is joined. -/
def firstRelease : Catalog.VersionRow :=
  ⟨package "acme/core" .public, ⟨1, "1.0.0.0"⟩, release "1.0.0" (digest 1) (toTimestamp 50)⟩

/-- The key reads the document of its package. -/
theorem serve_coreDocument : serve env blobs opened 0 coreDocument
    = .ok (.package "acme/core" [firstRelease] "https://host/acme/main") := by
  with_unfolding_all rfl

theorem dist_urls_served_key :
    ∃ entry ∈ (renderPackage "acme/core" [firstRelease] "https://host/acme/main").entries,
      ∃ dist url, entry = versionEntry "acme/core" (trimEndMatches '/' "https://host/acme/main")
          firstRelease ∧
        entry.lookup "dist" = some (.object dist) ∧ dist.lookup "url" = some (.string url) ∧
        dist.lookup "shasum" = firstRelease.version.distShasum.map .string ∧
        ∃ download, coreDocument.follow "https://host/acme/main" url = some download ∧
          serve env blobs opened 0 download
            = .ok (.blob (digest 1) (deliver env (digest 1) [1])) :=
  dist_urls_served env blobs opened 0 coreDocument serve_coreDocument List.mem_cons_self rfl rfl

end Storefront

end Sconce
