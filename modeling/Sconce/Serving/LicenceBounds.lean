/-
# A licence's bound on the read routes

`visible_versions` keeps a package's document within the bound the key has for the package.
The downloads ask for less: that the key unlocks the package, and that the repository serves
the blob for it.  `licence_bound_holds_iff` says for which catalogs that is enough.
-/
import Sconce.Serving.Agreement

namespace Sconce

/-! ## Requests made with a key -/

/-- The request presents a key that is active in the repository it addresses, and no read
token. -/
structure ReadRequest.MadeWith (env : ReadEnv) (db : Catalog) (now : Timestamp)
    (request : ReadRequest) (license : Uuid) (loc : RepoLocation) (credential : String) : Prop where
  resolves : request.mount.resolve db = some loc
  presents : extractToken env request.authorization = some credential
  noToken : db.resolveTokenPolicy now loc.repoId (env.tokenHash credential) = none
  key : db.resolveLicense now loc.repoId (env.tokenHash credential) = some license

/-- The answer carries the version's metadata, or the bytes of its dist. -/
def ReadAnswer.Returns (r : Catalog.VersionRow) : ReadAnswer → Prop
  | .package _ rows _ => r ∈ rows
  | .blob id _ => r.version.distBlobSha256 = some id
  | _ => False

/-! ## Versions out of bound -/

/-- A stored version the key's bound for its package excludes, whose blob no version of the
package within the bound shares. -/
structure Catalog.OutOfBound (ses : Session) (db : Catalog) (license : Uuid)
    (r : Catalog.VersionRow) : Prop where
  stored : db.Stored r
  excluded : ∃ bound, (entitledPackageBounds ses db license).lookup r.package.name = some bound ∧
    ¬ PassesClause ses bound r.key r.version ∧
    ∀ r', db.Stored r' → r'.key.packageId = r.key.packageId →
      PassesClause ses bound r'.key r'.version → ∀ sha, r.version.distBlobSha256 = some sha →
        r'.version.distBlobSha256 ≠ some sha

/-- No request made with the key returns a version out of its bound. -/
def LicenceBoundHolds (env : ReadEnv) (store : ObjectStore) (db : Catalog) (now : Timestamp)
    (license : Uuid) : Prop :=
  ∀ r, db.OutOfBound env.session license r → ∀ request loc credential answer,
    request.MadeWith env db now license loc credential →
    serve env store db now request = .ok answer → ¬ answer.Returns r

/-- The blobs of the versions out of bound that the store holds are the dists of no version
that is not yanked, in a package the repository serves and the key unlocks. -/
def Catalog.WithholdsOutOfBound (ses : Session) (store : ObjectStore) (db : Catalog)
    (license repo : Uuid) : Prop :=
  ∀ r, db.OutOfBound ses license r → ∀ sha, r.version.distBlobSha256 = some sha →
    store.holds sha → ∀ r', db.Stored r' → r'.version.distBlobSha256 = some sha →
      r'.version.yankedAt = none → db.servedScope repo r'.key.packageId r'.package = true →
      (entitledPackageBounds ses db license).lookup r'.package.name = none

/-! ## What the key is granted -/

section Access

variable {env : ReadEnv} {store : ObjectStore} {db : Catalog} {now : Timestamp}
  {request : ReadRequest} {license : Uuid} {loc : RepoLocation} {credential : String}

/-- The key is a stored key of the repository. -/
theorem ReadRequest.MadeWith.stored (h : request.MadeWith env db now license loc credential) :
    ∃ l, db.licenseKeys.get? license = some l ∧ l.repoId = loc.repoId := by
  have hkey := h.key
  unfold Catalog.resolveLicense at hkey
  obtain ⟨⟨id, l⟩, hfind, rfl⟩ := Option.map_eq_some_iff.1 hkey
  have hrow := List.mem_of_find?_eq_some hfind
  have hcond := List.find?_some hfind
  simp only [Bool.and_eq_true, beq_iff_eq] at hcond
  exact ⟨l, (db.licenseKeys.mem_rows_iff id l).1 hrow, hcond.1.1.1⟩

/-- The access of the request is what the key unlocks. -/
theorem ReadRequest.MadeWith.authorize (h : request.MadeWith env db now license loc credential) :
    ∃ policy, authorize env db now loc.repoId request.authorization
      = .ok (.licensed (entitledPackageBounds env.session db license), policy) := by
  obtain ⟨l, hl, -⟩ := h.stored
  have hpresent : request.authorization ≠ .absent := by
    intro habsent
    have hpresents := h.presents
    rw [habsent] at hpresents
    cases hpresents
  refine ⟨l.policy, ?_⟩
  unfold Sconce.authorize
  rw [if_neg hpresent, h.presents]
  dsimp only
  rw [h.noToken]
  dsimp only
  rw [h.key]
  dsimp only
  rw [hl]
  rfl

/-- Another request made with the key addresses the same repository. -/
theorem ReadRequest.MadeWith.repoId_eq {request' : ReadRequest} {loc' : RepoLocation}
    {credential' : String} (h : request.MadeWith env db now license loc credential)
    (h' : request'.MadeWith env db now license loc' credential') : loc'.repoId = loc.repoId := by
  obtain ⟨l, hl, hrepo⟩ := h.stored
  obtain ⟨l', hl', hrepo'⟩ := h'.stored
  rw [← hrepo, ← hrepo', Option.some.inj (hl.symm.trans hl')]

/-- A document never carries a version out of the bound of its package. -/
theorem not_returns_package {r : Catalog.VersionRow} {name base : String}
    {rows : List Catalog.VersionRow} (hr : db.OutOfBound env.session license r)
    (hkey : request.MadeWith env db now license loc credential)
    (h : serveRoute env store db now loc.repoId (request.mount.base env loc) request.authorization
      request.route = .ok (.package name rows base)) : r ∉ rows := by
  intro hmem
  obtain ⟨access, policy, hauth, -, hempty | ⟨-, mode, cooldownDays, hvisible⟩⟩ :=
    serveRoute_package h
  · rw [hempty] at hmem
    exact absurd hmem List.not_mem_nil
  · obtain ⟨policy', hlicensed⟩ := hkey.authorize
    have haccess := (Prod.mk.inj (Except.ok.inj (hauth.symm.trans hlicensed))).1
    obtain ⟨bound, hbound, hexcluded, -⟩ := hr.excluded
    obtain ⟨-, hname, -, -, hpasses⟩ := (db.mem_visibleVersions loc.repoId hvisible r).1 hmem
    have hserved : access.boundFor name = bound := by
      rw [haccess, ← hname]
      unfold Access.boundFor
      dsimp only
      rw [hbound]
      rfl
    exact hexcluded (hserved ▸ hpasses)

/-- A key that unlocks a package downloads whatever the repository serves for it. -/
theorem serve_download {name : String} {sha : Sha256} {bytes : List UInt8} {bound : LicenseBound}
    (hkey : request.MadeWith env db now license loc credential) (hmoved : loc.moved = false)
    (hbound : (entitledPackageBounds env.session db license).lookup name = some bound)
    (hserves : db.repoServesDist loc.repoId name sha = true)
    (hget : store.get? sha = some bytes) :
    serve env store db now { request with route := .dist (distPath name sha) }
      = .ok (.blob sha (deliver env sha bytes)) := by
  obtain ⟨policy, hauth⟩ := hkey.authorize
  have hallows : Access.allows db loc.repoId name
      (.licensed (entitledPackageBounds env.session db license)) = true := by
    unfold Access.allows
    dsimp only
    rw [hbound]
    rfl
  have hresolves : ({ request with route := .dist (distPath name sha) } : ReadRequest).mount.resolve
      db = some loc := hkey.resolves
  rw [serve_of_resolve hresolves hmoved]
  show (Sconce.authorize env db now loc.repoId request.authorization >>= _) = _
  rw [hauth]
  exact serveDist_distPath hallows hserves hget

end Access

/-- **The licence bound on the read routes.** The requests made with an active key return no
version out of its bound exactly when no blob of such a version is served to the key under
any package it unlocks. -/
theorem licence_bound_holds_iff (env : ReadEnv) (store : ObjectStore) (db : Catalog)
    (now : Timestamp) {request : ReadRequest} {license : Uuid} {loc : RepoLocation}
    {credential : String} (hkey : request.MadeWith env db now license loc credential)
    (hmoved : loc.moved = false) :
    LicenceBoundHolds env store db now license ↔
      db.WithholdsOutOfBound env.session store license loc.repoId := by
  constructor
  · intro hholds r hr sha hsha hheld r' hstored' hsha' hyanked hscope
    by_contra hunlocked
    obtain ⟨bound, hbound⟩ := Option.ne_none_iff_exists'.1 hunlocked
    obtain ⟨bytes, hget⟩ := Option.isSome_iff_exists.1 hheld
    have hserves := (db.repoServesDist_iff loc.repoId r'.package.name sha).2
      ⟨r', hstored', rfl, hsha', hscope, hyanked⟩
    -- the same key downloads the blob through the version that shares it
    have hkey' : ({ request with route := .dist (distPath r'.package.name sha) } :
        ReadRequest).MadeWith env db now license loc credential :=
      ⟨hkey.resolves, hkey.presents, hkey.noToken, hkey.key⟩
    exact hholds r hr _ loc credential _ hkey' (serve_download hkey hmoved hbound hserves hget) hsha
  · intro hwithholds r hr request' loc' credential' answer hkey' hserve hreturns
    obtain ⟨loc'', hloc, ⟨location, rfl⟩ | ⟨-, hroute⟩⟩ := serve_cases hserve
    · exact hreturns
    · obtain rfl := Option.some.inj (hkey'.resolves.symm.trans hloc)
      cases answer with
      | package name rows base => exact not_returns_package hr hkey' hroute hreturns
      -- a download: the name was unlocked and the digest served
      | blob id delivery =>
        obtain ⟨access, policy, hauth, name, id', bytes, hallows, hserves, hget, hanswer⟩ :=
          serveRoute_blob hroute
        obtain ⟨rfl, -⟩ := ReadAnswer.blob.inj hanswer
        obtain ⟨policy', hlicensed⟩ := hkey'.authorize
        have haccess := (Prod.mk.inj (Except.ok.inj (hauth.symm.trans hlicensed))).1
        rw [haccess] at hallows
        obtain ⟨r', hstored', rfl, hsha', hscope, hyanked⟩ :=
          (db.repoServesDist_iff loc'.repoId name id).1 hserves
        rw [hkey.repoId_eq hkey'] at hscope
        have hlocked := hwithholds r hr id hreturns (Option.isSome_iff_exists.2 ⟨bytes, hget⟩) r'
          hstored' hsha' hyanked hscope
        unfold Access.allows at hallows
        dsimp only at hallows
        rw [hlocked] at hallows
        cases hallows
      | _ => exact hreturns

namespace Storefront

/-- The address of the repository, for the key. -/
def here : RepoLocation := ⟨1, "acme", "main", false⟩

/-- The document is asked for with the key. -/
theorem coreDocument_madeWith : coreDocument.MadeWith env opened 0 1 here "key" where
  resolves := by decide
  presents := by decide
  noToken := by decide
  key := by decide

/-- The equivalence, at the shop where one release is past the bound. -/
theorem licence_bound_holds_iff_opened :
    LicenceBoundHolds env blobs opened 0 1 ↔ opened.WithholdsOutOfBound env.session blobs 1 1 :=
  licence_bound_holds_iff env blobs opened 0 coreDocument_madeWith rfl

/-- The release after the key's year. -/
def laterRelease : Catalog.VersionRow :=
  ⟨package "acme/core" .public, ⟨1, "2.0.0.0"⟩, release "2.0.0" (digest 2) (toTimestamp 200)⟩

/-- The later release is past the key's bound. -/
theorem laterRelease_outOfBound : opened.OutOfBound env.session 1 laterRelease where
  stored := by
    constructor <;> rfl
  excluded := by
    refine ⟨⟨some "1970-01-01", some 100, none⟩, by decide, by decide, ?_⟩
    rintro r' ⟨-, hget⟩ hpackage hpasses sha hsha hsha'
    have hall : ∀ v ∈ opened.packageVersions.rows, v.2.distBlobSha256 = some (digest 2) →
        ¬ PassesClause env.session ⟨some "1970-01-01", some 100, none⟩ v.1 v.2 := by
      decide
    obtain rfl := Option.some.inj hsha
    exact hall (r'.key, r'.version) ((opened.packageVersions.mem_rows_iff _ _).2 hget) hsha' hpasses

/-- A key for updates until second 100 downloads the release of second 200. -/
theorem later_release_downloaded : ¬ LicenceBoundHolds env blobs opened 0 1 := by
  intro hholds
  have hbound : (entitledPackageBounds env.session opened 1).lookup "acme/core"
      = some ⟨some "1970-01-01", some 100, none⟩ := by decide
  have hserves : opened.repoServesDist 1 "acme/core" (digest 2) = true := by decide
  have hdownload : serve env blobs opened 0
      { coreDocument with route := .dist (distPath "acme/core" (digest 2)) }
      = .ok (.blob (digest 2) (.bytes [2])) :=
    serve_download coreDocument_madeWith rfl hbound hserves rfl
  have hkey : ({ coreDocument with route := .dist (distPath "acme/core" (digest 2)) } :
      ReadRequest).MadeWith env opened 0 1 here "key" :=
    ⟨coreDocument_madeWith.resolves, coreDocument_madeWith.presents, coreDocument_madeWith.noToken,
      coreDocument_madeWith.key⟩
  exact hholds laterRelease laterRelease_outOfBound _ here "key" _ hkey hdownload rfl

end Storefront

end Sconce
