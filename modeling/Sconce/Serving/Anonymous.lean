/-
# What an anonymous reader sees

A name is open in a repository when some package of the name reaches it and every one that
does is public.  Whatever a request without a credential is answered with comes from packages
of open names; the one other name an answer can carry is the name a document was asked for.
-/
import Sconce.Serving.Agreement

namespace Sconce

/-- A public package of the name reaches the repository, and no private one does. -/
def Catalog.OpenName (db : Catalog) (repo : Uuid) (name : String) : Prop :=
  (∃ id p, db.packages.get? id = some p ∧ db.reaches repo id p = true ∧ p.name = name) ∧
    ∀ id p, db.packages.get? id = some p → db.reaches repo id p = true → p.name = name →
      p.visibility = .public

/-- The version of a public package whose name is open. -/
structure Catalog.OpenVersion (db : Catalog) (repo : Uuid) (r : Catalog.VersionRow) : Prop where
  stored : db.Stored r
  isPublic : r.package.visibility = .public
  openName : db.OpenName repo r.package.name

/-- The package a document is asked for. -/
def ReadRequest.asks (request : ReadRequest) : Option String :=
  match request.route with
  | .p2 rest => (stripSuffix ".json" rest).map fun stem => (splitDev stem).1
  | _ => none

/-- The package names in an answer. -/
def ReadAnswer.names : ReadAnswer → List String
  | .root manifest => manifest.availablePackages
  | .package name _ _ => [name]
  | .index _ packages => packages.map (·.name)
  | _ => []

/-- Names, version documents, blobs and summaries come from open names. -/
structure DisclosesOpen (env : ReadEnv) (db : Catalog) (repo : Uuid) (request : ReadRequest)
    (answer : ReadAnswer) : Prop where
  names : ∀ name ∈ answer.names, db.OpenName repo name ∨ request.asks = some name
  documents : ∀ name rows base, answer = .package name rows base → ∀ r ∈ rows,
    db.OpenVersion repo r ∧ r.package.name = name
  blobs : ∀ id delivery, answer = .blob id delivery → ∃ r, db.OpenVersion repo r ∧
    r.version.distBlobSha256 = some id
  index : ∀ listed packages, answer = .index listed packages → ∀ p ∈ packages,
    ∃ r, db.OpenVersion repo r ∧ r.package.name = p.name ∧ p.latest = some r.version.version ∧
      p.description = (descriptionText env r).filter fun d => trim d ≠ ""

section Routes

/-! ## Open names -/

variable {env : ReadEnv} {store : ObjectStore} {db : Catalog} {now : Timestamp} {repo : Uuid}
  {access : Access} {policy : PolicyOverride} {answer : ReadAnswer}

/-- A name listed to anonymous readers is open. -/
theorem openName_of_mem {only : Option String} {name : String}
    (h : name ∈ db.anonymousPackageNames repo only) : db.OpenName repo name := by
  obtain ⟨-, hsome, hall⟩ := (db.mem_anonymousPackageNames repo only name).1 h
  exact ⟨hsome, hall⟩

/-- What an anonymous reader may read has an open name. -/
theorem openName_of_allows {name : String}
    (h : Access.anonymous.allows db repo name = true) : db.OpenName repo name := by
  unfold Access.allows at h
  rw [Bool.not_eq_true', List.isEmpty_eq_false_iff] at h
  obtain ⟨n, hn⟩ := List.exists_mem_of_ne_nil _ h
  have hname := ((db.mem_anonymousPackageNames repo (some name) n).1 hn).1 name rfl
  exact hname ▸ openName_of_mem hn

/-- A served version of an open name is the version of a public package. -/
theorem openVersion_of_served {r : Catalog.VersionRow} (hstored : db.Stored r)
    (hscope : db.servedScope repo r.key.packageId r.package = true)
    (hopen : db.OpenName repo r.package.name) : db.OpenVersion repo r := by
  have hreaches : db.reaches repo r.key.packageId r.package = true := by
    unfold Catalog.servedScope at hscope
    exact (Bool.and_eq_true_iff.1 hscope).1
  exact ⟨hstored, hopen.2 _ _ hstored.1 hreaches rfl, hopen⟩

/-- Without a header the access is the anonymous one. -/
theorem access_of_absent (h : authorize env db now repo .absent = .ok (access, policy)) :
    access = .anonymous := by
  unfold authorize at h
  rw [if_pos rfl] at h
  obtain ⟨settings, -, hrest⟩ := Except.ok_of_bind h
  split_ifs at hrest
  · exact (Prod.mk.inj (Except.ok.inj hrest)).1.symm
  · cases hrest

/-! ## The routes -/

variable {base rest path : String} {request : ReadRequest}

/-- What opens anonymously is an open version. -/
theorem Opens.openVersion (h : Opens env store db repo .anonymous answer) :
    ∃ r id delivery, answer = .blob id delivery ∧ db.OpenVersion repo r ∧
      r.version.distBlobSha256 = some id := by
  obtain ⟨name, id, bytes, hallows, hserves, -, hanswer⟩ := h
  obtain ⟨r, hstored, rfl, hblob, hscope, -⟩ := (db.repoServesDist_iff repo name id).1 hserves
  exact ⟨r, id, _, hanswer, openVersion_of_served hstored hscope (openName_of_allows hallows), hblob⟩

/-- A download discloses a blob only. -/
theorem Opens.disclosesOpen (h : Opens env store db repo .anonymous answer) :
    DisclosesOpen env db repo request answer := by
  obtain ⟨r, id, delivery, rfl, hopen, hblob⟩ := h.openVersion
  exact
    { names := nofun
      documents := nofun
      blobs := fun _ _ heq => ⟨r, hopen, (ReadAnswer.blob.inj heq).1 ▸ hblob⟩
      index := nofun }

/-- A document discloses open versions, or the name that was asked for. -/
theorem serveP2_disclosesOpen (hroute : request.route = .p2 rest)
    (h : serveP2 env db now repo .anonymous policy base rest = .ok answer) :
    DisclosesOpen env db repo request answer := by
  obtain ⟨package, rows, hasked, rfl, hrows⟩ := serveP2_cases h
  refine
    { names := fun name hname => ?_
      documents := fun name rows' base' heq r hr => ?_
      blobs := nofun
      index := nofun }
  · rw [List.mem_singleton.1 hname]
    refine .inr ?_
    unfold ReadRequest.asks
    rw [hroute]
    exact hasked
  · obtain ⟨rfl, rfl, -⟩ := ReadAnswer.package.inj heq
    rcases hrows with hempty | ⟨hallows, mode, cooldownDays, hvisible⟩
    · rw [hempty] at hr
      exact absurd hr List.not_mem_nil
    · obtain ⟨hstored, hname, hscope, -⟩ := (db.mem_visibleVersions repo hvisible r).1 hr
      exact ⟨openVersion_of_served hstored hscope (hname ▸ openName_of_allows hallows), hname⟩

theorem serveRoot_disclosesOpen :
    DisclosesOpen env db repo request (serveRoot db repo .anonymous base) where
  names := fun _ hname => .inl (openName_of_mem hname)
  documents := nofun
  blobs := nofun
  index := nofun

/-- The newest version of a name is one of its versions. -/
theorem newestOf_mem {versions : List Catalog.VersionRow} {r : Catalog.VersionRow}
    (h : newestOf versions = some r) : r ∈ versions := by
  unfold newestOf at h
  rcases Option.or_eq_some_iff.1 h with hfound | ⟨-, hlast⟩
  · exact List.mem_reverse.1 (List.mem_of_find?_eq_some hfound)
  · exact List.mem_of_getLast? hlast

/-- Of versions there are, one is the newest. -/
theorem newestOf_isSome {versions : List Catalog.VersionRow} (h : versions ≠ []) :
    ∃ r, newestOf versions = some r := by
  unfold newestOf
  obtain ⟨r, hr⟩ := Option.isSome_iff_exists.1 (List.getLast?_isSome.2 h)
  rw [hr]
  cases versions.reverse.find? fun r => r.version.stability == "stable" with
  | none => exact ⟨r, rfl⟩
  | some r' => exact ⟨r', rfl⟩

/-- An entry of the index summarizes a version of its name. -/
theorem mem_summarize {versions : List Catalog.VersionRow} {p : IndexPackage}
    (h : p ∈ summarize env versions) : ∃ r ∈ versions, r.package.name = p.name ∧
      p.latest = some r.version.version ∧
      p.description = (descriptionText env r).filter fun d => trim d ≠ "" := by
  obtain ⟨name, hname, rfl⟩ := List.mem_map.1 h
  rw [List.mem_dedup, List.mem_map] at hname
  obtain ⟨r₀, hr₀, rfl⟩ := hname
  have hne : (versions.filter fun r => r.package.name == r₀.package.name) ≠ [] :=
    List.ne_nil_of_mem (List.mem_filter.2 ⟨hr₀, beq_self_eq_true _⟩)
  obtain ⟨r, hr⟩ := newestOf_isSome hne
  obtain ⟨hmem, hsame⟩ := List.mem_filter.1 (newestOf_mem hr)
  refine ⟨r, hmem, beq_iff_eq.1 hsame, ?_, ?_⟩
  · dsimp only
    rw [hr]
    rfl
  · dsimp only
    rw [hr]
    rfl

/-- The index discloses open names and versions. -/
theorem serveIndex_disclosesOpen {q : Option String}
    (h : serveIndex env db now repo .absent q = .ok answer) :
    DisclosesOpen env db repo request answer := by
  obtain ⟨listed, packages, rfl, hpackages⟩ := serveIndex_cases h
  -- every entry summarizes a served version of an open name
  have hentry : ∀ p ∈ packages, ∃ r, db.OpenVersion repo r ∧ r.package.name = p.name ∧
      p.latest = some r.version.version ∧
      p.description = (descriptionText env r).filter fun d => trim d ≠ "" := by
    rcases hpackages with rfl | ⟨access, policy, mode, cooldownDays, versions, hauth, hversions, rfl⟩
    · nofun
    · intro p hp
      obtain ⟨p₀, hp₀, rfl⟩ := List.mem_map.1 hp
      obtain ⟨r, hr, hname, hlatest, hdescription⟩ := mem_summarize hp₀
      obtain ⟨hserved, hallowed⟩ := List.mem_filter.1 hr
      rw [access_of_absent hauth, decide_eq_true_eq] at hallowed
      rw [db.mem_servedVersionSummaries repo hversions] at hserved
      exact ⟨r, openVersion_of_served hserved.1 hserved.2.1 (openName_of_mem hallowed), hname,
        hlatest, hdescription⟩
  refine
    { names := fun name hname => ?_
      documents := nofun
      blobs := nofun
      index := fun _ _ heq => (ReadAnswer.index.inj heq).2 ▸ hentry }
  obtain ⟨p, hp, rfl⟩ := List.mem_map.1 hname
  obtain ⟨r, hopen, hsame, -⟩ := hentry p hp
  exact .inl (hsame ▸ hopen.openName)

end Routes

/-- **Anonymous reads.** Whatever a request without a credential is answered with comes from
public packages of open names, but for the name the request itself gives. -/
theorem anonymous_reads_open (env : ReadEnv) (store : ObjectStore) (db : Catalog)
    (now : Timestamp) (request : ReadRequest) (answer : ReadAnswer)
    (hanonymous : request.authorization = .absent)
    (h : serve env store db now request = .ok answer) :
    ∃ loc, request.mount.resolve db = some loc ∧
      DisclosesOpen env db loc.repoId request answer := by
  obtain ⟨loc, hloc, ⟨location, rfl⟩ | ⟨-, hserved⟩⟩ := serve_cases h
  · exact ⟨loc, hloc, { names := nofun, documents := nofun, blobs := nofun, index := nofun }⟩
  · refine ⟨loc, hloc, ?_⟩
    rw [hanonymous] at hserved
    cases hroute : request.route with
    | index q =>
      rw [hroute] at hserved
      exact serveIndex_disclosesOpen hserved
    | packagesJson =>
      rw [hroute] at hserved
      obtain ⟨⟨access, policy⟩, hauth, hroot⟩ := Except.ok_of_bind hserved
      rw [access_of_absent hauth] at hroot
      rw [← Except.ok.inj hroot]
      exact serveRoot_disclosesOpen
    | p2 rest =>
      rw [hroute] at hserved
      obtain ⟨⟨access, policy⟩, hauth, hp2⟩ := Except.ok_of_bind hserved
      rw [access_of_absent hauth] at hp2
      exact serveP2_disclosesOpen hroute hp2
    | dist rest =>
      rw [hroute] at hserved
      obtain ⟨⟨access, policy⟩, hauth, hdist⟩ := Except.ok_of_bind hserved
      rw [access_of_absent hauth] at hdist
      exact (serveDist_opens hdist).disclosesOpen
    | upstream path =>
      rw [hroute] at hserved
      obtain ⟨⟨access, policy⟩, hauth, hpath⟩ := Except.ok_of_bind hserved
      rw [access_of_absent hauth] at hpath
      exact (serveUpstreamPath_opens hpath).disclosesOpen

namespace Storefront

/-- The root document, asked for without a credential. -/
def openRoot : ReadRequest := ⟨.path "acme" "main", .packagesJson, .absent⟩

/-- The root of the example, read by anybody. -/
theorem serve_openRoot : serve env blobs opened 0 openRoot
    = .ok (.root ⟨"https://host/acme/main", ["acme/core"]⟩) := by
  with_unfolding_all rfl

theorem anonymous_reads_open_root :
    ∃ loc, openRoot.mount.resolve opened = some loc ∧
      DisclosesOpen env opened loc.repoId openRoot (.root ⟨"https://host/acme/main", ["acme/core"]⟩) :=
  anonymous_reads_open env blobs opened 0 openRoot _ rfl serve_openRoot

/-- The document of the private package, asked for without a credential. -/
def secretDocument : ReadRequest := ⟨.path "acme" "main", .p2 "acme/secret.json", .absent⟩

/-- The empty document still carries the name it was asked for, which no public package
has. -/
theorem asked_name_echoed :
    secretDocument.authorization = .absent ∧
      ∃ answer, serve env blobs opened 0 secretDocument = .ok answer ∧
        "acme/secret" ∈ answer.names ∧
        ¬ ∃ id p, opened.packages.get? id = some p ∧ p.name = "acme/secret" ∧
          p.visibility = .public := by
  refine ⟨rfl, .package "acme/secret" [] "https://host/acme/main", ?_, List.mem_cons_self, ?_⟩
  · with_unfolding_all rfl
  · rintro ⟨id, p, hget, hname, hpublic⟩
    have hall : ∀ r ∈ opened.packages.rows, r.2.name = "acme/secret" → r.2.visibility ≠ .public := by
      decide
    exact hall (id, p) ((opened.packages.mem_rows_iff id p).2 hget) hname hpublic

end Storefront

end Sconce
