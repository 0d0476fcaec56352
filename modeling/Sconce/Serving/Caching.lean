/-
# HTTP caching of the read routes

`cache` is the middleware of a read route: what its answer says to the caches in front, and
what a client that holds a document already is answered.

A site is the server over time: its configuration, its store and its catalog may change at any
moment.
-/
import Sconce.Lib.SharedCache
import Sconce.Serving.Agreement

namespace Sconce

open SharedCache

abbrev HttpResponse := Response (List UInt8)

/-! ## The middleware -/

/-- `Kind`: which kind of read a route serves. -/
inductive ReadKind where
  | metadata
  | dist
  deriving DecidableEq

/-- The kind a route is layered with in `read_routes`, and in `domain_router`. -/
def ReadRoute.kind : ReadRoute → ReadKind
  | .index _ | .packagesJson | .p2 _ => .metadata
  | .dist _ | .upstream _ => .dist

/-- `METADATA_MAX_AGE`. -/
def metadataMaxAge : ℕ := 60

/-- `DIST_MAX_AGE`. -/
def distMaxAge : ℕ := 86400

/-- `REDIRECT_MAX_AGE`. -/
def redirectMaxAge : ℕ := 60

/-- `HeaderValue::to_str`: visible ASCII and tabs. -/
def headerText (value : String) : Option String :=
  if value.toList.all fun c => c = '\t' || (0x20 ≤ c.toNat && c.toNat < 0x7F) then some value
  else none

/-- The entity tag of a document. -/
def etagOf (sha256 : List UInt8 → Sha256) (body : List UInt8) : String :=
  "\"" ++ pushHex "" ((sha256 body).bytes.toList.take 16) ++ "\""

/-- `matches_etag`. -/
def matchesEtag (header etag : String) : Bool :=
  match headerText header with
  | none => false
  | some list => ((list.toList.splitOn ',').map fun c => trim (String.ofList c)).any fun candidate =>
      candidate = "*" || (stripStart "W/" candidate).getD candidate = etag

/-- `set`. -/
def setCacheControl (resp : HttpResponse) (value : String) : HttpResponse :=
  { resp with fields := resp.fields.insert "cache-control" value }

/-- `with_etag`. -/
def withEtag (sha256 : List UInt8 → Sha256) (resp : HttpResponse) (ifNoneMatch : Option String) :
    HttpResponse :=
  let etag := etagOf sha256 resp.body
  let fields := resp.fields.insert "etag" etag
  if ifNoneMatch.any (matchesEtag · etag) then
    ⟨304, (fields.without "content-length").without "content-type", []⟩
  else { resp with fields }

/-- The `max_age` of an answer; anything else keeps its defaults. -/
def maxAge : ReadKind → ℕ → Option ℕ
  | .metadata, 200 => some metadataMaxAge
  | .dist, 200 => some distMaxAge
  | .dist, 302 => some redirectMaxAge
  | _, _ => none

/-- `is_success() || is_redirection()`. -/
def isServed (status : ℕ) : Bool := 200 ≤ status && status < 400

variable {κ : Type}

/-- A request bears no `Authorization`. -/
def IsAnonymous (r : Request κ) : Prop := r.fields.values "authorization" = []

instance (r : Request κ) : Decidable (IsAnonymous r) := decEq _ _

/-- `cache`. -/
def cache (sha256 : List UInt8 → Sha256) (kind : ReadKind) (req : Request κ)
    (next : Request κ → HttpResponse) : HttpResponse :=
  let ifNoneMatch := (req.fields.values "if-none-match").head?
  let answer := next req
  let resp := { answer with fields := answer.fields.append "vary" "Authorization" }
  let scope := if IsAnonymous req then "public" else "private"
  if !isServed resp.status then setCacheControl resp "no-store"
  else
    match maxAge kind resp.status with
    | none => resp
    | some age =>
      let resp := setCacheControl resp (scope ++ ", max-age=" ++ toString age)
      if kind = .metadata && resp.status = 200 then withEtag sha256 resp ifNoneMatch else resp

/-! ## Answers on the wire -/

/-- `IntoResponse` of an error. -/
def AppError.intoResponse : AppError → HttpResponse
  | .notFound => ⟨404, [], []⟩
  | .unauthorized => ⟨401, [("www-authenticate", "Basic realm=\"Bougie Repo\"")], []⟩
  | .forbidden => ⟨403, [], []⟩
  | .badRequest m => ⟨400, [("content-type", "text/plain; charset=utf-8")], m.toUTF8.toList⟩
  | .conflict m => ⟨409, [("content-type", "text/plain; charset=utf-8")], m.toUTF8.toList⟩
  | .payloadTooLarge => ⟨413, [], []⟩
  | .gone => ⟨410, [], []⟩
  | .catalog _ => ⟨500, [], []⟩

/-- An answer of a read route, with its documents rendered. -/
def ReadAnswer.intoResponse (render : ReadAnswer → List UInt8) : ReadAnswer → HttpResponse
  -- `Redirect::permanent` is a 308
  | .moved location => ⟨308, [("location", location)], []⟩
  | .blob _ (.redirect url) => ⟨302, [("location", url)], []⟩
  | .blob _ (.bytes bytes) => ⟨200, [("content-type", "application/zip")], bytes⟩
  | .index listed packages =>
    ⟨200, [("content-type", "text/html; charset=utf-8")], render (.index listed packages)⟩
  | document => ⟨200, [("content-type", "application/json")], render document⟩

/-- `headers.get(AUTHORIZATION)`. -/
def authorizationOf (fields : SharedCache.Fields) : Authorization :=
  match fields.values "authorization" with
  | [] => .absent
  | value :: _ => ((headerText value).map Authorization.text).getD .notText

/-- What a read request asks for. -/
structure ReadTarget where
  mount : Mount
  route : ReadRoute

/-- The server over time. -/
structure Site where
  env : Timestamp → ReadEnv
  store : Timestamp → ObjectStore
  db : Timestamp → Catalog
  sha256 : List UInt8 → Sha256
  /-- Templates and JSON texts. -/
  render : ReadAnswer → List UInt8

namespace Site

variable (site : Site)

/-- What a read is answered at a moment. -/
def answer (t : Timestamp) (target : ReadTarget) (authorization : Authorization) :
    Except AppError ReadAnswer :=
  serve (site.env t) (site.store t) (site.db t) t ⟨target.mount, target.route, authorization⟩

/-- The handler of a read route. -/
def handler (t : Timestamp) (r : Request ReadTarget) : HttpResponse :=
  match site.answer t r.target (authorizationOf r.fields) with
  | .ok answer => answer.intoResponse site.render
  | .error e => e.intoResponse

/-- A read route under its middleware. -/
def origin (t : Timestamp) (r : Request ReadTarget) : HttpResponse :=
  cache site.sha256 r.target.route.kind r (site.handler t)

end Site

/-! ## What the middleware adds -/

/-- A document of a metadata route, or a blob of a dist route. -/
def ReadAnswer.kind? : ReadAnswer → Option ReadKind
  | .moved _ => none
  | .root _ | .package .. | .index .. => some .metadata
  | .blob .. => some .dist

section Kinds

variable {env : ReadEnv} {store : ObjectStore} {db : Catalog} {now : Timestamp}
  {request : ReadRequest} {answer : ReadAnswer}

theorem serveRoute_kind {repo : Uuid} {base : String} {authorization : Authorization}
    {route : ReadRoute}
    (h : serveRoute env store db now repo base authorization route = .ok answer) :
    answer.kind? = some route.kind := by
  cases route with
  | index q =>
    obtain ⟨listed, packages, rfl, -⟩ := serveIndex_cases h
    rfl
  | packagesJson =>
    obtain ⟨⟨access, policy⟩, -, hroot⟩ := Except.ok_of_bind h
    cases hroot
    rfl
  | p2 rest =>
    obtain ⟨⟨access, policy⟩, -, hp2⟩ := Except.ok_of_bind h
    obtain ⟨package, rows, -, rfl, -⟩ := serveP2_cases hp2
    rfl
  | dist rest =>
    obtain ⟨⟨access, policy⟩, -, hdist⟩ := Except.ok_of_bind h
    obtain ⟨name, id, bytes, -, -, -, rfl⟩ := serveDist_opens hdist
    rfl
  | upstream path =>
    obtain ⟨⟨access, policy⟩, -, hpath⟩ := Except.ok_of_bind h
    obtain ⟨name, id, bytes, -, -, -, rfl⟩ := serveUpstreamPath_opens hpath
    rfl

/-- A route answers its own kind, or says where the repository moved. -/
theorem serve_kind (h : serve env store db now request = .ok answer) :
    (∃ location, answer = .moved location) ∨ answer.kind? = some request.route.kind := by
  obtain ⟨loc, -, hmoved | ⟨-, hroute⟩⟩ := serve_cases h
  · exact .inl hmoved
  · exact .inr (serveRoute_kind hroute)

end Kinds

/-! ### Headers -/

/-- The `scope` of an answer. -/
def scope (r : Request κ) : String := if IsAnonymous r then "public" else "private"

/-- An answer before the middleware. -/
structure IsBare (resp : HttpResponse) : Prop where
  cacheControl : resp.fields.values "cache-control" = []
  vary : resp.fields.values "vary" = []
  etag : resp.fields.values "etag" = []

theorem isBare_intoResponse (render : ReadAnswer → List UInt8) (answer : ReadAnswer) :
    IsBare (answer.intoResponse render) := by
  rcases answer with _ | _ | _ | ⟨_, _ | _⟩ | _ <;> exact ⟨rfl, rfl, rfl⟩

theorem AppError.isBare_intoResponse (e : AppError) : IsBare e.intoResponse := by
  cases e <;> exact ⟨rfl, rfl, rfl⟩

theorem isBare_handler (site : Site) (t : Timestamp) (r : Request ReadTarget) :
    IsBare (site.handler t r) := by
  unfold Site.handler
  split
  · exact isBare_intoResponse site.render _
  · exact AppError.isBare_intoResponse _

/-- What an answer that is no error tells a cache: how long it lives, whose it is, and what it
depends on. -/
structure Tells (r : Request κ) (age : Option ℕ) (resp : HttpResponse) : Prop where
  cacheControl : resp.fields.values "cache-control"
    = (age.map fun n => scope r ++ ", max-age=" ++ toString n).toList
  vary : resp.fields.values "vary" = ["Authorization"]

/-- What the middleware makes of an answer. -/
inductive Cached (sha256 : List UInt8 → Sha256) (kind : ReadKind) (r : Request κ)
    (answer : HttpResponse) : HttpResponse → Prop
  | refused {resp : HttpResponse} (hserved : isServed answer.status = false)
      (hstatus : resp.status = answer.status) (hcontrol : resp.fields.values "cache-control" = ["no-store"]) :
      Cached sha256 kind r answer resp
  | served {resp : HttpResponse} (hserved : isServed answer.status)
      (hdist : ¬ (kind = .metadata ∧ answer.status = 200)) (hstatus : resp.status = answer.status)
      (hbody : resp.body = answer.body)
      (hlocation : resp.fields.values "location" = answer.fields.values "location")
      (hetag : resp.etag = none) (htells : Tells r (maxAge kind answer.status) resp) :
      Cached sha256 kind r answer resp
  | document {resp : HttpResponse} (hkind : kind = .metadata) (hanswer : answer.status = 200)
      (hstatus : resp.status = 200) (hbody : resp.body = answer.body)
      (hetag : resp.etag = some (etagOf sha256 answer.body))
      (hchanged : (r.fields.values "if-none-match").head?.any
        (matchesEtag · (etagOf sha256 answer.body)) = false)
      (htells : Tells r (some metadataMaxAge) resp) : Cached sha256 kind r answer resp
  | notModified {resp : HttpResponse} (hkind : kind = .metadata) (hanswer : answer.status = 200)
      (hstatus : resp.status = 304) (hbody : resp.body = [])
      (hetag : resp.etag = some (etagOf sha256 answer.body))
      (hsame : (r.fields.values "if-none-match").head?.any
        (matchesEtag · (etagOf sha256 answer.body)))
      (htells : Tells r (some metadataMaxAge) resp) : Cached sha256 kind r answer resp

/-- The fields of an answer with both headers of the middleware. -/
def stamped (fields : SharedCache.Fields) (control : String) : SharedCache.Fields :=
  (fields.append "vary" "Authorization").insert "cache-control" control

section Stamped

variable {fields : SharedCache.Fields} {control name : String}

@[simp] theorem values_stamped_control :
    (stamped fields control).values "cache-control" = [control] := Fields.values_insert_self

theorem values_stamped_vary (h : fields.values "vary" = []) :
    (stamped fields control).values "vary" = ["Authorization"] := by
  unfold stamped
  rw [Fields.values_insert_of_ne (by decide), Fields.values_append_self, h, List.nil_append]

theorem values_stamped_of_ne (hvary : "vary" ≠ name) (hcontrol : "cache-control" ≠ name) :
    (stamped fields control).values name = fields.values name := by
  unfold stamped
  rw [Fields.values_insert_of_ne hcontrol, Fields.values_append_of_ne hvary]

end Stamped

section Middleware

variable {sha256 : List UInt8 → Sha256} {kind : ReadKind} {r : Request κ}
  {next : Request κ → HttpResponse}

/-- What is no success is passed on as it is, not to be stored. -/
theorem cached_of_not_served (h : isServed (next r).status = false) :
    Cached sha256 kind r (next r) (cache sha256 kind r next) := by
  have hcache : cache sha256 kind r next
      = ⟨(next r).status, stamped (next r).fields "no-store", (next r).body⟩ := by
    unfold cache setCacheControl stamped
    simp [h]
  rw [hcache]
  exact .refused h rfl values_stamped_control

/-- A success without an age says nothing of storing. -/
theorem cached_of_no_age (hbare : IsBare (next r)) (h : isServed (next r).status)
    (hage : maxAge kind (next r).status = none) :
    Cached sha256 kind r (next r) (cache sha256 kind r next) := by
  have hcache : cache sha256 kind r next
      = ⟨(next r).status, (next r).fields.append "vary" "Authorization", (next r).body⟩ := by
    unfold cache
    simp [h, hage]
  rw [hcache]
  refine .served h ?_ rfl rfl (Fields.values_append_of_ne (by decide)) ?_ ⟨?_, ?_⟩
  · rintro ⟨rfl, hstatus⟩
    rw [hstatus] at hage
    cases hage
  · unfold Response.etag
    rw [Fields.values_append_of_ne (by decide), hbare.etag]
    rfl
  · rw [Fields.values_append_of_ne (by decide), hbare.cacheControl, hage]
    rfl
  · rw [Fields.values_append_self, hbare.vary]
    rfl

/-- A success with an age is to be kept for it. -/
theorem cached_of_age (hbare : IsBare (next r)) {age : ℕ} (h : isServed (next r).status)
    (hage : maxAge kind (next r).status = some age)
    (hdist : ¬ (kind = .metadata ∧ (next r).status = 200)) :
    Cached sha256 kind r (next r) (cache sha256 kind r next) := by
  have hcache : cache sha256 kind r next = ⟨(next r).status,
      stamped (next r).fields (scope r ++ ", max-age=" ++ toString age), (next r).body⟩ := by
    unfold cache setCacheControl scope stamped
    simp [h, hage, hdist]
  rw [hcache]
  refine .served h hdist rfl rfl (values_stamped_of_ne (by decide) (by decide)) ?_ ⟨?_, ?_⟩
  · unfold Response.etag
    rw [values_stamped_of_ne (by decide) (by decide), hbare.etag]
    rfl
  · rw [values_stamped_control, hage]
    rfl
  · exact values_stamped_vary hbare.vary

theorem cached_of_document (hbare : IsBare (next r)) (hkind : kind = .metadata)
    (hstatus : (next r).status = 200) :
    Cached sha256 kind r (next r) (cache sha256 kind r next) := by
  have hserved : isServed 200 = true := rfl
  have hage : maxAge .metadata 200 = some metadataMaxAge := rfl
  have hcache : cache sha256 kind r next = withEtag sha256 ⟨200,
      stamped (next r).fields (scope r ++ ", max-age=" ++ toString metadataMaxAge), (next r).body⟩
      (r.fields.values "if-none-match").head? := by
    unfold cache setCacheControl scope stamped
    simp [hkind, hstatus, hserved, hage]
  rw [hcache]
  unfold withEtag
  dsimp only
  split_ifs with hsame
  · -- the 304 keeps both headers, and loses what describes the body
    refine .notModified hkind hstatus rfl rfl ?_ hsame ⟨?_, ?_⟩
    · unfold Response.etag
      rw [Fields.values_without_of_ne (by decide), Fields.values_without_of_ne (by decide),
        Fields.values_insert_self]
      rfl
    · rw [Fields.values_without_of_ne (by decide), Fields.values_without_of_ne (by decide),
        Fields.values_insert_of_ne (by decide), values_stamped_control]
      rfl
    · rw [Fields.values_without_of_ne (by decide), Fields.values_without_of_ne (by decide),
        Fields.values_insert_of_ne (by decide), values_stamped_vary hbare.vary]
  · refine .document hkind hstatus rfl rfl ?_ (Bool.eq_false_iff.2 hsame) ⟨?_, ?_⟩
    · unfold Response.etag
      rw [Fields.values_insert_self]
      rfl
    · rw [Fields.values_insert_of_ne (by decide), values_stamped_control]
      rfl
    · rw [Fields.values_insert_of_ne (by decide), values_stamped_vary hbare.vary]

/-- **What the middleware does**, to any answer that says nothing to caches itself. -/
theorem cached_cache (hbare : IsBare (next r)) :
    Cached sha256 kind r (next r) (cache sha256 kind r next) := by
  cases hserved : isServed (next r).status with
  | false => exact cached_of_not_served hserved
  | true =>
    by_cases hdocument : kind = .metadata ∧ (next r).status = 200
    · exact cached_of_document hbare hdocument.1 hdocument.2
    · cases hage : maxAge kind (next r).status with
      | none => exact cached_of_no_age hbare hserved hage
      | some age => exact cached_of_age hbare hserved hage hdocument

end Middleware

end Sconce
