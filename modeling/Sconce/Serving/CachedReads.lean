/-
# Reads through a shared cache

A content delivery network in front of the read routes hands anonymous answers out again and
again, while credentials, visibilities and holds change behind it.  What it may hand out is
what the site itself would have shown an anonymous client, no longer ago than the answer's
`max-age` (`cached_reads`); nothing a credential unlocked is ever in it.
-/
import Sconce.Mirror.Specs
import Sconce.Serving.Anonymous
import Sconce.Serving.Caching

namespace Sconce

open SharedCache

/-! ## What a cache is told -/

section Tells

variable {κ : Type} {r : Request κ} {age : Option ℕ} {resp : HttpResponse}

/-- The directives are the members of the header's values. -/
theorem directives_of_values {values : List String}
    (h : resp.fields.values "cache-control" = values) : resp.directives = values.flatMap members := by
  unfold Response.directives
  rw [h]

/-- A told response varies by the credential. -/
theorem Tells.vary_eq (h : Tells r age resp) : resp.vary = ["authorization".toList] := by
  unfold Response.vary
  rw [h.vary]
  rfl

/-- The ages the middleware gives. -/
def IsAge (age : Option ℕ) : Prop := age = none ∨ age = some 60 ∨ age = some 86400

theorem isAge_maxAge (kind : ReadKind) (status : ℕ) : IsAge (maxAge kind status) := by
  unfold maxAge IsAge
  split
  · exact .inr (.inl rfl)
  · exact .inr (.inr rfl)
  · exact .inr (.inl rfl)
  · exact .inl rfl

/-- The directives of an answer that is no error: none, or whose it is and how long it lives. -/
def directivesFor (scope : String) : Option ℕ → List (List Char)
  | none => []
  | some n => [scope.toList, "max-age=".toList ++ (toString n).toList]

theorem Tells.directives_eq (h : Tells r age resp) (hage : IsAge age) :
    resp.directives = directivesFor (scope r) age := by
  rw [directives_of_values h.cacheControl]
  clear h
  unfold scope
  rcases hage with rfl | rfl | rfl
  · rfl
  all_goals
    split_ifs
    · decide
    · decide

/-- An anonymous answer lives as long as it says. -/
theorem Tells.lifetime_eq (h : Tells r age resp) (hage : IsAge age) (hr : IsAnonymous r) :
    resp.lifetime = age := by
  have hscope : scope r = "public" := if_pos hr
  unfold Response.lifetime Response.argument
  rw [h.directives_eq hage, hscope]
  clear h
  rcases hage with rfl | rfl | rfl
  · rfl
  · decide
  · decide

/-- A confirmation tells of the answer it confirms what it tells of itself. -/
theorem Tells.freshened (resp : HttpResponse) {n : ℕ} {confirmation : HttpResponse}
    (h : Tells r (some n) confirmation) :
    Tells r (some n) (resp.freshened confirmation) where
  cacheControl := by
    unfold Response.freshened
    rw [Fields.values_update_of_ne_nil (by rw [h.cacheControl]; exact List.cons_ne_nil _ _),
      h.cacheControl]
  vary := by
    unfold Response.freshened
    rw [Fields.values_update_of_ne_nil (by rw [h.vary]; exact List.cons_ne_nil _ _), h.vary]

/-- No cache stores what a credential was answered. -/
theorem Tells.anonymous_of_mayStore (h : Tells r age resp) (hage : IsAge age)
    (hmay : MayStore r resp) : IsAnonymous r := by
  by_contra hr
  have hdirectives := h.directives_eq hage
  rw [show scope r = "private" from if_neg hr] at hdirectives
  cases age with
  | none =>
    -- what keeps its defaults does not allow it to be stored either
    obtain hpublic | hmust | hshared := hmay.credential hr
    · unfold Response.Has at hpublic
      rw [hdirectives] at hpublic
      exact List.not_mem_nil hpublic
    · unfold Response.Has at hmust
      rw [hdirectives] at hmust
      exact List.not_mem_nil hmust
    · unfold Response.argument at hshared
      rw [hdirectives] at hshared
      exact Bool.false_ne_true hshared
  | some n =>
    apply hmay.notPrivate
    unfold Response.Has
    rw [hdirectives]
    exact List.mem_cons_self

theorem not_mayStore_of_noStore (h : resp.fields.values "cache-control" = ["no-store"]) :
    ¬ MayStore r resp := by
  intro hmay
  apply hmay.noStore
  unfold Response.Has
  rw [directives_of_values h]
  decide

end Tells

/-! ## What the site stands by -/

namespace Site

variable (site : Site)

/-- At the moment the site itself shows an anonymous client the answer; of a document, one with
its tag, and it has shown the document itself. -/
def Vouches (t : Timestamp) (target : ReadTarget) (resp : HttpResponse) : Prop :=
  match site.answer t target .absent with
  | .error _ => False
  | .ok (.moved location) => resp.status = 308 ∧ resp.fields.values "location" = [location]
  | .ok (.blob _ (.redirect url)) => resp.status = 302 ∧ resp.fields.values "location" = [url]
  | .ok (.blob _ (.bytes bytes)) => resp.status = 200 ∧ resp.body = bytes
  | .ok document => resp.status = 200 ∧
    etagOf site.sha256 resp.body = etagOf site.sha256 (site.render document) ∧
    ∃ earlier ≤ t, ∃ shown, site.answer earlier target .absent = .ok shown ∧
      resp.body = site.render shown

/-- A stored answer: to no credential, varying on it, living as long as the middleware says, with
the tag of its body if any. -/
structure Good (t : Timestamp) (r : Request ReadTarget) (resp : HttpResponse) : Prop where
  anonymous : IsAnonymous r
  vary : resp.vary = ["authorization".toList]
  lifetime : resp.lifetime = maxAge r.target.route.kind resp.status
  etag : ∀ tag, resp.etag = some tag → r.target.route.kind = .metadata ∧ resp.status = 200 ∧
    tag = etagOf site.sha256 resp.body
  vouches : site.Vouches t r.target resp

variable {site} {t : Timestamp} {target : ReadTarget} {r : Request ReadTarget} {resp : HttpResponse}

/-- An anonymous request has no credential. -/
theorem authorizationOf_of_isAnonymous (h : IsAnonymous r) : authorizationOf r.fields = .absent := by
  unfold authorizationOf
  rw [h]

/-- What an anonymous request is answered is rendered. -/
theorem handler_of_answer (h : IsAnonymous r) {answer : ReadAnswer}
    (hanswer : site.answer t r.target .absent = .ok answer) :
    site.handler t r = answer.intoResponse site.render := by
  unfold handler
  rw [authorizationOf_of_isAnonymous h, hanswer]

/-- An answer that is no error is one of the site's answers. -/
theorem answer_of_isServed (h : IsAnonymous r) (hserved : isServed (site.handler t r).status) :
    ∃ answer, site.answer t r.target .absent = .ok answer ∧
      site.handler t r = answer.intoResponse site.render := by
  cases hanswer : site.answer t r.target .absent with
  | ok answer => exact ⟨answer, rfl, handler_of_answer h hanswer⟩
  | error e =>
    unfold handler at hserved
    rw [authorizationOf_of_isAnonymous h, hanswer] at hserved
    cases e <;> exact absurd hserved Bool.false_ne_true

/-- A metadata route that answers 200 answers with a document. -/
theorem document_of_status (h : IsAnonymous r) (hkind : r.target.route.kind = .metadata)
    (hstatus : (site.handler t r).status = 200) :
    ∃ document, site.answer t r.target .absent = .ok document ∧
      (site.handler t r).body = site.render document ∧
      (∀ resp, site.Vouches t r.target resp ↔ resp.status = 200 ∧
        etagOf site.sha256 resp.body = etagOf site.sha256 (site.render document) ∧
        ∃ earlier ≤ t, ∃ shown, site.answer earlier r.target .absent = .ok shown ∧
          resp.body = site.render shown) := by
  obtain ⟨answer, hanswer, hhandler⟩ := answer_of_isServed h (by rw [hstatus]; rfl)
  have hdocument : answer.kind? = some .metadata := by
    obtain ⟨location, rfl⟩ | hsame := serve_kind hanswer
    · rw [hhandler] at hstatus
      cases hstatus
    · exact hsame.trans (congrArg some hkind)
  refine ⟨answer, hanswer, ?_, fun resp => ?_⟩
  · rw [hhandler]
    cases answer <;> first | rfl | cases hdocument
  · unfold Vouches
    rw [hanswer]
    cases answer <;> first | exact Iff.rfl | cases hdocument

/-- What an answer that is no document becomes is vouched for. -/
theorem vouches_of_served (h : IsAnonymous r) (hserved : isServed (site.handler t r).status)
    (hdist : ¬ (r.target.route.kind = .metadata ∧ (site.handler t r).status = 200))
    (hstatus : resp.status = (site.handler t r).status)
    (hbody : resp.body = (site.handler t r).body)
    (hlocation : resp.fields.values "location" = (site.handler t r).fields.values "location") :
    site.Vouches t r.target resp := by
  obtain ⟨answer, hanswer, hhandler⟩ := answer_of_isServed h hserved
  rw [hhandler] at hdist hstatus hbody hlocation
  have hkind := serve_kind hanswer
  unfold Vouches
  rw [hanswer]
  have hnone : answer.kind? ≠ some .metadata := by
    intro hmetadata
    obtain ⟨location, rfl⟩ | hsame := hkind
    · cases hmetadata
    · refine hdist ⟨(Option.some.inj (hmetadata.symm.trans hsame)).symm, ?_⟩
      cases answer <;> first | rfl | cases hmetadata
  rcases answer with location | _ | _ | ⟨id, bytes | url⟩ | _
  · exact ⟨hstatus, hlocation⟩
  · exact absurd rfl hnone
  · exact absurd rfl hnone
  · exact ⟨hstatus, hbody⟩
  · exact ⟨hstatus, hlocation⟩
  · exact absurd rfl hnone

/-- A document that is vouched for has been shown. -/
theorem Vouches.shown (h : site.Vouches t target resp) (hkind : target.route.kind = .metadata)
    (hstatus : resp.status = 200) : ∃ earlier ≤ t, ∃ shown,
      site.answer earlier target .absent = .ok shown ∧ resp.body = site.render shown := by
  unfold Vouches at h
  cases hanswer : site.answer t target .absent with
  | error e =>
    rw [hanswer] at h
    exact h.elim
  | ok answer =>
    rw [hanswer] at h
    have hdocument := serve_kind hanswer
    rcases answer with location | _ | _ | ⟨id, bytes | url⟩ | _
    · exact absurd (h.1.symm.trans hstatus) (by decide)
    · exact h.2.2
    · exact h.2.2
    · obtain ⟨location, hmoved⟩ | hsame := hdocument
      · cases hmoved
      · cases hsame.trans (congrArg some hkind)
    · obtain ⟨location, hmoved⟩ | hsame := hdocument
      · cases hmoved
      · cases hsame.trans (congrArg some hkind)
    · exact h.2.2

/-- What may be stored is good. -/
theorem good_of_mayStore (h : MayStore r (site.origin t r)) : site.Good t r (site.origin t r) := by
  unfold origin at h ⊢
  have hcached : Cached site.sha256 r.target.route.kind r (site.handler t r) _ :=
    cached_cache (isBare_handler site t r)
  cases hcached with
  | refused _ _ hcontrol => exact absurd h (not_mayStore_of_noStore hcontrol)
  | served hserved hdist hstatus hbody hlocation hetag htells =>
    have hage := isAge_maxAge r.target.route.kind (site.handler t r).status
    have hr := htells.anonymous_of_mayStore hage h
    refine ⟨hr, htells.vary_eq, ?_, fun tag htag => ?_, ?_⟩
    · rw [htells.lifetime_eq hage hr, hstatus]
    · rw [hetag] at htag
      cases htag
    · exact vouches_of_served hr hserved hdist hstatus hbody hlocation
  | document hkind hanswer hstatus hbody hetag _ htells =>
    have hage : IsAge (some metadataMaxAge) := .inr (.inl rfl)
    have hr := htells.anonymous_of_mayStore hage h
    obtain ⟨document, hshown, hrendered, hvouches⟩ := document_of_status hr hkind hanswer
    refine ⟨hr, htells.vary_eq, ?_, fun tag htag => ?_, ?_⟩
    · rw [htells.lifetime_eq hage hr, hstatus, hkind]
      rfl
    · rw [hetag] at htag
      rw [hbody]
      exact ⟨hkind, hstatus, (Option.some.inj htag).symm⟩
    · rw [hvouches, hbody, hrendered]
      exact ⟨hstatus, rfl, t, le_rfl, document, hshown, rfl⟩
  | notModified _ _ hstatus => exact absurd hstatus h.whole

/-- A 304 with the tag of a good answer makes it good again. -/
theorem Good.confirmed {t' : Timestamp} {r' : Request ReadTarget} (h : site.Good t r resp)
    (htime : t ≤ t') (hselects : Selects resp r r') (hstatus : (site.origin t' r').status = 304)
    (hsome : (site.origin t' r').etag.isSome) (hetag : (site.origin t' r').etag = resp.etag) :
    site.Good t' r (resp.freshened (site.origin t' r')) := by
  -- the request that was confirmed is anonymous as well
  have hr' : IsAnonymous r' := by
    obtain ⟨-, hsame⟩ := hselects.varies "authorization".toList (by rw [h.vary]; exact List.mem_cons_self)
    exact hsame.trans h.anonymous
  unfold origin at hstatus hsome hetag ⊢
  have hcached : Cached site.sha256 r'.target.route.kind r' (site.handler t' r') _ :=
    cached_cache (isBare_handler site t' r')
  cases hcached with
  | refused hserved hsame _ =>
    rw [← hsame, hstatus] at hserved
    exact absurd hserved (by decide)
  | served _ _ _ _ _ hnone _ =>
    rw [hnone] at hsome
    exact absurd hsome Bool.false_ne_true
  | document _ _ h200 =>
    rw [hstatus] at h200
    exact absurd h200 (by decide)
  | notModified hkind hanswer _ _ htag _ htells =>
    have hage : IsAge (some metadataMaxAge) := .inr (.inl rfl)
    have hfresh := htells.freshened resp
    obtain ⟨-, h200, htagged⟩ := h.etag _ (hetag.symm.trans htag)
    obtain ⟨document, -, hrendered, hvouches⟩ := document_of_status hr' hkind hanswer
    rw [hselects.target] at hkind hvouches
    refine ⟨h.anonymous, hfresh.vary_eq, ?_, fun tag htag' => ?_, ?_⟩
    · rw [hfresh.lifetime_eq hage hr', hkind]
      exact congrArg (maxAge .metadata) h200.symm
    · -- the tag is that of the confirmation, which is the one it had
      have hupdated : (resp.freshened (cache site.sha256 r'.target.route.kind r'
          (site.handler t'))).etag
          = (cache site.sha256 r'.target.route.kind r' (site.handler t')).etag := by
        unfold Response.freshened
        unfold Response.etag at hsome ⊢
        rw [Fields.values_update_of_ne_nil]
        intro hnil
        rw [hnil] at hsome
        exact Bool.false_ne_true hsome
      rw [hupdated, htag] at htag'
      exact ⟨hkind, h200, (Option.some.inj htag').symm.trans htagged⟩
    · rw [hvouches]
      refine ⟨h200, htagged.symm.trans (congrArg _ hrendered), ?_⟩
      obtain ⟨earlier, hearlier, hshown⟩ := h.vouches.shown hkind h200
      exact ⟨earlier, hearlier.trans htime, hshown⟩

theorem sound (site : Site) : Sound site.origin site.Good where
  stored _ _ h := good_of_mayStore h
  confirmed h htime hselects hstatus hsome hetag := h.confirmed htime hselects hstatus hsome hetag

end Site

/-- A second of the clock. -/
def second : ℤ := toTimestamp 1

/-- **Reads through a shared cache.**  Whatever the site does over time and whatever the cache
stores, confirms and drops, an answer it hands out goes to a request without a credential, and is
one the site showed such a request at a moment no longer ago than the kind of read allows. -/
theorem cached_reads (site : Site) {s : State ReadTarget (List UInt8)}
    (h : Reachable site.origin second s) {a : Exchange ReadTarget (List UInt8)} (ha : a ∈ s.given) :
    IsAnonymous a.request ∧ ∃ t ≤ a.time,
      (∀ n, maxAge a.request.target.route.kind a.response.status = some n →
        a.time < t + toTimestamp n) ∧
      site.Vouches t a.request.target a.response := by
  obtain ⟨e, hgiven⟩ := h.given_good site.sound ha
  obtain ⟨hanonymous, hvary, hlifetime, -, hvouches⟩ := hgiven.good
  have htarget := hgiven.selects.target
  have hsame := (hgiven.selects.varies "authorization".toList
    (by rw [hvary]; exact List.mem_cons_self)).2
  rw [hgiven.response, htarget]
  refine ⟨hsame.trans hanonymous, e.date, hgiven.date, fun n hn => ?_, hvouches⟩
  have hfresh := hgiven.fresh n (hlifetime.trans hn)
  unfold second toTimestamp at hfresh
  unfold toTimestamp
  omega

namespace Storefront

/-- The storefront, which its organization takes down at once. -/
def takenDown : Site where
  env _ := env
  store _ := blobs
  db t := if t ≤ 0 then opened else Catalog.empty
  sha256 _ := digest 0
  render _ := [0x7b, 0x7d]

/-- The root document, asked for without a credential. -/
def rootRequest : Request ReadTarget := ⟨⟨.path "acme" "main", .packagesJson⟩, []⟩

theorem origin_rootRequest : takenDown.origin 0 rootRequest
    = ⟨200, [("content-type", "application/json"), ("vary", "Authorization"),
        ("cache-control", "public, max-age=60"),
        ("etag", "\"00000000000000000000000000000000\"")], [0x7b, 0x7d]⟩ := by
  have hanswer : takenDown.answer 0 rootRequest.target .absent
      = .ok (.root ⟨"https://host/acme/main", ["acme/core"]⟩) := serve_openRoot
  have hhandler := Site.handler_of_answer (r := rootRequest) rfl hanswer
  unfold Site.origin cache
  rw [hhandler]
  rfl

/-- A cache that has handed the root document out half a minute later. -/
theorem reachable_takenDown : ∃ s : State ReadTarget (List UInt8),
    Reachable takenDown.origin second s ∧ ⟨toTimestamp 30, rootRequest, takenDown.origin 0 rootRequest⟩ ∈ s.given := by
  have hvary : (takenDown.origin 0 rootRequest).vary = ["authorization".toList] := by
    rw [origin_rootRequest]
    decide
  have hlifetime : (takenDown.origin 0 rootRequest).lifetime = some 60 := by
    rw [origin_rootRequest]
    decide
  have hmay : MayStore rootRequest (takenDown.origin 0 rootRequest) := by
    rw [origin_rootRequest]
    refine ⟨by decide, ?_, ?_, fun h => absurd rfl h⟩
    all_goals
      unfold Response.Has
      decide
  have hselects : Selects (takenDown.origin 0 rootRequest) rootRequest rootRequest := by
    refine ⟨rfl, fun name hname => ⟨?_, rfl⟩⟩
    rw [hvary, List.mem_singleton] at hname
    rw [hname]
    decide
  have hfresh : SharedCache.Entry.Fresh second
      ⟨0, rootRequest, takenDown.origin 0 rootRequest⟩ (toTimestamp 30) := by
    intro n hn
    cases hlifetime.symm.trans hn
    decide
  have hforward : Step takenDown.origin second (empty 0) _ := Step.forward rootRequest
  have hforwarded := Relation.ReflTransGen.refl.tail hforward
  have hstored := hforwarded.tail (.store _ (Set.mem_insert _ _) hmay)
  have hlater := hstored.tail (.tick (toTimestamp 30) (by decide))
  have hgiven := hlater.tail (.give _ rootRequest (Set.mem_insert _ _) hselects hfresh)
  exact ⟨_, ⟨0, hgiven⟩, List.mem_cons_self⟩

/-- The cache answers half a minute later, when the site is taken down. -/
theorem cached_reads_takenDown : ∃ s : State ReadTarget (List UInt8),
    ⟨toTimestamp 30, rootRequest, takenDown.origin 0 rootRequest⟩ ∈ s.given ∧
      IsAnonymous rootRequest ∧ ∃ t ≤ toTimestamp 30,
        (∀ n, maxAge rootRequest.target.route.kind (takenDown.origin 0 rootRequest).status = some n →
          toTimestamp 30 < t + toTimestamp n) ∧
        takenDown.Vouches t rootRequest.target (takenDown.origin 0 rootRequest) := by
  obtain ⟨s, hreachable, hgiven⟩ := reachable_takenDown
  exact ⟨s, hgiven, cached_reads takenDown hreachable hgiven⟩

end Storefront

/-! ## Revalidation -/

/-- A tag in an `If-None-Match`: of a document seen before, perhaps marked weak, with blanks
around it. -/
structure HeldTag where
  weak : Bool
  body : List UInt8
  before : ℕ
  after : ℕ

namespace HeldTag

variable (sha256 : List UInt8 → Sha256)

/-- What the tag is without blanks. -/
def core (tag : HeldTag) : List Char :=
  (if tag.weak then ['W', '/'] else []) ++ (etagOf sha256 tag.body).toList

def text (tag : HeldTag) : List Char :=
  List.replicate tag.before ' ' ++ tag.core sha256 ++ List.replicate tag.after ' '

end HeldTag

/-- The value that lists the tags. -/
def ifNoneMatchOf (sha256 : List UInt8 → Sha256) (tags : List HeldTag) : String :=
  String.ofList ([','].intercalate (tags.map (HeldTag.text sha256)))

section Revalidation

variable {sha256 : List UInt8 → Sha256} {tags : List HeldTag}

/-- A tag is hexadecimal digits between quotes. -/
theorem toList_etagOf (sha256 : List UInt8 → Sha256) (body : List UInt8) : ∃ digits : List Char,
    (etagOf sha256 body).toList = '"' :: digits ++ ['"'] ∧ ∀ c ∈ digits, ∃ n < 16, c = hexDigit n := by
  refine ⟨((sha256 body).bytes.toList.take 16).flatMap fun b =>
    [hexDigit (b.toNat / 16), hexDigit (b.toNat % 16)], ?_, fun c hc => ?_⟩
  · unfold etagOf
    rw [String.toList_append, String.toList_append, toList_pushHex]
    rfl
  · obtain ⟨b, -, hb⟩ := List.mem_flatMap.1 hc
    have hlt := b.toNat_lt
    rcases List.mem_cons.1 hb with rfl | hb
    · exact ⟨_, by omega, rfl⟩
    · rw [List.mem_singleton.1 hb]
      exact ⟨_, by omega, rfl⟩

/-- A character of a tag: visible, and none that ends or surrounds one. -/
def IsTagChar (c : Char) : Prop :=
  c ≠ ',' ∧ isWhitespace c = false ∧ 0x20 ≤ c.toNat ∧ c.toNat < 0x7F

instance (c : Char) : Decidable (IsTagChar c) := inferInstanceAs (Decidable (_ ∧ _ ∧ _ ∧ _))

theorem isTagChar_hexDigit {n : ℕ} (h : n < 16) : IsTagChar (hexDigit n) := by
  have hall : ∀ k < 16, IsTagChar (hexDigit k) := by decide
  exact hall n h

theorem isTagChar_core (tag : HeldTag) {c : Char} (hc : c ∈ tag.core sha256) : IsTagChar c := by
  unfold HeldTag.core at hc
  obtain ⟨digits, hetag, hdigits⟩ := toList_etagOf sha256 tag.body
  rw [hetag] at hc
  rcases List.mem_append.1 hc with hc | hc
  · split_ifs at hc
    · rcases List.mem_cons.1 hc with rfl | hc
      · decide
      · rw [List.mem_singleton.1 hc]
        decide
    · cases hc
  · rcases List.mem_append.1 hc with hc | hc
    · rcases List.mem_cons.1 hc with rfl | hc
      · decide
      · obtain ⟨n, hn, rfl⟩ := hdigits c hc
        exact isTagChar_hexDigit hn
    · rw [List.mem_singleton.1 hc]
      decide

/-- Around a held tag there are spaces alone. -/
theorem mem_text (tag : HeldTag) {c : Char} (hc : c ∈ tag.text sha256) : c = ' ' ∨ IsTagChar c := by
  unfold HeldTag.text at hc
  rcases List.mem_append.1 hc with hc | hc
  · rcases List.mem_append.1 hc with hc | hc
    · exact .inl (List.eq_of_mem_replicate hc)
    · exact .inr (isTagChar_core tag hc)
  · exact .inl (List.eq_of_mem_replicate hc)

/-- What stands in a joined list is of an element, or the separator. -/
theorem mem_of_mem_intercalate {α : Type} {sep a : α} {ls : List (List α)}
    (h : a ∈ [sep].intercalate ls) : a = sep ∨ ∃ l ∈ ls, a ∈ l := by
  induction ls with
  | nil => cases h
  | cons l ls ih =>
    by_cases hls : ls = []
    · rw [hls, List.intercalate_singleton] at h
      exact .inr ⟨l, List.mem_cons_self, h⟩
    · rw [List.intercalate_cons_of_ne_nil hls, List.append_assoc, List.mem_append,
        List.singleton_append, List.mem_cons] at h
      obtain h | rfl | h := h
      · exact .inr ⟨l, List.mem_cons_self, h⟩
      · exact .inl rfl
      · obtain hsep | ⟨l', hl', ha⟩ := ih h
        · exact .inl hsep
        · exact .inr ⟨l', List.mem_cons_of_mem l hl', ha⟩

/-- The list is text, -/
theorem headerText_ifNoneMatchOf : headerText (ifNoneMatchOf sha256 tags)
    = some (ifNoneMatchOf sha256 tags) := by
  unfold headerText
  apply if_pos
  rw [List.all_eq_true]
  intro c hc
  unfold ifNoneMatchOf at hc
  rw [String.toList_ofList] at hc
  obtain hc | ⟨l, hl, hc⟩ := mem_of_mem_intercalate hc
  · rw [hc]
    decide
  · obtain ⟨tag, -, rfl⟩ := List.mem_map.1 hl
    obtain rfl | hchar := mem_text tag hc
    · decide
    · simp [hchar.2.2.1, hchar.2.2.2]

/-- and is split into its tags again. -/
theorem splitOn_ifNoneMatchOf (h : tags ≠ []) :
    (ifNoneMatchOf sha256 tags).toList.splitOn ',' = tags.map (HeldTag.text sha256) := by
  unfold ifNoneMatchOf
  rw [String.toList_ofList, List.splitOn_intercalate]
  · intro l hl hcomma
    obtain ⟨tag, -, rfl⟩ := List.mem_map.1 hl
    obtain hspace | hchar := mem_text tag hcomma
    · exact absurd hspace (by decide)
    · exact hchar.1 rfl
  · simpa using h

/-- A held tag is read without its spaces. -/
theorem trim_text (tag : HeldTag) :
    trim (String.ofList (tag.text sha256)) = String.ofList (tag.core sha256) := by
  have hblank : ∀ n, ∀ c ∈ List.replicate n ' ', isWhitespace c = true := by
    intro n c hc
    rw [List.eq_of_mem_replicate hc]
    rfl
  have htrimmed : (tag.core sha256).Trimmed isWhitespace :=
    ⟨fun c hc => (isTagChar_core tag (List.mem_of_mem_head? hc)).2.1,
      fun c hc => (isTagChar_core tag (List.mem_of_mem_getLast? hc)).2.1⟩
  rw [← String.toList_inj, toList_trim, String.toList_ofList, String.toList_ofList]
  unfold HeldTag.text
  rw [List.trimEnds_padded (hblank _) (hblank _), htrimmed.trimEnds_eq]

/-- A tag names what it is the tag of, weak or not. -/
theorem strip_core (tag : HeldTag) :
    (stripStart "W/" (String.ofList (tag.core sha256))).getD (String.ofList (tag.core sha256))
      = etagOf sha256 tag.body := by
  unfold HeldTag.core
  cases tag.weak with
  | true =>
    have happend : String.ofList ((if true then ['W', '/'] else [])
        ++ (etagOf sha256 tag.body).toList) = "W/" ++ etagOf sha256 tag.body := by
      rw [← String.toList_inj, String.toList_ofList, String.toList_append]
      rfl
    rw [happend, stripStart_append]
    rfl
  | false =>
    have hself : String.ofList ((if false then ['W', '/'] else [])
        ++ (etagOf sha256 tag.body).toList) = etagOf sha256 tag.body := String.ofList_toList
    rw [hself]
    obtain ⟨digits, hetag, -⟩ := toList_etagOf sha256 tag.body
    unfold stripStart
    rw [if_neg]
    · rfl
    · rw [hetag]
      rintro ⟨rest, hrest⟩
      cases hrest

theorem core_ne_star (tag : HeldTag) : String.ofList (tag.core sha256) ≠ "*" := by
  intro h
  obtain ⟨digits, hetag, -⟩ := toList_etagOf sha256 tag.body
  have hlist := congrArg String.toList h
  rw [String.toList_ofList] at hlist
  unfold HeldTag.core at hlist
  rw [hetag] at hlist
  cases hweak : tag.weak <;> rw [hweak] at hlist <;> cases hlist

/-- A list of tags names a document iff one of them is its tag. -/
theorem matchesEtag_ifNoneMatchOf (body : List UInt8) :
    matchesEtag (ifNoneMatchOf sha256 tags) (etagOf sha256 body) = true ↔
      ∃ tag ∈ tags, etagOf sha256 tag.body = etagOf sha256 body := by
  unfold matchesEtag
  rw [headerText_ifNoneMatchOf]
  dsimp only
  by_cases htags : tags = []
  · -- an empty value has one member, which is no tag
    obtain ⟨digits, hetag, -⟩ := toList_etagOf sha256 body
    have hempty : etagOf sha256 body ≠ "" := by
      intro h
      rw [h] at hetag
      cases hetag
    have hmember : ((ifNoneMatchOf sha256 []).toList.splitOn ',').map
        (fun c => trim (String.ofList c)) = [""] := rfl
    have hstrip : (stripStart "W/" "").getD "" = "" := rfl
    rw [htags, hmember, List.any_cons, List.any_nil, Bool.or_false, hstrip, Bool.or_eq_true,
      decide_eq_true_iff, decide_eq_true_iff]
    refine iff_of_false (fun h => ?_) (fun ⟨tag, htag, _⟩ => List.not_mem_nil htag)
    rcases h with h | h
    · exact absurd h (by decide)
    · exact hempty h.symm
  · rw [splitOn_ifNoneMatchOf htags, List.map_map, List.any_map, List.any_eq_true]
    refine exists_congr fun tag => and_congr_right fun _ => ?_
    rw [Function.comp_apply, Function.comp_apply, trim_text, Bool.or_eq_true, decide_eq_true_iff,
      decide_eq_true_iff, strip_core]
    exact or_iff_right (core_ne_star tag)

end Revalidation

/-- **Revalidation.**  Asked for a document with a list of tags held of whatever was seen before,
the site sends the document unless its tag is among them, and a 304 with the same headers and
nothing else if it is. -/
theorem revalidation (site : Site) (t : Timestamp) (r : Request ReadTarget) (tags : List HeldTag)
    (hkind : r.target.route.kind = .metadata) (hstatus : (site.handler t r).status = 200)
    (hheld : r.fields.values "if-none-match" = [ifNoneMatchOf site.sha256 tags]) :
    Tells r (some metadataMaxAge) (site.origin t r) ∧
      (site.origin t r).etag = some (etagOf site.sha256 (site.handler t r).body) ∧
      if ∃ tag ∈ tags, etagOf site.sha256 tag.body = etagOf site.sha256 (site.handler t r).body then
        (site.origin t r).status = 304 ∧ (site.origin t r).body = []
      else (site.origin t r).status = 200 ∧ (site.origin t r).body = (site.handler t r).body := by
  unfold Site.origin
  have hcached : Cached site.sha256 r.target.route.kind r (site.handler t r) _ :=
    cached_cache (isBare_handler site t r)
  have hany : (r.fields.values "if-none-match").head?.any
      (matchesEtag · (etagOf site.sha256 (site.handler t r).body)) = true ↔
      ∃ tag ∈ tags, etagOf site.sha256 tag.body = etagOf site.sha256 (site.handler t r).body := by
    rw [hheld, List.head?_cons, Option.any_some]
    exact matchesEtag_ifNoneMatchOf _
  cases hcached with
  | refused hserved _ _ =>
    rw [hstatus] at hserved
    exact absurd hserved (by decide)
  | served _ hdist => exact absurd ⟨hkind, hstatus⟩ hdist
  | document _ _ h200 hbody hetag hchanged htells =>
    refine ⟨htells, hetag, ?_⟩
    rw [if_neg]
    · exact ⟨h200, hbody⟩
    · rw [← hany, hchanged]
      exact Bool.false_ne_true
  | notModified _ _ h304 hbody hetag hsame htells =>
    refine ⟨htells, hetag, ?_⟩
    rw [if_pos (hany.1 hsame)]
    exact ⟨h304, hbody⟩

namespace Storefront

/-- The tags of the root document, and of an empty one. -/
def heldTags : List HeldTag := [⟨true, [0x7b, 0x7d], 0, 1⟩, ⟨false, [], 2, 0⟩]

def conditionalRequest : Request ReadTarget :=
  ⟨rootRequest.target, [("if-none-match", ifNoneMatchOf takenDown.sha256 heldTags)]⟩

theorem handler_conditionalRequest :
    (takenDown.handler 0 conditionalRequest).status = 200 := by
  have hanswer : takenDown.answer 0 conditionalRequest.target .absent
      = .ok (.root ⟨"https://host/acme/main", ["acme/core"]⟩) := serve_openRoot
  rw [Site.handler_of_answer (r := conditionalRequest) rfl hanswer]
  rfl

theorem revalidation_conditionalRequest :
    (takenDown.origin 0 conditionalRequest).status = 304 := by
  have h := revalidation takenDown 0 conditionalRequest heldTags rfl handler_conditionalRequest rfl
  rw [if_pos ⟨_, List.mem_cons_self, rfl⟩] at h
  exact h.2.2.1

end Storefront

end Sconce
