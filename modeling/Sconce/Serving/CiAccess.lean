/-
# CI access

A workflow trades the token its platform signed for one of a repository.  Which workflows may is
said by claim matchers, entered as `k=v` in the dashboard or on the command line and stored as a
JSON object; `claims_match` compares them with the claims of the token for equality.

The documentation and the form show `ref=refs/tags/*`.  Read as a glob, a matcher with a `*`
means more than the string it is compared with (`meansListed_iff`).
-/
import Sconce.Lib.LastWins
import Sconce.Licensing.Globs
import Sconce.Dashboard.Repositories

namespace Sconce

/-! ## Comparing claims -/

mutual

/-- `==` of JSON values; the members of objects are compared by key. -/
def Json.same : Json → Json → Bool
  | .null, .null => true
  | .bool a, .bool b => a == b
  | .number a, .number b => a == b
  | .string a, .string b => a == b
  | .array xs, .array ys => Json.sameItems xs ys
  | .object fs, .object gs => fs.length == gs.length && Json.sameFields fs gs
  | _, _ => false

def Json.sameItems : List Json → List Json → Bool
  | [], [] => true
  | x :: xs, y :: ys => Json.same x y && Json.sameItems xs ys
  | _, _ => false

def Json.sameFields : List (String × Json) → List (String × Json) → Bool
  | [], _ => true
  | (k, x) :: fs, gs => (gs.lookup k).any (Json.same x) && Json.sameFields fs gs

end

/-- `claims_match`. -/
def claimsMatch (claims matchers : Json) : Bool :=
  match matchers with
  | .object fields => fields.all fun f => (claims.get f.1).any f.2.same
  | _ => true

theorem Json.same_string_iff (v : String) (x : Json) :
    (Json.string v).same x = true ↔ x = .string v := by
  cases x with
  | string s =>
    rw [Json.same, beq_iff_eq, Json.string.injEq]
    exact eq_comm
  | _ => exact iff_of_false (by simp [Json.same]) nofun

/-! ## Entering matchers -/

/-- The matchers as they are stored: an object of strings. -/
def matchersJson (pairs : List (String × String)) : Json :=
  .object ((lastWins pairs).map fun entry => (entry.1, .string entry.2))

/-- `parse_kv`. -/
def parseKv (s : String) : Except String (String × String) :=
  match splitOnce '=' s with
  | some kv => .ok kv
  | none => .error ("expected key=value, got '" ++ s ++ "'")

/-- What a form lists: the pairs of `k=v, k2=v2` that have a key, trimmed. -/
def listedMatchers (raw : String) : List (String × String) :=
  (((splitOn [','] raw).filterMap (splitOnce '=')).map fun p => (trim p.1, trim p.2)).filter
    fun p => !p.1.isEmpty

/-- The entered matchers are stored as an object. -/
theorem parseClaims_eq (raw : String) : parseClaims raw = matchersJson (listedMatchers raw) := by
  have hcollected : claimMatchers raw = lastWins (listedMatchers raw) := by
    unfold claimMatchers lastWins listedMatchers
    rw [List.foldl_filter, List.foldl_map]
    congr 1
    funext m pair
    cases (trim pair.1).isEmpty <;> rfl
  unfold parseClaims matchersJson
  rw [hcollected]

/-- Matchers that were entered, and how they are stored. -/
inductive Entered : List (String × String) → Json → Prop
  /-- In the form of the dashboard. -/
  | form (raw : String) : Entered (listedMatchers raw) (parseClaims raw)
  /-- As `--claim` arguments. -/
  | cli {args : List String} {pairs : List (String × String)}
      (hargs : args.mapM parseKv = .ok pairs) : Entered pairs (matchersJson pairs)

theorem Entered.eq {listed : List (String × String)} {matchers : Json}
    (h : Entered listed matchers) : matchers = matchersJson listed := by
  cases h with
  | form raw => exact parseClaims_eq raw
  | cli => rfl

/-! ## The exchange -/

/-- `CiMatch`. -/
structure CiMatch where
  repoId : Uuid
  label : String
  ttl : ℤ
  tokenScope : CiTokenScope

namespace Catalog

/-- `ci_policies`. -/
def ciPolicies (db : Catalog) (repo : Uuid) : List (Uuid × CiOidcPolicy) :=
  db.ciOidcPolicies.rows.filter fun r => r.2.repoId = repo

/-- `ci_match`, once the repository is found: `validate` gives the claims of the token where
the keys of the policy's issuer can be fetched and accept it for the policy's audience. -/
def ciMatch (validate : CiOidcPolicy → Option Json) (db : Catalog) (repo : Uuid)
    (capability : CiCapability) : Option CiMatch :=
  (db.ciPolicies repo).findSome? fun r => do
    let policy := r.2
    guard (policy.capability = capability)
    let claims ← validate policy
    guard (claimsMatch claims policy.claims)
    return {
      repoId := repo
      label := ((claims.get "sub").bind Json.asStr).getD "ci"
      ttl := policy.tokenTtlSecs
      tokenScope := policy.tokenScope }

end Catalog

/-! ## What matchers say -/

/-- What the listed matchers say of a token's claims, read as globs. -/
def ListedSay (listed : List (String × String)) (claims : Json) : Prop :=
  ∀ entry ∈ listed, ∃ s, claims.get entry.1 = some (.string s) ∧
    GlobSays entry.2.toList s.toList

/-- Stored matchers admit the tokens of which the listed ones say so. -/
def MeansListed (listed : List (String × String)) (matchers : Json) : Prop :=
  ∀ claims : Json, claimsMatch claims matchers = true ↔ ListedSay listed claims

/-- A glob without a star takes itself alone. -/
theorem globSays_iff_eq {glob : List Char} (hstar : '*' ∉ glob) (name : List Char) :
    GlobSays glob name ↔ name = glob := by
  induction glob generalizing name with
  | nil =>
    constructor
    · intro h
      cases h
      rfl
    · rintro rfl
      exact .nil
  | cons c glob ih =>
    rw [List.mem_cons, not_or] at hstar
    rw [globSays_char_iff (Ne.symm hstar.1)]
    simp only [ih hstar.2]
    constructor
    · rintro ⟨rest, rfl, rfl⟩
      rfl
    · rintro rfl
      exact ⟨glob, rfl, rfl⟩

/-- A star at the end takes what begins with the rest. -/
theorem globSays_stem_star {stem : List Char} (hstar : '*' ∉ stem) (rest : List Char) :
    GlobSays (stem ++ ['*']) (stem ++ rest) := by
  induction stem with
  | nil =>
    have hrest := GlobSays.star rest .nil
    rwa [List.append_nil] at hrest
  | cons c stem ih =>
    rw [List.mem_cons, not_or] at hstar
    exact .char (Ne.symm hstar.1) (ih hstar.2)

/-- A glob that takes a text takes it without its stars. -/
theorem GlobSays.literals {glob name : List Char} (h : GlobSays glob name) :
    GlobSays glob (literals name) := by
  induction h with
  | nil => exact .nil
  | star run _ ih =>
    unfold Sconce.literals at ih ⊢
    rw [List.filter_append]
    exact .star _ ih
  | char hc _ ih =>
    rw [literals_cons hc]
    exact .char hc ih

/-- A text is its own literals where it has no star. -/
theorem literals_eq_self_iff (glob : List Char) : literals glob = glob ↔ '*' ∉ glob := by
  unfold literals
  rw [List.filter_eq_self]
  constructor
  · intro h hmem
    exact absurd (h '*' hmem) (by decide)
  · intro h c hc
    exact decide_eq_true fun hstar => h (hstar ▸ hc)

/-- The text without its stars. -/
def dropStars (v : String) : String := String.ofList (literals v.toList)

/-- The claims that the last listed values make up, each changed by `f`. -/
def lastClaims (f : String → String) (listed : List (String × String)) : Json :=
  .object ((lastWins listed).map fun entry => (entry.1, .string (f entry.2)))

/-- The claims that the last values make up, one by one. -/
theorem get_lastClaims (f : String → String) (listed : List (String × String)) (key : String) :
    (lastClaims f listed).get key = (lastListed listed key).map fun v => .string (f v) := by
  rw [← lookup_lastWins]
  unfold lastClaims
  dsimp only [Json.get]
  induction lastWins listed with
  | nil => rfl
  | cons entry rest ih =>
    rw [List.map_cons, List.lookup_cons, List.lookup_cons, ih]
    cases key == entry.1 <;> rfl

/-- Stored matchers admit the claims that have every last value. -/
theorem claimsMatch_matchersJson (claims : Json) (listed : List (String × String)) :
    claimsMatch claims (matchersJson listed) = true ↔
      ∀ key v, lastListed listed key = some v → claims.get key = some (.string v) := by
  unfold claimsMatch matchersJson
  dsimp only
  rw [List.all_map, List.all_eq_true]
  simp only [Function.comp_apply, Option.any_eq_true, Json.same_string_iff, Prod.forall,
    mem_lastWins_iff, exists_eq_right]

/-- **What stored matchers mean.** -/
theorem meansListed_iff {listed : List (String × String)} {matchers : Json}
    (h : Entered listed matchers) :
    MeansListed listed matchers ↔ ∀ entry ∈ listed, ∃ v, lastListed listed entry.1 = some v ∧
      '*' ∉ v.toList ∧ GlobSays entry.2.toList v.toList := by
  rw [h.eq]
  constructor
  · intro hmeans entry hentry
    obtain ⟨v, hv⟩ := exists_lastListed hentry
    -- the claims that are the values themselves are admitted
    have hglobs : ∀ entry ∈ listed, ∀ v, lastListed listed entry.1 = some v →
        GlobSays entry.2.toList v.toList := by
      intro entry hentry v hv
      have hself : claimsMatch (lastClaims id listed) (matchersJson listed) = true := by
        rw [claimsMatch_matchersJson]
        intro key w hw
        rw [get_lastClaims, hw]
        rfl
      obtain ⟨s, hs, hglob⟩ := (hmeans _).1 hself entry hentry
      rw [get_lastClaims, hv] at hs
      cases hs
      exact hglob
    -- the claims with the stars of the values left out satisfy the globs as well
    have hdropped : ListedSay listed (lastClaims dropStars listed) := by
      intro entry' hentry'
      obtain ⟨v', hv'⟩ := exists_lastListed hentry'
      refine ⟨dropStars v', ?_, ?_⟩
      · rw [get_lastClaims, hv']
        rfl
      · rw [dropStars, String.toList_ofList]
        exact (hglobs entry' hentry' v' hv').literals
    have hequal := (claimsMatch_matchersJson _ _).1 ((hmeans _).2 hdropped) entry.1 v hv
    rw [get_lastClaims, hv, Option.map_some, Option.some.injEq, Json.string.injEq] at hequal
    refine ⟨v, hv, ?_, hglobs entry hentry v hv⟩
    rw [← literals_eq_self_iff, ← String.toList_ofList (l := literals v.toList)]
    exact congrArg String.toList hequal
  · intro hlast claims
    rw [claimsMatch_matchersJson]
    constructor
    · intro hequal entry hentry
      obtain ⟨v, hv, -, hglobs⟩ := hlast entry hentry
      exact ⟨v, hequal entry.1 v hv, hglobs⟩
    · intro hlisted key v hv
      have hmem := mem_of_lastListed hv
      obtain ⟨s, hs, hglob⟩ := hlisted _ hmem
      obtain ⟨w, hw, hstar, -⟩ := hlast _ hmem
      have hvalue : w = v := Option.some.inj (hw.symm.trans hv)
      rw [hvalue] at hstar
      rw [hs, String.toList_inj.1 ((globSays_iff_eq hstar _).1 hglob)]

namespace ReleaseWorkflow

/-- The matchers the form suggests. -/
def suggested : String := "repository=acme/tools, ref=refs/tags/*"

/-- A workflow that runs for a tag of the repository. -/
def tagged : Json :=
  .object [("iss", .string "https://token.actions.githubusercontent.com"),
    ("aud", .string "sconce"), ("exp", .number "1767225600"),
    ("sub", .string "repo:acme/tools:ref:refs/tags/v1.0.0"),
    ("repository", .string "acme/tools"), ("ref", .string "refs/tags/v1.0.0")]

/-- The suggested text lists two matchers. -/
theorem listedMatchers_suggested :
    listedMatchers suggested = [("repository", "acme/tools"), ("ref", "refs/tags/*")] := by
  decide

theorem listedSay_tagged : ListedSay (listedMatchers suggested) tagged := by
  rw [listedMatchers_suggested]
  intro entry hentry
  rw [List.mem_cons, List.mem_singleton] at hentry
  obtain rfl | rfl := hentry
  · exact ⟨"acme/tools", rfl, (globSays_iff_eq (by decide) _).2 rfl⟩
  · exact ⟨"refs/tags/v1.0.0", rfl,
      @globSays_stem_star "refs/tags/".toList (by decide) "v1.0.0".toList⟩

/-- The code refuses the tag, which the suggested matchers say may publish. -/
theorem suggested_refuses_tag :
    claimsMatch tagged (parseClaims suggested) = false ∧
      ListedSay (listedMatchers suggested) tagged ∧
        ¬ MeansListed (listedMatchers suggested) (parseClaims suggested) := by
  have hrefused : claimsMatch tagged (parseClaims suggested) = false := by
    rw [parseClaims_eq, Bool.eq_false_iff, ne_eq, claimsMatch_matchersJson,
      listedMatchers_suggested]
    intro hequal
    have href : some (Json.string "refs/tags/v1.0.0") = some (.string "refs/tags/*") :=
      hequal "ref" "refs/tags/*" (by decide)
    rw [Option.some.injEq, Json.string.injEq] at href
    exact absurd href (by decide)
  refine ⟨hrefused, listedSay_tagged, fun hmeans => ?_⟩
  exact Bool.false_ne_true (hrefused.symm.trans ((hmeans tagged).2 listedSay_tagged))

/-- A matcher without a star means what it says. -/
theorem meansListed_pinned :
    MeansListed (listedMatchers "repository=acme/tools") (parseClaims "repository=acme/tools") := by
  refine (meansListed_iff (.form "repository=acme/tools")).2 fun entry hentry => ?_
  have hlisted : listedMatchers "repository=acme/tools" = [("repository", "acme/tools")] := by
    decide
  rw [hlisted, List.mem_singleton] at hentry
  subst hentry
  exact ⟨"acme/tools", by decide, by decide, (globSays_iff_eq (by decide) _).2 rfl⟩

end ReleaseWorkflow

end Sconce
