/-
# Subscriptions

Which packages, and which versions of them, an upstream mirrors.  The entries are compiled one
by one; a name is mirrored when some entry matches it, and a version when the loop of
`version_allowed` finds a matching entry that keeps it, or no matching entry at all.

The loop stops early and carries a flag; what it computes is a union of rules
(`versionAllowed_eq`), so it does not matter in which order or how often the entries are listed
(`orUnion_of_compile`).
-/
import Sconce.Lib.Unions
import Sconce.Licensing.Editions
import Sconce.Versions.Writers

namespace Sconce

/-! ## Compiling -/

/-- What the crates behind a subscription answer. -/
structure Matchers where
  Constraint : Type
  Version : Type
  /-- `Constraint::parse`. -/
  parseConstraint : String → Except String Constraint
  /-- `Version::parse`. -/
  parseVersion : String → Option Version
  /-- `constraint.matches(version)`. -/
  accepts : Constraint → Version → Bool
  /-- `Regex::new`, with `is_match` of the regex. -/
  regex : String → Except String (String → Bool)

/-- An entry of a require-list as the catalog hands it over. -/
structure RequireEntry where
  matchKind : String
  pattern : String
  versionFloor : Option String
  deriving DecidableEq

/-- `CompiledRequire`. -/
structure CompiledEntry (m : Matchers) where
  matcher : Match
  constraint : Option m.Constraint

namespace Matchers

variable (m : Matchers)

/-- `normalize_prefix`. -/
def normalizePrefix (pattern : String) : String :=
  if pattern.toList.getLast? = some '*' then String.ofList pattern.toList.dropLast else pattern

/-- `parse_constraint`. -/
def parseFloor (raw : Option String) : Except String (Option m.Constraint) :=
  match raw.map trim with
  | none | some "" => .ok none
  | some s =>
    match m.parseConstraint s with
    | .ok con => .ok (some con)
    | .error e => .error ("invalid version constraint '" ++ s ++ "': " ++ e)

/-- How an entry matches names. -/
def compileMatcher (r : RequireEntry) : Except String Match :=
  match r.matchKind with
  | "all" => .ok .all
  | "prefix" => .ok (.namePrefix (normalizePrefix r.pattern))
  | "exact" => .ok (.exact r.pattern)
  | "regex" => (m.regex r.pattern).map .regex
  | other => .error ("unknown match kind '" ++ other ++ "'")

/-- One entry of `compile`; an error carries the message of a `BadPattern`. -/
def compileEntry (r : RequireEntry) : Except String (CompiledEntry m) := do
  let matcher ← m.compileMatcher r
  let constraint ← m.parseFloor r.versionFloor
  return { matcher, constraint }

/-- `Subscription::compile`. -/
def compile (reqs : List RequireEntry) : Except String (List (CompiledEntry m)) :=
  reqs.mapM m.compileEntry

end Matchers

/-! ## Matching -/

variable {m : Matchers}

namespace CompiledEntry

/-- The entry as the passes over an upstream use it: a constraint together with the versions it
is asked about. -/
def toRequire (c : CompiledEntry m) : CompiledRequire where
  matcher := c.matcher
  constraint := c.constraint.map fun con normalized =>
    (m.parseVersion normalized).any (m.accepts con)

/-- `matches_name` of an entry. -/
def matchesName (c : CompiledEntry m) (name : String) : Bool := c.toRequire.matchesName name

/-- The entry keeps the version: it has no constraint, or its constraint accepts the version. -/
def keeps (normalized : String) (c : CompiledEntry m) : Bool :=
  c.constraint.all fun con => (m.parseVersion normalized).any (m.accepts con)

end CompiledEntry

namespace Subscriptions

/-- `matches_name`. -/
def matchesName (sub : List (CompiledEntry m)) (name : String) : Bool :=
  sub.any (·.matchesName name)

/-- The loop of `version_allowed` over the entries that match, with its flag. -/
def versionLoop (version : Option m.Version) (matched : Bool) : List (CompiledEntry m) → Bool
  | [] => !matched
  | c :: rest =>
    match c.constraint, version with
    | none, _ => true
    | some con, some v => if m.accepts con v then true else versionLoop version true rest
    | some _, none => versionLoop version true rest

/-- `version_allowed`. -/
def versionAllowed (sub : List (CompiledEntry m)) (name normalized : String) : Bool :=
  versionLoop (m.parseVersion normalized) false (sub.filter (·.matchesName name))

/-- Once an entry has matched, the loop asks whether one of the rest keeps the version. -/
theorem versionLoop_true (normalized : String) (entries : List (CompiledEntry m)) :
    versionLoop (m.parseVersion normalized) true entries
      = entries.any (CompiledEntry.keeps normalized) := by
  induction entries with
  | nil => rfl
  | cons c rest ih =>
    unfold versionLoop
    rw [List.any_cons, CompiledEntry.keeps]
    cases c.constraint with
    | none => rfl
    | some con =>
      rw [← ih]
      cases m.parseVersion normalized with
      | none => rfl
      | some v =>
        dsimp only [Option.all_some, Option.any_some]
        cases m.accepts con v <;> rfl

/-- **The loop is a union of rules**: the flag says whether an entry applied. -/
theorem versionAllowed_eq (sub : List (CompiledEntry m)) (name normalized : String) :
    versionAllowed sub name normalized
      = unionOf (·.matchesName name) (CompiledEntry.keeps normalized) sub := by
  unfold versionAllowed unionOf
  cases hmatching : sub.filter (·.matchesName name) with
  | nil => rfl
  | cons c rest =>
    have hstart : versionLoop (m.parseVersion normalized) false (c :: rest)
        = versionLoop (m.parseVersion normalized) true (c :: rest) := rfl
    rw [hstart, versionLoop_true]
    rfl

/-- The passes over an upstream use the same union. -/
theorem versionAllowed_toRequire (sub : List (CompiledEntry m)) (name normalized : String) :
    Subscription.versionAllowed (sub.map CompiledEntry.toRequire) name normalized
      = versionAllowed sub name normalized := by
  have hkeeps : ∀ c : CompiledEntry m,
      (c.toRequire.constraint.all fun accepts => accepts normalized) = c.keeps normalized :=
    fun c => Option.all_map ..
  rw [versionAllowed_eq]
  unfold Subscription.versionAllowed unionOf
  dsimp only
  rw [List.filter_map, List.isEmpty_map, List.any_map]
  exact congrArg _ (List.any_congr rfl fun c => hkeeps c)

end Subscriptions

/-! ## A union of entries -/

open Subscriptions

namespace Matchers

/-- `sub` is the union of what the entries `reqs` select. -/
structure OrUnion (m : Matchers) (reqs : List RequireEntry) (sub : List (CompiledEntry m)) :
    Prop where
  /-- Entries that are permuted or repeated compile and answer alike. -/
  same : ∀ reqs' : List RequireEntry, (∀ r, r ∈ reqs ↔ r ∈ reqs') →
    ∃ sub', m.compile reqs' = .ok sub' ∧ ∀ name normalized,
      matchesName sub' name = matchesName sub name ∧
        versionAllowed sub' name normalized = versionAllowed sub name normalized
  /-- A name is matched when an entry matches it. -/
  matched : ∀ name, matchesName sub name = true ↔
    ∃ r ∈ reqs, ∃ c, m.compileEntry r = .ok c ∧ c.matchesName name = true
  /-- Of a matched name, the versions are allowed that an entry matching it keeps. -/
  allowed : ∀ name normalized, matchesName sub name = true →
    (versionAllowed sub name normalized = true ↔
      ∃ r ∈ reqs, ∃ c, m.compileEntry r = .ok c ∧ c.matchesName name = true ∧
        (c.constraint = none ∨ ∃ con v, c.constraint = some con ∧
          m.parseVersion normalized = some v ∧ m.accepts con v = true))
  /-- An entry that is added anywhere refuses no version of a matched name. -/
  mono : ∀ before after r sub', reqs = before ++ after →
    m.compile (before ++ r :: after) = .ok sub' →
    ∀ name normalized, matchesName sub name = true →
      versionAllowed sub name normalized = true → versionAllowed sub' name normalized = true

end Matchers

section Union

variable {reqs reqs' : List RequireEntry} {sub sub' : List (CompiledEntry m)}
  {name normalized : String}

/-- The compiled entries are those of the listed ones. -/
theorem mem_compile (h : m.compile reqs = .ok sub) (c : CompiledEntry m) :
    c ∈ sub ↔ ∃ r ∈ reqs, m.compileEntry r = .ok c :=
  List.mem_of_mapM_ok h c

/-- A subscription matches a name where one of its entries does. -/
theorem matchesName_iff :
    matchesName sub name = true ↔ ∃ c ∈ sub, c.matchesName name = true :=
  List.any_eq_true

/-- An entry keeps a version when it has no constraint or its constraint accepts it. -/
theorem CompiledEntry.keeps_iff (c : CompiledEntry m) :
    c.keeps normalized = true ↔ c.constraint = none ∨ ∃ con v, c.constraint = some con ∧
      m.parseVersion normalized = some v ∧ m.accepts con v = true := by
  unfold CompiledEntry.keeps
  cases c.constraint <;> cases m.parseVersion normalized <;> simp

/-- Entries that are more compile to more. -/
theorem compile_subset (h : m.compile reqs = .ok sub) (h' : m.compile reqs' = .ok sub')
    (hsub : reqs ⊆ reqs') : sub ⊆ sub' := by
  intro c hc
  obtain ⟨r, hr, hrc⟩ := (mem_compile h c).1 hc
  exact (mem_compile h' c).2 ⟨r, hsub hr, hrc⟩

/-- Compiling depends on which entries there are. -/
theorem exists_compile (h : m.compile reqs = .ok sub) (hsub : reqs' ⊆ reqs) :
    ∃ sub', m.compile reqs' = .ok sub' := by
  have hall := (List.mapM_ok_iff m.compileEntry reqs).1 ⟨sub, h⟩
  exact (List.mapM_ok_iff m.compileEntry reqs').2 fun r hr => hall r (hsub hr)

/-- **Subscriptions are unions of their entries.** -/
theorem orUnion_of_compile (h : m.compile reqs = .ok sub) : m.OrUnion reqs sub where
  same := by
    intro reqs' hmem
    obtain ⟨sub', h'⟩ := exists_compile h fun r hr => (hmem r).2 hr
    have hentries : ∀ c, c ∈ sub' ↔ c ∈ sub := fun c =>
      ⟨fun hc => compile_subset h' h (fun r hr => (hmem r).2 hr) hc,
        fun hc => compile_subset h h' (fun r hr => (hmem r).1 hr) hc⟩
    refine ⟨sub', h', fun name normalized => ⟨?_, ?_⟩⟩
    · rw [Bool.eq_iff_iff, matchesName_iff, matchesName_iff]
      exact exists_congr fun c => and_congr_left' (hentries c)
    · rw [versionAllowed_eq, versionAllowed_eq]
      exact unionOf_eq_of_mem_iff hentries
  matched := by
    intro name
    rw [matchesName_iff]
    constructor
    · rintro ⟨c, hc, hname⟩
      obtain ⟨r, hr, hrc⟩ := (mem_compile h c).1 hc
      exact ⟨r, hr, c, hrc, hname⟩
    · rintro ⟨r, hr, c, hrc, hname⟩
      exact ⟨c, (mem_compile h c).2 ⟨r, hr, hrc⟩, hname⟩
  allowed := by
    intro name normalized hmatched
    rw [versionAllowed_eq, unionOf_of_applies (matchesName_iff.1 hmatched)]
    constructor
    · rintro ⟨c, hc, hname, hkeeps⟩
      obtain ⟨r, hr, hrc⟩ := (mem_compile h c).1 hc
      exact ⟨r, hr, c, hrc, hname, c.keeps_iff.1 hkeeps⟩
    · rintro ⟨r, hr, c, hrc, hname, hkeeps⟩
      exact ⟨c, (mem_compile h c).2 ⟨r, hr, hrc⟩, hname, c.keeps_iff.2 hkeeps⟩
  mono := by
    intro before after r sub' hreqs h' name normalized hmatched hallowed
    rw [versionAllowed_eq] at hallowed ⊢
    have hmore : reqs ⊆ before ++ r :: after := by
      rw [hreqs]
      exact ((List.sublist_cons_self r after).append_left before).subset
    exact unionOf_mono (compile_subset h h' hmore) (matchesName_iff.1 hmatched) hallowed

end Union

/-! ## A vendor and one package -/

namespace VendorList

/-- Versions and constraints as far as the entries below use them. -/
def matchers : Matchers where
  Constraint := ℕ × ℕ
  Version := ℕ × ℕ
  parseConstraint := fun s => if s = "^2.4" then .ok (2, 4) else .error "unexpected"
  parseVersion := fun s =>
    if s = "2.4.0.0" then some (2, 4) else if s = "2.3.0.0" then some (2, 3) else none
  accepts := fun con v => con.1 = v.1 && con.2 ≤ v.2
  regex := fun _ => .error "unexpected"

/-- A vendor from 2.4 on, and one of its packages whole. -/
def reqs : List RequireEntry :=
  [⟨"prefix", "mage-os/*", some "^2.4"⟩, ⟨"exact", "mage-os/composer", none⟩]

def sub : List (CompiledEntry matchers) :=
  [⟨.namePrefix "mage-os/", some (2, 4)⟩, ⟨.exact "mage-os/composer", none⟩]

/-- The listed entries are their own union. -/
theorem orUnion_reqs : matchers.OrUnion reqs sub :=
  orUnion_of_compile (by rfl)

example : versionAllowed sub "mage-os/catalog" "2.3.0.0" = false ∧
    versionAllowed sub "mage-os/composer" "2.3.0.0" = true ∧
    versionAllowed sub "magento/catalog" "2.3.0.0" = true := by decide

end VendorList

end Sconce
