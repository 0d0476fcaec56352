/-
# The order in which a registry lists versions

`latestRequires` takes the last version of a list for the latest.  Registries do not agree on an
order, and Packagist lists the newest version first, so the plan may follow an old release.

`FollowsNewest` is what the plan promises by its name: it does not depend on the order of the
lists, and follows the highest versions.  It holds exactly when every reading of the lists leads
to the same packages, and the last versions require what the highest do (`followsNewest_iff`).
-/
import Sconce.Mirror.Closure

namespace Sconce

/-! ## What is promised -/

/-- What a version requires. -/
def requiresOf (version : Json) : List String := ((version.get "require").bind Json.keys).getD []

/-- The normalized version of an entry of a list. -/
def normalizedOf (version : Json) : Option String := (version.get "version_normalized").bind Json.asStr

/-- An answer of a registry with its versions in another order. -/
inductive Relisted {ε : Type} :
    Except ε (Option (List Json)) → Except ε (Option (List Json)) → Prop
  | same (answer : Except ε (Option (List Json))) : Relisted answer answer
  | permuted {versions versions' : List Json} (h : versions.Perm versions') :
    Relisted (.ok (some versions)) (.ok (some versions'))

theorem Relisted.symm {ε : Type} {answer answer' : Except ε (Option (List Json))}
    (h : Relisted answer answer') : Relisted answer' answer := by
  cases h with
  | same => exact .same _
  | permuted h => exact .permuted h.symm

/-- No version of the list is higher. -/
def Highest {V : Type} [LinearOrder V] (order : String → V) (versions : List Json)
    (version : Json) : Prop :=
  version ∈ versions ∧ ∀ other ∈ versions, ∃ a b, normalizedOf other = some a ∧
    normalizedOf version = some b ∧ order a ≤ order b

/-- What an entry of the plan says. -/
def DependencyPlanEntry.triple (e : DependencyPlanEntry) : String × String × Option Uuid :=
  (e.name, e.status, e.resolverUpstreamId)

namespace ClosureEnv

variable {ε : Type} (env : ClosureEnv ε) (direct : List (String × String))

/-- The names of the plan. -/
def planNames : List String := (env.closed direct).plan.map (·.name)

/-- The plan does not depend on the order of the lists, and follows the highest versions. -/
structure FollowsNewest {V : Type} [LinearOrder V] (order : String → V) : Prop where
  relisted : ∀ fetchP2, (∀ base package, Relisted (env.fetchP2 base package) (fetchP2 base package)) →
    ∀ t, t ∈ (closed { env with fetchP2 } direct).plan.map (·.triple) ↔
      t ∈ (env.closed direct).plan.map (·.triple)
  newest : ∀ package ∈ env.planNames direct, ∀ versions, env.expanded package = some versions →
    ∀ version, Highest order versions version →
      ∀ dep, dep ∈ env.expansion package ↔ dep ∈ requiresOf version ∧ isPackage dep

/-- All that is required. -/
def AllRequired : String → Prop := env.Required direct fun _ => True

/-- A set of names that has what the repository's packages require, and with each package what
one of its versions does. -/
structure Reading (among : String → Prop) : Prop where
  direct : ∀ package dep, (package, dep) ∈ direct → isPackage dep → among dep
  version : ∀ package versions, among package → env.expanded package = some versions →
    versions ≠ [] → ∃ version ∈ versions, ∀ dep ∈ requiresOf version, isPackage dep → among dep

/-- How the lists have to be for their order not to matter. -/
structure ReadsOneWay {V : Type} [LinearOrder V] (order : String → V) : Prop where
  /-- No version of a required package requires anything else. -/
  within : ∀ package versions, env.AllRequired direct package →
    env.expanded package = some versions → ∀ version ∈ versions, ∀ dep ∈ requiresOf version,
      isPackage dep → env.AllRequired direct dep
  /-- No choice of versions can do without a required package. -/
  needed : ∀ among, env.Reading direct among → ∀ package, env.AllRequired direct package →
    among package
  /-- The last version of a required package requires what its highest does. -/
  newest : ∀ package versions, env.AllRequired direct package →
    env.expanded package = some versions → ∀ version, Highest order versions version →
      ∀ dep, isPackage dep → (dep ∈ latestRequires versions ↔ dep ∈ requiresOf version)

/-! ## Plans below the cap -/

variable {env direct}

/-- The requirements of a listing are those of its last entry. -/
theorem latestRequires_eq (versions : List Json) :
    latestRequires versions = (versions.getLast?.map requiresOf).getD [] := by
  unfold latestRequires requiresOf
  cases versions.getLast? <;> rfl

/-- The worklist's view of the end of the loop. -/
theorem sound_closed (env : ClosureEnv ε) (direct : List (String × String)) :
    env.worklist.Sound (directQueue direct) (env.closed direct) := by
  unfold closed
  rw [closureLoop_eq]
  exact env.worklist.sound_run _

/-- Below the cap the plan names all that is required. -/
theorem mem_planNames_iff (hcap : (env.closed direct).plan.length < maxClosure) (name : String) :
    name ∈ env.planNames direct ↔ env.AllRequired direct name := by
  refine (env.soundPlan direct).complete ?_ name
  unfold closed at hcap ⊢
  rw [closureLoop_eq] at hcap ⊢
  obtain ⟨-, -, hend⟩ := env.worklist.run_ends (.start (directQueue direct))
  exact (Worklist.step_eq_none hend).resolve_right (not_le.2 hcap)

/-- Everything planned is required through what is planned before it. -/
theorem required_of_mem_planNames {name : String} (h : name ∈ env.planNames direct) :
    env.AllRequired direct name :=
  required_iff_reach.2 (((sound_closed env direct).planned name h).mono fun _ _ => trivial)

/-- No package is planned twice. -/
theorem nodup_planNames (env : ClosureEnv ε) (direct : List (String × String)) :
    (env.planNames direct).Nodup :=
  (sound_closed env direct).nodup

/-- An entry says of its name what `classify` does. -/
theorem mem_triples_iff (env : ClosureEnv ε) (direct : List (String × String))
    (t : String × String × Option Uuid) : t ∈ (env.closed direct).plan.map (·.triple) ↔
      t.1 ∈ env.planNames direct ∧ t.2 = env.classify t.1 := by
  have hentry : ∀ e ∈ (env.closed direct).plan, e.triple = (e.name, env.classify e.name) := by
    intro e he
    obtain ⟨o, ho⟩ := (sound_closed env direct).entries e he
    rw [ho]
    rfl
  unfold planNames
  rw [List.mem_map, List.mem_map]
  constructor
  · rintro ⟨e, he, rfl⟩
    rw [hentry e he]
    exact ⟨⟨e, he, rfl⟩, rfl⟩
  · rintro ⟨⟨e, he, hname⟩, hclass⟩
    refine ⟨e, he, ?_⟩
    rw [hentry e he, hname, ← hclass]

/-! ## Lists in another order -/

variable {fetchP2 : FetchP2 ε}

/-- The same upstream resolves a package, whatever the order of its lists. -/
theorem resolver_relisted
    (h : ∀ base package, Relisted (env.fetchP2 base package) (fetchP2 base package))
    {dep : String} : (env.resolver dep = none ∧ resolver { env with fetchP2 } dep = none) ∨
      ∃ u versions versions', env.resolver dep = some (u, versions) ∧
        resolver { env with fetchP2 } dep = some (u, versions') ∧ versions.Perm versions' := by
  unfold resolver
  dsimp only
  induction env.upstreams with
  | nil => exact .inl ⟨rfl, rfl⟩
  | cons u upstreams ih =>
    rw [List.findSome?_cons, List.findSome?_cons]
    have hu := h u.2.base dep
    cases hanswer : env.fetchP2 u.2.base dep with
    | error e =>
      rw [hanswer] at hu
      generalize fetchP2 u.2.base dep = answer' at hu ⊢
      cases hu with
      | same => exact ih
    | ok found =>
      rw [hanswer] at hu
      generalize fetchP2 u.2.base dep = answer' at hu ⊢
      cases hu with
      | same =>
        cases found with
        | none => exact ih
        | some versions => exact .inr ⟨u, versions, versions, rfl, rfl, .refl _⟩
      | permuted hperm => exact .inr ⟨u, _, _, rfl, rfl, hperm⟩

/-- How a package is classified does not depend on the order of its listings. -/
theorem classify_relisted
    (h : ∀ base package, Relisted (env.fetchP2 base package) (fetchP2 base package))
    (dep : String) : classify { env with fetchP2 } dep = env.classify dep := by
  unfold classify
  dsimp only
  obtain ⟨hnone, hnone'⟩ | ⟨u, versions, versions', hsome, hsome', -⟩ :=
    @resolver_relisted _ _ _ h dep
  · rw [hnone, hnone']
  · rw [hsome, hsome']

/-- A package is expanded by the same listing, in another order. -/
theorem expanded_relisted
    (h : ∀ base package, Relisted (env.fetchP2 base package) (fetchP2 base package))
    {dep : String} {versions : List Json} (hexpanded : env.expanded dep = some versions) :
    ∃ versions', expanded { env with fetchP2 } dep = some versions' ∧ versions.Perm versions' := by
  unfold expanded at hexpanded ⊢
  dsimp only
  split_ifs at hexpanded ⊢ with hpresent
  obtain ⟨hnone, -⟩ | ⟨u, found, versions', hsome, hsome', hperm⟩ :=
    @resolver_relisted _ _ _ h dep
  · rw [hnone] at hexpanded
    cases hexpanded
  · rw [hsome] at hexpanded
    cases hexpanded
    exact ⟨versions', by rw [hsome']; rfl, hperm⟩

/-- A listing requires what its last entry requires. -/
theorem mem_latestRequires_iff {versions : List Json} {dep : String} :
    dep ∈ latestRequires versions ↔
      ∃ version ∈ versions.getLast?, dep ∈ requiresOf version := by
  rw [latestRequires_eq]
  cases versions.getLast? with
  | none => exact ⟨nofun, nofun⟩
  | some version => simp

/-- Where the lists read one way, another order of them changes nothing that is required. -/
theorem ReadsOneWay.allRequired_relisted {V : Type} [LinearOrder V] {order : String → V}
    (hone : env.ReadsOneWay direct order)
    (h : ∀ base package, Relisted (env.fetchP2 base package) (fetchP2 base package))
    (name : String) :
    AllRequired { env with fetchP2 } direct name ↔ env.AllRequired direct name := by
  constructor
  · intro hname
    induction hname with
    | direct hmem hpackage => exact .direct hmem hpackage
    | @expanded package dep versions' _ _ hexpanded hmem hpackage ih =>
      obtain ⟨versions, hback, hperm⟩ := expanded_relisted (fun b p => (h b p).symm) hexpanded
      obtain ⟨version, hlast, hdep⟩ := mem_latestRequires_iff.1 hmem
      exact hone.within package versions ih hback version
        (hperm.subset (List.mem_of_getLast? hlast)) dep hdep hpackage
  · -- what is required in the other order has what one version of each of its packages requires
    refine hone.needed _ ⟨fun package dep hmem hpackage => .direct hmem hpackage, ?_⟩ name
    intro package versions hpackage hexpanded hne
    obtain ⟨versions', hexpanded', hperm⟩ := expanded_relisted h hexpanded
    have hne' : versions' ≠ [] := fun hnil => hne (hnil ▸ hperm).eq_nil
    refine ⟨versions'.getLast hne', hperm.symm.subset (List.getLast_mem hne'), ?_⟩
    intro dep hdep hisPackage
    exact .expanded hpackage trivial hexpanded'
      (mem_latestRequires_iff.2 ⟨_, List.getLast?_eq_getLast_of_ne_nil hne', hdep⟩) hisPackage

/-- A plan with no more names than one below the cap is below it as well. -/
theorem length_plan_le {env' : ClosureEnv ε}
    (h : ∀ name ∈ env'.planNames direct, name ∈ env.planNames direct) :
    (env'.closed direct).plan.length ≤ (env.closed direct).plan.length := by
  have hle := (List.subperm_of_subset (env'.nodup_planNames direct) h).length_le
  unfold planNames at hle
  rwa [List.length_map, List.length_map] at hle

/-- Listings that are read one way are read from the newest release. -/
theorem ReadsOneWay.followsNewest {V : Type} [LinearOrder V] {order : String → V}
    (hone : env.ReadsOneWay direct order) (hcap : (env.closed direct).plan.length < maxClosure) :
    env.FollowsNewest direct order := by
  constructor
  · intro fetchP2 h t
    have hsub : ∀ name ∈ planNames { env with fetchP2 } direct, name ∈ env.planNames direct :=
      fun name hname => (mem_planNames_iff hcap name).2
        ((hone.allRequired_relisted h name).1 (required_of_mem_planNames hname))
    have hcap' : (closed { env with fetchP2 } direct).plan.length < maxClosure :=
      (length_plan_le hsub).trans_lt hcap
    rw [mem_triples_iff, mem_triples_iff, mem_planNames_iff hcap, mem_planNames_iff hcap',
      hone.allRequired_relisted h, classify_relisted h]
  · intro package hpackage versions hexpanded version hhighest dep
    have hnewest := hone.newest package versions ((mem_planNames_iff hcap package).1 hpackage)
      hexpanded version hhighest dep
    rw [mem_expansion]
    constructor
    · rintro ⟨_, hsome, hdep, hisPackage⟩
      rw [hexpanded] at hsome
      cases hsome
      exact ⟨(hnewest hisPackage).1 hdep, hisPackage⟩
    · rintro ⟨hdep, hisPackage⟩
      exact ⟨versions, hexpanded, (hnewest hisPackage).2 hdep, hisPackage⟩

/-! ## Versions put last -/

/-- The registries' lists, each put in an order by the name of its package. -/
def reorder (env : ClosureEnv ε) (choose : String → List Json → List Json) : FetchP2 ε :=
  fun base package => (env.fetchP2 base package).map (Option.map (choose package))

section Reorder

variable {choose : String → List Json → List Json}

/-- A reordering changes the order of listings alone. -/
theorem relisted_reorder (hperm : ∀ package versions, (choose package versions).Perm versions)
    (base package : String) :
    Relisted (env.fetchP2 base package) (env.reorder choose base package) := by
  unfold reorder
  cases env.fetchP2 base package with
  | error e => exact .same _
  | ok found =>
    cases found with
    | none => exact .same _
    | some versions => exact .permuted (hperm package versions).symm

/-- What a reordering expands a package by is its listing, reordered. -/
theorem expanded_reorder (dep : String) :
    expanded { env with fetchP2 := env.reorder choose } dep =
      (env.expanded dep).map (choose dep) := by
  have hresolver : resolver { env with fetchP2 := env.reorder choose } dep =
      (env.resolver dep).map fun found => (found.1, choose dep found.2) := by
    unfold resolver reorder
    dsimp only
    induction env.upstreams with
    | nil => rfl
    | cons u upstreams ih =>
      rw [List.findSome?_cons, List.findSome?_cons]
      cases env.fetchP2 u.2.base dep with
      | error e => exact ih
      | ok found =>
        cases found with
        | none => exact ih
        | some versions => rfl
  unfold expanded
  dsimp only
  rw [hresolver]
  split_ifs
  · rfl
  · cases env.resolver dep <;> rfl

/-- A version of a list can be put last. -/
theorem exists_perm_getLast? {versions : List Json} {version : Json} (h : version ∈ versions) :
    ∃ versions' : List Json, versions'.Perm versions ∧ versions'.getLast? = some version := by
  obtain ⟨before, after, rfl⟩ := List.append_of_mem h
  refine ⟨before ++ after ++ [version], ?_, List.getLast?_concat⟩
  rw [List.append_assoc]
  exact (List.perm_append_singleton version after).append_left before

end Reorder

/-- The plan of a repository that follows the newest versions names what is required in any
order. -/
theorem FollowsNewest.allRequired_iff {V : Type} [LinearOrder V] {order : String → V}
    (hf : env.FollowsNewest direct order) (hcap : (env.closed direct).plan.length < maxClosure)
    (h : ∀ base package, Relisted (env.fetchP2 base package) (fetchP2 base package))
    (name : String) :
    AllRequired { env with fetchP2 } direct name ↔ env.AllRequired direct name := by
  have hnames (name : String) : name ∈ planNames { env with fetchP2 } direct ↔
      name ∈ env.planNames direct := by
    have htriple := hf.relisted fetchP2 h (name, env.classify name)
    rw [mem_triples_iff, mem_triples_iff, classify_relisted h] at htriple
    exact ⟨fun hin => (htriple.1 ⟨hin, rfl⟩).1, fun hin => (htriple.2 ⟨hin, rfl⟩).1⟩
  have hcap' : (closed { env with fetchP2 } direct).plan.length < maxClosure :=
    (length_plan_le fun name => (hnames name).1).trans_lt hcap
  rw [← mem_planNames_iff hcap, ← mem_planNames_iff hcap', hnames]

/-- The list with a version that has the property put last, if it has one. -/
theorem exists_reordering (P : String → Json → Prop) : ∃ choose : String → List Json → List Json,
    (∀ package versions, (choose package versions).Perm versions) ∧
      ∀ package versions, (∃ version ∈ versions, P package version) →
        ∃ version ∈ (choose package versions).getLast?, P package version := by
  have hone (package : String) (versions : List Json) : ∃ versions' : List Json,
      versions'.Perm versions ∧ ((∃ version ∈ versions, P package version) →
        ∃ version ∈ versions'.getLast?, P package version) := by
    by_cases h : ∃ version ∈ versions, P package version
    · obtain ⟨version, hmem, hP⟩ := h
      obtain ⟨versions', hperm, hlast⟩ := exists_perm_getLast? hmem
      exact ⟨versions', hperm, fun _ => ⟨version, hlast, hP⟩⟩
    · exact ⟨versions, .refl _, fun hP => absurd hP h⟩
  choose choose hchoose using hone
  exact ⟨choose, fun package versions => (hchoose package versions).1,
    fun package versions => (hchoose package versions).2⟩

/-- A plan that follows the newest releases is read one way, below the cap. -/
theorem FollowsNewest.readsOneWay {V : Type} [LinearOrder V] {order : String → V}
    (hf : env.FollowsNewest direct order) (hcap : (env.closed direct).plan.length < maxClosure) :
    env.ReadsOneWay direct order := by
  constructor
  · intro package versions hpackage hexpanded version hversion dep hdep hisPackage
    -- the lists in an order in which the version is the last of its package
    obtain ⟨choose, hperm, hlast⟩ := exists_reordering fun p v => p = package → v = version
    have hiff := hf.allRequired_iff hcap (relisted_reorder hperm)
    obtain ⟨version', hmem, hversion'⟩ := hlast package versions ⟨version, hversion, fun _ => rfl⟩
    rw [← hiff] at hpackage ⊢
    refine .expanded hpackage trivial ?_ (mem_latestRequires_iff.2 ⟨version', hmem, ?_⟩) hisPackage
    · rw [expanded_reorder, hexpanded, Option.map_some]
    · rwa [hversion' rfl]
  · intro among hreading package hpackage
    -- the lists in an order in which a version that reads within the set is last
    obtain ⟨choose, hperm, hlast⟩ := exists_reordering fun _ version =>
      ∀ dep ∈ requiresOf version, isPackage dep → among dep
    rw [← hf.allRequired_iff hcap (relisted_reorder hperm)] at hpackage
    induction hpackage with
    | direct hmem hisPackage => exact hreading.direct _ _ hmem hisPackage
    | @expanded package dep versions' _ _ hexpanded hmem hisPackage ih =>
      rw [expanded_reorder, Option.map_eq_some_iff] at hexpanded
      obtain ⟨versions, hexpanded, rfl⟩ := hexpanded
      have hne : versions ≠ [] := by
        rintro rfl
        rw [(hperm package []).eq_nil] at hmem
        cases hmem
      obtain ⟨version, hmem', hwithin⟩ :=
        hlast package versions (hreading.version package versions ih hexpanded hne)
      obtain ⟨version', hmem'', hdep⟩ := mem_latestRequires_iff.1 hmem
      cases Option.mem_unique hmem' hmem''
      exact hwithin dep hdep hisPackage
  · intro package versions hpackage hexpanded version hhighest dep hisPackage
    have hnewest := hf.newest package ((mem_planNames_iff hcap package).2 hpackage) versions
      hexpanded version hhighest dep
    rw [mem_expansion] at hnewest
    constructor
    · exact fun hdep => (hnewest.1 ⟨versions, hexpanded, hdep, hisPackage⟩).1
    · intro hdep
      obtain ⟨_, hsome, hdep', -⟩ := hnewest.2 ⟨hdep, hisPackage⟩
      rw [hexpanded] at hsome
      cases hsome
      exact hdep'

/-- A plan below the cap follows the newest versions exactly when the lists read one way. -/
theorem followsNewest_iff {V : Type} [LinearOrder V] (env : ClosureEnv ε)
    (direct : List (String × String)) (order : String → V)
    (hcap : (env.closed direct).plan.length < maxClosure) :
    env.FollowsNewest direct order ↔ env.ReadsOneWay direct order :=
  ⟨fun h => h.readsOneWay hcap, fun h => h.followsNewest hcap⟩

end ClosureEnv

/-! ## A registry that lists the newest version first -/

namespace Registry

/-- A version of a package that requires another one. -/
def release (version dep : String) : Json :=
  .object [("version_normalized", .string version), ("require", .object [(dep, .string "*")])]

/-- A public registry that lists these versions of acme/core, and has nothing else. -/
def listing (versions : List Json) : ClosureEnv Unit where
  present := []
  upstreams := [(1, ⟨1, .composer, "https://registry.example", .public, none, none, .basic⟩)]
  fetchP2 _ package := .ok (if package = "acme/core" then some versions else none)

/-- The shop requires acme/core. -/
def direct : List (String × String) := [("acme/shop", "acme/core")]

/-- The plan for lists of acme/core. -/
theorem closed_listing (versions : List Json) {final : ClosureState} {turns : ℕ}
    (h : (fun t => t >>= (listing versions).closureStep)^[turns]
      (some (.start (ClosureEnv.directQueue direct))) = some final)
    (hend : (listing versions).closureStep final = none) :
    (listing versions).closed direct = final := by
  unfold ClosureEnv.closed
  rw [ClosureEnv.closureLoop_eq]
  have hstep : (listing versions).closureStep = (listing versions).worklist.step :=
    funext (listing versions).closureStep_eq
  rw [hstep] at h hend
  exact Worklist.run_eq_of_turns h hend

/-- Two versions of acme/core, the newest first. -/
def newestFirst : List Json := [release "2.0.0.0" "acme/new", release "1.0.0.0" "acme/old"]

/-- Listed from the newest down, the closure follows the oldest release. -/
theorem closed_newestFirst : (listing newestFirst).closed direct = ⟨[], ["acme/old", "acme/core"],
    [planEntry "acme/core" "resolvable-public" (some 1) "acme/shop",
      planEntry "acme/old" "missing" none "acme/core"]⟩ :=
  @closed_listing newestFirst _ 2 rfl rfl

/-- The plan follows the old version. -/
theorem newestFirst_not_followed :
    ¬ (listing newestFirst).FollowsNewest direct (id : String → String) := by
  intro h
  have hcore : "acme/core" ∈ (listing newestFirst).planNames direct := by
    unfold ClosureEnv.planNames
    rw [closed_newestFirst]
    decide
  have hhighest : Highest id newestFirst (release "2.0.0.0" "acme/new") := by
    refine ⟨List.mem_cons_self, fun other hother => ?_⟩
    obtain rfl | rfl := List.mem_pair.1 hother
    · exact ⟨"2.0.0.0", "2.0.0.0", rfl, rfl, le_rfl⟩
    · exact ⟨"1.0.0.0", "2.0.0.0", rfl, rfl, by decide⟩
  have hnew := h.newest "acme/core" hcore newestFirst rfl _ hhighest "acme/new"
  have hin := hnew.2 ⟨List.mem_cons_self, by decide⟩
  exact absurd hin (by decide)

/-- One version of acme/core. -/
def single : List Json := [release "1.0.0.0" "acme/old"]

/-- One release leads to what it requires. -/
theorem closed_single : (listing single).closed direct = ⟨[], ["acme/old", "acme/core"],
    [planEntry "acme/core" "resolvable-public" (some 1) "acme/shop",
      planEntry "acme/old" "missing" none "acme/core"]⟩ :=
  @closed_listing single _ 2 rfl rfl

/-- Only the one listing is expanded. -/
theorem expanded_single {package : String} {versions : List Json}
    (h : (listing single).expanded package = some versions) : versions = single := by
  unfold ClosureEnv.expanded ClosureEnv.resolver listing at h
  by_cases hcore : package = "acme/core"
  · subst hcore
    exact (Option.some.inj h).symm
  · simp [hcore] at h

/-- A list of one version reads one way. -/
theorem single_followed : (listing single).FollowsNewest direct (id : String → String) := by
  refine (ClosureEnv.followsNewest_iff (listing single) direct id ?_).2 ⟨?_, ?_, ?_⟩
  · rw [closed_single]
    decide
  · intro package versions hpackage hexpanded version hversion dep hdep hisPackage
    rw [expanded_single hexpanded, single, List.mem_singleton] at hversion
    exact .expanded hpackage trivial (expanded_single hexpanded ▸ hexpanded)
      (ClosureEnv.mem_latestRequires_iff.2 ⟨version, hversion ▸ rfl, hdep⟩) hisPackage
  · intro among hreading package hpackage
    induction hpackage with
    | direct hmem hisPackage => exact hreading.direct _ _ hmem hisPackage
    | @expanded package dep versions _ _ hexpanded hmem hisPackage ih =>
      obtain rfl := expanded_single hexpanded
      obtain ⟨version, hversion, hwithin⟩ :=
        hreading.version package single ih hexpanded (List.cons_ne_nil _ _)
      obtain ⟨version', hlast, hdep⟩ := ClosureEnv.mem_latestRequires_iff.1 hmem
      have heq : version' = version :=
        (Option.some.inj hlast).symm.trans (List.mem_singleton.1 hversion).symm
      exact hwithin dep (heq ▸ hdep) hisPackage
  · intro package versions hpackage hexpanded version hhighest dep hisPackage
    have hversion := hhighest.1
    rw [expanded_single hexpanded] at hversion ⊢
    rw [List.mem_singleton.1 hversion]
    exact Iff.rfl

end Registry

end Sconce
