/-
# The dependency plan

`resolveClosure` follows the requires of a repository's packages through its composer upstreams
and says of every package it comes to whether the repository has it, which upstream resolves it,
or that none does.  What the registries answer is a parameter: the graph may be infinite, or go
in circles.

The loop is a worklist with the cap `maxClosure` (`closureStep_eq`).  So it ends on every graph,
lists no package twice, lists only packages that are required through listed ones, and, unless it
stops at the cap, all that are required (`resolveClosure_sound`).
-/
import Sconce.Serving.Scope
import Sconce.Lib.Worklist

namespace Sconce

/-! ## What is read -/

/-- `value.as_object()`, its keys. -/
def Json.keys : Json → Option (List String)
  | .object fields => some (fields.map (·.1))
  | _ => none

/-- `repo_direct_requires`: pairs of a package and what a version of it requires.
`jsonb_object_keys` refuses what is no object. -/
def Catalog.repoDirectRequires (db : Catalog) (repo : Uuid) :
    Except SqlError (List (String × String)) := do
  let requires ← (db.versionRows.filter fun r => r.package.repoId = repo).mapM fun r =>
    match ((r.version.composerJson.get "require").getD (.object [])).keys with
    | some deps => .ok (deps.map fun dep => (r.package.name, dep))
    | none => .error SqlError.castError
  return requires.flatten.dedup

/-- The composer upstreams of the repository, private ones first. -/
def Catalog.composerUpstreams (db : Catalog) (repo : Uuid) : List (Uuid × Upstream) :=
  let upstreams := db.upstreams.rows.filter fun u => u.2.repoId = repo ∧ u.2.kind = .composer
  upstreams.filter (fun u => u.2.visibility = .private) ++
    upstreams.filter fun u => u.2.visibility ≠ .private

/-- `fetch_p2`: the versions a registry lists for a package, if it has it. -/
abbrev FetchP2 (ε : Type) := String → String → Except ε (Option (List Json))

/-- What the loop of `resolve_closure` reads. -/
structure ClosureEnv (ε : Type) where
  present : List String
  upstreams : List (Uuid × Upstream)
  fetchP2 : FetchP2 ε

/-! ## The loop -/

/-- `MAX_CLOSURE`. -/
def maxClosure : ℕ := 2000

/-- `is_package`: platform requirements have no slash. -/
def isPackage (name : String) : Bool := name.toList.contains '/'

/-- An entry of the plan. -/
structure DependencyPlanEntry where
  name : String
  status : String
  resolverUpstreamId : Option Uuid
  requiredBy : Option String
  deriving DecidableEq

/-- `plan_entry`. -/
def planEntry (name status : String) (upstream : Option Uuid) (requiredBy : String) :
    DependencyPlanEntry :=
  ⟨name, status, upstream, some requiredBy⟩

/-- `latest_requires`: what the last version of the list requires. -/
def latestRequires (versions : List Json) : List String :=
  ((versions.getLast?.bind (·.get "require")).bind Json.keys).getD []

abbrev ClosureState := Worklist.State String String DependencyPlanEntry

namespace ClosureEnv

variable {ε : Type} (env : ClosureEnv ε)

/-- The first upstream that has the package, with the versions it lists; one that fails is passed
over like one that has it not. -/
def resolver (dep : String) : Option ((Uuid × Upstream) × List Json) :=
  env.upstreams.findSome? fun u =>
    match env.fetchP2 u.2.base dep with
    | .ok (some versions) => some (u, versions)
    | _ => none

/-- One turn of the loop; none where it ends or breaks. -/
def closureStep (s : ClosureState) : Option ClosureState :=
  match s.queue with
  | [] => none
  | (dep, requiredBy) :: queue =>
    if !isPackage dep || s.seen.contains dep then some { s with queue }
    else if maxClosure ≤ s.plan.length then none
    else if env.present.contains dep then
      some ⟨queue, dep :: s.seen, s.plan ++ [planEntry dep "present" none requiredBy]⟩
    else
      match env.resolver dep with
      | some (u, versions) =>
        let status :=
          if u.2.visibility = .private then "resolvable-private" else "resolvable-public"
        some ⟨queue ++ ((latestRequires versions).filter isPackage).map (·, dep), dep :: s.seen,
          s.plan ++ [planEntry dep status (some u.1) requiredBy]⟩
      | none => some ⟨queue, dep :: s.seen, s.plan ++ [planEntry dep "missing" none requiredBy]⟩

/-! ## The worklist of it -/

/-- The status and the upstream that are planned for a package. -/
def classify (dep : String) : String × Option Uuid :=
  if env.present.contains dep then ("present", none)
  else
    match env.resolver dep with
    | some (u, _) =>
      (if u.2.visibility = .private then "resolvable-private" else "resolvable-public", some u.1)
    | none => ("missing", none)

/-- The versions of a package that is expanded: one that the repository has is not. -/
def expanded (dep : String) : Option (List Json) :=
  if env.present.contains dep then none else (env.resolver dep).map (·.2)

/-- The packages that a package leads to. -/
def expansion (dep : String) : List String :=
  match env.expanded dep with
  | some versions => (latestRequires versions).filter isPackage
  | none => []

/-- The worklist of the loop. -/
def worklist : Worklist String String DependencyPlanEntry where
  admits := isPackage
  entry dep requiredBy := planEntry dep (env.classify dep).1 (env.classify dep).2 requiredBy
  next dep := (env.expansion dep).map (·, dep)
  node := DependencyPlanEntry.name
  node_entry _ _ := rfl
  cap := maxClosure

/-- A turn of the loop is a step of the worklist. -/
theorem closureStep_eq (s : ClosureState) : env.closureStep s = env.worklist.step s := by
  unfold closureStep Worklist.step
  cases s.queue with
  | nil => rfl
  | cons item queue =>
    obtain ⟨dep, requiredBy⟩ := item
    dsimp only [worklist]
    refine if_congr Iff.rfl rfl (if_congr Iff.rfl rfl ?_)
    unfold classify expansion expanded
    by_cases hpresent : env.present.contains dep
    · rw [if_pos hpresent, if_pos hpresent, if_pos hpresent, List.map_nil, List.append_nil]
    · rw [if_neg hpresent, if_neg hpresent, if_neg hpresent]
      cases env.resolver dep with
      | none => rw [Option.map_none, List.map_nil, List.append_nil]
      | some found => rfl

/-- The loop. -/
def closureLoop (s : ClosureState) : ClosureState :=
  match _h : env.closureStep s with
  | some s' => closureLoop s'
  | none => s
termination_by env.worklist.rank s
decreasing_by
  rw [closureStep_eq] at _h
  exact Worklist.rank_lt _h

/-- The loop is the worklist run to its end. -/
theorem closureLoop_eq (s : ClosureState) : env.closureLoop s = env.worklist.run s := by
  induction s using closureLoop.induct env with
  | case1 s s' hs ih =>
    rw [closureLoop]
    split
    · next t ht =>
      rw [hs] at ht
      cases ht
      exact ih.trans (Worklist.run_of_step (env.closureStep_eq s ▸ hs)).symm
    · next hnone =>
      rw [hs] at hnone
      cases hnone
  | case2 s hs =>
    rw [Worklist.run_of_end (env.closureStep_eq s ▸ hs), closureLoop]
    split
    · next t ht =>
      rw [hs] at ht
      cases ht
    · rfl

/-- The queue the loop starts with. -/
def directQueue (direct : List (String × String)) : List (String × String) :=
  (direct.filter fun edge => isPackage edge.2).map fun edge => (edge.2, edge.1)

/-- The end of the loop, started with what the repository's own packages require. -/
def closed (direct : List (String × String)) : ClosureState :=
  env.closureLoop (.start (directQueue direct))

/-- The package is required by the repository's own packages, or by one that is expanded and of
which `among` holds. -/
inductive Required (direct : List (String × String)) (among : String → Prop) : String → Prop
  | direct {package dep : String} (hmem : (package, dep) ∈ direct) (hpackage : isPackage dep) :
    Required direct among dep
  | expanded {package dep : String} {versions : List Json} (h : Required direct among package)
    (hamong : among package) (hexpanded : env.expanded package = some versions)
    (hmem : dep ∈ latestRequires versions) (hpackage : isPackage dep) :
    Required direct among dep

variable {env}

/-- The loop starts from the packages that the direct requirements name. -/
theorem mem_directQueue {direct : List (String × String)} {dep package : String} :
    (dep, package) ∈ directQueue direct ↔ (package, dep) ∈ direct ∧ isPackage dep := by
  unfold directQueue
  rw [List.mem_map]
  constructor
  · rintro ⟨⟨package', dep'⟩, hmem, heq⟩
    cases heq
    exact List.mem_filter.1 hmem
  · intro h
    exact ⟨(package, dep), List.mem_filter.2 h, rfl⟩

/-- What a package leads to: what its latest release requires, platform packages aside. -/
theorem mem_expansion {package dep : String} : dep ∈ env.expansion package ↔
    ∃ versions, env.expanded package = some versions ∧ dep ∈ latestRequires versions ∧
      isPackage dep := by
  unfold expansion
  cases env.expanded package with
  | none => exact ⟨nofun, nofun⟩
  | some versions =>
    rw [List.mem_filter]
    exact ⟨fun h => ⟨versions, rfl, h⟩, by rintro ⟨_, ⟨⟩, h⟩; exact h⟩

/-- What is required is what the worklist reaches. -/
theorem required_iff_reach {direct : List (String × String)} {among : String → Prop}
    {name : String} :
    env.Required direct among name ↔ env.worklist.Reach (directQueue direct) among name := by
  constructor
  · intro h
    induction h with
    | direct hmem hpackage => exact .queued (mem_directQueue.2 ⟨hmem, hpackage⟩) hpackage
    | expanded _ hamong hexpanded hmem hpackage ih =>
      exact .next ih hamong
        (List.mem_map.2 ⟨_, mem_expansion.2 ⟨_, hexpanded, hmem, hpackage⟩, rfl⟩) hpackage
  · intro h
    induction h with
    | queued hmem hadmits => exact .direct (mem_directQueue.1 hmem).1 hadmits
    | next _ hamong hmem hadmits ih =>
      obtain ⟨dep, hdep, heq⟩ := List.mem_map.1 hmem
      cases heq
      obtain ⟨versions, hexpanded, hin, hpackage⟩ := mem_expansion.1 hdep
      exact .expanded ih hamong hexpanded hin hpackage

end ClosureEnv

/-! ## The plan -/

/-- What `resolve_closure` reads of the catalog. -/
def Catalog.closureEnv {ε : Type} (db : Catalog) (repo : Uuid) (fetchP2 : FetchP2 ε) :
    ClosureEnv ε :=
  ⟨db.allPackageNames repo, db.composerUpstreams repo, fetchP2⟩

/-- `resolve_closure`. -/
def resolveClosure {ε : Type} (fetchP2 : FetchP2 ε) (db : Catalog) (repo : Uuid) :
    Except SqlError (List DependencyPlanEntry) := do
  let direct ← db.repoDirectRequires repo
  return ((db.closureEnv repo fetchP2).closed direct).plan

/-- A plan for what a repository's packages require directly. -/
structure SoundPlan {ε : Type} (env : ClosureEnv ε) (direct : List (String × String))
    (plan : List DependencyPlanEntry) : Prop where
  /-- The loop ends after finitely many turns, with the plan. -/
  ends : ∃ turns : ℕ, ∃ s, (fun t => t >>= env.closureStep)^[turns]
    (some (.start (ClosureEnv.directQueue direct))) = some s ∧ env.closureStep s = none ∧ s.plan = plan
  capped : plan.length ≤ maxClosure
  nodup : (plan.map (·.name)).Nodup
  /-- Every entry is required through packages of the plan. -/
  required : ∀ name ∈ plan.map (·.name), env.Required direct (· ∈ plan.map (·.name)) name
  /-- Unless the loop breaks off with something left in the queue, all that is required is
  planned. -/
  complete : (env.closed direct).queue = [] → ∀ name, name ∈ plan.map (·.name) ↔
    env.Required direct (fun _ => True) name

/-- A plan that is reached is sound, whatever the fetches answer. -/
theorem ClosureEnv.soundPlan {ε : Type} (env : ClosureEnv ε) (direct : List (String × String)) :
    SoundPlan env direct (env.closed direct).plan := by
  have hrun : env.closed direct = env.worklist.run (.start (directQueue direct)) :=
    env.closureLoop_eq _
  have hsound := env.worklist.sound_run (directQueue direct)
  have hstep : env.closureStep = env.worklist.step := funext env.closureStep_eq
  rw [← hrun] at hsound
  refine ⟨?_, hsound.length, hsound.nodup, fun name hname => ?_, fun hend name => ?_⟩
  · obtain ⟨turns, hturns, hend⟩ := env.worklist.run_ends (.start (directQueue direct))
    rw [← hrun] at hturns hend
    exact ⟨turns, env.closed direct, by rw [hstep, hturns], by rw [hstep, hend], rfl⟩
  · rw [required_iff_reach]
    exact hsound.planned name hname
  · rw [required_iff_reach, hrun] at *
    exact Worklist.mem_plan_iff hend

/-- `resolve_closure` ends with a sound plan, whatever the registries list. -/
theorem resolveClosure_sound {ε : Type} (fetchP2 : FetchP2 ε) (db : Catalog) (repo : Uuid)
    (direct : List (String × String)) (h : db.repoDirectRequires repo = .ok direct) :
    ∃ plan, resolveClosure fetchP2 db repo = .ok plan ∧
      SoundPlan (db.closureEnv repo fetchP2) direct plan := by
  refine ⟨_, ?_, (db.closureEnv repo fetchP2).soundPlan direct⟩
  unfold resolveClosure
  rw [h]
  rfl

/-- A repository with a registry, whose one package requires PHP and another package. -/
def requiringShop : Catalog :=
  { Catalog.empty with
    upstreams := ⟨[(1, ⟨1, .composer, "https://registry.example", .public, none, none, .basic⟩)],
      by decide⟩
    packages := ⟨[(1, ⟨1, "acme/shop", "vcs", none, .private, none, none, "", .ok, none, none, none,
      none⟩)], by decide⟩
    packageVersions := ⟨[(⟨1, "1.0.0.0"⟩, ⟨"1.0.0", "stable",
      .object [("require", .object [("php", .string "*"), ("acme/core", .string "*")])],
      none, none, none, none, none, none, none, 0, none, none⟩)], by decide⟩ }

/-- A registry in which every package requires another one, without end. -/
def endless : FetchP2 Unit := fun _ package =>
  .ok (some [.object [("require", .object [(package ++ "+", .string "*")])]])

/-- A plan that is cut at its cap is sound too. -/
theorem resolveClosure_sound_endless : ∃ plan,
    resolveClosure endless requiringShop 1 = .ok plan ∧
      SoundPlan (requiringShop.closureEnv 1 endless)
        [("acme/shop", "php"), ("acme/shop", "acme/core")] plan :=
  resolveClosure_sound endless requiringShop 1 _ rfl

end Sconce
