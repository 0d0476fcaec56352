/-
# Slugs under races

A creation looks whether its slug is retired with one statement and inserts with a later one; a
rename reads the current slug, looks whether the new one is free, and then retires the one and
sets the other in one transaction.  What was free at the look can be retired at the write
(`Rebrand.repoints`); the dashboard, which looks for the trimmed slug and inserts the untrimmed
one, need not even be raced.

When no slug is given that is retired as it is given, a slug that was retired never belongs to
somebody else, and a pair of slugs never leads to another repository
(`never_repoints_of_timely`).
-/
import Sconce.Lib.Interleaving
import Sconce.Serving.Slugs

namespace Sconce

open Interleaving Effect

/-! ## The programs -/

/-- A call: the dashboard's forms, the commands, and a request for an address. -/
inductive SlugCall where
  | createOrgForm (slug : String) (name : Option String)
  | createRepoForm (org repo : String)
  | orgCreate (slug : String) (name : Option String)
  | repoCreate (org repo : String)
  | renameOrg (org : Uuid) (newSlug : String)
  | renameRepo (repo : Uuid) (newSlug : String)
  | deleteRepo (repo : Uuid)
  | resolve (org repo : String)

namespace SlugCall

/-- The creation of an organization: the slug it looks for, the slug it inserts, the name. -/
def orgCreation : SlugCall → Option (String × String × Option String)
  | .createOrgForm slug name => some (trim slug, slug, name.filter fun n => !n.isEmpty)
  | .orgCreate slug name => some (slug, slug, name)
  | _ => none

/-- The creation of a repository: the slug it looks for, and the slugs it inserts under. -/
def repoCreation : SlugCall → Option (String × String × String)
  | .createRepoForm org repo => some (trim repo, org, repo)
  | .repoCreate org repo => some (repo, org, repo)
  | _ => none

def isRename : SlugCall → Bool
  | .renameOrg .. | .renameRepo .. => true
  | _ => false

-- the form looks for another slug than it inserts
example : (createOrgForm " acme" none).orgCreation = some ("acme", " acme", none) := by decide

/-- What a rename reads first: the scope, the entity, its current slug, and the new one. -/
def renames (db : Catalog) : SlugCall → Option (SlugScope × Uuid × String × String)
  | .renameOrg org newSlug =>
    if trim newSlug = "" then none
    else (db.organizations.get? org).map fun o => (.org, org, o.slug, trim newSlug)
  | .renameRepo repo newSlug =>
    if trim newSlug = "" then none
    else (db.repositories.get? repo).map fun r => (.repo r.orgId, repo, r.slug, trim newSlug)
  | _ => none

end SlugCall

/-- Where a call stands. -/
inductive SlugPc where
  | begun
  | orgChecked (slug : String) (name : Option String)
  | orgFound (id : Uuid) (checked org repo : String)
  | repoChecked (org repo : String)
  | created (id : Uuid)
  | slugRead (scope : SlugScope) (entity : Uuid) (current newSlug : String)
  | cleared (scope : SlugScope) (entity : Uuid) (current newSlug : String)
  | renamed
  | deleting (org repo : Uuid) (slug : String)
  | deleted
  | orgMissed
  | orgResolved (id : Uuid) (slug : String) (moved : Bool)
  | repoMissed (id : Uuid) (slug : String)
  | resolved (loc : Option RepoLocation)
  | refused
  | failed (e : SqlError)

section Steps

variable {ι : Type}

/-- One statement or committed transaction of a call; what is not permitted takes none. -/
inductive SlugAct (calls : ι → SlugCall) : Act ι Catalog SlugPc
  | checksOrg {i s checked slug name} (hcall : (calls i).orgCreation = some (checked, slug, name))
      (h : s.slugRetired .org checked = false) : SlugAct calls i s .begun s (.orgChecked slug name)
  | refusesOrg {i s checked slug name} (hcall : (calls i).orgCreation = some (checked, slug, name))
      (h : s.slugRetired .org checked = true) : SlugAct calls i s .begun s .refused
  | createsOrg {i s slug name newId id s'} (h : exec (createOrg newId slug name) s = (.ok id, s')) :
      SlugAct calls i s (.orgChecked slug name) s' (.created id)
  | createOrgFails {i s slug name newId e s'}
      (h : exec (createOrg newId slug name) s = (.error e, s')) :
      SlugAct calls i s (.orgChecked slug name) s' (.failed e)
  | findsOrg {i s checked org repo id} (hcall : (calls i).repoCreation = some (checked, org, repo))
      (h : s.liveEntity .org org = some id) :
      SlugAct calls i s .begun s (.orgFound id checked org repo)
  | noOrgForm {i s org repo} (hcall : calls i = .createRepoForm org repo)
      (h : s.liveEntity .org org = none) : SlugAct calls i s .begun s .refused
  /-- The command goes on without a look. -/
  | noOrgCommand {i s org repo} (hcall : calls i = .repoCreate org repo)
      (h : s.liveEntity .org org = none) : SlugAct calls i s .begun s (.repoChecked org repo)
  | checksRepo {i s id checked org repo} (h : s.slugRetired (.repo id) checked = false) :
      SlugAct calls i s (.orgFound id checked org repo) s (.repoChecked org repo)
  | refusesRepo {i s id checked org repo} (h : s.slugRetired (.repo id) checked = true) :
      SlugAct calls i s (.orgFound id checked org repo) s .refused
  /-- The id is drawn anew. -/
  | createsRepo {i s org repo newId id s'} (hnever : ∀ k e, s.slugNames.retired k e → e ≠ newId)
      (h : exec (createRepo newId org repo) s = (.ok id, s')) :
      SlugAct calls i s (.repoChecked org repo) s' (.created id)
  | createRepoFails {i s org repo newId e s'}
      (h : exec (createRepo newId org repo) s = (.error e, s')) :
      SlugAct calls i s (.repoChecked org repo) s' (.failed e)
  | readsSlug {i s scope entity current newSlug}
      (h : (calls i).renames s = some (scope, entity, current, newSlug)) (hne : current ≠ newSlug) :
      SlugAct calls i s .begun s (.slugRead scope entity current newSlug)
  | unchanged {i s scope entity current newSlug}
      (h : (calls i).renames s = some (scope, entity, current, newSlug)) (heq : current = newSlug) :
      SlugAct calls i s .begun s .renamed
  | invalid {i s} (hcall : (calls i).isRename = true) (h : (calls i).renames s = none) :
      SlugAct calls i s .begun s .refused
  | clears {i s scope entity current newSlug} (h : s.slugUnavailable scope newSlug = false) :
      SlugAct calls i s (.slugRead scope entity current newSlug) s
        (.cleared scope entity current newSlug)
  | unavailable {i s scope entity current newSlug} (h : s.slugUnavailable scope newSlug = true) :
      SlugAct calls i s (.slugRead scope entity current newSlug) s .refused
  | renames {i s scope entity current newSlug newId s'}
      (h : exec (commitRename newId scope entity current newSlug) s = (.ok (), s')) :
      SlugAct calls i s (.cleared scope entity current newSlug) s' .renamed
  | renameFails {i s scope entity current newSlug newId e s'}
      (h : exec (commitRename newId scope entity current newSlug) s = (.error e, s')) :
      SlugAct calls i s (.cleared scope entity current newSlug) s' (.failed e)
  | readsDoomed {i s repo r} (hcall : calls i = .deleteRepo repo)
      (h : s.repositories.get? repo = some r) :
      SlugAct calls i s .begun s (.deleting r.orgId repo r.slug)
  | noRepo {i s repo} (hcall : calls i = .deleteRepo repo) (h : s.repositories.get? repo = none) :
      SlugAct calls i s .begun s .refused
  | deletes {i s org repo slug newId s'}
      (h : exec (commitDelete newId org repo slug) s = (.ok (), s')) :
      SlugAct calls i s (.deleting org repo slug) s' .deleted
  | deleteFails {i s org repo slug newId e s'}
      (h : exec (commitDelete newId org repo slug) s = (.error e, s')) :
      SlugAct calls i s (.deleting org repo slug) s' (.failed e)
  | findsLiveOrg {i s org repo id slug} (hcall : calls i = .resolve org repo)
      (h : s.selectLive .org org = some (id, slug)) :
      SlugAct calls i s .begun s (.orgResolved id slug false)
  | missesLiveOrg {i s org repo} (hcall : calls i = .resolve org repo)
      (h : s.selectLive .org org = none) : SlugAct calls i s .begun s .orgMissed
  | findsFormerOrg {i s org repo id slug} (hcall : calls i = .resolve org repo)
      (h : s.selectFormer .org org = some (id, slug)) :
      SlugAct calls i s .orgMissed s (.orgResolved id slug true)
  | missesFormerOrg {i s org repo} (hcall : calls i = .resolve org repo)
      (h : s.selectFormer .org org = none) : SlugAct calls i s .orgMissed s (.resolved none)
  | findsLiveRepo {i s org repo id slug moved repoId repoSlug} (hcall : calls i = .resolve org repo)
      (h : s.selectLive (.repo id) repo = some (repoId, repoSlug)) :
      SlugAct calls i s (.orgResolved id slug moved) s
        (.resolved (some ⟨repoId, slug, repoSlug, moved⟩))
  | missesLiveRepo {i s org repo id slug moved} (hcall : calls i = .resolve org repo)
      (h : s.selectLive (.repo id) repo = none) :
      SlugAct calls i s (.orgResolved id slug moved) s (.repoMissed id slug)
  | findsFormerRepo {i s org repo id slug repoId repoSlug} (hcall : calls i = .resolve org repo)
      (h : s.selectFormer (.repo id) repo = some (repoId, repoSlug)) :
      SlugAct calls i s (.repoMissed id slug) s (.resolved (some ⟨repoId, slug, repoSlug, true⟩))
  | missesFormerRepo {i s org repo id slug} (hcall : calls i = .resolve org repo)
      (h : s.selectFormer (.repo id) repo = none) :
      SlugAct calls i s (.repoMissed id slug) s (.resolved none)

/-- Every call about to begin. -/
def slugsFrom (db : Catalog) : Config ι Catalog SlugPc := ⟨db, fun _ => .begun⟩

/-! ## What is claimed, and when it holds -/

/-- From the first of two catalogs to the second: nobody but the one a slug was retired for goes
by it, and a pair of slugs that a repository went by leads to that repository, under the slugs it
goes by, or nowhere; a request that took its statements among the others' is told slugs that are
or were its own. -/
structure LastingSlugs (calls : ι → SlugCall) (c c' : Config ι Catalog SlugPc) : Prop where
  retired : ∀ k e e', c.shared.slugNames.retired k e → c'.shared.slugNames.live k e' → e' = e
  resolves : ∀ org repo id loc, c.shared.GoesBy org repo id →
    c'.shared.resolveRepoCanonical org repo = some loc →
      loc.repoId = id ∧ c'.shared.GoesBy loc.orgSlug loc.repoSlug id
  answers : ∀ i org repo id loc, c.shared.GoesBy org repo id → calls i = .resolve org repo →
    c'.pc i = .resolved (some loc) →
      loc.repoId = id ∧ c'.shared.KnownBy loc.orgSlug loc.repoSlug id

/-- In every run, from any moment on. -/
def NeverRepoints [DecidableEq ι] (step : Act ι Catalog SlugPc) (calls : ι → SlugCall)
    (db : Catalog) : Prop :=
  ∀ {events events' : List (Event ι Catalog)} {c c' : Config ι Catalog SlugPc},
    Execution step (slugsFrom db) events c → Execution step c events' c' → LastingSlugs calls c c'

/-- What a step has to meet: the slug it gives is not retired as it gives it. -/
def TimelySlug (s : Catalog) : SlugPc → SlugPc → Prop
  | .orgChecked slug _, .created _ =>
    s.liveEntity .org slug = none → s.slugRetired .org slug = false
  | .repoChecked org repo, .created _ => ∀ id, s.liveEntity .org org = some id →
    s.liveEntity (.repo id) repo = none → s.slugRetired (.repo id) repo = false
  | .cleared scope _ _ newSlug, .renamed => s.slugRetired scope newSlug = false
  | _, _ => True

/-- The steps that meet it. -/
def TimelySlugAct (calls : ι → SlugCall) : Act ι Catalog SlugPc :=
  fun i s p s' p' => SlugAct calls i s p s' p' ∧ TimelySlug s p p'

end Steps

/-! ## Every timely run -/

/-- What a call knows where it stands: what it has read was so then. -/
def SlugPc.Justified (call : SlugCall) (s : Catalog) : SlugPc → Prop
  | .slugRead scope entity current newSlug | .cleared scope entity current newSlug =>
    s.slugNames.Known (scope, current) entity ∧ current ≠ newSlug
  | .deleting org repo slug => s.slugNames.Known (.repo org, slug) repo
  | .orgResolved id slug _ | .repoMissed id slug => ∀ org repo, call = .resolve org repo →
    s.slugNames.Known (.org, org) id ∧ s.slugNames.Known (.org, slug) id
  | .resolved (some loc) => ∀ org repo, call = .resolve org repo →
    s.KnownBy org repo loc.repoId ∧ s.KnownBy loc.orgSlug loc.repoSlug loc.repoId
  | _ => True

/-- It stays so. -/
theorem SlugPc.Justified.step {call : SlugCall} {s s' : Catalog} {p : SlugPc}
    (h : p.Justified call s) (hstep : s.SlugStep s') : p.Justified call s' := by
  cases p with
  | slugRead scope entity current newSlug => exact ⟨h.1.step hstep.names, h.2⟩
  | cleared scope entity current newSlug => exact ⟨h.1.step hstep.names, h.2⟩
  | deleting org repo slug => exact Names.Known.step h hstep.names
  | orgResolved id slug moved =>
    intro org repo hcall
    exact ⟨(h org repo hcall).1.step hstep.names, (h org repo hcall).2.step hstep.names⟩
  | repoMissed id slug =>
    intro org repo hcall
    exact ⟨(h org repo hcall).1.step hstep.names, (h org repo hcall).2.step hstep.names⟩
  | resolved loc =>
    cases loc with
    | none => trivial
    | some loc =>
      intro org repo hcall
      exact ⟨(h org repo hcall).1.step hstep, (h org repo hcall).2.step hstep⟩
  | _ => trivial

section Runs

variable {ι : Type} {calls : ι → SlugCall} {i : ι} {s s' : Catalog} {p p' : SlugPc}

/-- What a rename reads first is a slug its entity goes by. -/
theorem SlugCall.live_of_renames {call : SlugCall} {scope : SlugScope} {entity : Uuid}
    {current newSlug : String} (h : call.renames s = some (scope, entity, current, newSlug)) :
    s.slugNames.live (scope, current) entity := by
  cases call with
  | renameOrg org new =>
    simp only [renames] at h
    split_ifs at h
    obtain ⟨o, ho, heq⟩ := Option.map_eq_some_iff.1 h
    simp only [Prod.mk.injEq] at heq
    obtain ⟨rfl, rfl, rfl, -⟩ := heq
    exact ⟨o, ho, rfl⟩
  | renameRepo repo new =>
    simp only [renames] at h
    split_ifs at h
    obtain ⟨r, hr, heq⟩ := Option.map_eq_some_iff.1 h
    simp only [Prod.mk.injEq] at heq
    obtain ⟨rfl, rfl, rfl, -⟩ := heq
    exact ⟨r, hr, rfl, rfl⟩
  | _ => cases h

/-- **A timely step is a step of names, and what it reads is so.** -/
theorem TimelySlugAct.step (h : TimelySlugAct calls i s p s' p') (hs : s.SlugsSound)
    (hp : p.Justified (calls i) s) : s.SlugStep s' ∧ p'.Justified (calls i) s' := by
  obtain ⟨hact, htimely⟩ := h
  cases hact with
  | createsOrg hrun => exact ⟨hs.createOrg hrun htimely, trivial⟩
  | createOrgFails hrun =>
    obtain rfl := createOrg_error hrun
    exact ⟨hs.refl, trivial⟩
  | createsRepo hnever hrun => exact ⟨hs.createRepo hrun hnever htimely, trivial⟩
  | createRepoFails hrun =>
    obtain rfl := createRepo_error hrun
    exact ⟨hs.refl, trivial⟩
  -- what a request has read is justified by the state it was read in
  | readsSlug hread hne => exact ⟨hs.refl, Or.inl (SlugCall.live_of_renames hread), hne⟩
  | clears hfree => exact ⟨hs.refl, hp⟩
  | renames hrun => exact ⟨hs.commitRename hrun hp.1 htimely hp.2, trivial⟩
  | renameFails hrun =>
    obtain rfl := atomically_error hrun
    exact ⟨hs.refl, trivial⟩
  | @readsDoomed i s repo r hcall hr => exact ⟨hs.refl, Or.inl ⟨r, hr, rfl, rfl⟩⟩
  | deletes hrun => exact ⟨hs.commitDelete hrun hp, trivial⟩
  | deleteFails hrun =>
    obtain rfl := atomically_error hrun
    exact ⟨hs.refl, trivial⟩
  | findsLiveOrg hcall hfound =>
    obtain ⟨hlive, rfl⟩ := Catalog.selectLive_some hfound
    refine ⟨hs.refl, fun org repo hcall' => ?_⟩
    obtain ⟨rfl, -⟩ := SlugCall.resolve.inj (hcall.symm.trans hcall')
    exact ⟨Or.inl hlive, Or.inl hlive⟩
  | findsFormerOrg hcall hfound =>
    obtain ⟨hretired, hlive⟩ := Catalog.selectFormer_some hs.homed hfound
    refine ⟨hs.refl, fun org repo hcall' => ?_⟩
    obtain ⟨rfl, -⟩ := SlugCall.resolve.inj (hcall.symm.trans hcall')
    exact ⟨Or.inr hretired, Or.inl hlive⟩
  | @findsLiveRepo i s org repo id slug moved repoId repoSlug hcall hfound =>
    obtain ⟨hlive, rfl⟩ := Catalog.selectLive_some hfound
    refine ⟨hs.refl, fun org' repo' hcall' => ?_⟩
    obtain ⟨rfl, rfl⟩ := SlugCall.resolve.inj (hcall.symm.trans hcall')
    obtain ⟨hknown, hnow⟩ := hp org _ hcall
    exact ⟨⟨id, hknown, Or.inl hlive⟩, ⟨id, hnow, Or.inl hlive⟩⟩
  | missesLiveRepo hcall hmissed => exact ⟨hs.refl, hp⟩
  -- a former name leads to an entity that is live now
  | @findsFormerRepo i s org repo id slug repoId repoSlug hcall hfound =>
    obtain ⟨hretired, hlive⟩ := Catalog.selectFormer_some hs.homed hfound
    refine ⟨hs.refl, fun org' repo' hcall' => ?_⟩
    obtain ⟨rfl, rfl⟩ := SlugCall.resolve.inj (hcall.symm.trans hcall')
    obtain ⟨hknown, hnow⟩ := hp org _ hcall
    exact ⟨⟨id, hknown, Or.inr hretired⟩, ⟨id, hnow, Or.inl hlive⟩⟩
  | _ => exact ⟨hs.refl, trivial⟩

/-- The names are in order, and whatever was known in the base is. -/
structure SlugsSince (base s : Catalog) : Prop where
  sound : s.SlugsSound
  retired : ∀ k e, base.slugNames.retired k e → s.slugNames.retired k e
  known : ∀ k e, base.slugNames.Known k e → s.slugNames.Known k e

/-- The annotation is an outline of the timely steps. -/
theorem timelySlugs_outline (base : Catalog) : Outline (TimelySlugAct calls) (SlugsSince base)
    (fun i s p => p.Justified (calls i) s) (fun _ _ _ _ => True) where
  symm := fun _ => trivial
  sound := by
    intro i s p s' p' hact hinv hat
    obtain ⟨hstep, hat'⟩ := hact.step hinv.sound hat
    refine ⟨⟨hstep.sound hinv.sound, fun k e hk => ?_, fun k e hk => ?_⟩, hat'⟩
    · exact hstep.names.kept k e (hinv.retired k e hk)
    · exact (hinv.known k e hk).step hstep.names
  free := by
    intro i j s p s' p' q _ hact hinv hat hat' _
    exact hat'.step (hact.step hinv.sound hat).1
  keeps := fun _ _ _ _ _ _ => trivial

/-- **A retired slug never points at somebody else.**  However creations, renames, deletions and
requests interleave, statement by statement, as long as no slug is given that is retired as it is
given: from any moment on, nobody but the one a slug was retired for goes by it, and a pair of
slugs that a repository went by leads to that repository or nowhere. -/
theorem never_repoints_of_timely [DecidableEq ι] (calls : ι → SlugCall) {db : Catalog}
    (h : db.SlugsSound) : NeverRepoints (TimelySlugAct calls) calls db := by
  intro events events' c c' hrun hrun'
  have hstart : Annotated (SlugsSince db) (fun i s p => p.Justified (calls i) s)
      (fun _ _ _ _ => True) (slugsFrom db : Config ι Catalog SlugPc) :=
    ⟨⟨h, fun _ _ hk => hk, fun _ _ hk => hk⟩, fun _ => trivial, fun _ _ _ => trivial⟩
  have hmid := (timelySlugs_outline db).holds hstart hrun
  have hbase : Annotated (SlugsSince c.shared) (fun i s p => p.Justified (calls i) s)
      (fun _ _ _ _ => True) c :=
    ⟨⟨hmid.inv.sound, fun _ _ hk => hk, fun _ _ hk => hk⟩, hmid.at_, hmid.apart⟩
  have hend := (timelySlugs_outline c.shared).holds hbase hrun'
  have hknown : ∀ {org repo id}, c.shared.GoesBy org repo id → c'.shared.KnownBy org repo id := by
    rintro org repo id ⟨orgId, horg, hrepo⟩
    exact ⟨orgId, hend.inv.known _ _ (Or.inl horg), hend.inv.known _ _ (Or.inl hrepo)⟩
  refine ⟨fun k e e' hretired hlive => ?_, fun org repo id loc hgoes hloc => ?_,
    fun i org repo id loc hgoes hcall hpc => ?_⟩
  · exact hend.inv.sound.names.agree k e' e hlive (hend.inv.retired k e hretired)
  · obtain ⟨hby, hnow⟩ := Catalog.resolveRepoCanonical_some hend.inv.sound.homed hloc
    obtain rfl := hend.inv.sound.knownBy_unique hby (hknown hgoes)
    exact ⟨rfl, hnow⟩
  · have hat := hend.at_ i
    rw [hpc] at hat
    obtain ⟨hby, hnow⟩ := hat org repo hcall
    obtain rfl := hend.inv.sound.knownBy_unique hby (hknown hgoes)
    exact ⟨rfl, hnow⟩

end Runs

namespace Rebrand

/-- An organization with one repository. -/
def before : Catalog :=
  { Catalog.empty with
    organizations := Table.empty.insertNew 1 ⟨"acme", none⟩
    repositories := Table.empty.insertNew 10 (newRepository 1 "main") }

/-- The organization is renamed, and somebody asks for its old slug, and for its repository's. -/
def calls : Fin 3 → SlugCall
  | 0 => .orgCreate "acme" none
  | 1 => .renameOrg 1 "shop"
  | 2 => .repoCreate "acme" "main"

theorem eq_of_single {κ ν : Type} [DecidableEq κ] {k k' : κ} {v w : ν}
    (h : ((∅ : Table κ ν).insertNew k v).get? k' = some w) : k' = k ∧ w = v := by
  rw [Table.get?_insertNew] at h
  split_ifs at h with hk
  · rw [Table.get?_empty, Option.getD_none, Option.some.injEq] at h
    exact ⟨hk, h.symm⟩
  · cases h

/-- The repository goes by its name at first. -/
theorem before_goesBy : before.GoesBy "acme" "main" 10 :=
  ⟨1, ⟨⟨"acme", none⟩, rfl, rfl⟩, ⟨newRepository 1 "main", rfl, rfl, rfl⟩⟩

theorem before_sound : before.SlugsSound where
  names :=
    { live := by
        rintro ⟨scope, slug⟩ e e' h h'
        cases scope with
        | org =>
          obtain ⟨o, ho, -⟩ := h
          obtain ⟨o', ho', -⟩ := h'
          rw [(eq_of_single ho).1, (eq_of_single ho').1]
        | repo org =>
          obtain ⟨r, hr, -⟩ := h
          obtain ⟨r', hr', -⟩ := h'
          rw [(eq_of_single hr).1, (eq_of_single hr').1]
      retired := fun _ _ _ ⟨_, h⟩ => absurd h nofun
      agree := fun _ _ _ _ ⟨_, h⟩ => absurd h nofun }
  homed := fun _ _ _ _ ⟨_, h⟩ => absurd h nofun

/-- The slug is looked for before the rename and taken after it; then the old address leads to a
repository of the newcomer. -/
theorem repoints : ¬ NeverRepoints (SlugAct calls) calls before := by
  intro hclaim
  have h₀ : Execution (SlugAct calls) (slugsFrom before) [] _ := .start
  have h₁ := h₀.step (i := 0) (.checksOrg rfl rfl)
  have h₂ := h₁.step (i := 1) (.readsSlug rfl (by decide))
  have h₃ := h₂.step (i := 1) (.clears rfl)
  have h₄ := h₃.step (i := 1) (@SlugAct.renames _ calls 1 _ .org 1 "acme" "shop" 100 _ rfl)
  have h₅ := h₄.step (i := 0) (@SlugAct.createsOrg _ calls 0 _ "acme" none 2 2 _ rfl)
  have h₆ := h₅.step (i := 2) (.findsOrg rfl rfl)
  have h₇ := h₆.step (i := 2) (.checksRepo rfl)
  have hnever : ∀ k e, (before.withRetired 100 .org "acme" 1).slugNames.retired k e → e ≠ 11 := by
    rintro k e ⟨h, hrow⟩ rfl
    have hsame : (11 : Uuid) = 1 := congrArg RetiredSlug.entityId (eq_of_single hrow).2
    exact absurd hsame (by decide)
  have h₈ := h₇.step (i := 2) (@SlugAct.createsRepo _ calls 2 _ "acme" "main" 11 11 _ hnever rfl)
  have hresolves := (hclaim .start h₈).resolves "acme" "main" 10 ⟨11, "acme", "main", false⟩
    before_goesBy rfl
  exact absurd hresolves.1 (by decide)

/-- The rename by itself: the old address leads to the repository. -/
theorem never_repoints_of_timely_rename : ∃ c : Config (Fin 3) Catalog SlugPc,
    c.pc 1 = .renamed ∧ LastingSlugs calls (slugsFrom before) c ∧
      c.shared.resolveRepoCanonical "acme" "main" = some ⟨10, "shop", "main", true⟩ := by
  have h₀ : Execution (TimelySlugAct calls) (slugsFrom before) [] _ := .start
  have h₁ := h₀.step (i := 1) ⟨.readsSlug rfl (by decide), trivial⟩
  have h₂ := h₁.step (i := 1) ⟨.clears rfl, trivial⟩
  have h₃ := h₂.step (i := 1)
    ⟨@SlugAct.renames _ calls 1 _ .org 1 "acme" "shop" 100 _ rfl, rfl⟩
  exact ⟨_, rfl, never_repoints_of_timely calls before_sound .start h₃, rfl⟩

end Rebrand

end Sconce
