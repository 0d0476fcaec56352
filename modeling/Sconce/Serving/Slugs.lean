/-
# Slugs

An organization goes by its slug, a repository by its slug within its organization.  A rename
and a deletion retire the slug in `slug_history`; `create_org` and `create_repo` leave it to
their callers to look there first.

`Catalog.slugNames` reads the slugs of a catalog off its tables.  Each statement that writes them is
a step of names, provided that the slug it gives is not retired.
-/
import Sconce.Dashboard.Cascade
import Sconce.Lib.Names
import Sconce.Serving.Routes

namespace Sconce

open Effect

/-! ## The statements -/

namespace Catalog

variable (db : Catalog)

/-- The entity of a live slug. -/
def liveEntity (scope : SlugScope) (slug : String) : Option Uuid :=
  match scope with
  | .org => db.orgIdBySlug slug
  | .repo org => (db.repositories.rows.find? fun r => r.2.orgId = org ∧ r.2.slug = slug).map (·.1)

/-- `org_slug_retired`, `repo_slug_retired`. -/
def slugRetired (scope : SlugScope) (slug : String) : Bool :=
  db.slugHistory.rows.any fun h => h.2.scope = scope ∧ h.2.oldSlug = slug

/-- `org_slug_unavailable`, `repo_slug_unavailable`. -/
def slugUnavailable (scope : SlugScope) (slug : String) : Bool :=
  (db.liveEntity scope slug).isSome || db.slugRetired scope slug

/-- The organization whose slugs these are, if it is one's, is there. -/
def scopeExists : SlugScope → Bool
  | .org => true
  | .repo org => (db.organizations.get? org).isSome

/-- There is such an organization or repository. -/
def slugEntity (scope : SlugScope) (entity : Uuid) : Bool :=
  match scope with
  | .org => (db.organizations.get? entity).isSome
  | .repo _ => (db.repositories.get? entity).isSome

/-- It with another slug. -/
def withSlug (scope : SlugScope) (entity : Uuid) (slug : String) : Catalog :=
  match scope with
  | .org => { db with organizations := db.organizations.update fun k o =>
      if k = entity then { o with slug := slug } else o }
  | .repo _ => { db with repositories := db.repositories.update fun k r =>
      if k = entity then { r with slug := slug } else r }

end Catalog

/-- `create_org`: idempotent on the slug. -/
def createOrg (newId : Uuid) (slug : String) (name : Option String) :
    Effect Catalog SqlError Uuid := do
  let db ← get
  match db.liveEntity .org slug with
  | some id =>
    set { db with organizations := db.organizations.update fun k o =>
      if k = id then { o with name := name.or o.name } else o }
    return id
  | none =>
    if (db.organizations.get? newId).isSome then throw .uniqueViolation
    else
      set { db with organizations := db.organizations.insertNew newId ⟨slug, name⟩ }
      return newId

/-- A repository as `create_repo` inserts it. -/
def newRepository (org : Uuid) (slug : String) : Repository where
  orgId := org
  slug := slug
  updateMode := .auto
  cooldownDays := 0

/-- `create_repo`: idempotent on the pair of slugs. -/
def createRepo (newId : Uuid) (orgSlug repoSlug : String) : Effect Catalog SqlError Uuid := do
  let db ← get
  match db.liveEntity .org orgSlug with
  | none => throw .rowNotFound
  | some org =>
    match db.liveEntity (.repo org) repoSlug with
    | some id => return id
    | none =>
      if (db.repositories.get? newId).isSome then throw .uniqueViolation
      else
        set { db with
          repositories := db.repositories.insertNew newId (newRepository org repoSlug) }
        return newId

/-- `insert into slug_history`. -/
def retireSlug (newId : Uuid) (scope : SlugScope) (slug : String) (entity : Uuid) :
    Effect Catalog SqlError Unit := do
  let db ← get
  if (db.slugHistory.get? newId).isSome ∨ db.slugRetired scope slug = true then
    throw .uniqueViolation
  else if !db.scopeExists scope then throw .foreignKeyViolation
  else set { db with slugHistory := db.slugHistory.insertNew newId ⟨scope, slug, entity⟩ }

/-- `update organizations set slug`, `update repositories set slug`. -/
def setSlug (scope : SlugScope) (entity : Uuid) (slug : String) : Effect Catalog SqlError Unit := do
  let db ← get
  if db.slugEntity scope entity ∧ (db.liveEntity scope slug).any (· ≠ entity) = true then
    throw .uniqueViolation
  else set (db.withSlug scope entity slug)

/-- The transaction of `rename_org` and `rename_repo`. -/
def commitRename (newId : Uuid) (scope : SlugScope) (entity : Uuid) (current newSlug : String) :
    Effect Catalog SqlError Unit := atomically do
  retireSlug newId scope current entity
  setSlug scope entity newSlug

/-- The transaction of `delete_repo`. -/
def commitDelete (newId org repo : Uuid) (slug : String) : Effect Catalog SqlError Unit :=
  atomically do
    retireSlug newId (.repo org) slug repo
    modify fun db => db.dropRepository repo

/-! ## The names -/

namespace Catalog

/-- The slugs and who goes by them. -/
def slugNames (db : Catalog) : Names (SlugScope × String) Uuid where
  live k e := match k.1 with
    | .org => ∃ o, db.organizations.get? e = some o ∧ o.slug = k.2
    | .repo org => ∃ r, db.repositories.get? e = some r ∧ r.orgId = org ∧ r.slug = k.2
  retired k e := ∃ h, db.slugHistory.get? h = some ⟨k.1, k.2, e⟩

variable {db db' : Catalog} {scope : SlugScope} {slug : String} {e : Uuid}

theorem live_of_liveEntity (h : db.liveEntity scope slug = some e) :
    db.slugNames.live (scope, slug) e := by
  unfold liveEntity at h
  cases scope with
  | org =>
    obtain ⟨⟨id, o⟩, ho, rfl⟩ := Option.map_eq_some_iff.1 h
    have hslug := List.find?_some ho
    exact ⟨o, (Table.mem_rows_iff _ id o).1 (List.mem_of_find?_eq_some ho),
      of_decide_eq_true hslug⟩
  | repo org =>
    obtain ⟨⟨id, r⟩, hr, rfl⟩ := Option.map_eq_some_iff.1 h
    have hslug := List.find?_some hr
    exact ⟨r, (Table.mem_rows_iff _ id r).1 (List.mem_of_find?_eq_some hr),
      of_decide_eq_true hslug⟩

theorem not_live_of_liveEntity (h : db.liveEntity scope slug = none) (e : Uuid) :
    ¬ db.slugNames.live (scope, slug) e := by
  unfold liveEntity at h
  cases scope with
  | org =>
    rintro ⟨o, ho, hslug⟩
    unfold orgIdBySlug at h
    rw [Option.map_eq_none_iff, List.find?_eq_none] at h
    exact h (e, o) ((Table.mem_rows_iff _ e o).2 ho) (decide_eq_true hslug)
  | repo org =>
    rintro ⟨r, hr, hslug⟩
    rw [Option.map_eq_none_iff, List.find?_eq_none] at h
    exact h (e, r) ((Table.mem_rows_iff _ e r).2 hr) (decide_eq_true hslug)

/-- A name is retired where its history says so. -/
theorem slugRetired_iff : db.slugRetired scope slug = true ↔ ∃ e, db.slugNames.retired (scope, slug) e := by
  unfold slugRetired
  rw [List.any_eq_true]
  constructor
  · rintro ⟨⟨h, row⟩, hrow, hmatch⟩
    obtain ⟨rfl, rfl⟩ := of_decide_eq_true hmatch
    exact ⟨row.entityId, h, (Table.mem_rows_iff _ h row).1 hrow⟩
  · rintro ⟨e, h, hrow⟩
    exact ⟨(h, ⟨scope, slug, e⟩), (Table.mem_rows_iff _ _ _).2 hrow, decide_eq_true ⟨rfl, rfl⟩⟩

/-- A name that is not found in the history is not retired. -/
theorem not_retired_of_slugRetired (h : db.slugRetired scope slug = false) (e : Uuid) :
    ¬ db.slugNames.retired (scope, slug) e := by
  intro hretired
  rw [slugRetired_iff.2 ⟨e, hretired⟩] at h
  exact Bool.false_ne_true h.symm

end Catalog

/-! ## What the statements do to the names -/

section Statements

variable {db db' : Catalog} {scope : SlugScope}

/-- An organization is there already, or new under a free name. -/
theorem createOrg_ok {newId id : Uuid} {slug : String} {name : Option String}
    (h : exec (createOrg newId slug name) db = (.ok id, db')) :
    (∃ organizations, db.liveEntity .org slug = some id ∧
        db' = { db with organizations := organizations } ∧
        ∀ k, (organizations.get? k).map (·.slug) = (db.organizations.get? k).map (·.slug)) ∨
      db.liveEntity .org slug = none ∧ db.organizations.get? newId = none ∧ id = newId ∧
        db' = { db with organizations := db.organizations.insertNew newId ⟨slug, name⟩ } := by
  unfold createOrg at h
  simp only [exec_bind, exec_get, andThen] at h
  cases hlive : db.liveEntity .org slug with
  | some k =>
    rw [hlive] at h
    obtain ⟨hid, rfl⟩ := Prod.mk.inj h
    obtain rfl := Except.ok.inj hid
    refine Or.inl ⟨_, rfl, rfl, fun k' => ?_⟩
    rw [Table.get?_update]
    cases db.organizations.get? k' with
    | none => rfl
    | some o =>
      simp only [Option.map_some]
      split_ifs <;> rfl
  | none =>
    rw [hlive] at h
    simp only at h
    split_ifs at h with htaken
    · cases congrArg Prod.fst h
    · obtain ⟨hid, rfl⟩ := Prod.mk.inj h
      exact Or.inr ⟨rfl, Option.not_isSome_iff_eq_none.1 htaken, (Except.ok.inj hid).symm, rfl⟩

/-- A refused statement writes nothing. -/
theorem createOrg_error {newId : Uuid} {slug : String} {name : Option String} {e : SqlError}
    (h : exec (createOrg newId slug name) db = (.error e, db')) : db' = db := by
  unfold createOrg at h
  simp only [exec_bind, exec_get, andThen] at h
  cases hlive : db.liveEntity .org slug with
  | some k =>
    rw [hlive] at h
    cases congrArg Prod.fst h
  | none =>
    rw [hlive] at h
    simp only at h
    split_ifs at h with htaken
    · exact (congrArg Prod.snd h).symm
    · cases congrArg Prod.fst h

/-- A repository is there already, or new under a free name. -/
theorem createRepo_ok {newId id : Uuid} {orgSlug repoSlug : String}
    (h : exec (createRepo newId orgSlug repoSlug) db = (.ok id, db')) :
    ∃ org, db.liveEntity .org orgSlug = some org ∧
      (db.liveEntity (.repo org) repoSlug = some id ∧ db' = db ∨
        db.liveEntity (.repo org) repoSlug = none ∧ db.repositories.get? newId = none ∧ id = newId ∧
          db' = { db with
            repositories := db.repositories.insertNew newId (newRepository org repoSlug) }) := by
  unfold createRepo at h
  simp only [exec_bind, exec_get, andThen] at h
  cases horg : db.liveEntity .org orgSlug with
  | none =>
    rw [horg] at h
    cases congrArg Prod.fst h
  | some org =>
    refine ⟨org, rfl, ?_⟩
    simp only [horg] at h
    cases hrepo : db.liveEntity (.repo org) repoSlug with
    | some k =>
      rw [hrepo] at h
      obtain ⟨hid, rfl⟩ := Prod.mk.inj h
      exact Or.inl ⟨congrArg some (Except.ok.inj hid), rfl⟩
    | none =>
      rw [hrepo] at h
      simp only at h
      split_ifs at h with htaken
      · cases congrArg Prod.fst h
      · obtain ⟨hid, rfl⟩ := Prod.mk.inj h
        exact Or.inr ⟨rfl, Option.not_isSome_iff_eq_none.1 htaken, (Except.ok.inj hid).symm, rfl⟩

/-- A repository that is refused leaves the catalog. -/
theorem createRepo_error {newId : Uuid} {orgSlug repoSlug : String} {e : SqlError}
    (h : exec (createRepo newId orgSlug repoSlug) db = (.error e, db')) : db' = db := by
  unfold createRepo at h
  simp only [exec_bind, exec_get, andThen] at h
  cases horg : db.liveEntity .org orgSlug with
  | none =>
    rw [horg] at h
    exact (congrArg Prod.snd h).symm
  | some org =>
    simp only [horg] at h
    cases hrepo : db.liveEntity (.repo org) repoSlug with
    | some k =>
      rw [hrepo] at h
      cases congrArg Prod.fst h
    | none =>
      rw [hrepo] at h
      simp only at h
      split_ifs at h with htaken
      · exact (congrArg Prod.snd h).symm
      · cases congrArg Prod.fst h

/-- The catalog with a retired slug. -/
def Catalog.withRetired (db : Catalog) (newId : Uuid) (scope : SlugScope) (slug : String)
    (entity : Uuid) : Catalog :=
  { db with slugHistory := db.slugHistory.insertNew newId ⟨scope, slug, entity⟩ }

/-- A name is retired once, by a new row of the history. -/
theorem retireSlug_cases (newId : Uuid) (scope : SlugScope) (slug : String) (entity : Uuid)
    (db : Catalog) :
    (db.slugHistory.get? newId = none ∧ db.slugRetired scope slug = false ∧
        exec (retireSlug newId scope slug entity) db
          = (.ok (), db.withRetired newId scope slug entity)) ∨
      ∃ e, exec (retireSlug newId scope slug entity) db = (.error e, db) := by
  unfold retireSlug
  simp only [exec_bind, exec_get, andThen]
  split_ifs with htaken hscope
  · exact Or.inr ⟨_, rfl⟩
  · exact Or.inr ⟨_, rfl⟩
  · rw [not_or] at htaken
    refine Or.inl ⟨Option.not_isSome_iff_eq_none.1 htaken.1, Bool.eq_false_iff.2 htaken.2, rfl⟩

/-- A rename retires the name and gives the new one, where that is free. -/
theorem commitRename_ok {newId entity : Uuid} {current newSlug : String}
    (h : exec (commitRename newId scope entity current newSlug) db = (.ok (), db')) :
    db.slugHistory.get? newId = none ∧ db.slugRetired scope current = false ∧
      (db.slugEntity scope entity = true → ∀ e, db.liveEntity scope newSlug = some e → e = entity) ∧
      db' = (db.withRetired newId scope current entity).withSlug scope entity newSlug := by
  unfold commitRename at h
  rw [exec_atomically, exec_bind] at h
  rcases retireSlug_cases newId scope current entity db with ⟨hnew, hfree, hretire⟩ | ⟨e, hretire⟩
  · refine ⟨hnew, hfree, ?_⟩
    rw [hretire] at h
    simp only [andThen, setSlug, exec_bind, exec_get] at h
    split_ifs at h with hclash
    · cases congrArg Prod.fst h
    · refine ⟨fun hthere e he => ?_, (congrArg Prod.snd h).symm⟩
      by_contra hne
      refine hclash ⟨?_, ?_⟩
      · cases scope <;> exact hthere
      · have hlive : (db.withRetired newId scope current entity).liveEntity scope newSlug
            = some e := by
          cases scope <;> exact he
        rw [hlive]
        exact decide_eq_true hne
  · rw [hretire] at h
    cases congrArg Prod.fst h

/-- A transaction that fails writes nothing. -/
theorem atomically_error {ε α : Type} {m : Effect Catalog ε α} {e : ε}
    (h : exec (atomically m) db = (.error e, db')) : db' = db := by
  rw [exec_atomically] at h
  split at h
  · exact absurd (congrArg Prod.fst h) nofun
  · exact (congrArg Prod.snd h).symm

/-- A deletion retires the name and drops the repository. -/
theorem commitDelete_ok {newId org repo : Uuid} {slug : String}
    (h : exec (commitDelete newId org repo slug) db = (.ok (), db')) :
    db.slugHistory.get? newId = none ∧ db.slugRetired (.repo org) slug = false ∧
      db' = (db.withRetired newId (.repo org) slug repo).dropRepository repo := by
  unfold commitDelete at h
  rw [exec_atomically, exec_bind] at h
  rcases retireSlug_cases newId (.repo org) slug repo db with ⟨hnew, hfree, hretire⟩ | ⟨e, hretire⟩
  · rw [hretire] at h
    exact ⟨hnew, hfree, (congrArg Prod.snd h).symm⟩
  · rw [hretire] at h
    exact absurd (congrArg Prod.fst h) nofun

end Statements

/-! ## The statements are steps of names -/

namespace Catalog

/-- A retired slug of a repository is one of its organization's. -/
def Homed (db : Catalog) : Prop :=
  ∀ org slug e r, db.slugNames.retired (.repo org, slug) e → db.repositories.get? e = some r →
    r.orgId = org

/-- The names of a catalog are in order. -/
structure SlugsSound (db : Catalog) : Prop where
  names : db.slugNames.Sound
  homed : db.Homed

/-- What a statement does to the names. -/
structure SlugStep (db db' : Catalog) : Prop where
  names : db.slugNames.Step db'.slugNames
  homed : db'.Homed

variable {db db' : Catalog} {scope : SlugScope}

theorem SlugStep.sound (hstep : db.SlugStep db') (h : db.SlugsSound) : db'.SlugsSound :=
  ⟨hstep.names.sound h.names, hstep.homed⟩

theorem SlugsSound.refl (h : db.SlugsSound) : db.SlugStep db := ⟨h.names.step_refl, h.homed⟩

/-- An organization under a name that was never retired is a step. -/
theorem SlugsSound.createOrg (h : db.SlugsSound) {newId id : Uuid} {slug : String}
    {name : Option String} (hrun : exec (createOrg newId slug name) db = (.ok id, db'))
    (hfree : db.liveEntity .org slug = none → db.slugRetired .org slug = false) :
    db.SlugStep db' := by
  rcases createOrg_ok hrun with ⟨organizations, -, rfl, hslugs⟩ | ⟨hnone, hnew, rfl, rfl⟩
  · refine ⟨?_, h.homed⟩
    -- an organization of that slug is there: its name changes, no slug does
    have hsame : ({ db with organizations := organizations } : Catalog).slugNames
        = db.slugNames := by
      ext k e
      · obtain ⟨scope, s⟩ := k
        cases scope with
        | org =>
          have hmem : ∀ t : Table Uuid Organization, (∃ o, t.get? e = some o ∧ o.slug = s) ↔
              (t.get? e).map (·.slug) = some s := fun t => Option.map_eq_some_iff.symm
          show (∃ o, organizations.get? e = some o ∧ o.slug = s) ↔
            ∃ o, db.organizations.get? e = some o ∧ o.slug = s
          rw [hmem, hmem, hslugs]
        | repo org => exact Iff.rfl
      · rfl
    rw [hsame]
    exact h.names.step_refl
  · refine ⟨?_, h.homed⟩
    -- a new one takes the slug
    have htake : ({ db with
        organizations := db.organizations.insertNew id ⟨slug, name⟩ } : Catalog).slugNames
          = db.slugNames.take (.org, slug) id := by
      ext k e
      · obtain ⟨scope, s⟩ := k
        cases scope with
        | org =>
          show (∃ o, (db.organizations.insertNew id ⟨slug, name⟩).get? e = some o ∧ o.slug = s) ↔
            (∃ o, db.organizations.get? e = some o ∧ o.slug = s) ∨
              ((SlugScope.org, s) = (SlugScope.org, slug) ∧ e = id)
          rw [Table.get?_insertNew]
          split_ifs with he
          · simp [he, hnew, eq_comm]
          · simp [he]
        | repo org =>
          show _ ↔ _ ∨ _
          simp
          rfl
      · rfl
    rw [htake]
    exact h.names.step_take (not_live_of_liveEntity hnone)
      (not_retired_of_slugRetired (hfree hnone))

/-- A repository under a name that was never retired is a step. -/
theorem SlugsSound.createRepo (h : db.SlugsSound) {newId id : Uuid} {orgSlug repoSlug : String}
    (hrun : exec (createRepo newId orgSlug repoSlug) db = (.ok id, db'))
    (hnever : ∀ k e, db.slugNames.retired k e → e ≠ newId)
    (hfree : ∀ org, db.liveEntity .org orgSlug = some org →
      db.liveEntity (.repo org) repoSlug = none → db.slugRetired (.repo org) repoSlug = false) :
    db.SlugStep db' := by
  obtain ⟨org, horg, ⟨-, rfl⟩ | ⟨hnone, hnew, rfl, rfl⟩⟩ := createRepo_ok hrun
  · exact h.refl
  · constructor
    · have htake : ({ db with
          repositories := db.repositories.insertNew id (newRepository org repoSlug) } :
            Catalog).slugNames = db.slugNames.take (.repo org, repoSlug) id := by
        ext k e
        · obtain ⟨scope, s⟩ := k
          cases scope with
          | org =>
            show _ ↔ _ ∨ _
            simp
            rfl
          | repo o =>
            show (∃ r, (db.repositories.insertNew id (newRepository org repoSlug)).get? e = some r ∧
              r.orgId = o ∧ r.slug = s) ↔
                (∃ r, db.repositories.get? e = some r ∧ r.orgId = o ∧ r.slug = s) ∨
                  ((SlugScope.repo o, s) = (SlugScope.repo org, repoSlug) ∧ e = id)
            rw [Table.get?_insertNew]
            split_ifs with he
            · simp [he, hnew, newRepository, eq_comm]
            · simp [he]
        · rfl
      rw [htake]
      exact h.names.step_take (not_live_of_liveEntity hnone)
        (not_retired_of_slugRetired (hfree org horg hnone))
    · intro o slug e r hretired hr
      replace hr : (db.repositories.insertNew id (newRepository org repoSlug)).get? e = some r := hr
      rw [Table.get?_insertNew_of_ne _ _ (hnever _ e hretired)] at hr
      exact h.homed o slug e r hretired hr

/-- An entity that a retired slug of its scope is known by has no live one but its current. -/
theorem live_of_known {slug : String} {e : Uuid} (h : db.slugNames.Known (scope, slug) e)
    (hfree : db.slugRetired scope slug = false) : db.slugNames.live (scope, slug) e :=
  h.resolve_right (not_retired_of_slugRetired hfree e)

theorem retired_withRetired {newId entity : Uuid} {slug : String}
    (hnew : db.slugHistory.get? newId = none) (k : SlugScope × String) (e : Uuid) :
    (db.withRetired newId scope slug entity).slugNames.retired k e ↔
      db.slugNames.retired k e ∨ (k = (scope, slug) ∧ e = entity) := by
  show (∃ h, (db.slugHistory.insertNew newId ⟨scope, slug, entity⟩).get? h = some ⟨k.1, k.2, e⟩) ↔ _
  obtain ⟨scope', slug'⟩ := k
  constructor
  · rintro ⟨h, hrow⟩
    rw [Table.get?_insertNew] at hrow
    split_ifs at hrow with hh
    · rw [hnew, Option.getD_none, Option.some.injEq, RetiredSlug.mk.injEq] at hrow
      obtain ⟨rfl, rfl, rfl⟩ := hrow
      exact Or.inr ⟨rfl, rfl⟩
    · exact Or.inl ⟨h, hrow⟩
  · rintro (⟨h, hrow⟩ | ⟨hk, rfl⟩)
    · exact ⟨h, Table.get?_insertNew_of_some hrow newId _⟩
    · obtain ⟨rfl, rfl⟩ := Prod.mk.inj hk
      refine ⟨newId, ?_⟩
      rw [Table.get?_insertNew_self, hnew, Option.getD_none]

/-- An entity goes by one slug in a scope. -/
theorem slug_unique {slug slug' : String} {e : Uuid} (h : db.slugNames.live (scope, slug) e)
    (h' : db.slugNames.live (scope, slug') e) : slug = slug' := by
  cases scope with
  | org =>
    obtain ⟨o, ho, rfl⟩ := h
    obtain ⟨o', ho', rfl⟩ := h'
    rw [Option.some.inj (ho.symm.trans ho')]
  | repo org =>
    obtain ⟨r, hr, -, rfl⟩ := h
    obtain ⟨r', hr', -, rfl⟩ := h'
    rw [Option.some.inj (hr.symm.trans hr')]

theorem slugEntity_of_live {slug : String} {e : Uuid} (h : db.slugNames.live (scope, slug) e) :
    db.slugEntity scope e = true := by
  cases scope with
  | org =>
    obtain ⟨o, ho, -⟩ := h
    exact Option.isSome_iff_exists.2 ⟨o, ho⟩
  | repo org =>
    obtain ⟨r, hr, -⟩ := h
    exact Option.isSome_iff_exists.2 ⟨r, hr⟩

section WithSlug

variable {scope' : SlugScope} {entity : Uuid} {current slug s : String}

theorem live_withSlug_of_ne {e : Uuid} (he : e ≠ entity) (k : SlugScope × String) :
    (db.withSlug scope entity slug).slugNames.live k e ↔ db.slugNames.live k e := by
  obtain ⟨scope', s⟩ := k
  cases scope with
  | org =>
    cases scope' with
    | org =>
      show (∃ o, (db.organizations.update _).get? e = some o ∧ o.slug = s) ↔
        ∃ o, db.organizations.get? e = some o ∧ o.slug = s
      rw [Table.get?_update]
      cases db.organizations.get? e <;> simp [he]
    | repo org => exact Iff.rfl
  | repo org =>
    cases scope' with
    | org => exact Iff.rfl
    | repo o =>
      show (∃ r, (db.repositories.update _).get? e = some r ∧ r.orgId = o ∧ r.slug = s) ↔
        ∃ r, db.repositories.get? e = some r ∧ r.orgId = o ∧ r.slug = s
      rw [Table.get?_update]
      cases db.repositories.get? e <;> simp [he]

/-- The entity goes by its new slug in its scope. -/
theorem live_withSlug_self (h : db.slugNames.live (scope, current) entity) :
    (db.withSlug scope entity slug).slugNames.live (scope, s) entity ↔ s = slug := by
  cases scope with
  | org =>
    obtain ⟨o, ho, -⟩ := h
    show (∃ o, (db.organizations.update _).get? entity = some o ∧ o.slug = s) ↔ _
    rw [Table.get?_update, ho]
    simp [eq_comm]
  | repo org =>
    obtain ⟨r, hr, horg, -⟩ := h
    show (∃ r, (db.repositories.update _).get? entity = some r ∧ r.orgId = org ∧ r.slug = s) ↔ _
    rw [Table.get?_update, hr]
    simp [horg, eq_comm]

/-- And by what it did in any other. -/
theorem live_withSlug_other (h : db.slugNames.live (scope, current) entity)
    (hscope : scope' ≠ scope) :
    (db.withSlug scope entity slug).slugNames.live (scope', s) entity ↔
      db.slugNames.live (scope', s) entity := by
  cases scope with
  | org =>
    cases scope' with
    | org => exact absurd rfl hscope
    | repo o => exact Iff.rfl
  | repo org =>
    cases scope' with
    | org => exact Iff.rfl
    | repo o =>
      obtain ⟨r, hr, rfl, -⟩ := h
      have hne : r.orgId ≠ o := fun heq => hscope (congrArg SlugScope.repo heq.symm)
      show (∃ r, (db.repositories.update _).get? entity = some r ∧ r.orgId = o ∧ r.slug = s) ↔
        ∃ r, db.repositories.get? entity = some r ∧ r.orgId = o ∧ r.slug = s
      rw [Table.get?_update, hr]
      simp [hne]

end WithSlug

/-- The names after a rename. -/
theorem slugNames_renamed (h : db.slugNames.Sound) {newId entity : Uuid}
    {current newSlug : String} (hnew : db.slugHistory.get? newId = none)
    (hlive : db.slugNames.live (scope, current) entity) :
    ((db.withRetired newId scope current entity).withSlug scope entity newSlug).slugNames
      = (db.slugNames.giveUp (scope, current) entity).take (scope, newSlug) entity := by
  have hlive' : (db.withRetired newId scope current entity).slugNames.live (scope, current) entity :=
    hlive
  ext k e
  · obtain ⟨scope', s⟩ := k
    show _ ↔ (db.slugNames.live (scope', s) e ∧ (scope', s) ≠ (scope, current)) ∨
      ((scope', s) = (scope, newSlug) ∧ e = entity)
    -- the entity itself, in its own scope and in the others; then the other entities
    by_cases he : e = entity
    · subst he
      by_cases hscope : scope' = scope
      · subst hscope
        rw [live_withSlug_self hlive']
        constructor
        · rintro rfl
          exact Or.inr ⟨rfl, rfl⟩
        · rintro (⟨hold, hne⟩ | ⟨heq, -⟩)
          · exact absurd (congrArg _ (slug_unique hold hlive)) hne
          · exact (Prod.mk.inj heq).2
      · rw [live_withSlug_other hlive' hscope]
        constructor
        · intro hold
          exact Or.inl ⟨hold, fun heq => hscope (Prod.mk.inj heq).1⟩
        · rintro (⟨hold, -⟩ | ⟨heq, -⟩)
          · exact hold
          · exact absurd (Prod.mk.inj heq).1 hscope
    · rw [live_withSlug_of_ne he]
      constructor
      · intro hold
        refine Or.inl ⟨hold, fun heq => ?_⟩
        rw [heq] at hold
        exact he (h.live _ e entity hold hlive)
      · rintro (⟨hold, -⟩ | ⟨-, heq⟩)
        · exact hold
        · exact absurd heq he
  · have hhistory : ((db.withRetired newId scope current entity).withSlug scope entity
        newSlug).slugNames.retired = (db.withRetired newId scope current entity).slugNames.retired := by
      cases scope <;> rfl
    rw [hhistory, retired_withRetired hnew]
    rfl

/-- A rename moves no repository. -/
theorem homed_renamed (h : db.Homed) {newId entity : Uuid} {current newSlug : String}
    (hnew : db.slugHistory.get? newId = none)
    (hlive : db.slugNames.live (scope, current) entity) :
    ((db.withRetired newId scope current entity).withSlug scope entity newSlug).Homed := by
  intro org slug e r hretired hr
  have hold : ∃ r₀, db.repositories.get? e = some r₀ ∧ r₀.orgId = r.orgId := by
    cases scope with
    | org => exact ⟨r, hr, rfl⟩
    | repo o =>
      replace hr : (db.repositories.update _).get? e = some r := hr
      rw [Table.get?_update] at hr
      obtain ⟨r₀, hr₀, rfl⟩ := Option.map_eq_some_iff.1 hr
      refine ⟨r₀, hr₀, ?_⟩
      split_ifs <;> rfl
  obtain ⟨r₀, hr₀, horg⟩ := hold
  rw [← horg]
  have hhistory : (db.withRetired newId scope current entity).slugNames.retired (.repo org, slug) e := by
    cases scope <;> exact hretired
  rcases (retired_withRetired hnew _ e).1 hhistory with hbefore | ⟨heq, rfl⟩
  · exact h org slug e r₀ hbefore hr₀
  · obtain ⟨rfl, rfl⟩ := Prod.mk.inj heq
    obtain ⟨r', hr', rfl, -⟩ := hlive
    rw [Option.some.inj (hr₀.symm.trans hr')]

/-- A rename to a name that was never retired is a step. -/
theorem SlugsSound.commitRename (h : db.SlugsSound) {newId entity : Uuid}
    {current newSlug : String}
    (hrun : exec (commitRename newId scope entity current newSlug) db = (.ok (), db'))
    (hknown : db.slugNames.Known (scope, current) entity)
    (hfree : db.slugRetired scope newSlug = false) (hne : current ≠ newSlug) :
    db.SlugStep db' := by
  obtain ⟨hnew, hcurrent, hunique, rfl⟩ := commitRename_ok hrun
  have hlive := live_of_known hknown hcurrent
  have hnone : ∀ e, ¬ db.slugNames.live (scope, newSlug) e := by
    intro e he
    cases hentity : db.liveEntity scope newSlug with
    | none => exact not_live_of_liveEntity hentity e he
    | some e' =>
      obtain rfl := hunique (slugEntity_of_live hlive) e' hentity
      exact hne (slug_unique hlive (live_of_liveEntity hentity))
  constructor
  · rw [slugNames_renamed h.names hnew hlive]
    exact h.names.step_move hlive hnone (not_retired_of_slugRetired hfree)
  · exact homed_renamed h.homed hnew hlive

/-- The names after a deletion. -/
theorem slugNames_dropRepository (h : db.slugNames.Sound) {newId org repo : Uuid} {slug : String}
    (hnew : db.slugHistory.get? newId = none) (hlive : db.slugNames.live (.repo org, slug) repo) :
    ((db.withRetired newId (.repo org) slug repo).dropRepository repo).slugNames
      = db.slugNames.giveUp (.repo org, slug) repo := by
  ext k e
  · obtain ⟨scope, s⟩ := k
    cases scope with
    | org =>
      show db.slugNames.live (.org, s) e ↔ db.slugNames.live (.org, s) e ∧ _
      exact ⟨fun hold => ⟨hold, fun heq => absurd (Prod.mk.inj heq).1 nofun⟩, fun hold => hold.1⟩
    | repo o =>
      show (∃ r, (db.repositories.delete fun id _ => id = repo).get? e = some r ∧ r.orgId = o ∧
        r.slug = s) ↔ db.slugNames.live (.repo o, s) e ∧ (SlugScope.repo o, s) ≠ (.repo org, slug)
      rw [Table.get?_delete]
      constructor
      · rintro ⟨r, hr, horg, hslug⟩
        obtain ⟨hold, hother⟩ := Option.filter_eq_some_iff.1 hr
        refine ⟨⟨r, hold, horg, hslug⟩, fun heq => ?_⟩
        have hsame : db.slugNames.live (.repo org, slug) e := by
          rw [← heq]
          exact ⟨r, hold, horg, hslug⟩
        have hrepo := h.live _ e repo hsame hlive
        simp [hrepo] at hother
      · rintro ⟨⟨r, hr, horg, hslug⟩, hne⟩
        refine ⟨r, Option.filter_eq_some_iff.2 ⟨hr, ?_⟩, horg, hslug⟩
        have hother : e ≠ repo := by
          rintro rfl
          obtain ⟨r', hr', horg', hslug'⟩ := hlive
          obtain rfl := Option.some.inj (hr.symm.trans hr')
          refine hne (Prod.ext ?_ (hslug.symm.trans hslug'))
          exact congrArg SlugScope.repo (horg.symm.trans horg')
        simp [hother]
  · exact retired_withRetired hnew k e

theorem SlugsSound.commitDelete (h : db.SlugsSound) {newId org repo : Uuid} {slug : String}
    (hrun : exec (commitDelete newId org repo slug) db = (.ok (), db'))
    (hknown : db.slugNames.Known (.repo org, slug) repo) : db.SlugStep db' := by
  obtain ⟨hnew, hcurrent, rfl⟩ := commitDelete_ok hrun
  have hlive := live_of_known hknown hcurrent
  constructor
  · rw [slugNames_dropRepository h.names hnew hlive]
    exact h.names.step_giveUp hlive
  · intro o s e r hretired hr
    replace hr : (db.repositories.delete fun id _ => id = repo).get? e = some r := hr
    rw [Table.get?_delete] at hr
    obtain ⟨hold, hother⟩ := Option.filter_eq_some_iff.1 hr
    rcases (retired_withRetired hnew _ e).1 hretired with hbefore | ⟨-, rfl⟩
    · exact h.homed o s e r hbefore hold
    · simp at hother

/-! ## Resolution -/

/-- The repository goes by the pair of slugs. -/
def GoesBy (db : Catalog) (orgSlug repoSlug : String) (repo : Uuid) : Prop :=
  ∃ org, db.slugNames.live (.org, orgSlug) org ∧ db.slugNames.live (.repo org, repoSlug) repo

/-- It goes by them, or each was its own. -/
def KnownBy (db : Catalog) (orgSlug repoSlug : String) (repo : Uuid) : Prop :=
  ∃ org, db.slugNames.Known (.org, orgSlug) org ∧ db.slugNames.Known (.repo org, repoSlug) repo

theorem GoesBy.known {orgSlug repoSlug : String} {repo : Uuid} (h : db.GoesBy orgSlug repoSlug repo) :
    db.KnownBy orgSlug repoSlug repo := by
  obtain ⟨org, horg, hrepo⟩ := h
  exact ⟨org, Or.inl horg, Or.inl hrepo⟩

theorem KnownBy.step {orgSlug repoSlug : String} {repo : Uuid}
    (h : db.KnownBy orgSlug repoSlug repo) (hstep : db.SlugStep db') :
    db'.KnownBy orgSlug repoSlug repo := by
  obtain ⟨org, horg, hrepo⟩ := h
  exact ⟨org, horg.step hstep.names, hrepo.step hstep.names⟩

/-- A pair of slugs leads to one repository. -/
theorem SlugsSound.knownBy_unique (h : db.SlugsSound) {orgSlug repoSlug : String} {repo repo' : Uuid}
    (hrepo : db.KnownBy orgSlug repoSlug repo) (hrepo' : db.KnownBy orgSlug repoSlug repo') :
    repo = repo' := by
  obtain ⟨org, horg, hknown⟩ := hrepo
  obtain ⟨org', horg', hknown'⟩ := hrepo'
  obtain rfl := h.names.known_unique horg horg'
  exact h.names.known_unique hknown hknown'

/-- What `resolve_repo_canonical` selects under a live slug: the entity and its slug. -/
def selectLive (db : Catalog) : SlugScope → String → Option (Uuid × String)
  | .org, slug =>
    (db.organizations.rows.find? fun o => o.2.slug == slug).map fun o => (o.1, o.2.slug)
  | .repo org, slug =>
    (db.repositories.rows.find? fun r => r.2.orgId == org && r.2.slug == slug).map
      fun r => (r.1, r.2.slug)

/-- What it selects under a retired slug. -/
def selectFormer (db : Catalog) : SlugScope → String → Option (Uuid × String)
  | .org, slug => do
    let h ← db.slugHistory.rows.find? fun h => h.2.scope = .org && h.2.oldSlug == slug &&
      (db.organizations.get? h.2.entityId).isSome
    let o ← db.organizations.get? h.2.entityId
    return (h.2.entityId, o.slug)
  | .repo org, slug => do
    let h ← db.slugHistory.rows.find? fun h => h.2.scope = .repo org && h.2.oldSlug == slug &&
      (db.repositories.get? h.2.entityId).isSome
    let r ← db.repositories.get? h.2.entityId
    return (h.2.entityId, r.slug)

theorem selectLive_some {slug current : String} (h : db.selectLive scope slug = some (e, current)) :
    db.slugNames.live (scope, slug) e ∧ current = slug := by
  cases scope with
  | org =>
    obtain ⟨⟨id, o⟩, ho, heq⟩ := Option.map_eq_some_iff.1 h
    obtain ⟨rfl, rfl⟩ := Prod.mk.inj heq
    have hslug : o.slug = slug := by
      simpa using List.find?_some ho
    exact ⟨⟨o, (Table.mem_rows_iff _ _ o).1 (List.mem_of_find?_eq_some ho), hslug⟩, hslug⟩
  | repo org =>
    obtain ⟨⟨id, r⟩, hr, heq⟩ := Option.map_eq_some_iff.1 h
    obtain ⟨rfl, rfl⟩ := Prod.mk.inj heq
    have hslug : r.orgId = org ∧ r.slug = slug := by
      simpa using List.find?_some hr
    exact ⟨⟨r, (Table.mem_rows_iff _ _ r).1 (List.mem_of_find?_eq_some hr), hslug⟩, hslug.2⟩

/-- What is selected by a former name has a live one. -/
theorem selectFormer_some (hhomed : db.Homed) {slug current : String}
    (h : db.selectFormer scope slug = some (e, current)) :
    db.slugNames.retired (scope, slug) e ∧ db.slugNames.live (scope, current) e := by
  cases scope with
  | org =>
    obtain ⟨⟨k, row⟩, hrow, hrest⟩ := Option.bind_eq_some_iff.1 h
    obtain ⟨o, ho, heq⟩ := Option.bind_eq_some_iff.1 hrest
    obtain ⟨rfl, rfl⟩ := Prod.mk.inj (Option.some.inj heq)
    have hmatch := List.find?_some hrow
    simp only [Bool.and_eq_true, decide_eq_true_eq, beq_iff_eq] at hmatch
    obtain ⟨⟨hscope, rfl⟩, -⟩ := hmatch
    refine ⟨⟨k, ?_⟩, o, ho, rfl⟩
    rw [← hscope]
    exact (Table.mem_rows_iff _ k row).1 (List.mem_of_find?_eq_some hrow)
  | repo org =>
    obtain ⟨⟨k, row⟩, hrow, hrest⟩ := Option.bind_eq_some_iff.1 h
    obtain ⟨r, hr, heq⟩ := Option.bind_eq_some_iff.1 hrest
    obtain ⟨rfl, rfl⟩ := Prod.mk.inj (Option.some.inj heq)
    have hmatch := List.find?_some hrow
    simp only [Bool.and_eq_true, decide_eq_true_eq, beq_iff_eq] at hmatch
    obtain ⟨⟨hscope, rfl⟩, -⟩ := hmatch
    have hretired : db.slugNames.retired (.repo org, row.oldSlug) row.entityId := by
      refine ⟨k, ?_⟩
      rw [← hscope]
      exact (Table.mem_rows_iff _ k row).1 (List.mem_of_find?_eq_some hrow)
    exact ⟨hretired, r, hr, hhomed org _ _ r hretired hr, rfl⟩

/-- It looks for a live slug first: the entity, its slug, and whether that is another one. -/
def selectSlug (db : Catalog) (scope : SlugScope) (slug : String) : Option (Uuid × String × Bool) :=
  match db.selectLive scope slug with
  | some (e, current) => some (e, current, false)
  | none => (db.selectFormer scope slug).map fun found => (found.1, found.2, true)

/-- What is selected is known by the slug, and goes by the name that is answered. -/
theorem selectSlug_some (hhomed : db.Homed) {slug current : String} {moved : Bool}
    (h : db.selectSlug scope slug = some (e, current, moved)) :
    db.slugNames.Known (scope, slug) e ∧ db.slugNames.live (scope, current) e := by
  unfold selectSlug at h
  cases hlive : db.selectLive scope slug with
  | some found =>
    rw [hlive] at h
    obtain ⟨e', current'⟩ := found
    simp only [Option.some.injEq, Prod.mk.injEq] at h
    obtain ⟨rfl, rfl, -⟩ := h
    obtain ⟨hfound, rfl⟩ := selectLive_some hlive
    exact ⟨Or.inl hfound, hfound⟩
  | none =>
    rw [hlive] at h
    obtain ⟨⟨e', current'⟩, hformer, heq⟩ := Option.map_eq_some_iff.1 h
    simp only [Prod.mk.injEq] at heq
    obtain ⟨rfl, rfl, -⟩ := heq
    obtain ⟨hretired, hnow⟩ := selectFormer_some hhomed hformer
    exact ⟨Or.inr hretired, hnow⟩

/-- An organization is resolved by its slug, live or former. -/
theorem resolveOrgCanonical_eq (db : Catalog) (orgSlug : String) :
    db.resolveOrgCanonical orgSlug = db.selectSlug .org orgSlug := by
  unfold resolveOrgCanonical selectSlug selectLive selectFormer
  cases hfind : db.organizations.rows.find? fun o => o.2.slug == orgSlug with
  | some o => simp only [hfind, Option.map_some]
  | none => simp [hfind, Option.map_bind]

/-- A repository is resolved by both slugs, live or former. -/
theorem resolveRepoCanonical_eq (db : Catalog) (orgSlug repoSlug : String) :
    db.resolveRepoCanonical orgSlug repoSlug =
      (db.selectSlug .org orgSlug).bind fun o =>
        (db.selectSlug (.repo o.1) repoSlug).map fun r => ⟨r.1, o.2.1, r.2.1, o.2.2 || r.2.2⟩ := by
  unfold resolveRepoCanonical
  rw [resolveOrgCanonical_eq]
  cases db.selectSlug .org orgSlug with
  | none => rfl
  | some o =>
    obtain ⟨org, current, moved⟩ := o
    unfold selectSlug selectLive selectFormer
    simp only [Option.bind_some, Option.bind_eq_bind]
    cases db.repositories.rows.find? fun r => r.2.orgId == org && r.2.slug == repoSlug with
    | some r => simp
    | none => simp [Option.map_bind]

/-- `resolve_repo_canonical` finds the repository known by the pair, with the one it goes by. -/
theorem resolveRepoCanonical_some (hhomed : db.Homed) {orgSlug repoSlug : String}
    {loc : RepoLocation} (h : db.resolveRepoCanonical orgSlug repoSlug = some loc) :
    db.KnownBy orgSlug repoSlug loc.repoId ∧ db.GoesBy loc.orgSlug loc.repoSlug loc.repoId := by
  rw [resolveRepoCanonical_eq] at h
  obtain ⟨⟨org, current, moved⟩, horg, hrest⟩ := Option.bind_eq_some_iff.1 h
  obtain ⟨⟨repo, now, gone⟩, hrepo, rfl⟩ := Option.map_eq_some_iff.1 hrest
  obtain ⟨hknown, hlive⟩ := selectSlug_some hhomed horg
  obtain ⟨hknown', hlive'⟩ := selectSlug_some hhomed hrepo
  exact ⟨⟨org, hknown, hknown'⟩, ⟨org, hlive, hlive'⟩⟩

end Catalog

end Sconce
