/-
# What a licence key unlocks

Entitlement edges tie a key to a package or to a package set; a set stands for
its members and for the packages of its organization that match one of its glob
rules.  `entitledPackageBounds` is the serve-time view: every package name the
key unlocks, with the union of the update bounds of its covering edges.

Over it stands `reach`, the order-theoretic view of the same answer: bottom for
a package the key does not unlock, else the supremum of the covering edges'
bounds with NULL as top.  `reach_eq_grant` ties the two together, and every later
result about bounds argues on `reach`.
-/
import Sconce.Schema

namespace Sconce

open Ceiling

/-! ## Package sets -/

namespace Catalog

variable (db : Catalog)

/-- `repo in (select id from repositories where org_id = org)`. -/
def repoInOrg (repo org : Uuid) : Bool :=
  (db.repositories.get? repo).any fun r => r.orgId == org

/-- `exists (select 1 from package_set_rules … where name like replace(glob, '*', '%'))`. -/
def ruleMatches (set : Uuid) (name : String) : Bool :=
  db.packageSetRules.rows.any fun r => r.2.setId == set && globMatches r.2.glob name

/-- Whether a set takes in a package: as a member, or through a rule within its
organization. -/
def setCovers (set id : Uuid) (p : Package) : Bool :=
  (db.packageSetMembers.get? (set, id)).isSome ||
    ((db.packageSets.get? set).any fun ps => db.repoInOrg p.repoId ps.orgId) &&
      db.ruleMatches set p.name

/-- The packages a set takes in. -/
def setPackages (set : Uuid) : List (Uuid × Package) :=
  db.packages.rows.filter fun r => db.setCovers set r.1 r.2

/-- `resolve_set`: the package names a set stands for. -/
def resolveSet (set : Uuid) : List String :=
  ((db.setPackages set).map fun r => r.2.name).dedup.insertionSort (· ≤ ·)

end Catalog

/-! ## Edges -/

/-- What an entitlement edge points at. -/
inductive EdgeTarget where
  | package (id : Uuid)
  | set (id : Uuid)
  deriving DecidableEq

/-- An edge's own ceilings, each NULL one inherited from the key. -/
def UpdateBound.inherit (e key : UpdateBound) : UpdateBound where
  updateUntil := coalesce e.updateUntil key.updateUntil
  versionCapMajor := coalesce e.versionCapMajor key.versionCapMajor

/-- No ceiling on either axis. -/
def UpdateBound.unbounded : UpdateBound := ⟨none, none⟩

/-- The ceilings as a pair in the order with a top. -/
def UpdateBound.ceiling (b : UpdateBound) : WithTop Timestamp × WithTop ℤ :=
  both (b.updateUntil, b.versionCapMajor)

/-- Under an unbounded key an edge keeps its own bound. -/
@[simp] theorem UpdateBound.inherit_unbounded (e : UpdateBound) : e.inherit unbounded = e := by
  simp [UpdateBound.inherit, UpdateBound.unbounded]

theorem UpdateBound.ceiling_injective : Function.Injective UpdateBound.ceiling := by
  intro a b h
  have hfst := axis_injective (congrArg Prod.fst h)
  have hsnd := axis_injective (congrArg Prod.snd h)
  cases a
  cases b
  simp only at hfst hsnd
  rw [hfst, hsnd]

theorem UpdateBound.ceiling_surjective : Function.Surjective UpdateBound.ceiling := by
  rintro ⟨u, m⟩
  obtain ⟨x, rfl⟩ := axis_surjective u
  obtain ⟨y, rfl⟩ := axis_surjective m
  exact ⟨⟨x, y⟩, rfl⟩

namespace Catalog

variable (db : Catalog)

/-- The edge of a key on a target. -/
def edge? (license : Uuid) : EdgeTarget → Option UpdateBound
  | .package id => db.entitlements.get? (license, id)
  | .set id => db.licenseSetEntitlements.get? (license, id)

/-- The package names an edge on a target covers. -/
def names : EdgeTarget → List String
  | .package id => ((db.packages.get? id).map (·.name)).toList
  | .set id => if (db.packageSets.get? id).isSome then (db.setPackages id).map (·.2.name) else []

/-- One half of the `edges` subquery: the rows of one kind of edge joined with the
names they cover. -/
def edgeRows (key : UpdateBound) (license : Uuid) (t : Table (Uuid × Uuid) UpdateBound)
    (target : Uuid → EdgeTarget) : List (String × UpdateBound) :=
  t.rows.flatMap fun r =>
    if r.1.1 = license then (db.names (target r.1.2)).map fun n => (n, r.2.inherit key) else []

/-- The `edges` subquery of `entitled_package_bounds`: one row for each covering
edge and package name, with the edge's effective ceilings. -/
def edges (license : Uuid) : List (String × UpdateBound) :=
  match db.licenseKeys.get? license with
  | none => []
  | some key =>
      db.edgeRows key.bound license db.entitlements .package ++
        db.edgeRows key.bound license db.licenseSetEntitlements .set

/-- The `unioned` subquery: one row for each package name, the most permissive
ceiling of its edges on each axis. -/
def unioned (license : Uuid) : List (String × UpdateBound) :=
  let edges := db.edges license
  ((edges.map (·.1)).dedup.insertionSort (· ≤ ·)).map fun name =>
    let group := (edges.filter fun e => e.1 = name).map (·.2)
    (name, { updateUntil := union (group.map (·.updateUntil))
             versionCapMajor := union (group.map (·.versionCapMajor)) })

end Catalog

/-- A licence's update bound as it leaves the catalog. -/
structure LicenseBound where
  /-- `until`: the date to display. -/
  untilDate : Option String
  /-- Unix seconds, for the serving clause. -/
  untilUnix : Option ℤ
  major : Option ℤ
  deriving DecidableEq

/-- The columns `until`, `until_unix` and `major` of a bound. -/
def Session.licenseBound (ses : Session) (b : UpdateBound) : LicenseBound where
  untilDate := b.updateUntil.map ses.dateText
  untilUnix := b.updateUntil.map epochSeconds
  major := b.versionCapMajor

/-- `entitled_package_bounds`: the packages a licence unlocks, with each package's
effective update bound. -/
def entitledPackageBounds (ses : Session) (db : Catalog) (license : Uuid) :
    List (String × LicenseBound) :=
  (db.unioned license).map fun r => (r.1, ses.licenseBound r.2)

/-! ## Covering edges -/

namespace Catalog

variable (db : Catalog)

/-- An edge of the key covers the package under an effective bound. -/
def Covers (license : Uuid) (name : String) (b : UpdateBound) : Prop :=
  ∃ key t e, db.licenseKeys.get? license = some key ∧ db.edge? license t = some e ∧
    name ∈ db.names t ∧ e.inherit key.bound = b

/-- The rows of a table of edges, one for each name an edge reaches. -/
theorem mem_edgeRows_iff (key : UpdateBound) (license : Uuid)
    (t : Table (Uuid × Uuid) UpdateBound) (target : Uuid → EdgeTarget) (name : String)
    (b : UpdateBound) :
    (name, b) ∈ db.edgeRows key license t target ↔
      ∃ id e, t.get? (license, id) = some e ∧ name ∈ db.names (target id) ∧
        e.inherit key = b := by
  unfold edgeRows
  rw [List.mem_flatMap]
  constructor
  · rintro ⟨⟨⟨l, id⟩, e⟩, hrow, hmem⟩
    by_cases hl : l = license
    · rw [if_pos hl, List.mem_map] at hmem
      obtain ⟨n, hn, heq⟩ := hmem
      rw [Prod.mk.injEq] at heq
      subst hl
      exact ⟨id, e, (t.mem_rows_iff _ _).1 hrow, heq.1 ▸ hn, heq.2⟩
    · rw [if_neg hl] at hmem
      exact absurd hmem List.not_mem_nil
  · rintro ⟨id, e, hget, hn, rfl⟩
    refine ⟨((license, id), e), (t.mem_rows_iff _ _).2 hget, ?_⟩
    rw [if_pos rfl]
    exact List.mem_map.2 ⟨name, hn, rfl⟩

/-- The rows of the `edges` subquery are the covering edges. -/
theorem mem_edges_iff (license : Uuid) (name : String) (b : UpdateBound) :
    (name, b) ∈ db.edges license ↔ db.Covers license name b := by
  unfold edges Covers
  cases hkey : db.licenseKeys.get? license with
  | none => simp
  | some key =>
      simp only [List.mem_append, mem_edgeRows_iff, Option.some.injEq]
      constructor
      · rintro (⟨id, e, he, hn, hb⟩ | ⟨id, e, he, hn, hb⟩)
        · exact ⟨key, .package id, e, rfl, he, hn, hb⟩
        · exact ⟨key, .set id, e, rfl, he, hn, hb⟩
      · rintro ⟨_, t, e, rfl, he, hn, hb⟩
        cases t with
        | package id => exact Or.inl ⟨id, e, he, hn, hb⟩
        | set id => exact Or.inr ⟨id, e, he, hn, hb⟩

/-! ## The reach of a key -/

/-- The ceilings of the edges that cover a package. -/
def ceilings (license : Uuid) (name : String) : List (WithTop Timestamp × WithTop ℤ) :=
  ((db.edges license).filter fun e => e.1 = name).map fun e => e.2.ceiling

/-- **The reach of a key on a package**: bottom when the key does not unlock it,
else the supremum of its covering edges. -/
def reach (license : Uuid) (name : String) : WithBot (WithTop Timestamp × WithTop ℤ) :=
  Ceiling.reach (db.ceilings license name)

/-- The ceilings are those of the edges that cover the name. -/
theorem mem_ceilings_iff (license : Uuid) (name : String) (c : WithTop Timestamp × WithTop ℤ) :
    c ∈ db.ceilings license name ↔ ∃ b, db.Covers license name b ∧ b.ceiling = c := by
  unfold ceilings
  simp only [List.mem_map, List.mem_filter, decide_eq_true_eq, Prod.exists]
  constructor
  · rintro ⟨n, b, ⟨hmem, rfl⟩, hc⟩
    exact ⟨b, (db.mem_edges_iff license n b).1 hmem, hc⟩
  · rintro ⟨b, hb, hc⟩
    exact ⟨name, b, ⟨(db.mem_edges_iff license name b).2 hb, rfl⟩, hc⟩

/-- The reach is the least upper bound of the covering edges. -/
theorem reach_le_iff (license : Uuid) (name : String)
    (c : WithBot (WithTop Timestamp × WithTop ℤ)) :
    db.reach license name ≤ c ↔ ∀ b, db.Covers license name b → (b.ceiling : WithBot _) ≤ c := by
  rw [reach, Ceiling.reach_le_iff]
  constructor
  · intro h b hb
    exact h _ ((db.mem_ceilings_iff license name _).2 ⟨b, hb, rfl⟩)
  · intro h g hg
    obtain ⟨b, hb, rfl⟩ := (db.mem_ceilings_iff license name g).1 hg
    exact h b hb

/-- A bound is within reach when, on each axis, some covering edge allows it. -/
theorem ceiling_le_reach_iff (license : Uuid) (name : String) (b : UpdateBound) :
    (b.ceiling : WithBot _) ≤ db.reach license name ↔
      (∃ e, db.Covers license name e ∧ axis b.updateUntil ≤ axis e.updateUntil) ∧
        ∃ e, db.Covers license name e ∧ axis b.versionCapMajor ≤ axis e.versionCapMajor := by
  rw [reach, Ceiling.coe_le_reach_iff]
  apply and_congr
  all_goals
    constructor
    · rintro ⟨g, hg, hle⟩
      obtain ⟨e, he, rfl⟩ := (db.mem_ceilings_iff license name g).1 hg
      exact ⟨e, he, hle⟩
    · rintro ⟨e, he, hle⟩
      exact ⟨e.ceiling, (db.mem_ceilings_iff license name _).2 ⟨e, he, rfl⟩, hle⟩

/-- An edge that covers a name reaches no further than the key does. -/
theorem Covers.le_reach {db : Catalog} {license : Uuid} {name : String} {b : UpdateBound}
    (h : db.Covers license name b) : (b.ceiling : WithBot _) ≤ db.reach license name :=
  (db.reach_le_iff license name _).1 le_rfl b h

/-- A key reaches nowhere exactly where no edge covers the name. -/
theorem reach_eq_bot_iff (license : Uuid) (name : String) :
    db.reach license name = ⊥ ↔ ∀ b, ¬ db.Covers license name b := by
  rw [reach, Ceiling.reach_eq_bot_iff, List.eq_nil_iff_forall_not_mem]
  constructor
  · intro h b hb
    exact h _ ((db.mem_ceilings_iff license name _).2 ⟨b, hb, rfl⟩)
  · intro h c hc
    obtain ⟨b, hb, -⟩ := (db.mem_ceilings_iff license name c).1 hc
    exact h b hb

/-- Two states whose covering edges bound each other reach the same. -/
theorem reach_congr {db db' : Catalog} {license license' : Uuid} {name : String}
    (h : ∀ b, db.Covers license name b ↔ db'.Covers license' name b) :
    db.reach license name = db'.reach license' name := by
  apply le_antisymm
  · rw [reach_le_iff]
    intro b hb
    exact ((h b).1 hb).le_reach
  · rw [reach_le_iff]
    intro b hb
    exact ((h b).2 hb).le_reach

/-- The covering edges of a key whose own bound is known. -/
theorem covers_iff {db : Catalog} {license : Uuid} {name : String} {key b : UpdateBound}
    (h : (db.licenseKeys.get? license).map (·.bound) = some key) :
    db.Covers license name b ↔
      ∃ t e, db.edge? license t = some e ∧ name ∈ db.names t ∧ e.inherit key = b := by
  obtain ⟨l, hl, rfl⟩ := Option.map_eq_some_iff.1 h
  constructor
  · rintro ⟨l', t, e, hl', he, hn, hb⟩
    rw [hl, Option.some.injEq] at hl'
    subst hl'
    exact ⟨t, e, he, hn, hb⟩
  · rintro ⟨t, e, he, hn, hb⟩
    exact ⟨l, t, e, hl, he, hn, hb⟩

/-- A key whose covering edges each have a wider counterpart reaches no less. -/
theorem reach_mono {db db' : Catalog} {license license' : Uuid} {name : String}
    (h : ∀ b, db.Covers license name b →
      ∃ c, db'.Covers license' name c ∧ b.ceiling ≤ c.ceiling) :
    db.reach license name ≤ db'.reach license' name := by
  rw [reach_le_iff]
  intro b hb
  obtain ⟨c, hc, hle⟩ := h b hb
  exact (WithBot.coe_le_coe.2 hle).trans hc.le_reach

/-- The reach of a key depends on its bound, its edges and what they cover. -/
theorem reach_eq_of_same_edges {db db' : Catalog} {license : Uuid} {name : String}
    (hkey : (db.licenseKeys.get? license).map (·.bound)
      = (db'.licenseKeys.get? license).map (·.bound))
    (hedge : ∀ t, db.edge? license t = db'.edge? license t)
    (hnames : ∀ t, db.names t = db'.names t) :
    db.reach license name = db'.reach license name := by
  apply reach_congr
  intro b
  cases h : (db'.licenseKeys.get? license).map (·.bound) with
  | none =>
    have h' := hkey.trans h
    rw [Option.map_eq_none_iff] at h h'
    constructor
    · rintro ⟨l, _, _, hl, _⟩
      rw [h'] at hl
      cases hl
    · rintro ⟨l, _, _, hl, _⟩
      rw [h] at hl
      cases hl
  | some key =>
    rw [covers_iff h, covers_iff (hkey.trans h)]
    simp only [hedge, hnames]

/-! ## The reach is what `entitled_package_bounds` answers -/

/-- The bound the serve-time view gives a package, if it lists it. -/
def entitledBound (license : Uuid) (name : String) : Option UpdateBound :=
  (db.unioned license).lookup name

/-- The union has each name once, in order. -/
theorem unioned_keys (license : Uuid) :
    (db.unioned license).map Prod.fst =
      ((db.edges license).map (·.1)).dedup.insertionSort (· ≤ ·) := by
  rw [unioned, List.map_map]
  exact List.map_id _

theorem unioned_keys_nodup (license : Uuid) : ((db.unioned license).map Prod.fst).Nodup := by
  rw [unioned_keys]
  exact (List.perm_insertionSort _ _).nodup_iff.2 (List.nodup_dedup _)

/-- A listed row carries the reach of its package. -/
theorem mem_unioned_iff (license : Uuid) (name : String) (b : UpdateBound) :
    (name, b) ∈ db.unioned license ↔ db.reach license name = b.ceiling := by
  -- the group of a name unions to what the edges reach of it
  have hgroup : ∀ n, n ∈ (db.edges license).map (·.1) →
      db.reach license n = UpdateBound.ceiling
        { updateUntil := union ((((db.edges license).filter fun e => e.1 = n).map (·.2)).map
            (·.updateUntil))
          versionCapMajor := union ((((db.edges license).filter fun e => e.1 = n).map (·.2)).map
            (·.versionCapMajor)) } := by
    intro n hn
    obtain ⟨e, he, rfl⟩ := List.mem_map.1 hn
    have hne : ((db.edges license).filter fun x => x.1 = e.1).map
        (fun x => (x.2.updateUntil, x.2.versionCapMajor)) ≠ [] := by
      intro h
      rw [List.map_eq_nil_iff, List.filter_eq_nil_iff] at h
      exact h e he (by simp)
    have hunion := reach_eq_union hne
    rw [List.map_map, List.map_map, List.map_map] at hunion
    rw [List.map_map, List.map_map]
    exact hunion
  rw [unioned, List.mem_map]
  constructor
  · rintro ⟨n, hn, heq⟩
    rw [List.mem_insertionSort, List.mem_dedup] at hn
    rw [Prod.mk.injEq] at heq
    obtain ⟨rfl, rfl⟩ := heq
    exact hgroup n hn
  · intro h
    have hmem : name ∈ (db.edges license).map (·.1) := by
      by_contra hnot
      -- a name on no edge is reached by none
      have hbot : db.reach license name = ⊥ := by
        rw [reach_eq_bot_iff]
        intro e he
        exact hnot (List.mem_map.2 ⟨(name, e), (db.mem_edges_iff license name e).2 he, rfl⟩)
      rw [hbot] at h
      exact WithBot.bot_ne_coe h
    refine ⟨name, ?_, ?_⟩
    · rw [List.mem_insertionSort, List.mem_dedup]
      exact hmem
    · have heq := (hgroup name hmem).symm.trans h
      rw [Prod.mk.injEq]
      exact ⟨rfl, UpdateBound.ceiling_injective (WithBot.coe_injective heq)⟩

/-- **The answer lists a package under a bound exactly when that is its reach.** -/
theorem entitledBound_eq_some_iff (license : Uuid) (name : String) (b : UpdateBound) :
    db.entitledBound license name = some b ↔ db.reach license name = b.ceiling := by
  rw [entitledBound, Table.lookup_eq_some_iff (db.unioned_keys_nodup license), mem_unioned_iff]

end Catalog

/-! ## Comparing answers -/

/-- What a listed bound gives: nothing when the package is not listed. -/
def grant : Option UpdateBound → WithBot (WithTop Timestamp × WithTop ℤ)
  | none => ⊥
  | some b => b.ceiling

@[simp] theorem grant_none : grant none = ⊥ := rfl

@[simp] theorem grant_some (b : UpdateBound) : grant (some b) = b.ceiling := rfl

theorem grant_injective : Function.Injective grant := by
  rintro (_ | a) (_ | b) h
  · rfl
  · exact absurd h WithBot.bot_ne_coe
  · exact absurd h WithBot.coe_ne_bot
  · rw [UpdateBound.ceiling_injective (WithBot.coe_injective h)]

/-- The second answer is at least as permissive as the first: a listed package
stays listed, and neither ceiling comes down (NULL is the most permissive). -/
def Permissive (before after : Option UpdateBound) : Prop :=
  ∀ b, before = some b → ∃ c, after = some c ∧
    axis b.updateUntil ≤ axis c.updateUntil ∧ axis b.versionCapMajor ≤ axis c.versionCapMajor

/-- A bound that permits no less grants no less. -/
theorem permissive_iff (before after : Option UpdateBound) :
    Permissive before after ↔ grant before ≤ grant after := by
  unfold Permissive
  cases before with
  | none => simp
  | some b =>
    cases after with
    | none => simp
    | some c =>
      simp only [Option.some.injEq, forall_eq', exists_eq_left', grant_some, WithBot.coe_le_coe]
      exact Iff.rfl

/-- The more permissive of two bounds on each axis. -/
def UpdateBound.widest (a b : UpdateBound) : UpdateBound where
  updateUntil := Ceiling.widest a.updateUntil b.updateUntil
  versionCapMajor := Ceiling.widest a.versionCapMajor b.versionCapMajor

/-- The widest of two bounds reaches as far as either. -/
@[simp] theorem UpdateBound.ceiling_widest (a b : UpdateBound) :
    (a.widest b).ceiling = a.ceiling ⊔ b.ceiling := by
  unfold UpdateBound.widest UpdateBound.ceiling both
  rw [axis_widest, axis_widest]
  rfl

/-- The permissive join of two answers: an absent one counts for nothing. -/
def permissiveJoin : Option UpdateBound → Option UpdateBound → Option UpdateBound
  | some a, some b => some (a.widest b)
  | some a, none => some a
  | none, b => b

/-- The permissive join grants what either does. -/
@[simp] theorem grant_permissiveJoin (a b : Option UpdateBound) :
    grant (permissiveJoin a b) = grant a ⊔ grant b := by
  cases a with
  | none => simp [permissiveJoin]
  | some a =>
    cases b with
    | none => simp [permissiveJoin]
    | some b => rw [permissiveJoin, grant_some, UpdateBound.ceiling_widest, WithBot.coe_sup]; rfl

namespace Catalog

/-- The reach of a key is the answer it is given. -/
theorem reach_eq_grant (db : Catalog) (license : Uuid) (name : String) :
    db.reach license name = grant (db.entitledBound license name) := by
  cases h : db.entitledBound license name with
  | some b => exact (db.entitledBound_eq_some_iff license name b).1 h
  | none =>
    rw [grant_none]
    by_contra hne
    obtain ⟨c, hc⟩ := WithBot.ne_bot_iff_exists.1 hne
    obtain ⟨b, rfl⟩ := UpdateBound.ceiling_surjective c
    rw [(db.entitledBound_eq_some_iff license name b).2 hc.symm] at h
    cases h

/-- An answer is at least as permissive as another exactly when the key reaches
at least as far. -/
theorem permissive_entitledBound_iff (db db' : Catalog) (license license' : Uuid)
    (name : String) :
    Permissive (db.entitledBound license name) (db'.entitledBound license' name) ↔
      db.reach license name ≤ db'.reach license' name := by
  rw [permissive_iff, reach_eq_grant, reach_eq_grant]

/-- The entitled bound depends on the reach alone. -/
theorem entitledBound_congr {db db' : Catalog} {license license' : Uuid} {name : String}
    (h : db.reach license name = db'.reach license' name) :
    db.entitledBound license name = db'.entitledBound license' name := by
  rw [reach_eq_grant, reach_eq_grant] at h
  exact grant_injective h

/-- The serve-time view looks a package up in the unioned rows. -/
theorem lookup_entitledPackageBounds (ses : Session) (db : Catalog) (license : Uuid)
    (name : String) :
    (entitledPackageBounds ses db license).lookup name =
      (db.entitledBound license name).map ses.licenseBound := by
  unfold entitledPackageBounds entitledBound
  induction db.unioned license with
  | nil => rfl
  | cons r rows ih =>
    rw [List.map_cons, List.lookup_cons, List.lookup_cons]
    by_cases h : name == r.1
    · rw [h]
      rfl
    · rw [Bool.not_eq_true] at h
      rw [h]
      exact ih

/-- Equal reaches give equal answers, row by row. -/
theorem entitledPackageBounds_congr (ses : Session) {db db' : Catalog} {license license' : Uuid}
    (h : ∀ name, db.reach license name = db'.reach license' name) :
    entitledPackageBounds ses db license = entitledPackageBounds ses db' license' := by
  have hmem : ∀ r, r ∈ db.unioned license ↔ r ∈ db'.unioned license' := by
    rintro ⟨name, b⟩
    rw [mem_unioned_iff, mem_unioned_iff, h]
  have hperm : (db.unioned license).Perm (db'.unioned license') :=
    (List.perm_ext_iff_of_nodup (db.unioned_keys_nodup license).of_map
      (db'.unioned_keys_nodup license').of_map).2 hmem
  have hsorted : ∀ (d : Catalog) (l : Uuid),
      (d.unioned l).Pairwise fun r s => r.1 ≤ s.1 := by
    intro d l
    rw [← List.pairwise_map , unioned_keys]
    exact List.pairwise_insertionSort _ _
  have heq : db.unioned license = db'.unioned license' := by
    refine hperm.eq_of_pairwise ?_ (hsorted db license) (hsorted db' license')
    rintro ⟨n, b⟩ ⟨m, c⟩ hb hc hnm hmn
    obtain rfl : n = m := le_antisymm hnm hmn
    rw [mem_unioned_iff] at hb hc
    rw [h, hc] at hb
    rw [UpdateBound.ceiling_injective (WithBot.coe_injective hb)]
  rw [entitledPackageBounds, entitledPackageBounds, heq]

end Catalog

end Sconce
