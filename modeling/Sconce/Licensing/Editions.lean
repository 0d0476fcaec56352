/-
# Editions and the SKU cap

The writers of `editions`, statement by statement, and the cap on an organization's
active editions that two of them check: selling one edition more, or selling one
again, takes a free SKU.

`activeEditions` is the count the cap constrains.  Each writer comes with what it
does to that count.
-/
import Sconce.Schema

namespace Sconce

/-! ## Text columns -/

/-- The Unicode property `White_Space`. -/
def isWhitespace (c : Char) : Bool :=
  let n := c.toNat
  (0x9 ≤ n && n ≤ 0xD) || n == 0x20 || n == 0x85 || n == 0xA0 || n == 0x1680 ||
    (0x2000 ≤ n && n ≤ 0x200A) || n == 0x2028 || n == 0x2029 || n == 0x202F || n == 0x205F ||
    n == 0x3000

/-- `s.trim()`. -/
def trim (s : String) : String :=
  String.ofList ((s.toList.dropWhile isWhitespace).reverse.dropWhile isWhitespace).reverse

/-- The arguments of `create_edition`, with the id the row is given. -/
structure NewEdition where
  repo : Uuid
  name : String
  slug : Option String
  set : Uuid
  bound : EditionBound
  snapshot : Bool
  policy : PolicyOverride
  id : Uuid
  bound_valid : bound.Valid

/-- The row it inserts: trimmed texts, no empty slug, active by default. -/
def NewEdition.row (e : NewEdition) : Edition where
  repoId := e.repo
  name := trim e.name
  slug := (e.slug.map trim).filter fun slug => !slug.isEmpty
  setId := e.set
  bound := e.bound
  snapshotAtIssue := e.snapshot
  policy := e.policy
  active := true
  bound_valid := e.bound_valid

/-- Two rows of `editions` that no table may hold together: the primary key,
`unique (repo_id, name)`, and the partial unique index on `(repo_id, slug)`. -/
def Edition.Conflict (a b : Uuid × Edition) : Prop :=
  a.1 = b.1 ∨ (a.2.repoId = b.2.repoId ∧
    (a.2.name = b.2.name ∨ (a.2.slug = b.2.slug ∧ a.2.slug.isSome)))

instance Edition.decidableConflict (a b : Uuid × Edition) : Decidable (Edition.Conflict a b) := by
  unfold Edition.Conflict
  infer_instance

/-- The features of a plan that a call can need. -/
inductive Feature where
  | agency
  | sso
  | scim
  deriving DecidableEq

/-- Why a call is refused. -/
inductive EntitlementError where
  | denied (feature : Feature)
  | skuCapReached (cap : ℤ)
  | sqlx (e : SqlError)
  deriving DecidableEq

/-! ## The statements -/

namespace Catalog

variable (db : Catalog)

/-- `select org_id from repositories where id = repo`. -/
def orgOfRepo (repo : Uuid) : Option Uuid := (db.repositories.get? repo).map (·.orgId)

/-- What the count selects: the active editions of an organization's repositories, but
for the excluded one. -/
def counted (org : Uuid) (exclude : Option Uuid) (id : Uuid) (e : Edition) : Bool :=
  decide (db.orgOfRepo e.repoId = some org) && e.active && decide (exclude ≠ some id)

/-- The number of editions `require_sku_capacity_tx` compares with the cap. -/
def activeEditions (org : Uuid) (exclude : Option Uuid) : ℕ :=
  db.editions.count (db.counted org exclude)

/-- `Entitlements::allows`, of the entitlements in force for an organization: without a row
they are unlimited. -/
def allows (org : Uuid) (feature : Feature) : Bool :=
  (db.orgFeatures.get? org).all fun e =>
    match feature with
    | .agency => e.agency
    | .sso => e.sso
    | .scim => e.scim

/-- `require_feature`. -/
def requireFeature (org : Uuid) (feature : Feature) : Except EntitlementError Unit :=
  if db.allows org feature then .ok () else .error (.denied feature)

/-- `count_active_editions`. -/
def countActiveEditions (org : Uuid) : ℕ := db.activeEditions org none

/-- `require_sku_capacity_tx`, under its lock. -/
def requireSkuCapacity (org : Uuid) (exclude : Option Uuid) : Except EntitlementError Unit :=
  match db.maxSkus.get? org with
  | none => .ok ()
  | some cap =>
    if cap ≤ db.activeEditions org exclude then .error (.skuCapReached cap) else .ok ()

/-- `exists(select 1 from package_sets where id = set and org_id = org)`. -/
def setInOrg (set org : Uuid) : Bool := (db.packageSets.get? set).any fun s => s.orgId = org

/-- Insert an edition, under the table's constraints. -/
def insertEdition (id : Uuid) (row : Edition) : Except SqlError Catalog :=
  if row.policy.cooldownDays.any (· < 0) then
    .error .checkViolation
  else if db.editions.rows.any fun r => Edition.Conflict (id, row) r then
    .error .uniqueViolation
  else if (db.repositories.get? row.repoId).isNone ∨ (db.packageSets.get? row.setId).isNone then
    .error .foreignKeyViolation
  else
    .ok { db with editions := db.editions.insertNew id row }

/-- `… from editions where id = edition and repo_id = repo`. -/
def editionIn (repo edition : Uuid) : Option Edition :=
  (db.editions.get? edition).filter fun e => e.repoId = repo

/-- `update editions set active = … where id = edition and repo_id = repo`. -/
def updateActive (repo edition : Uuid) (active : Bool) : Catalog :=
  { db with
    editions := db.editions.update fun id e =>
      if id = edition ∧ e.repoId = repo then { e with active := active } else e }

/-- `delete from editions where id = edition and repo_id = repo`; the keys issued
from a deleted edition keep everything but their `edition_id`. -/
def dropEdition (repo edition : Uuid) : Catalog :=
  { db with
    editions := db.editions.delete fun id e => decide (id = edition ∧ e.repoId = repo)
    licenseKeys := db.licenseKeys.update fun _ key =>
      if (db.editionIn repo edition).isSome ∧ key.editionId = some edition then
        { key with editionId := none }
      else key }

/-! ## The writers -/

/-- `create_edition`. -/
def createEdition (e : NewEdition) : Except EntitlementError (Option Uuid × Catalog) :=
  match db.orgOfRepo e.repo with
  | none => .error (.sqlx .rowNotFound)
  | some org =>
    match db.requireSkuCapacity org none with
    | .error err => .error err
    | .ok () =>
      if db.setInOrg e.set org then
        match db.insertEdition e.id e.row with
        | .error err => .error (.sqlx err)
        | .ok db' => .ok (some e.id, db')
      else .ok (none, db)

/-- `set_edition_active`. -/
def setEditionActive (repo edition : Uuid) (active : Bool) :
    Except EntitlementError (Bool × Catalog) :=
  if active then
    match db.orgOfRepo repo with
    | none => .error (.sqlx .rowNotFound)
    | some org =>
      match db.requireSkuCapacity org (some edition) with
      | .error err => .error err
      | .ok () => .ok ((db.editionIn repo edition).isSome, db.updateActive repo edition true)
  else .ok ((db.editionIn repo edition).isSome, db.updateActive repo edition false)

/-- `delete_edition`. -/
def deleteEdition (repo edition : Uuid) : Bool × Catalog :=
  ((db.editionIn repo edition).isSome, db.dropEdition repo edition)

/-! ## What a statement does -/

variable {db}

/-- An update that matches no row changes nothing. -/
theorem updateActive_of_none {repo edition : Uuid} (h : db.editionIn repo edition = none)
    (active : Bool) : db.updateActive repo edition active = db := by
  unfold updateActive
  rw [Table.update_eq_self]
  intro id e he
  refine if_neg ?_
  rintro ⟨rfl, hrepo⟩
  unfold editionIn at h
  rw [he] at h
  exact Option.filter_eq_none_iff.1 h e rfl (decide_eq_true hrepo)

/-- The cap counts the active editions of the organization, the excluded one aside. -/
theorem counted_eq_true_iff {org : Uuid} {exclude : Option Uuid} {id : Uuid} {e : Edition} :
    db.counted org exclude id e = true ↔
      db.orgOfRepo e.repoId = some org ∧ e.active = true ∧ exclude ≠ some id := by
  unfold counted
  simp only [Bool.and_eq_true, decide_eq_true_eq, and_assoc]

/-- What an accepted insert leaves. -/
theorem eq_of_insertEdition {db' : Catalog} {id : Uuid} {row : Edition}
    (h : db.insertEdition id row = .ok db') :
    db' = { db with editions := db.editions.insertNew id row } := by
  unfold insertEdition at h
  split_ifs at h
  exact (Except.ok.inj h).symm

/-- Excluding an edition lowers the count by one at most. -/
theorem countActiveEditions_le (org : Uuid) (exclude : Option Uuid) :
    db.countActiveEditions org ≤ db.activeEditions org exclude + 1 := by
  cases exclude with
  | none => exact Nat.le_succ _
  | some edition =>
    refine Table.count_le_add_one _ edition ?_
    intro id e hid h
    obtain ⟨horg, hactive, -⟩ := counted_eq_true_iff.1 h
    exact counted_eq_true_iff.2 ⟨horg, hactive, fun heq => hid (Option.some.inj heq).symm⟩

/-- Deactivating an edition never raises the count. -/
theorem activeEditions_deactivate_le (repo edition org : Uuid) (exclude : Option Uuid) :
    (db.updateActive repo edition false).activeEditions org exclude
      ≤ db.activeEditions org exclude := by
  have hcount : (db.updateActive repo edition false).activeEditions org exclude = _ :=
    Table.count_update db.editions _ (db.counted org exclude)
  rw [hcount]
  refine Table.count_mono _ ?_
  intro id e h
  split_ifs at h with hrow
  · exact absurd (counted_eq_true_iff.1 h).2.1 Bool.false_ne_true
  · exact h

/-- Activating an edition counts nothing new where the count leaves it out: when it is
the excluded one, or of another organization. -/
theorem activeEditions_activate {repo edition org : Uuid} {exclude : Option Uuid}
    (h : exclude = some edition ∨ db.orgOfRepo repo ≠ some org) :
    (db.updateActive repo edition true).activeEditions org exclude
      ≤ db.activeEditions org exclude := by
  have hcount : (db.updateActive repo edition true).activeEditions org exclude = _ :=
    Table.count_update db.editions _ (db.counted org exclude)
  rw [hcount]
  refine Table.count_mono _ ?_
  intro id e hcounted
  split_ifs at hcounted with hrow
  · obtain ⟨horg, -, hne⟩ := counted_eq_true_iff.1 hcounted
    rcases h with h | h
    · exact absurd (hrow.1 ▸ h) hne
    · exact absurd (hrow.2 ▸ horg) h
  · exact hcounted

/-- Deleting an edition never raises the count. -/
theorem activeEditions_dropEdition_le (repo edition org : Uuid) (exclude : Option Uuid) :
    (db.dropEdition repo edition).activeEditions org exclude ≤ db.activeEditions org exclude :=
  Table.count_delete_le db.editions _ (db.counted org exclude)

/-- Inserting an edition raises the count by one, if it is of the organization. -/
theorem activeEditions_insert_le (id : Uuid) (row : Edition) (org : Uuid)
    (exclude : Option Uuid) :
    ({ db with editions := db.editions.insertNew id row } : Catalog).activeEditions org exclude
      ≤ db.activeEditions org exclude +
        if db.orgOfRepo row.repoId = some org then 1 else 0 := by
  refine le_trans (Table.count_insertNew_le db.editions id row (db.counted org exclude))
    (Nat.add_le_add_left ?_ _)
  split_ifs with hcounted horg horg
  · exact Nat.le_refl 1
  · exact absurd (counted_eq_true_iff.1 hcounted).1 horg
  · exact Nat.zero_le 1
  · exact Nat.le_refl 0

end Catalog

end Sconce
