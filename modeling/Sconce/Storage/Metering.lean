/-
# The storage meters

`org_storage` meters one organization and `storage_by_org` all of them: the distinct blobs that
versions and snapshots of the organization's repositories reference, and the sum of their sizes.
A blob counts once for each organization that references it, however often.

The two are written apart, one with the organization in every `where`, the other with a left join
and a grouping; for every catalog they answer the same (`metersAgree`).  A sum beyond `bigint` is
an error of either.
-/
import Sconce.Lib.Aggregates
import Sconce.Lib.Unions
import Sconce.Schema

namespace Sconce

open Aggregates

/-! ## The queries -/

/-- `StorageUsage`. -/
structure StorageUsage where
  bytes : ℤ
  blobCount : ℕ
  deriving DecidableEq

/-- `OrgStorage`. -/
structure OrgStorage where
  orgId : Uuid
  orgSlug : String
  orgName : Option String
  usage : StorageUsage
  deriving DecidableEq

/-- `::bigint`. -/
def castBigint (n : ℤ) : Except SqlError ℤ :=
  if -9223372036854775808 ≤ n ∧ n ≤ 9223372036854775807 then .ok n else .error .castError

namespace Catalog

variable (db : Catalog)

/-- The dists of an organization's versions, of `org_storage`. -/
def orgVersionBlobs (org : Uuid) : List (Sha256 × ℤ) :=
  db.packageVersions.rows.filterMap fun (key, pv) => do
    let p ← db.packages.get? key.packageId
    let r ← db.repositories.get? p.repoId
    let sha ← pv.distBlobSha256
    let b ← db.blobs.get? sha
    if r.orgId = org then some (sha, b.sizeBytes) else none

/-- The blobs of an organization's snapshots, of `org_storage`. -/
def orgSnapshotBlobs (org : Uuid) : List (Sha256 × ℤ) :=
  db.snapshots.rows.filterMap fun (_, s) => do
    let r ← db.repositories.get? s.repoId
    let b ← db.blobs.get? s.blobSha256
    if r.orgId = org then some (s.blobSha256, b.sizeBytes) else none

/-- `Catalog::org_storage`. -/
def orgStorage (org : Uuid) : Except SqlError StorageUsage := do
  let t := (db.orgVersionBlobs org ++ db.orgSnapshotBlobs org).dedup
  let bytes ← castBigint ((sum (t.map fun row => some row.2)).getD 0)
  return ⟨bytes, t.length⟩

/-- The dists of versions with their organizations, of `storage_by_org`. -/
def versionUses : List (Uuid × Sha256 × ℤ) :=
  db.packageVersions.rows.filterMap fun (key, pv) => do
    let p ← db.packages.get? key.packageId
    let r ← db.repositories.get? p.repoId
    let sha ← pv.distBlobSha256
    let b ← db.blobs.get? sha
    return (r.orgId, sha, b.sizeBytes)

/-- The blobs of snapshots with their organizations, of `storage_by_org`. -/
def snapshotUses : List (Uuid × Sha256 × ℤ) :=
  db.snapshots.rows.filterMap fun (_, s) => do
    let r ← db.repositories.get? s.repoId
    let b ← db.blobs.get? s.blobSha256
    return (r.orgId, s.blobSha256, b.sizeBytes)

/-- The columns of a group: the organization's, the sum and the count. -/
def storageOf
    (group : (Uuid × String × Option String) ×
      List ((Uuid × Organization) × Option (Uuid × Sha256 × ℤ))) : Except SqlError OrgStorage := do
  let bytes ← castBigint ((sum (group.2.map fun row => row.2.map fun t => t.2.2)).getD 0)
  return ⟨group.1.1, group.1.2.1, group.1.2.2,
    ⟨bytes, count (group.2.map fun row => row.2.map fun t => t.2.1)⟩⟩

/-- `Catalog::storage_by_org`. -/
def storageByOrg : Except SqlError (List OrgStorage) := do
  let t := (db.versionUses ++ db.snapshotUses).dedup
  let joined := leftJoin (fun o t => decide (t.1 = o.1)) db.organizations.rows t
  let groups := groupBy (fun row => (row.1.1, row.1.2.slug, row.1.2.name)) joined
  let rows ← groups.mapM storageOf
  return rows.mergeSort fun a b => decide
    (b.usage.bytes < a.usage.bytes ∨ b.usage.bytes = a.usage.bytes ∧ a.orgSlug ≤ b.orgSlug)

/-! ## What they meter -/

/-- A version or a snapshot of the organization references the blob. -/
def ReferencedBy (org : Uuid) (sha : Sha256) : Prop :=
  (∃ key pv p r, db.packageVersions.get? key = some pv ∧ db.packages.get? key.packageId = some p ∧
    db.repositories.get? p.repoId = some r ∧ r.orgId = org ∧ pv.distBlobSha256 = some sha) ∨
  ∃ id s r, db.snapshots.get? id = some s ∧ db.repositories.get? s.repoId = some r ∧
    r.orgId = org ∧ s.blobSha256 = sha

open Classical in
/-- The blobs the organization references, each once. -/
noncomputable def referencedBlobs (org : Uuid) : List (Sha256 × Blob) :=
  db.blobs.rows.filter fun b => db.ReferencedBy org b.1

/-- The number of the blobs, and their sizes summed. -/
noncomputable def referencedUsage (org : Uuid) : StorageUsage :=
  ⟨((db.referencedBlobs org).map (·.2.sizeBytes)).sum, (db.referencedBlobs org).length⟩

end Catalog

/-- Either meter answers with the number and the size of the blobs referenced: a sweep has one
entry for every organization, with what `org_storage` answers for it, and is refused exactly where
`org_storage` is refused for one of them. -/
structure MetersAgree (db : Catalog) : Prop where
  metered : ∀ org, db.orgStorage org =
    (castBigint (db.referencedUsage org).bytes).map fun bytes =>
      ⟨bytes, (db.referencedUsage org).blobCount⟩
  idle : ∀ org, (∀ sha, ¬ db.ReferencedBy org sha) → db.orgStorage org = .ok ⟨0, 0⟩
  listed : ∀ entries, db.storageByOrg = .ok entries →
    (entries.map (·.orgId)).Perm (db.organizations.rows.map Prod.fst)
  swept : ∀ entries, db.storageByOrg = .ok entries → ∀ e ∈ entries,
    (∃ o, db.organizations.get? e.orgId = some o ∧ e.orgSlug = o.slug ∧ e.orgName = o.name) ∧
      db.orgStorage e.orgId = .ok e.usage ∧ e.usage = db.referencedUsage e.orgId
  refused : (∃ e, db.storageByOrg = .error e) ↔
    ∃ org o, db.organizations.get? org = some o ∧ ∃ e, db.orgStorage org = .error e

/-! ## One organization -/

namespace Catalog

variable (db : Catalog) (org : Uuid)

/-- The first branch of the union: the archives of the organization's versions. -/
theorem orgVersionBlobs_eq :
    db.orgVersionBlobs org = (db.versionUses.filter fun u => u.1 = org).map Prod.snd := by
  rw [← filterMap_restrict, versionUses, List.filterMap_filterMap, orgVersionBlobs]
  refine congrArg (List.filterMap · _) (funext fun ⟨key, pv⟩ => ?_)
  show (db.packages.get? key.packageId).bind _ = ((db.packages.get? key.packageId).bind _).bind _
  cases db.packages.get? key.packageId with
  | none => rfl
  | some p =>
    show (db.repositories.get? p.repoId).bind _ = ((db.repositories.get? p.repoId).bind _).bind _
    cases db.repositories.get? p.repoId with
    | none => rfl
    | some r =>
      cases pv.distBlobSha256 with
      | none => rfl
      | some sha =>
        show (db.blobs.get? sha).bind _ = ((db.blobs.get? sha).bind _).bind _
        cases db.blobs.get? sha <;> rfl

/-- The second branch: the dumps of its snapshots. -/
theorem orgSnapshotBlobs_eq :
    db.orgSnapshotBlobs org = (db.snapshotUses.filter fun u => u.1 = org).map Prod.snd := by
  rw [← filterMap_restrict, snapshotUses, List.filterMap_filterMap, orgSnapshotBlobs]
  refine congrArg (List.filterMap · _) (funext fun ⟨_, s⟩ => ?_)
  show (db.repositories.get? s.repoId).bind _ = ((db.repositories.get? s.repoId).bind _).bind _
  cases db.repositories.get? s.repoId with
  | none => rfl
  | some r =>
    show (db.blobs.get? s.blobSha256).bind _ = ((db.blobs.get? s.blobSha256).bind _).bind _
    cases db.blobs.get? s.blobSha256 <;> rfl

/-- What `org_storage` makes distinct is what `storage_by_org` lists under the organization. -/
theorem orgBlobs_eq :
    db.orgVersionBlobs org ++ db.orgSnapshotBlobs org
      = ((db.versionUses ++ db.snapshotUses).filter fun u => u.1 = org).map Prod.snd := by
  rw [orgVersionBlobs_eq, orgSnapshotBlobs_eq, List.filter_append, List.map_append]

/-- Which archives are counted, joined to their blobs. -/
theorem mem_orgVersionBlobs_iff (sha : Sha256) (size : ℤ) :
    (sha, size) ∈ db.orgVersionBlobs org ↔
      (∃ key pv p r, db.packageVersions.get? key = some pv ∧
        db.packages.get? key.packageId = some p ∧ db.repositories.get? p.repoId = some r ∧
        r.orgId = org ∧ pv.distBlobSha256 = some sha) ∧
      ∃ b, db.blobs.get? sha = some b ∧ b.sizeBytes = size := by
  rw [orgVersionBlobs, List.mem_filterMap]
  constructor
  · rintro ⟨⟨key, pv⟩, hrow, h⟩
    obtain ⟨p, hp, h⟩ := Option.bind_eq_some_iff.1 h
    obtain ⟨r, hr, h⟩ := Option.bind_eq_some_iff.1 h
    obtain ⟨sha', hsha, h⟩ := Option.bind_eq_some_iff.1 h
    obtain ⟨b, hb, h⟩ := Option.bind_eq_some_iff.1 h
    split_ifs at h with horg
    cases h
    exact ⟨⟨key, pv, p, r, (Table.mem_rows_iff _ _ _).1 hrow, hp, hr, horg, hsha⟩, b, hb, rfl⟩
  · rintro ⟨⟨key, pv, p, r, hpv, hp, hr, horg, hsha⟩, b, hb, rfl⟩
    refine ⟨(key, pv), (Table.mem_rows_iff _ _ _).2 hpv, ?_⟩
    show (db.packages.get? key.packageId).bind _ = _
    rw [hp, Option.bind_some]
    show (db.repositories.get? p.repoId).bind _ = _
    rw [hr, Option.bind_some, hsha]
    show (db.blobs.get? sha).bind _ = _
    rw [hb, Option.bind_some, if_pos horg]

/-- Which dumps are counted, joined to their blobs. -/
theorem mem_orgSnapshotBlobs_iff (sha : Sha256) (size : ℤ) :
    (sha, size) ∈ db.orgSnapshotBlobs org ↔
      (∃ id s r, db.snapshots.get? id = some s ∧ db.repositories.get? s.repoId = some r ∧
        r.orgId = org ∧ s.blobSha256 = sha) ∧
      ∃ b, db.blobs.get? sha = some b ∧ b.sizeBytes = size := by
  rw [orgSnapshotBlobs, List.mem_filterMap]
  constructor
  · rintro ⟨⟨id, s⟩, hrow, h⟩
    obtain ⟨r, hr, h⟩ := Option.bind_eq_some_iff.1 h
    obtain ⟨b, hb, h⟩ := Option.bind_eq_some_iff.1 h
    split_ifs at h with horg
    cases h
    exact ⟨⟨id, s, r, (Table.mem_rows_iff _ _ _).1 hrow, hr, horg, rfl⟩, b, hb, rfl⟩
  · rintro ⟨⟨id, s, r, hs, hr, horg, rfl⟩, b, hb, rfl⟩
    refine ⟨(id, s), (Table.mem_rows_iff _ _ _).2 hs, ?_⟩
    show (db.repositories.get? s.repoId).bind _ = _
    rw [hr, Option.bind_some]
    show (db.blobs.get? s.blobSha256).bind _ = _
    rw [hb, Option.bind_some, if_pos horg]

/-- The blobs of the specification are the stored ones the organization references. -/
theorem mem_referencedBlobs_iff (sha : Sha256) (b : Blob) :
    (sha, b) ∈ db.referencedBlobs org ↔ db.blobs.get? sha = some b ∧ db.ReferencedBy org sha := by
  simp only [referencedBlobs, List.mem_filter, decide_eq_true_eq, Table.mem_rows_iff]

/-- **The distinct rows are the blobs referenced**, with their sizes. -/
theorem distinct_orgBlobs :
    (db.orgVersionBlobs org ++ db.orgSnapshotBlobs org).dedup.Perm
      ((db.referencedBlobs org).map fun b => (b.1, b.2.sizeBytes)) := by
  have hnodup : ((db.referencedBlobs org).map fun b => (b.1, b.2.sizeBytes)).Nodup := by
    have hkeys : ((db.referencedBlobs org).map Prod.fst).Nodup :=
      db.blobs.nodup.sublist (List.Sublist.map _ List.filter_sublist)
    refine List.Nodup.of_map Prod.fst ?_
    rw [List.map_map]
    exact hkeys
  refine (List.perm_ext_iff_of_nodup (List.nodup_dedup _) hnodup).2 ?_
  rintro ⟨sha, size⟩
  rw [List.mem_dedup, List.mem_append, mem_orgVersionBlobs_iff, mem_orgSnapshotBlobs_iff,
    ← or_and_right, List.mem_map]
  constructor
  · rintro ⟨href, b, hb, rfl⟩
    exact ⟨(sha, b), (mem_referencedBlobs_iff db org sha b).2 ⟨hb, href⟩, rfl⟩
  · rintro ⟨⟨sha', b⟩, hmem, heq⟩
    cases heq
    obtain ⟨hb, href⟩ := (mem_referencedBlobs_iff db org sha' b).1 hmem
    exact ⟨href, b, hb, rfl⟩

/-- `org_storage` adds up the rows it made distinct, whatever their order. -/
theorem orgStorage_of_perm {t : List (Sha256 × ℤ)}
    (h : (db.orgVersionBlobs org ++ db.orgSnapshotBlobs org).dedup.Perm t) :
    db.orgStorage org = (castBigint (t.map Prod.snd).sum).map fun bytes => ⟨bytes, t.length⟩ := by
  have hsum : ∀ rows : List (Sha256 × ℤ),
      (sum (rows.map fun row => some row.2)).getD 0 = (rows.map Prod.snd).sum := by
    intro rows
    have hsome : (rows.map fun row => some row.2) = (rows.map Prod.snd).map some := by
      rw [List.map_map]
      rfl
    rw [sum_getD, hsome, reduceOption_map_some]
  show (castBigint ((sum ((_ : List (Sha256 × ℤ)).map fun row => some row.2)).getD 0)).bind _ = _
  rw [hsum, (h.map Prod.snd).sum_eq]
  rw [h.length_eq]
  cases castBigint (t.map Prod.snd).sum <;> rfl

/-- The query sums the referenced blobs, each once, and casts the sum. -/
theorem orgStorage_eq :
    db.orgStorage org = (castBigint (db.referencedUsage org).bytes).map fun bytes =>
      ⟨bytes, (db.referencedUsage org).blobCount⟩ := by
  rw [orgStorage_of_perm db org (distinct_orgBlobs db org), List.map_map, List.length_map]
  rfl

/-- The query answers where the sum is a `bigint`, and with it. -/
theorem orgStorage_eq_ok_iff (usage : StorageUsage) :
    db.orgStorage org = .ok usage ↔
      usage = db.referencedUsage org ∧
        ∃ bytes, castBigint (db.referencedUsage org).bytes = .ok bytes := by
  have hcast : ∀ {n m : ℤ}, castBigint n = .ok m → m = n := by
    intro n m h
    unfold castBigint at h
    split_ifs at h
    exact (Except.ok.inj h).symm
  rw [orgStorage_eq]
  cases hbytes : castBigint (db.referencedUsage org).bytes with
  | error e =>
    constructor
    · rintro ⟨⟩
    · rintro ⟨-, _, ⟨⟩⟩
  | ok bytes =>
    obtain rfl := hcast hbytes
    constructor
    · intro h
      exact ⟨(Except.ok.inj h).symm, _, rfl⟩
    · rintro ⟨rfl, -⟩
      rfl

/-! ## The sweep -/

/-- The entry of one organization. -/
def entryOf (o : Uuid × Organization) : Except SqlError OrgStorage :=
  (db.orgStorage o.1).map fun usage => ⟨o.1, o.2.slug, o.2.name, usage⟩

/-- **A group's columns are what `org_storage` answers.** -/
theorem storageOf_group (o : Uuid × Organization) :
    storageOf ((o.1, o.2.slug, o.2.name),
      joinedTo (fun o t => decide (t.1 = o.1)) (db.versionUses ++ db.snapshotUses).dedup o)
      = db.entryOf o := by
  have hperm := (distinct_restrict (db.versionUses ++ db.snapshotUses) o.1).symm
  rw [← orgBlobs_eq] at hperm
  have hsize : (Prod.snd ∘ Prod.snd : Uuid × Sha256 × ℤ → ℤ) = fun t => t.2.2 := rfl
  unfold storageOf entryOf
  rw [sum_getD, count, reduceOption_joinedTo, reduceOption_joinedTo,
    orgStorage_of_perm db o.1 hperm, List.map_map, List.length_map, List.length_map, hsize]
  show Except.bind (castBigint _) _ = Except.map _ (Except.map _ (castBigint _))
  cases castBigint _ <;> rfl

/-- The page reads every organization's usage and sorts by it. -/
theorem storageByOrg_eq :
    db.storageByOrg = (db.organizations.rows.mapM db.entryOf).map fun rows =>
      rows.mergeSort fun a b => decide
        (b.usage.bytes < a.usage.bytes ∨ b.usage.bytes = a.usage.bytes ∧ a.orgSlug ≤ b.orgSlug) := by
  have hkeys : (db.organizations.rows.map fun o => (o.1, o.2.slug, o.2.name)).Nodup := by
    refine List.Nodup.of_map Prod.fst ?_
    rw [List.map_map]
    exact db.organizations.nodup
  have hgroups : (db.organizations.rows.map fun o => ((o.1, o.2.slug, o.2.name),
      joinedTo (fun o t => decide (t.1 = o.1)) (db.versionUses ++ db.snapshotUses).dedup o)).mapM
      storageOf = db.organizations.rows.mapM db.entryOf := by
    rw [List.mapM_map]
    exact congrArg (List.mapM · _) (funext fun o => storageOf_group db o)
  unfold storageByOrg
  show Except.bind ((groupBy (fun row => (row.1.1, row.1.2.slug, row.1.2.name)) (leftJoin _ _ _)).mapM
    storageOf) _ = _
  rw [groupBy_leftJoin (fun o : Uuid × Organization => (o.1, o.2.slug, o.2.name)) _ _ hkeys, hgroups]
  cases db.organizations.rows.mapM db.entryOf <;> rfl

end Catalog

/-- **The meters agree on every catalog.** -/
theorem metersAgree (db : Catalog) : MetersAgree db := by
  have hentry : ∀ o e, db.entryOf o = .ok e → e.orgId = o.1 ∧ e.orgSlug = o.2.slug ∧
      e.orgName = o.2.name ∧ db.orgStorage o.1 = .ok e.usage := by
    intro o e h
    unfold Catalog.entryOf at h
    cases hstorage : db.orgStorage o.1 with
    | error e => rw [hstorage] at h; cases h
    | ok usage =>
      rw [hstorage] at h
      cases h
      exact ⟨rfl, rfl, rfl, rfl⟩
  -- the sweep answers with the entries, sorted
  have hok : ∀ entries, db.storageByOrg = .ok entries →
      ∃ rows, db.organizations.rows.mapM db.entryOf = .ok rows ∧ entries.Perm rows := by
    intro entries h
    rw [Catalog.storageByOrg_eq] at h
    cases hrows : db.organizations.rows.mapM db.entryOf with
    | error e => rw [hrows] at h; cases h
    | ok rows =>
      rw [hrows] at h
      cases h
      exact ⟨rows, rfl, List.mergeSort_perm _ _⟩
  refine ⟨db.orgStorage_eq, fun org hnone => ?_, fun entries h => ?_, fun entries h e he => ?_, ?_⟩
  · have hempty : db.referencedBlobs org = [] := by
      rw [List.eq_nil_iff_forall_not_mem]
      rintro ⟨sha, b⟩ hmem
      exact hnone sha ((Catalog.mem_referencedBlobs_iff db org sha b).1 hmem).2
    rw [Catalog.orgStorage_eq, Catalog.referencedUsage, hempty]
    rfl
  · obtain ⟨rows, hrows, hperm⟩ := hok entries h
    rw [← List.map_of_mapM_ok (fun o e hoe => (hentry o e hoe).1) hrows]
    exact hperm.map _
  · obtain ⟨rows, hrows, hperm⟩ := hok entries h
    obtain ⟨⟨org, o⟩, ho, hoe⟩ := (List.mem_of_mapM_ok hrows e).1 (hperm.mem_iff.1 he)
    obtain ⟨hid, hslug, hname, hstorage⟩ := hentry _ e hoe
    have husage := ((Catalog.orgStorage_eq_ok_iff db org e.usage).1 hstorage).1
    rw [hid]
    exact ⟨⟨o, (Table.mem_rows_iff _ _ _).1 ho, hslug, hname⟩, hstorage, husage⟩
  · have hall := List.mapM_ok_iff db.entryOf db.organizations.rows
    constructor
    · rintro ⟨e, h⟩
      by_contra hnone
      push Not at hnone
      -- if no organization failed the sweep would answer
      have hentries : ∀ o ∈ db.organizations.rows, ∃ e, db.entryOf o = .ok e := by
        rintro ⟨org, o⟩ ho
        unfold Catalog.entryOf
        cases hstorage : db.orgStorage org with
        | error e => exact absurd hstorage (hnone org o ((Table.mem_rows_iff _ _ _).1 ho) e)
        | ok usage => exact ⟨_, rfl⟩
      obtain ⟨rows, hrows⟩ := hall.2 hentries
      rw [Catalog.storageByOrg_eq, hrows] at h
      cases h
    · rintro ⟨org, o, ho, e, he⟩
      cases hsweep : db.storageByOrg with
      | error e' => exact ⟨e', rfl⟩
      | ok entries =>
        obtain ⟨rows, hrows, -⟩ := hok entries hsweep
        obtain ⟨entry, hoe⟩ := hall.1 ⟨rows, hrows⟩ (org, o) ((Table.mem_rows_iff _ _ _).2 ho)
        rw [(hentry _ entry hoe).2.2.2] at he
        cases he

end Sconce
