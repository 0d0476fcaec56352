/-
# What a repository sees of the catalog

Its own licence keys, what hangs on them, and every table that is not about licences
(`Catalog.seenBy`).  A writer of the repository reads and writes that alone; a writer of another
leaves it as it was (`Catalog.seenBy_run_of_ne`).

Ids and hashes are the one thing repositories share: a key that is inserted must be new.
-/
import Sconce.Management.Writes
import Sconce.Lib.Slices

namespace Sconce

open Effect

namespace Catalog

variable (db : Catalog)

/-! ## What a repository sees -/

/-- The licence is another repository's. -/
def foreign (repo license : Uuid) : Bool :=
  (db.licenseKeys.get? license).any fun l => l.repoId ≠ repo

/-- The rows that hang on licences of others are left out. -/
def hangsOn {κ ν : Type} [DecidableEq κ] (repo : Uuid) (t : Table (Uuid × κ) ν) :
    Table (Uuid × κ) ν :=
  t.only fun k _ => !db.foreign repo k.1

/-- What a repository sees of the catalog. -/
def seenBy (repo : Uuid) : Catalog :=
  { db with
    licenseKeys := db.licenseKeys.only fun _ l => l.repoId = repo
    entitlements := db.hangsOn repo db.entitlements
    licenseSetEntitlements := db.hangsOn repo db.licenseSetEntitlements
    licenseRenewals := db.hangsOn repo db.licenseRenewals }

variable {db} {repo license : Uuid}

/-- Its own keys are found as before. -/
theorem keyIn_seenBy : (db.seenBy repo).keyIn repo license = db.keyIn repo license := by
  unfold keyIn seenBy
  dsimp only
  rw [Table.get?_only, Option.filter_filter]
  congr 1
  funext l
  exact Bool.and_self _

/-- The keys of the repository are in its view. -/
theorem activeKey_seenBy : (db.seenBy repo).activeKey repo license = db.activeKey repo license :=
  congrArg _ keyIn_seenBy

/-- A key of the repository is not foreign to it. -/
theorem foreign_of_keyIn {l : LicenseKey} (h : db.keyIn repo license = some l) :
    db.foreign repo license = false := by
  unfold keyIn at h
  obtain ⟨hl, hin⟩ := Option.filter_eq_some_iff.1 h
  unfold foreign
  rw [hl, Option.any_some]
  simpa using hin

/-- An active key of the repository is not foreign to it. -/
theorem foreign_of_activeKey {l : LicenseKey} (h : db.activeKey repo license = some l) :
    db.foreign repo license = false := by
  unfold activeKey at h
  exact foreign_of_keyIn (Option.filter_eq_some_iff.1 h).1

theorem foreign_of_get?_eq_none (h : db.licenseKeys.get? license = none) :
    db.foreign repo license = false := by
  unfold foreign
  rw [h, Option.any_none]

/-- What hangs on a licence that is not another's is found as before. -/
theorem get?_hangsOn {κ ν : Type} [DecidableEq κ] {t : Table (Uuid × κ) ν}
    (h : db.foreign repo license = false) (k : κ) :
    (db.hangsOn repo t).get? (license, k) = t.get? (license, k) :=
  Table.get?_only_of_pos t fun _ _ => by rw [h]; rfl

section Hanging

variable {κ ν : Type} [DecidableEq κ] (t : Table (Uuid × κ) ν)

/-- A row is updated in the view as it is in the table: its license is in its key. -/
theorem hangsOn_update (f : Uuid × κ → ν → ν) :
    db.hangsOn repo (t.update f) = (db.hangsOn repo t).update f :=
  Table.only_update t fun _ _ => rfl

theorem hangsOn_delete (q : Uuid × κ → ν → Bool) :
    db.hangsOn repo (t.delete q) = (db.hangsOn repo t).delete q :=
  Table.only_delete t _ q

/-- A new row of a key that is not foreign is new in the view too. -/
theorem hangsOn_insertNew (h : db.foreign repo license = false) (k : κ) (v : ν) :
    db.hangsOn repo (t.insertNew (license, k) v) = (db.hangsOn repo t).insertNew (license, k) v := by
  refine Table.only_insertNew_of_pos t (fun _ _ => ?_) ?_
  · rw [h]
    rfl
  · rw [h]
    rfl

end Hanging

/-- The same licences are another's when the keys keep their repositories. -/
theorem hangsOn_congr {db' : Catalog} {κ ν : Type} [DecidableEq κ] {t : Table (Uuid × κ) ν}
    (h : ∀ license, (∃ k v, t.get? (license, k) = some v) →
      db'.foreign repo license = db.foreign repo license) :
    db'.hangsOn repo t = db.hangsOn repo t := by
  refine Table.only_congr fun k v hk => ?_
  rw [h k.1 ⟨k.2, v, (t.mem_rows_iff k v).1 hk⟩]

/-- Which keys are foreign depends on their repositories alone. -/
theorem foreign_update {f : Uuid → LicenseKey → LicenseKey}
    (hf : ∀ id l, (f id l).repoId = l.repoId) (license : Uuid) :
    foreign { db with licenseKeys := db.licenseKeys.update f } repo license
      = db.foreign repo license := by
  unfold foreign
  dsimp only
  rw [Table.get?_update, Option.any_map]
  congr 1
  funext l
  show decide ((f license l).repoId ≠ repo) = _
  rw [hf]

/-- Updates of keys. -/
theorem seenBy_updateKeys {f : Uuid → LicenseKey → LicenseKey}
    (hf : ∀ id l, (f id l).repoId = l.repoId) :
    seenBy { db with licenseKeys := db.licenseKeys.update f } repo
      = { db.seenBy repo with licenseKeys := (db.seenBy repo).licenseKeys.update f } := by
  unfold seenBy
  dsimp only
  rw [Table.only_update _ fun id l => by rw [hf],
    hangsOn_congr fun _ _ => foreign_update hf _, hangsOn_congr fun _ _ => foreign_update hf _,
    hangsOn_congr fun _ _ => foreign_update hf _]

/-! ## The writers of a repository write what it sees -/

/-- No row has the id or the hash of a minted key, or hangs on it. -/
structure Unused (db : Catalog) (m : Minted) : Prop where
  key : db.licenseKeys.get? m.id = none
  hash : ∀ r ∈ db.licenseKeys.rows, r.2.keyHash ≠ m.hash
  entitlements : ∀ p, db.entitlements.get? (m.id, p) = none
  sets : ∀ p, db.licenseSetEntitlements.get? (m.id, p) = none
  renewals : ∀ idem, db.licenseRenewals.get? (m.id, idem) = none

/-- The state of an answer, as the repository sees it. -/
def seenAfter {α : Type} (repo : Uuid) (x : Except SqlError (α × Catalog)) :
    Except SqlError (α × Catalog) :=
  x.map (Prod.map id (seenBy · repo))

theorem attachEditionSet_seenBy {ses : Session} {now : Timestamp} {packageSet : Uuid}
    {snapshot : Bool} {boundFromEdition : Option Uuid} (h : db.foreign repo license = false) :
    (db.seenBy repo).attachEditionSet ses now license packageSet snapshot boundFromEdition
      = (db.attachEditionSet ses now license packageSet snapshot boundFromEdition).map
          (seenBy · repo) := by
  have hget : (db.seenBy repo).licenseSetEntitlements.get? (license, packageSet)
      = db.licenseSetEntitlements.get? (license, packageSet) := get?_hangsOn h packageSet
  unfold attachEditionSet
  rw [hget]
  dsimp only
  split_ifs with hsnapshot hmissing hmissing' hmissing'
  · have hinsert : db.hangsOn repo (db.entitlements.insertAll ((db.setPackages packageSet).map
        fun p => ((license, p.1), db.edgeBound ses now boundFromEdition)))
        = (db.hangsOn repo db.entitlements).insertAll ((db.setPackages packageSet).map
            fun p => ((license, p.1), db.edgeBound ses now boundFromEdition)) := by
      refine Table.only_insertAll_of_pos (p := fun k : Uuid × Uuid => !db.foreign repo k.1) _ fun r hr => ?_
      obtain ⟨_, -, rfl⟩ := List.mem_map.1 hr
      rw [h]
      rfl
    exact congrArg (fun t => Except.ok { db.seenBy repo with entitlements := t }) hinsert.symm
  · rfl
  · exact absurd hmissing hmissing'
  · exact absurd hmissing' hmissing
  · exact congrArg (fun t => Except.ok { db.seenBy repo with licenseSetEntitlements := t })
      (hangsOn_insertNew db.licenseSetEntitlements h packageSet _).symm

/-- A new key is foreign only to repositories it is not of. -/
theorem foreign_insertNew {id : Uuid} {row : LicenseKey} (hfree : db.licenseKeys.get? id = none)
    (h : license = id → row.repoId = repo) :
    foreign { db with licenseKeys := db.licenseKeys.insertNew id row } repo license
      = db.foreign repo license := by
  unfold foreign
  dsimp only
  by_cases hid : license = id
  · rw [hid, Table.get?_insertNew_self, hfree, Option.getD_none, Option.any_some, Option.any_none]
    simpa using h hid
  · rw [Table.get?_insertNew_of_ne _ _ hid]

/-- A new key of the repository. -/
theorem seenBy_insertKey {id : Uuid} {row : LicenseKey} (hfree : db.licenseKeys.get? id = none)
    (hrow : row.repoId = repo) :
    seenBy { db with licenseKeys := db.licenseKeys.insertNew id row } repo
      = { db.seenBy repo with licenseKeys := (db.seenBy repo).licenseKeys.insertNew id row } := by
  have hforeign : ∀ license,
      foreign { db with licenseKeys := db.licenseKeys.insertNew id row } repo license
        = db.foreign repo license :=
    fun license => foreign_insertNew hfree fun _ => hrow
  unfold seenBy
  dsimp only
  rw [Table.only_insertNew_of_pos _ (by simp [hfree]) (by simpa using hrow),
    hangsOn_congr fun _ _ => hforeign _, hangsOn_congr fun _ _ => hforeign _,
    hangsOn_congr fun _ _ => hforeign _]

/-- Whether a new key breaks a unique constraint is seen: the keys of the others could only have
its id or its hash. -/
theorem insertLicenseKey_seenBy {m : Minted} {row : LicenseKey} (h : db.Unused m)
    (hhash : row.keyHash = m.hash) (hrow : row.repoId = repo) :
    (db.seenBy repo).insertLicenseKey m.id row
      = (db.insertLicenseKey m.id row).map (seenBy · repo) := by
  have hany : ((db.seenBy repo).licenseKeys.rows.any fun r => LicenseKey.Conflict (m.id, row) r)
      = db.licenseKeys.rows.any fun r => LicenseKey.Conflict (m.id, row) r := by
    rw [Bool.eq_iff_iff, List.any_eq_true, List.any_eq_true]
    refine exists_congr fun r => ⟨fun ⟨hr, hc⟩ => ⟨(List.mem_filter.1 hr).1, hc⟩, fun ⟨hr, hc⟩ => ?_⟩
    refine ⟨List.mem_filter.2 ⟨hr, ?_⟩, hc⟩
    rcases of_decide_eq_true hc with hid | hsame | ⟨hrepo, -⟩
    · exact absurd hr ((Table.get?_eq_none_iff _ _).1 (hid ▸ h.key) r.2)
    · exact absurd (hsame.symm.trans hhash) (h.hash r hr)
    · exact decide_eq_true (hrepo.symm.trans hrow)
  unfold insertLicenseKey
  rw [hany]
  split_ifs
  · rfl
  · exact congrArg Except.ok (seenBy_insertKey h.key hrow).symm

/-- The ledger of issues is read in the view. -/
theorem licenseIdForIdempotency_seenBy (edition : Uuid) (idem : String) :
    (db.seenBy repo).licenseIdForIdempotency repo edition idem
      = db.licenseIdForIdempotency repo edition idem := by
  unfold licenseIdForIdempotency
  congr 1
  show List.find? _ (List.filter _ db.licenseKeys.rows) = _
  rw [List.find?_filter]
  congr 1
  funext r
  by_cases hrepo : r.2.repoId = repo <;> simp [hrepo]

/-- A replayed issue is answered from the view. -/
theorem replay_seenBy (secret : Option SecretKey) :
    (db.seenBy repo).replay secret repo license = db.replay secret repo license := by
  unfold replay licenseKeyPlaintext
  rw [keyIn_seenBy]

/-- A key is issued in the view as it is in the catalog, under an id that is new to both. -/
theorem issueFromEditionInner_seenBy {ses : Session} {secret : Option SecretKey} {now : Timestamp}
    {c : IssueCall} (h : db.Unused c.minted) :
    (db.seenBy c.repo).issueFromEditionInner ses secret now c
      = seenAfter c.repo (db.issueFromEditionInner ses secret now c) := by
  -- what an issue reads is of its own repository
  have hlookup : (db.seenBy c.repo).licenseIdForIdempotency c.repo c.edition
      = db.licenseIdForIdempotency c.repo c.edition :=
    funext fun idem => licenseIdForIdempotency_seenBy c.edition idem
  have hactive : (db.seenBy c.repo).activeEdition c.repo c.edition
      = db.activeEdition c.repo c.edition := rfl
  unfold issueFromEditionInner
  rw [hlookup, hactive]
  cases c.idempotencyKey.bind (db.licenseIdForIdempotency c.repo c.edition) with
  | some id => exact congrArg (fun x => Except.ok (some x, _)) (replay_seenBy secret)
  | none =>
    cases db.activeEdition c.repo c.edition with
    | none => rfl
    | some ed =>
      have hseen : (db.seenBy c.repo).insertLicenseKey c.minted.id (issuedRow ses now c ed)
          = (db.insertLicenseKey c.minted.id (issuedRow ses now c ed)).map (seenBy · c.repo) :=
        insertLicenseKey_seenBy h rfl rfl
      simp only
      rw [hseen]
      cases hinsert : db.insertLicenseKey c.minted.id (issuedRow ses now c ed) with
      | error e =>
        simp only [Except.map]
        cases c.idempotencyKey with
        | none => rfl
        | some idem =>
          simp only
          cases db.licenseIdForIdempotency c.repo c.edition idem with
          | none => rfl
          | some id => exact congrArg (fun x => Except.ok (some x, _)) (replay_seenBy secret)
      | ok inserted =>
        -- the new row is no other repository's
        have hforeign : inserted.foreign c.repo c.minted.id = false := by
          rw [insertLicenseKey_ok hinsert]
          exact (foreign_insertNew h.key fun _ => rfl).trans (foreign_of_get?_eq_none h.key)
        simp only [Except.map]
        rw [attachEditionSet_seenBy hforeign]
        cases inserted.attachEditionSet ses now c.minted.id ed.setId ed.snapshotAtIssue
          (if c.boundOnEdge then some c.edition else none) with
        | error e => rfl
        | ok attached => rfl

theorem addEditionToLicense_seenBy {ses : Session} {now : Timestamp} {edition : Uuid} :
    (db.seenBy repo).addEditionToLicense ses now repo license edition
      = seenAfter repo (db.addEditionToLicense ses now repo license edition) := by
  have hactive : (db.seenBy repo).activeEdition repo edition = db.activeEdition repo edition := rfl
  unfold addEditionToLicense
  rw [activeKey_seenBy, hactive]
  cases hkey : db.activeKey repo license with
  | none => rfl
  | some key =>
    cases db.activeEdition repo edition with
    | none => rfl
    | some ed =>
      simp only
      split_ifs
      · rfl
      · rw [attachEditionSet_seenBy (foreign_of_activeKey hkey)]
        cases db.attachEditionSet ses now license ed.setId false (some edition) with
        | error e => rfl
        | ok attached => rfl

/-- Edges are copied between two keys of the view as between those of the catalog. -/
theorem hangsOn_copyEdges {edges : Table (Uuid × Uuid) UpdateBound} {sourceKey : UpdateBound}
    {source target : Uuid} (hsource : db.foreign repo source = false)
    (htarget : db.foreign repo target = false) :
    db.hangsOn repo (copyEdges edges sourceKey source target)
      = copyEdges (db.hangsOn repo edges) sourceKey source target := by
  have hsel : ((db.hangsOn repo edges).rows.filter fun r => r.1.1 = source)
      = edges.rows.filter fun r => r.1.1 = source := by
    refine List.filter_filter.trans (List.filter_congr fun r _ => ?_)
    by_cases hr : r.1.1 = source
    · simp [hr, hsource]
    · simp [hr]
  unfold copyEdges
  rw [hsel]
  refine Table.only_upsertAll_of_pos (p := fun k : Uuid × Uuid => !db.foreign repo k.1) _ _
    fun r hr => ?_
  obtain ⟨_, -, rfl⟩ := List.mem_map.1 hr
  rw [htarget]
  rfl

/-- Two keys are merged in the view as they are in the catalog. -/
theorem mergeLicenseKeys_seenBy {source target : Uuid} :
    (db.seenBy repo).mergeLicenseKeys repo source target
      = Prod.map id (seenBy · repo) (db.mergeLicenseKeys repo source target) := by
  unfold mergeLicenseKeys
  rw [activeKey_seenBy, activeKey_seenBy]
  split_ifs
  · rfl
  · cases hsource : db.activeKey repo source with
    | none => rfl
    | some sourceKey =>
      cases htarget : db.activeKey repo target with
      | none => rfl
      | some targetKey =>
        simp only
        split_ifs
        · let copied : Catalog := { db with
            licenseSetEntitlements :=
              copyEdges db.licenseSetEntitlements sourceKey.bound source target
            entitlements := copyEdges db.entitlements sourceKey.bound source target }
          have hrevoke := @seenBy_updateKeys copied repo
            (fun id l => if id = source then { l with status := .revoked } else l)
            fun id l => by split_ifs <;> rfl
          have hcopy : ∀ edges, db.hangsOn repo (copyEdges edges sourceKey.bound source target)
              = copyEdges (db.hangsOn repo edges) sourceKey.bound source target :=
            fun _ => hangsOn_copyEdges (foreign_of_activeKey hsource) (foreign_of_activeKey htarget)
          refine congrArg (Prod.mk LicenseMerge.merged) (Eq.trans ?_ hrevoke.symm)
          exact congrArg₂ (fun sets direct => { db.seenBy repo with
            licenseSetEntitlements := sets
            entitlements := direct
            licenseKeys := (db.seenBy repo).licenseKeys.update fun id l =>
              if id = source then { l with status := .revoked } else l }) (hcopy _).symm (hcopy _).symm
        · rfl

theorem removeEditionFromLicense_seenBy {edition : Uuid} :
    (db.seenBy repo).removeEditionFromLicense repo license edition
      = Prod.map id (seenBy · repo) (db.removeEditionFromLicense repo license edition) := by
  unfold removeEditionFromLicense
  rw [keyIn_seenBy]
  exact congrArg (fun t => (_, { db.seenBy repo with licenseSetEntitlements := t }))
    (hangsOn_delete db.licenseSetEntitlements _).symm

theorem revokeLicense_seenBy :
    (db.seenBy repo).revokeLicense repo license
      = Prod.map id (seenBy · repo) (db.revokeLicense repo license) := by
  unfold revokeLicense
  rw [keyIn_seenBy]
  refine congrArg (Prod.mk _) (seenBy_updateKeys fun id l => ?_).symm
  split_ifs
  · rfl
  · rfl

/-- Which key a renewal finds is decided in the view. -/
theorem renewableKey_seenBy :
    (db.seenBy repo).renewableKey repo license = db.renewableKey repo license := by
  unfold renewableKey
  rw [activeKey_seenBy]
  rfl

/-- Which edge a renewal of an edition finds is decided in the view. -/
theorem renewableEdge_seenBy {edition : Uuid} :
    (db.seenBy repo).renewableEdge repo license edition = db.renewableEdge repo license edition := by
  unfold renewableEdge
  rw [activeKey_seenBy]
  cases hkey : db.activeKey repo license with
  | none => rfl
  | some key =>
    have hget : ∀ packageSet, (db.seenBy repo).licenseSetEntitlements.get? (license, packageSet)
        = db.licenseSetEntitlements.get? (license, packageSet) :=
      fun packageSet => get?_hangsOn (foreign_of_activeKey hkey) packageSet
    simp only [hget]
    rfl

theorem extendBound_seenBy {ses : Session} {now : Timestamp} (c : RenewCall) :
    (db.seenBy c.repo).extendBound ses now c
      = Prod.map id (seenBy · c.repo) (db.extendBound ses now c) := by
  unfold extendBound
  cases c.edition with
  | none =>
    unfold renewKey
    rw [renewableKey_seenBy]
    cases db.renewableKey c.repo c.license with
    | none => rfl
    | some found =>
      refine congrArg (Prod.mk _) (seenBy_updateKeys fun id l => ?_).symm
      split_ifs
      · rfl
      · rfl
  | some edition =>
    dsimp only
    unfold renewEdge
    rw [renewableEdge_seenBy]
    cases db.renewableEdge c.repo c.license edition with
    | none => rfl
    | some found =>
      exact congrArg (fun t => (_, { db.seenBy c.repo with licenseSetEntitlements := t }))
        (hangsOn_update db.licenseSetEntitlements _).symm

/-- The bound after a renewal is read from the view. -/
theorem currentBound_seenBy (c : RenewCall) :
    (db.seenBy c.repo).currentBound c = db.currentBound c := by
  unfold currentBound
  rw [renewableKey_seenBy]
  simp only [renewableEdge_seenBy]

theorem renew_seenBy {ses : Session} {now : Timestamp} (c : RenewCall) :
    (db.seenBy c.repo).renew ses now c = seenAfter c.repo (db.renew ses now c) := by
  unfold renew
  cases c.idempotencyKey with
  | none =>
    simp only
    rw [extendBound_seenBy]
    rfl
  | some idem =>
    have hfresh : (db.seenBy c.repo).freshRenewal c.repo c.license idem
        = db.freshRenewal c.repo c.license idem := by
      unfold freshRenewal
      rw [keyIn_seenBy]
      cases hkey : db.keyIn c.repo c.license with
      | none => rfl
      | some key =>
        have hget : (db.seenBy c.repo).licenseRenewals.get? (c.license, idem)
            = db.licenseRenewals.get? (c.license, idem) :=
          get?_hangsOn (foreign_of_keyIn hkey) idem
        rw [hget]
    simp only
    rw [hfresh, currentBound_seenBy]
    split_ifs with hrecord
    · obtain ⟨key, hkey⟩ := Option.isSome_iff_exists.1 (Bool.and_eq_true_iff.1 hrecord).1
      have hforeign := foreign_of_keyIn hkey
      have hrecorded : (db.seenBy c.repo).recordRenewal c.license idem
          = (db.recordRenewal c.license idem).seenBy c.repo :=
        congrArg (fun t => { db.seenBy c.repo with licenseRenewals := t })
          (hangsOn_insertNew db.licenseRenewals hforeign idem ()).symm
      rw [hrecorded, extendBound_seenBy]
      rfl
    · cases db.currentBound c with
      | error e => rfl
      | ok date => rfl

/-! ## The writers of others write nothing it sees -/

variable {other : Uuid}

/-- A key of another repository is foreign. -/
theorem foreign_of_keyIn_other {l : LicenseKey} (h : db.keyIn other license = some l)
    (hother : other ≠ repo) : db.foreign repo license = true := by
  unfold keyIn at h
  obtain ⟨hl, hin⟩ := Option.filter_eq_some_iff.1 h
  unfold foreign
  rw [hl, Option.any_some]
  have hin : l.repoId = other := by simpa using hin
  exact decide_eq_true (hin ▸ hother)

/-- An active key of another repository is foreign. -/
theorem foreign_of_activeKey_other {l : LicenseKey} (h : db.activeKey other license = some l)
    (hother : other ≠ repo) : db.foreign repo license = true := by
  unfold activeKey at h
  exact foreign_of_keyIn_other (Option.filter_eq_some_iff.1 h).1 hother

section Hanging

variable {κ ν : Type} [DecidableEq κ] (t : Table (Uuid × κ) ν)

/-- A row of a foreign key is not seen. -/
theorem hangsOn_insertNew_foreign (h : db.foreign repo license = true) (k : κ) (v : ν) :
    db.hangsOn repo (t.insertNew (license, k) v) = db.hangsOn repo t := by
  refine Table.only_insertNew_of_neg t ?_
  rw [h]
  rfl

/-- The deletion of rows of foreign keys is not seen. -/
theorem hangsOn_delete_foreign {q : Uuid × κ → ν → Bool}
    (h : ∀ k v, q k v = true → db.foreign repo k.1 = true) :
    db.hangsOn repo (t.delete q) = db.hangsOn repo t := by
  refine Table.only_delete_of_disjoint t fun k v _ hmine => ?_
  by_contra hq
  rw [h k v (by simpa using hq)] at hmine
  cases hmine

/-- An update that changes rows of foreign keys alone is not seen. -/
theorem hangsOn_update_foreign {f : Uuid × κ → ν → ν}
    (h : ∀ k v, db.foreign repo k.1 = false → f k v = v) :
    db.hangsOn repo (t.update f) = db.hangsOn repo t :=
  Table.only_update_of_disjoint t (fun _ _ => rfl) fun k v _ hmine => h k v (by simpa using hmine)

end Hanging

/-- An update that leaves the keys of a repository as they are is not seen by it. -/
theorem seenBy_updateKeys_of_ne {f : Uuid → LicenseKey → LicenseKey}
    (hf : ∀ id l, (f id l).repoId = l.repoId)
    (hother : ∀ id l, db.licenseKeys.get? id = some l → l.repoId = repo → f id l = l) :
    seenBy { db with licenseKeys := db.licenseKeys.update f } repo = db.seenBy repo := by
  have hkeys : (db.licenseKeys.update f).only (fun _ l => decide (l.repoId = repo))
      = db.licenseKeys.only fun _ l => decide (l.repoId = repo) := by
    refine Table.only_update_of_disjoint _ (fun id l => by rw [hf]) fun id l hl hmine => ?_
    exact hother id l ((db.licenseKeys.mem_rows_iff id l).1 hl) (of_decide_eq_true hmine)
  rw [seenBy_updateKeys hf]
  unfold seenBy
  rw [← Table.only_update _ fun id l => by rw [hf], hkeys]

/-- A set attached to a foreign key is not seen. -/
theorem seenBy_attachEditionSet_foreign {db' : Catalog} {ses : Session} {now : Timestamp}
    {packageSet : Uuid} {snapshot : Bool} {boundFromEdition : Option Uuid}
    (hforeign : db.foreign repo license = true)
    (h : db.attachEditionSet ses now license packageSet snapshot boundFromEdition = .ok db') :
    db'.seenBy repo = db.seenBy repo := by
  unfold attachEditionSet at h
  dsimp only at h
  split_ifs at h
  · rw [← Except.ok.inj h]
    have hinsert : db.hangsOn repo (db.entitlements.insertAll ((db.setPackages packageSet).map
        fun p => ((license, p.1), db.edgeBound ses now boundFromEdition)))
        = db.hangsOn repo db.entitlements := by
      refine Table.only_insertAll_of_neg (p := fun k : Uuid × Uuid => !db.foreign repo k.1) _
        fun r hr => ?_
      obtain ⟨_, -, rfl⟩ := List.mem_map.1 hr
      rw [hforeign]
      rfl
    exact congrArg (fun t => { db.seenBy repo with entitlements := t }) hinsert
  · rw [← Except.ok.inj h]
    exact congrArg (fun t => { db.seenBy repo with licenseSetEntitlements := t })
      (hangsOn_insertNew_foreign db.licenseSetEntitlements hforeign packageSet _)

/-- A new key of another repository. -/
theorem seenBy_insertKey_of_ne {m : Minted} {row : LicenseKey} (h : db.Unused m)
    (hrow : row.repoId ≠ repo) :
    seenBy { db with licenseKeys := db.licenseKeys.insertNew m.id row } repo = db.seenBy repo := by
  have hkeys : (db.licenseKeys.insertNew m.id row).only (fun _ l => decide (l.repoId = repo))
      = db.licenseKeys.only fun _ l => decide (l.repoId = repo) :=
    Table.only_insertNew_of_neg _ (decide_eq_false hrow)
  have hforeign : ∀ license, license ≠ m.id →
      foreign { db with licenseKeys := db.licenseKeys.insertNew m.id row } repo license
        = db.foreign repo license :=
    fun license hne => foreign_insertNew h.key fun heq => absurd heq hne
  have hrows : ∀ {κ ν : Type} [DecidableEq κ] {t : Table (Uuid × κ) ν},
      (∀ k, t.get? (m.id, k) = none) →
      hangsOn { db with licenseKeys := db.licenseKeys.insertNew m.id row } repo t
        = db.hangsOn repo t := by
    intro κ ν _ t hnone
    refine hangsOn_congr fun license ⟨k, v, hk⟩ => hforeign license ?_
    rintro rfl
    rw [hnone k] at hk
    cases hk
  unfold seenBy
  dsimp only
  rw [hkeys, hrows h.entitlements, hrows h.sets, hrows h.renewals]

theorem seenBy_issueFromEditionInner_of_ne {db' : Catalog} {ses : Session}
    {secret : Option SecretKey} {now : Timestamp} {c : IssueCall} {issued : Option IssuedLicense}
    (hunused : db.Unused c.minted) (hother : c.repo ≠ repo)
    (h : db.issueFromEditionInner ses secret now c = .ok (issued, db')) :
    db'.seenBy repo = db.seenBy repo := by
  unfold issueFromEditionInner at h
  split at h
  · rw [← (Prod.mk.inj (Except.ok.inj h)).2]
  · split at h
    · rw [← (Prod.mk.inj (Except.ok.inj h)).2]
    · split at h
      · -- the insert lost a race: nothing is written
        split at h
        · cases h
        · split at h
          · rw [← (Prod.mk.inj (Except.ok.inj h)).2]
          · rw [← (Prod.mk.inj (Except.ok.inj h)).2]
      · rename_i inserted hinsert
        split at h
        · cases h
        · rename_i attached hattach
          rw [← (Prod.mk.inj (Except.ok.inj h)).2]
          rw [insertLicenseKey_ok hinsert] at hattach
          refine (seenBy_attachEditionSet_foreign ?_ hattach).trans
            (seenBy_insertKey_of_ne hunused hother)
          unfold foreign
          dsimp only
          rw [Table.get?_insertNew_self, hunused.key, Option.getD_none, Option.any_some]
          exact decide_eq_true hother

/-- Edges copied to a foreign key are not seen. -/
theorem hangsOn_copyEdges_foreign {edges : Table (Uuid × Uuid) UpdateBound}
    {sourceKey : UpdateBound} {source target : Uuid} (htarget : db.foreign repo target = true) :
    db.hangsOn repo (copyEdges edges sourceKey source target) = db.hangsOn repo edges := by
  unfold copyEdges
  refine Table.only_upsertAll_of_neg (p := fun k : Uuid × Uuid => !db.foreign repo k.1) _ _
    fun r hr => ?_
  obtain ⟨_, -, rfl⟩ := List.mem_map.1 hr
  rw [htarget]
  rfl

theorem seenBy_mergeLicenseKeys_of_ne {source target : Uuid} (hother : other ≠ repo) :
    (db.mergeLicenseKeys other source target).2.seenBy repo = db.seenBy repo := by
  rcases db.mergeLicenseKeys_cases other source target with
    ⟨sourceKey, targetKey, -, hsource, htarget, -, heq⟩ | ⟨outcome, -, heq⟩
  · rw [heq]
    have htarget := foreign_of_activeKey_other htarget hother
    have hcopy : ∀ edges, db.hangsOn repo (copyEdges edges sourceKey.bound source target)
        = db.hangsOn repo edges :=
      fun _ => hangsOn_copyEdges_foreign htarget
    let copied : Catalog := { db with
      licenseSetEntitlements := copyEdges db.licenseSetEntitlements sourceKey.bound source target
      entitlements := copyEdges db.entitlements sourceKey.bound source target }
    refine (@seenBy_updateKeys_of_ne copied repo
      (fun id l => if id = source then { l with status := .revoked } else l)
      (fun id l => ?_) fun id l hl hmine => if_neg ?_).trans ?_
    · split_ifs
      · rfl
      · rfl
    · rintro rfl
      obtain ⟨hkey, hin, -⟩ := (db.activeKey_eq_some_iff _ _ _).1 hsource
      have hl : db.licenseKeys.get? id = some l := hl
      rw [hl] at hkey
      rw [Option.some.inj hkey] at hmine
      exact hother (hin.symm.trans hmine)
    · exact congrArg₂ (fun sets direct => { db.seenBy repo with
        licenseSetEntitlements := sets, entitlements := direct }) (hcopy _) (hcopy _)
  · rw [heq]

/-- An edition removed from a key of another repository is not seen. -/
theorem seenBy_removeEdition_of_ne {edition : Uuid} (hother : other ≠ repo) :
    (db.removeEditionFromLicense other license edition).2.seenBy repo = db.seenBy repo := by
  refine congrArg (fun t => { db.seenBy repo with licenseSetEntitlements := t }) ?_
  refine hangsOn_delete_foreign _ fun k bound hq => ?_
  obtain ⟨hin, hlicense, -⟩ := of_decide_eq_true hq
  obtain ⟨l, hl⟩ := Option.isSome_iff_exists.1 hin
  rw [hlicense]
  exact foreign_of_keyIn_other hl hother

theorem seenBy_extendBound_of_ne {ses : Session} {now : Timestamp} {c : RenewCall}
    (hother : c.repo ≠ repo) : (db.extendBound ses now c).2.seenBy repo = db.seenBy repo := by
  unfold extendBound
  cases c.edition with
  | none =>
    dsimp only
    unfold renewKey
    cases hrow : db.renewableKey c.repo c.license with
    | none => rfl
    | some found =>
      obtain ⟨hactive, -⟩ := (db.renewableKey_eq_some_iff _ _ _ _).1 hrow
      obtain ⟨hkey, hin, -⟩ := (db.activeKey_eq_some_iff _ _ _).1 hactive
      -- the key extended is another repository's
      refine seenBy_updateKeys_of_ne (fun id l => ?_) fun id l hl hmine => if_neg ?_
      · split_ifs
        · rfl
        · rfl
      · rintro rfl
        rw [hl] at hkey
        rw [Option.some.inj hkey] at hmine
        exact hother (hin.symm.trans hmine)
  | some edition =>
    dsimp only
    unfold renewEdge
    cases hrow : db.renewableEdge c.repo c.license edition with
    | none => rfl
    | some found =>
      obtain ⟨hactive, -⟩ := (db.renewableEdge_eq_some_iff _ _ _ _ _ _).1 hrow
      obtain ⟨key, hkey⟩ := Option.isSome_iff_exists.1 hactive
      -- and so is the edge
      have hforeign := foreign_of_activeKey_other hkey hother
      have hupdate : db.hangsOn repo (db.licenseSetEntitlements.update fun k b =>
          if k = (c.license, found.1) then
            { b with updateUntil := some (ses.extend now (some found.2.1) found.2.2) } else b)
          = db.hangsOn repo db.licenseSetEntitlements := by
        refine hangsOn_update_foreign _ fun k bound hmine => if_neg ?_
        rintro rfl
        rw [hforeign] at hmine
        cases hmine
      exact congrArg (fun t => { db.seenBy repo with licenseSetEntitlements := t }) hupdate

/-- A renewal in another repository is not seen, rolled back or not. -/
theorem seenBy_renew_of_ne {ses : Session} {now : Timestamp} {c : RenewCall}
    (hother : c.repo ≠ repo) :
    (rolledBack db (db.renew ses now c)).seenBy repo = db.seenBy repo := by
  rw [db.renew_state ses now c]
  split_ifs with hruns
  · refine (seenBy_extendBound_of_ne hother).trans ?_
    unfold runsUpdate at hruns
    unfold recorded
    cases hidem : c.idempotencyKey with
    | none => rfl
    | some idem =>
      rw [hidem] at hruns
      obtain ⟨key, hkey⟩ := Option.isSome_iff_exists.1 (Bool.and_eq_true_iff.1 hruns).1
      exact congrArg (fun t => { db.seenBy repo with licenseRenewals := t })
        (hangsOn_insertNew_foreign db.licenseRenewals (foreign_of_keyIn_other hkey hother) idem ())
  · rfl

/-- **A writer of another repository writes nothing it sees.** -/
theorem seenBy_run_of_ne {ses : Session} {secret : Option SecretKey} {x : Timed LicenseOp}
    (hunused : ∀ c, x.op = .issue c → db.Unused c.minted) (hother : x.op.repo ≠ repo) :
    (LicenseOp.run ses secret db x).seenBy repo = db.seenBy repo := by
  obtain ⟨now, op⟩ := x
  cases op with
  | issue c =>
    show (rolledBack db (db.issueFromEditionInner ses secret now c)).seenBy repo = _
    cases hissue : db.issueFromEditionInner ses secret now c with
    | error e => rfl
    | ok answer => exact seenBy_issueFromEditionInner_of_ne (hunused c rfl) hother hissue
  | addEdition owner license edition =>
    show (rolledBack db (db.addEditionToLicense ses now owner license edition)).seenBy repo = _
    rcases db.addEditionToLicense_cases ses now owner license edition with
      ⟨key, ed, ⟨hkey, -⟩, -, hadded⟩ | ⟨hsame, -⟩
    · rw [hadded]
      exact congrArg (fun t => { db.seenBy repo with licenseSetEntitlements := t })
        (hangsOn_insertNew_foreign db.licenseSetEntitlements
          (foreign_of_activeKey_other hkey hother) ed.setId _)
    · rw [hsame]
  | merge owner source target => exact seenBy_mergeLicenseKeys_of_ne hother
  | removeEdition owner license edition => exact seenBy_removeEdition_of_ne hother
  | setBound owner license until? major =>
    refine seenBy_updateKeys_of_ne (fun id l => ?_) fun id l _ hmine => if_neg fun h => ?_
    · split_ifs
      · rfl
      · rfl
    · exact hother (h.2.symm.trans hmine)
  | revoke owner license =>
    refine seenBy_updateKeys_of_ne (fun id l => ?_) fun id l _ hmine => if_neg fun h => ?_
    · split_ifs
      · rfl
      · rfl
    · exact hother (h.2.symm.trans hmine)
  | renew c => exact seenBy_renew_of_ne hother

end Catalog

end Sconce
