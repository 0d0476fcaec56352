/-
# What keys, edges and editions refer to

The writers of licence keys, of entitlement edges, of package sets and of editions, and the
catalogs that they and everything else can lead to.  In every such catalog an edge refers to a
stored key and an edition to a stored set (`foreignKeys_of_reachable`).
-/
import Sconce.Dashboard.Licences
import Sconce.Licensing.Purchase

namespace Sconce

open Effect

/-! ## Two more writers -/

/-- `create_license_key`. -/
def createLicenseKey (repo : Uuid) (buyer : Option String) (minted : Minted) :
    Effect Catalog SqlError (String × Uuid) := do
  let db ← get
  if (db.repositories.get? repo).isNone then throw .foreignKeyViolation
  let inserted ← ofExcept (db.insertLicenseKey minted.id (plainKey repo buyer minted))
  set inserted
  return (minted.key, minted.id)

/-- `entitle_package`: whether the repository owns such a package. -/
def entitlePackage (license repo : Uuid) (package : String) : Effect Catalog SqlError Bool := do
  let db ← get
  match db.packageIn repo package with
  | none => return false
  | some (id, _) =>
    if (db.entitlements.get? (license, id)).isSome then return true
    if (db.licenseKeys.get? license).isNone then throw .foreignKeyViolation
    set { db with entitlements := db.entitlements.insertNew (license, id) .unbounded }
    return true

/-! ## The catalogs there can be -/

/-- A call of one of the writers. -/
inductive SellerOp where
  | write (x : Timed LicenseOp)
  | createLicenseKey (repo : Uuid) (buyer : Option String) (minted : Minted)
  | issueLicense (repo : Uuid) (buyer : Option String) (packages : List String) (minted : Minted)
  | entitlePackage (license repo : Uuid) (package : String)
  | entitleSet (license packageSet : Uuid)
  | removeSetEntitlement (license packageSet : Uuid)
  | setLicensePolicy (repo license : Uuid) (policy : PolicyOverride)
  | createPackageSet (newId org : Uuid) (name : String)
  | deletePackageSet (org packageSet : Uuid)
  | createEdition (e : NewEdition)
  | setEditionActive (repo edition : Uuid) (active : Bool)
  | deleteEdition (repo edition : Uuid)
  | deleteRepo (newId repo : Uuid)

/-- The state left by a call that is refused or answers: a refused one is rolled back. -/
def orRefused {α : Type} (db : Catalog) : Except EntitlementError (α × Catalog) → Catalog
  | .ok (_, db') => db'
  | .error _ => db

/-- The state a call leaves. -/
def SellerOp.run (ses : Session) (secret : Option SecretKey) (db : Catalog) : SellerOp → Catalog
  | .write x => LicenseOp.run ses secret db x
  | .createLicenseKey repo buyer minted => (exec (Sconce.createLicenseKey repo buyer minted) db).2
  | .issueLicense repo buyer packages minted =>
    (exec (Sconce.issueLicense repo buyer packages minted) db).2
  | .entitlePackage license repo package =>
    (exec (Sconce.entitlePackage license repo package) db).2
  | .entitleSet license packageSet => (exec (Sconce.entitleSet license packageSet) db).2
  | .removeSetEntitlement license packageSet =>
    (exec (Sconce.removeSetEntitlement license packageSet : Effect Catalog SqlError Unit) db).2
  | .setLicensePolicy repo license policy =>
    (exec (Sconce.setLicensePolicy repo license policy) db).2
  | .createPackageSet newId org name => (exec (Sconce.createPackageSet newId org name) db).2
  | .deletePackageSet org packageSet => (exec (Sconce.deletePackageSet org packageSet) db).2
  | .createEdition e => orRefused db (db.createEdition e)
  | .setEditionActive repo edition active =>
    orRefused db (db.setEditionActive repo edition active)
  | .deleteEdition repo edition => (db.deleteEdition repo edition).2
  | .deleteRepo newId repo => (exec (Sconce.deleteRepo newId repo) db).2

namespace Catalog

/-- The tables of keys, edges, sets and editions are the same. -/
structure SameSales (db db' : Catalog) : Prop where
  licenseKeys : db'.licenseKeys = db.licenseKeys
  entitlements : db'.entitlements = db.entitlements
  licenseSetEntitlements : db'.licenseSetEntitlements = db.licenseSetEntitlements
  packageSets : db'.packageSets = db.packageSets
  editions : db'.editions = db.editions

/-- The catalogs that lead on from the empty one: by a writer, or by anything that leaves the
tables of the writers alone. -/
inductive Reachable (ses : Session) (secret : Option SecretKey) : Catalog → Prop
  | empty : Reachable ses secret Catalog.empty
  | sale {db : Catalog} (h : Reachable ses secret db) (op : SellerOp) :
      Reachable ses secret (op.run ses secret db)
  | elsewhere {db db' : Catalog} (h : Reachable ses secret db) (hsame : db.SameSales db') :
      Reachable ses secret db'

/-! ## What refers to what -/

/-- There is such a key. -/
def KeyStored (db : Catalog) (license : Uuid) : Prop := (db.licenseKeys.get? license).isSome

/-- There is such a set. -/
def SetStored (db : Catalog) (packageSet : Uuid) : Prop := (db.packageSets.get? packageSet).isSome

/-- Every edge refers to a stored key, every edition to a stored set. -/
structure ForeignKeys (db : Catalog) : Prop where
  entitlements : ∀ k b, db.entitlements.get? k = some b → db.KeyStored k.1
  setEntitlements : ∀ k b, db.licenseSetEntitlements.get? k = some b → db.KeyStored k.1
  editions : ∀ id e, db.editions.get? id = some e → db.SetStored e.setId

/-- The empty catalog breaks no foreign key. -/
theorem foreignKeys_empty : Catalog.empty.ForeignKeys where
  entitlements _ _ h := absurd h nofun
  setEntitlements _ _ h := absurd h nofun
  editions _ _ h := absurd h nofun

/-- The edges of the second table that the first has not are edges of these keys. -/
def NewOn (keys : Uuid → Prop) (t t' : Table (Uuid × Uuid) UpdateBound) : Prop :=
  ∀ k b, t'.get? k = some b → (∃ b', t.get? k = some b') ∨ keys k.1

/-- The second catalog has the keys and the sets of the first one, and what else it has refers
to keys and sets that it has. -/
structure Grows (db db' : Catalog) : Prop where
  keys : ∀ license, db.KeyStored license → db'.KeyStored license
  entitlements : NewOn db'.KeyStored db.entitlements db'.entitlements
  setEntitlements : NewOn db'.KeyStored db.licenseSetEntitlements db'.licenseSetEntitlements
  sets : ∀ packageSet, db.SetStored packageSet → db'.SetStored packageSet
  editions : ∀ id e', db'.editions.get? id = some e' →
    (∃ e, db.editions.get? id = some e ∧ e'.setId = e.setId) ∨ db'.SetStored e'.setId

/-- A catalog that grows keeps its foreign keys. -/
theorem ForeignKeys.grows {db db' : Catalog} (h : db.ForeignKeys) (hgrows : db.Grows db') :
    db'.ForeignKeys where
  entitlements k b hb := by
    rcases hgrows.entitlements k b hb with ⟨b', hb'⟩ | hkey
    · exact hgrows.keys k.1 (h.entitlements k b' hb')
    · exact hkey
  setEntitlements k b hb := by
    rcases hgrows.setEntitlements k b hb with ⟨b', hb'⟩ | hkey
    · exact hgrows.keys k.1 (h.setEntitlements k b' hb')
    · exact hkey
  editions id e' he' := by
    rcases hgrows.editions id e' he' with ⟨e, he, hset⟩ | hset
    · rw [hset]
      exact hgrows.sets e.setId (h.editions id e he)
    · exact hset

theorem NewOn.refl (keys : Uuid → Prop) (t : Table (Uuid × Uuid) UpdateBound) : NewOn keys t t :=
  fun _ b hb => .inl ⟨b, hb⟩

theorem NewOn.trans {keys keys' : Uuid → Prop} {t t' t'' : Table (Uuid × Uuid) UpdateBound}
    (h : NewOn keys t t') (h' : NewOn keys' t' t'') (hkeys : ∀ license, keys license → keys' license) :
    NewOn keys' t t'' := by
  intro k b hb
  rcases h' k b hb with ⟨b', hb'⟩ | hkey
  · exact (h k b' hb').imp_right (hkeys k.1)
  · exact .inr hkey

instance : IsPreorder Catalog Grows where
  refl db := ⟨fun _ h => h, .refl _ _, .refl _ _, fun _ h => h, fun _ e h => .inl ⟨e, h, rfl⟩⟩
  trans db db' db'' h h' := by
    refine ⟨fun l hl => h'.keys l (h.keys l hl), h.entitlements.trans h'.entitlements h'.keys,
      h.setEntitlements.trans h'.setEntitlements h'.keys, fun s hs => h'.sets s (h.sets s hs), ?_⟩
    intro id e'' he''
    rcases h'.editions id e'' he'' with ⟨e', he', hset'⟩ | hset
    · rcases h.editions id e' he' with ⟨e, he, hset⟩ | hset
      · exact .inl ⟨e, he, hset'.trans hset⟩
      · rw [hset']
        exact .inr (h'.sets _ hset)
    · exact .inr hset

/-! ## The edges a statement writes -/

section Edges

variable {keys : Uuid → Prop} {t : Table (Uuid × Uuid) UpdateBound}

theorem NewOn.update (f : Uuid × Uuid → UpdateBound → UpdateBound) : NewOn keys t (t.update f) := by
  intro k b hb
  rw [Table.get?_update, Option.map_eq_some_iff] at hb
  obtain ⟨b', hb', -⟩ := hb
  exact .inl ⟨b', hb'⟩

theorem NewOn.delete (p : Uuid × Uuid → UpdateBound → Bool) : NewOn keys t (t.delete p) := by
  intro k b hb
  rw [Table.get?_delete, Option.filter_eq_some_iff] at hb
  exact .inl ⟨b, hb.1⟩

theorem NewOn.insertNew {license target : Uuid} (hkey : keys license) (b : UpdateBound) :
    NewOn keys t (t.insertNew (license, target) b) := by
  intro k b' hb'
  by_cases hk : k = (license, target)
  · rw [hk]
    exact .inr hkey
  · rw [Table.get?_insertNew_of_ne t b hk] at hb'
    exact .inl ⟨b', hb'⟩

theorem NewOn.insertAll {sel : List ((Uuid × Uuid) × UpdateBound)}
    (hkeys : ∀ r ∈ sel, keys r.1.1) : NewOn keys t (t.insertAll sel) := by
  intro k b hb
  by_cases hk : ∃ v, (k, v) ∈ sel
  · obtain ⟨v, hv⟩ := hk
    exact .inr (hkeys (k, v) hv)
  · rw [Table.get?_insertAll_of_notMem t fun v hv => hk ⟨v, hv⟩] at hb
    exact .inl ⟨b, hb⟩

/-- Copied edges are new on the key they are copied to. -/
theorem NewOn.copyEdges {target : Uuid} (hkey : keys target) (sourceKey : UpdateBound)
    (source : Uuid) : NewOn keys t (Catalog.copyEdges t sourceKey source target) := by
  intro k b hb
  by_cases hk : k.1 = target
  · rw [hk]
    exact .inr hkey
  · unfold Catalog.copyEdges at hb
    rw [Table.get?_upsertAll_of_notMem] at hb
    · exact .inl ⟨b, hb⟩
    · intro v hv
      obtain ⟨r, -, hr⟩ := List.mem_map.1 hv
      exact hk (congrArg Prod.fst (congrArg Prod.fst hr)).symm

end Edges

/-! ## What the writers do -/

/-- Updates of keys lose none. -/
theorem Grows.updateKeys (db : Catalog) (f : Uuid → LicenseKey → LicenseKey) :
    db.Grows { db with licenseKeys := db.licenseKeys.update f } := by
  refine ⟨fun license h => ?_, .refl _ _, .refl _ _, fun _ h => h, fun _ e h => .inl ⟨e, h, rfl⟩⟩
  unfold KeyStored at h ⊢
  rw [Table.get?_update, Option.isSome_map]
  exact h

/-- An inserted key is stored, and nothing else changes. -/
theorem insertLicenseKey_ok {db db' : Catalog} {id : Uuid} {row : LicenseKey}
    (h : db.insertLicenseKey id row = .ok db') :
    db' = { db with licenseKeys := db.licenseKeys.insertNew id row } := by
  unfold insertLicenseKey at h
  split_ifs at h
  exact (Except.ok.inj h).symm

/-- A key that is inserted lets the catalog grow. -/
theorem Grows.insertKey (db : Catalog) (id : Uuid) (row : LicenseKey) :
    db.Grows { db with licenseKeys := db.licenseKeys.insertNew id row } := by
  refine ⟨fun license h => ?_, .refl _ _, .refl _ _, fun _ h => h, fun _ e h => .inl ⟨e, h, rfl⟩⟩
  obtain ⟨l, hl⟩ := Option.isSome_iff_exists.1 h
  unfold KeyStored
  rw [Table.get?_insertNew_of_some hl]
  rfl

theorem keyStored_insertNew (db : Catalog) (id : Uuid) (row : LicenseKey) :
    KeyStored { db with licenseKeys := db.licenseKeys.insertNew id row } id := by
  unfold KeyStored
  rw [Table.get?_insertNew_self]
  rfl

/-- New package edges of stored keys let the catalog grow. -/
theorem Grows.withEdges {db : Catalog} {edges : Table (Uuid × Uuid) UpdateBound}
    (h : NewOn db.KeyStored db.entitlements edges) : db.Grows { db with entitlements := edges } :=
  ⟨fun _ h => h, h, .refl _ _, fun _ h => h, fun _ e h => .inl ⟨e, h, rfl⟩⟩

/-- New set edges of stored keys let the catalog grow. -/
theorem Grows.withSetEdges {db : Catalog} {edges : Table (Uuid × Uuid) UpdateBound}
    (h : NewOn db.KeyStored db.licenseSetEntitlements edges) :
    db.Grows { db with licenseSetEntitlements := edges } :=
  ⟨fun _ h => h, .refl _ _, h, fun _ h => h, fun _ e h => .inl ⟨e, h, rfl⟩⟩

/-- Attaching a set writes edges of the key alone. -/
theorem grows_attachEditionSet {db db' : Catalog} {ses : Session} {now : Timestamp}
    {license packageSet : Uuid} {snapshot : Bool} {boundFromEdition : Option Uuid}
    (hkey : db.KeyStored license)
    (h : db.attachEditionSet ses now license packageSet snapshot boundFromEdition = .ok db') :
    db.Grows db' := by
  unfold attachEditionSet at h
  dsimp only at h
  split_ifs at h
  · rw [← Except.ok.inj h]
    refine Grows.withEdges (.insertAll fun r hr => ?_)
    obtain ⟨p, -, rfl⟩ := List.mem_map.1 hr
    exact hkey
  · rw [← Except.ok.inj h]
    exact Grows.withSetEdges (.insertNew hkey _)

/-- An issue inserts its key before the edges of it. -/
theorem grows_issueFromEditionInner {db db' : Catalog} {ses : Session}
    {secret : Option SecretKey} {now : Timestamp} {c : IssueCall} {issued : Option IssuedLicense}
    (h : db.issueFromEditionInner ses secret now c = .ok (issued, db')) : db.Grows db' := by
  unfold issueFromEditionInner at h
  split at h
  · rw [← (Prod.mk.inj (Except.ok.inj h)).2]
    exact refl_of Grows db
  · split at h
    · rw [← (Prod.mk.inj (Except.ok.inj h)).2]
      exact refl_of Grows db
    · split at h
      · -- the insert lost a race: nothing is written
        split at h
        · cases h
        · split at h
          · rw [← (Prod.mk.inj (Except.ok.inj h)).2]
            exact refl_of Grows db
          · rw [← (Prod.mk.inj (Except.ok.inj h)).2]
            exact refl_of Grows db
      · rename_i inserted hinsert
        split at h
        · cases h
        · rename_i attached hattach
          rw [← (Prod.mk.inj (Except.ok.inj h)).2]
          have hinserted := insertLicenseKey_ok hinsert
          rw [hinserted] at hattach
          exact trans_of Grows (Grows.insertKey db _ _)
            (grows_attachEditionSet (keyStored_insertNew db _ _) hattach)

theorem keyStored_of_activeKey {db : Catalog} {repo license : Uuid} {key : LicenseKey}
    (h : db.activeKey repo license = some key) : db.KeyStored license := by
  unfold KeyStored
  rw [db.get?_of_activeKey h]
  rfl

/-- An edition is added to an active key, which is stored. -/
theorem grows_addEditionToLicense (db : Catalog) (ses : Session) (now : Timestamp)
    (repo license edition : Uuid) :
    db.Grows (rolledBack db (db.addEditionToLicense ses now repo license edition)) := by
  rcases db.addEditionToLicense_cases ses now repo license edition with
    ⟨key, ed, ⟨hkey, -⟩, -, hadded⟩ | ⟨hsame, -⟩
  · rw [hadded]
    exact Grows.withSetEdges (.insertNew (keyStored_of_activeKey hkey) _)
  · rw [hsame]
    exact refl_of Grows db

theorem keyStored_update {db : Catalog} {license : Uuid} (f : Uuid → LicenseKey → LicenseKey)
    (h : db.KeyStored license) :
    KeyStored { db with licenseKeys := db.licenseKeys.update f } license :=
  (Grows.updateKeys db f).keys license h

/-- A merge copies edges to an active key, and deletes no key. -/
theorem grows_mergeLicenseKeys (db : Catalog) (repo source target : Uuid) :
    db.Grows (db.mergeLicenseKeys repo source target).2 := by
  unfold mergeLicenseKeys
  split_ifs with hsame
  · exact refl_of Grows db
  · split
    · exact refl_of Grows db
    · split
      · exact refl_of Grows db
      · rename_i sourceKey _ _ targetKey htarget
        split_ifs
        · have hkey := keyStored_of_activeKey htarget
          exact ⟨fun _ h => keyStored_update _ h, .copyEdges (keyStored_update _ hkey) _ _,
            .copyEdges (keyStored_update _ hkey) _ _, fun _ h => h, fun _ e h => .inl ⟨e, h, rfl⟩⟩
        · exact refl_of Grows db

/-- A renewal updates bounds, and inserts a ledger row at most. -/
theorem grows_renew (db : Catalog) (ses : Session) (now : Timestamp) (c : RenewCall) :
    db.Grows (rolledBack db (db.renew ses now c)) := by
  have hextend : ∀ db : Catalog, db.Grows (db.extendBound ses now c).2 := by
    intro db
    unfold extendBound renewKey renewEdge
    split
    · split
      · exact refl_of Grows db
      · exact Grows.updateKeys db _
    · split
      · exact refl_of Grows db
      · exact Grows.withSetEdges (.update _)
  unfold renew
  split
  · exact hextend db
  · split_ifs
    · exact trans_of Grows
        (⟨fun _ h => h, .refl _ _, .refl _ _, fun _ h => h, fun _ e h => .inl ⟨e, h, rfl⟩⟩ :
          db.Grows (db.recordRenewal _ _)) (hextend _)
    · split
      · exact refl_of Grows db
      · exact refl_of Grows db

/-- Every writer of `LicenseOp` grows the catalog. -/
theorem grows_licenseOp (ses : Session) (secret : Option SecretKey) (db : Catalog)
    (x : Timed LicenseOp) : db.Grows (LicenseOp.run ses secret db x) := by
  obtain ⟨now, op⟩ := x
  cases op with
  | issue c =>
    show db.Grows (rolledBack db (db.issueFromEditionInner ses secret now c))
    cases hissue : db.issueFromEditionInner ses secret now c with
    | error e => exact refl_of Grows db
    | ok answer => exact grows_issueFromEditionInner hissue
  | addEdition repo license edition =>
    exact grows_addEditionToLicense db ses now repo license edition
  | merge repo source target => exact grows_mergeLicenseKeys db repo source target
  | removeEdition repo license edition => exact Grows.withSetEdges (.delete _)
  | setBound repo license until? major => exact Grows.updateKeys db _
  | revoke repo license => exact Grows.updateKeys db _
  | renew c => exact grows_renew db ses now c

theorem grows_createLicenseKey (db : Catalog) (repo : Uuid) (buyer : Option String)
    (minted : Minted) : db.Grows (exec (Sconce.createLicenseKey repo buyer minted) db).2 := by
  unfold Sconce.createLicenseKey
  simp only [exec_bind, exec_get, andThen]
  split_ifs
  · exact refl_of Grows db
  · simp only [exec_bind, exec_ofExcept, andThen]
    cases hinsert : db.insertLicenseKey minted.id (plainKey repo buyer minted) with
    | error e => exact refl_of Grows db
    | ok inserted =>
      rw [insertLicenseKey_ok hinsert]
      exact Grows.insertKey db _ _

/-- The edges of one admitted key, a package each. -/
theorem NewOn.foldl_insertNew {keys : Uuid → Prop} {license : Uuid} (hkey : keys license)
    (ids : List Uuid) (t : Table (Uuid × Uuid) UpdateBound) :
    NewOn keys t (ids.foldl (fun edges id => edges.insertNew (license, id) .unbounded) t) := by
  induction ids generalizing t with
  | nil => exact .refl _ _
  | cons id ids ih => exact (NewOn.insertNew hkey _).trans (ih _) fun _ h => h

/-- A licence is issued with its package edges. -/
theorem grows_issueLicense (db : Catalog) (repo : Uuid) (buyer : Option String)
    (packages : List String) (minted : Minted) :
    db.Grows (exec (Sconce.issueLicense repo buyer packages minted) db).2 := by
  unfold Sconce.issueLicense
  simp only [exec_bind, exec_get, andThen]
  split
  · exact refl_of Grows db
  · rename_i ids _
    split_ifs
    · exact refl_of Grows db
    · simp only [exec_bind, exec_ofExcept, andThen]
      cases hinsert : db.insertLicenseKey minted.id (plainKey repo buyer minted) with
      | error e => exact refl_of Grows db
      | ok inserted =>
        rw [insertLicenseKey_ok hinsert]
        exact trans_of Grows (Grows.insertKey db _ _)
          (Grows.withEdges (.foldl_insertNew (keyStored_insertNew db _ _) ids _))

/-- A package edge is inserted for a stored key and package. -/
theorem grows_entitlePackage (db : Catalog) (license repo : Uuid) (package : String) :
    db.Grows (exec (Sconce.entitlePackage license repo package) db).2 := by
  unfold Sconce.entitlePackage
  simp only [exec_bind, exec_get, andThen]
  split
  · exact refl_of Grows db
  · split_ifs with hedge hkey
    · exact refl_of Grows db
    · exact refl_of Grows db
    · rw [Option.isNone_iff_eq_none, ← Option.not_isSome_iff_eq_none, not_not] at hkey
      exact Grows.withEdges (.insertNew hkey _)

/-- A set edge is inserted for a stored key and set. -/
theorem grows_entitleSet (db : Catalog) (license packageSet : Uuid) :
    db.Grows (exec (Sconce.entitleSet license packageSet) db).2 := by
  unfold Sconce.entitleSet
  simp only [exec_bind, exec_get, andThen]
  split_ifs with hedge hmissing
  · exact refl_of Grows db
  · exact refl_of Grows db
  · rw [not_or, Option.isNone_iff_eq_none, ← Option.not_isSome_iff_eq_none, not_not] at hmissing
    exact Grows.withSetEdges (.insertNew hmissing.1 _)

/-- A set that is created has no edges yet. -/
theorem grows_createPackageSet (db : Catalog) (newId org : Uuid) (name : String) :
    db.Grows (exec (Sconce.createPackageSet newId org name) db).2 := by
  unfold Sconce.createPackageSet
  simp only [exec_bind, exec_get, andThen]
  split_ifs
  · exact refl_of Grows db
  · exact refl_of Grows db
  · exact refl_of Grows db
  · refine ⟨fun _ h => h, .refl _ _, .refl _ _, fun packageSet h => ?_,
      fun _ e h => .inl ⟨e, h, rfl⟩⟩
    obtain ⟨row, hrow⟩ := Option.isSome_iff_exists.1 h
    show (Table.get? (db.packageSets.insertNew newId ⟨org, trim name⟩) packageSet).isSome
    rw [Table.get?_insertNew_of_some hrow]
    rfl

/-- An edition is created for a stored set. -/
theorem grows_createEdition (db : Catalog) (e : NewEdition) :
    db.Grows (orRefused db (db.createEdition e)) := by
  unfold createEdition
  split
  · exact refl_of Grows db
  · split
    · exact refl_of Grows db
    · split_ifs
      · cases hinsert : db.insertEdition e.id e.row with
        | error err => exact refl_of Grows db
        | ok db' =>
          have hset : db.SetStored e.set := by
            unfold insertEdition at hinsert
            split_ifs at hinsert with _ _ hmissing
            rw [not_or, Option.isNone_iff_eq_none, Option.isNone_iff_eq_none,
              ← Option.not_isSome_iff_eq_none, ← Option.not_isSome_iff_eq_none, not_not,
              not_not] at hmissing
            exact hmissing.2
          show db.Grows db'
          rw [eq_of_insertEdition hinsert]
          refine ⟨fun _ h => h, .refl _ _, .refl _ _, fun _ h => h, fun id row hrow => ?_⟩
          by_cases hid : id = e.id
          · subst hid
            rw [show Table.get? (db.editions.insertNew e.id e.row) e.id = _ from
              Table.get?_insertNew_self _ _ _, Option.some.injEq] at hrow
            cases hold : db.editions.get? e.id with
            | some old =>
              rw [hold, Option.getD_some] at hrow
              exact .inl ⟨old, rfl, by rw [hrow]⟩
            | none =>
              rw [hold, Option.getD_none] at hrow
              rw [← hrow]
              exact .inr hset
          · rw [show Table.get? (db.editions.insertNew e.id e.row) id = db.editions.get? id from
              Table.get?_insertNew_of_ne _ _ hid] at hrow
            exact .inl ⟨row, hrow, rfl⟩
      · exact refl_of Grows db

/-- Switching an edition on or off moves no key. -/
theorem grows_updateActive (db : Catalog) (repo edition : Uuid) (active : Bool) :
    db.Grows (db.updateActive repo edition active) := by
  refine ⟨fun _ h => h, .refl _ _, .refl _ _, fun _ h => h, fun id e he => ?_⟩
  unfold updateActive at he
  dsimp only at he
  rw [Table.get?_update, Option.map_eq_some_iff] at he
  obtain ⟨old, hold, rfl⟩ := he
  refine .inl ⟨old, hold, ?_⟩
  split_ifs <;> rfl

/-- Switching an edition on or off, refused or not, moves no key. -/
theorem grows_setEditionActive (db : Catalog) (repo edition : Uuid) (active : Bool) :
    db.Grows (orRefused db (db.setEditionActive repo edition active)) := by
  unfold setEditionActive
  split_ifs
  · split
    · exact refl_of Grows db
    · split
      · exact refl_of Grows db
      · exact grows_updateActive db repo edition true
  · exact grows_updateActive db repo edition false

/-- A deleted edition leaves its keys without one. -/
theorem grows_deleteEdition (db : Catalog) (repo edition : Uuid) :
    db.Grows (db.deleteEdition repo edition).2 := by
  refine ⟨fun _ h => keyStored_update _ h, .refl _ _, .refl _ _, fun _ h => h, fun id e he => ?_⟩
  have he' : (db.editions.delete fun id e => decide (id = edition ∧ e.repoId = repo)).get? id
      = some e := he
  rw [Table.get?_delete, Option.filter_eq_some_iff] at he'
  exact .inl ⟨e, he'.1, rfl⟩

/-! ## What the deletes do -/

/-- A set that an edition sells stays; the edges on a deleted set go with it. -/
theorem ForeignKeys.deletePackageSet {db : Catalog} (h : db.ForeignKeys) (org packageSet : Uuid) :
    ForeignKeys (exec (Sconce.deletePackageSet org packageSet) db).2 := by
  unfold Sconce.deletePackageSet
  simp only [exec_bind, exec_get, andThen]
  split_ifs with hset hsold
  · exact h
  · exact h
  · refine ⟨h.entitlements, fun k b hb => ?_, fun id e he => ?_⟩
    · have hb' : (db.licenseSetEntitlements.delete fun key _ => decide (key.2 = packageSet)).get? k
          = some b := hb
      rw [Table.get?_delete, Option.filter_eq_some_iff] at hb'
      exact h.setEntitlements k b hb'.1
    · obtain ⟨row, hrow⟩ := Option.isSome_iff_exists.1 (h.editions id e he)
      have hne : e.setId ≠ packageSet := by
        intro heq
        apply hsold
        rw [List.any_eq_true]
        exact ⟨(id, e), (db.editions.mem_rows_iff id e).2 he, decide_eq_true heq⟩
      show (Table.get? (db.packageSets.delete fun id _ => decide (id = packageSet)) e.setId).isSome
      rw [Table.get?_delete, hrow, Option.filter_some, if_pos (by simpa using hne)]
      rfl

/-- A change of other tables breaks no key. -/
theorem ForeignKeys.elsewhere {db db' : Catalog} (h : db.ForeignKeys) (hsame : db.SameSales db') :
    db'.ForeignKeys := by
  have hkeys : ∀ license, db.KeyStored license → db'.KeyStored license := by
    intro license hkey
    unfold KeyStored
    rw [hsame.licenseKeys]
    exact hkey
  refine ⟨fun k b hb => ?_, fun k b hb => ?_, fun id e he => ?_⟩
  · rw [hsame.entitlements] at hb
    exact hkeys k.1 (h.entitlements k b hb)
  · rw [hsame.licenseSetEntitlements] at hb
    exact hkeys k.1 (h.setEntitlements k b hb)
  · rw [hsame.editions] at he
    unfold SetStored
    rw [hsame.packageSets]
    exact h.editions id e he

/-- Dropped packages take their edges along. -/
theorem ForeignKeys.dropPackages {db : Catalog} (h : db.ForeignKeys) (gone : Uuid → Bool) :
    (db.dropPackages gone).ForeignKeys :=
  (h.grows (Grows.withEdges (.delete fun key _ => gone key.2))).elsewhere
    ⟨rfl, rfl, rfl, rfl, rfl⟩

/-- Dropped editions leave their keys without one. -/
theorem ForeignKeys.dropEditions {db : Catalog} (h : db.ForeignKeys) (gone : Uuid → Bool) :
    (db.dropEditions gone).ForeignKeys := by
  refine h.grows
    ⟨fun _ h => keyStored_update _ h, .refl _ _, .refl _ _, fun _ h => h, fun id e he => ?_⟩
  have he' : (db.editions.delete fun id _ => gone id).get? id = some e := he
  rw [Table.get?_delete, Option.filter_eq_some_iff] at he'
  exact .inl ⟨e, he'.1, rfl⟩

/-- A deleted key takes its edges along. -/
theorem ForeignKeys.dropLicenseKeys {db : Catalog} (h : db.ForeignKeys) (gone : Uuid → Bool) :
    (db.dropLicenseKeys gone).ForeignKeys := by
  have hstays : ∀ license, db.KeyStored license → gone license = false →
      (db.dropLicenseKeys gone).KeyStored license := by
    intro license hkey hstays
    obtain ⟨l, hl⟩ := Option.isSome_iff_exists.1 hkey
    show (Table.get? (db.licenseKeys.delete fun id _ => gone id) license).isSome
    rw [Table.get?_delete, hl, Option.filter_some, if_pos (by rw [hstays]; rfl)]
    rfl
  refine ⟨fun k b hb => ?_, fun k b hb => ?_, h.editions⟩
  · have hb' : (db.entitlements.delete fun key _ => gone key.1).get? k = some b := hb
    rw [Table.get?_delete, Option.filter_eq_some_iff, Bool.not_eq_true'] at hb'
    exact hstays k.1 (h.entitlements k b hb'.1) hb'.2
  · have hb' : (db.licenseSetEntitlements.delete fun key _ => gone key.1).get? k = some b := hb
    rw [Table.get?_delete, Option.filter_eq_some_iff, Bool.not_eq_true'] at hb'
    exact hstays k.1 (h.setEntitlements k b hb'.1) hb'.2

theorem ForeignKeys.dropUpstreams {db : Catalog} (h : db.ForeignKeys) (gone : Uuid → Bool) :
    (db.dropUpstreams gone).ForeignKeys := h.elsewhere ⟨rfl, rfl, rfl, rfl, rfl⟩

theorem ForeignKeys.dropSnapshots {db : Catalog} (h : db.ForeignKeys) (gone : Uuid → Bool) :
    (db.dropSnapshots gone).ForeignKeys := h.elsewhere ⟨rfl, rfl, rfl, rfl, rfl⟩

theorem ForeignKeys.dropUploadSessions {db : Catalog} (h : db.ForeignKeys) (gone : Uuid → Bool) :
    (db.dropUploadSessions gone).ForeignKeys := h.elsewhere ⟨rfl, rfl, rfl, rfl, rfl⟩

theorem ForeignKeys.dropRepositoryRow {db : Catalog} (h : db.ForeignKeys) (repo : Uuid) :
    (db.dropRepositoryRow repo).ForeignKeys := h.elsewhere ⟨rfl, rfl, rfl, rfl, rfl⟩

/-- Deleting a repository deletes what refers to its keys. -/
theorem ForeignKeys.dropRepository {db : Catalog} (h : db.ForeignKeys) (repo : Uuid) :
    (db.dropRepository repo).ForeignKeys :=
  ((((((h.dropUpstreams _).dropPackages _).dropEditions _).dropLicenseKeys _).dropSnapshots
    _).dropUploadSessions _).dropRepositoryRow repo

/-- Deleting a repository takes everything of it along, in its order. -/
theorem ForeignKeys.deleteRepo {db : Catalog} (h : db.ForeignKeys) (newId repo : Uuid) :
    ForeignKeys (exec (Sconce.deleteRepo newId repo) db).2 := by
  unfold Sconce.deleteRepo
  simp only [exec_bind, exec_get, andThen]
  split
  · exact h
  · rename_i r _
    simp only [exec_bind, andThen]
    cases hdelete : exec (commitDelete newId r.orgId repo r.slug) db with
    | mk answer db' =>
      cases answer with
      | error e =>
        rw [show db' = db from atomically_error hdelete]
        exact h
      | ok _ =>
        rw [(commitDelete_ok hdelete).2.2]
        exact (h.elsewhere ⟨rfl, rfl, rfl, rfl, rfl⟩ :
          (db.withRetired newId (.repo r.orgId) r.slug repo).ForeignKeys).dropRepository repo

/-! ## Every catalog there can be -/

/-- A writer keeps the foreign keys. -/
theorem ForeignKeys.run {db : Catalog} (h : db.ForeignKeys) (ses : Session)
    (secret : Option SecretKey) (op : SellerOp) : (op.run ses secret db).ForeignKeys := by
  cases op with
  | write x => exact h.grows (grows_licenseOp ses secret db x)
  | createLicenseKey repo buyer minted => exact h.grows (grows_createLicenseKey db repo buyer minted)
  | issueLicense repo buyer packages minted =>
    exact h.grows (grows_issueLicense db repo buyer packages minted)
  | entitlePackage license repo package =>
    exact h.grows (grows_entitlePackage db license repo package)
  | entitleSet license packageSet => exact h.grows (grows_entitleSet db license packageSet)
  | removeSetEntitlement license packageSet => exact h.grows (Grows.withSetEdges (.delete _))
  | setLicensePolicy repo license policy => exact h.grows (Grows.updateKeys db _)
  | createPackageSet newId org name => exact h.grows (grows_createPackageSet db newId org name)
  | deletePackageSet org packageSet => exact h.deletePackageSet org packageSet
  | createEdition e => exact h.grows (grows_createEdition db e)
  | setEditionActive repo edition active =>
    exact h.grows (grows_setEditionActive db repo edition active)
  | deleteEdition repo edition => exact h.grows (grows_deleteEdition db repo edition)
  | deleteRepo newId repo => exact h.deleteRepo newId repo

/-- **The foreign keys hold in every catalog there can be.** -/
theorem foreignKeys_of_reachable {ses : Session} {secret : Option SecretKey} {db : Catalog}
    (h : Reachable ses secret db) : db.ForeignKeys := by
  induction h with
  | empty => exact foreignKeys_empty
  | sale _ op ih => exact ih.run ses secret op
  | elsewhere _ hsame ih => exact ih.elsewhere hsame

end Catalog

end Sconce
