/-
# Snapshot sales and sales by reference

An edition sells its set by reference, so that the key unlocks whatever the set takes in at
the time it is read, or as a snapshot, the packages of the set at the time of the sale.  Right
after the sale the two keys unlock the same packages under the same bounds, and from then on
the snapshot gains nothing, whatever comes into the set (`sold_alike`).
-/
import Sconce.Licensing.ForeignKeys

namespace Sconce

open Effect

namespace Catalog

/-- The catalog in which the edition sells snapshots, or sells by reference. -/
def selling (db : Catalog) (edition : Uuid) (snapshot : Bool) : Catalog :=
  { db with
    editions := db.editions.update fun id e =>
      if id = edition then { e with snapshotAtIssue := snapshot } else e }

/-! ## What a sale does -/

section Sale

variable {db : Catalog} {ses : Session} {secret : Option SecretKey} {now : Timestamp}
  {c : IssueCall} {ed : Edition}

/-- The edition sold either way is the one that was active. -/
theorem activeEdition_selling (h : db.activeEdition c.repo c.edition = some ed) (snapshot : Bool) :
    (db.selling c.edition snapshot).activeEdition c.repo c.edition
      = some { ed with snapshotAtIssue := snapshot } := by
  unfold activeEdition at h
  obtain ⟨hget, hactive⟩ := Option.filter_eq_some_iff.1 h
  unfold activeEdition selling
  dsimp only
  rw [Table.get?_update, hget, Option.map_some, if_pos rfl, Option.filter_some, if_pos]
  exact hactive

/-- The bound of a sale does not depend on the flag. -/
theorem edgeBound_selling (snapshot : Bool) (boundFromEdition : Option Uuid) :
    (db.selling c.edition snapshot).edgeBound ses now boundFromEdition
      = db.edgeBound ses now boundFromEdition := by
  cases boundFromEdition with
  | none => rfl
  | some id =>
    unfold edgeBound selling
    simp only [Option.bind_some, Table.get?_update]
    cases db.editions.get? id with
    | none => rfl
    | some e =>
      rw [Option.map_some]
      dsimp only
      split_ifs <;> rfl

/-- The catalog with the key of a sale. -/
def withKey (db : Catalog) (ses : Session) (now : Timestamp) (c : IssueCall) (ed : Edition) :
    Catalog :=
  { db with licenseKeys := db.licenseKeys.insertNew c.minted.id (issuedRow ses now c ed) }

/-- The bound of the edges of a sale. -/
def saleBound (db : Catalog) (ses : Session) (now : Timestamp) (c : IssueCall) : UpdateBound :=
  db.edgeBound ses now (if c.boundOnEdge then some c.edition else none)

/-- The catalog after a snapshot sale. -/
def snapshotSold (db : Catalog) (ses : Session) (now : Timestamp) (c : IssueCall) (ed : Edition) :
    Catalog :=
  { db.withKey ses now c ed with
    entitlements := db.entitlements.insertAll
      ((db.setPackages ed.setId).map fun p => ((c.minted.id, p.1), db.saleBound ses now c)) }

/-- The catalog after a sale by reference. -/
def referenceSold (db : Catalog) (ses : Session) (now : Timestamp) (c : IssueCall) (ed : Edition) :
    Catalog :=
  { db.withKey ses now c ed with
    licenseSetEntitlements :=
      db.licenseSetEntitlements.insertNew (c.minted.id, ed.setId) (db.saleBound ses now c) }

/-- The key of a sale does not depend on the flag. -/
theorem insertLicenseKey_selling (snapshot : Bool) (id : Uuid) (row : LicenseKey) :
    (db.selling c.edition snapshot).insertLicenseKey id row
      = (db.insertLicenseKey id row).map fun db' => db'.selling c.edition snapshot := by
  unfold insertLicenseKey
  show (if db.licenseKeys.rows.any _ then _ else _) = _
  split_ifs <;> rfl

/-- Attaching the set of a sale: the set is there, so nothing fails. -/
theorem attachEditionSet_selling (hset : db.SetStored ed.setId) (snapshot : Bool) :
    ((db.withKey ses now c ed).selling c.edition snapshot).attachEditionSet ses now c.minted.id
        ed.setId snapshot (if c.boundOnEdge then some c.edition else none)
      = .ok ((if snapshot then db.snapshotSold ses now c ed
          else db.referenceSold ses now c ed).selling c.edition snapshot) := by
  unfold attachEditionSet
  dsimp only
  rw [edgeBound_selling]
  cases snapshot with
  | true => rfl
  | false =>
    rw [if_neg Bool.false_ne_true, if_neg]
    · rfl
    · rintro ⟨-, hmissing⟩
      rw [Option.isNone_iff_eq_none, ← Option.not_isSome_iff_eq_none] at hmissing
      exact hmissing hset

/-- A sale replays an earlier one, fails or yields nothing because its key is taken, or inserts
the key and attaches the set. -/
theorem issueFromEditionInner_selling (hactive : db.activeEdition c.repo c.edition = some ed)
    (hset : db.SetStored ed.setId) (snapshot : Bool) :
    (db.selling c.edition snapshot).issueFromEditionInner ses secret now c =
      match c.idempotencyKey.bind (db.licenseIdForIdempotency c.repo c.edition) with
      | some id => .ok (some (db.replay secret c.repo id), db.selling c.edition snapshot)
      | none =>
        match db.insertLicenseKey c.minted.id (issuedRow ses now c ed) with
        | .error e =>
          match c.idempotencyKey with
          | none => .error e
          | some idem =>
            match db.licenseIdForIdempotency c.repo c.edition idem with
            | none => .ok (none, db.selling c.edition snapshot)
            | some id => .ok (some (db.replay secret c.repo id), db.selling c.edition snapshot)
        | .ok _ =>
          .ok (some { id := c.minted.id, key := some c.minted.key, created := true },
            (if snapshot then db.snapshotSold ses now c ed
              else db.referenceSold ses now c ed).selling c.edition snapshot) := by
  unfold issueFromEditionInner
  show (match c.idempotencyKey.bind (db.licenseIdForIdempotency c.repo c.edition) with
    | some id => _ | none => _) = _
  cases c.idempotencyKey.bind (db.licenseIdForIdempotency c.repo c.edition) with
  | some id => rfl
  | none =>
    dsimp only
    rw [activeEdition_selling hactive]
    dsimp only
    -- how the edition sells is no part of the row
    have hrow : issuedRow ses now c { ed with snapshotAtIssue := snapshot }
        = issuedRow ses now c ed := rfl
    rw [insertLicenseKey_selling, hrow]
    cases hinsert : db.insertLicenseKey c.minted.id (issuedRow ses now c ed) with
    | error e => rfl
    | ok inserted =>
      obtain rfl := insertLicenseKey_ok hinsert
      -- only the edges differ, the frozen set or the set itself
      have hattach := @attachEditionSet_selling db ses now c ed hset snapshot
      unfold withKey at hattach
      dsimp only [Except.map]
      rw [hattach]

end Sale

/-! ## What a sold key unlocks -/

section Unlocks

variable {db : Catalog} {ses : Session} {now : Timestamp} {c : IssueCall} {ed : Edition}

/-- A key that is not stored has no edges. -/
theorem ForeignKeys.edge?_eq_none (h : db.ForeignKeys) {license : Uuid}
    (hnew : db.licenseKeys.get? license = none) (t : EdgeTarget) : db.edge? license t = none := by
  have hmissing : ¬ db.KeyStored license := by
    unfold KeyStored
    rw [hnew]
    exact Bool.false_ne_true
  cases t with
  | package id =>
    refine Option.eq_none_iff_forall_ne_some.2 fun b hb => ?_
    exact hmissing (h.entitlements (license, id) b hb)
  | set id =>
    refine Option.eq_none_iff_forall_ne_some.2 fun b hb => ?_
    exact hmissing (h.setEntitlements (license, id) b hb)

/-- The key of a sale has the bound it was issued with. -/
theorem bound_withKey (hnew : db.licenseKeys.get? c.minted.id = none) :
    ((db.withKey ses now c ed).licenseKeys.get? c.minted.id).map (·.bound)
      = some (issuedRow ses now c ed).bound := by
  unfold withKey
  dsimp only
  rw [Table.get?_insertNew_self, hnew]
  rfl

/-- The edges of a snapshot sale are the packages of the set. -/
theorem edge?_snapshotSold (hfk : db.ForeignKeys)
    (hnew : db.licenseKeys.get? c.minted.id = none) (t : EdgeTarget) (b : UpdateBound) :
    (db.snapshotSold ses now c ed).edge? c.minted.id t = some b ↔
      b = db.saleBound ses now c ∧ ∃ p ∈ db.setPackages ed.setId, t = .package p.1 := by
  cases t with
  | set id =>
    refine iff_of_false (fun h => ?_) ?_
    · exact absurd ((hfk.edge?_eq_none hnew (.set id)).symm.trans h) nofun
    · rintro ⟨-, p, -, hp⟩
      cases hp
  | package id =>
    have hnone : db.entitlements.get? (c.minted.id, id) = none :=
      hfk.edge?_eq_none hnew (.package id)
    show (db.entitlements.insertAll _).get? (c.minted.id, id) = some b ↔ _
    by_cases hid : ∃ p ∈ db.setPackages ed.setId, p.1 = id
    · obtain ⟨p, hp, rfl⟩ := hid
      have hsel : ((c.minted.id, p.1), db.saleBound ses now c) ∈
          (db.setPackages ed.setId).map fun p => ((c.minted.id, p.1), db.saleBound ses now c) :=
        List.mem_map.2 ⟨p, hp, rfl⟩
      obtain ⟨w, hw, hold | hselected⟩ := db.entitlements.get?_insertAll_of_mem hsel
      · rw [hnone] at hold
        cases hold
      · obtain ⟨p', -, hp'⟩ := List.mem_map.1 hselected
        rw [hw, Option.some.injEq, ← (Prod.mk.inj hp').2]
        constructor
        · rintro rfl
          exact ⟨rfl, p, hp, rfl⟩
        · rintro ⟨rfl, -⟩
          rfl
    · rw [Table.get?_insertAll_of_notMem, hnone]
      · refine iff_of_false nofun ?_
        rintro ⟨-, p, hp, ht⟩
        exact hid ⟨p, hp, (EdgeTarget.package.inj ht).symm⟩
      · intro v hv
        obtain ⟨p, hp, hpair⟩ := List.mem_map.1 hv
        exact hid ⟨p, hp, congrArg (fun r => r.1.2) hpair⟩

/-- The edge of a sale by reference is the set. -/
theorem edge?_referenceSold (hfk : db.ForeignKeys)
    (hnew : db.licenseKeys.get? c.minted.id = none) (t : EdgeTarget) (b : UpdateBound) :
    (db.referenceSold ses now c ed).edge? c.minted.id t = some b ↔
      b = db.saleBound ses now c ∧ t = .set ed.setId := by
  have hnone := hfk.edge?_eq_none hnew
  cases t with
  | package id =>
    refine iff_of_false (fun h => ?_) nofun
    exact absurd ((hnone (.package id)).symm.trans h) nofun
  | set id =>
    show (db.licenseSetEntitlements.insertNew _ _).get? (c.minted.id, id) = some b ↔ _
    by_cases hid : id = ed.setId
    · have hfree : db.licenseSetEntitlements.get? (c.minted.id, ed.setId) = none :=
        hnone (.set ed.setId)
      rw [hid, Table.get?_insertNew_self, hfree, Option.getD_none, Option.some.injEq,
        and_iff_left rfl]
      exact eq_comm
    · rw [Table.get?_insertNew_of_ne _ _ fun h => hid (congrArg Prod.snd h)]
      refine iff_of_false (fun h => ?_) fun h => hid (EdgeTarget.set.inj h.2)
      exact absurd ((hnone (.set id)).symm.trans h) nofun

/-- A package name of the set, and the bound that the key of a sale gives it. -/
def InSale (db : Catalog) (ses : Session) (now : Timestamp) (c : IssueCall) (ed : Edition)
    (name : String) (b : UpdateBound) : Prop :=
  (∃ p ∈ db.setPackages ed.setId, p.2.name = name) ∧
    (db.saleBound ses now c).inherit (issuedRow ses now c ed).bound = b

/-- A key sold by snapshot covers the packages of its sale. -/
theorem covers_snapshotSold_iff (hfk : db.ForeignKeys)
    (hnew : db.licenseKeys.get? c.minted.id = none) (name : String) (b : UpdateBound) :
    (db.snapshotSold ses now c ed).Covers c.minted.id name b ↔ db.InSale ses now c ed name b := by
  have hkey : ((db.snapshotSold ses now c ed).licenseKeys.get? c.minted.id).map (·.bound)
      = some (issuedRow ses now c ed).bound := bound_withKey hnew
  rw [covers_iff hkey]
  constructor
  · rintro ⟨t, e, he, hname, hb⟩
    obtain ⟨rfl, p, hp, rfl⟩ := (edge?_snapshotSold hfk hnew t e).1 he
    have hpackage : db.packages.get? p.1 = some p.2 :=
      (db.packages.mem_rows_iff p.1 p.2).1 (List.mem_filter.1 hp).1
    have hnames : (db.snapshotSold ses now c ed).names (.package p.1)
        = ((db.packages.get? p.1).map (·.name)).toList := rfl
    rw [hnames, hpackage] at hname
    exact ⟨⟨p, hp, (List.mem_singleton.1 hname).symm⟩, hb⟩
  · rintro ⟨⟨p, hp, rfl⟩, hb⟩
    have hpackage : db.packages.get? p.1 = some p.2 :=
      (db.packages.mem_rows_iff p.1 p.2).1 (List.mem_filter.1 hp).1
    refine ⟨.package p.1, db.saleBound ses now c,
      (edge?_snapshotSold hfk hnew _ _).2 ⟨rfl, p, hp, rfl⟩, ?_, hb⟩
    show p.2.name ∈ ((db.packages.get? p.1).map (·.name)).toList
    rw [hpackage]
    exact List.mem_singleton.2 rfl

/-- A key sold by reference covers the packages of its sale, as long as the set is what it was. -/
theorem covers_referenceSold_iff (hfk : db.ForeignKeys)
    (hnew : db.licenseKeys.get? c.minted.id = none) (hset : db.SetStored ed.setId) (name : String)
    (b : UpdateBound) :
    (db.referenceSold ses now c ed).Covers c.minted.id name b ↔ db.InSale ses now c ed name b := by
  have hnames : (db.referenceSold ses now c ed).names (.set ed.setId)
      = (db.setPackages ed.setId).map (·.2.name) := names_set_eq hset
  have hkey : ((db.referenceSold ses now c ed).licenseKeys.get? c.minted.id).map (·.bound)
      = some (issuedRow ses now c ed).bound := bound_withKey hnew
  rw [covers_iff hkey]
  constructor
  · rintro ⟨t, e, he, hname, hb⟩
    obtain ⟨rfl, rfl⟩ := (edge?_referenceSold hfk hnew t e).1 he
    rw [hnames] at hname
    obtain ⟨p, hp, rfl⟩ := List.mem_map.1 hname
    exact ⟨⟨p, hp, rfl⟩, hb⟩
  · rintro ⟨⟨p, hp, rfl⟩, hb⟩
    refine ⟨.set ed.setId, db.saleBound ses now c,
      (edge?_referenceSold hfk hnew _ _).2 ⟨rfl, rfl⟩, ?_, hb⟩
    rw [hnames]
    exact List.mem_map.2 ⟨p, hp, rfl⟩

/-- **The two sales unlock the same.** -/
theorem entitledPackageBounds_sold (hfk : db.ForeignKeys)
    (hnew : db.licenseKeys.get? c.minted.id = none) (hset : db.SetStored ed.setId) :
    entitledPackageBounds ses (db.snapshotSold ses now c ed) c.minted.id
      = entitledPackageBounds ses (db.referenceSold ses now c ed) c.minted.id := by
  refine entitledPackageBounds_congr ses fun name => reach_congr fun b => ?_
  rw [covers_snapshotSold_iff hfk hnew, covers_referenceSold_iff hfk hnew hset]

/-- What a sold key unlocks is what `resolve_set` lists. -/
theorem names_snapshotSold (hfk : db.ForeignKeys)
    (hnew : db.licenseKeys.get? c.minted.id = none) :
    (entitledPackageBounds ses (db.snapshotSold ses now c ed) c.minted.id).map Prod.fst
      = db.resolveSet ed.setId := by
  have hnames : (entitledPackageBounds ses (db.snapshotSold ses now c ed) c.minted.id).map Prod.fst
      = ((db.snapshotSold ses now c ed).unioned c.minted.id).map Prod.fst := by
    unfold entitledPackageBounds
    rw [List.map_map]
    rfl
  have hmem : ∀ name, name ∈ ((db.snapshotSold ses now c ed).edges c.minted.id).map (·.1) ↔
      name ∈ (db.setPackages ed.setId).map (·.2.name) := by
    intro name
    rw [List.mem_map, List.mem_map]
    constructor
    · rintro ⟨⟨_, b⟩, he, rfl⟩
      exact ((covers_snapshotSold_iff hfk hnew _ b).1 ((mem_edges_iff _ _ _ b).1 he)).1
    · intro hp
      exact ⟨(name, _), (mem_edges_iff _ _ _ _).2
        ((covers_snapshotSold_iff hfk hnew name _).2 ⟨hp, rfl⟩), rfl⟩
  have hperm : (((db.snapshotSold ses now c ed).edges c.minted.id).map (·.1)).dedup.Perm
      ((db.setPackages ed.setId).map (·.2.name)).dedup := by
    refine (List.perm_ext_iff_of_nodup (List.nodup_dedup _) (List.nodup_dedup _)).2 fun name => ?_
    rw [List.mem_dedup, List.mem_dedup, hmem]
  rw [hnames, unioned_keys]
  unfold resolveSet
  exact ((List.perm_insertionSort _ _).trans (hperm.trans (List.perm_insertionSort _ _).symm)).eq_of_pairwise
    (fun _ _ _ _ h h' => le_antisymm h h') (List.pairwise_insertionSort _ _)
    (List.pairwise_insertionSort _ _)

end Unlocks

/-! ## What comes into the set afterwards -/

/-- What brings packages into a set: a new package, a new member, a new rule. -/
inductive GrowOp where
  | upsertPackage (newId repo : Uuid) (name kind : String) (source : Option Json)
      (visibility : Visibility)
  | addSetMember (packageSet package : Uuid)
  | addSetRule (newId packageSet : Uuid) (glob : String)

/-- The state a call leaves. -/
def GrowOp.run (db : Catalog) : GrowOp → Catalog
  | .upsertPackage newId repo name kind source visibility =>
    (exec (Sconce.upsertPackage newId repo name kind source visibility) db).2
  | .addSetMember packageSet package => (exec (Sconce.addSetMember packageSet package) db).2
  | .addSetRule newId packageSet glob => (exec (Sconce.addSetRule newId packageSet glob) db).2

/-- The keys and the edges stay, and so do the names of the packages. -/
structure KeepsSold (db db' : Catalog) : Prop where
  licenseKeys : db'.licenseKeys = db.licenseKeys
  entitlements : db'.entitlements = db.entitlements
  setEntitlements : db'.licenseSetEntitlements = db.licenseSetEntitlements
  packages : ∀ id p, db.packages.get? id = some p →
    ∃ p', db'.packages.get? id = some p' ∧ p'.name = p.name

instance : IsPreorder Catalog KeepsSold where
  refl _ := ⟨rfl, rfl, rfl, fun _ p hp => ⟨p, hp, rfl⟩⟩
  trans _ _ _ h h' := by
    refine ⟨h'.licenseKeys.trans h.licenseKeys, h'.entitlements.trans h.entitlements,
      h'.setEntitlements.trans h.setEntitlements, fun id p hp => ?_⟩
    obtain ⟨p', hp', hname⟩ := h.packages id p hp
    obtain ⟨p'', hp'', hname'⟩ := h'.packages id p' hp'
    exact ⟨p'', hp'', hname'.trans hname⟩

/-- An operation that grows the catalog keeps what was sold by snapshot. -/
theorem keepsSold_run (db : Catalog) (op : GrowOp) : db.KeepsSold (op.run db) := by
  cases op with
  | upsertPackage newId repo name kind source visibility =>
    have hframe := SyncFrame.upsertPackage newId repo name kind source visibility db
    have hpackages : ∀ id p, db.packages.get? id = some p → ∃ p',
        (exec (Sconce.upsertPackage newId repo name kind source visibility) db).2.packages.get? id
          = some p' ∧ p'.name = p.name := by
      intro id p hp
      obtain ⟨p', hp', hkept⟩ := hframe.packages id p hp
      exact ⟨p', hp', hkept.name⟩
    show db.KeepsSold (exec (Sconce.upsertPackage newId repo name kind source visibility) db).2
    rcases upsertPackage_cases db newId repo name kind source visibility with
      ⟨id, packages, -, -, hrun, -⟩ | ⟨e, -, hrun⟩
    · rw [hrun] at hpackages ⊢
      exact ⟨rfl, rfl, rfl, hpackages⟩
    · rw [hrun]
      exact refl_of KeepsSold db
  | addSetMember packageSet package =>
    show db.KeepsSold (exec (Sconce.addSetMember packageSet package) db).2
    unfold Sconce.addSetMember
    simp only [exec_bind, exec_get, andThen]
    split_ifs
    · exact refl_of KeepsSold db
    · exact refl_of KeepsSold db
    · exact ⟨rfl, rfl, rfl, fun _ p hp => ⟨p, hp, rfl⟩⟩
  | addSetRule newId packageSet glob =>
    show db.KeepsSold (exec (Sconce.addSetRule newId packageSet glob) db).2
    unfold Sconce.addSetRule
    simp only [exec_bind, exec_get, andThen]
    split_ifs
    · exact refl_of KeepsSold db
    · exact refl_of KeepsSold db
    · exact refl_of KeepsSold db
    · exact ⟨rfl, rfl, rfl, fun _ p hp => ⟨p, hp, rfl⟩⟩

theorem keepsSold_final (db : Catalog) (ops : List GrowOp) :
    db.KeepsSold (Run.final GrowOp.run db ops) :=
  Run.final_invariant (db.KeepsSold ·)
    (fun op _ s hs => trans_of KeepsSold hs (keepsSold_run s op)) (refl_of KeepsSold db)

/-- The edges of the key are on stored packages. -/
def OnPackages (db : Catalog) (license : Uuid) : Prop :=
  ∀ t b, db.edge? license t = some b → ∃ id p, t = .package id ∧ db.packages.get? id = some p

/-- A key whose edges are on packages unlocks the same while these keep their names. -/
theorem KeepsSold.entitledPackageBounds {db db' : Catalog} (h : db.KeepsSold db') {license : Uuid}
    (honly : db.OnPackages license) (ses : Session) :
    entitledPackageBounds ses db' license = entitledPackageBounds ses db license := by
  have hedge : ∀ t, db'.edge? license t = db.edge? license t := by
    intro t
    cases t with
    | package id =>
      unfold edge?
      rw [h.entitlements]
    | set id =>
      unfold edge?
      rw [h.setEntitlements]
  have hnames : ∀ t b, db.edge? license t = some b → db'.names t = db.names t := by
    intro t b hb
    obtain ⟨id, p, rfl, hp⟩ := honly t b hb
    obtain ⟨p', hp', hname⟩ := h.packages id p hp
    unfold names
    dsimp only
    rw [hp, hp', Option.map_some, Option.map_some, hname]
  refine entitledPackageBounds_congr ses fun name => reach_congr fun b => ?_
  unfold Covers
  rw [h.licenseKeys]
  constructor
  · rintro ⟨key, t, e, hkey, he, hname, hb⟩
    rw [hedge] at he
    rw [hnames t e he] at hname
    exact ⟨key, t, e, hkey, he, hname, hb⟩
  · rintro ⟨key, t, e, hkey, he, hname, hb⟩
    rw [← hnames t e he] at hname
    rw [← hedge] at he
    exact ⟨key, t, e, hkey, he, hname, hb⟩

/-- A key sold by snapshot has package edges alone. -/
theorem onPackages_snapshotSold {db : Catalog} {ses : Session} {now : Timestamp} {c : IssueCall}
    {ed : Edition} (hfk : db.ForeignKeys) (hnew : db.licenseKeys.get? c.minted.id = none) :
    (db.snapshotSold ses now c ed).OnPackages c.minted.id := by
  intro t b hb
  obtain ⟨-, p, hp, rfl⟩ := (edge?_snapshotSold hfk hnew t b).1 hb
  exact ⟨p.1, p.2, rfl, (db.packages.mem_rows_iff p.1 p.2).1 (List.mem_filter.1 hp).1⟩

/-- The flag of the edition is nothing to a key. -/
theorem onPackages_selling {db : Catalog} {license edition : Uuid} {snapshot : Bool}
    (h : db.OnPackages license) : (db.selling edition snapshot).OnPackages license := h

/-! ## The sales -/

/-- Two sales came out alike: the same key, under which the same packages are unlocked within
the same bounds; or no key; or the same error. -/
def SameSale (ses : Session) :
    Except SqlError (Option IssuedLicense × Catalog) →
      Except SqlError (Option IssuedLicense × Catalog) → Prop
  | .ok (some issued, db), .ok (some issued', db') =>
    issued = issued' ∧
      Sconce.entitledPackageBounds ses db issued.id = Sconce.entitledPackageBounds ses db' issued'.id
  | .ok (none, _), .ok (none, _) => True
  | .error e, .error e' => e = e'
  | _, _ => False

/-- Selling an edition as a snapshot is selling it by reference, frozen. -/
structure SoldAlike (ses : Session) (secret : Option SecretKey) (now : Timestamp) (db : Catalog)
    (c : IssueCall) : Prop where
  /-- A sale yields a key, unless the key it draws is taken. -/
  yields : (∀ id l, db.licenseKeys.get? id = some l → id ≠ c.minted.id ∧
      l.keyHash ≠ c.minted.hash) → ∀ snapshot, ∃ issued sold,
    (db.selling c.edition snapshot).issueFromEditionInner ses secret now c
      = .ok (some issued, sold)
  /-- Both sales come out alike. -/
  same : SameSale ses ((db.selling c.edition true).issueFromEditionInner ses secret now c)
    ((db.selling c.edition false).issueFromEditionInner ses secret now c)
  /-- A key of a snapshot sale gains nothing by what comes into the set. -/
  frozen : ∀ issued sold,
    (db.selling c.edition true).issueFromEditionInner ses secret now c = .ok (some issued, sold) →
      issued.created = true → ∀ ops, Sconce.entitledPackageBounds ses
          (Run.final GrowOp.run sold ops) issued.id
        = Sconce.entitledPackageBounds ses sold issued.id

/-- An inserted key was not stored before. -/
theorem notStored_of_insertLicenseKey {db db' : Catalog} {id : Uuid} {row : LicenseKey}
    (h : db.insertLicenseKey id row = .ok db') : db.licenseKeys.get? id = none := by
  unfold insertLicenseKey at h
  split_ifs at h with hfree
  rw [Bool.not_eq_true, List.any_eq_false] at hfree
  refine Option.eq_none_iff_forall_ne_some.2 fun l hl => ?_
  exact hfree (id, l) ((db.licenseKeys.mem_rows_iff id l).2 hl) (decide_eq_true (.inl rfl))

/-- A drawn key that is not taken, for an order that no key was issued for, is inserted. -/
theorem insertLicenseKey_of_fresh {db : Catalog} {ses : Session} {now : Timestamp} {c : IssueCall}
    {ed : Edition} (hfresh : ∀ id l, db.licenseKeys.get? id = some l → id ≠ c.minted.id ∧
      l.keyHash ≠ c.minted.hash)
    (hfirst : c.idempotencyKey.bind (db.licenseIdForIdempotency c.repo c.edition) = none) :
    ∃ db', db.insertLicenseKey c.minted.id (issuedRow ses now c ed) = .ok db' := by
  unfold insertLicenseKey
  rw [if_neg]
  · exact ⟨_, rfl⟩
  rw [List.any_eq_true]
  rintro ⟨⟨id, l⟩, hrow, hconflict⟩
  have hstored := hfresh id l ((db.licenseKeys.mem_rows_iff id l).1 hrow)
  rcases of_decide_eq_true hconflict with hid | hhash | ⟨hrepo, hedition, -, hidem, hsome⟩
  · exact hstored.1 hid.symm
  · exact hstored.2 hhash.symm
  · -- the order has its key already
    obtain ⟨idem, horder⟩ := Option.isSome_iff_exists.1 hsome
    have horder' : c.idempotencyKey = some idem := horder
    rw [horder', Option.bind_some] at hfirst
    unfold licenseIdForIdempotency at hfirst
    rw [Option.map_eq_none_iff, List.find?_eq_none] at hfirst
    refine hfirst (id, l) hrow (decide_eq_true ⟨?_, ?_, ?_⟩)
    · exact hrepo.symm
    · exact hedition.symm
    · exact hidem.symm.trans horder

end Catalog

/-! ## A shop that lists one edition -/

namespace SetShop

/-- A repository with `acme/core`. -/
def stocked : Catalog :=
  { Catalog.empty with
    organizations := Table.empty.insertNew 1 { slug := "acme" }
    repositories := Table.empty.insertNew 1 ⟨1, "main", .auto, 0, true, false, none, none, none⟩
    packages := Table.empty.insertNew 1 (Shop.package "acme/core") }

/-- The set of the edition. -/
def collected : Catalog := SellerOp.run .utc none stocked (.createPackageSet 1 1 "core")

/-- With `acme/core` in it. -/
def filled : Catalog := (exec (addSetMember 1 1) collected).2

/-- A year of updates of the set. -/
def listed : Catalog :=
  SellerOp.run .utc none filled (.createEdition
    { repo := 1, name := "Core annual", slug := none, set := 1, bound := .time 12, snapshot := true
      policy := ⟨none, none⟩, id := 1, bound_valid := Shop.annual_valid })

/-- An order of an account key. -/
def order : IssueCall where
  repo := 1
  edition := 1
  buyer := some "buyer"
  idempotencyKey := some "order-1"
  boundOnEdge := true
  minted := { id := 1, key := "sclk_1", hash := ⟨Vector.replicate 32 1⟩, ciphertext := none }

/-- The listed shop is reached from the empty catalog. -/
theorem reachable_listed : Catalog.Reachable .utc none listed := by
  have hstocked : Catalog.Reachable .utc none stocked :=
    .elsewhere .empty ⟨rfl, rfl, rfl, rfl, rfl⟩
  have hcollected : Catalog.Reachable .utc none collected := hstocked.sale _
  have hfilled : Catalog.Reachable .utc none filled :=
    .elsewhere hcollected ⟨rfl, rfl, rfl, rfl, rfl⟩
  exact hfilled.sale _

end SetShop

end Sconce
