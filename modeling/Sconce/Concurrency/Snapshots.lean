/-
# The latest snapshot under races

An upload inserts its snapshot and moves the `latest` pointer to it in two statements, and
retention runs in between: two overlapping uploads can move the pointer backwards
(`Nightly.latest_goes_back`), and a prune can take the snapshot an upload is about to point at
(`Nightly.prune_fails_upload`).

When no prune does the latter, and an upload that leaves no other in progress is that of the
newest snapshot, the pointer is right whenever it is looked at in peace
(`latest_right_of_orderly`).
-/
import Sconce.Lib.Interleaving
import Sconce.Storage.Snapshots

namespace Sconce

open Interleaving Effect

/-! ## The programs -/

/-- How far a registration is: `inserted` when its snapshot is there and the pointer has yet
to move. -/
inductive Stage where
  | idle
  | storing
  | inserted (id : Uuid)
  deriving DecidableEq

/-- Where a call stands. -/
inductive SnapshotPc where
  | registering (sha : Sha256) (sizeBytes : ℤ)
  | stored (sha : Sha256) (sizeBytes : ℤ)
  | pointing (id : Uuid)
  | registered (answer : Except SqlError Uuid)
  | pruning (keep : ℤ)
  | pruned

/-- The catalog and the clock; how far each registration is, and the snapshots registered, the
first ones included. -/
structure SnapshotStore (ι : Type) where
  db : Catalog
  now : Timestamp
  stage : ι → Stage
  registered : List (Uuid × Snapshot)

/-- The repository, environment and profile of the calls. -/
structure Variant where
  repo : Uuid
  environment : String
  profile : String

namespace Variant

variable (v : Variant) (db : Catalog)

/-- What `latest` resolves to. -/
abbrev latest : Option (Uuid × Snapshot) := db.resolveLatest v.repo v.environment v.profile

/-- Where the pointer points. -/
abbrev pointer : Option Uuid := db.snapshotLatest.get? (v.repo, v.environment, v.profile)

/-- The catalog with the pointer at a snapshot. -/
abbrev pointed (id : Uuid) : Catalog :=
  { db with snapshotLatest :=
      db.snapshotLatest.upsert (v.repo, v.environment, v.profile) id fun _ => id }

end Variant

section Steps

variable {ι : Type} [DecidableEq ι]

/-- A registration goes on to a stage. -/
def SnapshotStore.goes (s : SnapshotStore ι) (i : ι) (db : Catalog) (stage : Stage) :
    SnapshotStore ι :=
  { s with db := db, stage := Function.update s.stage i stage }

/-- One statement of `register_snapshot` or `prune_snapshots`. -/
inductive SnapshotStep (v : Variant) : Act ι (SnapshotStore ι) SnapshotPc
  | upserted {i s sha sizeBytes db'}
      (h : exec (upsertBlob s.now sha sizeBytes : Effect Catalog SqlError Unit) s.db
        = (.ok (), db')) :
      SnapshotStep v i s (.registering sha sizeBytes) (s.goes i db' .storing)
        (.stored sha sizeBytes)
  /-- The database draws an id that is not in use. -/
  | created {i s sha sizeBytes newId answer db'} (hfresh : s.db.snapshots.get? newId = none)
      (h : exec (createSnapshot s.now newId v.repo v.environment v.profile sha sizeBytes none) s.db
        = (.ok answer, db')) :
      SnapshotStep v i s (.stored sha sizeBytes) (s.goes i db' (.inserted answer))
        (.pointing answer)
  | notCreated {i s sha sizeBytes newId e db'} (hfresh : s.db.snapshots.get? newId = none)
      (h : exec (createSnapshot s.now newId v.repo v.environment v.profile sha sizeBytes none) s.db
        = (.error e, db')) :
      SnapshotStep v i s (.stored sha sizeBytes) (s.goes i db' .idle) (.registered (.error e))
  | advanced {i s id row db'} (hrow : s.db.snapshots.get? id = some row)
      (h : exec (advanceLatest v.repo v.environment v.profile id) s.db = (.ok (), db')) :
      SnapshotStep v i s (.pointing id)
        { s.goes i db' .idle with registered := s.registered ++ [(id, row)] }
        (.registered (.ok id))
  | notAdvanced {i s id e db'}
      (h : exec (advanceLatest v.repo v.environment v.profile id) s.db = (.error e, db')) :
      SnapshotStep v i s (.pointing id) (s.goes i db' .idle) (.registered (.error e))
  | pruned {i s keep n db'}
      (h : exec (pruneSnapshots v.repo v.environment v.profile keep) s.db = (.ok n, db')) :
      SnapshotStep v i s (.pruning keep) { s with db := db' } .pruned
  | passes {i s p t} (h : s.now ≤ t) : SnapshotStep v i s p { s with now := t } p

/-! ## What is claimed, and when it holds -/

/-- No registration is in progress. -/
def SnapshotStore.quiet (s : SnapshotStore ι) : Prop := ∀ i, s.stage i = .idle

/-- The pointer resolves once something is registered, no registration has failed, and in peace
the pointer is at the newest snapshot registered. -/
structure LatestRight (v : Variant) (c : Config ι (SnapshotStore ι) SnapshotPc) : Prop where
  resolves : c.shared.registered ≠ [] → (v.latest c.shared.db).isSome
  succeeds : ∀ i e, c.pc i ≠ .registered (.error e)
  newest : c.shared.quiet → ∀ r ∈ c.shared.registered,
    ∃ r' ∈ c.shared.registered, v.latest c.shared.db = some r' ∧ r'.2.precedes r.2 = true

/-- What a step has to meet: a prune takes no snapshot whose registration has yet to move the
pointer, and the last registration in progress moves it to the newest snapshot. -/
def Orderly (v : Variant) (i : ι) (s : SnapshotStore ι) : SnapshotPc → SnapshotPc → Prop
  | .pruning keep, .pruned => ∀ j id, s.stage j = .inserted id →
      s.db.prunable v.repo v.environment v.profile keep id = false
  | .pointing id, .registered _ => (∀ j, j ≠ i → s.stage j = .idle) →
      ∀ row, s.db.snapshots.get? id = some row → ∀ r ∈ s.registered, row.precedes r.2 = true
  | _, _ => True

/-- The steps that meet it. -/
def OrderlyStep (v : Variant) : Act ι (SnapshotStore ι) SnapshotPc :=
  fun i s p s' p' => SnapshotStep v i s p s' p' ∧ Orderly v i s p p'

/-- A call that has not begun. -/
def SnapshotPc.fresh : SnapshotPc → Prop
  | .registering _ _ | .pruning _ => True
  | _ => False

/-- Any calls about to begin, in a repository whose pointer is right. -/
structure SnapshotsBegin (v : Variant) (c : Config ι (SnapshotStore ι) SnapshotPc) : Prop where
  repo : (c.shared.db.repositories.get? v.repo).isSome
  calls : ∀ i, (c.pc i).fresh
  quiet : c.shared.quiet
  pointer : ∀ id, v.pointer c.shared.db = some id →
    ∃ row, c.shared.db.snapshots.get? id = some row ∧ (id, row) ∈ c.shared.registered
  right : LatestRight v c

/-! ## The outline -/

/-- What every orderly step keeps. -/
structure SnapshotInv (v : Variant) (s : SnapshotStore ι) : Prop where
  repo : (s.db.repositories.get? v.repo).isSome
  points : ∀ id, v.pointer s.db = some id →
    ∃ row, s.db.snapshots.get? id = some row ∧ (id, row) ∈ s.registered
  isSet : s.registered ≠ [] → (v.pointer s.db).isSome
  held : ∀ i id, s.stage i = .inserted id → (s.db.snapshots.get? id).isSome
  newest : s.quiet → ∀ r ∈ s.registered,
    ∃ r' ∈ s.registered, v.latest s.db = some r' ∧ r'.2.precedes r.2 = true

/-- What holds of a call where it stands. -/
def SnapshotAt (i : ι) (s : SnapshotStore ι) : SnapshotPc → Prop
  | .stored sha _ => s.stage i = .storing ∧ s.db.HasBlob sha
  | .pointing id => s.stage i = .inserted id
  | .registered (.error _) => False
  | _ => s.stage i = .idle

variable {v : Variant} {i : ι} {s s' : SnapshotStore ι} {p p' : SnapshotPc}

theorem goes_stage_self (db : Catalog) (stage : Stage) : (s.goes i db stage).stage i = stage :=
  Function.update_self ..

theorem goes_stage_of_ne {j : ι} (hj : j ≠ i) (db : Catalog) (stage : Stage) :
    (s.goes i db stage).stage j = s.stage j := Function.update_of_ne hj _ _

/-- A registration that goes on ends the peace. -/
theorem not_quiet_goes (db : Catalog) {stage : Stage} (h : stage ≠ .idle) :
    ¬ (s.goes i db stage).quiet := fun hquiet => h ((goes_stage_self db stage).symm.trans (hquiet i))

theorem precedes_refl (a : Snapshot) : a.precedes a = true := by
  unfold Snapshot.precedes
  simp

/-- The pointer resolves where it points to a snapshot. -/
theorem latest_of_pointer {db : Catalog} {id : Uuid} {row : Snapshot}
    (hpointer : v.pointer db = some id) (hrow : db.snapshots.get? id = some row) :
    v.latest db = some (id, row) := by
  show (do
    let id ← v.pointer db
    let s ← db.snapshots.get? id
    return (id, s)) = some (id, row)
  rw [hpointer]
  show (db.snapshots.get? id >>= _) = _
  rw [hrow]
  rfl

/-- No statement of the two calls takes the row of a blob. -/
theorem hasBlob_after_upsert {db db' : Catalog} {now : Timestamp} {sha : Sha256} {sizeBytes : ℤ}
    (h : exec (upsertBlob now sha sizeBytes : Effect Catalog SqlError Unit) db = (.ok (), db'))
    {k : Sha256} (hk : k = sha ∨ db.HasBlob k) : db'.HasBlob k := by
  obtain rfl : _ = db' := congrArg Prod.snd h
  show ((db.blobs.upsert sha _ _).get? k).isSome
  rw [Table.get?_upsert]
  split_ifs with hsame
  · rfl
  · exact hk.resolve_left hsame

/-- A snapshot that is inserted takes no blob away. -/
theorem hasBlob_withSnapshot {db : Catalog} {id : Uuid} {row : Snapshot} {k : Sha256}
    (hk : db.HasBlob k) : (db.withSnapshot id row).HasBlob k := by
  unfold Catalog.HasBlob Catalog.withSnapshot
  rwa [hasBlob_refcountBump]

/-- Snapshots that are dropped take no blob away. -/
theorem hasBlob_dropSnapshots {db : Catalog} {gone : Uuid → Bool} {k : Sha256}
    (hk : db.HasBlob k) : (db.dropSnapshots gone).HasBlob k := by
  unfold Catalog.HasBlob Catalog.dropSnapshots releaseBlobs
  rwa [Table.get?_update, Option.isSome_map]

/-- Other calls keep their stage, and no blob goes. -/
theorem SnapshotStep.frame (h : SnapshotStep v i s p s' p') :
    (∀ j, j ≠ i → s'.stage j = s.stage j) ∧ ∀ sha, s.db.HasBlob sha → s'.db.HasBlob sha := by
  cases h with
  | upserted h =>
    exact ⟨fun j hj => Function.update_of_ne hj _ _, fun k hk => hasBlob_after_upsert h (.inr hk)⟩
  | created _ h =>
    refine ⟨fun j hj => Function.update_of_ne hj _ _, fun k hk => ?_⟩
    obtain ⟨-, -, -, -, rfl⟩ := createSnapshot_ok h
    exact hasBlob_withSnapshot hk
  | notCreated _ h =>
    refine ⟨fun j hj => Function.update_of_ne hj _ _, fun k hk => ?_⟩
    obtain ⟨-, rfl⟩ := createSnapshot_error h
    exact hk
  | advanced _ h =>
    refine ⟨fun j hj => Function.update_of_ne hj _ _, fun k hk => ?_⟩
    obtain ⟨-, rfl⟩ := advanceLatest_ok h
    exact hk
  | notAdvanced h =>
    refine ⟨fun j hj => Function.update_of_ne hj _ _, fun k hk => ?_⟩
    obtain ⟨-, rfl⟩ := advanceLatest_error h
    exact hk
  | pruned h =>
    obtain rfl := pruneSnapshots_ok h
    exact ⟨fun _ _ => rfl, fun k hk => hasBlob_dropSnapshots hk⟩
  | passes => exact ⟨fun _ _ => rfl, fun _ hk => hk⟩

/-- `create_snapshot` where the keys admit the row. -/
theorem SnapshotStep.creates {sha : Sha256} {sizeBytes : ℤ} (newId : Uuid)
    (hfresh : s.db.snapshots.get? newId = none) (hrepo : (s.db.repositories.get? v.repo).isSome)
    (hblob : s.db.HasBlob sha) :
    SnapshotStep v i s (.stored sha sizeBytes)
      (s.goes i (s.db.withSnapshot newId
        (s.db.snapshotRow v.repo v.environment v.profile s.now sha sizeBytes none))
        (.inserted newId)) (.pointing newId) := by
  refine .created hfresh ?_
  rcases createSnapshot_cases s.db v.repo v.environment v.profile s.now newId sha sizeBytes none
    with ⟨-, -, -, hrun⟩ | ⟨hno, -⟩
  · exact hrun
  · rw [hfresh] at hno
    rcases hno with hno | hno | hno
    · exact absurd hno nofun
    · rw [hno] at hrepo
      exact absurd hrepo nofun
    · exact absurd hblob hno

/-- `advance_latest` to a snapshot that is there. -/
theorem SnapshotStep.advances {id : Uuid} {row : Snapshot}
    (hrow : s.db.snapshots.get? id = some row) :
    SnapshotStep v i s (.pointing id) { s.goes i (v.pointed s.db id) .idle with
      registered := s.registered ++ [(id, row)] } (.registered (.ok id)) := by
  refine .advanced hrow ?_
  rcases advanceLatest_cases s.db v.repo v.environment v.profile id with ⟨-, hrun⟩ | ⟨hno, -⟩
  · exact hrun
  · exact absurd (hno.symm.trans hrow) nofun

/-! ## Each statement keeps the invariant -/

/-- A blob that is upserted moves no pointer. -/
theorem SnapshotInv.upserted (hinv : SnapshotInv v s) {sha : Sha256} {sizeBytes : ℤ} {db' : Catalog}
    (h : exec (upsertBlob s.now sha sizeBytes : Effect Catalog SqlError Unit) s.db
      = (.ok (), db')) : SnapshotInv v (s.goes i db' .storing) := by
  obtain rfl : _ = db' := congrArg Prod.snd h
  refine ⟨hinv.repo, hinv.points, hinv.isSet, fun j id hj => ?_, fun hquiet => ?_⟩
  · by_cases hji : j = i
    · subst hji
      rw [goes_stage_self] at hj
      cases hj
    · rw [goes_stage_of_ne hji] at hj
      exact hinv.held j id hj
  · exact absurd hquiet (not_quiet_goes _ nofun)

/-- A snapshot that is inserted moves no pointer yet, and its agent is no longer quiet. -/
theorem SnapshotInv.created (hinv : SnapshotInv v s) {newId : Uuid} {row : Snapshot} :
    SnapshotInv v (s.goes i (s.db.withSnapshot newId row) (.inserted newId)) := by
  have hkept : ∀ {id : Uuid} {r : Snapshot}, s.db.snapshots.get? id = some r →
      (s.db.withSnapshot newId row).snapshots.get? id = some r :=
    fun hget => Table.get?_insertNew_of_some hget _ _
  refine ⟨hinv.repo, fun id hid => ?_, hinv.isSet, fun j id hj => ?_, fun hquiet => ?_⟩
  · obtain ⟨r, hget, hmem⟩ := hinv.points id hid
    exact ⟨r, hkept hget, hmem⟩
  · by_cases hji : j = i
    · subst hji
      rw [goes_stage_self] at hj
      obtain rfl := Stage.inserted.inj hj
      show ((s.db.snapshots.insertNew newId row).get? newId).isSome
      rw [Table.get?_insertNew_self]
      rfl
    · rw [goes_stage_of_ne hji] at hj
      obtain ⟨r, hr⟩ := Option.isSome_iff_exists.1 (hinv.held j id hj)
      exact Option.isSome_iff_exists.2 ⟨r, hkept hr⟩
  · exact absurd hquiet (not_quiet_goes _ nofun)

/-- A pointer moves to the newest snapshot there is. -/
theorem SnapshotInv.advanced (hinv : SnapshotInv v s) {id : Uuid} {row : Snapshot}
    (hrow : s.db.snapshots.get? id = some row)
    (hnewest : (∀ j, j ≠ i → s.stage j = .idle) → ∀ r ∈ s.registered, row.precedes r.2 = true) :
    SnapshotInv v { s.goes i (v.pointed s.db id) .idle with
      registered := s.registered ++ [(id, row)] } := by
  have hpointer : v.pointer (v.pointed s.db id) = some id := by
    show (s.db.snapshotLatest.upsert _ _ _).get? _ = some id
    rw [Table.get?_upsert, if_pos rfl]
    cases s.db.snapshotLatest.get? (v.repo, v.environment, v.profile) <;> rfl
  have hmem : (id, row) ∈ s.registered ++ [(id, row)] :=
    List.mem_append_right _ List.mem_cons_self
  refine ⟨hinv.repo, fun id' hid' => ?_, fun _ => ?_, fun j id' hj => ?_, fun hquiet r hr => ?_⟩
  · obtain rfl := Option.some.inj (hpointer.symm.trans hid')
    exact ⟨row, hrow, hmem⟩
  · exact Option.isSome_iff_exists.2 ⟨id, hpointer⟩
  · by_cases hji : j = i
    · subst hji
      have hidle : (s.goes j s.db .idle).stage j = .inserted id' := hj
      rw [goes_stage_self] at hidle
      cases hidle
    · have hother : (s.goes i s.db .idle).stage j = .inserted id' := hj
      rw [goes_stage_of_ne hji] at hother
      exact hinv.held j id' hother
  · refine ⟨(id, row), hmem, latest_of_pointer hpointer hrow, ?_⟩
    rcases List.mem_append.1 hr with hold | hnew
    · refine hnewest (fun j hj => ?_) r hold
      have hidle : (s.goes i s.db .idle).stage j = .idle := hquiet j
      rwa [goes_stage_of_ne hj] at hidle
    · rw [List.mem_singleton.1 hnew]
      exact precedes_refl row

omit [DecidableEq ι] in
/-- A prune leaves what the pointer and the registrations in progress need. -/
theorem SnapshotInv.pruned (hinv : SnapshotInv v s) {keep : ℤ}
    (hspared : ∀ j id, s.stage j = .inserted id →
      s.db.prunable v.repo v.environment v.profile keep id = false) :
    SnapshotInv v { s with
      db := s.db.dropSnapshots (s.db.prunable v.repo v.environment v.profile keep) } := by
  -- a snapshot that is not pruned stays
  have hkept : ∀ id, s.db.prunable v.repo v.environment v.profile keep id = false →
      (s.db.dropSnapshots (s.db.prunable v.repo v.environment v.profile keep)).snapshots.get? id
        = s.db.snapshots.get? id := by
    intro id hid
    unfold Catalog.dropSnapshots
    rw [Table.get?_delete, hid]
    cases s.db.snapshots.get? id <;> rfl
  -- the one the pointer is on is never pruned
  have hlatest : ∀ id, v.pointer s.db = some id →
      s.db.prunable v.repo v.environment v.profile keep id = false := by
    intro id hid
    have hsame : s.db.snapshotLatest.get? (v.repo, v.environment, v.profile) = some id := hid
    unfold Catalog.prunable
    simp [hsame]
  have hpointer : v.pointer (s.db.dropSnapshots
      (s.db.prunable v.repo v.environment v.profile keep)) = v.pointer s.db := by
    show (s.db.snapshotLatest.delete _).get? _ = s.db.snapshotLatest.get? _
    rw [Table.get?_delete]
    cases hid : s.db.snapshotLatest.get? (v.repo, v.environment, v.profile) with
    | none => rfl
    | some id => simp [hlatest id hid]
  refine ⟨hinv.repo, fun id hid => ?_, fun hne => ?_, fun j id hj => ?_, fun hquiet r hr => ?_⟩
  · have hid' : v.pointer s.db = some id := hpointer.symm.trans hid
    obtain ⟨row, hrow, hmem⟩ := hinv.points id hid'
    exact ⟨row, (hkept id (hlatest id hid')).trans hrow, hmem⟩
  · rw [hpointer]
    exact hinv.isSet hne
  · rw [hkept id (hspared j id hj)]
    exact hinv.held j id hj
  · obtain ⟨r', hr', hresolves, hprecedes⟩ := hinv.newest hquiet r hr
    refine ⟨r', hr', ?_, hprecedes⟩
    obtain ⟨id, hid, hrest⟩ := Option.bind_eq_some_iff.1 hresolves
    obtain ⟨row, hrow, hpair⟩ := Option.bind_eq_some_iff.1 hrest
    obtain rfl := Option.some.inj hpair
    exact latest_of_pointer (hpointer.trans hid) ((hkept id (hlatest id hid)).trans hrow)

/-! ## Every orderly run -/

omit [DecidableEq ι] in
/-- What a call holds of itself survives the steps of the others. -/
theorem SnapshotAt.frame {j : ι} (hat : SnapshotAt j s p) (hstage : s'.stage j = s.stage j)
    (hblobs : ∀ sha, s.db.HasBlob sha → s'.db.HasBlob sha) : SnapshotAt j s' p := by
  cases p with
  | stored sha sizeBytes => exact ⟨hstage.trans hat.1, hblobs sha hat.2⟩
  | registered answer =>
    cases answer with
    | ok id => exact hstage.trans hat
    | error e => exact hat.elim
  | registering sha sizeBytes => exact hstage.trans hat
  | pointing id => exact hstage.trans hat
  | pruning keep => exact hstage.trans hat
  | pruned => exact hstage.trans hat

/-- An orderly step keeps the invariant, and stands where it should. -/
theorem OrderlyStep.sound (h : OrderlyStep v i s p s' p') (hinv : SnapshotInv v s)
    (hat : SnapshotAt i s p) : SnapshotInv v s' ∧ SnapshotAt i s' p' := by
  obtain ⟨hstep, horderly⟩ := h
  cases hstep with
  | upserted h =>
    exact ⟨hinv.upserted h, goes_stage_self _ _, hasBlob_after_upsert h (.inl rfl)⟩
  | created _ h =>
    obtain ⟨-, -, rfl, -, rfl⟩ := createSnapshot_ok h
    exact ⟨hinv.created, goes_stage_self _ _⟩
  | notCreated hfresh h =>
    -- neither the repository nor the blob goes
    rcases (createSnapshot_error h).1 with hused | hrepo | hblob
    · rw [hfresh] at hused
      exact absurd hused nofun
    · exact absurd hinv.repo (by simp [hrepo])
    · exact absurd hat.2 hblob
  | advanced hrow h =>
    obtain ⟨-, rfl⟩ := advanceLatest_ok h
    exact ⟨hinv.advanced hrow fun hlast => horderly hlast _ hrow, Function.update_self ..⟩
  | notAdvanced h =>
    -- no prune has taken the snapshot
    have hheld := hinv.held _ _ hat
    rw [(advanceLatest_error h).1] at hheld
    exact absurd hheld nofun
  | pruned h =>
    obtain rfl := pruneSnapshots_ok h
    exact ⟨hinv.pruned horderly, hat⟩
  | passes =>
    exact ⟨⟨hinv.repo, hinv.points, hinv.isSet, hinv.held, hinv.newest⟩,
      hat.frame rfl fun _ => id⟩

/-- The annotation is an outline of the orderly steps. -/
theorem latest_outline (v : Variant) :
    Outline (OrderlyStep (ι := ι) v) (SnapshotInv v) SnapshotAt fun _ _ _ _ => True where
  symm := id
  sound := OrderlyStep.sound
  free := fun hij hstep _ _ hj _ =>
    have hframe := hstep.1.frame
    hj.frame (hframe.1 _ (Ne.symm hij)) hframe.2
  keeps := fun _ _ _ _ _ _ => trivial

omit [DecidableEq ι] in
/-- The annotation holds at the beginning. -/
theorem SnapshotsBegin.annotated {c : Config ι (SnapshotStore ι) SnapshotPc}
    (h : SnapshotsBegin v c) : Annotated (SnapshotInv v) SnapshotAt (fun _ _ _ _ => True) c where
  inv :=
    { repo := h.repo
      points := h.pointer
      isSet := fun hne => by
        obtain ⟨r, hr⟩ := Option.isSome_iff_exists.1 (h.right.resolves hne)
        obtain ⟨id, hid, -⟩ := Option.bind_eq_some_iff.1 hr
        exact Option.isSome_iff_exists.2 ⟨id, hid⟩
      held := fun i id hi => absurd ((h.quiet i).symm.trans hi) nofun
      newest := h.right.newest }
  at_ := fun i => by
    have hfresh := h.calls i
    cases hpc : c.pc i <;> rw [hpc] at hfresh
    case registering => exact h.quiet i
    case pruning => exact h.quiet i
    all_goals exact hfresh.elim
  apart := fun _ _ _ => trivial

/-- **The latest snapshot under races.**  However registrations and prunes interleave, as long as
no prune takes a snapshot that is about to become the latest, and the last registration in
progress is that of the newest snapshot: the pointer resolves once it is set, no registration
fails, and in peace the pointer is at the newest snapshot. -/
theorem latest_right_of_orderly {v : Variant} {c₀ c : Config ι (SnapshotStore ι) SnapshotPc}
    (hbegin : SnapshotsBegin v c₀) {events : List (Event ι (SnapshotStore ι))}
    (hrun : Execution (OrderlyStep v) c₀ events c) : LatestRight v c := by
  have hall := (latest_outline v).holds hbegin.annotated hrun
  refine ⟨fun hne => ?_, fun i e hpc => ?_, hall.inv.newest⟩
  · obtain ⟨id, hid⟩ := Option.isSome_iff_exists.1 (hall.inv.isSet hne)
    obtain ⟨row, hrow, -⟩ := hall.inv.points id hid
    rw [latest_of_pointer hid hrow]
    rfl
  · have hat := hall.at_ i
    rw [hpc] at hat
    exact hat

end Steps

namespace Nightly

/-- The full dumps of a shop's production database. -/
def variant : Variant := ⟨1, "production", "full"⟩

def shop : Repository where
  orgId := 1
  slug := "shop"
  updateMode := .auto
  cooldownDays := 0

/-- Nothing is registered. -/
def blank : SnapshotStore Bool where
  db := { Catalog.empty with repositories := Table.empty.insertNew 1 shop }
  now := 0
  stage := fun _ => .idle
  registered := []

/-- The digest of a dump. -/
def digest (n : UInt8) : Sha256 := ⟨Vector.replicate 32 n⟩

/-- Two calls about to begin. -/
def begun (pc : Bool → SnapshotPc) : Config Bool (SnapshotStore Bool) SnapshotPc := ⟨blank, pc⟩

/-- The example begins with nobody at work. -/
theorem begun_begin {pc : Bool → SnapshotPc} (hpc : ∀ i, (pc i).fresh) :
    SnapshotsBegin variant (begun pc) where
  repo := rfl
  calls := hpc
  quiet := fun _ => rfl
  pointer := fun _ h => absurd h nofun
  right :=
    { resolves := fun h => absurd rfl h
      succeeds := fun i e h => by
        have hfresh := hpc i
        rw [show pc i = _ from h] at hfresh
        exact hfresh
      newest := fun _ _ hr => absurd hr List.not_mem_nil }

/-- Two uploads. -/
def uploads (i : Bool) : SnapshotPc := .registering (digest (if i then 1 else 2)) 10

/-- Two uploads overlap: the second snapshot is registered first, and the pointer then goes back
to the first one. -/
theorem latest_goes_back : ¬ ∀ {events : List (Event Bool (SnapshotStore Bool))}
    {c₀ c : Config Bool (SnapshotStore Bool) SnapshotPc}, SnapshotsBegin variant c₀ →
    Execution (SnapshotStep variant) c₀ events c → LatestRight variant c := by
  intro hclaim
  have hbegin : SnapshotsBegin variant (begun uploads) := begun_begin fun _ => trivial
  have h₀ : Execution (SnapshotStep variant) (begun uploads) [] _ := .start
  have h₁ := h₀.step (i := true) (.upserted rfl)
  have h₂ := h₁.step (i := true) (SnapshotStep.creates 1 rfl rfl rfl)
  have h₃ := h₂.step (i := false) (.upserted rfl)
  have h₄ := h₃.step (i := false) (SnapshotStep.creates 2 rfl rfl rfl)
  have h₅ := h₄.step (i := false) (SnapshotStep.advances rfl)
  have h₆ := h₅.step (i := true) (SnapshotStep.advances rfl)
  obtain ⟨r, -, hlatest, hprecedes⟩ := (hclaim hbegin h₆).newest
    (fun i => by cases i <;> rfl) _ List.mem_cons_self
  obtain rfl := Option.some.inj (hlatest.symm.trans rfl)
  exact absurd hprecedes (by decide)

/-- An upload, and a prune that keeps nothing but the latest. -/
def uploadAndPrune (i : Bool) : SnapshotPc :=
  if i then .registering (digest 1) 10 else .pruning 0

/-- The snapshot of an upload is pruned before the pointer is at it, and the upload fails. -/
theorem prune_fails_upload : ∃ events,
    ∃ c : Config Bool (SnapshotStore Bool) SnapshotPc,
      Execution (SnapshotStep variant) (begun uploadAndPrune) events c ∧
        c.pc true = .registered (.error .foreignKeyViolation) := by
  have h₀ : Execution (SnapshotStep variant) (begun uploadAndPrune) [] _ := .start
  have h₁ := h₀.step (i := true) (.upserted rfl)
  have h₂ := h₁.step (i := true) (SnapshotStep.creates 1 rfl rfl rfl)
  have h₃ := h₂.step (i := false) (.pruned rfl)
  have h₄ := h₃.step (i := true) (.notAdvanced rfl)
  exact ⟨_, _, h₄, rfl⟩

/-- An upload that is pruned after. -/
theorem latest_right_of_orderly_prune : ∃ c : Config Bool (SnapshotStore Bool) SnapshotPc,
    c.pc true = .registered (.ok 1) ∧ c.pc false = .pruned ∧ LatestRight variant c := by
  have h₀ : Execution (OrderlyStep variant) (begun uploadAndPrune) [] _ := .start
  have h₁ := h₀.step (i := true) ⟨.upserted rfl, trivial⟩
  have h₂ := h₁.step (i := true) ⟨SnapshotStep.creates 1 rfl rfl rfl, trivial⟩
  have h₃ := h₂.step (i := true)
    ⟨SnapshotStep.advances rfl, fun _ _ _ _ hr => absurd hr List.not_mem_nil⟩
  have h₄ := h₃.step (i := false) ⟨.pruned rfl, fun j id hj => by cases j <;> exact absurd hj nofun⟩
  refine ⟨_, rfl, rfl, latest_right_of_orderly (begun_begin fun i => ?_) h₄⟩
  cases i <;> trivial

end Nightly

end Sconce
