/-
# Garbage collection under races

`gc` sweeps and the writers of blobs with every store operation and every statement a
step of its own, and time passing in between.  A sweep deletes the row of an orphan
before its object; a writer puts the object before the row, and a put is nothing where
the object is there.

The row's guard does not cover the object: a writer that puts after the row is gone and
before the object is, references bytes the sweep then deletes (`Dumps.gc_loses_dump`).
As long as every object a sweep deletes has no row, and no writer between its put and
its row, the objects of all referenced blobs are there (`gc_keeps_referenced`).
-/
import Sconce.Lib.Interleaving
import Sconce.Storage.Blobs

namespace Sconce

open Interleaving Effect

/-! ## The programs -/

/-- The row a writer inserts to reference its blob. -/
inductive Reference where
  /-- `insert_pushed_version`, `insert_mirrored_version`. -/
  | once (key : VersionKey) (row : PackageVersion)
  /-- `upsert_package_version`. -/
  | overwrite (key : VersionKey) (row : PackageVersion)
  | snapshot (newId repo : Uuid) (environment profile : String)
  /-- A staged part of an upload references nothing. -/
  | staged (session : Uuid) (partNumber : ℤ)

/-- One blob a publisher, a snapshot upload or a mirror job stores. -/
structure StoredBlob where
  bytes : List UInt8
  reference : Reference

/-- `record_upload_part`. -/
def recordUploadPart (session : Uuid) (partNumber : ℤ) (chunkSha256 : Sha256) (sizeBytes : ℤ) :
    Effect Catalog SqlError Unit := do
  let db ← get
  if (db.uploadSessions.get? session).isNone then throw .foreignKeyViolation
  modify fun db => { db with
    uploadParts := db.uploadParts.upsert (session, partNumber) ⟨chunkSha256, sizeBytes⟩
      fun _ => ⟨chunkSha256, sizeBytes⟩ }

/-- The statement that references the stored blob. -/
def Reference.insert (r : Reference) (now : Timestamp) (sha : Sha256) (sizeBytes : ℤ) :
    Effect Catalog SqlError Unit :=
  match r with
  | .once key row => do let _ ← insertVersionOnce key { row with distBlobSha256 := some sha }
  | .overwrite key row => upsertPackageVersion key { row with distBlobSha256 := some sha }
  | .snapshot newId repo environment profile => do
    let _ ← createSnapshot now newId repo environment profile sha sizeBytes none
  | .staged session partNumber => recordUploadPart session partNumber sha sizeBytes

/-- What runs against the store. -/
inductive GcTask where
  | sweep (grace : ℤ) (dryRun : Bool)
  | writer (blobs : List StoredBlob)

/-- Where a task stands. -/
inductive GcPc where
  | scanning (grace : ℤ) (dryRun : Bool)
  | collecting (grace : ℤ) (todo : List Sha256)
  | deleting (grace : ℤ) (sha : Sha256) (todo : List Sha256)
  | putting (todo : List StoredBlob)
  | upserting (blob : StoredBlob) (todo : List StoredBlob)
  | preparing (blob : StoredBlob) (todo : List StoredBlob)
  | inserting (blob : StoredBlob) (todo : List StoredBlob)
  | stopped

def GcTask.start : GcTask → GcPc
  | .sweep grace dryRun => .scanning grace dryRun
  | .writer blobs => .putting blobs

/-- The catalog, the objects and the clock; `unseen` is the digest a writer has put and
whose row it has not upserted since. -/
structure GcStore (ι : Type) where
  db : Catalog
  objects : ObjectStore
  now : Timestamp
  unseen : ι → Option Sha256

/-- The size a blob is recorded with. -/
def StoredBlob.size (blob : StoredBlob) : ℤ := blob.bytes.length

section Steps

variable {ι : Type} [DecidableEq ι]

/-- One operation of a task; `sha256` is the digest of bytes. -/
inductive GcStep (sha256 : List UInt8 → Sha256) : Act ι (GcStore ι) GcPc
  | scanned {i s grace} :
      GcStep sha256 i s (.scanning grace false) s
        (.collecting grace (s.db.orphanBlobs s.now grace))
  | dryRun {i s grace} : GcStep sha256 i s (.scanning grace true) s .stopped
  | rowDeleted {i s grace sha todo db'}
      (h : exec (deleteBlobIfOrphan s.now grace sha) s.db = (.ok true, db')) :
      GcStep sha256 i s (.collecting grace (sha :: todo)) { s with db := db' }
        (.deleting grace sha todo)
  | skipped {i s grace sha todo db'}
      (h : exec (deleteBlobIfOrphan s.now grace sha) s.db = (.ok false, db')) :
      GcStep sha256 i s (.collecting grace (sha :: todo)) { s with db := db' }
        (.collecting grace todo)
  | failed {i s grace sha todo e db'}
      (h : exec (deleteBlobIfOrphan s.now grace sha) s.db = (.error e, db')) :
      GcStep sha256 i s (.collecting grace (sha :: todo)) { s with db := db' } .stopped
  | objectDeleted {i s grace sha todo} :
      GcStep sha256 i s (.deleting grace sha todo) { s with objects := s.objects.remove sha }
        (.collecting grace todo)
  /-- The store fails: the error is logged and the sweep goes on. -/
  | objectLeaked {i s grace sha todo} :
      GcStep sha256 i s (.deleting grace sha todo) s (.collecting grace todo)
  | put {i s blob todo} :
      GcStep sha256 i s (.putting (blob :: todo))
        { s with
          objects := s.objects.put (sha256 blob.bytes) blob.bytes
          unseen := Function.update s.unseen i (some (sha256 blob.bytes)) }
        (.upserting blob todo)
  | upserted {i s blob todo db'}
      (h : exec (upsertBlob s.now (sha256 blob.bytes) blob.size : Effect Catalog SqlError Unit) s.db
        = (.ok (), db')) :
      GcStep sha256 i s (.upserting blob todo)
        { s with db := db', unseen := Function.update s.unseen i none } (.preparing blob todo)
  /-- What a writer does before the reference writes packages, and nothing else that is
  read here. -/
  | prepared {i s blob todo packages} :
      GcStep sha256 i s (.preparing blob todo) { s with db := { s.db with packages := packages } }
        (.inserting blob todo)
  | inserted {i s blob todo db'}
      (h : exec (blob.reference.insert s.now (sha256 blob.bytes) blob.size) s.db = (.ok (), db')) :
      GcStep sha256 i s (.inserting blob todo) { s with db := db' } (.putting todo)
  | rejected {i s blob todo e db'}
      (h : exec (blob.reference.insert s.now (sha256 blob.bytes) blob.size) s.db
        = (.error e, db')) :
      GcStep sha256 i s (.inserting blob todo) { s with db := db' } .stopped
  | crashed {i s p} :
      GcStep sha256 i s p { s with unseen := Function.update s.unseen i none } .stopped
  | passes {i s p t} (h : s.now ≤ t) : GcStep sha256 i s p { s with now := t } p

/-- Every task about to start. -/
def collectionFrom (tasks : ι → GcTask) (db : Catalog) (objects : ObjectStore) (now : Timestamp) :
    Config ι (GcStore ι) GcPc :=
  ⟨⟨db, objects, now, fun _ => none⟩, fun i => (tasks i).start⟩

end Steps

/-! ## Referenced bytes are there -/

/-- The objects of all referenced blobs are there. -/
def BytesKept (db : Catalog) (objects : ObjectStore) : Prop :=
  ∀ sha, db.References sha → objects.holds sha

/-- The event deletes no object that has a row, or that a writer has put and is about to
give one. -/
def CleanDelete {ι : Type} (e : Event ι (GcStore ι)) : Prop :=
  ∀ sha, e.before.objects.holds sha → ¬ e.after.objects.holds sha →
    ¬ e.before.db.HasBlob sha ∧ ∀ j, e.before.unseen j ≠ some sha

/-- A step that takes no object is clean. -/
theorem cleanDelete_of_holds {ι : Type} {e : Event ι (GcStore ι)}
    (h : ∀ sha, e.before.objects.holds sha → e.after.objects.holds sha) : CleanDelete e :=
  fun sha hbefore hafter => absurd (h sha hbefore) hafter

/-- A step whose delete is clean. -/
def CleanStep {ι : Type} [DecidableEq ι] (sha256 : List UInt8 → Sha256) :
    Act ι (GcStore ι) GcPc :=
  fun i s p s' p' => GcStep sha256 i s p s' p' ∧ CleanDelete ⟨i, s, s'⟩

/-- A statement run for its effect alone. -/
theorem exec_discard {σ ε α : Type} (m : Effect σ ε α) (s : σ) :
    (exec (do let _ ← m : Effect σ ε Unit) s).2 = (exec m s).2 := by
  rw [exec_bind]
  unfold andThen
  cases (exec m s).1 <;> rfl

/-- The row a writer inserts references its blob. -/
theorem Reference.insert_addsReference (r : Reference) (now : Timestamp) (sha : Sha256)
    (sizeBytes : ℤ) (db : Catalog) :
    db.AddsReference sha (exec (r.insert now sha sizeBytes) db).2 := by
  unfold Reference.insert
  cases r with
  | once key row =>
    rw [exec_discard]
    exact insertVersionOnce_addsReference key _ sha rfl db
  | overwrite key row => exact upsertPackageVersion_addsReference key _ sha rfl db
  | snapshot newId repo environment profile =>
    rw [exec_discard]
    exact createSnapshot_addsReference now newId repo environment profile sha sizeBytes none db
  | staged session partNumber =>
    unfold recordUploadPart
    simp only [exec_bind, exec_get, andThen]
    by_cases hsession : (db.uploadSessions.get? session).isNone = true
    · rw [if_pos hsession]
      exact .refl sha db
    · rw [if_neg hsession]
      exact ⟨fun _ => Iff.rfl, fun _ h => Or.inl h⟩

/-- After `upsert_blob` the blob has its row; no other row comes or goes. -/
theorem hasBlob_upsertBlob {now : Timestamp} {sha : Sha256} {sizeBytes : ℤ} {db db' : Catalog}
    (h : exec (upsertBlob now sha sizeBytes : Effect Catalog SqlError Unit) db = (.ok (), db'))
    (k : Sha256) : db'.HasBlob k ↔ k = sha ∨ db.HasBlob k := by
  obtain rfl := (Prod.mk.inj h).2
  unfold Catalog.HasBlob
  show ((db.blobs.upsert sha _ _).get? k).isSome = true ↔ _
  rw [Table.get?_upsert]
  split_ifs with hk
  · exact ⟨fun _ => Or.inl hk, fun _ => rfl⟩
  · exact ⟨Or.inr, fun h => h.resolve_left hk⟩

theorem references_upsertBlob {now : Timestamp} {sha : Sha256} {sizeBytes : ℤ} {db db' : Catalog}
    (h : exec (upsertBlob now sha sizeBytes : Effect Catalog SqlError Unit) db = (.ok (), db'))
    (k : Sha256) : db'.References k ↔ db.References k := by
  obtain rfl := (Prod.mk.inj h).2
  exact Iff.rfl

section Outline

variable {ι : Type} {sha256 : List UInt8 → Sha256} {i : ι} {s s' : GcStore ι} {p p' : GcPc}

/-- The invariant: the foreign keys hold, referenced bytes are there, and so are the
bytes a writer has put and not yet given a row. -/
structure GcInv (s : GcStore ι) : Prop where
  rows : s.db.BlobsReferenced
  kept : BytesKept s.db s.objects
  unseen : ∀ j sha, s.unseen j = some sha → s.objects.holds sha

/-- If the blob has its row, it has its object. -/
def GcStore.RowBacked (s : GcStore ι) (sha : Sha256) : Prop :=
  s.db.HasBlob sha → s.objects.holds sha

/-- What holds where a task stands. -/
def GcAt (sha256 : List UInt8 → Sha256) (i : ι) (s : GcStore ι) : GcPc → Prop
  | .upserting blob _ => s.unseen i = some (sha256 blob.bytes)
  | .preparing blob _ => s.RowBacked (sha256 blob.bytes)
  | .inserting blob _ => s.RowBacked (sha256 blob.bytes)
  | _ => True

variable [DecidableEq ι]

/-- A step keeps the foreign keys: a row goes only where nothing references it, a
reference comes only where the row is. -/
theorem GcStep.rows (h : GcStep sha256 i s p s' p') (hinv : GcInv s) : s'.db.BlobsReferenced := by
  have hadds : ∀ {db' sha}, s.db.AddsReference sha db' → db'.BlobsReferenced := by
    intro db' sha hadds k hk
    rcases hadds.references k hk with hold | ⟨rfl, hblob⟩
    · exact (hadds.blobs k).2 (hinv.rows k hold)
    · exact (hadds.blobs k).2 hblob
  have hcollects : ∀ {db'}, s.db.Collects db' → db'.BlobsReferenced := by
    intro db' hcollects k hk
    have hold := (hcollects.references k).1 hk
    exact hcollects.kept k (hinv.rows k hold) hold
  cases h with
  | rowDeleted hexec => exact hcollects (deleteBlobIfOrphan_collects hexec)
  | skipped hexec => exact hcollects (deleteBlobIfOrphan_collects hexec)
  | failed hexec => exact hcollects (deleteBlobIfOrphan_collects hexec)
  | upserted hexec =>
    intro k hk
    exact (hasBlob_upsertBlob hexec k).2
      (Or.inr (hinv.rows k ((references_upsertBlob hexec k).1 hk)))
  | @inserted _ _ blob _ _ hexec =>
    have hinsert := blob.reference.insert_addsReference s.now (sha256 blob.bytes) blob.size s.db
    rw [hexec] at hinsert
    exact hadds hinsert
  | @rejected _ _ blob _ _ _ hexec =>
    have hinsert := blob.reference.insert_addsReference s.now (sha256 blob.bytes) blob.size s.db
    rw [hexec] at hinsert
    exact hadds hinsert
  | _ => exact hinv.rows

/-- A clean step leaves a blob that was backed backed. -/
theorem GcStep.backed (h : GcStep sha256 i s p s' p') (hinv : GcInv s) (hat : GcAt sha256 i s p)
    (hclean : CleanDelete ⟨i, s, s'⟩) {k : Sha256} (hk : s.RowBacked k) : s'.RowBacked k := by
  intro hrow
  cases h with
  | rowDeleted hexec => exact hk ((deleteBlobIfOrphan_collects hexec).blobs k hrow)
  | skipped hexec => exact hk ((deleteBlobIfOrphan_collects hexec).blobs k hrow)
  | failed hexec => exact hk ((deleteBlobIfOrphan_collects hexec).blobs k hrow)
  | objectDeleted =>
    by_contra hgone
    exact (hclean k (hk hrow) hgone).1 hrow
  | put => exact ObjectStore.holds_put_of_holds (hk hrow) _ _
  | upserted hexec =>
    rcases (hasBlob_upsertBlob hexec k).1 hrow with rfl | hrow
    · -- the new row's object was put by this writer, and is still there
      exact hinv.unseen i _ hat
    · exact hk hrow
  | @inserted _ _ blob _ _ hexec =>
    have hinsert := blob.reference.insert_addsReference s.now (sha256 blob.bytes) blob.size s.db
    rw [hexec] at hinsert
    exact hk ((hinsert.blobs k).1 hrow)
  | @rejected _ _ blob _ _ _ hexec =>
    have hinsert := blob.reference.insert_addsReference s.now (sha256 blob.bytes) blob.size s.db
    rw [hexec] at hinsert
    exact hk ((hinsert.blobs k).1 hrow)
  | _ => exact hk hrow

/-- What a step leaves referenced was referenced before, or is backed. -/
theorem GcStep.references (h : GcStep sha256 i s p s' p') (hat : GcAt sha256 i s p) {k : Sha256}
    (hk : s'.db.References k) : s.db.References k ∨ s.RowBacked k := by
  have hadds : ∀ {db' sha}, s.db.AddsReference sha db' → s.RowBacked sha → db'.References k →
      s.db.References k ∨ s.RowBacked k := by
    intro db' sha hadds hbacked href
    rcases hadds.references k href with hold | ⟨rfl, -⟩
    · exact Or.inl hold
    · exact Or.inr hbacked
  cases h with
  | rowDeleted hexec => exact Or.inl (((deleteBlobIfOrphan_collects hexec).references k).1 hk)
  | skipped hexec => exact Or.inl (((deleteBlobIfOrphan_collects hexec).references k).1 hk)
  | failed hexec => exact Or.inl (((deleteBlobIfOrphan_collects hexec).references k).1 hk)
  | upserted hexec => exact Or.inl ((references_upsertBlob hexec k).1 hk)
  | @inserted _ _ blob _ _ hexec =>
    have hinsert := blob.reference.insert_addsReference s.now (sha256 blob.bytes) blob.size s.db
    rw [hexec] at hinsert
    exact hadds hinsert hat hk
  | @rejected _ _ blob _ _ _ hexec =>
    have hinsert := blob.reference.insert_addsReference s.now (sha256 blob.bytes) blob.size s.db
    rw [hexec] at hinsert
    exact hadds hinsert hat hk
  | _ => exact Or.inl hk

/-- A clean step leaves the objects of unseen blobs. -/
theorem GcStep.unseen (h : GcStep sha256 i s p s' p') (hinv : GcInv s)
    (hclean : CleanDelete ⟨i, s, s'⟩) (j : ι) (k : Sha256) (hj : s'.unseen j = some k) :
    s'.objects.holds k := by
  have hcleared : Function.update s.unseen i none j = some k → s.unseen j = some k := by
    intro hupdate
    by_cases hji : j = i
    · subst hji
      rw [Function.update_self] at hupdate
      exact absurd hupdate nofun
    · rwa [Function.update_of_ne hji] at hupdate
  cases h with
  | objectDeleted =>
    by_contra hgone
    exact (hclean k (hinv.unseen j k hj) hgone).2 j hj
  | @put _ _ blob todo =>
    change Function.update s.unseen i _ j = some k at hj
    by_cases hji : j = i
    · subst hji
      rw [Function.update_self] at hj
      obtain rfl := Option.some.inj hj
      exact ObjectStore.holds_put _ _ _
    · rw [Function.update_of_ne hji] at hj
      exact ObjectStore.holds_put_of_holds (hinv.unseen j k hj) _ _
  | upserted => exact hinv.unseen j k (hcleared hj)
  | crashed => exact hinv.unseen j k (hcleared hj)
  | _ => exact hinv.unseen j k hj

/-- A step leaves the unseen digests of the other tasks alone. -/
theorem GcStep.others (h : GcStep sha256 i s p s' p') {j : ι} (hij : i ≠ j) :
    s'.unseen j = s.unseen j := by
  cases h with
  | put | upserted | crashed => exact Function.update_of_ne (Ne.symm hij) _ s.unseen
  | _ => rfl

/-- The outline of clean collection. -/
theorem gc_outline (sha256 : List UInt8 → Sha256) :
    Outline (CleanStep sha256) GcInv (GcAt (ι := ι) sha256) fun _ _ _ _ => True where
  symm := fun _ => trivial
  sound := by
    rintro i s p s' p' ⟨hact, hclean⟩ hinv hat
    have hrows := hact.rows hinv
    refine ⟨⟨hrows, ?_, hact.unseen hinv hclean⟩, ?_⟩
    · intro k hk
      rcases hact.references hat hk with hold | hbacked
      · exact hact.backed hinv hat hclean (fun _ => hinv.kept k hold) (hrows k hk)
      · exact hact.backed hinv hat hclean hbacked (hrows k hk)
    · cases hact with
      | put => exact Function.update_self i _ s.unseen
      | upserted hexec =>
        have hput := hinv.unseen i _ hat
        exact fun _ => hput
      | prepared => exact hat
      | passes => cases p <;> exact hat
      | @scanned => trivial
      | _ => trivial
  free := by
    rintro i j s p s' p' q hij ⟨hact, hclean⟩ hinv hat hj -
    cases q with
    | upserting blob todo =>
      show s'.unseen j = _
      rw [hact.others hij]
      exact hj
    | preparing blob todo => exact hact.backed hinv hat hclean hj
    | inserting blob todo => exact hact.backed hinv hat hclean hj
    | _ => trivial
  keeps := fun _ _ _ _ _ _ => trivial

end Outline

/-- **Clean collection keeps referenced bytes.**  In every run of sweeps and writers,
whatever their interleaving, in which no object is deleted that has a row or that a
writer has put and is about to give one, the objects of all referenced blobs are there
in every state reached. -/
theorem gc_keeps_referenced {ι : Type} [DecidableEq ι] (sha256 : List UInt8 → Sha256)
    (tasks : ι → GcTask) {db : Catalog} {objects : ObjectStore} {now : Timestamp}
    (hrows : db.BlobsReferenced) (hkept : BytesKept db objects)
    {events : List (Event ι (GcStore ι))} {c : Config ι (GcStore ι) GcPc}
    (hrun : Execution (GcStep sha256) (collectionFrom tasks db objects now) events c)
    (hclean : ∀ e ∈ events, CleanDelete e) : BytesKept c.shared.db c.shared.objects := by
  have hinit : Annotated GcInv (GcAt sha256) (fun _ _ _ _ => True)
      (collectionFrom tasks db objects now) := by
    refine ⟨⟨hrows, hkept, fun _ _ h => absurd h nofun⟩, fun i => ?_, fun _ _ _ => trivial⟩
    show GcAt sha256 i _ (tasks i).start
    cases tasks i <;> trivial
  exact ((gc_outline sha256).holds hinit (hrun.restrict hclean)).inv.kept

/-! ## The race -/

section Solo

variable {ι : Type} [DecidableEq ι] {sha256 : List UInt8 → Sha256} {i : ι} {s : GcStore ι}
  {db₁ db₂ : Catalog}

/-- A writer on its own stores and references its blob. -/
theorem alone_writes {blob : StoredBlob} {todo : List StoredBlob}
    (hupsert : exec (upsertBlob s.now (sha256 blob.bytes) blob.size : Effect Catalog SqlError Unit)
      s.db = (.ok (), db₁))
    (hinsert : exec (blob.reference.insert s.now (sha256 blob.bytes) blob.size) db₁
      = (.ok (), db₂)) :
    ∃ unseen, (∀ j, s.unseen j = none → unseen j = none) ∧
      Alone (CleanStep sha256) i (s, .putting (blob :: todo))
        (⟨db₂, s.objects.put (sha256 blob.bytes) blob.bytes, s.now, unseen⟩, .putting todo) := by
  have hrefl : Alone (CleanStep sha256) i (s, .putting (blob :: todo)) (s, .putting (blob :: todo)) :=
    Alone.refl _
  have hput := hrefl.next
    ⟨.put, cleanDelete_of_holds fun _ h => ObjectStore.holds_put_of_holds h _ _⟩
  have hupserted := hput.next ⟨.upserted hupsert, cleanDelete_of_holds fun _ h => h⟩
  have hprepared := hupserted.next ⟨@GcStep.prepared ι _ sha256 i _ blob todo db₁.packages,
    cleanDelete_of_holds fun _ h => h⟩
  refine ⟨_, ?_, hprepared.next ⟨.inserted hinsert, cleanDelete_of_holds fun _ h => h⟩⟩
  intro j hj
  show Function.update (Function.update s.unseen i _) i none j = none
  by_cases hji : j = i
  · rw [hji, Function.update_self]
  · rw [Function.update_of_ne hji, Function.update_of_ne hji, hj]

/-- A sweep on its own deletes the row of the first orphan. -/
theorem alone_sweeps {grace : ℤ} {sha : Sha256} {todo : List Sha256}
    (horphans : s.db.orphanBlobs s.now grace = sha :: todo)
    (hdelete : exec (deleteBlobIfOrphan s.now grace sha) s.db = (.ok true, db₁)) :
    Alone (CleanStep sha256) i (s, .scanning grace false)
      ({ s with db := db₁ }, .deleting grace sha todo) := by
  have hscanned : Alone (CleanStep sha256) i (s, .scanning grace false)
      (s, .collecting grace (s.db.orphanBlobs s.now grace)) :=
    (Alone.refl _).next ⟨.scanned, cleanDelete_of_holds fun _ h => h⟩
  rw [horphans] at hscanned
  exact hscanned.next ⟨.rowDeleted hdelete, cleanDelete_of_holds fun _ h => h⟩

end Solo

namespace Dumps

/-- The bytes of a dump, which is one part long, and their digest. -/
def dump : List UInt8 := [0x6a, 0x69, 0x62, 0x73]

def dumpDigest : Sha256 :=
  ⟨#v[0x21, 0x06, 0x28, 0xf1, 0x02, 0x6d, 0x5f, 0x51, 0xad, 0xf2, 0x2b, 0xe4, 0xf6, 0x5d, 0x4d, 0x32,
    0x11, 0x2c, 0xb5, 0xbb, 0x88, 0x53, 0x06, 0x3c, 0x88, 0x9f, 0x5b, 0x7d, 0xce, 0x28, 0x66, 0xf4]⟩

/-- The digest on the bytes of this scenario. -/
def sha256 (bytes : List UInt8) : Sha256 :=
  if bytes = dump then dumpDigest else ⟨Vector.replicate 32 0⟩

/-- One repository, with an upload session for its dumps. -/
def hosted : Catalog :=
  { Catalog.empty with
    repositories := .single 1 ⟨1, "main", .auto, 0, true, false, none, none, none⟩
    uploadSessions := ⟨[(1, ⟨1, .snapshot "production" none, .open, 0⟩)], by decide⟩ }

/-- The grace window of a day, in microseconds. -/
def day : ℤ := 86400000000

/-- A part staged and given up, a sweep, and an upload of the same bytes. -/
def tasks : Fin 3 → GcTask
  | 0 => .writer [⟨dump, .staged 1 1⟩]
  | 1 => .sweep day false
  | 2 => .writer [⟨dump, .snapshot 1 1 "production" "full"⟩]

/-- The store the day after the part was staged. -/
def stagedBlobs : Catalog :=
  { hosted with
    blobs := ⟨[(dumpDigest, ⟨4, 0, 0⟩)], by decide⟩
    uploadParts := ⟨[((1, 1), ⟨dumpDigest, 4⟩)], by decide⟩ }

/-- The staged dump is an orphan after a day. -/
theorem orphanBlobs_staged : stagedBlobs.orphanBlobs (2 * day) day = [dumpDigest] := by
  unfold Catalog.orphanBlobs
  have hfilter : stagedBlobs.blobs.rows.filter (fun r => r.2.collectable (2 * day) day)
      = [(dumpDigest, ⟨4, 0, 0⟩)] := rfl
  rw [hfilter, List.mergeSort_singleton]
  rfl

/-- The catalog while the sweep stands between the row and the object. -/
def swept : Catalog := { stagedBlobs with blobs := ∅ }

/-- The catalog after the upload. -/
def uploaded : Catalog :=
  { stagedBlobs with
    blobs := ⟨[(dumpDigest, ⟨4, 1, 2 * day⟩)], by decide⟩
    snapshots := ⟨[(1, ⟨1, "production", "full", dumpDigest, 4, none, 2 * day, 1⟩)], by decide⟩
    snapshotSeq := 1 }

/-- The part is staged; two days later the sweep deletes the row of its blob. -/
theorem exists_swept : ∃ events c,
    Execution (CleanStep sha256) (collectionFrom tasks hosted ∅ 0) events c ∧
      c.shared.db = swept ∧ c.shared.objects = Table.empty.insertNew dumpDigest dump ∧
      c.shared.now = 2 * day ∧ (∀ j, c.shared.unseen j = none) ∧
      c.pc 1 = .deleting day dumpDigest [] ∧
      c.pc 2 = .putting [⟨dump, .snapshot 1 1 "production" "full"⟩] := by
  obtain ⟨unseen, hunseen, hstages⟩ := @alone_writes (Fin 3) _ sha256 0 ⟨hosted, ∅, 0, fun _ => none⟩ _
    stagedBlobs ⟨dump, .staged 1 1⟩ [] rfl rfl
  have hstart : Execution (CleanStep sha256) (collectionFrom tasks hosted ∅ 0) [] _ := .start
  obtain ⟨_, c₁, hrun₁, hshared₁, hpc₁, hothers₁⟩ := hstart.alone
    (hstages.next
    ⟨.passes (show (0 : ℤ) ≤ 2 * day by decide), cleanDelete_of_holds fun _ h => h⟩)
  have hsweeps := @alone_sweeps (Fin 3) _ sha256 1 c₁.shared swept day dumpDigest []
    (by rw [hshared₁]; exact orphanBlobs_staged) (by rw [hshared₁]; rfl)
  have hpc : c₁.pc 1 = .scanning day false := hothers₁ 1 (by decide)
  rw [← hpc] at hsweeps
  obtain ⟨events, c₂, hrun₂, hshared₂, hpc₂, hothers₂⟩ := hrun₁.alone hsweeps
  refine ⟨events, c₂, hrun₂, ?_, ?_, ?_, ?_, hpc₂, ?_⟩
  · rw [hshared₂]
  · rw [hshared₂, hshared₁]
    rfl
  · rw [hshared₂, hshared₁]
  · rw [hshared₂, hshared₁]
    exact fun j => hunseen j rfl
  · rw [hothers₂ 2 (by decide), hothers₁ 2 (by decide)]
    rfl

/-- A sweep races an upload of the same bytes: the put finds the object, the sweep then
deletes it, and the snapshot references bytes that are gone. -/
theorem gc_loses_dump : ∃ events c,
    Execution (GcStep sha256) (collectionFrom tasks hosted ∅ 0) events c ∧
      hosted.BlobsReferenced ∧ BytesKept hosted ∅ ∧ ¬ BytesKept c.shared.db c.shared.objects := by
  obtain ⟨_, c₁, hrun₁, hdb₁, -, hnow₁, -, hsweep₁, hupload₁⟩ := exists_swept
  -- the upload, from the put that finds the object to the row that references it
  obtain ⟨unseen, -, hwrites⟩ := @alone_writes (Fin 3) _ sha256 2 c₁.shared
    { stagedBlobs with blobs := ⟨[(dumpDigest, ⟨4, 0, 2 * day⟩)], by decide⟩ } uploaded
    ⟨dump, .snapshot 1 1 "production" "full"⟩ [] (by rw [hdb₁, hnow₁]; rfl) (by rw [hnow₁]; rfl)
  rw [← hupload₁] at hwrites
  obtain ⟨_, c₂, hrun₂, hshared₂, -, hothers₂⟩ := hrun₁.alone hwrites
  -- the object the sweep still has to delete
  have hsweep₂ : c₂.pc 1 = .deleting day dumpDigest [] := (hothers₂ 1 (by decide)).trans hsweep₁
  have hdeletes : Alone (GcStep sha256) 1 (c₂.shared, c₂.pc 1)
      ({ c₂.shared with objects := c₂.shared.objects.remove dumpDigest }, .collecting day []) := by
    rw [hsweep₂]
    exact (Alone.refl _).next .objectDeleted
  obtain ⟨events, c₃, hrun₃, hshared₃, -, -⟩ := (Execution.unrestrict hrun₂).1.alone hdeletes
  refine ⟨events, c₃, hrun₃, ?_, ?_, fun hkept => ?_⟩
  · rintro sha (⟨_, _, hget, -⟩ | ⟨_, _, hget, -⟩) <;> exact absurd hget nofun
  · rintro sha (⟨_, _, hget, -⟩ | ⟨_, _, hget, -⟩) <;> exact absurd hget nofun
  · have hreference : c₃.shared.db.References dumpDigest := by
      rw [hshared₃, hshared₂]
      exact Or.inr ⟨1, _, rfl, rfl⟩
    have hholds := hkept dumpDigest hreference
    rw [hshared₃] at hholds
    exact ObjectStore.not_holds_remove _ _ hholds

/-- The sweep is done with the blob before the upload: the put stores its bytes again. -/
theorem gc_keeps_dump : ∃ c : Config (Fin 3) (GcStore (Fin 3)) GcPc,
    c.shared.db.References dumpDigest ∧ BytesKept c.shared.db c.shared.objects := by
  obtain ⟨_, c₁, hrun₁, hdb₁, hobjects₁, hnow₁, hunseen₁, hsweep₁, hupload₁⟩ := exists_swept
  have hclean : CleanDelete ⟨(1 : Fin 3), c₁.shared,
      { c₁.shared with objects := c₁.shared.objects.remove dumpDigest }⟩ := by
    intro sha _ _
    refine ⟨?_, fun j => ?_⟩
    · rw [hdb₁]
      exact Bool.false_ne_true
    · rw [hunseen₁ j]
      exact nofun
  have hdeletes : Alone (CleanStep sha256) 1 (c₁.shared, c₁.pc 1)
      ({ c₁.shared with objects := c₁.shared.objects.remove dumpDigest }, .collecting day []) := by
    rw [hsweep₁]
    exact (Alone.refl _).next ⟨.objectDeleted, hclean⟩
  obtain ⟨_, c₂, hrun₂, hshared₂, -, hothers₂⟩ := hrun₁.alone hdeletes
  have hupload₂ := (hothers₂ 2 (by decide)).trans hupload₁
  obtain ⟨unseen, -, hwrites⟩ := @alone_writes (Fin 3) _ sha256 2 c₂.shared
    { stagedBlobs with blobs := ⟨[(dumpDigest, ⟨4, 0, 2 * day⟩)], by decide⟩ } uploaded
    ⟨dump, .snapshot 1 1 "production" "full"⟩ [] (by rw [hshared₂, hdb₁, hnow₁]; rfl)
    (by rw [hshared₂, hnow₁]; rfl)
  rw [← hupload₂] at hwrites
  obtain ⟨_, c₃, hrun₃, hshared₃, -, -⟩ := hrun₂.alone hwrites
  obtain ⟨hrun, hall⟩ := Execution.unrestrict hrun₃
  have hempty : ∀ sha, ¬ hosted.References sha := by
    rintro sha (⟨_, _, hget, -⟩ | ⟨_, _, hget, -⟩) <;> exact absurd hget nofun
  refine ⟨c₃, ?_, gc_keeps_referenced sha256 tasks (fun sha h => absurd h (hempty sha))
    (fun sha h => absurd h (hempty sha)) hrun hall⟩
  rw [hshared₃]
  exact Or.inr ⟨1, _, rfl, rfl⟩

end Dumps

end Sconce
