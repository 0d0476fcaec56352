/-
# The SKU cap under races

`create_edition`, `set_edition_active` and `delete_edition` with every statement and
every commit a step of its own.  A call that takes a SKU holds the advisory lock of its
organization from the statement that acquires it to its commit or rollback; a lock is
keyed by a hash, which organizations may share.  Deactivating and deleting are single
statements outside the lock.

Whatever the interleaving, an organization that starts at or below its cap stays there,
and a refused call changes nothing (`sku_cap_holds`).
-/
import Sconce.Lib.Interleaving
import Sconce.Licensing.Editions
import Sconce.Licensing.Operations

namespace Sconce

open Interleaving

/-! ## The calls -/

inductive SkuCall where
  | create (e : NewEdition)
  | setActive (repo edition : Uuid) (active : Bool)
  | delete (repo edition : Uuid)

/-- What a call returns: an edition's id, whether a row matched, or an error. -/
inductive SkuAnswer where
  | created (id : Option Uuid)
  | matched (found : Bool)
  | failed (e : EntitlementError)

/-- `SkuCapReached`, or `Ok(None)`. -/
def SkuAnswer.refused : SkuAnswer → Prop
  | .failed (.skuCapReached _) => True
  | .created none => True
  | _ => False

namespace SkuCall

def repo : SkuCall → Uuid
  | .create e => e.repo
  | .setActive repo _ _ => repo
  | .delete repo _ => repo

/-- The edition the call leaves out of the count. -/
def exclude : SkuCall → Option Uuid
  | .setActive _ edition _ => some edition
  | _ => none

/-- The call takes a SKU: it locks, and checks the cap. -/
def takesSku : SkuCall → Bool
  | .create _ => true
  | .setActive _ _ active => active
  | .delete _ _ => false

/-- The answer to a call that committed. -/
def answer : SkuCall → Bool → SkuAnswer
  | .create e, _ => .created (some e.id)
  | _, found => .matched found

/-- A call that committed is not refused. -/
theorem not_refused_answer (c : SkuCall) (found : Bool) : ¬ (c.answer found).refused := by
  cases c <;> exact id

/-- The call as one function of the state. -/
def perform (c : SkuCall) (db : Catalog) : SkuAnswer × Catalog :=
  match c with
  | .create e =>
    match db.createEdition e with
    | .ok (id, db') => (.created id, db')
    | .error err => (.failed err, db)
  | .setActive repo edition active =>
    match db.setEditionActive repo edition active with
    | .ok (found, db') => (.matched found, db')
    | .error err => (.failed err, db)
  | .delete repo edition =>
    (.matched (db.deleteEdition repo edition).1, (db.deleteEdition repo edition).2)

end SkuCall

/-! ## The statements -/

/-- What an open transaction has written. -/
inductive EditionWrite where
  | insert (id : Uuid) (row : Edition)
  | activate (repo edition : Uuid)

/-- The state the transaction's commit makes of the committed one. -/
def EditionWrite.commit : EditionWrite → Catalog → Catalog
  | .insert id row, db => { db with editions := db.editions.insertNew id row }
  | .activate repo edition, db => db.updateActive repo edition true

/-- The committed state, the advisory locks, and what the open transaction of each call
has written. -/
structure SkuStore (ι : Type) where
  db : Catalog
  locks : Locks ℤ ι
  pending : ι → Option EditionWrite

/-- Where a call stands; past the start, with its organization. -/
inductive SkuPc where
  | start
  | locking (org : Uuid)
  | reading (org : Uuid)
  | counting (org : Uuid) (cap : ℤ)
  | checking (org : Uuid)
  | writing (org : Uuid)
  | committing (org : Uuid) (found : Bool)
  | committed (found : Bool)
  | done (answer : SkuAnswer)
  | crashed

/-- The call has not returned and its connection stands. -/
def SkuPc.running : SkuPc → Prop
  | .done _ | .crashed => False
  | _ => True

/-- Where a call goes with the capacity it asked for: a new edition's set is checked
first. -/
def SkuCall.admitted : SkuCall → Uuid → SkuPc
  | .create _, org => .checking org
  | _, org => .writing org

section Steps

variable {ι : Type} [DecidableEq ι]

/-- The call's own writes replaced. -/
def SkuStore.write (s : SkuStore ι) (i : ι) (w : Option EditionWrite) : SkuStore ι :=
  ⟨s.db, s.locks, Function.update s.pending i w⟩

/-- The call's transaction ends: its locks are released and nothing of it is pending. -/
def SkuStore.endTx (s : SkuStore ι) (i : ι) (db : Catalog) : SkuStore ι :=
  ⟨db, s.locks.releaseAll i, Function.update s.pending i none⟩

/-- No other transaction has updated the row: its row lock is free. -/
def SkuStore.RowFree (s : SkuStore ι) (i : ι) (edition : Uuid) : Prop :=
  ∀ j repo, j ≠ i → s.pending j ≠ some (.activate repo edition)

/-- One statement, commit or rollback of the three calls. -/
inductive SkuStep (hash : Uuid → ℤ) (calls : ι → SkuCall) : Act ι (SkuStore ι) SkuPc
  /-- `org_of_repo` finds no row. -/
  | noRepo {i s} (htakes : (calls i).takesSku = true)
      (h : s.db.orgOfRepo (calls i).repo = none) :
      SkuStep hash calls i s .start s (.done (.failed (.sqlx .rowNotFound)))
  | began {i s org} (htakes : (calls i).takesSku = true)
      (h : s.db.orgOfRepo (calls i).repo = some org) :
      SkuStep hash calls i s .start s (.locking org)
  | locked {i s org} (h : s.locks (hash org) = none) :
      SkuStep hash calls i s (.locking org) ⟨s.db, s.locks.acquire (hash org) i, s.pending⟩
        (.reading org)
  | uncapped {i s org} (h : s.db.maxSkus.get? org = none) :
      SkuStep hash calls i s (.reading org) s ((calls i).admitted org)
  | capped {i s org cap} (h : s.db.maxSkus.get? org = some cap) :
      SkuStep hash calls i s (.reading org) s (.counting org cap)
  | full {i s org cap} (h : cap ≤ s.db.activeEditions org (calls i).exclude) :
      SkuStep hash calls i s (.counting org cap) (s.endTx i s.db)
        (.done (.failed (.skuCapReached cap)))
  | underCap {i s org cap} (h : ¬ cap ≤ s.db.activeEditions org (calls i).exclude) :
      SkuStep hash calls i s (.counting org cap) s ((calls i).admitted org)
  | noSet {i s org e} (hcall : calls i = .create e) (h : s.db.setInOrg e.set org = false) :
      SkuStep hash calls i s (.checking org) (s.endTx i s.db) (.done (.created none))
  | hasSet {i s org e} (hcall : calls i = .create e) (h : s.db.setInOrg e.set org = true) :
      SkuStep hash calls i s (.checking org) s (.writing org)
  | inserted {i s org e db'} (hcall : calls i = .create e)
      (h : s.db.insertEdition e.id e.row = .ok db')
      (hothers : ∀ j id row, j ≠ i → s.pending j = some (.insert id row) →
        ¬ Edition.Conflict (e.id, e.row) (id, row)) :
      SkuStep hash calls i s (.writing org) (s.write i (some (.insert e.id e.row)))
        (.committing org true)
  | rejected {i s org e err} (hcall : calls i = .create e)
      (h : s.db.insertEdition e.id e.row = .error err) :
      SkuStep hash calls i s (.writing org) (s.endTx i s.db) (.done (.failed (.sqlx err)))
  | activated {i s org repo edition} (hcall : calls i = .setActive repo edition true)
      (hrow : s.RowFree i edition) :
      SkuStep hash calls i s (.writing org)
        (s.write i (if (s.db.editionIn repo edition).isSome then some (.activate repo edition)
          else none))
        (.committing org (s.db.editionIn repo edition).isSome)
  | commits {i s org found} :
      SkuStep hash calls i s (.committing org found)
        (s.endTx i ((s.pending i).elim s.db fun w => w.commit s.db)) (.committed found)
  | deactivated {i s repo edition} (hcall : calls i = .setActive repo edition false)
      (hrow : s.RowFree i edition) :
      SkuStep hash calls i s .start ⟨s.db.updateActive repo edition false, s.locks, s.pending⟩
        (.committed (s.db.editionIn repo edition).isSome)
  | deleted {i s repo edition} (hcall : calls i = .delete repo edition)
      (hrow : s.RowFree i edition) :
      SkuStep hash calls i s .start ⟨s.db.dropEdition repo edition, s.locks, s.pending⟩
        (.committed (s.db.editionIn repo edition).isSome)
  | answers {i s found} :
      SkuStep hash calls i s (.committed found) s (.done ((calls i).answer found))
  | crashes {i s p} (h : p.running) : SkuStep hash calls i s p (s.endTx i s.db) .crashed

/-- Every call about to start. -/
def skusFrom (db : Catalog) : Config ι (SkuStore ι) SkuPc :=
  ⟨⟨db, fun _ => none, fun _ => none⟩, fun _ => .start⟩

end Steps

/-! ## A call on its own -/

section Alone

variable {ι : Type} [DecidableEq ι] (hash : Uuid → ℤ) {calls : ι → SkuCall} {i : ι} {db : Catalog}

/-- The store before the first call. -/
def SkuStore.idle (db : Catalog) : SkuStore ι := ⟨db, fun _ => none, fun _ => none⟩

/-- The call is in its transaction, under the lock of its organization. -/
def SkuStore.underLock (hash : Uuid → ℤ) (db : Catalog) (i : ι) (org : Uuid) : SkuStore ι :=
  ⟨db, Locks.acquire (fun _ => none) (hash org) i, fun _ => none⟩

/-- A call that takes an edition gets the lock first. -/
theorem alone_reading {org : Uuid} (htakes : (calls i).takesSku = true)
    (horg : db.orgOfRepo (calls i).repo = some org) :
    Alone (SkuStep hash calls) i (.idle db, .start) (.underLock hash db i org, .reading org) := by
  have hbegan : Alone (SkuStep hash calls) i (.idle db, .start) (.idle db, .locking org) :=
    (Alone.refl _).next (.began htakes horg)
  exact hbegan.next (.locked rfl)

/-- `require_sku_capacity_tx` lets the call through. -/
theorem alone_admitted {org : Uuid} (htakes : (calls i).takesSku = true)
    (horg : db.orgOfRepo (calls i).repo = some org)
    (h : db.requireSkuCapacity org (calls i).exclude = .ok ()) :
    Alone (SkuStep hash calls) i (.idle db, .start)
      (.underLock hash db i org, (calls i).admitted org) := by
  have hreading := alone_reading hash htakes horg
  unfold Catalog.requireSkuCapacity at h
  cases hcap : db.maxSkus.get? org with
  | none => exact hreading.next (.uncapped hcap)
  | some cap =>
    simp only [hcap] at h
    split_ifs at h with hfull
    exact (hreading.next (.capped hcap)).next (.underCap hfull)

/-- It refuses the call. -/
theorem alone_full {org : Uuid} {err : EntitlementError} (htakes : (calls i).takesSku = true)
    (horg : db.orgOfRepo (calls i).repo = some org)
    (h : db.requireSkuCapacity org (calls i).exclude = .error err) :
    ∃ s : SkuStore ι, s.db = db ∧
      Alone (SkuStep hash calls) i (.idle db, .start) (s, .done (.failed err)) := by
  have hreading := alone_reading hash htakes horg
  unfold Catalog.requireSkuCapacity at h
  cases hcap : db.maxSkus.get? org with
  | none =>
    simp only [hcap] at h
    cases h
  | some cap =>
    simp only [hcap] at h
    split_ifs at h with hfull
    obtain rfl := Except.error.inj h
    exact ⟨_, rfl, (hreading.next (.capped hcap)).next (.full hfull)⟩

/-- What a commit makes of the call's own writes. -/
theorem SkuStore.db_commit (s : SkuStore ι) (i : ι) (w : Option EditionWrite) :
    ((s.write i w).endTx i (((s.write i w).pending i).elim s.db fun w => w.commit s.db)).db
      = w.elim s.db fun w => w.commit s.db := by
  have hself : (s.write i w).pending i = w := by
    show Function.update s.pending i w i = w
    rw [Function.update_self]
  rw [hself]
  rfl

omit [DecidableEq ι] in
/-- Nobody holds a row while nothing is pending. -/
theorem rowFree_of_idle {s : SkuStore ι} (h : s.pending = fun _ => none) (edition : Uuid) :
    s.RowFree i edition := by
  intro j repo _ hj
  rw [h] at hj
  exact absurd hj nofun

/-- A call that runs alone answers what the sequential function does, and leaves the
state it leaves. -/
theorem alone_perform (calls : ι → SkuCall) (i : ι) (db : Catalog) :
    ∃ s : SkuStore ι, s.db = ((calls i).perform db).2 ∧
      Alone (SkuStep hash calls) i (.idle db, .start) (s, .done ((calls i).perform db).1) := by
  have hrefl : Alone (SkuStep hash calls) i (.idle db, .start) (.idle db, .start) := Alone.refl _
  have hanswer : ∀ s found, Alone (SkuStep hash calls) i (.idle db, .start) (s, .committed found) →
      Alone (SkuStep hash calls) i (.idle db, .start) (s, .done ((calls i).answer found)) :=
    fun s found h => h.next .answers
  -- alone, a call meets no lock and no pending row: each case is the run of its statements
  cases hcall : calls i with
  | delete repo edition =>
    have hdeleted := hanswer _ _ (hrefl.next (.deleted hcall (rowFree_of_idle rfl edition)))
    rw [hcall] at hdeleted
    exact ⟨_, rfl, hdeleted⟩
  | setActive repo edition active =>
    unfold SkuCall.perform Catalog.setEditionActive
    cases active with
    | false =>
      have hset := hanswer _ _ (hrefl.next (.deactivated hcall (rowFree_of_idle rfl edition)))
      rw [hcall] at hset
      exact ⟨_, rfl, hset⟩
    | true =>
      have htakes : (calls i).takesSku = true := by rw [hcall]; rfl
      have hrepo : (calls i).repo = repo := by rw [hcall]; rfl
      have hexclude : (calls i).exclude = some edition := by rw [hcall]; rfl
      cases horg : db.orgOfRepo repo with
      | none =>
        simp only [if_true, horg]
        exact ⟨_, rfl, hrefl.next (.noRepo htakes (hrepo ▸ horg))⟩
      | some org =>
        cases hcapacity : db.requireSkuCapacity org (some edition) with
        | error err =>
          simp only [if_true, horg, hcapacity]
          exact alone_full hash htakes (hrepo ▸ horg) (hexclude ▸ hcapacity)
        | ok u =>
          have hadmitted := alone_admitted hash htakes (hrepo ▸ horg)
            (hexclude ▸ hcapacity)
          rw [hcall] at hadmitted
          have hset := hanswer _ _ ((hadmitted.next
            (.activated hcall (rowFree_of_idle rfl edition))).next .commits)
          rw [hcall] at hset
          simp only [if_true, horg, hcapacity]
          refine ⟨_, ?_, hset⟩
          -- what the commit leaves is what the call performs
          refine (SkuStore.db_commit _ i _).trans ?_
          show Option.elim (if (db.editionIn repo edition).isSome then _ else none) db _ = _
          cases hin : db.editionIn repo edition with
          | none => exact (Catalog.updateActive_of_none hin true).symm
          | some row => rfl
  | create e =>
    have htakes : (calls i).takesSku = true := by rw [hcall]; rfl
    have hrepo : (calls i).repo = e.repo := by rw [hcall]; rfl
    have hexclude : (calls i).exclude = none := by rw [hcall]; rfl
    unfold SkuCall.perform Catalog.createEdition
    cases horg : db.orgOfRepo e.repo with
    | none =>
      simp only [horg]
      exact ⟨_, rfl, hrefl.next (.noRepo htakes (hrepo ▸ horg))⟩
    | some org =>
      cases hcapacity : db.requireSkuCapacity org none with
      | error err =>
        simp only [horg, hcapacity]
        exact alone_full hash htakes (hrepo ▸ horg) (hexclude ▸ hcapacity)
      | ok u =>
        have hadmitted := alone_admitted hash htakes (hrepo ▸ horg) (hexclude ▸ hcapacity)
        rw [hcall] at hadmitted
        cases hset : db.setInOrg e.set org with
        | false =>
          simp only [horg, hcapacity, hset]
          exact ⟨_, rfl, hadmitted.next (.noSet hcall hset)⟩
        | true =>
          have hwriting := hadmitted.next (.hasSet hcall hset)
          cases hinsert : db.insertEdition e.id e.row with
          | error err =>
            simp only [horg, hcapacity, hset, if_true, hinsert]
            exact ⟨_, rfl, hwriting.next (.rejected hcall hinsert)⟩
          | ok db' =>
            -- nobody else has a row pending
            have hothers : ∀ j id row, j ≠ i →
                (SkuStore.underLock hash db i org).pending j = some (.insert id row) →
                  ¬ Edition.Conflict (e.id, e.row) (id, row) :=
              fun _ _ _ _ hj => absurd hj nofun
            have hcreated := hanswer _ _
              ((hwriting.next (.inserted hcall hinsert hothers)).next .commits)
            rw [hcall] at hcreated
            simp only [horg, hcapacity, hset, if_true, hinsert]
            refine ⟨_, ?_, hcreated⟩
            refine (SkuStore.db_commit _ i _).trans ?_
            exact (Catalog.eq_of_insertEdition hinsert).symm

/-- The same, as an execution. -/
theorem perform_executes (calls : ι → SkuCall) (i : ι) (db : Catalog) :
    ∃ events c, Execution (SkuStep hash calls) (skusFrom db) events c ∧
      c.shared.db = ((calls i).perform db).2 ∧ c.pc i = .done ((calls i).perform db).1 := by
  obtain ⟨s, hdb, halone⟩ := alone_perform hash calls i db
  let start : Config ι (SkuStore ι) SkuPc := skusFrom db
  have hfrom : Alone (SkuStep hash calls) i (start.shared, start.pc i)
      (s, .done ((calls i).perform db).1) := halone
  obtain ⟨events, c, hrun, hshared, hpc⟩ := Execution.of_alone hfrom
  exact ⟨events, c, hrun, by rw [hshared, hdb], hpc⟩

end Alone

/-! ## The outline -/

/-- The repository a write is about, and what its call leaves out of the count. -/
def EditionWrite.repo : EditionWrite → Uuid
  | .insert _ row => row.repoId
  | .activate repo _ => repo

def EditionWrite.exclude : EditionWrite → Option Uuid
  | .insert _ _ => none
  | .activate _ edition => some edition

/-- The write is the call's. -/
def EditionWrite.By (w : EditionWrite) (c : SkuCall) : Prop :=
  w.repo = c.repo ∧ w.exclude = c.exclude

/-- A commit adds one to the count its call compared with the cap, at most. -/
theorem EditionWrite.countActiveEditions_commit_le (w : EditionWrite) (db : Catalog) (org : Uuid) :
    (w.commit db).countActiveEditions org ≤ db.activeEditions org w.exclude + 1 := by
  cases w with
  | insert id row =>
    refine le_trans (Catalog.activeEditions_insert_le id row org none) (Nat.add_le_add_left ?_ _)
    split_ifs <;> omega
  | activate repo edition =>
    have hself := @Catalog.activeEditions_activate db repo edition org (some edition) (Or.inl rfl)
    exact le_trans (Catalog.countActiveEditions_le org (some edition)) (Nat.add_le_add_right hself 1)

/-- A commit for another organization adds nothing. -/
theorem EditionWrite.activeEditions_commit_le {w : EditionWrite} {db : Catalog} {org : Uuid}
    (h : db.orgOfRepo w.repo ≠ some org) (exclude : Option Uuid) :
    (w.commit db).activeEditions org exclude ≤ db.activeEditions org exclude := by
  cases w with
  | insert id row =>
    have hnot : ¬ db.orgOfRepo row.repoId = some org := h
    have hle := @Catalog.activeEditions_insert_le db id row org exclude
    rwa [if_neg hnot] at hle
  | activate repo edition => exact Catalog.activeEditions_activate (Or.inr h)

theorem EditionWrite.commit_tables (w : EditionWrite) (db : Catalog) :
    (w.commit db).repositories = db.repositories ∧ (w.commit db).maxSkus = db.maxSkus := by
  cases w <;> exact ⟨rfl, rfl⟩

section Outline

variable {ι : Type}

/-- The invariant: repositories and caps stand, and the organization is within its cap. -/
structure SkuInv (db₀ : Catalog) (org : Uuid) (cap : ℤ) (s : SkuStore ι) : Prop where
  repositories : s.db.repositories = db₀.repositories
  maxSkus : s.db.maxSkus = db₀.maxSkus
  within : (s.db.countActiveEditions org : ℤ) ≤ cap

/-- Call `i` holds the lock of its organization `o`. -/
structure Holding (db₀ : Catalog) (hash : Uuid → ℤ) (calls : ι → SkuCall) (i : ι)
    (s : SkuStore ι) (o : Uuid) : Prop where
  ofOrg : db₀.orgOfRepo (calls i).repo = some o
  lock : s.locks (hash o) = some i

/-- Under its lock, it has found room for one more. -/
structure Admitted (db₀ : Catalog) (org : Uuid) (cap : ℤ) (hash : Uuid → ℤ)
    (calls : ι → SkuCall) (i : ι) (s : SkuStore ι) (o : Uuid) : Prop
    extends Holding db₀ hash calls i s o where
  room : o = org → (s.db.activeEditions org (calls i).exclude : ℤ) < cap

/-- What holds where a call stands. -/
def SkuAt (db₀ : Catalog) (org : Uuid) (cap : ℤ) (hash : Uuid → ℤ) (calls : ι → SkuCall) (i : ι)
    (s : SkuStore ι) : SkuPc → Prop
  | .locking o => db₀.orgOfRepo (calls i).repo = some o
  | .reading o => Holding db₀ hash calls i s o
  | .counting o c => Holding db₀ hash calls i s o ∧ db₀.maxSkus.get? o = some c
  | .checking o => Admitted db₀ org cap hash calls i s o
  | .writing o => Admitted db₀ org cap hash calls i s o
  | .committing o _ => Admitted db₀ org cap hash calls i s o ∧
      ∀ w, s.pending i = some w → w.By (calls i)
  | _ => True

/-- Every repository stays with its organization. -/
theorem SkuInv.orgOfRepo {db₀ : Catalog} {org : Uuid} {cap : ℤ} {s : SkuStore ι}
    (h : SkuInv db₀ org cap s) (repo : Uuid) : s.db.orgOfRepo repo = db₀.orgOfRepo repo := by
  unfold Catalog.orgOfRepo
  rw [h.repositories]

variable [DecidableEq ι] {db₀ : Catalog} {org : Uuid} {cap : ℤ} {hash : Uuid → ℤ}
  {calls : ι → SkuCall} {i : ι} {s s' : SkuStore ι} {p p' : SkuPc}

/-- No step touches the repositories or the caps. -/
theorem SkuStep.tables (h : SkuStep hash calls i s p s' p') :
    s'.db.repositories = s.db.repositories ∧ s'.db.maxSkus = s.db.maxSkus := by
  cases h with
  | commits =>
    show Catalog.repositories (Option.elim _ _ _) = _ ∧ Catalog.maxSkus (Option.elim _ _ _) = _
    cases s.pending i with
    | none => exact ⟨rfl, rfl⟩
    | some w => exact w.commit_tables s.db
  | _ => exact ⟨rfl, rfl⟩

/-- A step leaves the locks and the writes of the other calls alone. -/
theorem SkuStep.others {j : ι} (hij : i ≠ j) (h : SkuStep hash calls i s p s' p') :
    s'.pending j = s.pending j ∧ ∀ k, s.locks k = some j → s'.locks k = some j := by
  have hwrite : ∀ w, Function.update s.pending i w j = s.pending j :=
    fun w => Function.update_of_ne (Ne.symm hij) w s.pending
  cases h with
  | locked hfree => exact ⟨rfl, fun k hk => Locks.acquire_keeps hfree hk⟩
  | full | noSet | rejected | commits | crashes =>
    exact ⟨hwrite none, fun k hk => Locks.releaseAll_keeps hij hk⟩
  | inserted | activated => exact ⟨hwrite _, fun k hk => hk⟩
  | _ => exact ⟨rfl, fun k hk => hk⟩

/-- The count of the organization grows only where a call commits under its lock. -/
theorem SkuStep.count_le (h : SkuStep hash calls i s p s' p') (hinv : SkuInv db₀ org cap s)
    (hat : SkuAt db₀ org cap hash calls i s p) :
    (∃ found, p = .committing org found) ∨
      ∀ exclude, s'.db.activeEditions org exclude ≤ s.db.activeEditions org exclude := by
  cases h with
  | @commits _ _ o found =>
    by_cases ho : o = org
    · exact Or.inl ⟨found, by rw [ho]⟩
    · refine Or.inr fun exclude => ?_
      obtain ⟨hadmitted, hby⟩ := hat
      show Catalog.activeEditions (Option.elim _ _ _) org exclude ≤ _
      cases hw : s.pending i with
      | none => exact Nat.le_refl _
      | some w =>
        -- the write is for a repository of another organization
        have hrepo : s.db.orgOfRepo w.repo = some o := by
          rw [(hby w hw).1, hinv.orgOfRepo]
          exact hadmitted.ofOrg
        refine EditionWrite.activeEditions_commit_le ?_ exclude
        rw [hrepo]
        exact fun heq => ho (Option.some.inj heq)
  | deactivated => exact Or.inr fun exclude => Catalog.activeEditions_deactivate_le _ _ org exclude
  | deleted => exact Or.inr fun exclude => Catalog.activeEditions_dropEdition_le _ _ org exclude
  | _ => exact Or.inr fun exclude => Nat.le_refl _

omit [DecidableEq ι] in
theorem Holding.mono {j : ι} {o : Uuid} (h : Holding db₀ hash calls j s o)
    (hlocks : ∀ k, s.locks k = some j → s'.locks k = some j) : Holding db₀ hash calls j s' o :=
  ⟨h.ofOrg, hlocks _ h.lock⟩

omit [DecidableEq ι] in
/-- An admitted call keeps its room while the count does not grow. -/
theorem Admitted.mono {j : ι} {o : Uuid} (h : Admitted db₀ org cap hash calls j s o)
    (hlocks : ∀ k, s.locks k = some j → s'.locks k = some j)
    (hcount : o = org → ∀ exclude,
      s'.db.activeEditions org exclude ≤ s.db.activeEditions org exclude) :
    Admitted db₀ org cap hash calls j s' o where
  toHolding := h.toHolding.mono hlocks
  room := fun ho => lt_of_le_of_lt (Int.ofNat_le.2 (hcount ho _)) (h.room ho)

/-- While a call holds the organization's lock, no other call raises the count. -/
theorem SkuStep.count_le_of_holding {j : ι} {o : Uuid} (hij : i ≠ j)
    (h : SkuStep hash calls i s p s' p') (hinv : SkuInv db₀ org cap s)
    (hat : SkuAt db₀ org cap hash calls i s p) (hj : s.locks (hash o) = some j) (ho : o = org) :
    ∀ exclude, s'.db.activeEditions org exclude ≤ s.db.activeEditions org exclude := by
  rcases h.count_le hinv hat with ⟨found, rfl⟩ | hle
  · -- the step would be a commit under the same lock
    have hlock := hat.1.lock
    rw [ho, hlock] at hj
    exact absurd (Option.some.inj hj) hij
  · exact hle

/-- A step keeps what holds of the other calls. -/
theorem SkuStep.free {j : ι} {q : SkuPc} (hij : i ≠ j) (h : SkuStep hash calls i s p s' p')
    (hinv : SkuInv db₀ org cap s) (hat : SkuAt db₀ org cap hash calls i s p)
    (hj : SkuAt db₀ org cap hash calls j s q) : SkuAt db₀ org cap hash calls j s' q := by
  obtain ⟨hpending, hlocks⟩ := h.others hij
  have hcount : ∀ o, s.locks (hash o) = some j → o = org →
      ∀ exclude, s'.db.activeEditions org exclude ≤ s.db.activeEditions org exclude :=
    fun o hlock ho => h.count_le_of_holding hij hinv hat hlock ho
  cases q with
  | locking => exact hj
  | reading => exact hj.mono hlocks
  | counting => exact ⟨hj.1.mono hlocks, hj.2⟩
  | checking o => exact hj.mono hlocks (hcount o hj.lock)
  | writing o => exact hj.mono hlocks (hcount o hj.lock)
  | committing o =>
    refine ⟨hj.1.mono hlocks (hcount o hj.1.lock), ?_⟩
    rw [hpending]
    exact hj.2
  | _ => trivial

omit [DecidableEq ι] in
/-- A call with room goes on to write. -/
theorem Admitted.admitted {o : Uuid} (h : Admitted db₀ org cap hash calls i s o) :
    SkuAt db₀ org cap hash calls i s ((calls i).admitted o) := by
  cases hcall : calls i <;> exact h

/-- A step keeps the invariant and reaches what holds at its end. -/
theorem SkuStep.sound (hcap : db₀.maxSkus.get? org = some cap)
    (h : SkuStep hash calls i s p s' p') (hinv : SkuInv db₀ org cap s)
    (hat : SkuAt db₀ org cap hash calls i s p) :
    SkuInv db₀ org cap s' ∧ SkuAt db₀ org cap hash calls i s' p' := by
  have htables := h.tables
  have hcount := h.count_le hinv hat
  have hkeep : (∀ exclude, s'.db.activeEditions org exclude ≤ s.db.activeEditions org exclude) →
      SkuInv db₀ org cap s' := fun hle =>
    ⟨htables.1.trans hinv.repositories, htables.2.trans hinv.maxSkus,
      le_trans (Int.ofNat_le.2 (hle none)) hinv.within⟩
  cases h with
  | began _ horg => exact ⟨hinv, (hinv.orgOfRepo _).symm.trans horg⟩
  | locked => exact ⟨hkeep fun _ => Nat.le_refl _, hat, Locks.acquire_self⟩
  | uncapped hnone =>
    refine ⟨hinv, Admitted.admitted ⟨hat, ?_⟩⟩
    rintro rfl
    rw [hinv.maxSkus, hcap] at hnone
    exact absurd hnone nofun
  | capped hsome => exact ⟨hinv, hat, hinv.maxSkus ▸ hsome⟩
  | underCap hlt =>
    refine ⟨hinv, Admitted.admitted ⟨hat.1, ?_⟩⟩
    rintro rfl
    have hc := Option.some.inj (hat.2.symm.trans hcap)
    rw [← hc]
    exact not_le.1 hlt
  | hasSet => exact ⟨hinv, hat⟩
  | inserted hcall =>
    refine ⟨hkeep fun _ => Nat.le_refl _, ⟨⟨hat.ofOrg, hat.lock⟩, hat.room⟩, ?_⟩
    intro w hw
    obtain rfl := Option.some.inj ((Function.update_self i _ s.pending).symm.trans hw)
    rw [hcall]
    exact ⟨rfl, rfl⟩
  | @activated _ _ o repo edition hcall =>
    refine ⟨hkeep fun _ => Nat.le_refl _, ⟨⟨hat.ofOrg, hat.lock⟩, hat.room⟩, ?_⟩
    intro w hw
    have hw' := (Function.update_self i _ s.pending).symm.trans hw
    split_ifs at hw'
    obtain rfl := Option.some.inj hw'
    rw [hcall]
    exact ⟨rfl, rfl⟩
  | @commits _ _ o found =>
    refine ⟨?_, trivial⟩
    rcases hcount with ⟨_, hp⟩ | hle
    · -- under the organization's lock: one more than the count it found below the cap
      obtain ⟨rfl, -⟩ := SkuPc.committing.inj hp
      refine ⟨htables.1.trans hinv.repositories, htables.2.trans hinv.maxSkus, ?_⟩
      show (Catalog.countActiveEditions (Option.elim _ _ _) o : ℤ) ≤ cap
      cases hw : s.pending i with
      | none => exact hinv.within
      | some w =>
        have hroom := hat.1.room rfl
        have hadd := w.countActiveEditions_commit_le s.db o
        rw [(hat.2 w hw).2] at hadd
        have hadd' : (((w.commit s.db).countActiveEditions o : ℕ) : ℤ) ≤ _ :=
          Int.ofNat_le.2 hadd
        push_cast at hadd'
        exact le_trans hadd' (Int.add_one_le_of_lt hroom)
    · exact hkeep hle
  | deactivated =>
    exact ⟨hkeep fun exclude => Catalog.activeEditions_deactivate_le _ _ org exclude, trivial⟩
  | deleted =>
    exact ⟨hkeep fun exclude => Catalog.activeEditions_dropEdition_le _ _ org exclude, trivial⟩
  | _ => exact ⟨hkeep fun _ => Nat.le_refl _, trivial⟩

/-- The annotation is an outline of the steps, under the cap. -/
theorem sku_outline (hcap : db₀.maxSkus.get? org = some cap) (hash : Uuid → ℤ)
    (calls : ι → SkuCall) : Outline (SkuStep hash calls) (SkuInv db₀ org cap)
      (SkuAt db₀ org cap hash calls) fun _ _ _ _ => True where
  symm := fun _ => trivial
  sound := fun hact hinv hat => hact.sound hcap hinv hat
  free := fun hij hact hinv hat hj _ => hact.free hij hinv hat hj
  keeps := fun _ _ _ _ _ _ => trivial

end Outline

/-! ## The cap holds -/

/-- The call may have written: it has committed, or is gone. -/
def SkuPc.wrote : SkuPc → Prop
  | .committed _ => True
  | .done answer => ¬ answer.refused
  | .crashed => True
  | _ => False

section Silence

variable {ι : Type} [DecidableEq ι] {hash : Uuid → ℤ} {calls : ι → SkuCall} {i : ι}
  {s s' : SkuStore ι} {p p' : SkuPc}

theorem SkuStep.wrote_of_ne (h : SkuStep hash calls i s p s' p')
    (hne : s'.db.editions ≠ s.db.editions) : p'.wrote := by
  cases h with
  | commits | deactivated | deleted => trivial
  | _ => exact absurd rfl hne

theorem SkuStep.wrote_stays (h : SkuStep hash calls i s p s' p') (hp : p.wrote) : p'.wrote := by
  cases h with
  | answers => exact (calls i).not_refused_answer _
  | crashes => trivial
  | _ => exact hp.elim

end Silence

/-- **The SKU cap cannot be raced past.**  In every configuration that any number of
concurrent calls reach, on any repositories, whatever their interleaving and their
crashes, the organization has no more active editions than its cap; and a call that has
returned `SkuCapReached` or `Ok(None)` has left the editions alone at each of its steps. -/
theorem sku_cap_holds {ι : Type} [DecidableEq ι] (hash : Uuid → ℤ) (calls : ι → SkuCall)
    {db : Catalog} {org : Uuid} {cap : ℤ} (hcap : db.maxSkus.get? org = some cap)
    (hstart : (db.countActiveEditions org : ℤ) ≤ cap) {events : List (Event ι (SkuStore ι))}
    {c : Config ι (SkuStore ι) SkuPc}
    (hrun : Execution (SkuStep hash calls) (skusFrom db) events c) :
    (c.shared.db.countActiveEditions org : ℤ) ≤ cap ∧
      ∀ i answer, c.pc i = .done answer → answer.refused →
        ∀ e ∈ events, e.agent = i → e.after.db.editions = e.before.db.editions := by
  have hinit : Annotated (SkuInv db org cap) (SkuAt db org cap hash calls) (fun _ _ _ _ => True)
      (skusFrom db : Config ι (SkuStore ι) SkuPc) :=
    ⟨⟨rfl, rfl, hstart⟩, fun _ => trivial, fun _ _ _ => trivial⟩
  have hall := (sku_outline hcap hash calls).holds hinit hrun
  refine ⟨hall.inv.within, ?_⟩
  intro i answer hpc hrefused
  have hnot : ¬ (c.pc i).wrote := by
    rw [hpc]
    exact fun hwrote => hwrote hrefused
  exact Execution.unchanged (fun hact => hact.wrote_of_ne) (fun hact => hact.wrote_stays) hrun hnot

namespace Shop

/-- The shop, on a plan of five SKUs: one is left. -/
def capped : Catalog := { opened with maxSkus := ⟨[(1, 5)], by decide⟩ }

/-- Two editions put on sale at once. -/
def listing (first : Bool) : SkuCall :=
  .create
    { repo := 1, name := if first then "Core lifetime" else "Core 1.x", slug := none, set := 1
      bound := .perpetual, snapshot := false, policy := ⟨none, none⟩
      id := if first then 5 else 6, bound_valid := trivial }

/-- The second listing waits for the lock, and finds the plan full. -/
theorem exists_listing : ∃ events c,
    Execution (SkuStep (fun _ => 0) listing) (skusFrom capped) events c ∧
      c.pc true = .done (.created (some 5)) ∧
      c.pc false = .done (.failed (.skuCapReached 5)) := by
  have h₀ : Execution (SkuStep (fun _ => 0) listing) (skusFrom capped) [] _ := .start
  have h₁ := h₀.step (i := true) (.began rfl rfl)
  have h₂ := h₁.step (i := false) (.began rfl rfl)
  have h₃ := h₂.step (i := true) (.locked rfl)
  have h₄ := h₃.step (i := true) (.capped rfl)
  have h₅ := h₄.step (i := true) (.underCap (by decide))
  have h₆ := h₅.step (i := true) (.hasSet rfl rfl)
  have h₇ := h₆.step (i := true) (.inserted rfl rfl fun _ _ _ _ hj => absurd hj nofun)
  have h₈ := h₇.step (i := true) .commits
  have h₉ := h₈.step (i := true) .answers
  -- the second listing: the lock is free again
  have g₁ := h₉.step (i := false) (.locked rfl)
  have g₂ := g₁.step (i := false) (.capped rfl)
  have g₃ := g₂.step (i := false) (.full (by decide))
  exact ⟨_, _, g₃, rfl, rfl⟩

/-- The race meets the cap. -/
theorem sku_cap_holds_listing : ∃ c : Config Bool (SkuStore Bool) SkuPc,
    c.pc true = .done (.created (some 5)) ∧ c.pc false = .done (.failed (.skuCapReached 5)) ∧
      (c.shared.db.countActiveEditions 1 : ℤ) ≤ 5 := by
  obtain ⟨events, c, hrun, hfirst, hsecond⟩ := exists_listing
  have hcap := sku_cap_holds (fun _ => 0) listing (show capped.maxSkus.get? 1 = some 5 from rfl)
    (by decide) hrun
  exact ⟨c, hfirst, hsecond, hcap.1⟩

end Shop

end Sconce
