/-
# Issuing under races

`issue_from_edition_inner` with every statement and every commit a step of its own.
An open transaction's writes are pending: its own until it commits, gone when it
rolls back or its connection is lost.  The unique constraints see them all the same:
an insert that conflicts with a committed row is rejected, one that conflicts with a
pending row waits.

Whatever the interleaving, one row exists for a `(repo, edition, idempotency key)`
at most, every answer names it, and one call at most created it
(`issuing_exactly_once`).
-/
import Sconce.Lib.Interleaving
import Sconce.Licensing.Operations

namespace Sconce

open Interleaving

/-! ## The statements -/

/-- What an open issuing transaction has written. -/
structure IssueWrites where
  key : Uuid × LicenseKey
  packageEdges : List ((Uuid × Uuid) × UpdateBound)
  setEdges : List ((Uuid × Uuid) × UpdateBound)

/-- The state the transaction's commit makes of the committed one. -/
def IssueWrites.commit (w : IssueWrites) (db : Catalog) : Catalog :=
  { db with
    licenseKeys := db.licenseKeys.insertNew w.key.1 w.key.2
    entitlements := db.entitlements.insertAll w.packageEdges
    licenseSetEntitlements := db.licenseSetEntitlements.insertAll w.setEdges }

/-- The committed state, and what the open transaction of each call has written. -/
structure IssueStore (ι : Type) where
  db : Catalog
  pending : ι → Option IssueWrites

/-- The edges `attach_edition_set` inserts for a key of its own transaction. -/
def Catalog.attachedEdges (db : Catalog) (ses : Session) (now : Timestamp) (c : IssueCall)
    (ed : Edition) (w : IssueWrites) : Except SqlError IssueWrites :=
  let bound := db.edgeBound ses now (if c.boundOnEdge then some c.edition else none)
  if ed.snapshotAtIssue then
    .ok { w with
      packageEdges := (db.setPackages ed.setId).map fun p => ((c.minted.id, p.1), bound) }
  else if (db.licenseSetEntitlements.get? (c.minted.id, ed.setId)).isNone ∧
      (db.packageSets.get? ed.setId).isNone then
    .error .foreignKeyViolation
  else .ok { w with setEdges := [((c.minted.id, ed.setId), bound)] }

/-- Where a call stands. -/
inductive IssuePc where
  | start
  | inserting
  | attaching (now : Timestamp) (ed : Edition)
  | committing
  | committed
  | rereading (idempotencyKey : String)
  | recovering (id : Uuid)
  | done (answer : Except SqlError (Option IssuedLicense))
  | crashed

/-- The call has not returned and its connection stands. -/
def IssuePc.running : IssuePc → Prop
  | .done _ | .crashed => False
  | _ => True

/-- The key row a call inserts. -/
def IssueCall.entry (ses : Session) (now : Timestamp) (c : IssueCall) (ed : Edition) :
    Uuid × LicenseKey :=
  (c.minted.id, Catalog.issuedRow ses now c ed)

section Steps

variable {ι : Type} [DecidableEq ι]

/-- The call's own writes replaced. -/
def IssueStore.write (s : IssueStore ι) (i : ι) (w : Option IssueWrites) : IssueStore ι :=
  ⟨s.db, Function.update s.pending i w⟩

/-- One statement, commit or rollback of `issue_from_edition_inner`. -/
inductive IssueStep (ses : Session) (secret : Option SecretKey) (calls : ι → IssueCall) :
    Act ι (IssueStore ι) IssuePc
  /-- The fast path finds no prior issue; the transaction begins. -/
  | began {i s} (h : ((calls i).idempotencyKey.bind
      (s.db.licenseIdForIdempotency (calls i).repo (calls i).edition)) = none) :
      IssueStep ses secret calls i s .start s .inserting
  | replayed {i s id} (h : ((calls i).idempotencyKey.bind
      (s.db.licenseIdForIdempotency (calls i).repo (calls i).edition)) = some id) :
      IssueStep ses secret calls i s .start s (.recovering id)
  | noEdition {i s} (h : s.db.activeEdition (calls i).repo (calls i).edition = none) :
      IssueStep ses secret calls i s .inserting s (.done (.ok none))
  | inserted {i s now ed db'} (h : s.db.activeEdition (calls i).repo (calls i).edition = some ed)
      (hfree : s.db.insertLicenseKey (calls i).minted.id
        (Catalog.issuedRow ses now (calls i) ed) = .ok db')
      (hothers : ∀ j w, j ≠ i → s.pending j = some w →
        ¬ LicenseKey.Conflict ((calls i).entry ses now ed) w.key) :
      IssueStep ses secret calls i s .inserting
        (s.write i (some ⟨(calls i).entry ses now ed, [], []⟩)) (.attaching now ed)
  /-- A committed row conflicts, and there is no key to resolve the winner by. -/
  | refused {i s now ed e} (h : s.db.activeEdition (calls i).repo (calls i).edition = some ed)
      (hconflict : s.db.insertLicenseKey (calls i).minted.id
        (Catalog.issuedRow ses now (calls i) ed) = .error e)
      (hidem : (calls i).idempotencyKey = none) :
      IssueStep ses secret calls i s .inserting s (.done (.error e))
  | lost {i s now ed e idem} (h : s.db.activeEdition (calls i).repo (calls i).edition = some ed)
      (hconflict : s.db.insertLicenseKey (calls i).minted.id
        (Catalog.issuedRow ses now (calls i) ed) = .error e)
      (hidem : (calls i).idempotencyKey = some idem) :
      IssueStep ses secret calls i s .inserting s (.rereading idem)
  | attached {i s now ed w w'} (h : s.pending i = some w)
      (hedges : s.db.attachedEdges ses now (calls i) ed w = .ok w') :
      IssueStep ses secret calls i s (.attaching now ed) (s.write i (some w')) .committing
  | unattached {i s now ed w e} (h : s.pending i = some w)
      (hedges : s.db.attachedEdges ses now (calls i) ed w = .error e) :
      IssueStep ses secret calls i s (.attaching now ed) (s.write i none) (.done (.error e))
  | commits {i s w} (h : s.pending i = some w) :
      IssueStep ses secret calls i s .committing
        ⟨w.commit s.db, Function.update s.pending i none⟩ .committed
  | answers {i s} :
      IssueStep ses secret calls i s .committed s
        (.done (.ok (some ⟨(calls i).minted.id, some (calls i).minted.key, true⟩)))
  | vanished {i s idem} (h : s.db.licenseIdForIdempotency (calls i).repo (calls i).edition idem
      = none) : IssueStep ses secret calls i s (.rereading idem) s (.done (.ok none))
  | resolved {i s idem id} (h : s.db.licenseIdForIdempotency (calls i).repo (calls i).edition idem
      = some id) : IssueStep ses secret calls i s (.rereading idem) s (.recovering id)
  | recovered {i s id} :
      IssueStep ses secret calls i s (.recovering id) s
        (.done (.ok (some (s.db.replay secret (calls i).repo id))))
  | crashes {i s p} (h : p.running) :
      IssueStep ses secret calls i s p (s.write i none) .crashed

/-- Every call about to start. -/
def issuingFrom (db : Catalog) : Config ι (IssueStore ι) IssuePc :=
  ⟨⟨db, fun _ => none⟩, fun _ => .start⟩

end Steps

/-! ## A call on its own -/

/-- What the transaction commits is what the sequential function returns. -/
theorem attachEditionSet_eq_commit {db db' : Catalog} {ses : Session} {now : Timestamp}
    {c : IssueCall} {ed : Edition}
    (hinsert : db.insertLicenseKey c.minted.id (Catalog.issuedRow ses now c ed) = .ok db') :
    db'.attachEditionSet ses now c.minted.id ed.setId ed.snapshotAtIssue
        (if c.boundOnEdge then some c.edition else none)
      = (db.attachedEdges ses now c ed ⟨c.entry ses now ed, [], []⟩).map (·.commit db) := by
  unfold Catalog.insertLicenseKey at hinsert
  split_ifs at hinsert
  rw [← Except.ok.inj hinsert]
  unfold Catalog.attachEditionSet Catalog.attachedEdges
  show (if ed.snapshotAtIssue then _ else if (db.licenseSetEntitlements.get? _).isNone ∧
    (db.packageSets.get? ed.setId).isNone then _ else _) = _
  split_ifs <;> rfl

/-- A call that runs alone answers what `issue_from_edition_inner` does, and leaves the
state it leaves. -/
theorem issueFromEditionInner_executes {ι : Type} [DecidableEq ι] (ses : Session)
    (secret : Option SecretKey) (now : Timestamp) (calls : ι → IssueCall) (i : ι)
    {db db' : Catalog} {answer : Option IssuedLicense}
    (h : db.issueFromEditionInner ses secret now (calls i) = .ok (answer, db')) :
    ∃ events c, Execution (IssueStep ses secret calls) (issuingFrom db) events c ∧
      c.shared.db = db' ∧ c.pc i = .done (.ok answer) := by
  suffices halone : ∃ s : IssueStore ι, s.db = db' ∧
      Alone (IssueStep ses secret calls) i (⟨db, fun _ => none⟩, .start)
        (s, .done (.ok answer)) by
    obtain ⟨s, hdb, halone⟩ := halone
    let start : Config ι (IssueStore ι) IssuePc := issuingFrom db
    have hfrom : Alone (IssueStep ses secret calls) i (start.shared, start.pc i)
        (s, .done (.ok answer)) := halone
    obtain ⟨events, c, hrun, hshared, hpc⟩ := Execution.of_alone hfrom
    exact ⟨events, c, hrun, by rw [hshared, hdb], hpc⟩
  unfold Catalog.issueFromEditionInner at h
  cases hfast : (calls i).idempotencyKey.bind
      (db.licenseIdForIdempotency (calls i).repo (calls i).edition) with
  | some id =>
    -- a replay
    simp only [hfast] at h
    obtain ⟨rfl, rfl⟩ := Prod.mk.inj (Except.ok.inj h)
    exact ⟨_, rfl, ((Alone.refl _).next (.replayed hfast)).next .recovered⟩
  | none =>
    have hbegan : Alone (IssueStep ses secret calls) i (⟨db, fun _ => none⟩, .start)
        (⟨db, fun _ => none⟩, .inserting) := (Alone.refl _).next (.began hfast)
    cases hedition : db.activeEdition (calls i).repo (calls i).edition with
    | none =>
      simp only [hfast, hedition] at h
      obtain ⟨rfl, rfl⟩ := Prod.mk.inj (Except.ok.inj h)
      exact ⟨_, rfl, hbegan.next (.noEdition hedition)⟩
    | some ed =>
      cases hinsert : db.insertLicenseKey (calls i).minted.id
          (Catalog.issuedRow ses now (calls i) ed) with
      | error e =>
        -- a row under the key's id or hash
        cases hidem : (calls i).idempotencyKey with
        | none =>
          simp only [hedition, hinsert, hidem] at h
          exact absurd h nofun
        | some idem =>
          have hlost := hbegan.next (.lost hedition hinsert hidem)
          have hnone : db.licenseIdForIdempotency (calls i).repo (calls i).edition idem = none := by
            rwa [hidem, Option.bind_some] at hfast
          simp only [hedition, hinsert, hidem, Option.bind_some, hnone] at h
          obtain ⟨rfl, rfl⟩ := Prod.mk.inj (Except.ok.inj h)
          exact ⟨_, rfl, hlost.next (.vanished hnone)⟩
      | ok db₁ =>
        have hinserted := hbegan.next (.inserted hedition hinsert
          fun _ w _ hw => absurd (show none = some w from hw) nofun)
        simp only [hfast, hedition, hinsert, attachEditionSet_eq_commit hinsert] at h
        cases hedges : db.attachedEdges ses now (calls i) ed
            ⟨(calls i).entry ses now ed, [], []⟩ with
        | error e =>
          simp only [hedges, Except.map] at h
          exact absurd h nofun
        | ok w =>
          simp only [hedges, Except.map] at h
          obtain ⟨rfl, rfl⟩ := Prod.mk.inj (Except.ok.inj h)
          have hattached := hinserted.next (.attached (Function.update_self _ _ _) hedges)
          have hcommits := hattached.next (.commits (Function.update_self _ _ _))
          exact ⟨_, rfl, hcommits.next .answers⟩

/-! ## Unique columns -/

/-- No two rows of `license_keys` violate a unique constraint. -/
def Catalog.KeysUnique (db : Catalog) : Prop :=
  ∀ r ∈ db.licenseKeys.rows, ∀ r' ∈ db.licenseKeys.rows, r ≠ r' → ¬ LicenseKey.Conflict r r'

/-- The row has the unique columns the call inserts. -/
structure IssueCall.Wrote (c : IssueCall) (r : Uuid × LicenseKey) : Prop where
  id : r.1 = c.minted.id
  hash : r.2.keyHash = c.minted.hash
  repo : r.2.repoId = c.repo
  edition : r.2.editionId = some c.edition
  idempotencyKey : r.2.idempotencyKey = c.idempotencyKey

/-- The rows two calls insert violate a unique constraint together. -/
def IssueCall.Clash (a b : IssueCall) : Prop :=
  a.minted.id = b.minted.id ∨ a.minted.hash = b.minted.hash ∨
    (a.repo = b.repo ∧ a.edition = b.edition ∧ a.idempotencyKey = b.idempotencyKey ∧
      a.idempotencyKey.isSome)

theorem IssueCall.Clash.symm {a b : IssueCall} (h : a.Clash b) : b.Clash a := by
  rcases h with h | h | ⟨hr, he, hi, hs⟩
  · exact Or.inl h.symm
  · exact Or.inr (Or.inl h.symm)
  · exact Or.inr (Or.inr ⟨hr.symm, he.symm, hi.symm, hi ▸ hs⟩)

theorem IssueCall.wrote_entry (ses : Session) (now : Timestamp) (c : IssueCall) (ed : Edition) :
    c.Wrote (c.entry ses now ed) := ⟨rfl, rfl, rfl, rfl, rfl⟩

/-- Two rows conflict exactly when the calls that wrote them clash. -/
theorem IssueCall.Wrote.conflict_iff {a b : IssueCall} {r r' : Uuid × LicenseKey}
    (h : a.Wrote r) (h' : b.Wrote r') : LicenseKey.Conflict r r' ↔ a.Clash b := by
  unfold LicenseKey.Conflict IssueCall.Clash
  rw [h.id, h'.id, h.hash, h'.hash, h.repo, h'.repo, h.edition, h'.edition, h.idempotencyKey,
    h'.idempotencyKey]
  simp only [Option.some.injEq, Option.isSome_some, true_and]

/-- A key is inserted only where no stored key conflicts. -/
theorem not_conflict_of_insertLicenseKey {db db' : Catalog} {id : Uuid} {row : LicenseKey}
    (h : db.insertLicenseKey id row = .ok db') :
    ∀ r ∈ db.licenseKeys.rows, ¬ LicenseKey.Conflict (id, row) r := by
  unfold Catalog.insertLicenseKey at h
  split_ifs at h with hany
  intro r hr hconflict
  exact hany (List.any_eq_true.2 ⟨r, hr, decide_eq_true hconflict⟩)

/-- The row the idempotency lookup finds. -/
theorem exists_of_licenseIdForIdempotency {db : Catalog} {repo edition : Uuid} {idem : String}
    {id : Uuid} (h : db.licenseIdForIdempotency repo edition idem = some id) :
    ∃ r ∈ db.licenseKeys.rows, r.1 = id ∧ r.2.repoId = repo ∧ r.2.editionId = some edition ∧
      r.2.idempotencyKey = some idem := by
  unfold Catalog.licenseIdForIdempotency at h
  obtain ⟨r, hfind, hid⟩ := Option.map_eq_some_iff.1 h
  have hsel := List.find?_some hfind
  exact ⟨r, List.mem_of_find?_eq_some hfind, hid, of_decide_eq_true hsel⟩

/-! ## The outline -/

section Outline

variable {ι : Type}

/-- The invariant: committed and pending rows together satisfy the unique
constraints. -/
structure IssueInv (s : IssueStore ι) : Prop where
  unique : s.db.KeysUnique
  free : ∀ i w, s.pending i = some w → ∀ r ∈ s.db.licenseKeys.rows, ¬ LicenseKey.Conflict w.key r
  apart : ∀ i j w w', i ≠ j → s.pending i = some w → s.pending j = some w' →
    ¬ LicenseKey.Conflict w.key w'.key

/-- Key `id` is committed for the call's repo, edition and idempotency key. -/
def Catalog.IssuedFor (db : Catalog) (c : IssueCall) (id : Uuid) : Prop :=
  ∃ r ∈ db.licenseKeys.rows, r.1 = id ∧ r.2.repoId = c.repo ∧ r.2.editionId = some c.edition ∧
    r.2.idempotencyKey = c.idempotencyKey

/-- The row the call inserted is committed. -/
def Catalog.Committed (db : Catalog) (c : IssueCall) : Prop :=
  ∃ r ∈ db.licenseKeys.rows, c.Wrote r

/-- What holds where a call stands. -/
def IssueAt (calls : ι → IssueCall) (i : ι) (s : IssueStore ι) : IssuePc → Prop
  | .attaching _ _ | .committing => ∃ w, s.pending i = some w ∧ (calls i).Wrote w.key
  | .committed => s.pending i = none ∧ s.db.Committed (calls i)
  | .rereading idem => s.pending i = none ∧ (calls i).idempotencyKey = some idem
  | .recovering id => s.pending i = none ∧ s.db.IssuedFor (calls i) id
  | .done (.ok (some license)) => s.pending i = none ∧ s.db.IssuedFor (calls i) license.id ∧
      (license.created = true → s.db.Committed (calls i))
  | _ => s.pending i = none

/-- The call's insert went through, and was not rolled back. -/
def IssuePc.won : IssuePc → Prop
  | .attaching _ _ | .committing | .committed => True
  | .done (.ok (some license)) => license.created = true
  | _ => False

/-- Two calls whose inserts went through do not clash. -/
def IssueApart (calls : ι → IssueCall) (i j : ι) (p q : IssuePc) : Prop :=
  p.won → q.won → ¬ (calls i).Clash (calls j)

/-- A call that is committed is issued under its own id. -/
theorem Catalog.IssuedFor.of_committed {db : Catalog} {c : IssueCall} (h : db.Committed c) :
    db.IssuedFor c c.minted.id := by
  obtain ⟨r, hr, hwrote⟩ := h
  exact ⟨r, hr, hwrote.id, hwrote.repo, hwrote.edition, hwrote.idempotencyKey⟩

/-- A call that won has its entry pending, or committed. -/
theorem IssueAt.exists_of_won {calls : ι → IssueCall} {i : ι} {s : IssueStore ι} {p : IssuePc}
    (h : IssueAt calls i s p) (hp : p.won) :
    (∃ w, s.pending i = some w ∧ (calls i).Wrote w.key) ∨ s.db.Committed (calls i) := by
  cases p with
  | attaching now ed => exact Or.inl h
  | committing => exact Or.inl h
  | committed => exact Or.inr h.2
  | done answer =>
    match answer, h, hp with
    | .ok (some license), h, hp => exact Or.inr (h.2.2 hp)
  | _ => exact hp.elim

/-- An assertion stays while the call's own writes do and no committed row goes. -/
theorem IssueAt.mono {calls : ι → IssueCall} {i : ι} {s s' : IssueStore ι} {p : IssuePc}
    (h : IssueAt calls i s p) (hpending : s'.pending i = s.pending i)
    (hrows : ∀ r ∈ s.db.licenseKeys.rows, r ∈ s'.db.licenseKeys.rows) : IssueAt calls i s' p := by
  have hissued : ∀ id, s.db.IssuedFor (calls i) id → s'.db.IssuedFor (calls i) id := by
    rintro id ⟨r, hr, hid⟩
    exact ⟨r, hrows r hr, hid⟩
  have hcommitted : s.db.Committed (calls i) → s'.db.Committed (calls i) := by
    rintro ⟨r, hr, hwrote⟩
    exact ⟨r, hrows r hr, hwrote⟩
  match p, h with
  | .attaching _ _, ⟨w, hw, hwrote⟩ => exact ⟨w, hpending.trans hw, hwrote⟩
  | .committing, ⟨w, hw, hwrote⟩ => exact ⟨w, hpending.trans hw, hwrote⟩
  | .committed, ⟨hnone, hc⟩ => exact ⟨hpending.trans hnone, hcommitted hc⟩
  | .recovering id, ⟨hnone, hid⟩ => exact ⟨hpending.trans hnone, hissued id hid⟩
  | .done (.ok (some license)), ⟨hnone, hid, hc⟩ =>
    exact ⟨hpending.trans hnone, hissued license.id hid, fun hcreated => hcommitted (hc hcreated)⟩
  | .done (.ok none), hnone => exact hpending.trans hnone
  | .done (.error _), hnone => exact hpending.trans hnone
  | .start, hnone => exact hpending.trans hnone
  | .inserting, hnone => exact hpending.trans hnone
  | .rereading _, ⟨hnone, hidem⟩ => exact ⟨hpending.trans hnone, hidem⟩
  | .crashed, hnone => exact hpending.trans hnone

/-- The row a transaction commits is new to the table. -/
theorem mem_rows_commit {i : ι} {s : IssueStore ι} (hinv : IssueInv s) {w : IssueWrites}
    (hw : s.pending i = some w) (r : Uuid × LicenseKey) :
    r ∈ (w.commit s.db).licenseKeys.rows ↔ r ∈ s.db.licenseKeys.rows ∨ r = w.key := by
  apply Table.mem_rows_insertNew
  rw [Table.get?_eq_none_iff]
  intro v hv
  exact hinv.free i w hw _ hv (Or.inl rfl)

variable [DecidableEq ι] {ses : Session} {secret : Option SecretKey} {calls : ι → IssueCall}
  {i : ι} {s s' : IssueStore ι} {p p' : IssuePc}

/-- A step leaves the other calls' writes and the committed rows. -/
theorem IssueStep.frame (h : IssueStep ses secret calls i s p s' p') (hinv : IssueInv s) :
    (∀ j, j ≠ i → s'.pending j = s.pending j) ∧
      ∀ r ∈ s.db.licenseKeys.rows, r ∈ s'.db.licenseKeys.rows := by
  have hwrite : ∀ w, (∀ j, j ≠ i → (s.write i w).pending j = s.pending j) ∧
      ∀ r ∈ s.db.licenseKeys.rows, r ∈ (s.write i w).db.licenseKeys.rows :=
    fun w => ⟨fun j hj => Function.update_of_ne hj _ _, fun _ hr => hr⟩
  cases h with
  | inserted => exact hwrite _
  | attached => exact hwrite _
  | unattached => exact hwrite _
  | crashes => exact hwrite _
  | commits hw =>
    refine ⟨fun j hj => Function.update_of_ne hj _ _, fun r hr => ?_⟩
    exact (mem_rows_commit hinv hw r).2 (Or.inl hr)
  | _ => exact ⟨fun _ _ => rfl, fun _ hr => hr⟩

/-- Writes with the key row of no new conflict keep the invariant. -/
theorem IssueInv.write (hinv : IssueInv s) {w : IssueWrites}
    (hfree : ∀ r ∈ s.db.licenseKeys.rows, ¬ LicenseKey.Conflict w.key r)
    (hothers : ∀ j w', j ≠ i → s.pending j = some w' → ¬ LicenseKey.Conflict w.key w'.key) :
    IssueInv (s.write i (some w)) where
  unique := hinv.unique
  free := by
    intro j w' hw'
    change Function.update s.pending i (some w) j = some w' at hw'
    by_cases hj : j = i
    · subst hj
      rw [Function.update_self, Option.some.injEq] at hw'
      subst hw'
      exact hfree
    · rw [Function.update_of_ne hj] at hw'
      exact hinv.free j w' hw'
  apart := by
    intro j k w₁ w₂ hjk h₁ h₂
    change Function.update s.pending i (some w) j = some w₁ at h₁
    change Function.update s.pending i (some w) k = some w₂ at h₂
    by_cases hj : j = i
    · subst hj
      rw [Function.update_self, Option.some.injEq] at h₁
      rw [Function.update_of_ne (Ne.symm hjk)] at h₂
      subst h₁
      exact hothers k w₂ (Ne.symm hjk) h₂
    · rw [Function.update_of_ne hj] at h₁
      by_cases hk : k = i
      · subst hk
        rw [Function.update_self, Option.some.injEq] at h₂
        subst h₂
        exact fun hconflict => hothers j w₁ hj h₁ hconflict.symm
      · rw [Function.update_of_ne hk] at h₂
        exact hinv.apart j k w₁ w₂ hjk h₁ h₂

/-- So does giving up the writes. -/
theorem IssueInv.rollback (hinv : IssueInv s) : IssueInv (s.write i none) where
  unique := hinv.unique
  free := by
    intro j w hw
    change Function.update s.pending i none j = some w at hw
    by_cases hj : j = i
    · subst hj
      rw [Function.update_self] at hw
      exact absurd hw nofun
    · rw [Function.update_of_ne hj] at hw
      exact hinv.free j w hw
  apart := by
    intro j k w₁ w₂ hjk h₁ h₂
    change Function.update s.pending i none j = some w₁ at h₁
    change Function.update s.pending i none k = some w₂ at h₂
    by_cases hj : j = i
    · subst hj
      rw [Function.update_self] at h₁
      exact absurd h₁ nofun
    · by_cases hk : k = i
      · subst hk
        rw [Function.update_self] at h₂
        exact absurd h₂ nofun
      · rw [Function.update_of_ne hj] at h₁
        rw [Function.update_of_ne hk] at h₂
        exact hinv.apart j k w₁ w₂ hjk h₁ h₂

/-- So does the commit, which makes a pending row a committed one. -/
theorem IssueInv.commit (hinv : IssueInv s) {w : IssueWrites} (hw : s.pending i = some w) :
    IssueInv ⟨w.commit s.db, Function.update s.pending i none⟩ where
  unique := by
    intro r hr r' hr' hne
    rcases (mem_rows_commit hinv hw r).1 hr with hr | rfl
    · rcases (mem_rows_commit hinv hw r').1 hr' with hr' | rfl
      · exact hinv.unique r hr r' hr' hne
      · exact fun hconflict => hinv.free i w hw r hr hconflict.symm
    · rcases (mem_rows_commit hinv hw r').1 hr' with hr' | rfl
      · exact hinv.free i w hw r' hr'
      · exact absurd rfl hne
  free := by
    intro j w' hw' r hr
    change Function.update s.pending i none j = some w' at hw'
    by_cases hj : j = i
    · subst hj
      rw [Function.update_self] at hw'
      exact absurd hw' nofun
    · rw [Function.update_of_ne hj] at hw'
      rcases (mem_rows_commit hinv hw r).1 hr with hr | rfl
      · exact hinv.free j w' hw' r hr
      · exact hinv.apart j i w' w hj hw' hw
  apart := (hinv.rollback (i := i)).apart

/-- Attaching the edges leaves the key that is pending. -/
theorem attachedEdges_key {db : Catalog} {now : Timestamp} {c : IssueCall} {ed : Edition}
    {w w' : IssueWrites} (h : db.attachedEdges ses now c ed w = .ok w') : w'.key = w.key := by
  unfold Catalog.attachedEdges at h
  split_ifs at h <;> rw [← Except.ok.inj h]

/-- A step keeps the invariant and reaches the assertion at its end. -/
theorem IssueStep.sound (h : IssueStep ses secret calls i s p s' p') (hinv : IssueInv s)
    (hat : IssueAt calls i s p) : IssueInv s' ∧ IssueAt calls i s' p' := by
  cases h with
  | began => exact ⟨hinv, hat⟩
  | replayed hid =>
    obtain ⟨idem, hidem, hfound⟩ := Option.bind_eq_some_iff.1 hid
    obtain ⟨r, hr, hrid, hrepo, hedition, hkey⟩ := exists_of_licenseIdForIdempotency hfound
    exact ⟨hinv, hat, r, hr, hrid, hrepo, hedition, hkey.trans hidem.symm⟩
  | noEdition => exact ⟨hinv, hat⟩
  | @inserted _ _ now ed _ _ hfree hothers =>
    -- the insert is let in only where no other transaction holds a row in conflict
    have hentry := IssueCall.wrote_entry ses now (calls i) ed
    have hinv' := hinv.write (i := i) (w := ⟨(calls i).entry ses now ed, [], []⟩)
      (not_conflict_of_insertLicenseKey hfree) hothers
    exact ⟨hinv', _, Function.update_self i _ s.pending, hentry⟩
  | refused => exact ⟨hinv, hat⟩
  | lost _ _ hidem => exact ⟨hinv, hat, hidem⟩
  | attached hw hedges =>
    -- the edges are new, the key of the pending write is the same
    have hkey := attachedEdges_key hedges
    obtain ⟨w₀, hw₀, hwrote⟩ := hat
    obtain rfl : w₀ = _ := Option.some.inj (hw₀.symm.trans hw)
    refine ⟨hinv.write ?_ ?_, _, Function.update_self _ _ _, ?_⟩
    · rw [hkey]
      exact hinv.free i _ hw
    · rw [hkey]
      exact fun j w' hj hw' => hinv.apart i j _ w' (Ne.symm hj) hw hw'
    · rw [hkey]
      exact hwrote
  | unattached => exact ⟨hinv.rollback, Function.update_self _ _ _⟩
  | commits hw =>
    obtain ⟨w₀, hw₀, hwrote⟩ := hat
    obtain rfl : w₀ = _ := Option.some.inj (hw₀.symm.trans hw)
    refine ⟨hinv.commit hw, Function.update_self _ _ _, _, ?_, hwrote⟩
    exact (mem_rows_commit hinv hw _).2 (Or.inr rfl)
  | answers => exact ⟨hinv, hat.1, .of_committed hat.2, fun _ => hat.2⟩
  | vanished => exact ⟨hinv, hat.1⟩
  | resolved hid =>
    -- the loser of a race finds the row of the winner
    obtain ⟨r, hr, hrid, hrepo, hedition, hkey⟩ := exists_of_licenseIdForIdempotency hid
    exact ⟨hinv, hat.1, r, hr, hrid, hrepo, hedition, hkey.trans hat.2.symm⟩
  | recovered => exact ⟨hinv, hat.1, hat.2, fun hcreated => absurd hcreated Bool.false_ne_true⟩
  | crashes => exact ⟨hinv.rollback, Function.update_self _ _ _⟩

/-- Where a step wins, the row it inserts conflicts with no other call's. -/
theorem IssueStep.keeps {j : ι} {q : IssuePc} (hij : i ≠ j)
    (h : IssueStep ses secret calls i s p s' p') (hj : IssueAt calls j s q)
    (hapart : IssueApart calls i j p q) : IssueApart calls i j p' q := by
  cases h with
  | @inserted _ _ now ed _ _ hfree hothers =>
    intro _ hq hclash
    have hentry := IssueCall.wrote_entry ses now (calls i) ed
    rcases hj.exists_of_won hq with ⟨w, hw, hwrote⟩ | ⟨r, hr, hwrote⟩
    · exact hothers j w (Ne.symm hij) hw ((hentry.conflict_iff hwrote).2 hclash)
    · exact not_conflict_of_insertLicenseKey hfree r hr ((hentry.conflict_iff hwrote).2 hclash)
  | attached => exact fun _ => hapart trivial
  | commits => exact fun _ => hapart trivial
  | answers => exact fun _ => hapart trivial
  | recovered => exact fun hwon => absurd hwon Bool.false_ne_true
  | _ => exact fun hwon => hwon.elim

/-- The outline of issuing. -/
theorem issuing_outline (ses : Session) (secret : Option SecretKey) (calls : ι → IssueCall) :
    Outline (IssueStep ses secret calls) IssueInv (IssueAt calls) (IssueApart calls) where
  symm := fun h hq hp hclash => h hp hq hclash.symm
  sound := IssueStep.sound
  free := fun hij hact hinv _ hat _ =>
    have hframe := hact.frame hinv
    hat.mono (hframe.1 _ (Ne.symm hij)) hframe.2
  keeps := fun hij hact _ _ hat hapart => hact.keeps hij hat hapart

omit [DecidableEq ι] in
/-- The annotation holds where nothing is pending. -/
theorem issuingFrom_annotated {db : Catalog} (hindex : db.KeysUnique) (calls : ι → IssueCall) :
    Annotated IssueInv (IssueAt calls) (IssueApart calls) (issuingFrom db) where
  inv := by
    refine ⟨hindex, ?_, ?_⟩
    · intro i w hw
      exact absurd (show none = some w from hw) nofun
    · intro i j w w' _ hw
      exact absurd (show none = some w from hw) nofun
  at_ := fun _ => rfl
  apart := fun _ _ _ hp => hp.elim

end Outline

/-- The call is for this repo, edition and idempotency key. -/
def IssueCall.isFor (c : IssueCall) (repo edition : Uuid) (idem : String) : Prop :=
  c.repo = repo ∧ c.edition = edition ∧ c.idempotencyKey = some idem

/-- The row is of this repo, edition and idempotency key. -/
def LicenseKey.isFor (key : LicenseKey) (repo edition : Uuid) (idem : String) : Prop :=
  key.repoId = repo ∧ key.editionId = some edition ∧ key.idempotencyKey = some idem

/-- **Issuing is exactly once under races.**  In every configuration that any number
of concurrent calls reach, whatever their interleaving and their crashes, there is at
most one key row for a repo, edition and idempotency key; every such call that has
returned a licence has returned that row's id; and at most one of them created it. -/
theorem issuing_exactly_once {ι : Type} [DecidableEq ι] (ses : Session)
    (secret : Option SecretKey) (calls : ι → IssueCall) {db : Catalog} (hindex : db.KeysUnique)
    {events : List (Event ι (IssueStore ι))} {c : Config ι (IssueStore ι) IssuePc}
    (hrun : Execution (IssueStep ses secret calls) (issuingFrom db) events c)
    (repo edition : Uuid) (idem : String) :
    (∀ r ∈ c.shared.db.licenseKeys.rows, ∀ r' ∈ c.shared.db.licenseKeys.rows,
        r.2.isFor repo edition idem → r'.2.isFor repo edition idem → r = r') ∧
      (∀ i license, (calls i).isFor repo edition idem → c.pc i = .done (.ok (some license)) →
        ∃ r ∈ c.shared.db.licenseKeys.rows, r.1 = license.id ∧ r.2.isFor repo edition idem) ∧
      ∀ i j license license', (calls i).isFor repo edition idem →
        (calls j).isFor repo edition idem → c.pc i = .done (.ok (some license)) →
        c.pc j = .done (.ok (some license')) → license.created = true →
        license'.created = true → i = j := by
  have hall := (issuing_outline ses secret calls).holds (issuingFrom_annotated hindex calls) hrun
  refine ⟨?_, ?_, ?_⟩
  · -- the partial unique index
    rintro r hr r' hr' ⟨hrepo, hedition, hidem⟩ ⟨hrepo', hedition', hidem'⟩
    by_contra hne
    refine hall.inv.unique r hr r' hr' hne (Or.inr (Or.inr ⟨?_, ?_, ?_, ?_, ?_⟩))
    · rw [hrepo, hrepo']
    · rw [hedition, hedition']
    · rw [hedition]
      rfl
    · rw [hidem, hidem']
    · rw [hidem]
      rfl
  · rintro i license ⟨hrepo, hedition, hidem⟩ hpc
    have hat := hall.at_ i
    rw [hpc] at hat
    obtain ⟨-, ⟨r, hr, hid, hrepo', hedition', hidem'⟩, -⟩ := hat
    exact ⟨r, hr, hid, hrepo'.trans hrepo, hedition'.trans (congrArg some hedition),
      hidem'.trans hidem⟩
  · rintro i j license license' ⟨hrepo, hedition, hidem⟩ ⟨hrepo', hedition', hidem'⟩ hi hj
      hcreated hcreated'
    by_contra hij
    have hapart := hall.apart i j hij
    rw [hi, hj] at hapart
    refine hapart hcreated hcreated' (Or.inr (Or.inr ⟨?_, ?_, ?_, ?_⟩))
    · rw [hrepo, hrepo']
    · rw [hedition, hedition']
    · rw [hidem, hidem']
    · rw [hidem]
      rfl

namespace Shop

/-- Both entry points called for one order of the annual edition. -/
def race (account : Bool) : IssueCall where
  repo := 1
  edition := 1
  buyer := some "buyer"
  idempotencyKey := some "order-1"
  boundOnEdge := account
  minted :=
    if account then ⟨1, "sclk_1", ⟨Vector.replicate 32 1⟩, none⟩
    else ⟨2, "sclk_2", ⟨Vector.replicate 32 2⟩, none⟩

/-- What the account call has written before it attaches the set. -/
def raceWrites : IssueWrites :=
  ⟨(race true).entry .utc openingDay (edition "Core annual" 1 (.time 12) annual_valid), [], []⟩

/-- The account call wins the race: the other one has missed the fast path, loses the
insert, and resolves to the winner. -/
theorem exists_race : ∃ events c,
    Execution (IssueStep .utc none race) (issuingFrom opened) events c ∧
      c.pc true = .done (.ok (some ⟨1, some "sclk_1", true⟩)) ∧
      c.pc false = .done (.ok (some ⟨1, none, false⟩)) := by
  have h₀ : Execution (IssueStep .utc none race) (issuingFrom opened) [] _ := .start
  have h₁ := h₀.step (i := false) (.began rfl)
  have h₂ := h₁.step (i := true) (.began rfl)
  have hinsert : IssueStep .utc none race true ⟨opened, fun _ => none⟩ .inserting
      (IssueStore.write ⟨opened, fun _ => none⟩ true (some raceWrites))
      (.attaching openingDay (edition "Core annual" 1 (.time 12) (by decide))) := by
    refine .inserted rfl rfl ?_
    intro j w _ hw
    exact absurd (show none = some w from hw) nofun
  have h₃ := h₂.step (i := true) hinsert
  have h₄ := h₃.step (i := true) (.attached rfl rfl)
  have h₅ := h₄.step (i := true) (.commits rfl)
  have h₆ := h₅.step (i := true) .answers
  have h₇ := h₆.step (i := false)
    (@IssueStep.lost Bool _ .utc none race false _ openingDay _ _ "order-1" rfl rfl rfl)
  have h₈ := h₇.step (i := false) (.resolved rfl)
  have h₉ := h₈.step (i := false) .recovered
  exact ⟨_, _, h₉, rfl, rfl⟩

/-- The race meets the exactly-once law. -/
theorem issuing_exactly_once_race : ∃ c : Config Bool (IssueStore Bool) IssuePc,
    c.pc true = .done (.ok (some ⟨1, some "sclk_1", true⟩)) ∧
      c.pc false = .done (.ok (some ⟨1, none, false⟩)) ∧
      ∃ r ∈ c.shared.db.licenseKeys.rows, r.1 = 1 ∧ r.2.isFor 1 1 "order-1" := by
  obtain ⟨events, c, hrun, hwon, hlost⟩ := exists_race
  have hindex : opened.KeysUnique := fun r hr => absurd hr List.not_mem_nil
  have honce := issuing_exactly_once .utc none race hindex hrun 1 1 "order-1"
  exact ⟨c, hwon, hlost, honce.2.1 true _ ⟨rfl, rfl, rfl⟩ hwon⟩

end Shop

end Sconce
