/-
# Issuing, accumulating, merging and renewing

The catalog's writers of licence keys and entitlement edges, statement by
statement.  `now` is the database's clock, the same for every statement of one
transaction.  A function that can fail returns no state with its error: the
transaction is rolled back.

`LicenseOp` collects the writers; `LicenseOp.run` is the state one of them
leaves.
-/
import Sconce.Licensing.Entitlements
import Sconce.Lib.Run

namespace Sconce

/-! ## Statements of several functions -/

/-- An edition's bound template resolved at `now`: a time bound counts from
there, a version bound is a cap, a perpetual edition sets neither. -/
def Session.resolveBound (ses : Session) (now : Timestamp) : EditionBound → UpdateBound
  | .perpetual => .unbounded
  | .time periodMonths => ⟨some (ses.addMonths now periodMonths), none⟩
  | .version major => ⟨none, some major⟩

/-- `update_until is null and version_cap_major is null`. -/
def UpdateBound.perpetual (b : UpdateBound) : Bool :=
  b.updateUntil.isNone && b.versionCapMajor.isNone

/-- A bound is perpetual where neither axis has an end. -/
theorem UpdateBound.perpetual_iff (b : UpdateBound) : b.perpetual = true ↔ b = unbounded := by
  cases b with
  | mk u m => cases u <;> cases m <;> simp [perpetual, unbounded]

namespace Catalog

variable (db : Catalog)

/-- `… from license_keys where id = license and repo_id = repo`. -/
def keyIn (repo license : Uuid) : Option LicenseKey :=
  (db.licenseKeys.get? license).filter fun l => l.repoId = repo

/-- The same, `and status = 'active'`. -/
def activeKey (repo license : Uuid) : Option LicenseKey :=
  (db.keyIn repo license).filter fun l => l.status = .active

/-- An active key of a repository: its row, its repository and its status. -/
theorem activeKey_eq_some_iff (repo license : Uuid) (key : LicenseKey) :
    db.activeKey repo license = some key ↔
      db.licenseKeys.get? license = some key ∧ key.repoId = repo ∧ key.status = .active := by
  unfold activeKey keyIn
  simp only [Option.filter_eq_some_iff, decide_eq_true_eq, and_assoc]

theorem get?_of_activeKey {repo license : Uuid} {key : LicenseKey}
    (h : db.activeKey repo license = some key) : db.licenseKeys.get? license = some key :=
  ((db.activeKey_eq_some_iff repo license key).1 h).1

/-- `… from editions where id = edition and repo_id = repo and active`. -/
def activeEdition (repo edition : Uuid) : Option Edition :=
  (db.editions.get? edition).filter fun e => e.repoId = repo ∧ e.active

/-- The bounds the left join on `editions` gives an attached edge: the edition's
template when there is one to resolve, else NULL on both axes. -/
def edgeBound (ses : Session) (now : Timestamp) (boundFromEdition : Option Uuid) : UpdateBound :=
  match boundFromEdition.bind db.editions.get? with
  | some ed => ses.resolveBound now ed.bound
  | none => .unbounded

/-- `attach_edition_set`: freeze the set's current packages as entitlements of
their own, or unlock the set by reference. -/
def attachEditionSet (ses : Session) (now : Timestamp) (license set : Uuid) (snapshot : Bool)
    (boundFromEdition : Option Uuid) : Except SqlError Catalog :=
  let bound := db.edgeBound ses now boundFromEdition
  if snapshot then
    .ok { db with
      entitlements := db.entitlements.insertAll
        ((db.setPackages set).map fun p => ((license, p.1), bound)) }
  else if (db.licenseSetEntitlements.get? (license, set)).isNone ∧
      (db.packageSets.get? set).isNone then
    .error .foreignKeyViolation
  else
    .ok { db with
      licenseSetEntitlements := db.licenseSetEntitlements.insertNew (license, set) bound }

end Catalog

/-! ## Issuing -/

/-- What `mint_license_key` draws, with the id the row is given. -/
structure Minted where
  id : Uuid
  key : String
  hash : Sha256
  ciphertext : Option (List UInt8)

/-- A call of `issue_from_edition` (the bound on the key) or of
`issue_account_key_from_edition` (the bound on the edge). -/
structure IssueCall where
  repo : Uuid
  edition : Uuid
  buyer : Option String
  idempotencyKey : Option String
  boundOnEdge : Bool
  minted : Minted

/-- An issued licence. -/
structure IssuedLicense where
  id : Uuid
  key : Option String
  created : Bool

/-- Recovers a key from its ciphertext, when a secret key is configured. -/
abbrev SecretKey := List UInt8 → Option String

/-- Two rows of `license_keys` that no table may hold together: the primary key,
the unique `key_hash`, and the partial unique index on
`(repo_id, edition_id, idempotency_key)`. -/
def LicenseKey.Conflict (a b : Uuid × LicenseKey) : Prop :=
  a.1 = b.1 ∨ a.2.keyHash = b.2.keyHash ∨
    (a.2.repoId = b.2.repoId ∧ a.2.editionId = b.2.editionId ∧ a.2.editionId.isSome ∧
      a.2.idempotencyKey = b.2.idempotencyKey ∧ a.2.idempotencyKey.isSome)

instance (a b : Uuid × LicenseKey) : Decidable (LicenseKey.Conflict a b) := by
  unfold LicenseKey.Conflict
  infer_instance

theorem LicenseKey.Conflict.symm {a b : Uuid × LicenseKey} (h : LicenseKey.Conflict a b) :
    LicenseKey.Conflict b a := by
  rcases h with h | h | ⟨hr, he, hes, hi, his⟩
  · exact Or.inl h.symm
  · exact Or.inr (Or.inl h.symm)
  · exact Or.inr (Or.inr ⟨hr.symm, he.symm, he ▸ hes, hi.symm, hi ▸ his⟩)

namespace Catalog

variable (db : Catalog)

/-- `license_id_for_idempotency`. -/
def licenseIdForIdempotency (repo edition : Uuid) (idempotencyKey : String) : Option Uuid :=
  (db.licenseKeys.rows.find? fun r => r.2.repoId = repo ∧ r.2.editionId = some edition ∧
    r.2.idempotencyKey = some idempotencyKey).map (·.1)

/-- `license_key_plaintext`. -/
def licenseKeyPlaintext (secret : Option SecretKey) (repo license : Uuid) : Option String := do
  let decrypt ← secret
  let row ← db.keyIn repo license
  let bytes ← row.keyCiphertext
  decrypt bytes

/-- The row the issuing insert selects from the edition: its policy, and its
resolved bound unless that goes on the edge. -/
def issuedRow (ses : Session) (now : Timestamp) (c : IssueCall) (ed : Edition) : LicenseKey where
  repoId := c.repo
  keyHash := c.minted.hash
  keyCiphertext := c.minted.ciphertext
  buyerRef := c.buyer
  status := .active
  editionId := some c.edition
  idempotencyKey := c.idempotencyKey
  bound := if c.boundOnEdge then .unbounded else ses.resolveBound now ed.bound
  policy := ed.policy

/-- Insert a key, under the table's unique constraints. -/
def insertLicenseKey (id : Uuid) (row : LicenseKey) : Except SqlError Catalog :=
  if db.licenseKeys.rows.any fun r => LicenseKey.Conflict (id, row) r then
    .error .uniqueViolation
  else
    .ok { db with licenseKeys := db.licenseKeys.insertNew id row }

/-- The answer to a replay: the key issued before. -/
def replay (secret : Option SecretKey) (repo license : Uuid) : IssuedLicense where
  id := license
  key := db.licenseKeyPlaintext secret repo license
  created := false

/-- `issue_from_edition_inner`. -/
def issueFromEditionInner (ses : Session) (secret : Option SecretKey) (now : Timestamp)
    (c : IssueCall) : Except SqlError (Option IssuedLicense × Catalog) :=
  match c.idempotencyKey.bind (db.licenseIdForIdempotency c.repo c.edition) with
  | some id => .ok (some (db.replay secret c.repo id), db)
  | none =>
    match db.activeEdition c.repo c.edition with
    | none => .ok (none, db)
    | some ed =>
      match db.insertLicenseKey c.minted.id (issuedRow ses now c ed) with
      | .error e =>
        -- a lost race: nothing was inserted, resolve to the winner
        match c.idempotencyKey with
        | none => .error e
        | some idem =>
          match db.licenseIdForIdempotency c.repo c.edition idem with
          | none => .ok (none, db)
          | some id => .ok (some (db.replay secret c.repo id), db)
      | .ok db' =>
        match db'.attachEditionSet ses now c.minted.id ed.setId ed.snapshotAtIssue
            (if c.boundOnEdge then some c.edition else none) with
        | .error e => .error e
        | .ok db'' =>
          .ok (some { id := c.minted.id, key := some c.minted.key, created := true }, db'')

end Catalog

/-! ## Accumulating -/

/-- The outcome of `add_edition_to_license`. -/
inductive EditionAdd where
  | added
  | standalone
  | noKey
  | noEdition
  deriving DecidableEq

/-- The outcome of `merge_license_keys`. -/
inductive LicenseMerge where
  | merged
  | noSource
  | noTarget
  | targetBounded
  | sameKey
  deriving DecidableEq

namespace Catalog

variable (db : Catalog)

/-- `add_edition_to_license`. -/
def addEditionToLicense (ses : Session) (now : Timestamp) (repo license edition : Uuid) :
    Except SqlError (EditionAdd × Catalog) :=
  match db.activeKey repo license with
  | none => .ok (.noKey, db)
  | some key =>
    match db.activeEdition repo edition with
    | none => .ok (.noEdition, db)
    | some ed =>
      if !key.bound.perpetual || ed.snapshotAtIssue then .ok (.standalone, db)
      else
        match db.attachEditionSet ses now license ed.setId false (some edition) with
        | .error e => .error e
        | .ok db' => .ok (.added, db')

/-- One of the two copying statements of a merge: every edge of the source, its
bound materialized, joined into the target's edge on the same target. -/
def copyEdges (edges : Table (Uuid × Uuid) UpdateBound) (sourceKey : UpdateBound)
    (source target : Uuid) : Table (Uuid × Uuid) UpdateBound :=
  edges.upsertAll
    ((edges.rows.filter fun r => r.1.1 = source).map fun r =>
      ((target, r.1.2), r.2.inherit sourceKey))
    UpdateBound.widest

/-- `merge_license_keys`. -/
def mergeLicenseKeys (repo source target : Uuid) : LicenseMerge × Catalog :=
  if source = target then (.sameKey, db)
  else
    match db.activeKey repo source with
    | none => (.noSource, db)
    | some sourceKey =>
      match db.activeKey repo target with
      | none => (.noTarget, db)
      | some targetKey =>
        if targetKey.bound.perpetual then
          (.merged, { db with
            licenseSetEntitlements :=
              copyEdges db.licenseSetEntitlements sourceKey.bound source target
            entitlements := copyEdges db.entitlements sourceKey.bound source target
            licenseKeys := db.licenseKeys.update fun id l =>
              if id = source then { l with status := .revoked } else l })
        else (.targetBounded, db)

/-- `remove_edition_from_license`. -/
def removeEditionFromLicense (repo license edition : Uuid) : Bool × Catalog :=
  let set := ((db.editions.get? edition).filter fun e => e.repoId = repo).map (·.setId)
  ((db.keyIn repo license).isSome,
    { db with
      licenseSetEntitlements := db.licenseSetEntitlements.delete fun k _ =>
        (db.keyIn repo license).isSome ∧ k.1 = license ∧ some k.2 = set })

/-- `set_license_bound`, its date already read. -/
def setLicenseBound (repo license : Uuid) (until? : Option Timestamp) (major : Option ℤ) :
    Bool × Catalog :=
  ((db.keyIn repo license).isSome,
    { db with
      licenseKeys := db.licenseKeys.update fun id l =>
        if id = license ∧ l.repoId = repo then { l with bound := ⟨until?, major⟩ } else l })

/-- `revoke_license`. -/
def revokeLicense (repo license : Uuid) : Bool × Catalog :=
  ((db.keyIn repo license).isSome,
    { db with
      licenseKeys := db.licenseKeys.update fun id l =>
        if id = license ∧ l.repoId = repo then { l with status := .revoked } else l })

end Catalog

/-! ## Renewing -/

/-- `greatest(update_until, now()) + make_interval(months => period)`. -/
def Session.extend (ses : Session) (now : Timestamp) (until? : Option Timestamp) (period : ℤ) :
    Timestamp :=
  ses.addMonths (match until? with | some t => max t now | none => now) period

/-- The number of months a time edition renews by. -/
def EditionBound.period : EditionBound → Option ℤ
  | .time periodMonths => some periodMonths
  | _ => none

/-- A call of `renew_license` (no edition) or of `renew_license_edition`. -/
structure RenewCall where
  repo : Uuid
  license : Uuid
  edition : Option Uuid
  idempotencyKey : Option String

namespace Catalog

variable (db : Catalog)

/-- The key row and period that `RENEW_SQL` joins: an active key of the
repository, issued from a time edition. -/
def renewableKey (repo license : Uuid) : Option (LicenseKey × ℤ) := do
  let l ← db.activeKey repo license
  let e ← l.editionId.bind db.editions.get?
  let period ← e.bound.period
  pure (l, period)

/-- The edge and period that `RENEW_EDGE_SQL` joins: an edge with a date of an
active key of the repository, on the set of a time edition of it. -/
def renewableEdge (repo license edition : Uuid) : Option (Uuid × Timestamp × ℤ) := do
  let _ ← db.activeKey repo license
  let e ← (db.editions.get? edition).filter fun e => e.repoId = repo
  let period ← e.bound.period
  let edge ← db.licenseSetEntitlements.get? (license, e.setId)
  let date ← edge.updateUntil
  pure (e.setId, date, period)

/-- `RENEW_SQL`, with the date it returns. -/
def renewKey (ses : Session) (now : Timestamp) (repo license : Uuid) : Option Timestamp × Catalog :=
  match db.renewableKey repo license with
  | none => (none, db)
  | some (l, period) =>
    let date := ses.extend now l.bound.updateUntil period
    (some date, { db with
      licenseKeys := db.licenseKeys.update fun id l =>
        if id = license then { l with bound := { l.bound with updateUntil := some date } } else l })

/-- `RENEW_EDGE_SQL`, with the date it returns. -/
def renewEdge (ses : Session) (now : Timestamp) (repo license edition : Uuid) :
    Option Timestamp × Catalog :=
  match db.renewableEdge repo license edition with
  | none => (none, db)
  | some (set, date, period) =>
    let date := ses.extend now (some date) period
    (some date, { db with
      licenseSetEntitlements := db.licenseSetEntitlements.update fun k b =>
        if k = (license, set) then { b with updateUntil := some date } else b })

/-- The renewal `UPDATE` of a call. -/
def extendBound (ses : Session) (now : Timestamp) (c : RenewCall) : Option Timestamp × Catalog :=
  match c.edition with
  | none => db.renewKey ses now c.repo c.license
  | some edition => db.renewEdge ses now c.repo c.license edition

/-- The date a replayed call reports.  The column of a renewable key may be NULL,
which does not read into the answer's type. -/
def currentBound (c : RenewCall) : Except SqlError (Option Timestamp) :=
  match c.edition with
  | none =>
    match db.renewableKey c.repo c.license with
    | none => .ok none
    | some (l, _) =>
      match l.bound.updateUntil with
      | none => .error .unexpectedNull
      | some date => .ok (some date)
  | some edition => .ok ((db.renewableEdge c.repo c.license edition).map (·.2.1))

/-- The insert into `license_renewals` finds the key and no earlier row. -/
def freshRenewal (repo license : Uuid) (idempotencyKey : String) : Bool :=
  (db.keyIn repo license).isSome &&
    (db.licenseRenewals.get? (license, idempotencyKey)).isNone

/-- The state with the renewal recorded. -/
def recordRenewal (license : Uuid) (idempotencyKey : String) : Catalog :=
  { db with licenseRenewals := db.licenseRenewals.insertNew (license, idempotencyKey) () }

/-- `renew_license` and `renew_license_edition`: the new date, as text. -/
def renew (ses : Session) (now : Timestamp) (c : RenewCall) :
    Except SqlError (Option String × Catalog) :=
  match c.idempotencyKey with
  | none =>
    let (date, db') := db.extendBound ses now c
    .ok (date.map ses.dateText, db')
  | some idem =>
    if db.freshRenewal c.repo c.license idem then
      let (date, db') := (db.recordRenewal c.license idem).extendBound ses now c
      .ok (date.map ses.dateText, db')
    else
      match db.currentBound c with
      | .error e => .error e
      | .ok date => .ok (date.map ses.dateText, db)

end Catalog

/-! ## All the writers -/

/-- A call of one of the writers of keys and edges. -/
inductive LicenseOp where
  | issue (c : IssueCall)
  | addEdition (repo license edition : Uuid)
  | merge (repo source target : Uuid)
  | removeEdition (repo license edition : Uuid)
  | setBound (repo license : Uuid) (until? : Option Timestamp) (major : Option ℤ)
  | revoke (repo license : Uuid)
  | renew (c : RenewCall)

/-- A call together with the clock it runs at. -/
structure Timed (α : Type) where
  now : Timestamp
  op : α

/-- The state left by a call that answers or fails: a failed one is rolled back. -/
def rolledBack {α : Type} (db : Catalog) : Except SqlError (α × Catalog) → Catalog
  | .ok (_, db') => db'
  | .error _ => db

/-- The state a writer leaves. -/
def LicenseOp.run (ses : Session) (secret : Option SecretKey) (db : Catalog)
    (x : Timed LicenseOp) : Catalog :=
  match x.op with
  | .issue c => rolledBack db (db.issueFromEditionInner ses secret x.now c)
  | .addEdition repo license edition =>
    rolledBack db (db.addEditionToLicense ses x.now repo license edition)
  | .merge repo source target => (db.mergeLicenseKeys repo source target).2
  | .removeEdition repo license edition => (db.removeEditionFromLicense repo license edition).2
  | .setBound repo license until? major => (db.setLicenseBound repo license until? major).2
  | .revoke repo license => (db.revokeLicense repo license).2
  | .renew c => rolledBack db (db.renew ses x.now c)

/-! ## A small shop

One repository selling two packages through two sets: the counterexamples and
witnesses of this development run here. -/

namespace Shop

/-- `acme/core` alone is set 1; with `acme/tools` it is set 2. -/
def package (name : String) : Package where
  repoId := 1
  name := name
  kind := "composer"
  source := none
  visibility := .private
  visibilityDeclaredAt := none
  upstreamId := none
  sourcePath := ""
  syncHealth := .ok
  brokenReason := none
  brokenAt := none
  lastSuccessAt := none
  archivedAt := none

/-- An active edition by reference, with no policy of its own. -/
def edition (name : String) (set : Uuid) (bound : EditionBound) (h : bound.Valid) : Edition where
  repoId := 1
  name := name
  slug := none
  setId := set
  bound := bound
  snapshotAtIssue := false
  policy := ⟨none, none⟩
  active := true
  bound_valid := h

theorem annual_valid : EditionBound.Valid (.time 12) := by decide

/-- The shop before its first sale. -/
def opened : Catalog :=
  { Catalog.empty with
    repositories := ⟨[(1, ⟨1, "main", .auto, 0, true, false, none, none, none⟩)], by decide⟩
    packages := ⟨[(1, package "acme/core"), (2, package "acme/tools")], by decide⟩
    packageSets := ⟨[(1, ⟨1, "core"⟩), (2, ⟨1, "suite"⟩)], by decide⟩
    packageSetMembers := ⟨[((1, 1), ()), ((2, 1), ()), ((2, 2), ())], by decide⟩
    editions :=
      ⟨[(1, edition "Core annual" 1 (.time 12) (by decide)),
        (2, edition "Suite lifetime" 2 .perpetual (by decide)),
        (3, edition "Suite 1.x" 2 (.version 1) (by decide)),
        (4, edition "Suite monthly" 2 (.time 1) (by decide))], by decide⟩ }

/-- The sale that opens key 1 as an account key. -/
def firstSale (edition : Uuid) : LicenseOp :=
  .issue
    { repo := 1, edition := edition, buyer := some "buyer", idempotencyKey := some "order-1"
      boundOnEdge := true
      minted :=
        { id := 1, key := "sclk_1", hash := ⟨Vector.replicate 32 1⟩, ciphertext := none } }

/-- 2024-01-31 00:00 UTC. -/
def openingDay : Timestamp := toTimestamp 1706659200

/-- The shop after some calls on its opening day. -/
def after (ops : List LicenseOp) : Catalog :=
  Run.final (LicenseOp.run Session.utc none) opened (ops.map fun op => ⟨openingDay, op⟩)

example : ((after [firstSale 1]).entitledBound 1 "acme/core").isSome = true := by decide

end Shop

end Sconce
