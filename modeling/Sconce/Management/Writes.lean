/-
# What the management API writes

A request writes through at most one of the catalog's writers of keys and edges, for the
repository its service token is of (`exec_api`), so runs of requests are runs of those writers.

A writer changes the bound or the status of stored keys, or inserts the one key it minted
(`keysStep_run`).
-/
import Sconce.Management.Api
import Sconce.Licensing.ForeignKeys
import Sconce.Concurrency.Issuing
import Sconce.Licensing.Merge

namespace Sconce

open Effect

/-! ## The writer of a request -/

/-- The writer a request for the repository comes to. -/
def ApiRequest.op? (env : ApiEnv) (r : ApiRequest) (repo : Uuid) (db : Catalog) :
    Option LicenseOp :=
  match r.call with
  | .listEditions | .inspectLicense _ => none
  | .issueLicense edition buyer account => (db.findEdition repo (trim edition)).map fun e =>
      .issue ⟨repo, e, (buyer.map trim).filter fun b => !b.isEmpty, r.idempotencyKey, account, r.minted⟩
  | .renewLicense id => (env.parseUuid id).map fun license =>
      .renew ⟨repo, license, none, r.idempotencyKey⟩
  | .addLicenseEdition id edition => (env.parseUuid id).bind fun license =>
      (db.findEdition repo (trim edition)).map fun e => .addEdition repo license e
  | .renewLicenseEdition id edition => (env.parseUuid id).bind fun license =>
      (db.findEdition repo (trim edition)).map fun e =>
        .renew ⟨repo, license, some e, r.idempotencyKey⟩
  | .removeLicenseEdition id edition => (env.parseUuid id).bind fun license =>
      (db.findEdition repo (trim edition)).map fun e => .removeEdition repo license e
  | .mergeLicense id into => (env.parseUuid id).bind fun source =>
      (env.parseUuid into).map fun target => .merge repo source target
  | .revokeLicense id => (env.parseUuid id).map fun license => .revoke repo license

/-- The repository a writer is given. -/
def LicenseOp.repo : LicenseOp → Uuid
  | .issue c => c.repo
  | .addEdition repo _ _ | .merge repo _ _ | .removeEdition repo _ _ | .setBound repo _ _ _
  | .revoke repo _ => repo
  | .renew c => c.repo

/-- A request's writer is for the repository it authenticated for. -/
theorem ApiRequest.repo_of_op? {env : ApiEnv} {r : ApiRequest} {repo : Uuid} {db : Catalog}
    {op : LicenseOp} (h : r.op? env repo db = some op) : op.repo = repo := by
  unfold op? at h
  cases hcall : r.call <;> rw [hcall] at h <;>
    simp only [Option.map_eq_some_iff, Option.bind_eq_some_iff, reduceCtorEq] at h
  all_goals first
    | obtain ⟨_, _, rfl⟩ := h; rfl
    | obtain ⟨_, _, _, _, rfl⟩ := h; rfl

section Exec

variable {α β : Type} {env : ApiEnv} {r : ApiRequest} {repo : Uuid} {db : Catalog}

/-- What only reads after a computation leaves its state. -/
theorem snd_exec_bind_of_reads {σ ε : Type} {m : Effect σ ε α} {k : α → Effect σ ε β} {s : σ}
    (h : ∀ a, Keeps (SameOn id) (k a)) : (exec (m >>= k) s).2 = (exec m s).2 := by
  rw [exec_bind]
  unfold andThen
  cases (exec m s).1 with
  | ok a => exact h a _
  | error e => rfl

/-- A writer commits its operation's catalog, or answers its error and commits nothing. -/
theorem exec_writer (op : Catalog → Except SqlError (α × Catalog)) :
    exec (writer op) db = match op db with
      | .ok (a, db') => (.ok a, db')
      | .error e => (.error (.db e), db) := by
  unfold writer
  rw [exec_bind, exec_get]
  simp only [andThen]
  cases op db with
  | error e => rfl
  | ok x => rfl

/-- What a writer leaves is the catalog of its operation, or the one before it. -/
theorem snd_exec_writer (op : Catalog → Except SqlError (α × Catalog)) :
    (exec (writer op) db).2 = rolledBack db (op db) := by
  rw [exec_writer]
  cases op db <;> rfl

/-- A lookup that finds nothing ends the handler with its error. -/
theorem exec_orFail_bind {e : ApiError} (o : Option α) (k : α → Effect Catalog ApiError β) :
    exec (orFail e o >>= k) db = match o with
      | some a => exec (k a) db
      | none => (.error e, db) := by
  cases o <;> rfl

/-- A lookup changes nothing. -/
theorem reads_orFail (e : ApiError) (o : Option α) : Keeps (SameOn id) (orFail e o) := by
  cases o with
  | none => exact keeps_throw e
  | some a => exact keeps_pure a

/-- Showing a key changes nothing. -/
theorem reads_shownDetail (license : Uuid) : Keeps (SameOn id) (shownDetail env repo license) :=
  keeps_bind keeps_get fun _ => reads_orFail _ _

/-- A request reaches its route where its token opens the repository. -/
theorem exec_api_eq (env : ApiEnv) (r : ApiRequest) (db : Catalog) :
    exec (api env r) db = match authedRepo env r db with
      | .ok repo => exec (apiRoute env r repo) db
      | .error e => (.error e, db) := by
  unfold api
  rw [exec_bind, exec_get]
  simp only [andThen]
  rw [exec_bind, exec_ofExcept]
  cases authedRepo env r db <;> rfl

/-- **The writer of a request is all it runs.** -/
theorem exec_api (env : ApiEnv) (r : ApiRequest) (db : Catalog) :
    (exec (api env r) db).2 = match authedRepo env r db with
      | .ok repo => (r.op? env repo db).elim db fun op =>
          LicenseOp.run env.read.session env.secretKey db ⟨r.now, op⟩
      | .error _ => db := by
  rw [exec_api_eq]
  cases hauth : authedRepo env r db with
  | error e => rfl
  | ok repo =>
    simp only
    unfold ApiRequest.op? apiRoute
    -- handler by handler: what comes before the writer and after it only reads
    cases r.call with
    | listEditions => rfl
    | inspectLicense license =>
      have hreads : Keeps (SameOn id) (inspectLicense env r repo license) :=
        keeps_bind (reads_orFail _ _) fun _ => keeps_bind (reads_shownDetail _) fun _ => keeps_pure _
      exact hreads db
    | issueLicense edition buyer account =>
      dsimp only
      unfold issueLicenseKey
      rw [exec_bind, exec_get]
      simp only [andThen]
      rw [exec_orFail_bind]
      cases db.findEdition repo (trim edition) with
      | none => rfl
      | some e =>
        refine (snd_exec_bind_of_reads fun issued => ?_).trans (snd_exec_writer _)
        refine keeps_bind (reads_orFail _ _) fun _ => keeps_bind (reads_shownDetail _) fun _ => ?_
        exact keeps_bind keeps_get fun _ => keeps_pure _
    | renewLicense id =>
      dsimp only
      unfold renewLicenseKey parseLicenseId
      rw [exec_orFail_bind]
      cases env.parseUuid id with
      | none => rfl
      | some license =>
        refine (snd_exec_bind_of_reads fun renewed => ?_).trans (snd_exec_writer _)
        exact keeps_bind (reads_orFail _ _) fun _ =>
          keeps_bind (reads_shownDetail _) fun _ => keeps_pure _
    | renewLicenseEdition id edition =>
      dsimp only
      unfold renewLicenseEdge parseLicenseId
      rw [exec_orFail_bind]
      cases env.parseUuid id with
      | none => rfl
      | some license =>
        simp only
        rw [exec_bind, exec_get]
        simp only [andThen]
        rw [exec_orFail_bind]
        cases db.findEdition repo (trim edition) with
        | none => rfl
        | some e =>
          refine (snd_exec_bind_of_reads fun renewed => ?_).trans (snd_exec_writer _)
          exact keeps_bind (reads_orFail _ _) fun _ =>
            keeps_bind (reads_shownDetail _) fun _ => keeps_pure _
    | addLicenseEdition id edition =>
      dsimp only
      unfold addLicenseEdition parseLicenseId
      rw [exec_orFail_bind]
      cases env.parseUuid id with
      | none => rfl
      | some license =>
        simp only
        rw [exec_bind, exec_get]
        simp only [andThen]
        rw [exec_orFail_bind]
        cases db.findEdition repo (trim edition) with
        | none => rfl
        | some e =>
          refine (snd_exec_bind_of_reads fun outcome => ?_).trans (snd_exec_writer _)
          cases outcome with
          | added =>
            exact keeps_bind (reads_shownDetail _) fun _ => keeps_bind keeps_get fun _ => keeps_pure _
          | standalone | noKey | noEdition => exact keeps_throw _
    | removeLicenseEdition id edition =>
      dsimp only
      unfold removeLicenseEdition parseLicenseId
      rw [exec_orFail_bind]
      cases env.parseUuid id with
      | none => rfl
      | some license =>
        simp only
        rw [exec_bind, exec_get]
        simp only [andThen]
        cases db.findEdition repo (trim edition) with
        | none => rfl
        | some e =>
          refine (snd_exec_bind_of_reads fun found => ?_).trans (snd_exec_writer _)
          split
          · exact keeps_pure _
          · exact keeps_throw _
    | mergeLicense id into =>
      dsimp only
      unfold mergeLicense parseLicenseId
      rw [exec_orFail_bind]
      cases env.parseUuid id with
      | none => rfl
      | some source =>
        simp only
        rw [exec_orFail_bind]
        cases env.parseUuid into with
        | none => rfl
        | some target =>
          refine (snd_exec_bind_of_reads fun outcome => ?_).trans (snd_exec_writer _)
          cases outcome with
          | merged => exact keeps_bind (reads_shownDetail _) fun _ => keeps_pure _
          | noSource | noTarget | targetBounded | sameKey => exact keeps_throw _
    | revokeLicense id =>
      dsimp only
      unfold revokeLicenseKey parseLicenseId
      rw [exec_orFail_bind]
      cases env.parseUuid id with
      | none => rfl
      | some license =>
        refine (snd_exec_bind_of_reads fun found => ?_).trans (snd_exec_writer _)
        split
        · exact keeps_pure _
        · exact keeps_throw _

end Exec

/-! ## What a writer does to the keys -/

/-- What becomes of a stored key: its bound and its status may change, and a revoked key stays
revoked. -/
structure LicenseKey.Continues (l l' : LicenseKey) : Prop where
  columns : l' = { l with status := l'.status, bound := l'.bound }
  revoked : l.status = .revoked → l'.status = .revoked

theorem LicenseKey.Continues.refl (l : LicenseKey) : l.Continues l := ⟨rfl, id⟩

/-- A key that is revoked goes on. -/
theorem LicenseKey.Continues.revoke (l : LicenseKey) : l.Continues { l with status := .revoked } :=
  ⟨rfl, fun _ => rfl⟩

/-- A key whose bound moves goes on. -/
theorem LicenseKey.Continues.withBound (l : LicenseKey) (bound : UpdateBound) :
    l.Continues { l with bound } :=
  ⟨rfl, id⟩

/-- A key stays in its repository. -/
theorem LicenseKey.Continues.repoId {l l' : LicenseKey} (h : l.Continues l') :
    l'.repoId = l.repoId := by
  rw [h.columns]

/-- What a writer does to the table of keys. -/
inductive KeysStep (op : LicenseOp) (db db' : Catalog) : Prop where
  | updated (f : Uuid → LicenseKey → LicenseKey) (hf : ∀ id (l : LicenseKey), l.Continues (f id l))
      (hkeys : db'.licenseKeys = db.licenseKeys.update f)
  | inserted (c : IssueCall) (row : LicenseKey) (hop : op = .issue c)
      (hwrote : c.Wrote (c.minted.id, row))
      (hfree : ∀ r ∈ db.licenseKeys.rows, ¬ LicenseKey.Conflict (c.minted.id, row) r)
      (hkeys : db'.licenseKeys = db.licenseKeys.insertNew c.minted.id row)

namespace KeysStep

variable {op : LicenseOp} {db db' : Catalog}

/-- The keys as they were. -/
theorem same (h : db'.licenseKeys = db.licenseKeys) : KeysStep op db db' := by
  refine .updated (fun _ l => l) (fun _ l => .refl l) (h.trans ?_)
  exact (Table.update_eq_self fun _ _ _ => rfl).symm

end KeysStep

/-- Attaching a set writes no key. -/
theorem licenseKeys_attachEditionSet {db db' : Catalog} {ses : Session} {now : Timestamp}
    {license packageSet : Uuid} {snapshot : Bool} {boundFromEdition : Option Uuid}
    (h : db.attachEditionSet ses now license packageSet snapshot boundFromEdition = .ok db') :
    db'.licenseKeys = db.licenseKeys := by
  unfold Catalog.attachEditionSet at h
  dsimp only at h
  split_ifs at h
  · rw [← Except.ok.inj h]
  · rw [← Except.ok.inj h]

/-- An issue inserts one key, or writes none. -/
theorem keysStep_issueFromEditionInner {db db' : Catalog} {ses : Session}
    {secret : Option SecretKey} {now : Timestamp} {c : IssueCall} {issued : Option IssuedLicense}
    (h : db.issueFromEditionInner ses secret now c = .ok (issued, db')) :
    KeysStep (.issue c) db db' := by
  unfold Catalog.issueFromEditionInner at h
  split at h
  · rw [← (Prod.mk.inj (Except.ok.inj h)).2]
    exact .same rfl
  · split at h
    · rw [← (Prod.mk.inj (Except.ok.inj h)).2]
      exact .same rfl
    · split at h
      · -- the insert lost a race: nothing is written
        split at h
        · cases h
        · split at h
          · rw [← (Prod.mk.inj (Except.ok.inj h)).2]
            exact .same rfl
          · rw [← (Prod.mk.inj (Except.ok.inj h)).2]
            exact .same rfl
      · rename_i ed _ _ inserted hinsert
        split at h
        · cases h
        · rename_i attached hattach
          rw [← (Prod.mk.inj (Except.ok.inj h)).2]
          refine .inserted c (Catalog.issuedRow ses now c ed) rfl (IssueCall.wrote_entry ses now c ed)
            (not_conflict_of_insertLicenseKey hinsert) ?_
          rw [licenseKeys_attachEditionSet hattach, Catalog.insertLicenseKey_ok hinsert]

/-- A renewal moves the bound of one key at most. -/
theorem keysStep_renew (db : Catalog) (ses : Session) (now : Timestamp) (c : RenewCall) :
    KeysStep (.renew c) db (rolledBack db (db.renew ses now c)) := by
  rw [db.renew_state ses now c]
  split_ifs
  · obtain ⟨ledger, hledger⟩ := db.recorded_eq c
    rw [hledger]
    unfold Catalog.extendBound
    cases c.edition with
    | none =>
      rcases Catalog.renewKey_cases { db with licenseRenewals := ledger } ses now c.repo c.license with
        ⟨-, heq⟩ | ⟨l, period, -, -, -, heq⟩
      · dsimp only
        rw [heq]
        exact .same rfl
      · dsimp only
        rw [heq]
        let date := ses.extend now l.bound.updateUntil period
        refine .updated (fun id l => if id = c.license then
          { l with bound := { l.bound with updateUntil := some date } } else l) (fun id l => ?_) rfl
        split_ifs
        · exact .withBound l _
        · exact .refl l
    | some edition =>
      rcases Catalog.renewEdge_cases { db with licenseRenewals := ledger } ses now c.repo c.license
        edition with ⟨-, heq⟩ | ⟨packageSet, b, date, period, -, -, -, -, heq⟩
      · dsimp only
        rw [heq]
        exact .same rfl
      · dsimp only
        rw [heq]
        exact .same rfl
  · exact .same rfl

/-- **What a writer does to the keys.** -/
theorem keysStep_run (ses : Session) (secret : Option SecretKey) (db : Catalog)
    (x : Timed LicenseOp) : KeysStep x.op db (LicenseOp.run ses secret db x) := by
  obtain ⟨now, op⟩ := x
  cases op with
  | issue c =>
    show KeysStep _ db (rolledBack db (db.issueFromEditionInner ses secret now c))
    cases hissue : db.issueFromEditionInner ses secret now c with
    | error e => exact .same rfl
    | ok answer => exact keysStep_issueFromEditionInner hissue
  | addEdition repo license edition =>
    show KeysStep _ db (rolledBack db (db.addEditionToLicense ses now repo license edition))
    rcases db.addEditionToLicense_cases ses now repo license edition with
      ⟨key, ed, -, -, hadded⟩ | ⟨hsame, -⟩
    · rw [hadded]
      exact .same rfl
    · rw [hsame]
      exact .same rfl
  | merge repo source target =>
    show KeysStep _ db (db.mergeLicenseKeys repo source target).2
    rcases db.mergeLicenseKeys_cases repo source target with
      ⟨sourceKey, targetKey, -, -, -, -, heq⟩ | ⟨outcome, -, heq⟩
    · rw [heq]
      -- a merge revokes its source; the edges are no part of a key
      refine .updated (fun id l => if id = source then { l with status := .revoked } else l)
        (fun id l => ?_) rfl
      split_ifs
      · exact .revoke l
      · exact .refl l
    · rw [heq]
      exact .same rfl
  | removeEdition repo license edition => exact .same rfl
  | setBound repo license until? major =>
    refine .updated (fun id l => if id = license ∧ l.repoId = repo then
      { l with bound := ⟨until?, major⟩ } else l) (fun id l => ?_) rfl
    split_ifs
    · exact .withBound l _
    · exact .refl l
  | revoke repo license =>
    refine .updated (fun id l => if id = license ∧ l.repoId = repo then
      { l with status := .revoked } else l) (fun id l => ?_) rfl
    split_ifs
    · exact .revoke l
    · exact .refl l
  | renew c => exact keysStep_renew db ses now c

/-! ## What a writer leaves alone -/

/-- The tables but those of keys, of edges and of the renewal ledger. -/
def Catalog.BesideLicences (db db' : Catalog) : Prop :=
  db' = { db with
    licenseKeys := db'.licenseKeys
    entitlements := db'.entitlements
    licenseSetEntitlements := db'.licenseSetEntitlements
    licenseRenewals := db'.licenseRenewals }

instance : IsPreorder Catalog Catalog.BesideLicences where
  refl _ := rfl
  trans db db' db'' h h' := by
    unfold Catalog.BesideLicences at h h' ⊢
    rw [h', h]

theorem besideLicences_attachEditionSet {db db' : Catalog} {ses : Session} {now : Timestamp}
    {license packageSet : Uuid} {snapshot : Bool} {boundFromEdition : Option Uuid}
    (h : db.attachEditionSet ses now license packageSet snapshot boundFromEdition = .ok db') :
    db.BesideLicences db' := by
  unfold Catalog.attachEditionSet at h
  dsimp only at h
  split_ifs at h
  · rw [← Except.ok.inj h]
    rfl
  · rw [← Except.ok.inj h]
    rfl

theorem besideLicences_issueFromEditionInner {db db' : Catalog} {ses : Session}
    {secret : Option SecretKey} {now : Timestamp} {c : IssueCall} {issued : Option IssuedLicense}
    (h : db.issueFromEditionInner ses secret now c = .ok (issued, db')) :
    db.BesideLicences db' := by
  unfold Catalog.issueFromEditionInner at h
  split at h
  · rw [← (Prod.mk.inj (Except.ok.inj h)).2]
    rfl
  · split at h
    · rw [← (Prod.mk.inj (Except.ok.inj h)).2]
      rfl
    · split at h
      · -- the insert lost a race: nothing is written
        split at h
        · cases h
        · split at h
          · rw [← (Prod.mk.inj (Except.ok.inj h)).2]
            rfl
          · rw [← (Prod.mk.inj (Except.ok.inj h)).2]
            rfl
      · rename_i inserted hinsert
        split at h
        · cases h
        · rename_i attached hattach
          rw [← (Prod.mk.inj (Except.ok.inj h)).2]
          have hinserted : db.BesideLicences inserted := by
            rw [Catalog.insertLicenseKey_ok hinsert]
            rfl
          exact trans_of Catalog.BesideLicences hinserted (besideLicences_attachEditionSet hattach)

theorem besideLicences_renew (db : Catalog) (ses : Session) (now : Timestamp) (c : RenewCall) :
    db.BesideLicences (rolledBack db (db.renew ses now c)) := by
  rw [db.renew_state ses now c]
  split_ifs
  · obtain ⟨ledger, hledger⟩ := db.recorded_eq c
    rw [hledger]
    unfold Catalog.extendBound
    cases c.edition with
    | none =>
      dsimp only
      unfold Catalog.renewKey
      split
      · rfl
      · rfl
    | some edition =>
      dsimp only
      unfold Catalog.renewEdge
      split
      · rfl
      · rfl
  · rfl

/-- **What a writer leaves alone.** -/
theorem besideLicences_run (ses : Session) (secret : Option SecretKey) (db : Catalog)
    (x : Timed LicenseOp) : db.BesideLicences (LicenseOp.run ses secret db x) := by
  obtain ⟨now, op⟩ := x
  cases op with
  | issue c =>
    show db.BesideLicences (rolledBack db (db.issueFromEditionInner ses secret now c))
    cases hissue : db.issueFromEditionInner ses secret now c with
    | error e => rfl
    | ok answer => exact besideLicences_issueFromEditionInner hissue
  | addEdition repo license edition =>
    show db.BesideLicences (rolledBack db (db.addEditionToLicense ses now repo license edition))
    rcases db.addEditionToLicense_cases ses now repo license edition with
      ⟨key, ed, -, -, hadded⟩ | ⟨hsame, -⟩
    · rw [hadded]
      rfl
    · rw [hsame]
      rfl
  | merge repo source target =>
    show db.BesideLicences (db.mergeLicenseKeys repo source target).2
    rcases db.mergeLicenseKeys_cases repo source target with
      ⟨sourceKey, targetKey, -, -, -, -, heq⟩ | ⟨outcome, -, heq⟩
    · rw [heq]
      rfl
    · rw [heq]
      rfl
  | removeEdition repo license edition => rfl
  | setBound repo license until? major => rfl
  | revoke repo license => rfl
  | renew c => exact besideLicences_renew db ses now c

/-! ## Requests as runs of writers -/

/-- A request either leaves the state alone, or runs one writer for the repository it is
authenticated for. -/
theorem exec_api_cases (env : ApiEnv) (r : ApiRequest) (db : Catalog) :
    (exec (api env r) db).2 = db ∨ ∃ repo op, authedRepo env r db = .ok repo ∧
      r.op? env repo db = some op ∧
      (exec (api env r) db).2 = LicenseOp.run env.read.session env.secretKey db ⟨r.now, op⟩ := by
  rw [exec_api]
  cases hauth : authedRepo env r db with
  | error e => exact .inl rfl
  | ok repo =>
    cases hop : r.op? env repo db with
    | none => exact .inl (by dsimp only; rw [hop]; rfl)
    | some op => exact .inr ⟨repo, op, rfl, hop, by dsimp only; rw [hop]; rfl⟩

/-- No request touches anything beside the licences. -/
theorem besideLicences_api (env : ApiEnv) (r : ApiRequest) (db : Catalog) :
    db.BesideLicences (exec (api env r) db).2 := by
  rcases exec_api_cases env r db with hsame | ⟨repo, op, -, -, hrun⟩
  · rw [hsame]
    rfl
  · rw [hrun]
    exact besideLicences_run _ _ db _

/-- No request changes who another is authenticated for. -/
theorem authedRepo_api {env : ApiEnv} {r : ApiRequest} {db : Catalog} (r' : ApiRequest) :
    authedRepo env r' (exec (api env r) db).2 = authedRepo env r' db := by
  rw [besideLicences_api env r db]
  rfl

end Sconce
