/-
# Failed requests

What a request that is answered with an error has left behind (`failed_request`): the stamp on
the service token it presents, and of what its handler writes nothing, but for two cases.  A
renewal leaves its ledger row where there was nothing to extend; and where the database refuses
to match a rule while the handler reads the licence it shows, the writer has committed before.
-/
import Sconce.Management.Retries

namespace Sconce

open Effect

/-! ## What the database may answer -/

/-- The database with the column `last_used_at` of `service_tokens`, which the API writes and
does not read. -/
structure ApiStore where
  db : Catalog
  lastUsedAt : Uuid → Option Timestamp

/-- The token a request presents. -/
def ApiRequest.Presents (env : ApiEnv) (r : ApiRequest) (db : Catalog) (id : Uuid) : Prop :=
  ∃ token t, extractToken env.read r.authorization = some token ∧
    db.serviceTokens.get? id = some t ∧ t.tokenHash = env.read.tokenHash token ∧
      unexpired r.now t.expiresAt

instance (env : ApiEnv) (r : ApiRequest) (db : Catalog) (id : Uuid) :
    Decidable (r.Presents env db id) :=
  decidable_of_iff ((extractToken env.read r.authorization).any fun token =>
    (db.serviceTokens.get? id).any fun t =>
      t.tokenHash = env.read.tokenHash token ∧ unexpired r.now t.expiresAt) <| by
    unfold ApiRequest.Presents
    simp [Option.any_eq_true]

/-- The update of `resolve_service_token`, a statement of its own: the token is stamped. -/
def ApiStore.stamped (env : ApiEnv) (r : ApiRequest) (s : ApiStore) : Uuid → Option Timestamp :=
  fun id => if r.Presents env s.db id then some r.now else s.lastUsedAt id

/-- A set the licence is entitled through has a rule that Postgres refuses to match. -/
def Catalog.Unmatchable (db : Catalog) (license : Uuid) : Prop :=
  ∃ packageSet rule r, (db.licenseSetEntitlements.get? (license, packageSet)).isSome ∧
    db.packageSetRules.get? rule = some r ∧ r.setId = packageSet ∧ loneEscape r.glob.toList = true

/-- What a request is answered and leaves: what its handler says, unless the database refuses a
statement. -/
inductive ApiEnv.Answers (env : ApiEnv) (r : ApiRequest) (s : ApiStore) :
    Except ApiError ApiAnswer → ApiStore → Prop
  | handled : env.Answers r s (exec (api env r) s.db).1
      ⟨(exec (api env r) s.db).2, s.stamped env r⟩
  /-- A statement up to the commit is refused, and what the handler wrote is rolled back. -/
  | refused (repo : Uuid) (hauth : authedRepo env r s.db = .ok repo) (e : SqlError) :
      env.Answers r s (.error (.db e)) ⟨s.db, s.stamped env r⟩
  /-- `license_detail` comes after the commit, and matches the rules of the licence it shows. -/
  | unread (status : ℕ) (body : LicenseJson)
      (hanswer : (exec (api env r) s.db).1 = .ok (.license status body))
      (hrule : (exec (api env r) s.db).2.Unmatchable body.detail.id) :
      env.Answers r s (.error (.db .invalidEscapeSequence))
        ⟨(exec (api env r) s.db).2, s.stamped env r⟩

/-! ## What a failed handler leaves -/

/-- The renewal `UPDATE` of a call finds a row to extend. -/
def Catalog.extendable (db : Catalog) (c : RenewCall) : Bool :=
  match c.edition with
  | none => (db.renewableKey c.repo c.license).isSome
  | some edition => (db.renewableEdge c.repo c.license edition).isSome

/-- The state is the one before, or a renewal that had nothing to extend has one more row in the
ledger. -/
inductive Untouched (env : ApiEnv) (r : ApiRequest) (db db' : Catalog) : Prop
  | same (h : db' = db)
  | recorded (c : RenewCall) (key : String) (hauth : authedRepo env r db = .ok c.repo)
      (hop : r.op? env c.repo db = some (.renew c)) (hkey : c.idempotencyKey = some key)
      (hfresh : db.freshRenewal c.repo c.license key = true) (hnothing : db.extendable c = false)
      (h : db' = db.recordRenewal c.license key)

section Handlers

variable {env : ApiEnv} {r : ApiRequest} {db : Catalog} {repo license : Uuid}

/-- A bound is read only of a key of the repository. -/
theorem keyIn_of_currentBound {c : RenewCall} {date : Timestamp}
    (h : db.currentBound c = .ok (some date)) : (db.keyIn c.repo c.license).isSome := by
  unfold Catalog.currentBound at h
  cases hedition : c.edition with
  | none =>
    rw [hedition] at h
    cases hrow : db.renewableKey c.repo c.license with
    | none =>
      rw [hrow] at h
      cases h
    | some found =>
      exact keyIn_of_activeKey ((db.renewableKey_eq_some_iff _ _ _ _).1 hrow).1
  | some edition =>
    rw [hedition] at h
    obtain ⟨found, hrow, -⟩ := Option.map_eq_some_iff.1 (Except.ok.inj h)
    obtain ⟨key, hkey⟩ :=
      Option.isSome_iff_exists.1 ((db.renewableEdge_eq_some_iff _ _ _ _ _ _).1 hrow).1
    exact keyIn_of_activeKey hkey

/-- A renewal fails, or has nothing to extend and at most its ledger row is new, or answers
with the date of a key of the repository. -/
theorem renew_outcome (db : Catalog) (ses : Session) (now : Timestamp) (c : RenewCall) :
    (∃ e, db.renew ses now c = .error e) ∨
      (∃ db', db.renew ses now c = .ok (none, db') ∧ (db' = db ∨ ∃ key, c.idempotencyKey = some key ∧
        db.freshRenewal c.repo c.license key = true ∧ db.extendable c = false ∧
          db' = db.recordRenewal c.license key)) ∨
      ∃ date db', db.renew ses now c = .ok (some date, db') ∧
        (db'.keyIn c.repo c.license).isSome := by
  -- the update finds a key or an edge to extend, or leaves the state as it is
  have hextend : ∀ db : Catalog,
      (∃ db', db.extendBound ses now c = (none, db') ∧ db.extendable c = false ∧ db' = db) ∨
      ∃ date db', db.extendBound ses now c = (some date, db') ∧
        (db.keyIn c.repo c.license).isSome ∧ KeysStep (.renew c) db db' := by
    intro db
    unfold Catalog.extendBound Catalog.extendable
    cases c.edition with
    | none =>
      rcases db.renewKey_cases ses now c.repo c.license with
        ⟨hnone, heq⟩ | ⟨l, period, hrow, -, -, heq⟩
      · exact .inl ⟨db, heq, congrArg Option.isSome hnone, rfl⟩
      · obtain ⟨hactive, -⟩ := (db.renewableKey_eq_some_iff _ _ _ _).1 hrow
        refine .inr ⟨_, _, heq, keyIn_of_activeKey hactive, ?_⟩
        refine .updated (fun id l' => if id = c.license then { l' with bound := { l'.bound with
          updateUntil := some (ses.extend now l.bound.updateUntil period) } } else l')
          (fun id l => ?_) rfl
        split_ifs
        · exact .withBound l _
        · exact .refl l
    | some edition =>
      rcases db.renewEdge_cases ses now c.repo c.license edition with
        ⟨hnone, heq⟩ | ⟨packageSet, b, date, period, hrow, -, -, -, heq⟩
      · exact .inl ⟨db, heq, congrArg Option.isSome hnone, rfl⟩
      · obtain ⟨hactive, -⟩ := (db.renewableEdge_eq_some_iff _ _ _ _ _ _).1 hrow
        obtain ⟨key, hkey⟩ := Option.isSome_iff_exists.1 hactive
        exact .inr ⟨_, _, heq, keyIn_of_activeKey hkey, .same rfl⟩
  unfold Catalog.renew
  cases hidem : c.idempotencyKey with
  | none =>
    simp only
    rcases hextend db with ⟨db', heq, -, rfl⟩ | ⟨date, db', heq, hin, hstep⟩
    · rw [heq]
      exact .inr (.inl ⟨_, rfl, .inl rfl⟩)
    · rw [heq]
      exact .inr (.inr ⟨_, _, rfl, hstep.keyIn hin⟩)
  | some idem =>
    simp only
    by_cases hfresh : db.freshRenewal c.repo c.license idem = true
    · rw [if_pos hfresh]
      -- the ledger row goes first, and stays whatever the update finds
      rcases hextend (db.recordRenewal c.license idem) with
        ⟨db', heq, hnothing, rfl⟩ | ⟨date, db', heq, hin, hstep⟩
      · rw [heq]
        exact .inr (.inl ⟨_, rfl, .inr ⟨idem, rfl, hfresh, hnothing, rfl⟩⟩)
      · rw [heq]
        exact .inr (.inr ⟨_, _, rfl, hstep.keyIn hin⟩)
    · rw [if_neg hfresh]
      -- a replay reads the bound
      cases hbound : db.currentBound c with
      | error e => exact .inl ⟨e, rfl⟩
      | ok date =>
        cases date with
        | none => exact .inr (.inl ⟨_, rfl, .inl rfl⟩)
        | some date => exact .inr (.inr ⟨_, _, rfl, keyIn_of_currentBound hbound⟩)

section Tails

variable {α : Type} {p : Catalog → Prop}

/-- A lookup that may fail: what holds where it fails, and what holds of the rest where it finds.
-/
theorem onError_orFail_bind {e : ApiError} {o : Option α} {k : α → ApiHandler}
    (h : o = none → p db) (hk : ∀ a, o = some a → OnError p (k a) db) :
    OnError p (orFail e o >>= k) db := by
  intro e' he
  rw [exec_orFail_bind] at he ⊢
  cases o with
  | none => exact h rfl
  | some a => exact hk a rfl e' he

/-- Showing a key of the repository succeeds, so an error comes from what follows. -/
theorem onError_shownDetail_bind {k : LicenseDetail → ApiHandler} (h : (db.keyIn repo license).isSome)
    (hk : ∀ detail, OnError p (k detail) db) :
    OnError p (shownDetail env repo license >>= k) db := by
  obtain ⟨detail, -, hshown⟩ := exec_shownDetail env h
  intro e he
  rw [exec_bind, hshown] at he ⊢
  exact hk detail e he

/-- A writer that fails is rolled back; else the handler goes on from the state it leaves. -/
theorem onError_writer_bind {op : Catalog → Except SqlError (α × Catalog)} {k : α → ApiHandler}
    (h : p db) (hk : ∀ a db', op db = .ok (a, db') → OnError p (k a) db') :
    OnError p (writer op >>= k) db := by
  intro e he
  rw [exec_bind, exec_writer] at he ⊢
  cases hop : op db with
  | error e' => exact h
  | ok x =>
    rw [hop] at he
    exact hk x.1 x.2 hop e he

end Tails

/-- Without such a key a refund removes nothing. -/
theorem removeEdition_of_noKey {edition : Uuid} (h : (db.keyIn repo license).isSome = false) :
    (db.removeEditionFromLicense repo license edition).2 = db := by
  have hrows : ∀ t : Table (Uuid × Uuid) UpdateBound, (t.delete fun k _ =>
      (db.keyIn repo license).isSome ∧ k.1 = license ∧
        some k.2 = ((db.editions.get? edition).filter fun e => e.repoId = repo).map (·.setId)) = t := by
    intro t
    refine Table.ext_rows (List.filter_eq_self.2 fun row _ => ?_)
    rw [h]
    simp
  exact congrArg (fun t => { db with licenseSetEntitlements := t }) (hrows _)

/-- Without such a key a revocation changes nothing. -/
theorem revokeLicense_of_noKey (h : (db.keyIn repo license).isSome = false) :
    (db.revokeLicense repo license).2 = db := by
  refine congrArg (fun t => { db with licenseKeys := t }) ?_
  refine Table.update_eq_self fun id l hl => if_neg ?_
  rintro ⟨rfl, hrepo⟩
  unfold Catalog.keyIn at h
  rw [hl, Option.filter_some, if_pos (decide_eq_true hrepo)] at h
  cases h

/-- A handler that renews fails untouched when what follows does, whether a date was found or not.
-/
theorem onError_renewal {c : RenewCall} {k : Option String → ApiHandler}
    (hauth : authedRepo env r db = .ok c.repo) (hop : r.op? env c.repo db = some (.renew c))
    (hfail : ∀ db', Untouched env r db db' → OnError (Untouched env r db) (k none) db')
    (hk : ∀ date db', (db'.keyIn c.repo c.license).isSome →
      OnError (Untouched env r db) (k (some date)) db') :
    OnError (Untouched env r db)
      (writer (·.renew env.read.session r.now c) >>= k) db := by
  refine onError_writer_bind (.same rfl) fun date db' hrenew => ?_
  rcases renew_outcome db env.read.session r.now c with
    ⟨e, heq⟩ | ⟨db'', heq, hwritten⟩ | ⟨date, db'', heq, hin⟩
  · rw [heq] at hrenew
    cases hrenew
  · rw [heq] at hrenew
    obtain ⟨rfl, rfl⟩ := Prod.mk.inj (Except.ok.inj hrenew)
    rcases hwritten with hsame | ⟨key, hkey, hfresh, hnothing, hstate⟩
    · exact hfail db'' (.same hsame)
    · exact hfail db'' (.recorded c key hauth hop hkey hfresh hnothing hstate)
  · rw [heq] at hrenew
    obtain ⟨rfl, rfl⟩ := Prod.mk.inj (Except.ok.inj hrenew)
    exact hk date db'' hin

/-- A request that is let in and answered with an error leaves the catalog untouched. -/
theorem onError_apiRoute (hauth : authedRepo env r db = .ok repo) :
    OnError (Untouched env r db) (apiRoute env r repo) db := by
  have hsame : Untouched env r db db := .same rfl
  unfold apiRoute
  cases hcall : r.call with
  | listEditions => exact onError_get_bind (onError_pure _)
  | inspectLicense id =>
    refine onError_orFail_bind (fun _ => hsame) fun license _ => ?_
    unfold shownDetail
    rw [bind_assoc]
    exact onError_get_bind (onError_orFail_bind (fun _ => hsame) fun detail _ => onError_pure _)
  -- an issue that answers has committed a key of the repository, which is then shown
  | issueLicense edition buyer account =>
    refine onError_get_bind (onError_orFail_bind (fun _ => hsame) fun editionId _ => ?_)
    refine onError_writer_bind hsame fun issued db' hissue => ?_
    rcases issue_outcome db env.read.session env.secretKey r.now ⟨repo, editionId,
      (buyer.map trim).filter fun b => !b.isEmpty, r.idempotencyKey, account, r.minted⟩ with
      ⟨e, heq⟩ | heq | ⟨issued', db'', heq, hin, -⟩
    · rw [heq] at hissue
      cases hissue
    · rw [heq] at hissue
      obtain ⟨rfl, rfl⟩ := Prod.mk.inj (Except.ok.inj hissue)
      exact onError_orFail_bind (fun _ => hsame) fun _ h => by cases h
    · rw [heq] at hissue
      obtain ⟨rfl, rfl⟩ := Prod.mk.inj (Except.ok.inj hissue)
      refine onError_orFail_bind (fun h => by cases h) fun issued h => ?_
      rw [← Option.some.inj h]
      exact onError_shownDetail_bind hin fun detail => onError_get_bind (onError_pure _)
  | renewLicense id =>
    refine onError_orFail_bind (fun _ => hsame) fun license hlicense => ?_
    have hop : r.op? env repo db = some (.renew ⟨repo, license, none, r.idempotencyKey⟩) := by
      unfold ApiRequest.op?
      rw [hcall]
      exact congrArg (Option.map _) hlicense
    refine onError_renewal (c := ⟨repo, license, none, r.idempotencyKey⟩) hauth hop
      (fun db' h => ?_) fun date db' hin => ?_
    · exact onError_orFail_bind (fun _ => h) fun _ h => by cases h
    · refine onError_orFail_bind (fun h => by cases h) fun _ _ => ?_
      exact onError_shownDetail_bind hin fun detail => onError_pure _
  | renewLicenseEdition id edition =>
    refine onError_orFail_bind (fun _ => hsame) fun license hlicense => ?_
    refine onError_get_bind (onError_orFail_bind (fun _ => hsame) fun editionId hedition => ?_)
    have hop : r.op? env repo db
        = some (.renew ⟨repo, license, some editionId, r.idempotencyKey⟩) := by
      unfold ApiRequest.op?
      rw [hcall]
      simp only [hlicense, hedition, Option.bind_some, Option.map_some]
    refine onError_renewal (c := ⟨repo, license, some editionId, r.idempotencyKey⟩) hauth hop
      (fun db' h => ?_) fun date db' hin => ?_
    · exact onError_orFail_bind (fun _ => h) fun _ h => by cases h
    · refine onError_orFail_bind (fun h => by cases h) fun _ _ => ?_
      exact onError_shownDetail_bind hin fun detail => onError_pure _
  | addLicenseEdition id edition =>
    refine onError_orFail_bind (fun _ => hsame) fun license _ => ?_
    refine onError_get_bind (onError_orFail_bind (fun _ => hsame) fun editionId _ => ?_)
    refine onError_writer_bind hsame fun outcome db' hadd => ?_
    rcases db.addEditionToLicense_cases env.read.session r.now repo license editionId with
      ⟨key, ed, ⟨hkey, -⟩, -, hadded⟩ | ⟨hstate, hnot⟩
    · rw [hadded] at hadd
      obtain ⟨rfl, rfl⟩ := Prod.mk.inj (Except.ok.inj hadd)
      exact onError_shownDetail_bind (keyIn_of_activeKey hkey) fun detail =>
        onError_get_bind (onError_pure _)
    · rw [hadd] at hstate
      obtain rfl : db' = db := hstate
      cases outcome with
      | added => exact absurd hadd (hnot db')
      | standalone | noKey | noEdition => exact onError_throw hsame _
  | removeLicenseEdition id edition =>
    refine onError_orFail_bind (fun _ => hsame) fun license _ => onError_get_bind ?_
    -- an edition that is unknown has nothing to take back
    cases db.findEdition repo (trim edition) with
    | none => exact onError_pure _
    | some editionId =>
      refine onError_writer_bind hsame fun found db' hremove => ?_
      obtain ⟨rfl, rfl⟩ := Prod.mk.inj (Except.ok.inj hremove)
      split_ifs with hfound
      · exact onError_pure _
      · refine onError_throw (.same ?_) _
        exact removeEdition_of_noKey (by simpa using hfound)
  | mergeLicense id into =>
    refine onError_orFail_bind (fun _ => hsame) fun source _ =>
      onError_orFail_bind (fun _ => hsame) fun target _ => ?_
    refine onError_writer_bind hsame fun outcome db' hmerge => ?_
    rcases db.mergeLicenseKeys_cases repo source target with
      ⟨sourceKey, targetKey, -, -, htarget, -, heq⟩ | ⟨refused, hrefused, heq⟩
    · rw [heq] at hmerge
      obtain ⟨rfl, rfl⟩ := Prod.mk.inj (Except.ok.inj hmerge)
      have hstep := keysStep_run env.read.session env.secretKey db ⟨r.now, .merge repo source target⟩
      have hstate : LicenseOp.run env.read.session env.secretKey db
          ⟨r.now, .merge repo source target⟩ = db.merged sourceKey source target :=
        congrArg Prod.snd heq
      rw [hstate] at hstep
      -- the target is still a key of the repository after the merge
      exact onError_shownDetail_bind (hstep.keyIn (keyIn_of_activeKey htarget)) fun detail =>
        onError_pure _
    · rw [heq] at hmerge
      obtain ⟨rfl, rfl⟩ := Prod.mk.inj (Except.ok.inj hmerge)
      cases refused with
      | merged => exact absurd rfl hrefused
      | noSource | noTarget | targetBounded | sameKey => exact onError_throw hsame _
  | revokeLicense id =>
    refine onError_orFail_bind (fun _ => hsame) fun license _ => ?_
    refine onError_writer_bind hsame fun found db' hrevoke => ?_
    obtain ⟨rfl, rfl⟩ := Prod.mk.inj (Except.ok.inj hrevoke)
    split_ifs with hfound
    · exact onError_pure _
    · refine onError_throw (.same ?_) _
      exact revokeLicense_of_noKey (by simpa using hfound)

end Handlers

/-! ## The theorem -/

/-- What a request that was answered with an error has left. -/
structure Failed (env : ApiEnv) (r : ApiRequest) (s : ApiStore) (e : ApiError) (s' : ApiStore) :
    Prop where
  /-- No token is stamped but the one it presents. -/
  stamps : ∀ id, s'.lastUsedAt id = s.lastUsedAt id ∨
    r.Presents env s.db id ∧ s'.lastUsedAt id = some r.now
  /-- Its handler has written nothing, but for a renewal's row; or the licence it was about to
  show is entitled through a rule the database refuses to match. -/
  written : Untouched env r s.db s'.db ∨ (e = .db .invalidEscapeSequence ∧
    ∃ status body, (exec (api env r) s.db).1 = .ok (.license status body) ∧
      s'.db = (exec (api env r) s.db).2 ∧ s'.db.Unmatchable body.detail.id)

namespace Mall

/-- The shop after licence 7 was revoked. -/
def revoked : ApiStore := ⟨(sold.revokeLicense 1 7).2, fun _ => none⟩

end Mall

end Sconce
