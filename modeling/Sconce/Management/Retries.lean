/-
# Retries and revocations

What a shop may rely on when a call to the API times out, or revokes.  An issue that is retried
under its idempotency key answers with the licence the first one issued, whatever happened in
between (`issue_retry`).  The key string of a revoked or merged licence opens nothing any more
(`revocation_final`).
-/
import Sconce.Management.Writes
import Sconce.Lib.Slices
import Sconce.Lib.Unwinding

namespace Sconce

open Effect

/-! ## Keys over a run -/

section Keys

variable {op : LicenseOp} {db db' : Catalog} {repo license : Uuid}

/-- A stored key goes on. -/
theorem KeysStep.continues (h : KeysStep op db db') {l : LicenseKey}
    (hl : db.licenseKeys.get? license = some l) :
    ∃ l', db'.licenseKeys.get? license = some l' ∧ l.Continues l' := by
  cases h with
  | updated f hf hkeys => exact ⟨f license l, by rw [hkeys, Table.get?_update, hl]; rfl, hf license l⟩
  | inserted c row hop hwrote hfree hkeys =>
    exact ⟨l, by rw [hkeys, Table.get?_insertNew_of_some hl], .refl l⟩

/-- No write takes a key out of its repository. -/
theorem KeysStep.keyIn (h : KeysStep op db db') (hkey : (db.keyIn repo license).isSome) :
    (db'.keyIn repo license).isSome := by
  obtain ⟨l, hl⟩ := Option.isSome_iff_exists.1 hkey
  unfold Catalog.keyIn at hl ⊢
  obtain ⟨hl, hin⟩ := Option.filter_eq_some_iff.1 hl
  obtain ⟨l', hl', hcontinues⟩ := h.continues hl
  rw [hl', Option.filter_some, if_pos (by rw [hcontinues.repoId]; exact hin)]
  rfl

/-- The unique constraints stay met. -/
theorem KeysStep.unique (h : KeysStep op db db') (hunique : db.KeysUnique) : db'.KeysUnique := by
  cases h with
  | updated f hf hkeys =>
    have hconflict : ∀ r r' : Uuid × LicenseKey,
        LicenseKey.Conflict (r.1, f r.1 r.2) (r'.1, f r'.1 r'.2) ↔ LicenseKey.Conflict r r' := by
      intro r r'
      unfold LicenseKey.Conflict
      rw [(hf r.1 r.2).columns, (hf r'.1 r'.2).columns]
    unfold Catalog.KeysUnique
    rw [hkeys]
    intro r hr r' hr' hne
    obtain ⟨old, hold, rfl⟩ := List.mem_map.1 hr
    obtain ⟨old', hold', rfl⟩ := List.mem_map.1 hr'
    rw [hconflict]
    refine hunique old hold old' hold' ?_
    rintro rfl
    exact hne rfl
  | inserted c row hop hwrote hfree hkeys =>
    have hnone : db.licenseKeys.get? c.minted.id = none := by
      rw [Table.get?_eq_none_iff]
      intro l hl
      exact hfree _ hl (.inl rfl)
    unfold Catalog.KeysUnique
    rw [hkeys]
    intro r hr r' hr' hne
    rcases (Table.mem_rows_insertNew hnone row r).1 hr with hr | rfl
    · rcases (Table.mem_rows_insertNew hnone row r').1 hr' with hr' | rfl
      · exact hunique r hr r' hr' hne
      · exact fun h => hfree r hr h.symm
    · rcases (Table.mem_rows_insertNew hnone row r').1 hr' with hr' | rfl
      · exact hfree r' hr'
      · exact absurd rfl hne

/-- A key stays the answer to the same call. -/
theorem LicenseKey.Continues.sameCall {l l' : LicenseKey} (h : l.Continues l') {edition : Uuid}
    {idem : String} :
    (l'.repoId = repo ∧ l'.editionId = some edition ∧ l'.idempotencyKey = some idem) ↔
      (l.repoId = repo ∧ l.editionId = some edition ∧ l.idempotencyKey = some idem) := by
  rw [h.columns]

/-- What the idempotency lookup found it finds again. -/
theorem KeysStep.licenseIdForIdempotency (h : KeysStep op db db') {edition : Uuid} {idem : String}
    (hfound : db.licenseIdForIdempotency repo edition idem = some license) :
    db'.licenseIdForIdempotency repo edition idem = some license := by
  unfold Catalog.licenseIdForIdempotency at hfound ⊢
  obtain ⟨r, hr, hid⟩ := Option.map_eq_some_iff.1 hfound
  cases h with
  | updated f hf hkeys =>
    have hsame : ((fun r : Uuid × LicenseKey => decide (r.2.repoId = repo ∧
        r.2.editionId = some edition ∧ r.2.idempotencyKey = some idem)) ∘
          fun r : Uuid × LicenseKey => (r.1, f r.1 r.2))
        = fun r : Uuid × LicenseKey => decide (r.2.repoId = repo ∧ r.2.editionId = some edition ∧
            r.2.idempotencyKey = some idem) := by
      funext r
      exact decide_eq_decide.2 (hf r.1 r.2).sameCall
    rw [hkeys]
    show Option.map _ (List.find? _ (List.map _ db.licenseKeys.rows)) = _
    rw [List.find?_map, hsame, hr]
    exact congrArg some hid
  | inserted c row hop hwrote hfree hkeys =>
    rw [hkeys]
    unfold Table.insertNew
    split_ifs with hnone
    · show Option.map _ (List.find? _ (db.licenseKeys.rows ++ _)) = _
      rw [List.find?_append, hr]
      exact congrArg some hid
    · exact hfound

end Keys

/-! ## What a request keeps -/

section Requests

variable {env : ApiEnv} {db : Catalog} {repo license : Uuid}

/-- What every writer keeps, every run of requests keeps. -/
theorem final_api_of_keysStep {p : Catalog → Prop}
    (hstep : ∀ op db db', KeysStep op db db' → p db → p db') (rs : List ApiRequest) (h : p db) :
    p (Unwinding.final env.step db rs) := by
  induction rs generalizing db with
  | nil => exact h
  | cons r rs ih =>
    apply ih
    rcases exec_api_cases env r db with hsame | ⟨repo, op, -, -, hrun⟩
    · show p (exec (api env r) db).2
      rw [hsame]
      exact h
    · show p (exec (api env r) db).2
      rw [hrun]
      exact hstep op db _ (keysStep_run _ _ db ⟨r.now, op⟩) h

/-- Editions, sets and tokens are what they were, whatever requests came. -/
theorem besideLicences_final (rs : List ApiRequest) :
    db.BesideLicences (Unwinding.final env.step db rs) := by
  induction rs generalizing db with
  | nil => exact refl_of Catalog.BesideLicences db
  | cons r rs ih => exact trans_of Catalog.BesideLicences (besideLicences_api env r db) ih

/-- The lookup of an edition reads nothing a request writes. -/
theorem findEdition_besideLicences {db' : Catalog} (h : db.BesideLicences db') (name : String) :
    db'.findEdition repo name = db.findEdition repo name := by
  rw [h]
  rfl

variable (env) in
/-- A licence of the repository has a detail to show. -/
theorem exec_shownDetail (h : (db.keyIn repo license).isSome) :
    ∃ detail, detail.id = license ∧ exec (shownDetail env repo license) db = (.ok detail, db) := by
  obtain ⟨l, hl⟩ := Option.isSome_iff_exists.1 h
  unfold shownDetail
  rw [exec_bind, exec_get]
  unfold Catalog.licenseDetail andThen
  dsimp only
  rw [hl]
  exact ⟨_, rfl, rfl⟩

/-- The ledger of issues names keys of the repository only. -/
theorem keyIn_of_licenseIdForIdempotency {edition : Uuid} {idem : String}
    (h : db.licenseIdForIdempotency repo edition idem = some license) :
    (db.keyIn repo license).isSome := by
  obtain ⟨r, hr, rfl, hrepo, -⟩ := exists_of_licenseIdForIdempotency h
  unfold Catalog.keyIn
  rw [(db.licenseKeys.mem_rows_iff r.1 r.2).1 hr, Option.filter_some,
    if_pos (decide_eq_true hrepo)]
  rfl

/-! ## Retried issues -/

/-- An issue fails, or finds no active edition, or answers with a key of the repository, which
its idempotency key finds from then on. -/
theorem issue_outcome (db : Catalog) (ses : Session) (secret : Option SecretKey) (now : Timestamp)
    (c : IssueCall) :
    (∃ e, db.issueFromEditionInner ses secret now c = .error e) ∨
      db.issueFromEditionInner ses secret now c = .ok (none, db) ∨
      ∃ issued db', db.issueFromEditionInner ses secret now c = .ok (some issued, db') ∧
        (db'.keyIn c.repo issued.id).isSome ∧
        ∀ key, c.idempotencyKey = some key →
          db'.licenseIdForIdempotency c.repo c.edition key = some issued.id := by
  unfold Catalog.issueFromEditionInner
  cases hlookup : c.idempotencyKey.bind (db.licenseIdForIdempotency c.repo c.edition) with
  | some id =>
    obtain ⟨idem, hidem, hfound⟩ := Option.bind_eq_some_iff.1 hlookup
    refine .inr (.inr ⟨_, _, rfl, keyIn_of_licenseIdForIdempotency hfound, fun key hkey => ?_⟩)
    rw [hidem] at hkey
    rw [← Option.some.inj hkey]
    exact hfound
  | none =>
    simp only
    cases db.activeEdition c.repo c.edition with
    | none => exact .inr (.inl rfl)
    | some ed =>
      simp only
      cases hinsert : db.insertLicenseKey c.minted.id (Catalog.issuedRow ses now c ed) with
      | error e =>
        simp only
        cases hidem : c.idempotencyKey with
        | none => exact .inl ⟨e, rfl⟩
        | some idem =>
          rw [hidem, Option.bind_some] at hlookup
          simp only
          rw [hlookup]
          exact .inr (.inl rfl)
      | ok inserted =>
        simp only
        cases hattach : inserted.attachEditionSet ses now c.minted.id ed.setId ed.snapshotAtIssue
          (if c.boundOnEdge then some c.edition else none) with
        | error e => exact .inl ⟨e, rfl⟩
        | ok attached =>
          have hfree := not_conflict_of_insertLicenseKey hinsert
          have hnone : db.licenseKeys.get? c.minted.id = none := by
            rw [Table.get?_eq_none_iff]
            intro l hl
            exact hfree _ hl (.inl rfl)
          have hkeys : attached.licenseKeys
              = db.licenseKeys.insertNew c.minted.id (Catalog.issuedRow ses now c ed) := by
            rw [licenseKeys_attachEditionSet hattach, Catalog.insertLicenseKey_ok hinsert]
          refine .inr (.inr ⟨_, _, rfl, ?_, fun key hkey => ?_⟩)
          · unfold Catalog.keyIn
            rw [hkeys, Table.get?_insertNew_self, hnone, Option.getD_none, Option.filter_some]
            show (if decide (c.repo = c.repo) = true then _ else _ : Option LicenseKey).isSome = true
            rw [decide_eq_true rfl]
            rfl
          · -- nothing was found before, so the new row is the first
            rw [hkey, Option.bind_some] at hlookup
            unfold Catalog.licenseIdForIdempotency at hlookup ⊢
            rw [Option.map_eq_none_iff] at hlookup
            rw [hkeys]
            unfold Table.insertNew
            rw [dif_pos hnone]
            show Option.map _ (List.find? _ (db.licenseKeys.rows ++ _)) = _
            rw [List.find?_append, hlookup, Option.none_or]
            have hrow : decide ((Catalog.issuedRow ses now c ed).repoId = c.repo ∧
                (Catalog.issuedRow ses now c ed).editionId = some c.edition ∧
                (Catalog.issuedRow ses now c ed).idempotencyKey = some key) = true :=
              decide_eq_true ⟨rfl, rfl, hkey⟩
            rw [List.find?_singleton, if_pos hrow]
            rfl

variable {r : ApiRequest} {edition key : String} {buyer : Option String} {account : Bool}

/-- An answered issue is found under its idempotency key. -/
theorem lookup_of_issue {status : ℕ} {body : LicenseJson}
    (hcall : r.call = .issueLicense edition buyer account) (hkey : r.idempotencyKey = some key)
    (hauth : authedRepo env r db = .ok repo)
    (hanswer : (exec (api env r) db).1 = .ok (.license status body)) :
    ∃ editionId, db.findEdition repo (trim edition) = some editionId ∧
      (exec (api env r) db).2.licenseIdForIdempotency repo editionId key = some body.detail.id := by
  rw [exec_api_eq, hauth] at hanswer ⊢
  unfold apiRoute at hanswer ⊢
  rw [hcall] at hanswer ⊢
  dsimp only at hanswer ⊢
  unfold issueLicenseKey at hanswer ⊢
  rw [exec_bind, exec_get] at hanswer ⊢
  simp only [andThen] at hanswer ⊢
  rw [exec_orFail_bind] at hanswer ⊢
  cases hedition : db.findEdition repo (trim edition) with
  | none =>
    rw [hedition] at hanswer
    cases hanswer
  | some editionId =>
    rw [hedition] at hanswer
    simp only at hanswer ⊢
    rw [exec_bind, exec_writer] at hanswer ⊢
    -- what an issue answers with is what its idempotency key finds from then on
    rcases issue_outcome db env.read.session env.secretKey r.now ⟨repo, editionId,
      (buyer.map trim).filter fun b => !b.isEmpty, r.idempotencyKey, account, r.minted⟩ with
      ⟨e, hissue⟩ | hissue | ⟨issued, db', hissue, hin, hfound⟩
    · rw [hissue] at hanswer
      cases hanswer
    · rw [hissue] at hanswer
      cases hanswer
    · rw [hissue] at hanswer ⊢
      obtain ⟨detail, hid, hshown⟩ := exec_shownDetail env hin
      simp only [andThen] at hanswer ⊢
      rw [exec_orFail_bind] at hanswer ⊢
      simp only at hanswer ⊢
      rw [exec_bind, hshown] at hanswer ⊢
      simp only [andThen] at hanswer ⊢
      rw [exec_bind, exec_get] at hanswer ⊢
      simp only [andThen, exec_pure] at hanswer ⊢
      refine ⟨editionId, rfl, ?_⟩
      obtain ⟨-, rfl⟩ := ApiAnswer.license.inj (Except.ok.inj hanswer)
      rw [hfound key hkey]
      exact congrArg some hid.symm

/-- An issue whose idempotency key is found answers with the licence it finds. -/
theorem issue_of_lookup {editionId : Uuid} (hcall : r.call = .issueLicense edition buyer account)
    (hkey : r.idempotencyKey = some key) (hauth : authedRepo env r db = .ok repo)
    (hedition : db.findEdition repo (trim edition) = some editionId)
    (hlookup : db.licenseIdForIdempotency repo editionId key = some license) :
    ∃ body, exec (api env r) db = (.ok (.license 200 body), db) ∧ body.detail.id = license ∧
      body.created = some false := by
  obtain ⟨detail, hid, hshown⟩ :=
    exec_shownDetail env (keyIn_of_licenseIdForIdempotency hlookup)
  have hissue : db.issueFromEditionInner env.read.session env.secretKey r.now ⟨repo, editionId,
      (buyer.map trim).filter fun b => !b.isEmpty, r.idempotencyKey, account, r.minted⟩
      = .ok (some (db.replay env.secretKey repo license), db) := by
    unfold Catalog.issueFromEditionInner
    dsimp only
    rw [hkey, Option.bind_some, hlookup]
  rw [exec_api_eq, hauth]
  unfold apiRoute
  rw [hcall]
  dsimp only
  unfold issueLicenseKey
  rw [exec_bind, exec_get]
  simp only [andThen]
  rw [exec_orFail_bind, hedition]
  simp only
  rw [exec_bind, exec_writer, hissue]
  simp only [andThen]
  rw [exec_orFail_bind]
  simp only
  rw [exec_bind]
  have hshown' : exec (shownDetail env repo (db.replay env.secretKey repo license).id) db
      = (.ok detail, db) := hshown
  rw [hshown']
  simp only [andThen]
  rw [exec_bind, exec_get]
  simp only [andThen, exec_pure]
  exact ⟨_, rfl, hid, rfl⟩

/-- **A retried issue finds the licence the first one issued**, after any requests in between,
and writes nothing.  It may call the edition by its slug where the first one said its name. -/
theorem issue_retry {status : ℕ} {body : LicenseJson} {r' : ApiRequest} {edition' : String}
    {buyer' : Option String} {account' : Bool} (hcall : r.call = .issueLicense edition buyer account)
    (hkey : r.idempotencyKey = some key) (hauth : authedRepo env r db = .ok repo)
    (hanswer : (exec (api env r) db).1 = .ok (.license status body)) (rs : List ApiRequest)
    (hcall' : r'.call = .issueLicense edition' buyer' account')
    (hsame : db.findEdition repo (trim edition') = db.findEdition repo (trim edition))
    (hkey' : r'.idempotencyKey = some key) (hauth' : authedRepo env r' db = .ok repo) :
    ∃ body', (exec (api env r') (Unwinding.final env.step db (r :: rs)))
        = (.ok (.license 200 body'), Unwinding.final env.step db (r :: rs)) ∧
      body'.detail.id = body.detail.id ∧ body'.created = some false := by
  obtain ⟨editionId, hedition, hfound⟩ := lookup_of_issue hcall hkey hauth hanswer
  have hbeside : db.BesideLicences (Unwinding.final env.step db (r :: rs)) :=
    besideLicences_final (r :: rs)
  have hlookup : (Unwinding.final env.step db (r :: rs)).licenseIdForIdempotency repo editionId key
      = some body.detail.id :=
    final_api_of_keysStep
      (p := fun s => s.licenseIdForIdempotency repo editionId key = some body.detail.id)
      (fun op s s' hstep h => hstep.licenseIdForIdempotency h) rs hfound
  refine issue_of_lookup hcall' hkey' ?_
    ((findEdition_besideLicences hbeside _).trans (hsame.trans hedition)) hlookup
  rw [hbeside]
  exact hauth'

/-! ## Revocations -/

/-- An active key of the repository is one of its keys. -/
theorem keyIn_of_activeKey {l : LicenseKey} (h : db.activeKey repo license = some l) :
    (db.keyIn repo license).isSome := by
  unfold Catalog.activeKey at h
  rw [(Option.filter_eq_some_iff.1 h).1]
  rfl

/-- The id of the licence a call would revoke: by name, or as the source of a merge. -/
def ApiCall.revokes : ApiCall → Option String
  | .revokeLicense id => some id
  | .mergeLicense id _ => some id
  | _ => none

/-- The licence is stored under its hash, and revoked. -/
def Catalog.Revoked (license : Uuid) (hash : Sha256) (db : Catalog) : Prop :=
  ∃ l, db.licenseKeys.get? license = some l ∧ l.keyHash = hash ∧ l.status = .revoked

/-- A revoked key stays revoked, under its hash. -/
theorem KeysStep.revoked {op : LicenseOp} {db db' : Catalog} {hash : Sha256}
    (h : KeysStep op db db') (hrevoked : db.Revoked license hash) : db'.Revoked license hash := by
  obtain ⟨l, hl, hhash, hstatus⟩ := hrevoked
  obtain ⟨l', hl', hcontinues⟩ := h.continues hl
  refine ⟨l', hl', ?_, hcontinues.revoked hstatus⟩
  rw [hcontinues.columns]
  exact hhash

/-- The hash of a revoked key resolves to no licence. -/
theorem resolveLicense_of_revoked {hash : Sha256} (hunique : db.KeysUnique)
    (h : db.Revoked license hash) (now : Timestamp) (repo : Uuid) :
    db.resolveLicense now repo hash = none := by
  obtain ⟨l, hl, hhash, hstatus⟩ := h
  unfold Catalog.resolveLicense
  rw [Option.map_eq_none_iff, List.find?_eq_none]
  intro row hrow hfound
  simp only [Bool.and_eq_true, beq_iff_eq, decide_eq_true_eq] at hfound
  obtain ⟨⟨⟨-, hsame⟩, hactive⟩, -⟩ := hfound
  by_cases heq : row = (license, l)
  · rw [heq, hstatus] at hactive
    cases hactive
  · refine hunique row hrow (license, l) ((db.licenseKeys.mem_rows_iff license l).2 hl) heq ?_
    exact .inr (.inl (hsame.trans hhash.symm))

/-- A credential that resolves to no licence gives no licensed access. -/
theorem not_licensed_of_resolveLicense {env : ReadEnv} {now : Timestamp} {credential : String}
    {authorization : Authorization} (hcredential : extractToken env authorization = some credential)
    (h : db.resolveLicense now repo (env.tokenHash credential) = none)
    (entitled : List (String × LicenseBound)) (policy : PolicyOverride) :
    authorize env db now repo authorization ≠ .ok (.licensed entitled, policy) := by
  intro hok
  unfold authorize at hok
  rw [hcredential] at hok
  have habsent : authorization ≠ .absent := by
    rintro rfl
    cases hcredential
  rw [if_neg habsent] at hok
  simp only [h] at hok
  cases htoken : db.resolveTokenPolicy now repo (env.tokenHash credential) with
  | some tokenPolicy =>
    rw [htoken] at hok
    cases hok
  | none =>
    rw [htoken] at hok
    cases hok

/-- A key of the repository is a stored row with that repository. -/
theorem get?_of_keyIn {l : LicenseKey} (h : db.keyIn repo license = some l) :
    db.licenseKeys.get? license = some l ∧ l.repoId = repo := by
  unfold Catalog.keyIn at h
  obtain ⟨hl, hin⟩ := Option.filter_eq_some_iff.1 h
  exact ⟨hl, of_decide_eq_true hin⟩

/-- The key a revocation names is revoked afterwards. -/
theorem revoked_of_revokeLicense {l : LicenseKey} (h : db.keyIn repo license = some l) :
    (db.revokeLicense repo license).2.Revoked license l.keyHash := by
  obtain ⟨hl, hrepo⟩ := get?_of_keyIn h
  refine ⟨{ l with status := .revoked }, ?_, rfl, rfl⟩
  show (db.licenseKeys.update _).get? license = _
  rw [Table.get?_update, hl, Option.map_some, if_pos ⟨rfl, hrepo⟩]

/-- The source of a merge is revoked afterwards. -/
theorem revoked_merged {l sourceKey : LicenseKey} {source target : Uuid}
    (h : db.keyIn repo source = some l) :
    (db.merged sourceKey source target).Revoked source l.keyHash := by
  refine ⟨{ l with status := .revoked }, ?_, rfl, rfl⟩
  show (db.licenseKeys.update _).get? source = _
  rw [Table.get?_update, (get?_of_keyIn h).1, Option.map_some, if_pos rfl]

/-- An answered revocation or merge has revoked a key of the repository. -/
theorem revoked_of_answer {text : String} {answer : ApiAnswer} (hcall : r.call.revokes = some text)
    (hauth : authedRepo env r db = .ok repo) (hanswer : (exec (api env r) db).1 = .ok answer) :
    ∃ license l, env.parseUuid text = some license ∧ db.keyIn repo license = some l ∧
      (exec (api env r) db).2.Revoked license l.keyHash := by
  rw [exec_api_eq, hauth] at hanswer ⊢
  unfold apiRoute at hanswer ⊢
  cases hr : r.call <;> rw [hr] at hcall hanswer <;> cases hcall
  case revokeLicense =>
    dsimp only at hanswer ⊢
    unfold revokeLicenseKey parseLicenseId at hanswer ⊢
    rw [exec_orFail_bind] at hanswer ⊢
    cases hparse : env.parseUuid text with
    | none =>
      rw [hparse] at hanswer
      cases hanswer
    | some license =>
      rw [hparse] at hanswer
      simp only at hanswer ⊢
      rw [exec_bind, exec_writer] at hanswer ⊢
      simp only [andThen] at hanswer ⊢
      cases hin : db.keyIn repo license with
      | none =>
        have hnot : (db.revokeLicense repo license).1 = false := by
          unfold Catalog.revokeLicense
          rw [hin]
          rfl
        rw [hnot] at hanswer
        cases hanswer
      | some l =>
        have hfound : (db.revokeLicense repo license).1 = true := by
          unfold Catalog.revokeLicense
          rw [hin]
          rfl
        rw [hfound]
        exact ⟨license, l, rfl, hin, revoked_of_revokeLicense hin⟩
  -- a merge revokes its source
  case mergeLicense into =>
    dsimp only at hanswer ⊢
    unfold mergeLicense parseLicenseId at hanswer ⊢
    rw [exec_orFail_bind] at hanswer ⊢
    cases hparse : env.parseUuid text with
    | none =>
      rw [hparse] at hanswer
      cases hanswer
    | some source =>
      rw [hparse] at hanswer
      simp only at hanswer ⊢
      rw [exec_orFail_bind] at hanswer ⊢
      cases hinto : env.parseUuid into with
      | none =>
        rw [hinto] at hanswer
        cases hanswer
      | some target =>
        rw [hinto] at hanswer
        simp only at hanswer ⊢
        rw [exec_bind, exec_writer] at hanswer ⊢
        rcases db.mergeLicenseKeys_cases repo source target with
          ⟨sourceKey, targetKey, -, hsource, htarget, -, heq⟩ | ⟨refused, hrefused, heq⟩
        · obtain ⟨l, hin⟩ := Option.isSome_iff_exists.1 (keyIn_of_activeKey hsource)
          refine ⟨source, l, rfl, hin, ?_⟩
          rw [heq]
          -- showing the target writes nothing
          have hreads : Keeps (SameOn id) (shownDetail env repo target >>= fun detail =>
              (pure (.license 200 (env.licenseJson r detail)) : ApiHandler)) :=
            keeps_bind (reads_shownDetail _) fun _ => keeps_pure _
          have hstate : (exec _ (db.merged sourceKey source target)).2
              = db.merged sourceKey source target := hreads _
          show (exec _ (db.merged sourceKey source target)).2.Revoked source l.keyHash
          rw [hstate]
          exact revoked_merged hin
        · rw [heq] at hanswer
          cases refused with
          | merged => exact absurd rfl hrefused
          | noSource | noTarget | targetBounded | sameKey => cases hanswer

/-- **A revocation is final.**  After a request that revoked a licence or merged it away, and
any further ones, its key string gives licensed access to no repository. -/
theorem revocation_final {id : String} {answer : ApiAnswer} (hunique : db.KeysUnique)
    (hcall : r.call.revokes = some id) (hauth : authedRepo env r db = .ok repo)
    (hanswer : (exec (api env r) db).1 = .ok answer) (rs : List ApiRequest) :
    ∃ license l, env.parseUuid id = some license ∧ db.keyIn repo license = some l ∧
      ∀ now repo' authorization credential,
        extractToken env.read authorization = some credential →
        env.read.tokenHash credential = l.keyHash → ∀ entitled policy,
          authorize env.read (Unwinding.final env.step db (r :: rs)) now repo' authorization
            ≠ .ok (.licensed entitled, policy) := by
  obtain ⟨license, l, hid, hin, hrevoked⟩ := revoked_of_answer hcall hauth hanswer
  refine ⟨license, l, hid, hin, fun now repo' authorization credential hcredential hhash => ?_⟩
  have hfinalUnique : (Unwinding.final env.step db (r :: rs)).KeysUnique :=
    final_api_of_keysStep (fun op s s' hstep h => hstep.unique h) (r :: rs) hunique
  have hfinal : (Unwinding.final env.step db (r :: rs)).Revoked license l.keyHash :=
    final_api_of_keysStep (p := Catalog.Revoked license l.keyHash)
      (fun op s s' hstep h => hstep.revoked h) rs hrevoked
  refine not_licensed_of_resolveLicense hcredential ?_
  rw [hhash]
  exact resolveLicense_of_revoked hfinalUnique hfinal now repo'

end Requests

namespace Mall

/-- A sale, one of the other shop, and the first one again. -/
theorem issue_retry_sale :
    ∃ body body', (exec (api env (sale "acme" 1)) opened).1 = .ok (.license 201 body) ∧
      exec (api env (sale "acme" 3))
          (Unwinding.final env.step opened [sale "acme" 1, sale "globex" 2])
        = (.ok (.license 200 body'),
            Unwinding.final env.step opened [sale "acme" 1, sale "globex" 2]) ∧
      body'.detail.id = body.detail.id ∧ body'.created = some false := by
  have hanswer : ∃ body, (exec (api env (sale "acme" 1)) opened).1 = .ok (.license 201 body) :=
    ⟨_, by with_unfolding_all rfl⟩
  obtain ⟨body, hanswer⟩ := hanswer
  have hkey : ∀ n, (sale "acme" n).idempotencyKey = some "order-1" := fun _ => by
    with_unfolding_all rfl
  obtain ⟨body', h⟩ := issue_retry rfl (hkey 1) (by with_unfolding_all rfl) hanswer
    [sale "globex" 2] rfl rfl (hkey 3) (by with_unfolding_all rfl)
  exact ⟨body, body', hanswer, h⟩

/-- A request for licence 7. -/
def onLicence (call : ApiCall) : ApiRequest where
  authorization := .text "Bearer acme"
  org := "acme"
  repo := "main"
  idempotencyHeader := some "order-2"
  call := call
  now := Shop.openingDay
  minted := minted 9

/-- The shop with licence 7 sold, under the hash of the text "sclk". -/
def sold : Catalog :=
  { opened with licenseKeys := .single 7 (Catalog.issuedRow Session.utc Shop.openingDay
    ⟨1, 1, none, none, true, minted 0⟩ (Shop.edition "annual" 1 (.time 12) Shop.annual_valid)) }

/-- A key revoked before another sale opens nothing after it. -/
theorem revocation_final_licence :
    ∃ license l, env.parseUuid "7" = some license ∧ sold.keyIn 1 license = some l ∧
      ∀ now repo' authorization credential,
        extractToken env.read authorization = some credential →
        env.read.tokenHash credential = l.keyHash → ∀ entitled policy,
          authorize env.read
              (Unwinding.final env.step sold [onLicence (.revokeLicense "7"), sale "acme" 1])
              now repo' authorization
            ≠ .ok (.licensed entitled, policy) := by
  refine revocation_final (r := onLicence (.revokeLicense "7")) (fun r hr r' hr' hne => ?_) rfl
    (by with_unfolding_all rfl) (by with_unfolding_all rfl) [sale "acme" 1]
  rw [List.mem_singleton.1 hr, List.mem_singleton.1 hr'] at hne
  exact absurd rfl hne

end Mall

end Sconce
