/-
# The statements of upload requests

A part or a completion begins with the read of `open_session`, an abort with one of its
own (`UploadRequest.opens`), and what follows it depends on what was read.

In a run every event is the passing of time, the first statement of a request or a later one
(`uploads_begun`); so what a request logs shows which request it is, and that it has read the
session before (`statusSet_of_logs`).
-/
import Sconce.Concurrency.UploadMoves

namespace Sconce

open Effect Interleaving Script

/-! ## What the statements log -/

section Statements

variable {ι : Type}

/-- The event is the logged one. -/
def Logs {κ : Type} (e : Event κ (UploadStore ι)) (entry : UploadEntry) : Prop :=
  e.after.log = e.before.log ++ [entry]

/-- The statement logs nothing, or an entry of the kind. -/
def LogsOnly (kind : UploadEntry → Prop) (write : UploadStore ι → UploadStore ι) : Prop :=
  ∀ s, (write s).log = s.log ∨ ∃ entry, kind entry ∧ (write s).log = s.log ++ [entry]

/-- What a completion logs once the session has let it in. -/
def UploadEntry.closes (id : Uuid) : UploadEntry → Prop
  | .accepted _ => False
  | .statusSet session status => session = id ∧ status = .completed
  | _ => True

variable {α : Type} {kind : UploadEntry → Prop}

theorem each_sql (m : Timestamp → Effect Catalog SqlError α) :
    Each (LogsOnly kind) (sql m : Script (UploadStore ι) AppError α) :=
  .stmt (fun _ => Or.inl rfl) fun _ => .done _

theorem each_select (f : Catalog → α) :
    Each (LogsOnly kind) (select f : Script (UploadStore ι) AppError α) :=
  .stmt (fun _ => Or.inl rfl) fun _ => .done _

theorem each_put (env : UploadEnv) (bytes : List UInt8) :
    Each (LogsOnly (ι := ι) kind) (putObject env bytes) :=
  .stmt (fun _ => Or.inl rfl) fun _ => .done _

theorem each_ret (x : Except AppError α) :
    Each (LogsOnly kind) (ret x : Script (UploadStore ι) AppError α) := .done x

theorem each_assemble (env : UploadEnv) (ids : List Sha256) (expected : Sha256) (cap : ℕ) :
    Each (LogsOnly (ι := ι) kind) (assemble env ids expected cap) := by
  unfold assemble
  refine each_bind (each_foldlM (fun input id => ?_) ids []) fun input => ?_
  · refine each_bind (.stmt (fun _ => Or.inl rfl) fun _ => .done _) fun bytes => ?_
    split_ifs
    · exact .done _
    · exact .done _
  · split_ifs
    · exact .done _
    · exact .done _

section Persist

variable (env : UploadEnv) (uploadId : Uuid) (call : PublishCall)

theorem each_ensurePrivate :
    Each (LogsOnly (ι := ι) kind) (ensurePrivateStatement call) :=
  each_bind (each_select _) fun _ => each_ret _

theorem each_chooseVisibility : Each (LogsOnly (ι := ι) kind) (chooseVisibility call) := by
  refine each_bind (each_select _) fun chosen => ?_
  show Each _ (if _ ∨ _ then _ else _)
  split_ifs
  · exact each_bind (each_ret _) fun _ => .done _
  · refine each_bind (each_select _) fun _ => each_bind (each_ret _) fun _ => .done _

theorem each_upsertPackage (visibility : Visibility) :
    Each (LogsOnly (ι := ι) kind) (upsertPackageStatements call visibility) := by
  have hinsert : Each (LogsOnly (ι := ι) kind)
      (do if ← select (·.hasMembers call.repo) then
            fail (.badRequest ("this repository is made of member repositories and holds no packages "
              ++ "of its own: publish or mirror into one of its members"))
          else
            sql fun _ => insertPackage call.draw.newId call.repo call.pkgName "upload"
              (some (.object [("kind", .string "upload")])) visibility) := by
    refine each_bind (each_select _) fun hasMembers => ?_
    split_ifs
    · exact .done _
    · exact each_sql _
  refine each_bind (each_select _) fun existing => ?_
  by_cases hprivate : effectiveVisibility visibility existing = .private
  · simp only [if_pos hprivate]
    exact each_bind (each_ensurePrivate call) fun _ => hinsert
  · simp only [if_neg hprivate]
    exact hinsert

theorem each_declare (visibility : Visibility) :
    Each (LogsOnly (ι := ι) kind) (declareStatements call visibility) := by
  unfold declareStatements
  by_cases hprivate : visibility = .private
  · simp only [if_pos hprivate]
    exact each_bind (each_ensurePrivate call) fun _ => each_sql _
  · simp only [if_neg hprivate]
    exact each_sql _

theorem each_insertVersion (id : Uuid) (key : VersionKey) (row : PackageVersion) :
    Each (LogsOnly (ι := ι) (UploadEntry.closes id)) (insertVersionStatements uploadId key row) := by
  refine each_bind (.stmt (fun s => ?_) fun _ => .done _) fun created => ?_
  · rcases insertVersionRow_cases key row s.db with ⟨_, _, hrun⟩ | ⟨_, _, hrun⟩ | ⟨e, _, _, hrun⟩
    · exact Or.inl (by simp only [hrun])
    · exact Or.inr ⟨.versionCreated uploadId key, trivial, by simp only [hrun]⟩
    · exact Or.inl (by simp only [hrun])
  · split_ifs
    · exact .done _
    · exact each_bind (each_select _) fun _ => .done _

theorem each_persist {id : Uuid} :
    Each (LogsOnly (ι := ι) (UploadEntry.closes id)) (persistStatements env uploadId call) := by
  refine each_bind (each_ret _) fun parsed => ?_
  refine each_bind (each_chooseVisibility call) fun chosen => ?_
  refine each_bind (each_sql _) fun _ => each_bind (each_upsertPackage call _) fun packageId => ?_
  have hinsert := each_insertVersion (ι := ι) uploadId id ⟨packageId, parsed.1⟩
    (call.versionRow parsed.2)
  by_cases hdeclares : chosen.1.isNone ∧ call.requested.isSome
  · simp only [if_pos hdeclares]
    exact each_bind (each_declare call chosen.2) fun _ => hinsert
  · simp only [if_neg hdeclares]
    exact hinsert

end Persist

theorem each_ingestPackage (env : UploadEnv) (r : CompleteRequest) (vendor name version : String)
    (requested : Option Visibility) (ids : List Sha256) (expected : Sha256) (total : ℕ) {id : Uuid} :
    Each (LogsOnly (ι := ι) (UploadEntry.closes id))
      (ingestPackage env r vendor name version requested ids expected total) := by
  unfold ingestPackage
  split_ifs
  · exact .done _
  · refine each_bind (each_assemble _ _ _ _) fun input => each_bind (each_ret _) fun archived => ?_
    exact each_bind (each_put _ _) fun blob => each_bind (each_persist _ _ _) fun _ => .done _

variable [DecidableEq ι]

theorem each_finishUpload (env : UploadEnv) (i : ι) (r : CompleteRequest) (repo : Uuid)
    (environment : String) (profile : Option String) (ids : List Sha256) (expected : Sha256)
    (total : ℕ) {id : Uuid} :
    Each (LogsOnly (UploadEntry.closes id))
      (finishUpload env i r repo environment profile ids expected total) := by
  unfold finishUpload
  split_ifs
  · exact .done _
  · refine each_bind (each_assemble _ _ _ _) fun input => each_bind (each_put _ _) fun blob => ?_
    refine each_bind (each_sql _) fun _ => each_bind (.stmt (fun s => ?_) fun _ => .done _) fun _ =>
      each_bind (each_sql _) fun _ => .done _
    rcases exec (createSnapshot s.now r.snapshotId repo environment (profile.getD "full") blob
      (sizeOf input) none) s.db with ⟨answer, db⟩
    cases answer with
    | ok snapshot => exact Or.inr ⟨.snapshotCreated r.uploadId snapshot, trivial, rfl⟩
    | error e => exact Or.inl rfl

/-- A completion that was let in registers what it ingests and writes one status. -/
theorem each_completeSession (env : UploadEnv) (i : ι) (r : CompleteRequest)
    (session : UploadSession) :
    Each (LogsOnly (UploadEntry.closes r.uploadId)) (completeSession env i r session) := by
  have hmark : ∀ response : UploadAnswer, Each (LogsOnly (UploadEntry.closes r.uploadId))
      (do markCompleted i r.uploadId; return response) :=
    fun response => each_bind
      (.stmt (fun _ => Or.inr ⟨.statusSet r.uploadId .completed, ⟨rfl, rfl⟩, rfl⟩) fun _ => .done _)
      fun _ => .done _
  unfold completeSession
  refine each_bind (each_select _) fun parts => ?_
  split_ifs
  · exact .done _
  · exact .done _
  refine each_bind (each_ret _) fun expected => ?_
  cases session.target with
  | snapshot environment profile => exact each_bind (each_finishUpload _ _ _ _ _ _ _ _ _) hmark
  | package vendor name version visibility =>
    exact each_bind (each_ingestPackage _ _ _ _ _ _ _ _ _) hmark

end Statements

/-! ## The requests -/

/-- A part for the session of the repository, or its completion. -/
def UploadRequest.Fills (id repo : Uuid) : UploadRequest → Prop
  | .part uploadId repo' _ _ => uploadId = id ∧ repo' = repo
  | .complete r => r.uploadId = id ∧ r.repo = repo
  | _ => False

section Requests

variable {ι : Type}

/-- The first statement of a request. -/
def UploadRequest.opens : UploadRequest → UploadStore ι → UploadStore ι
  | .part uploadId repo _ _, s => letIn uploadId repo s
  | .complete r, s => letIn r.uploadId r.repo s
  | .abort .., s => s
  | .expire, s => { s with db := (exec (expireUploadSessions s.now) s.db).2 }
where
  letIn (uploadId repo : Uuid) (s : UploadStore ι) : UploadStore ι :=
    match s.db.openSession uploadId repo with
    | .ok _ => { s with log := s.log ++ [.accepted uploadId] }
    | .error _ => s

/-- The first statement of a request logs nothing, or that an open session lets it in. -/
theorem UploadRequest.opens_log (request : UploadRequest) (s : UploadStore ι) :
    (request.opens s).log = s.log ∨ ∃ id session, (request.opens s).log = s.log ++ [.accepted id] ∧
      request.Fills id session.repoId ∧ s.db.uploadSessions.get? id = some session ∧
      session.status = .open := by
  have hadmit : ∀ uploadId repo, (opens.letIn uploadId repo s).log = s.log ∨
      ∃ session, (opens.letIn uploadId repo s).log = s.log ++ [.accepted uploadId] ∧
        s.db.openSession uploadId repo = .ok session := by
    intro uploadId repo
    unfold opens.letIn
    cases s.db.openSession uploadId repo with
    | ok session => exact Or.inr ⟨session, rfl, rfl⟩
    | error e => exact Or.inl rfl
  cases request with
  | part uploadId repo n body =>
    rcases hadmit uploadId repo with hsame | ⟨session, hlog, hok⟩
    · exact Or.inl hsame
    · obtain ⟨hsession, rfl, hopen⟩ := Catalog.openSession_eq_ok_iff.1 hok
      exact Or.inr ⟨uploadId, session, hlog, ⟨rfl, rfl⟩, hsession, hopen⟩
  | complete r =>
    rcases hadmit r.uploadId r.repo with hsame | ⟨session, hlog, hok⟩
    · exact Or.inl hsame
    · obtain ⟨hsession, hrepo, hopen⟩ := Catalog.openSession_eq_ok_iff.1 hok
      exact Or.inr ⟨r.uploadId, session, hlog, ⟨rfl, hrepo.symm⟩, hsession, hopen⟩
  | abort uploadId repo => exact Or.inl rfl
  | expire => exact Or.inl rfl

/-- An open session lets in the parts of its repository, and its completions. -/
theorem UploadRequest.Fills.opens_log {id : Uuid} {session : UploadSession} {request : UploadRequest}
    (h : request.Fills id session.repoId) {s : UploadStore ι}
    (hsession : s.db.uploadSessions.get? id = some session) (hopen : session.status = .open) :
    (request.opens s).log = s.log ++ [.accepted id] := by
  have hok := Catalog.openSession_eq_ok_iff.2 ⟨hsession, rfl, hopen⟩
  have hadmit : (opens.letIn id session.repoId s).log = s.log ++ [.accepted id] := by
    unfold opens.letIn
    rw [hok]
  cases request with
  | part uploadId repo n body =>
    obtain ⟨rfl, rfl⟩ := h
    exact hadmit
  | complete r =>
    obtain ⟨rfl, hrepo⟩ := h
    show (opens.letIn r.uploadId r.repo s).log = _
    rw [hrepo]
    exact hadmit
  | abort uploadId repo => exact h.elim
  | expire => exact h.elim

/-- The request goes on from what it read first. -/
def UploadRequest.GoesOn (db : Catalog) : UploadRequest → Prop
  | .part uploadId repo _ _ => ∃ session, db.openSession uploadId repo = .ok session
  | .complete r => ∃ session, db.openSession r.uploadId r.repo = .ok session
  | .abort uploadId repo => ∃ session, db.uploadSessions.get? uploadId = some session ∧
    session.repoId = repo
  | .expire => False

/-- A later statement of the request. -/
def UploadRequest.Writes (write : UploadStore ι → UploadStore ι) : UploadRequest → Prop
  | .part .. => LogsOnly (fun _ => False) write
  | .complete r => LogsOnly (UploadEntry.closes r.uploadId) write
  | .abort uploadId _ => ∀ s, (write s).log = s.log ++ [.statusSet uploadId .aborted]
  | .expire => False

/-- What a later statement logs, and of which request it is. -/
theorem UploadRequest.Writes.logged {request : UploadRequest}
    {write : UploadStore ι → UploadStore ι} (h : request.Writes write) {s : UploadStore ι}
    {entry : UploadEntry} (hlog : (write s).log = s.log ++ [entry]) :
    (∃ r, request = .complete r ∧ entry.closes r.uploadId) ∨
      ∃ uploadId repo, request = .abort uploadId repo ∧ entry = .statusSet uploadId .aborted := by
  have hkind : ∀ kind : UploadEntry → Prop, LogsOnly kind write → kind entry := by
    intro kind hkind
    rcases hkind s with hsame | ⟨entry', hentry, hlog'⟩
    · exact absurd (hsame.symm.trans hlog) (by simp)
    · rwa [← List.singleton_inj.1 (List.append_cancel_left (hlog'.symm.trans hlog))]
  cases request with
  | part uploadId repo n body => exact (hkind _ h).elim
  | complete r => exact Or.inl ⟨r, rfl, hkind _ h⟩
  | abort uploadId repo =>
    exact Or.inr ⟨uploadId, repo, rfl,
      List.singleton_inj.1 (List.append_cancel_left (hlog.symm.trans (h s)))⟩
  | expire => exact h.elim

/-- Every request begins with its first statement and goes on with later ones, if what it read
lets it. -/
theorem UploadRequest.script_eq [DecidableEq ι] (env : UploadEnv) (i : ι) (request : UploadRequest) :
    ∃ next, request.script env i = .stmt request.opens next ∧
      ∀ s, Each (fun w => request.GoesOn s.db ∧ request.Writes w) (next s) := by
  cases request with
  | part uploadId repo n body =>
    refine ⟨_, rfl, fun s => ?_⟩
    show Each _ (Script.bind (.done (s.db.openSession uploadId repo)) _)
    cases hopen : s.db.openSession uploadId repo with
    | error e => exact .done _
    | ok session =>
      -- what follows a part logs nothing
      have hrest : Each (LogsOnly (ι := ι) fun _ => False) (if n < 1 then
          fail (.badRequest "part number must be >= 1")
        else do
          let blob ← putObject env body
          sql fun now => upsertBlob now blob (sizeOf body)
          sql fun _ => recordUploadPart uploadId n blob (sizeOf body)
          return UploadAnswer.noContent) := by
        split_ifs
        · exact .done _
        · refine each_bind (each_put env body) fun blob => each_bind (each_sql _) fun _ => ?_
          exact each_bind (each_sql _) fun _ => .done _
      exact hrest.imp fun w hw => ⟨⟨session, hopen⟩, hw⟩
  | complete r =>
    refine ⟨_, rfl, fun s => ?_⟩
    show Each _ (Script.bind (.done (s.db.openSession r.uploadId r.repo)) _)
    cases hopen : s.db.openSession r.uploadId r.repo with
    | error e => exact .done _
    | ok session =>
      -- what follows a completion logs its own version, snapshot and status
      exact (each_completeSession env i r session).imp fun w hw => ⟨⟨session, hopen⟩, hw⟩
  | abort uploadId repo =>
    refine ⟨_, rfl, fun s => ?_⟩
    show Each _ (Script.bind (.done ((s.db.uploadSessions.get? uploadId).elim _ _)) _)
    cases hsession : s.db.uploadSessions.get? uploadId with
    | none => exact .done _
    | some session =>
      show Each _ (if session.repoId ≠ repo then _ else _)
      split_ifs with hrepo
      · exact .done _
      · -- the status write, whatever the status is by then
        exact .stmt ⟨⟨session, hsession, not_not.1 hrepo⟩, fun _ => rfl⟩ fun _ => .done _
  | expire => exact ⟨_, rfl, fun s => .done _⟩

/-! ## The requests of a run -/

variable [DecidableEq ι]

/-- Every request about to start.  What the clock does is no request's. -/
def uploadsFrom (env : UploadEnv) (requests : ι → UploadRequest) (db : Catalog)
    (objects : ObjectStore) (now : Timestamp) :
    Config (Option ι) (UploadStore ι) (Script (UploadStore ι) AppError UploadAnswer) where
  shared := ⟨db, objects, now, fun _ => none, []⟩
  pc
    | some i => (requests i).script env i
    | none => .done (.ok .noContent)

section Run

variable {env : UploadEnv} {requests : ι → UploadRequest} {db : Catalog} {objects : ObjectStore}
  {now : Timestamp} {events : List (Event (Option ι) (UploadStore ι))}
  {c : Config (Option ι) (UploadStore ι) (Script (UploadStore ι) AppError UploadAnswer)}

/-- What a request has done in a run. -/
theorem uploads_begun
    (hrun : Execution (Scheduled UploadClock) (uploadsFrom env requests db objects now) events c)
    (i : ι) :
    (∀ e ∈ events, e.agent ≠ some i) ∨
      ∃ earlier first later, events = earlier ++ first :: later ∧ first.agent = some i ∧
        (∀ e ∈ earlier, e.agent ≠ some i) ∧ first.after = (requests i).opens first.before ∧
        ∀ e ∈ later, e.agent = some i → (requests i).GoesOn first.before.db ∧
          ∃ w, (requests i).Writes w ∧ e.after = w e.before := by
  obtain ⟨next, hscript, hnext⟩ := (requests i).script_eq env i
  cases begun hnext hscript hrun with
  | waits hnone => exact Or.inl hnone
  | opened earlier later first hevents hfirst hnone hafter _ hlater =>
    refine Or.inr ⟨earlier, first, later, hevents, hfirst, hnone, hafter, fun e he hagent => ?_⟩
    obtain ⟨w, ⟨hgoes, hwrites⟩, hw⟩ := hlater e he hagent
    exact ⟨hgoes, w, hwrites, hw⟩

/-- What is logged, a request logs. -/
theorem Logs.agent
    (hrun : Execution (Scheduled UploadClock) (uploadsFrom env requests db objects now) events c)
    {e : Event (Option ι) (UploadStore ι)} (he : e ∈ events) {entry : UploadEntry}
    (hlogs : Logs e entry) : ∃ i, e.agent = some i := by
  obtain ⟨_, c', p, -, -, hact⟩ := hrun.split he
  cases hagent : e.agent with
  | some i => exact ⟨i, rfl⟩
  | none =>
    rw [hagent] at hact
    cases hact with
    | environment h =>
      obtain ⟨t, -, hclock⟩ := h
      have hsame : e.after.log = e.before.log := by rw [hclock]
      exact absurd (hsame.symm.trans hlogs) (by simp)

/-- A request opens with its first event. -/
theorem opens_of_isFirst
    (hrun : Execution (Scheduled UploadClock) (uploadsFrom env requests db objects now) events c)
    {e : Event (Option ι) (UploadStore ι)} {i : ι} (hagent : e.agent = some i)
    (hfirst : e.IsFirst events) : e.after = (requests i).opens e.before := by
  rcases uploads_begun hrun i with hnone | ⟨earlier, first, later, hevents, hi, hnone, hafter, -⟩
  · obtain ⟨earlier, later, hevents, -⟩ := hfirst
    exact absurd hagent (hnone e (hevents ▸ List.mem_append_right _ List.mem_cons_self))
  · rw [hfirst.eq hevents (fun e he => hi ▸ hnone e he) (hagent.trans hi.symm)]
    exact hafter

/-- After an event of its own a request goes on with a later statement. -/
theorem writes_of_between
    (hrun : Execution (Scheduled UploadClock) (uploadsFrom env requests db objects now) events c)
    {first last : Event (Option ι) (UploadStore ι)}
    {between : List (Event (Option ι) (UploadStore ι))} {i : ι}
    (hbetween : Between events first between last) (hfirst : first.agent = some i)
    (hlast : last.agent = some i) :
    ∃ w, (requests i).Writes w ∧ last.after = w last.before := by
  rcases uploads_begun hrun i with hnone | ⟨earlier, opening, later, hevents, hi, hnone, -, hlater⟩
  · obtain ⟨earlier, later, hevents⟩ := hbetween
    exact absurd hfirst (hnone first (hevents ▸ List.mem_append_right _ List.mem_cons_self))
  · have hmem := hbetween.mem_later hevents (fun e he => hi ▸ hnone e he) (hfirst.trans hi.symm)
    exact (hlater last hmem hlast).2

/-- An event of a request opens it, or comes after the event that did and let it go on. -/
theorem opens_or_writes
    (hrun : Execution (Scheduled UploadClock) (uploadsFrom env requests db objects now) events c)
    {e : Event (Option ι) (UploadStore ι)} (he : e ∈ events) {i : ι} (hagent : e.agent = some i) :
    (e.IsFirst events ∧ e.after = (requests i).opens e.before) ∨
      ∃ first between w, Between events first between e ∧ first.IsFirst events ∧
        first.agent = some i ∧ first.after = (requests i).opens first.before ∧
        (requests i).GoesOn first.before.db ∧ (requests i).Writes w ∧ e.after = w e.before := by
  rcases uploads_begun hrun i with hnone | ⟨earlier, first, later, rfl, hi, hnone, hafter, hlater⟩
  · exact absurd hagent (hnone e he)
  · have hfirst : first.IsFirst (earlier ++ first :: later) :=
      ⟨earlier, later, rfl, fun e he => hi ▸ hnone e he⟩
    rcases List.mem_append.1 he with he | he
    · exact absurd hagent (hnone e he)
    rcases List.mem_cons.1 he with rfl | he
    · exact Or.inl ⟨hfirst, hafter⟩
    · obtain ⟨hgoes, w, hwrites, hw⟩ := hlater e he hagent
      obtain ⟨between, rest, rfl⟩ := List.append_of_mem he
      exact Or.inr ⟨first, between, w, ⟨earlier, rest, rfl⟩, hfirst, hi, hafter, hgoes, hwrites, hw⟩

/-- What is accepted is a part or a completion that opens while the session is open. -/
theorem accepted_of_logs
    (hrun : Execution (Scheduled UploadClock) (uploadsFrom env requests db objects now) events c)
    {e : Event (Option ι) (UploadStore ι)} (he : e ∈ events) {id : Uuid}
    (hlogs : Logs e (.accepted id)) :
    ∃ i session, e.agent = some i ∧ e.IsFirst events ∧
      e.before.db.uploadSessions.get? id = some session ∧ session.status = .open ∧
      (requests i).Fills id session.repoId := by
  obtain ⟨i, hagent⟩ := hlogs.agent hrun he
  rcases opens_or_writes hrun he hagent with ⟨hfirst, hafter⟩ |
    ⟨_, _, w, -, -, -, -, -, hwrites, hw⟩
  · unfold Logs at hlogs
    rw [hafter] at hlogs
    rcases (requests i).opens_log e.before with hsame | ⟨k, session, hlog, hfills, hsession, hopen⟩
    · exact absurd (hsame.symm.trans hlogs) (by simp)
    · have hid := List.singleton_inj.1 (List.append_cancel_left (hlog.symm.trans hlogs))
      obtain rfl := UploadEntry.accepted.inj hid
      exact ⟨i, session, hagent, hfirst, hsession, hopen, hfills⟩
  · unfold Logs at hlogs
    rw [hw] at hlogs
    rcases hwrites.logged hlogs with ⟨r, -, hcloses⟩ | ⟨_, _, -, hentry⟩
    · exact hcloses.elim
    · exact absurd hentry nofun

/-- A status is written by a completion, whose first event found the session open, or by an
abort of its repository. -/
theorem statusSet_of_logs
    (hrun : Execution (Scheduled UploadClock) (uploadsFrom env requests db objects now) events c)
    {e : Event (Option ι) (UploadStore ι)} (he : e ∈ events) {id : Uuid} {status : UploadStatus}
    (hlogs : Logs e (.statusSet id status)) :
    ∃ i first between session, Between events first between e ∧ first.agent = some i ∧
      e.agent = some i ∧ first.before.db.uploadSessions.get? id = some session ∧
      ((status = .completed ∧ first.IsFirst events ∧ first.after.db = first.before.db ∧
        session.status = .open ∧ (requests i).Fills id session.repoId) ∨
      (status = .aborted ∧ requests i = .abort id session.repoId)) := by
  obtain ⟨i, hagent⟩ := hlogs.agent hrun he
  unfold Logs at hlogs
  rcases opens_or_writes hrun he hagent with ⟨-, hafter⟩ |
    ⟨first, between, w, hbetween, hfirst, hi, hafter, hgoes, hwrites, hw⟩
  · rw [hafter] at hlogs
    rcases (requests i).opens_log e.before with hsame | ⟨_, _, hlog, -⟩
    · exact absurd (hsame.symm.trans hlogs) (by simp)
    · exact absurd (List.singleton_inj.1 (List.append_cancel_left (hlog.symm.trans hlogs))) nofun
  · rw [hw] at hlogs
    rcases hwrites.logged hlogs with ⟨r, hrequest, rfl, rfl⟩ | ⟨uploadId, repo, hrequest, hentry⟩
    · rw [hrequest] at hgoes hafter
      obtain ⟨session, hok⟩ := hgoes
      obtain ⟨hsession, hrepo, hopen⟩ := Catalog.openSession_eq_ok_iff.1 hok
      have hfills : (requests i).Fills r.uploadId session.repoId := by
        rw [hrequest]
        exact ⟨rfl, hrepo.symm⟩
      refine ⟨i, first, between, session, hbetween, hi, hagent, hsession, Or.inl ⟨rfl, hfirst, ?_,
        hopen, hfills⟩⟩
      rw [hafter]
      show (UploadRequest.opens.letIn r.uploadId r.repo first.before).db = _
      unfold UploadRequest.opens.letIn
      rw [hok]
    · rw [hrequest] at hgoes
      obtain ⟨session, hsession, rfl⟩ := hgoes
      obtain ⟨rfl, rfl⟩ := UploadEntry.statusSet.inj hentry
      exact ⟨i, first, between, session, hbetween, hi, hagent, hsession, Or.inr ⟨rfl, hrequest⟩⟩

/-- What an abort does after its read is write the status. -/
theorem logs_of_abort
    (hrun : Execution (Scheduled UploadClock) (uploadsFrom env requests db objects now) events c)
    {first last : Event (Option ι) (UploadStore ι)}
    {between : List (Event (Option ι) (UploadStore ι))} {i : ι} {id repo : Uuid}
    (hrequest : requests i = .abort id repo) (hbetween : Between events first between last)
    (hfirst : first.agent = some i) (hlast : last.agent = some i) :
    Logs last (.statusSet id .aborted) := by
  obtain ⟨w, hwrites, hw⟩ := writes_of_between hrun hbetween hfirst hlast
  rw [hrequest] at hwrites
  unfold Logs
  rw [hw]
  exact hwrites last.before

end Run

end Requests

end Sconce
