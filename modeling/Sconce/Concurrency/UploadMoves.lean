/-
# The moves of upload requests

What one statement of a request on an upload session can do: concern no session, accept a
request, register a version or a snapshot, write a status, or expire what is overdue
(`UploadMove`).  Whatever happens, sessions keep their target and packages and versions
stay (`UploadKept`).

`moves_script` outlines every request: its statements make these moves while the other
requests keep what `UploadKept` says.
-/
import Sconce.Storage.Uploads

namespace Sconce

open Effect Interleaving Script

/-! ## Statements that concern no session -/

/-- What a statement that concerns no session keeps: the sessions, the ids of packages,
and the keys of versions. -/
structure Catalog.Quiet (db db' : Catalog) : Prop where
  sessions : db'.uploadSessions = db.uploadSessions
  packages : ∀ repo name id, (db.packageIn repo name).map Prod.fst = some id →
    (db'.packageIn repo name).map Prod.fst = some id
  versions : ∀ key, (db.packageVersions.get? key).isSome → (db'.packageVersions.get? key).isSome

namespace Catalog.Quiet

variable {db : Catalog}

/-- A statement on other tables is quiet. -/
theorem of_eq {db db' : Catalog} (hsessions : db'.uploadSessions = db.uploadSessions)
    (hpackages : db'.packages = db.packages) (hversions : db'.packageVersions = db.packageVersions) :
    db.Quiet db' := by
  refine ⟨hsessions, fun repo name id h => ?_, fun key h => ?_⟩
  · unfold Catalog.packageIn at h ⊢
    rwa [hpackages]
  · rwa [hversions]

theorem refl (db : Catalog) : db.Quiet db := of_eq rfl rfl rfl

theorem updatePackages {ε : Type} (p : Uuid → Package → Bool) {f : Package → Package}
    (hf : ∀ r, (f r).repoId = r.repoId ∧ (f r).name = r.name) :
    db.Quiet (exec (updatePackages p f : Effect Catalog ε Unit) db).2 := by
  have hboth : ∀ id r, (if p id r then f r else r).repoId = r.repoId ∧
      (if p id r then f r else r).name = r.name := by
    intro id r
    split_ifs
    · exact hf r
    · exact ⟨rfl, rfl⟩
  exact ⟨rfl, fun repo name id h => (packageIn_update db hboth repo name).trans h, fun _ h => h⟩

/-- `insert into packages` keeps the ids of the stored packages, and the one it returns is
then stored. -/
theorem insertPackage (newId repo : Uuid) (name kind : String) (source : Option Json)
    (visibility : Visibility) :
    db.Quiet (exec (insertPackage newId repo name kind source visibility) db).2 ∧
      ∀ id, (exec (Sconce.insertPackage newId repo name kind source visibility) db).1 = .ok id →
        (Catalog.packageIn (exec (Sconce.insertPackage newId repo name kind source visibility) db).2
          repo name).map Prod.fst = some id := by
  rcases insertPackage_cases db newId repo name kind source visibility with
    ⟨id, packages, hrun, -, hstored, hids⟩ | ⟨e, hrun⟩
  · rw [hrun]
    refine ⟨⟨rfl, fun repo' name' k hk => ?_, fun _ h => h⟩, fun k hk => ?_⟩
    · rw [hids, ← hk]
      split_ifs with hsame
      · rcases hstored with hstored | ⟨hnone, -⟩
        · rw [hsame.1, hsame.2, hstored]
        · rw [hsame.1, hsame.2, hnone] at hk
          exact absurd hk nofun
      · rfl
    · rw [hids, if_pos ⟨rfl, rfl⟩, Except.ok.inj hk]
  · rw [hrun]
    exact ⟨refl db, nofun⟩

theorem upsertBlob {ε : Type} (now : Timestamp) (sha : Sha256) (size : ℤ) :
    db.Quiet (exec (upsertBlob now sha size : Effect Catalog ε Unit) db).2 := of_eq rfl rfl rfl

theorem recordUploadPart (session : Uuid) (n : ℤ) (sha : Sha256) (size : ℤ) :
    db.Quiet (exec (recordUploadPart session n sha size) db).2 := by
  unfold Sconce.recordUploadPart
  simp only [exec_bind, exec_get, andThen]
  by_cases hsession : (db.uploadSessions.get? session).isNone = true
  · rw [if_pos hsession]
    exact refl db
  · rw [if_neg hsession]
    exact of_eq rfl rfl rfl

theorem advanceLatest (repo : Uuid) (environment profile : String) (snapshot : Uuid) :
    db.Quiet (exec (advanceLatest repo environment profile snapshot) db).2 := by
  unfold Sconce.advanceLatest
  simp only [exec_bind, exec_get, andThen]
  by_cases hsnapshot : (db.snapshots.get? snapshot).isNone = true
  · rw [if_pos hsnapshot]
    exact refl db
  · rw [if_neg hsnapshot]
    exact of_eq rfl rfl rfl

theorem createSnapshot (now : Timestamp) (newId repo : Uuid) (environment profile : String)
    (sha : Sha256) (size : ℤ) (ref : Option String) :
    db.Quiet (exec (createSnapshot now newId repo environment profile sha size ref) db).2 := by
  unfold Sconce.createSnapshot
  simp only [exec_bind, exec_get, andThen]
  by_cases hid : (db.snapshots.get? newId).isSome = true
  · rw [if_pos hid]
    exact refl db
  rw [if_neg hid]
  by_cases hrefs : ((db.repositories.get? repo).isNone || (db.blobs.get? sha).isNone) = true
  · rw [if_pos hrefs]
    exact refl db
  · rw [if_neg hrefs]
    exact of_eq rfl rfl rfl

theorem insertVersionRow (key : VersionKey) (row : PackageVersion) :
    db.Quiet (exec (insertVersionRow key row) db).2 := by
  rcases insertVersionRow_cases key row db with ⟨_, _, hrun⟩ | ⟨_, _, hrun⟩ | ⟨_, _, _, hrun⟩
  · rw [hrun]
    exact refl db
  · rw [hrun]
    refine ⟨rfl, fun _ _ _ h => h, fun k hk => ?_⟩
    obtain ⟨pv, hpv⟩ := Option.isSome_iff_exists.1 hk
    exact Option.isSome_iff_exists.2 ⟨pv, Table.get?_insertNew_of_some hpv _ _⟩
  · rw [hrun]
    exact refl db

end Catalog.Quiet

/-! ## What a step of a request can do -/

/-- The row of the session, whatever its status. -/
def Catalog.HasSession (db : Catalog) (id : Uuid) (session : UploadSession) : Prop :=
  ∃ status, db.uploadSessions.get? id = some { session with status }

/-- The snapshot of some completion of the session is registered. -/
def SnapshotLogged (id : Uuid) (log : List UploadEntry) : Prop :=
  ∃ snapshot, .snapshotCreated id snapshot ∈ log

/-- What every step keeps. -/
structure UploadKept {ι : Type} (s s' : UploadStore ι) : Prop where
  sessions : ∀ id session, s.db.HasSession id session → s'.db.HasSession id session
  packages : ∀ repo name id, (s.db.packageIn repo name).map Prod.fst = some id →
    (s'.db.packageIn repo name).map Prod.fst = some id
  versions : ∀ key, (s.db.packageVersions.get? key).isSome → (s'.db.packageVersions.get? key).isSome
  log : s.log <+: s'.log

/-- The key of the version a package session uploads. -/
def UploadSession.Uploads (env : UploadEnv) (db : Catalog) (session : UploadSession)
    (key : VersionKey) : Prop :=
  ∃ vendor name version visibility stability,
    session.target = .package vendor name version visibility ∧
      (db.packageIn session.repoId (vendor ++ "/" ++ name)).map Prod.fst = some key.packageId ∧
      normalizeVersion env.versions version = some (key.normalizedVersion, stability)

/-- What one step of an agent does to sessions and to the log. -/
inductive UploadMove {ι : Type} [DecidableEq ι] (env : UploadEnv) (i : ι)
    (s s' : UploadStore ι) : Prop
  | quiet (hsessions : s'.db.uploadSessions = s.db.uploadSessions) (hlog : s'.log = s.log)
      (hfinishing : s'.finishing = s.finishing)
  | accepts (id : Uuid) (session : UploadSession)
      (hsession : s.db.uploadSessions.get? id = some session) (hopen : session.status = .open)
      (hsessions : s'.db.uploadSessions = s.db.uploadSessions)
      (hlog : s'.log = s.log ++ [.accepted id]) (hfinishing : s'.finishing = s.finishing)
  | createsVersion (id : Uuid) (session : UploadSession) (key : VersionKey)
      (hsession : s.db.HasSession id session) (huploads : session.Uploads env s.db key)
      (habsent : s.db.packageVersions.get? key = none)
      (hpresent : (s'.db.packageVersions.get? key).isSome)
      (hsessions : s'.db.uploadSessions = s.db.uploadSessions)
      (hlog : s'.log = s.log ++ [.versionCreated id key]) (hfinishing : s'.finishing = s.finishing)
  | createsSnapshot (id : Uuid) (session : UploadSession) (snapshot : Uuid)
      (hsession : s.db.HasSession id session)
      (htarget : ∃ environment profile, session.target = .snapshot environment profile)
      (hfree : s.finishing i = none)
      (hsessions : s'.db.uploadSessions = s.db.uploadSessions)
      (hlog : s'.log = s.log ++ [.snapshotCreated id snapshot])
      (hfinishing : s'.finishing = Function.update s.finishing i (some id))
  | completes (id : Uuid) (session : UploadSession) (hsession : s.db.HasSession id session)
      (hlogged : ∀ environment profile, session.target = .snapshot environment profile →
        SnapshotLogged id s.log)
      (hsessions : s'.db.uploadSessions = (s.db.setUploadStatus id .completed).uploadSessions)
      (hlog : s'.log = s.log ++ [.statusSet id .completed])
      (hfinishing : s'.finishing = s.finishing ∨
        (s.finishing i = some id ∧ s'.finishing = Function.update s.finishing i none))
  | aborts (id : Uuid)
      (hsessions : s'.db.uploadSessions = (s.db.setUploadStatus id .aborted).uploadSessions)
      (hlog : s'.log = s.log ++ [.statusSet id .aborted]) (hfinishing : s'.finishing = s.finishing)
  | expires (now : Timestamp)
      (hsessions : s'.db.uploadSessions = s.db.uploadSessions.update fun _ r => r.expire now)
      (hlog : s'.log = s.log) (hfinishing : s'.finishing = s.finishing)

section Steps

variable {ι : Type} [DecidableEq ι] {env : UploadEnv} {i : ι} {s s' : UploadStore ι}

/-- What an agent's step guarantees. -/
def UploadGuarantee (env : UploadEnv) (i : ι) (s s' : UploadStore ι) : Prop :=
  UploadKept s s' ∧ UploadMove env i s s'

omit [DecidableEq ι] in
/-- What an agent relies on. -/
def UploadRely (i : ι) (s s' : UploadStore ι) : Prop :=
  UploadKept s s' ∧ s'.finishing i = s.finishing i

/-- The clock goes on. -/
def UploadClock (s s' : UploadStore ι) : Prop := ∃ t, s.now ≤ t ∧ s' = { s with now := t }

omit [DecidableEq ι] in
/-- A quiet step that appends to the log keeps what is kept. -/
theorem UploadKept.of_quiet (hdb : s.db.Quiet s'.db) (hlog : s.log <+: s'.log) :
    UploadKept s s' := by
  refine ⟨fun id session h => ?_, hdb.packages, hdb.versions, hlog⟩
  unfold Catalog.HasSession at h ⊢
  rwa [hdb.sessions]

/-- A step leaves the others' registrations alone. -/
theorem UploadMove.others (h : UploadMove env i s s') {j : ι} (hij : i ≠ j) :
    s'.finishing j = s.finishing j := by
  have hupdate : ∀ a : Option Uuid, Function.update s.finishing i a j = s.finishing j :=
    fun a => Function.update_of_ne (Ne.symm hij) a s.finishing
  cases h with
  | createsSnapshot _ _ _ _ _ _ _ _ hfinishing => rw [hfinishing, hupdate]
  | completes _ _ _ _ _ _ hfinishing =>
    rcases hfinishing with hfinishing | ⟨-, hfinishing⟩
    · rw [hfinishing]
    · rw [hfinishing, hupdate]
  | quiet _ _ hfinishing => rw [hfinishing]
  | accepts _ _ _ _ _ _ hfinishing => rw [hfinishing]
  | createsVersion _ _ _ _ _ _ _ _ _ hfinishing => rw [hfinishing]
  | aborts _ _ _ hfinishing => rw [hfinishing]
  | expires _ _ _ hfinishing => rw [hfinishing]

/-! ## The requests' steps -/

/-- The statements of a script make the moves of agent `i`. -/
abbrev Moves {α : Type} (env : UploadEnv) (i : ι) (Q : Except AppError α → UploadStore ι → Prop)
    (P : UploadStore ι → Prop) (m : Script (UploadStore ι) AppError α) : Prop :=
  Outlined (fun _ => True) (UploadRely i) (UploadGuarantee env i) Q P m

/-- An assertion about a session that the other agents leave true. -/
abbrev Lasting (i : ι) (P : UploadStore ι → Prop) : Prop :=
  Stable (fun _ => True) (UploadRely i) P

section Statements

variable {α : Type} {P : UploadStore ι → Prop}

/-- A statement that concerns no session keeps a lasting assertion. -/
theorem moves_sql {m : Timestamp → Effect Catalog SqlError α} (hP : Lasting i P)
    (hm : ∀ now db, Catalog.Quiet db (exec (m now) db).2) :
    Moves env i (fun _ => P) P (sql m) := by
  have hkept : ∀ s : UploadStore ι, UploadKept s { s with db := (exec (m s.now) s.db).2 } :=
    fun s => .of_quiet (hm s.now s.db) (List.prefix_refl _)
  refine .stmt (fun _ _ h => h) hP (fun s _ _ => ⟨hkept s, .quiet (hm _ _).sessions rfl rfl⟩) ?_
  intro s _ hs
  refine .done ?_
  rintro _ _ rfl
  exact hP s _ trivial hs ⟨hkept s, rfl⟩

/-- A read keeps it, and the answer is what was read. -/
theorem moves_read (hP : Lasting i P) (f : UploadStore ι → Except AppError α) :
    Moves env i (fun _ => P) P (.stmt (fun s => s) fun s => .done (f s)) := by
  have hkept : ∀ s : UploadStore ι, UploadKept s s :=
    fun s => .of_quiet (.refl s.db) (List.prefix_refl _)
  refine .stmt (fun _ _ h => h) hP (fun s _ _ => ⟨hkept s, .quiet rfl rfl rfl⟩) ?_
  intro s _ hs
  refine .done ?_
  rintro _ _ rfl
  exact hs

theorem moves_put (hP : Lasting i P) (bytes : List UInt8) :
    Moves env i (fun _ => P) P (putObject env bytes) := by
  have hkept : ∀ s : UploadStore ι,
      UploadKept s { s with objects := s.objects.put (env.sha256 bytes) bytes } :=
    fun s => .of_quiet (.refl s.db) (List.prefix_refl _)
  refine .stmt (fun _ _ h => h) hP (fun s _ _ => ⟨hkept s, .quiet rfl rfl rfl⟩) ?_
  intro s _ hs
  refine .done ?_
  rintro _ _ rfl
  exact hP s _ trivial hs ⟨hkept s, rfl⟩

/-- What follows a step that keeps the assertion, whatever its answer. -/
theorem moves_bind {β : Type} {Q : Except AppError β → UploadStore ι → Prop}
    {m : Script (UploadStore ι) AppError α} {k : α → Script (UploadStore ι) AppError β}
    (hm : Moves env i (fun _ => P) P m) (hk : ∀ a, Moves env i Q P (k a))
    (he : ∀ e s, P s → Q (.error e) s) : Moves env i Q P (m >>= k) :=
  outlined_bind hm hk fun e s _ h => he e s h

theorem moves_assemble (hP : Lasting i P) (ids : List Sha256) (expected : Sha256) (cap : ℕ) :
    Moves env i (fun _ => P) P (assemble env ids expected cap) := by
  unfold assemble
  refine moves_bind ?_ (fun input => ?_) fun _ _ h => h
  · refine outlined_foldlM (I := fun _ _ => P) (fun input id rest => ?_) (fun _ _ _ h => h) ids []
    refine outlined_bind (moves_read hP _) (fun bytes => ?_) fun _ _ _ h => h
    split_ifs
    · exact outlined_fail fun _ _ h => h
    · exact outlined_pure fun _ _ h => h
  · split_ifs
    · exact outlined_fail fun _ _ h => h
    · exact outlined_pure fun _ _ h => h

/-- A request that `open_session` lets in. -/
theorem moves_openSession (hP : Lasting i P) (uploadId repo : Uuid) :
    Moves env i (fun answer s => P s ∧ ∀ session, answer = .ok session →
      s.db.HasSession uploadId session ∧ session.repoId = repo) P (openSession uploadId repo) := by
  have hcases : ∀ s : UploadStore ι,
      (∃ session, s.db.openSession uploadId repo = .ok session ∧
        s.db.uploadSessions.get? uploadId = some session ∧ session.repoId = repo ∧
        session.status = .open) ∨ ∃ e, s.db.openSession uploadId repo = .error e := by
    intro s
    cases hopen : s.db.openSession uploadId repo with
    | error e => exact Or.inr ⟨e, rfl⟩
    | ok session => exact Or.inl ⟨session, rfl, Catalog.openSession_eq_ok_iff.1 hopen⟩
  refine .stmt (fun _ _ h => h) hP (fun s _ _ => ?_) fun s _ hs => .done ?_
  · rcases hcases s with ⟨session, hok, hsession, -, hopen⟩ | ⟨e, herror⟩
    · simp only [hok]
      exact ⟨.of_quiet (.refl s.db) (List.prefix_append _ _),
        .accepts uploadId session hsession hopen rfl rfl rfl⟩
    · simp only [herror]
      exact ⟨.of_quiet (.refl s.db) (List.prefix_refl _), .quiet rfl rfl rfl⟩
  · rintro s' - rfl
    rcases hcases s with ⟨session, hok, hsession, hrepo, -⟩ | ⟨e, herror⟩
    · simp only [hok]
      refine ⟨hP s _ trivial hs ⟨.of_quiet (.refl s.db) (List.prefix_append _ _), rfl⟩, ?_⟩
      intro session' hsession'
      obtain rfl := Except.ok.inj hsession'
      exact ⟨⟨session.status, hsession⟩, hrepo⟩
    · simp only [herror]
      exact ⟨hs, fun session h => absurd h nofun⟩

end Statements

/-- The request is about the session, and has registered nothing. -/
def UploadAdmitted (i : ι) (uploadId : Uuid) (session : UploadSession) (s : UploadStore ι) : Prop :=
  s.db.HasSession uploadId session ∧ s.finishing i = none

omit [DecidableEq ι] in
theorem UploadAdmitted.lasting (uploadId : Uuid) (session : UploadSession) :
    Lasting i (UploadAdmitted i uploadId session) :=
  fun _ _ _ h hrely => ⟨hrely.1.sessions uploadId session h.1, hrely.2.trans h.2⟩

/-- What a completion has done when it writes the status. -/
def Ingested (uploadId : Uuid) (session : UploadSession) (s : UploadStore ι) : Prop :=
  s.db.HasSession uploadId session ∧
    ∀ environment profile, session.target = .snapshot environment profile →
      SnapshotLogged uploadId s.log

omit [DecidableEq ι] in
theorem Ingested.lasting (uploadId : Uuid) (session : UploadSession) :
    Lasting i (Ingested (ι := ι) uploadId session) := by
  rintro s s' - ⟨hsession, hlogged⟩ ⟨hkept, -⟩
  refine ⟨hkept.sessions uploadId session hsession, fun environment profile htarget => ?_⟩
  obtain ⟨snapshot, hmem⟩ := hlogged environment profile htarget
  exact ⟨snapshot, hkept.log.subset hmem⟩

omit [DecidableEq ι] in
/-- `set_upload_status` keeps the sessions but for the status of one. -/
theorem UploadKept.setUploadStatus (s : UploadStore ι) (id : Uuid) (status : UploadStatus)
    (entry : UploadEntry) (finishing : ι → Option Uuid) :
    UploadKept s { s with
      db := s.db.setUploadStatus id status, log := s.log ++ [entry], finishing := finishing } := by
  refine ⟨fun k session h => ?_, fun _ _ _ h => h, fun _ h => h, List.prefix_append _ _⟩
  obtain ⟨old, hold⟩ := h
  show ∃ status', Table.get? (Table.update _ _) k = _
  rw [Table.get?_update, hold]
  by_cases hk : k = id
  · exact ⟨status, by simp [hk]⟩
  · exact ⟨old, by simp [hk]⟩

/-- A session is completed after it was ingested. -/
theorem moves_markCompleted (uploadId : Uuid) (session : UploadSession) :
    Moves env i (fun _ _ => True) (Ingested uploadId session) (markCompleted i uploadId) := by
  refine .stmt (fun _ _ h => h) (Ingested.lasting uploadId session) (fun s _ hs => ?_)
    fun s _ _ => .done fun _ _ _ => trivial
  refine ⟨UploadKept.setUploadStatus s uploadId .completed _ _,
    .completes uploadId session hs.1 hs.2 rfl rfl ?_⟩
  by_cases hown : s.finishing i = some uploadId
  · exact Or.inr ⟨hown, if_pos hown⟩
  · exact Or.inl (if_neg hown)

theorem moves_markAborted (uploadId : Uuid) :
    Moves env i (fun _ _ => True) (fun _ => True) (markAborted uploadId) := by
  refine .stmt (fun _ _ h => h) (fun _ _ _ _ _ => trivial) (fun s _ _ => ?_)
    fun s _ _ => .done fun _ _ _ => trivial
  exact ⟨UploadKept.setUploadStatus s uploadId .aborted _ _, .aborts uploadId rfl rfl rfl⟩

/-- `create_snapshot` of a completion. -/
theorem moves_insertSnapshot {uploadId : Uuid} {session : UploadSession} {environment : String}
    {profile : Option String} (htarget : session.target = .snapshot environment profile)
    (newId repo : Uuid) (profile' : String) (blob : Sha256) (size : ℤ) :
    Moves env i (fun answer s => ∀ id, answer = .ok id → Ingested uploadId session s)
      (UploadAdmitted i uploadId session)
      (insertSnapshot i uploadId newId repo environment profile' blob size) := by
  have hquiet : ∀ s : UploadStore ι, Catalog.Quiet s.db
      (exec (createSnapshot s.now newId repo environment profile' blob size none) s.db).2 :=
    fun s => .createSnapshot s.now newId repo environment profile' blob size none
  refine .stmt (fun _ _ h => h) (UploadAdmitted.lasting uploadId session) (fun s _ hs => ?_)
    fun s _ hs => .done ?_
  · -- the one statement that registers a snapshot, and starts to finish
    have hdb := hquiet s
    rcases hrun : exec (createSnapshot s.now newId repo environment profile' blob size none) s.db
      with ⟨answer, db⟩
    rw [hrun] at hdb
    cases answer with
    | ok id =>
      dsimp only
      exact ⟨.of_quiet hdb (List.prefix_append _ _), .createsSnapshot uploadId session id hs.1
        ⟨environment, profile, htarget⟩ hs.2 hdb.sessions rfl rfl⟩
    | error e =>
      dsimp only
      exact ⟨.of_quiet hdb (List.prefix_refl _), .quiet hdb.sessions rfl rfl⟩
  · have hdb := hquiet s
    rintro s' - rfl id hid
    rcases hrun : exec (createSnapshot s.now newId repo environment profile' blob size none) s.db
      with ⟨answer, db⟩
    rw [hrun] at hdb hid
    cases answer with
    | error e => exact absurd hid nofun
    | ok id' =>
      dsimp only
      -- after it the snapshot is in the log
      have hkept : UploadKept s { s with
          db := db, log := s.log ++ [.snapshotCreated uploadId id']
          finishing := Function.update s.finishing i (some uploadId) } :=
        .of_quiet hdb (List.prefix_append _ _)
      refine ⟨hkept.sessions uploadId session hs.1, fun _ _ _ => ⟨id', ?_⟩⟩
      exact List.mem_append_right _ (List.mem_singleton_self _)

/-- A dump is ingested for an admitted session. -/
theorem moves_finishUpload {r : CompleteRequest} {session : UploadSession} {environment : String}
    {profile : Option String} (htarget : session.target = .snapshot environment profile)
    (ids : List Sha256) (expected : Sha256) (total : ℕ) :
    Moves env i (fun answer s => ∀ a, answer = .ok a → Ingested r.uploadId session s)
      (UploadAdmitted i r.uploadId session)
      (finishUpload env i r session.repoId environment profile ids expected total) := by
  have hadmitted : Lasting i (UploadAdmitted i r.uploadId session) := UploadAdmitted.lasting _ _
  unfold finishUpload
  split_ifs
  · exact outlined_fail fun _ _ _ => nofun
  · refine moves_bind (moves_assemble hadmitted _ _ _) (fun input => ?_) fun _ _ _ => nofun
    refine moves_bind (moves_put hadmitted input) (fun blob => ?_) fun _ _ _ => nofun
    refine moves_bind (moves_sql hadmitted fun _ _ => .upsertBlob _ _ _) (fun _ => ?_)
      fun _ _ _ => nofun
    refine outlined_bind (moves_insertSnapshot htarget _ _ _ _ _) (fun id => ?_) fun _ _ _ _ => nofun
    -- the snapshot is registered; its pointer concerns no session
    refine Outlined.strengthen (P := Ingested r.uploadId session) ?_ fun s _ h => h id rfl
    refine outlined_bind (moves_sql (Ingested.lasting _ _) fun _ _ => .advanceLatest _ _ _ _)
      (fun _ => ?_) fun _ _ _ _ => nofun
    exact outlined_pure fun _ _ h _ _ => h

section Persist

variable {uploadId : Uuid} {session : UploadSession} {call : PublishCall}

/-- The package of the session has the id. -/
def PackageAt (call : PublishCall) (id : Uuid) (s : UploadStore ι) : Prop :=
  (s.db.packageIn call.repo call.pkgName).map Prod.fst = some id

omit [DecidableEq ι] in
/-- The package of a publish stays under its id. -/
theorem PackageAt.lasting (call : PublishCall) {P : UploadStore ι → Prop} (hP : Lasting i P)
    (id : Uuid) :
    Lasting i fun s => P s ∧ PackageAt call id s :=
  fun s s' hs h hrely => ⟨hP s s' hs h.1 hrely, hrely.1.packages _ _ _ h.2⟩

theorem moves_ensurePrivate {P : UploadStore ι → Prop} (hP : Lasting i P) :
    Moves env i (fun _ => P) P (ensurePrivateStatement call) := by
  unfold ensurePrivateStatement
  exact moves_bind (moves_read hP _) (fun _ => outlined_ret fun _ _ h => h) fun _ _ h => h

theorem moves_chooseVisibility {P : UploadStore ι → Prop} (hP : Lasting i P) :
    Moves env i (fun _ => P) P (chooseVisibility call) := by
  unfold chooseVisibility
  refine moves_bind (moves_read hP _) (fun chosen => ?_) fun _ _ h => h
  show Moves env i (fun _ => P) P (if _ ∨ _ then _ else _)
  split_ifs
  · exact moves_bind (outlined_ret fun _ _ h => h) (fun _ => outlined_pure fun _ _ h => h)
      fun _ _ h => h
  · refine moves_bind (moves_read hP _) (fun allowed => ?_) fun _ _ h => h
    exact moves_bind (outlined_ret fun _ _ h => h) (fun _ => outlined_pure fun _ _ h => h)
      fun _ _ h => h

/-- `upsert_package` answers the id of the package. -/
theorem moves_upsertPackage {P : UploadStore ι → Prop} (hP : Lasting i P) (visibility : Visibility) :
    Moves env i (fun answer s => P s ∧ ∀ id, answer = .ok id → PackageAt call id s) P
      (upsertPackageStatements call visibility) := by
  -- the insert or the update, whichever it is, answers with a package of the name
  have hinsert : Moves env i (fun answer s => P s ∧ ∀ id, answer = .ok id → PackageAt call id s) P
      (do if ← select (·.hasMembers call.repo) then
            fail (.badRequest ("this repository is made of member repositories and holds no packages "
              ++ "of its own: publish or mirror into one of its members"))
          else
            sql fun _ => insertPackage call.draw.newId call.repo call.pkgName "upload"
              (some (.object [("kind", .string "upload")])) visibility) := by
    refine moves_bind (moves_read hP _) (fun hasMembers => ?_) fun _ _ h => ⟨h, fun _ => nofun⟩
    split_ifs
    · exact outlined_fail fun _ _ h => ⟨h, fun _ => nofun⟩
    · have hquiet := fun db : Catalog => @Catalog.Quiet.insertPackage db call.draw.newId
        call.repo call.pkgName "upload" (some (.object [("kind", .string "upload")])) visibility
      have hkept : ∀ s : UploadStore ι, UploadKept s { s with
          db := (exec (insertPackage call.draw.newId call.repo call.pkgName "upload"
            (some (.object [("kind", .string "upload")])) visibility) s.db).2 } :=
        fun s => .of_quiet (hquiet s.db).1 (List.prefix_refl _)
      refine .stmt (fun _ _ h => h) hP (fun s _ _ => ⟨hkept s, .quiet (hquiet s.db).1.sessions rfl rfl⟩)
        fun s _ hs => .done ?_
      rintro s' - rfl
      refine ⟨hP s _ trivial hs ⟨hkept s, rfl⟩, fun id hid => ?_⟩
      refine (hquiet s.db).2 id ?_
      cases hrun : (exec (insertPackage call.draw.newId call.repo call.pkgName "upload"
        (some (.object [("kind", .string "upload")])) visibility) s.db).1 with
      | ok id' =>
        rw [hrun] at hid
        rw [Except.ok.inj hid]
      | error e =>
        rw [hrun] at hid
        exact absurd hid nofun
  unfold upsertPackageStatements
  refine moves_bind (moves_read hP _) (fun existing => ?_) fun _ _ h => ⟨h, fun _ => nofun⟩
  -- a private package needs the switch of the organization first
  by_cases hprivate : effectiveVisibility visibility existing = .private
  · simp only [if_pos hprivate]
    exact moves_bind (moves_ensurePrivate hP) (fun _ => hinsert) fun _ _ h => ⟨h, fun _ => nofun⟩
  · simp only [if_neg hprivate]
    exact hinsert

theorem moves_declare {P : UploadStore ι → Prop} (hP : Lasting i P) (visibility : Visibility) :
    Moves env i (fun _ => P) P (declareStatements call visibility) := by
  have hupdate : Moves env i (fun _ => P) P (sql fun now =>
      updatePackages (Package.isNamed call.repo call.pkgName) fun r =>
        { r with visibility, visibilityDeclaredAt := some now }) :=
    moves_sql hP fun _ _ => .updatePackages _ fun _ => ⟨rfl, rfl⟩
  unfold declareStatements
  by_cases hprivate : visibility = .private
  · simp only [if_pos hprivate]
    exact moves_bind (moves_ensurePrivate hP) (fun _ => hupdate) fun _ _ h => h
  · simp only [if_neg hprivate]
    exact hupdate

/-- `insert_version_once` for the session: at most the version it uploads. -/
theorem moves_insertVersion (key : VersionKey) (row : PackageVersion)
    (huploads : ∀ s : UploadStore ι, PackageAt call key.packageId s →
      session.Uploads env s.db key) :
    Moves env i (fun _ => UploadAdmitted i uploadId session)
      (fun s => UploadAdmitted i uploadId session s ∧ PackageAt call key.packageId s)
      (insertVersionStatements uploadId key row) := by
  have hadmitted : Lasting i (UploadAdmitted i uploadId session) := UploadAdmitted.lasting _ _
  unfold insertVersionStatements
  refine outlined_bind (Q := fun _ => UploadAdmitted i uploadId session) ?_ (fun created => ?_)
    fun _ _ _ h => h
  · have hquiet : ∀ s : UploadStore ι, s.db.Quiet (exec (insertVersionRow key row) s.db).2 :=
      fun s => .insertVersionRow key row
    refine .stmt (fun _ _ h => h) (PackageAt.lasting _ hadmitted _) (fun s _ hs => ?_)
      fun s _ hs => .done ?_
    · -- the version is there already, is inserted, or its package is gone
      rcases insertVersionRow_cases key row s.db with ⟨_, _, hrun⟩ | ⟨habsent, _, hrun⟩ |
        ⟨e, _, _, hrun⟩
      · simp only [hrun]
        exact ⟨.of_quiet (.refl s.db) (List.prefix_refl _), .quiet rfl rfl rfl⟩
      · have hdb := hquiet s
        rw [hrun] at hdb
        simp only [hrun]
        refine ⟨.of_quiet hdb (List.prefix_append _ _), .createsVersion uploadId session key hs.1.1
          (huploads s hs.2) habsent ?_ rfl rfl rfl⟩
        show (Table.get? (Table.insertNew _ key row) key).isSome
        rw [Table.get?_insertNew_self]
        rfl
      · simp only [hrun]
        exact ⟨.of_quiet (.refl s.db) (List.prefix_refl _), .quiet rfl rfl rfl⟩
    · rintro s' - rfl
      rcases insertVersionRow_cases key row s.db with ⟨_, _, hrun⟩ | ⟨_, _, hrun⟩ | ⟨e, _, _, hrun⟩
      · simp only [hrun]
        exact hs.1
      · simp only [hrun]
        exact hs.1
      · simp only [hrun]
        exact hs.1
  · split_ifs
    · exact outlined_pure fun _ _ h => h
    · exact moves_bind (moves_read hadmitted _) (fun _ => outlined_pure fun _ _ h => h) fun _ _ h => h

/-- `persist` of a package session. -/
theorem moves_persist {vendor name version : String} {visibility : Option Visibility}
    (htarget : session.target = .package vendor name version visibility)
    (hrepo : call.repo = session.repoId) (hname : call.pkgName = vendor ++ "/" ++ name)
    (hversion : call.version = version) :
    Moves env i (fun _ => UploadAdmitted i uploadId session) (UploadAdmitted i uploadId session)
      (persistStatements env uploadId call) := by
  have hadmitted : Lasting i (UploadAdmitted i uploadId session) := UploadAdmitted.lasting _ _
  have hinserts : ∀ id normalized stability, normalizeVersion env.versions call.version
      = some (normalized, stability) → Moves env i (fun _ => UploadAdmitted i uploadId session)
      (fun s => UploadAdmitted i uploadId session s ∧ PackageAt call id s)
      (insertVersionStatements uploadId ⟨id, normalized⟩ (call.versionRow stability)) := by
    intro id normalized stability hnormalized
    refine moves_insertVersion ⟨id, normalized⟩ _ fun s hs => ?_
    refine ⟨vendor, name, version, visibility, stability, htarget, ?_, ?_⟩
    · rw [← hrepo, ← hname]
      exact hs
    · rw [← hversion]
      exact hnormalized
  unfold persistStatements
  cases hnormalized : normalizeVersion env.versions call.version with
  | none => exact .done fun _ _ h => h
  | some parsed =>
    show Moves env i _ _ (chooseVisibility call >>= _)
    refine moves_bind (moves_chooseVisibility hadmitted) (fun chosen => ?_) fun _ _ h => h
    refine moves_bind (moves_sql hadmitted fun _ _ => .upsertBlob _ _ _) (fun _ => ?_) fun _ _ h => h
    refine outlined_bind (moves_upsertPackage hadmitted chosen.2) (fun id => ?_) fun _ _ _ h => h.1
    have hlasting := PackageAt.lasting call hadmitted id
    have hinsert := hinserts id parsed.1 parsed.2 hnormalized
    refine Outlined.strengthen (P := fun s => UploadAdmitted i uploadId session s ∧ PackageAt call id s) ?_
      fun s _ h => ⟨h.1, h.2 id rfl⟩
    by_cases hdeclares : chosen.1.isNone ∧ call.requested.isSome
    · simp only [if_pos hdeclares]
      exact outlined_bind (moves_declare hlasting chosen.2) (fun _ => hinsert) fun _ _ _ h => h.1
    · simp only [if_neg hdeclares]
      exact hinsert

end Persist

/-- A package is ingested for an admitted session. -/
theorem moves_ingestPackage {r : CompleteRequest} {session : UploadSession}
    {vendor name version : String} {visibility : Option Visibility}
    (htarget : session.target = .package vendor name version visibility)
    (hrepo : session.repoId = r.repo) (ids : List Sha256) (expected : Sha256) (total : ℕ) :
    Moves env i (fun answer s => ∀ a, answer = .ok a → Ingested r.uploadId session s)
      (UploadAdmitted i r.uploadId session)
      (ingestPackage env r vendor name version visibility ids expected total) := by
  have hadmitted : Lasting i (UploadAdmitted i r.uploadId session) := UploadAdmitted.lasting _ _
  unfold ingestPackage
  split_ifs
  · exact outlined_fail fun _ _ _ => nofun
  · refine moves_bind (moves_assemble hadmitted _ _ _) (fun input => ?_) fun _ _ _ => nofun
    refine moves_bind (outlined_ret fun _ _ h => h) (fun archived => ?_) fun _ _ _ => nofun
    refine moves_bind (moves_put hadmitted _) (fun blob => ?_) fun _ _ _ => nofun
    refine moves_bind (moves_persist htarget hrepo.symm rfl rfl) (fun outcome => ?_) fun _ _ _ => nofun
    refine outlined_pure fun s _ h _ _ => ⟨h.1, fun environment profile hsnapshot => ?_⟩
    exact absurd (htarget.symm.trans hsnapshot) nofun

/-- A session is ingested, and then completed. -/
theorem moves_completeSession {r : CompleteRequest} {session : UploadSession}
    (hrepo : session.repoId = r.repo) :
    Moves env i (fun _ _ => True) (UploadAdmitted i r.uploadId session)
      (completeSession env i r session) := by
  have hadmitted : Lasting i (UploadAdmitted i r.uploadId session) := UploadAdmitted.lasting _ _
  have hmark : Moves env i (fun _ _ => True) (Ingested r.uploadId session)
      (markCompleted i r.uploadId) := moves_markCompleted r.uploadId session
  have hrest : ∀ response : UploadAnswer, Moves env i (fun _ _ => True)
      (Ingested r.uploadId session) (do markCompleted i r.uploadId; return response) :=
    fun response => outlined_bind hmark (fun _ => outlined_pure fun _ _ _ => trivial)
      fun _ _ _ _ => trivial
  unfold completeSession
  refine moves_bind (moves_read hadmitted _) (fun parts => ?_) fun _ _ _ => trivial
  split_ifs
  · exact outlined_fail fun _ _ _ => trivial
  · exact outlined_fail fun _ _ _ => trivial
  refine moves_bind (outlined_ret fun _ _ h => h) (fun expected => ?_) fun _ _ _ => trivial
  cases htarget : session.target with
  | snapshot environment profile =>
    refine outlined_bind (moves_finishUpload htarget _ _ _) (fun response => ?_)
      fun _ _ _ _ => trivial
    exact (hrest response).strengthen fun s _ h => h response rfl
  | package vendor name version visibility =>
    refine outlined_bind (moves_ingestPackage htarget hrepo _ _ _) (fun response => ?_)
      fun _ _ _ _ => trivial
    exact (hrest response).strengthen fun s _ h => h response rfl

/-- A completion is admitted first, and goes on from there. -/
theorem moves_uploadComplete (r : CompleteRequest) :
    Moves env i (fun _ _ => True) (fun s => s.finishing i = none) (uploadComplete env i r) := by
  have hfree : Lasting i (fun s : UploadStore ι => s.finishing i = none) :=
    fun _ _ _ h hrely => hrely.2.trans h
  unfold uploadComplete
  refine outlined_bind (moves_openSession hfree r.uploadId r.repo) (fun session => ?_)
    fun _ _ _ _ => trivial
  -- the session that was found is one of the repository of the request
  by_cases hrepo : session.repoId = r.repo
  · exact (moves_completeSession hrepo).strengthen fun s _ h => ⟨(h.2 session rfl).1, h.1⟩
  · exact outlined_of_not fun s _ h => hrepo (h.2 session rfl).2

/-- The statements of every request make the agent's moves. -/
theorem moves_script (request : UploadRequest) :
    Moves env i (fun _ _ => True) (fun s => s.finishing i = none) (request.script env i) := by
  -- no other request touches what this one has yet to finish
  have hfree : Lasting i (fun s : UploadStore ι => s.finishing i = none) :=
    fun _ _ _ h hrely => hrely.2.trans h
  cases request with
  | part uploadId repo n body =>
    refine outlined_bind (moves_openSession hfree uploadId repo) (fun session => ?_)
      fun _ _ _ _ => trivial
    refine Outlined.strengthen (P := fun s => s.finishing i = none) ?_ fun s _ h => h.1
    split_ifs
    · exact outlined_fail fun _ _ _ => trivial
    · refine moves_bind (moves_put hfree body) (fun blob => ?_) fun _ _ _ => trivial
      refine moves_bind (moves_sql hfree fun _ _ => .upsertBlob _ _ _) (fun _ => ?_)
        fun _ _ _ => trivial
      refine moves_bind (moves_sql hfree fun _ _ => .recordUploadPart _ _ _ _) (fun _ => ?_)
        fun _ _ _ => trivial
      exact outlined_pure fun _ _ _ => trivial
  | complete r => exact moves_uploadComplete r
  | abort uploadId repo =>
    refine moves_bind (moves_read hfree _) (fun found => ?_) fun _ _ _ => trivial
    refine moves_bind (outlined_ret fun _ _ h => h) (fun session => ?_) fun _ _ _ => trivial
    split_ifs
    · exact outlined_fail fun _ _ _ => trivial
    · refine Outlined.strengthen (P := fun _ => True) ?_ fun _ _ _ => trivial
      exact outlined_bind (moves_markAborted uploadId) (fun _ => outlined_pure fun _ _ _ => trivial)
        fun _ _ _ _ => trivial
  | expire =>
    refine outlined_bind (Q := fun _ _ => True) ?_ (fun _ => outlined_pure fun _ _ _ => trivial)
      fun _ _ _ _ => trivial
    refine .stmt (fun _ _ h => h) hfree (fun s _ _ => ⟨?_, .expires s.now rfl rfl rfl⟩)
      fun s _ _ => .done fun _ _ _ => trivial
    -- expiring changes no more of a row than its status
    refine ⟨fun k session h => ?_, fun _ _ _ h => h, fun _ h => h, List.prefix_refl _⟩
    obtain ⟨status, hstatus⟩ := h
    show ∃ status', Table.get? (Table.update _ _) k = _
    rw [Table.get?_update, hstatus]
    show ∃ status', some (UploadSession.expire s.now _) = _
    unfold UploadSession.expire
    split_ifs
    · exact ⟨.aborted, rfl⟩
    · exact ⟨status, rfl⟩

end Steps

end Sconce
