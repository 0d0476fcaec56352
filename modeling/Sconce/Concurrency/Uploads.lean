/-
# Upload sessions under races

Any number of requests on upload sessions, their statements interleaved in any order, and
time passing in between.  Nothing locks a session: a completion reads it, ingests, and
writes its status at the end; aborting and expiring write the same column.

`upload_safe_iff` says when a session behaves: it ingests once, its terminal status is
final and no request is accepted after its deadline, exactly when its requests take turns
and come in time (`UploadsInTurn`); `Chunks.upload_races` is a run where they do neither.
-/
import Sconce.Concurrency.UploadRequests

namespace Sconce

open Effect Interleaving Script

/-! ## Safe sessions -/

namespace UploadEntry

/-- The entry registers a version or a snapshot of the session. -/
def registers (id : Uuid) : UploadEntry → Bool
  | .versionCreated session _ => session = id
  | .snapshotCreated session _ => session = id
  | _ => false

end UploadEntry

/-- How often the session has ingested. -/
def registrations (id : Uuid) (log : List UploadEntry) : ℕ := log.countP (·.registers id)

section Safe

variable {ι : Type}

/-- The status of the session. -/
def Catalog.uploadStatus (db : Catalog) (id : Uuid) : Option UploadStatus :=
  (db.uploadSessions.get? id).map UploadSession.status

theorem uploadStatus_of_get? {db : Catalog} {id : Uuid} {row : UploadSession} {status : UploadStatus}
    (hrow : db.uploadSessions.get? id = some row) (hstatus : row.status = status) :
    db.uploadStatus id = some status := by
  unfold Catalog.uploadStatus
  rw [hrow, Option.map_some, hstatus]

/-- What a session should do: ingest at most once, keep a terminal status, and accept no
request after its deadline. -/
structure UploadSafe {π : Type} (id : Uuid) (events : List (Event (Option ι) (UploadStore ι)))
    (c : Config (Option ι) (UploadStore ι) π) : Prop where
  once : registrations id c.shared.log ≤ 1
  final : ∀ e ∈ events, ∀ row row', e.before.db.uploadSessions.get? id = some row →
    e.after.db.uploadSessions.get? id = some row' → row.status ≠ .open → row'.status = row.status
  deadline : ∀ e ∈ events, Logs e (.accepted id) → ∀ row,
    e.before.db.uploadSessions.get? id = some row → e.before.now ≤ row.expiresAt

/-- The requests on the session come in time and take turns. -/
structure UploadsInTurn (requests : ι → UploadRequest) (id : Uuid) (session : UploadSession)
    (events : List (Event (Option ι) (UploadStore ι))) : Prop where
  /-- A part or a completion that arrives after the deadline finds the session closed. -/
  inTime : ∀ (e : Event (Option ι) (UploadStore ι)) (i : ι), e.IsFirst events → e.agent = some i →
    (requests i).Fills id session.repoId → session.expiresAt < e.before.now →
      e.before.db.uploadStatus id ≠ some .open
  /-- A completion inserts its snapshot where the session is not completed, and no other one
  has yet to write the status. -/
  first : ∀ e ∈ events, ∀ snapshot, Logs e (.snapshotCreated id snapshot) →
    e.before.db.uploadStatus id ≠ some .completed ∧ ∀ j, e.before.finishing j ≠ some id
  /-- From the arrival of a completion to its status write nothing aborts the session. -/
  undisturbed : ∀ first between last i, Between events first between last →
    first.IsFirst events → first.agent = some i → last.agent = some i →
    (requests i).Fills id session.repoId → Logs last (.statusSet id .completed) →
      ∀ e ∈ between, e.after.db.uploadStatus id ≠ some .aborted
  /-- An abort that has read the session writes while it is not completed. -/
  unfinished : ∀ first between last i, Between events first between last →
    first.agent = some i → last.agent = some i → requests i = .abort id session.repoId →
      last.before.db.uploadStatus id ≠ some .completed

/-! ### The session over a run -/

theorem registrations_append (id : Uuid) (log : List UploadEntry) (entry : UploadEntry) :
    registrations id (log ++ [entry])
      = registrations id log + if entry.registers id then 1 else 0 := by
  unfold registrations
  rw [List.countP_append, List.countP_singleton]

/-- A log that grows loses no registration. -/
theorem registrations_mono (id : Uuid) {log log' : List UploadEntry} (h : log <+: log') :
    registrations id log ≤ registrations id log' := h.sublist.countP_le

theorem registrations_pos {id : Uuid} {log : List UploadEntry} {entry : UploadEntry}
    (hmem : entry ∈ log) (h : entry.registers id = true) : 0 < registrations id log :=
  List.countP_pos_iff.2 ⟨entry, hmem, h⟩

theorem SnapshotLogged.registrations_pos {id : Uuid} {log : List UploadEntry}
    (h : SnapshotLogged id log) : 0 < registrations id log := by
  obtain ⟨snapshot, hmem⟩ := h
  exact Sconce.registrations_pos hmem (decide_eq_true rfl)

/-- A row has one target. -/
theorem Catalog.HasSession.unique {db : Catalog} {id : Uuid} {a b : UploadSession}
    (ha : db.HasSession id a) (hb : db.HasSession id b) :
    a.repoId = b.repoId ∧ a.target = b.target := by
  obtain ⟨x, hx⟩ := ha
  obtain ⟨y, hy⟩ := hb
  have heq := Option.some.inj (hx.symm.trans hy)
  injection heq with hrepo htarget
  exact ⟨hrepo, htarget⟩

/-- What a session uploads depends on its repository and its target. -/
theorem UploadSession.Uploads.congr {env : UploadEnv} {db : Catalog} {a b : UploadSession}
    {key : VersionKey} (h : a.Uploads env db key) (hsame : a.repoId = b.repoId ∧ a.target = b.target) :
    b.Uploads env db key := by
  obtain ⟨vendor, name, version, visibility, stability, htarget, hpackage, hversion⟩ := h
  refine ⟨vendor, name, version, visibility, stability, hsame.2.symm.trans htarget, ?_, hversion⟩
  rwa [← hsame.1]

/-- A session uploads one version. -/
theorem UploadSession.Uploads.unique {env : UploadEnv} {db : Catalog} {session : UploadSession}
    {key key' : VersionKey} (h : session.Uploads env db key) (h' : session.Uploads env db key') :
    key = key' := by
  obtain ⟨vendor, name, version, _, stability, htarget, hpackage, hversion⟩ := h
  obtain ⟨vendor', name', version', _, stability', htarget', hpackage', hversion'⟩ := h'
  obtain ⟨rfl, rfl, rfl, rfl⟩ := UploadTarget.package.inj (htarget.symm.trans htarget')
  have hid := Option.some.inj (hpackage.symm.trans hpackage')
  have hnormalized := (Prod.mk.inj (Option.some.inj (hversion.symm.trans hversion'))).1
  cases key
  cases key'
  exact VersionKey.mk.injEq .. ▸ ⟨hid, hnormalized⟩

/-- The invariant of a session in every run. -/
structure SessionInv (env : UploadEnv) (id : Uuid) (session : UploadSession) (s : UploadStore ι) :
    Prop where
  row : s.db.HasSession id session
  finishing : ∀ j, s.finishing j = some id → SnapshotLogged id s.log
  completed : ∀ environment profile, session.target = .snapshot environment profile →
    s.db.uploadSessions.get? id = some { session with status := .completed } →
      SnapshotLogged id s.log
  versions : ∀ key, .versionCreated id key ∈ s.log →
    session.Uploads env s.db key ∧ (s.db.packageVersions.get? key).isSome
  snapshots : SnapshotLogged id s.log →
    ∃ environment profile, session.target = .snapshot environment profile
  once : ∀ vendor name version visibility,
    session.target = .package vendor name version visibility → registrations id s.log ≤ 1

section Invariant

variable [DecidableEq ι] {env : UploadEnv} {id : Uuid} {session : UploadSession} {i : ι}
  {s s' : UploadStore ι}

theorem SnapshotLogged.mono {log log' : List UploadEntry} (h : SnapshotLogged id log)
    (hlog : log <+: log') : SnapshotLogged id log' := by
  obtain ⟨snapshot, hmem⟩ := h
  exact ⟨snapshot, hlog.subset hmem⟩

theorem get?_setUploadStatus (db : Catalog) (k id : Uuid) (status : UploadStatus) :
    (db.setUploadStatus k status).uploadSessions.get? id =
      (db.uploadSessions.get? id).map fun row => if id = k then { row with status } else row := by
  show Table.get? (Table.update _ _) id = _
  rw [Table.get?_update]

/-- What a step does to the row of a session: nothing, a logged status write, or its
expiry while open. -/
theorem UploadMove.row (h : UploadMove env i s s') {row : UploadSession}
    (hrow : s.db.uploadSessions.get? id = some row) :
    s'.db.uploadSessions.get? id = some row ∨
      (∃ status, s'.log = s.log ++ [.statusSet id status] ∧
        s'.db.uploadSessions.get? id = some { row with status } ∧
        (status = .completed → ∀ environment profile,
          row.target = .snapshot environment profile → SnapshotLogged id s.log)) ∨
      (row.status = .open ∧ s'.db.uploadSessions.get? id = some { row with status := .aborted }) := by
  cases h with
  | quiet hsessions => exact Or.inl (hsessions ▸ hrow)
  | accepts _ _ _ _ hsessions => exact Or.inl (hsessions ▸ hrow)
  | createsVersion _ _ _ _ _ _ _ hsessions => exact Or.inl (hsessions ▸ hrow)
  | createsSnapshot _ _ _ _ _ _ hsessions => exact Or.inl (hsessions ▸ hrow)
  | completes k other hother hlogged hsessions hlog =>
    rw [hsessions, get?_setUploadStatus, hrow]
    by_cases hk : id = k
    · subst hk
      have hsame := hother.unique (b := row) ⟨row.status, hrow⟩
      refine Or.inr (Or.inl ⟨.completed, hlog, by simp, ?_⟩)
      intro _ environment profile htarget
      exact hlogged environment profile (hsame.2.trans htarget)
    · exact Or.inl (by simp [hk])
  | aborts k hsessions hlog =>
    rw [hsessions, get?_setUploadStatus, hrow]
    by_cases hk : id = k
    · subst hk
      exact Or.inr (Or.inl ⟨.aborted, hlog, by simp, nofun⟩)
    · exact Or.inl (by simp [hk])
  | expires now hsessions =>
    rw [hsessions, Table.get?_update, hrow, Option.map_some]
    unfold UploadSession.expire
    split_ifs with hexpired
    · exact Or.inr (Or.inr ⟨(of_decide_eq_true hexpired).1, rfl⟩)
    · exact Or.inl rfl

/-- The step registers for a session what it says: a version absent so far, or a snapshot
of a snapshot session. -/
theorem UploadMove.registers (h : UploadMove env i s s') (hrow : s.db.HasSession id session) :
    registrations id s'.log = registrations id s.log ∨
      (∃ key, s'.log = s.log ++ [.versionCreated id key] ∧ session.Uploads env s.db key ∧
        s.db.packageVersions.get? key = none ∧ (s'.db.packageVersions.get? key).isSome) ∨
      ∃ snapshot, s'.log = s.log ++ [.snapshotCreated id snapshot] ∧
        (∃ environment profile, session.target = .snapshot environment profile) ∧
        s'.finishing i = some id := by
  cases h with
  | quiet _ hlog => exact Or.inl (congrArg _ hlog)
  | expires _ _ hlog => exact Or.inl (congrArg _ hlog)
  | accepts _ _ _ _ _ hlog => exact Or.inl (by rw [hlog, registrations_append]; rfl)
  | completes _ _ _ _ _ hlog => exact Or.inl (by rw [hlog, registrations_append]; rfl)
  | aborts _ _ hlog => exact Or.inl (by rw [hlog, registrations_append]; rfl)
  | createsVersion k other key hother huploads habsent hpresent _ hlog =>
    by_cases hk : k = id
    · subst hk
      exact Or.inr (Or.inl ⟨key, hlog, huploads.congr (hother.unique hrow), habsent, hpresent⟩)
    · refine Or.inl ?_
      rw [hlog, registrations_append]
      simp [UploadEntry.registers, hk]
  | createsSnapshot k other snapshot hother htarget _ _ hlog hfinishing =>
    by_cases hk : k = id
    · subst hk
      obtain ⟨environment, profile, htarget⟩ := htarget
      refine Or.inr (Or.inr ⟨snapshot, hlog, ⟨environment, profile, ?_⟩, ?_⟩)
      · exact (hother.unique hrow).2.symm.trans htarget
      · rw [hfinishing, Function.update_self]
    · refine Or.inl ?_
      rw [hlog, registrations_append]
      simp [UploadEntry.registers, hk]

/-- A completion starts to finish where it has registered its snapshot. -/
theorem UploadMove.finishing_of (h : UploadMove env i s s') {j : ι}
    (hj : s'.finishing j = some id) : s.finishing j = some id ∨ SnapshotLogged id s'.log := by
  by_cases hij : i = j
  · subst hij
    cases h with
    | quiet _ _ hfinishing => exact Or.inl (hfinishing ▸ hj)
    | accepts _ _ _ _ _ _ hfinishing => exact Or.inl (hfinishing ▸ hj)
    | createsVersion _ _ _ _ _ _ _ _ _ hfinishing => exact Or.inl (hfinishing ▸ hj)
    | aborts _ _ _ hfinishing => exact Or.inl (hfinishing ▸ hj)
    | expires _ _ _ hfinishing => exact Or.inl (hfinishing ▸ hj)
    | createsSnapshot k _ snapshot _ _ _ _ hlog hfinishing =>
      rw [hfinishing, Function.update_self] at hj
      obtain rfl := Option.some.inj hj
      refine Or.inr ⟨snapshot, ?_⟩
      rw [hlog]
      exact List.mem_append_right _ (List.mem_singleton_self _)
    | completes _ _ _ _ _ _ hfinishing =>
      rcases hfinishing with hfinishing | ⟨-, hfinishing⟩
      · exact Or.inl (hfinishing ▸ hj)
      · rw [hfinishing, Function.update_self] at hj
        exact absurd hj nofun
  · exact Or.inl ((h.others hij).symm.trans hj)

/-- It is done finishing where it has written the status. -/
theorem UploadMove.finishing_or (h : UploadMove env i s s') {j : ι} (hj : s.finishing j = some id) :
    s'.finishing j = some id ∨ s'.log = s.log ++ [.statusSet id .completed] := by
  by_cases hij : i = j
  · subst hij
    cases h with
    | quiet _ _ hfinishing => exact Or.inl (hfinishing ▸ hj)
    | accepts _ _ _ _ _ _ hfinishing => exact Or.inl (hfinishing ▸ hj)
    | createsVersion _ _ _ _ _ _ _ _ _ hfinishing => exact Or.inl (hfinishing ▸ hj)
    | aborts _ _ _ hfinishing => exact Or.inl (hfinishing ▸ hj)
    | expires _ _ _ hfinishing => exact Or.inl (hfinishing ▸ hj)
    | createsSnapshot _ _ _ _ _ hfree => exact absurd (hfree.symm.trans hj) nofun
    | completes _ _ _ _ _ hlog hfinishing =>
      rcases hfinishing with hfinishing | ⟨hown, -⟩
      · exact Or.inl (hfinishing ▸ hj)
      · obtain rfl := Option.some.inj (hown.symm.trans hj)
        exact Or.inr hlog
  · exact Or.inl ((h.others hij).trans hj)

/-- Where nothing was registered, the log has no new entry that registers. -/
theorem mem_of_registrations_eq {log log' : List UploadEntry} (hlog : log <+: log')
    (heq : registrations id log' = registrations id log) {entry : UploadEntry}
    (hmem : entry ∈ log') (hentry : entry.registers id = true) : entry ∈ log := by
  obtain ⟨new, rfl⟩ := hlog
  rcases List.mem_append.1 hmem with hmem | hmem
  · exact hmem
  · have hpos : 0 < new.countP (·.registers id) := List.countP_pos_iff.2 ⟨entry, hmem, hentry⟩
    unfold registrations at heq
    rw [List.countP_append] at heq
    omega

omit [DecidableEq ι] in
/-- A session uploads the same version later on. -/
theorem UploadSession.Uploads.mono {key : VersionKey} (h : session.Uploads env s.db key)
    (hkept : UploadKept s s') : session.Uploads env s'.db key := by
  obtain ⟨vendor, name, version, visibility, stability, htarget, hpackage, hversion⟩ := h
  exact ⟨vendor, name, version, visibility, stability, htarget, hkept.packages _ _ _ hpackage,
    hversion⟩

/-- **The step lemma.** Every step keeps the invariant of a session. -/
theorem SessionInv.step (h : SessionInv env id session s) (hkept : UploadKept s s')
    (hmove : UploadMove env i s s') : SessionInv env id session s' := by
  have hold : ∀ key, .versionCreated id key ∈ s.log →
      session.Uploads env s'.db key ∧ (s'.db.packageVersions.get? key).isSome := by
    intro key hmem
    obtain ⟨huploads, hpresent⟩ := h.versions key hmem
    exact ⟨huploads.mono hkept, hkept.versions key hpresent⟩
  have hregisters := hmove.registers h.row
  refine ⟨hkept.sessions id session h.row, fun j hj => ?_, fun environment profile htarget hrow => ?_,
    fun key hmem => ?_, fun hlogged => ?_, fun vendor name version visibility htarget => ?_⟩
  · rcases hmove.finishing_of hj with hj | hlogged
    · exact (h.finishing j hj).mono hkept.log
    · exact hlogged
  · -- the status was `completed` before, or is written by a completion that has registered
    obtain ⟨status, hstatus⟩ := h.row
    rcases hmove.row hstatus with hsame | ⟨new, -, hnew, hlogged⟩ | ⟨-, hnew⟩
    · rw [hsame] at hrow
      rw [hrow] at hstatus
      exact (h.completed environment profile htarget hstatus).mono hkept.log
    · rw [hnew] at hrow
      have hcompleted : new = .completed := congrArg UploadSession.status (Option.some.inj hrow)
      exact (hlogged hcompleted environment profile htarget).mono hkept.log
    · rw [hnew] at hrow
      exact absurd (congrArg UploadSession.status (Option.some.inj hrow)) nofun
  · rcases hregisters with hsame | ⟨key', hlog, huploads, -, hpresent⟩ | ⟨snapshot, hlog, -, -⟩
    · exact hold key (mem_of_registrations_eq hkept.log hsame hmem (decide_eq_true rfl))
    · rw [hlog] at hmem
      rcases List.mem_append.1 hmem with hmem | hmem
      · exact hold key hmem
      · obtain rfl := (UploadEntry.versionCreated.inj (List.mem_singleton.1 hmem)).2
        exact ⟨huploads.mono hkept, hpresent⟩
    · rw [hlog] at hmem
      rcases List.mem_append.1 hmem with hmem | hmem
      · exact hold key hmem
      · exact absurd (List.mem_singleton.1 hmem) nofun
  · obtain ⟨snapshot, hmem⟩ := hlogged
    rcases hregisters with hsame | ⟨key, hlog, -⟩ | ⟨-, -, htarget, -⟩
    · exact h.snapshots ⟨snapshot, mem_of_registrations_eq hkept.log hsame hmem (decide_eq_true rfl)⟩
    · rw [hlog] at hmem
      rcases List.mem_append.1 hmem with hmem | hmem
      · exact h.snapshots ⟨snapshot, hmem⟩
      · exact absurd (List.mem_singleton.1 hmem) nofun
    · exact htarget
  · rcases hregisters with hsame | ⟨key, hlog, huploads, habsent, -⟩ | ⟨-, -, ⟨_, _, hother⟩, -⟩
    · rw [hsame]
      exact h.once vendor name version visibility htarget
    · -- the version uploaded before is the same one, and there
      have hnone : registrations id s.log = 0 := by
        by_contra hne
        obtain ⟨entry, hmem, hentry⟩ := List.countP_pos_iff.1 (Nat.pos_of_ne_zero hne)
        cases entry with
        | versionCreated k key' =>
          obtain rfl : k = id := of_decide_eq_true hentry
          obtain ⟨huploads', hpresent⟩ := h.versions key' hmem
          rw [huploads'.unique huploads, habsent] at hpresent
          exact Bool.false_ne_true hpresent
        | snapshotCreated k snapshot =>
          obtain rfl : k = id := of_decide_eq_true hentry
          obtain ⟨_, _, hother⟩ := h.snapshots ⟨snapshot, hmem⟩
          exact absurd (htarget.symm.trans hother) nofun
        | _ => exact Bool.false_ne_true hentry
      rw [hlog, registrations_append, hnone]
      split_ifs <;> omega
    · exact absurd (htarget.symm.trans hother) nofun

/-- A logged status write is written. -/
theorem UploadMove.written (h : UploadMove env i s s') {status : UploadStatus}
    (hlogs : s'.log = s.log ++ [.statusSet id status]) {row : UploadSession}
    (hrow : s.db.uploadSessions.get? id = some row) :
    s'.db.uploadSessions.get? id = some { row with status } := by
  have hentry : ∀ entry, s'.log = s.log ++ [entry] → entry = .statusSet id status :=
    fun entry hlog => List.singleton_inj.1 (List.append_cancel_left (hlog.symm.trans hlogs))
  cases h with
  | quiet _ hlog => exact absurd (hlog.symm.trans hlogs) (by simp)
  | expires _ _ hlog => exact absurd (hlog.symm.trans hlogs) (by simp)
  | accepts _ _ _ _ _ hlog => exact absurd (hentry _ hlog) nofun
  | createsVersion _ _ _ _ _ _ _ _ hlog => exact absurd (hentry _ hlog) nofun
  | createsSnapshot _ _ _ _ _ _ _ hlog => exact absurd (hentry _ hlog) nofun
  | completes k _ _ _ hsessions hlog =>
    obtain ⟨rfl, rfl⟩ := UploadEntry.statusSet.inj (hentry _ hlog)
    rw [hsessions, get?_setUploadStatus, hrow, Option.map_some, if_pos rfl]
  | aborts k hsessions hlog =>
    obtain ⟨rfl, rfl⟩ := UploadEntry.statusSet.inj (hentry _ hlog)
    rw [hsessions, get?_setUploadStatus, hrow, Option.map_some, if_pos rfl]

omit [DecidableEq ι] in
/-- What a snapshot session has registered are snapshots. -/
theorem SessionInv.registrations_eq_zero (h : SessionInv env id session s) {environment : String}
    {profile : Option String} (htarget : session.target = .snapshot environment profile)
    (hnone : ¬ SnapshotLogged id s.log) : registrations id s.log = 0 := by
  by_contra hne
  obtain ⟨entry, hmem, hentry⟩ := List.countP_pos_iff.1 (Nat.pos_of_ne_zero hne)
  cases entry with
  | versionCreated k key =>
    obtain rfl : k = id := of_decide_eq_true hentry
    obtain ⟨_, _, _, _, _, hother, -⟩ := (h.versions key hmem).1
    exact absurd (htarget.symm.trans hother) nofun
  | snapshotCreated k snapshot =>
    obtain rfl : k = id := of_decide_eq_true hentry
    exact hnone ⟨snapshot, hmem⟩
  | _ => exact Bool.false_ne_true hentry

/-- What holds of a snapshot session whose completions take turns. -/
structure OnceInv (id : Uuid) (s : UploadStore ι) : Prop where
  once : registrations id s.log ≤ 1
  taken : SnapshotLogged id s.log →
    s.db.uploadStatus id = some .completed ∨ ∃ j, s.finishing j = some id

/-- A step keeps the registrations at one, where none comes after the first. -/
theorem OnceInv.step (h : OnceInv id s) (hsession : SessionInv env id session s)
    {environment : String} {profile : Option String}
    (htarget : session.target = .snapshot environment profile) (hkept : UploadKept s s')
    (hmove : UploadMove env i s s')
    (hfinal : s.db.uploadStatus id = some .completed → s'.db.uploadStatus id = some .completed)
    (hfirst : ∀ snapshot, s'.log = s.log ++ [.snapshotCreated id snapshot] →
      s.db.uploadStatus id ≠ some .completed ∧ ∀ j, s.finishing j ≠ some id) : OnceInv id s' := by
  rcases hmove.registers hsession.row with hsame | ⟨_, _, huploads, -⟩ |
    ⟨snapshot, hlog, -, hfinishing⟩
  · refine ⟨hsame.trans_le h.once, fun ⟨snapshot, hmem⟩ => ?_⟩
    have hlogged : SnapshotLogged id s.log :=
      ⟨snapshot, mem_of_registrations_eq hkept.log hsame hmem (decide_eq_true rfl)⟩
    rcases h.taken hlogged with hcompleted | ⟨j, hj⟩
    · exact Or.inl (hfinal hcompleted)
    · -- the completion still finishes, or has just written the status
      rcases hmove.finishing_or hj with hj | hlog
      · exact Or.inr ⟨j, hj⟩
      · obtain ⟨status, hrow⟩ := hsession.row
        refine Or.inl ?_
        unfold Catalog.uploadStatus
        rw [hmove.written hlog hrow]
        rfl
  · obtain ⟨_, _, _, _, _, hother, -⟩ := huploads
    exact absurd (htarget.symm.trans hother) nofun
  · obtain ⟨hcompleted, hnobody⟩ := hfirst snapshot hlog
    have hnone : ¬ SnapshotLogged id s.log := by
      intro hlogged
      rcases h.taken hlogged with hstatus | ⟨j, hj⟩
      · exact hcompleted hstatus
      · exact hnobody j hj
    refine ⟨?_, fun _ => Or.inr ⟨i, hfinishing⟩⟩
    rw [hlog, registrations_append, hsession.registrations_eq_zero htarget hnone]
    split_ifs <;> omega

omit [DecidableEq ι] in
/-- The row is the stored session but for its status. -/
theorem SessionInv.row_eq (h : SessionInv env id session s) {row : UploadSession}
    (hrow : s.db.uploadSessions.get? id = some row) :
    row.repoId = session.repoId ∧ row.expiresAt = session.expiresAt ∧ row.target = session.target := by
  obtain ⟨status, hstatus⟩ := h.row
  rw [Option.some.inj (hrow.symm.trans hstatus)]
  exact ⟨rfl, rfl, rfl⟩

omit [DecidableEq ι] in
/-- The clock keeps it. -/
theorem SessionInv.clock (h : SessionInv env id session s) (hclock : UploadClock s s') :
    SessionInv env id session s' := by
  obtain ⟨t, -, rfl⟩ := hclock
  exact ⟨h.row, h.finishing, h.completed, h.versions, h.snapshots, h.once⟩

end Invariant

/-! ### The theorem -/

/-- The log of a run only grows. -/
def LogGrows (s s' : UploadStore ι) : Prop := s.log <+: s'.log

instance UploadStore.logGrows_isPreorder : IsPreorder (UploadStore ι) LogGrows where
  refl s := List.prefix_refl s.log
  trans _ _ _ h h' := List.IsPrefix.trans h h'

variable [DecidableEq ι]

section Run

variable {env : UploadEnv} {requests : ι → UploadRequest} {db : Catalog} {objects : ObjectStore}
  {now : Timestamp} {id : Uuid} {session : UploadSession}
  {events : List (Event (Option ι) (UploadStore ι))}
  {c : Config (Option ι) (UploadStore ι) (Script (UploadStore ι) AppError UploadAnswer)}

omit [DecidableEq ι] in
theorem UploadClock.kept {s s' : UploadStore ι} (h : UploadClock s s') : UploadKept s s' := by
  obtain ⟨t, -, rfl⟩ := h
  exact .of_quiet (.refl s.db) (List.prefix_refl _)

/-- What a step of a run is. -/
theorem does_cases {agent : Option ι} {s s' : UploadStore ι}
    (h : Does UploadClock (UploadGuarantee env) agent s s') :
    UploadKept s s' ∧ (UploadClock s s' ∨ ∃ i, agent = some i ∧ UploadMove env i s s') := by
  cases agent with
  | none => exact ⟨UploadClock.kept h, Or.inl h⟩
  | some i => exact ⟨h.1, Or.inr ⟨i, rfl, h.2⟩⟩

/-- Every step of a run is a move or the clock's, and keeps the invariant of the session. -/
theorem uploads_sound (hsession : db.uploadSessions.get? id = some session)
    (hopen : session.status = .open)
    (hrun : Execution (Scheduled UploadClock) (uploadsFrom env requests db objects now) events c) :
    SessionInv env id session c.shared ∧ ∀ e ∈ events, SessionInv env id session e.before ∧
      Does UploadClock (UploadGuarantee env) e.agent e.before e.after := by
  have hclock : ∀ s s' : UploadStore ι, True → UploadClock s s' →
      True ∧ ∀ i, UploadRely i s s' := by
    intro s s' _ h
    refine ⟨trivial, fun i => ⟨h.kept, ?_⟩⟩
    obtain ⟨t, -, rfl⟩ := h
    rfl
  have hrely : ∀ (i j : ι) (s s' : UploadStore ι), i ≠ j → True → UploadGuarantee env i s s' →
      UploadRely j s s' := fun i j _ _ hij _ h => ⟨h.1, h.2.others hij⟩
  have hall := (guaranteed (fun _ _ _ _ _ => trivial) hclock hrely trivial
    (fun i => (moves_script (requests i)).standsAt trivial rfl) hrun).2
  have hinit : SessionInv env id session (uploadsFrom env requests db objects now).shared := by
    refine ⟨⟨session.status, hsession⟩, nofun, fun _ _ _ hrow => ?_, nofun, ?_, fun _ _ _ _ _ => ?_⟩
    · have hstatus := congrArg UploadSession.status (Option.some.inj (hsession.symm.trans hrow))
      exact absurd (hopen.symm.trans hstatus) nofun
    · rintro ⟨_, hmem⟩
      exact absurd hmem List.not_mem_nil
    · exact Nat.zero_le 1
  have hkeep : ∀ e ∈ events, SessionInv env id session e.before →
      SessionInv env id session e.after := by
    intro e he h
    obtain ⟨hkept, hclock | ⟨i, -, hmove⟩⟩ := does_cases (hall e he).2
    · exact h.clock hclock
    · exact h.step hkept hmove
  obtain ⟨hend, hbefore⟩ := hrun.preserved hinit hkeep
  exact ⟨hend, fun e he => ⟨hbefore e he, (hall e he).2⟩⟩

/-- Who logs makes a move. -/
theorem Logs.move
    (hrun : Execution (Scheduled UploadClock) (uploadsFrom env requests db objects now) events c)
    {e : Event (Option ι) (UploadStore ι)} (he : e ∈ events)
    (hdoes : Does UploadClock (UploadGuarantee env) e.agent e.before e.after) {entry : UploadEntry}
    (hlogs : Logs e entry) : ∃ i, UploadMove env i e.before e.after := by
  obtain ⟨i, hagent⟩ := hlogs.agent hrun he
  rw [hagent] at hdoes
  exact ⟨i, hdoes.2⟩

/-- A logged status is the one stored. -/
theorem Logs.stored
    (hrun : Execution (Scheduled UploadClock) (uploadsFrom env requests db objects now) events c)
    {e : Event (Option ι) (UploadStore ι)} (he : e ∈ events)
    (hbefore : SessionInv env id session e.before)
    (hdoes : Does UploadClock (UploadGuarantee env) e.agent e.before e.after)
    {status : UploadStatus} (hlogs : Logs e (.statusSet id status)) :
    e.after.db.uploadStatus id = some status := by
  obtain ⟨i, hmove⟩ := hlogs.move hrun he hdoes
  obtain ⟨old, hrow⟩ := hbefore.row
  exact uploadStatus_of_get? (hmove.written hlogs hrow) rfl

omit [DecidableEq ι] in
/-- A step that keeps a terminal status, row by row. -/
theorem kept_iff {e : Event (Option ι) (UploadStore ι)}
    (hbefore : SessionInv env id session e.before) (hkept : UploadKept e.before e.after) :
    (∀ row row', e.before.db.uploadSessions.get? id = some row →
        e.after.db.uploadSessions.get? id = some row' → row.status ≠ .open →
          row'.status = row.status) ↔
      ∀ status, e.before.db.uploadStatus id = some status → status ≠ .open →
        e.after.db.uploadStatus id = some status := by
  constructor
  · intro h status hstatus hterminal
    obtain ⟨row, hrow, rfl⟩ := Option.map_eq_some_iff.1 hstatus
    obtain ⟨status', hrow'⟩ := hkept.sessions id session hbefore.row
    exact uploadStatus_of_get? hrow' (h row _ hrow hrow' hterminal)
  · intro h row row' hrow hrow' hterminal
    have hafter := h row.status (uploadStatus_of_get? hrow rfl) hterminal
    exact Option.some.inj ((uploadStatus_of_get? hrow' rfl).symm.trans hafter)

/-- A terminal status is final where the requests take turns. -/
theorem UploadsInTurn.final (h : UploadsInTurn requests id session events)
    (hsession : db.uploadSessions.get? id = some session) (hopen : session.status = .open)
    (hrun : Execution (Scheduled UploadClock) (uploadsFrom env requests db objects now) events c)
    {e : Event (Option ι) (UploadStore ι)} (he : e ∈ events) {status : UploadStatus}
    (hstatus : e.before.db.uploadStatus id = some status) (hterminal : status ≠ .open) :
    e.after.db.uploadStatus id = some status := by
  obtain ⟨-, hall⟩ := uploads_sound hsession hopen hrun
  obtain ⟨-, hclock | ⟨i, -, hmove⟩⟩ := does_cases (hall e he).2
  · obtain ⟨t, -, hclock⟩ := hclock
    rwa [hclock]
  obtain ⟨row, hrow, rfl⟩ := Option.map_eq_some_iff.1 hstatus
  rcases hmove.row hrow with hsame | ⟨new, hlogs, hnew, -⟩ | ⟨hrowOpen, -⟩
  · exact uploadStatus_of_get? hsame rfl
  · refine uploadStatus_of_get? hnew ?_
    show new = row.status
    obtain ⟨i, first, between, found, hbetween, hi, hagent, hfound, hwritten⟩ :=
      statusSet_of_logs hrun he hlogs
    have hrepo := ((hall first hbetween.first_mem).1.row_eq hfound).1
    rcases hwritten with ⟨rfl, hfirst, hsame, hfoundOpen, hfills⟩ | ⟨rfl, hrequest⟩
    · -- the completion found the session open, and nothing has aborted it since
      rw [hrepo] at hfills
      have hfirstOpen : first.after.db.uploadStatus id = some .open := by
        rw [hsame]
        exact uploadStatus_of_get? hfound hfoundOpen
      have hundisturbed := h.undisturbed first between e i hbetween hfirst hi hagent hfills hlogs
      have hbefore : e.before.db.uploadStatus id ≠ some .aborted := by
        refine hrun.carried (fun s => s.db.uploadStatus id ≠ some .aborted) hbetween ?_
          fun e' he' _ => hundisturbed e' he'
        rw [hfirstOpen]
        exact nofun
      rw [hstatus] at hbefore
      cases hrowStatus : row.status with
      | «open» => exact absurd hrowStatus hterminal
      | completed => rfl
      | aborted => exact absurd (congrArg some hrowStatus) hbefore
    · -- the abort finds the session not completed
      rw [hrepo] at hrequest
      have hbefore := h.unfinished first between e i hbetween hi hagent hrequest
      rw [hstatus] at hbefore
      cases hrowStatus : row.status with
      | «open» => exact absurd hrowStatus hterminal
      | completed => exact absurd (congrArg some hrowStatus) hbefore
      | aborted => rfl
  · exact absurd hrowOpen hterminal

/-- It is ingested once where they do. -/
theorem UploadsInTurn.once (h : UploadsInTurn requests id session events)
    (hsession : db.uploadSessions.get? id = some session) (hopen : session.status = .open)
    (hrun : Execution (Scheduled UploadClock) (uploadsFrom env requests db objects now) events c) :
    registrations id c.shared.log ≤ 1 := by
  obtain ⟨hend, hall⟩ := uploads_sound hsession hopen hrun
  cases htarget : session.target with
  | package vendor name version visibility => exact hend.once vendor name version visibility htarget
  | snapshot environment profile =>
    have hinit : OnceInv id (uploadsFrom env requests db objects now).shared := by
      refine ⟨Nat.zero_le 1, ?_⟩
      rintro ⟨_, hmem⟩
      exact absurd hmem List.not_mem_nil
    refine (hrun.preserved hinit fun e he honce => ?_).1.once
    obtain ⟨hkept, hclock | ⟨i, -, hmove⟩⟩ := does_cases (hall e he).2
    · obtain ⟨t, -, hclock⟩ := hclock
      rw [hclock]
      exact ⟨honce.once, honce.taken⟩
    · exact honce.step (hall e he).1 htarget hkept hmove
        (fun hstatus => h.final hsession hopen hrun he hstatus nofun) (h.first e he)

/-- A session that is safe has its requests come in time and take turns. -/
theorem UploadSafe.inTurn (h : UploadSafe id events c)
    (hsession : db.uploadSessions.get? id = some session) (hopen : session.status = .open)
    (hrun : Execution (Scheduled UploadClock) (uploadsFrom env requests db objects now) events c) :
    UploadsInTurn requests id session events := by
  obtain ⟨-, hall⟩ := uploads_sound hsession hopen hrun
  have hkept : ∀ e ∈ events, UploadKept e.before e.after := fun e he => (does_cases (hall e he).2).1
  have hlog : ∀ e ∈ events, e.after.log <+: c.shared.log := fun e he =>
    (hrun.restrict fun e he => (hkept e he).log).mono (r := LogGrows) (fun h => h.2) he
  have hfinal : ∀ e ∈ events, ∀ status, e.before.db.uploadStatus id = some status →
      status ≠ .open → e.after.db.uploadStatus id = some status :=
    fun e he => (kept_iff (hall e he).1 (hkept e he)).1 (h.final e he)
  refine ⟨fun e i hfirst hagent hfills hlate hstatus => ?_, fun e he snapshot hlogs => ?_,
    fun first between last i hbetween hfirst hi hlast hfills hlogs e he haborted => ?_,
    fun first between last i hbetween hi hlast hrequest hcompleted => ?_⟩
  · -- it is accepted, and too late
    obtain ⟨row, hrow, hrowOpen⟩ := Option.map_eq_some_iff.1 hstatus
    have he := hfirst.mem
    obtain ⟨hrepo, hexpires, -⟩ := (hall e he).1.row_eq hrow
    have hlogs : Logs e (.accepted id) := by
      unfold Logs
      rw [opens_of_isFirst hrun hagent hfirst]
      exact UploadRequest.Fills.opens_log (hrepo ▸ hfills) hrow hrowOpen
    have hdeadline := h.deadline e he hlogs row hrow
    rw [hexpires] at hdeadline
    exact absurd hdeadline (not_le.2 hlate)
  · obtain ⟨hbefore, hdoes⟩ := hall e he
    obtain ⟨i, hmove⟩ := hlogs.move hrun he hdoes
    have hcounts : registrations id e.after.log = registrations id e.before.log + 1 := by
      rw [hlogs, registrations_append]
      simp [UploadEntry.registers]
    -- were the session taken, the snapshot would be its second registration
    have hnone : ¬ SnapshotLogged id e.before.log := by
      intro hlogged
      have hlater := (registrations_mono id (hlog e he)).trans h.once
      have hpos := hlogged.registrations_pos
      omega
    refine ⟨fun hcompleted => hnone ?_, fun j hj => hnone (hbefore.finishing j hj)⟩
    rcases hmove.registers hbefore.row with hsame | ⟨_, hlog', -⟩ |
      ⟨_, -, ⟨environment, profile, htarget⟩, -⟩
    · omega
    · exact absurd (List.singleton_inj.1 (List.append_cancel_left (hlog'.symm.trans hlogs))) nofun
    · obtain ⟨status, hrow⟩ := hbefore.row
      obtain rfl := Option.some.inj ((uploadStatus_of_get? hrow rfl).symm.trans hcompleted)
      exact hbefore.completed environment profile htarget hrow
  · -- the abort is final, and the completion writes over it
    obtain ⟨between', hrest, hevents⟩ := hbetween.of_mem he
    have hbefore : last.before.db.uploadStatus id = some .aborted :=
      hrun.carried (fun s => s.db.uploadStatus id = some .aborted) hrest haborted
        fun e' he' hstatus => hfinal e' (hevents e' he') _ hstatus nofun
    have hlast := hall last hbetween.last_mem
    have hafter := hfinal last hbetween.last_mem _ hbefore nofun
    rw [hlogs.stored hrun hbetween.last_mem hlast.1 hlast.2] at hafter
    exact absurd (Option.some.inj hafter) nofun
  · -- the abort writes over the completion
    have hlogs := logs_of_abort hrun hrequest hbetween hi hlast
    have hlast := hall last hbetween.last_mem
    have hafter := hfinal last hbetween.last_mem _ hcompleted nofun
    rw [hlogs.stored hrun hbetween.last_mem hlast.1 hlast.2] at hafter
    exact absurd (Option.some.inj hafter) nofun

end Run

/-- **Upload sessions.** In any run of requests from where the session is open, it
ingests once, keeps a terminal status and accepts nothing late exactly when the requests on
it come in time and take turns. -/
theorem upload_safe_iff (env : UploadEnv) (requests : ι → UploadRequest) {db : Catalog}
    {objects : ObjectStore} {now : Timestamp} {id : Uuid} {session : UploadSession}
    (hsession : db.uploadSessions.get? id = some session) (hopen : session.status = .open)
    {events : List (Event (Option ι) (UploadStore ι))}
    {c : Config (Option ι) (UploadStore ι) (Script (UploadStore ι) AppError UploadAnswer)}
    (hrun : Execution (Scheduled UploadClock) (uploadsFrom env requests db objects now) events c) :
    UploadSafe id events c ↔ UploadsInTurn requests id session events := by
  refine ⟨fun h => h.inTurn hsession hopen hrun, fun h => ?_⟩
  obtain ⟨-, hall⟩ := uploads_sound hsession hopen hrun
  refine ⟨h.once hsession hopen hrun, fun e he => ?_, fun e he hlogs row hrow => ?_⟩
  · have hkept := (does_cases (hall e he).2).1
    exact (kept_iff (hall e he).1 hkept).2 fun status => h.final hsession hopen hrun he
  · -- what is accepted arrives while the session is open
    obtain ⟨i, found, hagent, hfirst, hfound, hfoundOpen, hfills⟩ := accepted_of_logs hrun he hlogs
    have hrepo := ((hall e he).1.row_eq hfound).1
    rw [((hall e he).1.row_eq hrow).2.1]
    by_contra hlate
    exact h.inTime e i hfirst hagent (hrepo ▸ hfills) (not_le.1 hlate)
      (uploadStatus_of_get? hfound hfoundOpen)

end Safe

namespace Chunks

open Dumps (dump dumpDigest sha256)

/-- Nothing is archived here. -/
def env : UploadEnv where
  sha256 := sha256
  archiveTargz := fun _ _ => .error .gone
  versions := ⟨fun _ => none, fun _ => none, fun _ => ""⟩
  maxPackageBytes := 1024
  maxSnapshotBytes := 1024

/-- An open session for a dump, whose one part is staged; its deadline is 0. -/
def session : UploadSession := ⟨1, .snapshot "production" none, .open, 0⟩

def staged : Catalog :=
  { Catalog.empty with
    repositories := .single 1 ⟨1, "main", .auto, 0, true, false, none, none, none⟩
    blobs := .single dumpDigest ⟨4, 0, 0⟩
    uploadSessions := ⟨[(1, session)], by decide⟩
    uploadParts := .single (1, 1) ⟨dumpDigest, 4⟩ }

/-- A completion of the session, with the id its snapshot is given. -/
def completion (snapshotId : Uuid) : CompleteRequest :=
  ⟨1, 1, 1, hex32 dumpDigest, 0, snapshotId, 0⟩

/-- A client completes, loses patience and completes again, then aborts. -/
def requests : Fin 3 → UploadRequest
  | 0 => .complete (completion 1)
  | 1 => .complete (completion 2)
  | 2 => .abort 1 1

def start : UploadStore (Fin 3) :=
  (uploadsFrom env requests staged (Table.empty.insertNew dumpDigest dump) 1).shared

theorem uploadPartsOf_staged : staged.uploadPartsOf 1 = [(1, ⟨dumpDigest, 4⟩)] := by
  unfold Catalog.uploadPartsOf
  have hfilter : staged.uploadParts.rows.filter (fun r => r.1.1 = 1)
      = [((1, 1), ⟨dumpDigest, 4⟩)] := rfl
  rw [hfilter, List.mergeSort_singleton]
  rfl

/-- A completion of the staged session ingests the dump, and then marks it. -/
theorem completeSession_start (i : Fin 3) (k : Uuid) (s : UploadStore (Fin 3))
    (hparts : s.db.uploadPartsOf 1 = [(1, ⟨dumpDigest, 4⟩)]) :
    runAlone (completeSession env i (completion k) session) s =
      andThen (runAlone (finishUpload env i (completion k) 1 "production" none [dumpDigest]
        dumpDigest 4) s) fun response s' =>
          runAlone (do markCompleted i 1; return response) s' := by
  have hparts' : s.db.uploadPartsOf (completion k).uploadId = [(1, ⟨dumpDigest, 4⟩)] := hparts
  unfold completeSession
  rw [runAlone_select_bind, hparts']
  show runAlone (ret ((parseHex32 (hex32 dumpDigest)).elim _ _) >>= _) s = _
  rw [parseHex32_hex32]
  show runAlone (finishUpload env i (completion k) 1 "production" none [dumpDigest] dumpDigest 4 >>=
    fun response => do markCompleted i 1; return response) s = _
  exact runAlone_bind _ _ s

/-- The catalog once the second completion is done, then the first, then the abort. -/
def onceIngested : Catalog :=
  { staged with
    blobs := ⟨[(dumpDigest, ⟨4, 1, 1⟩)], by decide⟩
    uploadSessions := ⟨[(1, { session with status := .completed })], by decide⟩
    snapshots := ⟨[(2, ⟨1, "production", "full", dumpDigest, 4, none, 1, 1⟩)], by decide⟩
    snapshotSeq := 1
    snapshotLatest := ⟨[((1, "production", "full"), 2)], by decide⟩ }

def twiceIngested : Catalog :=
  { onceIngested with
    blobs := ⟨[(dumpDigest, ⟨4, 2, 1⟩)], by decide⟩
    snapshots := ⟨[(2, ⟨1, "production", "full", dumpDigest, 4, none, 1, 1⟩),
      (1, ⟨1, "production", "full", dumpDigest, 4, none, 1, 2⟩)], by decide⟩
    snapshotSeq := 2
    snapshotLatest := ⟨[((1, "production", "full"), 1)], by decide⟩ }

/-- The second completion, alone, registers and completes. -/
theorem second_completes : ∃ finishing,
    runAlone (uploadComplete env (1 : Fin 3) (completion 2)) { start with log := [.accepted 1] } =
      (.ok (.snapshotCreated "production" "full" dumpDigest), { start with
        db := onceIngested
        finishing := finishing
        log := [.accepted 1, .accepted 1, .snapshotCreated 1 2, .statusSet 1 .completed] }) := by
  have hopens : runAlone (uploadComplete env (1 : Fin 3) (completion 2))
      { start with log := [.accepted 1] } =
        runAlone (completeSession env (1 : Fin 3) (completion 2) session)
          { start with log := [.accepted 1, .accepted 1] } := rfl
  rw [hopens, completeSession_start _ _ _ uploadPartsOf_staged]
  exact ⟨_, rfl⟩

/-- The first completion, from where it stood, registers once more. -/
theorem first_completes (finishing : Fin 3 → Option Uuid) (log : List UploadEntry) :
    ∃ finishing', runAlone (completeSession env (0 : Fin 3) (completion 1) session)
        { start with db := onceIngested, finishing := finishing, log := log } =
      (.ok (.snapshotCreated "production" "full" dumpDigest), { start with
        db := twiceIngested
        finishing := finishing'
        log := log ++ [.snapshotCreated 1 1] ++ [.statusSet 1 .completed] }) := by
  rw [completeSession_start _ _ _ uploadPartsOf_staged]
  exact ⟨_, rfl⟩

/-- The deadline is past when both completions are accepted; both register a snapshot, and
the abort changes the status they left. -/
theorem upload_races : staged.uploadSessions.get? 1 = some session ∧ session.status = .open ∧
    session.expiresAt < 1 ∧ ∃ events c,
      Execution (Scheduled UploadClock)
          (uploadsFrom env requests staged (Table.empty.insertNew dumpDigest dump) 1) events c ∧
        c.shared.log = [.accepted 1, .accepted 1, .snapshotCreated 1 2, .statusSet 1 .completed,
          .snapshotCreated 1 1, .statusSet 1 .completed, .statusSet 1 .aborted] ∧
        c.shared.now = 1 ∧ ¬ UploadSafe 1 events c := by
  refine ⟨rfl, rfl, by decide, ?_⟩
  have h₀ : Execution (Scheduled UploadClock)
    (uploadsFrom env requests staged (Table.empty.insertNew dumpDigest dump) 1) [] _ := .start
  -- the first completion is accepted and stops there
  have hopens : Scheduled UploadClock (some (0 : Fin 3)) start (uploadComplete env 0 (completion 1))
      { start with log := [.accepted 1] } (completeSession env 0 (completion 1) session) := by
    exact .takes
  have h₁ := h₀.step (i := some 0) hopens
  -- the second completion runs to its end
  obtain ⟨_, c₂, hrun₂, hshared₂, -, hothers₂⟩ := h₁.alone (i := some 1)
    (alone_runAlone 1 (uploadComplete env 1 (completion 2)) { start with log := [.accepted 1] })
  obtain ⟨finishing, hsecond⟩ := second_completes
  rw [hsecond] at hshared₂
  have hfirst₂ : c₂.pc (some 0) = completeSession env 0 (completion 1) session :=
    hothers₂ (some 0) (by decide)
  have habort₂ : c₂.pc (some 2) = uploadAbort 1 1 := hothers₂ (some 2) (by decide)
  -- the first goes on
  obtain ⟨_, c₃, hrun₃, hshared₃, -, hothers₃⟩ :=
    hrun₂.alone (i := some 0) (alone_runAlone 0 (c₂.pc (some 0)) c₂.shared)
  rw [hfirst₂, hshared₂] at hshared₃
  obtain ⟨finishing', hfirst⟩ := first_completes finishing
    [.accepted 1, .accepted 1, .snapshotCreated 1 2, .statusSet 1 .completed]
  rw [hfirst] at hshared₃
  have habort₃ : c₃.pc (some 2) = uploadAbort 1 1 := (hothers₃ (some 2) (by decide)).trans habort₂
  -- the abort
  obtain ⟨events, c₄, hrun₄, hshared₄, -, -⟩ :=
    hrun₃.alone (i := some 2) (alone_runAlone 2 (c₃.pc (some 2)) c₃.shared)
  rw [habort₃, hshared₃] at hshared₄
  have hlog : c₄.shared.log = [.accepted 1, .accepted 1, .snapshotCreated 1 2,
      .statusSet 1 .completed, .snapshotCreated 1 1, .statusSet 1 .completed,
      .statusSet 1 .aborted] := by
    rw [hshared₄]
    rfl
  refine ⟨events, c₄, hrun₄, hlog, ?_, fun hsafe => ?_⟩
  · rw [hshared₄]
    rfl
  · have honce := hsafe.once
    rw [hlog] at honce
    exact absurd honce (by decide)

/-- An abort on its own: the session is open when it writes the status. -/
theorem upload_safe_aborted : ∃ events c,
    Execution (Scheduled UploadClock) (uploadsFrom env (fun _ : Fin 1 => .abort 1 1) staged ∅ 0)
        events c ∧
      c.shared.log = [.statusSet 1 .aborted] ∧ UploadSafe 1 events c := by
  have h₀ : Execution (Scheduled UploadClock)
    (uploadsFrom env (fun _ : Fin 1 => .abort 1 1) staged ∅ 0) [] _ := .start
  have hreads : Scheduled UploadClock (some (0 : Fin 1))
      (uploadsFrom env (fun _ : Fin 1 => .abort 1 1) staged ∅ 0).shared (uploadAbort 1 1)
      (uploadsFrom env (fun _ : Fin 1 => .abort 1 1) staged ∅ 0).shared
      (do markAborted 1; return .noContent) := .takes
  have h₁ := h₀.step (i := some 0) hreads
  have h₂ := h₁.step (i := some 0) .takes
  refine ⟨_, _, h₂, rfl, (upload_safe_iff _ _ rfl rfl h₂).2 ?_⟩
  refine ⟨fun _ _ _ _ hfills => hfills.elim, fun e he snapshot hlogs => ?_,
    fun _ _ _ _ _ _ _ _ hfills => hfills.elim, fun first between last i hbetween _ _ _ => ?_⟩
  · rcases List.mem_append.1 he with he | he
    · obtain rfl := List.mem_singleton.1 he
      exact absurd hlogs nofun
    · obtain rfl := List.mem_singleton.1 he
      exact absurd hlogs nofun
  · -- both statements find the session open
    rcases List.mem_append.1 hbetween.last_mem with hlast | hlast
    · obtain rfl := List.mem_singleton.1 hlast
      exact nofun
    · obtain rfl := List.mem_singleton.1 hlast
      exact nofun

end Chunks

end Sconce
