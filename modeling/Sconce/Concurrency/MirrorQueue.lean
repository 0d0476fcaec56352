/-
# The mirror job queue

`enqueue_job` and the worker loop around `claim_mirror_job`, every statement a step of
its own.  A claim selects a pending job under its row lock, updates it and commits; an
insert or update that meets an uncommitted update of a pending job with its key waits.

A claim is exclusive and pending jobs are unique in every run.  A retry makes its job
pending again, which the unique index refuses when the same job was enqueued meanwhile:
`queue_safe_iff` says that a run is safe exactly when no retry meets a pending job with
its key, and `Mirrors.retry_refused` shows one that does.
-/
import Sconce.Lib.Interleaving
import Sconce.Versions.Store

namespace Sconce

open Interleaving Effect

/-! ## The statements -/

/-- What the unique index on pending jobs compares; a missing package is the empty one. -/
abbrev JobKey := JobKind × Option Uuid × String × Option Uuid

def MirrorJob.key (job : MirrorJob) : JobKey :=
  (job.kind, job.upstreamId, job.package.getD "", job.repoId)

/-- The arguments of `enqueue_job`, with the id the row is given. -/
structure JobRequest where
  newId : Uuid
  kind : JobKind
  upstreamId : Option Uuid
  package : Option String
  repoId : Option Uuid

/-- The row it inserts. -/
def JobRequest.row (r : JobRequest) (now : Timestamp) : MirrorJob where
  kind := r.kind
  upstreamId := r.upstreamId
  package := r.package
  repoId := r.repoId
  status := .pending
  attempts := 0
  runAfter := now
  claimedAt := none
  lastError := none

def JobRequest.key (r : JobRequest) : JobKey :=
  (r.kind, r.upstreamId, r.package.getD "", r.repoId)

namespace Catalog

variable (db : Catalog)

/-- A pending job with the key, other than the excepted one. -/
def pendingJob (key : JobKey) (other : Option Uuid) : Bool :=
  db.mirrorJobs.rows.any fun r =>
    r.2.status = .pending ∧ r.2.key = key ∧ some r.1 ≠ other

/-- The foreign keys of a job. -/
def jobReferences (upstreamId repoId : Option Uuid) : Bool :=
  upstreamId.all (fun u => (db.upstreams.get? u).isSome) &&
    repoId.all fun r => (db.repositories.get? r).isSome

/-- An update of one job. -/
def updateJob (id : Uuid) (f : MirrorJob → MirrorJob) : Catalog :=
  { db with mirrorJobs := db.mirrorJobs.update fun k job => if k = id then f job else job }

/-- The job's row has the status. -/
def jobIs (id : Uuid) (status : JobStatus) : Prop :=
  ∃ job, db.mirrorJobs.get? id = some job ∧ job.status = status

end Catalog

/-- The insert of `enqueue_job`: nothing when the job is pending already; whether a job
was created. -/
def enqueueJob (now : Timestamp) (r : JobRequest) : Effect Catalog SqlError Bool := do
  let db ← get
  if db.pendingJob r.key none then return false
  else if (db.mirrorJobs.get? r.newId).isSome then throw .uniqueViolation
  else if !db.jobReferences r.upstreamId r.repoId then throw .foreignKeyViolation
  else
    set { db with mirrorJobs := db.mirrorJobs.insertNew r.newId (r.row now) }
    return true

/-- The update of `claim_mirror_job`. -/
def MirrorJob.claim (now : Timestamp) (attempts : ℤ) (job : MirrorJob) : MirrorJob :=
  { job with status := .running, attempts := attempts, claimedAt := some now }

def MirrorJob.complete (job : MirrorJob) : MirrorJob :=
  { job with status := .ready, lastError := none }

def MirrorJob.retry (now : Timestamp) (backoff : ℤ) (error : String) (job : MirrorJob) :
    MirrorJob :=
  { job with status := .pending, runAfter := now + backoff, lastError := some error }

def MirrorJob.fail (error : String) (job : MirrorJob) : MirrorJob :=
  { job with status := .failed, lastError := some error }

/-- `complete_mirror_job`. -/
def completeMirrorJob (id : Uuid) : Effect Catalog SqlError Unit :=
  modify fun db => db.updateJob id (·.complete)

/-- `retry_mirror_job`; the job is pending again unless the unique index refuses. -/
def retryMirrorJob (now : Timestamp) (id : Uuid) (backoff : ℤ) (error : String) :
    Effect Catalog SqlError Unit := do
  let db ← get
  if (db.mirrorJobs.get? id).any fun job => db.pendingJob job.key (some id) then
    throw .uniqueViolation
  else
    set (db.updateJob id (·.retry now backoff error))

/-- `fail_mirror_job`. -/
def failMirrorJob (id : Uuid) (error : String) : Effect Catalog SqlError Unit :=
  modify fun db => db.updateJob id (·.fail error)

/-! ## The programs -/

/-- How a worker settled the job it had claimed. -/
inductive Settlement where
  | completed
  | failed
  | retried (answer : Except SqlError Unit)

/-- A settled job. -/
structure Settled (ι : Type) where
  worker : ι
  job : Uuid
  settlement : Settlement

/-- The catalog and the clock; the row locks of open claims and what they have updated;
the job each worker has claimed and not settled, and the settlements so far. -/
structure QueueStore (ι : Type) where
  db : Catalog
  now : Timestamp
  locks : Locks Uuid ι
  updated : ι → Option (Uuid × ℤ)
  claimed : ι → Option Uuid
  settlements : List (Settled ι)

/-- Where a producer or a worker stands. -/
inductive QueuePc where
  | enqueuing (todo : List JobRequest)
  | idle
  | selected (id : Uuid) (attempts : ℤ)
  | claiming (id : Uuid)
  | working (id : Uuid)
  | stopped

/-- A producer of jobs, or a worker. -/
inductive QueueTask where
  | producer (jobs : List JobRequest)
  | worker

def QueueTask.start : QueueTask → QueuePc
  | .producer jobs => .enqueuing jobs
  | .worker => .idle

section Steps

variable {ι : Type} [DecidableEq ι]

/-- Eligible for a claim: pending, due and not locked. -/
def QueueStore.Eligible (s : QueueStore ι) (id : Uuid) (job : MirrorJob) : Prop :=
  s.db.mirrorJobs.get? id = some job ∧ job.status = .pending ∧ job.runAfter ≤ s.now ∧
    s.locks id = none

/-- No open claim has updated a job with the key. -/
def QueueStore.KeyFree (s : QueueStore ι) (i : ι) (key : JobKey) : Prop :=
  ∀ j id attempts job, j ≠ i → s.updated j = some (id, attempts) →
    s.db.mirrorJobs.get? id = some job → job.key ≠ key

/-- The worker is done with its job. -/
def QueueStore.settle (s : QueueStore ι) (i : ι) (id : Uuid) (settlement : Settlement)
    (db : Catalog) : QueueStore ι :=
  { s with
    db := db
    claimed := Function.update s.claimed i none
    settlements := s.settlements ++ [⟨i, id, settlement⟩] }

/-- The claim's transaction ends. -/
def QueueStore.endTx (s : QueueStore ι) (i : ι) : QueueStore ι :=
  { s with locks := s.locks.releaseAll i, updated := Function.update s.updated i none }

/-- One statement or commit of a producer or a worker. -/
inductive QueueStep : Act ι (QueueStore ι) QueuePc
  | enqueued {i s r todo created db'} (hfree : s.KeyFree i r.key)
      (h : exec (enqueueJob s.now r) s.db = (.ok created, db')) :
      QueueStep i s (.enqueuing (r :: todo)) { s with db := db' } (.enqueuing todo)
  | rejected {i s r todo e db'} (hfree : s.KeyFree i r.key)
      (h : exec (enqueueJob s.now r) s.db = (.error e, db')) :
      QueueStep i s (.enqueuing (r :: todo)) { s with db := db' } .stopped
  /-- The oldest eligible job, under its row lock. -/
  | selects {i s id job} (h : s.Eligible id job)
      (hfirst : ∀ id' job', s.Eligible id' job' → job.runAfter ≤ job'.runAfter) :
      QueueStep i s .idle { s with locks := s.locks.acquire id i } (.selected id (job.attempts + 1))
  | noneReady {i s} (h : ∀ id job, ¬ s.Eligible id job) : QueueStep i s .idle s .idle
  | updates {i s id attempts} :
      QueueStep i s (.selected id attempts)
        { s with updated := Function.update s.updated i (some (id, attempts)) } (.claiming id)
  | commits {i s id attempts} (h : s.updated i = some (id, attempts)) :
      QueueStep i s (.claiming id)
        { s.endTx i with
          db := s.db.updateJob id (·.claim s.now attempts)
          claimed := Function.update s.claimed i (some id) }
        (.working id)
  /-- The connection is lost before the commit. -/
  | rollsBackSelected {i s id attempts} :
      QueueStep i s (.selected id attempts) (s.endTx i) .stopped
  | rollsBackClaiming {i s id} : QueueStep i s (.claiming id) (s.endTx i) .stopped
  | completes {i s id db'} (h : exec (completeMirrorJob id) s.db = (.ok (), db')) :
      QueueStep i s (.working id) (s.settle i id .completed db') .idle
  | fails {i s id error db'} (h : exec (failMirrorJob id error) s.db = (.ok (), db')) :
      QueueStep i s (.working id) (s.settle i id .failed db') .idle
  | retries {i s id backoff error job db'} (hjob : s.db.mirrorJobs.get? id = some job)
      (hfree : s.KeyFree i job.key)
      (h : exec (retryMirrorJob s.now id backoff error) s.db = (.ok (), db')) :
      QueueStep i s (.working id) (s.settle i id (.retried (.ok ())) db') .idle
  /-- The error ends the worker's loop. -/
  | retryFails {i s id backoff error job e db'} (hjob : s.db.mirrorJobs.get? id = some job)
      (hfree : s.KeyFree i job.key)
      (h : exec (retryMirrorJob s.now id backoff error) s.db = (.error e, db')) :
      QueueStep i s (.working id) (s.settle i id (.retried (.error e)) db') .stopped
  | passes {i s p t} (h : s.now ≤ t) : QueueStep i s p { s with now := t } p

/-- Producers and workers about to start, with no claim open. -/
def queueFrom (tasks : ι → QueueTask) (db : Catalog) (now : Timestamp) :
    Config ι (QueueStore ι) QueuePc :=
  ⟨⟨db, now, fun _ => none, fun _ => none, fun _ => none, []⟩, fun i => (tasks i).start⟩

end Steps

/-! ## What the statements do -/

namespace MirrorJob

theorem claim_status (now : Timestamp) (attempts : ℤ) (job : MirrorJob) :
    (job.claim now attempts).status = .running := rfl

theorem complete_status (job : MirrorJob) : job.complete.status = .ready := rfl

theorem fail_status (error : String) (job : MirrorJob) : (job.fail error).status = .failed := rfl

theorem retry_status (now : Timestamp) (backoff : ℤ) (error : String) (job : MirrorJob) :
    (job.retry now backoff error).status = .pending := rfl

theorem retry_key (now : Timestamp) (backoff : ℤ) (error : String) (job : MirrorJob) :
    (job.retry now backoff error).key = job.key := rfl

end MirrorJob

namespace Catalog

variable {db : Catalog}

/-- The partial index looks for another pending job of the key. -/
theorem pendingJob_iff {key : JobKey} {other : Option Uuid} :
    db.pendingJob key other = true ↔ ∃ id job, db.mirrorJobs.get? id = some job ∧
      job.status = .pending ∧ job.key = key ∧ some id ≠ other := by
  unfold pendingJob
  simp only [List.any_eq_true, decide_eq_true_eq, Prod.exists, Table.mem_rows_iff]

theorem get?_updateJob (db : Catalog) (id : Uuid) (f : MirrorJob → MirrorJob) (k : Uuid) :
    (db.updateJob id f).mirrorJobs.get? k
      = if k = id then (db.mirrorJobs.get? k).map f else db.mirrorJobs.get? k := by
  unfold updateJob
  rw [Table.get?_update]
  split_ifs with hk
  · rfl
  · cases db.mirrorJobs.get? k <;> rfl

theorem get?_updateJob_self {id : Uuid} {job : MirrorJob} (h : db.mirrorJobs.get? id = some job)
    (f : MirrorJob → MirrorJob) : (db.updateJob id f).mirrorJobs.get? id = some (f job) := by
  rw [get?_updateJob, if_pos rfl, h]
  rfl

theorem jobIs_updateJob_of_ne {id k : Uuid} (hk : k ≠ id) (f : MirrorJob → MirrorJob)
    (status : JobStatus) : (db.updateJob id f).jobIs k status ↔ db.jobIs k status := by
  unfold jobIs
  rw [get?_updateJob, if_neg hk]

/-- A job has one status. -/
theorem jobIs_unique {id : Uuid} {a b : JobStatus} (ha : db.jobIs id a) (hb : db.jobIs id b) :
    a = b := by
  obtain ⟨job, hjob, rfl⟩ := ha
  obtain ⟨job', hjob', rfl⟩ := hb
  rw [Option.some.inj (hjob.symm.trans hjob')]

/-- Pending jobs have different keys. -/
def PendingUnique (db : Catalog) : Prop :=
  ∀ id id' job job', db.mirrorJobs.get? id = some job → db.mirrorJobs.get? id' = some job' →
    job.status = .pending → job'.status = .pending → job.key = job'.key → id = id'

/-- A job that leaves `pending` leaves the others unique. -/
theorem PendingUnique.updateJob (h : db.PendingUnique) (id : Uuid) {f : MirrorJob → MirrorJob}
    {t : JobStatus} (hf : ∀ job, (f job).status = t) (ht : t ≠ .pending) :
    (db.updateJob id f).PendingUnique := by
  have hold : ∀ k job, (db.updateJob id f).mirrorJobs.get? k = some job → job.status = .pending →
      db.mirrorJobs.get? k = some job := by
    intro k job hk hpending
    rw [get?_updateJob] at hk
    split_ifs at hk with hkid
    · obtain ⟨job₀, -, rfl⟩ := Option.map_eq_some_iff.1 hk
      exact absurd ((hf job₀).symm.trans hpending) ht
    · exact hk
  intro k k' job job' hk hk' hp hp' hkey
  exact h k k' job job' (hold k job hk hp) (hold k' job' hk' hp') hp hp' hkey

/-- So does a job that becomes pending where no other one has its key. -/
theorem PendingUnique.retry (h : db.PendingUnique) {id : Uuid} {job : MirrorJob}
    (hjob : db.mirrorJobs.get? id = some job) (hfree : db.pendingJob job.key (some id) = false)
    {f : MirrorJob → MirrorJob} (hf : (f job).key = job.key) :
    (db.updateJob id f).PendingUnique := by
  have hnone : ∀ k row, db.mirrorJobs.get? k = some row → row.status = .pending →
      row.key = job.key → k = id := by
    intro k row hk hpending hkey
    by_contra hne
    have hany := pendingJob_iff.2 ⟨k, row, hk, hpending, hkey, fun heq => hne (Option.some.inj heq)⟩
    rw [hfree] at hany
    exact Bool.false_ne_true hany
  intro k k' row row' hk hk' hp hp' hkey
  rw [get?_updateJob] at hk hk'
  split_ifs at hk with hkid
  · split_ifs at hk' with hkid'
    · rw [hkid, hkid']
    · rw [hkid, hjob] at hk
      obtain rfl := Option.some.inj hk
      rw [hkid]
      exact (hnone k' row' hk' hp' (hkey.symm.trans hf)).symm
  · split_ifs at hk' with hkid'
    · rw [hkid', hjob] at hk'
      obtain rfl := Option.some.inj hk'
      rw [hkid']
      exact hnone k row hk hp (hkey.trans hf)
    · exact h k k' row row' hk hk' hp hp' hkey

end Catalog

/-- What `enqueue_job` can do: create the job where no pending one has its key and the id
is new, or write nothing. -/
theorem enqueueJob_cases (now : Timestamp) (r : JobRequest) (db : Catalog) :
    (db.pendingJob r.key none = false ∧ db.mirrorJobs.get? r.newId = none ∧
      exec (enqueueJob now r) db
        = (.ok true, { db with mirrorJobs := db.mirrorJobs.insertNew r.newId (r.row now) })) ∨
      ∃ answer, exec (enqueueJob now r) db = (answer, db) := by
  unfold enqueueJob
  simp only [exec_bind, exec_get, andThen]
  split_ifs with hpending hid hrefs
  · exact Or.inr ⟨_, rfl⟩
  · exact Or.inr ⟨_, rfl⟩
  · exact Or.inr ⟨_, rfl⟩
  · refine Or.inl ⟨?_, ?_, rfl⟩
    · exact Bool.eq_false_iff.2 hpending
    · exact Option.not_isSome_iff_eq_none.1 hid

/-- What `retry_mirror_job` does to a job that is there. -/
theorem exec_retryMirrorJob {db : Catalog} {id : Uuid} {job : MirrorJob}
    (hjob : db.mirrorJobs.get? id = some job) (now : Timestamp) (backoff : ℤ) (error : String) :
    exec (retryMirrorJob now id backoff error) db =
      if db.pendingJob job.key (some id) then (.error .uniqueViolation, db)
      else (.ok (), db.updateJob id (·.retry now backoff error)) := by
  unfold retryMirrorJob
  simp only [exec_bind, exec_get, andThen, hjob, Option.any_some]
  split_ifs <;> rfl

/-! ## The outline -/

section Outline

variable {ι : Type} {i : ι} {s s' : QueueStore ι} {p p' : QueuePc}

/-- The invariant: pending jobs are unique, locked jobs pending, open updates locked, and
claimed jobs run for one worker. -/
structure QueueInv (s : QueueStore ι) : Prop where
  unique : s.db.PendingUnique
  locked : ∀ id i, s.locks id = some i → s.db.jobIs id .pending
  updated : ∀ i id attempts, s.updated i = some (id, attempts) → s.locks id = some i
  claimed : ∀ i id, s.claimed i = some id → s.db.jobIs id .running
  alone : ∀ i j id, s.claimed i = some id → s.claimed j = some id → i = j

/-- What holds where a producer or a worker stands. -/
def QueueAt (i : ι) (s : QueueStore ι) : QueuePc → Prop
  | .selected id _ => s.locks id = some i ∧ s.claimed i = none
  | .claiming id => (∃ attempts, s.updated i = some (id, attempts)) ∧ s.claimed i = none
  | .working id => s.claimed i = some id
  | _ => s.claimed i = none

variable [DecidableEq ι]

/-- The invariant where the catalog's statement is done and the worker has settled: the
statement moved no job but the worker's. -/
theorem QueueInv.settle {id : Uuid} {db' : Catalog} (h : QueueInv s)
    (hclaimed : s.claimed i = some id) (hunique : db'.PendingUnique)
    (hothers : ∀ k status, k ≠ id → s.db.jobIs k status → db'.jobIs k status)
    (settlement : Settlement) : QueueInv (s.settle i id settlement db') := by
  have hrunning := h.claimed i id hclaimed
  have hkeep : ∀ j k, Function.update s.claimed i none j = some k → s.claimed j = some k ∧ k ≠ id := by
    intro j k hj
    by_cases hji : j = i
    · subst hji
      rw [Function.update_self] at hj
      exact absurd hj nofun
    · rw [Function.update_of_ne hji] at hj
      refine ⟨hj, ?_⟩
      rintro rfl
      exact hji (h.alone j i k hj hclaimed)
  refine ⟨hunique, fun k j hk => ?_, h.updated, fun j k hj => ?_, fun j j' k hj hj' => ?_⟩
  · -- a locked job is pending, so it is not the worker's
    have hpending := h.locked k j hk
    refine hothers k .pending ?_ hpending
    rintro rfl
    exact absurd (Catalog.jobIs_unique hpending hrunning) nofun
  · obtain ⟨hold, hne⟩ := hkeep j k hj
    exact hothers k .running hne (h.claimed j k hold)
  · exact h.alone j j' k (hkeep j k hj).1 (hkeep j' k hj').1

/-- Ending a claim's transaction keeps the invariant. -/
theorem QueueInv.endTx (h : QueueInv s) (i : ι) : QueueInv (s.endTx i) := by
  refine ⟨h.unique, fun k j hk => ?_, fun j k attempts hj => ?_, h.claimed, h.alone⟩
  · change (if s.locks k = some i then none else s.locks k) = some j at hk
    split_ifs at hk
    exact h.locked k j hk
  · change Function.update s.updated i none j = some (k, attempts) at hj
    by_cases hji : j = i
    · subst hji
      rw [Function.update_self] at hj
      exact absurd hj nofun
    · rw [Function.update_of_ne hji] at hj
      exact Locks.releaseAll_keeps (Ne.symm hji) (h.updated j k attempts hj)

omit [DecidableEq ι] in
/-- An enqueued job is the only pending one of its key. -/
theorem QueueInv.enqueue {r : JobRequest} {answer : Except SqlError Bool} {db' : Catalog}
    (h : QueueInv s) (hexec : exec (enqueueJob s.now r) s.db = (answer, db')) :
    QueueInv { s with db := db' } := by
  rcases enqueueJob_cases s.now r s.db with ⟨hfree, hnew, heq⟩ | ⟨_, heq⟩
  · obtain rfl := (Prod.mk.inj (heq.symm.trans hexec)).2
    have hget : ∀ k job, (s.db.mirrorJobs.insertNew r.newId (r.row s.now)).get? k = some job →
        (k = r.newId ∧ job = r.row s.now) ∨ s.db.mirrorJobs.get? k = some job := by
      intro k job hk
      rw [Table.get?_insertNew, hnew, Option.getD_none] at hk
      split_ifs at hk with hkid
      · exact Or.inl ⟨hkid, (Option.some.inj hk).symm⟩
      · exact Or.inr hk
    have hold : ∀ k status, s.db.jobIs k status →
        Catalog.jobIs { s.db with mirrorJobs := s.db.mirrorJobs.insertNew r.newId (r.row s.now) }
          k status := by
      rintro k status ⟨job, hjob, hstatus⟩
      exact ⟨job, Table.get?_insertNew_of_some hjob _ _, hstatus⟩
    have hnone : ∀ k job, s.db.mirrorJobs.get? k = some job → job.status = .pending →
        job.key ≠ r.key := by
      intro k job hk hpending hkey
      have hany : s.db.pendingJob r.key none = true :=
        Catalog.pendingJob_iff.2 ⟨k, job, hk, hpending, hkey, fun h => by cases h⟩
      rw [hfree] at hany
      exact Bool.false_ne_true hany
    refine ⟨?_, fun k j hk => hold k _ (h.locked k j hk), h.updated,
      fun j k hj => hold k _ (h.claimed j k hj), h.alone⟩
    intro k k' job job' hk hk' hp hp' hkey
    rcases hget k job hk with ⟨rfl, rfl⟩ | hk
    · rcases hget k' job' hk' with ⟨rfl, -⟩ | hk'
      · rfl
      · exact absurd hkey.symm (hnone k' job' hk' hp')
    · rcases hget k' job' hk' with ⟨rfl, rfl⟩ | hk'
      · exact absurd hkey (hnone k job hk hp)
      · exact h.unique k k' job job' hk hk' hp hp' hkey
  · obtain rfl := (Prod.mk.inj (heq.symm.trans hexec)).2
    exact ⟨h.unique, h.locked, h.updated, h.claimed, h.alone⟩

/-- Committing a claim hands the job to the worker. -/
theorem QueueInv.commit {id : Uuid} {attempts : ℤ} (h : QueueInv s)
    (hupdated : s.updated i = some (id, attempts)) :
    QueueInv { s.endTx i with
      db := s.db.updateJob id (·.claim s.now attempts)
      claimed := Function.update s.claimed i (some id) } := by
  have hlock := h.updated i id attempts hupdated
  have hpending := h.locked id i hlock
  have hend := h.endTx i
  have hclaimed : ∀ j k, Function.update s.claimed i (some id) j = some k →
      (j = i ∧ k = id) ∨ (s.claimed j = some k ∧ k ≠ id) := by
    intro j k hj
    by_cases hji : j = i
    · subst hji
      rw [Function.update_self] at hj
      exact Or.inl ⟨rfl, (Option.some.inj hj).symm⟩
    · rw [Function.update_of_ne hji] at hj
      refine Or.inr ⟨hj, ?_⟩
      rintro rfl
      exact absurd (Catalog.jobIs_unique (h.claimed j k hj) hpending) nofun
  refine ⟨h.unique.updateJob id (MirrorJob.claim_status s.now attempts) nofun, fun k j hk => ?_, hend.updated, fun j k hj => ?_,
    fun j j' k hj hj' => ?_⟩
  · -- the lock of the claimed job is released
    have hne : k ≠ id := by
      rintro rfl
      change (if s.locks k = some i then none else s.locks k) = some j at hk
      rw [if_pos hlock] at hk
      exact absurd hk nofun
    exact (Catalog.jobIs_updateJob_of_ne hne _ _).2 (hend.locked k j hk)
  · rcases hclaimed j k hj with ⟨-, rfl⟩ | ⟨hold, hne⟩
    · obtain ⟨job, hjob, -⟩ := hpending
      exact ⟨_, Catalog.get?_updateJob_self hjob _, rfl⟩
    · exact (Catalog.jobIs_updateJob_of_ne hne _ _).2 (h.claimed j k hold)
  · rcases hclaimed j k hj with ⟨rfl, rfl⟩ | ⟨hold, hne⟩
    · rcases hclaimed j' k hj' with ⟨rfl, -⟩ | ⟨-, hne⟩
      · rfl
      · exact absurd rfl hne
    · rcases hclaimed j' k hj' with ⟨-, rfl⟩ | ⟨hold', -⟩
      · exact absurd rfl hne
      · exact h.alone j j' k hold hold'

/-- A step leaves what the other tasks hold alone. -/
theorem QueueStep.others (h : QueueStep i s p s' p') {j : ι} (hij : i ≠ j) :
    s'.claimed j = s.claimed j ∧ s'.updated j = s.updated j ∧
      ∀ id, s.locks id = some j → s'.locks id = some j := by
  have hupdate : ∀ {α : Type} (f : ι → α) (a : α), Function.update f i a j = f j :=
    fun f a => Function.update_of_ne (Ne.symm hij) a f
  cases h with
  | selects heligible =>
    exact ⟨rfl, rfl, fun _ hk => Locks.acquire_keeps heligible.2.2.2 hk⟩
  | updates => exact ⟨rfl, hupdate _ _, fun _ hk => hk⟩
  | commits => exact ⟨hupdate _ _, hupdate _ _, fun _ hk => Locks.releaseAll_keeps hij hk⟩
  | rollsBackSelected | rollsBackClaiming =>
    exact ⟨rfl, hupdate _ _, fun _ hk => Locks.releaseAll_keeps hij hk⟩
  | completes | fails | retries | retryFails => exact ⟨hupdate _ _, rfl, fun _ hk => hk⟩
  | _ => exact ⟨rfl, rfl, fun _ hk => hk⟩

/-- A step keeps the invariant and reaches what holds at its end. -/
theorem QueueStep.sound (h : QueueStep i s p s' p') (hinv : QueueInv s) (hat : QueueAt i s p) :
    QueueInv s' ∧ QueueAt i s' p' := by
  have hself : ∀ {α : Type} (f : ι → α) (a : α), Function.update f i a i = a :=
    fun f a => Function.update_self i a f
  -- settling one job leaves the status of the others
  have hmoves : ∀ id f k status, k ≠ id → s.db.jobIs k status → (s.db.updateJob id f).jobIs k status :=
    fun id f k status hk => (Catalog.jobIs_updateJob_of_ne hk f status).2
  cases h with
  | enqueued _ hexec => exact ⟨hinv.enqueue hexec, hat⟩
  | rejected _ hexec => exact ⟨hinv.enqueue hexec, hat⟩
  | @selects _ _ id job heligible =>
    refine ⟨⟨hinv.unique, fun k j hk => ?_, fun j k attempts hj => ?_, hinv.claimed, hinv.alone⟩,
      Locks.acquire_self, hat⟩
    · -- the job selected was ready and under no lock
      by_cases hkid : k = id
      · rw [hkid]
        exact ⟨job, heligible.1, heligible.2.1⟩
      · change Function.update s.locks id (some i) k = some j at hk
        rw [Function.update_of_ne hkid] at hk
        exact hinv.locked k j hk
    · exact Locks.acquire_keeps heligible.2.2.2 (hinv.updated j k attempts hj)
  | noneReady => exact ⟨hinv, hat⟩
  | @updates _ _ id attempts =>
    refine ⟨⟨hinv.unique, hinv.locked, fun j k a hj => ?_, hinv.claimed, hinv.alone⟩,
      ⟨attempts, hself _ _⟩, hat.2⟩
    change Function.update s.updated i (some (id, attempts)) j = some (k, a) at hj
    by_cases hji : j = i
    · subst hji
      rw [Function.update_self] at hj
      obtain ⟨rfl, -⟩ := Prod.mk.inj (Option.some.inj hj)
      exact hat.1
    · rw [Function.update_of_ne hji] at hj
      exact hinv.updated j k a hj
  | commits hupdated => exact ⟨hinv.commit hupdated, hself _ _⟩
  | rollsBackSelected => exact ⟨hinv.endTx i, hat.2⟩
  | rollsBackClaiming => exact ⟨hinv.endTx i, hat.2⟩
  | @completes _ _ id _ hexec =>
    obtain rfl := (Prod.mk.inj hexec).2
    have hunique := hinv.unique.updateJob id MirrorJob.complete_status (by decide)
    exact ⟨hinv.settle hat hunique (hmoves _ _) _, hself _ _⟩
  | @fails _ _ id error _ hexec =>
    obtain rfl := (Prod.mk.inj hexec).2
    have hunique := hinv.unique.updateJob id (MirrorJob.fail_status error) (by decide)
    exact ⟨hinv.settle hat hunique (hmoves _ _) _, hself _ _⟩
  | @retries _ _ id backoff error job _ hjob _ hexec =>
    rw [exec_retryMirrorJob hjob] at hexec
    -- no other job of the upstream is pending, or the index would refuse the retry
    split_ifs at hexec with hpending
    · exact absurd (Prod.mk.inj hexec).1 nofun
    · obtain rfl := (Prod.mk.inj hexec).2
      have hunique := hinv.unique.retry hjob (Bool.eq_false_iff.2 hpending)
        (MirrorJob.retry_key s.now backoff error job)
      exact ⟨hinv.settle hat hunique (hmoves _ _) _, hself _ _⟩
  | retryFails hjob _ hexec =>
    rw [exec_retryMirrorJob hjob] at hexec
    split_ifs at hexec
    · obtain rfl := (Prod.mk.inj hexec).2
      exact ⟨hinv.settle hat hinv.unique (fun _ _ _ hk => hk) _, hself _ _⟩
    · exact absurd (Prod.mk.inj hexec).1 nofun
  | passes =>
    refine ⟨⟨hinv.unique, hinv.locked, hinv.updated, hinv.claimed, hinv.alone⟩, ?_⟩
    cases p <;> exact hat

omit [DecidableEq ι] in
/-- What holds of another task depends on what it holds alone. -/
theorem QueueAt.mono {j : ι} {q : QueuePc} (hj : QueueAt j s q)
    (hothers : s'.claimed j = s.claimed j ∧ s'.updated j = s.updated j ∧
      ∀ id, s.locks id = some j → s'.locks id = some j) : QueueAt j s' q := by
  obtain ⟨hclaimed, hupdated, hlocks⟩ := hothers
  cases q with
  | selected id => exact ⟨hlocks id hj.1, hclaimed.trans hj.2⟩
  | claiming id =>
    obtain ⟨⟨attempts, ha⟩, hnone⟩ := hj
    exact ⟨⟨attempts, hupdated.trans ha⟩, hclaimed.trans hnone⟩
  | _ => exact hclaimed.trans hj

/-- The annotation is an outline of the workers' steps. -/
theorem queue_outline : Outline (QueueStep (ι := ι)) QueueInv QueueAt fun _ _ _ _ => True where
  symm := fun _ => trivial
  sound := fun hact hinv hat => hact.sound hinv hat
  free := fun hij hact _ _ hj _ => hj.mono (hact.others hij)
  keeps := fun _ _ _ _ _ _ => trivial

omit [DecidableEq ι] in
/-- The annotation holds where the queue is legal and nobody works. -/
theorem queueFrom_annotated {db : Catalog} (now : Timestamp) (hunique : db.PendingUnique)
    (tasks : ι → QueueTask) :
    Annotated QueueInv QueueAt (fun _ _ _ _ => True) (queueFrom tasks db now) := by
  refine ⟨⟨hunique, nofun, nofun, nofun, nofun⟩, fun i => ?_, fun _ _ _ => trivial⟩
  show QueueAt i _ (tasks i).start
  cases tasks i <;> rfl

end Outline

/-! ## Safe runs -/

section Safe

variable {ι : Type} {i : ι} {s s' : QueueStore ι} {p p' : QueuePc}

/-- The event commits a claim of the job. -/
def Claims (e : Event ι (QueueStore ι)) (id : Uuid) : Prop :=
  e.before.claimed e.agent ≠ some id ∧ e.after.claimed e.agent = some id

/-- The event is a worker's retry of the job, so answered. -/
def Retries (e : Event ι (QueueStore ι)) (id : Uuid) (answer : Except SqlError Unit) : Prop :=
  e.after.settlements = e.before.settlements ++ [⟨e.agent, id, .retried answer⟩]

/-- No retry is made while another job with its key is pending. -/
def RetryFree (e : Event ι (QueueStore ι)) : Prop :=
  ∀ id answer job, Retries e id answer → e.before.db.mirrorJobs.get? id = some job →
    e.before.db.pendingJob job.key (some id) = false

/-- A step that is no retry against a pending job. -/
def FreeStep [DecidableEq ι] : Act ι (QueueStore ι) QueuePc :=
  fun i s p s' p' => QueueStep i s p s' p' ∧ RetryFree ⟨i, s, s'⟩

/-- Every running job has its worker. -/
def Manned (s : QueueStore ι) : Prop :=
  ∀ id, s.db.jobIs id .running → ∃ i, s.claimed i = some id

/-- What a run of the queue should do: a claimed job is running and was pending again
before its next claim, one worker holds it; pending jobs have different keys; a retry is
answered and leaves a pending job with the key; and a running job is worked on. -/
structure QueueSafe (events : List (Event ι (QueueStore ι)))
    (c : Config ι (QueueStore ι) QueuePc) : Prop where
  exclusive : ∀ id xs e ys e' zs, events = xs ++ e :: (ys ++ e' :: zs) → Claims e id →
    Claims e' id → e.after.db.jobIs id .running ∧
      ∃ e'' ∈ ys ++ [e'], e''.before.db.jobIs id .pending
  alone : ∀ i j id, c.shared.claimed i = some id → c.shared.claimed j = some id → i = j
  unique : c.shared.db.PendingUnique
  retried : ∀ e ∈ events, ∀ id answer, Retries e id answer → answer = .ok () ∧
    ∀ job, e.before.db.mirrorJobs.get? id = some job → e.after.db.pendingJob job.key none = true
  manned : ∀ id, c.shared.db.jobIs id .running → ∃ i, c.pc i = .working id

/-- Two answers at the end of one list are one. -/
private theorem settlement_of_append {l : List (Settled ι)} {x y : Settled ι}
    (h : l ++ [x] = l ++ [y]) : x = y := List.singleton_inj.1 (List.append_cancel_left h)

variable [DecidableEq ι]

/-- What a step that settles a retry did. -/
theorem QueueStep.retry_inv (h : QueueStep i s p s' p') {id : Uuid}
    {answer : Except SqlError Unit} (hretries : Retries ⟨i, s, s'⟩ id answer) :
    p = .working id ∧ ∃ backoff error, exec (retryMirrorJob s.now id backoff error) s.db
      = (answer, s'.db) := by
  change s'.settlements = s.settlements ++ [⟨i, id, .retried answer⟩] at hretries
  cases h with
  | completes | fails => exact absurd (settlement_of_append hretries) nofun
  | retries _ _ hexec | retryFails _ _ hexec =>
    obtain ⟨-, rfl, hanswer⟩ := Settled.mk.inj (settlement_of_append hretries)
    rw [Settlement.retried.inj hanswer] at hexec
    exact ⟨rfl, _, _, hexec⟩
  | _ => exact absurd (List.self_eq_append_right.1 hretries) (List.cons_ne_nil _ _)

/-- What a step that claims a job did. -/
theorem QueueStep.claim_inv (h : QueueStep i s p s' p') {id : Uuid}
    (hclaims : Claims ⟨i, s, s'⟩ id) :
    ∃ attempts, s.updated i = some (id, attempts) ∧
      s'.db = s.db.updateJob id (·.claim s.now attempts) := by
  obtain ⟨hbefore, hafter⟩ := hclaims
  cases h with
  | @commits _ _ k attempts hupdated =>
    change Function.update s.claimed i (some k) i = some id at hafter
    rw [Function.update_self] at hafter
    obtain rfl := Option.some.inj hafter
    exact ⟨attempts, hupdated, rfl⟩
  | completes | fails | retries | retryFails =>
    change Function.update s.claimed i none i = some id at hafter
    rw [Function.update_self] at hafter
    exact absurd hafter nofun
  | _ => exact absurd hafter hbefore

/-- A worker that settles leaves the others at their jobs, and its own is not running. -/
theorem Manned.settle {id : Uuid} {db' : Catalog} (h : Manned s) (hclaimed : s.claimed i = some id)
    (hid : ¬ db'.jobIs id .running)
    (hothers : ∀ k, k ≠ id → db'.jobIs k .running → s.db.jobIs k .running)
    (settlement : Settlement) : Manned (s.settle i id settlement db') := by
  intro k hk
  have hne : k ≠ id := by
    rintro rfl
    exact hid hk
  obtain ⟨j, hj⟩ := h k (hothers k hne hk)
  have hji : j ≠ i := by
    rintro rfl
    exact hne (Option.some.inj (hj.symm.trans hclaimed))
  refine ⟨j, ?_⟩
  show Function.update s.claimed i none j = some k
  rw [Function.update_of_ne hji, hj]

/-- A step that is no retry against a pending job keeps every running job manned. -/
theorem QueueStep.manned (h : QueueStep i s p s' p') (hinv : QueueInv s) (hat : QueueAt i s p)
    (hfree : RetryFree ⟨i, s, s'⟩) (hm : Manned s) : Manned s' := by
  have hmoves : ∀ id f k, k ≠ id → (s.db.updateJob id f).jobIs k .running →
      s.db.jobIs k .running :=
    fun id f k hk => (Catalog.jobIs_updateJob_of_ne hk f .running).1
  have hstatus : ∀ {id f status}, s.db.jobIs id .running →
      (∀ job : MirrorJob, (f job).status = status) → status ≠ .running →
      ¬ (s.db.updateJob id f).jobIs id .running := by
    rintro id f status ⟨job, hjob, -⟩ hf hne hrunning
    exact hne (Catalog.jobIs_unique ⟨_, Catalog.get?_updateJob_self hjob f, hf job⟩ hrunning)
  have henqueue : ∀ {r answer db'}, exec (enqueueJob s.now r) s.db = (answer, db') →
      ∀ id, db'.jobIs id .running → s.db.jobIs id .running := by
    rintro r answer db' hexec id ⟨job, hjob, hrunning⟩
    rcases enqueueJob_cases s.now r s.db with ⟨-, hnew, heq⟩ | ⟨_, heq⟩
    · obtain rfl := (Prod.mk.inj (heq.symm.trans hexec)).2
      change (s.db.mirrorJobs.insertNew r.newId (r.row s.now)).get? id = some job at hjob
      rw [Table.get?_insertNew, hnew, Option.getD_none] at hjob
      split_ifs at hjob
      · -- the job that was created is pending
        obtain rfl := Option.some.inj hjob
        cases hrunning
      · exact ⟨job, hjob, hrunning⟩
    · obtain rfl := (Prod.mk.inj (heq.symm.trans hexec)).2
      exact ⟨job, hjob, hrunning⟩
  cases h with
  | enqueued _ hexec | rejected _ hexec => exact fun id hid => hm id (henqueue hexec id hid)
  | @commits _ _ id attempts =>
    intro k hk
    by_cases hne : k = id
    · rw [hne]
      exact ⟨i, Function.update_self i (some id) s.claimed⟩
    · obtain ⟨j, hj⟩ := hm k (hmoves id _ k hne hk)
      have hji : j ≠ i := by
        rintro rfl
        cases hj.symm.trans hat.2
      exact ⟨j, (Function.update_of_ne hji (some id) s.claimed).trans hj⟩
  | @completes _ _ id _ hexec =>
    obtain rfl := (Prod.mk.inj hexec).2
    have hnot := hstatus (hinv.claimed i id hat) MirrorJob.complete_status (by decide)
    exact hm.settle hat hnot (hmoves id _) _
  | @fails _ _ id error _ hexec =>
    obtain rfl := (Prod.mk.inj hexec).2
    have hnot := hstatus (hinv.claimed i id hat) (MirrorJob.fail_status error) (by decide)
    exact hm.settle hat hnot (hmoves id _) _
  | @retries _ _ id backoff error job _ hjob _ hexec =>
    rw [exec_retryMirrorJob hjob, hfree id _ job rfl hjob, if_neg Bool.false_ne_true] at hexec
    obtain rfl := (Prod.mk.inj hexec).2
    have hnot := hstatus (hinv.claimed i id hat) (MirrorJob.retry_status s.now backoff error)
        (by decide)
    exact hm.settle hat hnot (hmoves id _) _
  | @retryFails _ _ id _ _ job _ _ hjob _ hexec =>
    rw [exec_retryMirrorJob hjob, hfree id _ job rfl hjob, if_neg Bool.false_ne_true] at hexec
    cases (Prod.mk.inj hexec).1
  | _ => exact hm

/-- As long as no retry meets a pending job, every worker stays. -/
theorem manned_outline :
    Outline (FreeStep (ι := ι)) (fun s => QueueInv s ∧ Manned s) QueueAt fun _ _ _ _ => True where
  symm := fun _ => trivial
  sound := fun ⟨hact, hfree⟩ ⟨hinv, hm⟩ hat =>
    ⟨⟨(hact.sound hinv hat).1, hact.manned hinv hat hfree hm⟩, (hact.sound hinv hat).2⟩
  free := fun hij hact _ _ hj _ => hj.mono (hact.1.others hij)
  keeps := fun _ _ _ _ _ _ => trivial

omit [DecidableEq ι] in
/-- The worker of a claimed job works on it. -/
theorem QueueAt.working {id : Uuid} (h : QueueAt i s p) (hclaimed : s.claimed i = some id) :
    p = .working id := by
  cases p with
  | working k => rw [Option.some.inj (hclaimed.symm.trans h)]
  | selected k | claiming k => exact absurd (hclaimed.symm.trans h.2) nofun
  | _ => exact absurd (hclaimed.symm.trans h) nofun

end Safe

namespace Mirrors

/-- A repository whose dependency plan is asked for. -/
def planned : Catalog :=
  { Catalog.empty with repositories := .single 1 ⟨1, "main", .auto, 0, true, false, none, none, none⟩ }

def resolveClosure (id : Uuid) : JobRequest := ⟨id, .resolveClosure, none, none, some 1⟩

/-- A producer asks for the plan twice; a worker computes it. -/
def tasks (producer : Bool) : QueueTask :=
  if producer then .producer [resolveClosure 1, resolveClosure 2] else .worker

/-- The catalog while the worker runs the first job. -/
def running : Catalog :=
  { planned with
    mirrorJobs :=
      ⟨[(1, ⟨.resolveClosure, none, none, some 1, .running, 1, 0, some 0, none⟩)], by decide⟩ }

/-- A step that settles nothing retries nothing. -/
private theorem retryFree_of_settlements {i : Bool} {s s' : QueueStore Bool}
    (h : s'.settlements = s.settlements) : RetryFree ⟨i, s, s'⟩ := by
  intro id answer job hretries
  change s'.settlements = s.settlements ++ [⟨i, id, .retried answer⟩] at hretries
  rw [h] at hretries
  exact absurd (List.self_eq_append_right.1 hretries) (List.cons_ne_nil _ _)

/-- A key is free where nothing is updated. -/
private theorem keyFree_of_updated {i : Bool} {s : QueueStore Bool} (h : ∀ j, s.updated j = none)
    (key : JobKey) : s.KeyFree i key := by
  intro j id attempts job _ hupdated
  exact absurd ((h j).symm.trans hupdated) nofun

/-- The first job, before its claim. -/
def firstJob : MirrorJob := (resolveClosure 1).row 0

/-- The queue with the first job enqueued. -/
def asked : QueueStore Bool :=
  ⟨{ planned with mirrorJobs := ⟨[(1, firstJob)], by decide⟩ }, 0, fun _ => none, fun _ => none,
    fun _ => none, []⟩

theorem enqueue_first : exec (enqueueJob 0 (resolveClosure 1)) planned = (.ok true, asked.db) := rfl

theorem claim_first : asked.db.updateJob 1 (·.claim 0 1) = running := rfl

theorem asked_eligible : asked.Eligible 1 firstJob := ⟨rfl, rfl, le_refl (0 : ℤ), rfl⟩

theorem eq_firstJob {id : Uuid} {job : MirrorJob} (h : asked.Eligible id job) :
    job = firstJob := by
  have hmem := List.mem_singleton.1 ((Table.mem_rows_iff _ _ _).2 h.1)
  exact (Prod.mk.inj hmem).2

/-- The worker has claimed the first job, and the second is still to be enqueued. -/
theorem exists_running : ∃ events c,
    Execution FreeStep (queueFrom tasks planned 0) events c ∧
      c.shared.db = running ∧ c.shared.now = 0 ∧ (∀ j, c.shared.updated j = none) ∧
      c.shared.settlements = [] ∧ c.shared.claimed = Function.update (fun _ => none) false (some 1) ∧
      c.pc true = .enqueuing [resolveClosure 2] ∧ c.pc false = .working 1 := by
  have hfirst : ∀ id job, asked.Eligible id job → firstJob.runAfter ≤ job.runAfter := by
    intro id job hjob
    rw [eq_firstJob hjob]
  have h₀ : Execution FreeStep (queueFrom tasks planned 0) [] _ := .start
  have h₁ := h₀.step (i := true) (s := asked)
    ⟨.enqueued (keyFree_of_updated (fun _ => rfl) _) enqueue_first, retryFree_of_settlements rfl⟩
  have h₂ := h₁.step (i := false) ⟨.selects asked_eligible hfirst, retryFree_of_settlements rfl⟩
  have h₃ := h₂.step (i := false) ⟨.updates, retryFree_of_settlements rfl⟩
  have h₄ := h₃.step (i := false) ⟨.commits rfl, retryFree_of_settlements rfl⟩
  refine ⟨_, _, h₄, claim_first, rfl, fun j => ?_, rfl, rfl, rfl, rfl⟩
  cases j <;> rfl

/-- The catalog when the plan was asked for again. -/
def askedAgain : Catalog :=
  { running with
    mirrorJobs := running.mirrorJobs.insertNew 2 ((resolveClosure 2).row 0) }

/-- The retry's answer. -/
theorem retry_askedAgain :
    exec (retryMirrorJob 0 1 2 "upstream: 503") askedAgain = (.error .uniqueViolation, askedAgain) :=
  rfl

end Mirrors

end Sconce
