/-
# The client of the chunked uploads

`upload_chunked` of the command line: it opens a session, asks which parts are there, sends the
body in slices no longer than the server takes, and completes with the digest of the whole.

Each request is the server's script of it, so that the client is a script as well.
-/
import Sconce.Storage.Assembly

namespace Sconce

open Effect Script

variable {ι : Type}

/-! ## The server's side -/

/-- The server with the limit of one request body, `max_upload_bytes()`: the `DefaultBodyLimit` of
the routes that carry bytes. -/
structure UploadServer extends UploadEnv where
  maxUploadBytes : ℕ

/-- The server, were its limit large enough for the body. -/
def UploadServer.taking (server : UploadServer) (body : List UInt8) : UploadServer :=
  { server with maxUploadBytes := max server.maxUploadBytes body.length }

/-- `UPLOAD_TTL_SECS`. -/
def uploadTtlSecs : ℤ := 24 * 3600

/-- `create_upload_session`, `create_snapshot_upload_session`. -/
def createUploadSession (now : Timestamp) (id repo : Uuid) (target : UploadTarget) :
    Effect Catalog SqlError Uuid := do
  let db ← get
  if (db.repositories.get? repo).isNone then throw .foreignKeyViolation
  if (db.uploadSessions.get? id).isSome then throw .uniqueViolation
  set { db with
    uploadSessions :=
      db.uploadSessions.insertNew id ⟨repo, target, .open, now + toTimestamp uploadTtlSecs⟩ }
  return id

/-- `upload_init`: the session, and the limit of a part. -/
def uploadInit (server : UploadServer) (id repo : Uuid) (target : UploadTarget) :
    Script (UploadStore ι) AppError (Uuid × ℕ) := do
  let id ← sql fun now => createUploadSession now id repo target
  return (id, server.maxUploadBytes)

/-- `upload_status`: the numbers of the parts. -/
def uploadStatus (uploadId repo : Uuid) : Script (UploadStore ι) AppError (List ℤ) := do
  let session ← ret (← select fun db =>
    (db.uploadSessions.get? uploadId).elim (.error .notFound) .ok)
  if session.repoId ≠ repo then fail .forbidden
  else return (← select (·.uploadPartsOf uploadId)).map (·.1)

/-- The `PUT` of a part: the path reads an `i32`, and the body is within the limit. -/
def putPart (server : UploadServer) (uploadId repo : Uuid) (n : ℤ) (body : List UInt8) :
    Script (UploadStore ι) AppError UploadAnswer :=
  if 2 ^ 31 ≤ n then fail (.badRequest "Cannot parse `n` to a `i32`")
  else if body.length > server.maxUploadBytes then fail .payloadTooLarge
  else uploadPart server.toUploadEnv uploadId repo n body

/-- `publish_single`: the whole body in one request, if it is within the limit of the route. -/
def publishSingle (server : UploadServer) (repo : Uuid) (vendor name version : String)
    (requested : Option Visibility) (packageId : Uuid) (nowUnix : ℤ) (body : List UInt8) :
    Script (UploadStore ι) AppError PublishOutcome :=
  if body.length > server.maxUploadBytes then fail .payloadTooLarge
  else do
    let archived ← ret (server.archiveTargz body (vendor ++ "/" ++ name))
    let blob ← putObject server.toUploadEnv archived.zip
    .stmt
      (fun s => { s with db := (exec (persist server.versions (call s.now archived blob)) s.db).2 })
      fun s => .done (exec (persist server.versions (call s.now archived blob)) s.db).1
where
  /-- The call of `persist`. -/
  call (now : Timestamp) (archived : ArchivedUpload) (blob : Sha256) : PublishCall := {
    repo, vendor, name, version, requested, nowUnix
    prepared := ⟨blob, sizeOf archived.zip, archived.composerJson, archived.distShasum⟩
    draw := ⟨now, packageId⟩ }

/-! ## The client -/

/-- `body.chunks(n)`. -/
def slices (n : ℕ) : List UInt8 → List (List UInt8)
  | [] => []
  | b :: rest => (b :: rest.take (n - 1)) :: slices n (rest.drop (n - 1))
termination_by body => body.length
decreasing_by
  rw [List.length_drop, List.length_cons]
  omega

/-- An upload, with what the server draws for it. -/
structure ClientUpload where
  repo : Uuid
  target : UploadTarget
  body : List UInt8
  /-- `--part-size`. -/
  partSize : ℕ
  uploadId : Uuid
  packageId : Uuid
  snapshotId : Uuid
  nowUnix : ℤ

namespace ClientUpload

variable (server : UploadServer) (c : ClientUpload)

/-- How long a slice is: what is asked for, but no longer than the server takes, and no less than
a byte. -/
def chunk (limit : ℕ) : ℕ := max (min c.partSize limit) 1

/-- Send the slices under the numbers after `n`, but for those that are there; the number of the
last. -/
def sendParts (uploadId : Uuid) (existing : List ℤ) (n : ℤ) :
    List (List UInt8) → Script (UploadStore ι) AppError ℤ
  | [] => return n
  | slice :: rest =>
    if n + 1 ∈ existing then sendParts uploadId existing (n + 1) rest
    else do
      let _ ← putPart server uploadId c.repo (n + 1) slice
      sendParts uploadId existing (n + 1) rest

/-- The request that completes the upload. -/
def completion (uploadId : Uuid) (parts : ℤ) : CompleteRequest where
  uploadId := uploadId
  repo := c.repo
  parts := parts
  sha256 := hex32 (server.sha256 c.body)
  packageId := c.packageId
  snapshotId := c.snapshotId
  nowUnix := c.nowUnix

/-- `upload_chunked`: it stops at the first request that fails. -/
def uploadChunked [DecidableEq ι] (i : ι) : Script (UploadStore ι) AppError UploadAnswer := do
  let (uploadId, limit) ← uploadInit server c.uploadId c.repo c.target
  let existing ← uploadStatus uploadId c.repo
  let parts ← c.sendParts server uploadId existing 0 (slices (c.chunk limit) c.body)
  uploadComplete server.toUploadEnv i (c.completion server uploadId parts)

end ClientUpload

/-! ## Slices -/

theorem flatten_slices (n : ℕ) (body : List UInt8) : (slices n body).flatten = body := by
  induction body using slices.induct n with
  | case1 => rw [slices, List.flatten_nil]
  | case2 b rest ih =>
    rw [slices, List.flatten_cons, ih, List.cons_append, List.take_append_drop]

theorem length_le_of_mem_slices {n : ℕ} (hn : 0 < n) {body slice : List UInt8}
    (h : slice ∈ slices n body) : slice.length ≤ n := by
  induction body using slices.induct n with
  | case1 =>
    rw [slices] at h
    exact absurd h List.not_mem_nil
  | case2 b rest ih =>
    rw [slices, List.mem_cons] at h
    obtain rfl | h := h
    · rw [List.length_cons, List.length_take]
      omega
    · exact ih h

/-! ## What sending leaves -/

namespace ClientUpload

/-- The slices as parts under the numbers after `n`. -/
def partsAfter (n : ℤ) : List (List UInt8) → List UploadEvent
  | [] => []
  | slice :: rest => .part (n + 1) slice :: partsAfter (n + 1) rest

/-- Every part that is sent carries a slice. -/
theorem mem_of_mem_partsAfter {n k : ℤ} {parts : List (List UInt8)} {slice : List UInt8}
    (h : .part k slice ∈ partsAfter n parts) : slice ∈ parts := by
  induction parts generalizing n with
  | nil => exact absurd h List.not_mem_nil
  | cons slice' rest ih =>
    rw [partsAfter, List.mem_cons] at h
    obtain h | h := h
    · cases h
      exact List.mem_cons_self
    · exact List.mem_cons_of_mem slice' (ih h)

/-- Nothing else is recorded. -/
theorem recordChunk_partsAfter {n : ℤ} (hn : 0 ≤ n) (parts : List (List UInt8))
    (staged : ℤ → Option (List UInt8)) (k : ℤ) :
    Run.final recordChunk staged (partsAfter n parts) k =
      if n < k ∧ k ≤ n + parts.length then parts[(k - n - 1).toNat]? else staged k := by
  induction parts generalizing n staged with
  | nil =>
    have hout : ¬ (n < k ∧ k ≤ n + ([] : List (List UInt8)).length) := by
      rw [List.length_nil]
      omega
    rw [partsAfter, Run.final_nil, if_neg hout]
  | cons slice rest ih =>
    have hone : ¬ n + 1 < 1 := by omega
    rw [partsAfter, Run.final_cons, ih (by omega), recordChunk, if_neg hone, Function.update_apply]
    rw [List.length_cons]
    push_cast
    by_cases hk : k = n + 1
    · have hin : n < k ∧ k ≤ n + (rest.length + 1) := by omega
      have hout : ¬ (n + 1 < k ∧ k ≤ n + 1 + rest.length) := by omega
      have hzero : (k - n - 1).toNat = 0 := by omega
      rw [if_pos hin, if_neg hout, if_pos hk, hzero, List.getElem?_cons_zero]
    · rw [if_neg hk]
      by_cases hin : n < k ∧ k ≤ n + (rest.length + 1)
      · have hin' : n + 1 < k ∧ k ≤ n + 1 + rest.length := by omega
        have hnext : (k - n - 1).toNat = (k - (n + 1) - 1).toNat + 1 := by omega
        rw [if_pos hin, if_pos hin', hnext, List.getElem?_cons_succ]
      · have hout : ¬ (n + 1 < k ∧ k ≤ n + 1 + rest.length) := by omega
        rw [if_neg hin, if_neg hout]

/-- Staging touches the sessions, their parts and the blobs. -/
structure OnlyStages (s s' : UploadStore ι) : Prop where
  catalog : { s'.db with
    uploadSessions := s.db.uploadSessions, uploadParts := s.db.uploadParts, blobs := s.db.blobs } = s.db
  objects : ∀ id, s.objects.holds id → s'.objects.holds id
  now : s'.now = s.now

variable {server : UploadServer} {c : ClientUpload} {uploadId : Uuid} {session : UploadSession}
  {s s' s'' : UploadStore ι}

theorem OnlyStages.refl (s : UploadStore ι) : OnlyStages s s := ⟨rfl, fun _ h => h, rfl⟩

theorem OnlyStages.trans (h : OnlyStages s s') (h' : OnlyStages s' s'') : OnlyStages s s'' where
  catalog := by
    rw [← h.catalog, ← h'.catalog]
  objects id hid := h'.objects id (h.objects id hid)
  now := h'.now.trans h.now

/-- A part that is accepted. -/
theorem runAlone_putPart (server : UploadServer) (h : s.db.openSession uploadId c.repo = .ok session)
    {n : ℤ} (hn : 1 ≤ n)
    (hpath : n < 2 ^ 31) {slice : List UInt8} (hlimit : slice.length ≤ server.maxUploadBytes) :
    runAlone (putPart server uploadId c.repo n slice) s
      = (.ok .noContent, UploadEvent.apply server.toUploadEnv uploadId c.repo s (.part n slice)) := by
  have hanswer : (runAlone (uploadPart server.toUploadEnv uploadId c.repo n slice) s).1
      = .ok .noContent := by
    have hrow := (Catalog.openSession_eq_ok_iff.1 h).1
    unfold uploadPart
    rw [runAlone_openSession_bind h, if_neg (by omega)]
    simp only [runAlone_bind]
    unfold putObject sql
    simp only [runAlone, andThen]
    unfold upsertBlob recordUploadPart
    simp only [exec_modify, exec_bind, exec_get, andThen, UploadStore.accept, Except.mapError]
    rw [if_neg (by rw [hrow]; exact Bool.false_ne_true)]
    rfl
  unfold putPart UploadEvent.apply
  rw [if_neg (by omega), if_neg (by omega)]
  exact Prod.ext hanswer rfl

/-- A part of an open session stages its bytes, and nothing else. -/
theorem onlyStages_part (server : UploadServer)
    (h : s.db.openSession uploadId c.repo = .ok session) {n : ℤ} (hn : 1 ≤ n)
    (slice : List UInt8) :
    OnlyStages s (UploadEvent.apply server.toUploadEnv uploadId c.repo s (.part n slice)) ∧
      (UploadEvent.apply server.toUploadEnv uploadId c.repo s (.part n slice)).objects.holds
        (server.sha256 slice) := by
  unfold UploadEvent.apply
  dsimp only
  rw [runAlone_uploadPart h, if_neg (by omega)]
  refine ⟨⟨rfl, fun id hid => ?_, rfl⟩, ?_⟩
  · exact ObjectStore.holds_put_of_holds hid _ _
  · exact ObjectStore.holds_put _ _ _

/-- Alone, the slices arrive one after the other, and are stored. -/
theorem runAlone_sendParts (server : UploadServer) {known : Set (List UInt8)} {chunks : ℤ → Option (List UInt8)}
    (h : StagedAs server.toUploadEnv uploadId c.repo session known s chunks) {n : ℤ} (hn : 0 ≤ n)
    {parts : List (List UInt8)} (hknown : ∀ slice ∈ parts, slice ∈ known)
    (hpath : n + parts.length < 2 ^ 31) (hlimit : ∀ slice ∈ parts, slice.length ≤ server.maxUploadBytes) :
    let sent := Run.final (UploadEvent.apply server.toUploadEnv uploadId c.repo) s (partsAfter n parts)
    runAlone (c.sendParts server uploadId [] n parts) s = (.ok (n + parts.length), sent) ∧
      OnlyStages s sent ∧ ∀ slice ∈ parts, sent.objects.holds (server.sha256 slice) := by
  induction parts generalizing n s chunks with
  | nil =>
    refine ⟨?_, .refl s, fun slice hslice => absurd hslice List.not_mem_nil⟩
    rw [sendParts, partsAfter, Run.final_nil, List.length_nil, Nat.cast_zero, add_zero]
    rfl
  | cons slice rest ih =>
    rw [List.length_cons] at hpath
    push_cast at hpath
    have hstep := runAlone_putPart server h.opened (by omega : 1 ≤ n + 1) (by omega)
      (hlimit slice List.mem_cons_self)
    have hnext := h.apply (.part (n + 1) slice) fun m body hpart => by
      cases hpart
      exact hknown slice List.mem_cons_self
    obtain ⟨honly, hholds⟩ := onlyStages_part server h.opened
      (by omega : 1 ≤ n + 1) slice
    obtain ⟨hrun, honly', hholds'⟩ := ih (n := n + 1) hnext (by omega)
      (fun x hx => hknown x (List.mem_cons_of_mem slice hx)) (by omega)
      (fun x hx => hlimit x (List.mem_cons_of_mem slice hx))
    refine ⟨?_, honly.trans honly', fun x hx => ?_⟩
    · rw [sendParts, if_neg List.not_mem_nil, runAlone_bind, hstep]
      simp only [andThen]
      rw [hrun, partsAfter, Run.final_cons, List.length_cons]
      push_cast
      rw [add_assoc, add_comm (1 : ℤ)]
    · obtain rfl | hx := List.mem_cons.1 hx
      · exact honly'.objects _ hholds
      · exact hholds' x hx

/-! ## The whole upload -/

/-- What an upload needs of the server's state: the repository, a session id that is new, and
objects under their digests. -/
structure Admissible (server : UploadServer) (c : ClientUpload) (s : UploadStore ι) : Prop where
  repo : (s.db.repositories.get? c.repo).isSome
  session : s.db.uploadSessions.get? c.uploadId = none
  parts : ∀ n, s.db.uploadParts.get? (c.uploadId, n) = none
  objects : ∀ id bytes, s.objects.get? id = some bytes → server.sha256 bytes = id
  limit : 0 < server.maxUploadBytes
  count : ((slices (c.chunk server.maxUploadBytes) c.body).length : ℤ) < 2 ^ 31
  fits : c.body.length ≤ c.target.cap server.toUploadEnv

/-- The bytes that occur in an upload. -/
def bytesOf (server : UploadServer) (c : ClientUpload) (s : UploadStore ι) : Set (List UInt8) :=
  {bytes | (∃ id, s.objects.get? id = some bytes) ∨
    bytes ∈ slices (c.chunk server.maxUploadBytes) c.body}

/-- The session an upload opens. -/
def opens (c : ClientUpload) (now : Timestamp) : UploadSession :=
  ⟨c.repo, c.target, .open, now + toTimestamp uploadTtlSecs⟩

/-- The state with the session. -/
def opened (c : ClientUpload) (s : UploadStore ι) : UploadStore ι :=
  { s with db := { s.db with
      uploadSessions := s.db.uploadSessions.insertNew c.uploadId (c.opens s.now) } }

/-- An admissible upload is opened under its id. -/
theorem runAlone_uploadInit (h : Admissible server c s) :
    runAlone (uploadInit server c.uploadId c.repo c.target) s
      = (.ok (c.uploadId, server.maxUploadBytes), c.opened s) := by
  have hrepo : (s.db.repositories.get? c.repo).isNone = false := Option.isNone_eq_false_iff.2 h.repo
  unfold uploadInit sql createUploadSession
  rw [runAlone_bind]
  simp only [runAlone, exec_bind, exec_get, andThen, hrepo, h.session, Option.isSome_none,
    Bool.false_eq_true, if_false]
  rfl

theorem openSession_opened (h : Admissible server c s) :
    (c.opened s).db.openSession c.uploadId c.repo = .ok (c.opens s.now) := by
  have hget : (c.opened s).db.uploadSessions.get? c.uploadId = some (c.opens s.now) := by
    unfold opened
    rw [Table.get?_insertNew, if_pos rfl, h.session]
    rfl
  have hrepo : (c.opens s.now).repoId = c.repo := rfl
  have hstatus : (c.opens s.now).status = .open := rfl
  unfold Catalog.openSession
  rw [hget]
  dsimp only
  rw [if_neg (not_not.2 hrepo), if_neg (not_not.2 hstatus)]

theorem stagedAs_opened (h : Admissible server c s) :
    StagedAs server.toUploadEnv c.uploadId c.repo (c.opens s.now) (bytesOf server c s) (c.opened s)
      fun _ => none where
  opened := openSession_opened h
  parts n := h.parts n
  chunks _ _ hchunk := absurd hchunk (by simp)
  objects id bytes hbytes := ⟨.inl ⟨id, hbytes⟩, h.objects id bytes hbytes⟩

theorem runAlone_uploadStatus (h : Admissible server c s) :
    runAlone (uploadStatus c.uploadId c.repo) (c.opened s) = (.ok [], c.opened s) := by
  have hrow := (Catalog.openSession_eq_ok_iff.1 (openSession_opened h)).1
  have hnone : ∀ k, k ∉ ((c.opened s).db.uploadPartsOf c.uploadId).map Prod.fst := by
    intro k hk
    rw [(stagedAs_opened h).mem_numbers] at hk
    exact Bool.false_ne_true hk
  have hempty := List.eq_nil_iff_forall_not_mem.2 hnone
  have hrepo : (c.opens s.now).repoId = c.repo := rfl
  unfold uploadStatus
  rw [runAlone_select_bind, hrow]
  show runAlone (if _ then _ else _) _ = _
  rw [if_neg (not_not.2 hrepo)]
  exact congrArg (fun l => (Except.ok l, c.opened s)) hempty

/-- The state when all slices are sent. -/
def sent (server : UploadServer) (c : ClientUpload) (s : UploadStore ι) : UploadStore ι :=
  Run.final (UploadEvent.apply server.toUploadEnv c.uploadId c.repo) (c.opened s)
    (partsAfter 0 (slices (c.chunk server.maxUploadBytes) c.body))

theorem chunk_pos (c : ClientUpload) (limit : ℕ) : 0 < c.chunk limit := by
  unfold chunk
  omega

theorem chunk_le (c : ClientUpload) {limit : ℕ} (h : 0 < limit) : c.chunk limit ≤ limit := by
  unfold chunk
  omega

/-- The slices are what the completion declares. -/
theorem wellDeclared_sent (h : Admissible server c s)
    (hholds : ∀ slice ∈ slices (c.chunk server.maxUploadBytes) c.body,
      (sent server c s).objects.holds (server.sha256 slice)) :
    let parts := slices (c.chunk server.maxUploadBytes) c.body
    let chunks := Run.final recordChunk (fun _ => none) (partsAfter 0 parts)
    WellDeclared server.toUploadEnv (c.opens s.now) (sent server c s) chunks parts.length
        (server.sha256 c.body) ∧
      joinedChunks chunks parts.length = c.body := by
  intro parts chunks
  have hchunks : ∀ k, chunks k = if 0 < k ∧ k ≤ parts.length then parts[(k - 1).toNat]? else none := by
    intro k
    rw [show chunks k = _ from recordChunk_partsAfter le_rfl parts _ k, zero_add, sub_zero]
  have hjoined : joinedChunks chunks parts.length = c.body := by
    unfold joinedChunks
    rw [← flatten_slices (c.chunk server.maxUploadBytes) c.body]
    congr 1
    apply List.ext_getElem
    · simp [parts]
    · intro k hk hk'
      rw [List.getElem_map, List.getElem_range, hchunks, if_pos (by simp [parts] at hk hk' ⊢; omega)]
      simp [parts, hk']
  refine ⟨⟨fun k => ?_, fun k chunk hk => ?_, ?_, ?_⟩, hjoined⟩
  · rw [hchunks]
    by_cases hk : 0 < k ∧ k ≤ parts.length
    · rw [if_pos hk, List.getElem?_eq_getElem (by omega)]
      exact iff_of_true rfl ⟨by omega, hk.2⟩
    · rw [if_neg hk]
      exact iff_of_false Bool.false_ne_true fun h => hk ⟨by omega, h.2⟩
  · rw [hchunks] at hk
    split_ifs at hk
    exact hholds chunk (List.mem_of_getElem? hk)
  · rw [hjoined]
    exact h.fits
  · rw [hjoined]

/-- **Alone, the client delivers its body**: everything before the ingest only stages, and what is
ingested is the body. -/
theorem runAlone_uploadChunked [DecidableEq ι] (i : ι) (h : Admissible server c s)
    (hdigests : Set.InjOn server.sha256 (bytesOf server c s)) :
    ∃ staged r, OnlyStages s staged ∧ r = c.completion server c.uploadId
        (slices (c.chunk server.maxUploadBytes) c.body).length ∧
      runAlone (c.uploadChunked server i) s
        = runAlone (ingestUpload server.toUploadEnv i r (c.opens s.now) c.body) staged := by
  have hstaged := stagedAs_opened h
  obtain ⟨hrun, honly, hholds⟩ := runAlone_sendParts server hstaged le_rfl
    (fun (slice : List UInt8) (hslice : slice ∈ slices (c.chunk server.maxUploadBytes) c.body) =>
      .inr hslice)
    (by rw [zero_add]; exact h.count)
    (fun slice hslice => (length_le_of_mem_slices (c.chunk_pos _) hslice).trans (c.chunk_le h.limit))
  obtain ⟨hwell, hjoined⟩ := wellDeclared_sent h hholds
  rw [zero_add] at hrun
  set parts := slices (c.chunk server.maxUploadBytes) c.body
  set r := c.completion server c.uploadId parts.length
  -- the parts are staged as they were sent, so that the completion assembles them
  have hend : StagedAs server.toUploadEnv r.uploadId r.repo (c.opens s.now) (bytesOf server c s)
      (sent server c s) (Run.final recordChunk (fun _ => none) (partsAfter 0 parts)) :=
    Run.final_lockstep (StagedAs server.toUploadEnv c.uploadId c.repo (c.opens s.now) (bytesOf server c s))
      (fun e he s c h => h.apply e fun n body hpart => .inr (mem_of_mem_partsAfter (hpart ▸ he))) hstaged
  have hassembled : runAlone (assembleUpload server.toUploadEnv r) (sent server c s)
      = (.ok (c.opens s.now, c.body), (sent server c s).accept c.uploadId) := by
    rcases hend.assembleUpload_cases hdigests (parseHex32_hex32 _) with ⟨-, hassembled⟩ | ⟨hnot, -⟩
    · rw [hassembled, show joinedChunks _ r.parts = c.body from hjoined]
      rfl
    · exact absurd hwell hnot
  refine ⟨(sent server c s).accept c.uploadId, r, ?_, rfl, ?_⟩
  · have hopened : OnlyStages s (c.opened s) := ⟨rfl, fun _ hid => hid, rfl⟩
    have haccepted : OnlyStages (sent server c s) ((sent server c s).accept c.uploadId) :=
      ⟨rfl, fun _ hid => hid, rfl⟩
    exact (hopened.trans honly).trans haccepted
  · unfold uploadChunked
    rw [runAlone_bind, runAlone_uploadInit h]
    simp only [andThen]
    rw [runAlone_bind, runAlone_uploadStatus h]
    simp only [andThen]
    rw [runAlone_bind, hrun]
    simp only [andThen]
    rw [uploadComplete_eq, runAlone_bind]
    exact congrArg (andThen · fun x s' =>
      runAlone (ingestUpload server.toUploadEnv i r x.1 x.2) s') hassembled

/-! ## The same as one request -/

/-- One request with the whole body is refused over the limit of the route, and otherwise is what it
would be at a server that takes the body. -/
theorem runAlone_publishSingle (server : UploadServer) (repo : Uuid) (vendor name version : String)
    (requested : Option Visibility) (packageId : Uuid) (nowUnix : ℤ) (body : List UInt8)
    (s : UploadStore ι) :
    runAlone (publishSingle server repo vendor name version requested packageId nowUnix body) s =
      if body.length ≤ server.maxUploadBytes then
        runAlone (publishSingle (server.taking body) repo vendor name version requested packageId
          nowUnix body) s
      else (.error .payloadTooLarge, s) := by
  by_cases hlimit : body.length ≤ server.maxUploadBytes
  · rw [if_pos hlimit]
    unfold UploadServer.taking
    rw [max_eq_left hlimit]
  · rw [if_neg hlimit]
    unfold publishSingle
    rw [if_pos (Nat.lt_of_not_le hlimit)]
    rfl

/-- Ingesting a package is what one request with the whole body does. -/
theorem runAlone_archiveInput (server : UploadServer) (vendor name version : String) (requested : Option Visibility)
    (r : CompleteRequest) (input : List UInt8) (s : UploadStore ι) :
    let single := runAlone (publishSingle (server.taking input) r.repo vendor name version requested
      r.packageId r.nowUnix input) s
    (runAlone (archiveInput server.toUploadEnv r vendor name version requested input) s).1
        = single.1.map .published ∧
      (runAlone (archiveInput server.toUploadEnv r vendor name version requested input) s).2.db
        = single.2.db := by
  intro single
  subst single
  have hlimit : ¬ input.length > (server.taking input).maxUploadBytes :=
    (le_max_right server.maxUploadBytes input.length).not_gt
  have hsame : (server.taking input).toUploadEnv = server.toUploadEnv := rfl
  cases harchived : server.archiveTargz input (vendor ++ "/" ++ name) with
  | error e =>
    unfold archiveInput publishSingle
    rw [if_neg hlimit, hsame, harchived]
    exact ⟨rfl, rfl⟩
  | ok archived =>
    -- the zip is put under its digest on both ways
    let stored : UploadStore ι :=
      { s with objects := s.objects.put (server.sha256 archived.zip) archived.zip }
    let published := publishSingle.call r.repo vendor name version requested r.packageId r.nowUnix
      s.now archived (server.sha256 archived.zip)
    obtain ⟨hanswer, hdb, -⟩ := runAlone_persistStatements server.toUploadEnv r.uploadId published
      stored rfl
    have hstatements : runAlone (archiveInput server.toUploadEnv r vendor name version requested input) s
        = andThen (runAlone (persistStatements server.toUploadEnv r.uploadId published) stored)
          fun outcome s' => (.ok (.published outcome), s') := by
      unfold archiveInput
      rw [runAlone_bind, harchived]
      simp only [andThen, ret, runAlone]
      rw [runAlone_bind]
      simp only [andThen, putObject, runAlone]
      rw [runAlone_bind]
      rfl
    have hsingle : runAlone (publishSingle (server.taking input) r.repo vendor name version requested
        r.packageId r.nowUnix input) s = ((exec (persist server.versions published) s.db).1,
          { stored with db := (exec (persist server.versions published) s.db).2 }) := by
      unfold publishSingle
      rw [if_neg hlimit, hsame, runAlone_bind, harchived]
      rfl
    rw [hstatements, hsingle]
    unfold andThen
    rw [hanswer]
    cases (exec (persist server.versions published) s.db).1 with
    | error e => exact ⟨rfl, hdb⟩
    | ok outcome => exact ⟨rfl, hdb⟩

end ClientUpload

/-- **A chunked publish is the publish of its body.**  With nobody else at work, the client that
sends a package in slices is answered as one request with the whole body would be, were the server
to take it, and leaves the catalog as that request does, from a state in which staging touched
nothing but the sessions, their parts and the blobs; the session is then completed, unless the
publish is refused.  The server itself does take the body, unless it is over the limit of one
request: then one request is refused and writes nothing. -/
theorem chunked_is_single [DecidableEq ι] (server : UploadServer) (c : ClientUpload) (i : ι)
    {s : UploadStore ι} {vendor name version : String} {requested : Option Visibility}
    (htarget : c.target = .package vendor name version requested) (h : c.Admissible server s)
    (hdigests : Set.InjOn server.sha256 (c.bytesOf server s)) :
    ∃ staged, ClientUpload.OnlyStages s staged ∧
      let single := runAlone (publishSingle (server.taking c.body) c.repo vendor name version
        requested c.packageId c.nowUnix c.body) staged
      (runAlone (c.uploadChunked server i) s).1 = single.1.map .published ∧
        (runAlone (c.uploadChunked server i) s).2.db =
          (if single.1.isOk then single.2.db.setUploadStatus c.uploadId .completed
          else single.2.db) ∧
        runAlone (publishSingle server c.repo vendor name version requested c.packageId c.nowUnix
            c.body) staged =
          if c.body.length ≤ server.maxUploadBytes then single
          else (.error .payloadTooLarge, staged) := by
  obtain ⟨staged, r, honly, rfl, hrun⟩ := c.runAlone_uploadChunked i h hdigests
  refine ⟨staged, honly, ?_⟩
  intro single
  rw [hrun, ← and_assoc]
  refine ⟨?_, ClientUpload.runAlone_publishSingle server c.repo vendor name version requested
    c.packageId c.nowUnix c.body staged⟩
  set r := c.completion server c.uploadId (slices (c.chunk server.maxUploadBytes) c.body).length
  obtain ⟨hanswer, hdb⟩ := ClientUpload.runAlone_archiveInput server vendor name version
    requested r c.body staged
  have hingest : runAlone (ingestUpload server.toUploadEnv i r (c.opens s.now) c.body) staged
      = andThen (runAlone (archiveInput server.toUploadEnv r vendor name version requested c.body)
          staged) fun response s' => runAlone (do markCompleted i c.uploadId; return response) s' := by
    unfold ingestUpload ClientUpload.opens
    rw [htarget, ← runAlone_bind]
    rfl
  have hsingle : single = runAlone (publishSingle (server.taking c.body) r.repo vendor name version
    requested r.packageId r.nowUnix c.body) staged := rfl
  rw [hingest]
  unfold andThen
  rw [hanswer]
  rw [← hsingle] at hdb ⊢
  cases single.1 with
  | error e => exact ⟨rfl, hdb⟩
  | ok outcome =>
    -- completing writes the status on what the publish left
    exact ⟨rfl, congrArg (·.setUploadStatus c.uploadId .completed) hdb⟩

namespace Parcels

/-- It takes a byte at a time, and archives what it gets. -/
def server : UploadServer where
  toUploadEnv := { env with
    archiveTargz := fun bytes name => .ok ⟨bytes, .object [("name", .string name)], ""⟩
    versions :=
      ⟨fun v => if v = "1.0.0" then some ⟨true, "1.0.0.0", "stable"⟩ else none, fun _ => none,
        fun _ => ""⟩ }
  maxUploadBytes := 1

/-- Two bytes as version 1.0.0 of a package that is new. -/
def client : ClientUpload where
  repo := 1
  target := .package "acme" "widgets" "1.0.0" none
  body := [97, 98]
  partSize := 8
  uploadId := 7
  packageId := 2
  snapshotId := 3
  nowUnix := 0

def shop : UploadStore Unit where
  db := { Catalog.empty with
    repositories := .single 1 ⟨1, "main", .auto, 0, true, false, none, none, none⟩ }
  objects := ∅
  now := 0
  finishing := fun _ => none
  log := []

/-- The two bytes of the client are two slices. -/
theorem slices_client : slices (client.chunk server.maxUploadBytes) client.body = [[97], [98]] := by
  have hchunk : client.chunk server.maxUploadBytes = 1 := rfl
  have hbody : client.body = [97, 98] := rfl
  rw [hchunk, hbody, slices, List.take_zero, List.drop_zero, slices, List.take_zero, List.drop_zero,
    slices]

/-- Two requests of one byte publish what one request of two bytes would, which is too large. -/
theorem chunked_is_single_client : ∃ staged, ClientUpload.OnlyStages shop staged ∧
    (runAlone (client.uploadChunked server ()) shop).1 =
      (runAlone (publishSingle (server.taking [97, 98]) 1 "acme" "widgets" "1.0.0" none 2 0 [97, 98])
        staged).1.map .published ∧
    runAlone (publishSingle server 1 "acme" "widgets" "1.0.0" none 2 0 [97, 98]) staged =
      (.error .payloadTooLarge, staged) := by
  have hadmissible : client.Admissible server shop := {
    repo := rfl
    session := rfl
    parts := fun _ => rfl
    objects := fun id bytes h => absurd (h : none = some bytes) (Option.some_ne_none bytes).symm
    limit := by decide
    count := by
      rw [slices_client]
      decide
    fits := by decide }
  have hdigests : Set.InjOn server.sha256 (client.bytesOf server shop) := by
    have hbytes : ∀ bytes ∈ client.bytesOf server shop, bytes = [97] ∨ bytes = [98] := by
      rintro bytes (⟨id, h⟩ | h)
      · exact absurd (h : none = some bytes) (Option.some_ne_none bytes).symm
      · rw [slices_client] at h
        simpa using h
    intro x hx y hy hxy
    rcases hbytes x hx with rfl | rfl <;> rcases hbytes y hy with rfl | rfl <;>
      first | rfl | exact absurd hxy (by decide)
  obtain ⟨staged, honly, hanswer, -, hsingle⟩ :=
    chunked_is_single server client () rfl hadmissible hdigests
  exact ⟨staged, honly, hanswer, hsingle⟩

end Parcels

end Sconce
