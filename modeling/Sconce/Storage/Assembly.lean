/-
# Assembling a chunked upload

A completion reads the staged parts, checks that they are 1 to n, fetches their chunks in order
and checks the digest of the whole: `assembleUpload`.  What it hands on is ingested:
`ingestUpload`.  Together they are `uploadComplete` (`uploadComplete_eq`).

Whatever parts are sent to an open session before, in any order and over each other, and whatever
the collector removes in between: the bytes ingested are those of the last chunk recorded under
each number, exactly when the completion declares them rightly (`chunked_upload_assembles`).
-/
import Sconce.Lib.Comparator
import Sconce.Lib.Run
import Sconce.Storage.Uploads

namespace Sconce

open Effect Script

variable {ι : Type}

/-! ## A completion in two halves -/

section Halves

variable (env : UploadEnv)

/-- The cap of what a session uploads. -/
def UploadTarget.cap : UploadTarget → ℕ
  | .package .. => env.maxPackageBytes
  | .snapshot .. => env.maxSnapshotBytes

/-- `upload_complete` up to the bytes it ingests. -/
def assembleUpload (r : CompleteRequest) :
    Script (UploadStore ι) AppError (UploadSession × List UInt8) := do
  let session ← openSession r.uploadId r.repo
  let parts ← select (·.uploadPartsOf r.uploadId)
  if parts.length ≠ r.parts.toNat then
    fail (.badRequest ("expected " ++ toString r.parts ++ " parts, " ++ toString parts.length
      ++ " are staged"))
  else if !contiguous parts then
    fail (.badRequest "staged parts are not contiguous from 1")
  else
    let expected ← ret ((parseHex32 r.sha256).elim
      (.error (.badRequest "sha256 must be 64 hex chars")) .ok)
    if (parts.map fun p => p.2.sizeBytes.toNat).sum > session.target.cap env then
      fail .payloadTooLarge
    else
      let input ← assemble env (parts.map fun p => p.2.chunkSha256) expected (session.target.cap env)
      return (session, input)

/-- `finish_upload` on the assembled bytes. -/
def storeSnapshot [DecidableEq ι] (i : ι) (r : CompleteRequest) (repo : Uuid) (environment : String)
    (profile : Option String) (input : List UInt8) : Script (UploadStore ι) AppError UploadAnswer := do
  let profile := profile.getD "full"
  let blob ← putObject env input
  sql fun now => upsertBlob now blob (sizeOf input)
  let id ← insertSnapshot i r.uploadId r.snapshotId repo environment profile blob (sizeOf input)
  sql fun _ => advanceLatest repo environment profile id
  return .snapshotCreated environment profile blob

/-- The package branch on the assembled bytes. -/
def archiveInput (r : CompleteRequest) (vendor name version : String)
    (requested : Option Visibility) (input : List UInt8) :
    Script (UploadStore ι) AppError UploadAnswer := do
  let archived ← ret (env.archiveTargz input (vendor ++ "/" ++ name))
  let blob ← putObject env archived.zip
  let outcome ← persistStatements env r.uploadId {
    repo := r.repo, vendor, name, version, requested
    prepared := ⟨blob, sizeOf archived.zip, archived.composerJson, archived.distShasum⟩
    nowUnix := r.nowUnix, draw := ⟨0, r.packageId⟩ }
  return .published outcome

/-- What `upload_complete` does with the assembled bytes. -/
def ingestUpload [DecidableEq ι] (i : ι) (r : CompleteRequest) (session : UploadSession)
    (input : List UInt8) : Script (UploadStore ι) AppError UploadAnswer := do
  let response ← match session.target with
    | .snapshot environment profile =>
      storeSnapshot env i r session.repoId environment profile input
    | .package vendor name version requested =>
      archiveInput env r vendor name version requested input
  markCompleted i r.uploadId
  return response

/-- What follows a choice follows each of its branches. -/
theorem ite_bind {σ ε α β : Type} (p : Prop) [Decidable p] (m m' : Script σ ε α)
    (k : α → Script σ ε β) : (if p then m else m') >>= k = if p then m >>= k else m' >>= k := by
  split_ifs <;> rfl

/-- A dump over the limit is refused before its parts are read. -/
theorem finishUpload_eq [DecidableEq ι] (i : ι) (r : CompleteRequest) (repo : Uuid)
    (environment : String) (profile : Option String) (ids : List Sha256) (expected : Sha256)
    (total : ℕ) :
    (finishUpload env i r repo environment profile ids expected total :
        Script (UploadStore ι) AppError UploadAnswer) =
      if total > env.maxSnapshotBytes then fail .payloadTooLarge
      else assemble env ids expected env.maxSnapshotBytes >>=
        storeSnapshot env i r repo environment profile := rfl

/-- A package over the limit is refused before its parts are read. -/
theorem ingestPackage_eq (r : CompleteRequest) (vendor name version : String)
    (requested : Option Visibility) (ids : List Sha256) (expected : Sha256) (total : ℕ) :
    (ingestPackage env r vendor name version requested ids expected total :
        Script (UploadStore ι) AppError UploadAnswer) =
      if total > env.maxPackageBytes then fail .payloadTooLarge
      else assemble env ids expected env.maxPackageBytes >>=
        archiveInput env r vendor name version requested := rfl

/-- A completion assembles, and then ingests. -/
theorem uploadComplete_eq [DecidableEq ι] (i : ι) (r : CompleteRequest) :
    (uploadComplete env i r : Script (UploadStore ι) AppError UploadAnswer) =
      assembleUpload env r >>= fun x => ingestUpload env i r x.1 x.2 := by
  unfold uploadComplete assembleUpload completeSession
  simp only [bind_assoc, ite_bind]
  refine congrArg (openSession r.uploadId r.repo >>= ·) (funext fun session => ?_)
  refine congrArg (select (·.uploadPartsOf r.uploadId) >>= ·) (funext fun parts => ?_)
  refine if_congr Iff.rfl rfl (if_congr Iff.rfl rfl ?_)
  refine congrArg (ret _ >>= ·) (funext fun expected => ?_)
  obtain ⟨repo, target, status, expiresAt⟩ := session
  cases target with
  | snapshot environment profile =>
    simp only [finishUpload_eq, ite_bind, bind_assoc]
    exact if_congr Iff.rfl rfl rfl
  | package vendor name version requested =>
    simp only [ingestPackage_eq, ite_bind, bind_assoc]
    exact if_congr Iff.rfl rfl rfl

end Halves

/-! ## The staged parts in order -/

section Parts

variable {α : Type}

/-- Numbers in increasing order are 1 to their count exactly when they are numbered so. -/
theorem contiguous_iff (parts : List (ℤ × UploadPart)) :
    contiguous parts = true ↔
      parts.map Prod.fst = (List.range parts.length).map fun k : ℕ => (k : ℤ) + 1 := by
  unfold contiguous
  simp only [List.all_eq_true, decide_eq_true_eq, Prod.forall, List.mem_zipIdx_iff_getElem?]
  constructor
  · intro h
    refine List.ext_getElem (by simp) fun k hk _ => ?_
    rw [List.length_map] at hk
    simpa using h parts[k].1 parts[k].2 k (List.getElem?_eq_getElem hk)
  · intro h n part k hk
    obtain ⟨hlt, hget⟩ := List.getElem?_eq_some_iff.1 hk
    have hsame := congrArg (·[k]?) h
    simpa [hlt, hget] using hsame

/-- A completion that declares `n` parts accepts the numbers 1 to `n` and no others. -/
theorem numbered_iff {parts : List (ℤ × UploadPart)}
    (hsorted : (parts.map Prod.fst).Pairwise (· < ·)) (n : ℤ) :
    (parts.length = n.toNat ∧ contiguous parts = true) ↔
      ∀ k, k ∈ parts.map Prod.fst ↔ 1 ≤ k ∧ k ≤ n := by
  have hrange : ((List.range n.toNat).map fun k : ℕ => (k : ℤ) + 1).Pairwise (· < ·) := by
    rw [List.pairwise_map]
    exact List.pairwise_lt_range.imp fun h => by omega
  have hmem : ∀ k, k ∈ (List.range n.toNat).map (fun k : ℕ => (k : ℤ) + 1) ↔ 1 ≤ k ∧ k ≤ n := by
    intro k
    simp only [List.mem_map, List.mem_range]
    constructor
    · rintro ⟨j, hj, rfl⟩
      omega
    · rintro ⟨hk, hkn⟩
      exact ⟨(k - 1).toNat, by omega, by omega⟩
  rw [contiguous_iff]
  constructor
  · rintro ⟨hlength, hnumbers⟩ k
    rw [hnumbers, hlength, hmem]
  · intro h
    have hnumbers := hsorted.eq_of_mem_iff hrange fun k => (h k).trans (hmem k).symm
    have hlength : parts.length = n.toNat := by simpa using congrArg List.length hnumbers
    exact ⟨hlength, by rw [hnumbers, hlength]⟩

/-- The parts of a session are read in increasing order, each under its number. -/
theorem Catalog.mem_uploadPartsOf (db : Catalog) (uploadId : Uuid) (n : ℤ) (part : UploadPart) :
    (n, part) ∈ db.uploadPartsOf uploadId ↔ db.uploadParts.get? (uploadId, n) = some part := by
  unfold Catalog.uploadPartsOf
  rw [List.mem_map]
  constructor
  · rintro ⟨⟨⟨id, n'⟩, part'⟩, hrow, hsame⟩
    obtain ⟨rfl, rfl⟩ := Prod.mk.inj hsame
    obtain ⟨hstored, hid⟩ := List.mem_filter.1 (List.mem_mergeSort.1 hrow)
    obtain rfl : id = uploadId := of_decide_eq_true hid
    exact (Table.mem_rows_iff _ _ _).1 hstored
  · intro h
    refine ⟨((uploadId, n), part), List.mem_mergeSort.2 (List.mem_filter.2 ⟨?_, ?_⟩), rfl⟩
    · exact (Table.mem_rows_iff _ _ _).2 h
    · exact decide_eq_true rfl

/-- The parts come in the order of their numbers, each number once. -/
theorem Catalog.uploadPartsOf_sorted (db : Catalog) (uploadId : Uuid) :
    ((db.uploadPartsOf uploadId).map Prod.fst).Pairwise (· < ·) := by
  have hle : ((db.uploadParts.rows.filter fun r => r.1.1 = uploadId).mergeSort
      fun a b => decide (a.1.2 ≤ b.1.2)).Pairwise fun a b => a.1.2 ≤ b.1.2 := by
    refine pairwise_mergeSort_of ?_ ?_ _
    · exact fun _ _ _ => le_trans
    · exact fun _ _ => le_total _ _
  have hnodup : ((db.uploadParts.rows.filter fun r => r.1.1 = uploadId).mergeSort
      fun a b => decide (a.1.2 ≤ b.1.2)).Pairwise fun a b => a.1 ≠ b.1 := by
    have hrows : db.uploadParts.rows.Pairwise fun a b => a.1 ≠ b.1 :=
      List.pairwise_map.1 db.uploadParts.nodup
    exact ((hrows.filter _).perm (List.mergeSort_perm _ _).symm fun h => h.symm)
  unfold Catalog.uploadPartsOf
  rw [List.map_map, List.pairwise_map]
  refine (hle.and hnodup).imp_of_mem fun {a b} ha hb h => ?_
  have hid : ∀ {r : (Uuid × ℤ) × UploadPart}, r ∈ ((db.uploadParts.rows.filter fun r =>
      r.1.1 = uploadId).mergeSort fun a b => decide (a.1.2 ≤ b.1.2)) → r.1.1 = uploadId := by
    intro r hr
    exact of_decide_eq_true (List.mem_filter.1 (List.mem_mergeSort.1 hr)).2
  refine lt_of_le_of_ne h.1 fun hsame => h.2 ?_
  exact Prod.ext ((hid ha).trans (hid hb).symm) hsame

end Parts

/-! ## Fetching the chunks -/

section Chunks

variable {env : UploadEnv} {s : UploadStore ι}

/-- The loop of `assemble`, from what it has fetched so far. -/
theorem runAlone_fetchAll {ids : List Sha256} {cap : ℕ} (input : List UInt8)
    (hinput : input.length ≤ cap) :
    (∃ chunks, List.Forall₂ (fun id chunk => s.objects.get? id = some chunk) ids chunks ∧
        (input ++ chunks.flatten).length ≤ cap ∧
        runAlone (ids.foldlM (fun input id => do
          let bytes ← fetchObject id
          if (input ++ bytes).length > cap then fail .payloadTooLarge else return input ++ bytes)
          input) s = (.ok (input ++ chunks.flatten), s)) ∨
      (∀ chunks, List.Forall₂ (fun id chunk => s.objects.get? id = some chunk) ids chunks →
          cap < (input ++ chunks.flatten).length) ∧
        ∃ e, runAlone (ids.foldlM (fun input id => do
          let bytes ← fetchObject id
          if (input ++ bytes).length > cap then fail .payloadTooLarge else return input ++ bytes)
          input) s = (.error e, s) := by
  -- on the parts left, with what is read so far
  induction ids generalizing input with
  | nil => exact .inl ⟨[], .nil, by simpa using hinput, by simp; rfl⟩
  | cons id ids ih =>
    rw [List.foldlM_cons, runAlone_bind, runAlone_bind]
    cases hget : s.objects.get? id with
    | none =>
      refine .inr ⟨fun chunks h => ?_, .gone, ?_⟩
      · cases h with
        | cons hid _ => exact absurd (hget.symm.trans hid) nofun
      · unfold fetchObject
        simp only [runAlone, hget, Option.elim_none, andThen]
    | some bytes =>
      have hfetch : runAlone (fetchObject id : Script (UploadStore ι) AppError (List UInt8)) s
          = (.ok bytes, s) := by
        unfold fetchObject
        simp only [runAlone, hget, Option.elim_some]
      rw [hfetch]
      simp only [andThen]
      -- over the cap the loop stops, and more parts would not help
      by_cases hover : (input ++ bytes).length > cap
      · rw [if_pos hover]
        refine .inr ⟨fun chunks h => ?_, .payloadTooLarge, rfl⟩
        cases h with
        | @cons _ chunk _ chunks hid hrest =>
          obtain rfl := Option.some.inj (hget.symm.trans hid)
          rw [List.flatten_cons, ← List.append_assoc, List.length_append]
          omega
      · rw [if_neg hover]
        show (∃ chunks, _ ∧ _ ∧ runAlone (ids.foldlM _ (input ++ bytes)) s = _) ∨ _ ∧
          ∃ e, runAlone (ids.foldlM _ (input ++ bytes)) s = _
        rcases ih (input ++ bytes) (not_lt.1 hover) with ⟨chunks, hchunks, hcap, hrun⟩ | ⟨hnone, hrun⟩
        · refine .inl ⟨bytes :: chunks, .cons hget hchunks, ?_, ?_⟩
          · rwa [List.flatten_cons, ← List.append_assoc]
          · rw [hrun, List.flatten_cons, List.append_assoc]
        · refine .inr ⟨fun chunks h => ?_, hrun⟩
          cases h with
          | @cons _ chunk _ chunks hid hrest =>
            obtain rfl := Option.some.inj (hget.symm.trans hid)
            rw [List.flatten_cons, ← List.append_assoc]
            exact hnone chunks hrest

/-- What `assemble` answers: the chunks in order where they are there, fit and have the digest,
and a failure elsewhere. -/
theorem runAlone_assemble (env : UploadEnv) (s : UploadStore ι) (ids : List Sha256)
    (expected : Sha256) (cap : ℕ) :
    (∃ chunks, List.Forall₂ (fun id chunk => s.objects.get? id = some chunk) ids chunks ∧
        chunks.flatten.length ≤ cap ∧ env.sha256 chunks.flatten = expected ∧
        runAlone (assemble env ids expected cap) s = (.ok chunks.flatten, s)) ∨
      (∀ chunks, List.Forall₂ (fun id chunk => s.objects.get? id = some chunk) ids chunks →
          chunks.flatten.length ≤ cap → env.sha256 chunks.flatten ≠ expected) ∧
        ∃ e, runAlone (assemble env ids expected cap) s = (.error e, s) := by
  unfold assemble
  rw [runAlone_bind]
  rcases @runAlone_fetchAll ι s ids cap [] (Nat.zero_le cap) with
    ⟨chunks, hchunks, hcap, hrun⟩ | ⟨hnone, e, hrun⟩
  · rw [List.nil_append] at hcap hrun
    rw [hrun]
    simp only [andThen]
    by_cases hdigest : env.sha256 chunks.flatten = expected
    · exact .inl ⟨chunks, hchunks, hcap, hdigest, by rw [if_neg (not_not.2 hdigest)]; rfl⟩
    · refine .inr ⟨fun chunks' hchunks' _ hdigest' => hdigest ?_, _, by rw [if_pos hdigest]; rfl⟩
      have hunique : Relator.RightUnique fun id chunk => s.objects.get? id = some chunk :=
        fun id chunk chunk' h h' => Option.some.inj (h.symm.trans h')
      rw [List.right_unique_forall₂' hunique hchunks hchunks']
      exact hdigest'
  · refine .inr ⟨fun chunks hchunks hcap => ?_, e, by rw [hrun]; rfl⟩
    have hover := hnone chunks hchunks
    rw [List.nil_append] at hover
    omega

end Chunks

/-! ## What happens to a session before its completion -/

/-- A part is sent, or the collector removes an object. -/
inductive UploadEvent where
  | part (n : ℤ) (body : List UInt8)
  | collected (id : Sha256)

/-- The state after the event. -/
def UploadEvent.apply (env : UploadEnv) (uploadId repo : Uuid) (s : UploadStore ι) :
    UploadEvent → UploadStore ι
  | .part n body => (runAlone (uploadPart env uploadId repo n body) s).2
  | .collected id => { s with objects := s.objects.remove id }

/-- The chunks recorded under each number after the event; a part below 1 is refused. -/
def recordChunk (chunks : ℤ → Option (List UInt8)) : UploadEvent → ℤ → Option (List UInt8)
  | .part n body => if n < 1 then chunks else Function.update chunks n (some body)
  | .collected _ => chunks

/-- The row of a chunk. -/
def stagedPart (env : UploadEnv) (chunk : List UInt8) : UploadPart :=
  ⟨env.sha256 chunk, sizeOf chunk⟩

/-- The chunks 1 to `n`, one after the other. -/
def joinedChunks (chunks : ℤ → Option (List UInt8)) (n : ℤ) : List UInt8 :=
  ((List.range n.toNat).map fun k : ℕ => (chunks (k + 1)).getD []).flatten

/-- The bytes that occur: those stored, those staged, and those sent. -/
def UploadStore.bytesIn (s : UploadStore ι) (chunks : ℤ → Option (List UInt8))
    (events : List UploadEvent) : Set (List UInt8) :=
  {bytes | (∃ id, s.objects.get? id = some bytes) ∨ (∃ n, chunks n = some bytes) ∨
    ∃ n, .part n bytes ∈ events}

/-- The completion declares the staged chunks rightly, and they can be assembled. -/
structure WellDeclared (env : UploadEnv) (session : UploadSession) (s : UploadStore ι)
    (chunks : ℤ → Option (List UInt8)) (n : ℤ) (declared : Sha256) : Prop where
  numbers : ∀ k, (chunks k).isSome ↔ 1 ≤ k ∧ k ≤ n
  stored : ∀ k chunk, chunks k = some chunk → s.objects.holds (env.sha256 chunk)
  fits : (joinedChunks chunks n).length ≤ session.target.cap env
  digest : env.sha256 (joinedChunks chunks n) = declared

/-- The bytes reach the ingest of a completion. -/
def IngestReached (env : UploadEnv) (r : CompleteRequest) (s : UploadStore ι)
    (input : List UInt8) : Prop :=
  ∃ session, (runAlone (assembleUpload env r) s).1 = .ok (session, input)

/-! ## Every history of a session -/

section Histories

variable {env : UploadEnv} {uploadId repo : Uuid} {session : UploadSession}
  {known : Set (List UInt8)} {s : UploadStore ι} {chunks : ℤ → Option (List UInt8)}

/-- The session is open, its parts are the chunks recorded, and the objects stand under their
digests. -/
structure StagedAs (env : UploadEnv) (uploadId repo : Uuid) (session : UploadSession)
    (known : Set (List UInt8)) (s : UploadStore ι) (chunks : ℤ → Option (List UInt8)) : Prop where
  opened : s.db.openSession uploadId repo = .ok session
  parts : ∀ n, s.db.uploadParts.get? (uploadId, n) = (chunks n).map (stagedPart env)
  chunks : ∀ n chunk, chunks n = some chunk → chunk ∈ known
  objects : ∀ id bytes, s.objects.get? id = some bytes → bytes ∈ known ∧ env.sha256 bytes = id

/-- The request is accepted. -/
def UploadStore.accept (s : UploadStore ι) (uploadId : Uuid) : UploadStore ι :=
  { s with log := s.log ++ [.accepted uploadId] }

/-- A request on the open session goes on from it. -/
theorem runAlone_openSession_bind {α : Type} (h : s.db.openSession uploadId repo = .ok session)
    (k : UploadSession → Script (UploadStore ι) AppError α) :
    runAlone (openSession uploadId repo >>= k) s = runAlone (k session) (s.accept uploadId) := by
  rw [runAlone_bind]
  unfold openSession UploadStore.accept
  simp only [runAlone, h, andThen]

/-- What a part does to the state. -/
theorem runAlone_uploadPart (h : s.db.openSession uploadId repo = .ok session) (n : ℤ)
    (body : List UInt8) :
    (runAlone (uploadPart env uploadId repo n body) s).2 =
      if n < 1 then s.accept uploadId else { s.accept uploadId with
        objects := s.objects.put (env.sha256 body) body
        db := { s.db with
          blobs := s.db.blobs.upsert (env.sha256 body) ⟨sizeOf body, 0, s.now⟩ fun b =>
            { b with lastSeenAt := s.now }
          uploadParts := s.db.uploadParts.upsert (uploadId, n) (stagedPart env body)
            fun _ => stagedPart env body } } := by
  have hrow := (Catalog.openSession_eq_ok_iff.1 h).1
  unfold uploadPart
  rw [runAlone_openSession_bind h]
  split_ifs with hn
  · rfl
  · simp only [runAlone_bind]
    unfold putObject sql
    simp only [runAlone, andThen]
    unfold upsertBlob recordUploadPart
    simp only [exec_modify, exec_bind, exec_get, andThen, UploadStore.accept, Except.mapError]
    rw [if_neg (by rw [hrow]; exact Bool.false_ne_true)]
    rfl

/-- An event keeps what is staged in step with what is recorded. -/
theorem StagedAs.apply (h : StagedAs env uploadId repo session known s chunks) (e : UploadEvent)
    (he : ∀ n body, e = .part n body → body ∈ known) :
    StagedAs env uploadId repo session known (e.apply env uploadId repo s) (recordChunk chunks e) := by
  cases e with
  | part n body =>
    have hbody := he n body rfl
    unfold UploadEvent.apply recordChunk
    dsimp only
    rw [runAlone_uploadPart h.opened]
    split_ifs with hn
    · exact ⟨h.opened, h.parts, h.chunks, h.objects⟩
    · refine ⟨h.opened, fun k => ?_, fun k chunk hk => ?_, fun id bytes hbytes => ?_⟩
      · show (s.db.uploadParts.upsert _ _ _).get? (uploadId, k) = _
        rw [Table.get?_upsert, Function.update_apply]
        by_cases hk : k = n
        · rw [if_pos (by rw [hk]), if_pos hk]
          cases s.db.uploadParts.get? (uploadId, n) with
          | none => rfl
          | some part => rfl
        · rw [if_neg fun hboth => hk (Prod.mk.inj hboth).2, if_neg hk, h.parts]
      · rw [Function.update_apply] at hk
        split_ifs at hk with hkn
        · rwa [← Option.some.inj hk]
        · exact h.chunks k chunk hk
      · change (s.objects.insertNew _ _).get? id = some bytes at hbytes
        rw [Table.get?_insertNew] at hbytes
        split_ifs at hbytes with hid
        · -- an object there before stays: its bytes have the same digest
          cases hold : s.objects.get? (env.sha256 body) with
          | none =>
            rw [hold] at hbytes
            obtain rfl : body = bytes := Option.some.inj hbytes
            exact ⟨hbody, hid.symm⟩
          | some old =>
            rw [hold] at hbytes
            obtain rfl : old = bytes := Option.some.inj hbytes
            rw [hid]
            exact h.objects _ old hold
        · exact h.objects id bytes hbytes
  -- a collection takes objects and no rows
  | collected id =>
    refine ⟨h.opened, h.parts, h.chunks, fun id' bytes hbytes => h.objects id' bytes ?_⟩
    change (s.objects.delete _).get? id' = some bytes at hbytes
    rw [Table.get?_delete] at hbytes
    exact (Option.filter_eq_some_iff.1 hbytes).1

/-- The numbers of the staged parts are those of the chunks. -/
theorem StagedAs.mem_numbers (h : StagedAs env uploadId repo session known s chunks) (k : ℤ) :
    k ∈ (s.db.uploadPartsOf uploadId).map Prod.fst ↔ (chunks k).isSome := by
  rw [List.mem_map]
  constructor
  · rintro ⟨⟨k, part⟩, hx, rfl⟩
    rw [s.db.mem_uploadPartsOf, h.parts] at hx
    obtain ⟨chunk, hchunk, -⟩ := Option.map_eq_some_iff.1 hx
    exact Option.isSome_iff_exists.2 ⟨chunk, hchunk⟩
  · intro hk
    obtain ⟨chunk, hchunk⟩ := Option.isSome_iff_exists.1 hk
    exact ⟨(k, stagedPart env chunk), (s.db.mem_uploadPartsOf _ _ _).2 (by
      rw [h.parts, hchunk, Option.map_some]), rfl⟩

/-- A completion accepts the numbers exactly when they are 1 to `n`. -/
theorem StagedAs.numbers_iff (h : StagedAs env uploadId repo session known s chunks) (n : ℤ) :
    ((s.db.uploadPartsOf uploadId).length = n.toNat ∧
        contiguous (s.db.uploadPartsOf uploadId) = true) ↔
      ∀ k, (chunks k).isSome ↔ 1 ≤ k ∧ k ≤ n := by
  rw [numbered_iff (s.db.uploadPartsOf_sorted uploadId)]
  exact forall_congr' fun k => iff_congr (h.mem_numbers k) Iff.rfl

/-- The parts of a completion whose numbers are right, with their chunks. -/
theorem StagedAs.uploadPartsOf_eq (h : StagedAs env uploadId repo session known s chunks) {n : ℤ}
    (hnumbers : ∀ k, (chunks k).isSome ↔ 1 ≤ k ∧ k ≤ n) :
    s.db.uploadPartsOf uploadId = (List.range n.toNat).map fun k : ℕ =>
      ((k : ℤ) + 1, stagedPart env ((chunks (k + 1)).getD [])) := by
  have hrow : ∀ x ∈ s.db.uploadPartsOf uploadId, (x.1, stagedPart env ((chunks x.1).getD [])) = x := by
    rintro ⟨k, part⟩ hx
    rw [s.db.mem_uploadPartsOf, h.parts] at hx
    obtain ⟨chunk, hchunk, rfl⟩ := Option.map_eq_some_iff.1 hx
    rw [hchunk, Option.getD_some]
  obtain ⟨hlength, hcontiguous⟩ := (h.numbers_iff n).2 hnumbers
  rw [contiguous_iff, hlength] at hcontiguous
  calc s.db.uploadPartsOf uploadId
      = (s.db.uploadPartsOf uploadId).map fun x => (x.1, stagedPart env ((chunks x.1).getD [])) := by
        rw [List.map_congr_left hrow, List.map_id']
    _ = ((s.db.uploadPartsOf uploadId).map Prod.fst).map fun k =>
          (k, stagedPart env ((chunks k).getD [])) := by rw [List.map_map]; rfl
    _ = _ := by rw [hcontiguous, List.map_map]; rfl

/-- The chunks of the parts can be fetched exactly when they are stored, and are those recorded. -/
theorem StagedAs.fetched_iff (h : StagedAs env uploadId repo session known s chunks)
    (hinj : Set.InjOn env.sha256 known) {n : ℤ}
    (hnumbers : ∀ k, (chunks k).isSome ↔ 1 ≤ k ∧ k ≤ n) (fetched : List (List UInt8)) :
    List.Forall₂ (fun id chunk => s.objects.get? id = some chunk)
        ((s.db.uploadPartsOf uploadId).map fun p => p.2.chunkSha256) fetched ↔
      (∀ k chunk, chunks k = some chunk → s.objects.holds (env.sha256 chunk)) ∧
        fetched = (List.range n.toNat).map fun k : ℕ => (chunks (k + 1)).getD [] := by
  -- of the bytes that occur a digest has one preimage
  have hsame : ∀ {k chunk bytes}, chunks k = some chunk →
      s.objects.get? (env.sha256 chunk) = some bytes → bytes = chunk := by
    intro k chunk bytes hchunk hbytes
    obtain ⟨hknown, hdigest⟩ := h.objects _ _ hbytes
    exact hinj hknown (h.chunks k chunk hchunk) hdigest
  have hchunk : ∀ k < n.toNat, ∃ chunk, chunks ((k : ℤ) + 1) = some chunk := fun k hk =>
    Option.isSome_iff_exists.1 ((hnumbers _).2 ⟨by omega, by omega⟩)
  -- the parts are numbered from 1 without a gap
  rw [h.uploadPartsOf_eq hnumbers, List.map_map, List.forall₂_map_left_iff]
  constructor
  · intro hall
    have hlength : n.toNat = fetched.length := by simpa using hall.length_eq
    have hget : ∀ k (hk : k < n.toNat), fetched[k]? = some ((chunks ((k : ℤ) + 1)).getD []) ∧
        s.objects.holds (env.sha256 ((chunks ((k : ℤ) + 1)).getD [])) := by
      intro k hk
      have hk' : k < fetched.length := hlength ▸ hk
      obtain ⟨chunk, hrecorded⟩ := hchunk k hk
      have hstored : s.objects.get? (env.sha256 ((chunks ((k : ℤ) + 1)).getD [])) = some fetched[k] := by
        simpa [stagedPart] using hall.get (by simpa using hk) hk'
      rw [hrecorded, Option.getD_some] at hstored ⊢
      refine ⟨?_, Option.isSome_iff_exists.2 ⟨_, hstored⟩⟩
      rw [List.getElem?_eq_getElem hk', hsame hrecorded hstored]
    refine ⟨fun k chunk hk => ?_, List.ext_getElem? fun k => ?_⟩
    · obtain ⟨h1, hn⟩ := (hnumbers k).1 (by rw [hk]; rfl)
      have hstored := (hget (k - 1).toNat (by omega)).2
      rwa [show (((k - 1).toNat : ℕ) : ℤ) + 1 = k by omega, hk, Option.getD_some] at hstored
    · rcases lt_or_ge k n.toNat with hk | hk
      · rw [(hget k hk).1]
        simp [hk]
      · rw [List.getElem?_eq_none (by omega), List.getElem?_eq_none (by simpa using hk)]
  · rintro ⟨hstored, rfl⟩
    rw [List.forall₂_map_right_iff, List.forall₂_same]
    intro k hk
    obtain ⟨chunk, hrecorded⟩ := hchunk k (List.mem_range.1 hk)
    obtain ⟨bytes, hbytes⟩ := Option.isSome_iff_exists.1 (hstored _ chunk hrecorded)
    show s.objects.get? (env.sha256 ((chunks ((k : ℤ) + 1)).getD [])) = _
    rw [hrecorded, Option.getD_some, hbytes, hsame hrecorded hbytes]

/-- The sizes on record sum to no more than the chunks do. -/
theorem StagedAs.total_le (h : StagedAs env uploadId repo session known s chunks) {n : ℤ}
    (hnumbers : ∀ k, (chunks k).isSome ↔ 1 ≤ k ∧ k ≤ n) :
    ((s.db.uploadPartsOf uploadId).map fun p => p.2.sizeBytes.toNat).sum
      ≤ (joinedChunks chunks n).length := by
  have hsize : ∀ chunk : List UInt8, (stagedPart env chunk).sizeBytes.toNat ≤ chunk.length := by
    intro chunk
    show (min (chunk.length : ℤ) (2 ^ 63 - 1)).toNat ≤ chunk.length
    omega
  rw [h.uploadPartsOf_eq hnumbers, List.map_map]
  unfold joinedChunks
  rw [List.length_flatten, List.map_map]
  exact List.sum_le_sum fun k _ => hsize _

/-- What a completion assembles from the open session, or that it fails. -/
theorem StagedAs.assembleUpload_cases {r : CompleteRequest} {declared : Sha256}
    (h : StagedAs env r.uploadId r.repo session known s chunks)
    (hinj : Set.InjOn env.sha256 known) (hhex : parseHex32 r.sha256 = some declared) :
    (WellDeclared env session s chunks r.parts declared ∧
        runAlone (assembleUpload env r) s =
          (.ok (session, joinedChunks chunks r.parts), s.accept r.uploadId)) ∨
      ¬ WellDeclared env session s chunks r.parts declared ∧
        ∃ e, runAlone (assembleUpload env r) s = (.error e, s.accept r.uploadId) := by
  unfold assembleUpload
  rw [runAlone_openSession_bind h.opened, runAlone_select_bind]
  have hdb : (s.accept r.uploadId).db = s.db := rfl
  rw [hdb]
  split_ifs with hlength hcontiguous hcap
  · exact .inr ⟨fun hw => hlength ((h.numbers_iff _).2 hw.numbers).1, _, rfl⟩
  · have hnot : ¬ contiguous (s.db.uploadPartsOf r.uploadId) = true := by simpa using hcontiguous
    exact .inr ⟨fun hw => hnot ((h.numbers_iff _).2 hw.numbers).2, _, rfl⟩
  all_goals
    have hnumbers := (h.numbers_iff r.parts).1 ⟨not_not.1 hlength, by simpa using hcontiguous⟩
    rw [hhex, Option.elim_some]
  · refine .inr ⟨fun hw => ?_, .payloadTooLarge, rfl⟩
    have hfits := hw.fits
    have htotal := h.total_le hnumbers
    omega
  · show (_ ∧ runAlone (assemble env _ declared _ >>= _) _ = _) ∨
      (_ ∧ ∃ e, runAlone (assemble env _ declared _ >>= _) _ = _)
    rw [runAlone_bind]
    rcases runAlone_assemble env (s.accept r.uploadId)
        ((s.db.uploadPartsOf r.uploadId).map fun p => p.2.chunkSha256) declared (session.target.cap env)
      with ⟨fetched, hfetched, hfits, hdigest, hrun⟩ | ⟨hnone, e, hrun⟩
    · obtain ⟨hstored, rfl⟩ := (h.fetched_iff hinj hnumbers _).1 hfetched
      exact .inl ⟨⟨hnumbers, hstored, hfits, hdigest⟩, by rw [hrun]; rfl⟩
    · refine .inr ⟨fun hw => ?_, e, by rw [hrun]; rfl⟩
      exact hnone _ ((h.fetched_iff hinj hnumbers _).2 ⟨hw.stored, rfl⟩) hw.fits hw.digest

end Histories

/-- **A chunked upload assembles what was declared.**  Whatever parts are sent to an open session,
in any order and over each other, and whatever the collector removes in between: the bytes that
reach the ingest of a completion are the last chunks recorded under 1 to `n`, one after the other,
and some do exactly when the numbers are 1 to `n`, the chunks are stored, they fit and they have
the declared digest; then the completion ingests them, and otherwise it fails and changes no row.
The digests of the bytes that occur are taken to be distinct. -/
theorem chunked_upload_assembles [DecidableEq ι] (env : UploadEnv) (i : ι) (r : CompleteRequest)
    {s : UploadStore ι} {session : UploadSession} {declared : Sha256}
    {staged : ℤ → Option (List UInt8)}
    (hopen : s.db.openSession r.uploadId r.repo = .ok session)
    (hstaged : ∀ n, s.db.uploadParts.get? (r.uploadId, n) = (staged n).map (stagedPart env))
    (hobjects : ∀ id bytes, s.objects.get? id = some bytes → env.sha256 bytes = id)
    (events : List UploadEvent) (hdigests : Set.InjOn env.sha256 (s.bytesIn staged events))
    (hhex : parseHex32 r.sha256 = some declared) :
    let s' := Run.final (UploadEvent.apply env r.uploadId r.repo) s events
    let chunks := Run.final recordChunk staged events
    (∀ input, IngestReached env r s' input ↔
        WellDeclared env session s' chunks r.parts declared ∧
          input = joinedChunks chunks r.parts) ∧
      (WellDeclared env session s' chunks r.parts declared →
        runAlone (uploadComplete env i r) s' =
          runAlone (ingestUpload env i r session (joinedChunks chunks r.parts))
            (s'.accept r.uploadId)) ∧
      ((∀ input, ¬ IngestReached env r s' input) →
        (∃ e, (runAlone (uploadComplete env i r) s').1 = .error e) ∧
          (runAlone (uploadComplete env i r) s').2.db = s'.db) := by
  intro s' chunks
  set known := s.bytesIn staged events with hknown
  have hstart : StagedAs env r.uploadId r.repo session known s staged :=
    ⟨hopen, hstaged, fun n chunk hchunk => .inr (.inl ⟨n, hchunk⟩),
      fun id bytes hbytes => ⟨.inl ⟨id, hbytes⟩, hobjects id bytes hbytes⟩⟩
  -- the rows and the record of chunks go through the events in step
  have hend : StagedAs env r.uploadId r.repo session known s' chunks :=
    Run.final_lockstep (StagedAs env r.uploadId r.repo session known)
      (fun e he s c h => h.apply e fun n body hpart => .inr (.inr ⟨n, hpart ▸ he⟩)) hstart
  rw [uploadComplete_eq, runAlone_bind]
  unfold IngestReached
  rcases hend.assembleUpload_cases hdigests hhex with ⟨hwell, hrun⟩ | ⟨hnot, e, hrun⟩
  · rw [hrun]
    refine ⟨fun input => ⟨?_, ?_⟩, fun _ => rfl, fun hnone => absurd ⟨session, rfl⟩ (hnone _)⟩
    · rintro ⟨session', hanswer⟩
      exact ⟨hwell, (Prod.mk.inj (Except.ok.inj hanswer)).2.symm⟩
    · rintro ⟨-, rfl⟩
      exact ⟨session, rfl⟩
  · rw [hrun]
    refine ⟨fun input => ⟨?_, fun h => absurd h.1 hnot⟩, fun hwell => absurd hwell hnot,
      fun _ => ⟨⟨e, rfl⟩, rfl⟩⟩
    rintro ⟨session', hanswer⟩
    exact absurd hanswer nofun

namespace Parcels

/-- The sha256 digests of `a`, `b`, `x` and `ab`. -/
def digestA : Sha256 :=
  ⟨#v[202, 151, 129, 18, 202, 27, 189, 202, 250, 194, 49, 179, 154, 35, 220, 77,
    167, 134, 239, 248, 20, 124, 78, 114, 185, 128, 119, 133, 175, 238, 72, 187]⟩

def digestB : Sha256 :=
  ⟨#v[62, 35, 232, 22, 0, 57, 89, 74, 51, 137, 79, 101, 100, 225, 177, 52,
    139, 189, 122, 0, 136, 212, 44, 74, 203, 115, 238, 174, 213, 156, 0, 157]⟩

def digestX : Sha256 :=
  ⟨#v[45, 113, 22, 66, 183, 38, 176, 68, 1, 98, 124, 169, 251, 172, 50, 245,
    200, 83, 15, 177, 144, 60, 196, 219, 2, 37, 135, 23, 146, 26, 72, 129]⟩

def digestAB : Sha256 :=
  ⟨#v[251, 142, 32, 252, 46, 76, 63, 36, 140, 96, 195, 155, 214, 82, 243, 193,
    52, 114, 152, 187, 151, 123, 139, 77, 89, 3, 184, 80, 85, 98, 6, 3]⟩

/-- The digests of these texts; nothing is archived here. -/
def env : UploadEnv where
  sha256 := fun bytes =>
    if bytes = [97] then digestA else if bytes = [98] then digestB
    else if bytes = [120] then digestX else digestAB
  archiveTargz := fun _ _ => .error .gone
  versions := ⟨fun _ => none, fun _ => none, fun _ => ""⟩
  maxPackageBytes := 1024
  maxSnapshotBytes := 1024

/-- An open session for a dump, with nothing staged. -/
def session : UploadSession := ⟨1, .snapshot "production" none, .open, 0⟩

def opened : UploadStore Unit where
  db := { Catalog.empty with uploadSessions := ⟨[(1, session)], by decide⟩ }
  objects := ∅
  now := 0
  finishing := fun _ => none
  log := []

/-- The second part is sent, sent anew, and the first after it; what was overwritten is
collected. -/
def sent : List UploadEvent :=
  [.part 2 [120], .part 2 [98], .part 1 [97], .collected digestX]

def completion : CompleteRequest := ⟨1, 1, 2, hex32 digestAB, 0, 1, 0⟩

/-- The parts the client sent last are the ones recorded. -/
theorem chunks_sent : Run.final recordChunk (fun _ => none) sent =
    fun k => if k = 1 then some [97] else if k = 2 then some [98] else none := by
  funext k
  have hlarge : ¬ (2 : ℤ) < 1 := by decide
  simp only [sent, Run.final_cons, Run.final_nil, recordChunk, lt_irrefl, hlarge, if_false,
    Function.update_apply]
  split_ifs <;> rfl

/-- The two chunks arrive in order. -/
theorem chunked_upload_assembles_sent : IngestReached env completion
    (Run.final (UploadEvent.apply env 1 1) opened sent) [97, 98] := by
  have hdigests : Set.InjOn env.sha256 (opened.bytesIn (fun _ => none) sent) := by
    have hsent : ∀ bytes ∈ opened.bytesIn (fun _ => none) sent,
        bytes = [97] ∨ bytes = [98] ∨ bytes = [120] := by
      rintro bytes (⟨id, h⟩ | ⟨n, h⟩ | ⟨n, h⟩)
      · exact absurd (h : none = some bytes) nofun
      · exact absurd h nofun
      · simp only [sent, List.mem_cons, UploadEvent.part.injEq, List.not_mem_nil, or_false,
          reduceCtorEq] at h
        tauto
    intro x hx y hy hxy
    rcases hsent x hx with rfl | rfl | rfl <;> rcases hsent y hy with rfl | rfl | rfl <;>
      first | rfl | exact absurd hxy (by decide)
  have hall := @chunked_upload_assembles Unit _ env () completion opened session digestAB
    (fun _ => none) rfl (fun _ => rfl) (fun id bytes h => absurd (h : none = some bytes) nofun) sent
    hdigests (parseHex32_hex32 digestAB)
  rw [chunks_sent] at hall
  refine (hall.1 [97, 98]).2 ⟨⟨fun k => ?_, fun k chunk hk => ?_, by decide, rfl⟩, rfl⟩
  · rw [show completion.parts = 2 from rfl]
    split_ifs <;> simp <;> omega
  · split_ifs at hk
    · obtain rfl := Option.some.inj hk
      exact (by decide : (some ([97] : List UInt8)).isSome)
    · obtain rfl := Option.some.inj hk
      exact (by decide : (some ([98] : List UInt8)).isSome)

end Parcels

end Sconce
