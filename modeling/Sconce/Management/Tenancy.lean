/-
# Repositories do not notice each other

A request for a repository is answered from what the repository sees of the catalog, and a
request for another leaves that as it was; so over any interleaving of requests each repository
gets the answers it would get alone (`api_noninterference`).
-/
import Sconce.Management.Seen
import Sconce.Lib.Unwinding

namespace Sconce

open Effect

namespace Catalog

variable {db : Catalog} {repo license : Uuid}

/-! ## The answers -/

/-- The packages a key unlocks are read from the view. -/
theorem entitledPackageNames_seenBy (h : db.foreign repo license = false) :
    (db.seenBy repo).entitledPackageNames license = db.entitledPackageNames license := by
  have hrows : ∀ t : Table (Uuid × Uuid) UpdateBound,
      ((db.hangsOn repo t).rows.filter fun r => r.1.1 = license)
        = t.rows.filter fun r => r.1.1 = license := by
    intro t
    refine List.filter_filter.trans (List.filter_congr fun r _ => ?_)
    by_cases hr : r.1.1 = license
    · simp [hr, h]
    · simp [hr]
  have hdirect := hrows db.entitlements
  have hsets := hrows db.licenseSetEntitlements
  unfold entitledPackageNames
  dsimp only
  exact congrArg₂ (fun direct sets => (List.flatMap (fun r => db.names (.package r.1.2)) direct ++
    List.flatMap (fun r => db.names (.set r.1.2)) sets).dedup.insertionSort (· ≤ ·)) hdirect hsets

/-- The details of a key are read from the view. -/
theorem licenseDetail_seenBy (ses : Session) (secret : Option SecretKey) :
    (db.seenBy repo).licenseDetail ses secret repo license
      = db.licenseDetail ses secret repo license := by
  unfold licenseDetail licenseKeyPlaintext
  rw [keyIn_seenBy]
  cases hkey : db.keyIn repo license with
  | none => rfl
  | some l =>
    rw [entitledPackageNames_seenBy (foreign_of_keyIn hkey)]
    rfl

/-- The bound of an edition's edges is read from the view. -/
theorem editionEdgeBound_seenBy (ses : Session) (edition : Uuid)
    (h : db.foreign repo license = false) :
    (db.seenBy repo).editionEdgeBound ses license edition
      = db.editionEdgeBound ses license edition := by
  have hget : ∀ packageSet, (db.seenBy repo).licenseSetEntitlements.get? (license, packageSet)
      = db.licenseSetEntitlements.get? (license, packageSet) := fun packageSet =>
    get?_hangsOn h packageSet
  unfold editionEdgeBound
  simp only [hget]
  rfl

end Catalog

section Handlers

variable {α β : Type} {env : ApiEnv} {r : ApiRequest} {repo license : Uuid} {db : Catalog}

/-- A lookup that was made already goes through the view. -/
theorem through_orFail_bind {f : Catalog → Catalog} {e : ApiError} {o : Option α}
    {k : α → Effect Catalog ApiError β} (h : ∀ a, o = some a → Through f (k a) db) :
    Through f (orFail e o >>= k) db := by
  unfold Through
  rw [exec_orFail_bind, exec_orFail_bind]
  cases o with
  | none => rfl
  | some a => exact h a rfl

/-- A writer goes through the view where its operation does. -/
theorem through_writer {op : Catalog → Except SqlError (α × Catalog)}
    (h : op (db.seenBy repo) = Catalog.seenAfter repo (op db)) :
    Through (Catalog.seenBy · repo) (writer op) db := by
  unfold Through
  rw [exec_writer, exec_writer, h]
  cases op db with
  | error e => rfl
  | ok x => rfl

/-- The details of a key of the repository go through the view. -/
theorem through_shownDetail_bind {k : LicenseDetail → Effect Catalog ApiError β}
    (h : ∀ detail, db.foreign repo license = false → Through (Catalog.seenBy · repo) (k detail) db) :
    Through (Catalog.seenBy · repo) (shownDetail env repo license >>= k) db := by
  unfold shownDetail
  rw [bind_assoc]
  refine through_get_bind (by rw [Catalog.licenseDetail_seenBy])
    (through_orFail_bind fun detail hdetail => ?_)
  obtain ⟨l, hl, -⟩ := Option.map_eq_some_iff.1 hdetail
  exact h detail (Catalog.foreign_of_keyIn hl)

/-- A repository's request is answered from what it sees, and changes what it sees by it. -/
theorem through_apiRoute (hunused : db.Unused r.minted) :
    Through (Catalog.seenBy · repo) (apiRoute env r repo) db := by
  unfold apiRoute
  -- handler by handler: reads are of the repository, writes commute with what it sees
  cases r.call with
  | listEditions => exact through_get_bind rfl (through_pure _)
  | inspectLicense id =>
    refine through_orFail_bind fun license _ => ?_
    exact through_shownDetail_bind fun detail _ => through_pure _
  | issueLicense edition buyer account =>
    refine through_get_bind rfl
      (through_orFail_bind fun editionId _ => ?_)
    refine through_bind (through_writer (Catalog.issueFromEditionInner_seenBy
      (c := ⟨repo, editionId, _, r.idempotencyKey, account, r.minted⟩) hunused)) fun issued _ => ?_
    refine through_orFail_bind fun issued _ => through_shownDetail_bind fun detail hforeign => ?_
    exact through_get_bind (by rw [Catalog.editionEdgeBound_seenBy _ _ hforeign]) (through_pure _)
  | renewLicense id =>
    refine through_orFail_bind fun license _ => ?_
    refine through_bind (through_writer (Catalog.renew_seenBy
      ⟨repo, license, none, r.idempotencyKey⟩)) fun renewed _ => ?_
    refine through_orFail_bind fun _ _ => through_shownDetail_bind fun detail _ => through_pure _
  | renewLicenseEdition id edition =>
    refine through_orFail_bind fun license _ => ?_
    refine through_get_bind rfl
      (through_orFail_bind fun editionId _ => ?_)
    refine through_bind (through_writer (Catalog.renew_seenBy
      ⟨repo, license, some editionId, r.idempotencyKey⟩)) fun renewed _ => ?_
    refine through_orFail_bind fun _ _ => through_shownDetail_bind fun detail _ => through_pure _
  | addLicenseEdition id edition =>
    refine through_orFail_bind fun license _ => ?_
    refine through_get_bind rfl
      (through_orFail_bind fun editionId _ => ?_)
    refine through_bind (through_writer Catalog.addEditionToLicense_seenBy) fun outcome _ => ?_
    cases outcome with
    | added =>
      refine through_shownDetail_bind fun detail hforeign => ?_
      exact through_get_bind (by rw [Catalog.editionEdgeBound_seenBy _ _ hforeign]) (through_pure _)
    | standalone | noKey | noEdition => exact through_throw _
  | removeLicenseEdition id edition =>
    refine through_orFail_bind fun license _ => ?_
    refine through_get_bind rfl ?_
    cases db.findEdition repo (trim edition) with
    | none => exact through_pure _
    | some editionId =>
      refine through_bind (through_writer ?_) fun found _ => ?_
      · exact congrArg Except.ok Catalog.removeEditionFromLicense_seenBy
      · split_ifs
        · exact through_pure _
        · exact through_throw _
  | mergeLicense id into =>
    refine through_orFail_bind fun source _ => through_orFail_bind fun target _ => ?_
    refine through_bind (through_writer ?_) fun outcome _ => ?_
    · exact congrArg Except.ok Catalog.mergeLicenseKeys_seenBy
    · cases outcome with
      | merged => exact through_shownDetail_bind fun detail _ => through_pure _
      | noSource | noTarget | targetBounded | sameKey => exact through_throw _
  | revokeLicense id =>
    refine through_orFail_bind fun license _ => ?_
    refine through_bind (through_writer ?_) fun found _ => ?_
    · exact congrArg Except.ok Catalog.revokeLicense_seenBy
    · split_ifs
      · exact through_pure _
      · exact through_throw _

end Handlers

/-! ## What stays over a request -/

namespace Catalog

variable {db : Catalog}

/-- A key that is still unused stays so when others are minted. -/
theorem unused_run {ses : Session} {secret : Option SecretKey} {x : Timed LicenseOp} {m : Minted}
    (hop : ∀ c, x.op = .issue c → db.Unused c.minted) (h : db.Unused m)
    (hapart : ∀ c, x.op = .issue c → c.minted.id ≠ m.id ∧ c.minted.hash ≠ m.hash) :
    (LicenseOp.run ses secret db x).Unused m := by
  obtain ⟨hkey, hhash⟩ : (LicenseOp.run ses secret db x).licenseKeys.get? m.id = none ∧
      ∀ r ∈ (LicenseOp.run ses secret db x).licenseKeys.rows, r.2.keyHash ≠ m.hash := by
    cases keysStep_run ses secret db x with
    | updated f hf hkeys =>
      rw [hkeys, Table.get?_update, h.key]
      refine ⟨rfl, fun r hr => ?_⟩
      obtain ⟨old, hold, rfl⟩ := List.mem_map.1 hr
      rw [(hf old.1 old.2).columns]
      exact h.hash old hold
    | inserted c row hissue hwrote hfree hkeys =>
      obtain ⟨hid, hhash⟩ := hapart c hissue
      rw [hkeys, Table.get?_insertNew_of_ne _ _ hid.symm, h.key]
      refine ⟨rfl, fun r hr => ?_⟩
      rcases (Table.mem_rows_insertNew (hop c hissue).key row r).1 hr with hold | rfl
      · exact h.hash r hold
      · rw [hwrote.hash]
        exact hhash
  -- the key is nobody's yet, so any other repository sees what hangs on it
  obtain ⟨other, hother⟩ := exists_ne x.op.repo
  have hseen : (LicenseOp.run ses secret db x).seenBy other = db.seenBy other :=
    seenBy_run_of_ne hop hother.symm
  have hforeign : (LicenseOp.run ses secret db x).foreign other m.id = false :=
    foreign_of_get?_eq_none hkey
  have hforeign' : db.foreign other m.id = false := foreign_of_get?_eq_none h.key
  refine ⟨hkey, hhash, fun p => ?_, fun p => ?_, fun idem => ?_⟩
  · have hsame := congrArg (fun db => db.entitlements.get? (m.id, p)) hseen
    exact (get?_hangsOn hforeign p).symm.trans (hsame.trans
      ((get?_hangsOn hforeign' p).trans (h.entitlements p)))
  · have hsame := congrArg (fun db => db.licenseSetEntitlements.get? (m.id, p)) hseen
    exact (get?_hangsOn hforeign p).symm.trans (hsame.trans
      ((get?_hangsOn hforeign' p).trans (h.sets p)))
  · have hsame := congrArg (fun db => db.licenseRenewals.get? (m.id, idem)) hseen
    exact (get?_hangsOn hforeign idem).symm.trans (hsame.trans
      ((get?_hangsOn hforeign' idem).trans (h.renewals idem)))

end Catalog

section Runs

variable {env : ApiEnv} {repo : Uuid} {db : Catalog}

/-- The request is authenticated for the repository. -/
def ApiRequest.isFor (env : ApiEnv) (repo : Uuid) (db : Catalog) (r : ApiRequest) : Bool :=
  match authedRepo env r db with
  | .ok authed => authed = repo
  | .error _ => false

/-- Who a request is authenticated for is the same to every repository. -/
theorem authedRepo_seenBy (r : ApiRequest) :
    authedRepo env r (db.seenBy repo) = authedRepo env r db := rfl

/-- What a request needs of the state it meets: the key it mints is new. -/
def ApiRequest.Fresh (db : Catalog) (r : ApiRequest) : Prop := db.Unused r.minted

/-- What requests need of each other: they mint different keys. -/
def ApiRequest.Apart (r r' : ApiRequest) : Prop :=
  r.minted.id ≠ r'.minted.id ∧ r.minted.hash ≠ r'.minted.hash

/-- An issue mints what the request drew. -/
theorem minted_of_op? {r : ApiRequest} {c : IssueCall} (h : r.op? env repo db = some (.issue c)) :
    c.minted = r.minted := by
  unfold ApiRequest.op? at h
  cases hcall : r.call <;> rw [hcall] at h <;>
    simp only [Option.map_eq_some_iff, Option.bind_eq_some_iff, reduceCtorEq, and_false,
      exists_false] at h
  obtain ⟨e, -, heq⟩ := h
  cases heq
  rfl

/-- Requests of others are not seen. -/
theorem seenBy_api_of_ne {r : ApiRequest} (hfresh : r.Fresh db)
    (hother : r.isFor env repo db = false) :
    (exec (api env r) db).2.seenBy repo = db.seenBy repo := by
  rcases exec_api_cases env r db with hsame | ⟨authed, op, hauth, hop, hrun⟩
  · rw [hsame]
  · rw [hrun]
    refine Catalog.seenBy_run_of_ne (fun c hc => ?_) ?_
    · have hc : op = .issue c := hc
      rw [hc] at hop
      rw [minted_of_op? hop]
      exact hfresh
    · show op.repo ≠ repo
      rw [ApiRequest.repo_of_op? hop]
      unfold ApiRequest.isFor at hother
      rw [hauth] at hother
      exact of_decide_eq_false hother

/-- A request for the repository goes through its view. -/
theorem through_api {r : ApiRequest} (hfresh : r.Fresh db) (hmine : r.isFor env repo db = true) :
    Through (Catalog.seenBy · repo) (api env r) db := by
  unfold ApiRequest.isFor at hmine
  unfold Through
  rw [exec_api_eq, exec_api_eq, authedRepo_seenBy]
  cases hauth : authedRepo env r db with
  | error e => rfl
  | ok authed =>
    rw [hauth] at hmine
    obtain rfl : authed = repo := of_decide_eq_true hmine
    exact through_apiRoute hfresh

/-- What a request drew stays new while requests that drew otherwise come before it. -/
theorem fresh_api {r r' : ApiRequest} (h : r.Fresh db) (h' : r'.Fresh db) (hapart : r.Apart r') :
    r'.Fresh (exec (api env r) db).2 := by
  rcases exec_api_cases env r db with hsame | ⟨authed, op, -, hop, hrun⟩
  · rw [hsame]
    exact h'
  · rw [hrun]
    have hminted : ∀ c, op = .issue c → c.minted = r.minted := by
      intro c hc
      rw [hc] at hop
      exact minted_of_op? hop
    refine Catalog.unused_run (fun c hc => ?_) h' fun c hc => ?_
    · rw [hminted c hc]
      exact h
    · rw [hminted c hc]
      exact hapart

/-- **Repositories do not notice each other.**  Over any interleaving of requests that mint new
keys, the answers to the requests of a repository are those it would get alone, and so is what
it sees afterwards. -/
theorem api_noninterference (env : ApiEnv) (repo : Uuid) (db : Catalog) (rs : List ApiRequest)
    (hfresh : ∀ r ∈ rs, r.Fresh db) (hapart : rs.Pairwise ApiRequest.Apart) :
    (Unwinding.answers env.step db rs).filter (fun x => x.1.isFor env repo db)
        = Unwinding.answers env.step db (rs.filter fun r => r.isFor env repo db) ∧
      (Unwinding.final env.step db rs).seenBy repo
        = (Unwinding.final env.step db (rs.filter fun r => r.isFor env repo db)).seenBy repo := by
  -- a request needs a new key, and that it is still authenticated as in the first state
  let needs : Catalog → ApiRequest → Prop := fun s r =>
    r.Fresh s ∧ authedRepo env r s = authedRepo env r db
  have hisFor : ∀ s r, needs s r → r.isFor env repo s = r.isFor env repo db := by
    intro s r h
    unfold ApiRequest.isFor
    rw [h.2]
  have hready : Unwinding.Ready needs ApiRequest.Apart db rs :=
    ⟨fun r hr => ⟨hfresh r hr, rfl⟩, hapart⟩
  refine Unwinding.answers_purge (fun r => r.isFor env repo db) (Catalog.seenBy · repo)
    (fun s r r' h h' hapart => ?_) (fun s r h hother => ?_) (fun s t r hs ht hmine hview => ?_)
    hready (hready.sublist List.filter_sublist) rfl
  · exact ⟨fresh_api h.1 h'.1 hapart, (authedRepo_api r').trans h'.2⟩
  · exact seenBy_api_of_ne h.1 ((hisFor s r h).trans hother)
  · have hthrough := through_api hs.1 ((hisFor s r hs).trans hmine)
    have hthrough' := through_api ht.1 ((hisFor t r ht).trans hmine)
    unfold Through at hthrough hthrough'
    dsimp only at hthrough hthrough' hview
    rw [hview, hthrough'] at hthrough
    exact Prod.mk.inj hthrough.symm

end Runs

namespace Mall

/-- Two sales of one shop, the second a retry, and one of the other in between. -/
def sales : List ApiRequest := [sale "acme" 1, sale "globex" 2, sale "acme" 3]

/-- No key is stored in the opened mall. -/
theorem unused_opened (m : Minted) : opened.Unused m where
  key := rfl
  hash _ h := absurd h List.not_mem_nil
  entitlements _ := rfl
  sets _ := rfl
  renewals _ := rfl

/-- The first shop's sales, with and without the second's between them. -/
theorem api_noninterference_sales :
    (Unwinding.answers env.step opened sales).filter (fun x => x.1.isFor env 1 opened)
        = Unwinding.answers env.step opened (sales.filter fun r => r.isFor env 1 opened) ∧
      (Unwinding.final env.step opened sales).seenBy 1
        = (Unwinding.final env.step opened
            (sales.filter fun r => r.isFor env 1 opened)).seenBy 1 := by
  refine api_noninterference env 1 opened sales (fun r _ => unused_opened r.minted) ?_
  have hapart : ∀ org org' m n, m ≠ n → UInt8.ofNat m ≠ UInt8.ofNat n →
      (sale org m).Apart (sale org' n) := by
    intro org org' m n hid hhash
    refine ⟨hid, fun h => hhash ?_⟩
    exact (Vector.replicate_inj.1 (Sha256.mk.inj h)).resolve_left (by decide)
  simp only [sales, List.pairwise_cons, List.mem_cons, List.not_mem_nil, or_false, forall_eq_or_imp,
    forall_eq, false_imp_iff, implies_true, List.Pairwise.nil, and_true]
  exact ⟨⟨hapart _ _ _ _ (by decide) (by decide), hapart _ _ _ _ (by decide) (by decide)⟩,
    hapart _ _ _ _ (by decide) (by decide)⟩

end Mall

end Sconce
