/-
# The keyring

A key is what a row of one of the three tables of tokens comes to: the door it is for, the hash
that opens it and the time it stops to.  Minting adds one key, revoking drops some, and nothing
else touches the keys.
-/
import Sconce.Serving.Credentials
import Sconce.Dashboard.Repositories

namespace Sconce

open Effect

/-! ## Keys -/

/-- What a token is for. -/
inductive Door where
  | read (scope : TokenScope)
  | manage (repo : Uuid)
  | publish (repo : Uuid)
  deriving DecidableEq

/-- The table a door looks into. -/
inductive DoorKind where
  | read
  | manage
  | publish
  deriving DecidableEq

namespace Door

def kind : Door → DoorKind
  | .read _ => .read
  | .manage _ => .manage
  | .publish _ => .publish

/-- The repository a token goes with. -/
def repo? : Door → Option Uuid
  | .read (.repo repo) => some repo
  | .read (.org _) => none
  | .manage repo => some repo
  | .publish repo => some repo

end Door

/-- A token as a door sees it. -/
structure Key where
  id : Uuid
  door : Door
  hash : Sha256
  expiresAt : Option Timestamp
  deriving DecidableEq

/-- The key of a row of `tokens`. -/
def ReadToken.key (id : Uuid) (t : ReadToken) : Key := ⟨id, .read t.scope, t.tokenHash, t.expiresAt⟩

/-- The key of a row of `service_tokens`. -/
def RepoToken.manageKey (id : Uuid) (t : RepoToken) : Key :=
  ⟨id, .manage t.repoId, t.tokenHash, t.expiresAt⟩

/-- The key of a row of `publish_tokens`. -/
def RepoToken.publishKey (id : Uuid) (t : RepoToken) : Key :=
  ⟨id, .publish t.repoId, t.tokenHash, t.expiresAt⟩

namespace Catalog

/-- The key of a row. -/
def keyAt (db : Catalog) : DoorKind → Uuid → Option Key
  | .read, id => (db.tokens.get? id).map (ReadToken.key id)
  | .manage, id => (db.serviceTokens.get? id).map (RepoToken.manageKey id)
  | .publish, id => (db.publishTokens.get? id).map (RepoToken.publishKey id)

/-- The key is one of the catalog's. -/
def HoldsKey (db : Catalog) (k : Key) : Prop := db.keyAt k.door.kind k.id = some k

/-- No two tokens of a table have the same hash. -/
def HashesUnique (db : Catalog) : Prop := ∀ k k', db.HoldsKey k → db.HoldsKey k' →
  k.door.kind = k'.door.kind → k.hash = k'.hash → k = k'

variable {db db' : Catalog} {kind : DoorKind} {id : Uuid} {k : Key}

/-- A key is found where its door looks, under its id. -/
theorem keyAt_self (h : db.keyAt kind id = some k) : k.door.kind = kind ∧ k.id = id := by
  cases kind with
  | read =>
    obtain ⟨t, -, rfl⟩ := Option.map_eq_some_iff.1 h
    exact ⟨rfl, rfl⟩
  | manage =>
    obtain ⟨t, -, rfl⟩ := Option.map_eq_some_iff.1 h
    exact ⟨rfl, rfl⟩
  | publish =>
    obtain ⟨t, -, rfl⟩ := Option.map_eq_some_iff.1 h
    exact ⟨rfl, rfl⟩

theorem holdsKey_of_keyAt (h : db.keyAt kind id = some k) : db.HoldsKey k := by
  obtain ⟨hkind, hid⟩ := keyAt_self h
  unfold HoldsKey
  rwa [hkind, hid]

/-- Two rows of a table with one hash are one row. -/
theorem HashesUnique.row_eq (hdb : db.HashesUnique) (kind : DoorKind)
    {table : Table Uuid RepoToken} (key : Uuid → RepoToken → Key)
    (hrows : ∀ id, db.keyAt kind id = (table.get? id).map (key id))
    (hhash : ∀ id t, (key id t).hash = t.tokenHash) {id id' : Uuid} {t t' : RepoToken}
    (ht : table.get? id = some t) (ht' : table.get? id' = some t')
    (hsame : t.tokenHash = t'.tokenHash) : t = t' := by
  have hkey : db.keyAt kind id = some (key id t) := by
    rw [hrows, ht]
    rfl
  have hkey' : db.keyAt kind id' = some (key id' t') := by
    rw [hrows, ht']
    rfl
  have hself := keyAt_self hkey
  have hself' := keyAt_self hkey'
  have hone : key id t = key id' t' := by
    apply hdb _ _ (holdsKey_of_keyAt hkey) (holdsKey_of_keyAt hkey')
    · rw [hself.1, hself'.1]
    · rw [hhash, hhash, hsame]
  have hid : id = id' := by rw [← hself.2, ← hself'.2, hone]
  rw [hid, ht'] at ht
  exact (Option.some.inj ht).symm

/-- The same tokens have the same keys. -/
theorem keyAt_congr (htokens : db'.tokens = db.tokens)
    (hservice : db'.serviceTokens = db.serviceTokens)
    (hpublish : db'.publishTokens = db.publishTokens) (kind : DoorKind) (id : Uuid) :
    db'.keyAt kind id = db.keyAt kind id := by
  cases kind <;> simp only [keyAt, htokens, hservice, hpublish]

/-! ## Steps on keys -/

/-- The step adds a key or none, and drops the keys selected. -/
structure Rekeys (new : Option Key) (gone : Key → Bool) (db db' : Catalog) : Prop where
  holds : ∀ k, db'.HoldsKey k ↔ new = some k ∨ db.HoldsKey k ∧ ¬ gone k
  isNew : ∀ k k', new = some k → db.HoldsKey k' → k'.door.kind = k.door.kind → k'.hash ≠ k.hash

/-- No key is added and none dropped. -/
theorem rekeys_kept {gone : Key → Bool} (hgone : ∀ k, gone k = false)
    (hkeys : ∀ kind id, db'.keyAt kind id = db.keyAt kind id) : Rekeys none gone db db' where
  holds k := by
    unfold HoldsKey
    simp [hkeys, hgone]
  isNew _ _ h := by cases h

/-- Rows are deleted. -/
theorem rekeys_dropped {gone : Key → Bool}
    (hkeys : ∀ kind id, db'.keyAt kind id = (db.keyAt kind id).filter fun k => !gone k) :
    Rekeys none gone db db' where
  holds k := by
    unfold HoldsKey
    rw [hkeys, Option.filter_eq_some_iff]
    simp
  isNew _ _ h := by cases h

/-- A row is inserted, with a hash that is new in its table. -/
theorem rekeys_added {gone : Key → Bool} (hgone : ∀ k, gone k = false)
    (hfree : db.keyAt k.door.kind k.id = none)
    (hhash : ∀ id k', db.keyAt k.door.kind id = some k' → k'.hash ≠ k.hash)
    (hself : ∀ id, db'.keyAt k.door.kind id =
      if id = k.id then some k else db.keyAt k.door.kind id)
    (hother : ∀ kind id, kind ≠ k.door.kind → db'.keyAt kind id = db.keyAt kind id) :
    Rekeys (some k) gone db db' where
  holds k' := by
    unfold HoldsKey
    rw [hgone]
    by_cases hkind : k'.door.kind = k.door.kind
    · rw [hkind, hself]
      split_ifs with hid
      · rw [hid, hfree]
        simp
      · have hne : k ≠ k' := by
          rintro rfl
          exact hid rfl
        simp [hne]
    · have hne : k ≠ k' := by
        rintro rfl
        exact hkind rfl
      simp [hother _ _ hkind, hne]
  isNew k₁ k' hk hk' hkind := by
    obtain rfl := Option.some.inj hk
    unfold HoldsKey at hk'
    rw [hkind] at hk'
    exact hhash _ k' hk'

/-- The step starts from a catalog with the same keys. -/
theorem Rekeys.congr {db₀ : Catalog} {new : Option Key} {gone : Key → Bool}
    (h : Rekeys new gone db₀ db') (hkeys : ∀ kind id, db₀.keyAt kind id = db.keyAt kind id) :
    Rekeys new gone db db' := by
  have hholds : ∀ k, db₀.HoldsKey k ↔ db.HoldsKey k := fun k => by
    unfold HoldsKey
    rw [hkeys]
  refine ⟨fun k => ?_, fun k k' hk hk' => h.isNew k k' hk ((hholds k').2 hk')⟩
  rw [h.holds, hholds]

/-- Hashes stay unique. -/
theorem Rekeys.hashesUnique {new : Option Key} {gone : Key → Bool} (h : Rekeys new gone db db')
    (hdb : db.HashesUnique) : db'.HashesUnique := by
  intro k k' hk hk' hkind hhash
  -- only one key is new, and its hash is none of the old ones
  rcases (h.holds k).1 hk with hnew | ⟨hold, -⟩
  · rcases (h.holds k').1 hk' with hnew' | ⟨hold', -⟩
    · exact Option.some.inj (hnew.symm.trans hnew')
    · exact absurd hhash.symm (h.isNew k k' hnew hold' hkind.symm)
  · rcases (h.holds k').1 hk' with hnew' | ⟨hold', -⟩
    · exact absurd hhash (h.isNew k' k hnew' hold hkind)
    · exact hdb k k' hold hold' hkind hhash

end Catalog

/-! ## What mints -/

/-- An answer comes with its key, where it has one; a failure leaves the catalog as it was. -/
structure Mints {ε α : Type} (key : α → Option Key) (m : Effect Catalog ε α) (db : Catalog) :
    Prop where
  ok : ∀ a, (exec m db).1 = .ok a →
    Catalog.Rekeys (key a) (fun _ => false) db (exec m db).2
  error : ∀ e, (exec m db).1 = .error e → (exec m db).2 = db

section Mints

variable {ε ε' α β : Type} {key : α → Option Key} {db : Catalog}

/-- What a computation that mints does to the keys. -/
theorem Mints.rekeys {m : Effect Catalog ε α} (h : Mints key m db) :
    Catalog.Rekeys ((exec m db).1.toOption.bind key) (fun _ => false) db (exec m db).2 := by
  cases hm : (exec m db).1 with
  | error e =>
    rw [h.error e hm]
    exact Catalog.rekeys_kept (fun _ => rfl) fun _ _ => rfl
  | ok a => exact h.ok a hm

theorem mints_throw (e : ε) : Mints key (throw e : Effect Catalog ε α) db where
  ok _ h := by cases h
  error _ _ := rfl

theorem mints_bind_throw (e : ε) (k : β → Effect Catalog ε α) :
    Mints key ((throw e : Effect Catalog ε β) >>= k) db where
  ok _ h := by cases h
  error _ _ := rfl

theorem mints_get_bind {k : Catalog → Effect Catalog ε α} (h : Mints key (k db) db) :
    Mints key (get >>= k) db where
  ok a ha := h.ok a ha
  error e he := h.error e he

theorem mints_ofExcept_bind {x : Except ε β} {k : β → Effect Catalog ε α}
    (h : ∀ b, x = .ok b → Mints key (k b) db) : Mints key (ofExcept x >>= k) db := by
  cases x with
  | error e => exact mints_bind_throw e k
  | ok b => exact ⟨(h b rfl).ok, (h b rfl).error⟩

theorem mints_set {key : PUnit → Option Key} {db' : Catalog}
    (h : Catalog.Rekeys (key ⟨⟩) (fun _ => false) db db') :
    Mints key (set db' : Effect Catalog ε PUnit) db where
  ok _ _ := h
  error _ he := by cases he

/-- The answer is a function of what mints. -/
theorem mints_map {key : β → Option Key} {m : Effect Catalog ε α} {f : α → β}
    (h : Mints (fun a => key (f a)) m db) : Mints key (m >>= fun a => pure (f a)) db := by
  obtain ⟨answer, db', hm⟩ : ∃ answer db', exec m db = (answer, db') := ⟨_, _, rfl⟩
  cases answer with
  | error e =>
    have hrun : exec (m >>= fun a => pure (f a)) db = (.error e, db') := by
      rw [exec_bind, hm]
      rfl
    have hdb := h.error e (congrArg Prod.fst hm)
    rw [hm] at hdb
    constructor
    · intro b hb
      rw [hrun] at hb
      cases hb
    · intro _ _
      rw [hrun]
      exact hdb
  | ok a =>
    have hrun : exec (m >>= fun a => pure (f a)) db = (.ok (f a), db') := by
      rw [exec_bind, hm]
      rfl
    have hkey := h.ok a (congrArg Prod.fst hm)
    rw [hm] at hkey
    constructor
    · intro b hb
      rw [hrun] at hb ⊢
      obtain rfl : f a = b := Except.ok.inj hb
      exact hkey
    · intro e he
      rw [hrun] at he
      cases he

theorem mints_adapt {m : Effect Catalog ε α} (f : ε → ε') (h : Mints key m db) :
    Mints key (ExceptT.adapt f m) db := by
  constructor
  · intro a ha
    rw [exec_adapt] at ha ⊢
    exact h.ok a (Except.ok_of_mapError ha)
  · intro e he
    rw [exec_adapt] at he ⊢
    cases hm : (exec m db).1 with
    | error e' => exact h.error e' hm
    | ok a => rw [hm] at he; cases he

end Mints

namespace Catalog

variable {db db' : Catalog} {newId : Uuid}

/-- A row goes into one of the tables, with a new id and a new hash. -/
theorem rekeys_insert {ν : Type} {table : Table Uuid ν} (key : Uuid → ν → Key) (row : ν)
    (hkey : (key newId row).id = newId) (hid : table.get? newId = none)
    (hhash : ∀ id t, table.get? id = some t → (key id t).hash ≠ (key newId row).hash)
    (hbefore : ∀ id, db.keyAt (key newId row).door.kind id = (table.get? id).map (key id))
    (hafter : ∀ id, db'.keyAt (key newId row).door.kind id =
      ((table.insertNew newId row).get? id).map (key id))
    (hother : ∀ kind id, kind ≠ (key newId row).door.kind → db'.keyAt kind id = db.keyAt kind id) :
    Rekeys (some (key newId row)) (fun _ => false) db db' := by
  refine rekeys_added (fun _ => rfl) ?_ (fun id k' hk' => ?_) (fun id => ?_) hother
  · rw [hbefore, hkey, hid]
    rfl
  · rw [hbefore] at hk'
    obtain ⟨t, ht, rfl⟩ := Option.map_eq_some_iff.1 hk'
    exact hhash id t ht
  · rw [hafter, hbefore, hkey, Table.get?_insertNew, hid]
    split_ifs with hnew
    · rw [hnew]
      rfl
    · rfl

/-- A read token that is new in its id and its hash. -/
theorem rekeys_insert_token (row : ReadToken) (hid : db.tokens.get? newId = none)
    (hhash : ∀ id t, db.tokens.get? id = some t → t.tokenHash ≠ row.tokenHash) :
    Rekeys (some (row.key newId)) (fun _ => false) db
      { db with tokens := db.tokens.insertNew newId row } := by
  refine rekeys_insert ReadToken.key row rfl hid hhash (fun _ => rfl) (fun _ => rfl) ?_
  intro kind id hkind
  cases kind <;> first | rfl | exact absurd rfl hkind

/-- A service token that is new in its id and its hash. -/
theorem rekeys_insert_serviceToken (row : RepoToken) (hid : db.serviceTokens.get? newId = none)
    (hhash : ∀ id t, db.serviceTokens.get? id = some t → t.tokenHash ≠ row.tokenHash) :
    Rekeys (some (row.manageKey newId)) (fun _ => false) db
      { db with serviceTokens := db.serviceTokens.insertNew newId row } := by
  refine rekeys_insert RepoToken.manageKey row rfl hid hhash (fun _ => rfl) (fun _ => rfl) ?_
  intro kind id hkind
  cases kind <;> first | rfl | exact absurd rfl hkind

/-- A publish token that is new in its id and its hash. -/
theorem rekeys_insert_publishToken (row : RepoToken) (hid : db.publishTokens.get? newId = none)
    (hhash : ∀ id t, db.publishTokens.get? id = some t → t.tokenHash ≠ row.tokenHash) :
    Rekeys (some (row.publishKey newId)) (fun _ => false) db
      { db with publishTokens := db.publishTokens.insertNew newId row } := by
  refine rekeys_insert RepoToken.publishKey row rfl hid hhash (fun _ => rfl) (fun _ => rfl) ?_
  intro kind id hkind
  cases kind <;> first | rfl | exact absurd rfl hkind

end Catalog

/-- What a unique constraint on an id and a hash lets in is new. -/
theorem newRow_of_not_any {ν : Type} {table : Table Uuid ν} (hashOf : ν → Sha256) {newId : Uuid}
    {hash : Sha256} (h : ¬ ((table.get? newId).isSome ∨
      (table.rows.any fun r => hashOf r.2 = hash) = true)) :
    table.get? newId = none ∧ ∀ id t, table.get? id = some t → hashOf t ≠ hash := by
  obtain ⟨hid, hany⟩ := not_or.1 h
  refine ⟨by simpa using hid, fun id t ht heq => hany ?_⟩
  rw [List.any_eq_true]
  exact ⟨(id, t), (Table.mem_rows_iff _ _ _).2 ht, decide_eq_true heq⟩

/-- The scope of what an exchange mints, which the policy names. -/
def Catalog.exchangeScope (db : Catalog) (m : CiMatch) : Option TokenScope :=
  match m.tokenScope with
  | .repo => some (.repo m.repoId)
  | .org => (db.repositories.get? m.repoId).map fun r => .org r.orgId

section Minters

variable {db : Catalog} (env : Credentials) (fresh : Fresh)

/-- A read token of a repository, for as long as its days. -/
theorem mints_createToken (repo : Uuid) (label : Option String) (expiresInDays : Option ℤ) :
    Mints (fun token => some ⟨fresh.id, .read (.repo repo), env.tokenHash token,
        expiresInDays.map (env.session.addDays fresh.now)⟩)
      (createToken env fresh repo label expiresInDays) db := by
  unfold createToken
  refine mints_get_bind (mints_ofExcept_bind fun settings _ => ?_)
  split
  · exact mints_throw _
  · dsimp only
    split
    · exact mints_bind_throw _ _
    · split
      · exact mints_bind_throw _ _
      · split
        · exact mints_bind_throw _ _
        · rename_i hnew
          obtain ⟨hid, hhash⟩ := newRow_of_not_any ReadToken.tokenHash hnew
          exact mints_map (mints_set (Catalog.rekeys_insert_token
            ⟨_, _, label, _, ⟨none, none⟩, .manual⟩ hid hhash))

/-- A read token that is inserted is the key. -/
theorem mints_insertReadToken (newId : Uuid) (row : ReadToken) :
    Mints (fun _ => some (row.key newId)) (insertReadToken newId row) db := by
  unfold insertReadToken
  refine mints_get_bind ?_
  dsimp only
  split
  · exact mints_bind_throw _ _
  · rename_i hnew
    obtain ⟨hid, hhash⟩ := newRow_of_not_any ReadToken.tokenHash hnew
    split
    · exact mints_bind_throw _ _
    · exact mints_set (Catalog.rekeys_insert_token row hid hhash)

/-- A read token of a repository, for as long as its seconds. -/
theorem mints_createCiToken (repo : Uuid) (label : String) (ttlSecs : ℤ) :
    Mints (fun token => some ⟨fresh.id, .read (.repo repo), env.tokenHash token,
        some (fresh.now + toTimestamp ttlSecs)⟩)
      (createCiToken env fresh repo label ttlSecs) db :=
  mints_map (mints_insertReadToken fresh.id (expiringToken env fresh.now _ _ label ttlSecs _))

/-- A read token of an organization, for as long as its seconds. -/
theorem mints_createOrgCiToken (org : Uuid) (label : String) (ttlSecs : ℤ) :
    Mints (fun token => some ⟨fresh.id, .read (.org org), env.tokenHash token,
        some (fresh.now + toTimestamp ttlSecs)⟩)
      (createOrgCiToken env fresh org label ttlSecs) db :=
  mints_map (mints_insertReadToken fresh.id (expiringToken env fresh.now _ _ label ttlSecs _))

/-- A read token of a login, for as long as its seconds. -/
theorem mints_createSessionToken (org : Uuid) (label : String) (ttlSecs : ℤ) :
    Mints (fun token => some ⟨fresh.id, .read (.org org), env.tokenHash token,
        some (fresh.now + toTimestamp ttlSecs)⟩)
      (createSessionToken env fresh org label ttlSecs) db :=
  mints_map (mints_insertReadToken fresh.id (expiringToken env fresh.now _ _ label ttlSecs _))

/-- A token that is admitted is new in its id and its hash. -/
theorem newRow_of_admitsToken {table : Table Uuid RepoToken} {newId : Uuid} {row : RepoToken}
    (h : db.admitsToken table newId row = .ok ()) : table.get? newId = none ∧
      ∀ id t, table.get? id = some t → t.tokenHash ≠ row.tokenHash := by
  unfold Catalog.admitsToken at h
  split at h
  · cases h
  · rename_i hnew
    exact newRow_of_not_any RepoToken.tokenHash hnew

/-- A service token of a repository, for as long as its days. -/
theorem mints_createServiceToken (repo : Uuid) (label : Option String) (expiresDays : Option ℤ) :
    Mints (fun answer => some ⟨answer.2, .manage repo, env.tokenHash answer.1,
        expiresDays.map (env.session.addDays fresh.now)⟩)
      (createServiceToken env fresh repo label expiresDays) db := by
  unfold createServiceToken
  dsimp only
  split
  · exact mints_bind_throw _ _
  · split
    · exact mints_bind_throw _ _
    · refine mints_get_bind (mints_ofExcept_bind fun _ hadmits => ?_)
      obtain ⟨hid, hhash⟩ := newRow_of_admitsToken hadmits
      exact mints_map (mints_set (Catalog.rekeys_insert_serviceToken _ hid hhash))

/-- A publish token of a repository, for as long as its seconds. -/
theorem mints_createPublishToken (repo : Uuid) (label : String) (ttlSecs : ℤ) :
    Mints (fun token => some ⟨fresh.id, .publish repo, env.tokenHash token,
        some (fresh.now + toTimestamp ttlSecs)⟩)
      (createPublishToken env fresh repo label ttlSecs) db := by
  unfold createPublishToken
  refine mints_get_bind (mints_ofExcept_bind fun _ hadmits => ?_)
  obtain ⟨hid, hhash⟩ := newRow_of_admitsToken hadmits
  exact mints_map (mints_set (Catalog.rekeys_insert_publishToken _ hid hhash))

/-- An exchange for reading mints a read token of the policy's scope. -/
theorem mints_oauthCi (check : JwtCheck) (r : CiExchange) :
    Mints (fun answer => (ciMatch check fresh.now .read db r).toOption.bind fun m =>
        (db.exchangeScope m).map fun scope => ⟨fresh.id, .read scope,
          env.tokenHash answer.accessToken, some (fresh.now + toTimestamp answer.expiresIn)⟩)
      (oauthCi env check fresh r) db := by
  unfold oauthCi
  refine mints_get_bind (mints_ofExcept_bind fun m hm => ?_)
  simp only [hm, Except.toOption, Option.bind_some, Catalog.exchangeScope]
  cases m.tokenScope with
  | repo =>
    exact mints_map (mints_adapt _ (mints_createCiToken env fresh m.repoId m.label m.ttl))
  | org =>
    dsimp only
    cases hrepo : db.repositories.get? m.repoId with
    | none => exact mints_throw _
    | some row =>
      exact mints_map (mints_adapt _ (mints_createOrgCiToken env fresh row.orgId m.label m.ttl))

/-- An exchange for publishing mints a publish token of the repository. -/
theorem mints_oauthCiPublish (check : JwtCheck) (r : CiExchange) :
    Mints (fun answer => (ciMatch check fresh.now .publish db r).toOption.map fun m =>
        ⟨fresh.id, .publish m.repoId, env.tokenHash answer.accessToken,
          some (fresh.now + toTimestamp answer.expiresIn)⟩)
      (oauthCiPublish env check fresh r) db := by
  unfold oauthCiPublish
  refine mints_get_bind (mints_ofExcept_bind fun m hm => ?_)
  simp only [hm, Except.toOption, Option.map_some]
  exact mints_map (mints_adapt _ (mints_createPublishToken env fresh m.repoId m.label m.ttl))

end Minters

/-! ## What drops -/

/-- A filter that lets everything through. -/
theorem filter_true {ν : Type} (o : Option ν) : o.filter (fun _ => true) = o := by
  cases o <;> rfl

section Drops

variable (db : Catalog)

/-- Rows are deleted from the three tables. -/
theorem Catalog.rekeys_deleted {db db' : Catalog} {gone : Key → Bool}
    (htokens : ∀ id, db'.tokens.get? id = (db.tokens.get? id).filter fun t => !gone (t.key id))
    (hservice : ∀ id, db'.serviceTokens.get? id =
      (db.serviceTokens.get? id).filter fun t => !gone (t.manageKey id))
    (hpublish : ∀ id, db'.publishTokens.get? id =
      (db.publishTokens.get? id).filter fun t => !gone (t.publishKey id)) :
    Rekeys none gone db db' := by
  refine rekeys_dropped fun kind id => ?_
  cases kind with
  | read =>
    simp only [keyAt, htokens, Option.filter_map]
    rfl
  | manage =>
    simp only [keyAt, hservice, Option.filter_map]
    rfl
  | publish =>
    simp only [keyAt, hpublish, Option.filter_map]
    rfl

theorem rekeys_revokeToken (repo token : Uuid) :
    Catalog.Rekeys none (fun k => k.id = token ∧ k.door = .read (.repo repo)) db
      (exec (revokeToken repo token) db).2 := by
  refine Catalog.rekeys_deleted (fun id => ?_) (fun id => ?_) fun id => ?_
  · show (db.tokens.delete _).get? id = _
    simp [ReadToken.key]
  · show db.serviceTokens.get? id = _
    simp [RepoToken.manageKey, filter_true]
  · show db.publishTokens.get? id = _
    simp [RepoToken.publishKey, filter_true]

/-- A service token that is revoked is gone. -/
theorem rekeys_revokeServiceToken (repo token : Uuid) :
    Catalog.Rekeys none (fun k => k.id = token ∧ k.door = .manage repo) db
      (exec (revokeServiceToken repo token) db).2 := by
  refine Catalog.rekeys_deleted (fun id => ?_) (fun id => ?_) fun id => ?_
  · show db.tokens.get? id = _
    simp [ReadToken.key, filter_true]
  · show (db.serviceTokens.delete _).get? id = _
    simp [RepoToken.manageKey]
  · show db.publishTokens.get? id = _
    simp [RepoToken.publishKey, filter_true]

/-- The tokens of a deleted repository are gone. -/
theorem rekeys_dropRepository (repo : Uuid) :
    Catalog.Rekeys none (fun k => k.door.repo? = some repo) db (db.dropRepository repo) := by
  refine Catalog.rekeys_deleted (fun id => ?_) (fun id => ?_) fun id => ?_
  · show (db.tokens.delete _).get? id = _
    rw [Table.get?_delete]
    refine congrArg (Option.filter · _) (funext fun t => ?_)
    obtain ⟨hash, scope⟩ := t
    cases scope <;> simp [ReadToken.key, Door.repo?]
  · show (db.serviceTokens.delete _).get? id = _
    simp [RepoToken.manageKey, Door.repo?]
  · show (db.publishTokens.delete _).get? id = _
    simp [RepoToken.publishKey, Door.repo?]

/-- A policy is no part of a key. -/
theorem rekeys_setTokenPolicy (repo : Uuid) (label : String) (policy : PolicyOverride) :
    Catalog.Rekeys none (fun _ => false) db (exec (setTokenPolicy repo label policy) db).2 := by
  refine Catalog.rekeys_kept (fun _ => rfl) fun kind id => ?_
  cases kind with
  | read =>
    show ((db.tokens.update _).get? id).map _ = (db.tokens.get? id).map _
    rw [Table.get?_update, Option.map_map]
    refine congrArg (Option.map · _) (funext fun t => ?_)
    simp only [Function.comp_apply]
    split <;> rfl
  | manage => rfl
  | publish => rfl

/-- A repository that goes takes its tokens with it. -/
theorem rekeys_deleteRepo (newId repo : Uuid) :
    Catalog.Rekeys none (fun k => (exec (deleteRepo newId repo) db).1.toOption.getD false &&
      decide (k.door.repo? = some repo)) db (exec (deleteRepo newId repo) db).2 := by
  cases hrow : db.repositories.get? repo with
  | none =>
    have hexec : exec (deleteRepo newId repo) db = (.ok false, db) := by
      unfold deleteRepo
      rw [exec_bind, exec_get]
      simp only [andThen, hrow]
      rfl
    rw [hexec]
    exact Catalog.rekeys_kept (fun k => by simp [Except.toOption]) fun _ _ => rfl
  | some r =>
    have hexec : exec (deleteRepo newId repo) db =
        andThen (exec (commitDelete newId r.orgId repo r.slug) db) fun _ s => (.ok true, s) := by
      unfold deleteRepo
      rw [exec_bind, exec_get]
      simp only [andThen, hrow]
      exact exec_bind _ _ _
    rw [hexec]
    obtain ⟨answer, db', hrun⟩ : ∃ answer db',
        exec (commitDelete newId r.orgId repo r.slug) db = (answer, db') := ⟨_, _, rfl⟩
    rw [hrun]
    cases answer with
    | error e =>
      -- the transaction is rolled back, and no token goes
      obtain rfl := atomically_error hrun
      exact Catalog.rekeys_kept (fun k => by simp [andThen, Except.toOption]) fun _ _ => rfl
    | ok _ =>
      obtain ⟨-, -, rfl⟩ := commitDelete_ok hrun
      have hdrop := rekeys_dropRepository (db.withRetired newId (.repo r.orgId) r.slug repo) repo
      simp only [andThen, Except.toOption, Option.getD_some, Bool.true_and]
      exact hdrop.congr (Catalog.keyAt_congr rfl rfl rfl)

end Drops

end Sconce
