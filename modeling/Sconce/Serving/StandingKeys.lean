/-
# Doors open to standing keys

The server mints tokens, revokes them and deletes repositories in any order, with anything else
in between.  A key stands after a run if a request minted it and none since dropped it; a door
opens to the tokens whose key stands and has not expired, and to no others.
-/
import Sconce.Lib.Standing
import Sconce.Serving.Keyring
import Sconce.Accounts.ScimPatches

namespace Sconce

open Effect

/-! ## Requests -/

/-- A change of the database that leaves the tables of tokens alone. -/
structure OtherEdit where
  edit : Database → Database
  keeps : ∀ db, (edit db).catalog.tokens = db.catalog.tokens ∧
    (edit db).catalog.serviceTokens = db.catalog.serviceTokens ∧
    (edit db).catalog.publishTokens = db.catalog.publishTokens

/-- What writes the tables of tokens, and everything else. -/
inductive TokenStep where
  | createToken (fresh : Fresh) (repo : Uuid) (label : Option String) (expiresInDays : Option ℤ)
  | revokeToken (repo token : Uuid)
  | setTokenPolicy (repo : Uuid) (label : String) (policy : PolicyOverride)
  | deleteRepo (newId repo : Uuid)
  | createServiceToken (fresh : Fresh) (repo : Uuid) (label : Option String)
      (expiresDays : Option ℤ)
  | revokeServiceToken (repo token : Uuid)
  | oauthCi (fresh : Fresh) (r : CiExchange)
  | oauthCiPublish (fresh : Fresh) (r : CiExchange)
  | oauthDeviceToken (fresh : Fresh) (deviceCode : String)
  | other (change : OtherEdit)

namespace TokenStep

variable (env : Credentials) (check : JwtCheck) (db : Database)

/-- The database after a step. -/
def run : TokenStep → Database
  | .createToken fresh repo label days =>
    (exec (onCatalog (Sconce.createToken env fresh repo label days)) db).2
  | .revokeToken repo token => (exec (onCatalog (Sconce.revokeToken repo token)) db).2
  | .setTokenPolicy repo label policy =>
    (exec (onCatalog (Sconce.setTokenPolicy repo label policy)) db).2
  | .deleteRepo newId repo => (exec (onCatalog (Sconce.deleteRepo newId repo)) db).2
  | .createServiceToken fresh repo label days =>
    (exec (onCatalog (Sconce.createServiceToken env fresh repo label days)) db).2
  | .revokeServiceToken repo token => (exec (onCatalog (Sconce.revokeServiceToken repo token)) db).2
  | .oauthCi fresh r => (exec (onCatalog (Sconce.oauthCi env check fresh r)) db).2
  | .oauthCiPublish fresh r => (exec (onCatalog (Sconce.oauthCiPublish env check fresh r)) db).2
  | .oauthDeviceToken fresh code => (exec (Sconce.oauthDeviceToken env fresh code) db).2
  | .other change => change.edit db

/-- The key of the token a step hands out. -/
def minted : TokenStep → Option Key
  | .createToken fresh repo label days =>
    (exec (Sconce.createToken env fresh repo label days) db.catalog).1.toOption.bind fun token =>
      some ⟨fresh.id, .read (.repo repo), env.tokenHash token,
        days.map (env.session.addDays fresh.now)⟩
  | .createServiceToken fresh repo label days =>
    (exec (Sconce.createServiceToken env fresh repo label days) db.catalog).1.toOption.bind
      fun answer => some ⟨answer.2, .manage repo, env.tokenHash answer.1,
        days.map (env.session.addDays fresh.now)⟩
  | .oauthCi fresh r =>
    (exec (Sconce.oauthCi env check fresh r) db.catalog).1.toOption.bind fun answer =>
      (ciMatch check fresh.now .read db.catalog r).toOption.bind fun m =>
        (db.catalog.exchangeScope m).map fun scope => ⟨fresh.id, .read scope,
          env.tokenHash answer.accessToken, some (fresh.now + toTimestamp answer.expiresIn)⟩
  | .oauthCiPublish fresh r =>
    (exec (Sconce.oauthCiPublish env check fresh r) db.catalog).1.toOption.bind fun answer =>
      (ciMatch check fresh.now .publish db.catalog r).toOption.map fun m =>
        ⟨fresh.id, .publish m.repoId, env.tokenHash answer.accessToken,
          some (fresh.now + toTimestamp answer.expiresIn)⟩
  | .oauthDeviceToken fresh code =>
    -- the flow names the organization, the answer the token
    match (exec (Sconce.oauthDeviceToken env fresh code) db).1,
        (exec (pollDeviceFlow env fresh.now code) db.accounts).1 with
    | .ok (.token t), .ok (.approved org) =>
      some ⟨fresh.id, .read (.org org), env.tokenHash t.accessToken,
        some (fresh.now + toTimestamp t.expiresIn)⟩
    | _, _ => none
  | .revokeToken _ _ => none
  | .setTokenPolicy _ _ _ => none
  | .deleteRepo _ _ => none
  | .revokeServiceToken _ _ => none
  | .other _ => none

/-- The keys a step drops. -/
def drops : TokenStep → Key → Bool
  -- `revoke_token` asks for the `repo_id`, so it never drops a token of an organization
  | .revokeToken repo token => fun k => k.id = token ∧ k.door = .read (.repo repo)
  | .revokeServiceToken repo token => fun k => k.id = token ∧ k.door = .manage repo
  | .deleteRepo newId repo => fun k =>
    (exec (Sconce.deleteRepo newId repo) db.catalog).1.toOption.getD false &&
      decide (k.door.repo? = some repo)
  | .createToken _ _ _ _ => fun _ => false
  | .setTokenPolicy _ _ _ => fun _ => false
  | .createServiceToken _ _ _ _ => fun _ => false
  | .oauthCi _ _ => fun _ => false
  | .oauthCiPublish _ _ => fun _ => false
  | .oauthDeviceToken _ _ => fun _ => false
  | .other _ => fun _ => false

variable {db}

/-- What a poll that is not granted leaves is what it found. -/
theorem rekeys_oauthDeviceToken (fresh : Fresh) (code : String) :
    Catalog.Rekeys (minted env check db (.oauthDeviceToken fresh code)) (fun _ => false) db.catalog
      (exec (Sconce.oauthDeviceToken env fresh code) db).2.catalog := by
  have hkept : ∀ db' : Catalog, db' = db.catalog →
      Catalog.Rekeys none (fun _ => false) db.catalog db' := by
    rintro _ rfl
    exact Catalog.rekeys_kept (fun _ => rfl) fun _ _ => rfl
  unfold minted Sconce.oauthDeviceToken
  simp only [exec_bind, exec_outcome, onAccounts, exec_onPart, andThen]
  cases hpoll : (exec (pollDeviceFlow env fresh.now code) db.accounts).1 with
  | error e => exact hkept _ rfl
  | ok answer =>
    cases answer with
    | pending => exact hkept _ rfl
    | denied => exact hkept _ rfl
    | expired => exact hkept _ rfl
    | approved org =>
      -- the poll wrote the accounts only, so the token goes into the catalog it was found with
      have hmints : Mints _ (createSessionToken env fresh org "bougie login" deviceTokenTtlSecs)
          db.catalog := mints_createSessionToken env fresh org "bougie login" deviceTokenTtlSecs
      simp only [exec_bind, exec_outcome, onCatalog, exec_onPart, andThen]
      cases htoken : (exec (createSessionToken env fresh org "bougie login" deviceTokenTtlSecs)
          db.catalog).1 with
      | error e => exact hkept _ (hmints.error e htoken)
      | ok token => exact hmints.ok token htoken

/-- **What one step does to the keys.** -/
theorem rekeys (step : TokenStep) : Catalog.Rekeys (step.minted env check db) (step.drops db)
    db.catalog (step.run env check db).catalog := by
  cases step with
  | createToken fresh repo label days => exact (mints_createToken env fresh repo label days).rekeys
  | revokeToken repo token => exact rekeys_revokeToken db.catalog repo token
  | setTokenPolicy repo label policy => exact rekeys_setTokenPolicy db.catalog repo label policy
  | deleteRepo newId repo => exact rekeys_deleteRepo db.catalog newId repo
  | createServiceToken fresh repo label days =>
    exact (mints_createServiceToken env fresh repo label days).rekeys
  | revokeServiceToken repo token => exact rekeys_revokeServiceToken db.catalog repo token
  | oauthCi fresh r => exact (mints_oauthCi env fresh check r).rekeys
  | oauthCiPublish fresh r => exact (mints_oauthCiPublish env fresh check r).rekeys
  | oauthDeviceToken fresh code => exact rekeys_oauthDeviceToken env check fresh code
  | other change =>
    obtain ⟨htokens, hservice, hpublish⟩ := change.keeps db
    exact Catalog.rekeys_kept (fun _ => rfl) (Catalog.keyAt_congr htokens hservice hpublish)

end TokenStep

/-! ## Runs -/

section Runs

variable (env : Credentials) (check : JwtCheck)

/-- The ledger of keys. -/
def keyLedger : Run.Ledger (TokenStep.run env check) Key where
  shows db k := db.catalog.HoldsKey k
  sets db step k := step.minted env check db = some k
  clears db step k := step.drops db k
  shows_step _ step k := (step.rekeys env check).holds k

/-- A key of the door with the hash stands after the steps, and opens at the time. -/
def StandingKey (db : Database) (steps : List TokenStep) (now : Timestamp) (door : Door)
    (hash : Sha256) : Prop :=
  ∃ k, (keyLedger env check).Stands db steps k ∧ k.door = door ∧ k.hash = hash ∧
    unexpired now k.expiresAt = true

end Runs

/-! ## Doors -/

/-- A key of the door with the hash is there, and opens at the time. -/
def Catalog.OpensWith (db : Catalog) (now : Timestamp) (door : Door) (hash : Sha256) : Prop :=
  ∃ k, db.HoldsKey k ∧ k.door = door ∧ k.hash = hash ∧ unexpired now k.expiresAt = true

section Doors

variable {db : Catalog} {now : Timestamp} {hash : Sha256} {repo : Uuid}

/-- A key of a table is the key of one of its rows. -/
theorem exists_key_iff {ν : Type} {table : Table Uuid ν} {key : Uuid → ν → Key}
    (hid : ∀ id t, (key id t).id = id) (p : Key → Prop) :
    (∃ k, (table.get? k.id).map (key k.id) = some k ∧ p k) ↔
      ∃ id t, table.get? id = some t ∧ p (key id t) := by
  constructor
  · rintro ⟨k, hk, hp⟩
    obtain ⟨t, ht, hkey⟩ := Option.map_eq_some_iff.1 hk
    rw [← hkey] at hp
    exact ⟨k.id, t, ht, hp⟩
  · rintro ⟨id, t, ht, hp⟩
    refine ⟨key id t, ?_, hp⟩
    rw [hid, ht]
    rfl

/-- A door looks into its own table. -/
theorem opensWith_iff (door : Door) : db.OpensWith now door hash ↔
    ∃ k, db.keyAt door.kind k.id = some k ∧ k.door = door ∧ k.hash = hash ∧
      unexpired now k.expiresAt = true := by
  refine exists_congr fun k => and_congr_left ?_
  rintro ⟨rfl, -⟩
  exact Iff.rfl

/-- A read door opens with a token of its scope that has not expired. -/
theorem opensWith_read_iff (scope : TokenScope) : db.OpensWith now (.read scope) hash ↔
    ∃ id t, db.tokens.get? id = some t ∧ t.scope = scope ∧ t.tokenHash = hash ∧
      unexpired now t.expiresAt = true := by
  rw [opensWith_iff]
  refine (exists_key_iff (fun _ _ => rfl) _).trans ?_
  simp only [ReadToken.key, Door.read.injEq]

/-- The door of the API opens with a service token that has not expired. -/
theorem opensWith_manage_iff : db.OpensWith now (.manage repo) hash ↔
    ∃ id t, db.serviceTokens.get? id = some t ∧ t.repoId = repo ∧ t.tokenHash = hash ∧
      unexpired now t.expiresAt = true := by
  rw [opensWith_iff]
  refine (exists_key_iff (fun _ _ => rfl) _).trans ?_
  simp only [RepoToken.manageKey, Door.manage.injEq]

/-- The door of the publish routes opens with a publish token that has not expired. -/
theorem opensWith_publish_iff : db.OpensWith now (.publish repo) hash ↔
    ∃ id t, db.publishTokens.get? id = some t ∧ t.repoId = repo ∧ t.tokenHash = hash ∧
      unexpired now t.expiresAt = true := by
  rw [opensWith_iff]
  refine (exists_key_iff (fun _ _ => rfl) _).trans ?_
  simp only [RepoToken.publishKey, Door.publish.injEq]

/-- The first row with a hash is the only one. -/
theorem find_token_iff {table : Table Uuid RepoToken}
    (hunique : ∀ id t id' t', table.get? id = some t → table.get? id' = some t' →
      t.tokenHash = t'.tokenHash → t = t') :
    (table.rows.find? fun t => t.2.tokenHash = hash ∧ unexpired now t.2.expiresAt).map
        (·.2.repoId) = some repo ↔
      ∃ id t, table.get? id = some t ∧ t.repoId = repo ∧ t.tokenHash = hash ∧
        unexpired now t.expiresAt = true := by
  constructor
  · intro h
    obtain ⟨r, hfind, hrepo⟩ := Option.map_eq_some_iff.1 h
    have hr : r.2.tokenHash = hash ∧ unexpired now r.2.expiresAt = true := by
      simpa using List.find?_some hfind
    exact ⟨r.1, r.2, (Table.mem_rows_iff _ _ _).1 (List.mem_of_find?_eq_some hfind), hrepo, hr⟩
  · rintro ⟨id, t, ht, rfl, rfl, hopen⟩
    cases hfind : table.rows.find? fun r => r.2.tokenHash = t.tokenHash ∧
        unexpired now r.2.expiresAt with
    | none =>
      have hno := List.find?_eq_none.1 hfind (id, t) ((Table.mem_rows_iff _ _ _).2 ht)
      exact absurd (decide_eq_true ⟨rfl, hopen⟩) hno
    | some r =>
      have hr : r.2.tokenHash = t.tokenHash ∧ unexpired now r.2.expiresAt = true := by
        simpa using List.find?_some hfind
      have hmem := (Table.mem_rows_iff _ _ _).1 (List.mem_of_find?_eq_some hfind)
      rw [Option.map_some, hunique _ _ _ _ hmem ht hr.1]

/-- A service token resolves to the repository of its key. -/
theorem resolveServiceToken_iff (hdb : db.HashesUnique) :
    db.resolveServiceToken now hash = some repo ↔ db.OpensWith now (.manage repo) hash := by
  rw [opensWith_manage_iff]
  apply find_token_iff
  intro id t id' t' ht ht' hsame
  exact hdb.row_eq .manage RepoToken.manageKey (fun _ => rfl) (fun _ _ => rfl) ht ht' hsame

/-- A publish token resolves to the repository of its key. -/
theorem resolvePublishToken_iff (hdb : db.HashesUnique) :
    db.resolvePublishToken now hash = some repo ↔ db.OpensWith now (.publish repo) hash := by
  rw [opensWith_publish_iff]
  apply find_token_iff
  intro id t id' t' ht ht' hsame
  exact hdb.row_eq .publish RepoToken.publishKey (fun _ => rfl) (fun _ _ => rfl) ht ht' hsame

/-- The check of a request: its token is of the repository that its path names. -/
theorem tokenGate_iff {ε : Type} (noToken unknown noRepo other : ε) (presented : Option String)
    (resolve : String → Option Uuid) (path : Option Uuid) :
    (match presented with
      | none => .error noToken
      | some token =>
        match resolve token with
        | none => .error unknown
        | some tokenRepo =>
          match path with
          | none => .error noRepo
          | some pathRepo => if tokenRepo = pathRepo then .ok pathRepo else .error other :
        Except ε Uuid) = .ok repo ↔
      path = some repo ∧ ∃ token, presented = some token ∧ resolve token = some repo := by
  cases presented with
  | none => simp
  | some token =>
    simp only [Option.some.injEq, exists_eq_left']
    cases resolve token with
    | none => simp
    | some tokenRepo =>
      cases path with
      | none => simp
      | some pathRepo =>
        simp only [Option.some.injEq]
        split_ifs with hsame
        · simp [hsame]
        · simp only [false_iff, not_and]
          rintro rfl rfl
          exact hsame rfl

/-- The management API lets in the tokens with a key of the repository the path names. -/
theorem authedRepo_iff (env : ApiEnv) (r : ApiRequest) (hdb : db.HashesUnique) :
    authedRepo env r db = .ok repo ↔ db.resolveRepo r.org r.repo = some repo ∧
      ∃ token, extractToken env.read r.authorization = some token ∧
        db.OpensWith r.now (.manage repo) (env.read.tokenHash token) := by
  simp only [← resolveServiceToken_iff hdb]
  exact tokenGate_iff ..

/-- The publish routes let in the tokens with a key of the repository the path names. -/
theorem publishAuthedRepo_iff (env : ReadEnv) (org name : String) (authorization : Authorization)
    (hdb : db.HashesUnique) :
    publishAuthedRepo env db now org name authorization = .ok repo ↔
      db.resolveRepo org name = some repo ∧ ∃ token, extractToken env authorization = some token ∧
        db.OpensWith now (.publish repo) (env.tokenHash token) := by
  simp only [← resolvePublishToken_iff hdb]
  exact tokenGate_iff ..

/-- A token resolves for a repository where a key of a scope that covers it is there. -/
theorem resolveTokenPolicy_isSome_iff : (db.resolveTokenPolicy now repo hash).isSome = true ↔
    ∃ r, db.repositories.get? repo = some r ∧ ∃ scope : TokenScope, scope.covers repo r = true ∧
      db.OpensWith now (.read scope) hash := by
  unfold Catalog.resolveTokenPolicy
  cases db.repositories.get? repo with
  | none => simp
  | some r =>
    simp only [Option.some.injEq, exists_eq_left', opensWith_read_iff]
    have hfind : (db.tokens.rows.find? fun t => t.2.tokenHash == hash &&
        unexpired now t.2.expiresAt && t.2.scope.covers repo r).isSome = true ↔
        ∃ id t, db.tokens.get? id = some t ∧ t.tokenHash = hash ∧
          unexpired now t.expiresAt = true ∧ t.scope.covers repo r = true := by
      rw [List.find?_isSome]
      constructor
      · rintro ⟨⟨id, t⟩, hmem, hp⟩
        simp only [Bool.and_eq_true, beq_iff_eq] at hp
        exact ⟨id, t, (Table.mem_rows_iff _ _ _).1 hmem, hp.1.1, hp.1.2, hp.2⟩
      · rintro ⟨id, t, ht, hhash, hopen, hcovers⟩
        refine ⟨(id, t), (Table.mem_rows_iff _ _ _).2 ht, ?_⟩
        simp [hhash, hopen, hcovers]
    have hpolicy : ∀ found : Option (Uuid × ReadToken),
        (found.bind fun t => some t.2.policy).isSome = found.isSome := by
      rintro (_ | _) <;> rfl
    refine (Bool.eq_iff_iff.1 (hpolicy _)).trans (hfind.trans ?_)
    constructor
    · rintro ⟨id, t, ht, hhash, hopen, hcovers⟩
      exact ⟨t.scope, hcovers, id, t, ht, rfl, hhash, hopen⟩
    · rintro ⟨scope, hcovers, id, t, ht, rfl, hhash, hopen⟩
      exact ⟨id, t, ht, hhash, hopen, hcovers⟩

/-- The read routes give full access to the tokens with a key that covers the repository. -/
theorem authorize_full_iff (env : ReadEnv) (authorization : Authorization) :
    (∃ policy, authorize env db now repo authorization = .ok (.full, policy)) ↔
      ∃ token, extractToken env authorization = some token ∧
        ∃ r, db.repositories.get? repo = some r ∧ ∃ scope : TokenScope,
          scope.covers repo r = true ∧ db.OpensWith now (.read scope) (env.tokenHash token) := by
  by_cases habsent : authorization = .absent
  · subst habsent
    simp only [authorize, extractToken, if_true, reduceCtorEq, false_and, exists_false, iff_false]
    rintro ⟨policy, h⟩
    cases hrepo : db.repositories.get? repo with
    | none => simp [hrepo, fetchOne, bind, Except.bind] at h
    | some r => cases hanonymous : r.anonymousAccess <;>
        simp [hrepo, hanonymous, fetchOne, bind, Except.bind, pure, Except.pure, throw,
          throwThe, MonadExceptOf.throw] at h
  · simp only [authorize, if_neg habsent]
    cases extractToken env authorization with
    | none => simp [throw, throwThe, MonadExceptOf.throw]
    | some token =>
      simp only [Option.some.injEq, exists_eq_left']
      rw [← resolveTokenPolicy_isSome_iff]
      cases db.resolveTokenPolicy now repo (env.tokenHash token) with
      | some policy => simp [pure, Except.pure]
      | none =>
        cases db.resolveLicense now repo (env.tokenHash token) with
        | none => simp [throw, throwThe, MonadExceptOf.throw]
        | some license =>
          cases hkey : db.licenseKeys.get? license <;>
            simp [hkey, fetchOne, pure, Except.pure, bind, Except.bind]

end Doors

/-! ## Every door, after any run -/

section Final

variable (env : Credentials) (check : JwtCheck)

/-- No run makes two tokens of a table with one hash. -/
theorem hashesUnique_final {db : Database} (hdb : db.catalog.HashesUnique)
    (steps : List TokenStep) :
    (Run.final (TokenStep.run env check) db steps).catalog.HashesUnique :=
  Run.final_invariant (fun db : Database => db.catalog.HashesUnique)
    (fun step _ _ h => (step.rekeys env check).hashesUnique h) hdb

/-- The keys that open a door after a run are those that stand. -/
theorem opensWith_final_iff (db : Database) (steps : List TokenStep) (now : Timestamp)
    (door : Door) (hash : Sha256) :
    (Run.final (TokenStep.run env check) db steps).catalog.OpensWith now door hash ↔
      StandingKey env check db steps now door hash := by
  refine exists_congr fun k => and_congr_left fun _ => ?_
  exact (keyLedger env check).shows_final_iff

/-- **Doors open to standing keys, and to nothing else.** -/
theorem doors_open_to_standing_keys (api : ApiEnv) {db : Database} (hdb : db.catalog.HashesUnique)
    (steps : List TokenStep) :
    let after := (Run.final (TokenStep.run env check) db steps).catalog
    let stands := StandingKey env check db steps
    (∀ repo now authorization,
      (∃ policy, authorize api.read after now repo authorization = .ok (.full, policy)) ↔
        ∃ token, extractToken api.read authorization = some token ∧
          ∃ r, after.repositories.get? repo = some r ∧ ∃ scope : TokenScope,
            scope.covers repo r = true ∧ stands now (.read scope) (api.read.tokenHash token)) ∧
    (∀ repo (r : ApiRequest), authedRepo api r after = .ok repo ↔
        after.resolveRepo r.org r.repo = some repo ∧
          ∃ token, extractToken api.read r.authorization = some token ∧
            stands r.now (.manage repo) (api.read.tokenHash token)) ∧
    ∀ repo now org name authorization,
      publishAuthedRepo api.read after now org name authorization = .ok repo ↔
        after.resolveRepo org name = some repo ∧
          ∃ token, extractToken api.read authorization = some token ∧
            stands now (.publish repo) (api.read.tokenHash token) := by
  intro after stands
  have hunique : after.HashesUnique := hashesUnique_final env check hdb steps
  have hstands : ∀ now door hash, after.OpensWith now door hash ↔ stands now door hash :=
    opensWith_final_iff env check db steps
  refine ⟨fun repo now authorization => ?_, fun repo r => ?_,
    fun repo now org name authorization => ?_⟩
  · simp only [authorize_full_iff, hstands]
  · simp only [authedRepo_iff api r hunique, hstands]
  · simp only [publishAuthedRepo_iff api.read org name authorization hunique, hstands]

/-! ## Where publish tokens come from -/

/-- A key that opens after a run was there at the start, or is one that a request handed out. -/
theorem StandingKey.origin {env : Credentials} {check : JwtCheck} {db : Database}
    {steps : List TokenStep} {now : Timestamp} {door : Door} {hash : Sha256}
    (h : StandingKey env check db steps now door hash) :
    db.catalog.OpensWith now door hash ∨ ∃ x ∈ Run.trace (TokenStep.run env check) db steps,
      ∃ k, x.2.minted env check x.1 = some k ∧ k.door = door ∧ k.hash = hash ∧
        unexpired now k.expiresAt = true := by
  obtain ⟨k, hstands, hopens⟩ := h
  rcases hstands.origin with hshows | ⟨x, hx, hsets⟩
  · exact Or.inl ⟨k, hshows, hopens⟩
  · exact Or.inr ⟨x, hx, k, hsets, hopens⟩

/-- An answer that is there is the answer. -/
theorem ok_of_toOption {ε α : Type} {x : Except ε α} {a : α} (h : x.toOption = some a) :
    x = .ok a := by
  cases x with
  | error e => cases h
  | ok b => exact congrArg Except.ok (Option.some.inj h)

/-- Only the exchange for it hands out a publish token. -/
theorem TokenStep.minted_publish {env : Credentials} {check : JwtCheck} {db : Database}
    {step : TokenStep} {k : Key} {repo : Uuid} (h : step.minted env check db = some k)
    (hdoor : k.door = .publish repo) : ∃ fresh r answer m, step = .oauthCiPublish fresh r ∧
      (exec (Sconce.oauthCiPublish env check fresh r) db.catalog).1 = .ok answer ∧
      ciMatch check fresh.now .publish db.catalog r = .ok m ∧ m.repoId = repo ∧
      k.hash = env.tokenHash answer.accessToken ∧
      k.expiresAt = some (fresh.now + toTimestamp answer.expiresIn) := by
  cases step with
  | createToken fresh repo label days =>
    obtain ⟨token, -, hk⟩ := Option.bind_eq_some_iff.1 h
    cases hk
    cases hdoor
  | createServiceToken fresh repo label days =>
    obtain ⟨answer, -, hk⟩ := Option.bind_eq_some_iff.1 h
    cases hk
    cases hdoor
  | oauthCi fresh r =>
    obtain ⟨answer, -, hmatch⟩ := Option.bind_eq_some_iff.1 h
    obtain ⟨m, -, hscope⟩ := Option.bind_eq_some_iff.1 hmatch
    obtain ⟨scope, -, rfl⟩ := Option.map_eq_some_iff.1 hscope
    cases hdoor
  | oauthCiPublish fresh r =>
    obtain ⟨answer, hanswer, hmatch⟩ := Option.bind_eq_some_iff.1 h
    obtain ⟨m, hm, rfl⟩ := Option.map_eq_some_iff.1 hmatch
    exact ⟨fresh, r, answer, m, rfl, ok_of_toOption hanswer, ok_of_toOption hm,
      Door.publish.inj hdoor, rfl, rfl⟩
  | oauthDeviceToken fresh code =>
    simp only [minted] at h
    split at h
    · cases h
      cases hdoor
    · cases h
  | revokeToken repo token => cases h
  | setTokenPolicy repo label policy => cases h
  | deleteRepo newId repo => cases h
  | revokeServiceToken repo token => cases h
  | other change => cases h

/-- What a match of a workflow's token rests on. -/
theorem Catalog.ciMatch_some {validate : CiOidcPolicy → Option Json} {db : Catalog} {repo : Uuid}
    {capability : CiCapability} {m : CiMatch}
    (h : db.ciMatch validate repo capability = some m) : m.repoId = repo ∧
      ∃ policy ∈ db.ciPolicies repo, policy.2.capability = capability ∧
        m.ttl = policy.2.tokenTtlSecs ∧ ∃ claims, validate policy.2 = some claims ∧
          claimsMatch claims policy.2.claims = true := by
  obtain ⟨policy, hpolicy, hmatch⟩ := List.exists_of_findSome?_eq_some h
  by_cases hcapability : policy.2.capability = capability
  · cases hclaims : validate policy.2 with
    | none => simp [hcapability, guard, hclaims] at hmatch
    | some claims =>
      cases hsays : claimsMatch claims policy.2.claims with
      | false => simp [hcapability, guard, hclaims, hsays] at hmatch
      | true =>
        simp only [hcapability, guard, hclaims, if_true, Option.bind_eq_bind, Option.bind_some,
          Option.pure_def, hsays] at hmatch
        obtain rfl := Option.some.inj hmatch
        exact ⟨rfl, policy, hpolicy, hcapability, rfl, claims, hclaims, hsays⟩
  · simp [hcapability, guard] at hmatch

/-- A match is of a policy of the repository that the token's claims meet. -/
theorem ciMatch_ok {check : JwtCheck} {now : Timestamp} {capability : CiCapability} {db : Catalog}
    {r : CiExchange} {m : CiMatch} (h : ciMatch check now capability db r = .ok m) :
    ∃ policy ∈ db.ciPolicies m.repoId, policy.2.capability = capability ∧
      m.ttl = policy.2.tokenTtlSecs ∧ ∃ claims, check r.jwt now policy.2 = some claims ∧
        claimsMatch claims policy.2.claims = true := by
  unfold ciMatch at h
  split at h
  · cases h
  · split at h
    · cases h
    · split at h
      · rename_i hmatch
        obtain rfl := Except.ok.inj h
        obtain ⟨hrepo, hpolicy⟩ := Catalog.ciMatch_some hmatch
        rwa [hrepo]
      · cases h

/-- The token handed out lives as long as the match says. -/
theorem expiresIn_oauthCiPublish {env : Credentials} {check : JwtCheck} {fresh : Fresh}
    {r : CiExchange} {db : Catalog} {answer : AccessToken} {m : CiMatch}
    (hanswer : (exec (oauthCiPublish env check fresh r) db).1 = .ok answer)
    (hm : ciMatch check fresh.now .publish db r = .ok m) : answer.expiresIn = m.ttl := by
  unfold oauthCiPublish at hanswer
  simp only [exec_bind, exec_get, exec_ofExcept, hm, andThen, exec_adapt] at hanswer
  cases htoken : (exec (createPublishToken env fresh m.repoId m.label m.ttl) db).1 with
  | error e =>
    rw [htoken] at hanswer
    cases hanswer
  | ok token =>
    rw [htoken] at hanswer
    exact congrArg AccessToken.expiresIn (Except.ok.inj hanswer).symm

/-- **Whoever publishes comes from a workflow that a publish policy let in.** -/
theorem publish_needs_workflow (api : ApiEnv) {db : Database} (hdb : db.catalog.HashesUnique)
    (steps : List TokenStep) {repo : Uuid} {now : Timestamp} {org name : String}
    {authorization : Authorization}
    (hopen : publishAuthedRepo api.read (Run.final (TokenStep.run env check) db steps).catalog now
      org name authorization = .ok repo) :
    ∃ token, extractToken api.read authorization = some token ∧
      (db.catalog.OpensWith now (.publish repo) (api.read.tokenHash token) ∨
        ∃ x ∈ Run.trace (TokenStep.run env check) db steps, ∃ fresh r answer,
          x.2 = .oauthCiPublish fresh r ∧
          (exec (oauthCiPublish env check fresh r) x.1.catalog).1 = .ok answer ∧
          env.tokenHash answer.accessToken = api.read.tokenHash token ∧
          ∃ policy ∈ x.1.catalog.ciPolicies repo, policy.2.capability = .publish ∧
            now < fresh.now + toTimestamp policy.2.tokenTtlSecs ∧
            ∃ claims, check r.jwt fresh.now policy.2 = some claims ∧
              claimsMatch claims policy.2.claims = true) := by
  have hunique := hashesUnique_final env check hdb steps
  obtain ⟨-, token, htoken, hopens⟩ :=
    (publishAuthedRepo_iff api.read org name authorization hunique).1 hopen
  refine ⟨token, htoken, ?_⟩
  rcases ((opensWith_final_iff env check db steps now _ _).1 hopens).origin with hstart | hminted
  · exact Or.inl hstart
  · obtain ⟨x, hx, k, hk, hdoor, hhash, hunexpired⟩ := hminted
    obtain ⟨fresh, r, answer, m, hstep, hanswer, hm, rfl, hkey, hexpires⟩ :=
      TokenStep.minted_publish hk hdoor
    obtain ⟨policy, hpolicy, hcapability, httl, hclaims⟩ := ciMatch_ok hm
    refine Or.inr ⟨x, hx, fresh, r, answer, hstep, hanswer, hkey.symm.trans hhash, policy, hpolicy,
      hcapability, ?_, hclaims⟩
    rw [hexpires, expiresIn_oauthCiPublish hanswer hm, httl] at hunexpired
    exact of_decide_eq_true hunexpired

end Final

namespace Mall

def credentials : Credentials := ⟨Session.utc, env.read.tokenHash, fun _ password => password,
  fun password hash => password = hash⟩

/-- The two shops before any token is minted. -/
def unlocked : Database := ⟨{ opened with serviceTokens := ∅ }, Offboarded.signedIn.accounts⟩

/-- A service token for the first shop, and the other shop's attempt at revoking it. -/
def keySteps : List TokenStep :=
  [.createServiceToken ⟨5, "tool", "", "", 0⟩ 1 none none, .revokeServiceToken 2 5]

/-- A request with the token. -/
def keyedRequest : ApiRequest := { sale "acme" 1 with authorization := .text "Bearer scst_tool" }

theorem noKey_unlocked (k : Key) : ¬ unlocked.catalog.HoldsKey k := by
  intro hk
  have hnone : unlocked.catalog.keyAt k.door.kind k.id = none := by
    cases k.door.kind <;> rfl
  exact absurd (hnone.symm.trans hk) nofun

/-- The token lets the request in. -/
theorem doors_open_to_standing_keys_tool :
    authedRepo env keyedRequest (Run.final (TokenStep.run credentials fun _ _ _ => none)
      unlocked keySteps).catalog = .ok 1 := by
  have hdoors := doors_open_to_standing_keys credentials (fun _ _ _ => none) env
    (fun k _ hk => absurd hk (noKey_unlocked k)) keySteps
  refine (hdoors.2.1 1 keyedRequest).2 ⟨by with_unfolding_all rfl, "scst_tool",
    by with_unfolding_all rfl, ⟨5, .manage 1, digest 0, none⟩, Or.inr ⟨[], _, _, rfl, ?_, ?_⟩,
    rfl, by with_unfolding_all rfl, rfl⟩
  · with_unfolding_all rfl
  · intro x hx
    rw [Run.trace_cons, Run.trace_nil, List.mem_singleton] at hx
    subst hx
    exact nofun

/-- The same shops, the first with a policy that lets the builds of its release branch publish. -/
def policed : Database := { unlocked with
  catalog := { unlocked.catalog with
    ciOidcPolicies := .single 9 ⟨1, "github", "https://token.dev", "sconce",
      .object [("ref", .string "refs/heads/release")], 900, .publish, .repo⟩ } }

/-- The platform signed a token for a build of each branch. -/
def checkBuild : JwtCheck := fun jwt _ _ =>
  if jwt = "build" then
    some (.object [("sub", .string "acme/main"), ("ref", .string "refs/heads/release")])
  else if jwt = "draft" then
    some (.object [("sub", .string "acme/main"), ("ref", .string "refs/heads/draft")])
  else none

/-- The draft asks first, and is refused. -/
def buildSteps : List TokenStep :=
  [.oauthCiPublish ⟨5, "draft", "", "", 0⟩ ⟨"acme/main", "draft"⟩,
    .oauthCiPublish ⟨6, "build", "", "", 0⟩ ⟨"acme/main", "build"⟩]

theorem noKey_policed (k : Key) : ¬ policed.catalog.HoldsKey k := by
  have hkeys : policed.catalog.keyAt k.door.kind k.id = unlocked.catalog.keyAt k.door.kind k.id :=
    Catalog.keyAt_congr rfl rfl rfl _ _
  unfold Catalog.HoldsKey
  rw [hkeys]
  exact noKey_unlocked k

/-- The build's token opens the publish routes, and comes from the exchange. -/
theorem publish_needs_workflow_build :
    ∃ x ∈ Run.trace (TokenStep.run credentials checkBuild) policed buildSteps,
      ∃ fresh r, x.2 = .oauthCiPublish fresh r ∧
        ∃ policy ∈ x.1.catalog.ciPolicies 1, policy.2.capability = .publish ∧
          ∃ claims, checkBuild r.jwt fresh.now policy.2 = some claims ∧
            claimsMatch claims policy.2.claims = true := by
  have hopen : publishAuthedRepo env.read
      (Run.final (TokenStep.run credentials checkBuild) policed buildSteps).catalog 1 "acme" "main"
      (.text "Bearer scpt_build") = .ok 1 := by with_unfolding_all rfl
  obtain ⟨token, -, hold | hminted⟩ := publish_needs_workflow credentials checkBuild env
    (fun k _ hk => absurd hk (noKey_policed k)) buildSteps hopen
  · obtain ⟨k, hk, -⟩ := hold
    exact absurd hk (noKey_policed k)
  · obtain ⟨x, hx, fresh, r, answer, hstep, -, -, policy, hpolicy, hcapability, -, hclaims⟩ :=
      hminted
    exact ⟨x, hx, fresh, r, hstep, policy, hpolicy, hcapability, hclaims⟩

end Mall

end Sconce
