/-
# How far a tenant's single sign-on reaches

Runs of the dashboard by people who reach one organization only: its forms, the forms of
signing in and of one's own account, sign-ons begun, callbacks of the organization's identity
provider, which asserts whatever email it likes, and SCIM calls with the organization's token.

No session of such a run reaches further than those that were there, if no callback lands on an
admin domain of its connection or on an account with access elsewhere
(`sso_stays_inside`).
-/
import Sconce.Dashboard.Gains

namespace Sconce

open Effect

/-! ## Runs -/

/-- A request to the dashboard or to its sign-on endpoints. -/
inductive UiMove where
  | post (r : PostRequest)
  | publicPost (r : SignInRequest PublicPost)
  | accountPost (r : SignInRequest AccountPost)
  /-- `auth_start`, with what the provider of the connection answers. -/
  | authStart (now : Timestamp) (idp : IdentityProvider) (conn : Option Uuid)
  /-- `auth_callback`, with the email the provider asserts. -/
  | authCallback (fresh : Fresh) (idp : IdentityProvider) (p : CallbackParams)
  | scim (fresh : Fresh) (bearer : Option String) (request : ScimRequest)

section Moves

variable (ui : Ui)

/-- The database after a request. -/
def UiMove.run (db : Database) : UiMove → Database
  | .post r => (exec (ui.serve r) db).2
  | .publicPost r => (exec (ui.servePublic r) db).2
  | .accountPost r => (exec (ui.serveAccount r) db).2
  | .authStart now idp conn => (exec (Sconce.authStart ui.secretKey now idp conn) db).2
  | .authCallback fresh idp p =>
    (exec (Sconce.authCallback ui.credentials ui.secretKey fresh idp p) db).2
  | .scim fresh bearer request =>
    (exec (Sconce.scim ui.credentials ui.lower fresh bearer request) db).2

/-- What is open to people who reach the organization only: the forms, as anyone but a
superadmin; a login to an account that reaches nothing else; the callbacks of a connection that
makes members of the organization, and its SCIM token. -/
def UiMove.Available (org : Uuid) (db : Database) : UiMove → Prop
  | .post r => ∀ user, ui.auth db.accounts r.fresh.now r.caller = some user →
    user.isSuperadmin = false
  | .publicPost r => ∀ email password user, r.post = .login email password →
    db.accounts.verifyCredentials ui.credentials email password = some user →
      ¬ db.accounts.IsSuperadmin user ∧ db.accounts.OnlyIn org user
  | .accountPost _ | .authStart .. => True
  | .authCallback fresh idp p => ∀ conn email,
    db.accounts.signsIn ui.secretKey fresh.now idp p = some (conn, email) →
      db.homeOrg conn = some org
  | .scim _ bearer _ => ∀ token o, bearer = some token →
    db.accounts.resolveScimToken ui.credentials token = some o → o = org

/-- A callback that signs in lands on no admin domain of its connection, and on an account that
has access to no other organization. -/
def UiMove.Inside (org : Uuid) (db : Database) : UiMove → Prop
  | .authCallback fresh idp p => ∀ conn email,
    db.accounts.signsIn ui.secretKey fresh.now idp p = some (conn, email) →
      domainMatches email conn.adminDomains = false ∧
        ∀ user, db.accounts.accountFor fresh.id email = some user → db.accounts.OnlyIn org user
  | _ => True

end Moves

/-! ## Steps -/

namespace Accounts

variable {org user : Uuid} {acc acc' : Accounts}

/-- A session of someone who reaches nothing else. -/
theorem staysInside_session (hplain : ¬ acc.IsSuperadmin user) (honly : acc.OnlyIn org user)
    (hash : Sha256) (expiresAt : Timestamp) :
    StaysInside org acc
      { acc with sessions := acc.sessions.insertNew hash ⟨user, expiresAt⟩ } where
  sessions hash' s hs := by
    have hs : (acc.sessions.insertNew hash ⟨user, expiresAt⟩).get? hash' = some s := hs
    rw [Table.get?_insertNew] at hs
    split_ifs at hs with hhash
    · cases hold : acc.sessions.get? hash with
      | none =>
        rw [hold, Option.getD_none] at hs
        rw [← Option.some.inj hs]
        exact Or.inr ⟨hplain, honly⟩
      | some old =>
        rw [hold, Option.getD_some] at hs
        exact Or.inl (by rw [hhash, hold, hs])
    · exact Or.inl hs
  superadmin _ h := h
  access _ _ _ h := h

/-- Sessions stay or end, nobody becomes a superadmin, and the memberships of other
organizations stay. -/
theorem StaysInside.of_memberships
    (hsessions : ∀ hash s, acc'.sessions.get? hash = some s → acc.sessions.get? hash = some s)
    (hsuper : ∀ user, acc'.IsSuperadmin user → acc.IsSuperadmin user)
    (hother : ∀ user o, o ≠ org → acc'.membership user o = acc.membership user o) :
    StaysInside org acc acc' where
  sessions hash s hs := Or.inl (hsessions hash s hs)
  superadmin := hsuper
  access user o ho haccess := by
    obtain ⟨m, hm, hactive⟩ := haccess
    rw [hother user o ho] at hm
    exact ⟨m, hm, hactive⟩

variable (user) in
/-- An upsert of a user that sets no flag. -/
theorem isSuperadmin_of_upsert {row : User} {merge : User → User}
    (hrow : row.isSuperadmin = false)
    (hmerge : ∀ u, (merge u).isSuperadmin = true → u.isSuperadmin = true) {k : Uuid}
    (h : IsSuperadmin { acc with users := acc.users.upsert user row merge } k) :
    acc.IsSuperadmin k := by
  obtain ⟨u, hu, hsuper⟩ := h
  have hu : (acc.users.upsert user row merge).get? k = some u := hu
  rw [Table.get?_upsert] at hu
  split_ifs at hu with hk
  · obtain rfl := Option.some.inj hu
    cases hold : acc.users.get? user with
    | none =>
      rw [hold, Option.map_none, Option.getD_none, hrow] at hsuper
      cases hsuper
    | some old =>
      rw [hold, Option.map_some, Option.getD_some] at hsuper
      exact ⟨old, by rw [hk, hold], hmerge old hsuper⟩
  · exact ⟨u, hu, hsuper⟩

instance (org : Uuid) : IsPreorder Accounts (StaysInside org) where
  refl _ := (refl_of NoGain _).staysInside
  trans _ _ _ h h' := by
    refine ⟨fun hash s hs => ?_, fun user hsuper => h.superadmin user (h'.superadmin user hsuper),
      fun user o ho haccess => h.access user o ho (h'.access user o ho haccess)⟩
    rcases h'.sessions hash s hs with hmid | hnew
    · rcases h.sessions hash s hmid with hold | ⟨hplain, honly⟩
      · exact Or.inl hold
      · refine Or.inr ⟨fun hsuper => hplain (h'.superadmin _ hsuper), fun o haccess => ?_⟩
        by_contra ho
        exact ho (honly o (h'.access _ o ho haccess))
    · exact Or.inr hnew

/-- An upsert of a membership of the organization leaves those of the others. -/
theorem membership_upsert_of_ne {o : Uuid} (ho : o ≠ org) (user k : Uuid) (row : Membership)
    (merge : Membership → Membership) :
    (acc.userTenants.upsert (k, org) row merge).get? (user, o) = acc.membership user o := by
  rw [Table.get?_upsert, if_neg fun h => ho (Prod.mk.inj h).2]
  rfl

end Accounts

section Steps

variable {org : Uuid} {db : Database} {ui : Ui}

/-- A login opens a session of the account whose password it was given. -/
theorem Ui.login_staysInside {caller : Caller} {fresh : Fresh} {email password : String}
    (h : ∀ user, db.accounts.verifyCredentials ui.credentials email password = some user →
      ¬ db.accounts.IsSuperadmin user ∧ db.accounts.OnlyIn org user) :
    db.accounts.StaysInside org (exec (ui.login caller fresh email password) db).2.accounts := by
  have hsame : db.accounts.StaysInside org db.accounts := (refl_of Accounts.NoGain _).staysInside
  unfold login
  by_cases hlimited : caller.limited = true
  · rw [if_pos hlimited]
    exact hsame
  · rw [if_neg hlimited, exec_bind, exec_get]
    unfold andThen
    simp only
    cases huser : db.accounts.verifyCredentials ui.credentials email password with
    | none => exact hsame
    | some user =>
      obtain ⟨hplain, honly⟩ := h user huser
      rw [snd_exec_bind_pure]
      unfold e500 onAccounts
      rw [exec_adapt, exec_onPart]
      rcases createSession_cases ui.credentials fresh user 7 db.accounts with
        ⟨e, hrun⟩ | ⟨-, hrun⟩
      · rw [hrun]
        exact hsame
      · rw [hrun]
        exact Accounts.staysInside_session hplain honly _ _

/-- The public forms: what is not a login opens no session. -/
theorem Ui.servePublic_staysInside {r : SignInRequest PublicPost}
    (h : UiMove.Available ui org db (.publicPost r)) :
    db.accounts.StaysInside org (exec (ui.servePublic r) db).2.accounts := by
  -- a request that is turned away changes nothing
  have hsame : db.accounts.StaysInside org db.accounts := (refl_of Accounts.NoGain _).staysInside
  unfold servePublic
  rw [exec_bind, exec_get]
  unfold andThen
  simp only
  split
  · exact hsame
  · cases hpost : r.post with
    | login email password => exact login_staysInside fun user => h email password user hpost
    | forgot email =>
      refine Accounts.NoGain.staysInside ?_
      have hgainless : Gainless (ui.forgotSubmit r.caller r.fresh email) := by
        unfold forgotSubmit
        split
        · exact keeps_pure _
        · split
          · exact keeps_pure _
          · refine keeps_bind (gainless_e500 (gainless_onAccounts ?_)) fun _ => keeps_pure _
            exact noGain_createPasswordReset _ _ _ _
      exact hgainless db
    | reset token password confirm =>
      refine Accounts.NoGain.staysInside ?_
      have hgainless : Gainless (ui.resetSubmit r.caller r.fresh token password confirm) := by
        unfold resetSubmit
        split
        · exact keeps_pure _
        · split
          · exact keeps_pure _
          · refine keeps_bind keeps_get fun _ => ?_
            split
            · exact keeps_pure _
            · split
              · exact keeps_pure _
              · split
                · exact keeps_pure _
                · refine keeps_bind (gainless_onAccounts (noGain_resetPassword _ _ _ _))
                    fun _ => ?_
                  split <;> exact keeps_pure _
      exact hgainless db

/-- The account a callback admits, off every admin domain. -/
theorem Database.not_isSuperadmin_admitted (env : Credentials) (fresh : Fresh)
    {conn : OidcConnection} {email : String} (hdomain : domainMatches email conn.adminDomains = false)
    (user : Uuid) : ¬ (db.admitted env fresh conn email user).accounts.IsSuperadmin user := by
  rintro ⟨u, hu, hsuper⟩
  have hu : (db.accounts.users.upsert user _ _).get? user = some u := hu
  rw [Table.get?_upsert, if_pos rfl, hdomain] at hu
  obtain rfl := Option.some.inj hu
  cases hold : db.accounts.users.get? user with
  | none =>
    rw [hold] at hsuper
    cases hsuper
  | some old =>
    rw [hold] at hsuper
    cases hsuper

/-- A login through an organization's connection stays inside the organization. -/
theorem Database.admitted_staysInside (env : Credentials) (fresh : Fresh) {conn : OidcConnection}
    {email : String} (hhome : db.homeOrg conn = some org)
    (hdomain : domainMatches email conn.adminDomains = false) (user : Uuid) :
    db.accounts.StaysInside org (db.admitted env fresh conn email user).accounts := by
  refine .of_memberships (fun _ _ h => h) (fun k hk => ?_) fun k o ho => ?_
  · refine Accounts.isSuperadmin_of_upsert user hdomain (fun u hu => ?_) hk
    rw [hdomain] at hu
    cases hu
  · unfold admitted Accounts.membership
    rw [hhome]
    exact Accounts.membership_upsert_of_ne ho k user _ _

/-- A user of one organization stays in it. -/
theorem Database.onlyIn_admitted (env : Credentials) (fresh : Fresh) {conn : OidcConnection}
    {email : String} {user : Uuid} (hhome : db.homeOrg conn = some org)
    (honly : db.accounts.OnlyIn org user) :
    (db.admitted env fresh conn email user).accounts.OnlyIn org user := by
  rintro o ⟨m, hm, hactive⟩
  by_contra ho
  refine ho (honly o ⟨m, ?_, hactive⟩)
  unfold admitted Accounts.membership at hm
  rw [hhome] at hm
  exact (Accounts.membership_upsert_of_ne ho user user _ _).symm.trans hm

/-- A callback that lands inside the organization. -/
theorem authCallback_staysInside {fresh : Fresh} {idp : IdentityProvider} {p : CallbackParams}
    (havailable : UiMove.Available ui org db (.authCallback fresh idp p))
    (hinside : UiMove.Inside ui org db (.authCallback fresh idp p)) :
    db.accounts.StaysInside org
      (exec (authCallback ui.credentials ui.secretKey fresh idp p) db).2.accounts := by
  obtain ⟨oidcFlows, hrun⟩ := exec_authCallback ui.credentials ui.secretKey fresh idp p db
  rw [hrun]
  have hflows : db.accounts.StaysInside org { db.accounts with oidcFlows } :=
    Accounts.NoGain.staysInside (.of_eq rfl rfl rfl)
  cases hsigns : db.accounts.signsIn ui.secretKey fresh.now idp p with
  | none => exact hflows
  | some signed =>
    obtain ⟨conn, email⟩ := signed
    have hhome := havailable conn email hsigns
    obtain ⟨hdomain, honly⟩ := hinside conn email hsigns
    refine trans_of (Accounts.StaysInside org) hflows ?_
    set db' : Database := { db with accounts := { db.accounts with oidcFlows } }
    have hhome : db'.homeOrg conn = some org := hhome
    simp only
    rcases provisionSession_cases ui.credentials fresh conn email db' with
      ⟨-, hdb⟩ | ⟨user, huser, hdb | ⟨-, hdb⟩⟩
    · rw [hdb]
      exact refl_of (Accounts.StaysInside org) _
    · rw [hdb]
      exact Database.admitted_staysInside _ _ hhome hdomain user
    · rw [hdb]
      refine trans_of (Accounts.StaysInside org)
        (Database.admitted_staysInside ui.credentials fresh hhome hdomain user) ?_
      exact Accounts.staysInside_session (Database.not_isSuperadmin_admitted _ _ hdomain user)
        (Database.onlyIn_admitted _ _ hhome (honly user huser)) _ _

/-! ## Provisioning -/

theorem staysInside_scimSetActive {ε : Type} (user : Uuid) (active : Bool) :
    Keeps (Accounts.StaysInside org) (scimSetActive (ε := ε) org user active) := by
  unfold scimSetActive
  refine keeps_bind keeps_get fun acc => keeps_bind (keeps_modify fun acc => ?_) fun _ => keeps_pure _
  refine .of_memberships (fun _ _ h => h) (fun _ h => h) fun k o ho => ?_
  have hne : (k, o) ≠ (user, org) := fun h => ho (Prod.mk.inj h).2
  show (acc.userTenants.update _).get? (k, o) = _
  rw [Table.get?_update]
  simp only [if_neg hne, Option.map_id']
  rfl

theorem staysInside_deleteUserSessions {ε : Type} (user : Uuid) :
    Keeps (Accounts.StaysInside org) (deleteUserSessions (ε := ε) user) :=
  fun acc => (noGain_deleteSessions _ acc).staysInside

/-- A user who is no superadmin may be inserted. -/
theorem staysInside_upsertUser (newId : Uuid) {row : User} (hrow : row.isSuperadmin = false) :
    Keeps (Accounts.StaysInside org) (upsertUser newId row id) := by
  intro acc
  rw [exec_upsertUser]
  cases acc.accountFor newId row.email with
  | none => exact refl_of (Accounts.StaysInside org) _
  | some user =>
    exact .of_memberships (fun _ _ h => h)
      (fun _ h => Accounts.isSuperadmin_of_upsert _ hrow (fun _ hu => hu) h) fun _ _ _ => rfl

instance (org : Uuid) :
    IsPreorder Database (fun db db' => db.accounts.StaysInside org db'.accounts) where
  refl _ := refl_of (Accounts.StaysInside org) _
  trans _ _ _ := trans_of (Accounts.StaysInside org)

/-- The computation stays inside the organization. -/
abbrev KeepsInside {ε α : Type} (org : Uuid) (m : Effect Database ε α) : Prop :=
  Keeps (fun db db' => db.accounts.StaysInside org db'.accounts) m

theorem keepsInside_onAccounts {ε α : Type} {m : Effect Accounts ε α}
    (h : Keeps (Accounts.StaysInside org) m) : KeepsInside org (onAccounts m) :=
  fun db => h db.accounts

theorem keepsInside_scimProvision (env : Credentials) (fresh : Fresh) (email : String) :
    KeepsInside org (scimProvision env fresh org email) := by
  unfold scimProvision
  refine keeps_atomically ?_
  refine keeps_bind (keepsInside_onAccounts (staysInside_upsertUser _ rfl)) fun user =>
    keeps_bind keeps_get fun db => ?_
  have hjoin : Keeps (Accounts.StaysInside org) (modify (m := Effect Accounts SqlError) fun acc =>
      { acc with userTenants := acc.userTenants.upsert (user, org) ⟨.member, true⟩ fun m =>
          { m with active := true } }) :=
    keeps_modify fun acc => .of_memberships (fun _ _ h => h) (fun _ h => h) fun k o ho =>
      Accounts.membership_upsert_of_ne ho k user _ _
  split
  · exact keeps_bind (keeps_throw _) fun _ =>
      keeps_bind (keepsInside_onAccounts hjoin) fun _ => keeps_pure _
  · exact keeps_bind (keepsInside_onAccounts hjoin) fun _ => keeps_pure _

theorem keepsInside_scimApplyActive (user : Uuid) (active : Bool) :
    KeepsInside org (scimApplyActive org user active) := by
  unfold scimApplyActive
  refine keeps_bind (keepsInside_onAccounts (staysInside_scimSetActive _ _)) fun found => ?_
  split
  · extract_lets answer
    have hanswer : ∀ u, KeepsInside org (answer u) := by
      intro u
      refine keeps_bind keeps_get fun db => ?_
      split <;> exact keeps_pure _
    split
    · exact keeps_bind (keepsInside_onAccounts (staysInside_deleteUserSessions _)) hanswer
    · exact hanswer ()
  · exact keeps_pure _

theorem keepsInside_scimCreateUser (env : Credentials) (lower : String → String) (fresh : Fresh)
    (body : Json) : KeepsInside org (scimCreateUser env lower fresh org body) := by
  unfold scimCreateUser
  split
  · exact keeps_pure _
  · refine keeps_bind keeps_get fun db => ?_
    split
    · exact keeps_pure _
    · refine keeps_bind (keeps_outcome (keepsInside_scimProvision _ _ _)) fun _ => ?_
      split <;> exact keeps_pure _

theorem keepsInside_scimDeleteUser (user : Uuid) : KeepsInside org (scimDeleteUser org user) := by
  unfold scimDeleteUser
  refine keeps_bind (keepsInside_onAccounts (staysInside_scimSetActive _ _)) fun found => ?_
  split
  · exact keeps_bind (keepsInside_onAccounts (staysInside_deleteUserSessions _)) fun _ => keeps_pure _
  · exact keeps_pure _

/-- The SCIM calls of the organization's token. -/
theorem scim_staysInside {fresh : Fresh} {bearer : Option String} {request : ScimRequest}
    (h : UiMove.Available ui org db (.scim fresh bearer request)) :
    db.accounts.StaysInside org
      (exec (scim ui.credentials ui.lower fresh bearer request) db).2.accounts := by
  have hsame : db.accounts.StaysInside org db.accounts := refl_of (Accounts.StaysInside org) _
  unfold scim
  cases bearer with
  | none => exact hsame
  | some token =>
    simp only
    rw [exec_bind, exec_get]
    unfold andThen
    simp only
    cases htoken : db.accounts.resolveScimToken ui.credentials token with
    | none => exact hsame
    | some o =>
      obtain rfl := h token o rfl htoken
      simp only
      split
      · exact hsame
      · exact keepsInside_scimCreateUser _ _ _ _ db
      · split
        · exact keepsInside_scimApplyActive _ _ db
        · exact hsame
      · exact hsame
      · exact hsame
      · exact keepsInside_scimDeleteUser _ db

/-- A sign-on begun writes its flow. -/
theorem authStart_gainless (secretKey : Option SecretKey) (now : Timestamp) (idp : IdentityProvider)
    (conn : Option Uuid) : Gainless (authStart secretKey now idp conn) := by
  unfold authStart
  refine keeps_bind keeps_get fun db => ?_
  split
  · exact keeps_throw _
  · refine keeps_bind (keeps_ofExcept _) fun secret => ?_
    split
    · exact keeps_pure _
    · refine keeps_bind (gainless_e500 (gainless_onAccounts ?_)) fun _ => keeps_pure _
      unfold createOidcFlow
      refine keeps_bind keeps_get fun acc => ?_
      extract_lets insert checked
      have hinsert : ∀ u, Keeps Accounts.NoGain (insert u) :=
        fun _ => keeps_modify fun acc => .of_eq rfl rfl rfl
      have hchecked : ∀ u, Keeps Accounts.NoGain (checked u) := by
        intro u
        unfold checked
        split
        · exact keeps_bind (keeps_throw _) hinsert
        · exact hinsert ()
      split
      · exact keeps_bind (keeps_throw _) hchecked
      · exact hchecked ()

/-- **A step that is available and lands inside the organization stays inside it.** -/
theorem UiMove.staysInside {move : UiMove} (havailable : move.Available ui org db)
    (hinside : move.Inside ui org db) :
    db.accounts.StaysInside org (move.run ui db).accounts := by
  cases move with
  | post r => exact (Ui.serve_noGain havailable).staysInside
  | publicPost r => exact Ui.servePublic_staysInside havailable
  | accountPost r => exact (ui.serveAccount_gainless r db).staysInside
  | authStart now idp conn => exact (authStart_gainless _ _ _ _ db).staysInside
  | authCallback fresh idp p => exact authCallback_staysInside havailable hinside
  | scim fresh bearer request => exact scim_staysInside havailable

end Steps

/-- **Single sign-on stays inside its organization**: in every run of what is open to people who
reach only the organization, whose callbacks land on no admin domain and on no account with
access elsewhere, no session is a superadmin's or has access to another organization that was
not there before and did already. -/
theorem sso_stays_inside (ui : Ui) (org : Uuid) (db : Database) (moves : List UiMove)
    (havailable : ∀ x ∈ Run.trace (UiMove.run ui) db moves, x.2.Available ui org x.1)
    (hinside : ∀ x ∈ Run.trace (UiMove.run ui) db moves, x.2.Inside ui org x.1) :
    ∀ done, done <+: moves →
      db.accounts.ReachesNoFurther org (Run.final (UiMove.run ui) db done).accounts := by
  rintro done ⟨rest, rfl⟩
  rw [Run.trace_append] at havailable hinside
  refine Run.final_of_trace (p := fun db' : Database => db.accounts.ReachesNoFurther org db'.accounts)
    (fun x hx h => ?_) .refl
  have hwhole := List.mem_append_left
    (Run.trace (UiMove.run ui) (Run.final (UiMove.run ui) db done) rest) hx
  exact h.step (UiMove.staysInside (havailable x hwhole) (hinside x hwhole))

namespace Federated

/-- The connection of an organization, without domains. -/
def connection : OidcConnection :=
  ⟨some 1, "https://idp.acme.com", "sconce", none, "https://sconce.dev/auth/callback", "openid", none, none⟩

/-- The provider asserts a new colleague's email. -/
def idp : IdentityProvider where
  begin := fun _ _ => .ok ⟨"https://idp.acme.com/authorize", "state", "nonce", "verifier"⟩
  finish := fun _ _ _ _ _ => .ok "bob@acme.com"

/-- A sign-on begun with the connection. -/
def begun : Database where
  catalog := Intern.reviewed.catalog
  accounts := { Intern.reviewed.accounts with
    oidcConnections := .single 7 connection
    oidcFlows := .single "state" ⟨some 7, "nonce", "verifier", "/", 100⟩ }

def fresh : Fresh := ⟨2, "secret", "random", "salt", 0⟩

/-- Bob signs in for the first time, and out again. -/
def moves : List UiMove :=
  [.authCallback fresh idp ⟨some "code", some "state", none⟩,
    .accountPost ⟨⟨some "scses_secret", none, false⟩, fresh, .logout⟩]

theorem signsIn_begun :
    begun.accounts.signsIn Intern.ui.secretKey fresh.now idp ⟨some "code", some "state", none⟩
      = some (connection, "bob@acme.com") := by
  rfl

theorem onlyIn_bob : begun.accounts.OnlyIn 1 2 := by
  rintro o ⟨m, hm, -⟩
  have hrow := List.mem_singleton.1 ((Table.mem_rows_iff _ (2, o) m).2 hm)
  cases (Prod.mk.inj (Prod.mk.inj hrow).1).1

/-- Nobody reaches further by bob's login and the provisioning. -/
theorem sso_stays_inside_moves : begun.accounts.ReachesNoFurther 1
    (Run.final (UiMove.run Intern.ui) begun moves).accounts := by
  refine sso_stays_inside Intern.ui 1 begun moves ?_ ?_ moves (List.prefix_refl _)
  all_goals
    unfold moves
    rw [Run.trace_cons, Run.trace_cons, List.forall_mem_cons, List.forall_mem_cons]
    refine ⟨fun conn email hsigns => ?_, trivial, fun x hx => absurd hx List.not_mem_nil⟩
    obtain ⟨rfl, rfl⟩ := Prod.mk.inj (Option.some.inj (signsIn_begun.symm.trans hsigns))
  · rfl
  · refine ⟨rfl, fun user huser => ?_⟩
    obtain rfl : 2 = user := Option.some.inj huser
    exact onlyIn_bob

end Federated

end Sconce
