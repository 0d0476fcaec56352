/-
# Offboarding and sign-in

Memberships over runs of single sign-ons, SCIM calls and role grants.  A SCIM call
switches a membership off, and only another one, or a grant, is meant to switch it on
again; the upsert behind every sign-in does so too, and makes an admin a member.

`login_userTenants` says the one row a sign-in writes; the property of runs holds exactly
when every sign-in of the run finds that row absent, or as it would write it.
-/
import Sconce.Accounts.Provisioning
import Sconce.Lib.Run

namespace Sconce

open Effect

/-! ## Runs -/

/-- A move that can write a membership. -/
inductive MembershipOp where
  /-- `auth_callback`, with the provider of the connection it ends at. -/
  | login (idp : IdentityProvider) (p : CallbackParams)
  | scimProvision (org : Uuid) (email : String)
  | scimSetActive (org user : Uuid) (active : Bool)
  /-- `add_user_to_tenant`, on an administrator's word. -/
  | grant (email orgSlug : String) (role : Role)

/-- A move with what it draws. -/
structure MembershipMove where
  fresh : Fresh
  op : MembershipOp

section Runs

variable (env : Credentials) (secretKey : Option SecretKey)

/-- The database after a move. -/
def MembershipMove.run (db : Database) (move : MembershipMove) : Database :=
  match move.op with
  | .login idp p => (exec (authCallback env secretKey move.fresh idp p) db).2
  | .scimProvision org email => (exec (scimProvision env move.fresh org email) db).2
  | .scimSetActive org user active =>
    (exec (onAccounts (scimSetActive org user active) : Effect Database Empty Bool) db).2
  | .grant email orgSlug role =>
    (exec (addUserToTenant email orgSlug role : Effect Database Empty Bool) db).2

/-! ## The property -/

/-- The membership is there and switched off. -/
def Accounts.Deactivated (acc : Accounts) (user org : Uuid) : Prop :=
  ∃ m, acc.membership user org = some m ∧ m.active = false

/-- The membership is an admin's. -/
def Accounts.IsAdmin (acc : Accounts) (user org : Uuid) : Prop :=
  ∃ m, acc.membership user org = some m ∧ m.role = .admin

/-- No session of the user gives access to the organization through a membership. -/
def Accounts.ShutOut (acc : Accounts) (user org : Uuid) : Prop :=
  ∀ now token signedIn, acc.resolveSession env now token = some signedIn → signedIn.id = user →
    org ∉ signedIn.tenantOrgIds

/-- The move activates the membership over SCIM, or grants it. -/
def MembershipMove.Readmits (db : Database) (move : MembershipMove) (user org : Uuid) : Prop :=
  match move.op with
  | .login _ _ => False
  | .scimProvision o email => o = org ∧ db.accounts.accountFor move.fresh.id email = some user
  | .scimSetActive o u active => o = org ∧ u = user ∧ active = true
  | .grant email orgSlug _ => (db.accounts.userByEmail email).map Prod.fst = some user ∧
      db.catalog.orgIdBySlug orgSlug = some org

/-- The move is a sign-in. -/
def MembershipMove.IsLogin (move : MembershipMove) : Prop :=
  ∃ idp p, move.op = .login idp p

/-- What sign-ins are meant to leave alone over a run: a membership that is switched off
stays off, and gives no session access, while nobody activates or grants it; and no sign-in
takes an admin's role away. -/
structure SignInsKeepMemberships (db : Database) (moves : List MembershipMove) : Prop where
  offboarded : ∀ pre mid post, moves = pre ++ mid ++ post → ∀ user org,
    (Run.final (MembershipMove.run env secretKey) db pre).accounts.Deactivated user org →
    (∀ x ∈ Run.trace (MembershipMove.run env secretKey)
      (Run.final (MembershipMove.run env secretKey) db pre) mid, ¬ x.2.Readmits x.1 user org) →
    (Run.final (MembershipMove.run env secretKey) db (pre ++ mid)).accounts.Deactivated user org ∧
      (Run.final (MembershipMove.run env secretKey) db (pre ++ mid)).accounts.ShutOut env user org
  roles : ∀ x ∈ Run.trace (MembershipMove.run env secretKey) db moves, x.2.IsLogin →
    ∀ user org, x.1.accounts.IsAdmin user org →
      (x.2.run env secretKey x.1).accounts.IsAdmin user org

/-! ## The row a sign-in writes -/

/-- The key of the membership a callback writes, if it gets to one. -/
def Database.joins (db : Database) (fresh : Fresh) (idp : IdentityProvider) (p : CallbackParams) :
    Option (Uuid × Uuid) := do
  let (conn, email) ← db.accounts.signsIn secretKey fresh.now idp p
  let user ← db.accounts.accountFor fresh.id email
  let org ← db.homeOrg conn
  return (user, org)

/-- A sign-in finds the membership it writes absent, or an active member's. -/
def MembershipMove.Harmless (db : Database) (move : MembershipMove) : Prop :=
  match move.op with
  | .login idp p => ∀ key m, db.joins secretKey move.fresh idp p = some key →
      db.accounts.userTenants.get? key = some m → m = ⟨.member, true⟩
  | _ => True

/-- A membership that is switched off gives no access. -/
theorem Accounts.Deactivated.shutOut {acc : Accounts} {user org : Uuid}
    (h : acc.Deactivated user org) : acc.ShutOut env user org := by
  obtain ⟨m, hm, hactive⟩ := h
  intro now token signedIn hsession huser horg
  unfold Accounts.resolveSession at hsession
  obtain ⟨s, -, hsession⟩ := Option.bind_eq_some_iff.1 hsession
  obtain ⟨u, -, hsession⟩ := Option.bind_eq_some_iff.1 hsession
  obtain rfl := Option.some.inj hsession
  obtain rfl : s.userId = user := huser
  obtain ⟨m', hm', hactive'⟩ := (acc.mem_orgsOf _ _ _).1 horg
  rw [hm] at hm'
  rw [← Option.some.inj hm', hactive] at hactive'
  exact Bool.false_ne_true hactive'

/-- **What a sign-in does to memberships.** -/
theorem login_userTenants (db : Database) (fresh : Fresh) (idp : IdentityProvider)
    (p : CallbackParams) :
    (exec (authCallback env secretKey fresh idp p) db).2.accounts.userTenants
      = match db.joins secretKey fresh idp p with
        | some key => db.accounts.userTenants.upsert key ⟨.member, true⟩ fun m =>
            { m with role := .member, active := true }
        | none => db.accounts.userTenants := by
  obtain ⟨oidcFlows, hrun⟩ := exec_authCallback env secretKey fresh idp p db
  rw [hrun]
  unfold Database.joins
  cases hsigns : db.accounts.signsIn secretKey fresh.now idp p with
  | none => rfl
  | some r =>
    obtain ⟨conn, email⟩ := r
    set db' : Database := { db with accounts := { db.accounts with oidcFlows } }
    simp only [Option.bind_eq_bind, Option.bind_some]
    rcases provisionSession_cases env fresh conn email db' with
      ⟨hnone, hdb⟩ | ⟨user, huser, hdb | ⟨-, hdb⟩⟩
    · have hnone : db.accounts.accountFor fresh.id email = none := hnone
      rw [hdb, hnone]
      rfl
    all_goals
      have huser : db.accounts.accountFor fresh.id email = some user := huser
      rw [hdb, huser]
      have hhome : db'.homeOrg conn = db.homeOrg conn := rfl
      unfold Database.admitted
      rw [hhome]
      cases db.homeOrg conn with
      | none => rfl
      | some org => rfl

/-- What a SCIM provisioning does to memberships. -/
theorem scimProvision_userTenants (db : Database) (fresh : Fresh) (org : Uuid) (email : String) :
    (exec (scimProvision env fresh org email) db).2.accounts.userTenants = db.accounts.userTenants ∨
      ∃ user, db.accounts.accountFor fresh.id email = some user ∧
        (exec (scimProvision env fresh org email) db).2.accounts.userTenants
          = db.accounts.userTenants.upsert (user, org) ⟨.member, true⟩ fun m =>
              { m with active := true } := by
  unfold scimProvision
  rw [exec_atomically, exec_bind]
  unfold onAccounts
  simp only [exec_onPart, exec_upsertUser]
  cases haccount : db.accounts.accountFor fresh.id email with
  | none => exact Or.inl rfl
  | some user =>
    simp only [andThen, exec_bind, exec_get]
    cases horg : db.catalog.organizations.get? org with
    | none => exact Or.inl rfl
    | some o => exact Or.inr ⟨user, rfl, rfl⟩

/-- What a grant does to memberships. -/
theorem grant_userTenants (db : Database) (email orgSlug : String) (role : Role) :
    (exec (addUserToTenant email orgSlug role : Effect Database Empty Bool) db).2.accounts.userTenants
        = db.accounts.userTenants ∨
      ∃ user org, (db.accounts.userByEmail email).map Prod.fst = some user ∧
        db.catalog.orgIdBySlug orgSlug = some org ∧
        (exec (addUserToTenant email orgSlug role : Effect Database Empty Bool)
            db).2.accounts.userTenants
          = db.accounts.userTenants.upsert (user, org) ⟨role, true⟩ fun m =>
              { m with role, active := true } := by
  cases hfound : db.accounts.userByEmail email with
  | none =>
    refine Or.inl ?_
    unfold addUserToTenant
    rw [exec_bind, exec_get]
    simp only [andThen, hfound]
    rfl
  | some r =>
    have hmap : (db.accounts.userByEmail email).map Prod.fst = some r.1 := by rw [hfound]; rfl
    rw [exec_addUserToTenant hmap]
    cases horg : db.catalog.orgIdBySlug orgSlug with
    | none => exact Or.inl rfl
    | some org => exact Or.inr ⟨r.1, org, rfl, rfl, rfl⟩

/-! ## One move -/

variable {env secretKey}

/-- A membership stays as it is when the upsert is of another. -/
theorem Accounts.Deactivated.upsert_ne {acc acc' : Accounts} {user org : Uuid} {key : Uuid × Uuid}
    {row : Membership} {merge : Membership → Membership} (h : acc.Deactivated user org)
    (hacc : acc'.userTenants = acc.userTenants.upsert key row merge) (hne : (user, org) ≠ key) :
    acc'.Deactivated user org := by
  obtain ⟨m, hm, hactive⟩ := h
  refine ⟨m, ?_, hactive⟩
  unfold Accounts.membership at hm ⊢
  rw [hacc, Table.get?_upsert, if_neg hne]
  exact hm

/-- A membership that is switched off stays off over a move that does not readmit it, if a
sign-in is harmless. -/
theorem Accounts.Deactivated.run {db : Database} {move : MembershipMove} {user org : Uuid}
    (h : db.accounts.Deactivated user org) (hharmless : move.Harmless secretKey db)
    (hreadmits : ¬ move.Readmits db user org) :
    (move.run env secretKey db).accounts.Deactivated user org := by
  obtain ⟨fresh, op⟩ := move
  cases op with
  | login idp p =>
    have hrun := login_userTenants env secretKey db fresh idp p
    cases hjoins : db.joins secretKey fresh idp p with
    | none =>
      rw [hjoins] at hrun
      obtain ⟨m, hm, hactive⟩ := h
      exact ⟨m, (congrArg (Table.get? · (user, org)) hrun).trans hm, hactive⟩
    | some key =>
      rw [hjoins] at hrun
      refine h.upsert_ne hrun ?_
      -- the row of the sign-in would have to be an active one
      rintro rfl
      obtain ⟨m, hm, hactive⟩ := h
      have hmember : m = ⟨.member, true⟩ := hharmless _ m hjoins hm
      rw [hmember] at hactive
      exact Bool.false_ne_true hactive.symm
  | scimProvision o email =>
    rcases scimProvision_userTenants env db fresh o email with hrun | ⟨u, hu, hrun⟩
    · obtain ⟨m, hm, hactive⟩ := h
      exact ⟨m, (congrArg (Table.get? · (user, org)) hrun).trans hm, hactive⟩
    · refine h.upsert_ne hrun ?_
      intro hkey
      obtain ⟨rfl, rfl⟩ := Prod.mk.inj hkey
      exact hreadmits ⟨rfl, hu⟩
  | scimSetActive o u active =>
    obtain ⟨m, hm, hactive⟩ := h
    have hget : (MembershipMove.run env secretKey db ⟨fresh, .scimSetActive o u active⟩).accounts.membership
        user org = some (if (user, org) = (u, o) then { m with active } else m) := by
      show (db.accounts.userTenants.update _).get? (user, org) = _
      rw [Table.get?_update]
      show (db.accounts.membership user org).map _ = _
      rw [hm]
      rfl
    refine ⟨_, hget, ?_⟩
    by_cases hkey : (user, org) = (u, o)
    · rw [if_pos hkey]
      obtain ⟨rfl, rfl⟩ := Prod.mk.inj hkey
      show active = false
      rw [← Bool.not_eq_true]
      exact fun htrue => hreadmits ⟨rfl, rfl, htrue⟩
    · rw [if_neg hkey]
      exact hactive
  | grant email orgSlug role =>
    rcases grant_userTenants db email orgSlug role with hrun | ⟨u, o, hu, ho, hrun⟩
    · obtain ⟨m, hm, hactive⟩ := h
      exact ⟨m, (congrArg (Table.get? · (user, org)) hrun).trans hm, hactive⟩
    · refine h.upsert_ne hrun ?_
      intro hkey
      obtain ⟨rfl, rfl⟩ := Prod.mk.inj hkey
      exact hreadmits ⟨hu, ho⟩

/-- A harmless sign-in leaves every admin an admin. -/
theorem Accounts.IsAdmin.login {db : Database} {fresh : Fresh} {idp : IdentityProvider}
    {p : CallbackParams} {user org : Uuid} (h : db.accounts.IsAdmin user org)
    (hharmless : MembershipMove.Harmless secretKey db ⟨fresh, .login idp p⟩) :
    (MembershipMove.run env secretKey db ⟨fresh, .login idp p⟩).accounts.IsAdmin user org := by
  obtain ⟨m, hm, hrole⟩ := h
  refine ⟨m, ?_, hrole⟩
  have hrun := login_userTenants env secretKey db fresh idp p
  show Table.get? (exec (authCallback env secretKey fresh idp p) db).2.accounts.userTenants _ = _
  rw [hrun]
  cases hjoins : db.joins secretKey fresh idp p with
  | none => exact hm
  | some key =>
    have hne : (user, org) ≠ key := by
      rintro rfl
      have hmember : m = ⟨.member, true⟩ := hharmless _ m hjoins hm
      rw [hmember] at hrole
      cases hrole
    show (db.accounts.userTenants.upsert key _ _).get? (user, org) = _
    rw [Table.get?_upsert, if_neg hne]
    exact hm

/-- The membership a sign-in writes is an active member's afterwards. -/
theorem membership_login (env : Credentials) {db : Database} {fresh : Fresh} {idp : IdentityProvider}
    {p : CallbackParams} {user org : Uuid} {m : Membership}
    (hjoins : db.joins secretKey fresh idp p = some (user, org))
    (hm : db.accounts.membership user org = some m) :
    (MembershipMove.run env secretKey db ⟨fresh, .login idp p⟩).accounts.membership user org
      = some ⟨.member, true⟩ := by
  have hrun := login_userTenants env secretKey db fresh idp p
  show Table.get? (exec (authCallback env secretKey fresh idp p) db).2.accounts.userTenants _ = _
  have hm : db.accounts.userTenants.get? (user, org) = some m := hm
  rw [hrun, hjoins]
  show (db.accounts.userTenants.upsert (user, org) _ _).get? (user, org) = _
  rw [Table.get?_upsert, if_pos rfl, hm]
  rfl

/-- A sign-in that leaves memberships alone is harmless: it would make an admin a member, or
switch a membership on. -/
theorem MembershipMove.harmless_of_kept (env : Credentials) {db : Database} {move : MembershipMove}
    (hoff : ∀ user org, db.accounts.Deactivated user org → move.IsLogin →
      (move.run env secretKey db).accounts.Deactivated user org)
    (hroles : ∀ user org, db.accounts.IsAdmin user org → move.IsLogin →
      (move.run env secretKey db).accounts.IsAdmin user org) : move.Harmless secretKey db := by
  obtain ⟨fresh, op⟩ := move
  cases op with
  | login idp p =>
    rintro ⟨user, org⟩ m hjoins hm
    have hafter := membership_login env hjoins hm
    have hlogin : MembershipMove.IsLogin ⟨fresh, .login idp p⟩ := ⟨idp, p, rfl⟩
    have hrole : m.role = .member := by
      cases hadmin : m.role with
      | member => rfl
      | admin =>
        obtain ⟨m', hm', hrole'⟩ := hroles user org ⟨m, hm, hadmin⟩ hlogin
        rw [hafter] at hm'
        rw [← Option.some.inj hm'] at hrole'
        cases hrole'
    have hactive : m.active = true := by
      cases hoff' : m.active with
      | true => rfl
      | false =>
        obtain ⟨m', hm', hactive'⟩ := hoff user org ⟨m, hm, hoff'⟩ hlogin
        rw [hafter] at hm'
        rw [← Option.some.inj hm'] at hactive'
        cases hactive'
    cases m
    exact congrArg₂ Membership.mk hrole hactive
  | scimProvision o email => trivial
  | scimSetActive o u active => trivial
  | grant email orgSlug role => trivial

end Runs

/-- **Sign-ins keep memberships exactly when they are harmless.**  Over any run from any
state, switched-off memberships stay off until somebody readmits them and no sign-in takes an
admin's role away, if and only if every sign-in of the run finds the membership it writes
absent, or an active member's. -/
theorem sign_ins_keep_memberships_iff (env : Credentials) (secretKey : Option SecretKey)
    (db : Database) (moves : List MembershipMove) :
    SignInsKeepMemberships env secretKey db moves ↔
      ∀ x ∈ Run.trace (MembershipMove.run env secretKey) db moves,
        x.2.Harmless secretKey x.1 := by
  constructor
  · intro h x hx
    obtain ⟨pre, post, hmoves, hpre⟩ := (Run.mem_trace_iff db moves x).1 hx
    refine MembershipMove.harmless_of_kept env ?_ fun user org hadmin hlogin =>
      h.roles x hx hlogin user org hadmin
    intro user org hoff hlogin
    -- the move is a part of the run of its own, and a sign-in readmits nobody
    have hsplit : moves = pre ++ [x.2] ++ post := by rw [hmoves, List.append_cons]
    have hkept := h.offboarded pre [x.2] post hsplit user org (hpre ▸ hoff) ?_
    · rw [Run.final_append, ← hpre] at hkept
      exact hkept.1
    · intro y hy hreadmits
      obtain rfl := List.mem_singleton.1 hy
      obtain ⟨idp, p, hop⟩ := hlogin
      unfold MembershipMove.Readmits at hreadmits
      rw [hop] at hreadmits
      exact hreadmits
  · intro h
    refine ⟨?_, ?_⟩
    · intro pre mid post hmoves user org hoff hquiet
      have hkept : (Run.final (MembershipMove.run env secretKey) db (pre ++ mid)).accounts.Deactivated
          user org := by
        rw [Run.final_append]
        refine Run.final_of_trace (p := fun db : Database => db.accounts.Deactivated user org) ?_ hoff
        intro x hx hx_off
        refine hx_off.run (h x ?_) (hquiet x hx)
        rw [hmoves, Run.trace_append, Run.trace_append]
        exact List.mem_append_left _ (List.mem_append_right _ hx)
      exact ⟨hkept, hkept.shutOut env⟩
    · rintro ⟨db', fresh, op⟩ hx ⟨idp, p, rfl⟩ user org hadmin
      exact hadmin.login (h _ hx)

/-! ## The offboarding case -/

namespace Office

/-- A connection without a client secret that admits every domain. -/
def connection (org : Uuid) (adminDomains : Option (List String)) : OidcConnection where
  orgId := some org
  issuerUrl := "https://login.example"
  clientId := "sconce"
  clientSecret := none
  redirectUrl := "https://dashboard.example/auth/callback"
  scopes := "openid email profile"
  allowedDomains := none
  adminDomains := adminDomains

/-- A provider that asserts one email. -/
def asserting (email : String) : IdentityProvider where
  begin := fun _ _ => .ok ⟨"https://login.example/authorize", "state", "nonce", "verifier"⟩
  finish := fun _ _ _ _ _ => .ok email

/-- Two organizations; jane is an admin of the first and bob one of the second; the first
has a connection, and a login has begun with it. -/
def opened : Database where
  catalog := { Catalog.empty with
    organizations := ⟨[(1, ⟨"acme", none⟩), (2, ⟨"globex", none⟩)], by decide⟩ }
  accounts := {
    users := ⟨[(1, ⟨"jane@acme.com", "", false⟩), (2, ⟨"bob@globex.com", "", false⟩)], by decide⟩
    userTenants := ⟨[((1, 1), ⟨.admin, true⟩), ((2, 2), ⟨.admin, true⟩)], by decide⟩
    sessions := ∅
    passwordResets := ∅
    oidcConnections := ⟨[(1, connection 1 none)], by decide⟩
    oidcFlows := ⟨[("state", ⟨some 1, "nonce", "verifier", "/", 100⟩)], by decide⟩
    scimTokens := ∅
    deviceFlows := ∅ }

/-- What the requests of the examples draw. -/
def fresh : Fresh := ⟨7, "secret", "random", "salt", 0⟩

/-- The provider of the first organization switches jane off. -/
def offboard : MembershipMove := ⟨fresh, .scimSetActive 1 1 false⟩

/-- Jane signs in. -/
def signIn : MembershipMove :=
  ⟨fresh, .login (asserting "jane@acme.com") ⟨some "code", some "state", none⟩⟩

/-- Signing in after the offboarding makes jane an active member again. -/
theorem offboarded_member_returns :
    ¬ SignInsKeepMemberships .plain none opened [offboard, signIn] := by
  intro h
  have hkept := h.offboarded [offboard] [signIn] [] rfl 1 1 ⟨⟨.admin, false⟩, by decide, rfl⟩ ?_
  · obtain ⟨m, hm, hactive⟩ := hkept.1
    have hafter : (Run.final (MembershipMove.run .plain none) opened
        [offboard, signIn]).accounts.membership 1 1 = some ⟨.member, true⟩ := by decide
    have hm : _ = some m := hm
    rw [show [offboard] ++ [signIn] = [offboard, signIn] from rfl, hafter] at hm
    rw [← Option.some.inj hm] at hactive
    cases hactive
  · intro x hx hreadmits
    obtain rfl := List.mem_singleton.1 hx
    exact hreadmits

end Office

end Sconce
