/-
# Accounts and the spellings of an address

A user is inserted on conflict of the exact `email`, while `scim_member_by_email` folds case; so
an address that arrives in two spellings has two accounts (`Spellings.second_account`), and an
offboarding over SCIM covers one of them.

`OneAccountEach` is what folding promises over a run of `create_user`,
`find_or_create_sso_user` and `scim_provision`.  It holds exactly when every call that inserts a
user finds no account with the address in another spelling (`one_account_each_iff`).
-/
import Sconce.Accounts.Provisioning
import Sconce.Lib.Run

namespace Sconce

open Effect

/-! ## Runs -/

/-- A call that can insert a user. -/
inductive UserOp where
  | createUser (email password : String) (isSuperadmin : Bool)
  | findOrCreateSsoUser (email : String) (isSuperadmin : Bool)
  | scimProvision (org : Uuid) (email : String)

/-- The email of the call. -/
def UserOp.email : UserOp → String
  | .createUser email _ _ => email
  | .findOrCreateSsoUser email _ => email
  | .scimProvision _ email => email

/-- A call with what it draws. -/
structure UserMove where
  fresh : Fresh
  op : UserOp

/-- The call, with the id of the user it answers. -/
def UserMove.call (env : Credentials) (move : UserMove) : Effect Database SqlError Uuid :=
  match move.op with
  | .createUser email password isSuperadmin =>
    onAccounts (createUser env move.fresh email password isSuperadmin)
  | .findOrCreateSsoUser email isSuperadmin =>
    onAccounts (findOrCreateSsoUser env move.fresh email isSuperadmin)
  | .scimProvision org email => scimProvision env move.fresh org email

/-- The database after a call. -/
def UserMove.run (env : Credentials) (db : Database) (move : UserMove) : Database :=
  (exec (move.call env) db).2

/-! ## What is claimed, and when it holds -/

/-- The email of a user. -/
def Accounts.emailOf (acc : Accounts) (user : Uuid) : Option String :=
  (acc.users.get? user).map (·.email)

/-- No two users have emails that differ in case only. -/
def Accounts.OnePerAddress (acc : Accounts) (lower : String → String) : Prop :=
  ∀ user user' email email', acc.emailOf user = some email → acc.emailOf user' = some email' →
    lower email = lower email' → user = user'

/-- An address has one account in every state of a run, and a member that `scim_member_by_email`
finds for it is the account that a password and a single sign-on open under any spelling. -/
structure OneAccountEach (env : Credentials) (lower : String → String) (db : Database)
    (moves : List UserMove) : Prop where
  unique : ∀ done, done <+: moves →
    (Run.final (UserMove.run env) db done).accounts.OnePerAddress lower
  password : ∀ done, done <+: moves → ∀ org address found active,
    (Run.final (UserMove.run env) db done).accounts.scimMemberByEmail lower org address
      = some (found, active) →
    ∀ spelling password user, lower spelling = lower address →
      (Run.final (UserMove.run env) db done).accounts.verifyCredentials env spelling password
        = some user → user = found
  sso : ∀ x ∈ Run.trace (UserMove.run env) db moves, ∀ spelling isSuperadmin user,
    x.2.op = .findOrCreateSsoUser spelling isSuperadmin →
    (exec (x.2.call env) x.1).1 = .ok user → ∀ org address found active,
      (x.2.run env x.1).accounts.scimMemberByEmail lower org address = some (found, active) →
      lower spelling = lower address → user = found

/-- The call inserts a user: it draws a free id for an email that nobody has. -/
def UserMove.Inserts (db : Database) (move : UserMove) : Prop :=
  db.accounts.userByEmail move.op.email = none ∧ db.accounts.users.get? move.fresh.id = none ∧
    match move.op with
    | .scimProvision org _ => (db.catalog.organizations.get? org).isSome
    | _ => True

/-- A call that inserts a user finds no account with the address in another spelling. -/
def UserMove.NewAddress (lower : String → String) (db : Database) (move : UserMove) : Prop :=
  move.Inserts db → ∀ user email, db.accounts.emailOf user = some email →
    lower email ≠ lower move.op.email

/-! ## What a call does to the emails -/

section Calls

variable {env : Credentials} {lower : String → String} {db : Database} {move : UserMove}
  {acc : Accounts}

/-- A user found by an email has that email. -/
theorem Accounts.emailOf_of_userByEmail {email : String} {user : Uuid} {u : User}
    (h : acc.userByEmail email = some (user, u)) : acc.emailOf user = some email := by
  have hrow := (Table.mem_rows_iff _ _ _).1 (List.mem_of_find?_eq_some h)
  have hemail : u.email = email := of_decide_eq_true (List.find?_some h :)
  unfold Accounts.emailOf
  rw [hrow, Option.map_some, hemail]

/-- What an upsert of a user does to the emails: a free id takes an email that nobody has. -/
theorem upsertUser_emailOf {id : Uuid} {row : User} {merge : User → User}
    (hmerge : ∀ u, (merge u).email = u.email) (acc : Accounts) :
    (acc.userByEmail row.email = none ∧ acc.users.get? id = none ∧
        ∀ user, (exec (upsertUser id row merge) acc).2.emailOf user =
          if user = id then some row.email else acc.emailOf user) ∨
      ¬ (acc.userByEmail row.email = none ∧ acc.users.get? id = none) ∧
        ∀ user, (exec (upsertUser id row merge) acc).2.emailOf user = acc.emailOf user := by
  rw [exec_upsertUser]
  unfold Accounts.accountFor
  cases hfound : acc.userByEmail row.email with
  | some r =>
    refine .inr ⟨fun h => Option.some_ne_none _ h.1, fun user => ?_⟩
    have hstored : acc.users.get? r.1 = some r.2 :=
      (Table.mem_rows_iff _ _ _).1 (List.mem_of_find?_eq_some hfound)
    show ((acc.users.upsert r.1 row merge).get? user).map (·.email) = (acc.users.get? user).map _
    rw [Table.get?_upsert]
    split_ifs with hsame
    · rw [hsame, hstored]
      exact congrArg some (hmerge r.2)
    · rfl
  | none =>
    cases htaken : acc.users.get? id with
    | some u => exact .inr ⟨fun h => Option.some_ne_none _ h.2, fun user => rfl⟩
    | none =>
      refine .inl ⟨rfl, rfl, fun user => ?_⟩
      show ((acc.users.upsert id row merge).get? user).map (·.email) = _
      rw [Table.get?_upsert, htaken]
      split_ifs with hsame
      · rfl
      · rfl

/-- The account an upsert answers has the email. -/
theorem upsertUser_answer {id user : Uuid} {row : User} {merge : User → User}
    (hmerge : ∀ u, (merge u).email = u.email)
    (h : (exec (upsertUser id row merge) acc).1 = .ok user) :
    (exec (upsertUser id row merge) acc).2.emailOf user = some row.email := by
  rw [exec_upsertUser] at h ⊢
  cases haccount : acc.accountFor id row.email with
  | none =>
    rw [haccount] at h
    exact absurd h nofun
  | some found =>
    rw [haccount] at h
    obtain rfl := Except.ok.inj h
    obtain ⟨⟨found', u⟩, hu, hfound⟩ :=
      Option.map_eq_some_iff.1 (Accounts.userByEmail_upsert haccount hmerge)
    obtain rfl : found' = found := hfound
    exact Accounts.emailOf_of_userByEmail hu

/-- `scim_provision` fails and changes nothing, or ends as its upsert of the user does. -/
theorem scimProvision_cases (env : Credentials) (fresh : Fresh) (org : Uuid) (email : String)
    (db : Database) :
    (∃ e, exec (scimProvision env fresh org email) db = (.error e, db) ∧
        (db.catalog.organizations.get? org = none ∨ db.accounts.accountFor fresh.id email = none)) ∨
      (db.catalog.organizations.get? org).isSome ∧ ∃ hash user db',
        exec (scimProvision env fresh org email) db = (.ok user, db') ∧
        (exec (upsertUser fresh.id ⟨email, hash, false⟩ id) db.accounts).1 = .ok user ∧
        db'.accounts.users =
          (exec (upsertUser fresh.id ⟨email, hash, false⟩ id) db.accounts).2.users := by
  unfold scimProvision
  rw [exec_atomically, exec_bind]
  unfold onAccounts
  simp only [exec_onPart, exec_upsertUser]
  cases haccount : db.accounts.accountFor fresh.id email with
  | none => exact .inl ⟨_, rfl, .inr rfl⟩
  | some user =>
    simp only [andThen, exec_bind, exec_get]
    cases horg : db.catalog.organizations.get? org with
    | none => exact .inl ⟨_, rfl, .inl rfl⟩
    | some o => exact .inr ⟨rfl, _, user, _, rfl, rfl, rfl⟩

/-- **What a call does to the emails.** -/
theorem UserMove.emailOf_run (env : Credentials) (db : Database) (move : UserMove) :
    (move.Inserts db ∧ db.accounts.users.get? move.fresh.id = none ∧
        ∀ user, (move.run env db).accounts.emailOf user =
          if user = move.fresh.id then some move.op.email else db.accounts.emailOf user) ∨
      ¬ move.Inserts db ∧
        ∀ user, (move.run env db).accounts.emailOf user = db.accounts.emailOf user := by
  obtain ⟨fresh, op⟩ := move
  cases op with
  | createUser email password isSuperadmin =>
    rcases @upsertUser_emailOf fresh.id ⟨email, env.hashPassword fresh.salt password, isSuperadmin⟩
        (fun u => { u with passwordHash := env.hashPassword fresh.salt password, isSuperadmin })
        (fun _ => rfl) db.accounts with ⟨hnew, hfree, hemails⟩ | ⟨hnot, hemails⟩
    · exact .inl ⟨⟨hnew, hfree, trivial⟩, hfree, hemails⟩
    · exact .inr ⟨fun h => hnot ⟨h.1, h.2.1⟩, hemails⟩
  | findOrCreateSsoUser email isSuperadmin =>
    rcases @upsertUser_emailOf fresh.id
        ⟨email, env.hashPassword fresh.salt ("sso_" ++ fresh.randomPassword), isSuperadmin⟩
        (fun u => { u with isSuperadmin }) (fun _ => rfl) db.accounts with ⟨hnew, hfree, hemails⟩ | ⟨hnot, hemails⟩
    · exact .inl ⟨⟨hnew, hfree, trivial⟩, hfree, hemails⟩
    · exact .inr ⟨fun h => hnot ⟨h.1, h.2.1⟩, hemails⟩
  | scimProvision org email =>
    -- the provisioning fails for want of an organization or an account, or upserts the user
    rcases scimProvision_cases env fresh org email db with
      ⟨e, hrun, hwhy⟩ | ⟨horg, hash, user, db', hrun, -, husers⟩
    · refine .inr ⟨?_, fun user => ?_⟩
      · rintro ⟨hnew, hfree, horg⟩
        rcases hwhy with hnone | hnone
        · exact absurd (hnone ▸ horg : (none : Option Organization).isSome = true) nofun
        · unfold Accounts.accountFor at hnone
          change db.accounts.userByEmail email = none at hnew
          rw [hnew, hfree] at hnone
          exact absurd hnone nofun
      · show (exec (scimProvision env fresh org email) db).2.accounts.emailOf user = _
        rw [hrun]
    · -- a membership beside the account changes no address
      have hsame : ∀ user, (UserMove.run env db ⟨fresh, .scimProvision org email⟩).accounts.emailOf
          user = (exec (upsertUser fresh.id ⟨email, hash, false⟩ id) db.accounts).2.emailOf user := by
        intro user
        show (exec (scimProvision env fresh org email) db).2.accounts.emailOf user = _
        rw [hrun]
        unfold Accounts.emailOf
        rw [husers]
      rcases @upsertUser_emailOf fresh.id ⟨email, hash, false⟩ id
          (fun _ => rfl) db.accounts with ⟨hnew, hfree, hemails⟩ | ⟨hnot, hemails⟩
      · exact .inl ⟨⟨hnew, hfree, horg⟩, hfree, fun user => (hsame user).trans (hemails user)⟩
      · exact .inr ⟨fun h => hnot ⟨h.1, h.2.1⟩, fun user => (hsame user).trans (hemails user)⟩

/-! ## Every run -/

/-- An address keeps its one account over a call exactly when the call brings no new spelling. -/
theorem UserMove.onePerAddress_iff (h : db.accounts.OnePerAddress lower) :
    (move.run env db).accounts.OnePerAddress lower ↔ move.NewAddress lower db := by
  rcases UserMove.emailOf_run env db move with ⟨hinserts, hfree, hemails⟩ | ⟨hnot, hemails⟩
  · have hnobody : db.accounts.emailOf move.fresh.id = none := by
      unfold Accounts.emailOf
      rw [hfree]
      rfl
    have hother : ∀ {user email}, db.accounts.emailOf user = some email →
        user ≠ move.fresh.id ∧ (move.run env db).accounts.emailOf user = some email := by
      intro user email huser
      have hne : user ≠ move.fresh.id := by
        rintro rfl
        exact absurd (hnobody.symm.trans huser) nofun
      rw [hemails, if_neg hne]
      exact ⟨hne, huser⟩
    constructor
    · intro hone _ user email huser hsame
      obtain ⟨hne, hafter⟩ := hother huser
      exact hne (hone user move.fresh.id email move.op.email hafter (by rw [hemails, if_pos rfl]) hsame)
    · intro hnew user user' email email' huser huser' hsame
      have hnew := hnew hinserts
      rw [hemails] at huser huser'
      split_ifs at huser with hu <;> split_ifs at huser' with hu'
      · rw [hu, hu']
      · rw [← Option.some.inj huser] at hsame
        exact absurd hsame.symm (hnew user' email' huser')
      · rw [← Option.some.inj huser'] at hsame
        exact absurd hsame (hnew user email huser)
      · exact h user user' email email' huser huser' hsame
  · refine iff_of_true (fun user user' email email' huser huser' => ?_) fun hinserts => absurd hinserts hnot
    rw [hemails] at huser huser'
    exact h user user' email email' huser huser'

/-- The member that `scim_member_by_email` finds has the address. -/
theorem Accounts.emailOf_of_scimMemberByEmail {org found : Uuid} {address : String} {active : Bool}
    (h : acc.scimMemberByEmail lower org address = some (found, active)) :
    ∃ email, acc.emailOf found = some email ∧ lower email = lower address := by
  unfold Accounts.scimMemberByEmail at h
  obtain ⟨r, hr, hanswer⟩ := Option.bind_eq_some_iff.1 h
  obtain ⟨rfl, -⟩ := Prod.mk.inj (Option.some.inj hanswer)
  have hcond := of_decide_eq_true (List.find?_some hr :)
  unfold Accounts.emailOf
  cases hu : acc.users.get? r.1.1 with
  | none =>
    rw [hu] at hcond
    exact absurd hcond.2 nofun
  | some u =>
    rw [hu] at hcond
    exact ⟨u.email, rfl, of_decide_eq_true hcond.2⟩

/-- The account a call answers has the email of the call. -/
theorem UserMove.emailOf_answer {user : Uuid} (h : (exec (move.call env) db).1 = .ok user) :
    (move.run env db).accounts.emailOf user = some move.op.email := by
  obtain ⟨fresh, op⟩ := move
  cases op with
  | createUser email password isSuperadmin => exact upsertUser_answer (fun _ => rfl) h
  | findOrCreateSsoUser email isSuperadmin => exact upsertUser_answer (fun _ => rfl) h
  | scimProvision org email =>
    change (exec (scimProvision env fresh org email) db).1 = .ok user at h
    show (exec (scimProvision env fresh org email) db).2.accounts.emailOf user = _
    rcases scimProvision_cases env fresh org email db with
      ⟨e, hrun, -⟩ | ⟨-, hash, user', db', hrun, hanswer, husers⟩
    · rw [hrun] at h
      exact absurd h nofun
    · rw [hrun] at h ⊢
      obtain rfl := Except.ok.inj h
      have hemail := upsertUser_answer (fun _ => rfl) hanswer
      unfold Accounts.emailOf at hemail ⊢
      rw [husers]
      exact hemail

end Calls

/-- **One account for an address.**  Over any run of `create_user`, `find_or_create_sso_user` and
`scim_provision`, from a state where it is so, an address keeps one account, which a password and
a single sign-on open under any spelling, if and only if every call of the run that inserts a user
finds no account with the address in another spelling. -/
theorem one_account_each_iff (env : Credentials) (lower : String → String) {db : Database}
    (h : db.accounts.OnePerAddress lower) (moves : List UserMove) :
    OneAccountEach env lower db moves ↔
      ∀ x ∈ Run.trace (UserMove.run env) db moves, x.2.NewAddress lower x.1 := by
  have hsafe : (∀ done, done <+: moves →
        (Run.final (UserMove.run env) db done).accounts.OnePerAddress lower) ↔
      ∀ x ∈ Run.trace (UserMove.run env) db moves, x.2.NewAddress lower x.1 :=
    Run.always_iff (p := fun db : Database => db.accounts.OnePerAddress lower)
      (fun db move hdb => UserMove.onePerAddress_iff hdb) h moves
  rw [← hsafe]
  constructor
  · exact fun heach => heach.unique
  · intro hunique
    refine ⟨hunique, fun done hdone org address found active hfound spelling password user hspelling
      hlogin => ?_, fun x hx spelling isSuperadmin user hop hanswer org address found active hfound
      hspelling => ?_⟩
    · obtain ⟨email, hemail, hlower⟩ := Accounts.emailOf_of_scimMemberByEmail hfound
      obtain ⟨⟨user', u⟩, hrow, huser⟩ := Option.map_eq_some_iff.1 hlogin
      obtain rfl : user' = user := huser
      have hopened := Accounts.emailOf_of_userByEmail (Option.filter_eq_some_iff.1 hrow).1
      exact hunique done hdone _ _ _ _ hopened hemail (hspelling.trans hlower.symm)
    · obtain ⟨email, hemail, hlower⟩ := Accounts.emailOf_of_scimMemberByEmail hfound
      obtain ⟨pre, post, hmoves, hpre⟩ := (Run.mem_trace_iff db moves x).1 hx
      have hafter := hunique (pre ++ [x.2]) ⟨post, by rw [hmoves, List.append_assoc]; rfl⟩
      rw [Run.final_append, ← hpre] at hafter
      have hopened := UserMove.emailOf_answer hanswer
      rw [hop] at hopened
      exact hafter _ _ _ _ hopened hemail (hspelling.trans hlower.symm)

namespace Spellings

/-- Case folding, letter by letter. -/
def lower (text : String) : String := String.ofList (text.toList.map Char.toLower)

/-- One organization, and nobody yet. -/
def founded : Database where
  catalog := { Catalog.empty with organizations := .single 1 ⟨"acme", none⟩ }
  accounts := {
    users := ∅
    userTenants := ∅
    sessions := ∅
    passwordResets := ∅
    oidcConnections := ∅
    oidcFlows := ∅
    scimTokens := ∅
    deviceFlows := ∅ }

/-- What the calls draw; each inserted user gets an id of its own. -/
def fresh (id : Uuid) : Fresh := ⟨id, "secret", "random", "salt", 0⟩

/-- A single sign-on with a capital letter, and then the provisioning of the member. -/
def spelledTwice : List UserMove :=
  [⟨fresh 1, .findOrCreateSsoUser "Ada@acme.com" false⟩, ⟨fresh 2, .scimProvision 1 "ada@acme.com"⟩]

/-- The provisioning makes a second account for the address. -/
theorem second_account : ¬ OneAccountEach .plain lower founded spelledTwice := by
  intro h
  have hsame := h.unique spelledTwice (List.prefix_refl _) 1 2 "Ada@acme.com" "ada@acme.com"
    (by decide) (by decide) (by decide)
  exact absurd hsame (by decide)

/-- With one spelling there is one account. -/
theorem one_account_each_iff_spelled : OneAccountEach .plain lower founded
    [⟨fresh 1, .findOrCreateSsoUser "ada@acme.com" false⟩,
      ⟨fresh 2, .scimProvision 1 "ada@acme.com"⟩] := by
  have hnobody : founded.accounts.OnePerAddress lower := by
    intro user user' email email' h
    exact absurd (h : none = some email) nofun
  refine (one_account_each_iff .plain lower hnobody _).2 fun x hx => ?_
  rcases List.mem_cons.1 hx with rfl | hx
  · intro _ user email h
    exact absurd (h : none = some email) nofun
  · obtain rfl := List.mem_singleton.1 hx
    exact fun hinserts => absurd hinserts.1 (by decide)

end Spellings

end Sconce
