/-
# What the forms do to the sign-in tables

Who a session is of, what it reaches, and the steps of the sign-in tables that gain nobody
anything: no session is opened, nobody becomes a superadmin, and the memberships stay.

Every form of the dashboard that is not a superadmin's is such a step (`Ui.handle_gainless`),
and so is every form of one's own account; of the public forms only a login opens a session.
-/
import Sconce.Dashboard.ReadOnly
import Sconce.Dashboard.SignIn

namespace Sconce

open Effect

/-! ## What a session reaches -/

namespace Accounts

/-- The user is a superadmin. -/
def IsSuperadmin (acc : Accounts) (user : Uuid) : Prop :=
  ∃ u, acc.users.get? user = some u ∧ u.isSuperadmin = true

/-- The user has access to the organization. -/
def HasAccess (acc : Accounts) (user org : Uuid) : Prop :=
  ∃ m, acc.membership user org = some m ∧ m.active = true

/-- The user has access to no other organization. -/
def OnlyIn (acc : Accounts) (org user : Uuid) : Prop := ∀ o, acc.HasAccess user o → o = org

/-- A session that is a superadmin's, or of an account with access to another organization, was
there before, and its account was that already. -/
structure ReachesNoFurther (org : Uuid) (before after : Accounts) : Prop where
  superadmin : ∀ hash s, after.sessions.get? hash = some s → after.IsSuperadmin s.userId →
    before.sessions.get? hash = some s ∧ before.IsSuperadmin s.userId
  access : ∀ hash s o, after.sessions.get? hash = some s → o ≠ org →
    after.HasAccess s.userId o → before.sessions.get? hash = some s ∧ before.HasAccess s.userId o

/-- A step of the sign-in tables that stays inside the organization: the sessions it opens are
those of users who reach nothing else, and nobody else reaches more. -/
structure StaysInside (org : Uuid) (acc acc' : Accounts) : Prop where
  sessions : ∀ hash s, acc'.sessions.get? hash = some s → acc.sessions.get? hash = some s ∨
    ¬ acc'.IsSuperadmin s.userId ∧ acc'.OnlyIn org s.userId
  superadmin : ∀ user, acc'.IsSuperadmin user → acc.IsSuperadmin user
  access : ∀ user o, o ≠ org → acc'.HasAccess user o → acc.HasAccess user o

variable {org : Uuid} {before acc acc' : Accounts}

theorem ReachesNoFurther.refl : ReachesNoFurther org acc acc :=
  ⟨fun _ _ hs hsuper => ⟨hs, hsuper⟩, fun _ _ _ hs _ haccess => ⟨hs, haccess⟩⟩

theorem ReachesNoFurther.step (h : ReachesNoFurther org before acc)
    (hstep : StaysInside org acc acc') : ReachesNoFurther org before acc' where
  superadmin hash s hs hsuper := by
    rcases hstep.sessions hash s hs with hold | ⟨hplain, -⟩
    · exact h.superadmin hash s hold (hstep.superadmin _ hsuper)
    · exact absurd hsuper hplain
  access hash s o hs ho haccess := by
    rcases hstep.sessions hash s hs with hold | ⟨-, honly⟩
    · exact h.access hash s o hold ho (hstep.access _ o ho haccess)
    · exact absurd (honly o haccess) ho

/-- No session is opened, nobody becomes a superadmin, and the memberships stay as they are. -/
structure NoGain (acc acc' : Accounts) : Prop where
  sessions : ∀ hash s, acc'.sessions.get? hash = some s → acc.sessions.get? hash = some s
  superadmin : ∀ user, acc'.IsSuperadmin user → acc.IsSuperadmin user
  memberships : acc'.userTenants = acc.userTenants

instance : IsPreorder Accounts NoGain where
  refl _ := ⟨fun _ _ h => h, fun _ h => h, rfl⟩
  trans _ _ _ h h' :=
    ⟨fun hash s hs => h.sessions hash s (h'.sessions hash s hs),
      fun user hs => h.superadmin user (h'.superadmin user hs),
      h'.memberships.trans h.memberships⟩

theorem NoGain.staysInside (h : NoGain acc acc') : StaysInside org acc acc' where
  sessions hash s hs := Or.inl (h.sessions hash s hs)
  superadmin := h.superadmin
  access user o _ haccess := by
    unfold HasAccess membership at haccess
    rwa [h.memberships] at haccess

/-- Tables that no session is resolved from may change. -/
theorem NoGain.of_eq (husers : acc'.users = acc.users) (hmemberships : acc'.userTenants = acc.userTenants)
    (hsessions : acc'.sessions = acc.sessions) : NoGain acc acc' where
  sessions hash s hs := by rwa [hsessions] at hs
  superadmin user hs := by
    unfold IsSuperadmin at hs
    rwa [husers] at hs
  memberships := hmemberships

end Accounts

/-! ## Forms -/

section Rules

variable {ε α : Type}

instance : IsPreorder Database (fun db db' => db.accounts.NoGain db'.accounts) where
  refl _ := refl_of Accounts.NoGain _
  trans _ _ _ := trans_of Accounts.NoGain

/-- The computation gains nobody anything. -/
abbrev Gainless (m : Effect Database ε α) : Prop :=
  Keeps (fun db db' => db.accounts.NoGain db'.accounts) m

theorem gainless_onCatalog (m : Effect Catalog ε α) : Gainless (onCatalog m) :=
  fun _ => refl_of Accounts.NoGain _

theorem gainless_gate (check : Catalog → Except StatusCode α) : Gainless (gate check) := by
  intro db
  rw [exec_gate]
  exact refl_of Accounts.NoGain _

theorem gainless_onAccounts {m : Effect Accounts ε α} (h : Keeps Accounts.NoGain m) :
    Gainless (onAccounts m) :=
  fun db => h db.accounts

/-- The mapping of errors changes nothing. -/
theorem gainless_e500 {m : Effect Database ε α} (h : Gainless m) : Gainless (e500 m) :=
  keeps_adapt h

/-- Ending sessions gains nobody anything. -/
theorem noGain_deleteSessions (p : Sha256 → LoginSession → Bool) :
    Keeps Accounts.NoGain (deleteSessions (ε := ε) p) := by
  intro acc
  refine ⟨fun hash s hs => ?_, fun _ h => h, rfl⟩
  have hs : (acc.sessions.delete p).get? hash = some s := hs
  rw [Table.get?_delete] at hs
  exact (Option.filter_eq_some_iff.1 hs).1

theorem noGain_setPasswordHash (user : Uuid) (hash : String) :
    Keeps Accounts.NoGain (setPasswordHash (ε := ε) user hash) := by
  intro acc
  refine ⟨fun _ _ h => h, ?_, rfl⟩
  rintro k ⟨u, hu, hsuper⟩
  have hu : (acc.users.update _).get? k = some u := hu
  rw [Table.get?_update] at hu
  obtain ⟨u', hu', rfl⟩ := Option.map_eq_some_iff.1 hu
  refine ⟨u', hu', ?_⟩
  split_ifs at hsuper <;> exact hsuper

theorem gainless_setOidcConnection (id : Uuid) (orgSlug : Option String) (c : OidcConnection) :
    Gainless (setOidcConnection id orgSlug c) := by
  unfold setOidcConnection
  refine keeps_bind keeps_get fun db => ?_
  extract_lets store
  have hstore : ∀ org, Gainless (store org) := by
    intro org
    refine gainless_onAccounts (keeps_atomically ?_)
    refine keeps_bind (keeps_modify fun acc => .of_eq rfl rfl rfl) fun _ =>
      keeps_bind keeps_get fun acc => ?_
    split
    · exact keeps_bind (keeps_throw _) fun _ => keeps_modify fun acc => .of_eq rfl rfl rfl
    · exact keeps_modify fun acc => .of_eq rfl rfl rfl
  split
  · exact keeps_bind (keeps_pure none) hstore
  · split
    · exact keeps_bind (keeps_throw _) hstore
    · exact keeps_bind (keeps_ofExcept _) fun _ => keeps_bind (keeps_pure _) hstore

theorem gainless_createScimToken (env : Credentials) (fresh : Fresh) (orgSlug : String) :
    Gainless (createScimToken env fresh orgSlug) := by
  unfold createScimToken
  refine keeps_bind keeps_get fun db => ?_
  split
  · exact keeps_pure none
  · refine keeps_bind (keeps_ofExcept _) fun _ => ?_
    simp only
    split
    · exact keeps_throw _
    · refine keeps_bind (gainless_onAccounts ?_) fun _ => keeps_pure _
      exact keeps_modify fun acc => .of_eq rfl rfl rfl

end Rules

/-- **A form that is not a superadmin's gains nobody anything**: the catalog is all it writes,
but for the connection and the SCIM token of an organization. -/
theorem Ui.handle_gainless (ui : Ui) (act : Acting) (hplain : act.user.isSuperadmin = false)
    (post : Post) : Gainless (ui.handle act post) := by
  by_cases hcheck : post.check = .superadmin
  · intro db
    -- the form asks for a superadmin, which the user is not
    have hrefused : post.check.Refuses act.user db.catalog := by
      rw [hcheck]
      refine ⟨.forbidden, ?_⟩
      unfold CurrentUser.requireSuperadmin
      rw [hplain]
      rfl
    rw [handle_refused hrefused]
    exact refl_of Accounts.NoGain _
  cases post with
  | createUser | grantTenant | removeMember | createOrg => exact absurd rfl hcheck
  | saveOidc org f =>
    refine keeps_bind (gainless_gate _) fun summary => keeps_bind keeps_get fun db => ?_
    exact keeps_bind (keeps_adapt (gainless_setOidcConnection _ _ _)) fun _ => keeps_pure _
  | genScimToken org =>
    refine keeps_bind (gainless_gate _) fun _ =>
      keeps_bind (keeps_adapt (gainless_createScimToken _ _ _)) fun token => ?_
    split
    · exact keeps_throw _
    · exact keeps_pure _
  | _ =>
    -- the other handlers write the catalog and no account
    dsimp only [handle, createRepo, saveOrgSettings, renameOrgAction, createSet, deleteSet,
      addSetMember, removeSetMember, addSetRule, removeSetRule, saveRepoSettings, renameRepoAction,
      deleteRepoAction, setPolicy, versionAction, approveBulk, holdBulk, packageArchive,
      packageVisibility, createToken, revokeToken, setTokenPolicy, addCi, removeCi, createLicense,
      issueLicenseEdition, setLicenseBoundAction, setLicensePolicy, entitleLicenseSet,
      removeLicenseSet, mergeLicenseAction, createEditionAction, deactivateEdition, createGrant,
      setGrantPolicyAction, addAutogrant, removeAutogrant, createUpstream, removeUpstream,
      syncUpstream, syncAllUpstreams, resolveDeps, addDep, editionTarget, requireOwnSet]
    with_reducible repeat' first
      | exact keeps_pure _
      | exact keeps_throw _
      | exact keeps_get
      | exact keeps_ofExcept _
      | exact gainless_onCatalog _
      | exact gainless_gate _
      | refine gainless_e500 ?_
      | refine keeps_adapt ?_
      | refine keeps_outcome ?_
      | refine keeps_bind ?_ fun _ => ?_
      | refine keeps_forM (fun _ => ?_) _
      | split

/-- No form of a plain user gains anybody anything. -/
theorem Ui.serve_noGain {ui : Ui} {db : Database} {r : PostRequest}
    (hplain : ∀ user, ui.auth db.accounts r.fresh.now r.caller = some user →
      user.isSuperadmin = false) :
    db.accounts.NoGain (exec (ui.serve r) db).2.accounts := by
  rw [ui.exec_serve]
  cases hauth : ui.auth db.accounts r.fresh.now r.caller with
  | none => exact refl_of Accounts.NoGain _
  | some user => exact ui.handle_gainless (r.actingAs user) (hplain user hauth) r.post db

/-! ## One's own account -/

section Account

variable {ε : Type} (env : Credentials) (fresh : Fresh)

theorem noGain_createPasswordReset (email : String) (ttlMinutes : ℤ) :
    Keeps Accounts.NoGain (createPasswordReset env fresh email ttlMinutes) := by
  unfold createPasswordReset
  refine keeps_bind keeps_get fun acc => ?_
  split
  · exact keeps_pure none
  · refine keeps_bind (keeps_atomically ?_) fun _ => keeps_pure _
    refine keeps_bind (keeps_modify fun acc => .of_eq rfl rfl rfl) fun _ =>
      keeps_bind keeps_get fun acc => ?_
    split
    · exact keeps_bind (keeps_throw _) fun _ => keeps_modify fun acc => .of_eq rfl rfl rfl
    · exact keeps_modify fun acc => .of_eq rfl rfl rfl

/-- A reset changes a password and ends sessions. -/
theorem noGain_resetPassword (token newPassword : String) :
    Keeps Accounts.NoGain (resetPassword (ε := ε) env fresh token newPassword) := by
  unfold resetPassword
  refine keeps_bind keeps_get fun acc => ?_
  split
  · exact keeps_pure none
  · refine keeps_bind (keeps_modify fun acc => .of_eq rfl rfl rfl) fun _ => ?_
    refine keeps_bind (noGain_setPasswordHash _ _) fun _ => ?_
    exact keeps_bind (noGain_deleteSessions _) fun _ => keeps_pure _

theorem noGain_changePassword (user : Uuid) (current password : String) (keep : Option String) :
    Keeps Accounts.NoGain (changePassword (ε := ε) env fresh user current password keep) := by
  unfold changePassword
  refine keeps_bind keeps_get fun acc => ?_
  simp only
  split
  · refine keeps_bind (noGain_setPasswordHash _ _) fun _ => ?_
    exact keeps_bind (noGain_deleteSessions _) fun _ => keeps_pure _
  · exact keeps_pure _

theorem noGain_decideDeviceFlow (now : Timestamp) (userCode : String) (f : DeviceFlow → DeviceFlow) :
    Keeps Accounts.NoGain (decideDeviceFlow (ε := ε) now userCode f) := by
  unfold decideDeviceFlow
  refine keeps_bind keeps_get fun acc => ?_
  exact keeps_bind (keeps_modify fun acc => .of_eq rfl rfl rfl) fun _ => keeps_pure _

/-- The forms of one's own account gain nobody anything. -/
theorem Ui.serveAccount_gainless (ui : Ui) (r : SignInRequest AccountPost) :
    Gainless (ui.serveAccount r) := by
  unfold serveAccount
  refine keeps_bind keeps_get fun db => ?_
  split
  · exact keeps_pure _
  · split
    · unfold logout
      split
      · exact keeps_bind (gainless_onAccounts (noGain_deleteSessions _)) fun _ => keeps_pure _
      · exact keeps_pure _
    · unfold changeMyPassword
      split
      · exact keeps_throw _
      · split
        · exact keeps_pure _
        · split
          · exact keeps_pure _
          · -- the user keeps role and memberships under a new password
            refine keeps_bind (gainless_onAccounts (noGain_changePassword _ _ _ _ _ _)) fun _ => ?_
            split <;> exact keeps_pure _
    · unfold revokeMySession
      split
      · exact keeps_throw _
      · refine keeps_bind (gainless_onAccounts ?_) fun _ => keeps_pure _
        unfold revokeSessionForUser
        exact keeps_bind keeps_get fun _ =>
          keeps_bind (noGain_deleteSessions _) fun _ => keeps_pure _
    · unfold deviceApprove denyDeviceFlow approveDeviceFlow
      simp only
      split
      · refine keeps_bind (gainless_onAccounts ?_) fun _ => keeps_pure _
        exact keeps_bind (noGain_decideDeviceFlow _ _ _) fun _ => keeps_pure _
      · refine keeps_bind keeps_get fun _ => ?_
        split
        · exact keeps_throw _
        · split
          · exact keeps_throw _
          · refine keeps_bind (gainless_onAccounts (noGain_decideDeviceFlow _ _ _)) fun _ => ?_
            split <;> exact keeps_pure _

end Account

/-! ## Runs of forms -/

/-- **Forms gain nobody anything**: over every run of forms posted by people who are no
superadmins when they post them, no session opens, nobody becomes a superadmin, and no
membership changes. -/
theorem Ui.posts_gain_nothing (ui : Ui) (db : Database) (requests : List PostRequest)
    (hplain : ∀ x ∈ Run.trace (fun db r => (exec (ui.serve r) db).2) db requests, ∀ user,
      ui.auth x.1.accounts x.2.fresh.now x.2.caller = some user → user.isSuperadmin = false) :
    db.accounts.NoGain
      (Run.final (fun db r => (exec (ui.serve r) db).2) db requests).accounts := by
  refine Run.final_of_trace (p := fun db' : Database => db.accounts.NoGain db'.accounts)
    (fun x hx h => ?_) (refl_of Accounts.NoGain _)
  exact trans_of Accounts.NoGain h (serve_noGain (hplain x hx))

namespace Intern

/-- One form of a member gains nobody anything. -/
theorem posts_gain_nothing_request :
    reviewed.accounts.NoGain
      (Run.final (fun db r => (exec (ui.serve r) db).2) reviewed [request]).accounts := by
  refine ui.posts_gain_nothing reviewed [request] fun x hx user huser => ?_
  obtain rfl := List.mem_singleton.1 hx
  obtain rfl := Option.some.inj (auth_request.symm.trans huser)
  rfl

end Intern

end Sconce
