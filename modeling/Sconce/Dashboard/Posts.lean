/-
# The dashboard's forms

A request to one of the forms, the handler it is routed to, and the check that handler begins
with (`Post.check`).  Left to `Accounts` are the forms of signing in and of the user's own
account, of device logins, and the SCIM endpoints.

A handler whose check fails writes nothing (`Ui.handle_refused`).
-/
import Sconce.Dashboard.Licences
import Sconce.Dashboard.Supply

namespace Sconce

open Effect

/-! ## Requests -/

/-- A form of the dashboard: the segments of its path, and its fields. -/
inductive Post where
  | createUser (f : Ui.CreateUserForm)
  | grantTenant (f : Ui.GrantTenantForm)
  | removeMember (f : Ui.RemoveMemberForm)
  | createOrg (slug : String) (name : Option String)
  | createRepo (org repo : String)
  | saveOrgSettings (org : String) (f : Ui.OrgSettingsForm)
  | renameOrgAction (org slug : String)
  | saveOidc (org : String) (f : Ui.OidcForm)
  | genScimToken (org : String)
  | createSet (org name : String)
  | deleteSet (org id : String)
  | addSetMember (org id package : String)
  | removeSetMember (org id member : String)
  | addSetRule (org id glob : String)
  | removeSetRule (org id rule : String)
  | saveRepoSettings (org repo : String) (f : Ui.RepoSettingsForm)
  | renameRepoAction (org repo slug : String)
  | deleteRepoAction (org repo confirm : String)
  | setPolicy (org repo mode : String) (cooldownDays : ℤ)
  | versionAction (org repo : String) (f : Ui.VersionForm)
  | approveBulk (org repo : String) (f : Ui.ApproveBulkForm)
  | holdBulk (org repo : String) (f : Ui.ApproveBulkForm)
  | packageArchive (org repo package action : String)
  | packageVisibility (org repo package visibility : String)
  | createToken (org repo : String) (label expiresDays : Option String)
  | revokeToken (org repo id : String)
  | setTokenPolicy (org repo : String) (f : Ui.TokenPolicyForm)
  | addCi (org repo : String) (f : Ui.CiForm)
  | removeCi (org repo id : String)
  | createLicense (org repo : String) (buyer : Option String) (packages : String)
  | issueLicenseEdition (org repo editionId : String) (buyer : Option String)
  | setLicenseBoundAction (org repo : String) (f : Ui.LicenseBoundForm)
  | setLicensePolicy (org repo : String) (f : Ui.LicensePolicyForm)
  | entitleLicenseSet (org repo id setId : String)
  | removeLicenseSet (org repo id setId : String)
  | mergeLicenseAction (org repo id into : String)
  | createEditionAction (org repo : String) (f : Ui.EditionForm)
  | deactivateEdition (org repo id : String)
  | createGrant (org repo package source : String)
  | setGrantPolicyAction (org repo : String) (f : Ui.GrantPolicyForm)
  | addAutogrant (org repo setId : String)
  | removeAutogrant (org repo id : String)
  | createUpstream (org repo : String) (f : Ui.UpstreamForm)
  | removeUpstream (org repo id : String)
  | syncUpstream (org repo id : String)
  | syncAllUpstreams (org repo : String)
  | resolveDeps (org repo : String)
  | addDep (org repo package : String)

namespace Ui

variable (ui : Ui)

/-- The routes. -/
def handle (act : Acting) : Post → Handler
  | .createUser f => ui.createUser act f
  | .grantTenant f => grantTenant act f
  | .removeMember f => removeMember act f
  | .createOrg slug name => createOrg act slug name
  | .createRepo org repo => createRepo act org repo
  | .saveOrgSettings org f => saveOrgSettings act org f
  | .renameOrgAction org slug => renameOrgAction act org slug
  | .saveOidc org f => saveOidc act org f
  | .genScimToken org => ui.genScimToken act org
  | .createSet org name => createSet act org name
  | .deleteSet org id => ui.deleteSet act org id
  | .addSetMember org id package => ui.addSetMember act org id package
  | .removeSetMember org id member => ui.removeSetMember act org id member
  | .addSetRule org id glob => ui.addSetRule act org id glob
  | .removeSetRule org id rule => ui.removeSetRule act org id rule
  | .saveRepoSettings org repo f => saveRepoSettings act org repo f
  | .renameRepoAction org repo slug => renameRepoAction act org repo slug
  | .deleteRepoAction org repo confirm => deleteRepoAction act org repo confirm
  | .setPolicy org repo mode cooldownDays => setPolicy act org repo mode cooldownDays
  | .versionAction org repo f => versionAction act org repo f
  | .approveBulk org repo f => approveBulk act org repo f
  | .holdBulk org repo f => holdBulk act org repo f
  | .packageArchive org repo package action => packageArchive act org repo package action
  | .packageVisibility org repo package visibility =>
    packageVisibility act org repo package visibility
  | .createToken org repo label expiresDays => ui.createToken act org repo label expiresDays
  | .revokeToken org repo id => ui.revokeToken act org repo id
  | .setTokenPolicy org repo f => setTokenPolicy act org repo f
  | .addCi org repo f => addCi act org repo f
  | .removeCi org repo id => ui.removeCi act org repo id
  | .createLicense org repo buyer packages => createLicense act org repo buyer packages
  | .issueLicenseEdition org repo editionId buyer =>
    ui.issueLicenseEdition act org repo editionId buyer
  | .setLicenseBoundAction org repo f => ui.setLicenseBoundAction act org repo f
  | .setLicensePolicy org repo f => ui.setLicensePolicy act org repo f
  | .entitleLicenseSet org repo id setId => ui.entitleLicenseSet act org repo id setId
  | .removeLicenseSet org repo id setId => ui.removeLicenseSet act org repo id setId
  | .mergeLicenseAction org repo id into => ui.mergeLicenseAction act org repo id into
  | .createEditionAction org repo f => ui.createEditionAction act org repo f
  | .deactivateEdition org repo id => ui.deactivateEdition act org repo id
  | .createGrant org repo package source => createGrant act org repo package source
  | .setGrantPolicyAction org repo f => setGrantPolicyAction act org repo f
  | .addAutogrant org repo setId => ui.addAutogrant act org repo setId
  | .removeAutogrant org repo id => ui.removeAutogrant act org repo id
  | .createUpstream org repo f => ui.createUpstream act org repo f
  | .removeUpstream org repo id => ui.removeUpstream act org repo id
  | .syncUpstream org repo id => ui.syncUpstream act org repo id
  | .syncAllUpstreams org repo => syncAllUpstreams act org repo
  | .resolveDeps org repo => resolveDeps act org repo
  | .addDep org repo package => addDep act org repo package

end Ui

/-- A request: who makes it, what its handler draws, and the form. -/
structure PostRequest where
  caller : Caller
  fresh : Fresh
  ids : ℕ → Uuid
  minted : Minted
  post : Post

/-- What the handler of a request is given, if it acts as the user. -/
def PostRequest.actingAs (r : PostRequest) (user : CurrentUser) : Acting :=
  ⟨user, r.fresh, r.ids, r.minted⟩

/-- What `auth` answers a request it turns away. -/
def Ui.turnedAway (ui : Ui) (caller : Caller) : Answer :=
  if ui.singleTenant then
    if caller.limited then .tooManyAttempts else .page "Unauthorized" ""
  else .redirect "/login"

/-- A form posted to the dashboard, behind `auth`. -/
def Ui.serve (ui : Ui) (r : PostRequest) : Handler := do
  match ui.auth (← get).accounts r.fresh.now r.caller with
  | none => return ui.turnedAway r.caller
  | some user => ui.handle (r.actingAs user) r.post

/-! ## The checks -/

/-- What a handler checks first: that the user is a superadmin, that they administer the
organization, or only that they may see the repository. -/
inductive Check where
  | superadmin
  | newRepo (org : String)
  | orgAdmin (org : String)
  | repoAdmin (org repo : String)
  | repoMember (org repo : String)

/-- The check of each handler. -/
def Post.check : Post → Check
  | .createUser .. | .grantTenant .. | .removeMember .. | .createOrg .. => .superadmin
  | .createRepo org _ => .newRepo org
  | .saveOrgSettings org _ | .renameOrgAction org _ | .saveOidc org _ | .genScimToken org
  | .createSet org _ | .deleteSet org _ | .addSetMember org _ _ | .removeSetMember org _ _
  | .addSetRule org _ _ | .removeSetRule org _ _ => .orgAdmin org
  | .setPolicy org repo _ _ | .versionAction org repo _ | .approveBulk org repo _
  | .holdBulk org repo _ => .repoMember org repo
  | .saveRepoSettings org repo _ | .renameRepoAction org repo _ | .deleteRepoAction org repo _
  | .packageArchive org repo _ _ | .packageVisibility org repo _ _ | .createToken org repo _ _
  | .revokeToken org repo _ | .setTokenPolicy org repo _ | .addCi org repo _
  | .removeCi org repo _ | .createLicense org repo _ _ | .issueLicenseEdition org repo _ _
  | .setLicenseBoundAction org repo _ | .setLicensePolicy org repo _
  | .entitleLicenseSet org repo _ _ | .removeLicenseSet org repo _ _
  | .mergeLicenseAction org repo _ _ | .createEditionAction org repo _
  | .deactivateEdition org repo _ | .createGrant org repo _ _ | .setGrantPolicyAction org repo _
  | .addAutogrant org repo _ | .removeAutogrant org repo _ | .createUpstream org repo _
  | .removeUpstream org repo _ | .syncUpstream org repo _ | .syncAllUpstreams org repo
  | .resolveDeps org repo | .addDep org repo _ => .repoAdmin org repo

/-- The check turns the user away. -/
def Check.Refuses (user : CurrentUser) (db : Catalog) : Check → Prop
  | .superadmin => ∃ e, user.requireSuperadmin = .error e
  | .newRepo org => ∃ e, db.orgForNewRepo user org = .error e
  | .orgAdmin org => ∃ e, db.lookupOrgAdmin user org = .error e
  | .repoAdmin org repo => ∃ e, db.lookupAdmin user org repo = .error e
  | .repoMember org repo => ∃ e, db.lookup user org repo = .error e

/-- **A refused request changes nothing**, whatever the form. -/
theorem Ui.handle_refused {ui : Ui} {act : Acting} {db : Database} {post : Post}
    (h : post.check.Refuses act.user db.catalog) : (exec (ui.handle act post) db).2 = db := by
  cases post <;> obtain ⟨e, he⟩ := h <;>
    exact congrArg Prod.snd (exec_gate_bind_of_error he _)

end Sconce
