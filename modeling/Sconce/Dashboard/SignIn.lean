/-
# Signing in, and one's own account

The forms that need no session (signing in, a forgotten password and its reset) and those of
the user's own account: ending a session, changing the password, deciding a device login.
-/
import Sconce.Dashboard.Posts

namespace Sconce

open Effect

/-- `RESET_TTL_MINUTES`. -/
def resetTtlMinutes : ℤ := 60

/-- `MIN_PASSWORD_LEN`. -/
def minPasswordLen : ℕ := 8

/-! ## Requests -/

/-- A form that is served without a session. -/
inductive PublicPost where
  | login (email password : String)
  | forgot (email : String)
  | reset (token password confirm : String)

/-- A form of the user's own account, or of a device login. -/
inductive AccountPost where
  | logout
  | changePassword (current password confirm : String)
  | revokeSession (id : String)
  | deviceApprove (code action org : String)

/-- A request to one of them: who makes it, and what its handler draws. -/
structure SignInRequest (Form : Type) where
  caller : Caller
  fresh : Fresh
  post : Form

namespace Ui

variable (ui : Ui) (caller : Caller) (fresh : Fresh)

/-! ## Without a session -/

/-- `login`. -/
def login (email password : String) : Handler := do
  if caller.limited then return .tooManyAttempts
  match (← get).accounts.verifyCredentials ui.credentials email password with
  | none => return loginPage "Invalid email or password. Try again, or use SSO."
  | some user =>
    let token ← e500 (onAccounts (createSession ui.credentials fresh user 7))
    return .redirectWithCookie "/" (some token)

/-- `forgot_submit`: the answer does not say whether there is such an account. -/
def forgotSubmit (email : String) : Handler := do
  if ui.singleTenant then
    return .page "Not available" "Password reset is disabled in single-tenant mode."
  if caller.limited then return .tooManyAttempts
  let _ ← e500 (onAccounts (createPasswordReset ui.credentials fresh (trim email) resetTtlMinutes))
  return .page "Check your email" ("If an account exists for that address, we've sent a " ++
    "password-reset link. It expires in 60 minutes.")

/-- The page of a reset link that no longer works. -/
def linkExpired : Answer :=
  .page "Link expired" ("This password-reset link is invalid or has expired. Request a new one " ++
    "from the sign-in page.")

/-- `reset_submit`. -/
def resetSubmit (token password confirm : String) : Handler := do
  if ui.singleTenant then
    return .page "Not available" "Password reset is disabled in single-tenant mode."
  if caller.limited then return .tooManyAttempts
  if !(← get).accounts.passwordResetValid ui.credentials fresh.now token then return linkExpired
  if password.length < minPasswordLen then
    return .page "Reset password" "Password must be at least 8 characters."
  if password ≠ confirm then return .page "Reset password" "The passwords didn't match."
  match ← onAccounts (resetPassword ui.credentials fresh token password) with
  | none => return linkExpired
  | some _ =>
    return .page "Password updated" ("Your password has been reset and your other sessions signed " ++
      "out. You can now sign in with your new password.")

/-! ## One's own account -/

/-- `logout`. -/
def logout : Handler := do
  match caller.session with
  | some token => onAccounts (deleteSession ui.credentials token)
  | none => pure ()
  return .redirectWithCookie "/login" none

/-- What is wrong with a new password. -/
def passwordError (current password confirm : String) : Option String :=
  if password.length < minPasswordLen then some "New password must be at least 8 characters."
  else if password ≠ confirm then some "The new passwords didn't match."
  else if password = current then
    some "Your new password must be different from your current one."
  else none

/-- `change_my_password`: the device it is changed on stays signed in. -/
def changeMyPassword (user : CurrentUser) (current password confirm : String) : Handler := do
  match user.id with
  | none => throw .forbidden
  | some uid =>
    if caller.limited then return .tooManyAttempts
    match passwordError current password confirm with
    | some message => return .page "Account" message
    | none =>
      match ← onAccounts (changePassword ui.credentials fresh uid current password caller.session) with
      | .wrongCurrent => return .page "Account" "Your current password is incorrect."
      | .changed =>
        return .page "Account" "Password changed. Your other sessions have been signed out."

/-- `revoke_my_session`. -/
def revokeMySession (user : CurrentUser) (id : String) : Handler := do
  match user.id with
  | none => throw .forbidden
  | some uid =>
    let _ ← onAccounts (revokeSessionForUser uid id)
    return .redirect "/account"

/-- `device_approve`: the organization is one the approver may see. -/
def deviceApprove (user : CurrentUser) (code action org : String) : Handler := do
  let code := ui.toUppercase (trim code)
  if action = "deny" then
    onAccounts (denyDeviceFlow fresh.now code)
    return .page "Device login" "denied"
  match (← get).catalog.orgIdBySlug (trim org) with
  | none => throw .notFound
  | some orgId =>
    if !user.can orgId then throw .forbidden
    if ← onAccounts (approveDeviceFlow fresh.now code orgId user.id) then
      return .page "Device login" "approved"
    else
      return errorCard "Couldn't approve" ("That code is no longer valid — it may have expired " ++
        "or already been used. Start the login again from your terminal.")

end Ui

/-! ## The routes -/

/-- A public form; a dashboard with one tenant asks for its password first. -/
def Ui.servePublic (ui : Ui) (r : SignInRequest PublicPost) : Handler := do
  let admitted := (ui.auth (← get).accounts r.fresh.now r.caller).isSome
  if ui.singleTenant ∧ !admitted then return ui.turnedAway r.caller
  match r.post with
  | .login email password => ui.login r.caller r.fresh email password
  | .forgot email => ui.forgotSubmit r.caller r.fresh email
  | .reset token password confirm => ui.resetSubmit r.caller r.fresh token password confirm

/-- A form of the user's own account, behind `auth`. -/
def Ui.serveAccount (ui : Ui) (r : SignInRequest AccountPost) : Handler := do
  match ui.auth (← get).accounts r.fresh.now r.caller with
  | none => return ui.turnedAway r.caller
  | some user =>
    match r.post with
    | .logout => ui.logout r.caller
    | .changePassword current password confirm =>
      ui.changeMyPassword r.caller r.fresh user current password confirm
    | .revokeSession id => revokeMySession user id
    | .deviceApprove code action org => ui.deviceApprove r.fresh user code action org

end Sconce
