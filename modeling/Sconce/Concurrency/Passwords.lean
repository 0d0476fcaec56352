/-
# Logins and password changes under races

A login checks the password with one statement and opens its session with a later one;
`reset_password` and `change_password` set the hash and delete the sessions in one transaction.
A login that checked the old hash can open its session after the deletion
(`Intruder.old_password_stays_in`).

When no password of the user is committed between the check of a login and its session, a
committed password shuts the old one out (`password_shuts_out_of_prompt`).
-/
import Sconce.Lib.Interleaving
import Sconce.Accounts.SingleSignOn

namespace Sconce

open Interleaving Effect

/-! ## The programs -/

/-- A call. -/
inductive PasswordCall where
  | login (email password : String)
  | reset (token newPassword : String)
  | change (user : Uuid) (currentPassword newPassword : String) (keepToken : Option String)

/-- Where a call stands; a login that has checked its password knows the generation of the hash
it has checked it against. -/
inductive PasswordPc where
  | begun
  | verified (user : Uuid) (generation : ℕ)
  | loggedIn (token : String)
  | refused
  | failed (e : SqlError)
  | committed

/-- The accounts and the clock; for each user the passwords committed, each with the session it
kept; and for each session the generation of the hash that was checked for it. -/
structure PasswordStore where
  acc : Accounts
  now : Timestamp
  commits : Uuid → List (Option Sha256)
  checked : Sha256 → ℕ

/-- The session that `change_password` keeps. -/
def Accounts.keptSession (acc : Accounts) (env : Credentials) (user : Uuid)
    (keepToken : Option String) : Option Sha256 :=
  (keepToken.map env.tokenHash).filter fun hash =>
    (acc.sessions.get? hash).any fun s => s.userId = user

/-- A password of the user is committed. -/
def PasswordStore.commit (s : PasswordStore) (acc : Accounts) (user : Uuid)
    (kept : Option Sha256) : PasswordStore :=
  { s with acc := acc, commits := Function.update s.commits user (s.commits user ++ [kept]) }

section Steps

variable {ι : Type}

/-- One statement of a login, or one committed transaction of the others. -/
inductive PasswordStep (env : Credentials) (calls : ι → PasswordCall) :
    Act ι PasswordStore PasswordPc
  | verifies {i s email password user} (hcall : calls i = .login email password)
      (h : s.acc.verifyCredentials env email password = some user) :
      PasswordStep env calls i s .begun s (.verified user (s.commits user).length)
  | misses {i s email password} (hcall : calls i = .login email password)
      (h : s.acc.verifyCredentials env email password = none) :
      PasswordStep env calls i s .begun s .refused
  | opens {i s user generation fresh token acc'} (hnow : fresh.now = s.now)
      (h : exec (createSession env fresh user 7) s.acc = (.ok token, acc')) :
      PasswordStep env calls i s (.verified user generation)
        { s with
          acc := acc'
          checked := Function.update s.checked (env.tokenHash token) generation }
        (.loggedIn token)
  | notOpened {i s user generation fresh e acc'} (hnow : fresh.now = s.now)
      (h : exec (createSession env fresh user 7) s.acc = (.error e, acc')) :
      PasswordStep env calls i s (.verified user generation) { s with acc := acc' } (.failed e)
  | resets {i s token newPassword fresh user acc'} (hcall : calls i = .reset token newPassword)
      (hnow : fresh.now = s.now)
      (h : exec (resetPassword env fresh token newPassword : Effect Accounts SqlError (Option Uuid))
        s.acc = (.ok (some user), acc')) :
      PasswordStep env calls i s .begun (s.commit acc' user none) .committed
  | notReset {i s token newPassword fresh acc'} (hcall : calls i = .reset token newPassword)
      (hnow : fresh.now = s.now)
      (h : exec (resetPassword env fresh token newPassword : Effect Accounts SqlError (Option Uuid))
        s.acc = (.ok none, acc')) :
      PasswordStep env calls i s .begun { s with acc := acc' } .refused
  | changes {i s user currentPassword newPassword keepToken fresh acc'}
      (hcall : calls i = .change user currentPassword newPassword keepToken)
      (h : exec (changePassword env fresh user currentPassword newPassword keepToken :
        Effect Accounts SqlError PasswordChange) s.acc = (.ok .changed, acc')) :
      PasswordStep env calls i s .begun
        (s.commit acc' user (s.acc.keptSession env user keepToken)) .committed
  | notChanged {i s user currentPassword newPassword keepToken fresh acc'}
      (hcall : calls i = .change user currentPassword newPassword keepToken)
      (h : exec (changePassword env fresh user currentPassword newPassword keepToken :
        Effect Accounts SqlError PasswordChange) s.acc = (.ok .wrongCurrent, acc')) :
      PasswordStep env calls i s .begun { s with acc := acc' } .refused
  | passes {i s p t} (h : s.now ≤ t) : PasswordStep env calls i s p { s with now := t } p

/-! ## What is claimed, and when it holds -/

/-- A session of the user was opened by a login that checked a password at least as new as any
committed one, but for a password whose change kept the session. -/
def PasswordStore.Shut (s : PasswordStore) (user : Uuid) (hash : Sha256) : Prop :=
  ∀ (n : ℕ) kept, (s.commits user)[n]? = some kept → n < s.checked hash ∨ kept = some hash

/-- The old passwords of the user are shut out of every live session. -/
def ShutOut (user : Uuid) (s : PasswordStore) : Prop :=
  ∀ hash session, s.acc.sessions.get? hash = some session → session.userId = user →
    s.now < session.expiresAt → s.Shut user hash

/-- What a step has to meet: a session opens while the hash its login has checked is still the
newest. -/
def Prompt (user : Uuid) (s : PasswordStore) : PasswordPc → PasswordPc → Prop
  | .verified user' generation, .loggedIn _ =>
    user' = user → (s.commits user).length = generation
  | _, _ => True

/-- The steps that meet it. -/
def PromptStep (env : Credentials) (calls : ι → PasswordCall) (user : Uuid) :
    Act ι PasswordStore PasswordPc :=
  fun i s p s' p' => PasswordStep env calls i s p s' p' ∧ Prompt user s p p'

/-- Every call about to begin, and no password committed yet. -/
def passwordsFrom (acc : Accounts) (now : Timestamp) : Config ι PasswordStore PasswordPc :=
  ⟨⟨acc, now, fun _ => [], fun _ => 0⟩, fun _ => .begun⟩

end Steps

/-! ## The statements -/

section Statements

variable {env : Credentials} {fresh : Fresh} {acc acc' : Accounts} {user : Uuid}

/-- A session that is created is new, and the only one that is. -/
theorem createSession_ok {token : String}
    (h : exec (createSession env fresh user 7) acc = (.ok token, acc')) :
    acc.sessions.get? (env.tokenHash token) = none ∧
      ∀ hash, acc'.sessions.get? hash = if hash = env.tokenHash token then
        some ⟨user, env.session.addDays fresh.now 7⟩ else acc.sessions.get? hash := by
  rcases createSession_cases env fresh user 7 acc with ⟨e, hrun⟩ | ⟨hfree, hrun⟩
  · cases (Prod.mk.inj (hrun.symm.trans h)).1
  · obtain ⟨htoken, rfl⟩ := Prod.mk.inj (hrun.symm.trans h)
    obtain rfl := Except.ok.inj htoken
    refine ⟨hfree, fun hash => ?_⟩
    rw [Table.get?_insertNew, hfree]
    rfl

/-- A session that is refused leaves the accounts. -/
theorem createSession_error {e : SqlError}
    (h : exec (createSession env fresh user 7) acc = (.error e, acc')) : acc' = acc := by
  rcases createSession_cases env fresh user 7 acc with ⟨e, hrun⟩ | ⟨hfree, hrun⟩
  · exact (Prod.mk.inj (h.symm.trans hrun)).2
  · cases (Prod.mk.inj (hrun.symm.trans h)).1

/-- A reset leaves the sessions of the other users, or everything. -/
theorem resetPassword_sessions {token newPassword : String} {answer : Option Uuid}
    (h : exec (resetPassword env fresh token newPassword : Effect Accounts SqlError (Option Uuid))
      acc = (.ok answer, acc')) (hash : Sha256) :
    acc'.sessions.get? hash = (acc.sessions.get? hash).filter fun s => answer ≠ some s.userId := by
  unfold resetPassword at h
  rw [exec_bind, exec_get] at h
  simp only [andThen] at h
  cases hreset : acc.liveReset env fresh.now token with
  | none =>
    rw [hreset] at h
    obtain ⟨hanswer, rfl⟩ := Prod.mk.inj h
    obtain rfl := Except.ok.inj hanswer
    cases acc.sessions.get? hash <;> rfl
  | some r =>
    rw [hreset] at h
    obtain ⟨hanswer, rfl⟩ := Prod.mk.inj h
    obtain rfl := Except.ok.inj hanswer
    show (acc.sessions.delete fun _ s => decide (s.userId = r.userId)).get? hash = _
    rw [Table.get?_delete]
    cases acc.sessions.get? hash with
    | none => rfl
    | some s =>
      by_cases huser : s.userId = r.userId
      · simp [Option.filter, huser]
      · simp [Option.filter, huser, Ne.symm huser]

/-- A change leaves the sessions of the other users and the one it keeps. -/
theorem changePassword_sessions {currentPassword newPassword : String} {keepToken : Option String}
    (h : exec (changePassword env fresh user currentPassword newPassword keepToken :
      Effect Accounts SqlError PasswordChange) acc = (.ok .changed, acc')) (hash : Sha256) :
    acc'.sessions.get? hash = (acc.sessions.get? hash).filter fun s =>
      s.userId ≠ user || acc.keptSession env user keepToken = some hash := by
  unfold changePassword at h
  rw [exec_bind, exec_get] at h
  simp only [andThen] at h
  split_ifs at h with hcurrent
  · obtain rfl : _ = acc' := congrArg Prod.snd h
    show (acc.sessions.delete fun hash s => decide (s.userId = user ∧
      (keepToken.all fun token => decide (hash ≠ env.tokenHash token)) = true)).get? hash = _
    rw [Table.get?_delete]
    cases hget : acc.sessions.get? hash with
    | none => rfl
    | some s =>
      unfold Accounts.keptSession
      cases keepToken with
      | none => by_cases huser : s.userId = user <;> simp [Option.filter, huser]
      | some token =>
        by_cases huser : s.userId = user
        · by_cases hkept : env.tokenHash token = hash
          · simp [Option.filter, huser, hkept, hget]
          · simp [Option.filter, huser, hkept, Ne.symm hkept]
        · simp [Option.filter, huser]
  · cases Except.ok.inj (congrArg Prod.fst h)

theorem changePassword_wrongCurrent {currentPassword newPassword : String}
    {keepToken : Option String}
    (h : exec (changePassword env fresh user currentPassword newPassword keepToken :
      Effect Accounts SqlError PasswordChange) acc = (.ok .wrongCurrent, acc')) : acc' = acc := by
  unfold changePassword at h
  rw [exec_bind, exec_get] at h
  simp only [andThen] at h
  split_ifs at h with hcurrent
  · cases Except.ok.inj (congrArg Prod.fst h)
  · exact (congrArg Prod.snd h).symm

end Statements

/-! ## Every prompt run -/

section Runs

variable {ι : Type} {env : Credentials} {calls : ι → PasswordCall} {i : ι} {user : Uuid}
  {s s' : PasswordStore} {p p' : PasswordPc}

/-- Every session of the user is shut, live or not. -/
def AllShut (user : Uuid) (s : PasswordStore) : Prop :=
  ∀ hash session, s.acc.sessions.get? hash = some session → session.userId = user →
    s.Shut user hash

/-- A committed password keeps the sessions shut, if those it leaves are the one it keeps. -/
theorem AllShut.commit (h : AllShut user s) {acc' : Accounts} {user' : Uuid}
    {kept : Option Sha256}
    (hleft : ∀ hash session, acc'.sessions.get? hash = some session →
      s.acc.sessions.get? hash = some session ∧ (session.userId = user' → kept = some hash)) :
    AllShut user (s.commit acc' user' kept) := by
  intro hash session hget huser n kept' hkept'
  obtain ⟨hold, hown⟩ := hleft hash session hget
  change (Function.update s.commits user' (s.commits user' ++ [kept]) user)[n]? = some kept' at hkept'
  by_cases hsame : user = user'
  · subst hsame
    rw [Function.update_self] at hkept'
    show n < s.checked hash ∨ kept' = some hash
    rcases lt_or_ge n (s.commits user).length with hlt | hge
    · rw [List.getElem?_append_left hlt] at hkept'
      exact h hash session hold huser n kept' hkept'
    · rw [List.getElem?_append_right hge] at hkept'
      rw [List.mem_singleton.1 (List.mem_of_getElem? hkept')]
      exact .inr (hown huser)
  · rw [Function.update_of_ne hsame] at hkept'
    exact h hash session hold huser n kept' hkept'

/-- A prompt step keeps the user shut out. -/
theorem PromptStep.shut (h : PromptStep env calls user i s p s' p') (hinv : AllShut user s) :
    AllShut user s' := by
  obtain ⟨hstep, hprompt⟩ := h
  cases hstep with
  | @opens i s user' generation fresh token acc' hnow h =>
    obtain ⟨hfree, hrows⟩ := createSession_ok h
    intro hash session hget huser n kept hkept
    change acc'.sessions.get? hash = some session at hget
    rw [hrows] at hget
    show n < Function.update s.checked (env.tokenHash token) generation hash ∨ kept = some hash
    split_ifs at hget with hsame
    · -- the new session has checked the newest password
      obtain rfl := Option.some.inj hget
      rw [hsame, Function.update_self, ← hprompt huser]
      exact .inl (List.getElem?_eq_some_iff.1 hkept).1
    · rw [Function.update_of_ne hsame]
      exact hinv hash session hget huser n kept hkept
  | notOpened hnow h =>
    obtain rfl := createSession_error h
    exact hinv
  | resets hcall hnow h =>
    refine hinv.commit fun hash session hget => ?_
    rw [resetPassword_sessions h] at hget
    obtain ⟨hold, hother⟩ := Option.filter_eq_some_iff.1 hget
    exact ⟨hold, fun huser => absurd (congrArg some huser.symm) (of_decide_eq_true hother)⟩
  | @notReset i s token newPassword fresh acc' hcall hnow h =>
    intro hash session hget huser
    change acc'.sessions.get? hash = some session at hget
    rw [resetPassword_sessions h] at hget
    exact hinv hash session (Option.filter_eq_some_iff.1 hget).1 huser
  | changes hcall h =>
    refine hinv.commit fun hash session hget => ?_
    rw [changePassword_sessions h] at hget
    obtain ⟨hold, hkept⟩ := Option.filter_eq_some_iff.1 hget
    refine ⟨hold, fun huser => ?_⟩
    rw [decide_eq_false (not_not.2 huser), Bool.false_or] at hkept
    exact of_decide_eq_true hkept
  | notChanged hcall h =>
    obtain rfl := changePassword_wrongCurrent h
    exact hinv
  | _ => exact hinv

/-- **A committed password shuts the old one out.**  However logins, resets and changes
interleave, as long as every session opens while the hash its login has checked is still the
newest of the user: every live session of the user was opened by a login that checked a password
at least as new as any committed one, but for the session a change kept. -/
theorem password_shuts_out_of_prompt [DecidableEq ι] {env : Credentials}
    {calls : ι → PasswordCall} (user : Uuid) {acc : Accounts} {now : Timestamp}
    {events : List (Event ι PasswordStore)} {c : Config ι PasswordStore PasswordPc}
    (hrun : Execution (PromptStep env calls user) (passwordsFrom acc now) events c) :
    ShutOut user c.shared := by
  suffices hall : AllShut user c.shared by
    exact fun hash session hget huser _ => hall hash session hget huser
  induction hrun with
  | start => exact fun _ _ _ _ n kept hkept => absurd hkept (by simp [passwordsFrom])
  | step _ hact ih => exact hact.shut ih

end Runs

namespace Intruder

/-- One user, with a password that someone else knows. -/
def leaked : Accounts where
  users := ⟨[(1, ⟨"ada@shop.example", "old", false⟩)], by decide⟩
  userTenants := ∅
  sessions := ∅
  passwordResets := ∅
  oidcConnections := ∅
  oidcFlows := ∅
  scimTokens := ∅
  deviceFlows := ∅

/-- A login with the old password, and the change to a new one. -/
def race (i : Bool) : PasswordCall :=
  if i then .login "ada@shop.example" "old" else .change 1 "old" "new" none

/-- What a call draws. -/
def fresh : Fresh := ⟨1, "0a1b", "2c3d", "4e5f", 0⟩

/-- A login that has checked the old password opens its session after the change, and stays. -/
theorem old_password_stays_in : ¬ ∀ {events : List (Event Bool PasswordStore)}
    {c : Config Bool PasswordStore PasswordPc},
    Execution (PasswordStep .plain race) (passwordsFrom leaked 0) events c → ShutOut 1 c.shared := by
  intro hclaim
  have h₀ : Execution (PasswordStep .plain race) (passwordsFrom leaked 0) [] _ := .start
  have h₁ := h₀.step (i := true) (.verifies rfl rfl)
  have h₂ := h₁.step (i := false) (@PasswordStep.changes Bool .plain race false _ 1 "old" "new" none
    fresh _ rfl rfl)
  have h₃ := h₂.step (i := true) (@PasswordStep.opens Bool .plain race true _ 1 0 fresh _ _ rfl rfl)
  have hshut := hclaim h₃ (Credentials.plain.tokenHash "scses_0a1b") _ rfl rfl (by decide) 0 none rfl
  rcases hshut with hlt | hkept
  · exact absurd hlt (by decide)
  · exact absurd hkept nofun

/-- The login is there before the change, which signs it out. -/
theorem password_shuts_out_of_prompt_race : ∃ c : Config Bool PasswordStore PasswordPc,
    c.pc true = .loggedIn "scses_0a1b" ∧ c.pc false = .committed ∧ ShutOut 1 c.shared := by
  have h₀ : Execution (PromptStep .plain race 1) (passwordsFrom leaked 0) [] _ := .start
  have h₁ := h₀.step (i := true) ⟨.verifies rfl rfl, trivial⟩
  have h₂ := h₁.step (i := true)
    ⟨@PasswordStep.opens Bool .plain race true _ 1 0 fresh _ _ rfl rfl, fun _ => rfl⟩
  have h₃ := h₂.step (i := false)
    ⟨@PasswordStep.changes Bool .plain race false _ 1 "old" "new" none fresh _ rfl rfl, trivial⟩
  exact ⟨_, rfl, rfl, password_shuts_out_of_prompt 1 h₃⟩

end Intruder

end Sconce
