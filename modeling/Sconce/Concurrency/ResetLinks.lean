/-
# Reset links under races

`create_password_reset` deletes the earlier resets of a user and inserts a new one in one
transaction at READ COMMITTED, and `reset_password` stamps a reset used, sets the password and
deletes the sessions in another.  A deletion waits for the rows that others hold, and sees no row
that is not committed; so two requests for one user can both leave a live link
(`Requests.two_live_links`).

A link sets a password once at most in every run (`links_single_use`).  When no other request for
the user commits between a request's deletion and its commit, each user has one live link at most
(`one_live_link_of_unrivalled`).
-/
import Sconce.Lib.Interleaving
import Sconce.Accounts.Store

namespace Sconce

open Interleaving Effect

/-! ## The programs -/

/-- A call. -/
inductive ResetCall where
  | create (email : String) (ttlMinutes : ℤ)
  | reset (token newPassword : String)

/-- The keys of the resets of a user. -/
def Accounts.resetsOf (acc : Accounts) (user : Uuid) : List Sha256 :=
  (acc.passwordResets.rows.filter fun r => r.2.userId = user).map Prod.fst

/-- The keys of the sessions of a user. -/
def Accounts.sessionsOf (acc : Accounts) (user : Uuid) : List Sha256 :=
  (acc.sessions.rows.filter fun r => r.2.userId = user).map Prod.fst

/-- What an open transaction has written. -/
structure ResetWrites where
  deleted : List Sha256 := []
  inserted : Option (Sha256 × PasswordReset) := none
  used : Option (Sha256 × Timestamp) := none
  password : Option (Uuid × String) := none
  ended : List Sha256 := []

/-- The transaction inserts a reset. -/
def ResetWrites.insert (w : ResetWrites) (hash : Sha256) (r : PasswordReset) : ResetWrites :=
  { w with inserted := some (hash, r) }

/-- The resets whose row the transaction holds. -/
def ResetWrites.held (w : ResetWrites) : List Sha256 := w.deleted ++ (w.used.map Prod.fst).toList

/-- The row of a reset, stamped if the transaction has used it. -/
def ResetWrites.stamp (w : ResetWrites) (hash : Sha256) (r : PasswordReset) : PasswordReset :=
  match w.used with
  | some (key, began) => if hash = key then { r with usedAt := some began } else r
  | none => r

/-- What the transaction's commit makes of the reset rows. -/
def ResetWrites.resets (w : ResetWrites) (t : Table Sha256 PasswordReset) :
    Table Sha256 PasswordReset :=
  let kept := (t.delete fun hash _ => hash ∈ w.deleted).update w.stamp
  match w.inserted with
  | some (hash, r) => kept.insertNew hash r
  | none => kept

/-- The state the transaction's commit makes of the committed one. -/
def ResetWrites.commit (w : ResetWrites) (acc : Accounts) : Accounts where
  users := acc.users.update fun user u =>
    match w.password with
    | some (key, hash) => if user = key then { u with passwordHash := hash } else u
    | none => u
  userTenants := acc.userTenants
  sessions := acc.sessions.delete fun hash _ => hash ∈ w.ended
  passwordResets := w.resets acc.passwordResets
  oidcConnections := acc.oidcConnections
  oidcFlows := acc.oidcFlows
  scimTokens := acc.scimTokens
  deviceFlows := acc.deviceFlows

/-- Where a call stands, with the time its transaction began; a request that has deleted the
earlier resets knows how many requests for the user were committed before. -/
inductive ResetPc where
  | begun
  | unknown
  | found (user : Uuid)
  | superseding (user : Uuid) (began : Timestamp)
  | minting (user : Uuid) (began : Timestamp) (generation : ℕ)
  | issuing (user : Uuid) (token : String) (generation : ℕ)
  | issued (user : Uuid) (token : String)
  | stamping (began : Timestamp)
  | storing (user : Uuid)
  | endingSessions (user : Uuid)
  | finishing (user : Uuid)
  | changed (user : Uuid)
  | refused
  | failed (e : SqlError)
  | crashed

/-- The call has not returned and its connection stands. -/
def ResetPc.running : ResetPc → Prop
  | .unknown | .issued .. | .changed _ | .refused | .failed _ | .crashed => False
  | _ => True

/-- The committed accounts, the clock, and what the open transaction of each call has written;
for each digest the links committed and the passwords set through it, and for each user the links
committed. -/
structure ResetStore (ι : Type) where
  acc : Accounts
  now : Timestamp
  pending : ι → Option ResetWrites
  links : Sha256 → ℕ
  uses : Sha256 → ℕ
  generation : Uuid → ℕ

section Steps

variable {ι : Type} [DecidableEq ι]

/-- The call's own writes replaced. -/
def ResetStore.write (s : ResetStore ι) (i : ι) (w : Option ResetWrites) : ResetStore ι :=
  { s with pending := Function.update s.pending i w }

/-- No other open transaction holds the row of the reset. -/
def ResetStore.free (s : ResetStore ι) (i : ι) (hash : Sha256) : Prop :=
  ∀ j w, j ≠ i → s.pending j = some w → hash ∉ w.held

/-- A request commits. -/
def ResetStore.issue (s : ResetStore ι) (i : ι) (w : ResetWrites) (user : Uuid) (hash : Sha256) :
    ResetStore ι :=
  { s.write i none with
    acc := w.commit s.acc
    links := Function.update s.links hash (s.links hash + 1)
    generation := Function.update s.generation user (s.generation user + 1) }

/-- A password set through a link commits. -/
def ResetStore.finish (s : ResetStore ι) (i : ι) (w : ResetWrites) (hash : Sha256) :
    ResetStore ι :=
  { s.write i none with
    acc := w.commit s.acc
    uses := Function.update s.uses hash (s.uses hash + 1) }

/-- One statement, commit or rollback of `create_password_reset` or `reset_password`. -/
inductive ResetStep (env : Credentials) (calls : ι → ResetCall) : Act ι (ResetStore ι) ResetPc
  | finds {i s email ttlMinutes user u} (hcall : calls i = .create email ttlMinutes)
      (h : s.acc.userByEmail email = some (user, u)) :
      ResetStep env calls i s .begun s (.found user)
  | misses {i s email ttlMinutes} (hcall : calls i = .create email ttlMinutes)
      (h : s.acc.userByEmail email = none) : ResetStep env calls i s .begun s .unknown
  | begins {i s user} : ResetStep env calls i s (.found user) (s.write i (some {}))
      (.superseding user s.now)
  /-- A row that another transaction holds is waited for. -/
  | supersedes {i s user began}
      (hfree : ∀ hash r, s.acc.passwordResets.get? hash = some r → r.userId = user →
        s.free i hash) :
      ResetStep env calls i s (.superseding user began)
        (s.write i (some { deleted := s.acc.resetsOf user }))
        (.minting user began (s.generation user))
  /-- The key is taken in no committed row but one that the transaction has deleted, and in no
  pending one. -/
  | mints {i s email ttlMinutes user began generation secret token w}
      (hcall : calls i = .create email ttlMinutes) (htoken : token = "scpr_" ++ secret)
      (hw : s.pending i = some w) (husers : (s.acc.users.get? user).isSome)
      (hkey : s.acc.passwordResets.get? (env.tokenHash token) = none ∨
        env.tokenHash token ∈ w.deleted)
      (hfree : s.free i (env.tokenHash token))
      (hpending : ∀ j w' r, j ≠ i → s.pending j = some w' →
        w'.inserted ≠ some (env.tokenHash token, r)) :
      ResetStep env calls i s (.minting user began generation)
        (s.write i (some (w.insert (env.tokenHash token) (newReset user began ttlMinutes))))
        (.issuing user token generation)
  | clashes {i s user began generation secret token w} (htoken : token = "scpr_" ++ secret)
      (hw : s.pending i = some w)
      (hkey : (s.acc.passwordResets.get? (env.tokenHash token)).isSome)
      (hown : env.tokenHash token ∉ w.deleted) (hfree : s.free i (env.tokenHash token)) :
      ResetStep env calls i s (.minting user began generation) (s.write i none)
        (.failed .uniqueViolation)
  | orphaned {i s user began generation} (husers : s.acc.users.get? user = none) :
      ResetStep env calls i s (.minting user began generation) (s.write i none)
        (.failed .foreignKeyViolation)
  | issues {i s user token generation w} (hw : s.pending i = some w) :
      ResetStep env calls i s (.issuing user token generation)
        (s.issue i w user (env.tokenHash token)) (.issued user token)
  | opens {i s token newPassword} (hcall : calls i = .reset token newPassword) :
      ResetStep env calls i s .begun (s.write i (some {})) (.stamping s.now)
  | stamps {i s token newPassword began r} (hcall : calls i = .reset token newPassword)
      (hfree : s.free i (env.tokenHash token)) (h : s.acc.liveReset env began token = some r) :
      ResetStep env calls i s (.stamping began)
        (s.write i (some { used := some (env.tokenHash token, began) })) (.storing r.userId)
  | refuses {i s token newPassword began} (hcall : calls i = .reset token newPassword)
      (hfree : s.free i (env.tokenHash token)) (h : s.acc.liveReset env began token = none) :
      ResetStep env calls i s (.stamping began) (s.write i none) .refused
  /-- The row of a user whose password another transaction has set is waited for. -/
  | stores {i s token newPassword user salt w} (hcall : calls i = .reset token newPassword)
      (hw : s.pending i = some w)
      (hfree : ∀ j w' hash, j ≠ i → s.pending j = some w' → w'.password ≠ some (user, hash)) :
      ResetStep env calls i s (.storing user)
        (s.write i (some { w with password := some (user, env.hashPassword salt newPassword) }))
        (.endingSessions user)
  | endsSessions {i s user w} (hw : s.pending i = some w) :
      ResetStep env calls i s (.endingSessions user)
        (s.write i (some { w with ended := s.acc.sessionsOf user })) (.finishing user)
  | finishes {i s token newPassword user w} (hcall : calls i = .reset token newPassword)
      (hw : s.pending i = some w) :
      ResetStep env calls i s (.finishing user) (s.finish i w (env.tokenHash token))
        (.changed user)
  | crashes {i s p} (h : p.running) : ResetStep env calls i s p (s.write i none) .crashed
  | passes {i s p t} (h : s.now ≤ t) : ResetStep env calls i s p { s with now := t } p

/-- Every call about to begin, with what the rows there say of their links. -/
def resetsFrom (acc : Accounts) (now : Timestamp) : Config ι (ResetStore ι) ResetPc where
  shared :=
    { acc, now
      pending := fun _ => none
      links := fun hash => if (acc.passwordResets.get? hash).isSome then 1 else 0
      uses := fun hash =>
        if (acc.passwordResets.get? hash).any fun r => r.usedAt.isSome then 1 else 0
      generation := fun _ => 0 }
  pc := fun _ => .begun

end Steps

/-! ## What is claimed, and when it holds -/

/-- A link is unused and unexpired. -/
def PasswordReset.live (r : PasswordReset) (now : Timestamp) : Prop :=
  r.usedAt = none ∧ now < r.expiresAt

/-- Each user has one live link at most. -/
def OneLiveLink (acc : Accounts) (now : Timestamp) : Prop :=
  ∀ hash hash' r r', acc.passwordResets.get? hash = some r →
    acc.passwordResets.get? hash' = some r' → r.userId = r'.userId → r.live now → r'.live now →
    hash = hash'

/-- Each link has set one password at most. -/
def SingleUseLinks {ι : Type} (s : ResetStore ι) : Prop := ∀ hash, s.uses hash ≤ s.links hash

/-- What a step has to meet: a request commits while no other one for its user has been committed
since its deletion. -/
def Unrivalled {ι : Type} (s : ResetStore ι) : ResetPc → ResetPc → Prop
  | .issuing user _ generation, .issued .. => s.generation user = generation
  | _, _ => True

/-- The steps that meet it. -/
def UnrivalledStep {ι : Type} [DecidableEq ι] (env : Credentials) (calls : ι → ResetCall) :
    Act ι (ResetStore ι) ResetPc :=
  fun i s p s' p' => ResetStep env calls i s p s' p' ∧ Unrivalled s p p'

/-! ## What a commit does -/

namespace ResetWrites

variable {w : ResetWrites} {t : Table Sha256 PasswordReset} {hash : Sha256} {r : PasswordReset}

@[simp] theorem userId_stamp : (w.stamp hash r).userId = r.userId := by
  unfold stamp
  split
  · split_ifs <;> rfl
  · rfl

@[simp] theorem expiresAt_stamp : (w.stamp hash r).expiresAt = r.expiresAt := by
  unfold stamp
  split
  · split_ifs <;> rfl
  · rfl

theorem stamp_of_used_eq_none (h : w.used = none) : w.stamp hash r = r := by
  unfold stamp
  rw [h]

/-- A row that is unused after the stamping was unused and is not the stamped one. -/
theorem usedAt_of_stamp (h : (w.stamp hash r).usedAt = none) :
    r.usedAt = none ∧ ∀ began, w.used ≠ some (hash, began) := by
  unfold stamp at h
  split at h
  · next key began hused =>
    split_ifs at h with hkey
    refine ⟨h, fun began' hused' => hkey ?_⟩
    rw [hused] at hused'
    exact (Prod.mk.inj (Option.some.inj hused')).1.symm
  · next hused => exact ⟨h, fun began' hused' => absurd (hused.symm.trans hused') nofun⟩

/-- A call stamps the links it holds alone. -/
theorem stamp_of_free (hfree : hash ∉ w.held) : w.stamp hash r = r := by
  unfold stamp
  split
  · next key began hused =>
    refine if_neg fun hkey => hfree ?_
    unfold held
    rw [hused, hkey]
    exact List.mem_append_right _ (List.mem_singleton_self _)
  · rfl

/-- A committed row that the transaction does not hold stays. -/
theorem get?_resets_of_free (h : t.get? hash = some r) (hfree : hash ∉ w.held) :
    (w.resets t).get? hash = some r := by
  have hdeleted : hash ∉ w.deleted := fun hmem => hfree (List.mem_append_left _ hmem)
  have hkept : ((t.delete fun hash _ => hash ∈ w.deleted).update w.stamp).get? hash = some r := by
    simp [h, hdeleted, stamp_of_free hfree]
  unfold resets
  cases w.inserted with
  | none => exact hkept
  | some x => exact Table.get?_insertNew_of_some hkept x.1 x.2

/-- A row after the commit is the one inserted, or one that was there. -/
theorem get?_resets (h : (w.resets t).get? hash = some r) :
    w.inserted = some (hash, r) ∨
      hash ∉ w.deleted ∧ ∃ r₀, t.get? hash = some r₀ ∧ r = w.stamp hash r₀ := by
  have hkept : ∀ r', ((t.delete fun hash _ => hash ∈ w.deleted).update w.stamp).get? hash = some r' →
      hash ∉ w.deleted ∧ ∃ r₀, t.get? hash = some r₀ ∧ r' = w.stamp hash r₀ := by
    intro r' hget
    rw [Table.get?_update, Table.get?_delete] at hget
    obtain ⟨r₀, hr₀, rfl⟩ := Option.map_eq_some_iff.1 hget
    obtain ⟨hold, hnot⟩ := Option.filter_eq_some_iff.1 hr₀
    exact ⟨by simpa using hnot, r₀, hold, rfl⟩
  unfold resets at h
  cases hinserted : w.inserted with
  | none =>
    rw [hinserted] at h
    exact .inr (hkept r h)
  | some x =>
    rw [hinserted] at h
    change (Table.insertNew _ x.1 x.2).get? hash = some r at h
    rw [Table.get?_insertNew] at h
    split_ifs at h with hkey
    · cases hold : ((t.delete fun hash _ => hash ∈ w.deleted).update w.stamp).get? x.1 with
      | none =>
        rw [hold] at h
        exact .inl (by rw [hkey, ← Option.some.inj h]; rfl)
      | some r₁ =>
        rw [hold] at h
        exact .inr (hkept r (by rw [hkey, hold]; exact h))
    · exact .inr (hkept r h)

end ResetWrites

/-! ## Every run -/

section Runs

variable {ι : Type} [DecidableEq ι] {env : Credentials} {calls : ι → ResetCall} {i j : ι}
  {s s' : ResetStore ι} {p p' : ResetPc}

/-- Every committed row of the user is deleted, unless a request for the user has been committed
since. -/
def ResetStore.Covers (s : ResetStore ι) (w : ResetWrites) (user : Uuid) (generation : ℕ) : Prop :=
  generation ≤ s.generation user ∧ (s.generation user = generation →
    ∀ hash r, s.acc.passwordResets.get? hash = some r → r.userId = user → hash ∈ w.deleted)

/-- What a call has written where it stands. -/
def ResetStands (env : Credentials) (calls : ι → ResetCall) (i : ι) (s : ResetStore ι) :
    ResetPc → Prop
  | .superseding .. | .stamping _ => s.pending i = some {}
  | .minting user _ generation => ∃ w, s.pending i = some w ∧ w.used = none ∧ w.inserted = none ∧
      s.Covers w user generation
  | .issuing user token generation => ∃ w r, s.pending i = some w ∧ w.used = none ∧
      w.inserted = some (env.tokenHash token, r) ∧ r.userId = user ∧ s.Covers w user generation
  | .storing _ | .endingSessions _ | .finishing _ => ∃ w token newPassword began,
      calls i = .reset token newPassword ∧ s.pending i = some w ∧ w.deleted = [] ∧
        w.inserted = none ∧ w.used = some (env.tokenHash token, began)
  | _ => s.pending i = none

/-- The rows that open transactions hold are theirs alone, and there; the links that are unused
have set a password less than they were committed. -/
structure LinksSound (s : ResetStore ι) : Prop where
  single : SingleUseLinks s
  unused : ∀ hash r, s.acc.passwordResets.get? hash = some r → r.usedAt = none →
    s.uses hash < s.links hash
  held : ∀ i w hash, s.pending i = some w → hash ∈ w.held →
    ∃ r, s.acc.passwordResets.get? hash = some r ∧ (hash ∉ w.deleted → r.usedAt = none)
  apart : ∀ i j w w' hash, i ≠ j → s.pending i = some w → s.pending j = some w' →
    hash ∈ w.held → hash ∉ w'.held

namespace LinksSound

/-- A transaction rolls back, or holds rows that no other one does. -/
theorem write (h : LinksSound s) {w : Option ResetWrites}
    (hheld : ∀ w' hash, w = some w' → hash ∈ w'.held → s.free i hash ∧
      ∃ r, s.acc.passwordResets.get? hash = some r ∧ (hash ∉ w'.deleted → r.usedAt = none)) :
    LinksSound (s.write i w) := by
  have hpending : ∀ {j w'}, (s.write i w).pending j = some w' →
      j = i ∧ w = some w' ∨ j ≠ i ∧ s.pending j = some w' := by
    intro j w' hw'
    change Function.update s.pending i w j = some w' at hw'
    rw [Function.update_apply] at hw'
    split_ifs at hw' with hji
    · exact .inl ⟨hji, hw'⟩
    · exact .inr ⟨hji, hw'⟩
  refine ⟨h.single, h.unused, fun j w' hash hw' hhash => ?_, fun j k w' w'' hash hjk hw' hw'' hhash => ?_⟩
  · rcases hpending hw' with ⟨rfl, hw⟩ | ⟨-, hw⟩
    · exact (hheld w' hash hw hhash).2
    · exact h.held j w' hash hw hhash
  · rcases hpending hw' with ⟨rfl, hw⟩ | ⟨hj, hw⟩
    · rcases hpending hw'' with ⟨rfl, -⟩ | ⟨hk, hwk⟩
      · exact absurd rfl hjk
      · exact (hheld w' hash hw hhash).1 k w'' hk hwk
    · rcases hpending hw'' with ⟨rfl, hwk⟩ | ⟨-, hwk⟩
      · exact fun hmem => (hheld w'' hash hwk hmem).1 j w' hj hw hhash
      · exact h.apart j k w' w'' hash hjk hw hwk hhash

/-- A rollback keeps what the links rest on. -/
theorem rollback (h : LinksSound s) (i : ι) : LinksSound (s.write i none) :=
  h.write fun _ _ hw => absurd hw nofun

/-- A transaction goes on with the rows it held. -/
theorem rewrite (h : LinksSound s) {w w' : ResetWrites} (hw : s.pending i = some w)
    (hdeleted : w'.deleted = w.deleted) (hused : w'.used = w.used) :
    LinksSound (s.write i (some w')) := by
  have hsame : w'.held = w.held := by
    unfold ResetWrites.held
    rw [hdeleted, hused]
  refine h.write fun w'' hash heq hhash => ?_
  obtain rfl := Option.some.inj heq
  rw [hsame] at hhash
  rw [hdeleted]
  exact ⟨fun j w'' hji hwj hmem => h.apart i j w w'' hash (Ne.symm hji) hw hwj hhash hmem,
    h.held i w hash hw hhash⟩

omit [DecidableEq ι] in
/-- The rows of the others survive a commit. -/
theorem held_commit (h : LinksSound s) {w w' : ResetWrites} (hw : s.pending i = some w)
    (hji : j ≠ i) (hw' : s.pending j = some w') {hash : Sha256} (hhash : hash ∈ w'.held) :
    ∃ r, (w.resets s.acc.passwordResets).get? hash = some r ∧
      (hash ∉ w'.deleted → r.usedAt = none) := by
  obtain ⟨r, hr, hunused⟩ := h.held j w' hash hw' hhash
  exact ⟨r, ResetWrites.get?_resets_of_free hr (h.apart j i w' w hash hji hw' hw hhash), hunused⟩

/-- A commit, whatever it counts, as long as the count is right. -/
theorem commit (h : LinksSound s) {w : ResetWrites} (hw : s.pending i = some w)
    {links uses : Sha256 → ℕ} {generation : Uuid → ℕ} (hsingle : ∀ hash, uses hash ≤ links hash)
    (hunused : ∀ hash r, (w.resets s.acc.passwordResets).get? hash = some r → r.usedAt = none →
      uses hash < links hash) :
    LinksSound { s.write i none with acc := w.commit s.acc, links, uses, generation } := by
  have hback := h.rollback i
  refine ⟨hsingle, hunused, fun j w' hash hw' hhash => ?_, hback.apart⟩
  change Function.update s.pending i none j = some w' at hw'
  rw [Function.update_apply] at hw'
  split_ifs at hw' with hji
  exact h.held_commit hw hji hw' hhash

end LinksSound

omit [DecidableEq ι] in
theorem Accounts.mem_resetsOf {acc : Accounts} {user : Uuid} {hash : Sha256} :
    hash ∈ acc.resetsOf user ↔
      ∃ r, acc.passwordResets.get? hash = some r ∧ r.userId = user := by
  unfold Accounts.resetsOf
  rw [List.mem_map]
  constructor
  · rintro ⟨⟨key, r⟩, hr, rfl⟩
    obtain ⟨hrow, huser⟩ := List.mem_filter.1 hr
    exact ⟨r, (Table.mem_rows_iff _ _ _).1 hrow, of_decide_eq_true huser⟩
  · rintro ⟨r, hr, huser⟩
    exact ⟨(hash, r), List.mem_filter.2 ⟨(Table.mem_rows_iff _ _ _).2 hr, decide_eq_true huser⟩, rfl⟩

theorem ResetStore.pending_write_self {w : Option ResetWrites} :
    (s.write i w).pending i = w := Function.update_self ..

/-- A step keeps the invariant and the assertion of its own call. -/
theorem ResetStep.sound (h : ResetStep env calls i s p s' p') (hs : LinksSound s)
    (hp : ResetStands env calls i s p) : LinksSound s' ∧ ResetStands env calls i s' p' := by
  have hself := fun w => ResetStore.pending_write_self (s := s) (i := i) (w := w)
  cases h with
  | finds hcall h => exact ⟨hs, hp⟩
  | misses hcall h => exact ⟨hs, hp⟩
  | begins =>
    refine ⟨hs.write fun w hash hw hhash => ?_, hself _⟩
    obtain rfl := Option.some.inj hw
    exact absurd hhash List.not_mem_nil
  | opens hcall =>
    refine ⟨hs.write fun w hash hw hhash => ?_, hself _⟩
    obtain rfl := Option.some.inj hw
    exact absurd hhash List.not_mem_nil
  | @supersedes _ _ user began hfree =>
    refine ⟨hs.write fun w hash hw hhash => ?_, _, hself _, rfl, rfl, le_rfl, fun _ hash r hr huser =>
      Accounts.mem_resetsOf.2 ⟨r, hr, huser⟩⟩
    obtain rfl := Option.some.inj hw
    have hmem : hash ∈ s.acc.resetsOf user := by simpa [ResetWrites.held] using hhash
    obtain ⟨r, hr, huser⟩ := Accounts.mem_resetsOf.1 hmem
    exact ⟨hfree hash r hr huser, r, hr, fun hnot => absurd hmem hnot⟩
  | mints hcall htoken hw husers hkey hfree hpending =>
    obtain ⟨w', hw', hused, -, hcovers⟩ := hp
    obtain rfl := Option.some.inj (hw.symm.trans hw')
    exact ⟨hs.rewrite hw rfl rfl, _, _, hself _, hused, rfl, rfl, hcovers⟩
  | clashes => exact ⟨hs.rollback i, hself none⟩
  | orphaned => exact ⟨hs.rollback i, hself none⟩
  | @issues _ _ user token generation w hw =>
    obtain ⟨w', r, hw', hused, hinserted, -, -⟩ := hp
    obtain rfl := Option.some.inj (hw.symm.trans hw')
    refine ⟨hs.commit hw (fun hash => ?_) fun hash r' hr' hunused => ?_, Function.update_self ..⟩
    · rw [Function.update_apply]
      split_ifs with hsame
      · rw [← hsame]
        exact Nat.le_succ_of_le (hs.single hash)
      · exact hs.single hash
    · rw [Function.update_apply]
      split_ifs with hsame
      · rw [← hsame]
        exact Nat.lt_succ_of_le (hs.single hash)
      · rcases ResetWrites.get?_resets hr' with hnew | ⟨-, r₀, hr₀, rfl⟩
        · rw [hinserted] at hnew
          exact absurd (Prod.mk.inj (Option.some.inj hnew)).1.symm hsame
        · exact hs.unused hash r₀ hr₀ (ResetWrites.usedAt_of_stamp hunused).1
  | @stamps _ _ token newPassword began r hcall hfree h =>
    refine ⟨hs.write fun w hash hw hhash => ?_, _, token, newPassword, began, hcall, hself _, rfl,
      rfl, rfl⟩
    obtain rfl := Option.some.inj hw
    obtain rfl : hash = env.tokenHash token := by simpa [ResetWrites.held] using hhash
    obtain ⟨hr, hlive⟩ := Option.filter_eq_some_iff.1 h
    exact ⟨hfree, r, hr, fun _ => Option.isNone_iff_eq_none.1 (of_decide_eq_true hlive).1⟩
  | refuses => exact ⟨hs.rollback i, hself none⟩
  | stores hcall hw hfree =>
    obtain ⟨w', token, newPassword, began, hcall', hw', hdeleted, hinserted, hused⟩ := hp
    obtain rfl := Option.some.inj (hw.symm.trans hw')
    exact ⟨hs.rewrite hw rfl rfl, _, token, newPassword, began, hcall', hself _, hdeleted, hinserted,
      hused⟩
  | endsSessions hw =>
    obtain ⟨w', token, newPassword, began, hcall', hw', hdeleted, hinserted, hused⟩ := hp
    obtain rfl := Option.some.inj (hw.symm.trans hw')
    exact ⟨hs.rewrite hw rfl rfl, _, token, newPassword, began, hcall', hself _, hdeleted, hinserted,
      hused⟩
  | @finishes _ _ token newPassword user w hcall hw =>
    obtain ⟨w', token', _, began, hcall', hw', hdeleted, hinserted, hused⟩ := hp
    obtain rfl := Option.some.inj (hw.symm.trans hw')
    obtain ⟨rfl, -⟩ := ResetCall.reset.inj (hcall.symm.trans hcall')
    have hheld : env.tokenHash token ∈ w.held := by simp [ResetWrites.held, hused]
    obtain ⟨r, hr, hunused⟩ := hs.held i w _ hw hheld
    have hlast := hs.unused _ r hr (hunused (by rw [hdeleted]; exact List.not_mem_nil))
    refine ⟨hs.commit hw (fun hash => ?_) fun hash r' hr' hunused' => ?_, Function.update_self ..⟩
    · rw [Function.update_apply]
      split_ifs with hsame
      · rw [hsame]
        exact hlast
      · exact hs.single hash
    · rcases ResetWrites.get?_resets hr' with hnew | ⟨-, r₀, hr₀, rfl⟩
      · exact absurd (hinserted.symm.trans hnew) nofun
      · -- the link used is not unused
        obtain ⟨hold, hother⟩ := ResetWrites.usedAt_of_stamp hunused'
        rw [Function.update_of_ne fun hsame => hother began (by rw [hused, hsame])]
        exact hs.unused hash r₀ hr₀ hold
  | crashes h => exact ⟨hs.rollback i, hself none⟩
  | passes h => exact ⟨⟨hs.single, hs.unused, hs.held, hs.apart⟩, hp⟩

/-- A commit of another request keeps a deletion complete, or is counted. -/
theorem ResetStore.Covers.issue {w w' : ResetWrites} {user user' : Uuid} {generation : ℕ}
    {hash : Sha256} {r : PasswordReset} (h : s.Covers w' user' generation)
    (hinserted : w.inserted = some (hash, r)) (huser : r.userId = user) :
    (s.issue i w user hash).Covers w' user' generation := by
  obtain ⟨hle, hall⟩ := h
  show generation ≤ Function.update s.generation user (s.generation user + 1) user' ∧
    (Function.update s.generation user (s.generation user + 1) user' = generation → _)
  rw [Function.update_apply]
  split_ifs with hsame
  · rw [← hsame]
    exact ⟨Nat.le_succ_of_le hle, fun hlast => absurd hlast (by omega)⟩
  · refine ⟨hle, fun hlast hash' r' hr' huser' => ?_⟩
    rcases ResetWrites.get?_resets hr' with hnew | ⟨-, r₀, hr₀, rfl⟩
    · rw [hinserted] at hnew
      obtain ⟨-, rfl⟩ := Prod.mk.inj (Option.some.inj hnew)
      exact absurd (huser'.symm.trans huser) hsame
    · exact hall hlast hash' r₀ hr₀ (by rwa [ResetWrites.userId_stamp] at huser')

/-- A commit that inserts nothing keeps a deletion complete. -/
theorem ResetStore.Covers.finish {w w' : ResetWrites} {user : Uuid} {generation : ℕ}
    {hash : Sha256} (h : s.Covers w' user generation) (hinserted : w.inserted = none) :
    (s.finish i w hash).Covers w' user generation := by
  refine ⟨h.1, fun hlast hash' r' hr' huser' => ?_⟩
  rcases ResetWrites.get?_resets hr' with hnew | ⟨-, r₀, hr₀, rfl⟩
  · exact absurd (hinserted.symm.trans hnew) nofun
  · exact h.2 hlast hash' r₀ hr₀ (by rwa [ResetWrites.userId_stamp] at huser')

/-- What a step leaves of the others: what they have written, and complete deletions. -/
theorem ResetStep.others (h : ResetStep env calls i s p s' p') (hp : ResetStands env calls i s p)
    (hij : i ≠ j) : s'.pending j = s.pending j ∧
      ∀ w user generation, s.Covers w user generation → s'.Covers w user generation := by
  have hother : ∀ w, (s.write i w).pending j = s.pending j := fun w =>
    Function.update_of_ne (Ne.symm hij) ..
  cases h with
  | issues hw =>
    obtain ⟨w', r, hw', -, hinserted, huser, -⟩ := hp
    obtain rfl := Option.some.inj (hw.symm.trans hw')
    exact ⟨hother none, fun _ _ _ hcovers => hcovers.issue hinserted huser⟩
  | finishes hcall hw =>
    obtain ⟨w', token, newPassword, began, -, hw', -, hinserted, -⟩ := hp
    obtain rfl := Option.some.inj (hw.symm.trans hw')
    exact ⟨hother none, fun _ _ _ hcovers => hcovers.finish hinserted⟩
  | finds => exact ⟨rfl, fun _ _ _ hcovers => hcovers⟩
  | misses => exact ⟨rfl, fun _ _ _ hcovers => hcovers⟩
  | passes => exact ⟨rfl, fun _ _ _ hcovers => hcovers⟩
  | _ => exact ⟨hother _, fun _ _ _ hcovers => hcovers⟩

omit [DecidableEq ι] in
/-- A call stands where it stood as long as it covers what it covered. -/
theorem ResetStands.mono (h : ResetStands env calls i s p) (hpending : s'.pending i = s.pending i)
    (hcovers : ∀ w user generation, s.Covers w user generation → s'.Covers w user generation) :
    ResetStands env calls i s' p := by
  cases p with
  | minting user began generation =>
    obtain ⟨w, hw, hused, hinserted, hc⟩ := h
    exact ⟨w, hpending.trans hw, hused, hinserted, hcovers w user generation hc⟩
  | issuing user token generation =>
    obtain ⟨w, r, hw, hused, hinserted, huser, hc⟩ := h
    exact ⟨w, r, hpending.trans hw, hused, hinserted, huser, hcovers w user generation hc⟩
  | storing | endingSessions | finishing =>
    obtain ⟨w, token, newPassword, began, hcall, hw, hrest⟩ := h
    exact ⟨w, token, newPassword, began, hcall, hpending.trans hw, hrest⟩
  | _ => exact hpending.trans h

/-- The annotation of the programs. -/
theorem reset_outline : Outline (ResetStep env calls) (LinksSound (ι := ι))
    (fun i s p => ResetStands env calls i s p) fun _ _ _ _ => True where
  symm := fun _ => trivial
  sound := fun hact hs hp => hact.sound hs hp
  free := fun hij hact _ hp hq _ =>
    let hothers := hact.others hp hij
    hq.mono hothers.1 hothers.2
  keeps := fun _ _ _ _ _ _ => trivial

omit [DecidableEq ι] in
/-- It holds as the calls begin. -/
theorem resetsFrom_annotated (acc : Accounts) (now : Timestamp) :
    Annotated (LinksSound (ι := ι)) (fun i s p => ResetStands env calls i s p)
      (fun _ _ _ _ => True) (resetsFrom acc now) := by
  refine ⟨⟨fun hash => ?_, fun hash r hr hunused => ?_, fun _ _ _ hw => absurd hw nofun,
    fun _ _ _ _ _ _ hw => absurd hw nofun⟩, fun _ => rfl, fun _ _ _ => trivial⟩
  · show (if _ then _ else _) ≤ if _ then _ else _
    cases hr : acc.passwordResets.get? hash with
    | none => exact le_rfl
    | some r =>
      rw [Option.isSome_some, if_pos rfl]
      split_ifs <;> decide
  · change acc.passwordResets.get? hash = some r at hr
    show (if _ then _ else _) < if _ then _ else _
    rw [hr, Option.any_some, hunused]
    exact Nat.zero_lt_one

/-- **A link sets a password once at most**, in every run. -/
theorem links_single_use {acc : Accounts} {now : Timestamp} {events : List (Event ι (ResetStore ι))}
    {c : Config ι (ResetStore ι) ResetPc}
    (hrun : Execution (ResetStep env calls) (resetsFrom acc now) events c) :
    SingleUseLinks c.shared :=
  (reset_outline.holds (resetsFrom_annotated acc now) hrun).inv.single

/-! ## Every run without rivals -/

omit [DecidableEq ι] in
/-- A commit that only stamps rows keeps one live link at most. -/
theorem OneLiveLink.finish {w : ResetWrites} (h : OneLiveLink s.acc s.now)
    (hinserted : w.inserted = none) : OneLiveLink (w.commit s.acc) s.now := by
  have hold : ∀ hash r, (w.resets s.acc.passwordResets).get? hash = some r → r.live s.now →
      ∃ r₀, s.acc.passwordResets.get? hash = some r₀ ∧ r.userId = r₀.userId ∧ r₀.live s.now := by
    intro hash r hr hlive
    rcases ResetWrites.get?_resets hr with hnew | ⟨-, r₀, hr₀, rfl⟩
    · exact absurd (hinserted.symm.trans hnew) nofun
    · obtain ⟨hunused, hfresh⟩ := hlive
      rw [ResetWrites.expiresAt_stamp] at hfresh
      exact ⟨r₀, hr₀, ResetWrites.userId_stamp, (ResetWrites.usedAt_of_stamp hunused).1, hfresh⟩
  intro hash hash' r r' hr hr' huser hlive hlive'
  obtain ⟨r₀, hr₀, huser₀, hlive₀⟩ := hold hash r hr hlive
  obtain ⟨r₀', hr₀', huser₀', hlive₀'⟩ := hold hash' r' hr' hlive'
  exact h hash hash' r₀ r₀' hr₀ hr₀' (by rw [← huser₀, ← huser₀', huser]) hlive₀ hlive₀'

omit [DecidableEq ι] in
/-- A commit that has deleted every row of the user keeps one live link at most. -/
theorem OneLiveLink.issue {w : ResetWrites} {user : Uuid} {key : Sha256} {row : PasswordReset}
    (h : OneLiveLink s.acc s.now) (hused : w.used = none) (hinserted : w.inserted = some (key, row))
    (hrow : row.userId = user)
    (hcovers : ∀ hash r, s.acc.passwordResets.get? hash = some r → r.userId = user →
      hash ∈ w.deleted) : OneLiveLink (w.commit s.acc) s.now := by
  have hold : ∀ hash r, (w.resets s.acc.passwordResets).get? hash = some r →
      (hash = key ∧ r.userId = user) ∨
        (s.acc.passwordResets.get? hash = some r ∧ r.userId ≠ user) := by
    intro hash r hr
    rcases ResetWrites.get?_resets hr with hnew | ⟨hkept, r₀, hr₀, rfl⟩
    · rw [hinserted] at hnew
      obtain ⟨rfl, rfl⟩ := Prod.mk.inj (Option.some.inj hnew)
      exact .inl ⟨rfl, hrow⟩
    · rw [ResetWrites.stamp_of_used_eq_none hused]
      exact .inr ⟨hr₀, fun huser => hkept (hcovers hash r₀ hr₀ huser)⟩
  intro hash hash' r r' hr hr' huser hlive hlive'
  rcases hold hash r hr with ⟨rfl, hu⟩ | ⟨hr₀, hu⟩
  · rcases hold hash' r' hr' with ⟨rfl, -⟩ | ⟨-, hu'⟩
    · rfl
    · exact absurd (huser.symm.trans hu) hu'
  · rcases hold hash' r' hr' with ⟨rfl, hu'⟩ | ⟨hr₀', -⟩
    · exact absurd (huser.trans hu') hu
    · exact h hash hash' r r' hr₀ hr₀' huser hlive hlive'

/-- A step without a rival leaves one live link at most. -/
theorem UnrivalledStep.oneLiveLink (h : UnrivalledStep env calls i s p s' p')
    (hp : ResetStands env calls i s p) (hone : OneLiveLink s.acc s.now) :
    OneLiveLink s'.acc s'.now := by
  obtain ⟨hstep, hlast⟩ := h
  cases hstep with
  | issues hw =>
    obtain ⟨w', r, hw', hused, hinserted, huser, hcovers⟩ := hp
    obtain rfl := Option.some.inj (hw.symm.trans hw')
    exact hone.issue hused hinserted huser (hcovers.2 hlast)
  | finishes hcall hw =>
    obtain ⟨w', token, newPassword, began, -, hw', -, hinserted, -⟩ := hp
    obtain rfl := Option.some.inj (hw.symm.trans hw')
    exact hone.finish hinserted
  | passes hpass =>
    -- a link that has expired stays so
    intro hash hash' r r' hr hr' huser hlive hlive'
    exact hone hash hash' r r' hr hr' huser ⟨hlive.1, lt_of_le_of_lt hpass hlive.2⟩
      ⟨hlive'.1, lt_of_le_of_lt hpass hlive'.2⟩
  | _ => exact hone

/-- **One live link.**  However any number of `create_password_reset` and `reset_password` calls
interleave, as long as no request commits with another one for its user committed since its
deletion: each user has one live link at most, and each link sets a password once at most. -/
theorem one_live_link_of_unrivalled {env : Credentials} {calls : ι → ResetCall} {acc : Accounts}
    {now : Timestamp} (hstart : OneLiveLink acc now) {events : List (Event ι (ResetStore ι))}
    {c : Config ι (ResetStore ι) ResetPc}
    (hrun : Execution (UnrivalledStep env calls) (resetsFrom acc now) events c) :
    OneLiveLink c.shared.acc c.shared.now ∧ SingleUseLinks c.shared := by
  suffices hall : Annotated (LinksSound (ι := ι)) (fun i s p => ResetStands env calls i s p)
      (fun _ _ _ _ => True) c ∧ OneLiveLink c.shared.acc c.shared.now from
    ⟨hall.2, hall.1.inv.single⟩
  induction hrun with
  | start => exact ⟨resetsFrom_annotated acc now, hstart⟩
  | step run hact ih =>
    exact ⟨reset_outline.step ih.1 hact.1, hact.oneLiveLink (ih.1.at_ _) ih.2⟩

end Runs

namespace Requests

/-- One user, who has asked for no link yet. -/
def forgetful : Accounts where
  users := .single 1 ⟨"ada@shop.example", "old", false⟩
  userTenants := ∅
  sessions := ∅
  passwordResets := ∅
  oidcConnections := ∅
  oidcFlows := ∅
  scimTokens := ∅
  deviceFlows := ∅

/-- Two requests for the one user. -/
def impatient (_ : Bool) : ResetCall := .create "ada@shop.example" 60

/-- A request, and a reset with the link it sends. -/
def answered (i : Bool) : ResetCall :=
  if i then .create "ada@shop.example" 60 else .reset "scpr_a" "new"

theorem eq_not_of_ne {i j : Bool} (h : j ≠ i) : j = !i := by
  cases i <;> cases j <;> simp_all

/-- Each request deletes before the other one commits, and both links stay. -/
theorem two_live_links : ¬ ∀ {events : List (Event Bool (ResetStore Bool))}
    {c : Config Bool (ResetStore Bool) ResetPc},
    Execution (ResetStep .plain impatient) (resetsFrom forgetful 0) events c →
      OneLiveLink c.shared.acc c.shared.now ∧ SingleUseLinks c.shared := by
  intro hclaim
  have h₀ : Execution (ResetStep .plain impatient) (resetsFrom forgetful 0) [] _ := .start
  have h₁ := h₀.step (i := true) (.finds rfl rfl)
  have h₂ := h₁.step (i := true) .begins
  have h₃ := h₂.step (i := true) (.supersedes (fun _ _ h => absurd h nofun))
  have h₄ := h₃.step (i := false) (.finds rfl rfl)
  have h₅ := h₄.step (i := false) .begins
  have h₆ := h₅.step (i := false) (.supersedes (fun _ _ h => absurd h nofun))
  have h₇ := h₆.step (i := true) (@ResetStep.mints Bool _ .plain impatient true _ "ada@shop.example" 60
    1 0 0 "a" "scpr_a" _ rfl rfl rfl rfl (.inl rfl)
    (fun j w hj hw => by
      obtain rfl := eq_not_of_ne hj
      obtain rfl := Option.some.inj hw
      exact List.not_mem_nil)
    (fun j w r hj hw => by
      obtain rfl := eq_not_of_ne hj
      obtain rfl := Option.some.inj hw
      exact nofun))
  have h₈ := h₇.step (i := true) (.issues rfl)
  have h₉ := h₈.step (i := false) (@ResetStep.mints Bool _ .plain impatient false _ "ada@shop.example" 60
    1 0 0 "bb" "scpr_bb" _ rfl rfl rfl rfl (.inl rfl)
    (fun j w hj hw => by
      obtain rfl := eq_not_of_ne hj
      exact absurd hw nofun)
    (fun j w r hj hw => by
      obtain rfl := eq_not_of_ne hj
      exact absurd hw nofun))
  have h₁₀ := h₉.step (i := false) (.issues rfl)
  have htwo := (hclaim h₁₀).1 (Credentials.plain.tokenHash "scpr_a") (Credentials.plain.tokenHash "scpr_bb") _ _ rfl rfl rfl
    ⟨rfl, by decide⟩ ⟨rfl, by decide⟩
  exact absurd htwo (by decide)

/-- A request, and then a reset with the link it has sent. -/
theorem one_live_link_of_unrivalled_answered : ∃ c : Config Bool (ResetStore Bool) ResetPc,
    c.pc true = .issued 1 "scpr_a" ∧ c.pc false = .changed 1 ∧
      OneLiveLink c.shared.acc c.shared.now ∧ SingleUseLinks c.shared := by
  have hstart : OneLiveLink forgetful 0 := fun _ _ _ _ h => absurd h nofun
  have h₀ : Execution (UnrivalledStep .plain answered) (resetsFrom forgetful 0) [] _ := .start
  have h₁ := h₀.step (i := true) ⟨.finds rfl rfl, trivial⟩
  have h₂ := h₁.step (i := true) ⟨.begins, trivial⟩
  have h₃ := h₂.step (i := true) ⟨.supersedes (fun _ _ h => absurd h nofun), trivial⟩
  have h₄ := h₃.step (i := true) ⟨@ResetStep.mints Bool _ .plain answered true _ "ada@shop.example" 60
    1 0 0 "a" "scpr_a" _ rfl rfl rfl rfl (.inl rfl)
    (fun j w hj hw => by
      obtain rfl := eq_not_of_ne hj
      exact absurd hw nofun)
    (fun j w r hj hw => by
      obtain rfl := eq_not_of_ne hj
      exact absurd hw nofun), trivial⟩
  have h₅ := h₄.step (i := true) ⟨.issues rfl, rfl⟩
  have h₆ := h₅.step (i := false) ⟨.opens rfl, trivial⟩
  have h₇ := h₆.step (i := false) ⟨@ResetStep.stamps Bool _ .plain answered false _ "scpr_a" "new" 0
    (newReset 1 0 60) rfl
    (fun j w hj hw => by
      obtain rfl := eq_not_of_ne hj
      exact absurd hw nofun) rfl, trivial⟩
  have h₈ := h₇.step (i := false) ⟨@ResetStep.stores Bool _ .plain answered false _ "scpr_a" "new" 1
    "salt" _ rfl rfl
    (fun j w hash hj hw => by
      obtain rfl := eq_not_of_ne hj
      exact absurd hw nofun), trivial⟩
  have h₉ := h₈.step (i := false) ⟨.endsSessions rfl, trivial⟩
  have h₁₀ := h₉.step (i := false) ⟨.finishes rfl rfl, trivial⟩
  exact ⟨_, rfl, rfl, one_live_link_of_unrivalled hstart h₁₀⟩

end Requests

end Sconce
