/-
# SCIM patches

What a PATCH of a member does, against what its operations ask for one after another.  Each
replace operation that sets `active` overrides those before it; `extract_active` searches for the
first operation it can read a value from, whatever its `op` and its path, and reads `true` and
`false` in lower case only.

`patchedInOrder_iff` says for which patches and states the two agree.
-/
import Sconce.Accounts.Provisioning

namespace Sconce

open Effect

/-! ## What operations ask for -/

/-- A Boolean, or its name in any letter case. -/
def spelledBool : Json → Option Bool
  | .bool b => some b
  | .string s =>
    if s.toLower = "true" then some true else if s.toLower = "false" then some false else none
  | _ => none

/-- What a replace operation sets `active` to: by its path, or without a path in its value. -/
def setsActive (op : Json) : Option Bool :=
  if ((op.get "op").bind Json.asStr).map String.toLower = some "replace" then
    match op.get "path" with
    | none | some .null => ((op.get "value").bind (·.get "active")).bind spelledBool
    | some (.string path) =>
      if path.toLower = "active" then (op.get "value").bind spelledBool else none
    | some _ => none
  else none

/-- The last operation that sets `active` sets it to `b`. -/
def LastSets (ops : List Json) (b : Bool) : Prop :=
  ∃ before op after, ops = before ++ op :: after ∧ setsActive op = some b ∧
    ∀ o ∈ after, setsActive o = none

/-- The operation carries a value that `scim_bool` reads: by an `active` path, or as the member
`active` of its value. -/
def Carries (op : Json) (b : Bool) : Prop :=
  (((op.get "path").bind Json.asStr).map String.toLower = some "active" ∧
      (op.get "value").bind scimBool = some b) ∨
    ((op.get "value").bind (·.get "active")).bind scimBool = some b

/-- The first operation that carries a readable value carries `b`. -/
def FirstCarries (ops : List Json) (b : Bool) : Prop :=
  ∃ before op after, ops = before ++ op :: after ∧ Carries op b ∧
    ∀ o ∈ before, ∀ b', ¬ Carries o b'

/-! ## What a patch does -/

/-- The flag of the membership. -/
def Accounts.activeFlag (acc : Accounts) (user org : Uuid) : Option Bool :=
  (acc.membership user org).map (·.active)

/-- The user is signed in nowhere. -/
def Accounts.SignedOut (acc : Accounts) (user : Uuid) : Prop :=
  ∀ hash s, acc.sessions.get? hash = some s → s.userId ≠ user

/-- The operations took effect in their order. -/
structure PatchedInOrder (before after : Accounts) (user org : Uuid) (ops : List Json) : Prop where
  last : ∀ b, LastSets ops b →
    after.activeFlag user org = some b ∧ (b = false → after.SignedOut user)
  unchanged : (∀ op ∈ ops, setsActive op = none) →
    after.activeFlag user org = before.activeFlag user org

/-- What the search finds is what the operations ask for, or what is so already. -/
inductive TakesEffect (acc : Accounts) (user : Uuid) (active : Bool) (ops : List Json) : Prop
  /-- The first value that can be read is the last that is set. -/
  | same (b : Bool) (hfirst : FirstCarries ops b) (hlast : LastSets ops b)
  /-- Nothing is set, and nothing is read. -/
  | neither (hread : ∀ op ∈ ops, ∀ b, ¬ Carries op b) (hset : ∀ op ∈ ops, setsActive op = none)
  /-- Nothing is set, and what is read is the flag already. -/
  | stray (hset : ∀ op ∈ ops, setsActive op = none) (hfirst : FirstCarries ops active)
  /-- Nothing is read, and what is set is the flag already, with no session left to end. -/
  | unread (hread : ∀ op ∈ ops, ∀ b, ¬ Carries op b) (hlast : LastSets ops active)
      (hsessions : active = false → acc.SignedOut user)

/-! ## The search -/

/-- A value is a text or a Boolean, or it has members. -/
theorem get_eq_none_of_scimBool {v : Json} {b : Bool} (h : scimBool v = some b) (key : String) :
    v.get key = none := by
  cases v with
  | object fields => cases h
  | _ => rfl

/-- What is found in an operation is what it carries. -/
theorem operationActive_eq_some_iff (op : Json) (b : Bool) :
    operationActive op = some b ↔ Carries op b := by
  unfold operationActive Carries
  dsimp only
  by_cases hpath : ((op.get "path").bind Json.asStr).map String.toLower = some "active"
  · rw [if_pos hpath]
    cases hvalue : (op.get "value").bind scimBool with
    | none => simp [hpath]
    | some b' =>
      obtain ⟨v, hv, hb'⟩ := Option.bind_eq_some_iff.1 hvalue
      have hmember : ((op.get "value").bind (·.get "active")).bind scimBool = none := by
        rw [hv, Option.bind_some, get_eq_none_of_scimBool hb', Option.bind_none]
      rw [hmember]
      simp [hpath]
  · rw [if_neg hpath]
    constructor
    · exact .inr
    · exact fun h => h.resolve_left fun hcarries => hpath hcarries.1

/-- Nothing is found where nothing is carried. -/
theorem operationActive_eq_none_iff (op : Json) :
    operationActive op = none ↔ ∀ b, ¬ Carries op b := by
  rw [Option.eq_none_iff_forall_ne_some]
  exact forall_congr' fun b => not_congr (operationActive_eq_some_iff op b)

/-- What is found in a patch is what its first carrying operation carries. -/
theorem findSome?_eq_some_iff_firstCarries (ops : List Json) (b : Bool) :
    ops.findSome? operationActive = some b ↔ FirstCarries ops b := by
  rw [List.findSome?_eq_some_iff]
  unfold FirstCarries
  simp only [operationActive_eq_some_iff, operationActive_eq_none_iff]

/-- Nothing is found where no operation carries anything. -/
theorem findSome?_eq_none_iff_carries (ops : List Json) :
    ops.findSome? operationActive = none ↔ ∀ op ∈ ops, ∀ b, ¬ Carries op b := by
  rw [List.findSome?_eq_none_iff]
  simp only [operationActive_eq_none_iff]

/-- What is set last is found from the end. -/
theorem findSome?_reverse_eq_some_iff (ops : List Json) (b : Bool) :
    ops.reverse.findSome? setsActive = some b ↔ LastSets ops b := by
  rw [List.findSome?_eq_some_iff]
  constructor
  · rintro ⟨after, op, before, hsplit, hop, hafter⟩
    refine ⟨before.reverse, op, after.reverse, ?_, hop, fun o ho => hafter o (List.mem_reverse.1 ho)⟩
    rw [← List.reverse_reverse ops, hsplit, List.reverse_append, List.reverse_cons,
      List.append_assoc]
    rfl
  · rintro ⟨before, op, after, rfl, hop, hafter⟩
    refine ⟨after.reverse, op, before.reverse, ?_, hop, fun o ho => hafter o (List.mem_reverse.1 ho)⟩
    rw [List.reverse_append, List.reverse_cons, List.append_assoc]
    rfl

/-- Nothing is set where no operation sets anything. -/
theorem findSome?_reverse_eq_none_iff (ops : List Json) :
    ops.reverse.findSome? setsActive = none ↔ ∀ op ∈ ops, setsActive op = none := by
  rw [List.findSome?_eq_none_iff]
  simp only [List.mem_reverse]

/-- Taking effect in order, by the search from the end. -/
theorem patchedInOrder_iff_findSome? (before after : Accounts) (user org : Uuid)
    (ops : List Json) :
    PatchedInOrder before after user org ops ↔
      match ops.reverse.findSome? setsActive with
      | some b => after.activeFlag user org = some b ∧ (b = false → after.SignedOut user)
      | none => after.activeFlag user org = before.activeFlag user org := by
  cases hset : ops.reverse.findSome? setsActive with
  | none =>
    have hnone := (findSome?_reverse_eq_none_iff ops).1 hset
    constructor
    · exact fun h => h.unchanged hnone
    · refine fun h => ⟨fun b hb => ?_, fun _ => h⟩
      rw [← findSome?_reverse_eq_some_iff, hset] at hb
      cases hb
  | some b =>
    have hlast := (findSome?_reverse_eq_some_iff ops b).1 hset
    constructor
    · exact fun h => h.last b hlast
    · refine fun h => ⟨fun b' hb' => ?_, fun hnone => ?_⟩
      · rw [← findSome?_reverse_eq_some_iff, hset] at hb'
        exact Option.some.inj hb' ▸ h
      · rw [← findSome?_reverse_eq_none_iff, hset] at hnone
        cases hnone

theorem takesEffect_iff_findSome? (acc : Accounts) (user : Uuid) (active : Bool)
    (ops : List Json) :
    TakesEffect acc user active ops ↔
      match ops.findSome? operationActive, ops.reverse.findSome? setsActive with
      | some b', some b => b' = b
      | none, none => True
      | some b', none => b' = active
      | none, some b => active = b ∧ (b = false → acc.SignedOut user) := by
  constructor
  · rintro (⟨b, hfirst, hlast⟩ | ⟨hread, hset⟩ | ⟨hset, hfirst⟩ | ⟨hread, hlast, hsessions⟩)
    · rw [(findSome?_eq_some_iff_firstCarries ops b).2 hfirst,
        (findSome?_reverse_eq_some_iff ops b).2 hlast]
    · rw [(findSome?_eq_none_iff_carries ops).2 hread, (findSome?_reverse_eq_none_iff ops).2 hset]
      trivial
    · rw [(findSome?_eq_some_iff_firstCarries ops active).2 hfirst,
        (findSome?_reverse_eq_none_iff ops).2 hset]
    · rw [(findSome?_eq_none_iff_carries ops).2 hread,
        (findSome?_reverse_eq_some_iff ops active).2 hlast]
      exact ⟨rfl, hsessions⟩
  · cases hread : ops.findSome? operationActive with
    | none =>
      have hunread := (findSome?_eq_none_iff_carries ops).1 hread
      cases hset : ops.reverse.findSome? setsActive with
      | none => exact fun _ => .neither hunread ((findSome?_reverse_eq_none_iff ops).1 hset)
      | some b =>
        have hlast := (findSome?_reverse_eq_some_iff ops b).1 hset
        rintro ⟨rfl, hsessions⟩
        exact .unread hunread hlast hsessions
    | some b' =>
      have hfirst := (findSome?_eq_some_iff_firstCarries ops b').1 hread
      cases hset : ops.reverse.findSome? setsActive with
      | none =>
        rintro rfl
        exact .stray ((findSome?_reverse_eq_none_iff ops).1 hset) hfirst
      | some b =>
        rintro rfl
        exact .same b' hfirst ((findSome?_reverse_eq_some_iff ops b').1 hset)

/-! ## The request -/

section Request

variable {env : Credentials} {lower : String → String} {fresh : Fresh} {db : Database}
  {token : String} {user org : Uuid} {body : Json} {ops : List Json} {m : Membership}

/-- The accounts after a member is switched on or off. -/
def Accounts.switched (acc : Accounts) (user org : Uuid) (active : Bool) : Accounts :=
  { acc with
    userTenants := acc.userTenants.update fun key m =>
      if key = (user, org) then { m with active } else m
    sessions := if active then acc.sessions else acc.sessions.delete fun _ s => s.userId = user }

/-- A member who is switched has the flag. -/
theorem Accounts.activeFlag_switched (acc : Accounts) {user org : Uuid} {m : Membership}
    (hm : acc.membership user org = some m) (active : Bool) :
    (acc.switched user org active).activeFlag user org = some active := by
  unfold activeFlag membership switched
  rw [Table.get?_update]
  unfold membership at hm
  rw [hm]
  simp

/-- A member who is switched off is signed in nowhere. -/
theorem Accounts.signedOut_switched (acc : Accounts) (user org : Uuid) :
    (acc.switched user org false).SignedOut user := by
  intro hash s hs
  change (acc.sessions.delete fun _ s => s.userId = user).get? hash = some s at hs
  rw [Table.get?_delete, Option.filter_eq_some_iff] at hs
  simpa using hs.2

theorem exec_scimApplyActive (hm : db.accounts.membership user org = some m) (active : Bool) :
    (exec (scimApplyActive org user active) db).2.accounts
      = db.accounts.switched user org active := by
  have hthere : (db.accounts.membership user org).isSome = true := Option.isSome_of_eq_some hm
  unfold scimApplyActive onAccounts scimSetActive deleteUserSessions deleteSessions
  simp only [exec_bind, exec_onPart, exec_get, exec_modify, exec_pure, andThen, hthere, if_true]
  cases active with
  | true =>
    simp only [Bool.not_true, Bool.false_eq_true, if_false, exec_bind, exec_get, andThen]
    split <;> rfl
  | false =>
    simp only [Bool.not_false, if_true, exec_bind, exec_onPart, exec_modify, exec_get, andThen]
    split <;> rfl

/-- What a patch of a member does. -/
theorem exec_patch (htoken : db.accounts.resolveScimToken env token = some org)
    (hm : db.accounts.membership user org = some m)
    (hbody : body.get "Operations" = some (.array ops)) :
    (exec (scim env lower fresh (some token) (.patch (some user) (some body))) db).2.accounts
      = match ops.findSome? operationActive with
        | some active => db.accounts.switched user org active
        | none => db.accounts := by
  have hextract : extractActive body = ops.findSome? operationActive := by
    unfold extractActive
    rw [hbody]
  unfold scim
  simp only [exec_bind, exec_get, andThen, htoken, hextract]
  cases ops.findSome? operationActive with
  | none => rfl
  | some active => exact exec_scimApplyActive hm active

/-- **Which patches take effect in the order of their operations.** -/
theorem patchedInOrder_iff (htoken : db.accounts.resolveScimToken env token = some org)
    (hm : db.accounts.membership user org = some m)
    (hbody : body.get "Operations" = some (.array ops)) :
    PatchedInOrder db.accounts
        (exec (scim env lower fresh (some token) (.patch (some user) (some body))) db).2.accounts
        user org ops ↔
      TakesEffect db.accounts user m.active ops := by
  have hflag : db.accounts.activeFlag user org = some m.active := by
    unfold Accounts.activeFlag
    rw [hm]
    rfl
  rw [exec_patch htoken hm hbody, patchedInOrder_iff_findSome?, takesEffect_iff_findSome?]
  cases ops.findSome? operationActive with
  | none =>
    cases ops.reverse.findSome? setsActive with
    | none => exact iff_of_true rfl trivial
    | some b =>
      dsimp only
      rw [hflag, Option.some.injEq]
  | some b' =>
    have hswitched := db.accounts.activeFlag_switched hm b'
    cases ops.reverse.findSome? setsActive with
    | none =>
      dsimp only
      rw [hswitched, hflag, Option.some.injEq]
    | some b =>
      dsimp only
      rw [hswitched, Option.some.injEq]
      refine and_iff_left_of_imp ?_
      rintro rfl rfl
      exact db.accounts.signedOut_switched user org

end Request

namespace Offboarded

/-- A member who is signed in, and the SCIM token of the organization. -/
def signedIn : Database where
  catalog := { Catalog.empty with organizations := .single 1 ⟨"acme", none⟩ }
  accounts := {
    users := ⟨[(1, ⟨"ada@acme.com", "hash", false⟩)], by decide⟩
    userTenants := ⟨[((1, 1), ⟨.member, true⟩)], by decide⟩
    sessions := ⟨[(Credentials.plain.tokenHash "session", ⟨1, 100⟩)], by decide⟩
    passwordResets := ∅
    oidcConnections := ∅
    oidcFlows := ∅
    scimTokens := ⟨[(1, Credentials.plain.tokenHash "scim_acme")], by decide⟩
    deviceFlows := ∅ }

def fresh : Fresh := ⟨2, "secret", "random", "salt", 0⟩

theorem membership_signedIn : signedIn.accounts.membership 1 1 = some ⟨.member, true⟩ := by
  decide

/-- An operation that sets `active` by its path. -/
def operation (value : Json) : Json :=
  .object [("op", .string "Replace"), ("path", .string "active"), ("value", value)]

/-- An operation that sets another attribute. -/
def nickname : Json :=
  .object [("op", .string "Replace"), ("path", .string "nickName"), ("value", .string "ada")]

def patch (ops : List Json) : Json := .object [("Operations", .array ops)]

/-- The accounts after the patch of the member. -/
def patched (ops : List Json) : Accounts :=
  (exec (scim .plain String.toLower fresh (some "scim_acme") (.patch (some 1) (some (patch ops))))
    signedIn).2.accounts

theorem toLower_op : "Replace".toLower = "replace" :=
  String.toList_inj.1 (by rw [String.toLower, String.toList_map]; decide)

theorem toLower_path : "active".toLower = "active" :=
  String.toList_inj.1 (by rw [String.toLower, String.toList_map]; decide)

theorem toLower_nickName : "nickName".toLower = "nickname" :=
  String.toList_inj.1 (by rw [String.toLower, String.toList_map]; decide)

/-- The operation sets `active` to the value. -/
theorem setsActive_operation (value : Json) : setsActive (operation value) = spelledBool value := by
  show (if some "Replace".toLower = some "replace" then
    (if "active".toLower = "active" then spelledBool value else none) else none) = _
  rw [toLower_op, toLower_path, if_pos rfl, if_pos rfl]

theorem setsActive_nickname : setsActive nickname = none := by
  show (if some "Replace".toLower = some "replace" then
    (if "nickName".toLower = "active" then spelledBool (.string "ada") else none) else none) = none
  rw [toLower_op, toLower_nickName, if_pos rfl, if_neg (by decide)]

theorem not_carries_nickname : ∀ b, ¬ Carries nickname b := by
  rintro b (⟨hpath, -⟩ | hvalue)
  · have hactive : some "nickName".toLower = some "active" := hpath
    rw [toLower_nickName] at hactive
    exact absurd hactive (by decide)
  · cases hvalue

/-- A text that `parse` does not read carries nothing. -/
theorem not_carries_string : ∀ b, ¬ Carries (operation (.string "False")) b := by
  rintro b (⟨-, hvalue⟩ | hvalue)
  · have hnone : scimBool (.string "False") = some b := hvalue
    exact absurd hnone (by decide +revert)
  · cases hvalue

/-- A `False` is not read, and the member stays. -/
theorem capital_kept :
    ¬ PatchedInOrder signedIn.accounts (patched [operation (.string "False")]) 1 1
      [operation (.string "False")] := by
  have hset : setsActive (operation (.string "False")) = some false := by
    rw [setsActive_operation, spelledBool]
    rw [show "False".toLower = "false" from
      String.toList_inj.1 (by rw [String.toLower, String.toList_map]; decide)]
    decide
  have hunread : [operation (.string "False")].findSome? operationActive = none :=
    (findSome?_eq_none_iff_carries _).2 fun op hop => List.mem_singleton.1 hop ▸ not_carries_string
  intro h
  have hflag := (h.last false ⟨[], _, [], rfl, hset, nofun⟩).1
  unfold patched at hflag
  rw [exec_patch (by decide) membership_signedIn rfl, hunread] at hflag
  exact absurd hflag (by decide)

def offboarding : List Json := [nickname, operation (.bool false), nickname]

/-- The member is switched off between two operations that are about something else. -/
theorem patchedInOrder_boolean :
    PatchedInOrder signedIn.accounts (patched offboarding) 1 1 offboarding := by
  refine (patchedInOrder_iff (by decide) membership_signedIn rfl).2 (.same false ?_ ?_)
  · refine ⟨[nickname], _, [nickname], rfl, .inl ⟨congrArg some toLower_path, rfl⟩, ?_⟩
    exact List.forall_mem_singleton.2 not_carries_nickname
  · refine ⟨[nickname], _, [nickname], rfl, setsActive_operation _, ?_⟩
    exact List.forall_mem_singleton.2 setsActive_nickname

end Offboarded

end Sconce
