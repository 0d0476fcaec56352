/-
# Device logins under races

`start_device_flow`, `approve_device_flow`, `deny_device_flow` and `poll_device_flow` for any
number of flows, a poll being two statements.  A flow has at most four histories: it is started;
started and denied; started and approved; or started, approved and answered, and then its row is
gone.

So a device code is answered once at most, with the organization of the one approval
(`device_code_single_use`).
-/
import Sconce.Lib.Interleaving
import Sconce.Accounts.Store

namespace Sconce

open Interleaving Effect

/-! ## The programs -/

/-- A call; the codes of a flow are drawn as it is started. -/
inductive DeviceCall where
  | start (deviceCode userCode : String) (ttlSecs : ℤ)
  | approve (userCode : String) (org : Uuid) (approvedBy : Option Uuid)
  | deny (userCode : String)
  | poll (deviceCode : String)

/-- Where a call stands. -/
inductive DevicePc where
  | begun
  | started
  | approved (answer : Bool)
  | denied
  | reporting
  | polled (answer : DeviceFlowPoll)
  | failed (e : SqlError)

/-- What happens to a flow. -/
inductive FlowChange where
  | started (userCode : String) (expiresAt : Timestamp)
  | approved (org : Uuid)
  | denied
  | answered (org : Uuid)

/-- What a call did to a flow, and when. -/
structure FlowEntry (ι : Type) where
  agent : ι
  change : FlowChange
  time : Timestamp

/-- The accounts and the clock, and what has happened to the flow of each device code. -/
structure DeviceStore (ι : Type) where
  acc : Accounts
  now : Timestamp
  history : Sha256 → List (FlowEntry ι)

/-- The flow waits for a decision on its user code. -/
def DeviceFlow.waits (now : Timestamp) (userCode : String) (d : DeviceFlow) : Bool :=
  d.userCode = userCode ∧ d.status = .pending ∧ now < d.expiresAt

section Steps

variable {ι : Type}

/-- The accounts change, and with them the flows that `p` selects. -/
def DeviceStore.change (s : DeviceStore ι) (i : ι) (acc : Accounts) (p : Sha256 → Bool)
    (change : FlowChange) : DeviceStore ι :=
  ⟨acc, s.now, fun hash => if p hash then s.history hash ++ [⟨i, change, s.now⟩]
    else s.history hash⟩

/-- The flows that wait for a decision on the user code. -/
def DeviceStore.waiting (s : DeviceStore ι) (userCode : String) (hash : Sha256) : Bool :=
  (s.acc.deviceFlows.get? hash).any (DeviceFlow.waits s.now userCode)

/-- One statement of the four functions. -/
inductive DeviceStep (env : Credentials) (calls : ι → DeviceCall) : Act ι (DeviceStore ι) DevicePc
  | starts {i s deviceCode userCode ttlSecs acc'}
      (hcall : calls i = .start deviceCode userCode ttlSecs)
      (h : exec (startDeviceFlow env s.now deviceCode userCode ttlSecs) s.acc = (.ok (), acc')) :
      DeviceStep env calls i s .begun
        (s.change i acc' (fun hash => hash = env.tokenHash deviceCode)
          (.started userCode (s.now + toTimestamp ttlSecs))) .started
  | notStarted {i s deviceCode userCode ttlSecs e acc'}
      (hcall : calls i = .start deviceCode userCode ttlSecs)
      (h : exec (startDeviceFlow env s.now deviceCode userCode ttlSecs) s.acc
        = (.error e, acc')) :
      DeviceStep env calls i s .begun { s with acc := acc' } (.failed e)
  | approves {i s userCode org approvedBy answer acc'}
      (hcall : calls i = .approve userCode org approvedBy)
      (h : exec (approveDeviceFlow s.now userCode org approvedBy : Effect Accounts SqlError Bool)
        s.acc = (.ok answer, acc')) :
      DeviceStep env calls i s .begun (s.change i acc' (s.waiting userCode) (.approved org))
        (.approved answer)
  /-- The organization or the approver is gone. -/
  | notApproved {i s userCode org approvedBy} (hcall : calls i = .approve userCode org approvedBy) :
      DeviceStep env calls i s .begun s (.failed .foreignKeyViolation)
  | denies {i s userCode acc'} (hcall : calls i = .deny userCode)
      (h : exec (denyDeviceFlow s.now userCode : Effect Accounts SqlError Unit) s.acc
        = (.ok (), acc')) :
      DeviceStep env calls i s .begun (s.change i acc' (s.waiting userCode) .denied) .denied
  | consumes {i s deviceCode org acc'} (hcall : calls i = .poll deviceCode)
      (h : exec (consumeDeviceFlow s.now (env.tokenHash deviceCode) :
        Effect Accounts SqlError (Option (Option Uuid))) s.acc = (.ok (some (some org)), acc')) :
      DeviceStep env calls i s .begun
        (s.change i acc' (fun hash => hash = env.tokenHash deviceCode) (.answered org))
        (.polled (.approved org))
  | consumesNull {i s deviceCode acc'} (hcall : calls i = .poll deviceCode)
      (h : exec (consumeDeviceFlow s.now (env.tokenHash deviceCode) :
        Effect Accounts SqlError (Option (Option Uuid))) s.acc = (.ok (some none), acc')) :
      DeviceStep env calls i s .begun { s with acc := acc' } (.failed .unexpectedNull)
  | misses {i s deviceCode acc'} (hcall : calls i = .poll deviceCode)
      (h : exec (consumeDeviceFlow s.now (env.tokenHash deviceCode) :
        Effect Accounts SqlError (Option (Option Uuid))) s.acc = (.ok none, acc')) :
      DeviceStep env calls i s .begun { s with acc := acc' } .reporting
  | reports {i s deviceCode} (hcall : calls i = .poll deviceCode) :
      DeviceStep env calls i s .reporting s
        (.polled (s.acc.deviceFlowState s.now (env.tokenHash deviceCode)))
  | passes {i s p t} (h : s.now ≤ t) : DeviceStep env calls i s p { s with now := t } p

/-- Every call about to begin. -/
def devicesFrom (acc : Accounts) (now : Timestamp) : Config ι (DeviceStore ι) DevicePc :=
  ⟨⟨acc, now, fun _ => []⟩, fun _ => .begun⟩

/-- No two flows are given device codes of one digest. -/
def DistinctCodes (env : Credentials) (calls : ι → DeviceCall) : Prop :=
  ∀ i j deviceCode userCode ttlSecs deviceCode' userCode' ttlSecs', i ≠ j →
    calls i = .start deviceCode userCode ttlSecs →
    calls j = .start deviceCode' userCode' ttlSecs' →
    env.tokenHash deviceCode ≠ env.tokenHash deviceCode'

/-! ## What is claimed -/

/-- A flow was started by `starter`, approved for `org` by `approver` while it waited, and then
answered to `poller`, all of it before it expired, and nothing else happened to it. -/
structure ApprovedFlow (env : Credentials) (calls : ι → DeviceCall) (hash : Sha256) (org : Uuid)
    (starter approver poller : ι) (history : List (FlowEntry ι)) where
  deviceCode : String
  userCode : String
  ttlSecs : ℤ
  approvedBy : Option Uuid
  startedAt : Timestamp
  approvedAt : Timestamp
  answeredAt : Timestamp
  starts : calls starter = .start deviceCode userCode ttlSecs
  tokenHash : env.tokenHash deviceCode = hash
  approves : calls approver = .approve userCode org approvedBy
  approvedInTime : approvedAt < startedAt + toTimestamp ttlSecs
  answeredInTime : answeredAt < startedAt + toTimestamp ttlSecs
  history_eq : history = [⟨starter, .started userCode (startedAt + toTimestamp ttlSecs), startedAt⟩,
    ⟨approver, .approved org, approvedAt⟩, ⟨poller, .answered org, answeredAt⟩]

/-- A device code is answered once at most, to the organization of the approval that returned
`true`, and not at all once it is denied. -/
structure SingleUse (env : Credentials) (calls : ι → DeviceCall)
    (c : Config ι (DeviceStore ι) DevicePc) : Prop where
  once : ∀ i j deviceCode deviceCode' org org', calls i = .poll deviceCode →
    calls j = .poll deviceCode' → env.tokenHash deviceCode = env.tokenHash deviceCode' →
    c.pc i = .polled (.approved org) → c.pc j = .polled (.approved org') → i = j
  approved : ∀ i deviceCode org, calls i = .poll deviceCode →
    c.pc i = .polled (.approved org) → ∃ starter approver, c.pc approver = .approved true ∧
      Nonempty (ApprovedFlow env calls (env.tokenHash deviceCode) org starter approver i
        (c.shared.history (env.tokenHash deviceCode)))
  denied : ∀ i deviceCode org, calls i = .poll deviceCode →
    (∃ x ∈ c.shared.history (env.tokenHash deviceCode), x.change = .denied) →
    c.pc i ≠ .polled (.approved org)

end Steps

/-! ## The life of a flow -/

section Lifecycle

variable {ι : Type}

/-- What the row of a flow and its history can be. -/
inductive Lifecycle (env : Credentials) (calls : ι → DeviceCall) (hash : Sha256) :
    Option DeviceFlow → List (FlowEntry ι) → Prop
  | unused : Lifecycle env calls hash none []
  | pending {k deviceCode userCode ttlSecs t}
      (hstart : calls k = .start deviceCode userCode ttlSecs)
      (hhash : env.tokenHash deviceCode = hash) :
      Lifecycle env calls hash (some ⟨userCode, .pending, none, none, t + toTimestamp ttlSecs⟩)
        [⟨k, .started userCode (t + toTimestamp ttlSecs), t⟩]
  | denied {d x j t} (hdenied : d.status = .denied)
      (hstarted : ∃ userCode expiresAt, x.change = .started userCode expiresAt) :
      Lifecycle env calls hash (some d) [x, ⟨j, .denied, t⟩]
  | approved {k deviceCode userCode ttlSecs t a org approvedBy t'}
      (hstart : calls k = .start deviceCode userCode ttlSecs)
      (hhash : env.tokenHash deviceCode = hash) (happrove : calls a = .approve userCode org approvedBy)
      (htime : t' < t + toTimestamp ttlSecs) :
      Lifecycle env calls hash
        (some ⟨userCode, .approved, some org, approvedBy, t + toTimestamp ttlSecs⟩)
        [⟨k, .started userCode (t + toTimestamp ttlSecs), t⟩, ⟨a, .approved org, t'⟩]
  | answered {k a i org history} (h : Nonempty (ApprovedFlow env calls hash org k a i history)) :
      Lifecycle env calls hash none history

namespace Lifecycle

variable {env : Credentials} {calls : ι → DeviceCall} {hash : Sha256} {row : Option DeviceFlow}
  {history : List (FlowEntry ι)} {now : Timestamp} {i : ι} {userCode : String}

/-- A flow that has a row has a history. -/
theorem ne_nil (h : Lifecycle env calls hash row history) (hrow : row.isSome) : history ≠ [] := by
  cases h with
  | unused => exact absurd hrow nofun
  | answered => exact absurd hrow nofun
  | pending => exact List.cons_ne_nil _ _
  | denied => exact List.cons_ne_nil _ _
  | approved => exact List.cons_ne_nil _ _

/-- A flow that is denied or approved waits for no decision. -/
theorem not_waits {d : DeviceFlow} (h : d.status ≠ .pending) :
    DeviceFlow.waits now userCode d = false := decide_eq_false fun hwaits => h hwaits.2.1

/-- An approval moves a waiting flow on, and is recorded. -/
theorem approves (h : Lifecycle env calls hash row history) {org : Uuid} {approvedBy : Option Uuid}
    (hcall : calls i = .approve userCode org approvedBy) :
    Lifecycle env calls hash
      (row.map fun d => if d.waits now userCode then
        { d with status := .approved, orgId := some org, approvedBy } else d)
      (if row.any (DeviceFlow.waits now userCode) then history ++ [⟨i, .approved org, now⟩]
        else history) := by
  cases h with
  | unused => exact .unused
  | answered h => exact .answered h
  | @pending k deviceCode userCode' ttlSecs t hstart hhash =>
    rw [Option.map_some, Option.any_some]
    by_cases hwaits : DeviceFlow.waits now userCode
        ⟨userCode', .pending, none, none, t + toTimestamp ttlSecs⟩ = true
    · rw [if_pos hwaits, if_pos hwaits]
      obtain ⟨rfl, -, htime⟩ := of_decide_eq_true hwaits
      exact .approved hstart hhash hcall htime
    · rw [if_neg hwaits, if_neg hwaits]
      exact .pending hstart hhash
  | denied hdenied hstarted =>
    rw [Option.map_some, Option.any_some, not_waits (by rw [hdenied]; exact nofun)]
    exact .denied hdenied hstarted
  | approved hstart hhash happrove htime =>
    rw [Option.map_some, Option.any_some, not_waits (d := ⟨_, .approved, _, _, _⟩) nofun]
    exact .approved hstart hhash happrove htime

/-- A denial moves a waiting flow on, and is recorded. -/
theorem denies (h : Lifecycle env calls hash row history) (i : ι) (userCode : String) :
    Lifecycle env calls hash
      (row.map fun d => if d.waits now userCode then { d with status := .denied } else d)
      (if row.any (DeviceFlow.waits now userCode) then history ++ [⟨i, .denied, now⟩]
        else history) := by
  cases h with
  | unused => exact .unused
  | answered h => exact .answered h
  | @pending k deviceCode userCode' ttlSecs t hstart hhash =>
    rw [Option.map_some, Option.any_some]
    split_ifs with hwaits
    · exact .denied rfl ⟨_, _, rfl⟩
    · exact .pending hstart hhash
  | denied hdenied hstarted =>
    rw [Option.map_some, Option.any_some, not_waits (by rw [hdenied]; exact nofun)]
    exact .denied hdenied hstarted
  | approved hstart hhash happrove htime =>
    rw [Option.map_some, Option.any_some, not_waits (d := ⟨_, .approved, _, _, _⟩) nofun]
    exact .approved hstart hhash happrove htime

/-- An approved flow that is answered before it expires. -/
theorem answers {d : DeviceFlow} (h : Lifecycle env calls hash (some d) history)
    (hstatus : d.status = .approved) (hfresh : now < d.expiresAt) (i : ι) :
    ∃ org, d.orgId = some org ∧
      Lifecycle env calls hash none (history ++ [⟨i, .answered org, now⟩]) := by
  cases h with
  | pending => exact absurd hstatus nofun
  | denied hdenied => exact absurd (hdenied.symm.trans hstatus) nofun
  | approved hstart hhash happrove htime =>
    exact ⟨_, rfl, .answered ⟨⟨_, _, _, _, _, _, _, hstart, hhash, happrove, htime, hfresh, rfl⟩⟩⟩

end Lifecycle

end Lifecycle

/-! ## The statements -/

/-- A flow that starts is new and pending. -/
theorem startDeviceFlow_ok {env : Credentials} {now : Timestamp} {deviceCode userCode : String}
    {ttlSecs : ℤ} {acc acc' : Accounts}
    (h : exec (startDeviceFlow env now deviceCode userCode ttlSecs) acc = (.ok (), acc')) :
    acc.deviceFlows.get? (env.tokenHash deviceCode) = none ∧
      ∀ hash, acc'.deviceFlows.get? hash = if hash = env.tokenHash deviceCode then
        some ⟨userCode, .pending, none, none, now + toTimestamp ttlSecs⟩
        else acc.deviceFlows.get? hash := by
  unfold startDeviceFlow at h
  simp only [exec_bind, exec_get, andThen] at h
  by_cases hused : (acc.deviceFlows.get? (env.tokenHash deviceCode)).isSome = true
  · rw [if_pos hused] at h
    cases congrArg Prod.fst h
  rw [if_neg hused] at h
  by_cases hcode : (acc.deviceFlows.rows.any fun r => decide (r.2.userCode = userCode)) = true
  · rw [if_pos hcode] at h
    cases congrArg Prod.fst h
  rw [if_neg hcode] at h
  obtain rfl : _ = acc' := congrArg Prod.snd h
  have hfree := Option.not_isSome_iff_eq_none.1 hused
  refine ⟨hfree, fun hash => ?_⟩
  show (acc.deviceFlows.insertNew _ _).get? hash = _
  rw [Table.get?_insertNew, hfree]
  rfl

/-- A flow that is refused leaves the accounts. -/
theorem startDeviceFlow_error {env : Credentials} {now : Timestamp} {deviceCode userCode : String}
    {ttlSecs : ℤ} {e : SqlError} {acc acc' : Accounts}
    (h : exec (startDeviceFlow env now deviceCode userCode ttlSecs) acc = (.error e, acc')) :
    acc' = acc := by
  unfold startDeviceFlow at h
  simp only [exec_bind, exec_get, andThen] at h
  by_cases hused : (acc.deviceFlows.get? (env.tokenHash deviceCode)).isSome = true
  · rw [if_pos hused] at h
    exact (congrArg Prod.snd h).symm
  rw [if_neg hused] at h
  by_cases hcode : (acc.deviceFlows.rows.any fun r => decide (r.2.userCode = userCode)) = true
  · rw [if_pos hcode] at h
    exact (congrArg Prod.snd h).symm
  · rw [if_neg hcode] at h
    cases congrArg Prod.fst h

/-- What a decision does to the row of each flow, and what it answers. -/
theorem decideDeviceFlow_ok {now : Timestamp} {userCode : String} {f : DeviceFlow → DeviceFlow}
    {answer : Bool} {acc acc' : Accounts}
    (h : exec (decideDeviceFlow now userCode f : Effect Accounts SqlError Bool) acc
      = (.ok answer, acc')) :
    (answer = acc.deviceFlows.rows.any fun r => r.2.waits now userCode) ∧
      ∀ hash, acc'.deviceFlows.get? hash = (acc.deviceFlows.get? hash).map
        fun d => if d.waits now userCode then f d else d := by
  obtain rfl : _ = acc' := congrArg Prod.snd h
  exact ⟨(Except.ok.inj (congrArg Prod.fst h)).symm, fun hash => Table.get?_update _ _ hash⟩

/-- A denial reaches the waiting flows of its code. -/
theorem denyDeviceFlow_ok {now : Timestamp} {userCode : String} {acc acc' : Accounts}
    (h : exec (denyDeviceFlow now userCode : Effect Accounts SqlError Unit) acc = (.ok (), acc'))
    (hash : Sha256) : acc'.deviceFlows.get? hash = (acc.deviceFlows.get? hash).map
      fun d => if d.waits now userCode then { d with status := .denied } else d := by
  obtain rfl : _ = acc' := congrArg Prod.snd h
  exact Table.get?_update _ _ hash

/-- What a poll deletes is an approved flow that is fresh. -/
theorem consumeDeviceFlow_some {now : Timestamp} {key : Sha256} {org : Option Uuid}
    {acc acc' : Accounts}
    (h : exec (consumeDeviceFlow now key : Effect Accounts SqlError (Option (Option Uuid))) acc
      = (.ok (some org), acc')) :
    (∃ d, acc.deviceFlows.get? key = some d ∧ d.status = .approved ∧ now < d.expiresAt ∧
        d.orgId = org) ∧
      ∀ hash, acc'.deviceFlows.get? hash = if hash = key then none
        else acc.deviceFlows.get? hash := by
  unfold consumeDeviceFlow at h
  simp only [exec_bind, exec_get, andThen] at h
  cases hrow : (acc.deviceFlows.get? key).filter
      fun d => decide (d.status = .approved ∧ now < d.expiresAt) with
  | none =>
    rw [hrow] at h
    cases Except.ok.inj (congrArg Prod.fst h)
  | some d =>
    rw [hrow] at h
    obtain rfl : _ = acc' := congrArg Prod.snd h
    obtain ⟨hget, hready⟩ := Option.filter_eq_some_iff.1 hrow
    obtain ⟨hstatus, hfresh⟩ := of_decide_eq_true hready
    refine ⟨⟨d, hget, hstatus, hfresh, Option.some.inj (Except.ok.inj (congrArg Prod.fst h))⟩,
      fun hash => ?_⟩
    show (acc.deviceFlows.delete _).get? hash = _
    rw [Table.get?_delete]
    split_ifs with hsame
    · cases acc.deviceFlows.get? hash <;> simp [hsame]
    · cases acc.deviceFlows.get? hash <;> simp [hsame]

theorem consumeDeviceFlow_none {now : Timestamp} {key : Sha256} {acc acc' : Accounts}
    (h : exec (consumeDeviceFlow now key : Effect Accounts SqlError (Option (Option Uuid))) acc
      = (.ok none, acc')) : acc' = acc := by
  unfold consumeDeviceFlow at h
  simp only [exec_bind, exec_get, andThen] at h
  cases hrow : (acc.deviceFlows.get? key).filter
      fun d => decide (d.status = .approved ∧ now < d.expiresAt) with
  | none =>
    rw [hrow] at h
    exact (congrArg Prod.snd h).symm
  | some d =>
    rw [hrow] at h
    cases Except.ok.inj (congrArg Prod.fst h)

/-- The second statement of a poll never reports an approval. -/
theorem deviceFlowState_ne_approved (acc : Accounts) (now : Timestamp) (hash : Sha256)
    (org : Uuid) : acc.deviceFlowState now hash ≠ .approved org := by
  unfold Accounts.deviceFlowState
  split
  · exact nofun
  · split_ifs <;> exact nofun

/-! ## The outline -/

section Outline

variable {ι : Type} {env : Credentials} {calls : ι → DeviceCall} {i : ι} {s s' : DeviceStore ι}
  {p p' : DevicePc}

/-- Every flow is somewhere in its life. -/
def DeviceInv (env : Credentials) (calls : ι → DeviceCall) (s : DeviceStore ι) : Prop :=
  ∀ hash, Lifecycle env calls hash (s.acc.deviceFlows.get? hash) (s.history hash)

/-- What holds of a call where it stands. -/
structure DeviceAt (env : Credentials) (calls : ι → DeviceCall) (i : ι) (s : DeviceStore ι)
    (p : DevicePc) : Prop where
  unused : p = .begun → ∀ deviceCode userCode ttlSecs, calls i = .start deviceCode userCode ttlSecs →
    s.history (env.tokenHash deviceCode) = []
  approved : ∀ hash org t, ⟨i, .approved org, t⟩ ∈ s.history hash → p = .approved true
  answered : ∀ org, p = .polled (.approved org) → ∃ deviceCode t, calls i = .poll deviceCode ∧
    ⟨i, .answered org, t⟩ ∈ s.history (env.tokenHash deviceCode)

/-- A step records one change on the flows it selects. -/
theorem mem_change {acc : Accounts} {sel : Sha256 → Bool} {change : FlowChange} {hash : Sha256}
    {x : FlowEntry ι} (h : x ∈ (s.change i acc sel change).history hash) :
    x ∈ s.history hash ∨ sel hash = true ∧ x = ⟨i, change, s.now⟩ := by
  change x ∈ (if sel hash then _ else _) at h
  split_ifs at h with hsel
  · exact (List.mem_append.1 h).imp_right fun hlast => ⟨hsel, List.mem_singleton.1 hlast⟩
  · exact .inl h

/-- A step writes at most one entry, its own, into the history of a flow: of one that has a row,
or of the one that it starts. -/
theorem DeviceStep.frame (h : DeviceStep env calls i s p s' p') (hash : Sha256) :
    s'.history hash = s.history hash ∨
      (∃ change, s'.history hash = s.history hash ++ [⟨i, change, s.now⟩]) ∧
        ((s.acc.deviceFlows.get? hash).isSome ∨ ∃ deviceCode userCode ttlSecs,
          calls i = .start deviceCode userCode ttlSecs ∧ env.tokenHash deviceCode = hash) := by
  have hchange : ∀ {s : DeviceStore ι} {acc' : Accounts} {sel : Sha256 → Bool}
      {change : FlowChange}, (s.change i acc' sel change).history hash = s.history hash ∨
        sel hash = true ∧ (s.change i acc' sel change).history hash
          = s.history hash ++ [⟨i, change, s.now⟩] := by
    intro s acc' sel change
    by_cases hsel : sel hash = true
    · exact .inr ⟨hsel, if_pos hsel⟩
    · exact .inl (if_neg hsel)
  have hwaiting : ∀ {s : DeviceStore ι} {userCode}, s.waiting userCode hash = true →
      (s.acc.deviceFlows.get? hash).isSome := by
    intro s userCode hsel
    obtain ⟨d, hd, -⟩ := (Option.any_eq_true _ _).1 hsel
    rw [hd]
    rfl
  cases h with
  | starts hcall =>
    exact hchange.imp_right fun h =>
      ⟨⟨_, h.2⟩, .inr ⟨_, _, _, hcall, (of_decide_eq_true h.1).symm⟩⟩
  | approves => exact hchange.imp_right fun h => ⟨⟨_, h.2⟩, .inl (hwaiting h.1)⟩
  | denies => exact hchange.imp_right fun h => ⟨⟨_, h.2⟩, .inl (hwaiting h.1)⟩
  | consumes _ h =>
    obtain ⟨⟨d, hd, -⟩, -⟩ := consumeDeviceFlow_some h
    refine hchange.imp_right fun h => ⟨⟨_, h.2⟩, .inl ?_⟩
    rw [of_decide_eq_true h.1, hd]
    rfl
  | _ => exact .inl rfl

/-- What a call holds of itself survives the steps of the others. -/
theorem DeviceAt.frame {j : ι} {q : DevicePc} (hcodes : DistinctCodes env calls) (hij : i ≠ j)
    (hstep : DeviceStep env calls i s p s' p') (hinv : DeviceInv env calls s)
    (h : DeviceAt env calls j s q) : DeviceAt env calls j s' q := by
  refine ⟨fun hq deviceCode userCode ttlSecs hcall => ?_, fun hash org t hmem => ?_,
    fun org hq => ?_⟩
  · have hnil := h.unused hq deviceCode userCode ttlSecs hcall
    rcases hstep.frame (env.tokenHash deviceCode) with hsame | ⟨-, hrow | hstart⟩
    · exact hsame.trans hnil
    · exact absurd hnil ((hinv _).ne_nil hrow)
    · obtain ⟨deviceCode', userCode', ttlSecs', hcall', hhash⟩ := hstart
      exact absurd hhash (hcodes i j _ _ _ _ _ _ hij hcall' hcall)
  · rcases hstep.frame hash with hsame | ⟨⟨change, hnew⟩, -⟩
    · rw [hsame] at hmem
      exact h.approved hash org t hmem
    · rw [hnew] at hmem
      rcases List.mem_append.1 hmem with hold | hlast
      · exact h.approved hash org t hold
      · have hagent := congrArg FlowEntry.agent (List.mem_singleton.1 hlast)
        exact absurd hagent.symm hij
  · obtain ⟨deviceCode, t, hcall, hmem⟩ := h.answered org hq
    refine ⟨deviceCode, t, hcall, ?_⟩
    rcases hstep.frame (env.tokenHash deviceCode) with hsame | ⟨⟨change, hnew⟩, -⟩
    · rwa [hsame]
    · rw [hnew]
      exact List.mem_append_left _ hmem

/-- A call that approves nothing and answers no poll may go on. -/
theorem DeviceAt.goes (hat : DeviceAt env calls i s .begun) (hp : p' ≠ .begun)
    (hanswer : ∀ org, p' ≠ .polled (.approved org))
    (hentries : ∀ hash org t, ⟨i, .approved org, t⟩ ∈ s'.history hash →
      ⟨i, .approved org, t⟩ ∈ s.history hash) : DeviceAt env calls i s' p' where
  unused := fun h => absurd h hp
  approved := fun hash org t hmem =>
    absurd (hat.approved hash org t (hentries hash org t hmem)) nofun
  answered := fun org h => absurd h (hanswer org)

/-- A step of a call keeps the lifecycles, and stands where it should. -/
theorem DeviceStep.sound (h : DeviceStep env calls i s p s' p') (hinv : DeviceInv env calls s)
    (hat : DeviceAt env calls i s p) : DeviceInv env calls s' ∧ DeviceAt env calls i s' p' := by
  cases h with
  | @starts i s deviceCode userCode ttlSecs acc' hcall h =>
    obtain ⟨hfree, hrows⟩ := startDeviceFlow_ok h
    refine ⟨fun hash => ?_, hat.goes nofun nofun fun hash org t hmem => ?_⟩
    · show Lifecycle env calls hash (acc'.deviceFlows.get? hash)
        (if decide (hash = env.tokenHash deviceCode) then _ else _)
      rw [hrows]
      by_cases hsame : hash = env.tokenHash deviceCode
      · rw [if_pos hsame, if_pos (decide_eq_true hsame), hsame,
          hat.unused rfl deviceCode userCode ttlSecs hcall]
        exact .pending hcall rfl
      · rw [if_neg hsame, if_neg (by simpa using hsame)]
        exact hinv hash
    · refine (mem_change hmem).resolve_right fun hlast => ?_
      exact absurd (congrArg FlowEntry.change hlast.2) nofun
  | notStarted hcall h =>
    obtain rfl := startDeviceFlow_error h
    exact ⟨hinv, hat.goes nofun nofun fun _ _ _ hmem => hmem⟩
  | @approves i s userCode org approvedBy answer acc' hcall h =>
    obtain ⟨hanswer, hrows⟩ := decideDeviceFlow_ok h
    refine ⟨fun hash => ?_, nofun, fun hash org' t hmem => ?_, nofun⟩
    · show Lifecycle env calls hash (acc'.deviceFlows.get? hash) _
      rw [hrows]
      exact (hinv hash).approves hcall
    · rcases mem_change hmem with hold | ⟨hwaiting, -⟩
      · exact absurd (hat.approved hash org' t hold) nofun
      · -- the flow that waited is one of those the answer is about
        obtain ⟨d, hd, hwaits⟩ := (Option.any_eq_true _ _).1 hwaiting
        have hrow := (s.acc.deviceFlows.mem_rows_iff hash d).2 hd
        rw [hanswer, List.any_eq_true.2 ⟨_, hrow, hwaits⟩]
  | notApproved => exact ⟨hinv, hat.goes nofun nofun fun _ _ _ hmem => hmem⟩
  | @denies i s userCode acc' hcall h =>
    refine ⟨fun hash => ?_, hat.goes nofun nofun fun hash org t hmem => ?_⟩
    · show Lifecycle env calls hash (acc'.deviceFlows.get? hash) _
      rw [denyDeviceFlow_ok h]
      exact (hinv hash).denies i userCode
    · refine (mem_change hmem).resolve_right fun hlast => ?_
      exact absurd (congrArg FlowEntry.change hlast.2) nofun
  | @consumes i s deviceCode org acc' hcall h =>
    obtain ⟨⟨d, hd, hstatus, hfresh, horg⟩, hrows⟩ := consumeDeviceFlow_some h
    refine ⟨fun hash => ?_, nofun, fun hash org' t hmem => ?_, fun org' hp => ?_⟩
    · show Lifecycle env calls hash (acc'.deviceFlows.get? hash)
        (if decide (hash = env.tokenHash deviceCode) then _ else _)
      rw [hrows]
      by_cases hsame : hash = env.tokenHash deviceCode
      · rw [if_pos hsame, if_pos (decide_eq_true hsame), hsame]
        have hlife := hinv (env.tokenHash deviceCode)
        rw [hd] at hlife
        obtain ⟨org', horg', hanswered⟩ := hlife.answers hstatus hfresh i
        obtain rfl := Option.some.inj (horg.symm.trans horg')
        exact hanswered
      · rw [if_neg hsame, if_neg (by simpa using hsame)]
        exact hinv hash
    · rcases mem_change hmem with hold | ⟨-, hlast⟩
      · exact absurd (hat.approved hash org' t hold) nofun
      · exact absurd (congrArg FlowEntry.change hlast) nofun
    · obtain rfl := DeviceFlowPoll.approved.inj (DevicePc.polled.inj hp)
      refine ⟨deviceCode, s.now, hcall, ?_⟩
      show _ ∈ (if decide (env.tokenHash deviceCode = env.tokenHash deviceCode) then _ else _)
      rw [if_pos (decide_eq_true rfl)]
      exact List.mem_append_right _ (List.mem_singleton_self _)
  | @consumesNull i s deviceCode acc' hcall h =>
    -- an approved flow has an organization
    obtain ⟨⟨d, hd, hstatus, hfresh, horg⟩, -⟩ := consumeDeviceFlow_some h
    have hlife := hinv (env.tokenHash deviceCode)
    rw [hd] at hlife
    obtain ⟨org', horg', -⟩ := hlife.answers hstatus hfresh i
    exact absurd (horg.symm.trans horg') nofun
  | misses hcall h =>
    obtain rfl := consumeDeviceFlow_none h
    exact ⟨hinv, hat.goes nofun nofun fun _ _ _ hmem => hmem⟩
  | reports =>
    refine ⟨hinv, nofun, fun hash org t hmem => ?_, fun org hp => ?_⟩
    · exact absurd (hat.approved hash org t hmem) nofun
    · exact absurd (DevicePc.polled.inj hp) (deviceFlowState_ne_approved _ _ _ _)
  | passes => exact ⟨hinv, hat.unused, hat.approved, hat.answered⟩

/-- The annotation is an outline of the steps, since the codes are distinct. -/
theorem device_outline {calls : ι → DeviceCall} (hcodes : DistinctCodes env calls) :
    Outline (DeviceStep env calls) (DeviceInv env calls) (DeviceAt env calls)
      fun _ _ _ _ => True where
  symm := id
  sound := DeviceStep.sound
  free := fun hij hstep hinv _ hj _ => hj.frame hcodes hij hstep hinv
  keeps := fun _ _ _ _ _ _ => trivial

/-- The annotation holds where no flow has started. -/
theorem devicesFrom_annotated (env : Credentials) (calls : ι → DeviceCall) {acc : Accounts}
    (hempty : ∀ hash, acc.deviceFlows.get? hash = none) (now : Timestamp) :
    Annotated (DeviceInv env calls) (DeviceAt env calls) (fun _ _ _ _ => True)
      (devicesFrom acc now) where
  inv := fun hash => by
    show Lifecycle env calls hash (acc.deviceFlows.get? hash) []
    rw [hempty]
    exact .unused
  at_ := fun _ => ⟨fun _ _ _ _ _ => rfl, fun _ _ _ h => absurd h List.not_mem_nil, nofun⟩
  apart := fun _ _ _ => trivial

/-- The whole history of a flow that has answered. -/
theorem Lifecycle.of_answered {hash : Sha256} {row : Option DeviceFlow}
    {history : List (FlowEntry ι)} (h : Lifecycle env calls hash row history) {org : Uuid}
    {t : Timestamp} (hmem : ⟨i, .answered org, t⟩ ∈ history) :
    ∃ k a, Nonempty (ApprovedFlow env calls hash org k a i history) := by
  cases h with
  | unused => exact absurd hmem List.not_mem_nil
  | pending =>
    exact absurd (congrArg FlowEntry.change (List.mem_singleton.1 hmem)) nofun
  | denied hdenied hstarted =>
    obtain ⟨userCode, expiresAt, hstarted⟩ := hstarted
    rcases List.mem_cons.1 hmem with hfirst | hlast
    · rw [← hfirst] at hstarted
      exact absurd hstarted nofun
    · exact absurd (congrArg FlowEntry.change (List.mem_singleton.1 hlast)) nofun
  | approved =>
    rcases List.mem_cons.1 hmem with hfirst | hlast
    · exact absurd (congrArg FlowEntry.change hfirst) nofun
    · exact absurd (congrArg FlowEntry.change (List.mem_singleton.1 hlast)) nofun
  | @answered k a j org' _ h =>
    have hflow := h
    obtain ⟨flow⟩ := h
    rw [flow.history_eq] at hmem
    rcases List.mem_cons.1 hmem with hfirst | hmem
    · exact absurd (congrArg FlowEntry.change hfirst) nofun
    rcases List.mem_cons.1 hmem with hsecond | hthird
    · exact absurd (congrArg FlowEntry.change hsecond) nofun
    · obtain ⟨rfl, hchange, -⟩ := FlowEntry.mk.inj (List.mem_singleton.1 hthird)
      obtain rfl := FlowChange.answered.inj hchange
      exact ⟨k, a, hflow⟩

/-- A flow that has answered was never denied, and has answered one call. -/
theorem ApprovedFlow.entries {hash : Sha256} {org : Uuid} {k a : ι} {history : List (FlowEntry ι)}
    (flow : ApprovedFlow env calls hash org k a i history) {x : FlowEntry ι} (hx : x ∈ history) :
    x.change ≠ .denied ∧ ∀ org', x.change = .answered org' → x.agent = i := by
  rw [flow.history_eq] at hx
  simp only [List.mem_cons, List.not_mem_nil, or_false] at hx
  rcases hx with rfl | rfl | rfl
  · exact ⟨nofun, nofun⟩
  · exact ⟨nofun, nofun⟩
  · exact ⟨nofun, fun _ _ => rfl⟩

/-- The history of an approved flow has its approval. -/
theorem ApprovedFlow.approval {hash : Sha256} {org : Uuid} {k a : ι}
    {history : List (FlowEntry ι)} (flow : ApprovedFlow env calls hash org k a i history) :
    ∃ t, ⟨a, .approved org, t⟩ ∈ history := by
  obtain ⟨-, -, -, -, -, approvedAt, -, -, -, -, -, -, rfl⟩ := flow
  exact ⟨approvedAt, List.mem_cons_of_mem _ List.mem_cons_self⟩

/-- **Device logins are single-use.**  However the calls interleave, a device code is answered
once at most, with the organization of the approval that returned `true` on its own user code
while the flow was pending and fresh, and before it expired; and never once it was denied. -/
theorem device_code_single_use [DecidableEq ι] {env : Credentials} {calls : ι → DeviceCall}
    (hcodes : DistinctCodes env calls) {acc : Accounts}
    (hempty : ∀ hash, acc.deviceFlows.get? hash = none) {now : Timestamp}
    {events : List (Event ι (DeviceStore ι))} {c : Config ι (DeviceStore ι) DevicePc}
    (hrun : Execution (DeviceStep env calls) (devicesFrom acc now) events c) :
    SingleUse env calls c := by
  have hall := (device_outline hcodes).holds (devicesFrom_annotated env calls hempty now) hrun
  have hflow : ∀ i deviceCode org, calls i = .poll deviceCode →
      c.pc i = .polled (.approved org) → ∃ k a, Nonempty (ApprovedFlow env calls
        (env.tokenHash deviceCode) org k a i (c.shared.history (env.tokenHash deviceCode))) := by
    intro i deviceCode org hcall hpc
    obtain ⟨deviceCode', t, hcall', hmem⟩ := (hall.at_ i).answered org hpc
    obtain rfl := DeviceCall.poll.inj (hcall.symm.trans hcall')
    exact (hall.inv _).of_answered hmem
  refine ⟨fun i j deviceCode deviceCode' org org' hi hj hsame hpc hpc' => ?_,
    fun i deviceCode org hcall hpc => ?_, fun i deviceCode org hcall hdenied hpc => ?_⟩
  · obtain ⟨k, a, ⟨flow⟩⟩ := hflow i deviceCode org hi hpc
    obtain ⟨deviceCode'', t, hj', hmem⟩ := (hall.at_ j).answered org' hpc'
    obtain rfl := DeviceCall.poll.inj (hj.symm.trans hj')
    rw [← hsame] at hmem
    exact ((flow.entries hmem).2 org' rfl).symm
  · obtain ⟨k, a, ⟨flow⟩⟩ := hflow i deviceCode org hcall hpc
    obtain ⟨t, hmem⟩ := flow.approval
    exact ⟨k, a, (hall.at_ a).approved _ org t hmem, ⟨flow⟩⟩
  · obtain ⟨k, a, ⟨flow⟩⟩ := hflow i deviceCode org hcall hpc
    obtain ⟨x, hx, hchange⟩ := hdenied
    exact (flow.entries hx).1 hchange

end Outline

namespace Terminals

/-- Nobody is signed in. -/
def blank : Accounts where
  users := ∅
  userTenants := ∅
  sessions := ∅
  passwordResets := ∅
  oidcConnections := ∅
  oidcFlows := ∅
  scimTokens := ∅
  deviceFlows := ∅

/-- A login that is approved, and polled twice. -/
def login : Fin 4 → DeviceCall
  | 0 => .start "scdv_1" "0A1B-2C3D" 600
  | 1 => .approve "0A1B-2C3D" 7 (some 1)
  | 2 => .poll "scdv_1"
  | 3 => .poll "scdv_1"

/-- The calls of the example use two device codes. -/
theorem login_distinct : DistinctCodes .plain login := by
  intro i j _ _ _ _ _ _ hij hi hj
  have honly : ∀ k : Fin 4, k ≠ 0 → ∀ d u ttl, login k ≠ .start d u ttl := by
    intro k hk d u ttl
    match k with
    | 0 => exact absurd rfl hk
    | 1 => exact nofun
    | 2 => exact nofun
    | 3 => exact nofun
  by_cases h : i = 0
  · exact absurd hj (honly j (fun hj => hij (h.trans hj.symm)) _ _ _)
  · exact absurd hi (honly i h _ _ _)

/-- The second poll of the code is told that it has expired. -/
theorem device_code_single_use_login : ∃ c : Config (Fin 4) (DeviceStore (Fin 4)) DevicePc,
    c.pc 2 = .polled (.approved 7) ∧ c.pc 3 = .polled .expired ∧ SingleUse .plain login c := by
  have h₀ : Execution (DeviceStep .plain login) (devicesFrom blank 0) [] _ := .start
  have h₁ := h₀.step (i := 0) (.starts rfl rfl)
  have h₂ := h₁.step (i := 1) (.approves rfl rfl)
  have h₃ := h₂.step (i := 2) (.consumes rfl rfl)
  have h₄ := h₃.step (i := 3) (.misses rfl rfl)
  have h₅ := h₄.step (i := 3) (.reports rfl)
  exact ⟨_, rfl, rfl, device_code_single_use login_distinct (fun _ => rfl) h₅⟩

end Terminals

end Sconce
