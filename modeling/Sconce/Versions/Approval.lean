/-
# What an approval approves

`approved_at` stands on the row, not on its bytes: a git sync that stores a version
again keeps the approval and replaces the dist.  An approved version therefore
serves the dist it had when it was last approved, or the one the last git sync of
it stored since (`manual_serves_approved`).
-/
import Sconce.Versions.Immutability

namespace Sconce

namespace VersionOp

/-- The row with which a step overwrites the one under `key`. -/
def overwrite (env : External) (key : VersionKey) (x : Catalog × VersionOp) :
    Option PackageVersion :=
  if x.2.overwrites then
    ((x.2.stores env x.1).filter fun r => r.1 = key).map (·.2)
  else none

/-- The dist under `key` after steps that overwrite it, if they do. -/
def distAfter (env : External) (key : VersionKey) (steps : List (Catalog × VersionOp))
    (dist : Option Sha256 × Option String) : Option Sha256 × Option String :=
  steps.foldl (fun d x => ((overwrite env key x).map (·.dist)).getD d) dist

/-- Step `op` of the run `pre ++ op :: post` approves the row under `key`, then
`approved`, and no later step approves it. -/
structure LastApproval (env : External) (db : Catalog) (key : VersionKey) (pre : List VersionOp)
    (op : VersionOp) (post : List VersionOp) (approved : PackageVersion) : Prop where
  stored : (Run.final (run env) db pre).packageVersions.get? key = some approved
  approves : op.approves (Run.final (run env) db pre) key approved = true
  last : ∀ x ∈ Run.trace (run env) (Run.final (run env) db (pre ++ [op])) post, ∀ pv,
    x.1.packageVersions.get? key = some pv → x.2.approves x.1 key pv = false

variable {env : External} {db : Catalog} {key : VersionKey}

/-- An operation that stores a row over another overwrites with it. -/
theorem overwrite_eq_some {x : Catalog × VersionOp} {row : PackageVersion}
    (hstores : x.2.stores env x.1 = some (key, row)) (hover : x.2.overwrites = true) :
    overwrite env key x = some row := by
  unfold overwrite
  rw [if_pos hover, hstores, Option.filter_some, if_pos (decide_eq_true rfl), Option.map_some]

theorem overwrite_eq_none {x : Catalog × VersionOp}
    (hnot : x.2.overwrites = true → ∀ row, x.2.stores env x.1 ≠ some (key, row)) :
    overwrite env key x = none := by
  unfold overwrite
  split_ifs with hover
  · rw [Option.map_eq_none_iff, Option.filter_eq_none_iff]
    rintro ⟨k, row⟩ hstores hk
    have hkey : k = key := of_decide_eq_true hk
    rw [hkey] at hstores
    exact hnot hover row hstores
  · rfl

/-- An operation that overwrites approves nothing. -/
theorem approves_of_overwrites {op : VersionOp} (h : op.overwrites = true) (db : Catalog)
    (pv : PackageVersion) : op.approves db key pv = false := by
  cases op with
  | gitPath sync tag sourcePath => rfl
  | _ => exact absurd h nofun

/-- The last approval stays the last over a step that does not approve. -/
theorem LastApproval.snoc {pre post : List VersionOp} {op : VersionOp} {approved : PackageVersion}
    (h : LastApproval env db key pre op post approved) {next : VersionOp}
    (hnext : ∀ pv, (Run.final (run env) db (pre ++ op :: post)).packageVersions.get? key = some pv →
      next.approves (Run.final (run env) db (pre ++ op :: post)) key pv = false) :
    LastApproval env db key pre op (post ++ [next]) approved where
  stored := h.stored
  approves := h.approves
  last := by
    intro x hx pv hpv
    rw [Run.trace_append, List.mem_append] at hx
    rcases hx with hx | hx
    · exact h.last x hx pv hpv
    · rw [← Run.final_append, List.append_assoc, List.singleton_append] at hx
      obtain rfl := List.mem_singleton.1 hx
      exact hnext pv hpv

/-- The row under `key` was approved in the run and serves the dist it had at its last
approval, or the one the last git pass over it stored since. -/
def ServesApproved (env : External) (db : Catalog) (key : VersionKey) (ops : List VersionOp)
    (row : PackageVersion) : Prop :=
  ∃ pre op post approved, ops = pre ++ op :: post ∧
    LastApproval env db key pre op post approved ∧
    row.dist = distAfter env key
      (Run.trace (run env) (Run.final (run env) db (pre ++ [op])) post) approved.dist

/-- A step that does not approve the row carries its approval along. -/
theorem ServesApproved.snoc {ops : List VersionOp} {old new : PackageVersion}
    (h : ServesApproved env db key ops old) {next : VersionOp}
    (hold : (Run.final (run env) db ops).packageVersions.get? key = some old)
    (hnext : next.approves (Run.final (run env) db ops) key old = false)
    (hdist : new.dist
      = ((overwrite env key (Run.final (run env) db ops, next)).map (·.dist)).getD old.dist) :
    ServesApproved env db key (ops ++ [next]) new := by
  obtain ⟨pre, op, post, approved, rfl, hlast, hserves⟩ := h
  refine ⟨pre, op, post ++ [next], approved, ?_, hlast.snoc ?_, ?_⟩
  · rw [List.append_assoc, List.cons_append]
  · intro pv hpv
    rw [hold, Option.some.injEq] at hpv
    rw [← hpv]
    exact hnext
  · have hstate : Run.final (run env) db (pre ++ op :: post)
        = Run.final (run env) (Run.final (run env) db (pre ++ [op])) post := by
      rw [← Run.final_append, List.append_assoc, List.singleton_append]
    rw [hdist, hserves, hstate, Run.trace_append]
    unfold distAfter
    rw [List.foldl_append]
    rfl

/-- Every approved row of a run serves what its last approval approved. -/
theorem servesApproved_of_isSome
    (hfresh : ∀ k pv, db.packageVersions.get? k = some pv → pv.approvedAt = none)
    (ops : List VersionOp) : ∀ row,
      (Run.final (run env) db ops).packageVersions.get? key = some row →
        row.approvedAt.isSome → ServesApproved env db key ops row := by
  induction ops using List.reverseRecOn with
  | nil =>
    intro row hrow happroved
    rw [hfresh key row hrow] at happroved
    exact absurd happroved Bool.false_ne_true
  | append_singleton ops next ih =>
    intro new hnew happroved
    rw [Run.final_append, Run.final_cons, Run.final_nil] at hnew
    have hfate := fate env (Run.final (run env) db ops) next key
    rw [hnew] at hfate
    cases hold : (Run.final (run env) db ops).packageVersions.get? key with
    | none =>
      rw [hold] at hfate
      cases hfate with
      | inserted _ _ hnone =>
        rw [hnone] at happroved
        exact absurd happroved Bool.false_ne_true
    | some old =>
      rw [hold] at hfate
      cases hfate with
      | overwritten stored _ hstores hover =>
        -- the approval stays, the dist is the one the git pass brings
        refine (ih old hold happroved).snoc hold (approves_of_overwrites hover _ old) ?_
        rw [overwrite_eq_some hstores hover]
        rfl
      | kept _ _ hnot hdist hdecided =>
        cases happroves : next.approves (Run.final (run env) db ops) key old with
        | true =>
          refine ⟨ops, next, [], old, rfl, ⟨hold, happroves, ?_⟩, hdist⟩
          intro x hx
          exact absurd hx List.not_mem_nil
        | false =>
          rw [if_neg (by rw [happroves]; exact Bool.false_ne_true)] at hdecided
          rw [hdecided] at happroved
          refine (ih old hold happroved).snoc hold happroves ?_
          rw [overwrite_eq_none hnot]
          exact hdist

/-- **An approval is bound to the row, up to git syncs.**  In every run from a catalog
without approved versions, a version the policy gate admits under `manual` was
approved in the run, and serves the dist it had at its last approval, or the one the
last git pass over it stored since. -/
theorem manual_serves_approved (ses : Session) (now : Timestamp) (cooldownDays : ℤ)
    (hfresh : ∀ k pv, db.packageVersions.get? k = some pv → pv.approvedAt = none)
    (ops : List VersionOp) (row : PackageVersion)
    (hrow : (Run.final (run env) db ops).packageVersions.get? key = some row)
    (hgate : policyGate ses now .manual cooldownDays row = true) :
    ServesApproved env db key ops row := by
  apply servesApproved_of_isSome hfresh ops row hrow
  unfold policyGate at hgate
  simp only [Bool.and_eq_true, Bool.or_eq_true, decide_eq_true_eq] at hgate
  rcases hgate.2 with (hauto | happroved) | ⟨hdelayed, -⟩
  · exact absurd hauto nofun
  · exact happroved
  · exact absurd hdelayed nofun

end VersionOp

/-! ## A tag moved after its approval -/

namespace Acme

/-- The tag is mirrored, approved, moved, and mirrored again. -/
def movedTag : List VersionOp :=
  [.gitPath agreed "1.0.0" "", .approveVersion 2 1 "acme/tools" "1.0.0.0",
    .gitPath tagged "1.0.0" ""]

/-- The row the moved tag leaves, approved at 2. -/
def movedRow : PackageVersion :=
  { tagged.versionRow external "1.0.0" ⟨"1.0.0.0", "stable"⟩
      ⟨"acme/tools", .object [("name", .string "acme/tools")], [2], taggedDigest⟩ with
    approvedAt := some 2 }

/-- The moved tag is stored with its own bytes. -/
theorem movedTag_row :
    (Run.final (VersionOp.run external) opened movedTag).packageVersions.get?
      ⟨8, "1.0.0.0"⟩ = some movedRow := rfl

/-- The moved tag is served by the approval of the row it replaced. -/
theorem manual_serves_approved_movedTag :
    VersionOp.ServesApproved external opened ⟨8, "1.0.0.0"⟩ movedTag movedRow := by
  have hfresh : ∀ k pv, opened.packageVersions.get? k = some pv → pv.approvedAt = none := by
    intro k pv h
    rw [show opened.packageVersions.get? k = none from rfl] at h
    exact absurd h nofun
  exact VersionOp.manual_serves_approved .utc 3 0 hfresh movedTag movedRow movedTag_row (by decide)

/-- The moved tag is served under the approval of what it was before. -/
theorem moved_tag_keeps_approval :
    (Run.final (VersionOp.run external) opened movedTag).packageVersions.get?
        ⟨8, "1.0.0.0"⟩ = some movedRow ∧
      policyGate .utc 3 .manual 0 movedRow = true ∧
      ¬ ∃ pre op post approved, movedTag = pre ++ op :: post ∧
        VersionOp.LastApproval external opened ⟨8, "1.0.0.0"⟩ pre op post approved ∧
        movedRow.distBlobSha256 = approved.distBlobSha256 := by
  refine ⟨movedTag_row, by decide, ?_⟩
  rintro ⟨pre, op, post, approved, hops, hlast, hdist⟩
  unfold movedTag at hops
  -- only the second step approves
  rcases pre with _ | ⟨first, _ | ⟨second, _ | ⟨third, pre⟩⟩⟩
  · obtain ⟨rfl, -⟩ := List.cons.inj hops
    exact absurd hlast.approves Bool.false_ne_true
  · obtain ⟨rfl, -⟩ := List.cons.inj hops
    have hthen : ((Run.final (VersionOp.run external) opened
        [.gitPath agreed "1.0.0" ""]).packageVersions.get? ⟨8, "1.0.0.0"⟩).map (·.distBlobSha256)
          = some (some pushedDigest) := by decide
    rw [hlast.stored, Option.map_some, Option.some.injEq, ← hdist] at hthen
    exact absurd hthen (by decide)
  · simp only [List.cons_append, List.nil_append, List.cons.injEq] at hops
    obtain ⟨rfl, rfl, rfl, -⟩ := hops
    exact absurd hlast.approves Bool.false_ne_true
  · exact absurd (congrArg List.length hops) (by simp)

end Acme

end Sconce
