/-
# The licence clause of `visible_versions`

A bounded licence is served the versions released up to its date and of a major
version up to its cap.  The two conditions are independent of each other, and so
are the two unions behind the bound: what a union lets through is what one edge
lets through on the time axis and one edge, not necessarily the same, lets
through on the version axis.
-/
import Sconce.Licensing.Operations

namespace Sconce

open Ceiling

/-! ## The clause -/

/-- `$5 is null or (released is not null and released - make_interval(days =>
grace_days) <= to_timestamp($5))`, `released` being the entitlement date or else
the release date. -/
def timeClause (ses : Session) (untilUnix : Option ℤ) (pv : PackageVersion) : Bool :=
  match untilUnix with
  | none => true
  | some u =>
    match coalesce pv.entitlementDate pv.releasedAt with
    | none => false
    | some released => decide (ses.addDays released (-pv.graceDays) ≤ toTimestamp u)

/-- The dates that the clause computes are in range. -/
def DatesInRange (ses : Session) (untilUnix : Option ℤ) (pv : PackageVersion) : Prop :=
  ∀ u, untilUnix = some u → ∀ released, coalesce pv.entitlementDate pv.releasedAt = some released →
    InTimestampRange (ses.addDays released (-pv.graceDays)) ∧ InTimestampRange (toTimestamp u)

/-- The clause as the query asks it: a date out of range fails it. -/
def dateClause (ses : Session) (untilUnix : Option ℤ) (pv : PackageVersion) :
    Except SqlError Bool :=
  match untilUnix with
  | none => .ok true
  | some u =>
    match coalesce pv.entitlementDate pv.releasedAt with
    | none => .ok false
    | some released =>
      match ses.plusDays released (-pv.graceDays) with
      | none => .error .datetimeOverflow
      | some start =>
        if InTimestampRange (toTimestamp u) then .ok (decide (start ≤ toTimestamp u))
        else .error .datetimeOverflow

/-- In range the query asks `timeClause`; out of it there is an error. -/
theorem dateClause_cases (ses : Session) (untilUnix : Option ℤ) (pv : PackageVersion) :
    DatesInRange ses untilUnix pv ∧ dateClause ses untilUnix pv = .ok (timeClause ses untilUnix pv) ∨
      ¬ DatesInRange ses untilUnix pv ∧ dateClause ses untilUnix pv = .error .datetimeOverflow := by
  unfold DatesInRange dateClause timeClause
  cases untilUnix with
  | none => exact .inl ⟨nofun, rfl⟩
  | some u =>
    cases coalesce pv.entitlementDate pv.releasedAt with
    | none => exact .inl ⟨fun _ _ _ => nofun, rfl⟩
    | some released =>
      simp only [Option.some.injEq, forall_eq']
      unfold Session.plusDays
      by_cases hstart : InTimestampRange (ses.addDays released (-pv.graceDays))
      · rw [if_pos hstart]
        by_cases huntil : InTimestampRange (toTimestamp u)
        · exact .inl ⟨⟨hstart, huntil⟩, if_pos huntil⟩
        · exact .inr ⟨fun h => huntil h.2, if_neg huntil⟩
      · rw [if_neg hstart]
        exact .inr ⟨fun h => hstart h.1, rfl⟩

/-- `coalesce(nullif(split_part(normalized_version, '.', 1), '')::int, 0)`; a part
that is no number fails the query. -/
def majorOf (normalizedVersion : String) : Except SqlError ℤ :=
  match splitPartDot normalizedVersion with
  | [] => .ok 0
  | part =>
    match castInt part with
    | none => .error .castError
    | some major => .ok major

/-- `$6 is null or major <= $6`. -/
def majorClause (cap : Option ℤ) (normalizedVersion : String) : Except SqlError Bool :=
  match cap with
  | none => .ok true
  | some c => (majorOf normalizedVersion).map fun major => decide (major ≤ c)

/-- The first component of the version is empty, which counts as 0, or reads as an `int`. -/
def ReadsMajor (normalizedVersion : String) : Prop :=
  splitPartDot normalizedVersion = [] ∨ (castInt (splitPartDot normalizedVersion)).isSome

instance (normalizedVersion : String) : Decidable (ReadsMajor normalizedVersion) := by
  unfold ReadsMajor
  infer_instance

/-- The clause of a cap answers for exactly the versions whose major it reads. -/
theorem majorClause_ok_iff (cap : ℤ) (normalizedVersion : String) :
    (∃ keep, majorClause (some cap) normalizedVersion = .ok keep) ↔
      ReadsMajor normalizedVersion := by
  unfold majorClause majorOf ReadsMajor
  dsimp only
  split
  · rename_i hempty
    exact iff_of_true ⟨_, rfl⟩ (.inl hempty)
  · rename_i part hne
    cases hcast : castInt (splitPartDot normalizedVersion) with
    | none =>
      refine iff_of_false ?_ ?_
      · rintro ⟨keep, ⟨⟩⟩
      · rintro (hempty | hsome)
        · exact hne hempty
        · exact absurd hsome Bool.false_ne_true
    | some major => exact iff_of_true ⟨_, rfl⟩ (.inr rfl)

/-- The cast of a first component is all that fails in the cap. -/
theorem majorClause_error {cap : Option ℤ} {normalizedVersion : String} {e : SqlError}
    (h : majorClause cap normalizedVersion = .error e) : e = .castError := by
  unfold majorClause majorOf at h
  cases cap with
  | none => cases h
  | some c =>
    dsimp only at h
    split at h
    · cases h
    · split at h
      · exact (Except.error.inj h).symm
      · cases h

/-- A version passes the licence clause of `visible_versions` under a bound. -/
def PassesClause (ses : Session) (bound : LicenseBound) (key : VersionKey) (pv : PackageVersion) :
    Prop :=
  timeClause ses bound.untilUnix pv = true ∧
    majorClause bound.major key.normalizedVersion = .ok true

instance (ses : Session) (bound : LicenseBound) (key : VersionKey) (pv : PackageVersion) :
    Decidable (PassesClause ses bound key pv) := by
  unfold PassesClause
  have : Decidable (majorClause bound.major key.normalizedVersion = .ok true) :=
    match majorClause bound.major key.normalizedVersion with
    | .ok true => isTrue rfl
    | .ok false => isFalse nofun
    | .error _ => isFalse nofun
  infer_instance

/-! ## A wider ceiling lets more through -/

/-- Under an end date, what a version is dated by, less its days of grace, is on or before the
end. -/
theorem timeClause_some_iff (ses : Session) (u : ℤ) (pv : PackageVersion) :
    timeClause ses (some u) pv = true ↔
      ∃ released, coalesce pv.entitlementDate pv.releasedAt = some released ∧
        ses.addDays released (-pv.graceDays) ≤ toTimestamp u := by
  unfold timeClause
  cases coalesce pv.entitlementDate pv.releasedAt with
  | none => simp
  | some released => simp

/-- A later date lets through whatever an earlier one does. -/
theorem timeClause_mono (ses : Session) {b c : UpdateBound} {pv : PackageVersion}
    (hbc : axis b.updateUntil ≤ axis c.updateUntil)
    (h : timeClause ses (ses.licenseBound b).untilUnix pv = true) :
    timeClause ses (ses.licenseBound c).untilUnix pv = true := by
  unfold Session.licenseBound at h ⊢
  cases hc : c.updateUntil with
  | none => rfl
  | some v =>
    cases hb : b.updateUntil with
    | none =>
      rw [hb, hc] at hbc
      exact absurd hbc (by simp)
    | some u =>
      rw [hb, hc] at hbc
      have huv : u ≤ v := WithTop.coe_le_coe.1 hbc
      rw [hb] at h
      obtain ⟨released, hr, hle⟩ := (timeClause_some_iff ses (epochSeconds u) pv).1 h
      show timeClause ses (some (epochSeconds v)) pv = true
      rw [timeClause_some_iff]
      exact ⟨released, hr, hle.trans (toTimestamp_monotone (epochSeconds_monotone huv))⟩

/-- A higher cap lets through whatever a lower one does. -/
theorem majorClause_mono {b c : Option ℤ} {normalizedVersion : String} (hbc : axis b ≤ axis c)
    (h : majorClause b normalizedVersion = .ok true) :
    majorClause c normalizedVersion = .ok true := by
  cases c with
  | none => rfl
  | some v =>
    cases b with
    | none => exact absurd hbc (by simp)
    | some u =>
      have huv : u ≤ v := WithTop.coe_le_coe.1 hbc
      unfold majorClause at h ⊢
      cases hm : majorOf normalizedVersion with
      | error e =>
        rw [hm] at h
        cases h
      | ok major =>
        rw [hm] at h
        have hle : major ≤ u := by simpa [Except.map] using h
        show Except.ok (decide (major ≤ v)) = Except.ok true
        rw [decide_eq_true (hle.trans huv)]

/-! ## What a union of edges lets through -/

/-- Each axis of a returned bound is the ceiling of one of the covering edges, and
lies above those of all of them. -/
theorem returned_axes {db : Catalog} {license : Uuid} {name : String} {b : UpdateBound}
    (h : db.entitledBound license name = some b) :
    (∃ e, db.Covers license name e ∧ axis b.updateUntil ≤ axis e.updateUntil) ∧
      (∃ e, db.Covers license name e ∧ axis b.versionCapMajor ≤ axis e.versionCapMajor) ∧
      ∀ e, db.Covers license name e → axis e.updateUntil ≤ axis b.updateUntil ∧
        axis e.versionCapMajor ≤ axis b.versionCapMajor := by
  have hreach := (db.entitledBound_eq_some_iff license name b).1 h
  obtain ⟨htime, hmajor⟩ := (db.ceiling_le_reach_iff license name b).1 hreach.ge
  refine ⟨htime, hmajor, ?_⟩
  intro e he
  have hle := he.le_reach
  rw [hreach] at hle
  exact WithBot.coe_le_coe.1 hle

/-- **What combined edges unlock.**  A version passes the clause under the bound
the serve-time view returns for its package exactly when some covering edge lets
it through on the time axis and some covering edge, possibly another one, on the
version axis. -/
theorem passesClause_iff_each_axis (ses : Session) (db : Catalog) (license : Uuid) (name : String)
    (bound : LicenseBound) (key : VersionKey) (pv : PackageVersion)
    (h : (entitledPackageBounds ses db license).lookup name = some bound) :
    PassesClause ses bound key pv ↔
      (∃ e, db.Covers license name e ∧
          timeClause ses (ses.licenseBound e).untilUnix pv = true) ∧
        ∃ e, db.Covers license name e ∧
          majorClause (ses.licenseBound e).major key.normalizedVersion = .ok true := by
  rw [Catalog.lookup_entitledPackageBounds] at h
  obtain ⟨b, hb, rfl⟩ := Option.map_eq_some_iff.1 h
  obtain ⟨⟨e, he, hle⟩, ⟨f, hf, hlf⟩, hub⟩ := returned_axes hb
  constructor
  · rintro ⟨htime, hmajor⟩
    exact ⟨⟨e, he, timeClause_mono ses hle htime⟩, ⟨f, hf, majorClause_mono hlf hmajor⟩⟩
  · rintro ⟨⟨e, he, htime⟩, f, hf, hmajor⟩
    exact ⟨timeClause_mono ses (hub e he).1 htime, majorClause_mono (hub f hf).2 hmajor⟩

namespace Shop

/-- A release of `acme/core` 5 long after the opening day. -/
def latecomer : PackageVersion where
  version := "5.0.0"
  stability := "stable"
  composerJson := .object []
  distBlobSha256 := none
  distShasum := none
  sourceReference := none
  releasedAt := some (toTimestamp 1893456000)
  yankedAt := none
  heldAt := none
  approvedAt := none
  graceDays := 0
  entitlementDate := none
  upstreamDistPath := none

/-- An account key with a year of `core` and with the 1.x releases of the suite. -/
def mixed : Catalog := after [firstSale 1, .addEdition 1 1 3]

/-- The union of the two edges has no ceiling left on either axis. -/
theorem mixed_bound :
    (entitledPackageBounds Session.utc mixed 1).lookup "acme/core" = some ⟨none, none, none⟩ := by
  decide

/-- A late release passes by one edge's date and another's cap, and by neither alone. -/
theorem passesClause_iff_each_axis_mixed :
    PassesClause Session.utc ⟨none, none, none⟩ ⟨1, "5.0.0.0"⟩ latecomer ↔
      (∃ e, mixed.Covers 1 "acme/core" e ∧
          timeClause Session.utc (Session.utc.licenseBound e).untilUnix latecomer = true) ∧
        ∃ e, mixed.Covers 1 "acme/core" e ∧
          majorClause (Session.utc.licenseBound e).major "5.0.0.0" = .ok true :=
  passesClause_iff_each_axis Session.utc mixed 1 "acme/core" ⟨none, none, none⟩ ⟨1, "5.0.0.0"⟩
    latecomer mixed_bound

/-- The union unlocks a version that neither edge unlocks by itself: the annual
edge stops at its date, the 1.x edge at its cap. -/
theorem union_unlocks_more :
    (mixed.licenseKeys.get? 1).any (fun l => l.status = .active) = true ∧
      (entitledPackageBounds Session.utc mixed 1).lookup "acme/core" = some ⟨none, none, none⟩ ∧
      PassesClause Session.utc ⟨none, none, none⟩ ⟨1, "5.0.0.0"⟩ latecomer ∧
      ∀ e, mixed.Covers 1 "acme/core" e →
        ¬ PassesClause Session.utc (Session.utc.licenseBound e) ⟨1, "5.0.0.0"⟩ latecomer := by
  have hedges : ∀ e ∈ mixed.edges 1, e.1 = "acme/core" →
      ¬ PassesClause Session.utc (Session.utc.licenseBound e.2) ⟨1, "5.0.0.0"⟩ latecomer := by
    decide
  refine ⟨by decide, mixed_bound, by decide, ?_⟩
  intro e he
  exact hedges ("acme/core", e) ((mixed.mem_edges_iff 1 "acme/core" e).2 he) rfl

end Shop

end Sconce
