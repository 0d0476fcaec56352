/-
# What a renewal does to the bounds of a key

A renewal moves one date forward: the key's, or that of one edge.  An edge date
only ever grows.  A key date that was NULL gets a value, and every edge that
inherited "unbounded" from the key then inherits that date.
-/
import Sconce.Licensing.Operations

namespace Sconce

open Ceiling

/-! ## Dates move forward -/

/-- An extension by a positive period passes both the old date and the clock. -/
theorem Session.lt_extend (ses : Session) (now t : Timestamp) {period : ℤ} (h : 0 < period) :
    t < ses.extend now (some t) period :=
  lt_of_le_of_lt (le_max_left t now) (ses.lt_addMonths (max t now) period h)

theorem EditionBound.period_eq_some_iff (b : EditionBound) (n : ℤ) :
    b.period = some n ↔ b = .time n := by
  cases b with
  | perpetual => simp [period]
  | time m => simp [period]
  | version m => simp [period]

/-- A stored edition renews by a positive period. -/
theorem Edition.period_pos (e : Edition) {n : ℤ} (h : e.bound.period = some n) : 0 < n := by
  have hvalid := e.bound_valid
  rw [(e.bound.period_eq_some_iff n).1 h] at hvalid
  exact hvalid

namespace Catalog

variable (db : Catalog)

/-! ## What the renewal statements match -/

/-- `RENEW_SQL` matches an active key of the repository whose edition is a time
edition. -/
theorem renewableKey_eq_some_iff (repo license : Uuid) (l : LicenseKey) (period : ℤ) :
    db.renewableKey repo license = some (l, period) ↔
      db.activeKey repo license = some l ∧ ∃ edition e, l.editionId = some edition ∧
        db.editions.get? edition = some e ∧ e.bound.period = some period := by
  unfold renewableKey
  simp only [Option.bind_eq_bind, Option.bind_eq_some_iff, Option.pure_def, Option.some.injEq,
    Prod.mk.injEq]
  constructor
  · rintro ⟨l', hl', e, ⟨edition, hed, he⟩, p, hp, rfl, rfl⟩
    exact ⟨hl', edition, e, hed, he, hp⟩
  · rintro ⟨hl, edition, e, hed, he, hp⟩
    exact ⟨l, hl, e, ⟨edition, hed, he⟩, period, hp, rfl, rfl⟩

/-- `RENEW_EDGE_SQL` matches an edge with a date of an active key of the
repository, on the set of a time edition of the repository. -/
theorem renewableEdge_eq_some_iff (repo license edition set : Uuid) (date : Timestamp)
    (period : ℤ) :
    db.renewableEdge repo license edition = some (set, date, period) ↔
      (db.activeKey repo license).isSome ∧ ∃ e b, db.editions.get? edition = some e ∧
        e.repoId = repo ∧ e.setId = set ∧ e.bound.period = some period ∧
        db.licenseSetEntitlements.get? (license, set) = some b ∧ b.updateUntil = some date := by
  unfold renewableEdge
  simp only [Option.bind_eq_bind, Option.bind_eq_some_iff, Option.pure_def, Option.some.injEq,
    Prod.mk.injEq, Option.filter_eq_some_iff, Option.isSome_iff_exists, decide_eq_true_eq]
  constructor
  · rintro ⟨l, hl, e, ⟨he, hrepo⟩, p, hp, b, hb, d, hd, rfl, rfl, rfl⟩
    exact ⟨⟨l, hl⟩, e, b, he, hrepo, rfl, hp, hb, hd⟩
  · rintro ⟨⟨l, hl⟩, e, b, he, hrepo, rfl, hp, hb, hd⟩
    exact ⟨l, hl, e, ⟨he, hrepo⟩, period, hp, b, hb, date, hd, rfl, rfl, rfl⟩

/-! ## The states a renewal leads to -/

/-- The state with a new date on a key. -/
def withKeyDate (license : Uuid) (date : Timestamp) : Catalog :=
  { db with
    licenseKeys := db.licenseKeys.update fun id l =>
      if id = license then { l with bound := { l.bound with updateUntil := some date } } else l }

/-- The state with a new date on a set edge. -/
def withEdgeDate (license set : Uuid) (date : Timestamp) : Catalog :=
  { db with
    licenseSetEntitlements := db.licenseSetEntitlements.update fun k b =>
      if k = (license, set) then { b with updateUntil := some date } else b }

/-- Whether a call runs its renewal `UPDATE`: always without an idempotency key,
else only when the key is fresh. -/
def runsUpdate (c : RenewCall) : Bool :=
  match c.idempotencyKey with
  | none => true
  | some idem => db.freshRenewal c.repo c.license idem

/-- The state in which the `UPDATE` of a call runs. -/
def recorded (c : RenewCall) : Catalog :=
  match c.idempotencyKey with
  | none => db
  | some idem => db.recordRenewal c.license idem

/-- Recording a renewal touches nothing but the ledger. -/
theorem recorded_eq (c : RenewCall) :
    ∃ ledger, db.recorded c = { db with licenseRenewals := ledger } := by
  unfold recorded
  cases c.idempotencyKey with
  | none => exact ⟨_, rfl⟩
  | some idem => exact ⟨_, rfl⟩

/-- The state a renewal call leaves: that of its `UPDATE` if it runs, else the old
one. -/
theorem renew_state (ses : Session) (now : Timestamp) (c : RenewCall) :
    rolledBack db (db.renew ses now c) =
      if db.runsUpdate c then ((db.recorded c).extendBound ses now c).2 else db := by
  unfold renew runsUpdate recorded
  cases c.idempotencyKey with
  | none => rfl
  | some idem =>
    show rolledBack db (if db.freshRenewal c.repo c.license idem = true then _ else _) = _
    by_cases hf : db.freshRenewal c.repo c.license idem = true
    · rw [if_pos hf, if_pos hf]
      rfl
    · rw [if_neg hf, if_neg hf]
      cases db.currentBound c with
      | error e => rfl
      | ok date => rfl

/-- `RENEW_SQL` does nothing or moves the key's date. -/
theorem renewKey_cases (ses : Session) (now : Timestamp) (repo license : Uuid) :
    (db.renewableKey repo license = none ∧ db.renewKey ses now repo license = (none, db)) ∨
      ∃ l period, db.renewableKey repo license = some (l, period) ∧ 0 < period ∧
        db.licenseKeys.get? license = some l ∧
        db.renewKey ses now repo license
          = (some (ses.extend now l.bound.updateUntil period),
              db.withKeyDate license (ses.extend now l.bound.updateUntil period)) := by
  unfold renewKey
  cases hr : db.renewableKey repo license with
  | none => exact Or.inl ⟨rfl, rfl⟩
  | some lp =>
    obtain ⟨l, period⟩ := lp
    obtain ⟨hactive, _, e, _, _, hperiod⟩ := (db.renewableKey_eq_some_iff _ _ _ _).1 hr
    exact Or.inr ⟨l, period, rfl, e.period_pos hperiod, db.get?_of_activeKey hactive, rfl⟩

/-- `RENEW_EDGE_SQL` does nothing or moves the date of one set edge. -/
theorem renewEdge_cases (ses : Session) (now : Timestamp) (repo license edition : Uuid) :
    (db.renewableEdge repo license edition = none ∧
        db.renewEdge ses now repo license edition = (none, db)) ∨
      ∃ set b date period, db.renewableEdge repo license edition = some (set, date, period) ∧
        0 < period ∧ db.licenseSetEntitlements.get? (license, set) = some b ∧
        b.updateUntil = some date ∧
        db.renewEdge ses now repo license edition
          = (some (ses.extend now (some date) period),
              db.withEdgeDate license set (ses.extend now (some date) period)) := by
  unfold renewEdge
  cases hr : db.renewableEdge repo license edition with
  | none => exact Or.inl ⟨rfl, rfl⟩
  | some sdp =>
    obtain ⟨set, date, period⟩ := sdp
    obtain ⟨_, e, b, _, _, _, hperiod, hb, hdate⟩ :=
      (db.renewableEdge_eq_some_iff _ _ _ _ _ _).1 hr
    exact Or.inr ⟨set, b, date, period, rfl, e.period_pos hperiod, hb, hdate, rfl⟩

/-! ## The reach after a renewal -/

section Reach

variable {db}

/-- Another key does not see a new key date. -/
theorem reach_withKeyDate_of_ne {license other : Uuid} (h : other ≠ license) (date : Timestamp)
    (name : String) : (db.withKeyDate license date).reach other name = db.reach other name := by
  apply reach_eq_of_same_edges
  · show ((db.licenseKeys.update _).get? other).map _ = _
    rw [Table.get?_update, Option.map_map]
    congr 1
    funext l
    show (if other = license then _ else l).bound = l.bound
    rw [if_neg h]
  · intro t
    rfl
  · intro t
    rfl

/-- The covering edges after a new key date inherit that date. -/
theorem covers_withKeyDate_iff {license : Uuid} {l : LicenseKey}
    (hl : db.licenseKeys.get? license = some l) (date : Timestamp) (name : String)
    (b : UpdateBound) :
    (db.withKeyDate license date).Covers license name b ↔
      ∃ t e, db.edge? license t = some e ∧ name ∈ db.names t ∧
        e.inherit ⟨some date, l.bound.versionCapMajor⟩ = b := by
  apply covers_iff
  show ((db.licenseKeys.update _).get? license).map _ = _
  rw [Table.get?_update, hl, Option.map_some, Option.map_some, if_pos rfl]

/-- A later key date takes nothing away. -/
theorem reach_le_withKeyDate {license : Uuid} {l : LicenseKey}
    (hl : db.licenseKeys.get? license = some l) {old date : Timestamp}
    (hold : l.bound.updateUntil = some old) (hlt : old < date) (name : String) :
    db.reach license name ≤ (db.withKeyDate license date).reach license name := by
  apply reach_mono
  rintro b ⟨l', t, e, hl', he, hn, rfl⟩
  rw [hl, Option.some.injEq] at hl'
  subst hl'
  refine ⟨_, (covers_withKeyDate_iff hl date name _).2 ⟨t, e, he, hn, rfl⟩, ?_, le_rfl⟩
  show axis (coalesce e.updateUntil l.bound.updateUntil) ≤ axis (coalesce e.updateUntil (some date))
  cases e.updateUntil with
  | none =>
    rw [hold]
    exact WithTop.coe_le_coe.2 hlt.le
  | some d => exact le_rfl

/-- **A first date on a key** takes nothing away exactly from the packages that no
edge without a date covers. -/
theorem reach_le_withKeyDate_of_null_iff {license : Uuid} {l : LicenseKey}
    (hl : db.licenseKeys.get? license = some l) (hnull : l.bound.updateUntil = none)
    (date : Timestamp) (name : String) :
    db.reach license name ≤ (db.withKeyDate license date).reach license name ↔
      ∀ t e, db.edge? license t = some e → e.updateUntil = none → name ∉ db.names t := by
  constructor
  · intro hle t e he hdate hn
    -- the edge was unbounded in time, and afterwards every edge has a date
    have hcov : db.Covers license name (e.inherit l.bound) := ⟨l, t, e, hl, he, hn, rfl⟩
    have hreach := hcov.le_reach.trans hle
    obtain ⟨⟨b, hb, htop⟩, -⟩ := (ceiling_le_reach_iff _ license name _).1 hreach
    obtain ⟨t', e', he', hn', rfl⟩ := (covers_withKeyDate_iff hl date name b).1 hb
    have hleft : (e.inherit l.bound).updateUntil = none := by
      show coalesce e.updateUntil l.bound.updateUntil = none
      rw [hdate, hnull, coalesce_none]
    rw [hleft, axis_none, top_le_iff, axis_eq_top_iff] at htop
    have hsome : ∃ d, coalesce e'.updateUntil (some date) = some d := by
      cases e'.updateUntil with
      | none => exact ⟨date, rfl⟩
      | some d => exact ⟨d, rfl⟩
    obtain ⟨d, hd⟩ := hsome
    have htop : coalesce e'.updateUntil (some date) = none := htop
    rw [hd] at htop
    cases htop
  · intro h
    apply reach_mono
    rintro b ⟨l', t, e, hl', he, hn, rfl⟩
    rw [hl, Option.some.injEq] at hl'
    subst hl'
    refine ⟨_, (covers_withKeyDate_iff hl date name _).2 ⟨t, e, he, hn, rfl⟩, ?_, le_rfl⟩
    show axis (coalesce e.updateUntil l.bound.updateUntil)
      ≤ axis (coalesce e.updateUntil (some date))
    cases hd : e.updateUntil with
    | none => exact absurd hn (h t e he hd)
    | some d => exact le_rfl

/-- A new edge date takes nothing away from any key. -/
theorem reach_le_withEdgeDate {license set : Uuid} {b : UpdateBound} {old date : Timestamp}
    (hb : db.licenseSetEntitlements.get? (license, set) = some b) (hold : b.updateUntil = some old)
    (hlt : old < date) (other : Uuid) (name : String) :
    db.reach other name ≤ (db.withEdgeDate license set date).reach other name := by
  apply reach_mono
  rintro c ⟨l, t, e, hl, he, hn, rfl⟩
  have hedge : ∃ e', (db.withEdgeDate license set date).edge? other t = some e' ∧
      (e.inherit l.bound).ceiling ≤ (e'.inherit l.bound).ceiling := by
    cases t with
    | package id => exact ⟨e, he, le_rfl⟩
    | set id =>
      refine ⟨if (other, id) = (license, set) then { e with updateUntil := some date } else e,
        ?_, ?_⟩
      · show (db.licenseSetEntitlements.update _).get? (other, id) = _
        have he : db.licenseSetEntitlements.get? (other, id) = some e := he
        rw [Table.get?_update, he, Option.map_some]
      · split_ifs with hk
        · have he : db.licenseSetEntitlements.get? (other, id) = some e := he
          rw [hk, hb, Option.some.injEq] at he
          subst he
          refine ⟨?_, le_rfl⟩
          show axis (coalesce b.updateUntil l.bound.updateUntil)
            ≤ axis (coalesce (some date) l.bound.updateUntil)
          rw [hold, coalesce_some, coalesce_some]
          exact WithTop.coe_le_coe.2 hlt.le
        · exact le_rfl
  obtain ⟨e', he', hle⟩ := hedge
  exact ⟨_, ⟨l, t, e', hl, he', hn, rfl⟩, hle⟩

end Reach

/-! ## When a renewal takes nothing away -/

/-- A renewal call is harmless unless it puts a first date on a key: it is on an
edge, or does not extend anything, or the key has a date already, or none of the
key's edges without a date covers a package. -/
def RenewalHarmless (c : RenewCall) : Prop :=
  c.edition = none → db.runsUpdate c = true → ∀ l period,
    db.renewableKey c.repo c.license = some (l, period) → l.bound.updateUntil = none →
      ∀ t e, db.edge? c.license t = some e → e.updateUntil = none → db.names t = []

/-- A key-level `UPDATE` takes nothing away exactly when it is harmless. -/
theorem reach_le_renewKey_iff (ses : Session) (now : Timestamp) (repo license : Uuid) :
    (∀ other name, db.reach other name
        ≤ (db.renewKey ses now repo license).2.reach other name) ↔
      ∀ l period, db.renewableKey repo license = some (l, period) → l.bound.updateUntil = none →
        ∀ t e, db.edge? license t = some e → e.updateUntil = none → db.names t = [] := by
  rcases db.renewKey_cases ses now repo license with ⟨hr, heq⟩ | ⟨l, period, hr, hpos, hl, heq⟩
  · rw [heq, hr]
    constructor
    · intro _ l period h
      cases h
    · intro _ other name
      exact le_rfl
  · rw [heq, hr]
    have hothers : ∀ other, other ≠ license → ∀ date name,
        db.reach other name ≤ (db.withKeyDate license date).reach other name := by
      intro other hne date name
      exact (reach_withKeyDate_of_ne hne date name).ge
    cases hdate : l.bound.updateUntil with
    -- a date already there only moves on
    | some old =>
      constructor
      · intro _ l' period' h hnull
        rw [Option.some.injEq, Prod.mk.injEq] at h
        rw [← h.1, hdate] at hnull
        cases hnull
      · intro _ other name
        by_cases hne : other = license
        · subst hne
          exact reach_le_withKeyDate hl hdate (ses.lt_extend now old hpos) name
        · exact hothers other hne _ name
    -- an unbounded key gets a date: an edge that inherits it loses, unless its set is empty
    | none =>
      constructor
      · intro h l' _ _ _ t e he hnull
        rw [List.eq_nil_iff_forall_not_mem]
        intro name
        exact (reach_le_withKeyDate_of_null_iff hl hdate _ name).1 (h license name) t e he hnull
      · intro h other name
        by_cases hne : other = license
        · subst hne
          rw [reach_le_withKeyDate_of_null_iff hl hdate]
          intro t e he hnull
          rw [h l period rfl hdate t e he hnull]
          exact List.not_mem_nil
        · exact hothers other hne _ name

/-- An edge-level `UPDATE` takes nothing away. -/
theorem reach_le_renewEdge (ses : Session) (now : Timestamp) (repo license edition other : Uuid)
    (name : String) :
    db.reach other name ≤ (db.renewEdge ses now repo license edition).2.reach other name := by
  rcases db.renewEdge_cases ses now repo license edition with
    ⟨_, heq⟩ | ⟨set, b, date, period, _, hpos, hb, hdate, heq⟩
  · rw [heq]
  · rw [heq]
    exact reach_le_withEdgeDate hb hdate (ses.lt_extend now date hpos) other name

/-- One renewal call takes nothing away from any key on any package exactly when it
is harmless. -/
theorem renew_permissive_iff (ses : Session) (now : Timestamp) (c : RenewCall) :
    (∀ license name, Permissive (db.entitledBound license name)
        ((rolledBack db (db.renew ses now c)).entitledBound license name)) ↔
      db.RenewalHarmless c := by
  simp only [permissive_entitledBound_iff]
  rw [renew_state]
  unfold RenewalHarmless
  by_cases hrun : db.runsUpdate c = true
  · rw [if_pos hrun]
    obtain ⟨ledger, hledger⟩ := db.recorded_eq c
    rw [hledger]
    cases hc : c.edition with
    | none =>
      have hupdate := ({ db with licenseRenewals := ledger } : Catalog).reach_le_renewKey_iff
        ses now c.repo c.license
      unfold extendBound
      rw [hc]
      simp only [hrun, forall_const]
      exact hupdate
    | some edition =>
      unfold extendBound
      rw [hc]
      constructor
      · intro _ h
        cases h
      · intro _ other name
        exact ({ db with licenseRenewals := ledger } : Catalog).reach_le_renewEdge
          ses now c.repo c.license edition other name
  · rw [if_neg hrun]
    constructor
    · intro _ _ h
      exact absurd h hrun
    · intro _ license name
      exact le_rfl

end Catalog

/-- **When renewals take nothing away.**  In a run of the writers every renewal
leaves every key at least as permissive on every package exactly when every
renewal of the run is harmless in the state it meets. -/
theorem renewals_permissive_iff (ses : Session) (secret : Option SecretKey) (db : Catalog)
    (ops : List (Timed LicenseOp)) :
    (∀ x ∈ Run.trace (LicenseOp.run ses secret) db ops, ∀ c, x.2.op = .renew c →
        ∀ license name, Permissive (x.1.entitledBound license name)
          ((LicenseOp.run ses secret x.1 x.2).entitledBound license name)) ↔
      ∀ x ∈ Run.trace (LicenseOp.run ses secret) db ops, ∀ c, x.2.op = .renew c →
        x.1.RenewalHarmless c := by
  apply Run.forall_trace_congr
  rintro ⟨s, now, op⟩
  refine forall₂_congr fun c hc => ?_
  have hop : op = .renew c := hc
  subst hop
  exact s.renew_permissive_iff ses now c

namespace Shop

/-- A renewal of key 1 as a whole. -/
def renewKeyOne : RenewCall where
  repo := 1
  license := 1
  edition := none
  idempotencyKey := none

/-- An account key opened by the annual edition, with the lifetime suite added and
then renewed as a whole: the suite, unlimited before, ends with the renewal. -/
theorem renewal_bounds_perpetual_edge :
    (after [firstSale 1, .addEdition 1 1 2]).entitledBound 1 "acme/tools" = some ⟨none, none⟩ ∧
      ¬ Permissive
        ((after [firstSale 1, .addEdition 1 1 2]).entitledBound 1 "acme/tools")
        ((after [firstSale 1, .addEdition 1 1 2, .renew renewKeyOne]).entitledBound 1
          "acme/tools") := by
  have hbefore : (after [firstSale 1, .addEdition 1 1 2]).entitledBound 1 "acme/tools"
      = some ⟨none, none⟩ := by decide
  have hafter : (after [firstSale 1, .addEdition 1 1 2, .renew renewKeyOne]).entitledBound 1
      "acme/tools" = some ⟨some (toTimestamp 1738281600), none⟩ := by decide
  refine ⟨hbefore, ?_⟩
  intro h
  obtain ⟨c, hc, hle, -⟩ := h _ hbefore
  rw [hafter, Option.some.injEq] at hc
  subst hc
  exact absurd hle (by simp)

end Shop

end Sconce
