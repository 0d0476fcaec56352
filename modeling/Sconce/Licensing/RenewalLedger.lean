/-
# Renewals with an idempotency key

`license_renewals` records a renewal under its licence and idempotency key, not
under the edition it renews, and it does so before the renewal is known to match
anything.  So the ledger row of a pair belongs to the first call that carries it,
and that call alone decides whether the pair ever extends a bound.

Along a sequence of keyed renewals what a call can renew stays fixed
(`SameTerms`); `count_extensions` reads the number of extensions of a licence,
edition and key off the first recorded call.
-/
import Sconce.Licensing.Renewal

namespace Sconce

/-- A renewal call that carries an idempotency key, at its time. -/
structure KeyedRenewal where
  now : Timestamp
  repo : Uuid
  license : Uuid
  edition : Option Uuid
  idempotencyKey : String

/-- The call made. -/
def KeyedRenewal.call (k : KeyedRenewal) : RenewCall where
  repo := k.repo
  license := k.license
  edition := k.edition
  idempotencyKey := some k.idempotencyKey

/-- The state a keyed renewal leaves. -/
def KeyedRenewal.run (ses : Session) (db : Catalog) (k : KeyedRenewal) : Catalog :=
  rolledBack db (db.renew ses k.now k.call)

namespace Catalog

variable (db : Catalog)

/-! ## What a call renews -/

/-- The edition a call renews: the one it names, or the one its key was issued
from. -/
def editionOf (k : KeyedRenewal) : Option Uuid :=
  match k.edition with
  | none => (db.licenseKeys.get? k.license).bind (·.editionId)
  | some edition => some edition

/-- The period of the edition a call renews. -/
def periodOf (k : KeyedRenewal) : Option ℤ :=
  ((db.editionOf k).bind db.editions.get?).bind (·.bound.period)

/-- The date a call is about: its key's, or that of the edge on its edition's set. -/
def dateOf (k : KeyedRenewal) : Option Timestamp :=
  match k.edition with
  | none => (db.licenseKeys.get? k.license).bind (·.bound.updateUntil)
  | some edition =>
    (db.editions.get? edition).bind fun e =>
      (db.licenseSetEntitlements.get? (k.license, e.setId)).bind (·.updateUntil)

/-- The state with a new date there. -/
def withDateOf (k : KeyedRenewal) (date : Timestamp) : Catalog :=
  match k.edition with
  | none => db.withKeyDate k.license date
  | some edition =>
    match db.editions.get? edition with
    | none => db
    | some e => db.withEdgeDate k.license e.setId date

/-- A call that its renewal `UPDATE` would match. -/
def Renewable (k : KeyedRenewal) : Bool :=
  match k.edition with
  | none => (db.renewableKey k.repo k.license).isSome
  | some edition => (db.renewableEdge k.repo k.license edition).isSome

/-- A call that the ledger records: its key is in its repository. -/
def Recorded (k : KeyedRenewal) : Bool := (db.keyIn k.repo k.license).isSome

/-- The call changes the date it is about. -/
def Extends (ses : Session) (k : KeyedRenewal) : Prop :=
  (KeyedRenewal.run ses db k).dateOf k ≠ db.dateOf k

instance (ses : Session) (k : KeyedRenewal) : Decidable (db.Extends ses k) := by
  unfold Extends
  infer_instance

/-- The call moves the date it is about by one period of its edition, and changes
nothing else but the ledger. -/
def ExtendsOnePeriod (ses : Session) (k : KeyedRenewal) : Prop :=
  ∃ period, db.periodOf k = some period ∧
    KeyedRenewal.run ses db k
      = (db.recorded k.call).withDateOf k (ses.extend k.now (db.dateOf k) period)

/-- The call returns a bound. -/
def Returns (ses : Session) (k : KeyedRenewal) : Prop :=
  ∃ date db', db.renew ses k.now k.call = .ok (some date, db')

/-- The call is about this licence, edition and idempotency key. -/
def Concerns (license edition : Uuid) (idempotencyKey : String) (k : KeyedRenewal) : Prop :=
  k.license = license ∧ db.editionOf k = some edition ∧ k.idempotencyKey = idempotencyKey

instance (license edition : Uuid) (idempotencyKey : String) (k : KeyedRenewal) :
    Decidable (db.Concerns license edition idempotencyKey k) := by
  unfold Concerns
  infer_instance

end Catalog

/-- The calls of a sequence about one licence, edition and key that extend. -/
def extensions (ses : Session) (db : Catalog) (ks : List KeyedRenewal) (license edition : Uuid)
    (idempotencyKey : String) : List (Catalog × KeyedRenewal) :=
  (Run.trace (KeyedRenewal.run ses) db ks).filter fun x =>
    x.1.Concerns license edition idempotencyKey x.2 ∧ x.1.Extends ses x.2

/-- Renewal is exactly-once along a sequence of calls: whatever licence, edition
and key some call returned a bound for has been extended by one call, by one
period, and nothing else has changed. -/
def ExactlyOnce (ses : Session) (db : Catalog) (ks : List KeyedRenewal) : Prop :=
  ∀ license edition idempotencyKey,
    (∃ x ∈ Run.trace (KeyedRenewal.run ses) db ks,
        x.1.Concerns license edition idempotencyKey x.2 ∧ x.1.Returns ses x.2) →
      (extensions ses db ks license edition idempotencyKey).length = 1 ∧
        ∀ x ∈ extensions ses db ks license edition idempotencyKey, x.1.ExtendsOnePeriod ses x.2

namespace Catalog

variable {db : Catalog}

/-! ## One keyed renewal -/

/-- A renewal that finds its row is recorded. -/
theorem recorded_of_renewable {k : KeyedRenewal} (h : db.Renewable k = true) :
    db.Recorded k = true := by
  have hactive : ∀ l, db.activeKey k.repo k.license = some l → db.Recorded k = true := by
    intro l hl
    unfold activeKey at hl
    have hin := (Option.filter_eq_some_iff.1 hl).1
    show (db.keyIn k.repo k.license).isSome = true
    rw [hin]
    rfl
  unfold Renewable at h
  cases hk : k.edition with
  | none =>
    rw [hk] at h
    obtain ⟨⟨l, period⟩, hr⟩ := Option.isSome_iff_exists.1 h
    exact hactive l ((db.renewableKey_eq_some_iff _ _ _ _).1 hr).1
  | some edition =>
    rw [hk] at h
    obtain ⟨⟨set, date, period⟩, hr⟩ := Option.isSome_iff_exists.1 h
    obtain ⟨l, hl⟩ := Option.isSome_iff_exists.1 ((db.renewableEdge_eq_some_iff _ _ _ _ _ _).1 hr).1
    exact hactive l hl

/-- The `UPDATE` of a keyed call that matches moves its date by one period. -/
theorem extendBound_of_renewable (ses : Session) {k : KeyedRenewal} (h : db.Renewable k = true) :
    ∃ period, 0 < period ∧ db.periodOf k = some period ∧
      db.extendBound ses k.now k.call
        = (some (ses.extend k.now (db.dateOf k) period),
            db.withDateOf k (ses.extend k.now (db.dateOf k) period)) := by
  unfold Renewable at h
  unfold periodOf editionOf dateOf withDateOf extendBound
  have hcall : k.call.edition = k.edition := rfl
  rw [hcall]
  cases hk : k.edition with
  | none =>
    rw [hk] at h
    rcases db.renewKey_cases ses k.now k.repo k.license with
      ⟨hr, -⟩ | ⟨l, period, hr, hpos, hl, heq⟩
    · rw [hr] at h
      cases h
    · obtain ⟨-, edition, e, hed, he, hperiod⟩ := (db.renewableKey_eq_some_iff _ _ _ _).1 hr
      refine ⟨period, hpos, ?_, ?_⟩
      · show (((db.licenseKeys.get? k.license).bind (·.editionId)).bind db.editions.get?).bind _ = _
        rw [hl, Option.bind_some, hed, Option.bind_some, he, Option.bind_some, hperiod]
      · show db.renewKey ses k.now k.repo k.license = _
        rw [heq, hl]
        rfl
  | some edition =>
    rw [hk] at h
    rcases db.renewEdge_cases ses k.now k.repo k.license edition with
      ⟨hr, -⟩ | ⟨set, b, date, period, hr, hpos, hb, hdate, heq⟩
    · have h : (db.renewableEdge k.repo k.license edition).isSome = true := h
      rw [hr] at h
      cases h
    · obtain ⟨-, e, b', he, -, rfl, hperiod, -, -⟩ :=
        (db.renewableEdge_eq_some_iff _ _ _ _ _ _).1 hr
      refine ⟨period, hpos, ?_, ?_⟩
      · show ((some edition).bind db.editions.get?).bind _ = _
        rw [Option.bind_some, he, Option.bind_some, hperiod]
      · show db.renewEdge ses k.now k.repo k.license edition = _
        simp only [heq, he, Option.bind_some, hb, hdate]

/-- The `UPDATE` of a keyed call that matches nothing does nothing. -/
theorem extendBound_of_not_renewable (ses : Session) {k : KeyedRenewal}
    (h : db.Renewable k = false) : db.extendBound ses k.now k.call = (none, db) := by
  unfold Renewable at h
  unfold extendBound
  have hcall : k.call.edition = k.edition := rfl
  rw [hcall]
  cases hk : k.edition with
  | none =>
    rw [hk] at h
    rcases db.renewKey_cases ses k.now k.repo k.license with ⟨-, heq⟩ | ⟨l, period, hr, -⟩
    · exact heq
    · have h : (db.renewableKey k.repo k.license).isSome = false := h
      rw [hr] at h
      cases h
  | some edition =>
    rw [hk] at h
    rcases db.renewEdge_cases ses k.now k.repo k.license edition with
      ⟨-, heq⟩ | ⟨set, b, date, period, hr, -⟩
    · exact heq
    · have h : (db.renewableEdge k.repo k.license edition).isSome = false := h
      rw [hr] at h
      cases h

/-! ## Terms that renewals keep -/

/-- Two states under which the same calls are renewable: the keys agree on their
repository, status and edition, the edges on having a date, and the editions are
the same. -/
structure SameTerms (db s : Catalog) : Prop where
  keys : ∀ license, (s.licenseKeys.get? license).map (fun l => (l.repoId, l.status, l.editionId))
    = (db.licenseKeys.get? license).map fun l => (l.repoId, l.status, l.editionId)
  edges : ∀ k, (s.licenseSetEntitlements.get? k).map (fun b => b.updateUntil.isSome)
    = (db.licenseSetEntitlements.get? k).map fun b => b.updateUntil.isSome
  editions : s.editions = db.editions

namespace SameTerms

variable {s u : Catalog}

theorem refl (db : Catalog) : SameTerms db db := ⟨fun _ => rfl, fun _ => rfl, rfl⟩

theorem symm (h : SameTerms db s) : SameTerms s db :=
  ⟨fun l => (h.keys l).symm, fun k => (h.edges k).symm, h.editions.symm⟩

theorem trans (h : SameTerms db s) (h' : SameTerms s u) : SameTerms db u :=
  ⟨fun l => (h'.keys l).trans (h.keys l), fun k => (h'.edges k).trans (h.edges k),
    h'.editions.trans h.editions⟩

/-- A key of one state is a key of the other, under the same terms. -/
theorem exists_key (h : SameTerms db s) {license : Uuid} {l : LicenseKey}
    (hl : db.licenseKeys.get? license = some l) :
    ∃ l', s.licenseKeys.get? license = some l' ∧ l'.repoId = l.repoId ∧ l'.status = l.status ∧
      l'.editionId = l.editionId := by
  have hkeys := h.keys license
  rw [hl, Option.map_some, Option.map_eq_some_iff] at hkeys
  obtain ⟨l', hl', hterms⟩ := hkeys
  simp only [Prod.mk.injEq] at hterms
  exact ⟨l', hl', hterms⟩

theorem exists_edge (h : SameTerms db s) {k : Uuid × Uuid} {b : UpdateBound} {date : Timestamp}
    (hb : db.licenseSetEntitlements.get? k = some b) (hdate : b.updateUntil = some date) :
    ∃ b' date', s.licenseSetEntitlements.get? k = some b' ∧ b'.updateUntil = some date' := by
  have hedges := h.edges k
  rw [hb, Option.map_some, hdate, Option.map_eq_some_iff] at hedges
  obtain ⟨b', hb', hsome⟩ := hedges
  obtain ⟨date', hdate'⟩ := Option.isSome_iff_exists.1 hsome
  exact ⟨b', date', hb', hdate'⟩

/-- An active key stays active, with its edition. -/
theorem exists_activeKey (h : SameTerms db s) {repo license : Uuid} {l : LicenseKey}
    (hl : db.activeKey repo license = some l) :
    ∃ l', s.activeKey repo license = some l' ∧ l'.editionId = l.editionId := by
  obtain ⟨hget, hrepo, hstatus⟩ := (db.activeKey_eq_some_iff repo license l).1 hl
  obtain ⟨l', hl', hr, hst, hed⟩ := h.exists_key hget
  exact ⟨l', (s.activeKey_eq_some_iff repo license l').2 ⟨hl', hr.trans hrepo, hst.trans hstatus⟩,
    hed⟩

theorem renewable_of (h : SameTerms db s) {k : KeyedRenewal} (hk : db.Renewable k = true) :
    s.Renewable k = true := by
  unfold Renewable at hk ⊢
  cases hed : k.edition with
  | none =>
    rw [hed] at hk
    obtain ⟨⟨l, period⟩, hr⟩ := Option.isSome_iff_exists.1 hk
    obtain ⟨hactive, edition, e, hl, he, hperiod⟩ := (db.renewableKey_eq_some_iff _ _ _ _).1 hr
    obtain ⟨l', hactive', hl'⟩ := h.exists_activeKey hactive
    have hr' : s.renewableKey k.repo k.license = some (l', period) :=
      (s.renewableKey_eq_some_iff _ _ _ _).2
        ⟨hactive', edition, e, hl'.trans hl, h.editions ▸ he, hperiod⟩
    show (s.renewableKey k.repo k.license).isSome = true
    rw [hr']
    rfl
  | some edition =>
    rw [hed] at hk
    obtain ⟨⟨set, date, period⟩, hr⟩ := Option.isSome_iff_exists.1 hk
    obtain ⟨hactive, e, b, he, hrepo, hset, hperiod, hb, hdate⟩ :=
      (db.renewableEdge_eq_some_iff _ _ _ _ _ _).1 hr
    obtain ⟨l, hl⟩ := Option.isSome_iff_exists.1 hactive
    obtain ⟨l', hl', -⟩ := h.exists_activeKey hl
    obtain ⟨b', date', hb', hdate'⟩ := h.exists_edge hb hdate
    have hr' : s.renewableEdge k.repo k.license edition = some (set, date', period) :=
      (s.renewableEdge_eq_some_iff _ _ _ _ _ _).2
        ⟨Option.isSome_iff_exists.2 ⟨l', hl'⟩, e, b', h.editions ▸ he, hrepo, hset, hperiod, hb',
          hdate'⟩
    show (s.renewableEdge k.repo k.license edition).isSome = true
    rw [hr']
    rfl

/-- Which renewals find a row depends on the terms alone. -/
theorem renewable_eq (h : SameTerms db s) (k : KeyedRenewal) : s.Renewable k = db.Renewable k :=
  Bool.eq_iff_iff.2 ⟨h.symm.renewable_of, h.renewable_of⟩

/-- Which renewals are recorded depends on the terms alone. -/
theorem recorded_eq (h : SameTerms db s) (k : KeyedRenewal) : s.Recorded k = db.Recorded k := by
  have hmp : ∀ {d d' : Catalog}, SameTerms d d' → d.Recorded k = true → d'.Recorded k = true := by
    intro d d' hd hrec
    obtain ⟨l, hl⟩ := Option.isSome_iff_exists.1 hrec
    obtain ⟨hget, hrepo⟩ := Option.filter_eq_some_iff.1 hl
    obtain ⟨l', hl', hr, -⟩ := hd.exists_key hget
    refine Option.isSome_iff_exists.2 ⟨l', Option.filter_eq_some_iff.2 ⟨hl', ?_⟩⟩
    rw [hr]
    exact hrepo
  exact Bool.eq_iff_iff.2 ⟨hmp h.symm, hmp h⟩

/-- The edition of a renewal depends on the terms alone. -/
theorem editionOf_eq (h : SameTerms db s) (k : KeyedRenewal) : s.editionOf k = db.editionOf k := by
  unfold editionOf
  cases k.edition with
  | some edition => rfl
  | none =>
    have hkeys := congrArg (fun o => o.bind (fun t => t.2.2)) (h.keys k.license)
    simp only [Option.bind_map] at hkeys
    exact hkeys

end SameTerms

/-- A new date keeps the terms, when it replaces one or is the key's. -/
theorem sameTerms_withDateOf {k : KeyedRenewal} (h : db.Renewable k = true) (date : Timestamp) :
    SameTerms db (db.withDateOf k date) := by
  unfold withDateOf
  unfold Renewable at h
  cases hed : k.edition with
  | none =>
    refine ⟨?_, fun _ => rfl, rfl⟩
    intro license
    show ((db.licenseKeys.update _).get? license).map _ = _
    rw [Table.get?_update, Option.map_map]
    congr 1
    funext l
    show (fun l : LicenseKey => (l.repoId, l.status, l.editionId))
      (if license = k.license then _ else l) = _
    split_ifs
    · rfl
    · rfl
  | some edition =>
    rw [hed] at h
    obtain ⟨⟨set, old, period⟩, hr⟩ := Option.isSome_iff_exists.1 h
    obtain ⟨-, e, b, he, -, rfl, -, hb, hold⟩ := (db.renewableEdge_eq_some_iff _ _ _ _ _ _).1 hr
    simp only [he]
    refine ⟨fun _ => rfl, ?_, rfl⟩
    intro x
    show ((db.licenseSetEntitlements.update _).get? x).map _ = _
    rw [Table.get?_update, Option.map_map]
    by_cases hx : x = (k.license, e.setId)
    · rw [hx, hb, Option.map_some, Option.map_some]
      show some (if (k.license, e.setId) = (k.license, e.setId) then _ else b).updateUntil.isSome
        = some b.updateUntil.isSome
      rw [if_pos rfl, hold]
      rfl
    · congr 1
      funext b'
      show (if x = (k.license, e.setId) then _ else b').updateUntil.isSome = _
      rw [if_neg hx]

/-- The date a matched call is about is afterwards the date it set. -/
theorem dateOf_withDateOf {k : KeyedRenewal} (h : db.Renewable k = true) (date : Timestamp) :
    (db.withDateOf k date).dateOf k = some date := by
  unfold withDateOf dateOf
  unfold Renewable at h
  cases hed : k.edition with
  | none =>
    rw [hed] at h
    obtain ⟨⟨l, period⟩, hr⟩ := Option.isSome_iff_exists.1 h
    have hl := db.get?_of_activeKey ((db.renewableKey_eq_some_iff _ _ _ _).1 hr).1
    show ((db.licenseKeys.update _).get? k.license).bind _ = _
    rw [Table.get?_update, hl, Option.map_some, Option.bind_some, if_pos rfl]
  | some edition =>
    rw [hed] at h
    obtain ⟨⟨set, old, period⟩, hr⟩ := Option.isSome_iff_exists.1 h
    obtain ⟨-, e, b, he, -, rfl, -, hb, -⟩ := (db.renewableEdge_eq_some_iff _ _ _ _ _ _).1 hr
    simp only [he]
    show (db.editions.get? edition).bind _ = _
    rw [he, Option.bind_some]
    show ((db.licenseSetEntitlements.update _).get? (k.license, e.setId)).bind _ = _
    rw [Table.get?_update, hb, Option.map_some, Option.bind_some, if_pos rfl]

/-! ## What one keyed renewal does -/

/-- The ledger holds no row for the pair of the call. -/
def Fresh (db : Catalog) (k : KeyedRenewal) : Bool :=
  (db.licenseRenewals.get? (k.license, k.idempotencyKey)).isNone

/-- The update runs where the call is recorded, and for the first time. -/
theorem runsUpdate_call (k : KeyedRenewal) :
    db.runsUpdate k.call = (db.Recorded k && db.Fresh k) := rfl

/-- The terms do not depend on the ledger. -/
theorem sameTerms_recorded (db : Catalog) (k : KeyedRenewal) : SameTerms db (db.recorded k.call) :=
  ⟨fun _ => rfl, fun _ => rfl, rfl⟩

/-- What one keyed renewal does.  A first call of its pair is recorded, and extends
when it is renewable; every other call leaves the state as it was. -/
theorem run_cases (ses : Session) (db : Catalog) (k : KeyedRenewal) :
    ((db.Recorded k && db.Fresh k) = true ∧ db.Renewable k = true ∧ db.ExtendsOnePeriod ses k ∧
        db.Extends ses k ∧ db.Returns ses k ∧ SameTerms db (k.run ses db)) ∨
      ((db.Recorded k && db.Fresh k) = true ∧ db.Renewable k = false ∧
        k.run ses db = db.recorded k.call ∧ ¬ db.Extends ses k ∧ ¬ db.Returns ses k) ∨
      ((db.Recorded k && db.Fresh k) = false ∧ k.run ses db = db ∧ ¬ db.Extends ses k) := by
  have hstate := db.renew_state ses k.now k.call
  rw [runsUpdate_call] at hstate
  -- the update runs only under a key the ledger does not have
  by_cases hrun : (db.Recorded k && db.Fresh k) = true
  · rw [if_pos hrun] at hstate
    have hrenew : db.renew ses k.now k.call
        = .ok (((db.recorded k.call).extendBound ses k.now k.call).1.map ses.dateText,
            ((db.recorded k.call).extendBound ses k.now k.call).2) := by
      show (if (db.Recorded k && db.Fresh k) = true then _ else _) = _
      rw [if_pos hrun]
      rfl
    cases hren : db.Renewable k with
    | true =>
      have hren' : (db.recorded k.call).Renewable k = true := hren
      obtain ⟨period, hpos, hperiod, heq⟩ := extendBound_of_renewable ses hren'
      rw [heq] at hstate hrenew
      refine Or.inl ⟨hrun, rfl, ⟨period, hperiod, hstate⟩, ?_, ⟨_, _, hrenew⟩, ?_⟩
      · unfold Extends KeyedRenewal.run
        rw [hstate, dateOf_withDateOf hren']
        show some (ses.extend k.now (db.dateOf k) period) ≠ db.dateOf k
        cases hd : db.dateOf k with
        | none => exact nofun
        | some old =>
          intro h
          exact absurd (Option.some.inj h) (ses.lt_extend k.now old hpos).ne'
      · unfold KeyedRenewal.run
        rw [hstate]
        exact (sameTerms_recorded db k).trans (sameTerms_withDateOf hren' _)
    -- nothing to extend, yet the ledger row stays
    | false =>
      have hren' : (db.recorded k.call).Renewable k = false := hren
      have heq := extendBound_of_not_renewable ses hren'
      rw [heq] at hstate hrenew
      refine Or.inr (Or.inl ⟨hrun, rfl, hstate, ?_, ?_⟩)
      · unfold Extends KeyedRenewal.run
        rw [hstate]
        exact fun h => h rfl
      · rintro ⟨date, db', h⟩
        rw [hrenew] at h
        simp at h
  · rw [if_neg hrun] at hstate
    rw [Bool.not_eq_true] at hrun
    refine Or.inr (Or.inr ⟨hrun, hstate, ?_⟩)
    unfold Extends KeyedRenewal.run
    rw [hstate]
    exact fun h => h rfl

theorem sameTerms_run (ses : Session) (db : Catalog) (k : KeyedRenewal) :
    SameTerms db (k.run ses db) := by
  rcases run_cases ses db k with ⟨-, -, -, -, -, h⟩ | ⟨-, -, h, -⟩ | ⟨-, h, -⟩
  · exact h
  · rw [h]
    exact sameTerms_recorded db k
  · rw [h]
    exact SameTerms.refl db

/-- A call extends exactly when it is renewable and the first of its pair. -/
theorem extends_iff (ses : Session) (db : Catalog) (k : KeyedRenewal) :
    db.Extends ses k ↔ db.Renewable k = true ∧ db.Fresh k = true := by
  rcases run_cases ses db k with ⟨hf, hr, -, h, -⟩ | ⟨hf, hr, -, h, -⟩ | ⟨hf, -, h⟩
  · rw [Bool.and_eq_true] at hf
    exact iff_of_true h ⟨hr, hf.2⟩
  · refine iff_of_false h ?_
    rintro ⟨hr', -⟩
    rw [hr] at hr'
    cases hr'
  · refine iff_of_false h ?_
    rintro ⟨hr, hfresh⟩
    rw [recorded_of_renewable hr, hfresh] at hf
    cases hf

/-- A new date leaves the ledger alone. -/
theorem licenseRenewals_withDateOf (db : Catalog) (k : KeyedRenewal) (date : Timestamp) :
    (db.withDateOf k date).licenseRenewals = db.licenseRenewals := by
  unfold withDateOf
  cases k.edition with
  | none => rfl
  | some edition =>
    show (match db.editions.get? edition with | none => db | some e => _).licenseRenewals = _
    cases db.editions.get? edition with
    | none => rfl
    | some e => rfl

/-- The ledger after a call: its pair has a row if the call was recorded. -/
theorem ledger_run (ses : Session) (db : Catalog) (k : KeyedRenewal) (license : Uuid)
    (idempotencyKey : String) :
    ((k.run ses db).licenseRenewals.get? (license, idempotencyKey)).isSome =
      ((db.licenseRenewals.get? (license, idempotencyKey)).isSome ||
        (db.Recorded k && decide (k.license = license ∧ k.idempotencyKey = idempotencyKey))) := by
  have hrecord : ((db.recorded k.call).licenseRenewals.get? (license, idempotencyKey)).isSome =
      ((db.licenseRenewals.get? (license, idempotencyKey)).isSome ||
        decide (k.license = license ∧ k.idempotencyKey = idempotencyKey)) := by
    show ((db.licenseRenewals.insertNew (k.license, k.idempotencyKey) ()).get? _).isSome = _
    rw [Table.get?_insertNew]
    by_cases hpair : (license, idempotencyKey) = (k.license, k.idempotencyKey)
    · obtain ⟨rfl, rfl⟩ := Prod.mk.inj hpair
      rw [if_pos rfl, decide_eq_true ⟨rfl, rfl⟩, Bool.or_true]
      rfl
    · rw [if_neg hpair, decide_eq_false, Bool.or_false]
      rintro ⟨rfl, rfl⟩
      exact hpair rfl
  rcases run_cases ses db k with ⟨hf, -, ⟨period, -, hrun⟩, -⟩ | ⟨hf, -, hrun, -⟩ | ⟨hf, hrun, -⟩
  · rw [hrun, licenseRenewals_withDateOf, hrecord, (Bool.and_eq_true_iff.1 hf).1, Bool.true_and]
  · rw [hrun, hrecord, (Bool.and_eq_true_iff.1 hf).1, Bool.true_and]
  · rw [hrun]
    by_cases hpair : k.license = license ∧ k.idempotencyKey = idempotencyKey
    · obtain ⟨rfl, rfl⟩ := hpair
      cases hrow : db.licenseRenewals.get? (k.license, k.idempotencyKey) with
      | some row => rfl
      | none =>
        -- without a row the call is fresh, so it was not recorded
        have hfresh : db.Fresh k = true := by
          unfold Fresh
          rw [hrow]
          rfl
        rw [hfresh, Bool.and_true] at hf
        rw [hf]
        rfl
    · rw [decide_eq_false hpair, Bool.and_false, Bool.or_false]

/-- A replay reports a date when the call is renewable and, for a key-level one, the
key has a date. -/
theorem exists_currentBound_iff (db : Catalog) (k : KeyedRenewal) :
    (∃ date, db.currentBound k.call = .ok (some date)) ↔
      db.Renewable k = true ∧ (k.edition = none → (db.dateOf k).isSome) := by
  unfold currentBound Renewable dateOf
  have hcall : k.call.edition = k.edition := rfl
  rw [hcall]
  cases k.edition with
  | none =>
    have hkey : db.renewableKey k.call.repo k.call.license = db.renewableKey k.repo k.license := rfl
    simp only [hkey]
    cases hr : db.renewableKey k.repo k.license with
    | none => simp
    | some lp =>
      obtain ⟨l, period⟩ := lp
      have hl := db.get?_of_activeKey ((db.renewableKey_eq_some_iff _ _ _ _).1 hr).1
      cases hd : l.bound.updateUntil <;> simp [hl, hd]
  | some edition =>
    show (∃ date, Except.ok ((db.renewableEdge k.repo k.license edition).map (·.2.1))
      = (Except.ok (some date) : Except SqlError _)) ↔ _
    cases hr : db.renewableEdge k.repo k.license edition with
    | none => simp [hr]
    | some sdp => simp [hr]

/-- A call that returns a bound: it is renewable, and a replay of a key-level
renewal finds a date on the key. -/
def Answers (db : Catalog) (k : KeyedRenewal) : Prop :=
  db.Renewable k = true ∧ (k.edition = none → db.Fresh k = true ∨ (db.dateOf k).isSome)

theorem returns_iff (ses : Session) (db : Catalog) (k : KeyedRenewal) :
    db.Returns ses k ↔ db.Answers k := by
  rcases run_cases ses db k with ⟨hf, hr, -, -, h, -⟩ | ⟨hf, hr, -, -, h⟩ | ⟨hf, -, -⟩
  · rw [Bool.and_eq_true] at hf
    exact iff_of_true h ⟨hr, fun _ => Or.inl hf.2⟩
  · refine iff_of_false h ?_
    rintro ⟨hr', -⟩
    rw [hr] at hr'
    cases hr'
  · have hrenew : db.renew ses k.now k.call
        = (db.currentBound k.call).map fun date => (date.map ses.dateText, db) := by
      refine Eq.trans (if_neg (by rw [hf]; exact Bool.false_ne_true) :
        (if (db.Recorded k && db.Fresh k) = true then _ else _) = _) ?_
      cases db.currentBound k.call <;> rfl
    have hreturns : db.Returns ses k ↔ ∃ date, db.currentBound k.call = .ok (some date) := by
      unfold Returns
      rw [hrenew]
      cases hcur : db.currentBound k.call with
      | error e => simp [Except.map]
      | ok date => cases date <;> simp [Except.map]
    have hstale : db.Renewable k = true → db.Fresh k = false := by
      intro hr
      rw [recorded_of_renewable hr, Bool.true_and] at hf
      exact hf
    rw [hreturns, exists_currentBound_iff]
    constructor
    · rintro ⟨hr, hd⟩
      exact ⟨hr, fun hed => Or.inr (hd hed)⟩
    · rintro ⟨hr, hd⟩
      refine ⟨hr, fun hed => ?_⟩
      rcases hd hed with hfresh | hdate
      · rw [hstale hr] at hfresh
        cases hfresh
      · exact hdate

end Catalog

/-! ## A sequence of keyed renewals -/

open Catalog

/-- The first call of the sequence that the ledger records under the pair. -/
def firstRecorded (db : Catalog) (ks : List KeyedRenewal) (license : Uuid)
    (idempotencyKey : String) : Option KeyedRenewal :=
  ks.find? fun k =>
    db.Recorded k && decide (k.license = license ∧ k.idempotencyKey = idempotencyKey)

/-- Which call was the first of its kind depends on the terms alone. -/
theorem firstRecorded_congr {db s : Catalog} (h : SameTerms db s) (ks : List KeyedRenewal)
    (license : Uuid) (idempotencyKey : String) :
    firstRecorded s ks license idempotencyKey = firstRecorded db ks license idempotencyKey := by
  unfold firstRecorded
  congr 1
  funext k
  rw [h.recorded_eq]

/-- **The number of extensions** of a licence, edition and key: one if the first
recorded call of the pair is renewable and of that edition, else none. -/
theorem length_extensions (ses : Session) (db : Catalog) (ks : List KeyedRenewal)
    (license edition : Uuid) (idempotencyKey : String) :
    (extensions ses db ks license edition idempotencyKey).length =
      if (db.licenseRenewals.get? (license, idempotencyKey)).isSome then 0
      else match firstRecorded db ks license idempotencyKey with
        | none => 0
        | some first =>
          if db.Renewable first = true ∧ db.editionOf first = some edition then 1 else 0 := by
  induction ks generalizing db with
  | nil =>
    show 0 = _
    split_ifs <;> rfl
  | cons k ks ih =>
    have hterms := sameTerms_run ses db k
    have hstep : (extensions ses db (k :: ks) license edition idempotencyKey).length =
        (if db.Concerns license edition idempotencyKey k ∧ db.Extends ses k then 1 else 0) +
          (extensions ses (k.run ses db) ks license edition idempotencyKey).length := by
      show (((db, k) :: Run.trace (KeyedRenewal.run ses) (k.run ses db) ks).filter _).length = _
      rw [List.filter_cons]
      by_cases hc : db.Concerns license edition idempotencyKey k ∧ db.Extends ses k
      · rw [if_pos hc, if_pos (by simpa using hc), List.length_cons, Nat.add_comm]
        rfl
      · rw [if_neg hc, if_neg (by simpa using hc), Nat.zero_add]
        rfl
    rw [hstep, ih, ledger_run, firstRecorded_congr hterms]
    simp only [hterms.renewable_eq, hterms.editionOf_eq]
    cases hrow : (db.licenseRenewals.get? (license, idempotencyKey)).isSome with
    | true =>
      -- the pair has a row already: neither this call nor a later one extends
      have hnot : ¬ (db.Concerns license edition idempotencyKey k ∧ db.Extends ses k) := by
        rintro ⟨⟨rfl, -, rfl⟩, hext⟩
        have hfresh := ((extends_iff ses db k).1 hext).2
        unfold Fresh at hfresh
        rw [Option.isNone_iff_eq_none] at hfresh
        rw [hfresh] at hrow
        cases hrow
      rw [if_neg hnot, if_pos (by simp), if_pos rfl]
    | false =>
      by_cases hhead : (db.Recorded k &&
          decide (k.license = license ∧ k.idempotencyKey = idempotencyKey)) = true
      · -- this call takes the row: it alone decides
        have hfind : firstRecorded db (k :: ks) license idempotencyKey = some k := by
          unfold firstRecorded
          rw [List.find?_cons, hhead]
        rw [hfind, hhead, if_pos (show (false || true) = true from rfl), if_neg Bool.false_ne_true,
          Nat.add_zero]
        have hpair := of_decide_eq_true (Bool.and_eq_true_iff.1 hhead).2
        have hfresh : db.Fresh k = true := by
          unfold Fresh
          rw [hpair.1, hpair.2, Option.isNone_iff_eq_none, ← Option.not_isSome_iff_eq_none, hrow]
          exact Bool.false_ne_true
        have hiff : (db.Concerns license edition idempotencyKey k ∧ db.Extends ses k) ↔
            db.Renewable k = true ∧ db.editionOf k = some edition := by
          rw [extends_iff]
          constructor
          · rintro ⟨⟨-, hed, -⟩, hr, -⟩
            exact ⟨hr, hed⟩
          · rintro ⟨hr, hed⟩
            exact ⟨⟨hpair.1, hed, hpair.2⟩, hr, hfresh⟩
        simp only [hiff]
      · -- this call neither extends under the pair nor takes its row
        have hnot : ¬ (db.Concerns license edition idempotencyKey k ∧ db.Extends ses k) := by
          rintro ⟨⟨rfl, -, rfl⟩, hext⟩
          apply hhead
          rw [recorded_of_renewable ((extends_iff ses db k).1 hext).1]
          simp
        have hfind : firstRecorded db (k :: ks) license idempotencyKey
            = firstRecorded db ks license idempotencyKey := by
          unfold firstRecorded
          rw [List.find?_cons]
          rw [Bool.not_eq_true] at hhead
          rw [hhead]
        rw [Bool.not_eq_true] at hhead
        rw [if_neg hnot, hfind, hhead, Nat.zero_add]
        rfl

/-- What extends is extended by one period. -/
theorem extendsOnePeriod_of_mem {ses : Session} {db : Catalog} {ks : List KeyedRenewal}
    {license edition : Uuid} {idempotencyKey : String} {x : Catalog × KeyedRenewal}
    (hx : x ∈ extensions ses db ks license edition idempotencyKey) :
    x.1.ExtendsOnePeriod ses x.2 := by
  have hext : x.1.Extends ses x.2 := (of_decide_eq_true (List.mem_filter.1 hx).2).2
  rcases run_cases ses x.1 x.2 with ⟨-, -, h, -⟩ | ⟨-, -, -, h, -⟩ | ⟨-, -, h⟩
  · exact h
  · exact absurd hext h
  · exact absurd hext h

/-- Every call of the sequence that answers is of the edition of the first call
recorded under its licence and idempotency key, and that first call is
renewable. -/
def OneEditionPerKey (ses : Session) (db : Catalog) (ks : List KeyedRenewal) : Prop :=
  ∀ x ∈ Run.trace (KeyedRenewal.run ses) db ks, x.1.Answers x.2 →
    ∀ first, firstRecorded db ks x.2.license x.2.idempotencyKey = some first →
      db.Renewable first = true ∧ db.editionOf first = x.1.editionOf x.2

/-- A call that answers is recorded, so its pair has a first recorded call. -/
theorem exists_firstRecorded {ses : Session} {db : Catalog} {ks : List KeyedRenewal}
    {x : Catalog × KeyedRenewal} (hx : x ∈ Run.trace (KeyedRenewal.run ses) db ks)
    (h : x.1.Answers x.2) :
    ∃ first, firstRecorded db ks x.2.license x.2.idempotencyKey = some first := by
  have hterms : SameTerms db x.1 :=
    Run.trace_invariant (fun s k hs => hs.trans (sameTerms_run ses s k)) (SameTerms.refl db) hx
  obtain ⟨pre, post, hks, -⟩ := (Run.mem_trace_iff db ks x).1 hx
  rw [← Option.isSome_iff_exists]
  unfold firstRecorded
  rw [List.find?_isSome]
  refine ⟨x.2, by rw [hks]; simp, ?_⟩
  rw [← hterms.recorded_eq, recorded_of_renewable h.1]
  simp

/-- **When keyed renewals are exactly-once.**  Starting from an empty ledger, a
sequence of keyed renewals extends once whatever it returns a bound for exactly
when no licence and idempotency key is shared between editions, or used first by a
call that renews nothing. -/
theorem exactlyOnce_iff (ses : Session) (db : Catalog) (ks : List KeyedRenewal) :
    ExactlyOnce ses { db with licenseRenewals := ∅ } ks ↔
      OneEditionPerKey ses { db with licenseRenewals := ∅ } ks := by
  generalize hstart : ({ db with licenseRenewals := ∅ } : Catalog) = start
  have hcount : ∀ license edition idem,
      (extensions ses start ks license edition idem).length =
        match firstRecorded start ks license idem with
        | none => 0
        | some first =>
          if start.Renewable first = true ∧ start.editionOf first = some edition then 1 else 0 := by
    intro license edition idem
    rw [length_extensions, ← hstart]
    rfl
  constructor
  · intro h x hx hanswers first hfirst
    -- the call returned a bound, so its edition was extended: by the first call
    obtain ⟨period, -, hperiod, -⟩ := extendBound_of_renewable ses hanswers.1
    obtain ⟨e, he, -⟩ := Option.bind_eq_some_iff.1 hperiod
    obtain ⟨edition, hedition, -⟩ := Option.bind_eq_some_iff.1 he
    have hone := (h x.2.license edition x.2.idempotencyKey
      ⟨x, hx, ⟨rfl, hedition, rfl⟩, (returns_iff ses x.1 x.2).2 hanswers⟩).1
    rw [hcount, hfirst] at hone
    by_cases hok : start.Renewable first = true ∧ start.editionOf first = some edition
    · rw [hedition]
      exact hok
    · have hone : (if start.Renewable first = true ∧ start.editionOf first = some edition
          then 1 else 0) = 1 := hone
      rw [if_neg hok] at hone
      cases hone
  · rintro h license edition idem ⟨x, hx, ⟨rfl, hedition, rfl⟩, hreturns⟩
    have hanswers := (returns_iff ses x.1 x.2).1 hreturns
    obtain ⟨first, hfirst⟩ := exists_firstRecorded hx hanswers
    obtain ⟨hren, hed⟩ := h x hx hanswers first hfirst
    refine ⟨?_, fun y hy => extendsOnePeriod_of_mem hy⟩
    rw [hcount, hfirst]
    exact if_pos ⟨hren, hed.trans hedition⟩

namespace Shop

/-- A renewal of one edition's edge on key 1, for order 7. -/
def orderSeven (edition : Uuid) : KeyedRenewal where
  now := openingDay
  repo := 1
  license := 1
  edition := some edition
  idempotencyKey := "order-7"

/-- One order that renews both subscriptions of a key: the second renewal returns a
bound but extends nothing, because the first one took the ledger row. -/
theorem second_edition_swallowed :
    ¬ ExactlyOnce Session.utc (after [firstSale 1, .addEdition 1 1 4])
        [orderSeven 1, orderSeven 4] := by
  intro h
  have hnone : (extensions Session.utc (after [firstSale 1, .addEdition 1 1 4])
      [orderSeven 1, orderSeven 4] 1 4 "order-7").length = 0 := by decide
  have hreturns : (KeyedRenewal.run Session.utc (after [firstSale 1, .addEdition 1 1 4])
      (orderSeven 1)).Returns Session.utc (orderSeven 4) := by
    rw [returns_iff]
    exact ⟨by decide, nofun⟩
  have hone := (h 1 4 "order-7" ⟨_, List.mem_cons_of_mem _ List.mem_cons_self,
    ⟨rfl, rfl, rfl⟩, hreturns⟩).1
  rw [hnone] at hone
  cases hone

end Shop

end Sconce
