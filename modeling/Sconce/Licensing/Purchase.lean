/-
# Accumulating purchases on a key, and refunding them

A purchase added to a key lands on the edge between the key and the edition's
set.  The edge belongs to the set: an edition that finds one there adds nothing,
and a refund of one edition takes the edge from all.

`purchases_delivered_iff` says when an added purchase is delivered,
`refund_restores_iff` when a refund takes away that purchase and no other.
-/
import Sconce.Licensing.Renewal

namespace Sconce

open Ceiling

namespace Catalog

variable (db : Catalog)

/-! ## What adding an edition does -/

/-- The state with an edge from a key to a set, unless there is one. -/
def withSetEdge (license set : Uuid) (bound : UpdateBound) : Catalog :=
  { db with licenseSetEntitlements := db.licenseSetEntitlements.insertNew (license, set) bound }

/-- The key and the edition that an addition needs: an active unbounded key and an
active edition by reference, both of the repository. -/
def Addable (repo license edition : Uuid) (key : LicenseKey) (ed : Edition) : Prop :=
  db.activeKey repo license = some key ∧ key.bound = .unbounded ∧
    db.activeEdition repo edition = some ed ∧ ed.snapshotAtIssue = false

/-- An active edition is a stored row of the repository. -/
theorem get?_of_activeEdition {repo edition : Uuid} {ed : Edition}
    (h : db.activeEdition repo edition = some ed) :
    db.editions.get? edition = some ed ∧ ed.repoId = repo := by
  unfold activeEdition at h
  rw [Option.filter_eq_some_iff] at h
  have h2 : ed.repoId = repo ∧ ed.active = true := by simpa using h.2
  exact ⟨h.1, h2.1⟩

/-- An addition with its key and edition attaches the edition's set under its
resolved bound; a new edge needs its set. -/
theorem addEditionToLicense_of_addable (ses : Session) (now : Timestamp)
    {repo license edition : Uuid} {key : LicenseKey} {ed : Edition}
    (h : db.Addable repo license edition key ed) :
    db.addEditionToLicense ses now repo license edition =
      if (db.licenseSetEntitlements.get? (license, ed.setId)).isNone ∧
          (db.packageSets.get? ed.setId).isNone then .error .foreignKeyViolation
      else .ok (.added, db.withSetEdge license ed.setId (ses.resolveBound now ed.bound)) := by
  obtain ⟨hkey, hbound, hed, hsnapshot⟩ := h
  have hedge : db.edgeBound ses now (some edition) = ses.resolveBound now ed.bound := by
    unfold edgeBound
    rw [Option.bind_some, (db.get?_of_activeEdition hed).1]
  have hperpetual : key.bound.perpetual = true := (UpdateBound.perpetual_iff _).2 hbound
  unfold addEditionToLicense attachEditionSet
  simp only [hkey, hed, hperpetual, hsnapshot, hedge, Bool.not_true, Bool.or_self,
    Bool.false_eq_true, if_false]
  split_ifs
  · rfl
  · rfl

/-- An addition attaches the edition's set, or leaves the state as it was. -/
theorem addEditionToLicense_cases (ses : Session) (now : Timestamp)
    (repo license edition : Uuid) :
    (∃ key ed, db.Addable repo license edition key ed ∧
        ((db.licenseSetEntitlements.get? (license, ed.setId)).isSome ∨
          (db.packageSets.get? ed.setId).isSome) ∧
        db.addEditionToLicense ses now repo license edition
          = .ok (.added, db.withSetEdge license ed.setId (ses.resolveBound now ed.bound))) ∨
      (rolledBack db (db.addEditionToLicense ses now repo license edition) = db ∧
        ∀ db', db.addEditionToLicense ses now repo license edition ≠ .ok (.added, db')) := by
  by_cases haddable : ∃ key ed, db.Addable repo license edition key ed
  · obtain ⟨key, ed, h⟩ := haddable
    rw [db.addEditionToLicense_of_addable ses now h]
    by_cases hfk : (db.licenseSetEntitlements.get? (license, ed.setId)).isNone ∧
        (db.packageSets.get? ed.setId).isNone
    · rw [if_pos hfk]
      exact Or.inr ⟨rfl, fun _ h => by cases h⟩
    · rw [if_neg hfk]
      refine Or.inl ⟨key, ed, h, ?_, rfl⟩
      rw [not_and_or] at hfk
      rcases hfk with hedge | hset
      · exact Or.inl (by simpa using Option.isSome_iff_ne_none.2 fun hn => hedge (by rw [hn]; rfl))
      · exact Or.inr (by simpa using Option.isSome_iff_ne_none.2 fun hn => hset (by rw [hn]; rfl))
  · right
    unfold addEditionToLicense
    cases hkey : db.activeKey repo license with
    | none => exact ⟨rfl, fun _ h => by cases h⟩
    | some key =>
      cases hed : db.activeEdition repo edition with
      | none => exact ⟨rfl, fun _ h => by cases h⟩
      | some ed =>
        have hblocked : (!key.bound.perpetual || ed.snapshotAtIssue) = true := by
          by_contra hok
          rw [Bool.or_eq_true, not_or, Bool.not_eq_true, Bool.not_eq_true,
            Bool.not_eq_false'] at hok
          exact haddable ⟨key, ed, hkey, (UpdateBound.perpetual_iff _).1 hok.1, hed, hok.2⟩
        simp only [hblocked, if_true]
        exact ⟨rfl, fun _ h => by cases h⟩

variable {db}

/-! ## The reach after an addition -/

/-- An edge that is already there stays as it is. -/
theorem withSetEdge_of_isSome {license set : Uuid} {b : UpdateBound}
    (h : (db.licenseSetEntitlements.get? (license, set)).isSome) :
    db.withSetEdge license set b = db := by
  obtain ⟨e, he⟩ := Option.isSome_iff_exists.1 h
  unfold withSetEdge
  rw [Table.insertNew_of_some he]

/-- An added edge keeps every old one. -/
theorem edge?_withSetEdge_of_some {license set other : Uuid} {b e : UpdateBound} {t : EdgeTarget}
    (h : db.edge? other t = some e) : (db.withSetEdge license set b).edge? other t = some e := by
  cases t with
  | package id => exact h
  | set id => exact Table.get?_insertNew_of_some h (license, set) b

/-- A set edge that is inserted takes nothing from any key. -/
theorem reach_le_withSetEdge (license set : Uuid) (b : UpdateBound) (other : Uuid)
    (name : String) : db.reach other name ≤ (db.withSetEdge license set b).reach other name := by
  apply reach_mono
  rintro c ⟨key, t, e, hkey, he, hn, rfl⟩
  exact ⟨_, ⟨key, t, e, hkey, edge?_withSetEdge_of_some he, hn, rfl⟩, le_rfl⟩

/-- A new edge of an unbounded key brings its own bound to every package of its
set. -/
theorem ceiling_le_reach_withSetEdge {license set : Uuid} {key : LicenseKey}
    (hkey : db.licenseKeys.get? license = some key) (hbound : key.bound = .unbounded)
    (hnew : db.licenseSetEntitlements.get? (license, set) = none) (b : UpdateBound) {name : String}
    (hname : name ∈ db.names (.set set)) :
    (b.ceiling : WithBot _) ≤ (db.withSetEdge license set b).reach license name := by
  apply Covers.le_reach
  refine ⟨key, .set set, b, hkey, ?_, hname, by rw [hbound, UpdateBound.inherit_unbounded]⟩
  show (db.licenseSetEntitlements.insertNew (license, set) b).get? (license, set) = some b
  rw [Table.get?_insertNew_self, hnew, Option.getD_none]

/-- A set resolves to the names of its packages. -/
theorem mem_resolveSet_iff (db : Catalog) (set : Uuid) (name : String) :
    name ∈ db.resolveSet set ↔ name ∈ (db.setPackages set).map (·.2.name) := by
  unfold resolveSet
  rw [List.mem_insertionSort, List.mem_dedup]

/-- A set edge reaches the names of the set's packages. -/
theorem names_set_eq {set : Uuid} (h : (db.packageSets.get? set).isSome) :
    db.names (.set set) = (db.setPackages set).map (·.2.name) :=
  if_pos h

end Catalog

/-! ## When a purchase is delivered -/

/-- The answer for a package is at least as permissive as a bound. -/
def AtLeast (b : UpdateBound) (answer : Option UpdateBound) : Prop := Permissive (some b) answer

/-- What adding an edition to a key promises when it answers `Added`: every package
the edition's set resolves to is unlocked at least as far as the edition's fresh
bound, and no package less than before. -/
def Delivers (ses : Session) (now : Timestamp) (db : Catalog) (repo license edition : Uuid) :
    Prop :=
  ∀ db' ed, db.addEditionToLicense ses now repo license edition = .ok (.added, db') →
    db.editions.get? edition = some ed →
      (∀ name ∈ db.resolveSet ed.setId,
          AtLeast (ses.resolveBound now ed.bound) (db'.entitledBound license name)) ∧
        ∀ name, Permissive (db.entitledBound license name) (db'.entitledBound license name)

/-- The edge between the key and the edition's set is free, or the key's covering
edges already reach the edition's fresh bound on both axes for every package of the
set. -/
def EdgeFreeOrCovered (ses : Session) (now : Timestamp) (db : Catalog)
    (repo license edition : Uuid) : Prop :=
  ∀ key ed, db.Addable repo license edition key ed →
    (db.licenseSetEntitlements.get? (license, ed.setId)).isSome →
      ∀ name ∈ db.resolveSet ed.setId,
        (∃ e, db.Covers license name e ∧
            axis (ses.resolveBound now ed.bound).updateUntil ≤ axis e.updateUntil) ∧
          ∃ e, db.Covers license name e ∧
            axis (ses.resolveBound now ed.bound).versionCapMajor ≤ axis e.versionCapMajor

/-- A key has at least a bound where, on either axis, some edge that covers the name has. -/
theorem atLeast_entitledBound_iff (db : Catalog) (license : Uuid) (name : String)
    (b : UpdateBound) :
    AtLeast b (db.entitledBound license name) ↔
      (∃ e, db.Covers license name e ∧ axis b.updateUntil ≤ axis e.updateUntil) ∧
        ∃ e, db.Covers license name e ∧ axis b.versionCapMajor ≤ axis e.versionCapMajor := by
  unfold AtLeast
  rw [permissive_iff, grant_some, ← Catalog.reach_eq_grant, Catalog.ceiling_le_reach_iff]

/-- One addition delivers exactly when the set's edge is free, or already covered. -/
theorem delivers_iff (ses : Session) (now : Timestamp) (db : Catalog)
    (repo license edition : Uuid) :
    Delivers ses now db repo license edition ↔
      EdgeFreeOrCovered ses now db repo license edition := by
  constructor
  · intro h key ed haddable hedge name hname
    have hadd := db.addEditionToLicense_of_addable ses now haddable
    obtain ⟨e, he⟩ := Option.isSome_iff_exists.1 hedge
    -- on conflict do nothing: the edge there stays, and has to cover the purchase
    rw [if_neg (by rw [he]; simp), Catalog.withSetEdge_of_isSome hedge] at hadd
    have hed := (db.get?_of_activeEdition haddable.2.2.1).1
    exact (atLeast_entitledBound_iff db license name _).1 ((h db ed hadd hed).1 name hname)
  · intro h db' ed hadd hed
    rcases db.addEditionToLicense_cases ses now repo license edition with
      ⟨key, ed', haddable, hset, heq⟩ | ⟨-, hnot⟩
    · have hed' := (db.get?_of_activeEdition haddable.2.2.1).1
      rw [hed, Option.some.injEq] at hed'
      subst hed'
      rw [heq, Except.ok.injEq, Prod.mk.injEq] at hadd
      obtain ⟨-, rfl⟩ := hadd
      refine ⟨?_, ?_⟩
      · -- the set bought: by the edge there, or by the new one
        intro name hname
        cases hedge : db.licenseSetEntitlements.get? (license, ed.setId) with
        | some e =>
          have hsome : (db.licenseSetEntitlements.get? (license, ed.setId)).isSome := by
            rw [hedge]
            rfl
          rw [Catalog.withSetEdge_of_isSome hsome]
          exact (atLeast_entitledBound_iff db license name _).2 (h key ed haddable hsome name hname)
        | none =>
          have hexists : (db.packageSets.get? ed.setId).isSome := by
            rcases hset with hsome | hexists
            · rw [hedge] at hsome
              cases hsome
            · exact hexists
          rw [Catalog.mem_resolveSet_iff, ← Catalog.names_set_eq hexists] at hname
          unfold AtLeast
          rw [permissive_iff, grant_some, ← Catalog.reach_eq_grant]
          exact Catalog.ceiling_le_reach_withSetEdge (db.get?_of_activeKey haddable.1)
            haddable.2.1 hedge _ hname
      · -- nothing entitled before is lost
        intro name
        rw [Catalog.permissive_entitledBound_iff]
        exact Catalog.reach_le_withSetEdge license ed.setId _ license name
    · exact absurd hadd (hnot db')

/-- An addition or a renewal on some key. -/
inductive AccountOp where
  | addEdition (repo license edition : Uuid)
  | renew (c : RenewCall)

/-- The call as one of the writers. -/
def AccountOp.toLicenseOp : AccountOp → LicenseOp
  | .addEdition repo license edition => .addEdition repo license edition
  | .renew c => .renew c

/-- The state an addition or a renewal leaves. -/
def AccountOp.run (ses : Session) (db : Catalog) (x : Timed AccountOp) : Catalog :=
  LicenseOp.run ses none db ⟨x.now, x.op.toLicenseOp⟩

/-- Two tables that agree but for one row still do after the same insert. -/
theorem get?_insertNew_congr {κ ν : Type*} [DecidableEq κ] {t t' : Table κ ν} {x k : κ}
    (h : ∀ k, k ≠ x → t.get? k = t'.get? k) (hk : k ≠ x) (a : κ) (v : ν) :
    (t.insertNew a v).get? k = (t'.insertNew a v).get? k := by
  rw [Table.get?_insertNew, Table.get?_insertNew]
  by_cases hka : k = a
  · rw [if_pos hka, if_pos hka, ← hka, h k hk]
  · rw [if_neg hka, if_neg hka, h k hk]

/-- Two states that agree but for the edge between one key and one set. -/
structure AgreeOff (license set : Uuid) (s t : Catalog) : Prop where
  rest : s = { t with licenseSetEntitlements := s.licenseSetEntitlements }
  edges : ∀ k, k ≠ (license, set) →
    s.licenseSetEntitlements.get? k = t.licenseSetEntitlements.get? k

namespace AgreeOff

variable {license set : Uuid}

/-- An addition keeps the agreement: it writes one edge, the same in both states
unless it is the edge left out. -/
theorem addEdition {s t : Catalog} (h : AgreeOff license set s t) (ses : Session)
    (now : Timestamp) (repo key edition : Uuid) :
    AgreeOff license set (rolledBack s (s.addEditionToLicense ses now repo key edition))
      (rolledBack t (t.addEditionToLicense ses now repo key edition)) := by
  obtain ⟨hrest, hedges⟩ := h
  generalize s.licenseSetEntitlements = edges at hrest hedges
  subst hrest
  by_cases haddable : ∃ l ed, t.Addable repo key edition l ed
  · obtain ⟨l, ed, hadd⟩ := haddable
    have hadd' : ({ t with licenseSetEntitlements := edges } : Catalog).Addable repo key edition l
      ed := hadd
    rw [Catalog.addEditionToLicense_of_addable _ ses now hadd,
      Catalog.addEditionToLicense_of_addable _ ses now hadd']
    by_cases hx : (key, ed.setId) = (license, set)
    · -- the edge left out: whatever happens to it, the others stay
      rw [hx]
      split_ifs
      · exact ⟨rfl, hedges⟩
      · refine ⟨rfl, fun k hk => ?_⟩
        exact (hedges k hk).trans (Table.get?_insertNew_of_ne _ _ (hx ▸ hk)).symm
      · refine ⟨rfl, fun k hk => ?_⟩
        exact (Table.get?_insertNew_of_ne _ _ (hx ▸ hk)).trans (hedges k hk)
      · exact ⟨rfl, fun k hk => get?_insertNew_congr hedges hk _ _⟩
    · have hsame : edges.get? (key, ed.setId) = t.licenseSetEntitlements.get? (key, ed.setId) :=
        hedges _ hx
      show AgreeOff license set (rolledBack _ (if (edges.get? (key, ed.setId)).isNone ∧ _ then _
        else _)) _
      rw [hsame]
      split_ifs
      · exact ⟨rfl, hedges⟩
      · exact ⟨rfl, fun k hk => get?_insertNew_congr hedges hk _ _⟩
  · have hstay : ∀ d : Catalog, (¬ ∃ l ed, d.Addable repo key edition l ed) →
        rolledBack d (d.addEditionToLicense ses now repo key edition) = d := by
      intro d hd
      rcases d.addEditionToLicense_cases ses now repo key edition with
        ⟨l, ed, hadd, -⟩ | ⟨hstay, -⟩
      · exact absurd ⟨l, ed, hadd⟩ hd
      · exact hstay
    rw [hstay t haddable, hstay { t with licenseSetEntitlements := edges } haddable]
    exact ⟨rfl, hedges⟩

/-- A key-level renewal keeps the agreement: it looks at no edge. -/
theorem renewKey (t : Catalog) (edges : Table (Uuid × Uuid) UpdateBound) (ses : Session)
    (now : Timestamp) (repo key : Uuid)
    (h : ∀ k, k ≠ (license, set) → edges.get? k = t.licenseSetEntitlements.get? k) :
    AgreeOff license set
      (({ t with licenseSetEntitlements := edges } : Catalog).renewKey ses now repo key).2
      (t.renewKey ses now repo key).2 := by
  unfold Catalog.renewKey
  have hsame : ({ t with licenseSetEntitlements := edges } : Catalog).renewableKey repo key
      = t.renewableKey repo key := rfl
  rw [hsame]
  cases t.renewableKey repo key with
  | none => exact ⟨rfl, h⟩
  | some lp => exact ⟨rfl, h⟩

/-- An edge renewal writes no edge but that of its edition's set. -/
theorem renewEdge_frame (t : Catalog) (ses : Session) (now : Timestamp) (repo key edition : Uuid) :
    (t.renewEdge ses now repo key edition).2 =
        { t with
          licenseSetEntitlements :=
            (t.renewEdge ses now repo key edition).2.licenseSetEntitlements } ∧
      ∀ k, (∀ ed, t.editions.get? edition = some ed → k ≠ (key, ed.setId)) →
        (t.renewEdge ses now repo key edition).2.licenseSetEntitlements.get? k
          = t.licenseSetEntitlements.get? k := by
  rcases t.renewEdge_cases ses now repo key edition with
    ⟨-, heq⟩ | ⟨s, b, date, period, hr, -, -, -, heq⟩
  · rw [heq]
    exact ⟨rfl, fun _ _ => rfl⟩
  · obtain ⟨-, ed, -, hed, -, rfl, -⟩ := (t.renewableEdge_eq_some_iff _ _ _ _ _ _).1 hr
    rw [heq]
    refine ⟨rfl, fun k hk => ?_⟩
    show (t.licenseSetEntitlements.update _).get? k = _
    rw [Table.get?_update]
    cases t.licenseSetEntitlements.get? k with
    | none => rfl
    | some b =>
      show some (if k = (key, ed.setId) then _ else b) = some b
      rw [if_neg (hk ed hed)]

/-- An edge renewal keeps the agreement. -/
theorem renewEdge (t : Catalog) (edges : Table (Uuid × Uuid) UpdateBound) (ses : Session)
    (now : Timestamp) (repo key edition : Uuid)
    (h : ∀ k, k ≠ (license, set) → edges.get? k = t.licenseSetEntitlements.get? k) :
    AgreeOff license set
      (({ t with licenseSetEntitlements := edges } : Catalog).renewEdge ses now repo key edition).2
      (t.renewEdge ses now repo key edition).2 := by
  obtain ⟨hs, hsedges⟩ :=
    renewEdge_frame { t with licenseSetEntitlements := edges } ses now repo key edition
  obtain ⟨ht, htedges⟩ := renewEdge_frame t ses now repo key edition
  by_cases hx : ∃ ed, t.editions.get? edition = some ed ∧ (key, ed.setId) = (license, set)
  · -- only the edge left out can change
    obtain ⟨ed, hed, hkey⟩ := hx
    have hoff : ∀ k, k ≠ (license, set) → ∀ ed', t.editions.get? edition = some ed' →
        k ≠ (key, ed'.setId) := by
      intro k hk ed' hed'
      rw [hed, Option.some.injEq] at hed'
      rw [← hed', hkey]
      exact hk
    refine ⟨?_, fun k hk => ?_⟩
    · rw [hs, ht]
    · rw [hsedges k (hoff k hk), htedges k (hoff k hk)]
      exact h k hk
  · have hsame : ({ t with licenseSetEntitlements := edges } : Catalog).renewableEdge repo key edition
        = t.renewableEdge repo key edition := by
      unfold Catalog.renewableEdge
      refine Option.bind_congr fun _ _ => Option.bind_congr fun ed hed =>
        Option.bind_congr fun _ _ => ?_
      have hed := (Option.filter_eq_some_iff.1 hed).1
      show (edges.get? (key, ed.setId)).bind _ = _
      rw [h (key, ed.setId) fun heq => hx ⟨ed, hed, heq⟩]
      rfl
    unfold Catalog.renewEdge
    rw [hsame]
    cases t.renewableEdge repo key edition with
    | none => exact ⟨rfl, h⟩
    | some sdp =>
      refine ⟨rfl, fun k hk => ?_⟩
      show (edges.update _).get? k = (t.licenseSetEntitlements.update _).get? k
      rw [Table.get?_update, Table.get?_update, h k hk]

/-- A renewal keeps the agreement. -/
theorem renew {s t : Catalog} (h : AgreeOff license set s t) (ses : Session) (now : Timestamp)
    (c : RenewCall) :
    AgreeOff license set (rolledBack s (s.renew ses now c)) (rolledBack t (t.renew ses now c)) := by
  obtain ⟨hrest, hedges⟩ := h
  generalize s.licenseSetEntitlements = edges at hrest hedges
  subst hrest
  rw [Catalog.renew_state, Catalog.renew_state]
  have hsame : ({ t with licenseSetEntitlements := edges } : Catalog).runsUpdate c
      = t.runsUpdate c := rfl
  rw [hsame]
  by_cases hrun : t.runsUpdate c = true
  · rw [if_pos hrun, if_pos hrun]
    obtain ⟨ledger, hledger⟩ := t.recorded_eq c
    have hledger' : ({ t with licenseSetEntitlements := edges } : Catalog).recorded c
        = { t with licenseSetEntitlements := edges, licenseRenewals := ledger } := by
      have hsplit : ({ t with licenseSetEntitlements := edges } : Catalog).recorded c
          = { t.recorded c with licenseSetEntitlements := edges } := by
        unfold Catalog.recorded
        cases c.idempotencyKey with
        | none => rfl
        | some idem => rfl
      rw [hsplit, hledger]
    rw [hledger, hledger']
    unfold Catalog.extendBound
    cases c.edition with
    | none =>
      exact renewKey { t with licenseRenewals := ledger } edges ses now c.repo c.license hedges
    | some edition =>
      exact renewEdge { t with licenseRenewals := ledger } edges ses now c.repo c.license edition
        hedges
  · rw [if_neg hrun, if_neg hrun]
    exact ⟨rfl, hedges⟩

/-- An operation keeps two catalogs alike off the edge. -/
theorem run {s t : Catalog} (h : AgreeOff license set s t) (ses : Session) (x : Timed AccountOp) :
    AgreeOff license set (AccountOp.run ses s x) (AccountOp.run ses t x) := by
  obtain ⟨now, op⟩ := x
  cases op with
  | addEdition repo key edition => exact h.addEdition ses now repo key edition
  | renew c => exact h.renew ses now c

end AgreeOff

/-! ### What additions and renewals leave alone -/

namespace AccountOp

/-- Neither an addition nor a renewal touches an edition, or moves a key to another
repository. -/
theorem run_frame (ses : Session) (db : Catalog) (x : Timed AccountOp) :
    (run ses db x).editions = db.editions ∧
      ∀ license, ((run ses db x).licenseKeys.get? license).map (·.repoId)
        = (db.licenseKeys.get? license).map (·.repoId) := by
  obtain ⟨now, op⟩ := x
  cases op with
  | addEdition repo license edition =>
    show (rolledBack db (db.addEditionToLicense ses now repo license edition)).editions = _ ∧
      ∀ key, ((rolledBack db (db.addEditionToLicense ses now repo license
        edition)).licenseKeys.get? key).map _ = _
    rcases db.addEditionToLicense_cases ses now repo license edition with
      ⟨key, ed, -, -, heq⟩ | ⟨hstay, -⟩
    · rw [heq]
      exact ⟨rfl, fun _ => rfl⟩
    · rw [hstay]
      exact ⟨rfl, fun _ => rfl⟩
  | renew c =>
    show (rolledBack db (db.renew ses now c)).editions = _ ∧
      ∀ license, ((rolledBack db (db.renew ses now c)).licenseKeys.get? license).map _ = _
    rw [Catalog.renew_state]
    by_cases hrun : db.runsUpdate c = true
    · rw [if_pos hrun]
      -- the ledger row first, then the bound of a key or of an edge
      obtain ⟨ledger, hledger⟩ := db.recorded_eq c
      rw [hledger]
      unfold Catalog.extendBound
      cases c.edition with
      | none =>
        show (Catalog.renewKey _ ses now c.repo c.license).2.editions = _ ∧
          ∀ license, ((Catalog.renewKey _ ses now c.repo c.license).2.licenseKeys.get? license).map
            _ = _
        rcases ({ db with licenseRenewals := ledger } : Catalog).renewKey_cases ses now c.repo
          c.license with ⟨-, heq⟩ | ⟨l, period, -, -, -, heq⟩
        · rw [heq]
          exact ⟨rfl, fun _ => rfl⟩
        · rw [heq]
          refine ⟨rfl, fun license => ?_⟩
          show ((db.licenseKeys.update _).get? license).map _ = _
          rw [Table.get?_update, Option.map_map]
          congr 1
          funext l
          show (if license = c.license then _ else l).repoId = l.repoId
          split_ifs
          · rfl
          · rfl
      | some edition =>
        obtain ⟨hframe, -⟩ := AgreeOff.renewEdge_frame { db with licenseRenewals := ledger } ses now
          c.repo c.license edition
        show (Catalog.renewEdge _ ses now c.repo c.license edition).2.editions = _ ∧
          ∀ license, ((Catalog.renewEdge _ ses now c.repo c.license edition).2.licenseKeys.get?
            license).map _ = _
        rw [hframe]
        exact ⟨rfl, fun _ => rfl⟩
    · rw [if_neg hrun]
      exact ⟨rfl, fun _ => rfl⟩

/-- A run keeps the editions, and every key in its repository. -/
theorem final_frame (ses : Session) (db : Catalog) (xs : List (Timed AccountOp)) :
    (Run.final (run ses) db xs).editions = db.editions ∧
      ∀ license, ((Run.final (run ses) db xs).licenseKeys.get? license).map (·.repoId)
        = (db.licenseKeys.get? license).map (·.repoId) := by
  apply Run.final_invariant fun s : Catalog => s.editions = db.editions ∧
    ∀ license, (s.licenseKeys.get? license).map (·.repoId)
      = (db.licenseKeys.get? license).map (·.repoId)
  · intro x _ s hs
    obtain ⟨heditions, hkeys⟩ := run_frame ses s x
    exact ⟨heditions.trans hs.1, fun license => (hkeys license).trans (hs.2 license)⟩
  · exact ⟨rfl, fun _ => rfl⟩

end AccountOp

/-! ### The key without one edge -/

namespace Catalog

/-- The state without the edge between a key and a set. -/
def withoutEdge (db : Catalog) (license set : Uuid) : Catalog :=
  { db with
    licenseSetEntitlements := db.licenseSetEntitlements.delete fun k _ => k = (license, set) }

/-- An edge of the key other than the one on the set covers the package. -/
def CoversOff (db : Catalog) (license set : Uuid) (name : String) (b : UpdateBound) : Prop :=
  ∃ key t e, t ≠ .set set ∧ db.licenseKeys.get? license = some key ∧
    db.edge? license t = some e ∧ name ∈ db.names t ∧ e.inherit key.bound = b

/-- One set edge is taken away, and the others stay. -/
theorem edge?_withoutEdge (db : Catalog) (license set : Uuid) (t : EdgeTarget) :
    (db.withoutEdge license set).edge? license t
      = if t = .set set then none else db.edge? license t := by
  cases t with
  | package id => rfl
  | set id =>
    show (db.licenseSetEntitlements.delete _).get? (license, id) = _
    rw [Table.get?_delete]
    by_cases hid : id = set
    · subst hid
      rw [if_pos rfl, Option.filter_eq_none_iff]
      intro b _
      simp
    · rw [if_neg (by simpa using hid)]
      show (db.licenseSetEntitlements.get? (license, id)).filter _
        = db.licenseSetEntitlements.get? (license, id)
      cases db.licenseSetEntitlements.get? (license, id) with
      | none => rfl
      | some b => simp [hid]

/-- Without the edge a name is covered by the other edges alone. -/
theorem covers_withoutEdge_iff (db : Catalog) (license set : Uuid) (name : String)
    (b : UpdateBound) :
    (db.withoutEdge license set).Covers license name b ↔ db.CoversOff license set name b := by
  constructor
  · rintro ⟨key, t, e, hkey, he, hn, hb⟩
    rw [edge?_withoutEdge] at he
    split_ifs at he with ht
    exact ⟨key, t, e, ht, hkey, he, hn, hb⟩
  · rintro ⟨key, t, e, ht, hkey, he, hn, hb⟩
    refine ⟨key, t, e, hkey, ?_, hn, hb⟩
    rw [edge?_withoutEdge, if_neg ht]
    exact he

/-- The edge between a key and a set gives nothing of its own: what it covers the
key's other edges cover as far, on each axis. -/
def EdgeRedundant (db : Catalog) (license set : Uuid) : Prop :=
  ∀ key e, db.licenseKeys.get? license = some key →
    db.licenseSetEntitlements.get? (license, set) = some e →
      ∀ name ∈ db.names (.set set),
        (∃ c, db.CoversOff license set name c ∧
            axis (e.inherit key.bound).updateUntil ≤ axis c.updateUntil) ∧
          ∃ c, db.CoversOff license set name c ∧
            axis (e.inherit key.bound).versionCapMajor ≤ axis c.versionCapMajor

/-- Dropping an edge changes nothing exactly when it is redundant. -/
theorem reach_withoutEdge_iff (db : Catalog) (license set : Uuid) :
    (∀ name, (db.withoutEdge license set).reach license name = db.reach license name) ↔
      db.EdgeRedundant license set := by
  simp only [EdgeRedundant, ← covers_withoutEdge_iff]
  constructor
  · intro h key e hkey he name hname
    rw [← ceiling_le_reach_iff, h name]
    exact Covers.le_reach ⟨key, .set set, e, hkey, he, hname, rfl⟩
  · intro h name
    apply le_antisymm
    · apply reach_mono
      intro b hb
      obtain ⟨key, t, e, -, hkey, he, hn, rfl⟩ := (db.covers_withoutEdge_iff license set name b).1 hb
      exact ⟨_, ⟨key, t, e, hkey, he, hn, rfl⟩, le_rfl⟩
    · rw [reach_le_iff]
      rintro b ⟨key, t, e, hkey, he, hn, rfl⟩
      by_cases ht : t = .set set
      · subst ht
        rw [ceiling_le_reach_iff]
        exact h key e hkey he name hn
      · apply Covers.le_reach
        exact (db.covers_withoutEdge_iff license set name _).2
          ⟨key, t, e, ht, hkey, he, hn, rfl⟩

end Catalog

/-- The key after a purchase, other calls, and the refund of that purchase. -/
def refunded (ses : Session) (db : Catalog) (others : List (Timed AccountOp))
    (repo license edition : Uuid) : Catalog :=
  ((Run.final (AccountOp.run ses) db others).removeEditionFromLicense repo license edition).2

/-- A refund leaves the key with the edges the other calls alone would have given
it, but for the edge on the edition's set. -/
theorem edge?_refunded (ses : Session) (now : Timestamp) {db db' : Catalog}
    {repo license edition : Uuid} {ed : Edition} (others : List (Timed AccountOp))
    (hadd : db.addEditionToLicense ses now repo license edition = .ok (.added, db'))
    (hed : db.editions.get? edition = some ed) :
    ∃ edges : Table (Uuid × Uuid) UpdateBound,
      refunded ses db' others repo license edition =
          { Run.final (AccountOp.run ses) db others with licenseSetEntitlements := edges } ∧
        ∀ k, edges.get? k = ((Run.final (AccountOp.run ses) db others).withoutEdge license
          ed.setId).licenseSetEntitlements.get? k := by
  rcases db.addEditionToLicense_cases ses now repo license edition with
    ⟨key, ed', haddable, -, heq⟩ | ⟨-, hnot⟩
  · obtain ⟨hed', hrepo⟩ := db.get?_of_activeEdition haddable.2.2.1
    rw [hed, Option.some.injEq] at hed'
    subst hed'
    rw [heq, Except.ok.injEq, Prod.mk.injEq] at hadd
    obtain ⟨-, rfl⟩ := hadd
    -- the two runs start apart on the edge bought and nowhere else
    have hstart : AgreeOff license ed.setId
        (db.withSetEdge license ed.setId (ses.resolveBound now ed.bound)) db :=
      ⟨rfl, fun k hk => Table.get?_insertNew_of_ne _ _ hk⟩
    obtain ⟨hrest, hedges⟩ := Run.final_lockstep (AgreeOff license ed.setId)
      (fun x (_ : x ∈ others) s t h => h.run ses x) hstart
    obtain ⟨heditions, hkeys⟩ := AccountOp.final_frame ses
      (db.withSetEdge license ed.setId (ses.resolveBound now ed.bound)) others
    unfold refunded
    generalize Run.final (AccountOp.run ses)
      (db.withSetEdge license ed.setId (ses.resolveBound now ed.bound)) others = s at *
    generalize Run.final (AccountOp.run ses) db others = g at *
    -- no run moves a key to another repository, so the refund finds the key
    have hin : (s.keyIn repo license).isSome = true := by
      obtain ⟨hkey, hkrepo, -⟩ := (db.activeKey_eq_some_iff repo license key).1 haddable.1
      have hmap := hkeys license
      rw [show (db.withSetEdge _ _ _).licenseKeys = db.licenseKeys from rfl, hkey,
        Option.map_some, Option.map_eq_some_iff] at hmap
      obtain ⟨l, hl, hlrepo⟩ := hmap
      unfold Catalog.keyIn
      rw [hl, Option.filter_some, hlrepo, hkrepo]
      simp
    -- and no run changes the editions, so it finds the same set
    have hset : ((s.editions.get? edition).filter fun e => e.repoId = repo).map (·.setId)
        = some ed.setId := by
      rw [heditions]
      show ((db.editions.get? edition).filter _).map _ = _
      rw [hed, Option.filter_some, hrepo]
      simp
    refine ⟨(s.removeEditionFromLicense repo license edition).2.licenseSetEntitlements, ?_, ?_⟩
    · exact congrArg (fun d : Catalog => { d with
        licenseSetEntitlements :=
          (s.removeEditionFromLicense repo license edition).2.licenseSetEntitlements }) hrest
    · intro k
      show (s.licenseSetEntitlements.delete _).get? k = (g.licenseSetEntitlements.delete _).get? k
      rw [Table.get?_delete, Table.get?_delete, hin, hset]
      by_cases hk : k = (license, ed.setId)
      · subst hk
        simp
      · rw [hedges k hk]
        have hcond : ¬ (k.1 = license ∧ k.2 = ed.setId) := fun h => hk (Prod.ext h.1 h.2)
        simp [hk, hcond]
  · exact absurd hadd (hnot db')

/-- **When a refund undoes only its own purchase.**  After an addition, other
additions and renewals, and the refund, the key is given what the others alone
would have given it exactly when the others alone leave no edge on the edition's
set, or one that gives nothing of its own. -/
theorem refund_restores_iff (ses : Session) (now : Timestamp) (db db' : Catalog)
    (repo license edition : Uuid) (ed : Edition) (others : List (Timed AccountOp))
    (hadd : db.addEditionToLicense ses now repo license edition = .ok (.added, db'))
    (hed : db.editions.get? edition = some ed) :
    (∀ name, (refunded ses db' others repo license edition).entitledBound license name
        = (Run.final (AccountOp.run ses) db others).entitledBound license name) ↔
      (Run.final (AccountOp.run ses) db others).EdgeRedundant license ed.setId := by
  obtain ⟨edges, hstate, hedges⟩ := edge?_refunded ses now others hadd hed
  rw [← Catalog.reach_withoutEdge_iff]
  refine forall_congr' fun name => ?_
  have hreach : (refunded ses db' others repo license edition).reach license name
      = ((Run.final (AccountOp.run ses) db others).withoutEdge license ed.setId).reach license
          name := by
    rw [hstate]
    apply Catalog.reach_eq_of_same_edges
    · rfl
    · intro t
      cases t with
      | package id => rfl
      | set id => exact hedges (license, id)
    · intro t
      rfl
  rw [← hreach]
  constructor
  · intro h
    rw [Catalog.reach_eq_grant, Catalog.reach_eq_grant, h]
  · exact Catalog.entitledBound_congr

namespace Shop

/-- A lifetime suite bought beside the annual core and refunded: nothing else sat on
the suite's set. -/
theorem refund_restores_iff_suite :
    (∀ name, (refunded Session.utc
          ((after [firstSale 1]).withSetEdge 1 2 ⟨none, none⟩) [] 1 1 2).entitledBound 1 name
        = (after [firstSale 1]).entitledBound 1 name) ↔
      (after [firstSale 1]).EdgeRedundant 1 2 :=
  refund_restores_iff Session.utc openingDay (after [firstSale 1])
    ((after [firstSale 1]).withSetEdge 1 2 ⟨none, none⟩) 1 1 2
    (edition "Suite lifetime" 2 .perpetual (by decide)) [] rfl rfl

/-- A lifetime purchase on the set of a key's monthly edition, and its refund: the
monthly edition, bought before and never refunded, is gone. -/
theorem refund_takes_monthly :
    ∃ db', (after [firstSale 4]).addEditionToLicense Session.utc openingDay 1 1 2
        = .ok (.added, db') ∧
      (refunded Session.utc db' [] 1 1 2).entitledBound 1 "acme/tools" = none ∧
      (after [firstSale 4]).entitledBound 1 "acme/tools"
        = some ⟨some (toTimestamp 1709164800), none⟩ :=
  ⟨after [firstSale 4], rfl, by decide, by decide⟩

end Shop

end Sconce
