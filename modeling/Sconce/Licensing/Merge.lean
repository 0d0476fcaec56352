/-
# Merging two keys

`merge_license_keys` copies every edge of the source onto the target, with the
source key's bounds materialized, and revokes the source.  Edge by edge the
target ends with the wider of two bounds, so its reach on every package becomes
the supremum of the two reaches; everything else stays.
-/
import Sconce.Licensing.Operations

namespace Sconce

open Ceiling

/-! ## The copied edges -/

/-- The two edges on one target, the moved one joined into the stored one. -/
def joinEdge (stored moved : Option UpdateBound) : Option UpdateBound :=
  match moved with
  | none => stored
  | some m => some ((stored.map fun old => old.widest m).getD m)

/-- A copied table at the target key: every edge of the source is joined in. -/
theorem get?_copyEdges_target (edges : Table (Uuid × Uuid) UpdateBound) (sourceKey : UpdateBound)
    (source target id : Uuid) :
    (Catalog.copyEdges edges sourceKey source target).get? (target, id)
      = joinEdge (edges.get? (target, id))
          ((edges.get? (source, id)).map fun e => e.inherit sourceKey) := by
  unfold Catalog.copyEdges
  have hnodup : (((edges.rows.filter fun r => r.1.1 = source).map fun r =>
      ((target, r.1.2), r.2.inherit sourceKey)).map Prod.fst).Nodup := by
    rw [List.map_map]
    -- the moved keys differ because the source's keys do
    have hkeys : ((edges.rows.filter fun r => r.1.1 = source).map Prod.fst).Nodup :=
      edges.nodup.sublist (List.Sublist.map _ List.filter_sublist)
    refine List.Nodup.map_on ?_ hkeys.of_map
    intro r hr s hs hrs
    have hpair : (target, r.1.2) = (target, s.1.2) := hrs
    have hid : r.1.2 = s.1.2 := (Prod.mk.inj hpair).2
    have hr1 : r.1.1 = source := by simpa using (List.mem_filter.1 hr).2
    have hs1 : s.1.1 = source := by simpa using (List.mem_filter.1 hs).2
    have hkey : r.1 = s.1 := Prod.ext (hr1.trans hs1.symm) hid
    exact List.inj_on_of_nodup_map hkeys hr hs hkey
  cases hsrc : edges.get? (source, id) with
  | none =>
    rw [Option.map_none]
    show _ = edges.get? (target, id)
    apply Table.get?_upsertAll_of_notMem
    intro v hv
    obtain ⟨⟨⟨l, i⟩, e⟩, hr, heq⟩ := List.mem_map.1 hv
    obtain ⟨hrow, hl⟩ := List.mem_filter.1 hr
    have hl : l = source := by simpa using hl
    have hi : i = id := congrArg (fun x => x.1.2) heq
    rw [hl, hi, Table.mem_rows_iff, hsrc] at hrow
    cases hrow
  | some e =>
    rw [Option.map_some]
    apply Table.get?_upsertAll_of_mem _ _ hnodup
    refine List.mem_map.2 ⟨((source, id), e), ?_, rfl⟩
    rw [List.mem_filter, Table.mem_rows_iff]
    exact ⟨hsrc, by simp⟩

/-- A copied table elsewhere is the old one. -/
theorem get?_copyEdges_of_ne (edges : Table (Uuid × Uuid) UpdateBound) (sourceKey : UpdateBound)
    (source : Uuid) {target license : Uuid} (h : license ≠ target) (id : Uuid) :
    (Catalog.copyEdges edges sourceKey source target).get? (license, id)
      = edges.get? (license, id) := by
  apply Table.get?_upsertAll_of_notMem
  intro v hv
  obtain ⟨r, -, heq⟩ := List.mem_map.1 hv
  exact h (congrArg (fun x => x.1.1) heq).symm

namespace Catalog

variable (db : Catalog)

/-- The state a merge leaves. -/
def merged (sourceKey : LicenseKey) (source target : Uuid) : Catalog :=
  { db with
    licenseSetEntitlements := copyEdges db.licenseSetEntitlements sourceKey.bound source target
    entitlements := copyEdges db.entitlements sourceKey.bound source target
    licenseKeys := db.licenseKeys.update fun id l =>
      if id = source then { l with status := .revoked } else l }

/-- What a merge can do: merge two active keys of which the target is unbounded,
or nothing. -/
theorem mergeLicenseKeys_cases (repo source target : Uuid) :
    (∃ sourceKey targetKey, source ≠ target ∧ db.activeKey repo source = some sourceKey ∧
        db.activeKey repo target = some targetKey ∧ targetKey.bound = .unbounded ∧
        db.mergeLicenseKeys repo source target = (.merged, db.merged sourceKey source target)) ∨
      ∃ outcome, outcome ≠ LicenseMerge.merged ∧
        db.mergeLicenseKeys repo source target = (outcome, db) := by
  unfold mergeLicenseKeys
  by_cases hst : source = target
  · rw [if_pos hst]
    exact Or.inr ⟨_, by decide, rfl⟩
  · rw [if_neg hst]
    cases hs : db.activeKey repo source with
    | none => exact Or.inr ⟨_, by decide, rfl⟩
    | some sourceKey =>
      cases ht : db.activeKey repo target with
      | none => exact Or.inr ⟨_, by decide, rfl⟩
      | some targetKey =>
        by_cases hp : targetKey.bound.perpetual = true
        · left
          refine ⟨sourceKey, targetKey, hst, rfl, rfl, ?_, ?_⟩
          · exact (UpdateBound.perpetual_iff _).1 hp
          · show (if targetKey.bound.perpetual = true then _ else _) = _
            rw [if_pos hp]
            rfl
        · right
          refine ⟨.targetBounded, by decide, ?_⟩
          show (if targetKey.bound.perpetual = true then _ else _) = _
          rw [if_neg hp]

variable {db} (sourceKey : LicenseKey) (source target : Uuid)

/-! ## The edges after a merge -/

/-- The target's edges are joined with the source's, which inherit the source key's bound. -/
theorem edge?_merged_target (t : EdgeTarget) :
    (db.merged sourceKey source target).edge? target t
      = joinEdge (db.edge? target t)
          ((db.edge? source t).map fun e => e.inherit sourceKey.bound) := by
  cases t with
  | package id => exact get?_copyEdges_target db.entitlements sourceKey.bound source target id
  | set id =>
    exact get?_copyEdges_target db.licenseSetEntitlements sourceKey.bound source target id

theorem edge?_merged_of_ne {license : Uuid} (h : license ≠ target) (t : EdgeTarget) :
    (db.merged sourceKey source target).edge? license t = db.edge? license t := by
  cases t with
  | package id => exact get?_copyEdges_of_ne db.entitlements sourceKey.bound source h id
  | set id => exact get?_copyEdges_of_ne db.licenseSetEntitlements sourceKey.bound source h id

/-- A merge changes no key's own bound. -/
theorem key_bound_merged (license : Uuid) :
    ((db.merged sourceKey source target).licenseKeys.get? license).map (·.bound)
      = (db.licenseKeys.get? license).map (·.bound) := by
  show ((db.licenseKeys.update _).get? license).map _ = _
  rw [Table.get?_update, Option.map_map]
  congr 1
  funext l
  show (if license = source then _ else l).bound = l.bound
  split_ifs
  · rfl
  · rfl

/-- Away from the target nothing a merge does is seen. -/
theorem reach_merged_of_ne {license : Uuid} (h : license ≠ target) (name : String) :
    (db.merged sourceKey source target).reach license name = db.reach license name := by
  apply reach_eq_of_same_edges
  · exact key_bound_merged sourceKey source target license
  · intro t
    exact edge?_merged_of_ne sourceKey source target h t
  · intro t
    rfl

/-- **The reach of the target after a merge** is the supremum of the two reaches. -/
theorem reach_merged_target {targetKey : LicenseKey}
    (hs : db.licenseKeys.get? source = some sourceKey)
    (ht : db.licenseKeys.get? target = some targetKey)
    (hunbounded : targetKey.bound = .unbounded) (name : String) :
    (db.merged sourceKey source target).reach target name
      = db.reach source name ⊔ db.reach target name := by
  have hbound : ((db.merged sourceKey source target).licenseKeys.get? target).map (·.bound)
      = some .unbounded := by
    rw [key_bound_merged, ht, Option.map_some, hunbounded]
  have hcovers : ∀ b, (db.merged sourceKey source target).Covers target name b ↔
      ∃ t, (db.merged sourceKey source target).edge? target t = some b ∧ name ∈ db.names t := by
    intro b
    rw [covers_iff hbound]
    constructor
    · rintro ⟨t, e, he, hn, rfl⟩
      exact ⟨t, by rw [he, UpdateBound.inherit_unbounded], hn⟩
    · rintro ⟨t, he, hn⟩
      exact ⟨t, b, he, hn, UpdateBound.inherit_unbounded b⟩
  apply le_antisymm
  · -- an edge of the target is a stored one, a moved one, or the join of both
    rw [reach_le_iff]
    intro b hb
    obtain ⟨t, he, hn⟩ := (hcovers b).1 hb
    rw [edge?_merged_target] at he
    have hstored : ∀ e, db.edge? target t = some e →
        (e.ceiling : WithBot _) ≤ db.reach target name := by
      intro e hte
      apply Covers.le_reach
      exact ⟨targetKey, t, e, ht, hte, hn, by rw [hunbounded, UpdateBound.inherit_unbounded]⟩
    have hmoved : ∀ e, db.edge? source t = some e →
        ((e.inherit sourceKey.bound).ceiling : WithBot _) ≤ db.reach source name := by
      intro e hse
      exact Covers.le_reach ⟨sourceKey, t, e, hs, hse, hn, rfl⟩
    cases hse : db.edge? source t with
    | none =>
      rw [hse] at he
      exact (hstored b he).trans le_sup_right
    | some m =>
      rw [hse] at he
      cases hte : db.edge? target t with
      | none =>
        rw [hte] at he
        obtain rfl : m.inherit sourceKey.bound = b := Option.some.inj he
        exact (hmoved m hse).trans le_sup_left
      | some e =>
        rw [hte] at he
        obtain rfl : e.widest (m.inherit sourceKey.bound) = b := Option.some.inj he
        rw [UpdateBound.ceiling_widest, WithBot.coe_sup]
        exact sup_le ((hstored e hte).trans le_sup_right) ((hmoved m hse).trans le_sup_left)
  · -- each old edge lies under the edge it was joined into
    apply sup_le
    · rw [reach_le_iff]
      rintro b ⟨key, t, e, hkey, he, hn, rfl⟩
      rw [hs, Option.some.injEq] at hkey
      subst hkey
      have hedge := db.edge?_merged_target sourceKey source target t
      rw [he, Option.map_some] at hedge
      refine le_trans ?_ (Covers.le_reach ((hcovers _).2 ⟨t, hedge, hn⟩))
      rw [WithBot.coe_le_coe]
      cases db.edge? target t with
      | none => exact le_rfl
      | some old =>
        show _ ≤ (old.widest (e.inherit sourceKey.bound)).ceiling
        rw [UpdateBound.ceiling_widest]
        exact le_sup_right
    · rw [reach_le_iff]
      rintro b ⟨key, t, e, hkey, he, hn, rfl⟩
      rw [ht, Option.some.injEq] at hkey
      subst hkey
      rw [hunbounded, UpdateBound.inherit_unbounded]
      have hedge := db.edge?_merged_target sourceKey source target t
      rw [he] at hedge
      cases hse : db.edge? source t with
      | none =>
        rw [hse] at hedge
        exact Covers.le_reach ((hcovers _).2 ⟨t, hedge, hn⟩)
      | some m =>
        rw [hse] at hedge
        refine le_trans ?_ (Covers.le_reach ((hcovers _).2 ⟨t, hedge, hn⟩))
        show _ ≤ WithBot.some (e.widest (m.inherit sourceKey.bound)).ceiling
        rw [UpdateBound.ceiling_widest, WithBot.coe_le_coe]
        exact le_sup_left

end Catalog

/-- **A merge conserves entitlements.**  After `Merged` the target is given, for
each package, the permissive join of what source and target were given before;
the source is revoked and every other key is given what it was.  Any other
outcome leaves the state as it was. -/
theorem mergeLicenseKeys_conserves (ses : Session) (db : Catalog) (repo source target : Uuid) :
    match db.mergeLicenseKeys repo source target with
    | (.merged, db') =>
        (∀ name, db'.entitledBound target name
            = permissiveJoin (db.entitledBound source name) (db.entitledBound target name)) ∧
          (∃ key, db.licenseKeys.get? source = some key ∧
            db'.licenseKeys.get? source = some { key with status := .revoked }) ∧
          ∀ other, other ≠ target →
            entitledPackageBounds ses db' other = entitledPackageBounds ses db other
    | (_, db') => db' = db := by
  rcases db.mergeLicenseKeys_cases repo source target with
    ⟨sourceKey, targetKey, hne, hs, ht, hunbounded, heq⟩ | ⟨outcome, hout, heq⟩
  · rw [heq]
    have hsrc := db.get?_of_activeKey hs
    have htgt := db.get?_of_activeKey ht
    refine ⟨?_, ?_, ?_⟩
    · intro name
      apply grant_injective
      rw [← Catalog.reach_eq_grant, grant_permissiveJoin, ← Catalog.reach_eq_grant,
        ← Catalog.reach_eq_grant]
      exact Catalog.reach_merged_target sourceKey source target hsrc htgt hunbounded name
    · refine ⟨sourceKey, hsrc, ?_⟩
      show (db.licenseKeys.update _).get? source = _
      rw [Table.get?_update, hsrc, Option.map_some, if_pos rfl]
    · intro other hother
      apply Catalog.entitledPackageBounds_congr
      exact Catalog.reach_merged_of_ne sourceKey source target hother
  · rw [heq]
    cases outcome with
    | merged => exact absurd rfl hout
    | noSource => rfl
    | noTarget => rfl
    | targetBounded => rfl
    | sameKey => rfl

end Sconce
