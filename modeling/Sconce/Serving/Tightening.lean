/-
# Overrides of a policy

A credential, its edge and a grant may each override the policy of a repository.  Policies are
ordered by how strict they are, in mode and in cooldown; an override joins its own floor to a
policy (`effective_eq_sup`).  So overrides apply in any order and any number of times, and what
the gate lets through under all of them it lets through under the repository's own policy
(`overrides_only_tighten`).
-/
import Sconce.Serving.HumanIndex
import Sconce.Lib.Joins

namespace Sconce

theorem UpdateMode.rank_injective : Function.Injective UpdateMode.rank := by
  intro a b h
  cases a <;> cases b <;> first | rfl | cases h

/-- The stricter mode is the greater one. -/
instance : LinearOrder UpdateMode := LinearOrder.lift' UpdateMode.rank UpdateMode.rank_injective

theorem UpdateMode.le_iff {a b : UpdateMode} : a ≤ b ↔ a.rank ≤ b.rank := Iff.rfl

theorem UpdateMode.auto_le (mode : UpdateMode) : .auto ≤ mode := Nat.zero_le _

/-- The least policy that the override asks for: a bare cooldown asks for a delay. -/
def PolicyOverride.floor (policy : PolicyOverride) : UpdateMode × ℤ :=
  ((policy.updateMode.or (if 0 < policy.cooldownDays.getD 0 then some .delayed else none)).getD
    .auto, policy.cooldownDays.getD 0)

/-- An override joins its floor to the policy. -/
theorem PolicyOverride.effective_eq_sup (policy : PolicyOverride) (mode : UpdateMode)
    (cooldownDays : ℤ) :
    policy.effective mode cooldownDays = (mode, cooldownDays) ⊔ policy.floor := by
  unfold PolicyOverride.effective PolicyOverride.floor
  dsimp only
  rw [Prod.mk_sup_mk, sup_comm cooldownDays]
  refine Prod.ext ?_ rfl
  dsimp only
  cases policy.updateMode.or (if 0 < policy.cooldownDays.getD 0 then some .delayed else none) with
  | none => exact (sup_of_le_left (UpdateMode.auto_le mode)).symm
  | some m =>
    dsimp only [Option.getD_some]
    split_ifs with hstricter
    · exact (sup_of_le_right (UpdateMode.le_iff.2 hstricter.le)).symm
    · exact (sup_of_le_left (UpdateMode.le_iff.2 (not_lt.1 hstricter))).symm

/-- The policy under overrides, one after another. -/
def overridden (policy : UpdateMode × ℤ) (overrides : List PolicyOverride) : UpdateMode × ℤ :=
  overrides.foldl (fun p o => o.effective p.1 p.2) policy

theorem le_overridden (policy : UpdateMode × ℤ) (overrides : List PolicyOverride) :
    policy ≤ overridden policy overrides :=
  List.le_foldl (fun p o => o.effective_eq_sup p.1 p.2) policy overrides

/-- Neither order nor repetition of the overrides matters. -/
theorem overridden_eq_of_mem_iff (policy : UpdateMode × ℤ)
    {overrides overrides' : List PolicyOverride} (h : ∀ o, o ∈ overrides ↔ o ∈ overrides') :
    overridden policy overrides = overridden policy overrides' :=
  List.foldl_eq_of_mem_iff (fun p o => o.effective_eq_sup p.1 p.2) policy h

/-- A stricter policy admits nothing more. -/
theorem policyGate_anti {ses : Session} (hdays : ∀ t, Monotone (ses.addDays t)) {now : Timestamp}
    {p q : UpdateMode × ℤ} (hle : p ≤ q) {pv : PackageVersion}
    (h : policyGate ses now q.1 q.2 pv = true) :
    policyGate ses now p.1 p.2 pv = true := by
  obtain ⟨hyanked, hheld, hpasses⟩ := (policyGate_iff ses now q pv).1 h
  exact (policyGate_iff ses now p pv).2
    ⟨hyanked, hheld, hpasses.imp_right (lets_of_stricter hdays hle.1 hle.2)⟩

/-- The order of overrides does not matter, nor does one that is repeated, and nothing is
admitted under them that the repository's policy refuses. -/
theorem overrides_only_tighten (ses : Session) (hdays : ∀ t, Monotone (ses.addDays t))
    (repoMode : UpdateMode) (repoCooldown : ℤ) (overrides : List PolicyOverride) :
    (∀ overrides', overrides.Perm overrides' →
        overridden (repoMode, repoCooldown) overrides' =
          overridden (repoMode, repoCooldown) overrides) ∧
      overridden (repoMode, repoCooldown) overrides.dedup =
        overridden (repoMode, repoCooldown) overrides ∧
      ∀ now pv, policyGate ses now (overridden (repoMode, repoCooldown) overrides).1
          (overridden (repoMode, repoCooldown) overrides).2 pv = true →
        policyGate ses now repoMode repoCooldown pv = true := by
  refine ⟨fun overrides' hperm => ?_, ?_, fun now pv h => ?_⟩
  · exact overridden_eq_of_mem_iff _ fun o => hperm.mem_iff.symm
  · exact overridden_eq_of_mem_iff _ fun o => List.mem_dedup
  · exact policyGate_anti hdays (le_overridden (repoMode, repoCooldown) overrides) h

/-- In UTC, with a dormant cooldown that an override wakes. -/
theorem overrides_only_tighten_utc :
    overridden (.auto, 5) [⟨some .delayed, none⟩, ⟨none, some 3⟩] = (.delayed, 5) ∧
      ∀ now pv, policyGate .utc now .delayed 5 pv = true →
        policyGate .utc now .auto 5 pv = true := by
  have hdays : ∀ t, Monotone (Session.utc.addDays t) := by
    intro t a b hab
    have hday : (0 : ℤ) ≤ Session.day := by decide
    exact Int.add_le_add_left (Int.mul_le_mul_of_nonneg_right hab hday) t
  exact ⟨rfl, (overrides_only_tighten .utc hdays .auto 5
    [⟨some .delayed, none⟩, ⟨none, some 3⟩]).2.2⟩

end Sconce
