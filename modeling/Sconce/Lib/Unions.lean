/-
# Lists that stand for sets

Two things a list can be asked that depend on its members alone, not on their order nor on how
often one occurs.  `mapM` into `Except` collects an answer for every member, or fails.  A union
of rules accepts what some rule that applies accepts, and whatever no rule applies to.
-/
import Mathlib.Data.List.Basic

/-! ## Collecting answers -/

namespace List

variable {ε α β : Type} {f : α → Except ε β}

/-- What collecting lists is what the members answer. -/
theorem mem_of_mapM_ok {l : List α} {out : List β} (h : l.mapM f = .ok out) (b : β) :
    b ∈ out ↔ ∃ a ∈ l, f a = .ok b := by
  induction l generalizing out with
  | nil =>
    cases h
    simp
  | cons a l ih =>
    rw [mapM_cons] at h
    cases ha : f a with
    | error e =>
      rw [ha] at h
      cases h
    | ok b' =>
      cases hl : l.mapM f with
      | error e =>
        rw [ha, hl] at h
        cases h
      | ok rest =>
        rw [ha, hl] at h
        have hout : b' :: rest = out := Except.ok.inj h
        rw [← hout, mem_cons, ih hl, exists_mem_cons_iff, ha, Except.ok.injEq]
        exact or_congr_left eq_comm

/-- What every answer keeps of its member is kept by the whole, in order. -/
theorem map_of_mapM_ok {γ : Type*} {g : β → γ} {k : α → γ} (hkeep : ∀ a b, f a = .ok b → g b = k a)
    {l : List α} {out : List β} (h : l.mapM f = .ok out) : out.map g = l.map k := by
  induction l generalizing out with
  | nil =>
    cases h
    rfl
  | cons a l ih =>
    rw [mapM_cons] at h
    cases ha : f a with
    | error e =>
      rw [ha] at h
      cases h
    | ok b =>
      cases hl : l.mapM f with
      | error e =>
        rw [ha, hl] at h
        cases h
      | ok rest =>
        rw [ha, hl] at h
        have hout : b :: rest = out := Except.ok.inj h
        rw [← hout, map_cons, map_cons, hkeep a b ha, ih hl]

/-- Collecting fails exactly when it fails on some member. -/
theorem mapM_ok_iff (f : α → Except ε β) (l : List α) :
    (∃ out, l.mapM f = .ok out) ↔ ∀ a ∈ l, ∃ b, f a = .ok b := by
  induction l with
  | nil => exact iff_of_true ⟨[], rfl⟩ fun a ha => absurd ha not_mem_nil
  | cons a l ih =>
    rw [forall_mem_cons, ← ih, mapM_cons]
    cases f a with
    | error e =>
      constructor
      · rintro ⟨_, ⟨⟩⟩
      · rintro ⟨⟨_, ⟨⟩⟩, -⟩
    | ok b =>
      cases l.mapM f with
      | error e =>
        constructor
        · rintro ⟨_, ⟨⟩⟩
        · rintro ⟨-, _, ⟨⟩⟩
      | ok rest => exact iff_of_true ⟨_, rfl⟩ ⟨⟨b, rfl⟩, rest, rfl⟩

end List

/-! ## Unions of rules -/

/-- The union of the rules that apply; nothing is refused that no rule applies to. -/
def unionOf {α : Type*} (applies accepts : α → Bool) (rules : List α) : Bool :=
  let applying := rules.filter applies
  applying.isEmpty || applying.any accepts

section Union

variable {α : Type*} {applies accepts : α → Bool} {rules rules' : List α}

/-- A union accepts where no rule applies, or one that applies accepts. -/
theorem unionOf_iff :
    unionOf applies accepts rules = true ↔
      (∃ r ∈ rules, applies r = true) → ∃ r ∈ rules, applies r = true ∧ accepts r = true := by
  unfold unionOf
  simp only [Bool.or_eq_true, List.isEmpty_iff, List.filter_eq_nil_iff, List.any_eq_true,
    List.mem_filter, and_assoc]
  constructor
  · rintro (hnone | haccepted)
    · rintro ⟨r, hr, happlies⟩
      exact absurd happlies (hnone r hr)
    · exact fun _ => haccepted
  · intro h
    by_cases happlies : ∃ r ∈ rules, applies r = true
    · exact .inr (h happlies)
    · exact .inl fun r hr hr' => happlies ⟨r, hr, hr'⟩

/-- Where a rule applies, the union is what some applying rule accepts. -/
theorem unionOf_of_applies (h : ∃ r ∈ rules, applies r = true) :
    unionOf applies accepts rules = true ↔ ∃ r ∈ rules, applies r = true ∧ accepts r = true := by
  rw [unionOf_iff]
  exact ⟨fun haccepted => haccepted h, fun haccepted _ => haccepted⟩

/-- Rules that are added where one applies refuse nothing. -/
theorem unionOf_mono (hsub : rules ⊆ rules') (h : ∃ r ∈ rules, applies r = true)
    (haccepted : unionOf applies accepts rules = true) :
    unionOf applies accepts rules' = true := by
  obtain ⟨r, hr, hrule⟩ := (unionOf_of_applies h).1 haccepted
  rw [unionOf_iff]
  exact fun _ => ⟨r, hsub hr, hrule⟩

/-- Neither order nor repetition of the rules matters. -/
theorem unionOf_eq_of_mem_iff (h : ∀ r, r ∈ rules ↔ r ∈ rules') :
    unionOf applies accepts rules = unionOf applies accepts rules' := by
  rw [Bool.eq_iff_iff, unionOf_iff, unionOf_iff]
  simp only [h]

end Union
