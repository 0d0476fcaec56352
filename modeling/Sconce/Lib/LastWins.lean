/-
# The last entry of a key wins

Entries inserted one by one into a map: an entry replaces what its key had before.  What the map
holds in the end is, for each key, the entry listed last.
-/
import Mathlib.Data.List.Induction

section LastWins

variable {κ ν : Type*} [DecidableEq κ]

/-- The map that a list of entries builds. -/
def lastWins (entries : List (κ × ν)) : List (κ × ν) :=
  entries.foldl (fun m entry => (m.filter fun e => e.1 ≠ entry.1) ++ [entry]) []

/-- What is listed last for a key. -/
def lastListed (entries : List (κ × ν)) (key : κ) : Option ν := entries.reverse.lookup key

variable {entries : List (κ × ν)} {key : κ} {value : ν}

/-- An entry that comes last takes the place of those before it. -/
theorem lastWins_concat (entries : List (κ × ν)) (entry : κ × ν) :
    lastWins (entries ++ [entry])
      = ((lastWins entries).filter fun e => e.1 ≠ entry.1) ++ [entry] := by
  unfold lastWins
  rw [List.foldl_append]
  rfl

/-- The last value of a key, one entry on. -/
theorem lastListed_concat (entries : List (κ × ν)) (entry : κ × ν) (key : κ) :
    lastListed (entries ++ [entry]) key
      = if key = entry.1 then some entry.2 else lastListed entries key := by
  unfold lastListed
  rw [List.reverse_concat, List.lookup_cons]
  by_cases h : key = entry.1
  · rw [if_pos h, beq_iff_eq.2 h]
  · rw [if_neg h, beq_eq_false_iff_ne.2 h]

/-- **The map holds what is listed last.** -/
theorem mem_lastWins_iff : (key, value) ∈ lastWins entries ↔ lastListed entries key = some value := by
  induction entries using List.reverseRecOn with
  | nil => exact iff_of_false List.not_mem_nil nofun
  | append_singleton entries entry ih =>
    rw [lastWins_concat, lastListed_concat, List.mem_append, List.mem_filter, List.mem_singleton,
      ih]
    by_cases h : key = entry.1
    · subst h
      simp [Prod.ext_iff, eq_comm]
    · simp [Prod.ext_iff, h]

/-- A key that is listed has a last value. -/
theorem exists_lastListed (h : (key, value) ∈ entries) : ∃ v, lastListed entries key = some v := by
  induction entries using List.reverseRecOn with
  | nil => exact absurd h List.not_mem_nil
  | append_singleton entries entry ih =>
    rw [lastListed_concat]
    by_cases hkey : key = entry.1
    · exact ⟨entry.2, if_pos hkey⟩
    · rw [if_neg hkey]
      have hne : (key, value) ≠ entry := fun he => hkey (congrArg Prod.fst he)
      exact ih ((List.mem_append.1 h).resolve_right fun hmem => hne (List.mem_singleton.1 hmem))

/-- What the map holds was listed. -/
theorem mem_of_lastListed (h : lastListed entries key = some value) : (key, value) ∈ entries := by
  induction entries using List.reverseRecOn with
  | nil => cases h
  | append_singleton entries entry ih =>
    rw [lastListed_concat] at h
    rw [List.mem_append, List.mem_singleton]
    by_cases hkey : key = entry.1
    · rw [if_pos hkey] at h
      exact .inr (Prod.ext hkey (Option.some.inj h).symm)
    · rw [if_neg hkey] at h
      exact .inl (ih h)

/-- Looking up a key in the map finds what is listed last. -/
theorem lookup_lastWins (entries : List (κ × ν)) (key : κ) :
    (lastWins entries).lookup key = lastListed entries key := by
  cases hfound : (lastWins entries).lookup key with
  | none =>
    refine (Option.eq_none_iff_forall_ne_some.2 fun v hv => ?_).symm
    have hmem := mem_lastWins_iff.2 hv
    exact absurd (List.lookup_eq_none_iff.1 hfound _ hmem) (by simp)
  | some v =>
    obtain ⟨before, after, hsplit, -⟩ := List.lookup_eq_some_iff.1 hfound
    have hmem : (key, v) ∈ lastWins entries := by
      rw [hsplit]
      exact List.mem_append_right before List.mem_cons_self
    exact (mem_lastWins_iff.1 hmem).symm

end LastWins
