/-
# The text form of a subscription entry

`UpstreamRequire.parse` reads an entry from a form or the command line, and `toSpec` writes the
text back that the page of an upstream shows for it.  An entry that was parsed is parsed again
from the text it is shown as (`UpstreamRequire.parse_toSpec`), so saving the page changes nothing.

The matcher shown is the one that was read, or the one without its star where a slash is left
(`MatcherForm.render`); the floor is whatever followed the first `@`.
-/
import Sconce.Dashboard.Supply
import Sconce.Lib.Trimming

namespace Sconce

/-! ## The printer -/

/-- The matcher `to_spec` shows. -/
def renderMatcher : MatchKind → String → String
  | .all, _ => "*"
  | .regex, pattern => "re:" ++ pattern
  | .prefixOf, pattern =>
    if pattern.toList.getLast? = some '/' then pattern else pattern ++ "*"
  | .exact, pattern => pattern

/-- `UpstreamRequire::to_spec`. -/
def UpstreamRequire.Spec.toSpec (r : UpstreamRequire.Spec) : String :=
  match r.versionFloor with
  | some floor => renderMatcher r.matchKind r.pattern ++ "@" ++ floor
  | none => renderMatcher r.matchKind r.pattern

/-! ## The texts of the parser -/

/-- Trimming takes the whitespace off both ends. -/
theorem toList_trim (s : String) : (trim s).toList = s.toList.trimEnds isWhitespace :=
  String.toList_ofList

/-- The character comes off the end as often as it stands there. -/
theorem toList_trimEndMatches (c : Char) (s : String) :
    (trimEndMatches c s).toList = s.toList.rdropWhile (· == c) :=
  String.toList_ofList

/-- A trimmed text begins and ends with no whitespace. -/
theorem trim_trimmed (s : String) : (trim s).toList.Trimmed isWhitespace := by
  rw [toList_trim]
  exact List.trimmed_trimEnds isWhitespace s.toList

theorem trim_eq_self {s : String} (h : s.toList.Trimmed isWhitespace) : trim s = s := by
  rw [← String.toList_inj, toList_trim, h.trimEnds_eq]

/-- Trimming brings no character in. -/
theorem not_mem_trim {c : Char} {s : String} (h : c ∉ s.toList) : c ∉ (trim s).toList := by
  rw [toList_trim]
  exact fun hmem => h ((List.trimEnds_isInfix isWhitespace s.toList).subset hmem)

/-- The split is at the first separator. -/
theorem splitOnce_eq (c : Char) (s : String) :
    splitOnce c s = (s.toList.cutAt c).map fun cut => (String.ofList cut.1, String.ofList cut.2) := by
  unfold splitOnce List.cutAt
  cases s.toList.dropWhile (· ≠ c) <;> rfl

/-- Nothing comes off where the character is not in the text. -/
theorem trimEndMatches_of_not_mem {c : Char} {s : String} (h : c ∉ s.toList) :
    trimEndMatches c s = s := by
  rw [← String.toList_inj, toList_trimEndMatches]
  refine List.rdropWhile_eq_self_of_last fun a ha => ?_
  exact beq_eq_false_iff_ne.2 (ne_of_mem_of_not_mem (List.mem_of_getLast? ha) h)

/-! ## Where the floor is cut off -/

/-- A matcher as it is cut out of an entry, which may be empty yet. -/
structure IsMatcher (m : List Char) : Prop where
  trimmed : m.Trimmed isWhitespace
  no_at : '@' ∉ m

/-- A floor as it is cut out of an entry. -/
structure IsFloor (floor : List Char) : Prop where
  trimmed : floor.Trimmed isWhitespace
  nonempty : floor ≠ []

/-- What is left of a text without an `@` can be a matcher. -/
theorem isMatcher_trim {s : String} (h : '@' ∉ s.toList) : IsMatcher (trim s).toList :=
  ⟨trim_trimmed s, not_mem_trim h⟩

/-- What `splitFloor` finds in a trimmed text. -/
theorem splitFloor_spec {spec : String} (h : spec.toList.Trimmed isWhitespace) :
    IsMatcher (splitFloor spec).1.toList ∧ ∀ floor ∈ (splitFloor spec).2, IsFloor floor.toList := by
  obtain hnone | ⟨before, after, hbefore, heq⟩ := List.not_mem_or_eq_append_cons '@' spec.toList
  · have hsplit : splitFloor spec = (trim (trimEndMatches '@' spec), none) := by
      unfold splitFloor
      rw [splitOnce_eq, List.cutAt_eq_none hnone, Option.map_none]
    rw [hsplit, trimEndMatches_of_not_mem hnone]
    exact ⟨isMatcher_trim hnone, nofun⟩
  by_cases hempty : (trim (String.ofList after)).isEmpty
  · have hsplit : splitFloor spec = (trim (trimEndMatches '@' spec), none) := by
      unfold splitFloor
      rw [splitOnce_eq, heq, List.cutAt_append hbefore, Option.map_some]
      exact if_pos hempty
    -- the text is trimmed, so nothing follows its `@`
    have hafter : after = [] := by
      rw [String.isEmpty_iff, ← String.toList_inj, toList_trim, String.toList_ofList] at hempty
      have hblank : ∀ a ∈ after, isWhitespace a := List.trimEnds_eq_nil_iff.1 hempty
      by_contra hne
      have hlast := h.last (after.getLast hne) (by
        rw [heq, List.getLast?_append_of_ne_nil _ (List.cons_ne_nil _ _), List.getLast?_cons_of_ne_nil hne]
        exact List.getLast?_eq_getLast_of_ne_nil hne)
      rw [hblank _ (List.getLast_mem hne)] at hlast
      cases hlast
    have hcut : trimEndMatches '@' spec = String.ofList before := by
      rw [← String.toList_inj, toList_trimEndMatches, heq, hafter, String.toList_ofList,
        List.rdropWhile_append_of_all (by simp)]
      refine List.rdropWhile_eq_self_of_last fun a ha => ?_
      exact beq_eq_false_iff_ne.2 (ne_of_mem_of_not_mem (List.mem_of_getLast? ha) hbefore)
    rw [hsplit, hcut]
    exact ⟨isMatcher_trim (by rwa [String.toList_ofList]), nofun⟩
  · have hsplit : splitFloor spec =
        (trim (String.ofList before), some (trim (String.ofList after))) := by
      unfold splitFloor
      rw [splitOnce_eq, heq, List.cutAt_append hbefore, Option.map_some]
      exact if_neg hempty
    rw [hsplit]
    refine ⟨isMatcher_trim (by rwa [String.toList_ofList]), ?_⟩
    rintro floor ⟨⟩
    refine ⟨trim_trimmed _, fun hnil => hempty ?_⟩
    rw [String.isEmpty_iff, ← String.toList_inj, hnil, String.toList_empty]

/-- A matcher shown with its floor is cut there again. -/
theorem splitFloor_append {m floor : String} (hm : IsMatcher m.toList)
    (hfloor : IsFloor floor.toList) : splitFloor (m ++ "@" ++ floor) = (m, some floor) := by
  have hcut : (m ++ "@" ++ floor).toList.cutAt '@' = some (m.toList, floor.toList) := by
    rw [String.toList_append, String.toList_append, List.append_assoc]
    exact List.cutAt_append hm.no_at
  unfold splitFloor
  rw [splitOnce_eq, hcut, Option.map_some]
  dsimp only
  rw [String.ofList_toList, String.ofList_toList, trim_eq_self hm.trimmed,
    trim_eq_self hfloor.trimmed]
  refine if_neg fun hempty => hfloor.nonempty ?_
  rw [String.isEmpty_iff.1 hempty, String.toList_empty]

/-- A matcher alone has no floor. -/
theorem splitFloor_matcher {m : String} (hm : IsMatcher m.toList) : splitFloor m = (m, none) := by
  unfold splitFloor
  rw [splitOnce_eq, List.cutAt_eq_none hm.no_at, Option.map_none]
  dsimp only
  rw [trimEndMatches_of_not_mem hm.no_at, trim_eq_self hm.trimmed]

/-! ## What a matcher is read as -/

/-- The matcher is read as this kind and pattern. -/
inductive MatcherForm : List Char → MatchKind → String → Prop
  | all : MatcherForm ['*'] .all ""
  | regex (re : List Char) (hne : re ≠ []) :
    MatcherForm ('r' :: 'e' :: ':' :: re) .regex (String.ofList re)
  | star (stem : List Char) (hne : stem ≠ []) (hre : ¬ ['r', 'e', ':'] <+: stem) :
    MatcherForm (stem ++ ['*']) .prefixOf (String.ofList stem)
  | vendor (m : List Char) (hlast : m.getLast? = some '/') (hre : ¬ ['r', 'e', ':'] <+: m) :
    MatcherForm m .prefixOf (String.ofList m)
  | exact (m : List Char) (hne : m ≠ []) (hstar : m.getLast? ≠ some '*')
    (hslash : m.getLast? ≠ some '/') (hre : ¬ ['r', 'e', ':'] <+: m) :
    MatcherForm m .exact (String.ofList m)

/-- A matcher that is neither a pattern nor a star is an exact name or a prefix. -/
theorem parseMatcher_of_not_re {spec : String} {m : List Char} (hre : ¬ ['r', 'e', ':'] <+: m)
    (hstar : m ≠ ['*']) : parseMatcher spec m =
      if m.isEmpty then .error ("empty match in '" ++ spec ++ "'")
      else if m.getLast? = some '*' then .ok (.prefixOf, String.ofList m.dropLast)
      else if m.getLast? = some '/' then .ok (.prefixOf, String.ofList m)
      else .ok (.exact, String.ofList m) := by
  unfold parseMatcher
  split
  · exact absurd rfl hstar
  · exact absurd ⟨_, rfl⟩ hre
  · rfl

/-- Which matchers are read, and as what. -/
theorem parseMatcher_eq_ok_iff {spec : String} {m : List Char} {kind : MatchKind}
    {pattern : String} :
    parseMatcher spec m = .ok (kind, pattern) ↔ MatcherForm m kind pattern := by
  constructor
  · intro h
    by_cases hall : m = ['*']
    · subst hall
      cases h
      exact .all
    -- the branches in their order: a lone star, `re:`, then what the last character says
    by_cases hre : ['r', 'e', ':'] <+: m
    · obtain ⟨re, rfl⟩ := hre
      cases re with
      | nil => cases h
      | cons c re =>
        cases h
        exact .regex _ (List.cons_ne_nil c re)
    rw [parseMatcher_of_not_re hre hall] at h
    split_ifs at h with hempty hstar hslash
    · obtain ⟨stem, rfl⟩ := List.getLast?_eq_some_iff.1 hstar
      cases h
      rw [List.dropLast_concat]
      refine .star stem (fun hnil => hall (by rw [hnil]; rfl)) fun hstem => hre ?_
      exact hstem.trans (List.prefix_append stem _)
    · cases h
      exact .vendor m hslash hre
    · cases h
      exact .exact m (fun hnil => hempty (by rw [hnil]; rfl)) hstar hslash hre
  · rintro (_ | ⟨re, hne⟩ | ⟨stem, hne, hre⟩ | ⟨_, hlast, hre⟩ | ⟨_, hne, hstar, hslash, hre⟩)
    · rfl
    · exact if_neg (by rwa [List.isEmpty_iff])
    · -- no shorter branch takes a stem with its star
      have hre' : ¬ ['r', 'e', ':'] <+: stem ++ ['*'] := by
        rw [List.prefix_concat_iff]
        rintro (heq | hprefix)
        · have hlast := congrArg List.getLast? heq
          rw [List.getLast?_concat] at hlast
          cases hlast
        · exact hre hprefix
      rw [parseMatcher_of_not_re hre' fun h => hne (List.append_cancel_right h),
        if_neg (by simp), if_pos (List.getLast?_concat), List.dropLast_concat]
    · have hne : m ≠ [] := by
        rintro rfl
        cases hlast
      rw [parseMatcher_of_not_re hre, if_neg (by rwa [List.isEmpty_iff]), if_neg, if_pos hlast]
      · rw [hlast]
        decide
      · rintro rfl
        cases hlast
    · rw [parseMatcher_of_not_re hre fun h => hstar (by rw [h]; rfl),
        if_neg (by rwa [List.isEmpty_iff]), if_neg hstar, if_neg hslash]

/-! What is shown for a pattern. -/

/-- A pattern is written after `re:`. -/
theorem renderMatcher_regex (re : List Char) :
    (renderMatcher .regex (String.ofList re)).toList = 'r' :: 'e' :: ':' :: re := by
  unfold renderMatcher
  dsimp only
  rw [String.toList_append, String.toList_ofList (l := re)]
  rfl

/-- A vendor is written as its prefix, slash included. -/
theorem renderMatcher_vendor {m : List Char} (h : m.getLast? = some '/') :
    (renderMatcher .prefixOf (String.ofList m)).toList = m := by
  unfold renderMatcher
  dsimp only
  rw [String.toList_ofList, if_pos h, String.toList_ofList]

/-- Any other prefix is written with a star behind it. -/
theorem renderMatcher_star {stem : List Char} (h : stem.getLast? ≠ some '/') :
    (renderMatcher .prefixOf (String.ofList stem)).toList = stem ++ ['*'] := by
  unfold renderMatcher
  dsimp only
  rw [String.toList_ofList, if_neg h, String.toList_append, String.toList_ofList]
  rfl

/-- A name is written as it is. -/
theorem renderMatcher_exact (m : List Char) :
    (renderMatcher .exact (String.ofList m)).toList = m :=
  String.toList_ofList

/-- The matcher that is shown is read the same. -/
theorem MatcherForm.render {m : List Char} {kind : MatchKind} {pattern : String}
    (h : MatcherForm m kind pattern) :
    MatcherForm (renderMatcher kind pattern).toList kind pattern := by
  cases h with
  | all => exact .all
  | regex re hne => exact renderMatcher_regex re ▸ .regex re hne
  | star stem hne hre =>
    by_cases hslash : stem.getLast? = some '/'
    · -- the star is dropped, and what is left is a vendor
      rw [renderMatcher_vendor hslash]
      exact .vendor stem hslash hre
    · rw [renderMatcher_star hslash]
      exact .star stem hne hre
  | vendor _ hlast hre =>
    rw [renderMatcher_vendor hlast]
    exact .vendor m hlast hre
  | exact _ hne hstar hslash hre =>
    rw [renderMatcher_exact]
    exact .exact m hne hstar hslash hre

/-- The matcher that is shown is the one that was read, or lacks its star. -/
theorem MatcherForm.eq_render {m : List Char} {kind : MatchKind} {pattern : String}
    (h : MatcherForm m kind pattern) :
    (renderMatcher kind pattern).toList = m ∨
      (renderMatcher kind pattern).toList.getLast? = some '/' ∧
        m = (renderMatcher kind pattern).toList ++ ['*'] := by
  cases h with
  | all => exact .inl rfl
  | regex re hne => exact .inl (renderMatcher_regex re)
  | star stem hne hre =>
    by_cases hslash : stem.getLast? = some '/'
    · rw [renderMatcher_vendor hslash]
      exact .inr ⟨hslash, rfl⟩
    · exact .inl (renderMatcher_star hslash)
  | vendor _ hlast hre => exact .inl (renderMatcher_vendor hlast)
  | exact _ hne hstar hslash hre => exact .inl (renderMatcher_exact m)

/-- What a matcher is written as is a matcher again. -/
theorem MatcherForm.isMatcher_render {m : List Char} {kind : MatchKind} {pattern : String}
    (h : MatcherForm m kind pattern) (hm : IsMatcher m) :
    IsMatcher (renderMatcher kind pattern).toList := by
  obtain heq | ⟨hslash, heq⟩ := h.eq_render
  · rwa [heq]
  · refine ⟨⟨fun a ha => hm.trimmed.head a ?_, fun a ha => ?_⟩, fun hmem => hm.no_at ?_⟩
    · rw [heq, List.head?_append, Option.mem_def.1 ha]
      rfl
    · rw [hslash] at ha
      cases ha
      decide
    · rw [heq]
      exact List.mem_append_left _ hmem

/-- A matcher that is read is not empty. -/
theorem MatcherForm.nonempty {m : List Char} {kind : MatchKind} {pattern : String}
    (h : MatcherForm m kind pattern) : m ≠ [] := by
  cases h with
  | all => exact List.cons_ne_nil _ _
  | regex re hne => exact List.cons_ne_nil _ _
  | star stem hne hre => exact List.append_ne_nil_of_right_ne_nil _ (List.cons_ne_nil _ _)
  | vendor _ hlast hre =>
    rintro rfl
    cases hlast
  | exact _ hne hstar hslash hre => exact hne

/-! ## The round trip -/

/-- What `parse` accepts: a matcher with the floor after it. -/
theorem UpstreamRequire.parse_eq_ok_iff {spec : String} {r : UpstreamRequire.Spec} :
    UpstreamRequire.parse spec = .ok r ↔
      MatcherForm (splitFloor (trim spec)).1.toList r.matchKind r.pattern ∧
        r.versionFloor = (splitFloor (trim spec)).2 := by
  obtain ⟨kind, pattern, floor⟩ := r
  rw [← @parseMatcher_eq_ok_iff (trim spec)]
  unfold UpstreamRequire.parse
  dsimp only
  constructor
  · intro h
    cases hfound : parseMatcher (trim spec) (splitFloor (trim spec)).1.toList with
    | error text =>
      rw [hfound] at h
      cases h
    | ok found =>
      rw [hfound] at h
      cases h
      exact ⟨rfl, rfl⟩
  · rintro ⟨hfound, hfloor⟩
    rw [hfound, hfloor]
    rfl

/-- The text of an entry is trimmed, and cut into its matcher and its floor. -/
theorem splitFloor_toSpec {r : UpstreamRequire.Spec}
    (hm : IsMatcher (renderMatcher r.matchKind r.pattern).toList)
    (hne : (renderMatcher r.matchKind r.pattern).toList ≠ [])
    (hfloor : ∀ floor ∈ r.versionFloor, IsFloor floor.toList) :
    splitFloor (trim r.toSpec) = (renderMatcher r.matchKind r.pattern, r.versionFloor) := by
  unfold UpstreamRequire.Spec.toSpec
  cases hr : r.versionFloor with
  | none =>
    dsimp only
    rw [trim_eq_self hm.trimmed, splitFloor_matcher hm]
  | some floor =>
    have hf := hfloor floor hr
    have htrimmed : (renderMatcher r.matchKind r.pattern ++ "@" ++ floor).toList.Trimmed
        isWhitespace := by
      rw [String.toList_append, String.toList_append, List.append_assoc]
      refine ⟨fun a ha => hm.trimmed.head a ?_, fun a ha => hf.trimmed.last a ?_⟩
      · rwa [List.head?_append_of_ne_nil _ hne] at ha
      · rwa [List.getLast?_append_of_ne_nil _ (List.append_ne_nil_of_right_ne_nil _ hf.nonempty),
          List.getLast?_append_of_ne_nil _ hf.nonempty] at ha
    dsimp only
    rw [trim_eq_self htrimmed, splitFloor_append hm hf]

/-- An entry that was parsed is parsed again from the text it is shown as. -/
theorem UpstreamRequire.parse_toSpec {s : String} {r : UpstreamRequire.Spec}
    (h : UpstreamRequire.parse s = .ok r) : UpstreamRequire.parse r.toSpec = .ok r := by
  obtain ⟨hform, hfloor⟩ := UpstreamRequire.parse_eq_ok_iff.1 h
  obtain ⟨hm, hf⟩ := splitFloor_spec (trim_trimmed s)
  have hsplit := splitFloor_toSpec (hform.isMatcher_render hm) hform.render.nonempty
    fun floor hmem => hf floor (hfloor ▸ hmem)
  rw [UpstreamRequire.parse_eq_ok_iff, hsplit]
  exact ⟨hform.render, rfl⟩

/-- A vendor with a floor, read and written. -/
theorem UpstreamRequire.parse_toSpec_vendor :
    UpstreamRequire.parse "mage-os/*@2.4" = .ok ⟨.prefixOf, "mage-os/", some "2.4"⟩ ∧
      UpstreamRequire.Spec.toSpec ⟨.prefixOf, "mage-os/", some "2.4"⟩ = "mage-os/@2.4" ∧
      UpstreamRequire.parse (UpstreamRequire.Spec.toSpec ⟨.prefixOf, "mage-os/", some "2.4"⟩)
        = .ok ⟨.prefixOf, "mage-os/", some "2.4"⟩ :=
  ⟨by rfl, by decide, @UpstreamRequire.parse_toSpec "mage-os/*@2.4" _ (by rfl)⟩

end Sconce
