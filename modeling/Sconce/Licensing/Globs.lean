/-
# Glob rules

What a glob of a package set says, against the SQL pattern it is turned into.  `replace(glob,
'*', '%')` leaves the other special characters of `like` as they are: an underscore then
stands for any character, a percent sign for any run, and a backslash takes the next
character literally.
-/
import Sconce.Postgres

namespace Sconce

/-- What a glob says: `*` stands for any string, every other character for itself. -/
inductive GlobSays : List Char → List Char → Prop
  | nil : GlobSays [] []
  | star (run : List Char) {glob name : List Char} (h : GlobSays glob name) :
      GlobSays ('*' :: glob) (run ++ name)
  | char {c : Char} (hc : c ≠ '*') {glob name : List Char} (h : GlobSays glob name) :
      GlobSays (c :: glob) (c :: name)

/-- The database's test decides what the glob says, for every name. -/
def MeansWhatItSays (glob : String) : Prop :=
  ∀ name : String, globMatches glob name = true ↔ GlobSays glob.toList name.toList

/-- `replace(glob, '*', '%')`. -/
def likePattern (glob : List Char) : List Char := glob.map fun c => if c == '*' then '%' else c

/-- No character of the glob is special to `like`. -/
def Plain (glob : List Char) : Prop := ∀ c ∈ glob, c ≠ '_' ∧ c ≠ '%' ∧ c ≠ '\\'

/-! ## The patterns -/

theorem likePattern_cons {c : Char} (hc : c ≠ '*') (glob : List Char) :
    likePattern (c :: glob) = c :: likePattern glob := by
  rw [likePattern, List.map_cons, if_neg (by simpa using hc)]
  rfl

/-- A percent sign takes any run of characters. -/
theorem likeChars_percent (p text : List Char) :
    likeChars ('%' :: p) text = text.tails.any (likeChars p) := rfl

/-- An underscore takes any one character. -/
theorem likeChars_underscore (p : List Char) (x : Char) (text : List Char) :
    likeChars ('_' :: p) (x :: text) = likeChars p text := rfl

/-- A backslash takes the character behind it as it is. -/
theorem likeChars_escape (c : Char) (p : List Char) (x : Char) (text : List Char) :
    likeChars ('\\' :: c :: p) (x :: text) = (x == c && likeChars p text) := rfl

theorem likeChars_char {c : Char} (hunderscore : c ≠ '_') (hpercent : c ≠ '%')
    (hescape : c ≠ '\\') (p : List Char) (x : Char) (text : List Char) :
    likeChars (c :: p) (x :: text) = (x == c && likeChars p text) := by
  rw [likeChars]
  · rw [beq_eq_false_iff_ne.2 hunderscore, Bool.false_or]
  · exact hpercent
  · exact fun h _ => hescape h
  · exact fun _ _ h _ => hescape h

theorem likeChars_char_nil {c : Char} (hpercent : c ≠ '%') (hescape : c ≠ '\\') (p : List Char) :
    likeChars (c :: p) [] = false := by
  rw [likeChars]
  · exact hpercent
  · exact fun h _ => hescape h
  · exact fun _ _ h _ => hescape h

/-! ## Plain globs -/

theorem globSays_star_iff (glob name : List Char) :
    GlobSays ('*' :: glob) name ↔ ∃ rest, rest <:+ name ∧ GlobSays glob rest := by
  constructor
  · intro h
    cases h with
    | star run h => exact ⟨_, List.suffix_append run _, h⟩
    | char hc => exact absurd rfl hc
  · rintro ⟨rest, ⟨run, rfl⟩, h⟩
    exact .star run h

/-- Any other character of a glob takes itself. -/
theorem globSays_char_iff {c : Char} (hc : c ≠ '*') (glob name : List Char) :
    GlobSays (c :: glob) name ↔ ∃ rest, name = c :: rest ∧ GlobSays glob rest := by
  constructor
  · intro h
    cases h with
    | star => exact absurd rfl hc
    | char _ h => exact ⟨_, rfl, h⟩
  · rintro ⟨rest, rfl, h⟩
    exact .char hc h

/-- On a plain glob the pattern means what the glob says. -/
theorem likeChars_iff_of_plain {glob : List Char} (hplain : Plain glob) (name : List Char) :
    likeChars (likePattern glob) name = true ↔ GlobSays glob name := by
  induction glob generalizing name with
  | nil =>
    show name.isEmpty = true ↔ _
    rw [List.isEmpty_iff]
    constructor
    · rintro rfl
      exact .nil
    · intro h
      cases h
      rfl
  | cons c glob ih =>
    obtain ⟨⟨hunderscore, hpercent, hescape⟩, hrest⟩ := List.forall_mem_cons.1 hplain
    by_cases hstar : c = '*'
    · subst hstar
      show likeChars ('%' :: likePattern glob) name = true ↔ _
      rw [likeChars_percent, List.any_eq_true, globSays_star_iff]
      simp only [List.mem_tails, ih hrest]
    · rw [globSays_char_iff hstar]
      rw [likePattern_cons hstar]
      cases name with
      | nil =>
        rw [likeChars_char_nil hpercent hescape]
        exact iff_of_false nofun fun ⟨_, h, _⟩ => absurd h nofun
      | cons x name =>
        rw [likeChars_char hunderscore hpercent hescape, Bool.and_eq_true, beq_iff_eq, ih hrest]
        constructor
        · rintro ⟨rfl, h⟩
          exact ⟨name, rfl, h⟩
        · rintro ⟨rest, hname, h⟩
          obtain ⟨rfl, rfl⟩ := List.cons.inj hname
          exact ⟨rfl, h⟩

/-! ## The least name a pattern takes -/

/-- A name the pattern of the glob takes: nothing for a run, an `a` for any character.  None
when the pattern ends in the middle of an escape. -/
def leastName : List Char → Option (List Char)
  | [] => some []
  | '*' :: glob => leastName glob
  | '%' :: glob => leastName glob
  | '_' :: glob => (leastName glob).map ('a' :: ·)
  | ['\\'] => none
  | '\\' :: c :: glob => (leastName glob).map ((if c == '*' then '%' else c) :: ·)
  | c :: glob => (leastName glob).map (c :: ·)

/-- Under a star the least name has nothing. -/
theorem leastName_star (glob : List Char) : leastName ('*' :: glob) = leastName glob := rfl

/-- Under a percent sign the least name has nothing. -/
theorem leastName_percent (glob : List Char) : leastName ('%' :: glob) = leastName glob := rfl

/-- Under an underscore the least name has an `a`. -/
theorem leastName_underscore (glob : List Char) :
    leastName ('_' :: glob) = (leastName glob).map ('a' :: ·) := rfl

/-- Behind a backslash the least name has what the pattern has there. -/
theorem leastName_escape (c : Char) (glob : List Char) :
    leastName ('\\' :: c :: glob)
      = (leastName glob).map ((if c == '*' then '%' else c) :: ·) := rfl

/-- Under any other character the least name has it. -/
theorem leastName_char {c : Char} {glob : List Char} (hstar : c = '*' → False)
    (hpercent : c = '%' → False) (hunderscore : c = '_' → False)
    (hend : c = '\\' → glob = [] → False)
    (hescape : ∀ d rest, c = '\\' → glob = d :: rest → False) :
    leastName (c :: glob) = (leastName glob).map (c :: ·) :=
  leastName.eq_7 c glob hstar hpercent hunderscore hend hescape

/-- The characters of the glob that stand for themselves. -/
def literals (glob : List Char) : List Char := glob.filter (· ≠ '*')

theorem literals_cons {c : Char} (hc : c ≠ '*') (glob : List Char) :
    literals (c :: glob) = c :: literals glob :=
  List.filter_cons_of_pos (by simpa using hc)

theorem globSays_literals (glob : List Char) : GlobSays glob (literals glob) := by
  induction glob with
  | nil => exact .nil
  | cons c glob ih =>
    by_cases hstar : c = '*'
    · subst hstar
      exact .star [] ih
    · have hkept : literals (c :: glob) = c :: literals glob :=
        List.filter_cons_of_pos (by simpa using hstar)
      rw [hkept]
      exact .char hstar ih

/-- A name that a glob takes has the literals in it, in their order. -/
theorem GlobSays.sublist {glob name : List Char} (h : GlobSays glob name) :
    (literals glob).Sublist name := by
  induction h with
  | nil => exact List.Sublist.refl _
  | star run _ ih => exact ih.trans (List.sublist_append_right run _)
  | char hc _ ih =>
    rw [literals_cons hc]
    exact ih.cons_cons _

/-- What is neither an escape nor the start of one. -/
theorem ne_escape {c : Char} {glob : List Char} (hend : c = '\\' → glob = [] → False)
    (hescape : ∀ d rest, c = '\\' → glob = d :: rest → False) : c ≠ '\\' := by
  intro hc
  cases glob with
  | nil => exact hend hc rfl
  | cons d rest => exact hescape d rest hc rfl

theorem any_tails_of_mem {p : List Char → Bool} {text : List Char} (h : p text = true) :
    text.tails.any p = true :=
  List.any_eq_true.2 ⟨text, (List.mem_tails _ _).2 (List.suffix_refl text), h⟩

/-- The pattern takes its least name. -/
theorem likeChars_leastName {glob name : List Char} (h : leastName glob = some name) :
    likeChars (likePattern glob) name = true := by
  induction glob using leastName.induct generalizing name with
  | case1 =>
    obtain rfl := Option.some.inj h
    rfl
  | case2 glob ih =>
    rw [leastName_star] at h
    show likeChars ('%' :: likePattern glob) name = true
    rw [likeChars_percent]
    exact any_tails_of_mem (ih h)
  | case3 glob ih =>
    rw [leastName_percent] at h
    rw [likePattern_cons (by decide), likeChars_percent]
    exact any_tails_of_mem (ih h)
  | case4 glob ih =>
    rw [leastName_underscore] at h
    obtain ⟨rest, hrest, rfl⟩ := Option.map_eq_some_iff.1 h
    rw [likePattern_cons (by decide), likeChars_underscore]
    exact ih hrest
  | case5 => exact absurd h nofun
  | case6 c glob ih =>
    rw [leastName_escape] at h
    obtain ⟨rest, hrest, rfl⟩ := Option.map_eq_some_iff.1 h
    rw [likePattern_cons (by decide)]
    show likeChars ('\\' :: (if c == '*' then '%' else c) :: likePattern glob) _ = true
    rw [likeChars_escape, beq_self_eq_true, Bool.true_and]
    exact ih hrest
  | case7 c glob hstar hpercent hunderscore hend hescape ih =>
    rw [leastName_char hstar hpercent hunderscore hend hescape] at h
    obtain ⟨rest, hrest, rfl⟩ := Option.map_eq_some_iff.1 h
    rw [likePattern_cons hstar, likeChars_char hunderscore hpercent (ne_escape hend hescape),
      beq_self_eq_true, Bool.true_and]
    exact ih hrest

/-- It is no longer than what stands for itself in the glob, and is that only in a plain
glob. -/
theorem leastName_literals {glob name : List Char} (h : leastName glob = some name) :
    name.length ≤ (literals glob).length ∧ (name = literals glob → Plain glob) := by
  induction glob using leastName.induct generalizing name with
  | case1 =>
    obtain rfl := Option.some.inj h
    exact ⟨le_rfl, fun _ => List.forall_mem_nil _⟩
  | case2 glob ih =>
    rw [leastName_star] at h
    have hsame : literals ('*' :: glob) = literals glob := rfl
    rw [hsame]
    refine ⟨(ih h).1, fun hname => List.forall_mem_cons.2 ⟨by decide, (ih h).2 hname⟩⟩
  | case3 glob ih =>
    -- the percent sign takes nothing: the name is shorter
    rw [leastName_percent] at h
    rw [literals_cons (by decide), List.length_cons]
    have hlength := (ih h).1
    refine ⟨by omega, fun hname => ?_⟩
    rw [hname, List.length_cons] at hlength
    omega
  | case4 glob ih =>
    rw [leastName_underscore] at h
    obtain ⟨rest, hrest, rfl⟩ := Option.map_eq_some_iff.1 h
    rw [literals_cons (by decide), List.length_cons, List.length_cons]
    refine ⟨by have := (ih hrest).1; omega, fun hname => ?_⟩
    exact absurd (List.cons.inj hname).1 (by decide)
  | case5 => exact absurd h nofun
  | case6 c glob ih =>
    rw [leastName_escape] at h
    obtain ⟨rest, hrest, rfl⟩ := Option.map_eq_some_iff.1 h
    have hlength := (ih hrest).1
    rw [literals_cons (by decide)]
    by_cases hstar : c = '*'
    · -- the escaped star is an escaped percent sign
      subst hstar
      have hsame : literals ('*' :: glob) = literals glob := rfl
      rw [hsame, List.length_cons, List.length_cons]
      refine ⟨by omega, fun hname => ?_⟩
      exact absurd (List.cons.inj hname).1 (by decide)
    · rw [literals_cons hstar, List.length_cons, List.length_cons, List.length_cons]
      refine ⟨by omega, fun hname => ?_⟩
      have hlong := congrArg List.length hname
      rw [List.length_cons, List.length_cons, List.length_cons] at hlong
      omega
  | case7 c glob hstar hpercent hunderscore hend hescape ih =>
    rw [leastName_char hstar hpercent hunderscore hend hescape] at h
    obtain ⟨rest, hrest, rfl⟩ := Option.map_eq_some_iff.1 h
    rw [literals_cons hstar, List.length_cons, List.length_cons]
    refine ⟨by have := (ih hrest).1; omega, fun hname => ?_⟩
    exact List.forall_mem_cons.2 ⟨⟨hunderscore, hpercent, ne_escape hend hescape⟩,
      (ih hrest).2 (List.cons.inj hname).2⟩

/-- A pattern that ends in the middle of an escape takes no name. -/
theorem likeChars_of_leastName_none {glob : List Char} (h : leastName glob = none)
    (name : List Char) : likeChars (likePattern glob) name = false := by
  induction glob using leastName.induct generalizing name with
  | case1 => exact absurd h nofun
  -- a star becomes a percent sign, and matches what some rest of the name does
  | case2 glob ih =>
    rw [leastName_star] at h
    show likeChars ('%' :: likePattern glob) name = false
    rw [likeChars_percent, List.any_eq_false]
    intro rest _
    rw [ih h rest]
    exact Bool.false_ne_true
  | case3 glob ih =>
    rw [leastName_percent] at h
    rw [likePattern_cons (by decide), likeChars_percent, List.any_eq_false]
    intro rest _
    rw [ih h rest]
    exact Bool.false_ne_true
  | case4 glob ih =>
    rw [leastName_underscore, Option.map_eq_none_iff] at h
    rw [likePattern_cons (by decide)]
    cases name with
    | nil => exact likeChars_char_nil (by decide) (by decide) _
    | cons x name => rw [likeChars_underscore, ih h]
  -- the lone backslash
  | case5 =>
    rw [likePattern_cons (by decide)]
    rfl
  | case6 c glob ih =>
    rw [leastName_escape, Option.map_eq_none_iff] at h
    rw [likePattern_cons (by decide)]
    show likeChars ('\\' :: (if c == '*' then '%' else c) :: likePattern glob) name = false
    cases name with
    | nil => rfl
    | cons x name => rw [likeChars_escape, ih h, Bool.and_false]
  | case7 c glob hstar hpercent hunderscore hend hescape ih =>
    rw [leastName_char hstar hpercent hunderscore hend hescape, Option.map_eq_none_iff] at h
    have hnot := ne_escape hend hescape
    rw [likePattern_cons hstar]
    cases name with
    | nil => exact likeChars_char_nil hpercent hnot _
    | cons x name => rw [likeChars_char hunderscore hpercent hnot, ih h, Bool.and_false]

/-- **When glob rules mean what they say.** The database's test decides what a glob says, for
every name, exactly when the glob holds no underscore, percent sign or backslash. -/
theorem means_what_it_says_iff (glob : String) : MeansWhatItSays glob ↔ Plain glob.toList := by
  have htest : ∀ name : List Char, globMatches glob (String.ofList name)
      = likeChars (likePattern glob.toList) name := by
    intro name
    unfold globMatches likePattern
    rw [String.toList_ofList]
  constructor
  · intro h
    have hmeans : ∀ name : List Char, likeChars (likePattern glob.toList) name = true →
        GlobSays glob.toList name := by
      intro name hlike
      have hname := (h (String.ofList name)).1 ((htest name).trans hlike)
      rwa [String.toList_ofList] at hname
    cases hleast : leastName glob.toList with
    | some name =>
      -- what stands for itself in the glob is in the least name, which is no longer
      have hsublist := (hmeans name (likeChars_leastName hleast)).sublist
      obtain ⟨hlength, hplain⟩ := leastName_literals hleast
      exact hplain (hsublist.eq_of_length_le hlength).symm
    | none =>
      have hnever := likeChars_of_leastName_none hleast (literals glob.toList)
      have htaken := (h (String.ofList (literals glob.toList))).2 (by
        rw [String.toList_ofList]
        exact globSays_literals glob.toList)
      rw [htest, hnever] at htaken
      exact absurd htaken Bool.false_ne_true
  · intro hplain name
    exact likeChars_iff_of_plain hplain name.toList

/-- A rule for one package with an underscore in its name takes in another package. -/
theorem underscore_takes_any : ¬ MeansWhatItSays "acme/my_tool" := by
  intro h
  have hmeans := (h "acme/my-tool").1 (by decide)
  have hsublist := hmeans.sublist
  exact absurd hsublist (by decide)

end Sconce
