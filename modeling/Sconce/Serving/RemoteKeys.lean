/-
# Folding a git remote twice

The key of a remote ought to be a fixed point: the command line folds what it is given, and so
does the lookup.  No rewrite brings back what another has taken away (`shrinks_foldRemote`), so a
key that is folded again stays as it is exactly when each rewrite finds nothing in it (`Clean`).

What a rewrite can find there is read off the remote itself, off what its scheme and credential
leave of it (`addressed`): `OnePass` says of that text that one pass is enough.
-/
import Sconce.Serving.Remotes
import Sconce.Lib.Shrinking
import Sconce.Lib.Utf8
import Mathlib.Data.List.Count

namespace Sconce

/-! ## The rewrites shrink -/

/-- What the rewrites make smaller: the text, or the number of its colons. -/
def remoteSize (s : List Char) : ℕ := s.length + s.count ':'

/-- A step that only leaves characters out shrinks. -/
theorem shrinks_of_sublist {f : List Char → List Char} (h : ∀ s, (f s).Sublist s) :
    Shrinks remoteSize f := by
  intro s
  by_cases hlen : (f s).length = s.length
  · exact .inl ((h s).eq_of_length hlen)
  · right
    have hlt := lt_of_le_of_ne (h s).length_le hlen
    have hcount := (h s).count_le ':'
    unfold remoteSize
    omega

/-- What follows the first occurrence is an end of the text. -/
theorem afterFirst_suffix {pat s y : List Char} (hpat : pat ≠ []) (h : s.afterFirst pat = some y) :
    y <:+ s := by
  by_cases hin : pat <:+: s
  · obtain ⟨x, y', rfl, hafter⟩ := List.afterFirst_of_infix hpat hin
    rw [h] at hafter
    cases hafter
    exact List.suffix_append _ y
  · rw [List.afterFirst_eq_none hin] at h
    cases h

/-- What is left without the scheme is an end of the text. -/
theorem dropScheme_suffix (s : List Char) : dropScheme s <:+ s := by
  unfold dropScheme
  cases h : s.afterFirst schemeEnd with
  | none => exact List.suffix_refl s
  | some y => exact afterFirst_suffix (List.cons_ne_nil _ _) h

/-- What is left without the user is an end of the text. -/
theorem dropUser_suffix (s : List Char) : dropUser s <:+ s := by
  obtain h | ⟨x, hx⟩ := dropUser_eq_or s
  · rw [h]
  · exact ⟨x ++ ['@'], by rw [List.append_assoc]; exact hx.symm⟩

/-- What is left without `.git` is a beginning of the text. -/
theorem dropGit_isPrefix (s : List Char) : dropGit s <+: s := by
  unfold dropGit
  split_ifs
  · exact List.take_prefix _ s
  · exact List.prefix_refl s

/-- The text is left as it is, or a colon of it becomes a slash. -/
theorem slashColon_eq_or (s : List Char) :
    slashColon s = s ∨ ∃ x y, ':' ∉ x ∧ s = x ++ ':' :: y ∧ slashColon s = x ++ '/' :: y := by
  unfold slashColon
  by_cases h : ':' ∈ authority s
  · obtain ⟨x, y, rfl, hx⟩ := List.eq_append_cons_of_mem ((List.takeWhile_prefix _).subset h)
    rw [if_pos h, List.dropWhile_ne_append hx, List.takeWhile_ne_append hx, List.tail_cons]
    by_cases hport : isPort y
    · exact .inl (if_pos hport)
    · exact .inr ⟨x, y, hx, rfl, if_neg hport⟩
  · exact .inl (if_neg h)

/-- A colon made a slash shrinks the text by the measure. -/
theorem shrinks_slashColon : Shrinks remoteSize slashColon := by
  intro s
  obtain h | ⟨x, y, hx, rfl, h⟩ := slashColon_eq_or s
  · exact .inl h
  · right
    rw [h]
    unfold remoteSize
    simp only [List.length_append, List.length_cons, List.count_append, List.count_cons]
    simp

/-! ## When none of them finds anything -/

/-- None of the rewrites finds anything in the text. -/
structure Clean (s : List Char) : Prop where
  blank : s.Trimmed isWhitespace
  scheme : ¬ schemeEnd <:+: s
  user : '@' ∉ authority s
  colon : ':' ∈ authority s → isPort (s.dropWhile (· ≠ ':')).tail
  git : ¬ dotGit <:+ s
  slashes : s.Trimmed (· == '/')

/-- Nothing comes off where there is no scheme. -/
theorem dropScheme_eq_self_iff {s : List Char} : dropScheme s = s ↔ ¬ schemeEnd <:+: s := by
  constructor
  · intro h hin
    obtain ⟨x, y, hs, hafter⟩ := List.afterFirst_of_infix (by decide) hin
    unfold dropScheme at h
    rw [hafter, Option.getD_some] at h
    have hlen := congrArg List.length hs
    rw [h, List.length_append, List.length_append, schemeEnd] at hlen
    simp only [List.length_cons, List.length_nil] at hlen
    omega
  · intro h
    unfold dropScheme
    rw [List.afterFirst_eq_none h, Option.getD_none]

/-- Nothing comes off where there is no user. -/
theorem dropUser_eq_self_iff {s : List Char} : dropUser s = s ↔ '@' ∉ authority s := by
  refine ⟨fun h hat => ?_, dropUser_of_not_mem⟩
  obtain ⟨x, y, hs, hx⟩ := List.eq_append_cons_of_mem ((List.takeWhile_prefix _).subset hat)
  unfold dropUser at h
  rw [if_pos hat, hs, List.dropWhile_ne_append hx, List.tail_cons] at h
  have hlen := congrArg List.length h
  rw [List.length_append, List.length_cons] at hlen
  omega

/-- A colon stays where it is before a port. -/
theorem slashColon_eq_self_iff {s : List Char} :
    slashColon s = s ↔ (':' ∈ authority s → isPort (s.dropWhile (· ≠ ':')).tail) := by
  constructor
  · intro h hcolon
    by_contra hport
    obtain ⟨x, y, rfl, hx⟩ := List.eq_append_cons_of_mem ((List.takeWhile_prefix _).subset hcolon)
    unfold slashColon at h
    rw [if_pos hcolon] at h
    dsimp only at h
    rw [if_neg hport, List.takeWhile_ne_append hx, List.dropWhile_ne_append hx] at h
    exact absurd (List.cons.inj (List.append_cancel_left h)).1 (by decide)
  · intro h
    unfold slashColon
    by_cases hcolon : ':' ∈ authority s
    · rw [if_pos hcolon]
      exact if_pos (h hcolon)
    · exact if_neg hcolon

/-- Nothing comes off where there is no `.git`. -/
theorem dropGit_eq_self_iff {s : List Char} : dropGit s = s ↔ ¬ dotGit <:+ s := by
  refine ⟨fun h hgit => ?_, dropGit_of_not_suffix⟩
  obtain ⟨x, rfl⟩ := hgit
  rw [dropGit_append] at h
  have hlen := congrArg List.length h
  rw [List.length_append, dotGit] at hlen
  simp only [List.length_cons, List.length_nil] at hlen
  omega

/-- Nothing comes off where no slash is at an end. -/
theorem trimSlashes_eq_self_iff {s : List Char} : trimSlashes s = s ↔ s.Trimmed (· == '/') :=
  List.trimEnds_eq_self_iff

/-- A text is left as it is by the rewrites in turn when none of them finds anything. -/
theorem foldRemote_trimEnds_eq_self_iff {s : List Char} :
    foldRemote (s.trimEnds isWhitespace) = s ↔ Clean s := by
  have hblank : Shrinks remoteSize (List.trimEnds isWhitespace) :=
    shrinks_of_sublist fun s => (List.trimEnds_isInfix isWhitespace s).sublist
  have hscheme := shrinks_of_sublist fun s => (dropScheme_suffix s).sublist
  have huser := shrinks_of_sublist fun s => (dropUser_suffix s).sublist
  have hgit := shrinks_of_sublist fun s => (dropGit_isPrefix s).sublist
  have hslashes : Shrinks remoteSize trimSlashes :=
    shrinks_of_sublist fun s => (List.trimEnds_isInfix _ s).sublist
  have h₁ := hscheme.comp hblank
  have h₂ := huser.comp h₁
  have h₃ := shrinks_slashColon.comp h₂
  have h₄ := hgit.comp h₃
  have hfold : foldRemote (s.trimEnds isWhitespace) = (trimSlashes ∘ dropGit ∘ slashColon ∘
      dropUser ∘ dropScheme ∘ List.trimEnds isWhitespace) s := by
    unfold foldRemote
    simp only [Function.comp_apply]
  rw [hfold, hslashes.comp_eq_self_iff h₄, hgit.comp_eq_self_iff h₃,
    shrinks_slashColon.comp_eq_self_iff h₂, huser.comp_eq_self_iff h₁,
    hscheme.comp_eq_self_iff hblank, dropScheme_eq_self_iff, dropUser_eq_self_iff,
    slashColon_eq_self_iff, dropGit_eq_self_iff, trimSlashes_eq_self_iff,
    List.trimEnds_eq_self_iff]
  constructor
  · rintro ⟨⟨⟨⟨⟨hb, hs⟩, hu⟩, hc⟩, hg⟩, hsl⟩
    exact ⟨hb, hs, hu, hc, hg, hsl⟩
  · rintro ⟨hb, hs, hu, hc, hg, hsl⟩
    exact ⟨⟨⟨⟨⟨hb, hs⟩, hu⟩, hc⟩, hg⟩, hsl⟩

/-! ## The second time -/

/-- The rewrites add no character but a slash. -/
theorem mem_foldRemote {s : List Char} {c : Char} (h : c ∈ foldRemote s) : c ∈ s ∨ c = '/' := by
  have hcolon : c ∈ slashColon (dropUser (dropScheme s)) :=
    (dropGit_isPrefix _).subset ((List.trimEnds_isInfix _ _).subset h)
  have hfront {c : Char} (hc : c ∈ dropUser (dropScheme s)) : c ∈ s :=
    (dropScheme_suffix s).subset ((dropUser_suffix _).subset hc)
  obtain heq | ⟨x, y, -, hs, heq⟩ := slashColon_eq_or (dropUser (dropScheme s))
  · rw [heq] at hcolon
    exact .inl (hfront hcolon)
  · rw [heq, List.mem_append, List.mem_cons] at hcolon
    obtain hx | rfl | hy := hcolon
    · exact .inl (hfront (hs ▸ List.mem_append_left _ hx))
    · exact .inr rfl
    · exact .inl (hfront (hs ▸ List.mem_append_right _ (List.mem_cons_of_mem _ hy)))

/-- What is lowercase already. -/
theorem asciiLowercase_eq_self {s : List Char} (h : ∀ c ∈ s, c.toLower = c) :
    asciiLowercase s = s :=
  (List.map_congr_left h).trans (List.map_id s)

/-- The text that is folded: trimmed and lowercased. -/
def remoteText (remote : String) : List Char := asciiLowercase (trim remote).toList

theorem lowercase_foldRemote (remote : String) :
    ∀ c ∈ foldRemote (remoteText remote), c.toLower = c := by
  intro c hc
  obtain hmem | rfl := mem_foldRemote hc
  · obtain ⟨d, -, rfl⟩ := List.mem_map.1 hmem
    exact Char.toLower_toLower d
  · decide

/-- A key that is folded again stays as it is when none of the rewrites finds anything in it. -/
theorem normalize_normalize_iff_clean (remote : String) :
    normalizeGitRemote (normalizeGitRemote remote) = normalizeGitRemote remote ↔
      Clean (foldRemote (remoteText remote)) := by
  have htext : asciiLowercase (trim (normalizeGitRemote remote)).toList =
      (foldRemote (remoteText remote)).trimEnds isWhitespace := by
    rw [asciiLowercase_trim]
    unfold normalizeGitRemote
    rw [String.toList_ofList]
    exact congrArg _ (asciiLowercase_eq_self (lowercase_foldRemote remote))
  rw [← foldRemote_trimEnds_eq_self_iff, ← htext]
  exact String.ofList_inj

/-! ## What has to be left of the remote -/

/-- What follows the scheme and the credential, the colon of an scp address made a slash. -/
def addressed (remote : String) : List Char :=
  (slashColon (dropUser (dropScheme (remoteText remote)))).dropWhile (· == '/')

/-- What is stripped from the end: slashes, and a `.git` behind them. -/
def Stripped (e : List Char) : Prop :=
  ∃ n, e = List.replicate n '/' ∨ e = List.replicate n '/' ++ dotGit

/-- Digits stand here, up to a slash, the end, or the `.git` at the end. -/
def PortThen (after : List Char) : Prop :=
  ∃ port e, port ≠ [] ∧ port.all Char.isDigit ∧ after = port ++ e ∧
    (e = [] ∨ e.head? = some '/' ∨ e = dotGit)

/-- The text has nothing left for a second pass to find. -/
structure OnePass (z : List Char) : Prop where
  /-- No whitespace at its beginning. -/
  blank : ∀ c ∈ z.head?, isWhitespace c = false
  /-- No scheme, unless what follows its end is all stripped. -/
  scheme : ∀ x y, z = x ++ (schemeEnd ++ y) → Stripped y
  /-- No `@` before the first slash. -/
  user : '@' ∉ authority z
  /-- No colon before the first slash but that of a port. -/
  colon : ∀ host after, ':' ∉ host → '/' ∉ host → z = host ++ ':' :: after → PortThen after
  /-- No whitespace and no `.git` before what is stripped from its end. -/
  ending : ∀ x e, z = x ++ e → Stripped e → e ≠ [] →
    ¬ dotGit <:+ x ∧ ∀ c ∈ x.getLast?, isWhitespace c = false

/-- How a text falls apart into what is left of it and what is stripped. -/
structure Leaves (z r e : List Char) : Prop where
  eq : z = r ++ e
  stripped : Stripped e
  /-- The text does not begin with a slash. -/
  head : ∀ c ∈ z.head?, c ≠ '/'
  /-- Nor does what is left end with one, -/
  last : ∀ c ∈ r.getLast?, c ≠ '/'
  /-- or with a `.git` that nothing follows. -/
  git : dotGit <:+ z → dotGit <:+ e
  /-- The text was trimmed. -/
  blank : ∀ c ∈ z.getLast?, isWhitespace c = false

/-! What is stripped has none of the characters that the other rewrites look for. -/

/-- What was stripped is slashes and `.git`s. -/
theorem Stripped.mem {e : List Char} (h : Stripped e) {c : Char} (hc : c ∈ e) :
    c = '/' ∨ c ∈ dotGit := by
  obtain ⟨n, rfl | rfl⟩ := h
  · exact .inl (List.eq_of_mem_replicate hc)
  · obtain hc | hc := List.mem_append.1 hc
    · exact .inl (List.eq_of_mem_replicate hc)
    · exact .inr hc

theorem Stripped.not_mem {e : List Char} (h : Stripped e) {c : Char} (hslash : c ≠ '/')
    (hgit : c ∉ dotGit) : c ∉ e :=
  fun hc => (h.mem hc).elim hslash hgit

theorem Stripped.not_blank {e : List Char} (h : Stripped e) {c : Char} (hc : c ∈ e) :
    isWhitespace c = false := by
  have hall : ('/' :: dotGit).all fun d => !isWhitespace d := by decide
  have := List.all_eq_true.1 hall c (List.mem_cons.2 (h.mem hc))
  simpa using this

theorem Stripped.not_digit {e : List Char} (h : Stripped e) {c : Char} (hc : c ∈ e) :
    c.isDigit = false := by
  have hall : ('/' :: dotGit).all fun d => !d.isDigit := by decide
  have := List.all_eq_true.1 hall c (List.mem_cons.2 (h.mem hc))
  simpa using this

/-- No part of a `.git` is stripped. -/
theorem Stripped.of_append_eq_dotGit {b e : List Char} (he : Stripped e) (hb : b ≠ [])
    (h : b ++ e = dotGit) : e = [] := by
  obtain ⟨n, rfl | rfl⟩ := he
  · cases n with
    | zero => rfl
    | succ n =>
      have hmem : '/' ∈ dotGit := h ▸ List.mem_append_right b List.mem_cons_self
      exact absurd hmem (by decide)
  · have hlen := congrArg List.length h
    rw [List.length_append, List.length_append] at hlen
    have hpos := List.length_pos_iff.2 hb
    omega

/-- What is stripped after two slashes is so without them. -/
theorem Stripped.of_slashes {y : List Char} (h : Stripped ('/' :: '/' :: y)) : Stripped y := by
  obtain ⟨n, hn⟩ := h
  match n, hn with
  | 0, .inl hn => cases hn
  | 0, .inr hn => cases hn
  | 1, .inl hn => cases hn
  | 1, .inr hn => cases hn
  | n + 2, .inl hn => exact ⟨n, .inl (List.cons.inj (List.cons.inj hn).2).2⟩
  | n + 2, .inr hn => exact ⟨n, .inr (List.cons.inj (List.cons.inj hn).2).2⟩

theorem authority_eq_of_no_slash {x : List Char} (h : '/' ∉ x) : authority x = x :=
  List.takeWhile_ne_of_not_mem h

/-- What is in the authority of two texts is in that of the first, or in the second. -/
theorem mem_authority_append {r e : List Char} {c : Char} (h : c ∈ authority (r ++ e)) :
    c ∈ authority r ∨ c ∈ e := by
  obtain hr | ⟨x, y, hx, rfl⟩ := List.not_mem_or_eq_append_cons '/' r
  · rw [authority_append hr] at h
    rw [authority_eq_of_no_slash hr]
    exact (List.mem_append.1 h).imp_right fun h => (List.takeWhile_prefix _).subset h
  · rw [List.append_assoc, authority_append hx, List.cons_append, authority_slash] at h
    rw [authority_append hx, authority_slash]
    exact .inl h

theorem mem_authority_of_append {r : List Char} {c : Char} (h : c ∈ authority r) (e : List Char) :
    c ∈ authority (r ++ e) := by
  obtain hr | ⟨x, y, hx, rfl⟩ := List.not_mem_or_eq_append_cons '/' r
  · rw [authority_append hr]
    exact List.mem_append_left _ ((List.takeWhile_prefix _).subset h)
  · rw [List.append_assoc, authority_append hx, List.cons_append, authority_slash]
    rwa [authority_append hx, authority_slash] at h

/-- What is in the authority has no slash before it. -/
theorem no_slash_of_mem_authority {x y : List Char} {c : Char} (h : c ∈ authority (x ++ c :: y))
    (hx : c ∉ x) : '/' ∉ x := by
  obtain hno | ⟨a, b, ha, rfl⟩ := List.not_mem_or_eq_append_cons '/' x
  · exact hno
  · rw [List.append_assoc, authority_append ha, List.cons_append, authority_slash,
      List.append_nil] at h
    exact absurd (List.mem_append_left _ h) hx

/-- A port is written in front of what is no digit. -/
theorem isPort_iff {after : List Char} : isPort after ↔ ∃ port e, port ≠ [] ∧
    port.all Char.isDigit ∧ after = port ++ e ∧ (e = [] ∨ e.head? = some '/') := by
  unfold isPort
  constructor
  · intro h
    obtain ⟨hhead, hall⟩ := Bool.and_eq_true_iff.1 h
    refine ⟨authority after, after.dropWhile (· ≠ '/'), ?_, hall,
      List.takeWhile_append_dropWhile.symm, ?_⟩
    · cases after with
      | nil => cases hhead
      | cons c after =>
        have hc : c ≠ '/' := by
          rintro rfl
          exact absurd (show ('/' : Char).isDigit = true from hhead) (by decide)
        rw [authority_cons hc]
        exact List.cons_ne_nil _ _
    · cases hrest : after.dropWhile (· ≠ '/') with
      | nil => exact .inl rfl
      | cons c rest =>
        have hfirst := List.head?_dropWhile_not (· ≠ '/') after
        rw [hrest] at hfirst
        right
        simpa using hfirst
  · rintro ⟨port, e, hne, hall, rfl, he⟩
    -- digits hold no slash, so the authority ends where they do
    have hslash : '/' ∉ port := fun hmem => absurd (List.all_eq_true.1 hall _ hmem) (by decide)
    have hrest : authority e = [] := by
      obtain rfl | he := he
      · rfl
      · cases e with
        | nil => rfl
        | cons c e =>
          cases he
          exact authority_slash e
    rw [authority_append hslash, hrest, List.append_nil, Bool.and_eq_true_iff]
    refine ⟨?_, hall⟩
    cases port with
    | nil => exact absurd rfl hne
    | cons c port => exact List.all_eq_true.1 hall c List.mem_cons_self

/-- What slashes are dropped from the end of. -/
theorem rdropWhile_slashes (x : List Char) :
    ∃ k, x = x.rdropWhile (· == '/') ++ List.replicate k '/' := by
  refine ⟨(x.rtakeWhile (· == '/')).length, ?_⟩
  have hslashes : x.rtakeWhile (· == '/') =
      List.replicate (x.rtakeWhile (· == '/')).length '/' := by
    refine List.eq_replicate_iff.2 ⟨rfl, fun c hc => ?_⟩
    exact beq_iff_eq.1 (List.mem_rtakeWhile_imp (p := (· == '/')) hc)
  rw [← hslashes]
  exact (List.rdropWhile_append_rtakeWhile (p := (· == '/')) (l := x)).symm

namespace Leaves

variable {z r e : List Char}

/-- Where the text has a separator, what is left of it has it. -/
theorem eq_cons {c : Char} (h : Leaves z r e) (hslash : c ≠ '/') (hgit : c ∉ dotGit)
    {x y : List Char} (hz : z = x ++ c :: y) : ∃ y', r = x ++ c :: y' ∧ y = y' ++ e := by
  have hnot := h.stripped.not_mem hslash hgit
  have heq := h.eq
  rw [hz] at heq
  obtain ⟨b, hr, hb⟩ | ⟨b, -, hb⟩ := List.append_eq_append_iff.1 heq
  · cases b with
    | nil =>
      rw [List.nil_append] at hb
      exact absurd (hb ▸ List.mem_cons_self) hnot
    | cons d b =>
      obtain ⟨rfl, rfl⟩ := List.cons.inj hb
      exact ⟨b, hr, rfl⟩
  · exact absurd (hb ▸ List.mem_append_right b List.mem_cons_self) hnot

/-- What is left is followed by slashes only where the text is. -/
theorem of_slashes (h : Leaves z r e) {x : List Char} {m n : ℕ}
    (heq : r ++ List.replicate m '/' = x ++ List.replicate n '/') :
    ∃ k, x = r ++ List.replicate k '/' := by
  have hdrop := congrArg (List.rdropWhile (· == '/')) heq
  have hall (k : ℕ) : ∀ c ∈ List.replicate k '/', (c == '/') = true := fun c hc =>
    beq_iff_eq.2 (List.eq_of_mem_replicate hc)
  rw [List.rdropWhile_append_of_all (hall m), List.rdropWhile_append_of_all (hall n),
    List.rdropWhile_eq_self_of_last fun c hc => beq_eq_false_iff_ne.2 (h.last c hc)] at hdrop
  obtain ⟨k, hk⟩ := rdropWhile_slashes x
  exact ⟨k, by rw [hdrop, ← hk]⟩

/-- A text that leaves a clean one behind needs one pass. -/
theorem onePass (h : Leaves z r e) (hr : Clean r) : OnePass z where
  blank c hc := by
    by_cases hnil : r = []
    · refine h.stripped.not_blank (List.mem_of_mem_head? ?_)
      rwa [h.eq, hnil, List.nil_append] at hc
    · rw [h.eq, List.head?_append_of_ne_nil _ hnil] at hc
      exact hr.blank.head c hc
  scheme x y hz := by
    obtain ⟨y', hr', hy⟩ := h.eq_cons (by decide) (by decide) hz
    replace hy : '/' :: '/' :: y = y' ++ e := hy
    -- the slashes after the colon are stripped: what is left neither ends in one nor has both
    cases y' with
    | nil =>
      rw [List.nil_append] at hy
      exact Stripped.of_slashes (hy ▸ h.stripped)
    | cons c y' =>
      obtain ⟨rfl, htail⟩ := List.cons.inj hy
      cases y' with
      | nil => exact absurd rfl (h.last '/' (by rw [hr']; simp))
      | cons d y' =>
        obtain ⟨rfl, -⟩ := List.cons.inj htail
        exact absurd ⟨x, y', by rw [hr', List.append_assoc]; rfl⟩ hr.scheme
  user hat := by
    rw [h.eq] at hat
    exact (mem_authority_append hat).elim hr.user (h.stripped.not_mem (by decide) (by decide))
  colon host after hcolon hslash hz := by
    obtain ⟨after', hr', rfl⟩ := h.eq_cons (by decide) (by decide) hz
    have hmem : ':' ∈ authority r := by
      rw [hr', authority_append hslash, authority_cons (by decide)]
      exact List.mem_append_right _ List.mem_cons_self
    have hport := hr.colon hmem
    rw [hr', List.dropWhile_ne_append hcolon, List.tail_cons] at hport
    obtain ⟨port, e', hne, hall, rfl, he'⟩ := isPort_iff.1 hport
    refine ⟨port, e' ++ e, hne, hall, List.append_assoc _ _ _, ?_⟩
    obtain rfl | he' := he'
    · rw [List.nil_append]
      obtain ⟨n, rfl | rfl⟩ := h.stripped
      · cases n with
        | zero => exact .inl rfl
        | succ n => exact .inr (.inl rfl)
      · cases n with
        | zero => exact .inr (.inr rfl)
        | succ n => exact .inr (.inl rfl)
    · exact .inr (.inl (by rw [List.head?_append, he']; rfl))
  ending x e' hz he' hne := by
    have hclean {k : ℕ} (hx : x = r ++ List.replicate k '/') :
        ¬ dotGit <:+ x ∧ ∀ c ∈ x.getLast?, isWhitespace c = false := by
      cases k with
      | zero =>
        rw [List.replicate_zero, List.append_nil] at hx
        exact hx ▸ ⟨hr.git, hr.blank.last⟩
      | succ k =>
        rw [List.replicate_succ', ← List.append_assoc] at hx
        refine ⟨fun hgit => ?_, fun c hc => ?_⟩
        · rw [hx] at hgit
          cases List.suffix_nil.1 (dotGit_suffix_append (by decide) hgit)
        · rw [hx, List.getLast?_concat] at hc
          cases hc
          decide
    have heq : r ++ e = x ++ e' := h.eq.symm.trans hz
    have hlast {k : ℕ} (y : List Char) : ¬ dotGit <:+ y ++ List.replicate (k + 1) '/' := by
      rw [List.replicate_succ', ← List.append_assoc]
      intro hgit
      cases List.suffix_nil.1 (dotGit_suffix_append (by decide) hgit)
    -- both endings are slashes, or both are slashes and a `.git`
    obtain ⟨n, rfl | rfl⟩ := he'
    · cases n with
      | zero => exact absurd rfl hne
      | succ n =>
        obtain ⟨m, rfl | rfl⟩ := h.stripped
        · obtain ⟨k, hx⟩ := h.of_slashes heq
          exact hclean hx
        · refine absurd ?_ (hlast (k := n) x)
          rw [← heq, ← List.append_assoc]
          exact List.suffix_append _ dotGit
    · have hgit : dotGit <:+ e := h.git (by
        rw [hz, ← List.append_assoc]
        exact List.suffix_append _ dotGit)
      obtain ⟨m, rfl | rfl⟩ := h.stripped
      · cases m with
        | zero => cases List.suffix_nil.1 hgit
        | succ m => exact absurd hgit (hlast (k := m) [])
      · rw [← List.append_assoc, ← List.append_assoc] at heq
        obtain ⟨k, hx⟩ := h.of_slashes (List.append_cancel_right heq)
        exact hclean hx

/-- What is left holds no part of a `.git` that is stripped. -/
theorem not_dotGit (h : Leaves z r e) {x b : List Char} (hb : b ≠ []) (hr : r = x ++ b) :
    b ++ e ≠ dotGit := by
  intro heq
  have hnil := h.stripped.of_append_eq_dotGit hb heq
  have hz : dotGit <:+ z := by
    rw [h.eq, hr, List.append_assoc, heq]
    exact List.suffix_append x dotGit
  have hgit := h.git hz
  rw [hnil] at hgit
  cases List.suffix_nil.1 hgit

theorem clean (h : Leaves z r e) (hz : OnePass z) : Clean r where
  blank := by
    refine ⟨fun c hc => hz.blank c ?_, fun c hc => ?_⟩
    · rw [h.eq, List.head?_append, Option.mem_def.1 hc]
      rfl
    · by_cases hnil : e = []
      · refine h.blank c ?_
        rwa [h.eq, hnil, List.append_nil]
      · exact (hz.ending r e h.eq h.stripped hnil).2 c hc
  scheme := by
    rintro ⟨x, y, hr⟩
    have hstripped := hz.scheme x (y ++ e) (by rw [h.eq, ← hr]; simp only [List.append_assoc])
    have hy : y ≠ [] := by
      rintro rfl
      exact absurd rfl (h.last '/' (by rw [← hr, schemeEnd]; simp))
    have hlast : ∀ c ∈ y.getLast?, c ≠ '/' := fun c hc => h.last c (by
      rw [← hr, List.getLast?_append_of_ne_nil _ hy]
      exact hc)
    -- what is left of a rest of slashes ends in one, and a key does not
    have hslashes {k : ℕ} (hy' : y = List.replicate k '/') : False := by
      cases k with
      | zero => exact hy hy'
      | succ k => exact hlast '/' (by rw [hy', List.replicate_succ']; simp) rfl
    obtain ⟨n, hn | hn⟩ := hstripped
    · exact hslashes (List.append_eq_replicate_iff.1 hn).2.1
    · obtain ⟨b, hb, -⟩ | ⟨b, hb, hgit⟩ := List.append_eq_append_iff.1 hn
      · exact hslashes (List.append_eq_replicate_iff.1 hb.symm).2.1
      · have hne : b ≠ [] := by
          rintro rfl
          exact hslashes (by rw [hb, List.append_nil])
        refine h.not_dotGit (x := x ++ schemeEnd ++ List.replicate n '/') hne ?_ hgit.symm
        rw [← hr, hb, ← List.append_assoc]
  user hat := hz.user (h.eq ▸ mem_authority_of_append hat e)
  colon hcolon := by
    obtain ⟨host, after, hr, hhost⟩ :=
      List.eq_append_cons_of_mem ((List.takeWhile_prefix _).subset hcolon)
    have hslash : '/' ∉ host := no_slash_of_mem_authority (hr ▸ hcolon) hhost
    -- the port the pass saw is the port of what it leaves
    obtain ⟨port, e', hne, hall, heq, he'⟩ := hz.colon host (after ++ e) hhost hslash (by
      rw [h.eq, hr, List.append_assoc, List.cons_append])
    rw [hr, List.dropWhile_ne_append hhost, List.tail_cons, isPort_iff]
    obtain ⟨b, hb, hbe⟩ | ⟨b, hb, hbe⟩ := List.append_eq_append_iff.1 heq
    · cases b with
      | nil =>
        rw [List.append_nil] at hb
        exact ⟨port, [], hne, hall, by rw [hb, List.append_nil], .inl rfl⟩
      | cons c b =>
        have hdigit := List.all_eq_true.1 hall c (hb ▸ List.mem_append_right _ List.mem_cons_self)
        rw [h.stripped.not_digit (hbe ▸ List.mem_cons_self)] at hdigit
        cases hdigit
    · refine ⟨port, b, hne, hall, hb, ?_⟩
      by_cases hnil : b = []
      · exact .inl hnil
      obtain rfl | he' | rfl := he'
      · exact absurd (List.append_eq_nil_iff.1 hbe.symm).1 hnil
      · rw [hbe, List.head?_append_of_ne_nil _ hnil] at he'
        exact .inr he'
      · refine absurd hbe.symm (h.not_dotGit (x := host ++ ':' :: port) hnil ?_)
        rw [hr, hb, List.append_assoc, List.cons_append]
  git hgit := by
    by_cases hnil : e = []
    · have hz' := h.git (by rwa [h.eq, hnil, List.append_nil])
      rw [hnil] at hz'
      cases List.suffix_nil.1 hz'
    · exact (hz.ending r e h.eq h.stripped hnil).1 hgit
  slashes := by
    refine ⟨fun c hc => beq_eq_false_iff_ne.2 (h.head c ?_), fun c hc =>
      beq_eq_false_iff_ne.2 (h.last c hc)⟩
    rw [h.eq, List.head?_append, Option.mem_def.1 hc]
    rfl

end Leaves

/-! ## What is addressed, and what is left of it -/

/-- An end of a text ends as the text does. -/
theorem getLast?_of_suffix {x y : List Char} (h : x <:+ y) {P : Char → Prop}
    (hy : ∀ c ∈ y.getLast?, P c) : ∀ c ∈ x.getLast?, P c := by
  intro c hc
  obtain ⟨w, rfl⟩ := h
  refine hy c ?_
  rw [List.getLast?_append, Option.mem_def.1 hc]
  rfl

/-- The end of the text is trimmed. -/
theorem addressed_blank (remote : String) :
    ∀ c ∈ (addressed remote).getLast?, isWhitespace c = false := by
  have htext : ∀ c ∈ (remoteText remote).getLast?, isWhitespace c = false := by
    unfold remoteText
    rw [asciiLowercase_trim]
    exact (List.trimmed_trimEnds isWhitespace _).last
  have hfront : ∀ c ∈ (dropUser (dropScheme (remoteText remote))).getLast?,
      isWhitespace c = false :=
    getLast?_of_suffix ((dropUser_suffix _).trans (dropScheme_suffix _)) htext
  refine getLast?_of_suffix (List.dropWhile_suffix _) ?_
  obtain heq | ⟨x, y, -, hs, heq⟩ := slashColon_eq_or (dropUser (dropScheme (remoteText remote)))
  · rw [heq]
    exact hfront
  · rw [hs] at hfront
    rw [heq]
    cases y with
    | nil =>
      intro c hc
      rw [List.getLast?_concat] at hc
      cases hc
      decide
    | cons d y =>
      rw [List.getLast?_append_of_ne_nil _ (List.cons_ne_nil _ _),
        List.getLast?_cons_of_ne_nil (List.cons_ne_nil _ _)] at hfront ⊢
      exact hfront

/-- Folding strips slashes and `.git`s off what is addressed. -/
theorem leaves_addressed (remote : String) :
    ∃ e, Leaves (addressed remote) (foldRemote (remoteText remote)) e := by
  have hblank := addressed_blank remote
  have hlast (s : List Char) : ∀ c ∈ (trimSlashes s).getLast?, c ≠ '/' := fun c hc =>
    beq_eq_false_iff_ne.1 ((List.trimmed_trimEnds (· == '/') s).last c hc)
  have hhead (s : List Char) : ∀ c ∈ (s.dropWhile (· == '/')).head?, c ≠ '/' := by
    intro c hc
    have hfirst := List.head?_dropWhile_not (· == '/') s
    rw [Option.mem_def.1 hc] at hfirst
    exact beq_eq_false_iff_ne.1 hfirst
  unfold addressed at hblank ⊢
  unfold foldRemote
  by_cases hgit : dotGit <:+ slashColon (dropUser (dropScheme (remoteText remote)))
  · obtain ⟨a, ha⟩ := hgit
    rw [← ha] at hblank ⊢
    obtain ⟨n, hn⟩ := rdropWhile_slashes (a.dropWhile (· == '/'))
    refine ⟨List.replicate n '/' ++ dotGit, ?_, ⟨n, .inr rfl⟩, hhead _, ?_, ?_, hblank⟩
    · rw [List.dropWhile_append_of_head (by rintro c ⟨⟩; rfl), dropGit_append, ← List.append_assoc]
      exact congrArg (· ++ dotGit) hn
    · exact hlast _
    · exact fun _ => List.suffix_append _ dotGit
  · rw [dropGit_of_not_suffix hgit]
    obtain ⟨n, hn⟩ := rdropWhile_slashes
      ((slashColon (dropUser (dropScheme (remoteText remote)))).dropWhile (· == '/'))
    refine ⟨List.replicate n '/', hn, ⟨n, .inl rfl⟩, hhead _, hlast _, fun h => ?_, hblank⟩
    exact absurd (h.trans (List.dropWhile_suffix _)) hgit

/-- A key that is folded again stays as it is exactly when one pass is enough. -/
theorem normalize_normalize_iff (remote : String) :
    normalizeGitRemote (normalizeGitRemote remote) = normalizeGitRemote remote ↔
      OnePass (addressed remote) := by
  obtain ⟨e, h⟩ := leaves_addressed remote
  rw [normalize_normalize_iff_clean]
  exact ⟨h.onePass, h.clean⟩

/-! ## One key for a repository -/

/-- A spelling is folded to the key of its repository when it is read, and a key that is folded
again stays as it is when one pass is enough; each exactly then. -/
theorem normalizeGitRemote_canonical_iff (s : Spelling) (remote : String) :
    (normalizeGitRemote s.text = String.ofList s.key ↔ s.Read) ∧
      (normalizeGitRemote (normalizeGitRemote remote) = normalizeGitRemote remote ↔
        OnePass (addressed remote)) :=
  ⟨s.normalize_eq_key_iff, normalize_normalize_iff remote⟩

/-- A clone URL with a slash behind its `.git`. -/
def slashedShop : Spelling where
  address := .url "https".toList
  user := none
  host := "github.com".toList
  path := "acme/shop".toList
  git := true
  slashes := 1
  delimited := by
    refine ⟨by rintro scheme ⟨⟩; decide, nofun, fun c hc => ?_⟩
    have hall : "github.com".toList.all fun c => c ≠ '/' ∧ c ≠ '@' ∧ c ≠ ':' := by decide
    exact of_decide_eq_true (List.all_eq_true.1 hall c hc)
  isPath := ⟨by decide, by decide, by decide⟩
  before := []
  after := []
  blank := nofun
  text := "https://github.com/acme/shop.git/"
  spelled := by decide

/-- Its `.git` is kept, and is only dropped when the key is folded again. -/
theorem normalizeGitRemote_slashed_git :
    normalizeGitRemote slashedShop.text ≠ String.ofList slashedShop.key ∧
      normalizeGitRemote (normalizeGitRemote slashedShop.text) ≠
        normalizeGitRemote slashedShop.text := by
  decide

end Sconce
