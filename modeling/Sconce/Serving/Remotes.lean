/-
# The key of a git remote

`normalizeGitRemote` folds the ways to write a clone URL to one `host/path`, which is the key of
`org_remotes`.  Its five rewrites run in turn, each on what the one before has left: the scheme,
the credential, the colon of an scp address, the `.git`, the slashes.

`Spelling` is a way to write a repository down.  It is folded to the key of the repository
exactly when it is `Spelling.Read` (`Spelling.normalize_eq_key_iff`): what goes wrong above all is
a slash after the `.git`, which is then not at the end when it is looked for there.
-/
import Sconce.Licensing.Editions
import Sconce.Lib.Trimming

namespace Sconce

/-! ## The rewrites -/

/-- The text before a scheme's end. -/
def schemeEnd : List Char := [':', '/', '/']

def dotGit : List Char := ['.', 'g', 'i', 't']

/-- Drop a URL scheme. -/
def dropScheme (s : List Char) : List Char := (s.afterFirst schemeEnd).getD s

/-- The part before the first slash. -/
def authority (s : List Char) : List Char := s.takeWhile (· ≠ '/')

/-- Drop a `user@` prefix, but only from the authority. -/
def dropUser (s : List Char) : List Char :=
  if '@' ∈ authority s then (s.dropWhile (· ≠ '@')).tail else s

/-- What follows a colon is a port: digits up to a slash. -/
def isPort (after : List Char) : Bool :=
  after.head?.any Char.isDigit && (authority after).all Char.isDigit

/-- The colon of an scp address becomes a slash, that of a port is left. -/
def slashColon (s : List Char) : List Char :=
  if ':' ∈ authority s then
    let after := (s.dropWhile (· ≠ ':')).tail
    if isPort after then s else s.takeWhile (· ≠ ':') ++ '/' :: after
  else s

/-- Strip a trailing `.git`. -/
def dropGit (s : List Char) : List Char := if dotGit <:+ s then s.take (s.length - 4) else s

/-- Trim surrounding slashes. -/
def trimSlashes (s : List Char) : List Char := s.trimEnds (· == '/')

/-- `s.to_ascii_lowercase()`. -/
def asciiLowercase (s : List Char) : List Char := s.map Char.toLower

/-- The rewrites after the text is trimmed and lowercased. -/
def foldRemote (s : List Char) : List Char :=
  trimSlashes (dropGit (slashColon (dropUser (dropScheme s))))

/-- `normalize_git_remote`. -/
def normalizeGitRemote (remote : String) : String :=
  String.ofList (foldRemote (asciiLowercase (trim remote).toList))

example : normalizeGitRemote "  SSH://git@Git.Acme.example:2222/acme/shop.git " =
    "git.acme.example:2222/acme/shop" := by decide

/-! ## Spellings -/

/-- How a remote begins, and what stands between its host and its path. -/
inductive Address where
  | url (scheme : List Char)
  | scp
  | bare

/-- What stands before the credential. -/
def Address.scheme : Address → List Char
  | .url scheme => scheme ++ schemeEnd
  | _ => []

/-- What stands between the host and the path. -/
def Address.separator : Address → Char
  | .scp => ':'
  | _ => '/'

/-- The parts of a remote as it is written. -/
structure Parts where
  address : Address
  user : Option (List Char)
  host : List Char
  path : List Char
  git : Bool
  slashes : ℕ

namespace Parts

variable (p : Parts)

/-- The user, with its `@`. -/
def credential : List Char :=
  match p.user with
  | some user => user ++ ['@']
  | none => []

/-- What stands before the host. -/
def front : List Char := p.address.scheme ++ p.credential

/-- What stands after the path. -/
def ending : List Char := (if p.git then dotGit else []) ++ List.replicate p.slashes '/'

/-- What stands after the separator. -/
def rest : List Char := p.path ++ p.ending

/-- The host and everything after it. -/
def body : List Char := p.host ++ p.address.separator :: p.rest

/-- The remote as it is written. -/
def written : List Char := p.front ++ p.body

/-- The key of the repository. -/
def key : List Char := p.host ++ '/' :: p.path

/-- A scheme ends at the first colon, a user at the first `@`, and a host has none of the
separators. -/
structure Delimited : Prop where
  scheme : ∀ scheme, p.address = .url scheme → ':' ∉ scheme
  user : ∀ user ∈ p.user, '/' ∉ user ∧ '@' ∉ user
  host : ∀ c ∈ p.host, c ≠ '/' ∧ c ≠ '@' ∧ c ≠ ':'

/-- A path that a remote may have. -/
structure IsPath (path : List Char) : Prop where
  nonempty : path ≠ []
  last : path.getLast? ≠ some '/'
  git : ¬ dotGit <:+ path

end Parts

/-- A spelling of a repository: its parts in any letter case, with whitespace around them. -/
structure Spelling extends Parts where
  delimited : toParts.Delimited
  isPath : Parts.IsPath path
  before : List Char
  after : List Char
  blank : ∀ c ∈ before ++ after, isWhitespace c
  text : String
  spelled : asciiLowercase text.toList = before ++ toParts.written ++ after

/-- What a spelling has to be like to be folded to the key of its repository. -/
structure Parts.Read (p : Parts) : Prop where
  host : p.host ≠ []
  /-- No slash follows the `.git`. -/
  git : p.git → p.slashes = 0
  /-- The path does not end in whitespace that counts as around the remote. -/
  path_blank : p.ending = [] → ∀ c ∈ p.path.getLast?, isWhitespace c = false
  /-- Nor does the host begin with such. -/
  host_blank : p.front = [] → ∀ c ∈ p.host.head?, isWhitespace c = false
  /-- Without a scheme, nothing later looks like one. -/
  scheme : p.address.scheme = [] → ¬ schemeEnd <:+: p.address.separator :: p.rest
  /-- Without a user, nothing before the first slash looks like one. -/
  user : p.address = .scp → p.user = none → '@' ∉ authority p.rest
  /-- The path of an scp address does not look like a port. -/
  port : p.address = .scp → ¬ isPort p.rest

/-! ## Letter case -/

theorem toNat_toLower (c : Char) :
    c.toLower.toNat = if 65 ≤ c.toNat ∧ c.toNat ≤ 90 then c.toNat + 32 else c.toNat := by
  unfold Char.toLower
  split_ifs with h h' h'
  · change (c.val + ('a'.val - 'A'.val)).toNat = c.val.toNat + 32
    have hle : c.val.toNat ≤ 90 := h'.2
    rw [UInt32.toNat_add, show ('a'.val - 'A'.val).toNat = 32 from rfl]
    omega
  · exact absurd h h'
  · exact absurd h' h
  · rfl

theorem isWhitespace_toLower (c : Char) : isWhitespace c.toLower = isWhitespace c := by
  unfold isWhitespace
  rw [toNat_toLower]
  split_ifs with h
  · grind
  · rfl

/-- A text can be trimmed before or after it is put in lower case. -/
theorem asciiLowercase_trim (s : String) :
    asciiLowercase (trim s).toList = (asciiLowercase s.toList).trimEnds isWhitespace := by
  unfold trim asciiLowercase List.trimEnds List.rdropWhile
  have hpred : isWhitespace ∘ Char.toLower = isWhitespace := funext isWhitespace_toLower
  rw [String.toList_ofList, List.dropWhile_map, hpred, ← List.map_reverse, List.dropWhile_map, hpred,
    ← List.map_reverse]

/-! ## What the rewrites do to the ending -/

/-- An ending that is stripped. -/
def IsEnding (e : List Char) : Prop := e = dotGit ∨ ∃ n, e = List.replicate n '/'

/-- A text that ends in `.git` does so after a character that is none of it. -/
theorem dotGit_suffix_append {x y : List Char} {c : Char} (hc : c ∉ dotGit)
    (h : dotGit <:+ x ++ c :: y) : dotGit <:+ y := by
  obtain ⟨z, hz⟩ := h
  obtain ⟨a, -, hcut⟩ | ⟨b, -, hcut⟩ := List.append_eq_append_iff.1 hz
  · exact absurd (hcut ▸ List.mem_append_right a List.mem_cons_self) hc
  · cases b with
    | nil =>
      cases hcut
      exact absurd List.mem_cons_self hc
    | cons d b => exact ⟨b, (List.cons.inj hcut).2.symm⟩

theorem dropGit_append (a : List Char) : dropGit (a ++ dotGit) = a := by
  unfold dropGit
  rw [if_pos (List.suffix_append a dotGit), List.length_append]
  exact List.take_left

theorem dropGit_of_not_suffix {a : List Char} (h : ¬ dotGit <:+ a) : dropGit a = a := if_neg h

/-- A slash at the end hides the `.git` before it. -/
theorem dropGit_slashes (a : List Char) (n : ℕ) :
    dropGit (a ++ List.replicate (n + 1) '/') = a ++ List.replicate (n + 1) '/' := by
  refine dropGit_of_not_suffix fun h => ?_
  rw [List.replicate_succ', ← List.append_assoc] at h
  have hnil := dotGit_suffix_append (by decide) h
  cases List.suffix_nil.1 hnil

theorem trimSlashes_append (a : List Char) (n : ℕ) :
    trimSlashes (a ++ List.replicate n '/') = trimSlashes a := by
  have h := @List.trimEnds_padded _ (· == '/') a [] (List.replicate n '/') nofun
    fun c hc => beq_iff_eq.2 (List.eq_of_mem_replicate hc)
  exact h

theorem length_dropGit_le (a : List Char) : (dropGit a).length ≤ a.length := by
  unfold dropGit
  split_ifs
  · rw [List.length_take]
    exact min_le_right _ _
  · exact le_rfl

theorem length_trimSlashes_le (a : List Char) : (trimSlashes a).length ≤ a.length :=
  List.length_trimEnds_le _ a

theorem IsEnding.colon {e : List Char} (he : IsEnding e) : ':' ∉ e := by
  obtain rfl | ⟨n, rfl⟩ := he
  · decide
  · rw [List.mem_replicate]
    exact fun h => absurd h.2 (by decide)

/-- What is left of a text with an ending is at most what stands before it. -/
theorem IsEnding.length_le {e : List Char} (he : IsEnding e) (a : List Char) :
    (trimSlashes (dropGit (a ++ e))).length ≤ a.length := by
  obtain rfl | ⟨n, rfl⟩ := he
  · rw [dropGit_append]
    exact length_trimSlashes_le a
  · cases n with
    | zero =>
      rw [List.replicate_zero, List.append_nil]
      exact (length_trimSlashes_le _).trans (length_dropGit_le a)
    | succ n =>
      rw [dropGit_slashes, trimSlashes_append]
      exact length_trimSlashes_le a

/-! ## What the rewrites do to the front -/

theorem authority_append {x : List Char} (hx : '/' ∉ x) (y : List Char) :
    authority (x ++ y) = x ++ authority y :=
  List.takeWhile_append_of_pos fun _ hc => decide_eq_true (ne_of_mem_of_not_mem hc hx)

/-- Nothing is before a slash at the start. -/
theorem authority_slash (y : List Char) : authority ('/' :: y) = [] :=
  List.takeWhile_cons_of_neg (by decide)

theorem authority_cons {c : Char} (hc : c ≠ '/') (y : List Char) :
    authority (c :: y) = c :: authority y :=
  List.takeWhile_cons_of_pos (decide_eq_true hc)

/-- A user without a separator in it is dropped. -/
theorem dropUser_append {user : List Char} (hslash : '/' ∉ user) (hat : '@' ∉ user)
    (y : List Char) : dropUser (user ++ '@' :: y) = y := by
  unfold dropUser
  rw [authority_append hslash, authority_cons (by decide),
    if_pos (List.mem_append_right user List.mem_cons_self), List.dropWhile_ne_append hat,
    List.tail_cons]

theorem dropUser_of_not_mem {s : List Char} (h : '@' ∉ authority s) : dropUser s = s := if_neg h

/-- A text is left as it is, or loses what stands up to an `@`. -/
theorem dropUser_eq_or (s : List Char) :
    dropUser s = s ∨ ∃ x, s = x ++ '@' :: dropUser s := by
  by_cases h : '@' ∈ authority s
  · right
    have hmem : '@' ∈ s := (List.takeWhile_prefix _).subset h
    obtain ⟨x, y, rfl, hx⟩ := List.eq_append_cons_of_mem hmem
    refine ⟨x, ?_⟩
    unfold dropUser
    rw [if_pos h, List.dropWhile_ne_append hx, List.tail_cons]
  · exact .inl (dropUser_of_not_mem h)

/-- Text without a slash does not hold the end of a scheme, unless it ends in a colon. -/
theorem afterFirst_append_of_no_slash {x : List Char} (hslash : '/' ∉ x)
    (hlast : x.getLast? ≠ some ':') (y : List Char) :
    (x ++ y).afterFirst schemeEnd = y.afterFirst schemeEnd := by
  induction x with
  | nil => rfl
  | cons c x ih =>
    obtain ⟨hc, hx⟩ := not_or.1 (mt List.mem_cons.2 hslash)
    rw [List.cons_append, List.afterFirst_cons_of_not_start]
    · cases x with
      | nil => rfl
      | cons d x => exact ih hx hlast
    · rintro ⟨r, hr⟩
      cases x with
      | nil =>
        cases hr
        exact hlast rfl
      | cons d x =>
        obtain ⟨rfl, -⟩ := List.cons.inj (List.cons.inj hr).2
        exact hx List.mem_cons_self

/-- What the two front rewrites leave begins after the end of a scheme or after an `@`. -/
def IsCut (cut : List Char) : Prop := cut = schemeEnd ∨ cut = ['@']

/-- Nothing in the text can be taken for a scheme or for a user. -/
structure Parts.Fronted (p : Parts) : Prop where
  scheme : p.address.scheme = [] → ¬ schemeEnd <:+: p.address.separator :: p.rest
  user : p.address = .scp → p.user = none → '@' ∉ authority p.rest

section Fronts

variable {p : Parts} (hp : p.Delimited)

include hp

theorem Parts.Delimited.host_slash : '/' ∉ p.host := fun h => (hp.host _ h).1 rfl

theorem Parts.Delimited.host_at : '@' ∉ p.host := fun h => (hp.host _ h).2.1 rfl

theorem Parts.Delimited.host_colon : ':' ∉ p.host := fun h => (hp.host _ h).2.2 rfl

theorem Parts.Delimited.credential_slash : '/' ∉ p.credential := by
  unfold Parts.credential
  cases huser : p.user with
  | none => exact List.not_mem_nil
  | some user =>
    rw [List.mem_append, not_or]
    exact ⟨(hp.user user huser).1, by decide⟩

/-- The scheme that is written is dropped. -/
theorem Parts.Delimited.dropScheme_url {scheme : List Char} (h : p.address = .url scheme) :
    dropScheme p.written = p.credential ++ p.body := by
  have hwritten : p.written = scheme ++ (schemeEnd ++ (p.credential ++ p.body)) := by
    unfold Parts.written Parts.front
    rw [h]
    simp only [Address.scheme, List.append_assoc]
  unfold dropScheme
  rw [hwritten, schemeEnd, List.afterFirst_append (hp.scheme scheme h), Option.getD_some]

/-- Without a scheme, what looks like the end of one comes after the host. -/
theorem Parts.Delimited.afterFirst_written (h : p.address.scheme = []) :
    p.written.afterFirst schemeEnd = (p.address.separator :: p.rest).afterFirst schemeEnd := by
  have hwritten : p.written = (p.credential ++ p.host) ++ p.address.separator :: p.rest := by
    unfold Parts.written Parts.front Parts.body
    rw [h, List.nil_append, List.append_assoc]
  have hslash : '/' ∉ p.credential ++ p.host := by
    rw [List.mem_append, not_or]
    exact ⟨hp.credential_slash, hp.host_slash⟩
  rw [hwritten]
  refine afterFirst_append_of_no_slash hslash ?_ _
  by_cases hhost : p.host = []
  · rw [hhost, List.append_nil]
    unfold Parts.credential
    cases p.user with
    | none => nofun
    | some user =>
      rw [List.getLast?_concat]
      decide
  · rw [List.getLast?_append_of_ne_nil _ hhost]
    exact fun hlast => hp.host_colon (List.mem_of_getLast? hlast)

theorem Parts.Delimited.dropUser_credential (hf : p.Fronted) :
    dropUser (p.credential ++ p.body) = p.body := by
  unfold Parts.credential
  cases huser : p.user with
  | some user =>
    obtain ⟨hslash, hat⟩ := hp.user user huser
    rw [List.append_assoc]
    exact dropUser_append hslash hat p.body
  | none =>
    refine dropUser_of_not_mem ?_
    unfold Parts.body
    rw [List.nil_append, authority_append hp.host_slash, List.mem_append, not_or]
    refine ⟨hp.host_at, ?_⟩
    cases haddr : p.address with
    | scp =>
      change '@' ∉ authority (':' :: p.rest)
      rw [authority_cons (by decide), List.mem_cons, not_or]
      exact ⟨by decide, hf.user haddr huser⟩
    | url scheme => exact authority_slash p.rest ▸ List.not_mem_nil
    | bare => exact authority_slash p.rest ▸ List.not_mem_nil

/-- The front of a remote is dropped, and nothing else. -/
theorem Parts.Delimited.drop_front (hf : p.Fronted) :
    dropUser (dropScheme p.written) = p.body := by
  have hbare (h : p.address.scheme = []) : dropScheme p.written = p.credential ++ p.body := by
    unfold dropScheme
    rw [hp.afterFirst_written h, List.afterFirst_eq_none (hf.scheme h), Option.getD_none]
    unfold Parts.written Parts.front
    rw [h, List.nil_append]
  have hdrop : dropScheme p.written = p.credential ++ p.body := by
    cases haddr : p.address with
    | url scheme => exact hp.dropScheme_url haddr
    | scp => exact hbare (by rw [haddr]; rfl)
    | bare => exact hbare (by rw [haddr]; rfl)
  rw [hdrop, hp.dropUser_credential hf]

/-- Otherwise the text is cut after its host. -/
theorem Parts.Delimited.cut_front (hf : ¬ p.Fronted) :
    ∃ x cut, IsCut cut ∧
      p.address.separator :: p.rest = x ++ (cut ++ dropUser (dropScheme p.written)) := by
  -- the fold takes another `://` of the rest for the scheme, or an `@` for the user
  by_cases hscheme : p.address.scheme = [] ∧ schemeEnd <:+: p.address.separator :: p.rest
  · obtain ⟨x, y, hrest, hafter⟩ := List.afterFirst_of_infix (by decide) hscheme.2
    have hdrop : dropScheme p.written = y := by
      unfold dropScheme
      rw [hp.afterFirst_written hscheme.1, hafter, Option.getD_some]
    rw [hdrop, hrest]
    obtain heq | ⟨z, hz⟩ := dropUser_eq_or y
    · exact ⟨x, schemeEnd, .inl rfl, by rw [heq, List.append_assoc]⟩
    · refine ⟨x ++ schemeEnd ++ z, ['@'], .inr rfl, ?_⟩
      rw [List.append_assoc _ z, List.singleton_append, ← hz]
  · have hscheme' : p.address.scheme = [] → ¬ schemeEnd <:+: p.address.separator :: p.rest :=
      fun h hin => hscheme ⟨h, hin⟩
    have huser : ¬ (p.address = .scp → p.user = none → '@' ∉ authority p.rest) :=
      fun h => hf ⟨hscheme', h⟩
    push Not at huser
    obtain ⟨haddr, hnone, hat⟩ := huser
    obtain ⟨x, y, hrest, hx⟩ := List.eq_append_cons_of_mem ((List.takeWhile_prefix _).subset hat)
    have hnil : p.address.scheme = [] := by rw [haddr]; rfl
    have hwritten : p.written = p.host ++ ':' :: p.rest := by
      unfold Parts.written Parts.front Parts.credential Parts.body
      rw [hnil, hnone, haddr]
      rfl
    have hdrop : dropScheme p.written = p.written := by
      unfold dropScheme
      rw [hp.afterFirst_written hnil, List.afterFirst_eq_none (hscheme' hnil), Option.getD_none]
    have hat' : '@' ∈ authority p.written := by
      rw [hwritten, authority_append hp.host_slash, authority_cons (by decide)]
      exact List.mem_append_right _ (List.mem_cons_of_mem _ hat)
    -- the first `@` is the one in the rest
    have hfirst : '@' ∉ p.host ++ ':' :: x := by
      rw [List.mem_append, List.mem_cons, not_or, not_or]
      exact ⟨hp.host_at, by decide, hx⟩
    refine ⟨p.address.separator :: x, ['@'], .inr rfl, ?_⟩
    have hcut : dropUser (dropScheme p.written) = y := by
      have hsplit : p.written = (p.host ++ ':' :: x) ++ '@' :: y := by
        rw [hwritten, hrest, List.append_assoc]
        rfl
      unfold dropUser
      rw [hdrop, if_pos hat', hsplit, List.dropWhile_ne_append hfirst, List.tail_cons]
    rw [hcut, hrest]
    rfl

end Fronts

/-! ## What is left of a remote -/

/-- The colon of an scp address changes nothing behind it. -/
theorem slashColon_append {e : List Char} (he : ':' ∉ e) (a : List Char) :
    ∃ a', a'.length = a.length ∧ slashColon (a ++ e) = a' ++ e := by
  unfold slashColon
  by_cases h : ':' ∈ authority (a ++ e)
  · have hmem : ':' ∈ a := by
      obtain ha | hin := List.mem_append.1 ((List.takeWhile_prefix _).subset h)
      · exact ha
      · exact absurd hin he
    obtain ⟨x, y, rfl, hx⟩ := List.eq_append_cons_of_mem hmem
    rw [if_pos h]
    by_cases hport : isPort (((x ++ ':' :: y ++ e).dropWhile (· ≠ ':')).tail)
    · exact ⟨_, rfl, if_pos hport⟩
    · refine ⟨x ++ '/' :: y, by rw [List.length_append, List.length_append]; rfl, ?_⟩
      rw [if_neg hport, List.append_assoc, List.cons_append, List.dropWhile_ne_append hx,
        List.takeWhile_ne_append hx, List.append_assoc, List.tail_cons, List.cons_append]
  · exact ⟨a, rfl, if_neg h⟩

/-- The text is cut before what may be stripped from its end. -/
theorem append_of_cut {a e x cut w : List Char} (hcolon : ':' ∉ e) (hat : '@' ∉ e)
    (hhead : e.head? ≠ some '/') (hcut : IsCut cut) (h : a ++ e = x ++ (cut ++ w)) :
    ∃ b, w = b ++ e ∧ b.length < a.length := by
  rw [← List.append_assoc] at h
  have hpos : 0 < cut.length := by
    obtain rfl | rfl := hcut
    · decide
    · decide
  obtain ⟨b, hx, rfl⟩ | ⟨b, ha, rfl⟩ := List.append_eq_append_iff.1 h
  · cases b with
    | nil =>
      rw [List.append_nil] at hx
      refine ⟨[], rfl, ?_⟩
      have hlen := congrArg List.length hx
      rw [List.length_append] at hlen
      rw [List.length_nil]
      omega
    | cons c b =>
      -- the cut would end inside the ending
      exfalso
      have hc : c ≠ ':' ∧ c ≠ '@' ∧ c ≠ '/' :=
        ⟨fun h => hcolon (h ▸ List.mem_cons_self), fun h => hat (h ▸ List.mem_cons_self),
          fun h => hhead (h ▸ rfl)⟩
      obtain ⟨d, -, hd⟩ | ⟨d, -, hd⟩ := List.append_eq_append_iff.1 hx
      · have hmem : c ∈ cut := hd ▸ List.mem_append_right d List.mem_cons_self
        obtain rfl | rfl := hcut
        · simp only [schemeEnd, List.mem_cons, List.not_mem_nil, or_false] at hmem
          tauto
        · exact hc.2.1 (List.mem_singleton.1 hmem)
      · rw [hd] at hcolon hat
        obtain rfl | rfl := hcut
        · exact hcolon (by simp [schemeEnd])
        · exact hat (by simp)
  · refine ⟨b, rfl, ?_⟩
    rw [ha, List.length_append, List.length_append]
    omega

namespace Parts

variable {p : Parts}

theorem isEnding_ending (h : p.git → p.slashes = 0) : IsEnding p.ending := by
  unfold ending
  cases hgit : p.git with
  | true =>
    rw [h hgit, if_pos rfl]
    exact .inl rfl
  | false => exact .inr ⟨p.slashes, by rw [if_neg Bool.false_ne_true, List.nil_append]⟩

theorem ending_of_git (h : p.git) : p.ending = dotGit ++ List.replicate p.slashes '/' := by
  unfold ending
  rw [h, if_pos rfl]

theorem ending_of_not_git (h : ¬ p.git) : p.ending = List.replicate p.slashes '/' := by
  unfold ending
  rw [if_neg h, List.nil_append]

/-- What separates the parts of a remote is not in the ending. -/
theorem not_mem_ending {c : Char} (hgit : c ∉ dotGit) (hslash : c ≠ '/') : c ∉ p.ending := by
  unfold ending
  rw [List.mem_append, not_or, List.mem_replicate]
  refine ⟨?_, fun h => hslash h.2⟩
  split_ifs
  · exact hgit
  · exact List.not_mem_nil

/-- Where the front is not dropped as written, an ending that begins with `.git` is kept, and less
than the path before it. -/
theorem cut_of_git (hp : p.Delimited) (hgit : p.git) (hf : ¬ p.Fronted) :
    ∃ b, dropUser (dropScheme p.written) = b ++ p.ending ∧ b.length ≤ p.path.length := by
  obtain ⟨x, cut, hcut, hrest⟩ := hp.cut_front hf
  have hhead : p.ending.head? ≠ some '/' := by
    rw [ending_of_git hgit]
    change some '.' ≠ some '/'
    decide
  have hrest' : (p.address.separator :: p.path) ++ p.ending = _ := hrest
  obtain ⟨b, hb, hlen⟩ := append_of_cut (not_mem_ending (by decide) (by decide))
    (not_mem_ending (by decide) (by decide)) hhead hcut hrest'
  exact ⟨b, hb, Nat.lt_succ_iff.1 hlen⟩

/-- Otherwise some slashes may be left of it. -/
theorem cut_of_not_git (hp : p.Delimited) (hgit : ¬ p.git) (hf : ¬ p.Fronted) :
    ∃ b n, dropUser (dropScheme p.written) = b ++ List.replicate n '/' ∧
      b.length ≤ p.path.length := by
  obtain ⟨x, cut, hcut, hrest⟩ := hp.cut_front hf
  unfold rest at hrest
  rw [ending_of_not_git hgit, ← List.cons_append, ← List.append_assoc] at hrest
  obtain ⟨b, -, hb⟩ | ⟨b, hb, hw⟩ := List.append_eq_append_iff.1 hrest
  · obtain ⟨-, -, hw⟩ := List.append_eq_replicate_iff.1 hb.symm
    exact ⟨[], _, hw, Nat.zero_le _⟩
  · refine ⟨b, p.slashes, hw, ?_⟩
    have hpos : 0 < cut.length := by
      obtain rfl | rfl := hcut
      · decide
      · decide
    have hlen := congrArg List.length hb
    rw [List.length_cons, List.length_append, List.length_append] at hlen
    omega

/-- Where the front is not dropped as written, no more than the path is left. -/
theorem length_cut_le (hp : p.Delimited) (hgit : p.git → p.slashes = 0) (hf : ¬ p.Fronted) :
    (foldRemote p.written).length ≤ p.path.length := by
  have hsplit : ∃ b e, dropUser (dropScheme p.written) = b ++ e ∧ IsEnding e ∧
      b.length ≤ p.path.length := by
    by_cases h : p.git
    · obtain ⟨b, hb, hlen⟩ := cut_of_git hp h hf
      exact ⟨b, _, hb, isEnding_ending hgit, hlen⟩
    · obtain ⟨b, n, hb, hlen⟩ := cut_of_not_git hp h hf
      exact ⟨b, _, hb, .inr ⟨n, rfl⟩, hlen⟩
  obtain ⟨b, e, hw, he, hlen⟩ := hsplit
  obtain ⟨b', hlen', hslash⟩ := slashColon_append he.colon b
  unfold foldRemote
  rw [hw, hslash]
  exact (he.length_le b').trans (hlen'.le.trans hlen)

/-- No more is left of a remote than its host and its path. -/
theorem length_fold_le (hp : p.Delimited) (hgit : p.git → p.slashes = 0) :
    (foldRemote p.written).length ≤ p.key.length := by
  by_cases hf : p.Fronted
  · have he := isEnding_ending hgit
    obtain ⟨b, hlen, hslash⟩ := slashColon_append he.colon (p.host ++ p.address.separator :: p.path)
    have hbody : p.body = p.host ++ p.address.separator :: p.path ++ p.ending := by
      unfold body rest
      rw [List.append_assoc, List.cons_append]
    unfold foldRemote
    rw [hp.drop_front hf, hbody, hslash]
    refine (he.length_le b).trans (hlen.le.trans ?_)
    unfold key
    rw [List.length_append, List.length_append, List.length_cons, List.length_cons]
  · refine (length_cut_le hp hgit hf).trans ?_
    unfold key
    rw [List.length_append, List.length_cons]
    omega

/-- A slash behind the `.git` keeps it. -/
theorem fold_of_git_slash (hp : p.Delimited) (hgit : p.git) (hslash : p.slashes ≠ 0) :
    dotGit <:+ foldRemote p.written := by
  obtain ⟨n, hn⟩ := Nat.exists_eq_succ_of_ne_zero hslash
  have hsplit : ∃ b, dropUser (dropScheme p.written) = b ++ p.ending := by
    by_cases hf : p.Fronted
    · refine ⟨p.host ++ p.address.separator :: p.path, ?_⟩
      rw [hp.drop_front hf]
      unfold body rest
      rw [List.append_assoc, List.cons_append]
    · obtain ⟨b, hb, -⟩ := cut_of_git hp hgit hf
      exact ⟨b, hb⟩
  obtain ⟨b, hw⟩ := hsplit
  obtain ⟨b', -, hcolon⟩ := slashColon_append (not_mem_ending (by decide) (by decide)) b
  unfold foldRemote
  rw [hw, hcolon, ending_of_git hgit, hn, ← List.append_assoc, dropGit_slashes, trimSlashes_append]
  unfold trimSlashes List.trimEnds
  rw [List.dropWhile_append_of_head (by rintro c ⟨⟩; rfl), List.rdropWhile_eq_self_of_last]
  · exact List.suffix_append _ dotGit
  · rw [dotGit, List.getLast?_append_of_ne_nil _ (List.cons_ne_nil _ _)]
    rintro c ⟨⟩
    rfl

/-- What is left of a host and a path, with the separator that is between them. -/
theorem strip_body {c : Char} (hc : c ∉ dotGit) (hp : p.Delimited) (hpath : IsPath p.path)
    (hhost : p.host ≠ []) (hgit : p.git → p.slashes = 0) :
    trimSlashes (dropGit (p.host ++ c :: p.path ++ p.ending)) = p.host ++ c :: p.path := by
  have htrimmed : (p.host ++ c :: p.path).Trimmed (· == '/') := by
    refine ⟨fun d hd => beq_eq_false_iff_ne.2 ?_, fun d hd => beq_eq_false_iff_ne.2 ?_⟩
    · rw [List.head?_append_of_ne_nil _ hhost] at hd
      exact (hp.host d (List.mem_of_mem_head? hd)).1
    · rw [List.getLast?_append_of_ne_nil _ (List.cons_ne_nil _ _),
        List.getLast?_cons_of_ne_nil hpath.nonempty] at hd
      rintro rfl
      exact hpath.last hd
  by_cases h : p.git
  · rw [ending_of_git h, hgit h, List.replicate_zero, List.append_nil, dropGit_append]
    exact htrimmed.trimEnds_eq
  · rw [ending_of_not_git h]
    cases p.slashes with
    | zero =>
      rw [List.replicate_zero, List.append_nil, dropGit_of_not_suffix]
      · exact htrimmed.trimEnds_eq
      · exact fun hsuffix => hpath.git (dotGit_suffix_append hc hsuffix)
    | succ n =>
      rw [dropGit_slashes, trimSlashes_append]
      exact htrimmed.trimEnds_eq

/-- A colon stands behind the host in the scp form alone. -/
theorem separator_eq_colon_iff : p.address.separator = ':' ↔ p.address = .scp := by
  cases p.address with
  | scp => exact ⟨fun _ => rfl, fun _ => rfl⟩
  | url scheme => exact ⟨fun h => absurd (show '/' = ':' from h) (by decide), nofun⟩
  | bare => exact ⟨fun h => absurd (show '/' = ':' from h) (by decide), nofun⟩

theorem separator_ne_colon (h : p.address.separator ≠ ':') : p.address.separator = '/' := by
  cases haddr : p.address with
  | scp => exact absurd (separator_eq_colon_iff.2 haddr) h
  | url scheme => rfl
  | bare => rfl

/-- What the separator becomes. -/
theorem slashColon_body (hp : p.Delimited) : slashColon p.body = p.host ++
    (if p.address.separator = ':' ∧ isPort p.rest then ':' else '/') :: p.rest := by
  unfold slashColon body
  rw [authority_append hp.host_slash]
  by_cases hsep : p.address.separator = ':'
  · have hmem : ':' ∈ p.host ++ authority (':' :: p.rest) := by
      rw [authority_cons (by decide)]
      exact List.mem_append_right _ List.mem_cons_self
    rw [hsep, if_pos hmem, List.dropWhile_ne_append hp.host_colon,
      List.takeWhile_ne_append hp.host_colon, List.tail_cons]
    dsimp only
    by_cases hport : isPort p.rest
    · rw [if_pos hport, if_pos ⟨rfl, hport⟩]
    · rw [if_neg hport, if_neg fun h => hport h.2]
  · have hslash : p.address.separator = '/' := separator_ne_colon hsep
    rw [hslash, authority_slash, List.append_nil, if_neg hp.host_colon,
      if_neg fun h => absurd h.1 (by decide)]

/-- Whitespace around a remote is trimmed with what belongs to its ends. -/
def trimmed (p : Parts) : Parts where
  address :=
    match p.address with
    | .url scheme => .url (scheme.dropWhile isWhitespace)
    | address => address
  user :=
    match p.address with
    | .url _ => p.user
    | _ => p.user.map (·.dropWhile isWhitespace)
  host := if p.front = [] then p.host.dropWhile isWhitespace else p.host
  path := if p.ending = [] then p.path.rdropWhile isWhitespace else p.path
  git := p.git
  slashes := p.slashes

theorem separator_trimmed (p : Parts) : p.trimmed.address.separator = p.address.separator := by
  unfold trimmed
  cases p.address <;> rfl

theorem ending_trimmed (p : Parts) : p.trimmed.ending = p.ending := rfl

/-- Trimming at the start reaches the front and the host. -/
theorem front_trimmed (p : Parts) :
    (p.front ++ p.host).dropWhile isWhitespace = p.trimmed.front ++ p.trimmed.host := by
  -- without a scheme the blanks are those before the user, or before the host
  have hbare (huser : p.trimmed.user = p.user.map (·.dropWhile isWhitespace))
      (h : p.address.scheme = []) (h' : p.trimmed.address.scheme = []) :
      (p.front ++ p.host).dropWhile isWhitespace = p.trimmed.front ++ p.trimmed.host := by
    cases hu : p.user with
    | none =>
      have hfront : p.front = [] := by
        unfold front credential
        rw [h, hu]
        rfl
      have hfront' : p.trimmed.front = [] := by
        unfold front credential
        rw [h', huser, hu]
        rfl
      rw [hfront, hfront']
      exact (if_pos hfront).symm
    | some user =>
      have hfront : p.front = user ++ ['@'] := by
        unfold front credential
        rw [h, hu]
        rfl
      have hfront' : p.trimmed.front = user.dropWhile isWhitespace ++ ['@'] := by
        unfold front credential
        rw [h', huser, hu]
        rfl
      have hhost : p.trimmed.host = p.host := if_neg (by rw [hfront]; simp)
      rw [hfront, hfront', hhost, List.append_assoc, List.append_assoc,
        List.dropWhile_append_of_head]
      rintro c ⟨⟩
      decide
  cases haddr : p.address with
  | url scheme =>
    have hfront : p.front = scheme ++ (schemeEnd ++ p.credential) := by
      unfold front
      rw [haddr, Address.scheme, List.append_assoc]
    have hfront' : p.trimmed.front =
        scheme.dropWhile isWhitespace ++ (schemeEnd ++ p.credential) := by
      unfold front credential trimmed
      rw [haddr, ← List.append_assoc]
      rfl
    have hhost : p.trimmed.host = p.host := if_neg (by rw [hfront, schemeEnd]; simp)
    rw [hfront, hfront', hhost, List.append_assoc, List.append_assoc,
      List.dropWhile_append_of_head]
    · simp only [List.append_assoc]
    · rintro c ⟨⟩
      decide
  | scp =>
    refine hbare ?_ (by rw [haddr]; rfl) ?_
    · unfold trimmed
      rw [haddr]
    · unfold trimmed
      rw [haddr]
      rfl
  | bare =>
    refine hbare ?_ (by rw [haddr]; rfl) ?_
    · unfold trimmed
      rw [haddr]
    · unfold trimmed
      rw [haddr]
      rfl

theorem rest_trimmed (p : Parts) : p.rest.rdropWhile isWhitespace = p.trimmed.rest := by
  unfold rest
  rw [ending_trimmed]
  by_cases h : p.ending = []
  · rw [h, List.append_nil, List.append_nil]
    exact (if_pos h).symm
  · have hpath : p.trimmed.path = p.path := if_neg h
    rw [hpath]
    refine List.rdropWhile_eq_self_of_last fun c hc => ?_
    rw [List.getLast?_append_of_ne_nil _ h] at hc
    have hmem : c ∈ dotGit ∨ c = '/' := by
      have := List.mem_of_getLast? hc
      unfold ending at this
      obtain hin | hin := List.mem_append.1 this
      · left
        split_ifs at hin
        · exact hin
        · cases hin
      · exact .inr (List.eq_of_mem_replicate hin)
    obtain hin | rfl := hmem
    · have hall : dotGit.all fun d => !isWhitespace d := by decide
      exact eq_false_of_ne_true fun h => by
        have := List.all_eq_true.1 hall c hin
        rw [h] at this
        cases this
    · decide

/-- A trimmed spelling is that of trimmed parts. -/
theorem written_trimmed (p : Parts) : p.written.trimEnds isWhitespace = p.trimmed.written := by
  have hsep : isWhitespace p.address.separator = false := by
    by_cases h : p.address.separator = ':'
    · rw [h]
      decide
    · rw [separator_ne_colon h]
      decide
  unfold written body List.trimEnds
  rw [← List.append_assoc, List.dropWhile_append_of_head (by rintro c ⟨⟩; exact hsep),
    front_trimmed, ← List.append_assoc, separator_trimmed, ← List.singleton_append,
    ← List.append_assoc, List.rdropWhile_append_of_last, rest_trimmed, List.append_assoc]
  · rfl
  · rintro c hc
    rw [List.getLast?_concat] at hc
    cases hc
    exact hsep

theorem delimited_trimmed (hp : p.Delimited) : p.trimmed.Delimited := by
  have hdrop {c : Char} {l : List Char} (h : c ∉ l) : c ∉ l.dropWhile isWhitespace :=
    fun hmem => h ((List.dropWhile_suffix isWhitespace).subset hmem)
  refine ⟨fun scheme hscheme => ?_, fun user huser => ?_, fun c hc => hp.host c ?_⟩
  · unfold trimmed at hscheme
    cases haddr : p.address with
    | url scheme' =>
      rw [haddr] at hscheme
      cases hscheme
      exact hdrop (hp.scheme scheme' haddr)
    | scp =>
      rw [haddr] at hscheme
      cases hscheme
    | bare =>
      rw [haddr] at hscheme
      cases hscheme
  · have huser' : user ∈ p.user ∨ ∃ u ∈ p.user, u.dropWhile isWhitespace = user := by
      unfold trimmed at huser
      cases haddr : p.address with
      | url scheme =>
        rw [haddr] at huser
        exact .inl huser
      | scp =>
        rw [haddr] at huser
        exact .inr (Option.mem_map.1 huser)
      | bare =>
        rw [haddr] at huser
        exact .inr (Option.mem_map.1 huser)
    obtain h | ⟨u, hu, rfl⟩ := huser'
    · exact hp.user user h
    · exact ⟨hdrop (hp.user u hu).1, hdrop (hp.user u hu).2⟩
  · unfold trimmed at hc
    dsimp only at hc
    split_ifs at hc
    · exact (List.dropWhile_suffix isWhitespace).subset hc
    · exact hc

/-- The host and the path have no whitespace that is trimmed. -/
def Unpadded (p : Parts) : Prop := p.trimmed.host = p.host ∧ p.trimmed.path = p.path

/-- Parts are unpadded where no blank is at either end. -/
theorem unpadded_iff : p.Unpadded ↔
    (p.front = [] → ∀ c ∈ p.host.head?, isWhitespace c = false) ∧
      (p.ending = [] → ∀ c ∈ p.path.getLast?, isWhitespace c = false) := by
  unfold Unpadded trimmed
  rw [← List.dropWhile_eq_self_iff_head, ← List.rdropWhile_eq_self_iff_last]
  exact and_congr ite_eq_right_iff ite_eq_right_iff

/-- Less than the key is left of a host or a path that is trimmed. -/
theorem length_key_trimmed (h : ¬ p.Unpadded) : p.trimmed.key.length < p.key.length := by
  have hhost : p.trimmed.host <:+ p.host := by
    unfold trimmed
    dsimp only
    split_ifs
    · exact List.dropWhile_suffix isWhitespace
    · exact List.suffix_refl p.host
  have hpath : p.trimmed.path <+: p.path := by
    unfold trimmed
    dsimp only
    split_ifs
    · exact List.rdropWhile_prefix isWhitespace p.path
    · exact List.prefix_refl p.path
  unfold key
  rw [List.length_append, List.length_append, List.length_cons, List.length_cons]
  have hhost' := hhost.length_le
  have hpath' := hpath.length_le
  by_contra hlt
  refine h ⟨hhost.eq_of_length ?_, hpath.eq_of_length ?_⟩
  · omega
  · omega

/-- Trimming leaves the rest of unpadded parts. -/
theorem Unpadded.rest_trimmed (h : p.Unpadded) : p.trimmed.rest = p.rest := by
  unfold rest
  rw [h.2, ending_trimmed]

/-- A remote of which no host or path is trimmed looks the same to the front rewrites. -/
theorem Unpadded.fronted_iff (h : p.Unpadded) : p.trimmed.Fronted ↔ p.Fronted := by
  have hscheme : p.trimmed.address.scheme = [] ↔ p.address.scheme = [] := by
    unfold trimmed
    cases haddr : p.address with
    | url scheme =>
      simp [Address.scheme, schemeEnd]
    | scp => exact Iff.rfl
    | bare => exact Iff.rfl
  have hscp : p.trimmed.address = .scp ↔ p.address = .scp := by
    rw [← separator_eq_colon_iff, ← separator_eq_colon_iff, separator_trimmed]
  have huser (haddr : p.address = .scp) : p.trimmed.user = none ↔ p.user = none := by
    unfold trimmed
    rw [haddr]
    exact Option.map_eq_none_iff
  constructor
  · rintro ⟨hs, hu⟩
    rw [separator_trimmed, h.rest_trimmed, hscheme] at hs
    rw [h.rest_trimmed] at hu
    exact ⟨hs, fun haddr hnone => hu (hscp.2 haddr) ((huser haddr).2 hnone)⟩
  · rintro ⟨hs, hu⟩
    refine ⟨?_, ?_⟩
    · rw [separator_trimmed, h.rest_trimmed, hscheme]
      exact hs
    · rw [h.rest_trimmed]
      exact fun haddr hnone => hu (hscp.1 haddr) ((huser (hscp.1 haddr)).1 hnone)

/-- The trimmed remote is folded to the key of the repository exactly when it is read. -/
theorem fold_eq_key_iff (hp : p.Delimited) (hpath : IsPath p.path) :
    foldRemote p.trimmed.written = p.key ↔ p.Read := by
  have hp' := delimited_trimmed hp
  -- when nothing is misread the fold is host, separator and path
  have hfold (hhost : p.host ≠ []) (hgit : p.git → p.slashes = 0) (hpad : p.Unpadded)
      (hf : p.Fronted) : foldRemote p.trimmed.written = p.host ++
        (if p.address.separator = ':' ∧ isPort p.rest then ':' else '/') :: p.path := by
    have hc : (if p.address.separator = ':' ∧ isPort p.rest then ':' else '/') ∉ dotGit := by
      split_ifs <;> decide
    have hstrip := strip_body hc hp hpath hhost hgit
    rw [List.append_assoc, List.cons_append] at hstrip
    unfold foldRemote
    rw [hp'.drop_front (hpad.fronted_iff.2 hf), slashColon_body hp', hpad.1, separator_trimmed,
      hpad.rest_trimmed]
    exact hstrip
  constructor
  · intro h
    -- `.git` before slashes is left at the end of the fold, and a path has none
    have hgit : p.git → p.slashes = 0 := by
      intro hg
      by_contra hs
      have hsuffix := fold_of_git_slash hp' hg hs
      rw [h] at hsuffix
      exact hpath.git (dotGit_suffix_append (by decide) hsuffix)
    have hhost : p.host ≠ [] := by
      intro hnil
      have htrimmed := List.trimmed_trimEnds (· == '/')
        (dropGit (slashColon (dropUser (dropScheme p.trimmed.written))))
      change (foldRemote p.trimmed.written).Trimmed _ at htrimmed
      unfold key at h
      rw [h, hnil] at htrimmed
      exact absurd (htrimmed.head '/' rfl) (by decide)
    -- a part read wrongly leaves the fold shorter than the key
    have hpad : p.Unpadded := by
      by_contra hpad
      have hle := length_fold_le hp' hgit
      rw [h] at hle
      exact absurd (length_key_trimmed hpad) hle.not_gt
    have hf : p.Fronted := by
      by_contra hf
      have hle := length_cut_le hp' hgit (mt hpad.fronted_iff.1 hf)
      rw [h, hpad.2] at hle
      unfold key at hle
      rw [List.length_append, List.length_cons] at hle
      omega
    have hkey := hfold hhost hgit hpad hf
    rw [h] at hkey
    obtain ⟨hhead, hlast⟩ := unpadded_iff.1 hpad
    refine ⟨hhost, hgit, hlast, hhead, hf.scheme, hf.user, fun haddr hport => ?_⟩
    rw [if_pos ⟨separator_eq_colon_iff.2 haddr, hport⟩] at hkey
    have hcons := List.append_cancel_left hkey
    exact absurd (List.cons.inj hcons).1 (by decide)
  · intro h
    rw [hfold h.host h.git (unpadded_iff.2 ⟨h.host_blank, h.path_blank⟩) ⟨h.scheme, h.user⟩,
      if_neg fun hport => h.port (separator_eq_colon_iff.1 hport.1) hport.2]
    rfl

end Parts

/-- A spelling of a repository is folded to its key exactly when it is read. -/
theorem Spelling.normalize_eq_key_iff (s : Spelling) :
    normalizeGitRemote s.text = String.ofList s.key ↔ s.Read := by
  have htext : asciiLowercase (trim s.text).toList = s.toParts.trimmed.written := by
    rw [asciiLowercase_trim, s.spelled, ← Parts.written_trimmed]
    exact List.trimEnds_padded (fun c hc => s.blank c (List.mem_append_left _ hc))
      fun c hc => s.blank c (List.mem_append_right _ hc)
  unfold normalizeGitRemote
  rw [htext, String.ofList_inj]
  exact Parts.fold_eq_key_iff s.delimited s.isPath

end Sconce
