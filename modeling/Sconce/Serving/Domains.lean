/-
# Custom domains

A domain is normalised when it is set, and the Host of a request when it is looked up: in part by
`domain_part`, in part by `repo_by_custom_domain`.  The two have to come to the same text for every
spelling of the domain.

What is accepted is a normal form (`IsHostname`), which normalises to itself; every spelling of it
is read as it by `domain_part`, and it is the column of one repository (`routesSpellings`).
-/
import Sconce.Lib.Utf8
import Sconce.Mirror.Specs
import Sconce.Serving.Routes

namespace Sconce

open Effect

/-! ## Setting a domain -/

/-- `CustomDomainError`. -/
inductive CustomDomainError where
  | db (e : SqlError)
  | taken
  | invalid
  deriving DecidableEq

/-- `label_ok`. -/
def labelOk (l : List Char) : Bool :=
  !l.isEmpty && String.utf8Len l ≤ 63 && l.all (fun c => c.isAlphanum || c == '-') &&
    l.head? ≠ some '-' && l.getLast? ≠ some '-'

/-- What `normalize_custom_domain` tests: the length, the labels, and a letter in the last one. -/
def hostOk (host : String) : Bool :=
  let labels := host.toList.splitOn '.'
  host.utf8ByteSize ≤ 253 && 2 ≤ labels.length && labels.all labelOk &&
    labels.getLast?.any fun l => l.any Char.isAlpha

/-- `normalize_custom_domain`. -/
def normalizeCustomDomain (raw : String) : Option String :=
  let host := (trimEndMatches '.' (trim raw)).toLower
  if hostOk host then some host else none

/-- The column a domain is written as; `none` stops it. -/
def domainColumn : Option String → Except CustomDomainError (Option String)
  | none => .ok none
  | some raw =>
    match normalizeCustomDomain raw with
    | some domain => .ok (some domain)
    | none => .error .invalid

def Catalog.setDomainColumn (db : Catalog) (repo : Uuid) (domain : Option String) : Catalog :=
  { db with repositories := db.repositories.update fun k r =>
      if k = repo then { r with customDomain := domain } else r }

/-- `update repositories set custom_domain = $2 where id = $1`. -/
def updateDomain (repo : Uuid) (domain : Option String) : Effect Catalog CustomDomainError Unit := do
  let db ← get
  if (db.repositories.get? repo).isNone then
    throw (.db .rowNotFound)
  else if domain.isSome && db.repositories.rows.any fun r =>
      r.1 ≠ repo && r.2.customDomain = domain then
    throw .taken
  else
    modify fun db => db.setDomainColumn repo domain

/-- `Catalog::set_custom_domain`. -/
def setCustomDomain (repo : Uuid) (domain : Option String) :
    Effect Catalog CustomDomainError (Option String) := do
  let domain ← ofExcept (domainColumn domain)
  updateDomain repo domain
  return domain

/-! ## Routing by host -/

/-- `DomainRepo`. -/
structure DomainRepo where
  loc : RepoLocation
  base : String
  deriving DecidableEq

/-- `HostRouting`, beside its routers. -/
structure HostRouting where
  mainHost : Option String
  scheme : String

/-- `by_host`: the repository a request's authority names, `none` for the main site. -/
def HostRouting.byHost (h : HostRouting) (db : Catalog) (authority : Option String) :
    Option DomainRepo := do
  let authority ← authority
  let host ← domainPart authority
  if h.mainHost = some host then none
  else
    let loc ← db.repoByCustomDomain host
    return ⟨loc, h.scheme ++ "://" ++ authority⟩

/-! ## What has to hold -/

/-- What the unique index on `custom_domain` and the foreign key of `org_id` keep. -/
structure Catalog.DomainsKeyed (db : Catalog) : Prop where
  unique : ∀ k r k' r' d, db.repositories.get? k = some r → db.repositories.get? k' = some r' →
    r.customDomain = some d → r'.customDomain = some d → k = k'
  owned : ∀ k r, db.repositories.get? k = some r → (db.organizations.get? r.orgId).isSome

/-- An authority that spells the domain: in any letter case, with dots behind it, with a port or
without. -/
def Spells (domain authority : String) : Prop :=
  ∃ name dots port : String, authority = name ++ dots ++ port ∧ name.toLower = domain ∧
    (∀ c ∈ dots.toList, c = '.') ∧
    (port = "" ∨ ∃ digits : String, port = ":" ++ digits ∧ ∀ c ∈ digits.toList, c.isDigit)

/-- Requests to set domains, in order, whatever each is answered. -/
def setDomains (requests : List (Uuid × Option String)) (db : Catalog) : Catalog :=
  requests.foldl (fun db q => (exec (setCustomDomain q.1 q.2) db).2) db

/-! ## Hostnames -/

theorem toLower_eq_dot_iff (c : Char) : c.toLower = '.' ↔ c = '.' :=
  Char.toLower_eq_iff (by decide) c

theorem toNat_lt_of_isAlphanum {c : Char} (h : c.isAlphanum = true) : c.toNat < 128 := by
  simp only [Char.isAlphanum, Char.isAlpha, Char.isUpper, Char.isLower, Char.isDigit,
    Bool.or_eq_true, Bool.and_eq_true, decide_eq_true_eq] at h
  have hle : c.val ≤ 'z'.val := by
    rcases h with (h | h) | h
    · exact UInt32.le_trans h.2 (by decide)
    · exact h.2
    · exact UInt32.le_trans h.2 (by decide)
  exact lt_of_le_of_lt (UInt32.le_iff_toNat_le.1 hle) (by decide)

/-- What a label is made of is no white space. -/
theorem not_isWhitespace_of_isAlphanum {c : Char} (h : c.isAlphanum = true) :
    isWhitespace c = false := by
  have hall : c.isAlphanum = true → isWhitespace c = false :=
    Char.of_ascii (P := fun c => c.isAlphanum = true → isWhitespace c = false) (by decide)
      (toNat_lt_of_isAlphanum h)
  exact hall h

/-- A name in the form a domain is stored in. -/
structure IsHostname (host : String) : Prop where
  lower : host.toLower = host
  undotted : ∀ c ∈ host.toList.getLast?, (c == '.') = false
  ok : hostOk host = true

theorem getLast?_trimEndMatches (s : String) :
    ∀ c ∈ (trimEndMatches '.' s).toList.getLast?, (c == '.') = false := by
  rw [toList_trimEndMatches, ← List.rdropWhile_eq_self_iff_last]
  exact List.rdropWhile_idempotent _ _

/-- A text is put in lower case letter by letter. -/
theorem toList_toLower (s : String) : s.toLower.toList = s.toList.map Char.toLower :=
  String.toList_map

/-- **What is accepted is a hostname in that form.** -/
theorem isHostname_of_normalize {raw host : String} (h : normalizeCustomDomain raw = some host) :
    IsHostname host := by
  unfold normalizeCustomDomain at h
  simp only at h
  split_ifs at h with hok
  cases h
  refine ⟨String.toLower_toLower _, fun c hc => ?_, hok⟩
  rw [toList_toLower, List.getLast?_map] at hc
  obtain ⟨c', hc', rfl⟩ := Option.map_eq_some_iff.1 hc
  have hdot := getLast?_trimEndMatches (trim raw) c' hc'
  rw [beq_eq_false_iff_ne] at hdot ⊢
  rwa [Ne, toLower_eq_dot_iff]

namespace IsHostname

variable {host : String} (h : IsHostname host)
include h

/-- Its characters are letters, digits, hyphens and dots. -/
theorem chars {c : Char} (hc : c ∈ host.toList) : c = '.' ∨ c = '-' ∨ c.isAlphanum = true := by
  have hlabels : ∀ l ∈ host.toList.splitOn '.', labelOk l = true := by
    have hok := h.ok
    simp only [hostOk, Bool.and_eq_true, List.all_eq_true] at hok
    exact hok.1.2
  have hjoined : ∀ ls : List (List Char), (∀ l ∈ ls, labelOk l = true) →
      ∀ c ∈ ['.'].intercalate ls, c = '.' ∨ c = '-' ∨ c.isAlphanum = true := by
    intro ls
    induction ls with
    | nil => intro _ c hc; cases hc
    | cons l ls ih =>
      intro hls c hc
      have hl : ∀ c ∈ l, c = '-' ∨ c.isAlphanum = true := by
        have hok := hls l List.mem_cons_self
        simp only [labelOk, Bool.and_eq_true, List.all_eq_true, Bool.or_eq_true, beq_iff_eq] at hok
        exact fun c hc => (hok.1.1.2 c hc).symm
      cases ls with
      | nil =>
        rw [List.intercalate_singleton] at hc
        exact .inr (hl c hc)
      | cons l' ls =>
        rw [List.intercalate_cons_cons, List.mem_append, List.mem_append] at hc
        rcases hc with (hc | hc) | hc
        · exact .inr (hl c hc)
        · exact .inl (List.mem_singleton.1 hc)
        · exact ih (fun l hmem => hls l (List.mem_cons_of_mem _ hmem)) c hc
  refine hjoined _ hlabels c ?_
  rwa [List.intercalate_splitOn]

theorem not_isWhitespace {c : Char} (hc : c ∈ host.toList) : isWhitespace c = false := by
  rcases h.chars hc with rfl | rfl | halnum
  · decide
  · decide
  · exact not_isWhitespace_of_isAlphanum halnum

theorem trim : Sconce.trim host = host :=
  trim_eq_self ⟨fun _ hc => h.not_isWhitespace (List.mem_of_head? hc),
    fun _ hc => h.not_isWhitespace (List.mem_of_getLast? hc)⟩

theorem trimEndMatches : Sconce.trimEndMatches '.' host = host := by
  rw [← String.toList_inj, toList_trimEndMatches]
  exact List.rdropWhile_eq_self_of_last h.undotted

/-- It normalises to itself. -/
theorem normalize : normalizeCustomDomain host = some host := by
  unfold normalizeCustomDomain
  rw [h.trim, h.trimEndMatches, h.lower]
  exact if_pos h.ok

theorem ne_nil : host.toList ≠ [] := by
  intro hnil
  have hok := h.ok
  rw [hostOk, hnil] at hok
  simp at hok

end IsHostname

/-- A normalized domain is normalized already. -/
theorem normalizeCustomDomain_idem (raw : String) :
    (normalizeCustomDomain raw).bind normalizeCustomDomain = normalizeCustomDomain raw := by
  cases h : normalizeCustomDomain raw with
  | none => rfl
  | some host => exact (isHostname_of_normalize h).normalize

/-! ## Spellings -/

/-- A text without the separator is not split. -/
theorem rsplitOnce_of_not_mem {c : Char} {text : String} (h : c ∉ text.toList) :
    rsplitOnce c text = none := by
  have hall : ∀ x ∈ text.toList.reverse, decide (x ≠ c) = true := by
    intro x hx
    rw [List.mem_reverse] at hx
    exact decide_eq_true fun hxc => h (hxc ▸ hx)
  unfold rsplitOnce
  rw [List.span_eq_takeWhile_dropWhile, List.dropWhile_eq_nil_iff.2 hall]

/-- A character of a spelling, where no letter has it as its lower case. -/
theorem notMem_spelling {name domain : String} (hdomain : IsHostname domain)
    (hname : name.toLower = domain) {d : Char}
    (hlower : ∀ n < 128, (Char.ofNat n).toLower = d ↔ Char.ofNat n = d)
    (hd : d ≠ '.' ∧ d ≠ '-' ∧ d.isAlphanum = false) : d ∉ name.toList := by
  intro hmem
  have hmem' : d ∈ domain.toList := by
    rw [← hname, toList_toLower]
    exact List.mem_map.2 ⟨d, hmem, (Char.toLower_eq_iff hlower d).2 rfl⟩
  rcases hdomain.chars hmem' with h | h | h
  · exact hd.1 h
  · exact hd.2.1 h
  · rw [hd.2.2] at h
    cases h

/-- **Every spelling is read as the domain.** -/
theorem domainPart_of_spells {domain authority : String} (hdomain : IsHostname domain)
    (h : Spells domain authority) : domainPart authority = some domain := by
  obtain ⟨name, dots, port, rfl, hname, hdots, hport⟩ := h
  have hcolon : ':' ∉ (name ++ dots).toList := by
    rw [String.toList_append, List.mem_append]
    rintro (hmem | hmem)
    · exact notMem_spelling hdomain hname (by decide) (by decide) hmem
    · exact absurd (hdots _ hmem) (by decide)
  -- the port is cut off at the last colon
  have hhost : ((rsplitOnce ':' (name ++ dots ++ port)).map (·.1)).getD (name ++ dots ++ port)
      = name ++ dots := by
    rcases hport with rfl | ⟨digits, rfl, hdigits⟩
    · rw [String.append_empty, rsplitOnce_of_not_mem hcolon]
      rfl
    · have hnot : ':' ∉ digits.toList := fun hmem => absurd (hdigits _ hmem) (by decide)
      have hcut : name ++ dots ++ (":" ++ digits) = name ++ dots ++ String.singleton ':' ++ digits := by
        rw [@String.append_assoc (name ++ dots)]
        rfl
      rw [hcut, rsplitOnce_append _ hnot]
      rfl
  -- the spelling is no bracketed address
  have hbracket : ¬ "[".toList <+: (name ++ dots ++ port).toList := by
    intro hstart
    have hne : name.toList ≠ [] := by
      intro hnil
      refine hdomain.ne_nil ?_
      rw [← hname, toList_toLower, hnil, List.map_nil]
    obtain ⟨c, rest, hlist⟩ := List.exists_cons_of_ne_nil hne
    rw [String.toList_append, String.toList_append, hlist] at hstart
    have hc : '[' = c := (List.cons_prefix_cons.1 hstart).1
    refine notMem_spelling hdomain hname (d := '[') (by decide) (by decide) ?_
    rw [hlist, hc]
    exact List.mem_cons_self
  -- the dots of the root are trimmed, and the name ends in none
  have hundotted : trimEndMatches '.' (name ++ dots) = name := by
    rw [← String.toList_inj, toList_trimEndMatches, String.toList_append,
      List.rdropWhile_append_of_all fun c hc => by rw [hdots c hc]; rfl]
    refine List.rdropWhile_eq_self_of_last fun c hc => ?_
    have hlast : c.toLower ∈ domain.toList.getLast? := by
      rw [← hname, toList_toLower, List.getLast?_map]
      exact Option.map_eq_some_iff.2 ⟨c, hc, rfl⟩
    have hdot := hdomain.undotted _ hlast
    rw [beq_eq_false_iff_ne] at hdot ⊢
    rwa [Ne, toLower_eq_dot_iff] at hdot
  unfold domainPart
  rw [if_neg hbracket]
  show some (trimEndMatches '.' (((rsplitOnce ':' _).map (·.1)).getD _)).toLower = _
  rw [hhost, hundotted, hname]

/-! ## The look-up -/

/-- A domain that is the column of a repository leads to it. -/
theorem repoByCustomDomain_eq {db : Catalog} (hkeyed : db.DomainsKeyed) {repo : Uuid}
    {r : Repository} {o : Organization} {domain : String} (hdomain : IsHostname domain)
    (hr : db.repositories.get? repo = some r) (hcol : r.customDomain = some domain)
    (ho : db.organizations.get? r.orgId = some o) :
    db.repoByCustomDomain domain = some ⟨repo, o.slug, r.slug, false⟩ := by
  have hfind : (db.repositories.rows.find? fun r => r.2.customDomain == some domain &&
      (db.organizations.get? r.2.orgId).isSome) = some (repo, r) := by
    cases hfind : db.repositories.rows.find? fun r => r.2.customDomain == some domain &&
        (db.organizations.get? r.2.orgId).isSome with
    | none =>
      have hno := List.find?_eq_none.1 hfind (repo, r) ((Table.mem_rows_iff _ _ _).2 hr)
      rw [hcol, ho] at hno
      simp at hno
    | some found =>
      obtain ⟨k, r'⟩ := found
      have hr' := (Table.mem_rows_iff _ _ _).1 (List.mem_of_find?_eq_some hfind)
      have hcol' := List.find?_some hfind
      rw [Bool.and_eq_true, beq_iff_eq] at hcol'
      obtain rfl := hkeyed.unique k r' repo r domain hr' hr hcol'.1 hcol
      rw [hr] at hr'
      cases hr'
      rfl
  unfold Catalog.repoByCustomDomain
  rw [hdomain.trimEndMatches, hdomain.lower]
  show (db.repositories.rows.find? _).bind _ = _
  rw [hfind, Option.bind_some]
  show (db.organizations.get? r.orgId).bind _ = _
  rw [ho]
  rfl

/-! ## Requests to set domains -/

theorem get?_setDomainColumn_self {db : Catalog} {repo : Uuid} {r : Repository}
    (hr : db.repositories.get? repo = some r) (domain : Option String) :
    (db.setDomainColumn repo domain).repositories.get? repo
      = some { r with customDomain := domain } := by
  show (db.repositories.update _).get? repo = _
  rw [Table.get?_update, hr, Option.map_some, if_pos rfl]

theorem get?_setDomainColumn_of_ne (db : Catalog) {repo k : Uuid} (hk : k ≠ repo)
    (domain : Option String) :
    (db.setDomainColumn repo domain).repositories.get? k = db.repositories.get? k := by
  show (db.repositories.update _).get? k = _
  rw [Table.get?_update]
  simp only [if_neg hk]
  exact Option.map_id'

/-- A column that no other repository has keeps the index. -/
theorem Catalog.DomainsKeyed.setDomainColumn {db : Catalog} (h : db.DomainsKeyed) {repo : Uuid}
    {r : Repository} (hr : db.repositories.get? repo = some r) {domain : Option String}
    (hfree : ∀ k r', db.repositories.get? k = some r' → k ≠ repo → r'.customDomain = domain →
      domain = none) :
    (db.setDomainColumn repo domain).DomainsKeyed := by
  constructor
  · intro k r₁ k' r₂ d hk hk' hd hd'
    by_cases heq : k = repo
    · by_cases heq' : k' = repo
      · rw [heq, heq']
      · subst heq
        rw [get?_setDomainColumn_self hr] at hk
        rw [get?_setDomainColumn_of_ne db heq'] at hk'
        cases hk
        have hnone := hfree k' r₂ hk' heq' (hd'.trans hd.symm)
        cases hnone.symm.trans hd
    · rw [get?_setDomainColumn_of_ne db heq] at hk
      by_cases heq' : k' = repo
      · subst heq'
        rw [get?_setDomainColumn_self hr] at hk'
        cases hk'
        have hnone := hfree k r₁ hk heq (hd.trans hd'.symm)
        cases hnone.symm.trans hd'
      · rw [get?_setDomainColumn_of_ne db heq'] at hk'
        exact h.unique k r₁ k' r₂ d hk hk' hd hd'
  · intro k r₁ hk
    by_cases heq : k = repo
    · subst heq
      rw [get?_setDomainColumn_self hr] at hk
      cases hk
      exact h.owned k r hr
    · rw [get?_setDomainColumn_of_ne db heq] at hk
      exact h.owned k r₁ hk

/-- What the statement can do: write the column of a repository that is there with a domain no
other one has, or nothing. -/
theorem updateDomain_cases (repo : Uuid) (domain : Option String) (db : Catalog) :
    (∃ r, db.repositories.get? repo = some r ∧
      (∀ k r', db.repositories.get? k = some r' → k ≠ repo → r'.customDomain = domain →
        domain = none) ∧
      exec (updateDomain repo domain) db = (.ok (), db.setDomainColumn repo domain)) ∨
    ∃ e, exec (updateDomain repo domain) db = (.error e, db) := by
  unfold updateDomain
  rw [exec_bind, exec_get, andThen]
  dsimp only
  cases hr : db.repositories.get? repo with
  | none => exact .inr ⟨.db .rowNotFound, rfl⟩
  | some r =>
    rw [if_neg (by simp)]
    split_ifs with htaken
    · exact .inr ⟨_, rfl⟩
    · refine .inl ⟨r, rfl, fun k r' hr' hk hdomain => ?_, rfl⟩
      by_contra hnone
      refine htaken ?_
      rw [Bool.and_eq_true, List.any_eq_true]
      refine ⟨Option.isSome_iff_ne_none.2 hnone, (k, r'), (Table.mem_rows_iff _ _ _).2 hr', ?_⟩
      simp [hk, hdomain]

/-- A request is answered with the column it wrote, or refused and changes nothing. -/
theorem setCustomDomain_cases (repo : Uuid) (domain : Option String) (db : Catalog) :
    (∃ r stored, db.repositories.get? repo = some r ∧ domainColumn domain = .ok stored ∧
      (∀ k r', db.repositories.get? k = some r' → k ≠ repo → r'.customDomain = stored →
        stored = none) ∧
      exec (setCustomDomain repo domain) db = (.ok stored, db.setDomainColumn repo stored)) ∨
    ∃ e, exec (setCustomDomain repo domain) db = (.error e, db) := by
  unfold setCustomDomain
  rw [exec_bind, exec_ofExcept]
  cases hcolumn : domainColumn domain with
  | error e => exact .inr ⟨e, rfl⟩
  | ok stored =>
    have hgo : andThen (Except.ok stored, db) (fun stored db =>
        exec (updateDomain repo stored >>= fun _ => pure stored) db)
        = andThen (exec (updateDomain repo stored) db) fun _ db => (.ok stored, db) := by
      show exec (updateDomain repo stored >>= fun _ => pure stored) db = _
      rw [exec_bind]
      rfl
    rw [hgo]
    rcases updateDomain_cases repo stored db with ⟨r, hr, hfree, hexec⟩ | ⟨e, hexec⟩
    · exact .inl ⟨r, stored, hr, rfl, hfree, by rw [hexec]; rfl⟩
    · exact .inr ⟨e, by rw [hexec]; rfl⟩

/-- Setting a domain keeps the domains distinct. -/
theorem Catalog.DomainsKeyed.setCustomDomain {db : Catalog} (h : db.DomainsKeyed) (repo : Uuid)
    (domain : Option String) : (exec (setCustomDomain repo domain) db).2.DomainsKeyed := by
  rcases setCustomDomain_cases repo domain db with ⟨r, stored, hr, -, hfree, hexec⟩ | ⟨e, hexec⟩
  · rw [hexec]
    exact h.setDomainColumn hr hfree
  · rw [hexec]
    exact h

/-- A request changes the row of its own repository only, and no organization. -/
theorem setCustomDomain_frame (repo : Uuid) (domain : Option String) (db : Catalog) :
    (∀ k, k ≠ repo → (exec (setCustomDomain repo domain) db).2.repositories.get? k
      = db.repositories.get? k) ∧
    (exec (setCustomDomain repo domain) db).2.organizations = db.organizations := by
  rcases setCustomDomain_cases repo domain db with ⟨r, stored, -, -, -, hexec⟩ | ⟨e, hexec⟩
  · rw [hexec]
    exact ⟨fun k hk => get?_setDomainColumn_of_ne db hk stored, rfl⟩
  · rw [hexec]
    exact ⟨fun _ _ => rfl, rfl⟩

/-- Requests for other repositories leave a repository's row. -/
theorem setDomains_spec {db : Catalog} (h : db.DomainsKeyed) {repo : Uuid}
    {requests : List (Uuid × Option String)} (hother : ∀ q ∈ requests, q.1 ≠ repo) :
    (setDomains requests db).DomainsKeyed ∧
      (setDomains requests db).repositories.get? repo = db.repositories.get? repo ∧
      (setDomains requests db).organizations = db.organizations := by
  induction requests generalizing db with
  | nil => exact ⟨h, rfl, rfl⟩
  | cons q requests ih =>
    obtain ⟨hrow, horgs⟩ := setCustomDomain_frame q.1 q.2 db
    obtain ⟨hkeyed, hrest, horgs'⟩ := ih (h.setCustomDomain q.1 q.2)
      fun q' hq' => hother q' (List.mem_cons_of_mem _ hq')
    exact ⟨hkeyed, hrest.trans (hrow repo (hother q List.mem_cons_self).symm),
      horgs'.trans horgs⟩

/-! ## Routing -/

/-- What is accepted is stored in its normal form. -/
theorem of_domainColumn {raw : String} {stored : Option String}
    (h : domainColumn (some raw) = .ok stored) :
    ∃ domain, stored = some domain ∧ normalizeCustomDomain raw = some domain := by
  unfold domainColumn at h
  cases hraw : normalizeCustomDomain raw with
  | none =>
    simp only [hraw] at h
    cases h
  | some domain =>
    simp only [hraw] at h
    cases h
    exact ⟨domain, rfl, rfl⟩

/-- **Routing does not depend on the spelling.**  Normalising is idempotent; and where a domain was
accepted for a repository, and requests for other repositories followed, every authority that
spells the domain is routed to that repository, unless the domain is the main host. -/
theorem routesSpellings :
    (∀ raw, (normalizeCustomDomain raw).bind normalizeCustomDomain = normalizeCustomDomain raw) ∧
    ∀ (db db' : Catalog) (repo : Uuid) (raw : String) (stored : Option String), db.DomainsKeyed →
      exec (setCustomDomain repo (some raw)) db = (.ok stored, db') →
      ∃ domain, stored = some domain ∧ normalizeCustomDomain raw = some domain ∧
        ∀ requests : List (Uuid × Option String), (∀ q ∈ requests, q.1 ≠ repo) →
        ∀ h : HostRouting, h.mainHost ≠ some domain → ∀ authority, Spells domain authority →
          ∃ r o, db.repositories.get? repo = some r ∧ db.organizations.get? r.orgId = some o ∧
            h.byHost (setDomains requests db') (some authority)
              = some ⟨⟨repo, o.slug, r.slug, false⟩, h.scheme ++ "://" ++ authority⟩ := by
  refine ⟨normalizeCustomDomain_idem, fun db db' repo raw stored hkeyed hset => ?_⟩
  have hkeyed' : db'.DomainsKeyed := by
    have hkept := hkeyed.setCustomDomain repo (some raw)
    rwa [hset] at hkept
  rcases setCustomDomain_cases repo (some raw) db with
    ⟨r, stored', hr, hcolumn, -, hexec⟩ | ⟨e, hexec⟩
  · rw [hexec] at hset
    cases hset
    obtain ⟨domain, rfl, hraw⟩ := of_domainColumn hcolumn
    refine ⟨domain, rfl, hraw, fun requests hother h hmain authority hspells => ?_⟩
    obtain ⟨o, ho⟩ := Option.isSome_iff_exists.1 (hkeyed.owned repo r hr)
    obtain ⟨hlater, hrow, horgs⟩ := setDomains_spec hkeyed' hother
    rw [get?_setDomainColumn_self hr] at hrow
    have hdomain := isHostname_of_normalize hraw
    have hlookup := repoByCustomDomain_eq hlater hdomain hrow rfl
      (show (setDomains requests _).organizations.get? r.orgId = some o by rw [horgs]; exact ho)
    refine ⟨r, o, hr, ho, ?_⟩
    show (domainPart authority).bind _ = _
    rw [domainPart_of_spells hdomain hspells, Option.bind_some, if_neg hmain]
    show ((setDomains requests _).repoByCustomDomain domain).bind _ = _
    rw [hlookup]
    rfl
  · rw [hexec] at hset
    cases hset

namespace Registry

/-- An organization with one repository. -/
def repository : Repository where
  orgId := 1
  slug := "main"
  updateMode := .auto
  cooldownDays := 0

def catalog : Catalog :=
  { Catalog.empty with
    organizations := .single 1 ⟨"acme", none⟩
    repositories := ⟨[(2, repository)], by decide⟩ }

def routing : HostRouting := ⟨some "sconce.example", "https"⟩

theorem normalize_raw : normalizeCustomDomain " Repo.Example.org. " = some "repo.example.org" := by
  have hhost : (trimEndMatches '.' (trim " Repo.Example.org. ")).toLower = "repo.example.org" := by
    rw [← String.toList_inj, toList_toLower, toList_trimEndMatches, toList_trim]
    decide
  unfold normalizeCustomDomain
  rw [hhost]
  exact if_pos (by decide)

/-- The domains of the example are distinct. -/
theorem catalog_keyed : catalog.DomainsKeyed where
  unique k r k' r' d hk hk' hd _ := by
    have hnone : r.customDomain = none := by
      have hmem := (Table.mem_rows_iff _ _ _).2 hk
      rw [(Prod.mk.inj (List.mem_singleton.1 hmem)).2]
      rfl
    rw [hnone] at hd
    cases hd
  owned k r hk := by
    have hmem := (Table.mem_rows_iff _ _ _).2 hk
    rw [(Prod.mk.inj (List.mem_singleton.1 hmem)).2]
    rfl

/-- Another spelling of the domain, with a port, reaches the repository. -/
theorem routes_port : ∃ r o, catalog.repositories.get? 2 = some r ∧
    catalog.organizations.get? r.orgId = some o ∧
    routing.byHost (catalog.setDomainColumn 2 (some "repo.example.org"))
      (some "REPO.example.Org..:8443")
      = some ⟨⟨2, o.slug, r.slug, false⟩, "https" ++ "://" ++ "REPO.example.Org..:8443"⟩ := by
  have hset : exec (setCustomDomain 2 (some " Repo.Example.org. ")) catalog
      = (.ok (some "repo.example.org"), catalog.setDomainColumn 2 (some "repo.example.org")) := by
    unfold setCustomDomain domainColumn
    simp only [normalize_raw]
    rfl
  obtain ⟨domain, hstored, -, hroutes⟩ := routesSpellings.2 catalog _ 2 _ _ catalog_keyed hset
  cases hstored
  refine hroutes [] (fun q hq => absurd hq List.not_mem_nil) routing (by decide +kernel) _
    ⟨"REPO.example.Org", "..", ":8443", by decide +kernel, ?_, by simp,
      .inr ⟨"8443", by decide +kernel, by simp⟩⟩
  rw [← String.toList_inj, toList_toLower]
  decide

end Registry

end Sconce
