/-
# Version order

`compare_normalized` compares two versions that parse as Composer does, and every other pair
as text, "keeping the ordering total".  Its two orders meet at a version that does not parse:
it is placed between versions by text, which need not agree with the order of the versions.
`ordersOn_compareNormalized_iff` says where the ordering is total.
-/
import Sconce.Lib.Comparator
import Sconce.Serving.HumanIndex

namespace Sconce

/-- `compare_normalized`, by what `Version::parse` makes of a text. -/
def compareNormalized {V : Type} [LinearOrder V] (parse : String → Option V) (a b : String) :
    Ordering :=
  match parse a, parse b with
  | some va, some vb => compare va vb
  | _, _ => compare a b

/-- Of the versions, a text that does not parse is above all those lower than one it is above. -/
def CutsVersions {V : Type} [LinearOrder V] (parse : String → Option V) (versions : Set String) :
    Prop :=
  ∀ p ∈ versions, ∀ q ∈ versions, ∀ text ∈ versions, ∀ vp vq,
    parse p = some vp → parse q = some vq → parse text = none → vp ≤ vq →
      q < text → p < text

section Compare

variable {V : Type} [LinearOrder V] {parse : String → Option V} {a b : String}

/-- Two versions that parse compare as such. -/
theorem compareNormalized_of_some {va vb : V} (ha : parse a = some va) (hb : parse b = some vb) :
    compareNormalized parse a b = compare va vb := by
  unfold compareNormalized
  rw [ha, hb]

/-- A version that does not parse compares as text. -/
theorem compareNormalized_of_none_left (ha : parse a = none) :
    compareNormalized parse a b = compare a b := by
  unfold compareNormalized
  rw [ha]

theorem compareNormalized_of_none_right (hb : parse b = none) :
    compareNormalized parse a b = compare a b := by
  unfold compareNormalized
  rw [hb]
  cases parse a <;> rfl

/-- Either way round, the answers are opposite. -/
theorem compareNormalized_swap (parse : String → Option V) (a b : String) :
    compareNormalized parse b a = (compareNormalized parse a b).swap := by
  cases ha : parse a with
  | none =>
    rw [compareNormalized_of_none_left ha, compareNormalized_of_none_right ha]
    exact Std.OrientedOrd.eq_swap
  | some va =>
    cases hb : parse b with
    | none =>
      rw [compareNormalized_of_none_left hb, compareNormalized_of_none_right hb]
      exact Std.OrientedOrd.eq_swap
    | some vb =>
      rw [compareNormalized_of_some ha hb, compareNormalized_of_some hb ha]
      exact Std.OrientedOrd.eq_swap

omit [LinearOrder V] in
/-- A text that parses is not one that does not. -/
theorem ne_of_parse {v : V} (ha : parse a = some v) (hb : parse b = none) : a ≠ b := by
  rintro rfl
  rw [ha] at hb
  cases hb

variable {versions : Set String}

/-- **One step of transitivity**, by which of the three parse.  Three versions are compared as
versions; with at most one of them the comparisons are all of text; with two and a text between,
below or above them, the text cuts them. -/
theorem CutsVersions.trans (hcut : CutsVersions parse versions) {c : String} (ha : a ∈ versions)
    (hb : b ∈ versions) (hc : c ∈ versions) (hab : (compareNormalized parse a b).isLE = true)
    (hbc : (compareNormalized parse b c).isLE = true) :
    (compareNormalized parse a c).isLE = true := by
  cases hpa : parse a with
  | none =>
    rw [compareNormalized_of_none_left hpa, Std.LawfulLECmp.isLE_iff_le] at hab ⊢
    cases hpb : parse b with
    | none =>
      rw [compareNormalized_of_none_left hpb, Std.LawfulLECmp.isLE_iff_le] at hbc
      exact hab.trans hbc
    | some vb =>
      cases hpc : parse c with
      | none =>
        rw [compareNormalized_of_none_right hpc, Std.LawfulLECmp.isLE_iff_le] at hbc
        exact hab.trans hbc
      | some vc =>
        -- the text is below the lower version: were it above the higher, it would be above both
        rw [compareNormalized_of_some hpb hpc, Std.LawfulLECmp.isLE_iff_le] at hbc
        by_contra hnot
        exact (hcut b hb c hc a ha vb vc hpb hpc hpa hbc (not_le.1 hnot)).not_ge hab
  | some va =>
    cases hpb : parse b with
    | none =>
      rw [compareNormalized_of_none_right hpb, Std.LawfulLECmp.isLE_iff_le] at hab
      rw [compareNormalized_of_none_left hpb, Std.LawfulLECmp.isLE_iff_le] at hbc
      cases hpc : parse c with
      | none =>
        rw [compareNormalized_of_none_right hpc, Std.LawfulLECmp.isLE_iff_le]
        exact hab.trans hbc
      | some vc =>
        -- the text lies between the versions: were they the other way round, it would not
        rw [compareNormalized_of_some hpa hpc, Std.LawfulLECmp.isLE_iff_le]
        by_contra hnot
        have hlt : a < b := hab.lt_of_ne (ne_of_parse hpa hpb)
        exact (hcut c hc a ha b hb vc va hpc hpa hpb (not_le.1 hnot).le hlt).not_ge hbc
    | some vb =>
      rw [compareNormalized_of_some hpa hpb, Std.LawfulLECmp.isLE_iff_le] at hab
      cases hpc : parse c with
      | none =>
        rw [compareNormalized_of_none_right hpc, Std.LawfulLECmp.isLE_iff_le] at hbc ⊢
        have hlt : b < c := hbc.lt_of_ne (ne_of_parse hpb hpc)
        exact (hcut a ha b hb c hc va vb hpa hpb hpc hab hlt).le
      | some vc =>
        rw [compareNormalized_of_some hpb hpc, Std.LawfulLECmp.isLE_iff_le] at hbc
        rw [compareNormalized_of_some hpa hpc, Std.LawfulLECmp.isLE_iff_le]
        exact hab.trans hbc

/-- Where the comparator orders the versions, every text that does not parse cuts them. -/
theorem CutsVersions.of_ordersOn (h : OrdersOn (compareNormalized parse) versions) :
    CutsVersions parse versions := by
  intro p hp q hq text htext vp vq hpp hpq hptext hle hlt
  have hpq' : (compareNormalized parse p q).isLE = true := by
    rw [compareNormalized_of_some hpp hpq, Std.LawfulLECmp.isLE_iff_le]
    exact hle
  have hqtext : (compareNormalized parse q text).isLE = true := by
    rw [compareNormalized_of_none_right hptext, Std.LawfulLECmp.isLE_iff_le]
    exact hlt.le
  have hptext' := h.trans p hp q hq text htext hpq' hqtext
  rw [compareNormalized_of_none_right hptext, Std.LawfulLECmp.isLE_iff_le] at hptext'
  exact hptext'.lt_of_ne (ne_of_parse hpp hptext)

/-- A cut of many versions cuts few of them too. -/
theorem CutsVersions.mono {few : Set String} (hcut : CutsVersions parse versions)
    (hfew : few ⊆ versions) : CutsVersions parse few :=
  fun p hp q hq text htext => hcut p (hfew hp) q (hfew hq) text (hfew htext)

theorem CutsVersions.ordersOn (hcut : CutsVersions parse versions) :
    OrdersOn (compareNormalized parse) versions :=
  ⟨fun a _ b _ => compareNormalized_swap parse a b,
    fun _ ha _ hb _ hc hab hbc => hcut.trans ha hb hc hab hbc⟩

end Compare

/-- **Where the ordering is total**: on the versions each text of which that does not parse is,
as text, above every version lower than one it is above. -/
theorem ordersOn_compareNormalized_iff {V : Type} [LinearOrder V] (parse : String → Option V)
    (versions : Set String) :
    OrdersOn (compareNormalized parse) versions ↔ CutsVersions parse versions :=
  ⟨CutsVersions.of_ordersOn, CutsVersions.ordersOn⟩

/-! ## What is sorted by it -/

namespace Catalog

variable {V : Type} [LinearOrder V] {parse : String → Option V} (db : Catalog)

/-- The normalized versions that are stored. -/
def normalizedVersions : Set String :=
  {text | ∃ v, db.Stored v ∧ v.key.normalizedVersion = text}

/-- Where each stored text cuts the stored versions, they are in one order. -/
theorem versionsOrdered_of_cuts (hcut : CutsVersions parse db.normalizedVersions) :
    db.VersionsOrdered (compareNormalized parse) := by
  have hmem : {text | text ∈ db.versionRows.map fun v => v.key.normalizedVersion}
      = db.normalizedVersions := by
    ext text
    simp only [Set.mem_ofPred_eq, List.mem_map, normalizedVersions, mem_versionRows]
  have horders : OrdersOn (compareNormalized parse)
      {text | text ∈ db.versionRows.map fun v => v.key.normalizedVersion} := hmem ▸ hcut.ordersOn
  refine ⟨OrdersOn.rankIn (compareNormalized parse)
    (db.versionRows.map fun v => v.key.normalizedVersion), fun u v hu hv => ?_⟩
  exact horders.compare_rankIn (List.mem_map_of_mem ((db.mem_versionRows u).2 hu))
    (List.mem_map_of_mem ((db.mem_versionRows v).2 hv))

/-- `sort_versions_ascending` sorts the versions of a list each text of which cuts them. -/
theorem sortVersionsAscending_pairwise {rows : List VersionRow}
    (hcut : CutsVersions parse {text | ∃ v ∈ rows, v.key.normalizedVersion = text}) :
    (sortVersionsAscending (compareNormalized parse) rows).Pairwise fun u v =>
      (compareNormalized parse u.key.normalizedVersion v.key.normalizedVersion).isLE = true := by
  have horders : OrdersOn (fun u v : VersionRow =>
      compareNormalized parse u.key.normalizedVersion v.key.normalizedVersion)
      {v | v ∈ rows} :=
    ⟨fun u _ v _ => compareNormalized_swap parse _ _, fun u hu v hv w hw huv hvw =>
      hcut.trans ⟨u, hu, rfl⟩ ⟨v, hv, rfl⟩ ⟨w, hw, rfl⟩ huv hvw⟩
  exact horders.pairwise_mergeSort

variable {db}

/-- `visible_versions` are in version order where each stored text cuts the stored versions. -/
theorem visibleVersions_pairwise (hcut : CutsVersions parse db.normalizedVersions) {repo : Uuid}
    {ses : Session} {now : Timestamp} {name : String} {mode : UpdateMode} {cooldownDays : ℤ}
    {untilUnix major : Option ℤ} {rows : List VersionRow}
    (h : db.visibleVersions repo ses (compareNormalized parse) now name mode cooldownDays untilUnix
      major = .ok rows) :
    rows.Pairwise fun u v =>
      (compareNormalized parse u.key.normalizedVersion v.key.normalizedVersion).isLE = true := by
  unfold visibleVersions at h
  cases hout : selectRows
      (db.versionClause repo ses now name mode cooldownDays untilUnix major) db.versionRows with
  | error e =>
    rw [hout] at h
    cases h
  | ok out =>
    rw [hout] at h
    obtain rfl := Except.ok.inj h
    refine sortVersionsAscending_pairwise (hcut.mono ?_)
    rintro text ⟨v, hv, rfl⟩
    exact ⟨v, (db.mem_versionRows v).1 ((mem_selectRows hout v).1 hv).1, rfl⟩

/-- Under that order the index shows the newest of the versions it considers. -/
theorem isNewest_of_cuts (hcut : CutsVersions parse db.normalizedVersions) {repo : Uuid}
    {env : ReadEnv} (henv : env.compareNormalized = compareNormalized parse) {now : Timestamp}
    {policy : UpdateMode × ℤ} {name : String} {v : VersionRow}
    (h : newestOf (db.considered repo env now policy name) = some v) :
    IsNewest env.compareNormalized (db.considered repo env now policy name) v :=
  isNewest_considered (henv ▸ db.versionsOrdered_of_cuts hcut) h

end Catalog

/-! ## A text among the versions -/

namespace Upstream

/-- Numbers between dots, given the digits of the first that are read. -/
def numbersFrom (n : ℕ) : List Char → Option (List ℕ)
  | [] => some [n]
  | c :: rest =>
    if c = '.' then (numbersFrom 0 rest).map (n :: ·)
    else if c.isDigit then numbersFrom (10 * n + (c.toNat - 48)) rest
    else none

def numbers (text : String) : Option (List ℕ) := numbersFrom 0 text.toList

/-- **Round in a circle**: `9.0.0.0` is below `10.0.0.0`, which is below `5?` as text, which is
below `9.0.0.0` as text. -/
theorem not_ordersOn_numbers : ¬ OrdersOn (compareNormalized numbers) Set.univ := by
  intro h
  have hcut := CutsVersions.of_ordersOn h
  have hnine : numbers "9.0.0.0" = some [9, 0, 0, 0] := by decide
  have hten : numbers "10.0.0.0" = some [10, 0, 0, 0] := by decide
  have htext : numbers "5?" = none := by decide
  have hlt := hcut "9.0.0.0" trivial "10.0.0.0" trivial "5?" trivial _ _ hnine hten htext
    (by decide) (by decide)
  exact absurd hlt (by decide)

end Upstream

end Sconce
