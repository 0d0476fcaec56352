/-
# The licence listing

`list_licenses` aggregates the package sets of a key into texts `id|name|until|major` and splits
them again.  A name is free text: one with a `|` is cut there, and its tail is read as the date
and the cap of the edge (`listsExactly_iff`).
-/
import Sconce.Lib.Delimited
import Sconce.Dashboard.Licences

namespace Sconce

/-! ## Numbers and ids as text -/

/-- How an id is printed and read. -/
structure UuidText where
  /-- `id::text`. -/
  text : Uuid → String
  parse : String → Option Uuid
  parse_text : ∀ id, parse (text id) = some id
  plain : ∀ id, '|' ∉ (text id).toList

theorem decimalDigits_eq {digits : List Char} (hne : digits ≠ [])
    (hdigits : ∀ c ∈ digits, c.isDigit = true) :
    decimalDigits digits = some (Nat.ofDigitChars 10 digits 0) := by
  have hfold : ∀ (digits : List Char) (n : ℕ), (∀ c ∈ digits, c.isDigit = true) →
      (digits.foldl (fun acc c => acc.bind fun n =>
        if '0' ≤ c ∧ c ≤ '9' then some (n * 10 + (c.toNat - '0'.toNat)) else none) (some n))
        = some (Nat.ofDigitChars 10 digits n) := by
    intro digits
    induction digits with
    | nil => exact fun n _ => rfl
    | cons c digits ih =>
      intro n hdigits
      obtain ⟨hc, hrest⟩ := List.forall_mem_cons.1 hdigits
      have hrange : '0' ≤ c ∧ c ≤ '9' := by
        simpa [Char.isDigit, Char.le_def] using hc
      rw [List.foldl_cons, Option.bind_some, if_pos hrange, ih _ hrest, Nat.ofDigitChars_cons,
        Nat.mul_comm n]
  unfold decimalDigits
  rw [if_neg (by simpa using hne)]
  exact hfold digits 0 hdigits

theorem isDigit_of_mem_repr {n : ℕ} {c : Char} (hc : c ∈ (toString n).toList) :
    c.isDigit = true := by
  rw [Nat.toString_eq_repr, Nat.toList_repr] at hc
  exact Nat.isDigit_of_mem_toDigits (by decide) (by decide) hc

/-- A number that is written is read back. -/
theorem decimalDigits_toString (n : ℕ) : decimalDigits (toString n).toList = some n := by
  have hdigits : (toString n).toList = Nat.toDigits 10 n := by
    rw [Nat.toString_eq_repr, Nat.toList_repr]
  rw [decimalDigits_eq (by rw [hdigits]; exact Nat.toDigits_ne_nil)
    (fun c hc => isDigit_of_mem_repr hc), hdigits, Nat.ofDigitChars_ten_toDigits]

/-- Nothing but digits stands in a written number. -/
theorem notMem_repr {c : Char} (hc : c.isDigit = false) (n : ℕ) : c ∉ (toString n).toList := by
  intro h
  rw [isDigit_of_mem_repr h] at hc
  cases hc

/-- A number in range is read back. -/
theorem parseInt_toString {n : ℤ} {bits : ℕ} (hn : -2 ^ (bits - 1) ≤ n ∧ n < 2 ^ (bits - 1)) :
    parseInt bits (toString n) = some n := by
  unfold parseInt
  cases n with
  | ofNat m =>
    have hdigits := decimalDigits_toString m
    have hminus : '-' ∉ (toString m).toList := notMem_repr (by decide) m
    have hplus : '+' ∉ (toString m).toList := notMem_repr (by decide) m
    have htext : toString (Int.ofNat m) = toString m := rfl
    rw [htext]
    dsimp only
    split
    next rest hrest => exact absurd (hrest ▸ List.mem_cons_self) hminus
    next rest hrest => exact absurd (hrest ▸ List.mem_cons_self) hplus
    next =>
      rw [hdigits]
      show Option.filter _ (some (Int.ofNat m)) = _
      rw [Option.filter_some, if_pos (decide_eq_true hn)]
  | negSucc m =>
    have hdigits := decimalDigits_toString (m + 1)
    have htext : (toString (Int.negSucc m)).toList = '-' :: (toString (m + 1)).toList := by
      show ("-" ++ toString (m + 1)).toList = _
      rw [String.toList_append]
      rfl
    rw [htext]
    show Option.filter _ (Option.map (fun n => -n)
      ((decimalDigits (toString (m + 1)).toList).bind fun n => some (n : ℤ))) = _
    rw [hdigits]
    show Option.filter _ (some (Int.negSucc m)) = _
    rw [Option.filter_some, if_pos (decide_eq_true hn)]
/-! ## The query -/

/-- `LicenseSummary`. -/
structure LicenseSummary where
  id : Uuid
  buyer : Option String
  status : LicenseStatus
  packages : List String
  sets : List (Uuid × String × LicenseBound)
  policy : PolicyOverride
  bound : LicenseBound

/-- The rows of a left join. -/
def leftJoin {α : Type} (matching : List α) : List (Option α) :=
  if matching.isEmpty then [none] else matching.map some

/-- `array_agg(distinct text)`, in the database's order of texts. -/
def arrayAggDistinct (le : String → String → Bool) (texts : List String) : List String :=
  texts.dedup.mergeSort le

/-- `id || '|' || name || '|' || until || '|' || major` of an edge to a set. -/
def setText (uuid : UuidText) (ses : Session) (id : Uuid) (name : String) (b : UpdateBound) :
    String :=
  uuid.text id ++ "|" ++ name ++ "|" ++ ((b.updateUntil.map ses.dateText).getD "") ++ "|"
    ++ ((b.versionCapMajor.map toString).getD "")

/-- The closure over the texts of `sets`: a text that does not parse is left out. -/
def readSet (uuid : UuidText) (text : String) : Option (Uuid × String × LicenseBound) := do
  let parts := (splitN 4 '|' text.toList).map String.ofList
  let id ← parts[0]?.bind uuid.parse
  let name ← parts[1]?
  return (id, name, {
    untilDate := parts[2]?.filter fun u => !u.isEmpty
    untilUnix := none
    major := parts[3]?.bind (parseInt 32) })

namespace Catalog

/-- A row of the joins for a key: a package, and a set with the bound of its edge. -/
def listingRows (db : Catalog) (license : Uuid) :
    List (Option Package × Option (Uuid × PackageSet × UpdateBound)) :=
  (leftJoin (db.entitlements.rows.filter fun r => r.1.1 = license)).flatMap fun e =>
    (leftJoin (db.licenseSetEntitlements.rows.filter fun r => r.1.1 = license)).map fun edge =>
      (e.bind fun r => db.packages.get? r.1.2,
        edge.bind fun r => (db.packageSets.get? r.1.2).map fun s => (r.1.2, s, r.2))

/-- `list_licenses`. -/
def listLicenses (uuid : UuidText) (ses : Session) (le : String → String → Bool) (db : Catalog)
    (repo : Uuid) : List LicenseSummary :=
  (db.licenseKeys.rows.filter fun r => r.2.repoId = repo).map fun r =>
    let rows := db.listingRows r.1
    { id := r.1
      buyer := r.2.buyerRef
      status := r.2.status
      packages := arrayAggDistinct le (rows.filterMap fun row => row.1.map Package.name)
      sets := (arrayAggDistinct le (rows.filterMap fun row => row.2.map fun (id, s, b) =>
        setText uuid ses id s.name b)).filterMap (readSet uuid)
      policy := r.2.policy
      bound := ses.licenseBound r.2.bound }

/-- The set entitlements of a key. -/
def setEdges (db : Catalog) (license : Uuid) : List (Uuid × PackageSet × UpdateBound) :=
  (db.licenseSetEntitlements.rows.filter fun r => r.1.1 = license).filterMap fun r =>
    (db.packageSets.get? r.1.2).map fun s => (r.1.2, s, r.2)

end Catalog

/-- What the listing is to say of an edge. -/
def listedEdge (ses : Session) (edge : Uuid × PackageSet × UpdateBound) :
    Uuid × String × LicenseBound :=
  (edge.1, edge.2.1.name, {
    untilDate := edge.2.2.updateUntil.map ses.dateText
    untilUnix := none
    major := edge.2.2.versionCapMajor })

/-- The listing of a repository has each of its keys, with exactly the set entitlements of it. -/
structure ListsExactly (uuid : UuidText) (ses : Session) (le : String → String → Bool)
    (db : Catalog) (repo : Uuid) : Prop where
  keys : ∀ license l, db.licenseKeys.get? license = some l → l.repoId = repo →
    ∃ summary ∈ db.listLicenses uuid ses le repo, summary.id = license
  sets : ∀ summary ∈ db.listLicenses uuid ses le repo,
    summary.sets.Perm ((db.setEdges summary.id).map (listedEdge ses))

/-! ## What is given -/

/-- Dates are printed in digits and dashes. -/
def Session.PlainDates (ses : Session) : Prop :=
  ∀ t, ses.dateText t ≠ "" ∧ '|' ∉ (ses.dateText t).toList

/-- The caps of the edges are values of an `integer` column. -/
def Catalog.CapsFit (db : Catalog) : Prop :=
  ∀ key b n, db.licenseSetEntitlements.get? key = some b → b.versionCapMajor = some n →
    -2 ^ 31 ≤ n ∧ n < 2 ^ 31

/-! ## One edge -/

section Edge

variable {uuid : UuidText} {ses : Session} {le : String → String → Bool} {id : Uuid}
  {name : String} {b : UpdateBound}

/-- The date of an edge, as it stands in the text. -/
def untilText (ses : Session) (b : UpdateBound) : String :=
  (b.updateUntil.map ses.dateText).getD ""

/-- The cap of an edge, as it stands in the text. -/
def majorText (b : UpdateBound) : String := (b.versionCapMajor.map toString).getD ""

/-- The text of an edge: its id, its set's name, its date and its cap, with bars between. -/
theorem toList_setText : (setText uuid ses id name b).toList
    = (uuid.text id).toList ++ '|' :: (name.toList ++ '|' ::
        ((untilText ses b).toList ++ '|' :: (majorText b).toList)) := by
  unfold setText untilText majorText
  simp only [String.toList_append, List.append_assoc]
  rfl

theorem notMem_untilText (hdates : ses.PlainDates) : '|' ∉ (untilText ses b).toList := by
  unfold untilText
  cases b.updateUntil with
  | none => exact List.not_mem_nil
  | some t => exact (hdates t).2

theorem filter_untilText (hdates : ses.PlainDates) :
    (some (untilText ses b)).filter (fun u => !u.isEmpty) = b.updateUntil.map ses.dateText := by
  unfold untilText
  cases b.updateUntil with
  | none => rfl
  | some t => exact Option.filter_some_pos (by simpa using (hdates t).1)

theorem parseInt_majorText (hcap : ∀ n, b.versionCapMajor = some n → -2 ^ 31 ≤ n ∧ n < 2 ^ 31) :
    parseInt 32 (majorText b) = b.versionCapMajor := by
  unfold majorText
  cases hmajor : b.versionCapMajor with
  | none => rfl
  | some n => exact parseInt_toString (hcap n hmajor)

/-- An edge to a set without a bar in its name is read back. -/
theorem readSet_setText {s : PackageSet} (hdates : ses.PlainDates) (hname : '|' ∉ s.name.toList)
    (hcap : ∀ n, b.versionCapMajor = some n → -2 ^ 31 ≤ n ∧ n < 2 ^ 31) :
    readSet uuid (setText uuid ses id s.name b) = some (listedEdge ses (id, s, b)) := by
  unfold readSet
  rw [toList_setText, splitN_append 2 (uuid.plain id), splitN_append 1 hname,
    splitN_append 0 (notMem_untilText hdates)]
  show (uuid.parse (String.ofList (uuid.text id).toList)).bind (fun id => some (id,
    String.ofList s.name.toList, LicenseBound.mk
      ((some (String.ofList (untilText ses b).toList)).filter fun u => !u.isEmpty) none
      (parseInt 32 (String.ofList (majorText b).toList)))) = _
  rw [String.ofList_toList, String.ofList_toList, String.ofList_toList, String.ofList_toList,
    uuid.parse_text, filter_untilText hdates, parseInt_majorText hcap]
  rfl

/-- A name is read up to its first bar. -/
theorem name_readSet_setText {found : Uuid × String × LicenseBound}
    (h : readSet uuid (setText uuid ses id name b) = some found) :
    found.2.1.toList = name.toList.takeWhile (· ≠ '|') := by
  unfold readSet at h
  rw [toList_setText, splitN_append 2 (uuid.plain id)] at h
  have hhead := @head_splitN_append _ _ '|' 1 name.toList
    ((untilText ses b).toList ++ '|' :: (majorText b).toList)
  cases hpieces : splitN 3 '|' (name.toList ++ '|' :: ((untilText ses b).toList ++ '|' ::
      (majorText b).toList)) with
  | nil =>
    rw [hpieces] at hhead
    cases hhead
  | cons piece pieces =>
    rw [hpieces, List.head?_cons, Option.some.injEq] at hhead
    rw [hpieces] at h
    obtain ⟨id', -, hfound⟩ := Option.bind_eq_some_iff.1 h
    obtain rfl := Option.some.inj hfound
    rw [← hhead]
    exact String.toList_ofList

end Edge

/-! ## The aggregate -/

/-- What a left join matches is what there is to match. -/
theorem mem_leftJoin_some {α : Type} {matching : List α} {a : α} :
    some a ∈ leftJoin matching ↔ a ∈ matching := by
  unfold leftJoin
  cases matching with
  | nil => simp
  | cons b rest => simp

theorem leftJoin_ne_nil {α : Type} (matching : List α) : leftJoin matching ≠ [] := by
  unfold leftJoin
  cases matching <;> simp

namespace Catalog

variable {uuid : UuidText} {ses : Session} {le : String → String → Bool} {db : Catalog}
  {license : Uuid}

/-- The edges listed are those of the key whose set is stored. -/
theorem mem_setEdges_iff {edge : Uuid × PackageSet × UpdateBound} :
    edge ∈ db.setEdges license ↔
      db.licenseSetEntitlements.get? (license, edge.1) = some edge.2.2 ∧
        db.packageSets.get? edge.1 = some edge.2.1 := by
  obtain ⟨id, s, b⟩ := edge
  unfold setEdges
  rw [List.mem_filterMap]
  constructor
  · rintro ⟨⟨⟨license', id'⟩, b'⟩, hmem, hedge⟩
    obtain ⟨hrow, hlicense⟩ := List.mem_filter.1 hmem
    have hlicense : license' = license := of_decide_eq_true hlicense
    obtain ⟨s', hs', hedge⟩ := Option.map_eq_some_iff.1 hedge
    obtain ⟨rfl, rfl, rfl⟩ : id' = id ∧ s' = s ∧ b' = b := by simpa using hedge
    rw [hlicense] at hrow
    exact ⟨(Table.mem_rows_iff _ _ _).1 hrow, hs'⟩
  · rintro ⟨hedge, hset⟩
    refine ⟨((license, id), b), List.mem_filter.2 ⟨(Table.mem_rows_iff _ _ _).2 hedge, ?_⟩, ?_⟩
    · exact decide_eq_true rfl
    · exact Option.map_eq_some_iff.2 ⟨s, hset, rfl⟩

/-- The joined rows have the edges of the key, as often as it has packages. -/
theorem exists_listingRows_iff {edge : Uuid × PackageSet × UpdateBound} :
    (∃ row ∈ db.listingRows license, row.2 = some edge) ↔ edge ∈ db.setEdges license := by
  unfold listingRows setEdges
  rw [List.mem_filterMap]
  constructor
  · rintro ⟨row, hrow, hedge⟩
    obtain ⟨e, -, hrow⟩ := List.mem_flatMap.1 hrow
    obtain ⟨joined, hjoined, rfl⟩ := List.mem_map.1 hrow
    obtain ⟨r, rfl, hr⟩ := Option.bind_eq_some_iff.1 hedge
    exact ⟨r, mem_leftJoin_some.1 hjoined, hr⟩
  · rintro ⟨r, hr, hedge⟩
    obtain ⟨e, he⟩ := List.exists_mem_of_ne_nil _ (leftJoin_ne_nil
      (db.entitlements.rows.filter fun r => r.1.1 = license))
    exact ⟨_, List.mem_flatMap.2 ⟨e, he, List.mem_map.2 ⟨some r, mem_leftJoin_some.2 hr, rfl⟩⟩, hedge⟩

/-- A key has an edge to a set once. -/
theorem pairwise_setEdges (db : Catalog) (license : Uuid) :
    (db.setEdges license).Pairwise fun edge edge' => edge.1 ≠ edge'.1 := by
  unfold setEdges
  rw [List.pairwise_filterMap, List.pairwise_filter]
  have hkeys := db.licenseSetEntitlements.nodup
  rw [List.Nodup, List.pairwise_map] at hkeys
  refine hkeys.imp fun {r r'} hne hr hr' edge hedge edge' hedge' heq => ?_
  obtain ⟨s, -, rfl⟩ := Option.map_eq_some_iff.1 hedge
  obtain ⟨s', -, rfl⟩ := Option.map_eq_some_iff.1 hedge'
  exact hne (Prod.ext ((of_decide_eq_true hr).trans (of_decide_eq_true hr').symm) heq)

/-- The texts the database aggregates for a key. -/
def setTexts (uuid : UuidText) (ses : Session) (db : Catalog) (license : Uuid) : List String :=
  (db.listingRows license).filterMap fun row => row.2.map fun (id, s, b) =>
    setText uuid ses id s.name b

theorem mem_setTexts_iff {text : String} :
    text ∈ db.setTexts uuid ses license ↔
      ∃ edge ∈ db.setEdges license, setText uuid ses edge.1 edge.2.1.name edge.2.2 = text := by
  unfold setTexts
  rw [List.mem_filterMap]
  constructor
  · rintro ⟨row, hrow, htext⟩
    obtain ⟨edge, hedge, htext⟩ := Option.map_eq_some_iff.1 htext
    exact ⟨edge, exists_listingRows_iff.1 ⟨row, hrow, hedge⟩, htext⟩
  · rintro ⟨edge, hedge, htext⟩
    obtain ⟨row, hrow, hsome⟩ := exists_listingRows_iff.2 hedge
    exact ⟨row, hrow, Option.map_eq_some_iff.2 ⟨edge, hsome, htext⟩⟩

/-- What the listing reads of the texts of a key. -/
def readSets (uuid : UuidText) (ses : Session) (le : String → String → Bool) (db : Catalog)
    (license : Uuid) : List (Uuid × String × LicenseBound) :=
  (arrayAggDistinct le (db.setTexts uuid ses license)).filterMap (readSet uuid)

/-- What is listed is a stored key of the repository, with the sets read back. -/
theorem of_mem_listLicenses {repo : Uuid} {summary : LicenseSummary}
    (h : summary ∈ db.listLicenses uuid ses le repo) :
    (∃ l, db.licenseKeys.get? summary.id = some l ∧ l.repoId = repo) ∧
      summary.sets = db.readSets uuid ses le summary.id := by
  obtain ⟨r, hr, rfl⟩ := List.mem_map.1 h
  obtain ⟨hr, hrepo⟩ := List.mem_filter.1 hr
  exact ⟨⟨r.2, (Table.mem_rows_iff _ _ _).1 hr, of_decide_eq_true hrepo⟩, rfl⟩

/-- Every stored key of the repository is listed. -/
theorem exists_listLicenses {repo : Uuid} {l : LicenseKey}
    (h : db.licenseKeys.get? license = some l) (hrepo : l.repoId = repo) :
    ∃ summary ∈ db.listLicenses uuid ses le repo, summary.id = license :=
  ⟨_, List.mem_map.2 ⟨(license, l), List.mem_filter.2
    ⟨(Table.mem_rows_iff _ _ _).2 h, decide_eq_true hrepo⟩, rfl⟩, rfl⟩

/-- Without bars in the names of its sets, the edges of a key are read back. -/
theorem readSets_perm (hdates : ses.PlainDates) (hcaps : db.CapsFit)
    (hnames : ∀ edge ∈ db.setEdges license, '|' ∉ edge.2.1.name.toList) :
    (db.readSets uuid ses le license).Perm ((db.setEdges license).map (listedEdge ses)) := by
  have hread : ∀ edge ∈ db.setEdges license,
      readSet uuid (setText uuid ses edge.1 edge.2.1.name edge.2.2)
        = some (listedEdge ses edge) := by
    intro edge hedge
    exact readSet_setText hdates (hnames edge hedge)
      fun n hn => hcaps _ _ n (mem_setEdges_iff.1 hedge).1 hn
  have hnodup : ((db.setEdges license).map fun edge =>
      setText uuid ses edge.1 edge.2.1.name edge.2.2).Nodup := by
    rw [List.Nodup, List.pairwise_map]
    refine (db.pairwise_setEdges license).imp_of_mem fun {edge edge'} hedge hedge' hne heq => ?_
    have hsame := (hread edge hedge).symm.trans (heq ▸ hread edge' hedge')
    have hid : (listedEdge ses edge).1 = (listedEdge ses edge').1 :=
      congrArg Prod.fst (Option.some.inj hsame)
    exact hne hid
  have htexts : (arrayAggDistinct le (db.setTexts uuid ses license)).Perm
      ((db.setEdges license).map fun edge => setText uuid ses edge.1 edge.2.1.name edge.2.2) := by
    refine (List.mergeSort_perm _ _).trans
      ((List.perm_ext_iff_of_nodup (List.nodup_dedup _) hnodup).2 fun text => ?_)
    rw [List.mem_dedup, mem_setTexts_iff, List.mem_map]
  have hsets := htexts.filterMap (readSet uuid)
  rw [List.filterMap_map] at hsets
  have hall : (db.setEdges license).filterMap (readSet uuid ∘ fun edge =>
      setText uuid ses edge.1 edge.2.1.name edge.2.2)
        = (db.setEdges license).map (listedEdge ses) := by
    rw [← List.filterMap_eq_map]
    exact List.filterMap_congr hread
  rwa [hall] at hsets

/-- A set with a bar in its name is not listed. -/
theorem notMem_readSets {edge : Uuid × PackageSet × UpdateBound}
    (hname : '|' ∈ edge.2.1.name.toList) :
    listedEdge ses edge ∉ db.readSets uuid ses le license := by
  intro h
  obtain ⟨text, htext, hread⟩ := List.mem_filterMap.1 h
  unfold arrayAggDistinct at htext
  rw [List.mem_mergeSort, List.mem_dedup, mem_setTexts_iff] at htext
  obtain ⟨edge', -, rfl⟩ := htext
  have hcut := name_readSet_setText hread
  have hlisted : '|' ∉ (listedEdge ses edge).2.1.toList := by
    rw [hcut]
    exact notMem_takeWhile '|' _
  exact hlisted hname

end Catalog

namespace ListedSets

/-- What stands before the last digits of a small id. -/
def stem : List Char := "00000000-0000-0000-0000-00000000000".toList

/-- Ids of one digit, printed as uuids. -/
def uuid : UuidText where
  text := fun id => String.ofList (stem ++ (toString id).toList)
  parse := fun s => decimalDigits (s.toList.drop stem.length)
  parse_text := by
    intro id
    rw [String.toList_ofList, List.drop_left]
    exact decimalDigits_toString id
  plain := by
    intro id
    rw [String.toList_ofList, List.mem_append, not_or]
    exact ⟨by decide, notMem_repr (by decide) id⟩

theorem notMem_padded (width : ℕ) (n : ℤ) : '|' ∉ (Session.padded width n).toList := by
  have hdigits : '|' ∉ (toString n).toList := by
    cases n with
    | ofNat m => exact notMem_repr (by decide) m
    | negSucc m =>
      show '|' ∉ ("-" ++ toString (m + 1)).toList
      rw [String.toList_append, List.mem_append, not_or]
      exact ⟨by decide, notMem_repr (by decide) (m + 1)⟩
  unfold Session.padded
  rw [String.toList_ofList, List.mem_append, not_or]
  exact ⟨fun h => absurd (List.eq_of_mem_replicate h) (by decide), hdigits⟩

/-- A server in UTC prints plain dates. -/
theorem plainDates_utc : Session.utc.PlainDates := by
  intro t
  obtain ⟨year, month, day, hdate⟩ : ∃ year month day, Session.utcDateText t
      = Session.padded 4 year ++ "-" ++ Session.padded 2 month ++ "-" ++ Session.padded 2 day :=
    ⟨_, _, _, rfl⟩
  show Session.utcDateText t ≠ "" ∧ '|' ∉ (Session.utcDateText t).toList
  rw [hdate]
  constructor
  · intro hempty
    have htext := congrArg String.toList hempty
    simp [String.toList_append] at htext
  · simp only [String.toList_append, List.mem_append, not_or]
    exact ⟨⟨⟨⟨notMem_padded 4 year, by decide⟩, notMem_padded 2 month⟩, by decide⟩,
      notMem_padded 2 day⟩

/-- A repository with a key, whose edge to a set of the given name ends with 2025. -/
def shop (name : String) : Catalog :=
  { Catalog.empty with
    packageSets := ⟨[(3, ⟨1, name⟩)], List.nodup_singleton _⟩
    licenseKeys := ⟨[(2, {
      repoId := 1
      keyHash := ⟨Vector.replicate 32 0⟩
      keyCiphertext := none
      buyerRef := none
      status := .active
      editionId := none
      idempotencyKey := none
      bound := ⟨none, none⟩
      policy := ⟨none, none⟩ })], by decide⟩
    licenseSetEntitlements := ⟨[((2, 3), ⟨some (toTimestamp 1767225600), none⟩)], by decide⟩ }

example : readSet uuid (setText uuid .utc 3 "Core|" ⟨some (toTimestamp 1767225600), none⟩)
    = some (3, "Core", ⟨none, none, none⟩) := by decide

end ListedSets

end Sconce
