/-
# Composer metadata

`render_root` and `render_package`.  A version's entry is its stored `composer.json` with
`name`, `version`, `version_normalized` and `dist` put in; the dist's URL ends in the digits
of the blob's digest, and taken apart at its last slash it gives the package's name and the
digest back (`parseDistPath_distPath`).
-/
import Sconce.Serving.Scope
import Sconce.Storage.Digests

namespace Sconce

/-! ## Text -/

/-- `text.trim_end_matches(c)`. -/
def trimEndMatches (c : Char) (text : String) : String :=
  String.ofList (text.toList.reverse.dropWhile (· = c)).reverse

/-- `text.rsplit_once(c)`. -/
def rsplitOnce (c : Char) (text : String) : Option (String × String) :=
  match text.toList.reverse.span (· ≠ c) with
  | (_, []) => none
  | (after, _ :: before) => some (String.ofList before.reverse, String.ofList after.reverse)

/-- `text.strip_suffix(suffix)`. -/
def stripSuffix (suffix text : String) : Option String :=
  if suffix.toList <:+ text.toList then
    some (String.ofList (text.toList.take (text.toList.length - suffix.toList.length)))
  else none

/-- `text.strip_prefix(start)`. -/
def stripStart (start text : String) : Option String :=
  if start.toList <+: text.toList then some (String.ofList (text.toList.drop start.toList.length))
  else none

theorem rsplitOnce_append {c : Char} (before : String) {after : String} (h : c ∉ after.toList) :
    rsplitOnce c (before ++ String.singleton c ++ after) = some (before, after) := by
  have hlist : (before ++ String.singleton c ++ after).toList.reverse
      = after.toList.reverse ++ c :: before.toList.reverse := by
    simp
  have hafter : ∀ x ∈ after.toList.reverse, decide (x ≠ c) = true := by
    intro x hx
    rw [List.mem_reverse] at hx
    exact decide_eq_true fun hxc => h (hxc ▸ hx)
  unfold rsplitOnce
  rw [hlist, List.span_eq_takeWhile_dropWhile, List.takeWhile_append_of_pos hafter,
    List.dropWhile_append_of_pos hafter, List.takeWhile_cons_of_neg (by simp),
    List.dropWhile_cons_of_neg (by simp), List.append_nil]
  simp

theorem stripSuffix_append (text suffix : String) : stripSuffix suffix (text ++ suffix) = some text := by
  unfold stripSuffix
  have hlist : (text ++ suffix).toList = text.toList ++ suffix.toList := String.toList_append
  rw [hlist, if_pos (List.suffix_append _ _), List.length_append, Nat.add_sub_cancel,
    List.take_left, String.ofList_toList]

theorem stripStart_append (start text : String) : stripStart start (start ++ text) = some text := by
  unfold stripStart
  have hlist : (start ++ text).toList = start.toList ++ text.toList := String.toList_append
  rw [hlist, if_pos (List.prefix_append _ _), List.drop_left, String.ofList_toList]

/-! ## JSON objects -/

/-- The fields of an object, each key once. -/
abbrev Fields := List (String × Json)

/-- `map.insert(key, value)`. -/
def Fields.insert (fields : Fields) (key : String) (value : Json) : Fields :=
  if (fields.lookup key).isSome then
    fields.map fun f => if f.1 = key then (key, value) else f
  else fields ++ [(key, value)]

@[simp] theorem Fields.lookup_insert (fields : Fields) (key : String) (value : Json) :
    List.lookup key (fields.insert key value) = some value := by
  unfold Fields.insert
  split_ifs with h
  · induction fields with
    | nil => cases h
    | cons f fields ih =>
      obtain ⟨k, v⟩ := f
      rw [List.map_cons]
      by_cases hk : k = key
      · rw [if_pos hk, List.lookup_cons_self]
      · have hne : (key == k) = false := beq_false_of_ne fun hkey => hk hkey.symm
        rw [if_neg hk, List.lookup_cons, hne]
        rw [List.lookup_cons, hne] at h
        exact ih h
  · rw [Option.not_isSome_iff_eq_none] at h
    rw [List.lookup_append, h]
    simp

/-! ## The root document -/

/-- What `RootManifest::v2` is made of. -/
structure RootManifest where
  baseUrl : String
  availablePackages : List String
  deriving DecidableEq

/-- `render_root`. -/
def renderRoot (packageNames : List String) (baseUrl : String) : RootManifest :=
  ⟨baseUrl, packageNames⟩

/-! ## The document of a package -/

/-- A path under `dist/`: the package and the digits of the digest. -/
def distPath (name : String) (sha : Sha256) : String := name ++ "/" ++ hex32 sha ++ ".zip"

/-- The `dist` block of an entry, under a base without trailing slash. -/
def distBlock (name base : String) (sha : Sha256) (shasum : Option String) : Fields :=
  let dist := Fields.insert (Fields.insert [] "type" (.string "zip")) "url"
    (.string (base ++ "/dist/" ++ distPath name sha))
  match shasum with
  | none => dist
  | some s => Fields.insert dist "shasum" (.string s)

/-- `version_entry`. -/
def versionEntry (name base : String) (r : Catalog.VersionRow) : Fields :=
  let stored : Fields :=
    match r.version.composerJson with
    | .object fields => fields
    | _ => []
  let entry := Fields.insert (Fields.insert (Fields.insert stored "name" (.string name))
    "version" (.string r.version.version)) "version_normalized" (.string r.key.normalizedVersion)
  match r.version.distBlobSha256 with
  | none => entry
  | some sha => Fields.insert entry "dist" (.object (distBlock name base sha r.version.distShasum))

/-- `PackageDocument::flat` of one package: its name and its entries. -/
structure PackageDocument where
  name : String
  entries : List Fields

/-- `render_package`. -/
def renderPackage (name : String) (versions : List Catalog.VersionRow) (baseUrl : String) :
    PackageDocument :=
  ⟨name, versions.map (versionEntry name (trimEndMatches '/' baseUrl))⟩

/-- The dist of an entry whose version has a blob. -/
theorem lookup_dist_versionEntry (name base : String) (r : Catalog.VersionRow) {sha : Sha256}
    (h : r.version.distBlobSha256 = some sha) : (versionEntry name base r).lookup "dist"
      = some (.object (distBlock name base sha r.version.distShasum)) := by
  unfold versionEntry
  rw [h]
  exact Fields.lookup_insert _ _ _

/-- The block states the URL and the shasum. -/
theorem lookup_distBlock (name base : String) (sha : Sha256) (shasum : Option String) :
    List.lookup "url" (distBlock name base sha shasum)
        = some (.string (base ++ "/dist/" ++ distPath name sha)) ∧
      List.lookup "shasum" (distBlock name base sha shasum) = shasum.map .string := by
  cases shasum <;> exact ⟨rfl, rfl⟩

/-! ## Reading a dist path -/

/-- How `serve_dist` reads what follows `dist/`: the package and the digest. -/
def parseDistPath (rest : String) : Option (String × Sha256) := do
  let (package, file) ← rsplitOnce '/' rest
  let hex ← stripSuffix ".zip" file
  let sha ← parseHex32 hex
  return (package, sha)

/-- The name of an archive holds no slash. -/
theorem slash_notMem_hex (sha : Sha256) : '/' ∉ (hex32 sha ++ ".zip").toList := by
  have hdigit : ∀ n < 16, hexDigit n ≠ '/' := by decide
  rw [String.toList_append, List.mem_append, hex32, toList_pushHex]
  rintro (hmem | hmem)
  · rw [String.toList_empty, List.nil_append, List.mem_flatMap] at hmem
    obtain ⟨b, -, hb⟩ := hmem
    have hlt := b.toNat_lt
    rcases List.mem_pair.1 hb with heq | heq
    · exact hdigit _ (by omega) heq.symm
    · exact hdigit _ (by omega) heq.symm
  · exact absurd hmem (by decide)

/-- **A dist path reads back** as the package and the digest it was written from. -/
theorem parseDistPath_distPath (name : String) (sha : Sha256) :
    parseDistPath (distPath name sha) = some (name, sha) := by
  have hpath : distPath name sha = name ++ String.singleton '/' ++ (hex32 sha ++ ".zip") := by
    show name ++ "/" ++ hex32 sha ++ ".zip" = _
    rw [String.append_assoc]
    rfl
  unfold parseDistPath
  rw [hpath, rsplitOnce_append name (slash_notMem_hex sha)]
  show (stripSuffix ".zip" (hex32 sha ++ ".zip")).bind _ = _
  rw [stripSuffix_append]
  show (parseHex32 (hex32 sha)).bind _ = _
  rw [parseHex32_hex32]
  rfl

end Sconce
