/-
# Uploaded packages

`archive_targz` unpacks a gzip'd tar, archives its files and links again, and reads the
`composer.json` at its root.  It looks for a `..` in the path of the tar entry, and for
`composer.json` in that path with one `./` off; the entry is made afterwards, with every
backslash a slash and all leading `./`s and slashes off.

`one_tree_iff` says when an accepted upload is one tree, with the metadata that ships.
-/
import Sconce.Archives.Paths
import Sconce.Lib.Utf8
import Sconce.Storage.Uploads

namespace Sconce.Archives

open Utf8

/-! ## What the tar reader gives -/

/-- The type of a tar entry. -/
inductive EntryType where
  | regular
  | directory
  | symlink
  /-- A hard link, a device, a fifo. -/
  | other
  deriving DecidableEq

/-- An entry as read: its path and the target of a link are bytes, and a part that cannot be read
is `none`. -/
structure TarEntry where
  entryType : EntryType
  path : Option (List UInt8)
  linkName : Option (Option (List UInt8))
  mode : Option ℕ
  content : Option (List UInt8)

/-- The entries of a body, each `none` where it is corrupt; `none` where the body is no gzip'd
tar. -/
abbrev TarStream := Option (List (Option TarEntry))

/-- What third parties compute. -/
structure TarEnv where
  /-- `tar::Archive::new(GzDecoder::new(input)).entries()`. -/
  entries : List UInt8 → TarStream
  /-- `serde_json::from_slice`. -/
  fromSlice : List UInt8 → Option Json
  sha1Hex : List UInt8 → String

/-- `PrepareError`, as far as an upload in one body meets it before it is stored. -/
inductive PrepareError where
  | bad (message : String)
  | tooLarge
  deriving DecidableEq

/-- `ok_or_else`, `map_err`. -/
def orBad {α : Type} (message : String) : Option α → Except PrepareError α
  | some a => .ok a
  | none => .error (.bad message)

/-! ## Names -/

/-- `raw.components().any(|c| matches!(c, Component::ParentDir))`. -/
def hasParentDir (raw : List UInt8) : Bool := decide ([0x2E, 0x2E] ∈ raw.splitOn 0x2F)

/-- `raw.to_string_lossy().replace('\\', "/")`. -/
def nameOf (raw : List UInt8) : List Char := slashes (fromUtf8Lossy raw)

/-- `rel.strip_prefix("./").unwrap_or(&rel)`. -/
def stripDot : List Char → List Char
  | '.' :: '/' :: rest => rest
  | cs => cs

/-- The name compared with `composer.json`. -/
def relOf (raw : List UInt8) : List Char := stripDot (nameOf raw)

/-! ## Unpacking -/

/-- What the loop of `archive_targz` has so far. -/
structure Unpacking where
  archive : CanonicalArchive
  composerJson : Option Json
  unpacked : ℕ

/-- `mode & 0o111 != 0`. -/
def modeOf (entry : TarEntry) : Mode :=
  if entry.mode.getD 0o644 &&& 0o111 ≠ 0 then .executable else .file

/-- `composer.json`. -/
def composerFile : List Char := "composer.json".toList

/-- The metadata, after a file. -/
def readComposer (env : TarEnv) (rel : List Char) (content : List UInt8)
    (composerJson : Option Json) : Except PrepareError (Option Json) :=
  if rel = composerFile then
    (orBad "composer.json is not valid JSON" (env.fromSlice content)).map some
  else .ok composerJson

/-- A link of the loop of `archive_targz`. -/
def addLink (s : Unpacking) (entry : TarEntry) (rel : List Char) :
    Except PrepareError Unpacking := do
  let link ← orBad "bad symlink in archive" entry.linkName
  let target ← orBad "symlink without a target" link
  let content := asBytes (String.ofList (fromUtf8Lossy target))
  return { s with archive := s.archive.add (.new (String.ofList rel) .symlink content) }

/-- A file of the loop of `archive_targz`. -/
def addFile (env : TarEnv) (cap : ℕ) (s : Unpacking) (entry : TarEntry) (rel : List Char) :
    Except PrepareError Unpacking := do
  let content ← orBad "could not read a tar entry" entry.content
  let unpacked := min (s.unpacked + content.length) (2 ^ 64 - 1)
  if cap < unpacked then throw .tooLarge
  let composerJson ← readComposer env rel content s.composerJson
  return ⟨s.archive.add (.new (String.ofList rel) (modeOf entry) content), composerJson, unpacked⟩

/-- The loop body of `archive_targz`. -/
def unpackEntry (env : TarEnv) (cap : ℕ) (s : Unpacking) (member : Option TarEntry) :
    Except PrepareError Unpacking := do
  let entry ← orBad "corrupt tar entry" member
  let raw ← orBad "tar entry has a non-UTF-8 path" entry.path
  if hasParentDir raw then
    throw (.bad ("illegal path in archive: " ++ String.ofList (fromUtf8Lossy raw)))
  if relOf raw = [] then return s
  match entry.entryType with
  | .directory => return s
  | .symlink => addLink s entry (relOf raw)
  | .regular => addFile env cap s entry (relOf raw)
  | .other => return s

/-- `archive_targz`, up to the archive it writes. -/
def unpackTargz (env : TarEnv) (expectedName : String) (cap : ℕ) (input : List UInt8) :
    Except PrepareError (CanonicalArchive × Json) := do
  let members ← orBad "body is not a valid gzip'd tar" (env.entries input)
  let s ← members.foldlM (unpackEntry env cap) ⟨⟨[]⟩, none, 0⟩
  let composerJson ← orBad "archive has no composer.json at its root" s.composerJson
  let name ← orBad "composer.json has no \"name\" field" ((composerJson.get "name").bind Json.asStr)
  if name ≠ expectedName then
    throw (.bad ("composer.json name \"" ++ name ++ "\" does not match the upload path \"" ++
      expectedName ++ "\""))
  if s.archive.entries = [] then throw (.bad "archive is empty")
  return (s.archive, composerJson)

/-- `archive_targz`, up to its put: `none` where the writer ends the task. -/
def archiveTargz (env : TarEnv) (expectedName : String) (cap : ℕ) (input : List UInt8) :
    Except PrepareError (Option ArchivedUpload) := do
  let (archive, composerJson) ← unpackTargz env expectedName cap input
  return archive.intoZip.map fun zip => ⟨zip, composerJson, env.sha1Hex zip⟩

/-! ## What a stream lists -/

/-- The name of a file or a link, its backslashes slashes; none where the entry is skipped. -/
def memberName (entry : TarEntry) : Option (List Char) :=
  entry.path.bind fun raw =>
    if relOf raw ≠ [] ∧ (entry.entryType = .regular ∨ entry.entryType = .symlink) then
      some (nameOf raw)
    else none

/-- The path, canonical mode and content of a file or a link. -/
def listed (entry : TarEntry) : Option Entry :=
  (memberName entry).bind fun name =>
    if entry.entryType = .regular then
      entry.content.map (.new (String.ofList name) (modeOf entry))
    else (entry.linkName.bind id).map fun target =>
      .new (String.ofList name) .symlink (asBytes (String.ofList (fromUtf8Lossy target)))

/-- The content of a file that is read as the metadata. -/
def composerBytes (entry : TarEntry) : Option (List UInt8) :=
  entry.path.bind fun raw =>
    if relOf raw = composerFile ∧ entry.entryType = .regular then entry.content else none

/-- The names of the files and links of a stream. -/
def memberNames (stream : TarStream) : List (List Char) :=
  (stream.getD []).filterMap fun member => member.bind memberName

/-- The paths, canonical modes and contents a stream lists. -/
def listing (stream : TarStream) : List Entry :=
  (stream.getD []).filterMap fun member => member.bind listed

/-- The bytes parsed into the metadata that is kept: those read last. -/
def parsedBytes (stream : TarStream) : Option (List UInt8) :=
  ((stream.getD []).filterMap fun member => member.bind composerBytes).getLast?

/-! ## What an accepted entry adds -/

theorem eq_some_of_orBad {α : Type} {message : String} {o : Option α} {a : α}
    (h : orBad message o = .ok a) : o = some a := by
  cases o with
  | none => cases h
  | some b => exact congrArg some (Except.ok.inj h)

/-- The check finds a `..` between the slashes of the path, and only there. -/
theorem hasParentDir_eq_true_iff (raw : List UInt8) :
    hasParentDir raw = true ↔ ['.', '.'] ∈ (fromUtf8Lossy raw).splitOn '/' := by
  have hascii : ∀ c ∈ ['.', '.'], 0 < c.toNat ∧ c.toNat < 0x80 := by
    intro c hc
    obtain rfl : c = '.' := by simpa using hc
    decide
  have hdots : ∀ piece : List UInt8, fromUtf8Lossy piece = ['.', '.'] ↔ piece = [0x2E, 0x2E] :=
    fun piece => fromUtf8Lossy_eq_iff hascii
  have hpieces := @splitOn_fromUtf8Lossy '/' (by decide) (by decide) 0x2F (by decide) raw
  rw [hpieces, List.mem_map, hasParentDir, decide_eq_true_eq]
  simp only [hdots, exists_eq_right]

/-- **What the check misses**: a `..` that it lets through is next to a backslash. -/
theorem backslash_of_climbs {raw : List UInt8} (hdir : hasParentDir raw = false)
    (h : ['.', '.'] ∈ (nameOf raw).splitOn '/') : (0x5C : UInt8) ∈ raw := by
  by_contra hnone
  have hplain : '\\' ∉ fromUtf8Lossy raw := fun hmem =>
    hnone ((mem_fromUtf8Lossy_iff (by decide) (by decide) (by decide)).1 hmem)
  have hname : nameOf raw = fromUtf8Lossy raw := by
    have hkept : ∀ c ∈ fromUtf8Lossy raw, (if c = '\\' then '/' else c) = c := by
      intro c hc
      have hne : c ≠ '\\' := by
        rintro rfl
        exact hplain hc
      exact if_neg hne
    unfold nameOf slashes
    rw [List.map_congr_left hkept, List.map_id']
  rw [hname, ← hasParentDir_eq_true_iff, hdir] at h
  exact absurd h (by decide)

/-- The `./` taken off first would come off anyway. -/
theorem trimDots_stripDot (name : List Char) : trimDots (stripDot name) = trimDots name := by
  unfold stripDot
  split
  · rfl
  · rfl

/-- The one `./` taken off first makes no difference to the path. -/
theorem new_relOf (raw : List UInt8) (mode : Mode) (content : List UInt8) :
    Entry.new (String.ofList (relOf raw)) mode content
      = Entry.new (String.ofList (nameOf raw)) mode content := by
  have hrel : slashes (relOf raw) = relOf raw := by
    unfold relOf stripDot nameOf
    split
    next rest h =>
      have hslashes := slashes_slashes (fromUtf8Lossy raw)
      rw [h] at hslashes
      exact (List.cons.inj (List.cons.inj hslashes).2).2
    next => exact slashes_slashes _
  have hname : slashes (nameOf raw) = nameOf raw := slashes_slashes _
  unfold Entry.new
  rw [String.toList_ofList, String.toList_ofList, hrel, hname, relOf, trimDots_stripDot]

/-- How the metadata goes on: as it was, or parsed from the file. -/
def ReadOn (env : TarEnv) (s s' : Unpacking) (entry : TarEntry) : Prop :=
  match composerBytes entry with
  | none => s'.composerJson = s.composerJson
  | some content => ∃ json, env.fromSlice content = some json ∧ s'.composerJson = some json

/-- **What an accepted entry adds**: what it lists, and the metadata it holds. -/
structure Adds (env : TarEnv) (s s' : Unpacking) (entry : TarEntry) : Prop where
  raw : ∃ raw, entry.path = some raw ∧ hasParentDir raw = false
  entries : s'.archive.entries = s.archive.entries ++ (listed entry).toList
  paths : (listed entry).map (fun e => e.path.toList) = (memberName entry).map entryPath
  metadata : ReadOn env s s' entry

section Accepted

variable {env : TarEnv} {cap : ℕ} {s s' : Unpacking} {entry : TarEntry}

/-- An entry that is skipped adds nothing. -/
theorem adds_nothing {raw : List UInt8} (hraw : entry.path = some raw)
    (hdir : hasParentDir raw = false) (hname : memberName entry = none)
    (hcomposer : composerBytes entry = none) : Adds env s s entry := by
  have hlisted : listed entry = none := by
    unfold listed
    rw [hname]
    rfl
  refine ⟨⟨raw, hraw, hdir⟩, ?_, ?_, ?_⟩
  · rw [hlisted]
    exact (List.append_nil _).symm
  · rw [hlisted, hname]
    rfl
  · unfold ReadOn
    rw [hcomposer]

theorem addLink_adds {raw : List UInt8} (hraw : entry.path = some raw)
    (hdir : hasParentDir raw = false) (hrel : relOf raw ≠ []) (htype : entry.entryType = .symlink)
    (h : addLink s entry (relOf raw) = .ok s') : Adds env s s' entry := by
  obtain ⟨link, hlink, h⟩ := Except.ok_of_bind h
  obtain ⟨target, htarget, h⟩ := Except.ok_of_bind h
  obtain rfl := Except.ok.inj h
  have hname : memberName entry = some (nameOf raw) := by
    rw [memberName, hraw]
    exact if_pos ⟨hrel, .inr htype⟩
  have hcomposer : composerBytes entry = none := by
    rw [composerBytes, hraw]
    exact if_neg fun hfile => absurd (htype.symm.trans hfile.2) (by decide)
  have hlisted : listed entry = some (.new (String.ofList (nameOf raw)) .symlink
      (asBytes (String.ofList (fromUtf8Lossy target)))) := by
    rw [listed, hname, eq_some_of_orBad hlink, Option.bind_some, htype, if_neg (by decide),
      eq_some_of_orBad htarget]
    rfl
  refine ⟨⟨raw, hraw, hdir⟩, ?_, ?_, ?_⟩
  · rw [hlisted, ← new_relOf]
    rfl
  · rw [hlisted, hname, Option.map_some, Option.map_some, toList_entryNew, String.toList_ofList,
      nameOf, slashes_slashes]
  · unfold ReadOn
    rw [hcomposer]

/-- A file adds its path and its content, and is read as the metadata where it is named so. -/
theorem addFile_adds {raw : List UInt8} (hraw : entry.path = some raw)
    (hdir : hasParentDir raw = false) (hrel : relOf raw ≠ []) (htype : entry.entryType = .regular)
    (h : addFile env cap s entry (relOf raw) = .ok s') : Adds env s s' entry := by
  obtain ⟨content, hread, h⟩ := Except.ok_of_bind h
  have hcontent := eq_some_of_orBad hread
  dsimp only at h
  by_cases hcap : cap < min (s.unpacked + content.length) (2 ^ 64 - 1)
  · rw [if_pos hcap] at h
    cases h
  rw [if_neg hcap] at h
  obtain ⟨composerJson, hcomposer, h⟩ := Except.ok_of_bind h
  obtain rfl := Except.ok.inj h
  -- a regular file under the limit: it is named, listed and perhaps the manifest
  have hname : memberName entry = some (nameOf raw) := by
    rw [memberName, hraw]
    exact if_pos ⟨hrel, .inl htype⟩
  have hlisted : listed entry
      = some (.new (String.ofList (nameOf raw)) (modeOf entry) content) := by
    rw [listed, hname, Option.bind_some, htype, if_pos rfl, hcontent]
    rfl
  refine ⟨⟨raw, hraw, hdir⟩, ?_, ?_, ?_⟩
  · rw [hlisted, ← new_relOf]
    rfl
  · rw [hlisted, hname, Option.map_some, Option.map_some, toList_entryNew, String.toList_ofList,
      nameOf, slashes_slashes]
  · unfold ReadOn composerBytes
    rw [hraw, Option.bind_some, hcontent]
    -- only composer.json is read
    by_cases hfile : relOf raw = composerFile
    · rw [if_pos ⟨hfile, htype⟩]
      rw [readComposer, if_pos hfile] at hcomposer
      cases hjson : env.fromSlice content with
      | none =>
        rw [hjson] at hcomposer
        cases hcomposer
      | some json =>
        rw [hjson] at hcomposer
        exact ⟨json, hjson, (Except.ok.inj hcomposer).symm⟩
    · rw [if_neg fun h => hfile h.1]
      rw [readComposer, if_neg hfile] at hcomposer
      exact (Except.ok.inj hcomposer).symm

/-- **One entry**: it is read, has no parent in its path, and adds what it lists. -/
theorem unpackEntry_adds {member : Option TarEntry} (h : unpackEntry env cap s member = .ok s') :
    ∃ entry, member = some entry ∧ Adds env s s' entry := by
  unfold unpackEntry at h
  obtain ⟨entry, hmember, h⟩ := Except.ok_of_bind h
  obtain ⟨raw, hpath, h⟩ := Except.ok_of_bind h
  have hraw := eq_some_of_orBad hpath
  refine ⟨entry, eq_some_of_orBad hmember, ?_⟩
  cases hdir : hasParentDir raw with
  | true =>
    rw [hdir] at h
    cases h
  | false =>
    rw [hdir] at h
    dsimp only at h
    rw [if_neg Bool.false_ne_true] at h
    -- `./` itself is skipped
    by_cases hrel : relOf raw = []
    · rw [if_pos hrel] at h
      obtain rfl := Except.ok.inj h
      refine adds_nothing hraw hdir ?_ ?_
      · rw [memberName, hraw]
        exact if_neg fun hmem => hmem.1 hrel
      · rw [composerBytes, hraw, Option.bind_some, hrel]
        exact if_neg fun hfile => absurd hfile.1 (by decide)
    · rw [if_neg hrel] at h
      cases htype : entry.entryType with
      | directory =>
        rw [htype] at h
        obtain rfl := Except.ok.inj h
        refine adds_nothing hraw hdir ?_ ?_
        · rw [memberName, hraw, Option.bind_some, htype]
          exact if_neg fun hmem => absurd hmem.2 (by decide)
        · rw [composerBytes, hraw, Option.bind_some, htype]
          exact if_neg fun hfile => absurd hfile.2 (by decide)
      | symlink =>
        rw [htype] at h
        exact addLink_adds hraw hdir hrel htype h
      | regular =>
        rw [htype] at h
        exact addFile_adds hraw hdir hrel htype h
      | other =>
        rw [htype] at h
        obtain rfl := Except.ok.inj h
        refine adds_nothing hraw hdir ?_ ?_
        · rw [memberName, hraw, Option.bind_some, htype]
          exact if_neg fun hmem => absurd hmem.2 (by decide)
        · rw [composerBytes, hraw, Option.bind_some, htype]
          exact if_neg fun hfile => absurd hfile.2 (by decide)

/-! ## What an accepted stream makes -/

/-- What the first element gives, and then the rest. -/
theorem filterMap_cons_toList {α β : Type} (f : α → Option β) (a : α) (l : List α) :
    (a :: l).filterMap f = (f a).toList ++ l.filterMap f := by
  rw [List.filterMap_cons]
  cases f a <;> rfl

/-- **The whole stream** adds what it lists, in its order. -/
theorem foldlM_entries {members : List (Option TarEntry)}
    (h : members.foldlM (unpackEntry env cap) s = .ok s') :
    s'.archive.entries = s.archive.entries ++ listing (some members) := by
  induction members generalizing s with
  | nil =>
    obtain rfl := Except.ok.inj h
    exact (List.append_nil _).symm
  | cons member members ih =>
    rw [List.foldlM_cons] at h
    obtain ⟨s₁, hstep, hrest⟩ := Except.ok_of_bind h
    obtain ⟨entry, rfl, hadds⟩ := unpackEntry_adds hstep
    have hlisting : listing (some (some entry :: members))
        = (listed entry).toList ++ listing (some members) := filterMap_cons_toList _ _ _
    rw [ih hrest, hadds.entries, hlisting, List.append_assoc]

/-- The paths listed are what is left of the names. -/
theorem foldlM_paths {members : List (Option TarEntry)}
    (h : members.foldlM (unpackEntry env cap) s = .ok s') :
    (listing (some members)).map (fun e => e.path.toList)
      = (memberNames (some members)).map entryPath := by
  induction members generalizing s with
  | nil => rfl
  | cons member members ih =>
    rw [List.foldlM_cons] at h
    obtain ⟨s₁, hstep, hrest⟩ := Except.ok_of_bind h
    obtain ⟨entry, rfl, hadds⟩ := unpackEntry_adds hstep
    have hlisting : listing (some (some entry :: members))
        = (listed entry).toList ++ listing (some members) := filterMap_cons_toList _ _ _
    have hnames : memberNames (some (some entry :: members))
        = (memberName entry).toList ++ memberNames (some members) := filterMap_cons_toList _ _ _
    rw [hlisting, hnames, List.map_append, List.map_append, ih hrest, ← Option.toList_map,
      ← Option.toList_map, hadds.paths]

/-- Every member was read, and its path passed the check. -/
theorem foldlM_members {members : List (Option TarEntry)}
    (h : members.foldlM (unpackEntry env cap) s = .ok s') {entry : TarEntry}
    (hentry : some entry ∈ members) : ∃ raw, entry.path = some raw ∧ hasParentDir raw = false := by
  induction members generalizing s with
  | nil => cases hentry
  | cons member members ih =>
    rw [List.foldlM_cons] at h
    obtain ⟨s₁, hstep, hrest⟩ := Except.ok_of_bind h
    obtain ⟨read, rfl, hadds⟩ := unpackEntry_adds hstep
    rcases List.mem_cons.1 hentry with hfirst | hrestmem
    · obtain rfl := Option.some.inj hfirst
      exact hadds.raw
    · exact ih hrest hrestmem

/-- The metadata is parsed from the last file that is read as such, if any is. -/
theorem foldlM_metadata {members : List (Option TarEntry)}
    (h : members.foldlM (unpackEntry env cap) s = .ok s') {json : Json}
    (hjson : s'.composerJson = some json) :
    (∃ bytes, parsedBytes (some members) = some bytes ∧ env.fromSlice bytes = some json) ∨
      parsedBytes (some members) = none ∧ s.composerJson = some json := by
  induction members generalizing s with
  | nil =>
    obtain rfl := Except.ok.inj h
    exact .inr ⟨rfl, hjson⟩
  | cons member members ih =>
    rw [List.foldlM_cons] at h
    obtain ⟨s₁, hstep, hrest⟩ := Except.ok_of_bind h
    obtain ⟨entry, rfl, hadds⟩ := unpackEntry_adds hstep
    have hparsed : parsedBytes (some (some entry :: members))
        = (parsedBytes (some members)).or (composerBytes entry) := by
      unfold parsedBytes
      dsimp only [Option.getD_some]
      rw [filterMap_cons_toList, List.getLast?_append]
      cases hbytes : composerBytes entry <;> simp [hbytes]
    have hmetadata := hadds.metadata
    unfold ReadOn at hmetadata
    rw [hparsed]
    rcases ih hrest with ⟨bytes, hlast, hslice⟩ | ⟨hnone, hfirst⟩
    · exact .inl ⟨bytes, by rw [hlast]; rfl, hslice⟩
    · rw [hnone, Option.none_or]
      cases hbytes : composerBytes entry with
      | none =>
        rw [hbytes] at hmetadata
        exact .inr ⟨rfl, hmetadata ▸ hfirst⟩
      | some content =>
        rw [hbytes] at hmetadata
        obtain ⟨json', hslice, hjson'⟩ := hmetadata
        rw [hjson'] at hfirst
        exact .inl ⟨content, rfl, Option.some.inj hfirst ▸ hslice⟩

/-- What is unpacked from an upload. -/
structure Unpacks (env : TarEnv) (expectedName : String) (input : List UInt8)
    (archive : CanonicalArchive) (composerJson : Json) : Prop where
  entries : archive.entries = listing (env.entries input)
  paths : archive.entries.map (fun e => e.path.toList)
    = (memberNames (env.entries input)).map entryPath
  metadata : ∃ bytes, parsedBytes (env.entries input) = some bytes ∧
    env.fromSlice bytes = some composerJson
  name : (composerJson.get "name").bind Json.asStr = some expectedName

/-- An accepted upload is unpacked as its stream lists it. -/
theorem unpackTargz_unpacks {expectedName : String} {input : List UInt8}
    {archive : CanonicalArchive} {composerJson : Json}
    (h : unpackTargz env expectedName cap input = .ok (archive, composerJson)) :
    Unpacks env expectedName input archive composerJson := by
  obtain ⟨members, hmembers, h⟩ := Except.ok_of_bind h
  obtain ⟨s, hrun, h⟩ := Except.ok_of_bind h
  obtain ⟨json, hjson, h⟩ := Except.ok_of_bind h
  obtain ⟨name, hname, h⟩ := Except.ok_of_bind h
  dsimp only at h
  by_cases hne : name ≠ expectedName
  · rw [if_pos hne] at h
    cases h
  rw [if_neg hne] at h
  by_cases hempty : s.archive.entries = []
  · rw [if_pos hempty] at h
    cases h
  rw [if_neg hempty] at h
  cases Except.ok.inj h
  have hstream := eq_some_of_orBad hmembers
  have hentries := foldlM_entries hrun
  rw [List.nil_append] at hentries
  refine ⟨by rw [hstream, hentries], ?_, ?_, ?_⟩
  · rw [hstream, hentries]
    exact foldlM_paths hrun
  · rw [hstream]
    rcases foldlM_metadata hrun (eq_some_of_orBad hjson) with h | ⟨-, h⟩
    · exact h
    · cases h
  · rw [eq_some_of_orBad hname, not_not.1 hne]

/-- Every member of an upload that is unpacked has a path that passed the check. -/
theorem unpackTargz_members {expectedName : String} {input : List UInt8}
    {archive : CanonicalArchive} {composerJson : Json}
    (h : unpackTargz env expectedName cap input = .ok (archive, composerJson))
    (hentry : some entry ∈ (env.entries input).getD []) :
    ∃ raw, entry.path = some raw ∧ hasParentDir raw = false := by
  obtain ⟨members, hmembers, h⟩ := Except.ok_of_bind h
  obtain ⟨s, hrun, -⟩ := Except.ok_of_bind h
  rw [eq_some_of_orBad hmembers] at hentry
  exact foldlM_members hrun hentry

/-- A name comes from the path of a member. -/
theorem member_of_mem_memberNames {stream : TarStream} {name : List Char}
    (h : name ∈ memberNames stream) : ∃ entry raw,
      some entry ∈ stream.getD [] ∧ entry.path = some raw ∧ name = nameOf raw := by
  obtain ⟨member, hmember, hread⟩ := List.mem_filterMap.1 h
  obtain ⟨entry, rfl, hnamed⟩ := Option.bind_eq_some_iff.1 hread
  obtain ⟨raw, hraw, hname⟩ := Option.bind_eq_some_iff.1 hnamed
  refine ⟨entry, raw, hmember, hraw, ?_⟩
  split at hname
  · exact (Option.some.inj hname).symm
  · cases hname

/-- The metadata ships under its own name. -/
theorem composerFile_path (mode : Mode) (content : List UInt8) :
    (Entry.new (String.ofList composerFile) mode content).path = "composer.json" := by
  have hpath : entryPath (slashes composerFile) = composerFile := by decide
  rw [← String.toList_inj, toList_entryNew, String.toList_ofList, hpath]
  rfl

/-- A file read as the metadata is listed as `composer.json`. -/
theorem listed_of_composerBytes {content : List UInt8} (h : composerBytes entry = some content) :
    ∃ e, listed entry = some e ∧ e.path = "composer.json" ∧ e.content = content := by
  unfold composerBytes at h
  obtain ⟨raw, hraw, h⟩ := Option.bind_eq_some_iff.1 h
  by_cases hfile : relOf raw = composerFile ∧ entry.entryType = .regular
  · rw [if_pos hfile] at h
    have hname : memberName entry = some (nameOf raw) := by
      rw [memberName, hraw, Option.bind_some, if_pos ⟨by rw [hfile.1]; decide, .inl hfile.2⟩]
    refine ⟨.new (String.ofList (relOf raw)) (modeOf entry) content, ?_, ?_, rfl⟩
    · rw [listed, hname, Option.bind_some, if_pos hfile.2, h, new_relOf]
      rfl
    · rw [hfile.1]
      exact composerFile_path _ _
  · rw [if_neg hfile] at h
    cases h

/-- The bytes that were parsed ship, under the name of the metadata. -/
theorem mem_listing_of_parsedBytes {stream : TarStream} {bytes : List UInt8}
    (h : parsedBytes stream = some bytes) :
    ∃ e ∈ listing stream, e.path = "composer.json" ∧ e.content = bytes := by
  obtain ⟨member, hmember, hbytes⟩ := List.mem_filterMap.1 (List.mem_of_getLast? h)
  obtain ⟨entry, rfl, hcomposer⟩ := Option.bind_eq_some_iff.1 hbytes
  obtain ⟨e, he, hpath, hcontent⟩ := listed_of_composerBytes hcomposer
  exact ⟨e, List.mem_filterMap.2 ⟨_, hmember, he⟩, hpath, hcontent⟩

/-! ## One tree, whose metadata is what ships -/

/-- An accepted upload is one tree: no two entries have one path, the metadata kept is that of the
`composer.json` in it, and every accepted upload that lists the same gives the same file. -/
structure OneTree (env : TarEnv) (expectedName : String) (input : List UInt8)
    (archive : CanonicalArchive) (upload : ArchivedUpload) : Prop where
  distinct : archive.Distinct
  metadata : ∃ e ∈ archive.entries, e.path = "composer.json" ∧
    env.fromSlice e.content = some upload.composerJson
  shipped : ∀ e ∈ archive.entries, e.path = "composer.json" →
    parsedBytes (env.entries input) = some e.content
  name : (upload.composerJson.get "name").bind Json.asStr = some expectedName
  determined : ∀ expectedName' cap' input' upload',
    archiveTargz env expectedName' cap' input' = .ok (some upload') →
    (listing (env.entries input')).Perm (listing (env.entries input)) → upload'.zip = upload.zip

/-- An upload that is archived was unpacked, and its archive written. -/
theorem archiveTargz_ok {expectedName : String} {input : List UInt8} {upload : ArchivedUpload}
    (h : archiveTargz env expectedName cap input = .ok (some upload)) :
    ∃ archive, unpackTargz env expectedName cap input = .ok (archive, upload.composerJson) ∧
      archive.intoZip = some upload.zip := by
  obtain ⟨⟨archive, composerJson⟩, hunpack, h⟩ := Except.ok_of_bind h
  obtain ⟨zip, hzip, rfl⟩ := Option.map_eq_some_iff.1 (Except.ok.inj h)
  exact ⟨archive, hunpack, hzip⟩

/-- The entries are distinct where the paths left of the names are. -/
theorem distinct_iff {expectedName : String} {input : List UInt8} {archive : CanonicalArchive}
    {composerJson : Json} (h : Unpacks env expectedName input archive composerJson) :
    archive.Distinct ↔ ((memberNames (env.entries input)).map entryPath).Nodup := by
  have hpaths : archive.entries.map (fun e => e.path.toList)
      = (archive.entries.map Entry.path).map String.toList := by rw [List.map_map]; rfl
  unfold CanonicalArchive.Distinct
  rw [← h.paths, hpaths, List.nodup_map_iff fun a b hab => String.toList_inj.1 hab]

/-- An archive that fits the format is written, and the upload accepted. -/
theorem archiveTargz_of_fits {expectedName : String} {input : List UInt8}
    {archive : CanonicalArchive} {composerJson : Json}
    (h : unpackTargz env expectedName cap input = .ok (archive, composerJson))
    (hfits : Fits archive.entries) :
    archiveTargz env expectedName cap input = .ok (some
      ⟨fileOf archive.sorted, composerJson, env.sha1Hex (fileOf archive.sorted)⟩) := by
  unfold archiveTargz
  rw [h]
  show Except.ok (archive.intoZip.map _) = _
  rw [intoZip_of_fits (hfits.perm (sorted_perm archive).symm)]
  rfl

/-- **When an accepted upload is one tree**: exactly when no two names of its files and links come
to one path. -/
theorem one_tree_iff {expectedName : String} {input : List UInt8} {archive : CanonicalArchive}
    {upload : ArchivedUpload}
    (hupload : archiveTargz env expectedName cap input = .ok (some upload))
    (harchive : unpackTargz env expectedName cap input = .ok (archive, upload.composerJson)) :
    OneTree env expectedName input archive upload ↔
      ((memberNames (env.entries input)).map entryPath).Nodup := by
  have hunpacks := unpackTargz_unpacks harchive
  rw [← distinct_iff hunpacks]
  constructor
  · exact OneTree.distinct
  · intro hdistinct
    obtain ⟨bytes, hparsed, hslice⟩ := hunpacks.metadata
    obtain ⟨e, he, hpath, hcontent⟩ := mem_listing_of_parsedBytes hparsed
    rw [← hunpacks.entries] at he
    refine ⟨hdistinct, ⟨e, he, hpath, hcontent ▸ hslice⟩, ?_, hunpacks.name, ?_⟩
    · intro e' he' hpath'
      rw [List.inj_on_of_nodup_map hdistinct he' he (hpath'.trans hpath.symm), hparsed, hcontent]
    · intro expectedName' cap' input' upload' hupload' hperm
      obtain ⟨archive', hunpack', hzip'⟩ := archiveTargz_ok hupload'
      obtain ⟨archive'', hunpack'', hzip⟩ := archiveTargz_ok hupload
      obtain rfl : archive'' = archive := congrArg Prod.fst (Except.ok.inj (hunpack''.symm.trans harchive))
      rw [← (unpackTargz_unpacks hunpack').entries, ← hunpacks.entries] at hperm
      have hsorted := sorted_eq_of_perm hdistinct hperm.symm
      unfold CanonicalArchive.intoZip at hzip hzip'
      rw [hsorted, hzip'] at hzip
      exact Option.some.inj hzip

end Accepted

/-! ## Two members with one path -/

namespace Push

/-- A package file with its content. -/
def file (path : String) (content : List UInt8) : TarEntry :=
  ⟨.regular, some (asBytes path), some none, some 0o644, some content⟩

def manifest : List UInt8 := asBytes "\x7b\"name\":\"acme/tool\"\x7d"

/-- A reader of one upload, and of its one manifest. -/
def env (members : List TarEntry) : TarEnv where
  entries _ := some (members.map some)
  fromSlice bytes :=
    if bytes = manifest then some (.object [("name", .string "acme/tool")]) else none
  sha1Hex _ := "c2b0d4ba7c7c2ae6b0b8b2d7f0e6a0a0c1d2e3f4"

/-- A package, and a second `composer.json` under another spelling. -/
def aliased : List TarEntry := [file "composer.json" manifest, file "././composer.json" [0x5B, 0x5D]]

/-- What is unpacked of them. -/
def aliasedArchive : CanonicalArchive :=
  ⟨[⟨"composer.json", .file, manifest⟩, ⟨"composer.json", .file, [0x5B, 0x5D]⟩]⟩

/-- The upload with two manifests is unpacked. -/
theorem unpackTargz_aliased : unpackTargz (env aliased) "acme/tool" (2 ^ 30) []
    = .ok (aliasedArchive, .object [("name", .string "acme/tool")]) := rfl

theorem fits_aliased : Fits aliasedArchive.entries := by decide +kernel

/-- **The second `composer.json` ships too**: the upload is accepted with two entries of one path,
one of which is not the metadata kept. -/
theorem aliased_not_one_tree : ¬ ∀ env expectedName cap input archive upload,
    archiveTargz env expectedName cap input = .ok (some upload) →
      unpackTargz env expectedName cap input = .ok (archive, upload.composerJson) →
        OneTree env expectedName input archive upload := by
  intro h
  have htree := h _ _ _ _ _ _ (archiveTargz_of_fits unpackTargz_aliased fits_aliased)
    unpackTargz_aliased
  have hdistinct := htree.distinct
  unfold CanonicalArchive.Distinct at hdistinct
  exact absurd hdistinct (by decide)

/-- A package of two files. -/
def plain : List TarEntry := [file "./src/Foo.php" [0x68, 0x69], file "./composer.json" manifest]

def plainArchive : CanonicalArchive :=
  ⟨[⟨"src/Foo.php", .file, [0x68, 0x69]⟩, ⟨"composer.json", .file, manifest⟩]⟩

theorem fits_plain : Fits plainArchive.entries := by decide +kernel

theorem unpackTargz_plain : unpackTargz (env plain) "acme/tool" (2 ^ 30) []
    = .ok (plainArchive, .object [("name", .string "acme/tool")]) := rfl

/-- The package of two files is one tree. -/
theorem one_tree_plain : ∃ upload,
    archiveTargz (env plain) "acme/tool" (2 ^ 30) [] = .ok (some upload) ∧
      OneTree (env plain) "acme/tool" [] plainArchive upload := by
  have haccepted := archiveTargz_of_fits unpackTargz_plain fits_plain
  exact ⟨_, haccepted, (one_tree_iff haccepted unpackTargz_plain).2 (by decide)⟩

end Push

end Sconce.Archives
