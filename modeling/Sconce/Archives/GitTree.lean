/-
# Packages from git

`archive_subtree` archives the blobs and links of a tree, less what is marked `export-ignore`,
under their paths in it.  It checks no path: what `Entry::new` leaves of one is the path of the
entry.

`archives_stay_inside_iff` says when the entries of a package, uploaded or from git, stay inside
it.
-/
import Sconce.Archives.Tarball

namespace Sconce.Archives

/-! ## What git answers -/

/-- The hash of an object. -/
abbrev ObjectId := List UInt8

/-- The kind of an entry of a tree. -/
inductive EntryKind where
  | tree
  | blob
  | blobExecutable
  | link
  | commit
  deriving DecidableEq

/-- An entry met on the walk over a tree, with its full path. -/
structure TreeRecord where
  filepath : List UInt8
  mode : EntryKind
  oid : ObjectId

/-- `Error`, as far as archiving a tree meets it. -/
inductive GitError where
  | «open»
  | revParse (refspec : String)
  | peelToTree (refspec : String)
  | traverse
  | attributes
  | findObject (oid : ObjectId)
  | nonUtf8Path (path : String)
  | subtreeNotFound (refspec subpath : String)
  deriving DecidableEq

/-- What is read from a repository. -/
structure GitRepo where
  /-- `rev_parse_single`, peeled to a tree. -/
  peelToTree : String → Except GitError ObjectId
  /-- `lookup_entry_by_path`, peeled to a tree. -/
  lookupEntryByPath : ObjectId → String → Except GitError (Option ObjectId)
  /-- `index_from_tree` and `attributes_only`. -/
  attributesOnly : ObjectId → Except GitError Unit
  /-- `tree.traverse().breadthfirst`. -/
  breadthfirst : ObjectId → Except GitError (List TreeRecord)
  exportIgnored : ObjectId → List UInt8 → EntryKind → Except GitError Bool
  findObject : ObjectId → Except GitError (List UInt8)

/-! ## Archiving -/

/-- `subpath.trim_matches('/')`. -/
def trimMatches (subpath : String) : String :=
  .ofList ((subpath.toList.dropWhile (· = '/')).rdropWhile (· = '/'))

/-- The tree that `archive_subtree` archives. -/
def subtree (repo : GitRepo) (refspec subpath : String) : Except GitError ObjectId := do
  let root ← repo.peelToTree refspec
  if trimMatches subpath = "" then return root
  match ← repo.lookupEntryByPath root (trimMatches subpath) with
  | none => throw (.subtreeNotFound refspec (trimMatches subpath))
  | some tree => return tree

/-- The mode a kind of entry is archived with, if it is. -/
def EntryKind.archived : EntryKind → Option Mode
  | .blob => some .file
  | .blobExecutable => some .executable
  | .link => some .symlink
  | .tree => none
  | .commit => none

/-- `has_ignored_ancestor`. -/
def hasIgnoredAncestor (path : List UInt8) (ignored : List (List UInt8)) : Bool :=
  !ignored.isEmpty && (List.range path.length).any fun i =>
    path[i]? == some 0x2F && ignored.contains (path.take i)

/-- `record.filepath.to_str()`. -/
def pathText (record : TreeRecord) : Option String := String.fromUTF8? ⟨record.filepath.toArray⟩

/-- The loop body of `archive_subtree`: the archive, and the directories ignored so far. -/
def archiveRecord (repo : GitRepo) (tree : ObjectId)
    (s : CanonicalArchive × List (List UInt8)) (record : TreeRecord) :
    Except GitError (CanonicalArchive × List (List UInt8)) := do
  let ignored ← repo.exportIgnored tree record.filepath record.mode
  match record.mode.archived with
  | none =>
    if record.mode = .tree ∧ ignored = true then return (s.1, s.2 ++ [record.filepath])
    else return s
  | some mode =>
    if ignored || hasIgnoredAncestor record.filepath s.2 then return s
    match pathText record with
    | none => throw (.nonUtf8Path (.ofList (Utf8.fromUtf8Lossy record.filepath)))
    | some path => do
      let data ← repo.findObject record.oid
      return (s.1.add (.new path mode data), s.2)

/-- `archive_subtree`, on what opening the repository comes to. -/
def archiveSubtree (opened : Except GitError GitRepo) (refspec subpath : String) :
    Except GitError CanonicalArchive := do
  let repo ← opened
  let tree ← subtree repo refspec subpath
  repo.attributesOnly tree
  let records ← repo.breadthfirst tree
  let s ← records.foldlM (archiveRecord repo tree) (⟨[]⟩, [])
  return s.1

/-! ## What a tree lists -/

/-- Marked `export-ignore`. -/
def isIgnored (repo : GitRepo) (tree : ObjectId) (record : TreeRecord) : Bool :=
  match repo.exportIgnored tree record.filepath record.mode with
  | .ok ignored => ignored
  | .error _ => false

/-- The directories marked `export-ignore` among the records. -/
def ignoredDirs (repo : GitRepo) (tree : ObjectId) (records : List TreeRecord) :
    List (List UInt8) :=
  (records.filter fun r => r.mode = .tree && isIgnored repo tree r).map TreeRecord.filepath

/-- The name of a record that is archived, its backslashes slashes, after those met before it. -/
def keptName (repo : GitRepo) (tree : ObjectId) (before : List TreeRecord) (r : TreeRecord) :
    Option (List Char) :=
  if r.mode.archived.isSome ∧ isIgnored repo tree r = false ∧
      hasIgnoredAncestor r.filepath (ignoredDirs repo tree before) = false then
    (pathText r).map fun path => slashes path.toList
  else none

/-- The names of the records that are archived. -/
def keptNames (repo : GitRepo) (tree : ObjectId) :
    List TreeRecord → List TreeRecord → List (List Char)
  | _, [] => []
  | before, r :: rest =>
    (keptName repo tree before r).toList ++ keptNames repo tree (before ++ [r]) rest

section Walk

variable {repo : GitRepo} {tree : ObjectId}

/-- One record more is one ignored directory more, if it is one. -/
theorem ignoredDirs_append (before : List TreeRecord) (r : TreeRecord) :
    ignoredDirs repo tree (before ++ [r]) = ignoredDirs repo tree before ++
      if r.mode = .tree ∧ isIgnored repo tree r = true then [r.filepath] else [] := by
  unfold ignoredDirs
  rw [List.filter_append, List.map_append]
  by_cases h : r.mode = .tree ∧ isIgnored repo tree r = true
  · rw [if_pos h, List.filter_cons_of_pos (by simpa using h)]
    rfl
  · rw [if_neg h, List.filter_cons_of_neg (by simpa using h)]
    rfl

/-- **One record**: its name, if it is archived, and the directory it is, if that is ignored. -/
theorem archiveRecord_adds {s s' : CanonicalArchive × List (List UInt8)}
    {before : List TreeRecord} {r : TreeRecord} (hdirs : s.2 = ignoredDirs repo tree before)
    (h : archiveRecord repo tree s r = .ok s') :
    s'.2 = ignoredDirs repo tree (before ++ [r]) ∧
      s'.1.entries.map (fun e => e.path.toList)
        = s.1.entries.map (fun e => e.path.toList) ++
          ((keptName repo tree before r).toList).map entryPath := by
  obtain ⟨ignored, hignored, h⟩ := Except.ok_of_bind h
  have hisIgnored : isIgnored repo tree r = ignored := by
    unfold isIgnored
    rw [hignored]
  rw [ignoredDirs_append, hisIgnored, ← hdirs]
  cases hmode : r.mode.archived with
  | none =>
    -- neither file nor link: no entry, and a directory may be remembered
    have hname : keptName repo tree before r = none := if_neg fun hk => by
      rw [hmode] at hk
      exact absurd hk.1 (by decide)
    rw [hmode] at h
    dsimp only at h
    rw [hname]
    by_cases hdir : r.mode = .tree ∧ ignored = true
    · rw [if_pos hdir] at h
      obtain rfl := Except.ok.inj h
      exact ⟨by rw [if_pos hdir], (List.append_nil _).symm⟩
    · rw [if_neg hdir] at h
      obtain rfl := Except.ok.inj h
      exact ⟨by rw [if_neg hdir, List.append_nil], (List.append_nil _).symm⟩
  | some mode =>
    have hfile : ¬ (r.mode = .tree ∧ ignored = true) := by
      rintro ⟨htree, -⟩
      rw [htree] at hmode
      cases hmode
    rw [hmode] at h
    dsimp only at h
    rw [if_neg hfile, List.append_nil]
    by_cases hskip : (ignored || hasIgnoredAncestor r.filepath s.2) = true
    · -- not exported itself, or below a directory that is not
      have hname : keptName repo tree before r = none := if_neg fun hk => by
        rw [hisIgnored, ← hdirs] at hk
        rw [hk.2.1, hk.2.2] at hskip
        cases hskip
      rw [if_pos hskip] at h
      obtain rfl := Except.ok.inj h
      rw [hname]
      exact ⟨rfl, (List.append_nil _).symm⟩
    · rw [if_neg hskip] at h
      rw [Bool.or_eq_true, not_or, Bool.not_eq_true, Bool.not_eq_true] at hskip
      have hname : keptName repo tree before r = (pathText r).map fun path => slashes path.toList :=
        if_pos ⟨by rw [hmode]; rfl, hisIgnored.trans hskip.1, hdirs ▸ hskip.2⟩
      cases hpath : pathText r with
      | none =>
        rw [hpath] at h
        cases h
      | some path =>
        rw [hpath] at h
        obtain ⟨data, -, h⟩ := Except.ok_of_bind h
        obtain rfl := Except.ok.inj h
        refine ⟨rfl, ?_⟩
        rw [hname, hpath]
        show (s.1.entries ++ [Entry.new path mode data]).map _ = _
        rw [List.map_append, List.map_cons, toList_entryNew]
        rfl

/-- **The whole walk** archives the names that are kept. -/
theorem foldlM_archiveRecord {s s' : CanonicalArchive × List (List UInt8)}
    {before records : List TreeRecord} (hdirs : s.2 = ignoredDirs repo tree before)
    (h : records.foldlM (archiveRecord repo tree) s = .ok s') :
    s'.1.entries.map (fun e => e.path.toList)
      = s.1.entries.map (fun e => e.path.toList) ++
        (keptNames repo tree before records).map entryPath := by
  induction records generalizing s before with
  | nil =>
    obtain rfl := Except.ok.inj h
    exact (List.append_nil _).symm
  | cons r records ih =>
    rw [List.foldlM_cons] at h
    obtain ⟨s₁, hstep, hrest⟩ := Except.ok_of_bind h
    obtain ⟨hdirs₁, hpaths⟩ := archiveRecord_adds hdirs hstep
    rw [ih hdirs₁ hrest, hpaths, keptNames, List.map_append, List.append_assoc]

/-- The entries of an archived tree have the paths that its kept names leave. -/
theorem archiveSubtree_paths {refspec subpath : String} {records : List TreeRecord}
    {archive : CanonicalArchive} (htree : subtree repo refspec subpath = .ok tree)
    (hrecords : repo.breadthfirst tree = .ok records)
    (h : archiveSubtree (.ok repo) refspec subpath = .ok archive) :
    archive.entries.map (fun e => e.path.toList)
      = (keptNames repo tree [] records).map entryPath := by
  obtain ⟨repo', hrepo, h⟩ := Except.ok_of_bind h
  obtain rfl := Except.ok.inj hrepo
  obtain ⟨tree', htree', h⟩ := Except.ok_of_bind h
  obtain rfl := Except.ok.inj (htree.symm.trans htree')
  obtain ⟨-, -, h⟩ := Except.ok_of_bind h
  obtain ⟨records', hrecords', h⟩ := Except.ok_of_bind h
  obtain rfl := Except.ok.inj (hrecords.symm.trans hrecords')
  obtain ⟨s, hrun, h⟩ := Except.ok_of_bind h
  obtain rfl := Except.ok.inj h
  have hpaths := @foldlM_archiveRecord repo tree (⟨[]⟩, []) s [] records rfl hrun
  rwa [List.map_nil, List.nil_append] at hpaths

end Walk

/-! ## Entries that stay inside -/

/-- Entries stay inside exactly where their names do not stray. -/
theorem forall_staysInside_iff {entries : List Entry} {names : List (List Char)}
    (h : entries.map (fun e => e.path.toList) = names.map entryPath) :
    (∀ e ∈ entries, StaysInside e.path.toList) ↔ ∀ name ∈ names, ¬ Strays name := by
  have hentries : (∀ e ∈ entries, StaysInside e.path.toList) ↔
      ∀ path ∈ entries.map (fun e => e.path.toList), StaysInside path := by
    rw [List.forall_mem_map]
  rw [hentries, h, List.forall_mem_map]
  exact forall₂_congr fun name _ => staysInside_iff name

/-- How a package archive is produced, and the names of the files and links in it: by an upload that
is accepted, or by archiving a tree of a repository. -/
inductive Produced : CanonicalArchive → List (List Char) → Prop
  | upload {env : TarEnv} {expectedName : String} {cap : ℕ} {input : List UInt8}
      {archive : CanonicalArchive} {upload : ArchivedUpload}
      (hupload : archiveTargz env expectedName cap input = .ok (some upload))
      (harchive : unpackTargz env expectedName cap input = .ok (archive, upload.composerJson)) :
      Produced archive (memberNames (env.entries input))
  | git {repo : GitRepo} {refspec subpath : String} {tree : ObjectId} {records : List TreeRecord}
      {archive : CanonicalArchive} (htree : subtree repo refspec subpath = .ok tree)
      (hrecords : repo.breadthfirst tree = .ok records)
      (harchive : archiveSubtree (.ok repo) refspec subpath = .ok archive) :
      Produced archive (keptNames repo tree [] records)

/-- **When no entry escapes**: the entries of a package archive stay inside exactly when no name
of a file or link in it strays. -/
theorem archives_stay_inside_iff {archive : CanonicalArchive} {names : List (List Char)}
    (h : Produced archive names) :
    (∀ e ∈ archive.entries, StaysInside e.path.toList) ↔ ∀ name ∈ names, ¬ Strays name := by
  cases h with
  | upload _ harchive => exact forall_staysInside_iff (unpackTargz_unpacks harchive).paths
  | git htree hrecords harchive =>
    exact forall_staysInside_iff (archiveSubtree_paths htree hrecords harchive)

/-- **The hole in the check**: an entry of an accepted upload climbs only out of a path with a
backslash in it. -/
theorem upload_climbs_by_backslash {env : TarEnv} {expectedName : String} {cap : ℕ}
    {input : List UInt8} {archive : CanonicalArchive} {composerJson : Json}
    (h : unpackTargz env expectedName cap input = .ok (archive, composerJson)) {e : Entry}
    (hentry : e ∈ archive.entries) (hclimbs : ['.', '.'] ∈ e.path.toList.splitOn '/') :
    ∃ member raw, some member ∈ (env.entries input).getD [] ∧ member.path = some raw ∧
      e.path.toList = entryPath (nameOf raw) ∧ 0x5C ∈ raw := by
  have hpath : e.path.toList ∈ (memberNames (env.entries input)).map entryPath := by
    rw [← (unpackTargz_unpacks h).paths]
    exact List.mem_map_of_mem hentry
  obtain ⟨name, hname, hpath⟩ := List.mem_map.1 hpath
  obtain ⟨member, raw, hmember, hraw, rfl⟩ := member_of_mem_memberNames hname
  obtain ⟨raw', hraw', hdir⟩ := unpackTargz_members h hmember
  obtain rfl := Option.some.inj (hraw.symm.trans hraw')
  rw [← hpath, climbs_entryPath_iff] at hclimbs
  exact ⟨member, raw, hmember, hraw, hpath.symm, backslash_of_climbs hdir hclimbs⟩

namespace Push

/-- A package with a file that climbs, its separators backslashes. -/
def climbing : List TarEntry := [file "composer.json" manifest, file "..\\..\\hook" [0x21]]

def climbingArchive : CanonicalArchive :=
  ⟨[⟨"composer.json", .file, manifest⟩, ⟨"../../hook", .file, [0x21]⟩]⟩

theorem unpackTargz_climbing : unpackTargz (env climbing) "acme/tool" (2 ^ 30) []
    = .ok (climbingArchive, .object [("name", .string "acme/tool")]) := rfl

theorem fits_climbing : Fits climbingArchive.entries := by decide +kernel

/-- **Out of the package**: the upload is accepted, and ships `../../hook`. -/
theorem climbing_escapes : ¬ ∀ archive names, Produced archive names →
    ∀ e ∈ archive.entries, StaysInside e.path.toList := by
  intro h
  have hproduced := Produced.upload (archiveTargz_of_fits unpackTargz_climbing fits_climbing)
    unpackTargz_climbing
  have hinside := h _ _ hproduced ⟨"../../hook", .file, [0x21]⟩ (by decide)
  exact absurd hinside.inside (by decide)

/-- The climbing file of that upload has a backslash in its path. -/
theorem upload_climbs_by_backslash_hook : ∃ member raw,
    some member ∈ climbing.map some ∧ member.path = some raw ∧
      "../../hook".toList = entryPath (nameOf raw) ∧ (0x5C : UInt8) ∈ raw :=
  upload_climbs_by_backslash (e := ⟨"../../hook", .file, [0x21]⟩) unpackTargz_climbing (by decide)
    (by decide)

end Push

namespace Mirror

/-- The walk over a source file, a link, a directory that is not exported with a file in it, and a
submodule. -/
def records : List TreeRecord := [
  ⟨asBytes "src", .tree, [2]⟩,
  ⟨asBytes "tests", .tree, [3]⟩,
  ⟨asBytes "vendor", .commit, [4]⟩,
  ⟨asBytes "run", .link, [5]⟩,
  ⟨asBytes "src/Foo.php", .blob, [6]⟩,
  ⟨asBytes "tests/FooTest.php", .blob, [7]⟩]

/-- A repository with that one tree. -/
def repo : GitRepo where
  peelToTree _ := .ok [1]
  lookupEntryByPath _ _ := .ok none
  attributesOnly _ := .ok ()
  breadthfirst _ := .ok records
  exportIgnored _ path _ := .ok (path = asBytes "tests")
  findObject oid := .ok oid

def archive : CanonicalArchive := ⟨[⟨"run", .symlink, [5]⟩, ⟨"src/Foo.php", .file, [6]⟩]⟩

/-- A package uploaded, and one from git, whose entries stay inside. -/
theorem archives_stay_inside_plain :
    (∀ e ∈ Push.plainArchive.entries, StaysInside e.path.toList) ∧
      archiveSubtree (.ok repo) "HEAD" "" = .ok archive ∧
        ∀ e ∈ archive.entries, StaysInside e.path.toList := by
  have harchived : archiveSubtree (.ok repo) "HEAD" "" = .ok archive := rfl
  refine ⟨?_, harchived, ?_⟩
  · have hproduced := Produced.upload
      (archiveTargz_of_fits Push.unpackTargz_plain Push.fits_plain) Push.unpackTargz_plain
    exact (archives_stay_inside_iff hproduced).2 (by decide)
  · have htree : subtree repo "HEAD" "" = .ok [1] := rfl
    exact (archives_stay_inside_iff (Produced.git htree rfl harchived)).2 (by decide +kernel)

end Mirror

end Sconce.Archives
