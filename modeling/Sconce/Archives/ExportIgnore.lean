/-
# Export-ignored files

Which files and links of a tree `archive_subtree` ships.  It keeps the ignored directories it has
met so far and looks for an ancestor of each path among them, cutting the path at each slash; when
every directory is listed before what it contains, none is missed (`hasIgnoredAncestor_iff`).
-/
import Sconce.Archives.GitTree
import Mathlib.Data.List.Forall2

/-! ## Relating two lists -/

/-- Every member is related to something exactly when the list is related to another. -/
theorem List.exists_forall₂_iff {α β : Type*} {R : α → β → Prop} (l : List α) :
    (∃ bs, List.Forall₂ R l bs) ↔ ∀ a ∈ l, ∃ b, R a b := by
  induction l with
  | nil => exact iff_of_true ⟨[], .nil⟩ nofun
  | cons a l ih =>
    rw [List.forall_mem_cons, ← ih]
    constructor
    · rintro ⟨_, h⟩
      cases h with
      | cons hab hrest => exact ⟨⟨_, hab⟩, _, hrest⟩
    · rintro ⟨⟨b, hab⟩, bs, hrest⟩
      exact ⟨b :: bs, .cons hab hrest⟩

/-- A list related to two in a row is two in a row. -/
theorem List.Forall₂.exists_append {α β : Type*} {R : α → β → Prop} {l₁ l₂ : List α} {bs : List β}
    (h : List.Forall₂ R (l₁ ++ l₂) bs) :
    ∃ bs₁ bs₂, List.Forall₂ R l₁ bs₁ ∧ List.Forall₂ R l₂ bs₂ ∧ bs = bs₁ ++ bs₂ := by
  induction l₁ generalizing bs with
  | nil => exact ⟨[], bs, .nil, h, rfl⟩
  | cons a l₁ ih =>
    cases h with
    | cons hab hrest =>
      obtain ⟨bs₁, bs₂, h₁, h₂, rfl⟩ := ih hrest
      exact ⟨_ :: bs₁, bs₂, .cons hab h₁, h₂, rfl⟩

namespace Sconce.Archives

/-! ## What is to be shipped -/

/-- The directory of the first path contains the second. -/
def Contains (dir path : List UInt8) : Prop := dir ++ [0x2F] <+: path

instance (dir path : List UInt8) : Decidable (Contains dir path) :=
  inferInstanceAs (Decidable (dir ++ [0x2F] <+: path))

/-- Every directory is listed before what it contains. -/
def DirectoriesFirst (records : List TreeRecord) : Prop :=
  records.Pairwise fun r d => d.mode = .tree → ¬ Contains d.filepath r.filepath

instance (records : List TreeRecord) : Decidable (DirectoriesFirst records) :=
  inferInstanceAs (Decidable (records.Pairwise fun r d => d.mode = .tree →
    ¬ Contains d.filepath r.filepath))

/-- The kinds of entry an archive is made of, each with the mode git keeps it under: the two kinds
of file and the links.  Directories are not entries of their own, and a submodule has no content
at the ref. -/
inductive ShippedAs : EntryKind → Mode → Prop
  | blob : ShippedAs .blob .file
  | blobExecutable : ShippedAs .blobExecutable .executable
  | link : ShippedAs .link .symlink

/-- A file or link that is not ignored, nor in a directory that is. -/
def isExported (repo : GitRepo) (tree : ObjectId) (records : List TreeRecord) (r : TreeRecord) :
    Bool :=
  r.mode ∈ [EntryKind.blob, .blobExecutable, .link] && !isIgnored repo tree r &&
    !records.any fun d => d.mode = .tree && isIgnored repo tree d && Contains d.filepath r.filepath

/-- The entry is the record's: its mode, its content, and its path under the archive's root. -/
structure Ships (repo : GitRepo) (r : TreeRecord) (e : Entry) : Prop where
  mode : ShippedAs r.mode e.mode
  content : repo.findObject r.oid = .ok e.content
  path : ∃ path, pathText r = some path ∧
    e.path = .ofList (trimSlashes (trimDots (slashes path.toList)))

/-- The modes of `archive_subtree` are those of the kinds that are shipped. -/
theorem archived_eq_some_iff (kind : EntryKind) (mode : Mode) :
    kind.archived = some mode ↔ ShippedAs kind mode := by
  constructor
  · intro h
    cases kind with
    | tree => cases h
    | blob => cases h; exact .blob
    | blobExecutable => cases h; exact .blobExecutable
    | link => cases h; exact .link
    | commit => cases h
  · rintro (_ | _ | _) <;> rfl

/-- What `archive_subtree` passes over are the directories and the submodules. -/
theorem isSome_archived (kind : EntryKind) :
    kind.archived.isSome = decide (kind ∈ [EntryKind.blob, .blobExecutable, .link]) := by
  cases kind <;> rfl

/-! ## Ancestors -/

/-- The look-up finds an ignored directory above the path. -/
theorem hasIgnoredAncestor_iff_contains (path : List UInt8) (ignored : List (List UInt8)) :
    hasIgnoredAncestor path ignored = true ↔ ∃ dir ∈ ignored, Contains dir path := by
  unfold hasIgnoredAncestor Contains
  rw [Bool.and_eq_true, List.any_eq_true]
  constructor
  · rintro ⟨-, i, hi, hcut⟩
    rw [Bool.and_eq_true, beq_iff_eq, List.contains_iff_mem] at hcut
    refine ⟨path.take i, hcut.2, ?_⟩
    have hprefix := List.take_prefix (i + 1) path
    rwa [List.take_add_one, hcut.1] at hprefix
  · rintro ⟨dir, hdir, rest, rfl⟩
    refine ⟨?_, dir.length, ?_, ?_⟩
    · cases ignored with
      | nil => exact absurd hdir List.not_mem_nil
      | cons _ _ => rfl
    · simp
    · simpa using hdir

section Walk

variable {repo : GitRepo} {tree : ObjectId}

/-- The ignored directories are those records of the walk that are ignored. -/
theorem mem_ignoredDirs_iff (records : List TreeRecord) (dir : List UInt8) :
    dir ∈ ignoredDirs repo tree records ↔
      ∃ d ∈ records, (d.mode = .tree ∧ isIgnored repo tree d = true) ∧ d.filepath = dir := by
  unfold ignoredDirs
  simp only [List.mem_map, List.mem_filter, Bool.and_eq_true, decide_eq_true_eq, and_assoc]

/-- No path contains itself. -/
theorem not_contains_self (path : List UInt8) : ¬ Contains path path := by
  intro h
  have hlength := h.length_le
  rw [List.length_append, List.length_singleton] at hlength
  omega

/-- The directories met before a record are enough to find an ignored ancestor. -/
theorem hasIgnoredAncestor_iff {before after : List TreeRecord} {r : TreeRecord}
    (hdirs : DirectoriesFirst (before ++ r :: after)) :
    hasIgnoredAncestor r.filepath (ignoredDirs repo tree before) = true ↔
      ∃ d ∈ before ++ r :: after, (d.mode = .tree ∧ isIgnored repo tree d = true) ∧
        Contains d.filepath r.filepath := by
  rw [hasIgnoredAncestor_iff_contains]
  constructor
  · rintro ⟨dir, hdir, hcontains⟩
    obtain ⟨d, hd, hignored, rfl⟩ := (mem_ignoredDirs_iff before dir).1 hdir
    exact ⟨d, List.mem_append_left _ hd, hignored, hcontains⟩
  · rintro ⟨d, hd, hignored, hcontains⟩
    refine ⟨d.filepath, (mem_ignoredDirs_iff before _).2 ⟨d, ?_, hignored, rfl⟩, hcontains⟩
    have hlater := (List.pairwise_cons.1 (List.pairwise_append.1 hdirs).2.1).1
    rcases List.mem_append.1 hd with hbefore | hrest
    · exact hbefore
    · rcases List.mem_cons.1 hrest with rfl | hafter
      · exact absurd hcontains (not_contains_self _)
      · exact absurd hcontains (hlater d hafter hignored.1)

/-! ## The walk -/

/-- A record is shipped, after those met before it. -/
def isKept (repo : GitRepo) (tree : ObjectId) (before : List TreeRecord) (r : TreeRecord) : Bool :=
  r.mode.archived.isSome && !isIgnored repo tree r &&
    !hasIgnoredAncestor r.filepath (ignoredDirs repo tree before)

/-- The records that are shipped. -/
def keptRecords (repo : GitRepo) (tree : ObjectId) :
    List TreeRecord → List TreeRecord → List TreeRecord
  | _, [] => []
  | before, r :: rest =>
    (if isKept repo tree before r then [r] else []) ++ keptRecords repo tree (before ++ [r]) rest

/-- In a listing with directories first, what is shipped is what is to be. -/
theorem keptRecords_eq (before records : List TreeRecord)
    (hdirs : DirectoriesFirst (before ++ records)) :
    keptRecords repo tree before records
      = records.filter (isExported repo tree (before ++ records)) := by
  induction records generalizing before with
  | nil => rfl
  | cons r rest ih =>
    have hsplit : before ++ r :: rest = (before ++ [r]) ++ rest := by
      rw [List.append_assoc, List.singleton_append]
    have hkept : isKept repo tree before r = isExported repo tree (before ++ r :: rest) r := by
      unfold isKept isExported
      congr 2
      · rw [isSome_archived]
      · rw [Bool.eq_iff_iff, hasIgnoredAncestor_iff hdirs, List.any_eq_true]
        simp only [Bool.and_eq_true, decide_eq_true_eq]
    rw [keptRecords, hkept, ih (before ++ [r]) (hsplit ▸ hdirs), ← hsplit]
    cases h : isExported repo tree (before ++ r :: rest) r with
    | true => rw [List.filter_cons_of_pos h]; rfl
    | false => rw [List.filter_cons_of_neg (Bool.not_eq_true _ ▸ h)]; rfl

/-- Two states of the walk are one where their entries and directories are. -/
theorem ok_eq_iff (s s' : CanonicalArchive × List (List UInt8)) :
    (Except.ok s : Except GitError (CanonicalArchive × List (List UInt8))) = .ok s' ↔
      s'.2 = s.2 ∧ s'.1.entries = s.1.entries := by
  obtain ⟨⟨entries⟩, dirs⟩ := s
  obtain ⟨⟨entries'⟩, dirs'⟩ := s'
  simp [eq_comm, and_comm]

/-- Shipping a record. -/
theorem ship_ok_iff {s s' : CanonicalArchive × List (List UInt8)} {r : TreeRecord} {mode : Mode}
    (hmode : r.mode.archived = some mode) :
    (match pathText r with
      | none => throw (.nonUtf8Path (.ofList (Utf8.fromUtf8Lossy r.filepath)))
      | some path => do
        let data ← repo.findObject r.oid
        return (s.1.add (.new path mode data), s.2) :
          Except GitError (CanonicalArchive × List (List UInt8))) = .ok s' ↔
      s'.2 = s.2 ∧ ∃ es, List.Forall₂ (Ships repo) [r] es ∧
        s'.1.entries = s.1.entries ++ es := by
  -- the one record ships as the one entry added
  have hone : (∃ es, List.Forall₂ (Ships repo) [r] es ∧ s'.1.entries = s.1.entries ++ es) ↔
      ∃ e, Ships repo r e ∧ s'.1.entries = s.1.entries ++ [e] := by
    simp only [List.forall₂_cons_left_iff, List.forall₂_nil_left_iff]
    constructor
    · rintro ⟨_, ⟨e, _, hships, rfl, rfl⟩, hentries⟩
      exact ⟨e, hships, hentries⟩
    · rintro ⟨e, hships, hentries⟩
      exact ⟨_, ⟨e, _, hships, rfl, rfl⟩, hentries⟩
  rw [hone]
  cases hpath : pathText r with
  | none =>
    constructor
    · rintro ⟨⟩
    · rintro ⟨-, e, ⟨-, -, path, htext, -⟩, -⟩
      rw [hpath] at htext
      cases htext
  | some path =>
    cases hdata : repo.findObject r.oid with
    | error e =>
      constructor
      · rintro ⟨⟩
      · rintro ⟨-, e, ⟨-, hfound, -⟩, -⟩
        rw [hdata] at hfound
        cases hfound
    | ok data =>
      -- path, bytes and mode leave one entry to ship as
      have hships : ∀ e, Ships repo r e ↔ e = .new path mode data := by
        intro e
        constructor
        · obtain ⟨entryPath, mode', data'⟩ := e
          rintro ⟨hmode', hdata', path', hpath', hentry⟩
          obtain rfl := Option.some.inj (hpath.symm.trans hpath')
          have hsame := hmode.symm.trans ((archived_eq_some_iff _ _).2 hmode')
          obtain rfl : mode = mode' := Option.some.inj hsame
          obtain rfl : data = data' := Except.ok.inj (hdata.symm.trans hdata')
          obtain rfl : entryPath = _ := hentry
          rfl
        · rintro rfl
          exact ⟨(archived_eq_some_iff _ _).1 hmode, hdata, path, hpath, rfl⟩
      simp only [hships, exists_eq_left]
      exact ok_eq_iff (s.1.add (.new path mode data), s.2) s'

/-- What one record comes to. -/
theorem archiveRecord_ok_iff {s s' : CanonicalArchive × List (List UInt8)}
    {before : List TreeRecord} {r : TreeRecord} (hdirs : s.2 = ignoredDirs repo tree before) :
    archiveRecord repo tree s r = .ok s' ↔
      (∃ ignored, repo.exportIgnored tree r.filepath r.mode = .ok ignored) ∧
        s'.2 = ignoredDirs repo tree (before ++ [r]) ∧
          ∃ es, List.Forall₂ (Ships repo) (if isKept repo tree before r then [r] else []) es ∧
            s'.1.entries = s.1.entries ++ es := by
  unfold archiveRecord
  cases hignored : repo.exportIgnored tree r.filepath r.mode with
  | error e =>
    constructor
    · rintro ⟨⟩
    · rintro ⟨⟨_, ⟨⟩⟩, -⟩
  | ok ignored =>
    have hisIgnored : isIgnored repo tree r = ignored := by
      unfold isIgnored
      rw [hignored]
    have hread : ∃ b, (Except.ok ignored : Except GitError Bool) = .ok b := ⟨ignored, rfl⟩
    rw [and_iff_right hread, ignoredDirs_append, hisIgnored, ← hdirs]
    -- a record that is not kept adds nothing to the archive
    have hnone : (∃ es, List.Forall₂ (Ships repo) [] es ∧ s'.1.entries = s.1.entries ++ es) ↔
        s'.1.entries = s.1.entries := by
      simp only [List.forall₂_nil_left_iff, exists_eq_left, List.append_nil]
    have hkept : isKept repo tree before r
        = (r.mode.archived.isSome && !(ignored || hasIgnoredAncestor r.filepath s.2)) := by
      unfold isKept
      rw [hisIgnored, ← hdirs, Bool.not_or, Bool.and_assoc]
    rw [hkept]
    cases hmode : r.mode.archived with
    | none =>
      rw [Option.isSome_none, Bool.false_and, if_neg Bool.false_ne_true, hnone]
      show (if r.mode = .tree ∧ ignored = true then _ else _) = _ ↔ _
      -- a directory not exported is remembered for the files below
      by_cases hdir : r.mode = .tree ∧ ignored = true
      · rw [if_pos hdir, if_pos hdir]
        exact ok_eq_iff _ _
      · rw [if_neg hdir, if_neg hdir, List.append_nil]
        exact ok_eq_iff _ _
    | some mode =>
      -- a record with a mode is no directory
      have hfile : ¬ (r.mode = .tree ∧ ignored = true) := by
        rintro ⟨htree, -⟩
        rw [htree] at hmode
        cases hmode
      rw [Option.isSome_some, Bool.true_and]
      show (if (ignored || hasIgnoredAncestor r.filepath s.2) = true then _ else _) = _ ↔ _
      rw [if_neg hfile, List.append_nil]
      cases ignored || hasIgnoredAncestor r.filepath s.2 with
      | true =>
        rw [if_pos rfl, Bool.not_true, if_neg Bool.false_ne_true, hnone]
        exact ok_eq_iff _ _
      | false =>
        rw [if_neg Bool.false_ne_true, Bool.not_false, if_pos rfl]
        exact ship_ok_iff hmode

/-- **The whole walk** ships the records that are kept. -/
theorem foldlM_archiveRecord_ok_iff {s s' : CanonicalArchive × List (List UInt8)}
    {before records : List TreeRecord} (hdirs : s.2 = ignoredDirs repo tree before) :
    records.foldlM (archiveRecord repo tree) s = .ok s' ↔
      (∀ r ∈ records, ∃ ignored, repo.exportIgnored tree r.filepath r.mode = .ok ignored) ∧
        s'.2 = ignoredDirs repo tree (before ++ records) ∧
          ∃ es, List.Forall₂ (Ships repo) (keptRecords repo tree before records) es ∧
            s'.1.entries = s.1.entries ++ es := by
  induction records generalizing s before with
  | nil =>
    rw [List.append_nil, ← hdirs, and_iff_right (fun r hr => absurd hr List.not_mem_nil)]
    simp only [keptRecords, List.forall₂_nil_left_iff, exists_eq_left, List.append_nil]
    exact ok_eq_iff s s'
  | cons r records ih =>
    rw [List.foldlM_cons, List.forall_mem_cons, keptRecords]
    constructor
    · intro h
      obtain ⟨s₁, hstep, hrest⟩ := Except.ok_of_bind h
      obtain ⟨hread, hdirs₁, es₁, hships₁, hentries₁⟩ := (archiveRecord_ok_iff hdirs).1 hstep
      obtain ⟨hreads, hdirs', es, hships, hentries⟩ := (ih hdirs₁).1 hrest
      refine ⟨⟨hread, hreads⟩, ?_, es₁ ++ es, List.rel_append hships₁ hships, ?_⟩
      · rw [hdirs', List.append_assoc, List.singleton_append]
      · rw [hentries, hentries₁, List.append_assoc]
    · rintro ⟨⟨hread, hreads⟩, hdirs', es, hships, hentries⟩
      obtain ⟨es₁, es₂, hships₁, hships₂, rfl⟩ := hships.exists_append
      have hstep : archiveRecord repo tree s r
          = .ok (⟨s.1.entries ++ es₁⟩, ignoredDirs repo tree (before ++ [r])) :=
        (archiveRecord_ok_iff hdirs).2 ⟨hread, rfl, es₁, hships₁, rfl⟩
      rw [hstep]
      refine (ih rfl).2 ⟨hreads, ?_, es₂, hships₂, ?_⟩
      · rw [hdirs', List.append_assoc, List.singleton_append]
      · rw [hentries, List.append_assoc]

/-- What is exported has a mode to be shipped under. -/
theorem exists_shippedAs_of_isExported {records : List TreeRecord} {r : TreeRecord}
    (h : isExported repo tree records r = true) : ∃ mode, ShippedAs r.mode mode := by
  unfold isExported at h
  rw [Bool.and_eq_true, Bool.and_eq_true, ← isSome_archived, Option.isSome_iff_exists] at h
  obtain ⟨mode, hmode⟩ := h.1.1
  exact ⟨mode, (archived_eq_some_iff _ _).1 hmode⟩

/-- Everything the archive is made of can be read: the attributes of each record, and path and
content of each that is exported. -/
structure Readable (repo : GitRepo) (tree : ObjectId) (records : List TreeRecord) : Prop where
  attributes : repo.attributesOnly tree = .ok ()
  ignored : ∀ r ∈ records, ∃ ignored, repo.exportIgnored tree r.filepath r.mode = .ok ignored
  exported : ∀ r ∈ records, isExported repo tree records r = true →
    ∃ path data, pathText r = some path ∧ repo.findObject r.oid = .ok data

/-- The archive of a subtree: one entry for each record that is exported, in order. -/
structure Exports (repo : GitRepo) (tree : ObjectId) (records : List TreeRecord)
    (result : Except GitError CanonicalArchive) : Prop where
  archived : (∃ archive, result = .ok archive) ↔ Readable repo tree records
  entries : ∀ archive, result = .ok archive →
    List.Forall₂ (Ships repo) (records.filter (isExported repo tree records)) archive.entries

/-- Which trees are archived, and as what. -/
theorem archiveSubtree_ok_iff {refspec subpath : String} {records : List TreeRecord}
    {archive : CanonicalArchive} (htree : subtree repo refspec subpath = .ok tree)
    (hrecords : repo.breadthfirst tree = .ok records) (hdirs : DirectoriesFirst records) :
    archiveSubtree (.ok repo) refspec subpath = .ok archive ↔
      repo.attributesOnly tree = .ok () ∧
        (∀ r ∈ records, ∃ ignored, repo.exportIgnored tree r.filepath r.mode = .ok ignored) ∧
          List.Forall₂ (Ships repo) (records.filter (isExported repo tree records))
            archive.entries := by
  -- directories come first, so what the walk keeps is what is exported
  have hkept : keptRecords repo tree [] records = records.filter (isExported repo tree records) :=
    keptRecords_eq [] records hdirs
  rw [← hkept]
  constructor
  · intro h
    obtain ⟨repo', hrepo, h⟩ := Except.ok_of_bind h
    obtain rfl := Except.ok.inj hrepo
    obtain ⟨tree', htree', h⟩ := Except.ok_of_bind h
    obtain rfl := Except.ok.inj (htree.symm.trans htree')
    obtain ⟨_, hattributes, h⟩ := Except.ok_of_bind h
    obtain ⟨records', hrecords', h⟩ := Except.ok_of_bind h
    obtain rfl := Except.ok.inj (hrecords.symm.trans hrecords')
    obtain ⟨s, hrun, h⟩ := Except.ok_of_bind h
    obtain rfl := Except.ok.inj h
    obtain ⟨hread, -, es, hships, hentries⟩ :=
      (@foldlM_archiveRecord_ok_iff repo tree (⟨[]⟩, []) s [] records rfl).1 hrun
    rw [List.nil_append] at hentries
    exact ⟨hattributes, hread, hentries ▸ hships⟩
  · rintro ⟨hattributes, hread, hships⟩
    have hrun : records.foldlM (archiveRecord repo tree) (⟨[]⟩, [])
        = .ok (archive, ignoredDirs repo tree ([] ++ records)) :=
      (@foldlM_archiveRecord_ok_iff repo tree (⟨[]⟩, []) _ [] records rfl).2
        ⟨hread, rfl, archive.entries, hships, rfl⟩
    unfold archiveSubtree
    show (subtree repo refspec subpath >>= _) = _
    rw [htree]
    show (repo.attributesOnly tree >>= _) = _
    rw [hattributes]
    show (repo.breadthfirst tree >>= _) = _
    rw [hrecords]
    show (records.foldlM (archiveRecord repo tree) (⟨[]⟩, []) >>= _) = _
    rw [hrun]
    rfl

/-- **What `export-ignore` selects.** -/
theorem exports_archiveSubtree {refspec subpath : String} {records : List TreeRecord}
    (htree : subtree repo refspec subpath = .ok tree)
    (hrecords : repo.breadthfirst tree = .ok records) (hdirs : DirectoriesFirst records) :
    Exports repo tree records (archiveSubtree (.ok repo) refspec subpath) where
  archived := by
    constructor
    · rintro ⟨archive, h⟩
      obtain ⟨hattributes, hignored, hships⟩ :=
        (archiveSubtree_ok_iff htree hrecords hdirs).1 h
      refine ⟨hattributes, hignored, fun r hr hexported => ?_⟩
      obtain ⟨e, -, hdata, path, hpath, -⟩ :=
        (List.exists_forall₂_iff _).1 ⟨_, hships⟩ r (List.mem_filter.2 ⟨hr, hexported⟩)
      exact ⟨path, e.content, hpath, hdata⟩
    · rintro ⟨hattributes, hignored, hexported⟩
      have hships : ∀ r ∈ records.filter (isExported repo tree records), ∃ e, Ships repo r e := by
        intro r hr
        obtain ⟨hmem, hkept⟩ := List.mem_filter.1 hr
        obtain ⟨path, data, hpath, hdata⟩ := hexported r hmem hkept
        obtain ⟨mode, hmode⟩ := exists_shippedAs_of_isExported hkept
        exact ⟨.new path mode data, hmode, hdata, path, hpath, rfl⟩
      obtain ⟨es, hes⟩ := (List.exists_forall₂_iff _).2 hships
      exact ⟨⟨es⟩, (archiveSubtree_ok_iff htree hrecords hdirs).2 ⟨hattributes, hignored, hes⟩⟩
  entries := fun archive h => ((archiveSubtree_ok_iff htree hrecords hdirs).1 h).2.2

end Walk

namespace Mirror

theorem directoriesFirst_records : DirectoriesFirst records := by decide +kernel

/-- The archive of the tree above: the link and the source file, without the ignored directory and
the submodule. -/
theorem exports_archive :
    Exports repo [1] records (archiveSubtree (.ok repo) "HEAD" "") :=
  exports_archiveSubtree (rfl : subtree repo "HEAD" "" = .ok [1]) rfl directoriesFirst_records

end Mirror

end Sconce.Archives
