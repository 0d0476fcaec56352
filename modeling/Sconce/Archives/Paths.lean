/-
# Paths of entries

The name an entry is made with, and the path `Entry::new` leaves of it: backslashes become
slashes, then leading `./`s are taken off, then leading slashes.  `staysInside_iff` says which
names become a path that stays inside the package.
-/
import Sconce.Archives.Canonical

namespace Sconce.Archives

/-- A path below the root of the package, with no detour. -/
structure StaysInside (path : List Char) : Prop where
  nonempty : path ≠ []
  relative : ¬ ['/'] <+: path
  plain : ¬ ['.', '/'] <+: path
  inside : ['.', '.'] ∉ path.splitOn '/'

instance (path : List Char) : Decidable (StaysInside path) :=
  decidable_of_iff (_ ∧ _ ∧ _ ∧ _) ⟨fun h => ⟨h.1, h.2.1, h.2.2.1, h.2.2.2⟩,
    fun h => ⟨h.nonempty, h.relative, h.plain, h.inside⟩⟩

/-- `./`, so many times. -/
def dots : ℕ → List Char
  | 0 => []
  | k + 1 => '.' :: '/' :: dots k

/-- A name, its backslashes already slashes, that becomes no such path: one with a `..` between
slashes; one of `./`s and then slashes only; one where `./`s, then slashes, come before another
`./`. -/
inductive Strays (name : List Char) : Prop
  | climbs (h : ['.', '.'] ∈ name.splitOn '/')
  | bare (k m : ℕ) (h : name = dots k ++ List.replicate m '/')
  | dotted (k m : ℕ) (rest : List Char)
      (h : name = dots k ++ (List.replicate (m + 1) '/' ++ '.' :: '/' :: rest))

/-! ## Stripping -/

/-- What is left of a name. -/
def entryPath (name : List Char) : List Char := trimSlashes (trimDots name)

/-- The path of an entry, from the name it is made of. -/
theorem toList_entryNew (path : String) (mode : Mode) (content : List UInt8) :
    (Entry.new path mode content).path.toList = entryPath (slashes path.toList) := by
  unfold Entry.new entryPath
  exact String.toList_ofList

/-- There is no backslash left to replace. -/
theorem slashes_slashes (name : List Char) : slashes (slashes name) = slashes name := by
  unfold slashes
  rw [List.map_map]
  apply List.map_congr_left
  intro c _
  by_cases hc : c = '\\' <;> simp [hc]

theorem trimDots_eq_self {cs : List Char} (h : ¬ ['.', '/'] <+: cs) : trimDots cs = cs := by
  unfold trimDots
  split
  next rest => exact absurd (List.prefix_append ['.', '/'] rest) h
  next => rfl

/-- The `./`s are taken off, however many there are. -/
theorem trimDots_dots (k : ℕ) (cs : List Char) : trimDots (dots k ++ cs) = trimDots cs := by
  induction k with
  | zero => rfl
  | succ k ih => exact ih

/-- All leading `./`s come off, and nothing else. -/
theorem trimDots_spec (cs : List Char) :
    ∃ k, cs = dots k ++ trimDots cs ∧ ¬ ['.', '/'] <+: trimDots cs := by
  induction hn : cs.length using Nat.strong_induction_on generalizing cs with
  | _ n ih =>
    by_cases hstarts : ['.', '/'] <+: cs
    · obtain ⟨rest, rfl⟩ := hstarts
      obtain ⟨k, heq, hnot⟩ := ih rest.length (by rw [← hn]; simp) rest rfl
      refine ⟨k + 1, ?_, hnot⟩
      show '.' :: '/' :: rest = '.' :: '/' :: (dots k ++ trimDots rest)
      rw [← heq]
    · exact ⟨0, (trimDots_eq_self hstarts).symm, by rwa [trimDots_eq_self hstarts]⟩

theorem trimSlashes_replicate {m : ℕ} {cs : List Char} (h : ¬ ['/'] <+: cs) :
    trimSlashes (List.replicate m '/' ++ cs) = cs := by
  unfold trimSlashes
  induction m with
  | zero =>
    cases cs with
    | nil => rfl
    | cons c rest =>
      have hc : c ≠ '/' := fun hc => h (hc ▸ List.prefix_append ['/'] rest)
      exact List.dropWhile_cons_of_neg (by simpa using hc)
  | succ m ih =>
    rw [List.replicate_succ, List.cons_append, List.dropWhile_cons_of_pos (by simp)]
    exact ih

/-- All leading slashes come off, and nothing else. -/
theorem trimSlashes_spec (cs : List Char) :
    ∃ m, cs = List.replicate m '/' ++ trimSlashes cs ∧ ¬ ['/'] <+: trimSlashes cs := by
  induction cs with
  | nil => exact ⟨0, rfl, by simp [trimSlashes]⟩
  | cons c rest ih =>
    by_cases hc : c = '/'
    · subst hc
      obtain ⟨m, heq, hnot⟩ := ih
      have htrim : trimSlashes ('/' :: rest) = trimSlashes rest :=
        List.dropWhile_cons_of_pos (by simp)
      rw [htrim]
      exact ⟨m + 1, by rw [List.replicate_succ, List.cons_append, ← heq], hnot⟩
    · have htrim : trimSlashes (c :: rest) = c :: rest :=
        List.dropWhile_cons_of_neg (by simpa using hc)
      rw [htrim]
      refine ⟨0, rfl, fun hstarts => ?_⟩
      exact hc (List.cons_prefix_cons.1 hstarts).1.symm

/-- **The shape of a name**: `./`s, then slashes, then its path. -/
theorem entryPath_spec (name : List Char) :
    ∃ k m, name = dots k ++ (List.replicate m '/' ++ entryPath name) ∧
      ¬ ['/'] <+: entryPath name ∧
        ¬ ['.', '/'] <+: List.replicate m '/' ++ entryPath name := by
  obtain ⟨k, hdots, hnot⟩ := trimDots_spec name
  obtain ⟨m, hslashes, hnot'⟩ := trimSlashes_spec (trimDots name)
  refine ⟨k, m, ?_, hnot', ?_⟩
  · unfold entryPath
    rw [← hslashes]
    exact hdots
  · unfold entryPath
    rwa [← hslashes]

/-- The path that is left behind `./`s and slashes. -/
theorem entryPath_eq {k m : ℕ} {cs : List Char} (hcs : ¬ ['/'] <+: cs)
    (hdots : ¬ ['.', '/'] <+: List.replicate m '/' ++ cs) :
    entryPath (dots k ++ (List.replicate m '/' ++ cs)) = cs := by
  unfold entryPath
  rw [trimDots_dots, trimDots_eq_self hdots, trimSlashes_replicate hcs]

/-! ## Pieces -/

/-- The `./`s and the slashes taken off hold no `..`. -/
theorem climbs_dots_iff (k : ℕ) (cs : List Char) :
    ['.', '.'] ∈ (dots k ++ cs).splitOn '/' ↔ ['.', '.'] ∈ cs.splitOn '/' := by
  induction k with
  | zero => rfl
  | succ k ih =>
    rw [← ih, show dots (k + 1) ++ cs = ['.'] ++ '/' :: (dots k ++ cs) from rfl,
      List.splitOn_append_cons_self_of_not_mem (by decide), List.mem_cons,
      or_iff_right (by decide)]

theorem climbs_replicate_iff (m : ℕ) (cs : List Char) :
    ['.', '.'] ∈ (List.replicate m '/' ++ cs).splitOn '/' ↔ ['.', '.'] ∈ cs.splitOn '/' := by
  induction m with
  | zero => rfl
  | succ m ih =>
    rw [← ih, List.replicate_succ, List.cons_append,
      show '/' :: (List.replicate m '/' ++ cs) = [] ++ '/' :: (List.replicate m '/' ++ cs) from rfl,
      List.splitOn_append_cons_self_of_not_mem List.not_mem_nil, List.mem_cons,
      or_iff_right (by decide)]

/-- A prefix `./` does not begin at a slash. -/
theorem not_dot_prefix_replicate {m : ℕ} {cs : List Char} (hm : 0 < m) :
    ¬ ['.', '/'] <+: List.replicate m '/' ++ cs := by
  obtain ⟨n, rfl⟩ := Nat.exists_eq_succ_of_ne_zero hm.ne'
  rw [List.replicate_succ, List.cons_append, List.cons_prefix_cons]
  exact fun h => absurd h.1 (by decide)

/-- What is taken off in front neither hides nor makes a `..`. -/
theorem climbs_entryPath_iff (name : List Char) :
    ['.', '.'] ∈ (entryPath name).splitOn '/' ↔ ['.', '.'] ∈ name.splitOn '/' := by
  obtain ⟨k, m, heq, -, -⟩ := entryPath_spec name
  conv_rhs => rw [heq]
  rw [climbs_dots_iff, climbs_replicate_iff]

/-- **Which names stay inside**: those that do not stray. -/
theorem staysInside_iff (name : List Char) : StaysInside (entryPath name) ↔ ¬ Strays name := by
  obtain ⟨k, m, heq, hslash, hdots⟩ := entryPath_spec name
  constructor
  · intro hinside hstrays
    cases hstrays with
    | climbs h =>
      exact hinside.inside ((climbs_entryPath_iff name).2 h)
    | bare k' m' h =>
      have hnot : ¬ ['.', '/'] <+: List.replicate m' '/' ++ [] := by
        cases m' with
        | zero => decide
        | succ m' => exact not_dot_prefix_replicate m'.succ_pos
      have hpath := entryPath_eq (k := k') (by decide) hnot
      rw [List.append_nil, ← h] at hpath
      exact hinside.nonempty hpath
    | dotted k' m' rest h =>
      have hnot : ¬ ['/'] <+: '.' :: '/' :: rest :=
        fun hp => absurd (List.cons_prefix_cons.1 hp).1 (by decide)
      have hpath := entryPath_eq (k := k') (m := m' + 1) hnot
        (not_dot_prefix_replicate m'.succ_pos)
      rw [← h] at hpath
      exact hinside.plain (hpath ▸ List.prefix_append ['.', '/'] rest)
  · intro hstrays
    refine ⟨fun hnil => hstrays (.bare k m ?_), hslash, fun hplain => ?_, fun hclimbs => ?_⟩
    · rwa [hnil, List.append_nil] at heq
    · -- the slashes are what hid this `./` from the first pass
      obtain ⟨rest, hrest⟩ := hplain
      cases m with
      | zero => exact hdots ⟨rest, hrest⟩
      | succ m => exact hstrays (.dotted k m rest (by rw [heq, ← hrest]; rfl))
    · exact hstrays (.climbs ((climbs_entryPath_iff name).1 hclimbs))

instance (name : List Char) : Decidable (Strays name) :=
  decidable_of_iff (¬ StaysInside (entryPath name)) (by rw [staysInside_iff, not_not])

-- a `..` behind a backslash; a `./` behind a slash; nothing but a slash
example : Strays (slashes "a\\..\\b".toList) ∧ Strays "/./a".toList ∧ Strays ".//".toList ∧
    ¬ Strays "././a/..b".toList := by decide

end Sconce.Archives
