/-
# Member lists

The members a repository is given, in order, and what makes a set of them legal: members are
repositories of the same organization, one level deep, and a repository with members owns no
packages.
-/
import Sconce.Lib.Comparator
import Sconce.Serving.Members
import Sconce.Versions.Store

namespace Sconce

/-- Why setting the members of a repository failed. -/
inductive RepoMembersError where
  | invalid (message : String)
  | db (e : SqlError)
  deriving DecidableEq

/-- What is wrong with a list of members by itself. -/
def memberListError (repo : Uuid) : (seen members : List Uuid) → Option String
  | _, [] => none
  | seen, m :: ms =>
    if m = repo then some "a repository cannot be its own member"
    else if m ∈ seen then some "a member is listed twice"
    else memberListError repo (m :: seen) ms

/-- `i32::try_from(position).unwrap_or(i32::MAX)`. -/
def memberPosition (n : ℕ) : ℤ := min n 2147483647

namespace Catalog

variable (db : Catalog) (repo : Uuid) (members : List Uuid)

/-- The rows of `repository_members` of one repository: the member, and its position. -/
def memberRows : List (Uuid × ℤ) :=
  (db.repositoryMembers.rows.filter fun r => r.1.1 = repo).map fun r => (r.1.2, r.2)

/-- The ids of `repo_members`. -/
def repoMembers : List Uuid :=
  ((db.memberRows repo).mergeSort fun a b => a.2 ≤ b.2).map Prod.fst

/-- Some member is of another organization, or is no repository. -/
def otherOrg : Bool :=
  (db.repositories.rows.any fun r => r.1 = repo &&
      db.repositories.rows.any fun m => m.1 ∈ members && m.2.orgId ≠ r.2.orgId) ||
    db.repositories.count (fun id _ => id ∈ members) ≠ members.length

/-- Some member has members, or the repository is a member. -/
def nested : Bool :=
  (db.repositoryMembers.rows.any fun r => r.1.1 ∈ members) ||
    db.repositoryMembers.rows.any fun r => r.1.2 = repo

/-- The repository owns packages. -/
def ownsPackages : Bool := db.packages.rows.any fun r => r.2.repoId = repo

/-- The members of every repository are legal. -/
structure LegalMembers : Prop where
  keys : ∀ repo m m' position, db.repositoryMembers.get? (repo, m) = some position →
    db.repositoryMembers.get? (repo, m') = some position → m = m'
  ownsNothing : ∀ repo m, (db.repositoryMembers.get? (repo, m)).isSome →
    ∀ id p, db.packages.get? id = some p → p.repoId ≠ repo
  oneLevel : ∀ repo m m', (db.repositoryMembers.get? (repo, m)).isSome →
    db.repositoryMembers.get? (m, m') = none
  sameOrg : ∀ repo m, (db.repositoryMembers.get? (repo, m)).isSome →
    ∃ r r', db.repositories.get? repo = some r ∧ db.repositories.get? m = some r' ∧
      r'.orgId = r.orgId

/-- The repositories can be members of `repo`. -/
structure FitMembers : Prop where
  notSelf : repo ∉ members
  nodup : members.Nodup
  sameOrg : ∀ m ∈ members, ∃ r', db.repositories.get? m = some r' ∧
    ∀ r, db.repositories.get? repo = some r → r'.orgId = r.orgId

variable {db repo members}

/-! ## The checks -/

/-- A list that passes names other repositories, each once and none already seen. -/
theorem memberListError_none {seen : List Uuid} (h : memberListError repo seen members = none) :
    repo ∉ members ∧ members.Nodup ∧ ∀ m ∈ members, m ∉ seen := by
  induction members generalizing seen with
  | nil => exact ⟨List.not_mem_nil, List.nodup_nil, fun _ h => absurd h List.not_mem_nil⟩
  | cons m ms ih =>
    rw [memberListError] at h
    split_ifs at h with hself htwice
    obtain ⟨hnotSelf, hnodup, hnew⟩ := ih h
    refine ⟨?_, List.nodup_cons.2 ⟨?_, hnodup⟩, fun m' hm' => ?_⟩
    · rw [List.mem_cons, not_or]
      exact ⟨fun he => hself he.symm, hnotSelf⟩
    · exact fun hm => hnew m hm List.mem_cons_self
    · rcases List.mem_cons.1 hm' with rfl | hm'
      · exact htwice
      · exact fun hseen => hnew m' hm' (List.mem_cons_of_mem _ hseen)

/-- When as many repositories as members are listed, every member is a repository. -/
theorem isSome_of_count
    (hcount : db.repositories.count (fun id _ => id ∈ members) = members.length) :
    ∀ m ∈ members, (db.repositories.get? m).isSome := by
  have hsub : ((db.repositories.rows.filter fun r => decide (r.1 ∈ members)).map Prod.fst)
      ⊆ members := by
    intro m hm
    obtain ⟨r, hr, rfl⟩ := List.mem_map.1 hm
    exact of_decide_eq_true (List.mem_filter.1 hr).2
  have hkeys : ((db.repositories.rows.filter fun r => decide (r.1 ∈ members)).map Prod.fst).Nodup :=
    db.repositories.nodup.sublist (List.Sublist.map _ List.filter_sublist)
  have hperm := (hkeys.subperm hsub).perm_of_length_le (by
    rw [List.length_map, ← List.countP_eq_length_filter]
    exact hcount.ge)
  intro m hm
  obtain ⟨r, hr, rfl⟩ := List.mem_map.1 (hperm.mem_iff.2 hm)
  exact Option.isSome_iff_exists.2
    ⟨r.2, (db.repositories.mem_rows_iff r.1 r.2).1 (List.mem_filter.1 hr).1⟩

theorem FitMembers.of_checks (hlist : memberListError repo [] members = none)
    (horg : db.otherOrg repo members = false) : db.FitMembers repo members := by
  obtain ⟨hnotSelf, hnodup, -⟩ := memberListError_none hlist
  obtain ⟨horg, hcount⟩ := Bool.or_eq_false_iff.1 horg
  refine ⟨hnotSelf, hnodup, fun m hm => ?_⟩
  obtain ⟨r', hr'⟩ := Option.isSome_iff_exists.1
    (isSome_of_count (not_not.1 (of_decide_eq_false hcount)) m hm)
  refine ⟨r', hr', fun r hr => ?_⟩
  by_contra hne
  refine Bool.eq_false_iff.1 horg (List.any_eq_true.2 ⟨(repo, r), ?_, ?_⟩)
  · exact (db.repositories.mem_rows_iff _ _).2 hr
  · rw [decide_eq_true rfl, Bool.true_and]
    refine List.any_eq_true.2 ⟨(m, r'), (db.repositories.mem_rows_iff _ _).2 hr', ?_⟩
    simp [hm, hne]

/-- Nothing is nested where no member has members and nobody has the repository as one. -/
theorem nested_eq_false_iff : db.nested repo members = false ↔
    (∀ m ∈ members, ∀ m', db.repositoryMembers.get? (m, m') = none) ∧
      ∀ repo', db.repositoryMembers.get? (repo', repo) = none := by
  unfold nested
  simp only [Bool.or_eq_false_iff, List.any_eq_false, decide_eq_true_eq, Prod.forall,
    Table.get?_eq_none_iff]
  constructor
  · rintro ⟨hmembers, hrepo⟩
    exact ⟨fun m hm m' position hrow => hmembers m m' position hrow hm,
      fun repo' position hrow => hrepo repo' repo position hrow rfl⟩
  · rintro ⟨hmembers, hrepo⟩
    refine ⟨fun m m' position hrow hm => hmembers m hm m' position hrow, ?_⟩
    rintro repo' m position hrow rfl
    exact hrepo repo' position hrow

theorem ownsPackages_eq_false_iff : db.ownsPackages repo = false ↔
    ∀ id p, db.packages.get? id = some p → p.repoId ≠ repo := by
  unfold ownsPackages
  simp only [List.any_eq_false, decide_eq_true_eq, Prod.forall, Table.mem_rows_iff]

theorem hasMembers_eq_false_iff : db.hasMembers repo = false ↔
    ∀ m, db.repositoryMembers.get? (repo, m) = none := by
  unfold hasMembers
  simp only [List.any_eq_false, decide_eq_true_eq, Prod.forall, Table.get?_eq_none_iff]
  constructor
  · exact fun h m position hrow => h repo m position hrow rfl
  · rintro h repo' m position hrow rfl
    exact h m position hrow

/-! ## The order of the members -/

theorem mem_memberRows (m : Uuid) (position : ℤ) :
    (m, position) ∈ db.memberRows repo ↔
      db.repositoryMembers.get? (repo, m) = some position := by
  unfold memberRows
  simp only [List.mem_map, List.mem_filter, decide_eq_true_eq, Prod.mk.injEq, Prod.exists]
  constructor
  · rintro ⟨_, _, _, ⟨hrow, rfl⟩, rfl, rfl⟩
    exact (Table.mem_rows_iff _ _ _).1 hrow
  · exact fun h => ⟨repo, m, position, ⟨(Table.mem_rows_iff _ _ _).2 h, rfl⟩, rfl, rfl⟩

/-- A repository lists a member once. -/
theorem nodup_members : ((db.memberRows repo).map Prod.fst).Nodup := by
  unfold memberRows
  rw [List.map_map]
  have hkeys : ((db.repositoryMembers.rows.filter fun r => decide (r.1.1 = repo)).map
      Prod.fst).Nodup :=
    db.repositoryMembers.nodup.sublist (List.Sublist.map _ List.filter_sublist)
  refine List.Nodup.map_on ?_ (List.Nodup.of_map _ hkeys)
  rintro ⟨⟨repo₁, m₁⟩, position₁⟩ h₁ ⟨⟨repo₂, m₂⟩, position₂⟩ h₂ (rfl : m₁ = m₂)
  obtain ⟨hrow₁, hrepo₁⟩ := List.mem_filter.1 h₁
  obtain ⟨hrow₂, hrepo₂⟩ := List.mem_filter.1 h₂
  obtain rfl : repo₁ = repo := of_decide_eq_true hrepo₁
  obtain rfl : repo₂ = repo₁ := of_decide_eq_true hrepo₂
  have hsame := ((Table.mem_rows_iff _ _ _).1 hrow₁).symm.trans ((Table.mem_rows_iff _ _ _).1 hrow₂)
  rw [Option.some.inj hsame]

theorem nodup_repoMembers : (db.repoMembers repo).Nodup :=
  ((List.mergeSort_perm _ _).map Prod.fst).nodup_iff.2 nodup_members

theorem pairwise_sortedRows (rows : List (Uuid × ℤ)) :
    (rows.mergeSort fun a b => decide (a.2 ≤ b.2)).Pairwise fun a b => a.2 ≤ b.2 := by
  refine pairwise_mergeSort_of ?_ ?_ rows
  · exact fun _ _ _ => le_trans
  · exact fun _ _ => le_total _ _

/-- Rows sorted by position, no two at the same, are in the order of the members. -/
theorem repoMembers_eq {rows : List (Uuid × ℤ)}
    (hrows : ∀ m position, (m, position) ∈ rows ↔
      db.repositoryMembers.get? (repo, m) = some position)
    (hsorted : rows.Pairwise fun a b => a.2 < b.2) : db.repoMembers repo = rows.map Prod.fst := by
  have hnodup : rows.Nodup := hsorted.imp fun {a b} hlt he => by
    rw [he] at hlt
    exact lt_irrefl _ hlt
  have hperm : ((db.memberRows repo).mergeSort fun a b => decide (a.2 ≤ b.2)).Perm rows := by
    refine (List.mergeSort_perm _ _).trans
      ((List.perm_ext_iff_of_nodup (List.Nodup.of_map _ nodup_members) hnodup).2 ?_)
    rintro ⟨m, position⟩
    rw [mem_memberRows, hrows]
  have hinjective : (rows.map Prod.snd).Nodup := by
    rw [List.nodup_iff_pairwise_ne, List.pairwise_map]
    exact hsorted.imp fun hlt => ne_of_lt hlt
  have hsame := List.Perm.eq_of_pairwise
    (fun a b ha hb hab hba =>
      List.inj_on_of_nodup_map hinjective (hperm.mem_iff.1 ha) hb (le_antisymm hab hba))
    (pairwise_sortedRows (db.memberRows repo)) (hsorted.imp le_of_lt) hperm
  unfold repoMembers
  rw [hsame]

/-- Two catalogs with the same members at the same positions list them in the same order. -/
theorem repoMembers_congr {db' : Catalog}
    (hkeys : ∀ m m' position, db.repositoryMembers.get? (repo, m) = some position →
      db.repositoryMembers.get? (repo, m') = some position → m = m')
    (h : ∀ m, db'.repositoryMembers.get? (repo, m) = db.repositoryMembers.get? (repo, m)) :
    db'.repoMembers repo = db.repoMembers repo := by
  have hmem : ∀ m position, (m, position) ∈ (db.memberRows repo).mergeSort
      (fun a b => decide (a.2 ≤ b.2)) ↔ db.repositoryMembers.get? (repo, m) = some position :=
    fun m position => (List.mergeSort_perm _ _).mem_iff.trans (mem_memberRows m position)
  have hnodup : ((db.memberRows repo).mergeSort fun a b => decide (a.2 ≤ b.2)).Nodup :=
    (List.mergeSort_perm _ _).nodup_iff.2 (List.Nodup.of_map _ nodup_members)
  refine repoMembers_eq (fun m position => by rw [hmem, h]) ?_
  refine ((pairwise_sortedRows _).and hnodup).imp_of_mem fun {a b} ha hb hab => ?_
  refine lt_of_le_of_ne hab.1 fun hsame => hab.2 (Prod.ext ?_ hsame)
  exact hkeys a.1 b.1 a.2 ((hmem a.1 a.2).1 ha) (hsame ▸ (hmem b.1 b.2).1 hb)

end Catalog

end Sconce
