/-
# Member lists under races

`set_repo_members` checks with one read after the other and then writes, in one transaction at
READ COMMITTED; `upsert_package` checks with a read and then inserts.  What a call found may no
longer be so when its write takes effect, and then two levels of members can come about
(`Levels.two_levels`).

When the checks of every call still hold as its write takes effect, the members stay legal and
in the order they were given (`members_legal_of_timely`).
-/
import Sconce.Lib.Interleaving
import Sconce.Serving.MemberLists

namespace Sconce

open Interleaving Effect

/-! ## The programs -/

/-- What an open transaction of `set_repo_members` has written: the members of `repo` it deleted
and the rows it inserted. -/
structure MemberWrites where
  repo : Uuid
  deleted : List Uuid
  inserted : List (Uuid × ℤ)

/-- The transaction has written something. -/
def MemberWrites.active (w : MemberWrites) : Prop := w.deleted ≠ [] ∨ w.inserted ≠ []

/-- The state the transaction's commit makes of the committed one. -/
def MemberWrites.commit (w : MemberWrites) (db : Catalog) : Catalog :=
  let kept := db.repositoryMembers.delete fun key _ => key.1 = w.repo && key.2 ∈ w.deleted
  { db with repositoryMembers := kept.insertAll (w.inserted.map fun r => ((w.repo, r.1), r.2)) }

/-- Two rows of one repository violate a unique constraint together. -/
def MemberClash (r r' : Uuid × ℤ) : Prop := r.1 = r'.1 ∨ r.2 = r'.2

/-- A call. -/
inductive MemberCall where
  | setMembers (repo : Uuid) (members : List Uuid)
  | upsertPackage (repo : Uuid) (name kind : String) (source : Option Json)
      (visibility : Visibility)

/-- Why a call was rejected. -/
inductive MemberCallError where
  | members (e : RepoMembersError)
  | package (e : UpsertPackageError)

/-- Where a call stands. -/
inductive MembersPc where
  | start
  | checkingLevels
  | checkingPackages
  | clearing
  | placing (n : ℕ)
  | stored
  | ensuringPrivate
  | askingMembers
  | writing
  | upserted (id : Uuid)
  | rejected (e : MemberCallError)
  | crashed

/-- The call has not returned and its connection stands. -/
def MembersPc.running : MembersPc → Prop
  | .stored | .upserted _ | .rejected _ | .crashed => False
  | _ => True

/-- The call has written what it was to write. -/
def MembersPc.done : MembersPc → Prop
  | .stored | .upserted _ => True
  | _ => False

/-- The committed state, and what the open transaction of each call has written. -/
structure MembersStore (ι : Type) where
  db : Catalog
  pending : ι → Option MemberWrites

/-- The visibility that `upsert_package` holds against the policy of the repository. -/
def Catalog.effectiveVisibility (db : Catalog) (repo : Uuid) (name : String)
    (visibility : Visibility) : Visibility :=
  match db.packageVisibility repo name with
  | some ⟨declared, true⟩ => declared
  | _ => visibility

section Steps

variable {ι : Type} [DecidableEq ι]

/-- The call's own writes replaced. -/
def MembersStore.write (s : MembersStore ι) (i : ι) (w : Option MemberWrites) : MembersStore ι :=
  ⟨s.db, Function.update s.pending i w⟩

/-- The insert of a row goes through: the repositories are there, and no row, committed or
pending, stands in its way. -/
structure Placeable (s : MembersStore ι) (i : ι) (w : MemberWrites) (r : Uuid × ℤ) : Prop where
  repo : (s.db.repositories.get? w.repo).isSome
  member : (s.db.repositories.get? r.1).isSome
  committed : ∀ r' ∈ s.db.memberRows w.repo, r'.1 ∉ w.deleted → ¬ MemberClash r r'
  own : ∀ r' ∈ w.inserted, ¬ MemberClash r r'
  others : ∀ j w', j ≠ i → s.pending j = some w' → w'.repo = w.repo → ∀ r' ∈ w'.inserted,
    ¬ MemberClash r r'

/-- The insert of a row fails; while a row in its way is another transaction's to delete, it
waits. -/
def Unplaceable (s : MembersStore ι) (i : ι) (w : MemberWrites) (r : Uuid × ℤ) :
    SqlError → Prop
  | .foreignKeyViolation =>
    s.db.repositories.get? w.repo = none ∨ s.db.repositories.get? r.1 = none
  | .uniqueViolation =>
    (∃ r' ∈ w.inserted, MemberClash r r') ∨
      ∃ r' ∈ s.db.memberRows w.repo, r'.1 ∉ w.deleted ∧ MemberClash r r' ∧
        ∀ j w', j ≠ i → s.pending j = some w' → w'.repo = w.repo → r'.1 ∉ w'.deleted
  | _ => False

/-- One statement, commit or rollback of `set_repo_members` or `upsert_package`. -/
inductive MembersStep (calls : ι → MemberCall) : Act ι (MembersStore ι) MembersPc
  | clears {i s repo} (hcall : calls i = .setMembers repo []) :
      MembersStep calls i s .start s .clearing
  | misListed {i s repo ms message} (hcall : calls i = .setMembers repo ms) (hne : ms ≠ [])
      (hlist : memberListError repo [] ms = some message) :
      MembersStep calls i s .start s (.rejected (.members (.invalid message)))
  | sameOrg {i s repo ms} (hcall : calls i = .setMembers repo ms) (hne : ms ≠ [])
      (hlist : memberListError repo [] ms = none) (horg : s.db.otherOrg repo ms = false) :
      MembersStep calls i s .start s .checkingLevels
  | otherOrg {i s repo ms} (hcall : calls i = .setMembers repo ms) (hne : ms ≠ [])
      (hlist : memberListError repo [] ms = none) (horg : s.db.otherOrg repo ms = true) :
      MembersStep calls i s .start s (.rejected (.members (.invalid
        "members must be repositories of the same organization")))
  | oneLevel {i s repo ms} (hcall : calls i = .setMembers repo ms)
      (hnested : s.db.nested repo ms = false) :
      MembersStep calls i s .checkingLevels s .checkingPackages
  | nested {i s repo ms} (hcall : calls i = .setMembers repo ms)
      (hnested : s.db.nested repo ms = true) :
      MembersStep calls i s .checkingLevels s (.rejected (.members (.invalid
        ("only one level: a member cannot have members, and a repository with "
          ++ "members cannot be a member"))))
  | ownsNone {i s repo ms} (hcall : calls i = .setMembers repo ms)
      (howns : s.db.ownsPackages repo = false) :
      MembersStep calls i s .checkingPackages s .clearing
  | ownsSome {i s repo ms} (hcall : calls i = .setMembers repo ms)
      (howns : s.db.ownsPackages repo = true) :
      MembersStep calls i s .checkingPackages s (.rejected (.members (.invalid
        "the repository owns packages; a repository with members holds none of its own")))
  /-- A row that another transaction has deleted is waited for. -/
  | cleared {i s repo ms} (hcall : calls i = .setMembers repo ms)
      (hlocks : ∀ j w, j ≠ i → s.pending j = some w → w.repo = repo → ∀ m ∈ w.deleted,
        s.db.repositoryMembers.get? (repo, m) = none) :
      MembersStep calls i s .clearing
        (s.write i (some ⟨repo, (s.db.memberRows repo).map Prod.fst, []⟩)) (.placing 0)
  | placed {i s repo ms n m w} (hcall : calls i = .setMembers repo ms) (hm : ms[n]? = some m)
      (hw : s.pending i = some w) (hplace : Placeable s i w (m, memberPosition n)) :
      MembersStep calls i s (.placing n)
        (s.write i (some { w with inserted := w.inserted ++ [(m, memberPosition n)] }))
        (.placing (n + 1))
  | notPlaced {i s repo ms n m w e} (hcall : calls i = .setMembers repo ms)
      (hm : ms[n]? = some m) (hw : s.pending i = some w)
      (hplace : Unplaceable s i w (m, memberPosition n) e) :
      MembersStep calls i s (.placing n) (s.write i none) (.rejected (.members (.db e)))
  | commits {i s repo ms w} (hcall : calls i = .setMembers repo ms) (hw : s.pending i = some w) :
      MembersStep calls i s (.placing ms.length) ⟨w.commit s.db, Function.update s.pending i none⟩
        .stored
  | isPublic {i s repo name kind source visibility}
      (hcall : calls i = .upsertPackage repo name kind source visibility)
      (h : s.db.effectiveVisibility repo name visibility ≠ .private) :
      MembersStep calls i s .start s .askingMembers
  | isPrivate {i s repo name kind source visibility}
      (hcall : calls i = .upsertPackage repo name kind source visibility)
      (h : s.db.effectiveVisibility repo name visibility = .private) :
      MembersStep calls i s .start s .ensuringPrivate
  | allowed {i s repo name kind source visibility}
      (hcall : calls i = .upsertPackage repo name kind source visibility)
      (h : s.db.ensurePrivateAllowed repo = .ok ()) :
      MembersStep calls i s .ensuringPrivate s .askingMembers
  | forbidden {i s repo name kind source visibility e}
      (hcall : calls i = .upsertPackage repo name kind source visibility)
      (h : s.db.ensurePrivateAllowed repo = .error e) :
      MembersStep calls i s .ensuringPrivate s (.rejected (.package e))
  | ordinary {i s repo name kind source visibility}
      (hcall : calls i = .upsertPackage repo name kind source visibility)
      (h : s.db.hasMembers repo = false) : MembersStep calls i s .askingMembers s .writing
  | madeOfMembers {i s repo name kind source visibility}
      (hcall : calls i = .upsertPackage repo name kind source visibility)
      (h : s.db.hasMembers repo = true) :
      MembersStep calls i s .askingMembers s (.rejected (.package (.policy
        ("this repository is made of member repositories and holds no packages "
          ++ "of its own: publish or mirror into one of its members"))))
  /-- The database draws the id of a new row. -/
  | upserted {i s repo name kind source visibility newId id db'}
      (hcall : calls i = .upsertPackage repo name kind source visibility)
      (h : exec (insertPackage newId repo name kind source visibility) s.db = (.ok id, db')) :
      MembersStep calls i s .writing ⟨db', s.pending⟩ (.upserted id)
  | notUpserted {i s repo name kind source visibility newId e db'}
      (hcall : calls i = .upsertPackage repo name kind source visibility)
      (h : exec (insertPackage newId repo name kind source visibility) s.db = (.error e, db')) :
      MembersStep calls i s .writing ⟨db', s.pending⟩ (.rejected (.package (.db e)))
  | crashes {i s p} (h : p.running) : MembersStep calls i s p (s.write i none) .crashed

/-! ## What is claimed, and when it holds -/

/-- What a step has to meet: what the call found in its checks is still so as its write takes
effect. -/
def Timely (calls : ι → MemberCall) (i : ι) (s : MembersStore ι) : MembersPc → Prop
  | .stored => ∀ repo ms, calls i = .setMembers repo ms → ms ≠ [] →
      s.db.nested repo ms = false ∧ s.db.ownsPackages repo = false
  | .upserted _ => ∀ repo name kind source visibility,
      calls i = .upsertPackage repo name kind source visibility → s.db.hasMembers repo = false
  | _ => True

/-- The steps that meet it. -/
def TimelyStep (calls : ι → MemberCall) : Act ι (MembersStore ι) MembersPc :=
  fun i s p s' p' => MembersStep calls i s p s' p' ∧ Timely calls i s p'

/-- Every call about to begin. -/
def membersFrom (db : Catalog) : Config ι (MembersStore ι) MembersPc :=
  ⟨⟨db, fun _ => none⟩, fun _ => .start⟩

/-- The members are legal, each once and in the order of a call that has returned, or the one
they had at first; and a rejected call has changed nothing. -/
structure MembersRight (calls : ι → MemberCall) (db₀ : Catalog)
    (events : List (Event ι (MembersStore ι))) (c : Config ι (MembersStore ι) MembersPc) :
    Prop where
  legal : c.shared.db.LegalMembers
  distinct : ∀ repo, (c.shared.db.repoMembers repo).Nodup
  inOrder : ∀ repo, c.shared.db.repoMembers repo = db₀.repoMembers repo ∨
    ∃ i, c.pc i = .stored ∧ calls i = .setMembers repo (c.shared.db.repoMembers repo)
  rejected : ∀ i e, c.pc i = .rejected e → ∀ ev ∈ events, ev.agent = i →
    ev.after.db = ev.before.db

end Steps

/-! ## The statements -/

/-- What `insert into packages …` writes: a package of the repository, or nothing. -/
theorem insertPackage_ok {db db' : Catalog} {newId repo id : Uuid} {name kind : String}
    {source : Option Json} {visibility : Visibility}
    (h : exec (insertPackage newId repo name kind source visibility) db = (.ok id, db')) :
    ∃ packages, db' = { db with packages } ∧ ∀ id' p, packages.get? id' = some p →
      p.repoId = repo ∨ ∃ p', db.packages.get? id' = some p' ∧ p'.repoId = p.repoId := by
  unfold insertPackage at h
  simp only [exec_bind, exec_get, exec_ofExcept, exec_modify, exec_pure, andThen] at h
  cases hid : db.packageId newId repo name with
  | error e =>
    rw [hid] at h
    cases (Prod.mk.inj h).1
  | ok id =>
    rw [hid] at h
    refine ⟨_, ((Prod.mk.inj h).2).symm, fun id' p hp => ?_⟩
    rw [Table.get?_upsert] at hp
    split_ifs at hp with hsame
    · obtain rfl := hsame
      cases hold : db.packages.get? id' with
      | none =>
        rw [hold] at hp
        obtain rfl := Option.some.inj hp
        exact .inl rfl
      | some p' =>
        rw [hold] at hp
        obtain rfl := Option.some.inj hp
        exact .inr ⟨p', rfl, rfl⟩
    · exact .inr ⟨p, hp, rfl⟩

/-- A package that is refused leaves the catalog. -/
theorem insertPackage_error {db db' : Catalog} {newId repo : Uuid} {name kind : String}
    {source : Option Json} {visibility : Visibility} {e : SqlError}
    (h : exec (insertPackage newId repo name kind source visibility) db = (.error e, db')) :
    db' = db := by
  unfold insertPackage at h
  simp only [exec_bind, exec_get, exec_ofExcept, exec_modify, exec_pure, andThen] at h
  cases hid : db.packageId newId repo name with
  | error e =>
    rw [hid] at h
    exact (Prod.mk.inj h).2.symm
  | ok id =>
    rw [hid] at h
    cases (Prod.mk.inj h).1

/-- Which members fit depends on the repositories alone. -/
theorem Catalog.FitMembers.congr {db db' : Catalog} {repo : Uuid} {members : List Uuid}
    (h : db.FitMembers repo members) (hsame : db'.repositories = db.repositories) :
    db'.FitMembers repo members := by
  refine ⟨h.notSelf, h.nodup, ?_⟩
  rw [hsame]
  exact h.sameOrg

namespace MemberWrites

variable {w : MemberWrites} {db : Catalog} {repo m : Uuid} {position : ℤ}

/-- The rows after a commit were there before, or were inserted. -/
theorem commit_source
    (h : (w.commit db).repositoryMembers.get? (repo, m) = some position) :
    db.repositoryMembers.get? (repo, m) = some position ∨
      repo = w.repo ∧ (m, position) ∈ w.inserted := by
  by_cases hsel : ∃ v, ((repo, m), v) ∈ w.inserted.map fun r => ((w.repo, r.1), r.2)
  · obtain ⟨v, hv⟩ := hsel
    obtain ⟨v', hv', hor⟩ := Table.get?_insertAll_of_mem (db.repositoryMembers.delete
      fun key _ => key.1 = w.repo && key.2 ∈ w.deleted) hv
    obtain rfl := Option.some.inj (hv'.symm.trans h)
    rcases hor with hkept | hmem
    · rw [Table.get?_delete] at hkept
      exact .inl (Option.filter_eq_some_iff.1 hkept).1
    · obtain ⟨⟨m', v''⟩, hr, he⟩ := List.mem_map.1 hmem
      obtain ⟨hkey, rfl⟩ := Prod.mk.inj he
      obtain ⟨rfl, rfl⟩ := Prod.mk.inj hkey
      exact .inr ⟨rfl, hr⟩
  · have hkept := (Table.get?_insertAll_of_notMem (db.repositoryMembers.delete
      fun key _ => key.1 = w.repo && key.2 ∈ w.deleted) (not_exists.1 hsel)).symm.trans h
    rw [Table.get?_delete] at hkept
    exact .inl (Option.filter_eq_some_iff.1 hkept).1

/-- A commit leaves the other repositories alone. -/
theorem commit_other (hrepo : repo ≠ w.repo) (m : Uuid) :
    (w.commit db).repositoryMembers.get? (repo, m) = db.repositoryMembers.get? (repo, m) := by
  have hnot : ∀ v, ((repo, m), v) ∉ w.inserted.map fun r => ((w.repo, r.1), r.2) := by
    intro v hv
    obtain ⟨r, -, he⟩ := List.mem_map.1 hv
    exact hrepo (Prod.mk.inj (Prod.mk.inj he).1).1.symm
  refine (Table.get?_insertAll_of_notMem _ hnot).trans ?_
  rw [Table.get?_delete]
  cases db.repositoryMembers.get? (repo, m) <;> simp [hrepo]

/-- A transaction that has written nothing commits nothing. -/
theorem commit_idle (h : ¬ w.active) (key : Uuid × Uuid) :
    (w.commit db).repositoryMembers.get? key = db.repositoryMembers.get? key := by
  obtain ⟨hdeleted, hinserted⟩ := not_or.1 h
  have hsame : (w.commit db).repositoryMembers = db.repositoryMembers.delete
      fun key _ => key.1 = w.repo && key.2 ∈ w.deleted := by
    unfold commit
    simp only [not_not.1 hinserted]
    rfl
  rw [hsame, Table.get?_delete, not_not.1 hdeleted]
  cases db.repositoryMembers.get? key <;> simp

/-- Where every row was deleted, a commit leaves the inserted ones. -/
theorem commit_self (hcovers : ∀ m, (db.repositoryMembers.get? (w.repo, m)).isSome → m ∈ w.deleted)
    (hnodup : (w.inserted.map Prod.fst).Nodup) :
    (w.commit db).repositoryMembers.get? (w.repo, m) = some position ↔
      (m, position) ∈ w.inserted := by
  -- of the old rows of the repository none is left to shadow an inserted one
  have hkept : (db.repositoryMembers.delete fun key _ =>
      key.1 = w.repo && key.2 ∈ w.deleted).get? (w.repo, m) = none := by
    rw [Table.get?_delete]
    cases hrow : db.repositoryMembers.get? (w.repo, m) with
    | none => rfl
    | some v => simp [hcovers m (by rw [hrow]; rfl)]
  -- so what is found under a listed member is an inserted position
  have hlisted : ∀ {v}, (m, v) ∈ w.inserted → ∃ v', (m, v') ∈ w.inserted ∧
      (w.commit db).repositoryMembers.get? (w.repo, m) = some v' := by
    intro v hv
    have hsel : ((w.repo, m), v) ∈ w.inserted.map fun r => ((w.repo, r.1), r.2) :=
      List.mem_map.2 ⟨_, hv, rfl⟩
    obtain ⟨v', hv', hor⟩ := Table.get?_insertAll_of_mem (db.repositoryMembers.delete
      fun key _ => key.1 = w.repo && key.2 ∈ w.deleted) hsel
    rcases hor with hold | hmem
    · exact absurd (hkept.symm.trans hold) nofun
    · obtain ⟨⟨m', v''⟩, hr, he⟩ := List.mem_map.1 hmem
      obtain ⟨hkey, rfl⟩ := Prod.mk.inj he
      obtain ⟨-, rfl⟩ := Prod.mk.inj hkey
      exact ⟨_, hr, hv'⟩
  constructor
  · intro h
    by_cases hsel : ∃ v, (m, v) ∈ w.inserted
    · obtain ⟨v, hv⟩ := hsel
      obtain ⟨v', hmem, hv'⟩ := hlisted hv
      rwa [Option.some.inj (h.symm.trans hv')]
    · have hnot : ∀ v, ((w.repo, m), v) ∉ w.inserted.map fun r => ((w.repo, r.1), r.2) := by
        intro v hv
        obtain ⟨⟨m', v'⟩, hr, he⟩ := List.mem_map.1 hv
        obtain ⟨-, rfl⟩ := Prod.mk.inj (Prod.mk.inj he).1
        exact hsel ⟨v', hr⟩
      have hnone := (Table.get?_insertAll_of_notMem _ hnot).trans hkept
      exact absurd (hnone.symm.trans h) nofun
  · intro h
    -- members are listed once, so it is the position listed
    obtain ⟨v', hmem, hv'⟩ := hlisted h
    rw [hv']
    exact congrArg (fun r => some (Prod.snd r)) (List.inj_on_of_nodup_map hnodup hmem h rfl)

end MemberWrites

/-- The rows of the first `n` members. -/
def placedRows (ms : List Uuid) (n : ℕ) : List (Uuid × ℤ) :=
  (ms.take n).zipIdx.map fun r => (r.1, memberPosition r.2)

/-- One member more is one row more, at the next position. -/
theorem placedRows_succ {ms : List Uuid} {n : ℕ} {m : Uuid} (hm : ms[n]? = some m) :
    placedRows ms (n + 1) = placedRows ms n ++ [(m, memberPosition n)] := by
  obtain ⟨hn, -⟩ := List.getElem?_eq_some_iff.1 hm
  unfold placedRows
  rw [List.take_add_one, hm, List.zipIdx_append, List.map_append, List.length_take,
    Nat.min_eq_left (Nat.le_of_lt hn)]
  simp

/-- The rows placed are of the members so far. -/
theorem placedRows_members {ms : List Uuid} {n : ℕ} :
    (placedRows ms n).map Prod.fst = ms.take n := by
  unfold placedRows
  rw [List.map_map]
  exact List.zipIdx_map_fst 0 _

/-- Their positions are those counted so far. -/
theorem placedRows_position {ms : List Uuid} {n : ℕ} {r : Uuid × ℤ} (hr : r ∈ placedRows ms n) :
    r.2 ≤ memberPosition n := by
  obtain ⟨⟨m, k⟩, hk, rfl⟩ := List.mem_map.1 hr
  have hlt := List.snd_lt_of_mem_zipIdx hk
  rw [List.length_take] at hlt
  show memberPosition k ≤ memberPosition n
  unfold memberPosition
  omega

/-! ## The outline -/

section Outline

variable {ι : Type}

/-- What holds of the writes of an open transaction: the rows it has deleted are there, and once
it has written something it has deleted every row of its repository and no other transaction
has written anything to it. -/
structure PendingOk (s : MembersStore ι) (i : ι) (w : MemberWrites) : Prop where
  present : ∀ m ∈ w.deleted, (s.db.repositoryMembers.get? (w.repo, m)).isSome
  covers : w.active → ∀ m, (s.db.repositoryMembers.get? (w.repo, m)).isSome → m ∈ w.deleted
  alone : w.active → ∀ j w', j ≠ i → s.pending j = some w' → w'.repo = w.repo → ¬ w'.active
  fromZero : ¬ w.active → ∀ m, (s.db.repositoryMembers.get? (w.repo, m)).isSome →
    ∃ m₀, s.db.repositoryMembers.get? (w.repo, m₀) = some 0
  begins : w.inserted ≠ [] → ∃ m₀, (m₀, 0) ∈ w.inserted

/-- The members are legal, and the open transactions are in order. -/
structure MembersInv (s : MembersStore ι) : Prop where
  legal : s.db.LegalMembers
  pending : ∀ i w, s.pending i = some w → PendingOk s i w

/-- How far a transaction has inserted its members. -/
structure MemberWrites.Placed (w : MemberWrites) (db : Catalog) (repo : Uuid) (ms : List Uuid)
    (n : ℕ) : Prop where
  ofRepo : w.repo = repo
  fits : ms ≠ [] → db.FitMembers repo ms
  inserted : w.inserted = placedRows ms n
  sorted : w.inserted.Pairwise fun a b => a.2 < b.2
  exists_repo : w.inserted ≠ [] → (db.repositories.get? repo).isSome

/-- What holds of a call where it stands. -/
def MembersAt (calls : ι → MemberCall) (i : ι) (s : MembersStore ι) : MembersPc → Prop
  | .checkingLevels | .checkingPackages | .clearing => s.pending i = none ∧
      ∀ repo ms, calls i = .setMembers repo ms → ms ≠ [] → s.db.FitMembers repo ms
  | .placing n => ∃ w, s.pending i = some w ∧
      ∀ repo ms, calls i = .setMembers repo ms → w.Placed s.db repo ms n
  | _ => s.pending i = none

variable [DecidableEq ι] {calls : ι → MemberCall} {i : ι} {s s' : MembersStore ι}
  {p p' : MembersPc} {w : MemberWrites}

theorem write_pending_self (w : Option MemberWrites) : (s.write i w).pending i = w :=
  Function.update_self ..

theorem write_pending_of_ne {j : ι} (hj : j ≠ i) (w : Option MemberWrites) :
    (s.write i w).pending j = s.pending j := Function.update_of_ne hj ..

/-- A transaction that writes in order keeps the others in order. -/
theorem MembersInv.writes (hinv : MembersInv s) (h : PendingOk s i w) :
    MembersInv (s.write i (some w)) := by
  refine ⟨hinv.legal, fun j w' hw' => ?_⟩
  by_cases hji : j = i
  · subst hji
    rw [write_pending_self] at hw'
    obtain rfl := Option.some.inj hw'
    refine ⟨h.present, h.covers, fun hactive k w'' hk hw'' hrepo => ?_, h.fromZero, h.begins⟩
    rw [write_pending_of_ne hk] at hw''
    exact h.alone hactive k w'' hk hw'' hrepo
  · rw [write_pending_of_ne hji] at hw'
    have hother := hinv.pending j w' hw'
    refine ⟨hother.present, hother.covers, fun hactive k w'' hk hw'' hrepo => ?_,
      hother.fromZero, hother.begins⟩
    by_cases hki : k = i
    · subst hki
      rw [write_pending_self] at hw''
      obtain rfl := Option.some.inj hw''
      exact fun hw => h.alone hw j w' hji hw' hrepo.symm hactive
    · rw [write_pending_of_ne hki] at hw''
      exact hother.alone hactive k w'' hk hw'' hrepo

/-- So does one that is rolled back. -/
theorem MembersInv.rollsBack (hinv : MembersInv s) : MembersInv (s.write i none) := by
  refine ⟨hinv.legal, fun j w' hw' => ?_⟩
  have hji : j ≠ i := by
    rintro rfl
    rw [write_pending_self] at hw'
    exact absurd hw' nofun
  rw [write_pending_of_ne hji] at hw'
  have hother := hinv.pending j w' hw'
  refine ⟨hother.present, hother.covers, fun hactive k w'' hk hw'' hrepo => ?_,
    hother.fromZero, hother.begins⟩
  have hki : k ≠ i := by
    rintro rfl
    rw [write_pending_self] at hw''
    exact absurd hw'' nofun
  rw [write_pending_of_ne hki] at hw''
  exact hother.alone hactive k w'' hk hw'' hrepo

omit [DecidableEq ι] in
/-- The delete: what it deletes is nobody else's to delete, and nobody else has inserted. -/
theorem MembersInv.clears (hinv : MembersInv s) {repo : Uuid}
    (hlocks : ∀ j w, j ≠ i → s.pending j = some w → w.repo = repo → ∀ m ∈ w.deleted,
      s.db.repositoryMembers.get? (repo, m) = none) :
    PendingOk s i ⟨repo, (s.db.memberRows repo).map Prod.fst, []⟩ := by
  have hrow : ∀ m, m ∈ (s.db.memberRows repo).map Prod.fst ↔
      (s.db.repositoryMembers.get? (repo, m)).isSome := by
    intro m
    rw [List.mem_map, Option.isSome_iff_exists]
    constructor
    · rintro ⟨⟨m', position⟩, hr, rfl⟩
      exact ⟨position, (Catalog.mem_memberRows _ _).1 hr⟩
    · rintro ⟨position, hget⟩
      exact ⟨(m, position), (Catalog.mem_memberRows _ _).2 hget, rfl⟩
  refine ⟨fun m hm => (hrow m).1 hm, fun _ m hm => (hrow m).2 hm, ?_, ?_, fun h => absurd rfl h⟩
  · rintro (hdeleted | hinserted) j w' hj hw' hrepo hactive
    · -- a row that it deletes would be the other's, which has written something
      obtain ⟨m, hm⟩ := List.exists_mem_of_ne_nil _ hdeleted
      have hsome := (hrow m).1 hm
      have hother := (hinv.pending j w' hw').covers hactive m (by rw [hrepo]; exact hsome)
      rw [hlocks j w' hj hw' hrepo m hother] at hsome
      exact absurd hsome nofun
    · exact absurd rfl hinserted
  · intro hidle m hm
    exact absurd (Or.inl (List.ne_nil_of_mem ((hrow m).2 hm))) hidle

omit [DecidableEq ι] in
/-- The first insert finds no row, and no other transaction that has written something. -/
theorem MembersInv.places (hinv : MembersInv s) (hw : s.pending i = some w) {n : ℕ} {m : Uuid}
    {ms : List Uuid} (hinserted : w.inserted = placedRows ms n)
    (hm : ms[n]? = some m) (hplace : Placeable s i w (m, memberPosition n)) :
    PendingOk s i { w with inserted := w.inserted ++ [(m, memberPosition n)] } := by
  have hown := hinv.pending i w hw
  have hzero : w.inserted = [] → memberPosition n = 0 := by
    intro hnil
    have hlen : (ms.take n).length = 0 := by
      rw [← placedRows_members, ← hinserted, hnil]
      rfl
    obtain ⟨hn, -⟩ := List.getElem?_eq_some_iff.1 hm
    rw [List.length_take, Nat.min_eq_left (Nat.le_of_lt hn)] at hlen
    rw [hlen]
    rfl
  -- a transaction that has written nothing finds the repository without members
  have hempty : ¬ w.active → ∀ m', s.db.repositoryMembers.get? (w.repo, m') = none := by
    intro hidle m'
    obtain ⟨hdeleted, hnil⟩ := not_or.1 hidle
    by_contra hsome
    obtain ⟨m₀, hm₀⟩ := hown.fromZero hidle m' (Option.isSome_iff_ne_none.2 hsome)
    refine hplace.committed (m₀, 0) ((Catalog.mem_memberRows _ _).2 hm₀) ?_
      (.inr (hzero (not_not.1 hnil)))
    rw [not_not.1 hdeleted]
    exact List.not_mem_nil
  refine ⟨hown.present, fun _ m' hm' => ?_, fun _ j w' hj hw' hrepo hactive => ?_,
    fun hidle => absurd (Or.inr (List.append_ne_nil_of_right_ne_nil _ (List.cons_ne_nil _ _)))
      hidle, fun _ => ?_⟩
  · by_cases hactive : w.active
    · exact hown.covers hactive m' hm'
    · rw [hempty hactive m'] at hm'
      exact absurd hm' nofun
  · by_cases hwactive : w.active
    · exact hown.alone hwactive j w' hj hw' hrepo hactive
    · have hother := hinv.pending j w' hw'
      rcases hactive with hdeleted | hinserted'
      · obtain ⟨m', hm'⟩ := List.exists_mem_of_ne_nil _ hdeleted
        have hpresent := hother.present m' hm'
        rw [hrepo, hempty hwactive m'] at hpresent
        exact absurd hpresent nofun
      · obtain ⟨m₀, hm₀⟩ := hother.begins hinserted'
        exact hplace.others j w' hj hw' hrepo (m₀, 0) hm₀
          (.inr (hzero (not_not.1 (not_or.1 hwactive).2)))
  · by_cases hnil : w.inserted = []
    · refine ⟨m, List.mem_append_right _ ?_⟩
      rw [hzero hnil]
      exact List.mem_singleton_self _
    · obtain ⟨m₀, hm₀⟩ := hown.begins hnil
      exact ⟨m₀, List.mem_append_left _ hm₀⟩

namespace MemberWrites.Placed

variable {db : Catalog} {repo : Uuid} {ms : List Uuid} {n : ℕ}

/-- An inserted row is of a member. -/
theorem mem (h : w.Placed db repo ms n) {r : Uuid × ℤ} (hr : r ∈ w.inserted) : r.1 ∈ ms := by
  have hmem : r.1 ∈ w.inserted.map Prod.fst := List.mem_map_of_mem hr
  rw [h.inserted, placedRows_members] at hmem
  exact List.mem_of_mem_take hmem

theorem nodup (h : w.Placed db repo ms n) : (w.inserted.map Prod.fst).Nodup := by
  rw [h.inserted, placedRows_members]
  by_cases hms : ms = []
  · rw [hms, List.take_nil]
    exact List.nodup_nil
  · exact (h.fits hms).nodup.sublist (List.take_sublist _ _)

omit [DecidableEq ι] in
/-- What a commit in time leaves is legal. -/
theorem legal (h : w.Placed s.db repo ms n) (hown : PendingOk s i w) (hlegal : s.db.LegalMembers)
    (htimely : ms ≠ [] → s.db.nested repo ms = false ∧ s.db.ownsPackages repo = false) :
    (w.commit s.db).LegalMembers := by
  -- a row after the commit was there before, or is one of the call's
  have hsource : ∀ {repo' m}, ((w.commit s.db).repositoryMembers.get? (repo', m)).isSome →
      (s.db.repositoryMembers.get? (repo', m)).isSome ∨
        repo' = repo ∧ m ∈ ms ∧ ms ≠ [] ∧ (s.db.repositories.get? repo).isSome := by
    intro repo' m hsome
    obtain ⟨position, hget⟩ := Option.isSome_iff_exists.1 hsome
    rcases commit_source hget with hold | ⟨hrepo, hr⟩
    · exact .inl (Option.isSome_iff_exists.2 ⟨position, hold⟩)
    · exact .inr ⟨hrepo.trans h.ofRepo, h.mem hr, List.ne_nil_of_mem (h.mem hr),
        h.exists_repo (List.ne_nil_of_mem hr)⟩
  refine ⟨fun repo' m m' position hm hm' => ?_, fun repo' m hm => ?_, fun repo' m m' hm => ?_,
    fun repo' m hm => ?_⟩
  · by_cases hrepo : repo' = w.repo
    · subst hrepo
      by_cases hactive : w.active
      · rw [commit_self (hown.covers hactive) h.nodup] at hm hm'
        have hpositions : (w.inserted.map Prod.snd).Nodup := by
          rw [List.nodup_iff_pairwise_ne, List.pairwise_map]
          exact h.sorted.imp fun hlt => ne_of_lt hlt
        exact congrArg Prod.fst (List.inj_on_of_nodup_map hpositions hm hm' rfl)
      · rw [commit_idle hactive] at hm hm'
        exact hlegal.keys _ m m' position hm hm'
    · rw [commit_other hrepo] at hm hm'
      exact hlegal.keys _ m m' position hm hm'
  · rcases hsource hm with hold | ⟨rfl, -, hms, -⟩
    · exact hlegal.ownsNothing repo' m hold
    · exact Catalog.ownsPackages_eq_false_iff.1 (htimely hms).2
  · by_contra hnext
    rcases hsource hm with hold | ⟨rfl, hmem, hms, -⟩ <;>
      rcases hsource (Option.isSome_iff_ne_none.2 hnext) with hold' | ⟨rfl, hmem', hms', -⟩
    · rw [hlegal.oneLevel repo' m m' hold] at hold'
      exact absurd hold' nofun
    · have hnone := (Catalog.nested_eq_false_iff.1 (htimely hms').1).2 repo'
      rw [hnone] at hold
      exact absurd hold nofun
    · have hnone := (Catalog.nested_eq_false_iff.1 (htimely hms).1).1 m hmem m'
      rw [hnone] at hold'
      exact absurd hold' nofun
    · exact (h.fits hms).notSelf hmem
  · rcases hsource hm with hold | ⟨rfl, hmem, hms, hrepo⟩
    · exact hlegal.sameOrg repo' m hold
    · obtain ⟨r, hr⟩ := Option.isSome_iff_exists.1 hrepo
      obtain ⟨r', hr', hsame⟩ := (h.fits hms).sameOrg m hmem
      exact ⟨r, r', hr, hr', hsame r hr⟩

end MemberWrites.Placed

/-- A commit in time. -/
theorem MembersInv.commits (hinv : MembersInv s) (hw : s.pending i = some w)
    {repo : Uuid} {ms : List Uuid} (hplaced : w.Placed s.db repo ms ms.length)
    (htimely : ms ≠ [] → s.db.nested repo ms = false ∧ s.db.ownsPackages repo = false) :
    MembersInv ⟨w.commit s.db, Function.update s.pending i none⟩ := by
  have hown := hinv.pending i w hw
  refine ⟨hplaced.legal hown hinv.legal htimely, fun j w' hw' => ?_⟩
  change Function.update s.pending i none j = some w' at hw'
  have hji : j ≠ i := by
    rintro rfl
    rw [Function.update_self] at hw'
    exact absurd hw' nofun
  rw [Function.update_of_ne hji] at hw'
  have hother := hinv.pending j w' hw'
  have halone : w'.active → ∀ k w'', k ≠ j → Function.update s.pending i none k = some w'' →
      w''.repo = w'.repo → ¬ w''.active := by
    intro hactive k w'' hk hw'' hrepo
    by_cases hki : k = i
    · rw [hki, Function.update_self] at hw''
      exact absurd hw'' nofun
    · rw [Function.update_of_ne hki] at hw''
      exact hother.alone hactive k w'' hk hw'' hrepo
  by_cases hrows : ∀ m, (w.commit s.db).repositoryMembers.get? (w'.repo, m)
      = s.db.repositoryMembers.get? (w'.repo, m)
  · -- the rows of the other's repository are as they were
    refine ⟨?_, ?_, halone, ?_, hother.begins⟩
    · simpa only [hrows] using hother.present
    · simpa only [hrows] using hother.covers
    · simpa only [hrows] using hother.fromZero
  · -- they are the committed ones, and the other has written nothing
    have hrepo : w'.repo = w.repo := by
      by_contra hne
      exact hrows fun m => MemberWrites.commit_other hne m
    have hactive : w.active := by
      by_contra hidle
      exact hrows fun m => MemberWrites.commit_idle hidle _
    have hidle := hown.alone hactive j w' hji hw' hrepo
    obtain ⟨hdeleted, hinserted⟩ := not_or.1 hidle
    refine ⟨fun m hm => ?_, fun h => absurd h hidle, halone, fun _ m hm => ?_,
      fun h => absurd h hinserted⟩
    · rw [not_not.1 hdeleted] at hm
      exact absurd hm List.not_mem_nil
    · have hself := fun m position => @MemberWrites.commit_self w s.db m position
        (hown.covers hactive) hplaced.nodup
      rw [hrepo] at hm ⊢
      obtain ⟨position, hget⟩ := Option.isSome_iff_exists.1 hm
      obtain ⟨m₀, hm₀⟩ := hown.begins (List.ne_nil_of_mem ((hself m position).1 hget))
      exact ⟨m₀, (hself m₀ 0).2 hm₀⟩

omit [DecidableEq ι] in
/-- A package in time. -/
theorem MembersInv.upserts (hinv : MembersInv s) {newId repo id : Uuid} {name kind : String}
    {source : Option Json} {visibility : Visibility} {db' : Catalog}
    (h : exec (insertPackage newId repo name kind source visibility) s.db = (.ok id, db'))
    (htimely : s.db.hasMembers repo = false) : MembersInv ⟨db', s.pending⟩ := by
  obtain ⟨packages, rfl, hpackages⟩ := insertPackage_ok h
  refine ⟨⟨hinv.legal.keys, fun repo' m hm id' p hp => ?_, hinv.legal.oneLevel,
    hinv.legal.sameOrg⟩, fun j w hw => ?_⟩
  · rcases hpackages id' p hp with hnew | ⟨p', hp', hsame⟩
    · rintro rfl
      have hnone := Catalog.hasMembers_eq_false_iff.1 htimely m
      rw [← hnew] at hnone
      exact absurd (hnone ▸ hm) nofun
    · rw [← hsame]
      exact hinv.legal.ownsNothing repo' m hm id' p' hp'
  · have hother := hinv.pending j w hw
    exact ⟨hother.present, hother.covers, hother.alone, hother.fromZero, hother.begins⟩

/-- A step leaves the repositories, and the writes of the other transactions. -/
theorem MembersStep.frame (h : MembersStep calls i s p s' p') :
    (∀ j, j ≠ i → s'.pending j = s.pending j) ∧ s'.db.repositories = s.db.repositories := by
  cases h with
  | cleared | placed | notPlaced | crashes =>
    exact ⟨fun j hj => write_pending_of_ne hj _, rfl⟩
  | commits => exact ⟨fun j hj => Function.update_of_ne hj _ _, rfl⟩
  | upserted _ h =>
    obtain ⟨packages, rfl, -⟩ := insertPackage_ok h
    exact ⟨fun _ _ => rfl, rfl⟩
  | notUpserted _ h =>
    obtain rfl := insertPackage_error h
    exact ⟨fun _ _ => rfl, rfl⟩
  | _ => exact ⟨fun _ _ => rfl, rfl⟩

omit [DecidableEq ι] in
/-- What a call holds of itself survives the steps of the others. -/
theorem MembersAt.frame {j : ι} (hat : MembersAt calls j s p)
    (hpending : s'.pending j = s.pending j) (hrepos : s'.db.repositories = s.db.repositories) :
    MembersAt calls j s' p := by
  have hchecked : (s.pending j = none ∧
      ∀ repo ms, calls j = .setMembers repo ms → ms ≠ [] → s.db.FitMembers repo ms) →
      s'.pending j = none ∧
        ∀ repo ms, calls j = .setMembers repo ms → ms ≠ [] → s'.db.FitMembers repo ms :=
    fun h => ⟨hpending.trans h.1, fun repo ms hcall hne => (h.2 repo ms hcall hne).congr hrepos⟩
  cases p with
  | checkingLevels => exact hchecked hat
  | checkingPackages => exact hchecked hat
  | clearing => exact hchecked hat
  | placing n =>
    obtain ⟨w, hw, hplaced⟩ := hat
    refine ⟨w, hpending.trans hw, fun repo ms hcall => ?_⟩
    have h := hplaced repo ms hcall
    refine ⟨h.ofRepo, fun hne => (h.fits hne).congr hrepos, h.inserted, h.sorted, fun hne => ?_⟩
    rw [hrepos]
    exact h.exists_repo hne
  | start => exact hpending.trans hat
  | stored => exact hpending.trans hat
  | ensuringPrivate => exact hpending.trans hat
  | askingMembers => exact hpending.trans hat
  | writing => exact hpending.trans hat
  | upserted id => exact hpending.trans hat
  | rejected e => exact hpending.trans hat
  | crashed => exact hpending.trans hat

omit [DecidableEq ι] in
/-- The next member is at a position after the others'. -/
theorem MemberWrites.Placed.next {repo : Uuid} {ms : List Uuid} {n : ℕ} {m : Uuid}
    (h : w.Placed s.db repo ms n) (hm : ms[n]? = some m)
    (hplace : Placeable s i w (m, memberPosition n)) :
    MemberWrites.Placed { w with inserted := w.inserted ++ [(m, memberPosition n)] } s.db repo ms
      (n + 1) := by
  refine ⟨h.ofRepo, h.fits, ?_, ?_, fun _ => ?_⟩
  · rw [placedRows_succ hm, ← h.inserted]
  · refine List.pairwise_append.2 ⟨h.sorted, List.pairwise_singleton _ _, fun a ha b hb => ?_⟩
    obtain rfl := List.mem_singleton.1 hb
    refine lt_of_le_of_ne (placedRows_position (h.inserted ▸ ha)) fun hsame => ?_
    exact hplace.own a ha (.inr hsame.symm)
  · rw [← h.ofRepo]
    exact hplace.repo

/-- A step in time keeps the members legal, and stands where it should. -/
theorem TimelyStep.sound (h : TimelyStep calls i s p s' p') (hinv : MembersInv s)
    (hat : MembersAt calls i s p) : MembersInv s' ∧ MembersAt calls i s' p' := by
  obtain ⟨hstep, htimely⟩ := h
  cases hstep with
  | clears hcall =>
    -- clearing the list needs no checks
    refine ⟨hinv, hat, fun repo' ms' hcall' hne => ?_⟩
    obtain ⟨-, rfl⟩ := MemberCall.setMembers.inj (hcall.symm.trans hcall')
    exact absurd rfl hne
  | sameOrg hcall hne hlist horg =>
    refine ⟨hinv, hat, fun repo' ms' hcall' _ => ?_⟩
    obtain ⟨rfl, rfl⟩ := MemberCall.setMembers.inj (hcall.symm.trans hcall')
    exact .of_checks hlist horg
  | oneLevel => exact ⟨hinv, hat⟩
  | ownsNone => exact ⟨hinv, hat⟩
  | nested | ownsSome => exact ⟨hinv, hat.1⟩
  | cleared hcall hlocks =>
    refine ⟨hinv.writes (hinv.clears hlocks), _, write_pending_self _, fun repo' ms' hcall' => ?_⟩
    obtain ⟨rfl, rfl⟩ := MemberCall.setMembers.inj (hcall.symm.trans hcall')
    exact ⟨rfl, hat.2 _ _ hcall, rfl, List.Pairwise.nil, fun h => absurd rfl h⟩
  | placed hcall hm hw hplace =>
    obtain ⟨w', hw', hplaced⟩ := hat
    obtain rfl := Option.some.inj (hw.symm.trans hw')
    have hplaced := hplaced _ _ hcall
    -- what was placed before is still placed, beside the new member
    refine ⟨hinv.writes (hinv.places hw hplaced.inserted hm hplace), _, write_pending_self _,
      fun repo' ms' hcall' => ?_⟩
    obtain ⟨rfl, rfl⟩ := MemberCall.setMembers.inj (hcall.symm.trans hcall')
    exact hplaced.next hm hplace
  | notPlaced => exact ⟨hinv.rollsBack, write_pending_self _⟩
  | commits hcall hw =>
    obtain ⟨w', hw', hplaced⟩ := hat
    obtain rfl := Option.some.inj (hw.symm.trans hw')
    -- the step is timely: what the checks found still holds at the commit
    exact ⟨hinv.commits hw (hplaced _ _ hcall) (htimely _ _ hcall), Function.update_self ..⟩
  | upserted hcall h =>
    exact ⟨hinv.upserts h (htimely _ _ _ _ _ hcall), hat⟩
  | notUpserted _ h =>
    obtain rfl := insertPackage_error h
    exact ⟨hinv, hat⟩
  | crashes => exact ⟨hinv.rollsBack, write_pending_self _⟩
  | _ => exact ⟨hinv, hat⟩

/-- The annotation is an outline of the timely steps. -/
theorem members_outline (calls : ι → MemberCall) :
    Outline (TimelyStep calls) MembersInv (MembersAt calls) fun _ _ _ _ => True where
  symm := id
  sound := TimelyStep.sound
  free := fun hij hstep _ _ hj _ =>
    have hframe := hstep.1.frame
    hj.frame (hframe.1 _ (Ne.symm hij)) hframe.2
  keeps := fun _ _ _ _ _ _ => trivial

omit [DecidableEq ι] in
/-- The annotation holds where the members are legal and nothing is pending. -/
theorem membersFrom_annotated {db : Catalog} (hlegal : db.LegalMembers) (calls : ι → MemberCall) :
    Annotated MembersInv (MembersAt calls) (fun _ _ _ _ => True) (membersFrom db) where
  inv := ⟨hlegal, fun _ _ h => absurd h nofun⟩
  at_ := fun _ => rfl
  apart := fun _ _ _ => trivial

/-- A call that has written takes no step. -/
theorem MembersStep.not_done (h : MembersStep calls i s p s' p') : ¬ p.done := by
  cases h with
  | @crashes i s p h => cases p <;> first | exact id | exact fun _ => h
  | _ => exact id

/-- A step that changes the committed state is the last one of its call. -/
theorem MembersStep.wrote (h : MembersStep calls i s p s' p') (hne : s'.db ≠ s.db) : p'.done := by
  cases h with
  | commits => trivial
  | upserted => trivial
  | notUpserted _ h => exact absurd (insertPackage_error h) hne
  | _ => exact absurd rfl hne

/-- The members of a repository change when a call commits, and are then the ones it was given. -/
theorem MembersStep.members (h : MembersStep calls i s p s' p') (hinv : MembersInv s)
    (hat : MembersAt calls i s p) (repo : Uuid) :
    s'.db.repoMembers repo = s.db.repoMembers repo ∨
      p' = .stored ∧ calls i = .setMembers repo (s'.db.repoMembers repo) := by
  cases h with
  | @commits i s repo' ms w hcall hw =>
    obtain ⟨w', hw', hplaced⟩ := hat
    obtain rfl := Option.some.inj (hw.symm.trans hw')
    have hplaced := hplaced _ _ hcall
    by_cases hrows : ∀ m, (w.commit s.db).repositoryMembers.get? (repo, m)
        = s.db.repositoryMembers.get? (repo, m)
    · exact .inl (Catalog.repoMembers_congr (hinv.legal.keys repo) hrows)
    · have hrepo : repo = w.repo := by
        by_contra hne
        exact hrows fun m => MemberWrites.commit_other hne m
      have hactive : w.active := by
        by_contra hidle
        exact hrows fun m => MemberWrites.commit_idle hidle _
      subst hrepo
      have hgiven : (w.commit s.db).repoMembers w.repo = ms := by
        rw [Catalog.repoMembers_eq (fun m position => (MemberWrites.commit_self
          ((hinv.pending i w hw).covers hactive) hplaced.nodup).symm) hplaced.sorted,
          hplaced.inserted, placedRows_members, List.take_length]
      refine .inr ⟨rfl, ?_⟩
      show calls i = .setMembers w.repo ((w.commit s.db).repoMembers w.repo)
      rw [hgiven, hcall, hplaced.ofRepo]
  | upserted _ h =>
    obtain ⟨packages, rfl, -⟩ := insertPackage_ok h
    exact .inl rfl
  | notUpserted _ h =>
    obtain rfl := insertPackage_error h
    exact .inl rfl
  | _ => exact .inl rfl

/-- **Member lists under races.**  However calls that set members and calls that upsert packages
interleave, as long as what each call checked is still so as its write takes effect: the members
of every repository are legal, each listed once, and in the order of a call that returned; and a
call that is rejected has changed nothing. -/
theorem members_legal_of_timely {calls : ι → MemberCall} {db : Catalog} (hlegal : db.LegalMembers)
    {events : List (Event ι (MembersStore ι))} {c : Config ι (MembersStore ι) MembersPc}
    (hrun : Execution (TimelyStep calls) (membersFrom db) events c) :
    MembersRight calls db events c := by
  have houtline := members_outline calls
  have hstart := membersFrom_annotated hlegal calls
  refine ⟨(houtline.holds hstart hrun).inv.legal, fun _ => Catalog.nodup_repoMembers, ?_, ?_⟩
  · clear hlegal
    induction hrun with
    | start => exact fun repo => .inl rfl
    | @step events c i s p run hact ih =>
      intro repo
      have hall := houtline.holds hstart run
      rcases hact.1.members hall.inv (hall.at_ i) repo with hsame | ⟨rfl, hgiven⟩
      · show s.db.repoMembers repo = _ ∨ ∃ j, Function.update c.pc i p j = .stored ∧
          calls j = .setMembers repo (s.db.repoMembers repo)
        rw [hsame]
        refine (ih repo).imp_right ?_
        rintro ⟨j, hstored, hgiven⟩
        have hji : j ≠ i := by
          rintro rfl
          refine hact.1.not_done ?_
          rw [hstored]
          trivial
        exact ⟨j, (Function.update_of_ne hji _ _).trans hstored, hgiven⟩
      · exact .inr ⟨i, Function.update_self .., hgiven⟩
  · intro i e hrejected
    refine @Execution.unchanged ι _ _ Catalog _ (TimelyStep calls) _ _ _ MembersStore.db
      MembersPc.done (fun hact hne => hact.1.wrote hne)
      (fun hact hdone => absurd hdone hact.1.not_done) hrun i ?_
    rw [hrejected]
    exact id

end Outline

/-- A call that has placed all its members commits. -/
theorem MembersStep.commitsAll {ι : Type} [DecidableEq ι] {calls : ι → MemberCall} {i : ι}
    {s : MembersStore ι} {repo : Uuid} {ms : List Uuid} {w : MemberWrites} {n : ℕ}
    (hcall : calls i = .setMembers repo ms) (hw : s.pending i = some w) (hn : ms.length = n) :
    MembersStep calls i s (.placing n) ⟨w.commit s.db, Function.update s.pending i none⟩
      .stored := by
  subst hn
  exact .commits hcall hw

namespace Levels

def repository : Repository where
  orgId := 1
  slug := "packages"
  updateMode := .auto
  cooldownDays := 0

/-- Three repositories of one organization. -/
def shop : Catalog :=
  { Catalog.empty with
    repositories := ⟨[(1, repository), (2, repository), (3, repository)], by decide⟩ }

theorem shop_legal : shop.LegalMembers where
  keys := fun _ _ _ _ h => absurd h nofun
  ownsNothing := fun _ _ h => absurd h nofun
  oneLevel := fun _ _ _ _ => rfl
  sameOrg := fun _ _ h => absurd h nofun

/-- One repository is given the other as its member, the other the third one. -/
def nesting (i : Bool) : MemberCall := if i then .setMembers 1 [2] else .setMembers 2 [3]

/-- A repository with members becomes the member of another one: each call has checked before
the other wrote. -/
theorem two_levels : ¬ ∀ db : Catalog, db.LegalMembers →
    ∀ {events : List (Event Bool (MembersStore Bool))}
      {c : Config Bool (MembersStore Bool) MembersPc},
      Execution (MembersStep nesting) (membersFrom db) events c →
        MembersRight nesting db events c := by
  intro hclaim
  have h₀ : Execution (MembersStep nesting) (membersFrom shop) [] _ := .start
  have h₁ := h₀.step (i := true) (.sameOrg rfl nofun rfl rfl)
  have h₂ := h₁.step (i := true) (.oneLevel rfl rfl)
  have h₃ := h₂.step (i := true) (.ownsNone rfl rfl)
  have h₄ := h₃.step (i := false) (.sameOrg rfl nofun rfl rfl)
  have h₅ := h₄.step (i := false) (.oneLevel rfl rfl)
  have h₆ := h₅.step (i := false) (.ownsNone rfl rfl)
  have h₇ := h₆.step (i := false) (.cleared rfl fun j w hj hw => by cases j <;> trivial)
  have h₈ := h₇.step (i := false) (.placed rfl rfl rfl
    ⟨rfl, rfl, fun _ hr => absurd hr List.not_mem_nil, fun _ hr => absurd hr List.not_mem_nil,
      fun j w hj hw => by cases j <;> trivial⟩)
  have h₉ := h₈.step (i := false) (.commitsAll rfl rfl rfl)
  have h₁₀ := h₉.step (i := true) (.cleared rfl fun j w hj hw => by cases j <;> trivial)
  have h₁₁ := h₁₀.step (i := true) (.placed rfl rfl rfl
    ⟨rfl, rfl, fun _ hr => absurd hr List.not_mem_nil, fun _ hr => absurd hr List.not_mem_nil,
      fun j w hj hw => by cases j <;> trivial⟩)
  have h₁₂ := h₁₁.step (i := true) (.commitsAll rfl rfl rfl)
  exact absurd ((hclaim shop shop_legal h₁₂).legal.oneLevel 1 2 3 rfl) (by decide)

/-- One repository is given the other as its member, and that one gets a package. -/
def stocking (i : Bool) : MemberCall :=
  if i then .setMembers 1 [2] else .upsertPackage 2 "acme/lib" "git" none .public

/-- Members are set while a package is stored, each in time. -/
theorem members_legal_of_timely_stocking : ∃ events,
    ∃ c : Config Bool (MembersStore Bool) MembersPc,
      c.pc true = .stored ∧ c.pc false = .upserted 10 ∧ MembersRight stocking shop events c := by
  have h₀ : Execution (TimelyStep stocking) (membersFrom shop) [] _ := .start
  have h₁ := h₀.step (i := true) ⟨.sameOrg rfl nofun rfl rfl, trivial⟩
  have h₂ := h₁.step (i := true) ⟨.oneLevel rfl rfl, trivial⟩
  have h₃ := h₂.step (i := true) ⟨.ownsNone rfl rfl, trivial⟩
  have h₄ := h₃.step (i := true) ⟨.cleared rfl fun j w hj hw => by cases j <;> trivial, trivial⟩
  have h₅ := h₄.step (i := true) ⟨.placed rfl rfl rfl
    ⟨rfl, rfl, fun _ hr => absurd hr List.not_mem_nil, fun _ hr => absurd hr List.not_mem_nil,
      fun j w hj hw => by cases j <;> trivial⟩, trivial⟩
  have h₆ := h₅.step (i := false) ⟨.isPublic rfl nofun, trivial⟩
  have h₇ := h₆.step (i := false) ⟨.ordinary rfl rfl, trivial⟩
  have h₈ := h₇.step (i := true) ⟨.commitsAll rfl rfl rfl, fun repo ms hcall _ => by
    obtain ⟨rfl, rfl⟩ := MemberCall.setMembers.inj hcall
    exact ⟨rfl, rfl⟩⟩
  have h₉ := h₈.step (i := false) ⟨@MembersStep.upserted Bool _ stocking false _ 2 "acme/lib" "git"
    none .public 10 10 _ rfl rfl, fun repo name kind source visibility hcall => by
      obtain ⟨rfl, -⟩ := MemberCall.upsertPackage.inj hcall
      rfl⟩
  exact ⟨_, _, rfl, rfl, members_legal_of_timely shop_legal h₉⟩

end Levels

end Sconce
