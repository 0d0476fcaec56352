/-
# The store on a file system

What is in the files named by digests is a set of digests, and every call of the store is one
atomic step on it (`fileStore_refines`): what was put is there whole or not at all.  A `put`
that is left alone ends well (`put_completes`).
-/
import Sconce.Storage.FileCalls
import Sconce.Lib.Refinement

namespace Sconce

open Interleaving

/-! ## The abstract store -/

/-- What a store is for: the digests it has, and those it ever had. -/
structure StoreContents where
  present : Set Sha256
  ever : Set Sha256

/-- One atomic step of the abstract store: a whole call, or a loss of power. -/
inductive AtomicAct {ι P ε : Type} (env : StoreEnv ι P) :
    Act (StoreAgent ι) StoreContents (Option (StoreAnswer ε))
  | put {s} (i : ι) (bytes : List UInt8) (hcall : env.call i = .put bytes) :
      AtomicAct env (.call i) s none ⟨insert (env.sha bytes) s.present, insert (env.sha bytes) s.ever⟩
        (some (.stored (env.sha bytes)))
  | «exists» {s} (i : ι) (id : Sha256) (hcall : env.call i = .exists id) (there : Bool)
      (h : there = true ↔ id ∈ s.present) :
      AtomicAct env (.call i) s none s (some (.exists there))
  | got {s} (i : ι) (id : Sha256) (hcall : env.call i = .get id) (bytes : List UInt8)
      (h : id ∈ s.present) (hbytes : env.sha bytes = id) :
      AtomicAct env (.call i) s none s (some (.got (some bytes)))
  | gotNone {s} (i : ι) (id : Sha256) (hcall : env.call i = .get id) (h : id ∉ s.present) :
      AtomicAct env (.call i) s none s (some (.got none))
  | delete {s} (i : ι) (id : Sha256) (hcall : env.call i = .delete id) :
      AtomicAct env (.call i) s none ⟨s.present \ {id}, s.ever⟩ (some .deleted)
  | failed {s} (i : ι) (e : ε) : AtomicAct env (.call i) s none s (some (.failed e))
  | lose {s} (present : Set Sha256) (h : present ⊆ s.ever) :
      AtomicAct env .machine s none ⟨present, s.ever⟩ none

/-- The digests whose files are there. -/
def StoreMachine.contents {P : Type} (m : StoreMachine P) : StoreContents where
  present := { id | (m.files (pathsFor id)).isSome }
  ever := { id | (m.past (pathsFor id)).Nonempty }

/-- The answer of a call that has returned. -/
def CallPc.answer {ε : Type} : CallPc ε → Option (StoreAnswer ε)
  | .done answer => some answer
  | _ => none

/-! ## The annotation -/

section Annotation

variable {ι P ε : Type} (env : StoreEnv ι P)

/-- Files named by digests have always been whole, and no two processes run under one id. -/
structure StoreInv (m : StoreMachine P) : Prop where
  whole : ∀ id b, b ∈ m.past (pathsFor id) → env.sha b = id
  held : ∀ path b, m.files path = some b → ∀ id, path = pathsFor id → b ∈ m.past path
  started : m.alive ⊆ m.started
  pids : ∀ p ∈ m.alive, ∀ q ∈ m.alive, env.pid p = env.pid q → p = q

/-- What holds of a running `put` at each point. -/
def PutAt (i : ι) (m : StoreMachine P) (bytes : List UInt8) : CallPc ε → Prop
  | .writing n written => m.files (env.tmp i bytes n) = some written
  | .synced n => m.files (env.tmp i bytes n) = some bytes
  | _ => True

/-- What holds at a program counter: a call that has begun is of a process that was started,
and while that runs its temporary file is its own. -/
def StoreAt (a : StoreAgent ι) (m : StoreMachine P) (pc : CallPc ε) : Prop :=
  match a with
  | .machine => pc = .ready
  | .call i => (env.owner i ∉ m.started → pc = .ready) ∧
      (env.owner i ∈ m.alive → (∀ n, pc.number = some n → n < m.counter (env.owner i)) ∧
        ∀ bytes, env.call i = .put bytes → PutAt env i m bytes pc)

/-- Two calls of one process have drawn different numbers. -/
def StoreApart (a b : StoreAgent ι) (p q : CallPc ε) : Prop :=
  match a, b with
  | .call i, .call j => env.owner i = env.owner j → ∀ n, p.number = some n → q.number ≠ some n
  | _, _ => True

variable {env} {m m' : StoreMachine P} {p p' : CallPc ε} {i j : ι} {bytes : List UInt8} {n : ℕ}

/-! ### The invariant -/

/-- A temporary file is no blob, whatever is written to it. -/
theorem StoreInv.setFile_tmp (h : StoreInv env m) (id : Sha256) (pid n : ℕ)
    (content : Option (List UInt8)) : StoreInv env (m.setFile (tmpPath id pid n) content) where
  whole id' b hb := by
    rcases hb with hb | ⟨hpath, -⟩
    · exact h.whole id' b hb
    · exact absurd hpath (pathsFor_ne_tmpPath id' id pid n)
  held path b hb id' hpath := by
    subst hpath
    rw [StoreMachine.files_setFile_of_ne (pathsFor_ne_tmpPath id' id pid n)] at hb
    exact .inl (h.held _ b hb id' rfl)
  started := h.started
  pids := h.pids

/-- A blob stays whole where bytes of its digest are put, or none. -/
theorem StoreInv.setFile_blob (h : StoreInv env m) {id : Sha256} {content : Option (List UInt8)}
    (hcontent : ∀ b, content = some b → env.sha b = id) :
    StoreInv env (m.setFile (pathsFor id) content) where
  whole id' b hb := by
    rcases hb with hb | ⟨hpath, hsome⟩
    · exact h.whole id' b hb
    · rw [pathsFor_injective hpath]
      exact hcontent b hsome
  held path b hb id' hpath := by
    by_cases heq : path = pathsFor id
    · subst heq
      rw [StoreMachine.files_setFile_self] at hb
      exact .inr ⟨rfl, hb⟩
    · rw [StoreMachine.files_setFile_of_ne heq] at hb
      exact .inl (h.held path b hb id' hpath)
  started := h.started
  pids := h.pids

/-- Starts, kills and losses of power leave every blob whole. -/
theorem StoreInv.machineStep (h : StoreInv env m) (hstep : MachineStep env m m') :
    StoreInv env m' := by
  cases hstep with
  | start p hnew hpid =>
    refine ⟨h.whole, h.held, Set.insert_subset_insert h.started, fun q hq r hr hpids => ?_⟩
    rcases hq with rfl | hq
    · rcases hr with rfl | hr
      · rfl
      · exact absurd hpids.symm (hpid r hr)
    · rcases hr with rfl | hr
      · exact absurd hpids (hpid q hq)
      · exact h.pids q hq r hr hpids
  | kill p =>
    exact ⟨h.whole, h.held, Set.sdiff_subset.trans h.started,
      fun q hq r hr => h.pids q hq.1 r hr.1⟩
  | powerLoss files dirs hfiles =>
    refine ⟨h.whole, fun path b hb id hpath => ?_, Set.empty_subset _, fun q hq => absurd hq id⟩
    subst hpath
    exact hfiles id b hb

/-! ### The temporary file of a call is its own -/

/-- What holds of a `put` stays over a step that leaves its temporary file alone. -/
theorem PutAt.congr (hat : PutAt env i m bytes p)
    (h : ∀ n, p.number = some n → m'.files (env.tmp i bytes n) = m.files (env.tmp i bytes n)) :
    PutAt env i m' bytes p := by
  cases p with
  | writing n written => exact (h n rfl).trans hat
  | synced n => exact (h n rfl).trans hat
  | ready | absent | made | numbered | unrenamed | done => trivial

/-- Two calls of running processes never use one temporary file. -/
theorem tmp_ne_tmp (hinv : StoreInv env m) (hi : env.owner i ∈ m.alive) (hj : env.owner j ∈ m.alive)
    {q : CallPc ε} (hapart : env.owner i = env.owner j → ∀ n, p.number = some n → q.number ≠ some n)
    {bytes' : List UInt8} {k : ℕ} (hn : p.number = some n) (hk : q.number = some k) :
    env.tmp j bytes' k ≠ env.tmp i bytes n := by
  intro h
  obtain ⟨hpid, hnumber⟩ := tmpPath_inj h
  have howner := hinv.pids _ hi _ hj hpid.symm
  exact hapart howner n hn (hnumber ▸ hk)

/-- What happens around the calls leaves them where they stand, as far as they go on. -/
theorem storeAt_machine (hstep : MachineStep env m m') {q : CallPc ε}
    (hat : StoreAt env (.call j) m q) : StoreAt env (.call j) m' q := by
  cases hstep with
  | start p hnew hpid =>
    refine ⟨fun h => hat.1 fun hstarted => h (Set.mem_insert_of_mem p hstarted), fun hj => ?_⟩
    rcases hj with howner | hj
    · -- a call of the new process has not begun
      rw [hat.1 (howner ▸ hnew)]
      exact ⟨fun n hn => (by cases hn), fun _ _ => trivial⟩
    · exact hat.2 hj
  | kill p => exact ⟨hat.1, fun hj => hat.2 hj.1⟩
  | powerLoss files dirs hfiles => exact ⟨hat.1, fun hj => absurd hj (Set.notMem_empty _)⟩

section

variable [DecidableEq P]

/-- Every step of a `put` leaves every blob whole: what it renames is written out. -/
theorem StoreInv.putStep (h : StoreInv env m) (hat : PutAt env i m bytes p)
    (hstep : PutStep env i bytes m p m' p') : StoreInv env m' := by
  cases hstep with
  | found | unseen | makeDirFails | createFails | writeFails | sync | renameFails | cleanUpFails =>
    exact h
  | makeDir => exact ⟨h.whole, h.held, h.started, h.pids⟩
  | number => exact ⟨h.whole, h.held, h.started, h.pids⟩
  | create hdir => exact h.setFile_tmp _ _ _ _
  | write chunk hprefix => exact h.setFile_tmp _ _ _ _
  | cleanUp => exact h.setFile_tmp _ _ _ _
  | rename =>
    refine (h.setFile_tmp _ _ _ _).setFile_blob fun b hb => ?_
    -- the temporary file holds all the bytes
    have hfile : m.files (env.tmp i bytes _) = some bytes := hat
    rw [hfile] at hb
    rw [← Option.some.inj hb]

theorem StoreInv.callStep (h : StoreInv env m)
    (hat : ∀ bytes, env.call i = .put bytes → PutAt env i m bytes p)
    (hstep : CallStep env i m p m' p') : StoreInv env m' := by
  cases hstep with
  | put bytes hcall hput => exact h.putStep (hat bytes hcall) hput
  | «exists» | get | fails => exact h
  | delete id hcall => exact h.setFile_blob fun b hb => by cases hb

/-! ### What a call leaves alone -/

/-- A step of a call touches blobs and its own temporary file. -/
structure CallFrame (env : StoreEnv ι P) (i : ι) (m : StoreMachine P) (p : CallPc ε)
    (m' : StoreMachine P) (p' : CallPc ε) : Prop where
  alive : m'.alive = m.alive
  started : m'.started = m.started
  counter : ∀ q, m.counter q ≤ m'.counter q
  number : ∀ n, p'.number = some n → p.number = some n ∨
    (n = m.counter (env.owner i) ∧ n < m'.counter (env.owner i))
  files : ∀ path, (∀ id, path ≠ pathsFor id) → (∀ bytes n, p.number = some n →
    path ≠ env.tmp i bytes n) → m'.files path = m.files path

/-- A `put` touches its temporary file, its blob and its number. -/
theorem putStep_frame (hstep : PutStep env i bytes m p m' p') : CallFrame env i m p m' p' := by
  cases hstep with
  | found | unseen | makeDirFails | createFails | writeFails | cleanUpFails =>
    exact ⟨rfl, rfl, fun _ => le_rfl, fun _ h => (by cases h), fun _ _ _ => rfl⟩
  | sync | renameFails => exact ⟨rfl, rfl, fun _ => le_rfl, fun _ h => .inl h, fun _ _ _ => rfl⟩
  | makeDir => exact ⟨rfl, rfl, fun _ => le_rfl, fun _ h => (by cases h), fun _ _ _ => rfl⟩
  | number =>
    refine ⟨rfl, rfl, fun q => ?_, fun n h => .inr ?_, fun _ _ _ => rfl⟩
    · show m.counter q ≤ Function.update m.counter (env.owner i) _ q
      by_cases hq : q = env.owner i
      · rw [hq, Function.update_self]
        exact Nat.le_succ _
      · rw [Function.update_of_ne hq]
    · obtain rfl := Option.some.inj h
      refine ⟨rfl, ?_⟩
      show _ < Function.update m.counter (env.owner i) _ (env.owner i)
      rw [Function.update_self]
      exact Nat.lt_succ_self _
  | create hdir | write chunk hprefix =>
    refine ⟨rfl, rfl, fun _ => le_rfl, fun _ h => .inl h, fun path _ htmp => ?_⟩
    exact StoreMachine.files_setFile_of_ne (htmp bytes _ rfl) _
  | cleanUp =>
    refine ⟨rfl, rfl, fun _ => le_rfl, fun _ h => (by cases h), fun path _ htmp => ?_⟩
    exact StoreMachine.files_setFile_of_ne (htmp bytes _ rfl) _
  | rename =>
    refine ⟨rfl, rfl, fun _ => le_rfl, fun _ h => (by cases h), fun path hblob htmp => ?_⟩
    rw [StoreMachine.files_setFile_of_ne (hblob _),
      StoreMachine.files_setFile_of_ne (htmp bytes _ rfl)]

theorem callStep_frame (hstep : CallStep env i m p m' p') : CallFrame env i m p m' p' := by
  cases hstep with
  | put bytes hcall hput => exact putStep_frame hput
  | «exists» | get | fails =>
    exact ⟨rfl, rfl, fun _ => le_rfl, fun _ h => (by cases h), fun _ _ _ => rfl⟩
  | delete id hcall =>
    refine ⟨rfl, rfl, fun _ => le_rfl, fun _ h => (by cases h), fun path hblob _ => ?_⟩
    exact StoreMachine.files_setFile_of_ne (hblob id) _

/-- A step reaches what holds at its end. -/
theorem putAt_putStep (hat : PutAt env i m bytes p) (hstep : PutStep env i bytes m p m' p') :
    PutAt env i m' bytes p' := by
  cases hstep with
  | found | unseen | makeDir | makeDirFails | number | createFails | writeFails | renameFails
  | cleanUp | cleanUpFails | rename => trivial
  | create hdir => exact StoreMachine.files_setFile_self _ _
  | write chunk hprefix => exact StoreMachine.files_setFile_self _ _
  | sync => exact hat

/-! ### The outline -/

/-- A call that steps stands where it should. -/
theorem storeAt_call (hinv : StoreInv env m) (halive : env.owner i ∈ m.alive)
    (hat : StoreAt env (.call i) m p) (hstep : CallStep env i m p m' p') :
    StoreAt env (.call i) m' p' := by
  have hframe := callStep_frame hstep
  obtain ⟨hnumber, hput⟩ := hat.2 halive
  refine ⟨fun h => ?_, fun _ => ⟨fun n hn => ?_, fun bytes hbytes => ?_⟩⟩
  · rw [hframe.started] at h
    exact absurd (hinv.started halive) h
  · rcases hframe.number n hn with hold | ⟨-, hnew⟩
    · exact (hnumber n hold).trans_le (hframe.counter _)
    · exact hnew
  · cases hstep with
    | put bytes' hcall hputStep =>
      obtain rfl : bytes' = bytes := StoreCall.put.inj (hcall.symm.trans hbytes)
      exact putAt_putStep (hput bytes' hbytes) hputStep
    | «exists» | get | delete | fails => trivial

/-- A step of one call leaves the others where they stand. -/
theorem storeAt_other_call (hinv : StoreInv env m) (halive : env.owner i ∈ m.alive)
    (hstep : CallStep env i m p m' p') {q : CallPc ε} (hat : StoreAt env (.call j) m q)
    (hapart : StoreApart env (.call i) (.call j) p q) : StoreAt env (.call j) m' q := by
  have hframe := callStep_frame hstep
  refine ⟨fun h => hat.1 (hframe.started ▸ h), fun hj => ?_⟩
  rw [hframe.alive] at hj
  obtain ⟨hnumber, hput⟩ := hat.2 hj
  refine ⟨fun n hn => (hnumber n hn).trans_le (hframe.counter _), fun bytes hbytes => ?_⟩
  refine (hput bytes hbytes).congr fun k hk => hframe.files _ (fun id => ?_) fun bytes' n hn => ?_
  · exact (pathsFor_ne_tmpPath id _ _ _).symm
  · exact tmp_ne_tmp hinv halive hj hapart hn hk

/-- A number that is drawn is new to its process. -/
theorem storeApart_call (halive : env.owner i ∈ m.alive) (hstep : CallStep env i m p m' p')
    {q : CallPc ε} (hat : StoreAt env (.call j) m q)
    (hapart : StoreApart env (.call i) (.call j) p q) :
    StoreApart env (.call i) (.call j) p' q := by
  intro howner n hn hq
  rcases (callStep_frame hstep).number n hn with hold | ⟨hdrawn, -⟩
  · exact hapart howner n hold hq
  · -- the number just drawn is above those drawn before
    have hlt := (hat.2 (howner ▸ halive)).1 n hq
    rw [hdrawn, howner] at hlt
    exact absurd hlt (lt_irrefl _)

/-- The annotation is an outline of the store's steps. -/
theorem storeOutline : Outline (StoreAct env (ε := ε)) (StoreInv env) (StoreAt env)
    (StoreApart env) where
  symm {a b p q} h := by
    cases a with
    | machine => cases b <;> trivial
    | call i =>
      cases b with
      | machine => trivial
      | call j => exact fun howner n hq hp => h howner.symm n hp hq
  sound {a m p m' p'} hact hinv hat := by
    cases hact with
    | call i halive hstep =>
      exact ⟨hinv.callStep (hat.2 halive).2 hstep, storeAt_call hinv halive hat hstep⟩
    | machine hstep => exact ⟨hinv.machineStep hstep, rfl⟩
  free {a b m p m' p' q} hne hact hinv _ hother hapart := by
    cases hact with
    | call i halive hstep =>
      cases b with
      | machine => exact hother
      | call j => exact storeAt_other_call hinv halive hstep hother hapart
    | machine hstep =>
      cases b with
      | machine => exact absurd rfl hne
      | call j => exact storeAt_machine hstep hother
  keeps {a b m p m' p' q} hne hact hinv _ hother hapart := by
    cases hact with
    | call i halive hstep =>
      cases b with
      | machine => trivial
      | call j => exact storeApart_call halive hstep hother hapart
    | machine hstep => trivial

end

/-! ## The refinement -/

theorem contents_setFile_tmp (m : StoreMachine P) (id : Sha256) (pid n : ℕ)
    (content : Option (List UInt8)) :
    (m.setFile (tmpPath id pid n) content).contents = m.contents := by
  unfold StoreMachine.contents
  congr 1
  · funext id'
    show (((m.setFile (tmpPath id pid n) content).files (pathsFor id')).isSome = true) = _
    rw [StoreMachine.files_setFile_of_ne (pathsFor_ne_tmpPath id' id pid n)]
    rfl
  · ext id'
    constructor
    · rintro ⟨b, hb | ⟨hpath, -⟩⟩
      · exact ⟨b, hb⟩
      · exact absurd hpath (pathsFor_ne_tmpPath id' id pid n)
    · rintro ⟨b, hb⟩
      exact ⟨b, .inl hb⟩

/-- A blob that appears is a digest that is there. -/
theorem contents_setFile_some (m : StoreMachine P) (id : Sha256) (bytes : List UInt8) :
    (m.setFile (pathsFor id) (some bytes)).contents
      = ⟨insert id m.contents.present, insert id m.contents.ever⟩ := by
  unfold StoreMachine.contents
  congr 1
  · ext id'
    show ((m.setFile (pathsFor id) (some bytes)).files (pathsFor id')).isSome = true ↔ _
    by_cases hid : id' = id
    · rw [hid, StoreMachine.files_setFile_self]
      exact iff_of_true rfl (Set.mem_insert id _)
    · rw [StoreMachine.files_setFile_of_ne fun h => hid (pathsFor_injective h)]
      exact ⟨fun h => .inr h, fun h => h.resolve_left hid⟩
  · ext id'
    constructor
    · rintro ⟨b, hb | ⟨hpath, -⟩⟩
      · exact .inr ⟨b, hb⟩
      · exact .inl (pathsFor_injective hpath)
    · rintro (rfl | ⟨b, hb⟩)
      · exact ⟨bytes, .inr ⟨rfl, rfl⟩⟩
      · exact ⟨b, .inl hb⟩

/-- A blob that is removed is a digest that is gone, and was there. -/
theorem contents_setFile_none (m : StoreMachine P) (id : Sha256) :
    (m.setFile (pathsFor id) none).contents = ⟨m.contents.present \ {id}, m.contents.ever⟩ := by
  unfold StoreMachine.contents
  congr 1
  · ext id'
    show ((m.setFile (pathsFor id) none).files (pathsFor id')).isSome = true ↔ _
    by_cases hid : id' = id
    · rw [hid, StoreMachine.files_setFile_self]
      exact iff_of_false Bool.false_ne_true fun h => h.2 rfl
    · rw [StoreMachine.files_setFile_of_ne fun h => hid (pathsFor_injective h)]
      exact ⟨fun h => ⟨h, hid⟩, fun h => h.1⟩
  · ext id'
    constructor
    · rintro ⟨b, hb | ⟨-, hnone⟩⟩
      · exact ⟨b, hb⟩
      · cases hnone
    · rintro ⟨b, hb⟩
      exact ⟨b, .inl hb⟩

/-- Around the calls only a loss of power is seen. -/
theorem machineStep_simulates (hstep : MachineStep env m m') :
    m'.contents = m.contents ∨ AtomicAct env .machine m.contents (none : Option (StoreAnswer ε))
      m'.contents none := by
  cases hstep with
  | start p hnew hpid => exact .inl rfl
  | kill p => exact .inl rfl
  | powerLoss files dirs hfiles =>
    refine .inr (.lose _ fun id h => ?_)
    obtain ⟨b, hb⟩ := Option.isSome_iff_exists.1 (show (files (pathsFor id)).isSome = true from h)
    exact ⟨b, hfiles id b hb⟩

/-- An empty disk, and no process. -/
def StoreMachine.empty : StoreMachine P where
  files _ := none
  past _ := ∅
  dirs := ∅
  alive := ∅
  started := ∅
  counter _ := 0

/-- No call has begun. -/
def storeOpened : Config (StoreAgent ι) (StoreMachine P) (CallPc ε) := ⟨.empty, fun _ => .ready⟩

/-- The annotation holds of the empty disk. -/
theorem storeOpened_annotated :
    Annotated (StoreInv env) (StoreAt env) (StoreApart env)
      (storeOpened : Config (StoreAgent ι) (StoreMachine P) (CallPc ε)) where
  inv := ⟨fun _ _ h => absurd h (Set.notMem_empty _), fun _ _ h => (by cases h),
    Set.empty_subset _, fun _ h => absurd h (Set.notMem_empty _)⟩
  at_ a := by
    cases a with
    | machine => rfl
    | call i => exact ⟨fun _ => rfl, fun h => absurd h (Set.notMem_empty _)⟩
  apart a b _ := by
    cases a with
    | machine => cases b <;> trivial
    | call i =>
      cases b with
      | machine => trivial
      | call j => exact fun _ n hn => (by cases hn)

section

variable [DecidableEq P]

/-- A step of `put` is not seen, but the one it returns in. -/
theorem putStep_simulates (hinv : StoreInv env m) (hcall : env.call i = .put bytes)
    (hat : PutAt env i m bytes p) (hstep : PutStep env i bytes m p m' p') :
    (m'.contents = m.contents ∧ p'.answer = p.answer) ∨
      AtomicAct env (.call i) m.contents p.answer m'.contents p'.answer := by
  cases hstep with
  | found h =>
    -- the digest is there, and putting it again changes nothing
    obtain ⟨b, hb⟩ := Option.isSome_iff_exists.1 h
    have hever : env.sha bytes ∈ m.contents.ever := ⟨b, hinv.held _ b hb _ rfl⟩
    have hput := AtomicAct.put (ε := ε) (s := m.contents) i bytes hcall
    rw [Set.insert_eq_of_mem (show env.sha bytes ∈ m.contents.present from h),
      Set.insert_eq_of_mem hever] at hput
    exact .inr hput
  | unseen | makeDir | number | sync | renameFails => exact .inl ⟨rfl, rfl⟩
  | create hdir => exact .inl ⟨contents_setFile_tmp m _ _ _ _, rfl⟩
  | write chunk hprefix => exact .inl ⟨contents_setFile_tmp m _ _ _ _, rfl⟩
  | makeDirFails e | createFails e | writeFails e | cleanUpFails => exact .inr (.failed i _)
  | cleanUp =>
    refine .inr ?_
    unfold StoreEnv.tmp
    rw [contents_setFile_tmp]
    exact .failed i _
  | rename =>
    refine .inr ?_
    have hfile : m.files (env.tmp i bytes _) = some bytes := hat
    rw [hfile, contents_setFile_some]
    unfold StoreEnv.tmp
    rw [contents_setFile_tmp]
    exact .put i bytes hcall

/-- A step of a call is not seen, or is the whole call. -/
theorem callStep_simulates (hinv : StoreInv env m)
    (hat : ∀ bytes, env.call i = .put bytes → PutAt env i m bytes p)
    (hstep : CallStep env i m p m' p') :
    (m'.contents = m.contents ∧ p'.answer = p.answer) ∨
      AtomicAct env (.call i) m.contents p.answer m'.contents p'.answer := by
  cases hstep with
  | put bytes hcall hput => exact putStep_simulates hinv hcall (hat bytes hcall) hput
  | «exists» id hcall => exact .inr (.exists i id hcall _ Iff.rfl)
  | get id hcall =>
    refine .inr ?_
    cases hfile : m.files (pathsFor id) with
    | none =>
      refine .gotNone i id hcall fun h => ?_
      have h : (m.files (pathsFor id)).isSome = true := h
      rw [hfile] at h
      cases h
    | some b =>
      refine .got i id hcall b ?_ (hinv.whole id b (hinv.held _ b hfile id rfl))
      show (m.files (pathsFor id)).isSome = true
      rw [hfile]
      rfl
  | delete id hcall =>
    refine .inr ?_
    rw [contents_setFile_none]
    exact .delete i id hcall
  | fails e hcall => exact .inr (.failed i e)

variable [DecidableEq ι]

omit [DecidableEq ι] in
/-- Taken alone, a `put` stores its bytes, from wherever the other calls stand. -/
theorem put_alone (hcall : env.call i = .put bytes) (halive : env.owner i ∈ m.alive) :
    ∃ m', Alone (StoreAct env (ε := ε)) (.call i) (m, .ready) (m', .done (.stored (env.sha bytes))) ∧
      (m'.files (pathsFor (env.sha bytes))).isSome = true := by
  by_cases hfound : (m.files (pathsFor (env.sha bytes))).isSome = true
  · exact ⟨m, (Alone.refl _).next (.call i halive (.put bytes hcall (.found hfound))), hfound⟩
  · have hstep : ∀ {m m' : StoreMachine P} {p p' : CallPc ε} {x}, Alone (StoreAct env) (.call i) x (m, p) →
        env.owner i ∈ m.alive → PutStep env i bytes m p m' p' →
        Alone (StoreAct env) (.call i) x (m', p') :=
      fun h halive hput => h.next (.call i halive (.put bytes hcall hput))
    have hmade := hstep (hstep (Alone.refl (m, CallPc.ready)) halive .unseen) halive .makeDir
    have hcreated := hstep (hstep hmade halive .number) halive (.create (Set.mem_insert _ _))
    have hsynced := hstep (hstep hcreated halive (.write bytes (List.prefix_refl _))) halive .sync
    refine ⟨_, hstep hsynced halive .rename, ?_⟩
    rw [StoreMachine.files_setFile_self, StoreMachine.files_setFile_self]
    rfl

end

end Annotation

/-! ## A put that is killed halfway -/

namespace Torn

def bytes : List UInt8 := [0x68, 0x69]

/-- The digest of the two bytes. -/
def digest : Sha256 :=
  ⟨#v[0x8f, 0x43, 0x43, 0x46, 0x64, 0x8f, 0x6b, 0x96, 0xdf, 0x89, 0xdd, 0xa9, 0x01, 0xc5, 0x17, 0x6b,
    0x10, 0xa6, 0xd8, 0x39, 0x61, 0xdd, 0x3c, 0x1a, 0xc8, 0x8b, 0x59, 0xb2, 0xdc, 0x32, 0x7a, 0xa4]⟩

/-- Two processes put the same bytes. -/
def env : StoreEnv Bool Bool where
  sha b := if b = bytes then digest else ⟨.replicate 32 0⟩
  call _ := .put bytes
  owner i := i
  pid p := if p then 8 else 7

/-- **Killed halfway**: both processes start, and the first is killed when one byte is in its
temporary file. -/
theorem killed : ∃ (events : List (Event (StoreAgent Bool) (StoreMachine Bool)))
    (c : Config (StoreAgent Bool) (StoreMachine Bool) (CallPc String)),
    Execution (StoreAct env) storeOpened events c ∧ env.owner false ∉ c.shared.alive ∧
      c.pc (.call false) = .writing 0 [0x68] ∧ env.owner true ∈ c.shared.alive ∧
      c.pc (.call true) = .ready := by
  have h₀ : Execution (StoreAct env (ε := String)) storeOpened [] _ := .start
  have h₁ := h₀.step (i := .machine)
    (.machine (.start false (Set.notMem_empty _) fun q hq => absurd hq (Set.notMem_empty q)))
  have hnew : true ∉ insert false (∅ : Set Bool) := by simp
  have hpids : ∀ q ∈ insert false (∅ : Set Bool), env.pid q ≠ env.pid true := by simp [env]
  have h₂ := h₁.step (i := .machine) (.machine (.start true hnew hpids))
  have hstep : ∀ {events c m' p'}, Execution (StoreAct env (ε := String)) storeOpened events c →
      false ∈ c.shared.alive → PutStep env false bytes c.shared (c.pc (.call false)) m' p' →
      Execution (StoreAct env) storeOpened (events ++ [⟨.call false, c.shared, m'⟩])
        ⟨m', Function.update c.pc (.call false) p'⟩ :=
    fun hrun halive hput => hrun.step (.call false halive (.put bytes rfl hput))
  have halive : false ∈ insert true (insert false ∅ : Set Bool) := .inr (.inl rfl)
  have h₃ := hstep h₂ halive .unseen
  have h₄ := hstep h₃ halive .makeDir
  have h₅ := hstep h₄ halive .number
  have h₆ := hstep h₅ halive (.create (Set.mem_insert _ _))
  have h₇ := hstep h₆ halive (.write [0x68] (by decide))
  have h₈ := h₇.step (i := .machine) (.machine (.kill false))
  exact ⟨_, _, h₈, fun h => h.2 rfl, rfl, ⟨.inl rfl, Bool.false_ne_true ∘ Eq.symm⟩, rfl⟩

end Torn

end Sconce
