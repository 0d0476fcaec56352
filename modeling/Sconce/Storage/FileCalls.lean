/-
# The calls of a store on a file system

`FsBlobStore` keeps a blob in the file its digest names.  A `put` looks for that file, writes
the bytes to a temporary file beside it and renames it into place; any number of processes do
so at once, any of their system calls may fail, a process may be killed anywhere, and the
machine may lose its power.  `StoreAct` is one such step.
-/
import Sconce.Storage.Digests
import Sconce.Lib.Delimited
import Sconce.Lib.Interleaving

namespace Sconce

open Interleaving

/-! ## Files -/

/-- A file below the root: the two directories over it, and its name. -/
structure FilePath where
  dir : String × String
  name : String
  deriving DecidableEq

/-- `paths_for`. -/
def pathsFor (id : Sha256) : FilePath where
  dir := (String.ofList ((hex32 id).toList.take 2), String.ofList (((hex32 id).toList.drop 2).take 2))
  name := hex32 id

/-- `.tmp-{pid}-{n}`, in the directory of the blob. -/
def tmpPath (id : Sha256) (pid n : ℕ) : FilePath where
  dir := (pathsFor id).dir
  name := ".tmp-" ++ toString pid ++ "-" ++ toString n

/-- Different digests are kept in different files. -/
theorem pathsFor_injective : Function.Injective pathsFor := by
  intro id id' h
  have hhex : hex32 id = hex32 id' := congrArg FilePath.name h
  have hparse := parseHex32_hex32 id
  rw [hhex, parseHex32_hex32] at hparse
  exact (Option.some.inj hparse).symm

/-- A digest does not begin with a dot. -/
theorem pathsFor_ne_tmpPath (id id' : Sha256) (pid n : ℕ) : pathsFor id ≠ tmpPath id' pid n := by
  intro h
  have hname : hex32 id = ".tmp-" ++ toString pid ++ "-" ++ toString n := congrArg FilePath.name h
  have hdot : '.' ∈ (hex32 id).toList := by
    rw [hname]
    simp
  unfold hex32 at hdot
  rw [toList_pushHex] at hdot
  have hdigits : ∀ k < 16, hexDigit k ≠ '.' := by decide
  simp only [String.toList_empty, List.nil_append, List.mem_flatMap, List.mem_cons,
    List.not_mem_nil, or_false] at hdot
  obtain ⟨b, -, hb | hb⟩ := hdot
  · exact hdigits (b.toNat / 16) (by have := b.toNat_lt; omega) hb.symm
  · exact hdigits (b.toNat % 16) (by omega) hb.symm

theorem dash_notMem_repr (n : ℕ) : '-' ∉ (toString n).toList := by
  rw [Nat.toString_eq_ofList_toDigits, String.toList_ofList]
  intro h
  have hdigit : '-'.isDigit = true := Nat.isDigit_of_mem_toDigits (by omega) (by omega) h
  exact absurd hdigit (by decide)

/-- Different numbers are written differently. -/
theorem toString_inj {m n : ℕ} (h : (toString m).toList = (toString n).toList) : m = n := by
  rw [Nat.toString_eq_ofList_toDigits, Nat.toString_eq_ofList_toDigits, String.toList_ofList,
    String.toList_ofList] at h
  have hvalue := congrArg (fun digits => Nat.ofDigitChars 10 digits 0) h
  simpa using hvalue

/-- Temporary files of different processes, or of different numbers, are different. -/
theorem tmpPath_inj {id id' : Sha256} {pid pid' n n' : ℕ} (h : tmpPath id pid n = tmpPath id' pid' n') :
    pid = pid' ∧ n = n' := by
  have hname : ".tmp-" ++ toString pid ++ "-" ++ toString n
      = ".tmp-" ++ toString pid' ++ "-" ++ toString n' := congrArg FilePath.name h
  have hchars := congrArg String.toList hname
  simp only [String.toList_append, List.append_assoc, List.append_cancel_left_eq] at hchars
  have hcut : ∀ m k : ℕ, ((toString m).toList ++ ("-".toList ++ (toString k).toList)).takeWhile
        (· ≠ '-') = (toString m).toList ∧
      ((toString m).toList ++ ("-".toList ++ (toString k).toList)).dropWhile (· ≠ '-')
        = '-' :: (toString k).toList := fun m k =>
    ⟨List.takeWhile_ne_append (dash_notMem_repr m), List.dropWhile_ne_append (dash_notMem_repr m)⟩
  have hpid := congrArg (List.takeWhile (· ≠ '-')) hchars
  have hn := congrArg (List.dropWhile (· ≠ '-')) hchars
  rw [(hcut pid n).1, (hcut pid' n').1] at hpid
  rw [(hcut pid n).2, (hcut pid' n').2] at hn
  exact ⟨toString_inj hpid, toString_inj (List.cons.inj hn).2⟩

/-! ## Calls -/

/-- A call of the store. -/
inductive StoreCall where
  | put (bytes : List UInt8)
  | «exists» (id : Sha256)
  | get (id : Sha256)
  | delete (id : Sha256)

/-- What it returns. -/
inductive StoreAnswer (ε : Type) where
  | stored (id : Sha256)
  | «exists» (there : Bool)
  | got (bytes : Option (List UInt8))
  | deleted
  | failed (e : ε)

/-- How far a call has come. -/
inductive CallPc (ε : Type) where
  /-- Not begun. -/
  | ready
  /-- `put` has not seen the file. -/
  | absent
  /-- The directory is made. -/
  | made
  /-- The number of the temporary file is drawn. -/
  | numbered (n : ℕ)
  /-- The file is open, these bytes are in it. -/
  | writing (n : ℕ) (written : List UInt8)
  /-- All bytes are written and synced. -/
  | synced (n : ℕ)
  /-- The rename failed. -/
  | unrenamed (n : ℕ) (e : ε)
  | done (answer : StoreAnswer ε)

/-- The number of the temporary file a call has drawn. -/
def CallPc.number {ε : Type} : CallPc ε → Option ℕ
  | .numbered n | .writing n _ | .synced n | .unrenamed n _ => some n
  | _ => none

/-- The deployment: the digest, the calls with the process each is made in, and the process
ids. -/
structure StoreEnv (ι P : Type) where
  sha : List UInt8 → Sha256
  call : ι → StoreCall
  owner : ι → P
  pid : P → ℕ

/-- The file system and the processes. -/
structure StoreMachine (P : Type) where
  files : FilePath → Option (List UInt8)
  /-- What a file has ever held. -/
  past : FilePath → Set (List UInt8)
  dirs : Set (String × String)
  alive : Set P
  started : Set P
  /-- `TMP_COUNTER` of each process. -/
  counter : P → ℕ

namespace StoreMachine

variable {P : Type} (m : StoreMachine P)

/-- The file becomes this. -/
def setFile (path : FilePath) (content : Option (List UInt8)) : StoreMachine P :=
  { m with
    files := Function.update m.files path content
    past := fun p => { b | b ∈ m.past p ∨ (p = path ∧ content = some b) } }

/-- A process has drawn a number. -/
def draw [DecidableEq P] (p : P) : StoreMachine P :=
  { m with counter := Function.update m.counter p (m.counter p + 1) }

variable {m}

theorem files_setFile_self (path : FilePath) (content : Option (List UInt8)) :
    (m.setFile path content).files path = content := Function.update_self ..

theorem files_setFile_of_ne {path path' : FilePath} (h : path' ≠ path)
    (content : Option (List UInt8)) : (m.setFile path content).files path' = m.files path' :=
  Function.update_of_ne h ..

end StoreMachine

/-- Who acts: a call, or what is around the calls. -/
inductive StoreAgent (ι : Type) where
  | call (i : ι)
  | machine
  deriving DecidableEq

section Steps

variable {ι P ε : Type} [DecidableEq P] (env : StoreEnv ι P)

/-- The temporary file of a call with this number. -/
def StoreEnv.tmp (i : ι) (bytes : List UInt8) (n : ℕ) : FilePath :=
  tmpPath (env.sha bytes) (env.pid (env.owner i)) n

/-- One step of `put`: a system call, which may fail. -/
inductive PutStep (i : ι) (bytes : List UInt8) :
    StoreMachine P → CallPc ε → StoreMachine P → CallPc ε → Prop
  | found {m} (h : (m.files (pathsFor (env.sha bytes))).isSome) :
      PutStep i bytes m .ready m (.done (.stored (env.sha bytes)))
  /-- `Path::exists` is also false where the look fails. -/
  | unseen {m} : PutStep i bytes m .ready m .absent
  | makeDir {m} : PutStep i bytes m .absent
      { m with dirs := insert (pathsFor (env.sha bytes)).dir m.dirs } .made
  | makeDirFails {m} (e : ε) : PutStep i bytes m .absent m (.done (.failed e))
  | number {m} : PutStep i bytes m .made
      (m.draw (env.owner i)) (.numbered (m.counter (env.owner i)))
  | create {m n} (h : (pathsFor (env.sha bytes)).dir ∈ m.dirs) : PutStep i bytes m (.numbered n)
      (m.setFile (env.tmp i bytes n) (some [])) (.writing n [])
  | createFails {m n} (e : ε) : PutStep i bytes m (.numbered n) m (.done (.failed e))
  | write {m n written} (chunk : List UInt8) (h : written ++ chunk <+: bytes) :
      PutStep i bytes m (.writing n written)
        (m.setFile (env.tmp i bytes n) (some (written ++ chunk))) (.writing n (written ++ chunk))
  /-- The temporary file stays. -/
  | writeFails {m n written} (e : ε) :
      PutStep i bytes m (.writing n written) m (.done (.failed e))
  | sync {m n} : PutStep i bytes m (.writing n bytes) m (.synced n)
  | rename {m n} : PutStep i bytes m (.synced n)
      ((m.setFile (env.tmp i bytes n) none).setFile (pathsFor (env.sha bytes))
        (m.files (env.tmp i bytes n)))
      (.done (.stored (env.sha bytes)))
  | renameFails {m n} (e : ε) : PutStep i bytes m (.synced n) m (.unrenamed n e)
  | cleanUp {m n e} : PutStep i bytes m (.unrenamed n e)
      (m.setFile (env.tmp i bytes n) none) (.done (.failed e))
  | cleanUpFails {m n e} : PutStep i bytes m (.unrenamed n e) m (.done (.failed e))

/-- One step of a call. -/
inductive CallStep (i : ι) :
    StoreMachine P → CallPc ε → StoreMachine P → CallPc ε → Prop
  | put {m p m' p'} (bytes : List UInt8) (hcall : env.call i = .put bytes)
      (hstep : PutStep env i bytes m p m' p') : CallStep i m p m' p'
  | «exists» {m} (id : Sha256) (hcall : env.call i = .exists id) :
      CallStep i m .ready m (.done (.exists (m.files (pathsFor id)).isSome))
  | get {m} (id : Sha256) (hcall : env.call i = .get id) :
      CallStep i m .ready m (.done (.got (m.files (pathsFor id))))
  /-- An absent file is success. -/
  | delete {m} (id : Sha256) (hcall : env.call i = .delete id) : CallStep i m .ready
      (m.setFile (pathsFor id) none) (.done .deleted)
  | fails {m} (e : ε) (hcall : ∀ bytes, env.call i ≠ .put bytes) :
      CallStep i m .ready m (.done (.failed e))

/-- What happens around the calls. -/
inductive MachineStep : StoreMachine P → StoreMachine P → Prop
  /-- A process starts, under an id that no running one has. -/
  | start {m} (p : P) (hnew : p ∉ m.started) (hpid : ∀ q ∈ m.alive, env.pid q ≠ env.pid p) :
      MachineStep m { m with alive := insert p m.alive, started := insert p m.started }
  | kill {m} (p : P) : MachineStep m { m with alive := m.alive \ {p} }
  /-- The power goes.  Directories are not synced: a file that was renamed into place may be
  gone, and one that was removed may be back; a temporary file may hold anything. -/
  | powerLoss {m} (files : FilePath → Option (List UInt8)) (dirs : Set (String × String))
      (h : ∀ id b, files (pathsFor id) = some b → b ∈ m.past (pathsFor id)) :
      MachineStep m { m with files, dirs, alive := ∅ }

/-- One step: of a call whose process runs, or around the calls. -/
inductive StoreAct : Act (StoreAgent ι) (StoreMachine P) (CallPc ε)
  | call {m p m' p'} (i : ι) (halive : env.owner i ∈ m.alive) (hstep : CallStep env i m p m' p') :
      StoreAct (.call i) m p m' p'
  | machine {m m'} (hstep : MachineStep env m m') : StoreAct .machine m .ready m' .ready

end Steps

end Sconce
