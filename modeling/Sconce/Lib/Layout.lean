/-
# Binary layouts

Little-endian fields, and readers that take what they read off the front of their input.

`Reads r bytes a` says that `r` reads `a` from any input that starts with `bytes` and leaves
what follows.  Its rules follow the shape of a reader, so that a record is read back field
by field, and a sequence of records record by record.
-/
import Mathlib.Data.List.Basic
import Mathlib.Tactic

namespace Layout

/-! ## Fields -/

/-- The low `width` bytes of a number, the lowest first. -/
def le : ℕ → ℕ → List UInt8
  | 0, _ => []
  | width + 1, v => UInt8.ofNat v :: le width (v / 256)

/-- The number that bytes stand for, the lowest first. -/
def value : List UInt8 → ℕ
  | [] => 0
  | b :: bytes => b.toNat + 256 * value bytes

@[simp] theorem length_le (width v : ℕ) : (le width v).length = width := by
  induction width generalizing v with
  | zero => rfl
  | succ width ih => rw [le, List.length_cons, ih]

/-- A field holds every number below its range. -/
theorem value_le {width v : ℕ} (h : v < 256 ^ width) : value (le width v) = v := by
  induction width generalizing v with
  | zero =>
    rw [pow_zero] at h
    rw [le, value]
    omega
  | succ width ih =>
    have hrest : v / 256 < 256 ^ width := by
      rw [pow_succ] at h
      omega
    rw [le, value, ih hrest, UInt8.toNat_ofNat']
    omega

/-! ## Readers -/

/-- A reader: what it reads, and the rest of the input. -/
abbrev Reader (α : Type) := StateT (List UInt8) Option α

/-- The next `n` bytes. -/
def take (n : ℕ) : Reader (List UInt8) := fun input =>
  if n ≤ input.length then some (input.take n, input.drop n) else none

/-- The next field. -/
def field (width : ℕ) : Reader ℕ := value <$> take width

/-- The next field, which has to hold `v`. -/
def constant (width v : ℕ) : Reader Unit := do
  let found ← field width
  if found = v then pure () else failure

/-- The next `n` records. -/
def times {α : Type} (r : Reader α) : ℕ → Reader (List α)
  | 0 => pure []
  | n + 1 => do
    let a ← r
    return a :: (← times r n)

variable {α β : Type}

/-- The reader reads `a` from any input that starts with the bytes. -/
def Reads (r : Reader α) (bytes : List UInt8) (a : α) : Prop :=
  ∀ rest, r.run (bytes ++ rest) = some (a, rest)

theorem reads_pure (a : α) : Reads (pure a) [] a := fun _ => rfl

/-- What is written in turn is read in turn. -/
theorem reads_bind {r : Reader α} {k : α → Reader β} {bytes bytes' : List UInt8} {a : α} {b : β}
    (h : Reads r bytes a) (h' : Reads (k a) bytes' b) : Reads (r >>= k) (bytes ++ bytes') b := by
  intro rest
  rw [List.append_assoc, StateT.run_bind, h]
  exact h' rest

/-- The last bytes of a record: what follows them reads nothing. -/
theorem reads_last {r : Reader α} {k : α → Reader β} {bytes : List UInt8} {a : α} {b : β}
    (h : Reads r bytes a) (hk : Reads (k a) [] b) : Reads (r >>= k) bytes b := by
  have hboth := reads_bind h hk
  rwa [List.append_nil] at hboth

/-- What is made of a value is read where the value is. -/
theorem reads_map {r : Reader α} (f : α → β) {bytes : List UInt8} {a : α} (h : Reads r bytes a) :
    Reads (f <$> r) bytes (f a) := by
  intro rest
  rw [StateT.run_map, h]
  rfl

theorem reads_take (bytes : List UInt8) : Reads (take bytes.length) bytes bytes := by
  intro rest
  show (if _ then _ else _) = _
  rw [if_pos (by rw [List.length_append]; omega), List.take_left, List.drop_left]

/-- A value that fits its field is read back. -/
theorem reads_field {width v : ℕ} (h : v < 256 ^ width) : Reads (field width) (le width v) v := by
  have hread := reads_map value (reads_take (le width v))
  rwa [length_le, value_le h] at hread

/-- A constant is read where it was written. -/
theorem reads_constant {width v : ℕ} (h : v < 256 ^ width) :
    Reads (constant width v) (le width v) () := by
  intro rest
  unfold constant
  rw [StateT.run_bind, reads_field h]
  show StateT.run (if v = v then _ else _) rest = _
  rw [if_pos rfl]
  rfl

/-- Records are read back one after the other. -/
theorem reads_times {ι : Type} {r : Reader α} {record : ι → List UInt8} {read : ι → α}
    {items : List ι} (h : ∀ i ∈ items, Reads r (record i) (read i)) :
    Reads (times r items.length) (items.flatMap record) (items.map read) := by
  induction items with
  | nil => exact reads_pure []
  | cons i rest ih =>
    have hrest := ih fun j hj => h j (List.mem_cons_of_mem i hj)
    exact reads_bind (h i List.mem_cons_self) (reads_last hrest (reads_pure _))

end Layout
