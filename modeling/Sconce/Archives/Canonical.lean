/-
# The canonical archive

The deterministic ZIP writer: entries sorted by path bytes, stored, with every other field
pinned.  A size, an offset or a count that its field cannot hold ends the writer (`none`).

A reader of such files finds the directory from the last bytes, walks it and follows every
offset.  It reads back what was written, so that the bytes determine the entries, and the
entries the bytes.
-/
import Sconce.Lib.Comparator
import Sconce.Lib.Layout

namespace Sconce.Archives

open Layout

/-! ## Entries -/

/-- The kind and permission of an entry. -/
inductive Mode where
  | file
  | executable
  | symlink
  deriving DecidableEq

/-- `unix_mode`. -/
def Mode.unixMode : Mode → ℕ
  | .file => 0o100644
  | .executable => 0o100755
  | .symlink => 0o120777

/-- An archive member. -/
structure Entry where
  path : String
  mode : Mode
  content : List UInt8
  deriving DecidableEq

/-- `raw.replace('\\', "/")`. -/
def slashes (raw : List Char) : List Char := raw.map fun c => if c = '\\' then '/' else c

/-- `trim_start_matches("./")`: as often as it is there. -/
def trimDots : List Char → List Char
  | '.' :: '/' :: rest => trimDots rest
  | cs => cs

/-- `trim_start_matches('/')`. -/
def trimSlashes (cs : List Char) : List Char := cs.dropWhile (· = '/')

/-- `Entry::new`. -/
def Entry.new (path : String) (mode : Mode) (content : List UInt8) : Entry :=
  ⟨.ofList (trimSlashes (trimDots (slashes path.toList))), mode, content⟩

/-- A collection of entries. -/
structure CanonicalArchive where
  entries : List Entry

/-- `add`. -/
def CanonicalArchive.add (a : CanonicalArchive) (entry : Entry) : CanonicalArchive :=
  ⟨a.entries ++ [entry]⟩

/-- `path.as_bytes()`. -/
def asBytes (path : String) : List UInt8 := path.toByteArray.data.toList

theorem asBytes_injective : Function.Injective asBytes := by
  intro s t h
  exact String.toByteArray_inj.1 (ByteArray.ext (Array.toList_inj.1 h))

/-- The order of `into_zip`, by path bytes. -/
def pathLe (a b : Entry) : Bool := decide (asBytes a.path ≤ asBytes b.path)

/-- The entries sorted; the sort is stable. -/
def CanonicalArchive.sorted (a : CanonicalArchive) : List Entry := a.entries.mergeSort pathLe

/-- CRC-32 (IEEE 802.3, reflected). -/
def crc32 (buf : List UInt8) : UInt32 :=
  let poly : UInt32 := 0xEDB88320
  let bit (crc : UInt32) : UInt32 := if crc &&& 1 ≠ 0 then poly ^^^ (crc >>> 1) else crc >>> 1
  let byte (crc : UInt32) (b : UInt8) : UInt32 :=
    (List.range 8).foldl (fun crc _ => bit crc) (crc ^^^ b.toUInt32)
  buf.foldl byte 0xFFFFFFFF ^^^ 0xFFFFFFFF

-- the check value of the CRC catalogue
example : crc32 [0x31, 0x32, 0x33, 0x34, 0x35, 0x36, 0x37, 0x38, 0x39] = 0xCBF43926 := by
  decide +kernel

/-! ## The writer -/

/-- `w16`. -/
def w16 (v : ℕ) : List UInt8 := le 2 v

/-- `w32`. -/
def w32 (v : ℕ) : List UInt8 := le 4 v

/-- `u32_field`: a size or an offset beyond 4 GiB ends the writer. -/
def u32Field (n : ℕ) : Option ℕ := if n < 2 ^ 32 then some n else none

/-- `u16_field`. -/
def u16Field (n : ℕ) : Option ℕ := if n < 2 ^ 16 then some n else none

def dosTime : ℕ := 0x0000
def dosDate : ℕ := 0x0021
def versionNeeded : ℕ := 20
def versionMadeBy : ℕ := 0x0314

/-- The bytes `write_local_header` appends, given the fields it has checked. -/
def localBytes (e : Entry) (size nameLength : ℕ) : List UInt8 :=
  w32 0x04034b50 ++ (w16 versionNeeded ++ (w16 0 ++ (w16 0 ++ (w16 dosTime ++ (w16 dosDate ++
    (w32 (crc32 e.content).toNat ++ (w32 size ++ (w32 size ++ (w16 nameLength ++ (w16 0 ++
      (asBytes e.path ++ e.content)))))))))))

/-- `write_local_header`: what it appends. -/
def writeLocalHeader (e : Entry) : Option (List UInt8) := do
  let size ← u32Field e.content.length
  let nameLength ← u16Field (asBytes e.path).length
  return localBytes e size nameLength

/-- The bytes `write_central_header` appends. -/
def centralBytes (e : Entry) (localOffset size nameLength : ℕ) : List UInt8 :=
  w32 0x02014b50 ++ (w16 versionMadeBy ++ (w16 versionNeeded ++ (w16 0 ++ (w16 0 ++
    (w16 dosTime ++ (w16 dosDate ++ (w32 (crc32 e.content).toNat ++ (w32 size ++ (w32 size ++
      (w16 nameLength ++ (w16 0 ++ (w16 0 ++ (w16 0 ++ (w16 0 ++
        (w32 (e.mode.unixMode <<< 16) ++ (w32 localOffset ++ asBytes e.path))))))))))))))))

/-- `write_central_header`: what it appends. -/
def writeCentralHeader (e : Entry) (localOffset : ℕ) : Option (List UInt8) := do
  let size ← u32Field e.content.length
  let nameLength ← u16Field (asBytes e.path).length
  return centralBytes e localOffset size nameLength

/-- `write_eocd`: what it appends. -/
def writeEocd (count cdSize cdOffset : ℕ) : List UInt8 :=
  w32 0x06054b50 ++ (w16 0 ++ (w16 0 ++ (w16 count ++ (w16 count ++ (w32 cdSize ++
    (w32 cdOffset ++ w16 0))))))

/-- The pass of `into_zip` over the local header and data of an entry: the body, and the
offsets. -/
def localPass (written : List UInt8 × List ℕ) (e : Entry) : Option (List UInt8 × List ℕ) := do
  let offset ← u32Field written.1.length
  let header ← writeLocalHeader e
  return (written.1 ++ header, written.2 ++ [offset])

/-- The pass over the directory record of an entry. -/
def centralPass (central : List UInt8) (x : Entry × ℕ) : Option (List UInt8) := do
  let header ← writeCentralHeader x.1 x.2
  return central ++ header

/-- `into_zip`. -/
def CanonicalArchive.intoZip (a : CanonicalArchive) : Option (List UInt8) := do
  let entries := a.sorted
  let (body, offsets) ← entries.foldlM localPass ([], [])
  let central ← (entries.zip offsets).foldlM centralPass []
  let cdOffset ← u32Field body.length
  let cdSize ← u32Field central.length
  let count ← u16Field entries.length
  return body ++ (central ++ writeEocd count cdSize cdOffset)

/-! ## What the writer writes -/

/-- The local header and data of an entry. -/
def Entry.localPart (e : Entry) : List UInt8 :=
  localBytes e e.content.length (asBytes e.path).length

/-- The entries with the offsets of their local headers, the first at `start`. -/
def placed : ℕ → List Entry → List (Entry × ℕ)
  | _, [] => []
  | start, e :: es => (e, start) :: placed (start + e.localPart.length) es

/-- The directory record of a placed entry. -/
def directoryPart (x : Entry × ℕ) : List UInt8 :=
  centralBytes x.1 x.2 x.1.content.length (asBytes x.1.path).length

/-- The local headers and data of all entries. -/
def bodyOf (es : List Entry) : List UInt8 := es.flatMap Entry.localPart

/-- The central directory. -/
def directoryOf (es : List Entry) : List UInt8 := (placed 0 es).flatMap directoryPart

/-- The limits of the fields of an entry. -/
structure Entry.Fits (e : Entry) : Prop where
  path : (asBytes e.path).length < 2 ^ 16
  content : e.content.length < 2 ^ 32

/-- The limits of the ZIP format: lengths of paths and the count of entries below 2¹⁶, sizes
and offsets below 2³². -/
structure Fits (es : List Entry) : Prop where
  entries : ∀ e ∈ es, e.Fits
  count : es.length < 2 ^ 16
  body : (bodyOf es).length < 2 ^ 32
  directory : (directoryOf es).length < 2 ^ 32

instance (e : Entry) : Decidable e.Fits :=
  decidable_of_iff (_ ∧ _) ⟨fun h => ⟨h.1, h.2⟩, fun h => ⟨h.path, h.content⟩⟩

instance (es : List Entry) : Decidable (Fits es) :=
  decidable_of_iff (_ ∧ _ ∧ _ ∧ _) ⟨fun h => ⟨h.1, h.2.1, h.2.2.1, h.2.2.2⟩,
    fun h => ⟨h.entries, h.count, h.body, h.directory⟩⟩

/-- The whole file. -/
def fileOf (es : List Entry) : List UInt8 :=
  bodyOf es ++ (directoryOf es ++ writeEocd es.length (directoryOf es).length (bodyOf es).length)

theorem u32Field_of_lt {n : ℕ} (h : n < 2 ^ 32) : u32Field n = some n := if_pos h

theorem u16Field_of_lt {n : ℕ} (h : n < 2 ^ 16) : u16Field n = some n := if_pos h

/-- The local part of an entry that fits is written. -/
theorem writeLocalHeader_of_fits {e : Entry} (h : e.Fits) :
    writeLocalHeader e = some e.localPart := by
  unfold writeLocalHeader
  rw [u32Field_of_lt h.content, u16Field_of_lt h.path]
  rfl

/-- The directory part of an entry that fits is written. -/
theorem writeCentralHeader_of_fits {e : Entry} (h : e.Fits) (offset : ℕ) :
    writeCentralHeader e offset = some (directoryPart (e, offset)) := by
  unfold writeCentralHeader
  rw [u32Field_of_lt h.content, u16Field_of_lt h.path]
  rfl

/-- What is placed is an entry of the archive. -/
theorem mem_placed_fst {start : ℕ} {es : List Entry} {x : Entry × ℕ} (h : x ∈ placed start es) :
    x.1 ∈ es := by
  induction es generalizing start with
  | nil => exact absurd h List.not_mem_nil
  | cons e es ih =>
    rcases List.mem_cons.1 h with rfl | h
    · exact List.mem_cons_self
    · exact List.mem_cons_of_mem e (ih h)

/-- A placed entry stands in the body at its offset. -/
theorem mem_placed {start : ℕ} {es : List Entry} {x : Entry × ℕ} (h : x ∈ placed start es) :
    ∃ before after, bodyOf es = before ++ (x.1.localPart ++ after) ∧
      x.2 = start + before.length := by
  induction es generalizing start with
  | nil => exact absurd h List.not_mem_nil
  | cons e es ih =>
    rcases List.mem_cons.1 h with rfl | h
    · exact ⟨[], bodyOf es, rfl, rfl⟩
    · obtain ⟨before, after, hbody, hoffset⟩ := ih h
      refine ⟨e.localPart ++ before, after, ?_, ?_⟩
      · show e.localPart ++ bodyOf es = _
        rw [hbody, List.append_assoc]
      · rw [hoffset, List.length_append]
        omega

/-- Placing keeps the entries and their order. -/
theorem map_fst_placed (start : ℕ) (es : List Entry) : (placed start es).map Prod.fst = es := by
  induction es generalizing start with
  | nil => rfl
  | cons e es ih => rw [placed, List.map_cons, ih]

theorem zip_placed (start : ℕ) (es : List Entry) :
    es.zip ((placed start es).map Prod.snd) = placed start es := by
  induction es generalizing start with
  | nil => rfl
  | cons e es ih =>
    show (e, start) :: es.zip ((placed _ es).map Prod.snd) = _
    rw [ih]
    rfl

/-- The loop over the local headers. -/
theorem foldlM_localPass {es : List Entry} (hfits : ∀ e ∈ es, e.Fits) (body : List UInt8)
    (offsets : List ℕ) (hbody : (body ++ bodyOf es).length < 2 ^ 32) :
    es.foldlM localPass (body, offsets)
      = some (body ++ bodyOf es, offsets ++ (placed body.length es).map Prod.snd) := by
  induction es generalizing body offsets with
  | nil =>
    rw [List.foldlM_nil]
    simp [bodyOf, placed]
  | cons e es ih =>
    have hall : body ++ bodyOf (e :: es) = (body ++ e.localPart) ++ bodyOf es := by
      show body ++ (e.localPart ++ bodyOf es) = _
      rw [List.append_assoc]
    have hlength : body.length < 2 ^ 32 := by
      rw [List.length_append] at hbody
      omega
    have hpass : localPass (body, offsets) e
        = some (body ++ e.localPart, offsets ++ [body.length]) := by
      unfold localPass
      rw [u32Field_of_lt hlength, writeLocalHeader_of_fits (hfits e List.mem_cons_self)]
      rfl
    rw [hall] at hbody ⊢
    rw [List.foldlM_cons, hpass]
    refine (ih (fun e' he' => hfits e' (List.mem_cons_of_mem e he')) _ _ hbody).trans ?_
    rw [List.append_assoc offsets, List.length_append]
    rfl

/-- The loop over the directory records. -/
theorem foldlM_centralPass {xs : List (Entry × ℕ)} (hfits : ∀ x ∈ xs, x.1.Fits)
    (central : List UInt8) :
    xs.foldlM centralPass central = some (central ++ xs.flatMap directoryPart) := by
  induction xs generalizing central with
  | nil =>
    rw [List.foldlM_nil, List.flatMap_nil, List.append_nil]
    rfl
  | cons x xs ih =>
    have hpass : centralPass central x = some (central ++ directoryPart x) := by
      unfold centralPass
      rw [writeCentralHeader_of_fits (hfits x List.mem_cons_self)]
      rfl
    rw [List.foldlM_cons, hpass]
    refine (ih (fun y hy => hfits y (List.mem_cons_of_mem x hy)) _).trans ?_
    rw [List.flatMap_cons, List.append_assoc]

/-- **The writer, where the limits are respected.** -/
theorem intoZip_of_fits {a : CanonicalArchive} (h : Fits a.sorted) :
    a.intoZip = some (fileOf a.sorted) := by
  have hplaced : ∀ x ∈ placed 0 a.sorted, x.1.Fits := fun x hx =>
    h.entries x.1 (mem_placed_fst hx)
  have hlocal : a.sorted.foldlM localPass ([], [])
      = some (bodyOf a.sorted, (placed 0 a.sorted).map Prod.snd) :=
    foldlM_localPass h.entries [] [] h.body
  have hcentral : (placed 0 a.sorted).foldlM centralPass [] = some (directoryOf a.sorted) :=
    foldlM_centralPass hplaced []
  unfold CanonicalArchive.intoZip
  simp only [hlocal, Option.bind_eq_bind, Option.bind_some, zip_placed, hcentral,
    u32Field_of_lt h.body, u32Field_of_lt h.directory, u16Field_of_lt h.count]
  rfl

/-! ## A reader -/

/-- A record of the central directory. -/
structure DirectoryRecord where
  name : List UInt8
  unixMode : ℕ
  crc : ℕ
  compressed : ℕ
  size : ℕ
  offset : ℕ

/-- A local header and its data. -/
structure LocalRecord where
  name : List UInt8
  crc : ℕ
  compressed : ℕ
  size : ℕ
  data : List UInt8

/-- The end of the central directory. -/
structure EndRecord where
  onDisk : ℕ
  total : ℕ
  cdSize : ℕ
  cdOffset : ℕ

/-- Read a stored member; times and versions say nothing about it. -/
def readLocal : Reader LocalRecord := do
  constant 4 0x04034b50
  let _version ← field 2
  constant 2 0
  constant 2 0
  let _time ← field 2
  let _date ← field 2
  let crc ← field 4
  let compressed ← field 4
  let size ← field 4
  let nameLength ← field 2
  let extraLength ← field 2
  let name ← take nameLength
  let _extra ← take extraLength
  let data ← take compressed
  return ⟨name, crc, compressed, size, data⟩

def readCentral : Reader DirectoryRecord := do
  constant 4 0x02014b50
  let _madeBy ← field 2
  let _version ← field 2
  constant 2 0
  constant 2 0
  let _time ← field 2
  let _date ← field 2
  let crc ← field 4
  let compressed ← field 4
  let size ← field 4
  let nameLength ← field 2
  let extraLength ← field 2
  let commentLength ← field 2
  let _disk ← field 2
  let _internal ← field 2
  let external ← field 4
  let offset ← field 4
  let name ← take nameLength
  let _extra ← take extraLength
  let _comment ← take commentLength
  return ⟨name, external >>> 16, crc, compressed, size, offset⟩

def readEnd : Reader EndRecord := do
  constant 4 0x06054b50
  constant 2 0
  constant 2 0
  let onDisk ← field 2
  let total ← field 2
  let cdSize ← field 4
  let cdOffset ← field 4
  constant 2 0
  return ⟨onDisk, total, cdSize, cdOffset⟩

/-- The mode of the bits. -/
def Mode.ofUnix (bits : ℕ) : Option Mode :=
  [Mode.file, .executable, .symlink].find? fun m => m.unixMode = bits

/-- The local header agrees with the directory, and the data with their size and checksum. -/
def Agrees (r : DirectoryRecord) (l : LocalRecord) : Prop :=
  l.name = r.name ∧ l.crc = r.crc ∧ l.compressed = r.compressed ∧ l.size = r.size ∧
    l.data.length = r.size ∧ (crc32 l.data).toNat = r.crc

instance (r : DirectoryRecord) (l : LocalRecord) : Decidable (Agrees r l) :=
  inferInstanceAs (Decidable (_ ∧ _))

/-- Follow the offset of a directory record. -/
def readMember (zip : List UInt8) (r : DirectoryRecord) : Option Entry := do
  let (l, _) ← readLocal.run (zip.drop r.offset)
  if Agrees r l then
    let path ← String.fromUTF8? ⟨r.name.toArray⟩
    let mode ← Mode.ofUnix r.unixMode
    return ⟨path, mode, l.data⟩
  else none

/-- The end record from the last 22 bytes, the directory it tells of, and every member. -/
def readZip (zip : List UInt8) : Option (List Entry) := do
  let (e, rest) ← readEnd.run (zip.drop (zip.length - 22))
  if rest = [] ∧ e.onDisk = e.total then
    let (records, rest) ← (times readCentral e.total).run ((zip.drop e.cdOffset).take e.cdSize)
    if rest = [] then records.mapM (readMember zip) else none
  else none

/-! ## What is read back -/

/-- The directory record of a placed entry, as it is read. -/
def recordOf (x : Entry × ℕ) : DirectoryRecord :=
  ⟨asBytes x.1.path, x.1.mode.unixMode, (crc32 x.1.content).toNat, x.1.content.length,
    x.1.content.length, x.2⟩

/-- The local record of an entry, as it is read. -/
def Entry.localRecord (e : Entry) : LocalRecord :=
  ⟨asBytes e.path, (crc32 e.content).toNat, e.content.length, e.content.length, e.content⟩

/-- Two bytes are read as they were written. -/
theorem reads_w16 {v : ℕ} (h : v < 2 ^ 16) : Reads (field 2) (w16 v) v := reads_field h

/-- Four bytes are read as they were written. -/
theorem reads_w32 {v : ℕ} (h : v < 2 ^ 32) : Reads (field 4) (w32 v) v := reads_field h

theorem reads_nothing : Reads (take 0) [] [] := reads_take []

theorem reads_local {e : Entry} (h : e.Fits) : Reads readLocal e.localPart e.localRecord := by
  unfold Entry.localPart localBytes readLocal
  refine reads_bind (reads_constant (by decide)) ?_
  refine reads_bind (reads_w16 (by decide)) ?_
  refine reads_bind (reads_constant (by decide)) ?_
  refine reads_bind (reads_constant (by decide)) ?_
  refine reads_bind (reads_w16 (by decide)) ?_
  refine reads_bind (reads_w16 (by decide)) ?_
  refine reads_bind (reads_w32 (UInt32.toNat_lt _)) ?_
  refine reads_bind (reads_w32 h.content) ?_
  refine reads_bind (reads_w32 h.content) ?_
  refine reads_bind (reads_w16 h.path) ?_
  refine reads_bind (reads_w16 (by decide)) ?_
  refine reads_bind (reads_take _) ?_
  exact reads_bind reads_nothing (reads_last (reads_take _) (reads_pure _))

/-- A mode is read back from its Unix bits. -/
theorem Mode.ofUnix_unixMode (m : Mode) : Mode.ofUnix m.unixMode = some m := by
  cases m <;> rfl

theorem Mode.unixMode_lt (m : Mode) : m.unixMode <<< 16 < 2 ^ 32 := by
  cases m <;> decide

/-- The upper half of the attributes is the mode. -/
theorem Mode.unixMode_shift (m : Mode) : m.unixMode <<< 16 >>> 16 = m.unixMode := by
  cases m <;> rfl

/-- A directory part is read as its record. -/
theorem reads_central {x : Entry × ℕ} (h : x.1.Fits) (hoffset : x.2 < 2 ^ 32) :
    Reads readCentral (directoryPart x) (recordOf x) := by
  unfold directoryPart centralBytes readCentral
  refine reads_bind (reads_constant (by decide)) ?_
  refine reads_bind (reads_w16 (by decide)) ?_
  refine reads_bind (reads_w16 (by decide)) ?_
  refine reads_bind (reads_constant (by decide)) ?_
  refine reads_bind (reads_constant (by decide)) ?_
  refine reads_bind (reads_w16 (by decide)) ?_
  refine reads_bind (reads_w16 (by decide)) ?_
  refine reads_bind (reads_w32 (UInt32.toNat_lt _)) ?_
  refine reads_bind (reads_w32 h.content) ?_
  refine reads_bind (reads_w32 h.content) ?_
  refine reads_bind (reads_w16 h.path) ?_
  refine reads_bind (reads_w16 (by decide)) ?_
  refine reads_bind (reads_w16 (by decide)) ?_
  refine reads_bind (reads_w16 (by decide)) ?_
  refine reads_bind (reads_w16 (by decide)) ?_
  refine reads_bind (reads_w32 (Mode.unixMode_lt _)) ?_
  refine reads_bind (reads_w32 hoffset) ?_
  -- the name stands last: the extra field and the comment are empty
  refine reads_last (reads_take _) (reads_bind reads_nothing (reads_bind reads_nothing ?_))
  rw [Mode.unixMode_shift]
  exact reads_pure _

/-- The end of the directory is read as its record. -/
theorem reads_end {count cdSize cdOffset : ℕ} (hcount : count < 2 ^ 16) (hsize : cdSize < 2 ^ 32)
    (hoffset : cdOffset < 2 ^ 32) :
    Reads readEnd (writeEocd count cdSize cdOffset) ⟨count, count, cdSize, cdOffset⟩ := by
  unfold writeEocd readEnd
  refine reads_bind (reads_constant (by decide)) ?_
  refine reads_bind (reads_constant (by decide)) ?_
  refine reads_bind (reads_constant (by decide)) ?_
  refine reads_bind (reads_w16 hcount) ?_
  refine reads_bind (reads_w16 hcount) ?_
  refine reads_bind (reads_w32 hsize) ?_
  refine reads_bind (reads_w32 hoffset) ?_
  exact reads_last (reads_constant (by decide)) (reads_pure _)

/-! ## Round trip -/

/-- A directory part is as long as its path and 46 bytes. -/
theorem length_centralBytes (e : Entry) (offset size nameLength : ℕ) :
    (centralBytes e offset size nameLength).length = 46 + (asBytes e.path).length := by
  unfold centralBytes w16 w32
  simp only [List.length_append, length_le]
  omega

theorem length_writeEocd (count cdSize cdOffset : ℕ) :
    (writeEocd count cdSize cdOffset).length = 22 := by
  unfold writeEocd w16 w32
  simp only [List.length_append, length_le]

/-- The length of the directory does not depend on the offsets. -/
theorem length_flatMap_placed (start : ℕ) (es : List Entry) :
    ((placed start es).flatMap directoryPart).length
      = (es.map fun e => 46 + (asBytes e.path).length).sum := by
  induction es generalizing start with
  | nil => rfl
  | cons e es ih =>
    rw [placed, List.flatMap_cons, List.length_append, ih, List.map_cons, List.sum_cons]
    unfold directoryPart
    rw [length_centralBytes]

/-- The limits do not depend on the order of the entries. -/
theorem Fits.perm {es es' : List Entry} (h : Fits es) (hperm : es.Perm es') : Fits es' where
  entries := fun e he => h.entries e (hperm.mem_iff.2 he)
  count := hperm.length_eq ▸ h.count
  body := by
    have hlength := (hperm.flatMap_right Entry.localPart).length_eq
    exact lt_of_eq_of_lt hlength.symm h.body
  directory := by
    have hlength := (hperm.map fun e => 46 + (asBytes e.path).length).sum_eq
    have hdirectory := h.directory
    unfold directoryOf at hdirectory ⊢
    rw [length_flatMap_placed] at hdirectory ⊢
    omega

/-- The bytes of a path are read as the path. -/
theorem fromUTF8_asBytes (path : String) :
    String.fromUTF8? ⟨(asBytes path).toArray⟩ = some path := by
  have hbytes : (⟨(asBytes path).toArray⟩ : ByteArray) = path.toByteArray := rfl
  unfold String.fromUTF8?
  rw [hbytes, dif_pos path.isValidUTF8]
  rfl

/-- Every placed entry is read back at its offset. -/
theorem readMember_fileOf {es : List Entry} (h : Fits es) {x : Entry × ℕ} (hx : x ∈ placed 0 es) :
    readMember (fileOf es) (recordOf x) = some x.1 := by
  obtain ⟨before, after, hbody, hoffset⟩ := mem_placed hx
  have hdrop : ∃ rest, (fileOf es).drop x.2 = x.1.localPart ++ rest := by
    refine ⟨after ++ (directoryOf es ++ writeEocd es.length (directoryOf es).length
      (bodyOf es).length), ?_⟩
    unfold fileOf
    rw [hoffset, zero_add, hbody, List.append_assoc, List.append_assoc, List.drop_left]
  obtain ⟨rest, hrest⟩ := hdrop
  have hlocal := reads_local (h.entries x.1 (mem_placed_fst hx)) rest
  have hagrees : Agrees (recordOf x) x.1.localRecord := ⟨rfl, rfl, rfl, rfl, rfl, rfl⟩
  unfold readMember
  simp only [recordOf] at hagrees ⊢
  simp only [hrest, hlocal, Option.bind_eq_bind, Option.bind_some]
  rw [if_pos hagrees, fromUTF8_asBytes, Mode.ofUnix_unixMode]
  rfl

/-- Members read one by one. -/
theorem mapM_readMember {zip : List UInt8} {xs : List (Entry × ℕ)}
    (h : ∀ x ∈ xs, readMember zip (recordOf x) = some x.1) :
    (xs.map recordOf).mapM (readMember zip) = some (xs.map Prod.fst) := by
  induction xs with
  | nil => rfl
  | cons x xs ih =>
    rw [List.map_cons, List.mapM_cons, h x List.mem_cons_self,
      ih fun y hy => h y (List.mem_cons_of_mem x hy)]
    rfl

/-- **The reader reads back what the writer wrote.** -/
theorem readZip_fileOf {es : List Entry} (h : Fits es) : readZip (fileOf es) = some es := by
  have hplaced : ∀ x ∈ placed 0 es, x.1.Fits ∧ x.2 < 2 ^ 32 := by
    intro x hx
    obtain ⟨before, after, hbody, hoffset⟩ := mem_placed hx
    refine ⟨h.entries x.1 (mem_placed_fst hx), ?_⟩
    have hlength := h.body
    rw [hbody, List.length_append] at hlength
    omega
  have hend : (fileOf es).drop ((fileOf es).length - 22)
      = writeEocd es.length (directoryOf es).length (bodyOf es).length ++ [] := by
    unfold fileOf
    rw [← List.append_assoc, List.length_append, length_writeEocd, Nat.add_sub_cancel,
      List.drop_left, List.append_nil]
  have hdirectory : ((fileOf es).drop (bodyOf es).length).take (directoryOf es).length
      = directoryOf es ++ [] := by
    unfold fileOf
    rw [List.drop_left, List.take_left, List.append_nil]
  have hrecords := reads_times (r := readCentral)
    (fun x hx => reads_central (hplaced x hx).1 (hplaced x hx).2) []
  have hcount : (placed 0 es).length = es.length := by
    rw [← List.length_map Prod.fst, map_fst_placed]
  rw [hcount] at hrecords
  unfold readZip
  rw [hend, reads_end h.count h.directory h.body]
  simp only [Option.bind_eq_bind, Option.bind_some, and_self, if_true, hdirectory]
  unfold directoryOf
  simp only [hrecords, Option.bind_some, if_true]
  rw [mapM_readMember fun x hx => readMember_fileOf h hx, map_fst_placed]

/-! ## A faithful encoding that forgets the order -/

/-- The paths are pairwise distinct. -/
def CanonicalArchive.Distinct (a : CanonicalArchive) : Prop := (a.entries.map Entry.path).Nodup

theorem sorted_perm (a : CanonicalArchive) : a.sorted.Perm a.entries := List.mergeSort_perm _ _

/-- The entries are written in the order of their paths' bytes. -/
theorem sorted_pairwise (a : CanonicalArchive) :
    a.sorted.Pairwise fun e e' => asBytes e.path ≤ asBytes e'.path := by
  refine pairwise_mergeSort_of ?_ ?_ a.entries
  · exact fun _ _ _ => Std.le_trans
  · exact fun _ _ => Std.le_total

/-- Distinct paths have one order. -/
theorem sorted_eq_of_perm {a b : CanonicalArchive} (h : a.Distinct)
    (hperm : a.entries.Perm b.entries) : a.sorted = b.sorted := by
  have hboth : a.sorted.Perm b.sorted :=
    (sorted_perm a).trans (hperm.trans (sorted_perm b).symm)
  refine hboth.eq_of_pairwise (fun e e' he he' hle hge => ?_) (sorted_pairwise a) (sorted_pairwise b)
  have hpath : e.path = e'.path := asBytes_injective (Std.le_antisymm hle hge)
  have hmem := (sorted_perm a).mem_iff.1 he
  have hmem' := hperm.mem_iff.2 ((sorted_perm b).mem_iff.1 he')
  exact List.inj_on_of_nodup_map h hmem hmem' hpath

/-- **The canonical ZIP is a faithful, order-free encoding.** Within the limits of the format
the writer ends with a file; reading it gives the entries in path order, and two archives
have the same file exactly when they hold the same entries. -/
theorem canonical_zip_faithful {a b : CanonicalArchive} (hdistinct : a.Distinct)
    (hfits : Fits a.entries) (hfits' : Fits b.entries) :
    (∃ zip es, a.intoZip = some zip ∧ readZip zip = some es ∧ es.Perm a.entries ∧
      es.Pairwise fun e e' => asBytes e.path < asBytes e'.path) ∧
    (a.intoZip = b.intoZip ↔ a.entries.Perm b.entries) := by
  have hread : ∀ {c : CanonicalArchive}, Fits c.entries →
      c.intoZip = some (fileOf c.sorted) ∧ readZip (fileOf c.sorted) = some c.sorted := by
    intro c h
    have hsorted : Fits c.sorted := h.perm (sorted_perm c).symm
    exact ⟨intoZip_of_fits hsorted, readZip_fileOf hsorted⟩
  obtain ⟨hzip, hback⟩ := hread hfits
  obtain ⟨hzip', hback'⟩ := hread hfits'
  refine ⟨⟨_, _, hzip, hback, sorted_perm a, ?_⟩, fun h => ?_, fun h => ?_⟩
  · have hnodup : (a.sorted.map Entry.path).Nodup := ((sorted_perm a).map _).nodup_iff.2 hdistinct
    have hne : a.sorted.Pairwise fun e e' => e.path ≠ e'.path := List.pairwise_map.1 hnodup
    refine ((sorted_pairwise a).and hne).imp fun h => ?_
    exact Std.lt_of_le_of_ne h.1 fun heq => h.2 (asBytes_injective heq)
  · rw [hzip, hzip'] at h
    rw [Option.some.inj h, hback'] at hback
    have hsame : b.sorted = a.sorted := Option.some.inj hback
    exact (sorted_perm a).symm.trans (hsame ▸ sorted_perm b)
  · unfold CanonicalArchive.intoZip
    rw [sorted_eq_of_perm hdistinct h]

/-- A package with an executable and a link. -/
def package : CanonicalArchive where
  entries := [
    .new "./src/Foo.php" .file [60, 63],
    .new "bin\\run" .executable [35, 33],
    .new "/link" .symlink [115, 114, 99]]

theorem package_fits : Fits package.entries := by decide +kernel

/-- The package in the opposite order has the same file. -/
theorem canonical_zip_faithful_package :
    package.entries.map Entry.path = ["src/Foo.php", "bin/run", "link"] ∧
      package.intoZip = (CanonicalArchive.mk package.entries.reverse).intoZip := by
  refine ⟨by decide, ?_⟩
  have hperm : package.entries.Perm package.entries.reverse := (List.reverse_perm _).symm
  have hdistinct : package.Distinct := by
    unfold CanonicalArchive.Distinct
    decide
  exact (canonical_zip_faithful hdistinct package_fits (package_fits.perm hperm)).2.2 hperm

end Sconce.Archives
