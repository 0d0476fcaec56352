/-
# Lossy UTF-8

Bytes read as UTF-8, each longest start of a character that is cut off or followed by a byte
that cannot be there replaced by one U+FFFD.  The reader takes one byte at a time.

ASCII bytes stand for themselves wherever they are, and nothing else is read as an ASCII
character that is not NUL: separators of bytes and of characters are at the same places.
-/
import Mathlib

/-! ## ASCII characters -/

/-- A fact about an ASCII character is one about its code. -/
theorem Char.of_ascii {P : Char → Prop} (hall : ∀ n < 128, P (Char.ofNat n)) {c : Char}
    (h : c.toNat < 128) : P c := by
  have hc := hall c.toNat h
  rwa [Char.ofNat_toNat] at hc

/-- Only ASCII letters have a lower case. -/
theorem Char.toLower_of_not_ascii {c : Char} (h : ¬ c.toNat < 128) : c.toLower = c := by
  have hupper : ¬ (c.val ≥ 'A'.val ∧ c.val ≤ 'Z'.val) := fun hle =>
    h (lt_of_le_of_lt (UInt32.le_iff_toNat_le.1 hle.2) (by decide))
  rw [Char.toLower, dif_neg hupper]

/-- A character that is the lower-case form of itself alone. -/
theorem Char.toLower_eq_iff {d : Char}
    (hall : ∀ n < 128, (Char.ofNat n).toLower = d ↔ Char.ofNat n = d) (c : Char) :
    c.toLower = d ↔ c = d := by
  by_cases h : c.toNat < 128
  · exact Char.of_ascii (P := fun c => c.toLower = d ↔ c = d) hall h
  · rw [Char.toLower_of_not_ascii h]

theorem Char.toLower_toLower (c : Char) : c.toLower.toLower = c.toLower := by
  by_cases h : c.toNat < 128
  · exact Char.of_ascii (P := fun c => c.toLower.toLower = c.toLower) (by decide) h
  · rw [Char.toLower_of_not_ascii h, Char.toLower_of_not_ascii h]

theorem String.toLower_toLower (s : String) : s.toLower.toLower = s.toLower := by
  rw [← String.toList_inj, String.toLower, String.toLower, String.toList_map, String.toList_map,
    List.map_map]
  exact List.map_congr_left fun c _ => Char.toLower_toLower c

namespace Utf8

/-! ## The reader -/

/-- A character begun: its bits so far, how many bytes follow the next one, and the least and
greatest byte that may come next. -/
structure Pending where
  bits : ℕ
  more : ℕ
  low : ℕ
  high : ℕ
  tail : 0x80 ≤ low
  wide : 2 ≤ 64 * bits + (low - 0x80)
  last : more = 0 → 2 ≤ bits

def replacement : Char := '\uFFFD'

/-- The character a byte begins, where it begins one of several bytes. -/
def lead (b : UInt8) : Option Pending :=
  if h : 0xC2 ≤ b.toNat ∧ b.toNat ≤ 0xDF then
    some ⟨b.toNat - 0xC0, 0, 0x80, 0xBF, by decide, by omega, by omega⟩
  else if b.toNat = 0xE0 then some ⟨0, 1, 0xA0, 0xBF, by decide, by decide, by decide⟩
  else if h : 0xE1 ≤ b.toNat ∧ b.toNat ≤ 0xEC ∨ 0xEE ≤ b.toNat ∧ b.toNat ≤ 0xEF then
    some ⟨b.toNat - 0xE0, 1, 0x80, 0xBF, by decide, by omega, by omega⟩
  else if b.toNat = 0xED then some ⟨0xD, 1, 0x80, 0x9F, by decide, by decide, by decide⟩
  else if b.toNat = 0xF0 then some ⟨0, 2, 0x90, 0xBF, by decide, by decide, by decide⟩
  else if h : 0xF1 ≤ b.toNat ∧ b.toNat ≤ 0xF3 then
    some ⟨b.toNat - 0xF0, 2, 0x80, 0xBF, by decide, by omega, by omega⟩
  else if b.toNat = 0xF4 then some ⟨4, 2, 0x80, 0x8F, by decide, by decide, by decide⟩
  else none

/-- A byte between characters: what it gives, and the character it begins. -/
def first (b : UInt8) : List Char × Option Pending :=
  if b.toNat < 0x80 then ([Char.ofNat b.toNat], none)
  else match lead b with
    | some p => ([], some p)
    | none => ([replacement], none)

/-- A byte, after what was begun. -/
def step : Option Pending → UInt8 → List Char × Option Pending
  | none, b => first b
  | some p, b =>
    if h : p.low ≤ b.toNat ∧ b.toNat ≤ p.high then
      if p.more = 0 then ([Char.ofNat (64 * p.bits + (b.toNat - 0x80))], none)
      else ([], some ⟨64 * p.bits + (b.toNat - 0x80), p.more - 1, 0x80, 0xBF, le_refl _,
        by have := p.wide; omega, fun _ => by have := p.wide; omega⟩)
    else (replacement :: (first b).1, (first b).2)

/-- What a character begun comes to at the end. -/
def flush : Option Pending → List Char
  | none => []
  | some _ => [replacement]

/-- The characters of the bytes that follow what was begun. -/
def decode : Option Pending → List UInt8 → List Char
  | q, [] => flush q
  | q, b :: rest => (step q b).1 ++ decode (step q b).2 rest

/-- `String::from_utf8_lossy`. -/
def fromUtf8Lossy (bytes : List UInt8) : List Char := decode none bytes

example : fromUtf8Lossy [0x61, 0xF0, 0x90, 0x80, 0x2E, 0xC3, 0xA9, 0xFF]
    = ['a', replacement, '.', 'é', replacement] := by decide

/-! ## ASCII -/

/-- Among ASCII bytes the reader begins nothing, and ends what was begun. -/
theorem step_ascii (q : Option Pending) {b : UInt8} (hb : b.toNat < 0x80) :
    step q b = (flush q ++ [Char.ofNat b.toNat], none) := by
  have hfirst : first b = ([Char.ofNat b.toNat], none) := if_pos hb
  cases q with
  | none => exact hfirst
  | some p =>
    have hout : ¬ (p.low ≤ b.toNat ∧ b.toNat ≤ p.high) := by
      have := p.tail
      omega
    rw [step, dif_neg hout, hfirst]
    rfl

/-- **An ASCII byte splits the text** into what precedes it and what follows it. -/
theorem decode_append_ascii (q : Option Pending) (before after : List UInt8) {b : UInt8}
    (hb : b.toNat < 0x80) :
    decode q (before ++ b :: after)
      = decode q before ++ Char.ofNat b.toNat :: fromUtf8Lossy after := by
  induction before generalizing q with
  | nil =>
    show (step q b).1 ++ decode (step q b).2 after = decode q [] ++ _
    rw [step_ascii q hb, List.append_assoc]
    cases q <;> rfl
  | cons c before ih => rw [List.cons_append, decode, ih, decode, List.append_assoc]

/-- The character of a number of two bytes or more is not a visible ASCII character. -/
theorem ofNat_ne {n : ℕ} (hn : 0x80 ≤ n) {c : Char} (hc : 0 < c.toNat) (hc' : c.toNat < 0x80) :
    Char.ofNat n ≠ c := by
  rintro rfl
  rw [Char.toNat_ofNat] at hc hc'
  split_ifs at hc hc' <;> omega

variable {c : Char}

/-- An ASCII character comes of its own byte, at the start of a sequence. -/
theorem mem_first (hc : 0 < c.toNat) (hc' : c.toNat < 0x80) {b : UInt8} (h : c ∈ (first b).1) :
    b.toNat = c.toNat := by
  unfold first at h
  split at h
  next hb =>
    obtain rfl := List.mem_singleton.1 h
    have hvalid : b.toNat.isValidChar := Or.inl (by omega)
    rw [Char.toNat_ofNat, if_pos hvalid]
  next hb =>
    split at h
    · cases h
    · obtain rfl := List.mem_singleton.1 h
      exact absurd hc' (by decide)

/-- An ASCII character comes of its own byte, wherever the decoder stands. -/
theorem mem_step (hc : 0 < c.toNat) (hc' : c.toNat < 0x80) {q : Option Pending} {b : UInt8}
    (h : c ∈ (step q b).1) : b.toNat = c.toNat := by
  cases q with
  | none => exact mem_first hc hc' h
  | some p =>
    rw [step] at h
    split_ifs at h with hin hmore
    · have hlast := p.last hmore
      exact absurd (List.mem_singleton.1 h).symm (ofNat_ne (by omega) hc hc')
    · cases h
    · rcases List.mem_cons.1 h with rfl | hmem
      · exact absurd hc' (by decide)
      · exact mem_first hc hc' hmem

/-- **A visible ASCII character is read only from its own byte.** -/
theorem mem_decode (hc : 0 < c.toNat) (hc' : c.toNat < 0x80) {q : Option Pending}
    {bytes : List UInt8} (h : c ∈ decode q bytes) : ∃ b ∈ bytes, b.toNat = c.toNat := by
  induction bytes generalizing q with
  | nil =>
    cases q with
    | none => cases h
    | some p =>
      obtain rfl := List.mem_singleton.1 h
      exact absurd hc' (by decide)
  | cons b rest ih =>
    rcases List.mem_append.1 h with hstep | hrest
    · exact ⟨b, List.mem_cons_self, mem_step hc hc' hstep⟩
    · obtain ⟨d, hd, heq⟩ := ih hrest
      exact ⟨d, List.mem_cons_of_mem _ hd, heq⟩

/-! ## Pieces -/

theorem decode_some_ne_nil (p : Pending) (bytes : List UInt8) : decode (some p) bytes ≠ [] := by
  induction bytes generalizing p with
  | nil => exact List.cons_ne_nil _ _
  | cons b rest ih =>
    rw [decode, step]
    split_ifs with hin hmore
    · exact List.cons_ne_nil _ _
    · exact ih _
    · exact List.cons_ne_nil _ _

theorem fromUtf8Lossy_eq_nil {bytes : List UInt8} (h : fromUtf8Lossy bytes = []) : bytes = [] := by
  cases bytes with
  | nil => rfl
  | cons b rest =>
    exfalso
    rw [fromUtf8Lossy, decode, step, first] at h
    split_ifs at h with hb
    · exact List.cons_ne_nil _ _ h
    · cases hlead : lead b with
      | none =>
        rw [hlead] at h
        exact List.cons_ne_nil _ _ h
      | some p =>
        rw [hlead] at h
        exact decode_some_ne_nil p rest h

/-- A visible ASCII character is in the text exactly where its byte is among the bytes. -/
theorem mem_fromUtf8Lossy_iff (hc : 0 < c.toNat) (hc' : c.toNat < 0x80) {b : UInt8}
    (hb : b.toNat = c.toNat) {bytes : List UInt8} : c ∈ fromUtf8Lossy bytes ↔ b ∈ bytes := by
  constructor
  · intro h
    obtain ⟨d, hd, heq⟩ := mem_decode hc hc' h
    rwa [← UInt8.toNat_inj.1 (heq.trans hb.symm)]
  · intro h
    obtain ⟨before, after, rfl⟩ := List.append_of_mem h
    rw [fromUtf8Lossy, decode_append_ascii none before after (hb ▸ hc'), hb, Char.ofNat_toNat]
    exact List.mem_append_right _ List.mem_cons_self

/-- **The pieces of the text** between separators are those of the bytes. -/
theorem splitOn_fromUtf8Lossy (hc : 0 < c.toNat) (hc' : c.toNat < 0x80) {sep : UInt8}
    (hsep : sep.toNat = c.toNat) (bytes : List UInt8) :
    (fromUtf8Lossy bytes).splitOn c = (bytes.splitOn sep).map fromUtf8Lossy := by
  induction hn : bytes.length using Nat.strong_induction_on generalizing bytes with
  | _ n ih =>
    by_cases hmem : sep ∈ bytes
    · obtain ⟨before, after, rfl, hbefore⟩ := List.eq_append_cons_of_mem hmem
      have hafter := ih after.length
        (by rw [← hn, List.length_append, List.length_cons]; omega) after rfl
      have htext : fromUtf8Lossy (before ++ sep :: after)
          = fromUtf8Lossy before ++ c :: fromUtf8Lossy after := by
        rw [fromUtf8Lossy, decode_append_ascii none before after (hsep ▸ hc'), hsep,
          Char.ofNat_toNat]
        rfl
      rw [htext, List.splitOn_append_cons_self_of_not_mem
          fun h => hbefore ((mem_fromUtf8Lossy_iff hc hc' hsep).1 h),
        List.splitOn_append_cons_self_of_not_mem hbefore, List.map_cons, hafter]
    · rw [List.splitOn_eq_singleton fun h => hmem ((mem_fromUtf8Lossy_iff hc hc' hsep).1 h),
        List.splitOn_eq_singleton hmem]
      rfl

/-- Visible ASCII text is read from its own bytes only. -/
theorem fromUtf8Lossy_eq_iff {text : List Char}
    (htext : ∀ c ∈ text, 0 < c.toNat ∧ c.toNat < 0x80) {bytes : List UInt8} :
    fromUtf8Lossy bytes = text ↔ bytes = text.map fun c => UInt8.ofNat c.toNat := by
  induction text generalizing bytes with
  | nil =>
    constructor
    · exact fromUtf8Lossy_eq_nil
    · rintro rfl
      rfl
  | cons c text ih =>
    obtain ⟨hc, hc'⟩ := htext c List.mem_cons_self
    have ih := @ih fun d hd => htext d (List.mem_cons_of_mem _ hd)
    have hbyte : (UInt8.ofNat c.toNat).toNat = c.toNat :=
      UInt8.toNat_ofNat_of_lt' (by show c.toNat < 256; omega)
    constructor
    · intro h
      have hmem : UInt8.ofNat c.toNat ∈ bytes :=
        (mem_fromUtf8Lossy_iff hc hc' hbyte).1 (h ▸ List.mem_cons_self)
      -- the first such byte is the first of all: what precedes it would be read before it
      obtain ⟨before, after, rfl, hbefore⟩ := List.eq_append_cons_of_mem hmem
      rw [fromUtf8Lossy, decode_append_ascii none before after (hbyte.trans_lt hc'), hbyte,
        Char.ofNat_toNat] at h
      cases hdecoded : fromUtf8Lossy before with
      | nil =>
        obtain rfl := fromUtf8Lossy_eq_nil hdecoded
        rw [List.nil_append, List.map_cons, ← ih.1 (List.cons.inj h).2]
      | cons d rest =>
        have hd : c ∈ fromUtf8Lossy before := by
          rw [fromUtf8Lossy] at hdecoded
          rw [hdecoded] at h
          rw [fromUtf8Lossy, hdecoded, ← (List.cons.inj h).1]
          exact List.mem_cons_self
        exact absurd ((mem_fromUtf8Lossy_iff hc hc' hbyte).1 hd) hbefore
    · rintro rfl
      have hsplit := decode_append_ascii none [] (text.map fun c => UInt8.ofNat c.toNat)
        (b := UInt8.ofNat c.toNat) (by rw [hbyte]; exact hc')
      rw [hbyte, Char.ofNat_toNat, ih.2 rfl] at hsplit
      exact hsplit

end Utf8
