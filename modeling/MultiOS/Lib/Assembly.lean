import Mathlib.Data.Nat.Digits.Defs

/-!
# Data sections of an assembler

A data section is a list of labels and of data directives, each of a width in
bytes and a value that may depend on the addresses of the labels. Assembling
it emits the values little-endian, one after the other, cut to their widths;
a label stands for the address of what follows it.

* `readLE` reads a number back from memory; `readLE_holds` and
  `readLE_data` say what it finds where a section was loaded.
* `Image` is a loaded section: an address, the addresses of all labels, and a
  memory that holds what the section emits. `Image.load` builds one at any
  address.
-/

namespace Lib

-- ---------------------------------------------------------------------------
-- Bytes
-- ---------------------------------------------------------------------------

/-- The low `width` bytes of a number, the least significant first. -/
def littleEndian : Nat → Nat → List Nat
  | 0, _ => []
  | width + 1, n => n % 256 :: littleEndian width (n / 256)

theorem ofDigits_littleEndian (width n : Nat) :
    Nat.ofDigits 256 (littleEndian width n) = n % 256 ^ width := by
  induction width generalizing n with
  | zero => simp [littleEndian, Nat.mod_one]
  | succ width ih =>
    rw [littleEndian, Nat.ofDigits_cons, ih, Nat.pow_succ, Nat.mul_comm (256 ^ width), Nat.mod_mul]

@[simp] theorem length_littleEndian (width n : Nat) : (littleEndian width n).length = width := by
  induction width generalizing n with
  | zero => rfl
  | succ width ih => rw [littleEndian, List.length_cons, ih]

/-- The memory has the bytes at the address and after it. -/
def Holds (mem : Nat → Nat) : Nat → List Nat → Prop
  | _, [] => True
  | address, byte :: bytes => mem address = byte ∧ Holds mem (address + 1) bytes

/-- The number of `width` bytes at the address. -/
def readLE (mem : Nat → Nat) : Nat → Nat → Nat
  | _, 0 => 0
  | address, width + 1 => mem address + 256 * readLE mem (address + 1) width

theorem holds_append {mem : Nat → Nat} {address : Nat} {xs ys : List Nat} :
    Holds mem address (xs ++ ys) ↔ Holds mem address xs ∧ Holds mem (address + xs.length) ys := by
  induction xs generalizing address with
  | nil => simp [Holds]
  | cons x xs ih =>
    have hEnd : address + 1 + xs.length = address + (x :: xs).length := by
      rw [List.length_cons]
      omega
    rw [List.cons_append, Holds, Holds, ih, hEnd, and_assoc]

theorem readLE_holds {mem : Nat → Nat} {address : Nat} {bytes : List Nat}
    (h : Holds mem address bytes) : readLE mem address bytes.length = Nat.ofDigits 256 bytes := by
  induction bytes generalizing address with
  | nil => rfl
  | cons byte bytes ih =>
    obtain ⟨hByte, hBytes⟩ := h
    rw [List.length_cons, readLE, ih hBytes, hByte, Nat.ofDigits_cons]

theorem Holds.take {mem : Nat → Nat} {address : Nat} {bytes : List Nat}
    (h : Holds mem address bytes) (n : Nat) : Holds mem address (bytes.take n) := by
  rw [← List.take_append_drop n bytes, holds_append] at h
  exact h.1

theorem Holds.drop {mem : Nat → Nat} {address : Nat} {bytes : List Nat}
    (h : Holds mem address bytes) {n : Nat} (hn : n ≤ bytes.length) :
    Holds mem (address + n) (bytes.drop n) := by
  rw [← List.take_append_drop n bytes, holds_append, List.length_take_of_le hn] at h
  exact h.2

/-- Reading inside a list of bytes finds the number of its part. -/
theorem readLE_slice {mem : Nat → Nat} {address n width : Nat} {bytes : List Nat}
    (h : Holds mem address bytes) (hLength : n + width ≤ bytes.length) :
    readLE mem (address + n) width = Nat.ofDigits 256 ((bytes.drop n).take width) := by
  have hPart := readLE_holds ((h.drop (by omega : n ≤ bytes.length)).take width)
  have hWidth : ((bytes.drop n).take width).length = width := by
    rw [List.length_take, List.length_drop]
    omega
  rw [hWidth] at hPart
  exact hPart

/-- A list in memory, at an address of one's choice. -/
def layAt (address : Nat) (bytes : List Nat) (a : Nat) : Nat := bytes.getD (a - address) 0

theorem layAt_holds (address : Nat) (bytes : List Nat) :
    Holds (layAt address bytes) address bytes := by
  have hFrom : ∀ pre post : List Nat, bytes = pre ++ post →
      Holds (layAt address bytes) (address + pre.length) post := by
    intro pre post
    induction post generalizing pre with
    | nil => exact fun _ => trivial
    | cons byte post ih =>
      intro hBytes
      refine ⟨?_, ?_⟩
      · rw [layAt, Nat.add_sub_cancel_left, hBytes]
        simp
      · have hNext := ih (pre ++ [byte]) (by rw [hBytes, List.append_assoc]; rfl)
        rw [List.length_append, ← Nat.add_assoc] at hNext
        exact hNext
  exact hFrom [] bytes rfl

-- ---------------------------------------------------------------------------
-- Sections
-- ---------------------------------------------------------------------------

/-- A line of a data section: a label, or a number of a width in bytes, given
the addresses of the labels. -/
inductive Directive (L : Type) where
  | label (name : L)
  | data (width : Nat) (value : (L → Nat) → Nat)

variable {L : Type}

namespace Directive

def db (value : Nat) : Directive L := .data 1 fun _ => value
def dw (value : Nat) : Directive L := .data 2 fun _ => value
def dd (value : Nat) : Directive L := .data 4 fun _ => value

end Directive

/-- The bytes a section emits, given the addresses of the labels. -/
def emit (symbols : L → Nat) : List (Directive L) → List Nat
  | [] => []
  | .label _ :: ds => emit symbols ds
  | .data width value :: ds => littleEndian width (value symbols) ++ emit symbols ds

/-- The number of bytes a section emits. -/
def sectionSize : List (Directive L) → Nat
  | [] => 0
  | .label _ :: ds => sectionSize ds
  | .data width _ :: ds => width + sectionSize ds

/-- How far into the section a label stands. -/
def labelOffset [DecidableEq L] (name : L) : List (Directive L) → Option Nat
  | [] => none
  | .label l :: ds => if l = name then some 0 else labelOffset name ds
  | .data width _ :: ds => (labelOffset name ds).map (width + ·)

theorem emit_append (symbols : L → Nat) (ds es : List (Directive L)) :
    emit symbols (ds ++ es) = emit symbols ds ++ emit symbols es := by
  induction ds with
  | nil => rfl
  | cons d ds ih =>
    cases d with
    | label name => exact ih
    | data width value =>
      rw [List.cons_append, emit, emit, ih, List.append_assoc]

theorem length_emit (symbols : L → Nat) (ds : List (Directive L)) :
    (emit symbols ds).length = sectionSize ds := by
  induction ds with
  | nil => rfl
  | cons d ds ih =>
    cases d with
    | label name => exact ih
    | data width value => rw [emit, sectionSize, List.length_append, length_littleEndian, ih]

/-- What follows some lines of a section is held after them. -/
theorem holds_emit_append {mem : Nat → Nat} {address : Nat} {symbols : L → Nat}
    {ds es : List (Directive L)} (h : Holds mem address (emit symbols (ds ++ es))) :
    Holds mem (address + sectionSize ds) (emit symbols es) := by
  rw [emit_append, holds_append, length_emit] at h
  exact h.2

/-- Reading where a directive stands finds its value, cut to its width. -/
theorem readLE_data {mem : Nat → Nat} {address width : Nat} {symbols : L → Nat}
    {ds es : List (Directive L)} {value : (L → Nat) → Nat}
    (h : Holds mem address (emit symbols (ds ++ .data width value :: es))) :
    readLE mem (address + sectionSize ds) width = value symbols % 256 ^ width := by
  have hRest := holds_emit_append h
  rw [emit, holds_append] at hRest
  have hRead := readLE_holds hRest.1
  rw [length_littleEndian, ofDigits_littleEndian] at hRead
  exact hRead

-- ---------------------------------------------------------------------------
-- Images
-- ---------------------------------------------------------------------------

/-- A section in memory. The labels of the section stand where it was loaded,
the others anywhere; all addresses have 32 bits. -/
structure Image [DecidableEq L] (ds : List (Directive L)) where
  origin : Nat
  symbols : L → Nat
  mem : Nat → Nat
  placed : ∀ name offset, labelOffset name ds = some offset → symbols name = origin + offset
  range : ∀ name, symbols name < 4294967296
  holds : Holds mem origin (emit symbols ds)

section
variable [DecidableEq L] {ds : List (Directive L)} (image : Image ds)

theorem Image.readLE_data (before : List (Directive L)) {width : Nat}
    {value : (L → Nat) → Nat} {after : List (Directive L)}
    (hSplit : ds = before ++ .data width value :: after) :
    readLE image.mem (image.origin + sectionSize before) width =
      value image.symbols % 256 ^ width := by
  subst hSplit
  exact Lib.readLE_data image.holds

/-- What a part of the section emits is held where the part begins. -/
theorem Image.holds_part (before part : List (Directive L)) {after : List (Directive L)}
    (hSplit : ds = before ++ (part ++ after)) :
    Holds image.mem (image.origin + sectionSize before) (emit image.symbols part) := by
  subst hSplit
  have hRest := holds_emit_append image.holds
  rw [emit_append, holds_append] at hRest
  exact hRest.1

end

/-- The addresses of a section at `origin`, with other labels as given. -/
def placeAt [DecidableEq L] (ds : List (Directive L)) (origin : Nat) (others : L → Nat)
    (name : L) : Nat :=
  match labelOffset name ds with
  | some offset => origin + offset
  | none => others name

/-- A section loaded at an address, into a memory that holds nothing else. -/
def Image.load [DecidableEq L] (ds : List (Directive L)) (origin : Nat) (others : L → Nat)
    (hRange : ∀ name, placeAt ds origin others name < 4294967296) : Image ds where
  origin := origin
  symbols := placeAt ds origin others
  mem := layAt origin (emit (placeAt ds origin others) ds)
  placed := by
    intro name offset hOffset
    rw [placeAt, hOffset]
  range := hRange
  holds := layAt_holds origin _

end Lib
