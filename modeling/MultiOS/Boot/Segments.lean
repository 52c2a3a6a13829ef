import MultiOS.Model.Boot

/-!
# MultiOS — the segments of the boot code

`bootloader.asm` declares a code and a data segment: base 0, limit `0xFFFF` in
units of 4 KiB, 32 bits, according to its comments. The selectors `0x08` and
`0x10` count 8 bytes for every descriptor, but the null descriptor is one `dd`
of 4 bytes, so the table has 20 bytes and both selectors are 4 bytes late:

* `0x08` names the second half of the code descriptor with the first half of
  the data descriptor after it, a segment with base `0x00FF00A0`
  (`code_descriptor`);
* `0x10` names 8 bytes of which 4 lie beyond the table (`data_descriptor`).

This holds at every address the section is loaded at. Besides, the granularity
byte `0xA0` of both descriptors has bit D/B clear.
-/

namespace MultiOS

open Lib

/-- The register after `lgdt [gdt_descriptor]`. -/
def gdtr (image : Image gdtSection) : TableRegister :=
  .load image.mem (image.symbols .gdt_descriptor)

/-- Through the selector, offset `x` is the linear address `x` of a 32-bit
segment with the access byte: the descriptor lies within the table, and has
base 0, bits G and D/B set, and a limit that covers `x`. -/
structure SegmentAsDeclared (image : Image gdtSection) (selector access x : Nat)
    (e : GDTEntry) : Prop where
  named : (gdtr image).descriptor image.mem selector = some e
  base : e.base = 0
  access : e.access = access
  pageGranular : e.pageGranular = true
  is32Bit : e.is32Bit = true
  covers : x ≤ e.lastOffset

-- ---------------------------------------------------------------------------
-- The table in memory
-- ---------------------------------------------------------------------------

section
variable (image : Image gdtSection)

theorem gdt_addresses :
    image.symbols .gdt_descriptor = image.origin ∧
      image.symbols .gdt_start = image.origin + 6 ∧ image.symbols .gdt_end = image.origin + 26 :=
  ⟨image.placed .gdt_descriptor 0 rfl, image.placed .gdt_start 6 rfl,
    image.placed .gdt_end 26 rfl⟩

/-- The limit is the size of the entries less one, the base is `gdt_start`. -/
theorem gdtr_eq : gdtr image = ⟨19, image.symbols .gdt_start⟩ := by
  obtain ⟨hDescriptor, hStart, hEnd⟩ := gdt_addresses image
  rw [gdtr, hDescriptor]
  exact TableRegister.load_tableDescriptor image rfl (by omega) (by omega)

/-- The 20 bytes of the table. -/
def gdtBytes : List Nat := emit (fun _ => 0) gdtEntries

theorem gdt_holds : Holds image.mem (image.symbols .gdt_start) gdtBytes := by
  have hPart := image.holds_part (gdtSection.take 4) gdtEntries rfl
  rw [(gdt_addresses image).2.1]
  exact hPart

/-- The descriptor that the far jump's selector names. -/
theorem code_descriptor :
    (gdtr image).descriptor image.mem codeSelector =
      some ⟨0x9A00, 0x00A0, 0xFF, 0xFF, 0x00, 0x00⟩ := by
  have hField : ∀ n width, n + width ≤ 20 →
      readLE image.mem (image.symbols .gdt_start + n) width =
        Nat.ofDigits 256 ((gdtBytes.drop n).take width) :=
    fun n width hLength => readLE_slice (gdt_holds image) hLength
  rw [gdtr_eq]
  show some (GDTEntry.mk (readLE _ (image.symbols .gdt_start + 8) 2)
    (readLE _ (image.symbols .gdt_start + 10) 2) (readLE _ (image.symbols .gdt_start + 12) 1)
    (readLE _ (image.symbols .gdt_start + 13) 1) (readLE _ (image.symbols .gdt_start + 14) 1)
    (readLE _ (image.symbols .gdt_start + 15) 1)) = _
  rw [hField 8 2 (by omega), hField 10 2 (by omega), hField 12 1 (by omega),
    hField 13 1 (by omega), hField 14 1 (by omega), hField 15 1 (by omega)]
  rfl

/-- Where a fetch through it goes. -/
theorem code_fetch {x : Nat} (hx : x ≤ 0x9A00) :
    ((gdtr image).descriptor image.mem codeSelector).bind (fun e => e.linear x) =
      some (0x00FF00A0 + x) := by
  rw [code_descriptor]
  show (if x ≤ 0x9A00 then some ((0x00FF00A0 + x) % 4294967296) else none) = _
  rw [if_pos hx, Nat.mod_eq_of_lt (by omega)]

/-- The selector of the data segment names bytes beyond the table. -/
theorem data_descriptor : (gdtr image).descriptor image.mem dataSelector = none := by
  rw [gdtr_eq]
  rfl

end

/--
**The segments are not as declared.** At whatever address the section is
loaded, and for every offset, neither a fetch through `0x08` nor an access
through `0x10` resolves to that offset of the segment the boot code declares.
-/
theorem segments_never_declared (image : Image gdtSection) (x : Nat) :
    (¬ ∃ e, SegmentAsDeclared image codeSelector 0x9A x e) ∧
      ¬ ∃ e, SegmentAsDeclared image dataSelector 0x92 x e := by
  refine ⟨?_, ?_⟩
  · rintro ⟨e, h⟩
    have hNamed := h.named
    rw [code_descriptor] at hNamed
    have hAccess := h.access
    rw [← Option.some.inj hNamed] at hAccess
    exact absurd hAccess (by decide)
  · rintro ⟨e, h⟩
    have hNamed := h.named
    rw [data_descriptor] at hNamed
    simp at hNamed

/-- The boot sector loaded at `0x7C00`. -/
def bootSector : Image gdtSection :=
  .load gdtSection 0x7C00 (fun _ => 0) fun name => by cases name <;> decide

/-- There a fetch from offset 0 of the code segment fails: the base is not 0. -/
theorem segments_fail : ¬ ∃ e, SegmentAsDeclared bootSector codeSelector 0x9A 0 e := by
  rintro ⟨e, h⟩
  have hNamed := h.named
  rw [code_descriptor] at hNamed
  have hBase := h.base
  rw [← Option.some.inj hNamed] at hBase
  exact absurd hBase (by decide)

end MultiOS
