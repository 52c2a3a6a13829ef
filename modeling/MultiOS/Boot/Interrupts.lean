import MultiOS.Model.Boot

/-!
# MultiOS — interrupts and the handler's address

The interrupt descriptor table has one gate, for "the" system interrupt. The
kernel raises `0x20` and `0x80`, whose gates would be entries 32 and 128; the
limit of the table is 7, so no vector but 0 has a gate
(`gate_eq_none`), wherever the table and the handler are linked.

The one gate does not lead to the handler either. The halves of its address
are in two words in memory (`offset_words`), and the gate has the low halves
of the *addresses of these words* in their place (`gate_zero`).
-/

namespace MultiOS

open Lib

/-- The register after `lidt [idt_descriptor]`. -/
def idtr (image : Image idtSection) : TableRegister :=
  .load image.mem (image.symbols .idt_descriptor)

/-- The vector has a gate within the table, which leads to
`system_call_handler`. -/
def ReachesHandler (image : Image idtSection) (vector : Nat) : Prop :=
  ∃ g, (idtr image).gate image.mem vector = some g ∧
    g.target = image.symbols .system_call_handler

-- ---------------------------------------------------------------------------
-- The table in memory
-- ---------------------------------------------------------------------------

section
variable (image : Image idtSection)

theorem idt_addresses :
    image.symbols .idt_descriptor = image.origin ∧
      image.symbols .idt_start = image.origin + 6 ∧ image.symbols .idt_end = image.origin + 14 :=
  ⟨image.placed .idt_descriptor 0 rfl, image.placed .idt_start 6 rfl,
    image.placed .idt_end 14 rfl⟩

/-- The limit is the size of one gate less one, the base is `idt_start`. -/
theorem idtr_eq : idtr image = ⟨7, image.symbols .idt_start⟩ := by
  obtain ⟨hDescriptor, hStart, hEnd⟩ := idt_addresses image
  rw [idtr, hDescriptor]
  exact TableRegister.load_tableDescriptor image rfl (by omega) (by omega)

/-- No vector but 0 has a gate. -/
theorem gate_eq_none {vector : Nat} (hVector : vector ≠ 0) :
    (idtr image).gate image.mem vector = none := by
  have hBeyond : ¬ 8 * vector + 7 ≤ 7 := by omega
  rw [idtr_eq, TableRegister.gate, TableRegister.entry, if_neg hBeyond]
  rfl

/-- The one gate has the addresses of the two words, cut to 16 bits, where the
halves of the handler's address belong. -/
theorem gate_zero :
    ∃ g, (idtr image).gate image.mem 0 = some g ∧
      g.target = image.symbols .system_call_handler_offset_high % 65536 * 65536 +
        image.symbols .system_call_handler_offset_low % 65536 := by
  refine ⟨InterruptGate.read image.mem (image.symbols .idt_start), ?_, ?_⟩
  · rw [idtr_eq]
    rfl
  · have hLow := image.readLE_data (idtSection.take 4) rfl
    have hHigh := image.readLE_data (idtSection.take 8) rfl
    rw [InterruptGate.target, (idt_addresses image).2.1]
    show readLE image.mem (image.origin + 12) 2 * 65536 + readLE image.mem (image.origin + 6) 2 = _
    rw [show readLE image.mem (image.origin + 12) 2 = _ from hHigh,
      show readLE image.mem (image.origin + 6) 2 = _ from hLow]
    rfl

end

/-- The two words hold the halves of the handler's address. -/
theorem offset_words (image : Image offsetSection) :
    readLE image.mem (image.symbols .system_call_handler_offset_high) 2 * 65536 +
        readLE image.mem (image.symbols .system_call_handler_offset_low) 2 =
      image.symbols .system_call_handler := by
  have hLow := image.readLE_data (offsetSection.take 1) rfl
  have hHigh := image.readLE_data (offsetSection.take 3) rfl
  have hRange := image.range .system_call_handler
  have hMask : ∀ n : Nat, n &&& 0xFFFF = n % 65536 := fun n => Nat.and_two_pow_sub_one_eq_mod n 16
  have hShift : ∀ n : Nat, n >>> 16 = n / 65536 := fun n => Nat.shiftRight_eq_div_pow n 16
  rw [hMask] at hLow
  rw [hShift, hMask] at hHigh
  rw [image.placed .system_call_handler_offset_low 0 rfl,
    image.placed .system_call_handler_offset_high 2 rfl,
    show readLE image.mem (image.origin + 0) 2 = _ from hLow,
    show readLE image.mem (image.origin + 2) 2 = _ from hHigh]
  omega

/--
**No interrupt reaches the handler.** Wherever the table, the handler and the
two words with its address are linked, neither of the vectors the kernel
raises has a gate within the table that leads to `system_call_handler`.
-/
theorem interrupts_never_reach_handler (image : Image idtSection) :
    ¬ ReachesHandler image changeProcessVector ∧ ¬ ReachesHandler image systemCallVector := by
  refine ⟨?_, ?_⟩
  · rintro ⟨g, hGate, -⟩
    rw [gate_eq_none image (by decide)] at hGate
    simp at hGate
  · rintro ⟨g, hGate, -⟩
    rw [gate_eq_none image (by decide)] at hGate
    simp at hGate

/-- The table at `0x8000`, the handler at `0x9000`, and the words at `0xA000`
and `0xA002`. -/
def linkedKernel : Image idtSection :=
  .load idtSection 0x8000
    (fun
      | .system_call_handler => 0x9000
      | .system_call_handler_offset_low => 0xA000
      | .system_call_handler_offset_high => 0xA002
      | _ => 0)
    fun name => by cases name <;> decide

/-- There `int $0x20` finds no gate. -/
theorem interrupts_fail : ¬ ReachesHandler linkedKernel changeProcessVector := by
  rintro ⟨g, hGate, -⟩
  rw [gate_eq_none linkedKernel (by decide)] at hGate
  simp at hGate

end MultiOS
