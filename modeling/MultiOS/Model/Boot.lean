import MultiOS.Lib.Assembly

/-!
# MultiOS — descriptor tables

The data sections of the boot code, directive by directive, and the processor
rules that read them.

* `gdtSection` — `gdt_descriptor` and `gdt_start` … `gdt_end` of
  `bootloader.asm` (the other assembler files repeat it).
* `idtSection` — `idt_descriptor` and `idt_start` … `idt_end` of
  `system_call_handler.asm` and `main.asm`; `offsetSection` — the two words at
  the end of `enable_protected_mode.asm`.
* `lgdt` and `lidt` load a limit and a base from memory (`TableRegister`). An
  entry is the 8 bytes at an offset from the base and must lie within the
  limit: the selector is the offset of a segment descriptor, eight times the
  vector that of a gate.
-/

namespace MultiOS

open Lib

-- ---------------------------------------------------------------------------
-- The processor's tables
-- ---------------------------------------------------------------------------

/-- The register `lgdt` or `lidt` loads. -/
structure TableRegister where
  limit : Nat
  base : Nat
  deriving DecidableEq, Repr

namespace TableRegister

/-- `lgdt [address]` and `lidt [address]`. -/
def load (mem : Nat → Nat) (address : Nat) : TableRegister where
  limit := readLE mem address 2
  base := readLE mem (address + 2) 4

/-- The address of the entry at an offset, if it lies within the limit. -/
def entry (r : TableRegister) (offset : Nat) : Option Nat :=
  if offset + 7 ≤ r.limit then some (r.base + offset) else none

end TableRegister

/-- `struct GDTEntry` of `kernel.cpp`. -/
structure GDTEntry where
  limitLow : Nat
  baseLow : Nat
  baseMiddle : Nat
  access : Nat
  granularity : Nat
  baseHigh : Nat
  deriving DecidableEq, Repr

namespace GDTEntry

/-- The packed fields at an address. -/
def read (mem : Nat → Nat) (address : Nat) : GDTEntry where
  limitLow := readLE mem address 2
  baseLow := readLE mem (address + 2) 2
  baseMiddle := readLE mem (address + 4) 1
  access := readLE mem (address + 5) 1
  granularity := readLE mem (address + 6) 1
  baseHigh := readLE mem (address + 7) 1

def base (e : GDTEntry) : Nat := e.baseLow + 65536 * e.baseMiddle + 16777216 * e.baseHigh

/-- Bit G: the limit counts units of 4 KiB. -/
def pageGranular (e : GDTEntry) : Bool := e.granularity.testBit 7

/-- Bit D/B: the segment is a 32-bit one. -/
def is32Bit (e : GDTEntry) : Bool := e.granularity.testBit 6

/-- The last offset within the limit. -/
def lastOffset (e : GDTEntry) : Nat :=
  let limit := e.limitLow + 65536 * (e.granularity % 16)
  if e.pageGranular then 4096 * limit + 4095 else limit

/-- The linear address of an offset. -/
def linear (e : GDTEntry) (x : Nat) : Option Nat :=
  if x ≤ e.lastOffset then some ((e.base + x) % 4294967296) else none

end GDTEntry

/-- The descriptor a selector names. -/
def TableRegister.descriptor (r : TableRegister) (mem : Nat → Nat) (selector : Nat) :
    Option GDTEntry :=
  (r.entry selector).map (GDTEntry.read mem)

/-- A gate of the interrupt descriptor table. -/
structure InterruptGate where
  offsetLow : Nat
  selector : Nat
  zero : Nat
  typeAttributes : Nat
  offsetHigh : Nat
  deriving DecidableEq, Repr

namespace InterruptGate

def read (mem : Nat → Nat) (address : Nat) : InterruptGate where
  offsetLow := readLE mem address 2
  selector := readLE mem (address + 2) 2
  zero := readLE mem (address + 4) 1
  typeAttributes := readLE mem (address + 5) 1
  offsetHigh := readLE mem (address + 6) 2

/-- The address the interrupt continues at. -/
def target (g : InterruptGate) : Nat := g.offsetHigh * 65536 + g.offsetLow

end InterruptGate

/-- The gate of a vector. -/
def TableRegister.gate (r : TableRegister) (mem : Nat → Nat) (vector : Nat) :
    Option InterruptGate :=
  (r.entry (8 * vector)).map (InterruptGate.read mem)

-- ---------------------------------------------------------------------------
-- Table descriptors
-- ---------------------------------------------------------------------------

section
variable {L : Type}

/-- `gdt_descriptor` and `idt_descriptor`: the size of a table less one, and
where it starts. -/
def tableDescriptor (descriptor start stop : L) : List (Directive L) :=
  [.label descriptor,
   .data 2 fun symbols => symbols stop - symbols start - 1,
   .data 4 fun symbols => symbols start]

/-- What `lgdt` and `lidt` find at a descriptor of a table of `n + 1` bytes. -/
theorem TableRegister.load_tableDescriptor [DecidableEq L] {ds rest : List (Directive L)}
    (image : Image ds) {descriptor start stop : L} {n : Nat}
    (hSplit : ds = tableDescriptor descriptor start stop ++ rest) (hn : n < 65536)
    (hSize : image.symbols stop = image.symbols start + (n + 1)) :
    load image.mem image.origin = ⟨n, image.symbols start⟩ := by
  have hLimit := image.readLE_data ((tableDescriptor descriptor start stop).take 1) hSplit
  have hBase := image.readLE_data ((tableDescriptor descriptor start stop).take 2) hSplit
  have hRange := image.range start
  have hValue : (image.symbols stop - image.symbols start - 1) % 65536 = n := by omega
  show TableRegister.mk (readLE _ _ 2) (readLE _ _ 4) = _
  rw [show readLE image.mem image.origin 2 = n from hLimit.trans hValue,
    show readLE image.mem (image.origin + 2) 4 = image.symbols start from
      hBase.trans (Nat.mod_eq_of_lt hRange)]

end

-- ---------------------------------------------------------------------------
-- `bootloader.asm`
-- ---------------------------------------------------------------------------

inductive GdtLabel where
  | gdt_descriptor
  | gdt_start
  | gdt_end
  deriving DecidableEq, Repr

open Directive in
/-- `gdt_start` … `gdt_end`, without the two labels. -/
def gdtEntries : List (Directive GdtLabel) :=
  [ -- descriptor 0, the null descriptor
   dd 0x00000000,
   -- descriptor 1, the code segment
   dw 0xFFFF, dw 0x0000, db 0x00, db 0x9A, db 0xA0, db 0x00,
   -- descriptor 2, the data segment
   dw 0xFFFF, dw 0x0000, db 0x00, db 0x92, db 0xA0, db 0x00]

/-- `gdt_descriptor` and `gdt_start` … `gdt_end`. -/
def gdtSection : List (Directive GdtLabel) :=
  tableDescriptor .gdt_descriptor .gdt_start .gdt_end ++
    (.label .gdt_start :: gdtEntries ++ [.label .gdt_end])

/-- The selector of the far jump to `start_protected_mode`. -/
def codeSelector : Nat := 0x08

/-- The selector loaded into the data segment registers. -/
def dataSelector : Nat := 0x10

-- ---------------------------------------------------------------------------
-- `system_call_handler.asm`, `enable_protected_mode.asm`
-- ---------------------------------------------------------------------------

inductive IdtLabel where
  | idt_descriptor
  | idt_start
  | idt_end
  | system_call_handler
  | system_call_handler_offset_low
  | system_call_handler_offset_high
  deriving DecidableEq, Repr

open Directive in
/-- `idt_descriptor` and `idt_start` … `idt_end`. -/
def idtSection : List (Directive IdtLabel) :=
  tableDescriptor .idt_descriptor .idt_start .idt_end ++
  [.label .idt_start,
   -- `dw` of a label: its address, cut to 16 bits
   .data 2 fun symbols => symbols .system_call_handler_offset_low,
   dw 0x08,
   db 0x0,
   db 0x8E,
   .data 2 fun symbols => symbols .system_call_handler_offset_high,
   .label .idt_end]

/-- The two words with the halves of the handler's address. -/
def offsetSection : List (Directive IdtLabel) :=
  [.label .system_call_handler_offset_low,
   .data 2 fun symbols => symbols .system_call_handler &&& 0xFFFF,
   .label .system_call_handler_offset_high,
   .data 2 fun symbols => (symbols .system_call_handler >>> 16) &&& 0xFFFF]

/-- `int $0x20` of `kernel.cpp`. -/
def changeProcessVector : Nat := 0x20

/-- `int 0x80` of `main.asm`. -/
def systemCallVector : Nat := 0x80

end MultiOS
