import MultiOS.Model.SectorAddress

/-!
# LILO — reading from disk

The BIOS calls of the boot loader, and the code over them: `lba_read` of
`read.S` (as `second.S` includes it, and as `first.S` does, with
`JRC_NOCOMPACT`) and the sector read of `second.S`, `cread`.

The BIOS is no part of the source. `Bios` has its calls as functions and, as
laws, what they are documented to do; nothing is assumed of a call outside
these: a read by cylinder, head and sector that leaves its track, an extended
read of more than 127 sectors, or a transfer to a buffer that is not within
one 64 KiB bank. A read is a list of the sectors that were read, each with the
address it was put at.

The carry flag after a failed call ends in `none`. `dsk_do_rw` repeats such a
call; a call that is answered is not repeated.
-/

namespace MultiOS.Lilo

open Lib

-- ---------------------------------------------------------------------------
-- The BIOS
-- ---------------------------------------------------------------------------

/-- ES:BX. -/
structure Buffer where
  es : Nat
  bx : Nat
  deriving DecidableEq, Repr

namespace Buffer

def address (b : Buffer) : Nat := 16 * b.es + b.bx

/-- `count` sectors at ES:BX stay within the segment and within one bank. -/
def Fits (b : Buffer) (count : Nat) : Prop :=
  b.bx + 512 * count ≤ 65536 ∧ b.address / 65536 = (b.address + 512 * count - 1) / 65536

instance (b : Buffer) (count : Nat) : Decidable (b.Fits count) :=
  inferInstanceAs (Decidable (_ ∧ _))

end Buffer

/-- A sector of a disk: the BIOS device code and the number of the sector. -/
abbrev DiskSector := Byte × Nat

/-- What was read, with the address it was put at. -/
abbrev Transfer := List (Nat × DiskSector)

/-- A drive: its geometry (function 8 of `int 0x13`), whether it has the extended
calls (function 0x41), and the number of its sectors. -/
structure Drive where
  heads : Nat
  sectors : Nat
  cylinders : Nat
  extended : Bool
  size : Nat
  heads_pos : 0 < heads
  heads_le : heads ≤ 256
  sectors_pos : 0 < sectors
  sectors_le : sectors ≤ 63
  cylinders_le : cylinders ≤ 1024

namespace Drive

/-- The number of sectors that have a cylinder, head and sector. -/
def chsSize (d : Drive) : Nat := d.cylinders * d.heads * d.sectors

/-- The number of a sector. -/
def number (d : Drive) (cylinder head sector : Nat) : Nat :=
  (cylinder * d.heads + head) * d.sectors + (sector - 1)

end Drive

/-- The cylinder in CH and the high bits of CL. -/
def cylinderOf (ch cl : Byte) : Nat := ch.toNat + 256 * (cl >>> 6).toNat

/-- The sector in the low bits of CL. -/
def sectorOf (cl : Byte) : Nat := (cl &&& 0x3f).toNat

structure Bios where
  drive : Byte → Drive
  /-- Function 2 of `int 0x13`. -/
  read (dl ch cl dh : Byte) (al : Nat) (buffer : Buffer) : Option Transfer
  /-- Function 0x42 of `int 0x13`: the sector number and the count of the
  parameter block. -/
  readExtended (dl : Byte) (sector count : Nat) (buffer : Buffer) : Option Transfer
  /-- Function 0x87 of `int 0x15`: whether that many words were moved. -/
  moveBlock (words : Nat) : Bool
  read_eq : ∀ (dl ch cl dh : Byte) (al : Nat) (buffer : Buffer), 1 ≤ al → 1 ≤ sectorOf cl →
    sectorOf cl + al ≤ (drive dl).sectors + 1 → dh.toNat < (drive dl).heads →
    cylinderOf ch cl < (drive dl).cylinders → buffer.Fits al →
    read dl ch cl dh al buffer = some (layOut 512 buffer.address
      (Extent.blocks ⟨dl, (drive dl).number (cylinderOf ch cl) dh.toNat (sectorOf cl), al⟩))
  readExtended_eq : ∀ (dl : Byte) (sector count : Nat) (buffer : Buffer),
    (drive dl).extended = true → 1 ≤ count → count ≤ 127 → sector + count ≤ (drive dl).size →
    buffer.Fits count →
    readExtended dl sector count buffer =
      some (layOut 512 buffer.address (Extent.blocks ⟨dl, sector, count⟩))
  moveBlock_eq : ∀ words, words ≤ 0x8000 → moveBlock words = true

/-- A BIOS that answers every call, also one that is not documented. -/
def Bios.answering (drive : Byte → Drive) : Bios where
  drive := drive
  read dl ch cl dh al buffer := some (layOut 512 buffer.address
    (Extent.blocks ⟨dl, (drive dl).number (cylinderOf ch cl) dh.toNat (sectorOf cl), al⟩))
  readExtended dl sector count buffer :=
    some (layOut 512 buffer.address (Extent.blocks ⟨dl, sector, count⟩))
  moveBlock _ := true
  read_eq _ _ _ _ _ _ _ _ _ _ _ _ := rfl
  readExtended_eq _ _ _ _ _ _ _ _ _ := rfl
  moveBlock_eq _ _ := rfl

variable (bios : Bios)

-- ---------------------------------------------------------------------------
-- read.S
-- ---------------------------------------------------------------------------

/-- `lba_more_small` of `read.S`, with AL = `count` and DI:CX = `lba`: read with
the geometry of the BIOS, up to the end of a track at a time. The number of
passes is bounded by the first argument. -/
def lbaSmall (dl : Byte) : Nat → Nat → Nat → Buffer → Option Transfer
  | 0, _, _, _ => none
  | passes + 1, count, lba, buffer =>
    let drive := bios.drive dl
    -- `inc al` of the last head: 256 heads count as none
    let si := drive.heads % 256 * drive.sectors
    if lba / 65536 ≥ si then none
    else if lba / si ≥ drive.cylinders then none
    else
      let cylinder := lba / si
      let sector := lba % si % drive.sectors
      let actual := min count (drive.sectors - sector)
      let ch := BitVec.ofNat 8 cylinder
      let cl := BitVec.ofNat 8 (cylinder >>> 8 <<< 6) + BitVec.ofNat 8 (sector + 1)
      let dh := BitVec.ofNat 8 (lba % si / drive.sectors)
      match bios.read dl ch cl dh actual buffer with
      | none => none
      | some read =>
        if count - actual = 0 then some read
        else (lbaSmall dl passes (count - actual) ((lba + actual) % 4294967296)
          ⟨buffer.es, (buffer.bx + 512 * actual) % 65536⟩).map (read ++ ·)

/-- `lba_read`: DL with the flags, AL = `count`, DI:CX = `lba`. -/
def lbaRead (dl : Byte) (count lba : Nat) (buffer : Buffer) : Option Transfer :=
  let device := dl &&& devMask
  if dl &&& linearFlag = 0 ∧ count ≤ 127 ∧ (bios.drive device).extended = true then
    bios.readExtended device lba count buffer
  else lbaSmall bios device count count lba buffer

-- ---------------------------------------------------------------------------
-- second.S
-- ---------------------------------------------------------------------------

/-- The result of `cread`: what was read, the count in AL, and `hinib`. -/
structure ReadDone where
  transfer : Transfer
  al : Nat
  hinib : Byte

/-- `cread`, with CX, DX and AL from a sector address. `hinib` keeps the high
byte of the last address that came with one. -/
def cread (hinib : Byte) (a : SectorAddr) (buffer : Buffer) : Option ReadDone :=
  if a.has (linearFlag ||| lba32Flag) then
    if a.has lba32NoCount then
      (lbaRead bios a.device 1 (a.numSect ++ a.head ++ a.track ++ a.sector).toNat buffer).map
        (⟨·, 1, a.numSect⟩)
    else
      (lbaRead bios a.device a.numSect.toNat (hinib ++ a.head ++ a.track ++ a.sector).toNat
        buffer).map (⟨·, a.numSect.toNat, hinib⟩)
  else
    (bios.read a.device a.track a.sector a.head a.numSect.toNat buffer).map
      (⟨·, a.numSect.toNat, hinib⟩)

end MultiOS.Lilo
