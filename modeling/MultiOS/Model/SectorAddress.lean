import Mathlib.Data.Nat.Notation
import MultiOS.Lib.Extents

/-!
# LILO — sector addresses

`SECTOR_ADDR` of `common.h` is what the map installer tells the boot loader
about a place on a disk: five bytes that the loader takes as the registers CX,
DX and AL. `geo_comp_addr` of `geometry.c` computes it for a byte of a file or
device, in one of three forms:

* cylinder, head and sector, for floppies and without an option;
* a linear 24-bit sector number, marked `LINEAR_FLAG`;
* a 32-bit sector number, marked `LBA32_FLAG`. It has no room for a count:
  `num_sect` is its high byte, and `LBA32_NOCOUNT` says so.

`SECTOR_SIZE` is written 512. `int` is modelled by `Nat`: nothing here is
negative but the cylinder count -1, which is `none`, as long as the offset of the
byte, which is an `int` too, is below 2147483648.
-/

namespace MultiOS.Lilo

abbrev Byte := BitVec 8

/-- The options of the map installer that the address code reads. -/
structure Options where
  linear : Bool := false
  lba32 : Bool := false
  compact : Bool := false
  deriving DecidableEq, Repr

-- ---------------------------------------------------------------------------
-- SECTOR_ADDR
-- ---------------------------------------------------------------------------

/-- `LINEAR_FLAG`: mark linear address. -/
def linearFlag : Byte := 0x40

/-- `LBA32_FLAG`: mark lba 32-bit address. -/
def lba32Flag : Byte := 0x20

/-- `LBA32_NOCOUNT`: mark address with count absent. -/
def lba32NoCount : Byte := 0x10

/-- `DEV_MASK`: mask to actual device code. -/
def devMask : Byte := 0x8f

/-- `SECTOR_ADDR`. -/
structure SectorAddr where
  sector : Byte
  track : Byte
  device : Byte
  head : Byte
  numSect : Byte
  deriving DecidableEq, Repr

namespace SectorAddr

/-- The five bytes, as they stand in memory. -/
def bytes (a : SectorAddr) : List Byte := [a.sector, a.track, a.device, a.head, a.numSect]

/-- The registers the loader takes the first four bytes for. -/
def cx (a : SectorAddr) : BitVec 16 := a.track ++ a.sector
def dx (a : SectorAddr) : BitVec 16 := a.head ++ a.device

/-- `addr.device & flag`. -/
def has (a : SectorAddr) (flag : Byte) : Bool := a.device &&& flag != 0

/-- `(head << 16) | (track << 8) | sector`. -/
def low24 (a : SectorAddr) : Nat :=
  a.head.toNat <<< 16 ||| a.track.toNat <<< 8 ||| a.sector.toNat

end SectorAddr

-- ---------------------------------------------------------------------------
-- GEOMETRY and geo_comp_addr
-- ---------------------------------------------------------------------------

/-- `GEOMETRY`: a file or device that was opened, and the disk it is on.
`fibmap` is the `ioctl` of that name on `fd`: the block of the disk that holds
a block of the file, 0 for a hole, `none` for an error. The bounds are the
ones `geo_get` and `geo_open` die on. -/
structure Geometry where
  device : Byte
  heads : Nat
  cylinders : Option Nat
  sectors : Nat
  start : Nat
  spb : Nat
  file : Bool
  boot : Bool := false
  fibmap : Nat → Option Nat
  heads_pos : 0 < heads
  heads_le : heads ≤ 256
  sectors_pos : 0 < sectors
  sectors_le : sectors ≤ 63
  spb_pos : 0 < spb

/-- What the address and map code dies of. -/
inductive Die where
  | exclusive
  | bootOffset
  | ioctlFibmap
  | tooLargeForLinear (sector : Nat)
  | cylinderTooBig (cylinder : Nat)
  | beyondEnd (cylinder cylinders : Nat)
  | holeInMap (place : String)
  | emptySection
  | segmentTooBig
  deriving DecidableEq, Repr

def Die.message : Die → String
  | .exclusive => "'linear' and 'lba32' (-l and -L) are mutually exclusive."
  | .bootOffset => "Internal error: sector > 0 after geo_open_boot"
  | .ioctlFibmap => "ioctl FIBMAP"
  | .tooLargeForLinear sector =>
    "sector " ++ toString sector ++ " too large for linear mode (try 'lba32' instead)"
  | .cylinderTooBig cylinder =>
    "geo_comp_addr: Cylinder number is too big (" ++ toString cylinder ++ " > 1023)"
  | .beyondEnd cylinder cylinders =>
    "geo_comp_addr: Cylinder " ++ toString cylinder ++ " beyond end of media (" ++
      toString cylinders ++ ")"
  | .holeInMap place => "Hole found in map file (" ++ place ++ ")"
  | .emptySection => "Empty map section"
  | .segmentTooBig => "Map segment is too big."

/-- A result that was reached by a first step was reached from its result. -/
theorem bind_ok {ε α β : Type} {x : Except ε α} {f : α → Except ε β} {b : β}
    (h : x >>= f = .ok b) : ∃ a, x = .ok a ∧ f a = .ok b := by
  cases x with
  | error e => cases h
  | ok a => exact ⟨a, rfl, h⟩

/-- Whether a sector of the disk is addressed by its number. Always use CHS
addressing on floppies. -/
def byNumber (opts : Options) (device : Byte) : Bool :=
  device &&& 0x80 != 0 && (opts.linear || opts.lba32)

namespace Geometry

/-- The sector of the disk that holds a byte, `none` in a hole. The offset is that of an
`int`: below 2147483648. -/
def sectorAt (geo : Geometry) (offset : Nat) : Except Die (Option Nat) :=
  let block := offset / geo.spb / 512
  let sector (block : Nat) : Nat := block * geo.spb + offset / 512 % geo.spb + geo.start
  if geo.file then
    match geo.fibmap block with
    | none => .error .ioctlFibmap
    | some 0 => .ok none
    | some mapped => .ok (some (sector mapped))
  else .ok (some (sector block))

/-- The address of a sector of the disk. -/
def encode (opts : Options) (geo : Geometry) (sector : Nat) : Except Die SectorAddr :=
  if byNumber opts geo.device then
    if opts.linear && sector >>> 24 != 0 then .error (.tooLargeForLinear sector)
    else .ok {
      device := geo.device ||| if opts.linear then linearFlag else lba32Flag ||| lba32NoCount
      numSect := if opts.linear then 1 else BitVec.ofNat 8 (sector >>> 24)
      sector := BitVec.ofNat 8 sector
      track := BitVec.ofNat 8 (sector >>> 8)
      head := BitVec.ofNat 8 (sector >>> 16) }
  else
    let cylinder := sector / geo.sectors / geo.heads
    if cylinder ≥ 1024 then .error (.cylinderTooBig cylinder)
    else if geo.cylinders.any (cylinder ≥ ·) then
      .error (.beyondEnd cylinder (geo.cylinders.getD 0))
    else .ok {
      device := geo.device
      sector := BitVec.ofNat 8 (sector % geo.sectors + 1) ||| BitVec.ofNat 8 (cylinder >>> 8 <<< 6)
      head := BitVec.ofNat 8 (sector / geo.sectors % geo.heads)
      track := BitVec.ofNat 8 cylinder
      numSect := 1 }

end Geometry

/-- `geo_comp_addr`: the address of the sector that holds the byte at `offset`,
`none` in a hole. `offset` is an `int`. -/
def geoCompAddr (opts : Options) (geo : Geometry) (offset : Nat) :
    Except Die (Option SectorAddr) :=
  if opts.linear && opts.lba32 then .error .exclusive
  else if geo.boot && decide (offset ≥ 512) then .error .bootOffset
  else do
    match ← geo.sectorAt offset with
    | none => return none
    | some sector =>
      let a ← geo.encode opts sector
      return some a

end MultiOS.Lilo
