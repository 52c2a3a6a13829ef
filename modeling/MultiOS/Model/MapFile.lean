import Mathlib.Algebra.GroupWithZero.Nat
import MultiOS.Model.SectorAddress

/-!
# LILO — the map file

`map.c`. A section of the map is built up as a list of sector addresses
(`map_register` and its callers), made shorter by `map_compact`, and written by
`map_end_section` to the end of the map file: 101 addresses to a page of 512
bytes, then the address of the next page; the rest of the last page is zero.

The map file is the list of its sectors; the file position is always its end.
`map_create` begins it with four sectors, the last of which, `zero_addr`,
stands for every hole of a file.
-/

namespace MultiOS.Lilo

/-- A sector of zero bytes. -/
def zeroSector : List Byte := List.replicate 512 0

structure MapFile where
  geo : Geometry
  sectors : List (List Byte)
  zeroAddr : SectorAddr

namespace MapFile

/-- The file position: the offset of what is written next. -/
def here (file : MapFile) : Nat := 512 * file.sectors.length

/-- `write`. -/
def write (file : MapFile) (sectors : List (List Byte)) : MapFile :=
  { file with sectors := file.sectors ++ sectors }

end MapFile

/-- The address of a sector of the map file. -/
def mapAddr (opts : Options) (geo : Geometry) (offset : Nat) (place : String) :
    Except Die SectorAddr := do
  match ← geoCompAddr opts geo offset with
  | none => throw (.holeInMap place)
  | some a => return a

/-- `map_create`: `magic` is the first sector, with `DC_MGOFF`. -/
def mapCreate (opts : Options) (geo : Geometry) (magic : List Byte) : Except Die MapFile := do
  let zeroAddr ← mapAddr opts geo (512 * 3) "zero sector"
  return { geo, sectors := [magic, zeroSector, zeroSector, zeroSector], zeroAddr }

-- ---------------------------------------------------------------------------
-- Building a section
-- ---------------------------------------------------------------------------

/-- `map_add`: the addresses of `num` sectors of a file, from sector `first` on. The
product `SECTOR_SIZE*(count+from)` is one of `int`: this is `map_add` for the sectors below
4194304 (`SectionCall.InRange`). From there on the product wraps around. -/
def mapAdd (opts : Options) (zeroAddr : SectorAddr) (geo : Geometry) :
    Nat → Nat → Except Die (List SectorAddr)
  | _, 0 => .ok []
  | first, num + 1 => do
    let a ← geoCompAddr opts geo (512 * first)
    let rest ← mapAdd opts zeroAddr geo (first + 1) num
    return a.getD zeroAddr :: rest

/-- A call between `map_begin_section` and `map_end_section`. -/
inductive SectionCall where
  | mapAddSector (sector : List Byte)
  | mapAdd (geo : Geometry) (first num : Nat)
  | mapAddZero

/-- The offsets of the sectors, and the size of the file rounded up, are numbers of type
`int`. -/
def SectionCall.InRange : SectionCall → Prop
  | .mapAdd _ first num => 512 * (first + num) < 2147483648
  | _ => True

/-- The addresses a call registers, and the map file after it. -/
def SectionCall.run (opts : Options) (file : MapFile) :
    SectionCall → Except Die (MapFile × List SectorAddr)
  | .mapAddSector sector => do
    let a ← mapAddr opts file.geo file.here "app. sector"
    return (file.write [sector], [a])
  | .mapAdd geo first num => do
    let map ← Lilo.mapAdd opts file.zeroAddr geo first num
    return (file, map)
  | .mapAddZero => .ok (file, [file.zeroAddr])

/-- The calls of a section, in order. -/
def buildSection (opts : Options) :
    MapFile → List SectionCall → Except Die (MapFile × List SectorAddr)
  | file, [] => .ok (file, [])
  | file, call :: calls => do
    let (file', map) ← call.run opts file
    let (file'', rest) ← buildSection opts file' calls
    return (file'', map ++ rest)

-- ---------------------------------------------------------------------------
-- map_compact
-- ---------------------------------------------------------------------------

/-- An address with a count of one in the place of its high byte. -/
def SectorAddr.counted (a : SectorAddr) : SectorAddr :=
  { a with numSect := 1, device := a.device &&& ~~~lba32NoCount }

/-- The first test of the loop: whether `next` is on the device of `walk` and
needs no high byte of its own. An address that follows one of equal high byte
is given a count; `hinib` is the high byte in effect. -/
def adjoin (hinib : Nat) (walk next : SectorAddr) : Bool × Nat × SectorAddr :=
  let adj := (walk.device ^^^ next.device) &&& ~~~lba32NoCount == 0
  if adj && walk.has lba32Flag then
    if !walk.has lba32NoCount then
      if hinib = next.numSect.toNat then (true, hinib, next.counted)
      else (false, hinib, next)
    else
      let hinib := walk.numSect.toNat
      (false, hinib,
        if next.has lba32NoCount && next.numSect.toNat == hinib then next.counted else next)
  else (adj, hinib, next)

/-- The second test: whether `next` is the sector after those of `walk`. -/
def continues (walk next : SectorAddr) : Bool :=
  if walk.has (linearFlag ||| lba32Flag) then
    walk.low24 + walk.numSect.toNat == next.low24
  else walk.track == next.track && walk.head == next.head &&
    walk.sector.toNat + walk.numSect.toNat == next.sector.toNat

/-- The loop of `map_compact`. `offset` and `noffset` are the places in memory
of the first sector of `walk` and of its last. -/
def compactLoop (maxcount : Nat) :
    Nat → Nat → Nat → SectorAddr → List SectorAddr → List SectorAddr
  | _, _, _, walk, [] => [walk]
  | hinib, offset, noffset, walk, next :: rest =>
    let (adj, hinib, next) := adjoin hinib walk next
    let noffset := noffset + 512
    if adj && continues walk next && offset >>> 16 == noffset >>> 16 &&
        decide (walk.numSect.toNat < maxcount) then
      compactLoop maxcount hinib offset noffset
        { walk with numSect := walk.numSect + 1 } rest
    else walk :: compactLoop maxcount hinib noffset noffset next rest

/-- JRC: max LBA transfer is 127 sectors, not 128 (unfortunately). -/
def Options.maxcount (opts : Options) : Nat := if opts.lba32 then 127 else 128

/-- `map_compact`. The first `dontCompact + 1` addresses stay as they are; 257
is the high byte of no address. -/
def mapCompact (opts : Options) (dontCompact : Nat) (map : List SectorAddr) : List SectorAddr :=
  match map.drop (dontCompact + 1) with
  | [] => map
  | walk :: rest => map.take (dontCompact + 1) ++ compactLoop opts.maxcount 257 0 0 walk rest

-- ---------------------------------------------------------------------------
-- map_end_section
-- ---------------------------------------------------------------------------

/-- A page: what was put into the buffer, and zeros after it. -/
def padPage (buffer : List Byte) : List Byte :=
  buffer ++ List.replicate (512 - buffer.length) 0

/-- The loop of `map_end_section`, with the file position and the bytes put into
the page so far: the pages written. -/
def writePages (opts : Options) (geo : Geometry) :
    Nat → List Byte → List SectorAddr → Except Die (List (List Byte))
  | _, buffer, [] => .ok (if buffer.length = 0 then [] else [padPage buffer])
  | here, buffer, a :: rest =>
    if buffer.length + 10 > 512 then do
      let link ← mapAddr opts geo (here + 512) "alloc_page"
      let pages ← writePages opts geo (here + 512) a.bytes rest
      return padPage (buffer ++ link.bytes) :: pages
    else writePages opts geo here (buffer ++ a.bytes) rest

/-- The result of `map_end_section`: the address of the first page, the map file,
and the number of sectors it returns. -/
structure SectionDone where
  addr : SectorAddr
  file : MapFile
  sectors : Nat

/-- The addresses that are written: compacted, with the option `compact`. -/
def sectionAddrs (opts : Options) (dontCompact : Nat) (map : List SectorAddr) :
    List SectorAddr :=
  if opts.compact then mapCompact opts dontCompact map else map

/-- `map_end_section`. -/
def mapEndSection (opts : Options) (file : MapFile) (dontCompact : Nat)
    (map : List SectorAddr) : Except Die SectionDone :=
  let map := sectionAddrs opts dontCompact map
  if map = [] then .error .emptySection
  else do
    let addr ← mapAddr opts file.geo file.here "alloc_page"
    let pages ← writePages opts file.geo file.here [] map
    return { addr, file := file.write pages, sectors := (map.map (·.numSect.toNat)).sum }

-- ---------------------------------------------------------------------------
-- boot.c
-- ---------------------------------------------------------------------------

/-- The calls that map a kernel: the two special sectors of `bsect.c`, and in
`boot_image` the file, `size` bytes long. -/
def kernelCalls (fallback options : List Byte) (geo : Geometry) (size : Nat) : List SectionCall :=
  [.mapAddSector fallback, .mapAddSector options, .mapAdd geo 0 ((size + 511) / 512)]

/-- `check_size`: whether it dies of a kernel that is too big. `MAX_KERNEL_SECS` is
1024. -/
def kernelTooBig (setup sectors : Nat) : Bool := decide (sectors > setup + 1024)

-- ---------------------------------------------------------------------------
-- map_write
-- ---------------------------------------------------------------------------

/-- `map_write`: the list, with a terminator of zeros if one is wanted, in at most
`maxLen` places. -/
def mapWrite (terminate : Bool) : List SectorAddr → Nat → Except Die (List SectorAddr)
  | [], _ => .ok (if terminate then [⟨0, 0, 0, 0, 0⟩] else [])
  | a :: rest, maxLen =>
    if maxLen < (if terminate then 1 else 0) + 1 then .error .segmentTooBig
    else do
      let list ← mapWrite terminate rest (maxLen - 1)
      return a :: list

-- ---------------------------------------------------------------------------
-- bsect.c
-- ---------------------------------------------------------------------------

/-- `MAX_SECONDARY`. -/
def maxSecondary : Nat := 10

/-- The part of `bsect_open` that maps the second stage: the sectors of the boot
file, `size` bytes long, after the first. There is no map file yet, so that
`zero_addr` is still zero. -/
def mapSecondary (opts : Options) (geo : Geometry) (size : Nat) :
    Except Die (List SectorAddr) := do
  let map ← mapAdd opts ⟨0, 0, 0, 0, 0⟩ geo 1 ((size + 511) / 512 - 1)
  mapWrite true map maxSecondary

end MultiOS.Lilo
