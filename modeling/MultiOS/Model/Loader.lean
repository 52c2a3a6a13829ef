import MultiOS.Model.DiskRead

/-!
# LILO — the boot loader

How `second.S` follows a section of the map: `load` takes the next address
from the page at `MAP`, turning the page after the last, and reads what it
stands for, low or, through the descriptor table at `gdt`, above 1 MB; `lfile`
repeats it up to the end of the map. The disk is a function from sectors to
their bytes.

`sload` is the loop of `first.S` that loads the second stage from the list in
the boot sector.
-/

namespace MultiOS.Lilo

open Lib

/-- The contents of the disks. -/
abbrev Disk := DiskSector → List Byte

/-- A sector address at an offset of a page. -/
def entryAt (page : List Byte) (offset : Nat) : SectorAddr where
  sector := page.getD offset 0
  track := page.getD (offset + 1) 0
  device := page.getD (offset + 2) 0
  head := page.getD (offset + 3) 0
  numSect := page.getD (offset + 4) 0

/-- The test for EOF: CX and DX are zero. -/
def IsEof (a : SectorAddr) : Prop := a.cx = 0 ∧ a.dx = 0

instance (a : SectorAddr) : Decidable (IsEof a) := inferInstanceAs (Decidable (_ ∧ _))

/-- `moff`, the page at `MAP`, and `hinib`. -/
structure Loader where
  moff : Nat
  map : List Byte
  hinib : Byte
  deriving DecidableEq, Repr

/-- CS:MAP, in the build with `LARGE_EBDA` (`CONFIG` of the `Makefile`). -/
def mapBuffer : Buffer := ⟨0x0b00, 0x2000⟩

/-- SECONDSEG:0, where the second stage is loaded. -/
def secondBuffer : Buffer := ⟨0x0b00, 0⟩

/-- SYSSEG:0, where the system is loaded. -/
def systemBuffer : Buffer := ⟨0x1000, 0⟩

variable (bios : Bios) (disk : Disk)

-- ---------------------------------------------------------------------------
-- Pages
-- ---------------------------------------------------------------------------

/-- The page at an address is read to `MAP`. -/
def Loader.readPage (s : Loader) (a : SectorAddr) : Option Loader :=
  (cread bios s.hinib a mapBuffer).map fun done =>
    { s with
      map := match done.transfer with
        | [] => s.map
        | (_, sector) :: _ => disk sector
      hinib := done.hinib }

/-- `lfetch` and `noteof`: the next address, `none` at EOF. A page is turned at
most once in a row, so that two passes are enough. -/
def lfetch : Nat → Loader → Option (Option SectorAddr × Loader)
  | 0, _ => none
  | passes + 1, s =>
    let a := entryAt s.map s.moff
    if IsEof a then some (none, s)
    else if s.moff + 5 < 508 then some (some a, { s with moff := s.moff + 5 })
    else
      match s.readPage bios disk a with
      | none => none
      | some s' => lfetch passes { s' with moff := 0, hinib := s.hinib }

-- ---------------------------------------------------------------------------
-- Reading
-- ---------------------------------------------------------------------------

/-- `rokay`: ES:BX after `al` sectors. -/
def Buffer.advance (b : Buffer) (al : Nat) : Buffer :=
  if 256 ≤ 2 * al then ⟨(b.es + 0x1000) % 65536, b.bx⟩
  else if b.bx + 512 * al < 65536 then ⟨b.es, b.bx + 512 * al⟩
  else ⟨(b.es + 0x1000) % 65536, (b.bx + 512 * al) % 65536⟩

/-- Where `load` puts what it reads: at ES:BX, or, if ES is zero, at the destination
in the descriptor table at `gdt`. -/
structure Target where
  buffer : Buffer
  destination : Nat := 0
  deriving DecidableEq, Repr

namespace Target

/-- The address of what is loaded next. -/
def address (t : Target) : Nat :=
  if t.buffer.es = 0 then t.destination else t.buffer.address

/-- The target after `al` sectors. -/
def next (t : Target) (al : Nat) : Target :=
  if t.buffer.es = 0 then { t with destination := (t.destination + 512 * al) % 16777216 }
  else { t with buffer := t.buffer.advance al }

end Target

/-- `xread`: `sread`, or `rdhigh`, which reads to SYSSEG:0 and moves 256 words for
each sector. -/
def xread (hinib : Byte) (a : SectorAddr) (t : Target) : Option (Transfer × Target × Byte) :=
  if t.buffer.es = 0 then
    match cread bios hinib a systemBuffer with
    | none => none
    | some done =>
      if bios.moveBlock (256 * done.al) then
        some (done.transfer.map fun p => (p.1 - systemBuffer.address + t.destination, p.2),
          t.next done.al, done.hinib)
      else none
  else (cread bios hinib a t.buffer).map fun done => (done.transfer, t.next done.al, done.hinib)

/-- `load`: what was read and where the next is put, or `none` at EOF. -/
def load (s : Loader) (t : Target) : Option (Option (Transfer × Target) × Loader) :=
  match lfetch bios disk 2 s with
  | none => none
  | some (none, s') => some (none, s')
  | some (some a, s') => (xread bios s'.hinib a t).map fun r =>
    (some (r.1, r.2.1), { s' with hinib := r.2.2 })

/-- `load1` for each buffer in turn; EOF is an error. Other sectors are read in
between and leave some `hinib` behind. -/
def load1s : Loader → List (Byte × Buffer) → Option (Transfer × Loader)
  | s, [] => some ([], s)
  | s, (hinib, buffer) :: rest =>
    match load bios disk { s with hinib } { buffer } with
    | some (some (transfer, _), s') =>
      (load1s s' rest).map fun r => (transfer ++ r.1, r.2)
    | _ => none

/-- `lfile`: load up to EOF. -/
def lfile : Nat → Loader → Target → Option (Transfer × Loader × Target)
  | 0, _, _ => none
  | loads + 1, s, t =>
    match load bios disk s t with
    | none => none
    | some (none, s') => some ([], s', t)
    | some (some (transfer, t'), s') =>
      (lfile loads s' t').map fun r => (transfer ++ r.1, r.2)

/-- The first page of a section is read and `moff` is reset. -/
def openSection (hinib : Byte) (addr : SectorAddr) (before : List Byte) : Option Loader :=
  (Loader.readPage bios disk ⟨0, before, hinib⟩ addr).map fun s => { s with moff := 0 }

-- ---------------------------------------------------------------------------
-- The RAM disk
-- ---------------------------------------------------------------------------

/-- `lba_small` of `read.S` with `JRC_NOCOMPACT`: one sector. -/
def lbaSmallOne (dl : Byte) (lba : Nat) (buffer : Buffer) : Option Transfer :=
  let drive := bios.drive dl
  let si := drive.heads % 256 * drive.sectors
  if lba / 65536 ≥ si then none
  else if lba / si ≥ drive.cylinders then none
  else
    let cylinder := lba / si
    let sector := lba % si % drive.sectors
    let ch := BitVec.ofNat 8 cylinder
    let cl := BitVec.ofNat 8 (cylinder >>> 8 <<< 6) + BitVec.ofNat 8 (sector + 1)
    bios.read dl ch cl (BitVec.ofNat 8 (lba % si / drive.sectors)) 1 buffer

/-- `lba_read` with `JRC_NOCOMPACT`. -/
def lbaReadOne (dl : Byte) (lba : Nat) (buffer : Buffer) : Option Transfer :=
  let device := dl &&& devMask
  if dl &&& linearFlag = 0 ∧ (bios.drive device).extended = true then
    bios.readExtended device lba 1 buffer
  else lbaSmallOne bios device lba buffer

/-- One pass of `sload`: the read of one address. Without `LBA32_FLAG` the high
byte is zero, the count. -/
def sloadRead (a : SectorAddr) (buffer : Buffer) : Option Transfer :=
  if a.has (linearFlag ||| lba32Flag) then
    let high : Byte := if a.has lba32Flag then a.numSect else 0
    lbaReadOne bios a.device (high ++ a.head ++ a.track ++ a.sector).toNat buffer
  else bios.read a.device a.track a.sector a.head a.numSect.toNat buffer

/-- `sload`: load up to the terminator of the list, one sector after the other. A
list without a terminator is run past. -/
def sload : List SectorAddr → Buffer → Option Transfer
  | [], _ => none
  | a :: rest, buffer =>
    if IsEof a then some []
    else
      match sloadRead bios a buffer with
      | none => none
      | some transfer =>
        (sload rest ⟨buffer.es, (buffer.bx + 512) % 65536⟩).map (transfer ++ ·)

end MultiOS.Lilo
