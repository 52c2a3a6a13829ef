import MultiOS.Model.DiskRead
import MultiOS.Model.MapFile

/-!
# LILO — what a sector address stands for

`SectorAddr.extent` reads an address as the loader does: a number of sectors
of a disk, from one sector on. It depends on `hinib`, which an address with a
high byte of its own sets for those after it (`hinibAfter`).

`geo_comp_addr` writes what the loader reads: the address it computes for a
sector stands for that sector (`encode_stands`), provided that the BIOS knows
the disk under the geometry the map installer has (`Known`) and can reach the
sector (`Reach`). The device code must leave the flag bits free.
-/

namespace MultiOS.Lilo

open Lib

-- ---------------------------------------------------------------------------
-- Bytes
-- ---------------------------------------------------------------------------

/-- The low six bits of CL. -/
theorem sectorOf_eq (cl : Byte) : sectorOf cl = cl.toNat % 64 := by
  have h := Nat.and_two_pow_sub_one_eq_mod cl.toNat 6
  unfold sectorOf
  rw [BitVec.toNat_and]
  exact h

/-- CH, and the high two bits of CL. -/
theorem cylinderOf_eq (ch cl : Byte) : cylinderOf ch cl = ch.toNat + 256 * (cl.toNat / 64) := by
  unfold cylinderOf
  rw [BitVec.toNat_ushiftRight, Nat.shiftRight_eq_div_pow]

/-- The high bits of a cylinder above a sector, put together by `|`. -/
theorem packed_or {cylinder sector : Nat} (hCylinder : cylinder < 1024) (hSector : sector < 64) :
    (BitVec.ofNat 8 sector ||| BitVec.ofNat 8 (cylinder >>> 8 <<< 6)).toNat =
      64 * (cylinder / 256) + sector := by
  have hOr := Nat.shiftLeft_add_eq_or_of_lt (b := sector) (i := 6) hSector (cylinder >>> 8)
  rw [BitVec.toNat_or, BitVec.toNat_ofNat, BitVec.toNat_ofNat, Nat.or_comm, ← Nat.or_mod_two_pow,
    ← hOr, Nat.shiftLeft_eq, Nat.shiftRight_eq_div_pow]
  omega

/-- The same, put together by `+`. -/
theorem packed_add {cylinder sector : Nat} (hCylinder : cylinder < 1024) (hSector : sector < 64) :
    (BitVec.ofNat 8 (cylinder >>> 8 <<< 6) + BitVec.ofNat 8 sector).toNat =
      64 * (cylinder / 256) + sector := by
  rw [BitVec.toNat_add, BitVec.toNat_ofNat, BitVec.toNat_ofNat, Nat.shiftLeft_eq,
    Nat.shiftRight_eq_div_pow]
  omega

/-- CH and CL as the BIOS takes them apart. -/
theorem unpacked {cl : Byte} {cylinder sector : Nat} (hSector : sector < 64)
    (hCl : cl.toNat = 64 * (cylinder / 256) + sector) :
    cylinderOf (BitVec.ofNat 8 cylinder) cl = cylinder ∧ sectorOf cl = sector := by
  rw [cylinderOf_eq, sectorOf_eq, BitVec.toNat_ofNat, hCl]
  omega

namespace SectorAddr

/-- The three bytes of a linear address. -/
theorem low24_eq (a : SectorAddr) :
    a.low24 = a.head.toNat * 65536 + a.track.toNat * 256 + a.sector.toNat := by
  have hSector : a.sector.toNat < 2 ^ 8 := a.sector.isLt
  have hTrack : a.track.toNat < 2 ^ 8 := a.track.isLt
  have hInner := Nat.shiftLeft_add_eq_or_of_lt hSector a.track.toNat
  have hLow : a.track.toNat <<< 8 + a.sector.toNat < 2 ^ 16 := by
    rw [Nat.shiftLeft_eq]
    omega
  have hOuter := Nat.shiftLeft_add_eq_or_of_lt hLow a.head.toNat
  unfold low24
  rw [Nat.or_assoc, ← hInner, ← hOuter, Nat.shiftLeft_eq, Nat.shiftLeft_eq]
  omega

/-- The 32-bit number in DI:CX. -/
theorem toNat_append (high : Byte) (a : SectorAddr) :
    (high ++ a.head ++ a.track ++ a.sector).toNat = high.toNat * 16777216 + a.low24 := by
  have hSector : a.sector.toNat < 2 ^ 8 := a.sector.isLt
  have hTrack : a.track.toNat < 2 ^ 8 := a.track.isLt
  have hHead : a.head.toNat < 2 ^ 8 := a.head.isLt
  rw [low24_eq, BitVec.toNat_append, BitVec.toNat_append, BitVec.toNat_append,
    ← Nat.shiftLeft_add_eq_or_of_lt hHead, ← Nat.shiftLeft_add_eq_or_of_lt hTrack,
    ← Nat.shiftLeft_add_eq_or_of_lt hSector, Nat.shiftLeft_eq, Nat.shiftLeft_eq, Nat.shiftLeft_eq]
  omega

end SectorAddr

-- ---------------------------------------------------------------------------
-- Forms
-- ---------------------------------------------------------------------------

/-- A device code leaves the flag bits free. -/
def Coded (device : Byte) : Prop := device &&& 0x70 = 0

instance (device : Byte) : Decidable (Coded device) := inferInstanceAs (Decidable (_ = _))

/-- The forms of an address: cylinder, head and sector; linear; 32-bit with the
high byte; 32-bit with a count. -/
inductive Form where
  | chs
  | linear
  | noCount
  | counted
  deriving DecidableEq, Repr

namespace Form

/-- The flags of the device byte. -/
def flags : Form → Byte
  | .chs => 0
  | .linear => linearFlag
  | .noCount => lba32Flag ||| lba32NoCount
  | .counted => lba32Flag

/-- The form `geo_comp_addr` chooses. -/
def chosen (opts : Options) (device : Byte) : Form :=
  if byNumber opts device then if opts.linear then .linear else .noCount else .chs

/-- The form an address had before it was given a count. -/
def base : Form → Form
  | .counted => .noCount
  | form => form

/-- The form chosen for an address is without a count. -/
theorem base_chosen (opts : Options) (device : Byte) :
    (chosen opts device).base = chosen opts device := by
  unfold chosen
  split
  · split <;> rfl
  · rfl

end Form

/-- The device byte of an address: a device code, marked with the form. -/
structure Marked (a : SectorAddr) (device : Byte) (form : Form) : Prop where
  coded : Coded device
  device_eq : a.device = device ||| form.flags

/-- What the tests of the flag bits find in a marked device byte. -/
theorem flag_tests (form : Form) : ∀ device : Byte, Coded device →
    (device ||| form.flags) &&& devMask = device ∧
    ((device ||| form.flags) &&& (linearFlag ||| lba32Flag) != 0) = decide (form ≠ .chs) ∧
    ((device ||| form.flags) &&& lba32Flag != 0) = decide (form.base = .noCount) ∧
    ((device ||| form.flags) &&& lba32NoCount != 0) = decide (form = .noCount) ∧
    ((device ||| form.flags) &&& linearFlag = 0 ↔ form ≠ .linear) := by
  cases form <;> decide +kernel

/-- Bytes that differ outside the mask only. -/
theorem xor_masked {x y m : Byte} (h : (x ^^^ y) &&& m = 0) : x &&& m = y &&& m := by
  have hSplit : (x ^^^ y) &&& m = (x &&& m) ^^^ (y &&& m) := by
    ext i
    simp [Bool.and_xor_distrib_right]
  rw [hSplit] at h
  exact BitVec.xor_eq_zero_iff.mp h

namespace Marked

variable {a b : SectorAddr} {device device' : Byte} {form form' : Form}

/-- Without its flags the device byte is the drive. -/
theorem masked (h : Marked a device form) : a.device &&& devMask = device := by
  rw [h.device_eq]
  exact (flag_tests form device h.coded).1

/-- The test for an address by number. -/
theorem has_number (h : Marked a device form) :
    a.has (linearFlag ||| lba32Flag) = decide (form ≠ .chs) := by
  rw [SectorAddr.has, h.device_eq]
  exact (flag_tests form device h.coded).2.1

/-- The test for LBA32. -/
theorem has_lba32 (h : Marked a device form) :
    a.has lba32Flag = decide (form.base = .noCount) := by
  rw [SectorAddr.has, h.device_eq]
  exact (flag_tests form device h.coded).2.2.1

/-- The test for a high byte in place of the count. -/
theorem has_noCount (h : Marked a device form) :
    a.has lba32NoCount = decide (form = .noCount) := by
  rw [SectorAddr.has, h.device_eq]
  exact (flag_tests form device h.coded).2.2.2.1

/-- The test of `map_compact` for a linear address. -/
theorem has_linear (h : Marked a device form) : a.device &&& linearFlag = 0 ↔ form ≠ .linear := by
  rw [h.device_eq]
  exact (flag_tests form device h.coded).2.2.2.2

/-- An address with a high byte, given a count. -/
theorem counted (h : Marked a device .noCount) : Marked a.counted device .counted := by
  have hAll : ∀ device : Byte, Coded device →
      (device ||| Form.noCount.flags) &&& ~~~lba32NoCount = device ||| Form.counted.flags := by
    decide +kernel
  refine ⟨h.coded, ?_⟩
  rw [SectorAddr.counted, h.device_eq]
  exact hAll device h.coded

/-- The device test of `map_compact` compares the device codes and the forms. -/
theorem same_device (h : Marked a device form) (h' : Marked b device' form')
    (hSame : (a.device ^^^ b.device) &&& ~~~lba32NoCount = 0) :
    device = device' ∧ form.base = form'.base := by
  have hKept := xor_masked hSame
  -- what the test looks at covers the device code and the two form flags
  have hPart : ∀ m : Byte, ~~~lba32NoCount &&& m = m → a.device &&& m = b.device &&& m := by
    intro m hm
    rw [← hm, ← BitVec.and_assoc, ← BitVec.and_assoc, hKept]
  have hNumber := hPart linearFlag (by decide)
  have hLba32 := hPart lba32Flag (by decide)
  refine ⟨?_, ?_⟩
  · rw [← h.masked, ← h'.masked]
    exact hPart devMask (by decide)
  · have hLinear : form ≠ .linear ↔ form' ≠ .linear := by
      rw [← h.has_linear, ← h'.has_linear, hNumber]
    have hLba : (form.base = .noCount) = (form'.base = .noCount) := by
      have hHas : a.has lba32Flag = b.has lba32Flag := by
        rw [SectorAddr.has, SectorAddr.has, hLba32]
      rw [h.has_lba32, h'.has_lba32] at hHas
      simpa using hHas
    cases form <;> cases form' <;> simp_all [Form.base]

end Marked

-- ---------------------------------------------------------------------------
-- Meaning
-- ---------------------------------------------------------------------------

variable (bios : Bios) (opts : Options)

/-- The number of the first sector an address stands for, `hinib` being the high
byte in effect. -/
def SectorAddr.first (a : SectorAddr) (hinib device : Byte) : Form → Nat
  | .chs => (bios.drive device).number (cylinderOf a.track a.sector) a.head.toNat
      (sectorOf a.sector)
  | .linear => a.low24
  | .noCount => a.numSect.toNat * 16777216 + a.low24
  | .counted => hinib.toNat * 16777216 + a.low24

/-- The number of sectors an address stands for. -/
def SectorAddr.count (a : SectorAddr) (form : Form) : Nat :=
  if form = .noCount then 1 else a.numSect.toNat

/-- An address stands for an extent. -/
structure Meaning (hinib : Byte) (a : SectorAddr) (form : Form) (e : Extent Byte) : Prop where
  marked : Marked a e.device form
  first_eq : e.first = a.first bios hinib e.device form
  count_eq : e.count = a.count form
  linear : form = .linear → hinib = 0

/-- The high byte in effect after an address. -/
def hinibAfter (hinib : Byte) (a : SectorAddr) (form : Form) : Byte :=
  if form = .noCount then a.numSect else hinib

/-- The sectors of a disk that the loader can read: by cylinder, head and sector
within the geometry of the BIOS, which must not have 256 heads where `read.S`
computes with it; by number up to the end of the disk, as an `int`. -/
def Reach (x : DiskSector) : Prop :=
  match Form.chosen opts x.1 with
  | .chs => x.2 < (bios.drive x.1).chsSize
  | .linear => (bios.drive x.1).heads < 256 ∧ x.2 < (bios.drive x.1).chsSize
  | .noCount | .counted =>
    if (bios.drive x.1).extended = true then
      x.2 < (bios.drive x.1).size ∧ x.2 < 2147483648
    else (bios.drive x.1).heads < 256 ∧ x.2 < (bios.drive x.1).chsSize

/-- The sectors of an address by cylinder, head and sector are of one track. -/
structure InTrack (a : SectorAddr) : Prop where
  sector_pos : 1 ≤ sectorOf a.sector
  sector_le : sectorOf a.sector + a.numSect.toNat ≤ (bios.drive a.device).sectors + 1
  head_lt : a.head.toNat < (bios.drive a.device).heads
  cylinder_lt : cylinderOf a.track a.sector < (bios.drive a.device).cylinders

/-- An address that the loader can read, and what it stands for. -/
structure Readable (hinib : Byte) (a : SectorAddr) (form : Form) (e : Extent Byte) : Prop where
  meaning : Meaning bios hinib a form e
  count_pos : 1 ≤ e.count
  count_le : e.count ≤ opts.maxcount
  reach : ∀ x ∈ e.blocks, Reach bios opts x
  chosen : form.base = Form.chosen opts e.device
  track : form = .chs → InTrack bios a

/-- An address as `geo_comp_addr` computes it for a sector. With `linear`, the
high byte in effect is always zero. -/
structure Stands (x : DiskSector) (a : SectorAddr) : Prop where
  fresh : ∀ hinib : Byte, (opts.linear = true → hinib = 0) →
    Readable bios opts hinib a (Form.chosen opts x.1) ⟨x.1, x.2, 1⟩
  numSect_eq : Form.chosen opts x.1 ≠ .noCount → a.numSect = 1

/-- The BIOS knows a disk as the map installer does. -/
structure Known (geo : Geometry) : Prop where
  coded : Coded geo.device
  heads_eq : byNumber opts geo.device = false → (bios.drive geo.device).heads = geo.heads
  sectors_eq : byNumber opts geo.device = false → (bios.drive geo.device).sectors = geo.sectors

-- ---------------------------------------------------------------------------
-- What geo_comp_addr writes
-- ---------------------------------------------------------------------------

/-- The number of a sector, from the parts it is divided into. -/
theorem Drive.number_parts (d : Drive) (n : Nat) :
    d.number (n / d.sectors / d.heads) (n / d.sectors % d.heads) (n % d.sectors + 1) = n := by
  unfold Drive.number
  rw [Nat.add_sub_cancel, Nat.div_add_mod', Nat.div_add_mod']

/-- A sector that the geometry reaches is on a cylinder. -/
theorem Drive.cylinder_lt (d : Drive) {n : Nat} (h : n < d.chsSize) :
    n / d.sectors / d.heads < d.cylinders := by
  rw [Nat.div_div_eq_div_mul, Nat.div_lt_iff_lt_mul (Nat.mul_pos d.sectors_pos d.heads_pos),
    Nat.mul_comm d.sectors, ← Nat.mul_assoc]
  exact h

variable {bios opts}

/-- What is read by geometry is within it. -/
theorem Reach.chs {x : DiskSector} (h : Reach bios opts x) (hForm : Form.chosen opts x.1 = .chs) :
    x.2 < (bios.drive x.1).chsSize := by
  unfold Reach at h
  rw [hForm] at h
  exact h

/-- The number of a sector that is addressed by number has 32 bits. -/
theorem Reach.noCount {x : DiskSector} (h : Reach bios opts x)
    (hForm : Form.chosen opts x.1 = .noCount) : x.2 < 2147483648 := by
  unfold Reach at h
  rw [hForm] at h
  by_cases hExt : (bios.drive x.1).extended = true
  · rw [if_pos hExt] at h
    exact h.2
  · rw [if_neg hExt] at h
    have hSize : (bios.drive x.1).chsSize ≤ 1024 * 256 * 63 :=
      Nat.mul_le_mul (Nat.mul_le_mul (bios.drive x.1).cylinders_le (bios.drive x.1).heads_le)
        (bios.drive x.1).sectors_le
    omega

/-- The three bytes of a linear address. -/
theorem low24_ofNat (n : Nat) (device numSect : Byte) :
    (SectorAddr.mk (BitVec.ofNat 8 n) (BitVec.ofNat 8 (n >>> 8)) device
      (BitVec.ofNat 8 (n >>> 16)) numSect).low24 = n % 16777216 := by
  rw [SectorAddr.low24_eq, BitVec.toNat_ofNat, BitVec.toNat_ofNat, BitVec.toNat_ofNat,
    Nat.shiftRight_eq_div_pow, Nat.shiftRight_eq_div_pow]
  omega

/-- `linear` addresses are by number. -/
theorem Form.chosen_linear {device : Byte} (h : Form.chosen opts device = .linear) :
    byNumber opts device = true ∧ opts.linear = true := by
  unfold Form.chosen at h
  split at h
  · next hNumber => split at h <;> simp_all
  · cases h

/-- So are those of `lba32`. -/
theorem Form.chosen_noCount {device : Byte} (h : Form.chosen opts device = .noCount) :
    byNumber opts device = true ∧ opts.linear = false := by
  unfold Form.chosen at h
  split at h
  · next hNumber => split at h <;> simp_all
  · cases h

/-- The geometry is for devices that are not addressed by number. -/
theorem Form.chosen_chs {device : Byte} (h : Form.chosen opts device = .chs) :
    byNumber opts device = false := by
  unfold Form.chosen at h
  split at h
  · split at h <;> cases h
  · next hNumber => simpa using hNumber

/-- `map_compact` lets a transfer be of one sector at least. -/
theorem maxcount_pos : 1 ≤ opts.maxcount := by
  unfold Options.maxcount
  split <;> omega

/-- And of 128 at most, which is a bank. -/
theorem maxcount_le : opts.maxcount ≤ 128 := by
  unfold Options.maxcount
  split <;> omega

/-- A single sector that can be reached. -/
theorem Reach.one {d : Byte} {n : Nat} (h : Reach bios opts (d, n)) :
    ∀ x ∈ (Extent.mk d n 1).blocks, Reach bios opts x := by
  intro x hx
  rw [Extent.blocks_one, List.mem_singleton] at hx
  rw [hx]
  exact h

section
variable {geo : Geometry} {n : Nat} {a : SectorAddr}

/-- A linear address, of 24 bits. -/
theorem stands_linear (hEncode : geo.encode opts n = .ok a) (hKnown : Known bios opts geo)
    (hReach : Reach bios opts (geo.device, n)) (hForm : Form.chosen opts geo.device = .linear) :
    Stands bios opts (geo.device, n) a := by
  obtain ⟨hNumber, hLinear⟩ := Form.chosen_linear hForm
  unfold Geometry.encode at hEncode
  rw [if_pos hNumber] at hEncode
  by_cases hSmall : n >>> 24 = 0
  · simp [hLinear, hSmall] at hEncode
    have hMarked : Marked a geo.device .linear := ⟨hKnown.coded, by rw [← hEncode]; rfl⟩
    have hCount : a.numSect = 1 := by
      rw [← hEncode]
      rfl
    have hLow : a.low24 = n := by
      rw [Nat.shiftRight_eq_div_pow] at hSmall
      rw [← hEncode, low24_ofNat, Nat.mod_eq_of_lt (by omega)]
    refine ⟨?_, fun _ => hCount⟩
    intro hinib hZero
    rw [hForm]
    refine ⟨?_, Nat.le_refl 1, maxcount_pos, hReach.one, hForm.symm, by simp⟩
    refine ⟨hMarked, hLow.symm, ?_, fun _ => hZero hLinear⟩
    rw [SectorAddr.count, if_neg (by simp), hCount]
    rfl
  · simp [hLinear, hSmall] at hEncode

/-- An LBA32 address, with the high byte in the count. -/
theorem stands_noCount (hEncode : geo.encode opts n = .ok a) (hKnown : Known bios opts geo)
    (hReach : Reach bios opts (geo.device, n)) (hForm : Form.chosen opts geo.device = .noCount) :
    Stands bios opts (geo.device, n) a := by
  obtain ⟨hNumber, hLinear⟩ := Form.chosen_noCount hForm
  unfold Geometry.encode at hEncode
  rw [if_pos hNumber] at hEncode
  simp [hLinear] at hEncode
  have hMarked : Marked a geo.device .noCount := ⟨hKnown.coded, by rw [← hEncode]; rfl⟩
  have hLow : a.low24 = n % 16777216 := by rw [← hEncode, low24_ofNat]
  have hHigh : a.numSect.toNat = n / 16777216 := by
    have hBound : n < 2147483648 := hReach.noCount hForm
    rw [← hEncode, BitVec.toNat_ofNat, Nat.shiftRight_eq_div_pow]
    omega
  refine ⟨?_, fun h => absurd hForm h⟩
  intro hinib _
  rw [hForm]
  refine ⟨?_, Nat.le_refl 1, maxcount_pos, hReach.one, hForm.symm, by simp⟩
  refine ⟨hMarked, ?_, rfl, by simp⟩
  rw [SectorAddr.first, hLow, hHigh, Nat.div_add_mod']

/-- An address by geometry. -/
theorem stands_chs (hEncode : geo.encode opts n = .ok a) (hKnown : Known bios opts geo)
    (hReach : Reach bios opts (geo.device, n)) (hForm : Form.chosen opts geo.device = .chs) :
    Stands bios opts (geo.device, n) a := by
  have hNumber := Form.chosen_chs hForm
  have hHeads := hKnown.heads_eq hNumber
  have hSectors := hKnown.sectors_eq hNumber
  -- the parts of the number, with the drive's geometry for that of the file
  have hCylinder := (bios.drive geo.device).cylinder_lt (hReach.chs hForm)
  have hParts := (bios.drive geo.device).number_parts n
  have hCylinders := (bios.drive geo.device).cylinders_le
  have hHead := Nat.mod_lt (n / geo.sectors) geo.heads_pos
  have hHeadLe := geo.heads_le
  have hSector := Nat.mod_lt n geo.sectors_pos
  have hSectorLe := geo.sectors_le
  simp only [hHeads, hSectors] at hCylinder hParts
  unfold Geometry.encode at hEncode
  rw [if_neg (by simp [hNumber])] at hEncode
  simp only at hEncode
  rw [if_neg (by omega)] at hEncode
  -- beyond the medium there is no address
  by_cases hMedia : geo.cylinders.any (n / geo.sectors / geo.heads ≥ ·) = true
  · rw [if_pos hMedia] at hEncode
    cases hEncode
  rw [if_neg hMedia] at hEncode
  have hEq := Except.ok.inj hEncode
  have hDevice : a.device = geo.device := by rw [← hEq]
  have hCount : a.numSect = 1 := by rw [← hEq]
  have hHeadNat : a.head.toNat = n / geo.sectors % geo.heads := by
    rw [← hEq, BitVec.toNat_ofNat]
    omega
  -- cylinder and sector share the second byte
  obtain ⟨hCyl, hSec⟩ : cylinderOf a.track a.sector = n / geo.sectors / geo.heads ∧
      sectorOf a.sector = n % geo.sectors + 1 := by
    rw [← hEq]
    exact unpacked (by omega) (packed_or (by omega) (by omega))
  refine ⟨?_, fun _ => hCount⟩
  intro hinib _
  rw [hForm]
  refine ⟨?_, Nat.le_refl 1, maxcount_pos, hReach.one, hForm.symm, ?_⟩
  · have hMarked : Marked a geo.device .chs := ⟨hKnown.coded, hDevice.trans BitVec.or_zero.symm⟩
    refine ⟨hMarked, ?_, ?_, by simp⟩
    · rw [SectorAddr.first, hCyl, hSec, hHeadNat, hParts]
    · rw [SectorAddr.count, if_neg (by simp), hCount]
      rfl
  · intro _
    refine ⟨by omega, ?_, ?_, ?_⟩
    · rw [hDevice, hSectors, hSec, hCount]
      show n % geo.sectors + 1 + 1 ≤ geo.sectors + 1
      omega
    · rw [hDevice, hHeads, hHeadNat]
      exact hHead
    · rw [hDevice, hCyl]
      exact hCylinder

/-- **An address stands for its sector.** What `geo_comp_addr` computes, the
loader reads as the sector it was computed for. -/
theorem encode_stands (hEncode : geo.encode opts n = .ok a) (hKnown : Known bios opts geo)
    (hReach : Reach bios opts (geo.device, n)) : Stands bios opts (geo.device, n) a := by
  cases hForm : Form.chosen opts geo.device with
  | chs => exact stands_chs hEncode hKnown hReach hForm
  | linear => exact stands_linear hEncode hKnown hReach hForm
  | noCount => exact stands_noCount hEncode hKnown hReach hForm
  | counted =>
    have hBase := Form.base_chosen opts geo.device
    rw [hForm] at hBase
    cases hBase

end

/-- What `geo_comp_addr` does: it finds the sector that holds the byte, and
computes its address. -/
theorem geoCompAddr_some {geo : Geometry} {offset : Nat} {a : SectorAddr}
    (h : geoCompAddr opts geo offset = .ok (some a)) :
    ∃ n, geo.sectorAt offset = .ok (some n) ∧ geo.encode opts n = .ok a := by
  unfold geoCompAddr at h
  split at h
  · cases h
  split at h
  · cases h
  obtain ⟨sector, hSector, h⟩ := bind_ok h
  cases sector with
  | none => cases h
  | some n =>
    obtain ⟨b, hEncode, h⟩ := bind_ok h
    cases h
    exact ⟨n, hSector, hEncode⟩

/-- `geo_comp_addr` finds no sector only in a hole. -/
theorem geoCompAddr_none {geo : Geometry} {offset : Nat}
    (h : geoCompAddr opts geo offset = .ok none) : geo.sectorAt offset = .ok none := by
  unfold geoCompAddr at h
  split at h
  · cases h
  split at h
  · cases h
  obtain ⟨sector, hSector, h⟩ := bind_ok h
  cases sector with
  | none => exact hSector
  | some n =>
    obtain ⟨b, hEncode, h⟩ := bind_ok h
    cases h

end MultiOS.Lilo
