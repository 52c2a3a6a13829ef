import Mathlib.Data.List.TakeWhile
import MultiOS.Lilo.Load

/-!
# LILO — the second stage

`bsect_open` writes the addresses of the second stage into the boot sector, and
the loop `sload` of `first.S` reads them one by one to SECONDSEG. For an
address of one sector, this build of `read.S` reads what `second.S` reads
(`sloadRead_cread`).

A section that is mapped before the map file is open has no address for a
hole but zeros, and zeros end the list: `sload` stops at the first hole of the
boot file (`second_stage_loaded`).
-/

namespace MultiOS.Lilo

open Lib

variable {bios : Bios} {opts : Options} {disk : Disk}

-- ---------------------------------------------------------------------------
-- One sector
-- ---------------------------------------------------------------------------

/-- The build of `lba_small` for one sector does what the other build does. -/
theorem lbaSmallOne_eq (dl : Byte) (lba : Nat) (buffer : Buffer) :
    lbaSmallOne bios dl lba buffer = lbaSmall bios dl 1 1 lba buffer := by
  unfold lbaSmallOne lbaSmall
  have hMod := Nat.mod_lt (lba % ((bios.drive dl).heads % 256 * (bios.drive dl).sectors))
    (bios.drive dl).sectors_pos
  have hOne : min 1 ((bios.drive dl).sectors -
      lba % ((bios.drive dl).heads % 256 * (bios.drive dl).sectors) % (bios.drive dl).sectors) =
      1 := by omega
  simp only [hOne]
  split
  · rfl
  split
  · rfl
  cases bios.read dl _ _ _ 1 buffer with
  | none => rfl
  | some read => rfl

/-- first.S reads one sector the way read.S reads one. -/
theorem lbaReadOne_eq (dl : Byte) (lba : Nat) (buffer : Buffer) :
    lbaReadOne bios dl lba buffer = lbaRead bios dl 1 lba buffer := by
  have hOne : 1 ≤ 127 := by omega
  unfold lbaReadOne lbaRead
  simp only [lbaSmallOne_eq, hOne, true_and]

/-- **The two readers.** `first.S` reads an address as it was registered like
`second.S`. -/
theorem sloadRead_cread {x : DiskSector} {a : SectorAddr} (h : Stands bios opts x a)
    (buffer : Buffer) :
    sloadRead bios a buffer = (cread bios 0 a buffer).map ReadDone.transfer := by
  have hMarked := (h.readable hinibOk_zero).meaning.marked
  have hCount := h.numSect_eq
  unfold sloadRead cread
  simp only [hMarked.has_number, hMarked.has_lba32, hMarked.has_noCount, lbaReadOne_eq]
  cases hForm : Form.chosen opts x.1 with
  | chs => simp [Option.map_map, Function.comp_def]
  | linear =>
    have hOne : a.numSect.toNat = 1 := by
      rw [hCount (by simp [hForm])]
      rfl
    simp [Form.base, hOne, Option.map_map, Function.comp_def]
  | noCount => simp [Form.base, Option.map_map, Function.comp_def]
  | counted => exact absurd hForm (chosen_ne_counted x.1)

-- ---------------------------------------------------------------------------
-- The loop
-- ---------------------------------------------------------------------------

/-- ES:BX for a sector of the second stage. -/
def stageBuffer (n : Nat) : Buffer := ⟨0x0b00, 512 * n⟩

/-- The second stage is loaded from its buffer upwards. -/
theorem stageBuffer_address (n : Nat) :
    (stageBuffer n).address = secondBuffer.address + 512 * n := by
  simp only [stageBuffer, secondBuffer, Buffer.address]

/-- Forty sectors stay in the bank. -/
theorem stageBuffer_fits {n : Nat} (h : n < 40) : (stageBuffer n).Fits 1 := by
  refine ⟨?_, ?_⟩
  · simp only [stageBuffer]
    omega
  · rw [stageBuffer_address]
    simp only [secondBuffer, Buffer.address]
    omega

/-- One pass: the sector is read, and the rest goes after it. -/
theorem sload_next {x : DiskSector} {a : SectorAddr} (h : Stands bios opts x a)
    (rest : List SectorAddr) {n : Nat} (hRoom : n < 40) :
    sload bios (a :: rest) (stageBuffer n) =
      (sload bios rest (stageBuffer (n + 1))).map
        ((secondBuffer.address + 512 * n, x) :: ·) := by
  have hNext : (⟨0x0b00, (512 * n + 512) % 65536⟩ : Buffer) = stageBuffer (n + 1) := by
    rw [stageBuffer, Buffer.mk.injEq]
    omega
  have hReadable := h.readable hinibOk_zero
  rw [sload, if_neg h.not_eof, sloadRead_cread h, cread_eq hReadable (stageBuffer_fits hRoom),
    stageBuffer_address]
  show (sload bios rest ⟨0x0b00, (512 * n + 512) % 65536⟩).map _ = _
  rw [hNext]
  rfl

/-- An address of zero bytes ends the list. -/
theorem sload_end (rest : List SectorAddr) (buffer : Buffer) :
    sload bios (⟨0, 0, 0, 0, 0⟩ :: rest) buffer = some [] := by
  rw [sload]
  exact if_pos (by decide)

/-- Whether a sector of a file is on the disk, and not in a hole. -/
def Geometry.solid (geo : Geometry) (i : Nat) : Bool :=
  match geo.sectorAt (512 * i) with
  | .ok none => false
  | _ => true

/-- **The run of `sload`.** The sectors up to the first hole are read, and lie one
after the other. -/
theorem sload_mapAdd {geo : Geometry} {first num : Nat} {map : List SectorAddr}
    (h : mapAdd opts ⟨0, 0, 0, 0, 0⟩ geo first num = .ok map)
    (hReach : (SectionCall.mapAdd geo first num).Reachable bios opts) {n : Nat}
    (hRoom : n + num ≤ 40) :
    ∃ transfer, sload bios (map ++ [⟨0, 0, 0, 0, 0⟩]) (stageBuffer n) = some transfer ∧
      transfer.bytes disk = layOut 512 (secondBuffer.address + 512 * n)
        (((List.range' first num).takeWhile geo.solid).map (fileSector disk geo)) := by
  induction num generalizing first map n with
  | zero =>
    cases h
    exact ⟨[], sload_end [] _, rfl⟩
  | succ num ih =>
    obtain ⟨hKnown, hSectors⟩ := hReach
    rw [mapAdd] at h
    obtain ⟨a, hAddr, h⟩ := bind_ok h
    obtain ⟨rest, hRest, h⟩ := bind_ok h
    cases h
    cases a with
    | none =>
      -- the address of a hole is zero, and ends the list
      have hHole : geo.solid first = false := by rw [Geometry.solid, geoCompAddr_none hAddr]
      refine ⟨[], sload_end _ _, ?_⟩
      rw [List.range'_succ, List.takeWhile_cons_of_neg (by simp [hHole])]
      rfl
    | some a =>
      -- a sector is loaded, and the next goes behind it
      obtain ⟨sector, hSector, hEncode⟩ := geoCompAddr_some hAddr
      have hStands := encode_stands hEncode hKnown
        (hSectors first sector (Nat.le_refl first) (by omega) hSector)
      have hSolid : geo.solid first = true := by rw [Geometry.solid, hSector]
      have hHere : fileSector disk geo first = disk (geo.device, sector) := by
        rw [fileSector, hSector]
      have hNext : secondBuffer.address + 512 * n + 512 =
          secondBuffer.address + 512 * (n + 1) := by omega
      have hRoom' : n + 1 + num ≤ 40 := by omega
      obtain ⟨transfer, hLoad, hBytes⟩ :=
        ih hRest ⟨hKnown, fun i m hi hLt => hSectors i m (by omega) (by omega)⟩ hRoom'
      refine ⟨(secondBuffer.address + 512 * n, (geo.device, sector)) :: transfer, ?_, ?_⟩
      · rw [Option.getD_some, List.cons_append, sload_next hStands _ (by omega), hLoad]
        rfl
      · rw [List.range'_succ, List.takeWhile_cons_of_pos hSolid, List.map_cons, layOut, hNext,
          ← hBytes, hHere]
        rfl

-- ---------------------------------------------------------------------------
-- map_write
-- ---------------------------------------------------------------------------

/-- What `map_write` leaves in the boot sector, and how many addresses it takes. -/
theorem mapWrite_ok {map list : List SectorAddr} {maxLen : Nat}
    (h : mapWrite true map maxLen = .ok list) :
    list = map ++ [⟨0, 0, 0, 0, 0⟩] ∧ (map = [] ∨ map.length < maxLen) := by
  induction map generalizing list maxLen with
  | nil =>
    cases h
    exact ⟨rfl, Or.inl rfl⟩
  | cons a map ih =>
    unfold mapWrite at h
    by_cases hSpace : maxLen < (if true = true then 1 else 0) + 1
    · rw [if_pos hSpace] at h
      cases h
    rw [if_neg hSpace] at h
    obtain ⟨rest, hRest, h⟩ := bind_ok h
    cases h
    obtain ⟨hList, hLength⟩ := ih hRest
    refine ⟨by rw [hList, List.cons_append], Or.inr ?_⟩
    simp only [if_true] at hSpace
    rw [List.length_cons]
    rcases hLength with rfl | hLength
    · rw [List.length_nil]
      omega
    · omega

-- ---------------------------------------------------------------------------
-- The second stage
-- ---------------------------------------------------------------------------

/--
**The second stage that is loaded.** When `bsect_open` has mapped a boot file,
which then has at most ten sectors, `first.S` loads from SECONDSEG on its
sectors after the first, up to the first hole: all of them exactly if there is
no hole.
-/
theorem second_stage_loaded {geo : Geometry} {size : Nat} {list : List SectorAddr}
    (h : mapSecondary opts geo size = .ok list)
    (hReach : (SectionCall.mapAdd geo 1 ((size + 511) / 512 - 1)).Reachable bios opts) :
    size ≤ 512 * maxSecondary ∧
    ∃ transfer, sload bios list secondBuffer = some transfer ∧
      transfer.bytes disk = layOut 512 secondBuffer.address
        (((List.range' 1 ((size + 511) / 512 - 1)).takeWhile geo.solid).map
          (fileSector disk geo)) ∧
      (transfer.length = (size + 511) / 512 - 1 ↔
        ∀ i, 1 ≤ i → i < (size + 511) / 512 → geo.solid i = true) := by
  obtain ⟨map, hMap, hWrite⟩ := bind_ok h
  obtain ⟨hList, hSpace⟩ := mapWrite_ok hWrite
  -- map_write leaves room for the end of the list
  have hLength := mapAdd_length hMap
  have hSectors : (size + 511) / 512 - 1 < 10 := by
    rcases hSpace with hEmpty | hSpace
    · rw [hEmpty, List.length_nil] at hLength
      omega
    · rw [hLength] at hSpace
      exact hSpace
  have hRoom : 0 + ((size + 511) / 512 - 1) ≤ 40 := by omega
  have hRun : ∃ transfer, sload bios list secondBuffer = some transfer ∧
      transfer.bytes disk = layOut 512 secondBuffer.address
        (((List.range' 1 ((size + 511) / 512 - 1)).takeWhile geo.solid).map
          (fileSector disk geo)) := by
    rw [hList]
    exact sload_mapAdd hMap hReach hRoom
  obtain ⟨transfer, hLoad, hBytes⟩ := hRun
  refine ⟨by rw [maxSecondary]; omega, transfer, hLoad, hBytes, ?_⟩
  -- as many sectors as are taken up to the first hole
  have hTransfer := congrArg List.length hBytes
  rw [Transfer.bytes, List.length_map, length_layOut, List.length_map] at hTransfer
  have hRange : (List.range' 1 ((size + 511) / 512 - 1)).length = (size + 511) / 512 - 1 :=
    List.length_range'
  have hPrefix := List.takeWhile_prefix (l := List.range' 1 ((size + 511) / 512 - 1)) geo.solid
  rw [hTransfer]
  refine ⟨?_, ?_⟩
  · intro hAll i hPos hLt
    have hSame := hPrefix.eq_of_length (hAll.trans hRange.symm)
    rw [List.takeWhile_eq_self_iff] at hSame
    exact hSame i (List.mem_range'_1.mpr (by omega))
  · intro hSolid
    have hSame : (List.range' 1 ((size + 511) / 512 - 1)).takeWhile geo.solid =
        List.range' 1 ((size + 511) / 512 - 1) := by
      rw [List.takeWhile_eq_self_iff]
      intro i hi
      rw [List.mem_range'_1] at hi
      exact hSolid i hi.1 (by omega)
    rw [hSame, hRange]

/-- A boot file of six sectors with a hole in it: of the five after the first, one
is loaded. -/
theorem second_stage_loaded_hole : ∃ (list : List SectorAddr) (transfer : Transfer),
    mapSecondary someOptions someKernel 3000 = .ok list ∧
    3000 ≤ 512 * maxSecondary ∧
    sload someBios list secondBuffer = some transfer ∧
    transfer.bytes someDisk =
      layOut 512 secondBuffer.address [fileSector someDisk someKernel 1] ∧
    (transfer.length = 5 ↔ ∀ i, 1 ≤ i → i < 6 → someKernel.solid i = true) := by
  have hReach : (SectionCall.mapAdd someKernel 1 ((3000 + 511) / 512 - 1)).Reachable
      someBios someOptions := by
    obtain ⟨hKnown, hSectors⟩ := some_kernel_reachable
    exact ⟨hKnown, fun i n _ hLt => hSectors i n (Nat.zero_le i) (by omega)⟩
  have hMapped : (mapSecondary someOptions someKernel 3000).isOk = true := by rfl
  cases hMap : mapSecondary someOptions someKernel 3000 with
  | error e =>
    rw [hMap] at hMapped
    cases hMapped
  | ok list =>
    obtain ⟨hSize, transfer, hLoaded⟩ := @second_stage_loaded _ _ someDisk _ _ _ hMap hReach
    exact ⟨list, transfer, rfl, hSize, hLoaded⟩

end MultiOS.Lilo
