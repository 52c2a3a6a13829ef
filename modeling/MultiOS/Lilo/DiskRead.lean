import MultiOS.Lilo.SectorAddress

/-!
# LILO — the disk reads of the boot loader

`lba_small` of `read.S` reads a run of sectors track by track
(`lbaSmall_eq`): each call it makes is one that the BIOS documents, and the
parts lie in memory one after the other. With it, `cread` reads what an
address stands for (`cread_eq`), in every form, on drives with and without the
extended calls.
-/

namespace MultiOS.Lilo

open Lib

variable {bios : Bios} {opts : Options}

-- ---------------------------------------------------------------------------
-- Buffers
-- ---------------------------------------------------------------------------

namespace Buffer

variable {b : Buffer}

/-- The first part of a transfer stays within the bank. -/
theorem Fits.first {n m : Nat} (h : b.Fits (n + m)) (hn : 1 ≤ n) : b.Fits n := by
  obtain ⟨hSegment, hBank⟩ := h
  refine ⟨by omega, ?_⟩
  have hLow : b.address / 65536 ≤ (b.address + 512 * n - 1) / 65536 :=
    Nat.div_le_div_right (by omega)
  have hHigh : (b.address + 512 * n - 1) / 65536 ≤ (b.address + 512 * (n + m) - 1) / 65536 :=
    Nat.div_le_div_right (by omega)
  omega

/-- So does the rest, and it begins where the first part ends. -/
theorem Fits.rest {n m : Nat} (h : b.Fits (n + m)) (hm : 1 ≤ m) :
    Fits ⟨b.es, (b.bx + 512 * n) % 65536⟩ m ∧
      address ⟨b.es, (b.bx + 512 * n) % 65536⟩ = b.address + 512 * n := by
  obtain ⟨hSegment, hBank⟩ := h
  have hMod : (b.bx + 512 * n) % 65536 = b.bx + 512 * n := Nat.mod_eq_of_lt (by omega)
  have hAddress : address ⟨b.es, b.bx + 512 * n⟩ = b.address + 512 * n := by
    simp only [address]
    omega
  have hLow : b.address / 65536 ≤ (b.address + 512 * n) / 65536 :=
    Nat.div_le_div_right (by omega)
  have hHigh : (b.address + 512 * n) / 65536 ≤ (b.address + 512 * (n + m) - 1) / 65536 :=
    Nat.div_le_div_right (by omega)
  have hEnd : b.address + 512 * n + 512 * m - 1 = b.address + 512 * (n + m) - 1 := by omega
  rw [hMod]
  refine ⟨⟨?_, ?_⟩, hAddress⟩
  · show b.bx + 512 * n + 512 * m ≤ 65536
    omega
  · rw [hAddress, hEnd]
    omega

end Buffer

-- ---------------------------------------------------------------------------
-- read.S
-- ---------------------------------------------------------------------------

/-- The registers `lba_small` computes for a sector name that sector, and the
rest of its track can be read from it. -/
theorem lbaSmall_read {dl : Byte} {lba count : Nat} {buffer : Buffer}
    (hSize : lba < (bios.drive dl).chsSize) (hPos : 1 ≤ count)
    (hTrack : count ≤ (bios.drive dl).sectors - lba % (bios.drive dl).sectors)
    (hFits : buffer.Fits count) :
    bios.read dl (BitVec.ofNat 8 (lba / (bios.drive dl).sectors / (bios.drive dl).heads))
        (BitVec.ofNat 8 ((lba / (bios.drive dl).sectors / (bios.drive dl).heads) >>> 8 <<< 6) +
          BitVec.ofNat 8 (lba % (bios.drive dl).sectors + 1))
        (BitVec.ofNat 8 (lba / (bios.drive dl).sectors % (bios.drive dl).heads)) count buffer =
      some (layOut 512 buffer.address (Extent.blocks ⟨dl, lba, count⟩)) := by
  have hCylinder := (bios.drive dl).cylinder_lt hSize
  have hCylinders := (bios.drive dl).cylinders_le
  have hSector := Nat.mod_lt lba (bios.drive dl).sectors_pos
  have hSectors := (bios.drive dl).sectors_le
  have hHead := Nat.mod_lt (lba / (bios.drive dl).sectors) (bios.drive dl).heads_pos
  have hHeads := (bios.drive dl).heads_le
  have hNumber := (bios.drive dl).number_parts lba
  have hCl : (BitVec.ofNat 8 ((lba / (bios.drive dl).sectors / (bios.drive dl).heads) >>> 8 <<< 6) +
      BitVec.ofNat 8 (lba % (bios.drive dl).sectors + 1)).toNat =
      64 * (lba / (bios.drive dl).sectors / (bios.drive dl).heads / 256) +
        (lba % (bios.drive dl).sectors + 1) := packed_add (by omega) (by omega)
  obtain ⟨hCyl, hSec⟩ := unpacked (by omega) hCl
  have hDh : (BitVec.ofNat 8 (lba / (bios.drive dl).sectors % (bios.drive dl).heads)).toNat =
      lba / (bios.drive dl).sectors % (bios.drive dl).heads := by
    rw [BitVec.toNat_ofNat]
    omega
  rw [bios.read_eq _ _ _ _ _ _ hPos (by omega) (by omega) (by omega) (by omega) hFits, hCyl, hSec,
    hDh, hNumber]

/-- **Track by track.** `lba_small` reads the sectors it is asked for. -/
theorem lbaSmall_eq {dl : Byte} (hHeads : (bios.drive dl).heads < 256) (passes : Nat)
    {count lba : Nat} {buffer : Buffer} (hPos : 1 ≤ count) (hPasses : count ≤ passes)
    (hSize : lba + count ≤ (bios.drive dl).chsSize) (hFits : buffer.Fits count) :
    lbaSmall bios dl passes count lba buffer =
      some (layOut 512 buffer.address (Extent.blocks ⟨dl, lba, count⟩)) := by
  induction passes generalizing count lba buffer with
  | zero => omega
  | succ passes ih =>
    have hSectorsPos := (bios.drive dl).sectors_pos
    have hSi : (bios.drive dl).heads % 256 * (bios.drive dl).sectors =
        (bios.drive dl).sectors * (bios.drive dl).heads := by
      rw [Nat.mod_eq_of_lt hHeads, Nat.mul_comm]
    have hCapacity : (bios.drive dl).chsSize ≤
        1024 * ((bios.drive dl).sectors * (bios.drive dl).heads) := by
      unfold Drive.chsSize
      rw [Nat.mul_assoc, Nat.mul_comm (bios.drive dl).heads]
      exact Nat.mul_le_mul_right _ (bios.drive dl).cylinders_le
    -- the quotients fit in their registers
    have hCylinder := (bios.drive dl).cylinder_lt (n := lba) (by omega)
    rw [Nat.div_div_eq_div_mul] at hCylinder
    have hMod := Nat.mod_lt lba hSectorsPos
    unfold lbaSmall
    simp only [hSi]
    rw [if_neg (by omega), if_neg (by omega), ← Nat.div_div_eq_div_mul, Nat.mod_mul_right_mod,
      Nat.mod_mul_right_div_self]
    -- the part up to the end of the track, and what is left after it
    obtain ⟨rest, hRest⟩ : ∃ rest,
        count = min count ((bios.drive dl).sectors - lba % (bios.drive dl).sectors) + rest :=
      ⟨count - min count ((bios.drive dl).sectors - lba % (bios.drive dl).sectors), by omega⟩
    generalize hActual :
      min count ((bios.drive dl).sectors - lba % (bios.drive dl).sectors) = actual at hRest ⊢
    have hFirst : buffer.Fits actual :=
      Buffer.Fits.first (n := actual) (m := rest) (hRest ▸ hFits) (by omega)
    rw [lbaSmall_read (by omega) (by omega) (by omega) hFirst]
    dsimp only
    by_cases hEnd : count - actual = 0
    · rw [if_pos hEnd]
      have hAll : actual = count := by omega
      rw [hAll]
    · obtain ⟨hRestFits, hAddress⟩ :=
        Buffer.Fits.rest (n := actual) (m := rest) (hRest ▸ hFits) (by omega)
      have hLba : (lba + actual) % 4294967296 = lba + actual := by
        have hChs : (bios.drive dl).sectors * (bios.drive dl).heads ≤ 63 * 256 :=
          Nat.mul_le_mul (bios.drive dl).sectors_le (bios.drive dl).heads_le
        omega
      have hLeft : count - actual = rest := by omega
      rw [if_neg hEnd, hLeft, hLba, ih (by omega) (by omega) (by omega) hRestFits, hAddress, hRest,
        Extent.blocks_add, layOut_append, Extent.length_blocks]
      rfl

/-- `lba_small` reads nothing past the last cylinder, and nothing from a drive of
256 heads. -/
theorem lbaSmall_none {dl : Byte} (passes : Nat) {count lba : Nat} {buffer : Buffer}
    (hLba : lba < 4294967296) (hPos : 1 ≤ count)
    (h : (bios.drive dl).heads < 256 → (bios.drive dl).chsSize < lba + count) :
    lbaSmall bios dl passes count lba buffer = none := by
  induction passes generalizing count lba buffer with
  | zero => rfl
  | succ passes ih =>
    unfold lbaSmall
    by_cases hHeads : (bios.drive dl).heads < 256
    · -- some pass asks for a cylinder beyond the last
      have hBeyond := h hHeads
      have hSectorsPos := (bios.drive dl).sectors_pos
      have hSiPos := Nat.mul_pos (bios.drive dl).heads_pos hSectorsPos
      have hMod := Nat.mod_lt lba hSectorsPos
      simp only [Nat.mod_eq_of_lt hHeads]
      split
      · rfl
      split
      · rfl
      next hCylinder =>
      -- the sector exists, so its track does, and the rest lies past the end
      have hLt : lba < (bios.drive dl).chsSize := by
        rw [Nat.not_le, Nat.div_lt_iff_lt_mul hSiPos, ← Nat.mul_assoc] at hCylinder
        exact hCylinder
      have hTrack : lba + ((bios.drive dl).sectors - lba % (bios.drive dl).sectors) ≤
          (bios.drive dl).chsSize := by
        have hTracks : lba / (bios.drive dl).sectors <
            (bios.drive dl).cylinders * (bios.drive dl).heads := by
          rw [Nat.div_lt_iff_lt_mul hSectorsPos]
          exact hLt
        have hEnd := Nat.mul_le_mul_right (bios.drive dl).sectors hTracks
        have hParts := Nat.div_add_mod' lba (bios.drive dl).sectors
        rw [Nat.succ_mul] at hEnd
        unfold Drive.chsSize
        omega
      have hSize : (bios.drive dl).chsSize ≤ 1024 * 256 * 63 :=
        Nat.mul_le_mul (Nat.mul_le_mul (bios.drive dl).cylinders_le (bios.drive dl).heads_le)
          (bios.drive dl).sectors_le
      rw [Nat.mod_mul_left_mod]
      generalize hActual :
        min count ((bios.drive dl).sectors - lba % (bios.drive dl).sectors) = actual
      have hNext : (lba + actual) % 4294967296 = lba + actual := Nat.mod_eq_of_lt (by omega)
      split
      · rfl
      rw [if_neg (by omega), hNext, ih (by omega) (by omega) fun _ => by omega]
      rfl
    · -- 256 heads are 0 in the byte, and the division faults
      have hZero : (bios.drive dl).heads % 256 = 0 := by
        have hLe := (bios.drive dl).heads_le
        omega
      simp [hZero]

/-- **All or nothing.** `lba_small` reads the sectors it is asked for exactly if
the drive has fewer than 256 heads and all of them; else it fails. -/
theorem lbaSmall_exact {dl : Byte} {count lba : Nat} {buffer : Buffer} (hPos : 1 ≤ count)
    (hLba : lba < 4294967296) (hFits : buffer.Fits count) :
    lbaSmall bios dl count count lba buffer =
      if (bios.drive dl).heads < 256 ∧ lba + count ≤ (bios.drive dl).chsSize then
        some (layOut 512 buffer.address (Extent.blocks ⟨dl, lba, count⟩))
      else none := by
  split
  · next h => exact lbaSmall_eq h.1 count hPos (Nat.le_refl count) h.2 hFits
  · next h => exact lbaSmall_none count hLba hPos fun hHeads => by omega

/-- A large drive. -/
def someDrive : Drive where
  heads := 255
  sectors := 63
  cylinders := 1024
  extended := true
  size := 100000000
  heads_pos := by decide
  heads_le := by decide
  sectors_pos := by decide
  sectors_le := by decide
  cylinders_le := by decide

/-- A hundred sectors across two ends of tracks. -/
theorem lbaSmall_exact_tracks :
    lbaSmall (Bios.answering fun _ => someDrive) 0x80 100 100 50 ⟨0x1000, 0⟩ =
      some (layOut 512 65536 (Extent.blocks ⟨0x80, 50, 100⟩)) :=
  (lbaSmall_exact (by omega) (by omega) (by decide)).trans
    (if_pos ⟨by decide, by decide⟩)

/-- `lba_read`: by the extended calls where the drive has them. -/
theorem lbaRead_eq {a : SectorAddr} {device : Byte} {form : Form} {count lba : Nat}
    {buffer : Buffer} (hMarked : Marked a device form) (hPos : 1 ≤ count)
    (hFits : buffer.Fits count)
    (hExtended : form ≠ .linear → (bios.drive device).extended = true →
      count ≤ 127 ∧ lba + count ≤ (bios.drive device).size)
    (hSmall : form = .linear ∨ (bios.drive device).extended = false →
      (bios.drive device).heads < 256 ∧ lba + count ≤ (bios.drive device).chsSize) :
    lbaRead bios a.device count lba buffer =
      some (layOut 512 buffer.address (Extent.blocks ⟨device, lba, count⟩)) := by
  unfold lbaRead
  simp only [hMarked.masked, hMarked.has_linear]
  by_cases hForm : form = .linear
  · rw [if_neg (by simp [hForm])]
    obtain ⟨hHeads, hSize⟩ := hSmall (Or.inl hForm)
    exact lbaSmall_eq hHeads count hPos (Nat.le_refl count) hSize hFits
  · cases hExt : (bios.drive device).extended with
    | true =>
      obtain ⟨hCount, hSize⟩ := hExtended hForm hExt
      rw [if_pos ⟨hForm, hCount, rfl⟩]
      exact bios.readExtended_eq device lba count buffer hExt hPos hCount hSize hFits
    | false =>
      rw [if_neg (by simp)]
      obtain ⟨hHeads, hSize⟩ := hSmall (Or.inr hExt)
      exact lbaSmall_eq hHeads count hPos (Nat.le_refl count) hSize hFits

-- ---------------------------------------------------------------------------
-- cread
-- ---------------------------------------------------------------------------

/-- What reaching the last sector of a run by number says of the run. -/
theorem Readable.bounds {hinib : Byte} {a : SectorAddr} {form : Form} {e : Extent Byte}
    (h : Readable bios opts hinib a form e) (hForm : form ≠ .chs) :
    (form ≠ .linear → (bios.drive e.device).extended = true →
      e.count ≤ 127 ∧ e.first + e.count ≤ (bios.drive e.device).size) ∧
    (form = .linear ∨ (bios.drive e.device).extended = false →
      (bios.drive e.device).heads < 256 ∧
        e.first + e.count ≤ (bios.drive e.device).chsSize) := by
  have hPos := h.count_pos
  -- the last sector of the extent is reached as well
  have hLast : (e.device, e.first + (e.count - 1)) ∈ e.blocks :=
    Extent.mem_blocks.mpr ⟨rfl, by omega, by omega⟩
  have hReach := h.reach _ hLast
  have hChosen := h.chosen
  unfold Reach at hReach
  simp only at hReach
  rw [← hChosen] at hReach
  cases form with
  | chs => exact absurd rfl hForm
  | linear =>
    simp only [Form.base] at hReach
    exact ⟨fun h => absurd rfl h, fun _ => ⟨hReach.1, by omega⟩⟩
  | noCount | counted =>
    simp only [Form.base] at hReach hChosen
    have hMax : e.count ≤ 127 := by
      have hOpts := (Form.chosen_noCount hChosen.symm)
      have hLba : opts.lba32 = true := by
        have hNumber := hOpts.1
        unfold byNumber at hNumber
        rw [hOpts.2, Bool.false_or, Bool.and_eq_true] at hNumber
        exact hNumber.2
      have hLe := h.count_le
      unfold Options.maxcount at hLe
      rw [if_pos hLba] at hLe
      exact hLe
    refine ⟨?_, ?_⟩
    · intro _ hExt
      rw [if_pos hExt] at hReach
      exact ⟨hMax, by omega⟩
    · rintro (hLinear | hExt)
      · cases hLinear
      · rw [if_neg (by simp [hExt])] at hReach
        exact ⟨hReach.1, by omega⟩

/-- **The loader reads what an address stands for.** -/
theorem cread_eq {hinib : Byte} {a : SectorAddr} {form : Form} {e : Extent Byte} {buffer : Buffer}
    (h : Readable bios opts hinib a form e) (hFits : buffer.Fits e.count) :
    cread bios hinib a buffer =
      some ⟨layOut 512 buffer.address e.blocks, e.count, hinibAfter hinib a form⟩ := by
  have hPos := h.count_pos
  have hMarked := h.meaning.marked
  have hFirst := h.meaning.first_eq
  have hCount := h.meaning.count_eq
  obtain ⟨device, first, count⟩ := e
  simp only at hPos hMarked hFirst hCount hFits ⊢
  unfold cread
  rw [hMarked.has_number, hMarked.has_noCount]
  cases form with
  | chs =>
    -- one call, since the extent stays on its track
    have hTrack := h.track rfl
    have hDevice : a.device = device := hMarked.device_eq.trans BitVec.or_zero
    simp [SectorAddr.first, SectorAddr.count] at hFirst hCount
    subst hCount
    rw [if_neg (by simp), bios.read_eq _ _ _ _ _ _ hPos hTrack.sector_pos hTrack.sector_le
      hTrack.head_lt hTrack.cylinder_lt hFits, hDevice, ← hFirst]
    rfl
  | linear =>
    obtain ⟨hExtended, hSmall⟩ := h.bounds (by simp)
    simp [SectorAddr.first, SectorAddr.count] at hFirst hCount
    subst hCount
    -- a linear address has no high byte
    have hZero : (0 : Byte).toNat * 16777216 + a.low24 = first := by
      rw [hFirst]
      simp
    rw [if_pos (by simp), if_neg (by simp), SectorAddr.toNat_append, h.meaning.linear rfl, hZero,
      lbaRead_eq hMarked hPos hFits hExtended hSmall]
    rfl
  | noCount =>
    obtain ⟨hExtended, hSmall⟩ := h.bounds (by simp)
    simp [SectorAddr.first, SectorAddr.count] at hFirst hCount
    subst hCount
    rw [if_pos (by simp), if_pos (by simp), SectorAddr.toNat_append, ← hFirst,
      lbaRead_eq hMarked hPos hFits hExtended hSmall]
    rfl
  | counted =>
    obtain ⟨hExtended, hSmall⟩ := h.bounds (by simp)
    simp [SectorAddr.first, SectorAddr.count] at hFirst hCount
    subst hCount
    rw [if_pos (by simp), if_neg (by simp), SectorAddr.toNat_append, ← hFirst,
      lbaRead_eq hMarked hPos hFits hExtended hSmall]
    rfl

end MultiOS.Lilo
