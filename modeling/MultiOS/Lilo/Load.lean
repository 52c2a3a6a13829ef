import MultiOS.Lilo.Section

/-!
# LILO — what the boot loader puts into memory

A single `load` reads what the next address stands for to where the target
says (`load_next`). A run of `load1` puts one sector at each buffer
(`load1s_reads`), and `lfile` puts all that is left of a section one sector
after the other (`lfile_reads`): low from SYSSEG:0 on, the pointer going from
bank to bank, or above 1 MB.

`section_loaded` puts the two programs together: what the map installer was
given is what the boot loader leaves in memory, in order, in each of the three
address modes and with or without `compact`.
-/

namespace MultiOS.Lilo

open Lib

variable {bios : Bios} {opts : Options} {disk : Disk}

-- ---------------------------------------------------------------------------
-- One load
-- ---------------------------------------------------------------------------

/-- A transfer of that many sectors to the target is one that the BIOS documents. -/
def Target.Takes (t : Target) (count : Nat) : Prop :=
  if t.buffer.es = 0 then count ≤ 128 else t.buffer.Fits count

/-- A transfer to 0x10000 fits in the bank. -/
theorem systemBuffer_fits {count : Nat} (hPos : 1 ≤ count) (hMax : count ≤ 128) :
    systemBuffer.Fits count := by
  refine ⟨?_, ?_⟩
  · show 0 + 512 * count ≤ 65536
    omega
  · show 65536 / 65536 = (65536 + 512 * count - 1) / 65536
    omega

/-- `xread` reads what an address stands for, low or high. -/
theorem xread_eq {hinib : Byte} {a : SectorAddr} {form : Form} {e : Extent Byte} {t : Target}
    (h : Readable bios opts hinib a form e) (hTakes : t.Takes e.count) :
    xread bios hinib a t =
      some (layOut 512 t.address e.blocks, t.next e.count, hinibAfter hinib a form) := by
  unfold Target.Takes at hTakes
  unfold xread Target.address
  by_cases hHigh : t.buffer.es = 0
  · rw [if_pos hHigh] at hTakes
    have hMove : bios.moveBlock (256 * e.count) = true := bios.moveBlock_eq _ (by omega)
    have hLayOut := layOut_move 512 systemBuffer.address 0 t.destination e.blocks
    rw [Nat.add_zero, Nat.add_zero] at hLayOut
    rw [if_pos hHigh, if_pos hHigh, cread_eq h (systemBuffer_fits h.count_pos hTakes)]
    simp only
    rw [if_pos hMove, hLayOut]
  · rw [if_neg hHigh] at hTakes
    rw [if_neg hHigh, if_neg hHigh, cread_eq h hTakes]
    rfl

/-- **One load.** -/
theorem load_next {s : Loader} {a : SectorAddr} {as : List SectorAddr} {form : Form}
    {e : Extent Byte} {t : Target} (hAt : At bios opts disk s (a :: as))
    (hOk : HinibOk opts s.hinib) (h : Readable bios opts s.hinib a form e)
    (hTakes : t.Takes e.count) :
    ∃ s', load bios disk s t = some (some (layOut 512 t.address e.blocks, t.next e.count), s') ∧
      At bios opts disk s' as ∧ s'.hinib = hinibAfter s.hinib a form := by
  obtain ⟨s', hFetch, hAt', hHinib⟩ := lfetch_next hAt hOk
  refine ⟨{ s' with hinib := hinibAfter s.hinib a form }, ?_, hAt', rfl⟩
  rw [load, hFetch]
  simp only
  rw [hHinib, xread_eq h hTakes]
  rfl

/-- At the end of the map the second stage has loaded all. -/
theorem load_end {s : Loader} {t : Target} (hAt : At bios opts disk s []) :
    load bios disk s t = some (none, s) := by
  rw [load, lfetch_end hAt]

-- ---------------------------------------------------------------------------
-- Single loads
-- ---------------------------------------------------------------------------

/-- A buffer for one sector, out of the way of the page at MAP, and a high byte
that other reads may have left. -/
structure Place (opts : Options) (p : Byte × Buffer) : Prop where
  hinib : HinibOk opts p.1
  low : p.2.es ≠ 0
  fits : p.2.Fits 1
  clear : p.2.address + 512 ≤ mapBuffer.address ∨ mapBuffer.address + 512 ≤ p.2.address

/-- Each `load1` puts one sector at its buffer. -/
theorem load1s_reads {xs : List DiskSector} {as rest : List SectorAddr}
    (hStands : List.Forall₂ (Stands bios opts) xs as) {places : List (Byte × Buffer)}
    (hLength : places.length = xs.length) (hPlaces : ∀ p ∈ places, Place opts p) {s : Loader}
    (hAt : At bios opts disk s (as ++ rest)) (hOk : HinibOk opts s.hinib) :
    ∃ s', load1s bios disk s places = some ((places.map (·.2.address)).zip xs, s') ∧
      At bios opts disk s' rest ∧ HinibOk opts s'.hinib := by
  induction hStands generalizing places s with
  | nil =>
    cases List.eq_nil_of_length_eq_zero hLength
    exact ⟨s, rfl, hAt, hOk⟩
  | @cons x a xs as hHead hTail ih =>
    obtain _ | ⟨⟨hinib, buffer⟩, places⟩ := places
    · cases hLength
    obtain ⟨hHinib, hLow, hFits, -⟩ := hPlaces _ List.mem_cons_self
    simp only at hHinib hLow hFits
    have hReadable := hHead.readable hHinib
    have hTakes : Target.Takes { buffer } 1 := by
      rw [Target.Takes, if_neg hLow]
      exact hFits
    obtain ⟨s₁, hLoad, hAt₁, hHinib₁⟩ :=
      load_next (s := { s with hinib }) hAt hHinib hReadable hTakes
    have hOk₁ : HinibOk opts s₁.hinib := by
      rw [hHinib₁]
      exact hReadable.hinibOk hHinib
    obtain ⟨s₂, hLoads, hAt₂, hOk₂⟩ := ih (Nat.succ.inj hLength)
      (fun p hp => hPlaces p (List.mem_cons_of_mem _ hp)) hAt₁ hOk₁
    refine ⟨s₂, ?_, hAt₂, hOk₂⟩
    rw [load1s, hLoad]
    simp only
    rw [hLoads, Target.address, if_neg hLow]
    rfl

-- ---------------------------------------------------------------------------
-- lfile
-- ---------------------------------------------------------------------------

/-- The extents can be loaded one after the other from a target on. -/
def Carries : Target → List (Extent Byte) → Prop
  | _, [] => True
  | t, e :: es => t.Takes e.count ∧
    (es ≠ [] → (t.next e.count).address = t.address + 512 * e.count) ∧
    Carries (t.next e.count) es

/-- **The run of loads.** `lfile` puts the rest of a section into memory, sector
after sector. -/
theorem lfile_reads {hinib : Byte} {as : List SectorAddr} {es : List (Extent Byte)}
    (h : ReadsAll bios opts hinib as es) {s : Loader} (hAt : At bios opts disk s as)
    (hHinib : s.hinib = hinib) (hOk : HinibOk opts hinib) {t : Target} (hCarries : Carries t es)
    {loads : Nat} (hLoads : as.length < loads) :
    ∃ s' t', lfile bios disk loads s t = some (layOut 512 t.address (cover es), s', t') := by
  induction h generalizing s t loads with
  | nil =>
    obtain _ | loads := loads
    · cases hLoads
    exact ⟨s, t, by rw [lfile, load_end hAt]; rfl⟩
  | @cons hinib a form e as es hHead hTail ih =>
    obtain _ | loads := loads
    · cases hLoads
    subst hHinib
    obtain ⟨hTakes, hAddress, hRest⟩ := hCarries
    obtain ⟨s₁, hLoad, hAt₁, hHinib₁⟩ := load_next hAt hOk hHead hTakes
    obtain ⟨s₂, t₂, hFile⟩ := ih hAt₁ hHinib₁ (hHead.hinibOk hOk) hRest (by simpa using hLoads)
    refine ⟨s₂, t₂, ?_⟩
    rw [lfile, hLoad]
    simp only
    rw [hFile, cover_cons, layOut_append, Extent.length_blocks]
    by_cases hLast : es = []
    · subst hLast
      rfl
    · rw [hAddress hLast]
      rfl

/-- An address for each sector at most. -/
theorem ReadsAll.length_le {hinib : Byte} {as : List SectorAddr} {es : List (Extent Byte)}
    (h : ReadsAll bios opts hinib as es) : as.length ≤ (cover es).length := by
  induction h with
  | nil => simp
  | cons hHead hTail ih =>
    have hPos := hHead.count_pos
    rw [cover_cons, List.length_append, Extent.length_blocks, List.length_cons]
    omega

/-- A transfer is of 1 to 128 sectors. -/
theorem ReadsAll.counts {hinib : Byte} {as : List SectorAddr} {es : List (Extent Byte)}
    (h : ReadsAll bios opts hinib as es) : ∀ e ∈ es, 1 ≤ e.count ∧ e.count ≤ 128 := by
  induction h with
  | nil => simp
  | cons hHead hTail ih =>
    intro e he
    rcases List.mem_cons.mp he with rfl | he
    · exact ⟨hHead.count_pos, Nat.le_trans hHead.count_le maxcount_le⟩
    · exact ih e he

-- ---------------------------------------------------------------------------
-- The pointer
-- ---------------------------------------------------------------------------

/-- ES:BX for a distance from SYSSEG:0. -/
def bufferAt (offset : Nat) : Buffer := ⟨0x1000 * (1 + offset / 65536), offset % 65536⟩

/-- The buffer as a linear address. -/
theorem bufferAt_address (offset : Nat) : (bufferAt offset).address = 65536 + offset := by
  simp only [bufferAt, Buffer.address]
  omega

/-- **The pointer.** After a transfer within a bank, ES:BX is where the next goes,
in the same bank or at the start of the next. -/
theorem bufferAt_advance {offset count : Nat} (hMax : count ≤ 128) (hPos : 1 ≤ count)
    (hBank : offset / 65536 = (offset + 512 * count - 1) / 65536)
    (hRoom : offset + 512 * count < 983040) :
    (bufferAt offset).advance count = bufferAt (offset + 512 * count) := by
  unfold Buffer.advance bufferAt
  simp only
  split
  · rw [Buffer.mk.injEq]
    omega
  · split
    · rw [Buffer.mk.injEq]
      omega
    · rw [Buffer.mk.injEq]
      omega

/-- A transfer that ends in the bank it begins in fits. -/
theorem bufferAt_fits {offset count : Nat} (hPos : 1 ≤ count)
    (hBank : offset / 65536 = (offset + 512 * count - 1) / 65536) :
    (bufferAt offset).Fits count := by
  refine ⟨?_, ?_⟩
  · simp only [bufferAt]
    omega
  · rw [bufferAt_address]
    omega

/-- It is in low memory: segment 0 stands for extended memory. -/
theorem bufferAt_es (offset : Nat) : (bufferAt offset).es ≠ 0 := by
  simp only [bufferAt]
  omega

/-- The low memory from SYSSEG:0 to 1 MB carries extents that leave no bank. -/
theorem carries_low {es : List (Extent Byte)} {offset : Nat} {t : Target}
    (hBuffer : t.buffer = bufferAt offset) (hBanked : Banked offset es)
    (hCounts : ∀ e ∈ es, 1 ≤ e.count ∧ e.count ≤ 128)
    (hRoom : offset + 512 * (cover es).length ≤ 983040) : Carries t es := by
  induction es generalizing offset t with
  | nil => trivial
  | cons e es ih =>
    obtain ⟨hBank, hRest⟩ := hBanked
    obtain ⟨hPos, hMax⟩ := hCounts e List.mem_cons_self
    have hLow : t.buffer.es ≠ 0 := by
      rw [hBuffer]
      exact bufferAt_es offset
    rw [cover_cons, List.length_append, Extent.length_blocks] at hRoom
    refine ⟨?_, ?_⟩
    · rw [Target.Takes, if_neg hLow, hBuffer]
      exact bufferAt_fits hPos hBank
    cases es with
    | nil => exact ⟨fun h => absurd rfl h, trivial⟩
    | cons e' es =>
      have hNextPos := (hCounts e' (by simp)).1
      rw [cover_cons, List.length_append, Extent.length_blocks] at hRoom
      have hAdvance := bufferAt_advance hMax hPos hBank (by omega)
      have hNext : (t.next e.count).buffer = bufferAt (offset + 512 * e.count) := by
        rw [Target.next, if_neg hLow, hBuffer, hAdvance]
      refine ⟨?_, ?_⟩
      · intro _
        rw [Target.address, Target.address, hNext, if_neg (bufferAt_es _), if_neg hLow, hBuffer,
          bufferAt_address, bufferAt_address, Nat.add_assoc]
      · refine ih hNext hRest (fun e he => hCounts e (List.mem_cons_of_mem _ he)) ?_
        rw [cover_cons, List.length_append, Extent.length_blocks]
        omega

/-- The memory above 1 MB, up to 16 MB, carries any extents. -/
theorem carries_high {es : List (Extent Byte)} {t : Target} (hHigh : t.buffer.es = 0)
    (hCounts : ∀ e ∈ es, 1 ≤ e.count ∧ e.count ≤ 128)
    (hRoom : t.destination + 512 * (cover es).length ≤ 16777216) : Carries t es := by
  induction es generalizing t with
  | nil => trivial
  | cons e es ih =>
    obtain ⟨hPos, hMax⟩ := hCounts e List.mem_cons_self
    rw [cover_cons, List.length_append, Extent.length_blocks] at hRoom
    refine ⟨by rw [Target.Takes, if_pos hHigh]; exact hMax, ?_⟩
    cases es with
    | nil => exact ⟨fun h => absurd rfl h, trivial⟩
    | cons e' es =>
      have hNextPos := (hCounts e' (by simp)).1
      rw [cover_cons, List.length_append, Extent.length_blocks] at hRoom
      have hMod : (t.destination + 512 * e.count) % 16777216 = t.destination + 512 * e.count :=
        Nat.mod_eq_of_lt (by omega)
      rw [Target.next, if_pos hHigh, hMod]
      refine ⟨?_, ?_⟩
      · intro _
        rw [Target.address, Target.address, if_pos hHigh, if_pos hHigh]
      · refine ih hHigh (fun e he => hCounts e (List.mem_cons_of_mem _ he)) ?_
        rw [cover_cons, List.length_append, Extent.length_blocks]
        simp only
        omega

/-- Room for that many sectors: from SYSSEG:0 to INITSEG:0, or from 1 MB to 16 MB. -/
def Target.Room (t : Target) (count : Nat) : Prop :=
  (t.buffer = systemBuffer ∧ count ≤ 1024) ∨
    (t.buffer.es = 0 ∧ 1048576 ≤ t.destination ∧ t.destination + 512 * count ≤ 16777216)

/-- Transfers that stay in their banks are carried where there is room. -/
theorem carries_of_room {es : List (Extent Byte)} {t : Target} (hBanked : Banked 0 es)
    (hCounts : ∀ e ∈ es, 1 ≤ e.count ∧ e.count ≤ 128) (hRoom : t.Room (cover es).length) :
    Carries t es := by
  rcases hRoom with ⟨hBuffer, hMax⟩ | ⟨hHigh, -, hMax⟩
  · have hStart : t.buffer = bufferAt 0 := hBuffer
    exact carries_low hStart hBanked hCounts (by omega)
  · exact carries_high hHigh hCounts hMax

-- ---------------------------------------------------------------------------
-- The two programs
-- ---------------------------------------------------------------------------

/-- The map installer wrote a section: the calls between `map_begin_section` and
`map_end_section` went through, the map file is on its disk, and the loader
can reach the sectors of the files. No offset is too large for an `int`. -/
structure Installed (bios : Bios) (opts : Options) (disk : Disk) (calls : List SectionCall)
    (dontCompact : Nat) (done : SectionDone) : Prop where
  built : ∃ file file' map, Created opts file ∧ buildSection opts file calls = .ok (file', map) ∧
    mapEndSection opts file' dontCompact map = .ok done
  reachable : ∀ call ∈ calls, call.Reachable bios opts
  synced : Synced bios opts disk done.file
  inRange : ∀ call ∈ calls, call.InRange
  sized : 512 * done.file.sectors.length < 2147483648

/-- What a transfer leaves in memory: sectors of bytes with their addresses. -/
def Transfer.bytes (disk : Disk) (transfer : Transfer) : List (Nat × List Byte) :=
  transfer.map (Prod.map id disk)

/-- The contents a section was written for. -/
def contentsOf (disk : Disk) (calls : List SectionCall) : List (List Byte) :=
  calls.flatMap (SectionCall.contents disk)

/-- The loader at a section that was installed: the single addresses first, and
then addresses that stand for the rest, whatever high byte is in effect. -/
theorem Installed.opens {calls : List SectionCall} {dontCompact : Nat} {done : SectionDone}
    (h : Installed bios opts disk calls dontCompact done) {hinib : Byte}
    (hOk : HinibOk opts hinib) (before : List Byte) :
    ∃ (s : Loader) (singles rest : List SectorAddr) (xs : List DiskSector),
      openSection bios disk hinib done.addr before = some s ∧ HinibOk opts s.hinib ∧
      At bios opts disk s (singles ++ rest) ∧ xs.map disk = contentsOf disk calls ∧
      List.Forall₂ (Stands bios opts) (xs.take (dontCompact + 1)) singles ∧
      ∀ hinib, HinibOk opts hinib → ∃ es, ReadsAll bios opts hinib rest es ∧
        cover es = xs.drop (dontCompact + 1) ∧ Banked 0 es := by
  obtain ⟨file, file', map, hCreated, hBuild, hEnd⟩ := h.built
  obtain ⟨pages, hFile, -⟩ := mapEndSection_cases hEnd
  have hSynced : Synced bios opts disk file' := by
    have hDone := h.synced
    rw [hFile] at hDone
    exact hDone.of_write
  obtain ⟨xs, hStands, hContents⟩ := buildSection_standFor hBuild hCreated h.reachable hSynced
  obtain ⟨rest, hAddrs, hReads⟩ := sectionAddrs_reads hStands dontCompact
  have hSingles := List.forall₂_take (dontCompact + 1) hStands
  have hEof : ∀ a ∈ sectionAddrs opts dontCompact map, ¬ IsEof a := by
    intro a ha
    rw [hAddrs, List.mem_append] at ha
    rcases ha with ha | ha
    · exact (readsAll_of_stands hSingles hinibOk_zero).not_eof a ha
    · obtain ⟨es, hRest, -⟩ := hReads 0 hinibOk_zero
      exact hRest.not_eof a ha
  obtain ⟨s, hOpen, hOk', hAt⟩ := mapEndSection_at hEnd h.synced hEof hOk before
  rw [hAddrs] at hAt
  exact ⟨s, _, rest, xs, hOpen, hOk', hAt, hContents, hSingles, hReads⟩

/-- The transfers of a section that was installed: the single loads, and `lfile` for the
rest. -/
theorem Installed.transfers {calls : List SectionCall} {dontCompact : Nat} {done : SectionDone}
    (h : Installed bios opts disk calls dontCompact done) {hinib : Byte}
    (hOk : HinibOk opts hinib) (before : List Byte) {places : List (Byte × Buffer)}
    (hPlaces : ∀ p ∈ places, Place opts p) (hLength : places.length = dontCompact + 1)
    (hEnough : dontCompact + 1 ≤ (contentsOf disk calls).length) {t : Target}
    (hRoom : t.Room ((contentsOf disk calls).length - (dontCompact + 1))) {loads : Nat}
    (hLoads : (contentsOf disk calls).length - (dontCompact + 1) < loads) :
    ∃ (s₀ s₁ s₂ : Loader) (t' : Target) (xs : List DiskSector),
      xs.map disk = contentsOf disk calls ∧
      openSection bios disk hinib done.addr before = some s₀ ∧
      load1s bios disk s₀ places =
        some ((places.map (·.2.address)).zip (xs.take (dontCompact + 1)), s₁) ∧
      lfile bios disk loads s₁ t =
        some (layOut 512 t.address (xs.drop (dontCompact + 1)), s₂, t') := by
  obtain ⟨s₀, singles, rest, xs, hOpen, hOk₀, hAt, hContents, hSingles, hRest⟩ :=
    h.opens hOk before
  have hCount : (contentsOf disk calls).length = xs.length := by
    rw [← hContents, List.length_map]
  have hTake : places.length = (xs.take (dontCompact + 1)).length := by
    rw [List.length_take]
    omega
  -- the sectors that were not compacted are loaded one at a time
  obtain ⟨s₁, hFirst, hAt₁, hOk₁⟩ := load1s_reads hSingles hTake hPlaces hAt hOk₀
  -- the rest can be read with the high byte that the single loads have left
  obtain ⟨es, hReads, hCover, hBanked⟩ := hRest s₁.hinib hOk₁
  have hCoverLength : (cover es).length =
      (contentsOf disk calls).length - (dontCompact + 1) := by
    rw [hCover, List.length_drop, hCount]
  have hCarries : Carries t es :=
    carries_of_room hBanked hReads.counts (by rw [hCoverLength]; exact hRoom)
  have hFewer := hReads.length_le
  have hMany : rest.length < loads := by omega
  obtain ⟨s₂, t', hFile⟩ := lfile_reads hReads hAt₁ rfl hOk₁ hCarries hMany
  rw [hCover] at hFile
  exact ⟨s₀, s₁, s₂, t', xs, hContents, hOpen, hFirst, hFile⟩

/-- A file on the first hard disk. -/
def someFile (fibmap : Nat → Option Nat) : Geometry where
  device := 0x80
  heads := someDrive.heads
  cylinders := none
  sectors := someDrive.sectors
  start := 63
  spb := 2
  file := true
  fibmap := fibmap
  heads_pos := someDrive.heads_pos
  heads_le := someDrive.heads_le
  sectors_pos := someDrive.sectors_pos
  sectors_le := someDrive.sectors_le
  spb_pos := by decide

/-- `lba32` and `compact`. -/
def someOptions : Options := { lba32 := true, compact := true }

/-- A kernel whose second block is a hole; it lies beyond what 24 bits number. -/
def someKernel : Geometry := someFile fun block => some (if block = 1 then 0 else 9000000 + block)

/-- Each sector holds its number. -/
def someDisk : Disk := fun x => [BitVec.ofNat 8 x.2]

/-- A BIOS with one geometry for all drives. -/
abbrev someBios : Bios := Bios.answering fun _ => someDrive

/-- LILO and this BIOS agree on the geometry. -/
theorem some_known (fibmap : Nat → Option Nat) :
    Known someBios someOptions (someFile fibmap) :=
  ⟨by show Coded 0x80; decide, fun _ => rfl, fun _ => rfl⟩

/-- It reaches every sector that the example uses. -/
theorem some_reach {n : Nat} (h : n < 100000000) : Reach someBios someOptions (0x80, n) := by
  have hForm : Form.chosen someOptions 0x80 = .noCount := by decide
  have hExtended : (someBios.drive 0x80).extended = true := rfl
  unfold Reach
  simp only [hForm]
  rw [if_pos hExtended]
  exact ⟨h, by omega⟩

/-- So it does those of the kernel. -/
theorem some_kernel_reachable :
    (SectionCall.mapAdd someKernel 0 6).Reachable someBios someOptions := by
  refine ⟨some_known _, ?_⟩
  intro i n _ hi hn
  have hCases : i = 0 ∨ i = 1 ∨ i = 2 ∨ i = 3 ∨ i = 4 ∨ i = 5 := by omega
  rcases hCases with rfl | rfl | rfl | rfl | rfl | rfl <;> cases hn <;>
    exact some_reach (by decide)

end MultiOS.Lilo
