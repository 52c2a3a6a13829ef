import MultiOS.Lilo.Load

/-!
# LILO — the size of a kernel

`map_end_section` returns the sum of the `num_sect` fields, and `check_size` of
`boot.c` takes that sum for the number of sectors. For an address marked
`LBA32_NOCOUNT` the field is no count but the high byte of the address, so
that the sum is off by these (`sum_numSect`), and so is the check.

The check is about the addresses alone: what `geo_comp_addr` registers stands for
one sector (`Registered`), and `map_compact` keeps the number of sectors
(`sectionAddrs_sectors`). Where the check is exact, a kernel that passes has room
from SYSSEG:0 to INITSEG:0 (`kernel_size_check`).
-/

namespace MultiOS.Lilo

open Lib

variable {opts : Options}

-- ---------------------------------------------------------------------------
-- The sum of the counts
-- ---------------------------------------------------------------------------

/-- The number of addresses without a count. -/
def countless (as : List SectorAddr) : Nat := as.countP (·.has lba32NoCount)

/-- The sum of the high bytes that stand in the place of a count. -/
def highBytes (as : List SectorAddr) : Nat :=
  ((as.filter (·.has lba32NoCount)).map (·.numSect.toNat)).sum

/-- The number of sectors that an address stands for: one, without a count. -/
def SectorAddr.sectors (a : SectorAddr) : Nat :=
  if a.has lba32NoCount then 1 else a.numSect.toNat

/-- The sectors of a list of addresses. -/
def sectorsIn (as : List SectorAddr) : Nat := (as.map SectorAddr.sectors).sum

/-- **The sum of the counts.** -/
theorem sum_numSect (as : List SectorAddr) :
    (as.map (·.numSect.toNat)).sum + countless as = sectorsIn as + highBytes as := by
  induction as with
  | nil => rfl
  | cons a as ih =>
    unfold countless highBytes sectorsIn at ih ⊢
    rw [List.map_cons, List.sum_cons, List.countP_cons, List.filter_cons, List.map_cons,
      List.sum_cons, SectorAddr.sectors]
    by_cases hCount : a.has lba32NoCount = true
    · simp only [hCount, if_true, List.map_cons, List.sum_cons]
      omega
    · simp only [hCount, if_false, Bool.false_eq_true]
      omega

/-- Where every address has a count, nothing is off. -/
theorem counted_all {as : List SectorAddr} (h : ∀ a ∈ as, a.has lba32NoCount = false) :
    countless as = 0 ∧ highBytes as = 0 := by
  have hEmpty : as.filter (·.has lba32NoCount) = [] := by
    rw [List.filter_eq_nil_iff]
    intro a ha
    rw [h a ha]
    exact Bool.false_ne_true
  refine ⟨?_, ?_⟩
  · rw [countless, List.countP_eq_length_filter, hEmpty]
    rfl
  · rw [highBytes, hEmpty]
    rfl

-- ---------------------------------------------------------------------------
-- What is registered
-- ---------------------------------------------------------------------------

/-- An address as `geo_comp_addr` computes it: of the form that it chooses, with a count of
one where there is a count. -/
def Registered (opts : Options) (a : SectorAddr) : Prop :=
  ∃ device, Marked a device (Form.chosen opts device) ∧
    (Form.chosen opts device ≠ .noCount → a.numSect = 1)

/-- An address that was just registered is of one sector. -/
theorem Registered.sectors_eq {a : SectorAddr} (h : Registered opts a) : a.sectors = 1 := by
  obtain ⟨device, hMarked, hCount⟩ := h
  rw [SectorAddr.sectors, hMarked.has_noCount]
  by_cases hForm : Form.chosen opts device = .noCount
  · rw [if_pos (decide_eq_true hForm)]
  · rw [if_neg (by simpa using hForm), hCount hForm]
    rfl

/-- The mark for a missing count stands beside the one for 32 bits. -/
theorem Registered.has_lba32 {a : SectorAddr} (h : Registered opts a)
    (hCount : a.has lba32NoCount = true) : a.has lba32Flag = true := by
  obtain ⟨device, hMarked, -⟩ := h
  rw [hMarked.has_noCount, decide_eq_true_eq] at hCount
  rw [hMarked.has_lba32, hCount]
  rfl

/-- Without `lba32`, every address has a count. -/
theorem Registered.has_noCount {a : SectorAddr} (h : Registered opts a)
    (hLba : opts.lba32 = false) : a.has lba32NoCount = false := by
  obtain ⟨device, hMarked, -⟩ := h
  rw [hMarked.has_noCount, decide_eq_false_iff_not]
  intro hForm
  obtain ⟨hNumber, hLinear⟩ := Form.chosen_noCount hForm
  rw [byNumber, hLinear, hLba, Bool.or_false, Bool.and_false] at hNumber
  cases hNumber

/-- What `geo_comp_addr` computes, for a device code that leaves the flag bits free. -/
theorem encode_registered {geo : Geometry} {n : Nat} {a : SectorAddr}
    (h : geo.encode opts n = .ok a) (hCoded : Coded geo.device) : Registered opts a := by
  refine ⟨geo.device, ?_⟩
  unfold Geometry.encode at h
  cases hNumber : byNumber opts geo.device with
  | false =>
    rw [if_neg (by rw [hNumber]; decide)] at h
    -- by geometry, or an error
    have hForm : Form.chosen opts geo.device = .chs := by
      rw [Form.chosen, hNumber]
      rfl
    rw [hForm]
    dsimp only at h
    split at h
    · cases h
    · split at h
      · cases h
      · cases h
        exact ⟨⟨hCoded, BitVec.or_zero.symm⟩, fun _ => rfl⟩
  | true =>
    rw [if_pos hNumber] at h
    cases hLinear : opts.linear with
    | false =>
      -- with LBA32 the high byte stands in the place of the count
      have hForm : Form.chosen opts geo.device = .noCount := by
        rw [Form.chosen, hNumber, hLinear]
        rfl
      rw [hLinear] at h
      rw [hForm]
      cases h
      exact ⟨⟨hCoded, rfl⟩, fun hNot => absurd rfl hNot⟩
    | true =>
      have hForm : Form.chosen opts geo.device = .linear := by
        rw [Form.chosen, hNumber, hLinear]
        rfl
      rw [hLinear, Bool.true_and] at h
      rw [hForm]
      split at h
      · cases h
      · cases h
        exact ⟨⟨hCoded, rfl⟩, fun _ => rfl⟩

/-- `geo_comp_addr` registers one sector. -/
theorem mapAddr_registered {geo : Geometry} {offset : Nat} {place : String} {a : SectorAddr}
    (h : mapAddr opts geo offset place = .ok a) (hCoded : Coded geo.device) :
    Registered opts a := by
  obtain ⟨n, -, hEncode⟩ := mapAddr_ok h
  exact encode_registered hEncode hCoded

/-- `map_add` registers one sector for each block or hole. -/
theorem mapAdd_registered {geo : Geometry} {zeroAddr : SectorAddr} {first num : Nat}
    {map : List SectorAddr} (hZero : Registered opts zeroAddr) (hCoded : Coded geo.device)
    (h : mapAdd opts zeroAddr geo first num = .ok map) : ∀ a ∈ map, Registered opts a := by
  induction num generalizing first map with
  | zero =>
    cases h
    exact nofun
  | succ num ih =>
    rw [mapAdd] at h
    obtain ⟨addr, hAddr, h⟩ := bind_ok h
    obtain ⟨rest, hRest, h⟩ := bind_ok h
    cases h
    refine List.forall_mem_cons.mpr ⟨?_, ih hRest⟩
    cases addr with
    | none => exact hZero
    | some a =>
      obtain ⟨n, -, hEncode⟩ := geoCompAddr_some hAddr
      exact encode_registered hEncode hCoded

/-- The device code of a file that is mapped leaves the flag bits free. -/
def SectionCall.Coded : SectionCall → Prop
  | .mapAdd geo _ _ => Lilo.Coded geo.device
  | _ => True

/-- A call registers an address for each sector of its contents. -/
theorem SectionCall.run_registered {call : SectionCall} {file file' : MapFile}
    {map : List SectorAddr} (h : call.run opts file = .ok (file', map))
    (hFile : Lilo.Coded file.geo.device) (hZero : Registered opts file.zeroAddr)
    (hCoded : call.Coded) (disk : Disk) :
    (∀ a ∈ map, Registered opts a) ∧ map.length = (call.contents disk).length := by
  cases call with
  | mapAddSector sector =>
    obtain ⟨a, hAddr, h⟩ := bind_ok h
    cases h
    exact ⟨List.forall_mem_singleton.mpr (mapAddr_registered hAddr hFile), rfl⟩
  | mapAdd geo first num =>
    obtain ⟨map, hMap, h⟩ := bind_ok h
    cases h
    refine ⟨mapAdd_registered hZero hCoded hMap, ?_⟩
    rw [mapAdd_length hMap, SectionCall.contents, List.length_map, List.length_range']
  | mapAddZero =>
    cases h
    exact ⟨List.forall_mem_singleton.mpr hZero, rfl⟩

/-- A section registers as many sectors as it has contents. -/
theorem buildSection_registered {calls : List SectionCall} {file file' : MapFile}
    {map : List SectorAddr} (h : buildSection opts file calls = .ok (file', map))
    (hFile : Coded file.geo.device) (hZero : Registered opts file.zeroAddr)
    (hCoded : ∀ call ∈ calls, call.Coded) (disk : Disk) :
    (∀ a ∈ map, Registered opts a) ∧ map.length = (contentsOf disk calls).length := by
  induction calls generalizing file map with
  | nil =>
    cases h
    exact ⟨nofun, rfl⟩
  | cons call calls ih =>
    rw [buildSection] at h
    obtain ⟨⟨file₁, map₁⟩, hRun, h⟩ := bind_ok h
    obtain ⟨⟨file₂, map₂⟩, hBuild, h⟩ := bind_ok h
    cases h
    obtain ⟨hCall, hCalls⟩ := List.forall_mem_cons.mp hCoded
    obtain ⟨added, rfl⟩ := SectionCall.run_write hRun
    obtain ⟨hHead, hHeadLength⟩ := SectionCall.run_registered hRun hFile hZero hCall disk
    obtain ⟨hTail, hTailLength⟩ := ih hBuild hFile hZero hCalls
    refine ⟨fun a ha => (List.mem_append.mp ha).elim (hHead a) (hTail a), ?_⟩
    rw [List.length_append, hHeadLength, hTailLength, contentsOf, contentsOf, List.flatMap_cons,
      List.length_append]

-- ---------------------------------------------------------------------------
-- Compaction
-- ---------------------------------------------------------------------------

/-- An address with a count of 1 has a count. -/
theorem SectorAddr.counted_has (a : SectorAddr) : a.counted.has lba32NoCount = false := by
  have hAll : ∀ device : Byte, (device &&& ~~~lba32NoCount &&& lba32NoCount != 0) = false := by
    decide +kernel
  exact hAll a.device

/-- And so it is of one sector. -/
theorem SectorAddr.counted_sectors (a : SectorAddr) : a.counted.sectors = 1 := by
  rw [SectorAddr.sectors, a.counted_has]
  rfl

/-- An address that an address can be joined to has a count, or `map_compact` finds that it
has none. -/
def Joinable (a : SectorAddr) : Prop := a.has lba32NoCount = true → a.has lba32Flag = true

/-- The first test leaves an address of one sector, and holds of addresses with a count. -/
theorem adjoin_sectors (hinib : Nat) {walk next : SectorAddr} (hWalk : Joinable walk)
    (hNext : Joinable next) (hOne : next.sectors = 1) :
    Joinable (adjoin hinib walk next).2.2 ∧ (adjoin hinib walk next).2.2.sectors = 1 ∧
      ((adjoin hinib walk next).1 = true → walk.has lba32NoCount = false) := by
  have hCounted : Joinable next.counted := fun h => by
    rw [next.counted_has] at h
    cases h
  have hCountedOne := next.counted_sectors
  unfold adjoin
  dsimp only
  split
  · split
    · next hCount =>
      have hCount : walk.has lba32NoCount = false := by simpa using hCount
      split
      · exact ⟨hCounted, hCountedOne, fun _ => hCount⟩
      · exact ⟨hNext, hOne, fun _ => hCount⟩
    · split
      · exact ⟨hCounted, hCountedOne, nofun⟩
      · exact ⟨hNext, hOne, nofun⟩
  · next hTest =>
    refine ⟨hNext, hOne, ?_⟩
    intro hAdj
    rw [Bool.and_eq_true, not_and] at hTest
    by_contra hCount
    exact hTest hAdj (hWalk (by simpa using hCount))

/-- **Compaction keeps the number of sectors.** -/
theorem compactLoop_sectors {maxcount : Nat} (hMax : maxcount ≤ 128) {rest : List SectorAddr}
    (hRest : ∀ a ∈ rest, Joinable a ∧ a.sectors = 1) (hinib offset noffset : Nat)
    {walk : SectorAddr} (hWalk : Joinable walk) :
    sectorsIn (compactLoop maxcount hinib offset noffset walk rest) =
      walk.sectors + rest.length := by
  induction rest generalizing hinib offset noffset walk with
  | nil => rfl
  | cons next rest ih =>
    obtain ⟨⟨hNext, hOne⟩, hRest⟩ := List.forall_mem_cons.mp hRest
    obtain ⟨hNext', hOne', hCount⟩ := adjoin_sectors hinib hWalk hNext hOne
    unfold compactLoop
    generalize adjoin hinib walk next = r at hNext' hOne' hCount ⊢
    obtain ⟨adj, hinib', next'⟩ := r
    dsimp only at hNext' hOne' hCount ⊢
    rw [List.length_cons]
    split
    · -- `next` is joined to `walk`, which has a count below the largest
      next hTests =>
      simp only [Bool.and_eq_true, decide_eq_true_eq] at hTests
      obtain ⟨⟨⟨hAdj, -⟩, -⟩, hLess⟩ := hTests
      have hCounted := hCount hAdj
      have hSucc : (walk.numSect + 1).toNat = walk.numSect.toNat + 1 := by
        rw [BitVec.toNat_add]
        show (walk.numSect.toNat + 1) % 256 = walk.numSect.toNat + 1
        omega
      have hJoined : SectorAddr.sectors { walk with numSect := walk.numSect + 1 } =
          walk.sectors + 1 := by
        have hSame : SectorAddr.has { walk with numSect := walk.numSect + 1 } lba32NoCount =
          false := hCounted
        rw [SectorAddr.sectors, SectorAddr.sectors, hSame, hCounted]
        exact hSucc
      have hWalk' : Joinable { walk with numSect := walk.numSect + 1 } := hWalk
      have hLoop := ih hRest hinib' offset (noffset + 512) hWalk'
      rw [hLoop, hJoined]
      omega
    · -- `walk` stays, and the loop goes on with `next`
      have hLoop := ih hRest hinib' (noffset + 512) (noffset + 512) hNext'
      rw [hOne'] at hLoop
      show walk.sectors + sectorsIn _ = _
      rw [hLoop]
      omega

/-- What holds of all addresses, with a count or another count as well, holds after
compaction. -/
theorem compactLoop_all {P : SectorAddr → Prop} (hCounted : ∀ a : SectorAddr, P a.counted)
    (hNumSect : ∀ (a : SectorAddr) (n : Byte), P a → P { a with numSect := n }) (maxcount : Nat)
    {rest : List SectorAddr} (hRest : ∀ a ∈ rest, P a) (hinib offset noffset : Nat)
    {walk : SectorAddr} (hWalk : P walk) :
    ∀ a ∈ compactLoop maxcount hinib offset noffset walk rest, P a := by
  induction rest generalizing hinib offset noffset walk with
  | nil => exact List.forall_mem_cons.mpr ⟨hWalk, nofun⟩
  | cons next rest ih =>
    obtain ⟨hNext, hRest⟩ := List.forall_mem_cons.mp hRest
    have hNext' : P (adjoin hinib walk next).2.2 := by
      unfold adjoin
      dsimp only
      split
      · split
        · split
          · exact hCounted next
          · exact hNext
        · split
          · exact hCounted next
          · exact hNext
      · exact hNext
    unfold compactLoop
    generalize adjoin hinib walk next = r at hNext' ⊢
    obtain ⟨adj, hinib', next'⟩ := r
    dsimp only
    split
    · exact ih hRest _ _ _ (hNumSect walk _ hWalk)
    · exact List.forall_mem_cons.mpr ⟨hWalk, ih hRest _ _ _ hNext'⟩

/-- Registered addresses are as many sectors as they are addresses. -/
theorem sectorsIn_registered {map : List SectorAddr} (h : ∀ a ∈ map, Registered opts a) :
    sectorsIn map = map.length := by
  induction map with
  | nil => rfl
  | cons a map ih =>
    obtain ⟨ha, h⟩ := List.forall_mem_cons.mp h
    show a.sectors + sectorsIn map = _
    rw [ha.sectors_eq, ih h, List.length_cons, Nat.add_comm]

/-- The addresses that are written stand for as many sectors as were registered. -/
theorem sectionAddrs_sectors (dontCompact : Nat) {map : List SectorAddr}
    (h : ∀ a ∈ map, Registered opts a) :
    sectorsIn (sectionAddrs opts dontCompact map) = map.length := by
  unfold sectionAddrs
  split
  · unfold mapCompact
    cases hMap : map.drop (dontCompact + 1) with
    | nil => exact sectorsIn_registered h
    | cons walk rest =>
      have hDrop : ∀ a ∈ walk :: rest, Registered opts a :=
        fun a ha => h a (List.mem_of_mem_drop (hMap ▸ ha))
      obtain ⟨hWalk, hRest⟩ := List.forall_mem_cons.mp hDrop
      have hMax : opts.maxcount ≤ 128 := maxcount_le
      have hLoop := compactLoop_sectors hMax
        (fun a ha => ⟨(hRest a ha).has_lba32, (hRest a ha).sectors_eq⟩) 257 0 0 hWalk.has_lba32
      have hTake : sectorsIn (map.take (dontCompact + 1)) = (map.take (dontCompact + 1)).length :=
        sectorsIn_registered fun a ha => h a (List.mem_of_mem_take ha)
      have hLength := congrArg List.length (List.take_append_drop (dontCompact + 1) map)
      rw [hMap, List.length_append, List.length_cons] at hLength
      unfold sectorsIn at hLoop hTake ⊢
      rw [List.map_append, List.sum_append, hLoop, hTake, hWalk.sectors_eq]
      omega
  · exact sectorsIn_registered h

/-- Without `lba32`, every address that is written has a count. -/
theorem sectionAddrs_counted (dontCompact : Nat) {map : List SectorAddr}
    (h : ∀ a ∈ map, Registered opts a) (hLba : opts.lba32 = false) :
    ∀ a ∈ sectionAddrs opts dontCompact map, a.has lba32NoCount = false := by
  have hAll : ∀ a ∈ map, a.has lba32NoCount = false := fun a ha => (h a ha).has_noCount hLba
  unfold sectionAddrs
  split
  · unfold mapCompact
    cases hMap : map.drop (dontCompact + 1) with
    | nil => exact hAll
    | cons walk rest =>
      have hDrop : ∀ a ∈ walk :: rest, a.has lba32NoCount = false :=
        fun a ha => hAll a (List.mem_of_mem_drop (hMap ▸ ha))
      obtain ⟨hWalk, hRest⟩ := List.forall_mem_cons.mp hDrop
      intro a ha
      rcases List.mem_append.mp ha with ha | ha
      · exact hAll a (List.mem_of_mem_take ha)
      · exact compactLoop_all (P := fun a => a.has lba32NoCount = false)
          SectorAddr.counted_has (fun _ _ h => h) _ hRest _ _ _ hWalk a ha
  · exact hAll

-- ---------------------------------------------------------------------------
-- The check
-- ---------------------------------------------------------------------------

/-- Wherever a section is installed, the loader puts the sectors after the single ones from
SYSSEG:0 on, and no byte at or above INITSEG:0. -/
def LoadsLow (opts : Options) (calls : List SectionCall) (dontCompact : Nat)
    (done : SectionDone) : Prop :=
  ∀ (bios : Bios) (disk : Disk), Installed bios opts disk calls dontCompact done →
    dontCompact + 1 ≤ (contentsOf disk calls).length →
    ∀ hinib, HinibOk opts hinib → ∀ (before : List Byte) (places : List (Byte × Buffer)),
      (∀ p ∈ places, Place opts p) → places.length = dontCompact + 1 →
      ∀ loads, (contentsOf disk calls).length - (dontCompact + 1) < loads →
        ∃ (s₀ s₁ s₂ : Loader) (t' : Target) (first rest : Transfer),
          openSection bios disk hinib done.addr before = some s₀ ∧
          load1s bios disk s₀ places = some (first, s₁) ∧
          lfile bios disk loads s₁ { buffer := systemBuffer } = some (rest, s₂, t') ∧
          rest.bytes disk = layOut 512 systemBuffer.address
            ((contentsOf disk calls).drop (dontCompact + 1)) ∧
          ∀ p ∈ rest, p.1 + 512 ≤ 0x90000

/-- As many sectors as there is room for between SYSSEG:0 and INITSEG:0. -/
theorem loadsLow_of_length {calls : List SectionCall} {dontCompact : Nat} {done : SectionDone}
    (h : ∀ disk, (contentsOf disk calls).length ≤ dontCompact + 1 + 1024) :
    LoadsLow opts calls dontCompact done := by
  intro bios disk hInstalled hEnough hinib hOk before places hPlaces hLength loads hLoads
  have hMax := h disk
  have hRoom : Target.Room { buffer := systemBuffer }
      ((contentsOf disk calls).length - (dontCompact + 1)) := Or.inl ⟨rfl, by omega⟩
  obtain ⟨s₀, s₁, s₂, t', xs, hContents, hOpen, hFirst, hFile⟩ :=
    hInstalled.transfers hOk before hPlaces hLength hEnough hRoom hLoads
  refine ⟨s₀, s₁, s₂, t', _, _, hOpen, hFirst, hFile, ?_, ?_⟩
  · rw [Transfer.bytes, layOut_map, ← hContents, List.map_drop]
    rfl
  · intro p hp
    have hBounds := (bounds_of_mem_layOut hp).2
    have hCount : xs.length = (contentsOf disk calls).length := by
      rw [← hContents, List.length_map]
    have hStart : Target.address { buffer := systemBuffer } = 65536 := rfl
    rw [hStart, List.length_drop] at hBounds
    omega

/-- **The size check of a kernel.** `check_size` lets a kernel of `n` sectors pass
exactly if, with the two special sectors, less the addresses without a count,
plus the high bytes, it is within the limit. Without `lba32` these two are
zero, and a kernel that passes is loaded low whole, below INITSEG:0. -/
theorem kernel_size_check {fallback options : List Byte} {geo : Geometry} {size setup : Nat}
    {file file' : MapFile} {map : List SectorAddr} {done : SectionDone}
    (hCreated : Created opts file)
    (hBuild : buildSection opts file (kernelCalls fallback options geo size) = .ok (file', map))
    (hEnd : mapEndSection opts file' (setup + 2) map = .ok done)
    (hFile : Coded file.geo.device) (hGeo : Coded geo.device) :
    (kernelTooBig setup done.sectors = false ↔
      (size + 511) / 512 + 2 + highBytes (sectionAddrs opts (setup + 2) map) ≤
        setup + 1024 + countless (sectionAddrs opts (setup + 2) map)) ∧
    (opts.lba32 = false →
      countless (sectionAddrs opts (setup + 2) map) = 0 ∧
        highBytes (sectionAddrs opts (setup + 2) map) = 0 ∧
        (kernelTooBig setup done.sectors = false →
          LoadsLow opts (kernelCalls fallback options geo size) (setup + 2) done)) := by
  obtain ⟨-, -, -, -, -, hSectors⟩ := mapEndSection_cases hEnd
  have hZero := mapAddr_registered hCreated.zeroAddr_eq hFile
  have hCoded : ∀ call ∈ kernelCalls fallback options geo size, call.Coded :=
    List.forall_mem_cons.mpr ⟨trivial, List.forall_mem_cons.mpr ⟨trivial,
      List.forall_mem_singleton.mpr hGeo⟩⟩
  have hLength : ∀ disk, (contentsOf disk (kernelCalls fallback options geo size)).length =
      (size + 511) / 512 + 2 := by
    intro disk
    simp [contentsOf, kernelCalls, SectionCall.contents]
  obtain ⟨hRegistered, hMap⟩ := buildSection_registered hBuild hFile hZero hCoded fun _ => []
  rw [hLength] at hMap
  have hSum := sum_numSect (sectionAddrs opts (setup + 2) map)
  rw [sectionAddrs_sectors _ hRegistered, hMap] at hSum
  have hCheck : kernelTooBig setup done.sectors = false ↔
      (size + 511) / 512 + 2 + highBytes (sectionAddrs opts (setup + 2) map) ≤
        setup + 1024 + countless (sectionAddrs opts (setup + 2) map) := by
    unfold kernelTooBig
    rw [decide_eq_false_iff_not, hSectors]
    omega
  refine ⟨hCheck, ?_⟩
  -- without lba32 every address has a count, and none is a high byte
  intro hLba
  obtain ⟨hCountless, hHigh⟩ := counted_all (sectionAddrs_counted (setup + 2) hRegistered hLba)
  refine ⟨hCountless, hHigh, ?_⟩
  intro hPass
  refine loadsLow_of_length ?_
  intro disk
  have hFits := hCheck.mp hPass
  rw [hLength]
  omega

/-- Linear addresses. -/
def linearOptions : Options := { linear := true, compact := true }

/-- A kernel of six sectors with one setup sector, at the start of a disk. -/
def linearSection : Except Die SectionDone := do
  let file ← mapCreate linearOptions (someFile fun block => some (block + 100)) zeroSector
  let (file, map) ← buildSection linearOptions file
    (kernelCalls [1] [2] (someFile fun block => some (block + 200)) 3000)
  mapEndSection linearOptions file (1 + 2) map

/-- A kernel of six sectors with linear addresses passes, and loads low. -/
theorem kernel_size_check_some : ∃ done, linearSection = .ok done ∧
    kernelTooBig 1 done.sectors = false ∧
    LoadsLow linearOptions (kernelCalls [1] [2] (someFile fun block => some (block + 200)) 3000)
      (1 + 2) done := by
  have hSectors : linearSection.map (·.sectors) = .ok 8 := by rfl
  cases hDone : linearSection with
  | error e =>
    rw [hDone] at hSectors
    cases hSectors
  | ok done =>
    rw [hDone] at hSectors
    have hCount : done.sectors = 8 := Except.ok.inj hSectors
    have hPass : kernelTooBig 1 done.sectors = false := by
      rw [hCount]
      rfl
    obtain ⟨file, hCreate, h⟩ := bind_ok hDone
    obtain ⟨⟨file', map⟩, hBuild, hEnd⟩ := bind_ok h
    have hFile : Coded file.geo.device := by
      obtain ⟨zero, -, hFile⟩ := bind_ok hCreate
      cases hFile
      show Coded 0x80
      decide
    have hGeo : Coded (someFile fun block => some (block + 200)).device := by
      show Coded 0x80
      decide
    obtain ⟨-, hExact⟩ :=
      kernel_size_check (mapCreate_created hCreate) hBuild hEnd hFile hGeo
    obtain ⟨-, -, hLow⟩ := hExact rfl
    exact ⟨done, rfl, hPass, hLow hPass⟩

end MultiOS.Lilo
