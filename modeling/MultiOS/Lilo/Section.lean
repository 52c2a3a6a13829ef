import MultiOS.Lilo.Pages

/-!
# LILO — a section of the map

What the map installer writes between `map_begin_section` and
`map_end_section`, against the contents it is for (`SectionCall.contents`).
Every address it registers stands for a sector that holds the contents
(`buildSection_stands`), and the pages that `map_end_section` writes lead the
loader through the addresses (`mapEndSection_at`).

`Synced` is what the map installer relies on: the file system keeps what was
written to the map file on the sectors that FIBMAP names, the BIOS knows that
disk, and the loader can reach these sectors.
-/

namespace MultiOS.Lilo

open Lib

variable (bios : Bios) (opts : Options) (disk : Disk)

-- ---------------------------------------------------------------------------
-- Contents
-- ---------------------------------------------------------------------------

/-- The contents of sector `i` of a file: zeros in a hole. -/
def fileSector (geo : Geometry) (i : Nat) : List Byte :=
  match geo.sectorAt (512 * i) with
  | .ok (some n) => disk (geo.device, n)
  | _ => zeroSector

/-- What a call is to have loaded. -/
def SectionCall.contents : SectionCall → List (List Byte)
  | .mapAddSector sector => [sector]
  | .mapAdd geo first num => (List.range' first num).map (fileSector disk geo)
  | .mapAddZero => [zeroSector]

/-- The BIOS knows the disk of a file, and the loader can reach its sectors. -/
def SectionCall.Reachable : SectionCall → Prop
  | .mapAdd geo first num => Known bios opts geo ∧ ∀ i n, first ≤ i → i < first + num →
      geo.sectorAt (512 * i) = .ok (some n) → Reach bios opts (geo.device, n)
  | _ => True

/-- A map file as `map_create` begins it and the other functions go on: `zero_addr`
is the address of its sector 3, which is zero. -/
structure Created (file : MapFile) : Prop where
  zeroAddr_eq : mapAddr opts file.geo (512 * 3) "zero sector" = .ok file.zeroAddr
  zero_eq : file.sectors[3]? = some zeroSector

/-- The map file is on its disk. -/
structure Synced (file : MapFile) : Prop where
  known : Known bios opts file.geo
  stored : ∀ i page n, file.sectors[i]? = some page →
    file.geo.sectorAt (512 * i) = .ok (some n) → disk (file.geo.device, n) = page
  reach : ∀ i page n, file.sectors[i]? = some page →
    file.geo.sectorAt (512 * i) = .ok (some n) → Reach bios opts (file.geo.device, n)

variable {bios opts disk}

/-- `map_create` begins the map file. -/
theorem mapCreate_created {geo : Geometry} {magic : List Byte} {file : MapFile}
    (h : mapCreate opts geo magic = .ok file) : Created opts file := by
  obtain ⟨a, hAddr, h⟩ := bind_ok h
  cases h
  exact ⟨hAddr, rfl⟩

/-- Writing to the map file leaves the zero sector where it is. -/
theorem Created.write {file : MapFile} (h : Created opts file) (sectors : List (List Byte)) :
    Created opts (file.write sectors) := by
  refine ⟨h.zeroAddr_eq, ?_⟩
  have hLength : 3 < file.sectors.length := (List.getElem?_eq_some_iff.mp h.zero_eq).1
  rw [MapFile.write, List.getElem?_append_left hLength]
  exact h.zero_eq

/-- What is on disk with later sectors is on disk without them. -/
theorem Synced.of_write {file : MapFile} {sectors : List (List Byte)}
    (h : Synced bios opts disk (file.write sectors)) : Synced bios opts disk file := by
  have hPrefix : ∀ (i : Nat) (page : List Byte), file.sectors[i]? = some page →
      (file.write sectors).sectors[i]? = some page := by
    intro i page hi
    rw [MapFile.write, List.getElem?_append_left (List.getElem?_eq_some_iff.mp hi).1]
    exact hi
  exact ⟨h.known, fun i page n hi => h.stored i page n (hPrefix i page hi),
    fun i page n hi => h.reach i page n (hPrefix i page hi)⟩

-- ---------------------------------------------------------------------------
-- Registering
-- ---------------------------------------------------------------------------

/-- An address registered is that of the sector at the offset. -/
theorem mapAddr_ok {geo : Geometry} {offset : Nat} {place : String} {a : SectorAddr}
    (h : mapAddr opts geo offset place = .ok a) :
    ∃ n, geo.sectorAt offset = .ok (some n) ∧ geo.encode opts n = .ok a := by
  obtain ⟨addr, hComp, h⟩ := bind_ok h
  cases addr with
  | none => cases h
  | some b =>
    cases h
    exact geoCompAddr_some hComp

/-- The address of a sector of the map file leads to what was written there. -/
theorem Synced.leads {file : MapFile} (h : Synced bios opts disk file) {i : Nat}
    {page : List Byte} {place : String} {a : SectorAddr} (hPage : file.sectors[i]? = some page)
    (hAddr : mapAddr opts file.geo (512 * i) place = .ok a) : Leads bios opts disk a page := by
  obtain ⟨n, hSector, hEncode⟩ := mapAddr_ok hAddr
  exact ⟨(file.geo.device, n), encode_stands hEncode h.known (h.reach i page n hPage hSector),
    h.stored i page n hPage hSector⟩

/-- Addresses that stand for sectors with the contents. -/
def StandFor (bios : Bios) (opts : Options) (disk : Disk) (contents : List (List Byte))
    (map : List SectorAddr) : Prop :=
  ∃ xs, List.Forall₂ (Stands bios opts) xs map ∧ xs.map disk = contents

/-- Contents and addresses one after the other. -/
theorem StandFor.append {cs ds : List (List Byte)} {as bs : List SectorAddr}
    (h : StandFor bios opts disk cs as) (h' : StandFor bios opts disk ds bs) :
    StandFor bios opts disk (cs ++ ds) (as ++ bs) := by
  obtain ⟨xs, hStands, hContents⟩ := h
  obtain ⟨ys, hStands', hContents'⟩ := h'
  exact ⟨xs ++ ys, List.rel_append hStands hStands', by rw [List.map_append, hContents, hContents']⟩

/-- One sector and its address. -/
theorem Leads.standFor {a : SectorAddr} {page : List Byte} (h : Leads bios opts disk a page) :
    StandFor bios opts disk [page] [a] := by
  obtain ⟨x, hStands, hPage⟩ := h
  exact ⟨[x], List.Forall₂.cons hStands List.Forall₂.nil, by rw [← hPage]; rfl⟩

/-- A sector of a file, or the zero sector for a hole. -/
theorem mapAdd_one {geo : Geometry} {zeroAddr : SectorAddr} {i : Nat} {a : Option SectorAddr}
    (hZero : Leads bios opts disk zeroAddr zeroSector) (hKnown : Known bios opts geo)
    (hReach : ∀ n, geo.sectorAt (512 * i) = .ok (some n) → Reach bios opts (geo.device, n))
    (hAddr : geoCompAddr opts geo (512 * i) = .ok a) :
    Leads bios opts disk (a.getD zeroAddr) (fileSector disk geo i) := by
  unfold fileSector
  cases a with
  | none =>
    rw [geoCompAddr_none hAddr]
    exact hZero
  | some a =>
    obtain ⟨n, hSector, hEncode⟩ := geoCompAddr_some hAddr
    rw [hSector]
    exact ⟨(geo.device, n), encode_stands hEncode hKnown (hReach n hSector), rfl⟩

/-- **`map_add`.** A block is registered by its sector, a hole by the zero
sector. -/
theorem mapAdd_standFor {geo : Geometry} {zeroAddr : SectorAddr} {first num : Nat}
    {map : List SectorAddr} (hZero : Leads bios opts disk zeroAddr zeroSector)
    (hReach : (SectionCall.mapAdd geo first num).Reachable bios opts)
    (h : mapAdd opts zeroAddr geo first num = .ok map) :
    StandFor bios opts disk ((SectionCall.mapAdd geo first num).contents disk) map := by
  induction num generalizing first map with
  | zero =>
    cases h
    exact ⟨[], List.Forall₂.nil, rfl⟩
  | succ num ih =>
    obtain ⟨hKnown, hSectors⟩ := hReach
    rw [mapAdd] at h
    obtain ⟨a, hAddr, h⟩ := bind_ok h
    obtain ⟨rest, hRest, h⟩ := bind_ok h
    cases h
    have hOne := mapAdd_one hZero hKnown
      (fun n => hSectors first n (Nat.le_refl first) (by omega)) hAddr
    have hTail := ih ⟨hKnown, fun i n hi hn => hSectors i n (by omega) (by omega)⟩ hRest
    have hAppend := hOne.standFor.append hTail
    rw [SectionCall.contents, List.range'_succ, List.map_cons]
    exact hAppend

/-- An address for each sector. -/
theorem mapAdd_length {zeroAddr : SectorAddr} {geo : Geometry} {first num : Nat}
    {map : List SectorAddr} (h : mapAdd opts zeroAddr geo first num = .ok map) :
    map.length = num := by
  induction num generalizing first map with
  | zero =>
    cases h
    rfl
  | succ num ih =>
    rw [mapAdd] at h
    obtain ⟨a, -, h⟩ := bind_ok h
    obtain ⟨rest, hRest, h⟩ := bind_ok h
    cases h
    rw [List.length_cons, ih hRest]

/-- A call only adds to the map file. -/
theorem SectionCall.run_write {call : SectionCall} {file file' : MapFile} {map : List SectorAddr}
    (h : call.run opts file = .ok (file', map)) : ∃ added, file' = file.write added := by
  have hNone : file = file.write [] := by rw [MapFile.write, List.append_nil]
  cases call with
  | mapAddSector sector =>
    obtain ⟨a, -, h⟩ := bind_ok h
    cases h
    exact ⟨[sector], rfl⟩
  | mapAdd geo first num =>
    obtain ⟨map, -, h⟩ := bind_ok h
    cases h
    exact ⟨[], hNone⟩
  | mapAddZero =>
    cases h
    exact ⟨[], hNone⟩

/-- What a section adds to the map file is appended. -/
theorem buildSection_write {calls : List SectionCall} {file file' : MapFile}
    {map : List SectorAddr} (h : buildSection opts file calls = .ok (file', map)) :
    ∃ added, file' = file.write added := by
  induction calls generalizing file map with
  | nil =>
    cases h
    exact ⟨[], by rw [MapFile.write, List.append_nil]⟩
  | cons call calls ih =>
    rw [buildSection] at h
    obtain ⟨⟨file₁, map₁⟩, hRun, h⟩ := bind_ok h
    obtain ⟨⟨file₂, map₂⟩, hBuild, h⟩ := bind_ok h
    cases h
    obtain ⟨first, hFirst⟩ := SectionCall.run_write hRun
    obtain ⟨rest, hRest⟩ := ih hBuild
    refine ⟨first ++ rest, ?_⟩
    rw [hRest, hFirst, MapFile.write, MapFile.write, MapFile.write, List.append_assoc]

/-- What a call registers stands for its contents. -/
theorem SectionCall.run_standFor {call : SectionCall} {file file' : MapFile}
    {map : List SectorAddr} (h : call.run opts file = .ok (file', map))
    (hCreated : Created opts file) (hReach : call.Reachable bios opts)
    (hSynced : Synced bios opts disk file') :
    StandFor bios opts disk (call.contents disk) map := by
  cases call with
  | mapAddSector sector =>
    obtain ⟨a, hAddr, h⟩ := bind_ok h
    cases h
    have hLast : (file.write [sector]).sectors[file.sectors.length]? = some sector := by
      simp [MapFile.write]
    exact (hSynced.leads hLast hAddr).standFor
  | mapAdd geo first num =>
    obtain ⟨map, hMap, h⟩ := bind_ok h
    cases h
    exact mapAdd_standFor (hSynced.leads hCreated.zero_eq hCreated.zeroAddr_eq) hReach hMap
  | mapAddZero =>
    cases h
    exact (hSynced.leads hCreated.zero_eq hCreated.zeroAddr_eq).standFor

/-- **What is registered stands for the contents.** -/
theorem buildSection_standFor {calls : List SectionCall} {file file' : MapFile}
    {map : List SectorAddr} (h : buildSection opts file calls = .ok (file', map))
    (hCreated : Created opts file) (hReach : ∀ call ∈ calls, call.Reachable bios opts)
    (hSynced : Synced bios opts disk file') :
    StandFor bios opts disk (calls.flatMap (SectionCall.contents disk)) map := by
  induction calls generalizing file map with
  | nil =>
    cases h
    exact ⟨[], List.Forall₂.nil, rfl⟩
  | cons call calls ih =>
    rw [buildSection] at h
    obtain ⟨⟨file₁, map₁⟩, hRun, h⟩ := bind_ok h
    obtain ⟨⟨file₂, map₂⟩, hBuild, h⟩ := bind_ok h
    cases h
    obtain ⟨first, hFirst⟩ := SectionCall.run_write hRun
    obtain ⟨rest, hRest⟩ := buildSection_write hBuild
    have hCreated₁ : Created opts file₁ := by
      rw [hFirst]
      exact hCreated.write first
    have hSynced₁ : Synced bios opts disk file₁ := by
      rw [hRest] at hSynced
      exact hSynced.of_write
    have hHead := SectionCall.run_standFor hRun hCreated (hReach call List.mem_cons_self) hSynced₁
    have hTail := ih hBuild hCreated₁
      (fun c hc => hReach c (List.mem_cons_of_mem call hc))
    rw [List.flatMap_cons]
    exact hHead.append hTail

-- ---------------------------------------------------------------------------
-- Pages on disk
-- ---------------------------------------------------------------------------

/-- The addresses that `map_end_section` writes are in what it returns the address
of. -/
theorem mapEndSection_cases {file : MapFile} {dontCompact : Nat} {map : List SectorAddr}
    {done : SectionDone} (h : mapEndSection opts file dontCompact map = .ok done) :
    ∃ pages, done.file = file.write pages ∧ sectionAddrs opts dontCompact map ≠ [] ∧
      mapAddr opts file.geo file.here "alloc_page" = .ok done.addr ∧
      writePages opts file.geo file.here [] (sectionAddrs opts dontCompact map) = .ok pages ∧
      done.sectors = ((sectionAddrs opts dontCompact map).map (·.numSect.toNat)).sum := by
  unfold mapEndSection at h
  simp only at h
  split at h
  · cases h
  next hEmpty =>
  obtain ⟨addr, hAddr, h⟩ := bind_ok h
  obtain ⟨pages, hPages, h⟩ := bind_ok h
  cases h
  exact ⟨pages, rfl, hEmpty, hAddr, hPages, rfl⟩

/-- **The loader finds the section.** After the first page was read, the loader is
at the addresses of the section. -/
theorem mapEndSection_at {file : MapFile} {dontCompact : Nat} {map : List SectorAddr}
    {done : SectionDone} (h : mapEndSection opts file dontCompact map = .ok done)
    (hSynced : Synced bios opts disk done.file)
    (hEntries : ∀ a ∈ sectionAddrs opts dontCompact map, ¬ IsEof a) {hinib : Byte}
    (hOk : HinibOk opts hinib) (before : List Byte) :
    ∃ s, openSection bios disk hinib done.addr before = some s ∧ HinibOk opts s.hinib ∧
      At bios opts disk s (sectionAddrs opts dontCompact map) := by
  obtain ⟨pages, hFile, hEmpty, hAddr, hPages, -⟩ := mapEndSection_cases h
  have hStart : writePages opts file.geo (file.here + 512 * 0)
      (([] : List SectorAddr).flatMap SectorAddr.bytes) (sectionAddrs opts dontCompact map) =
      .ok pages := hPages
  obtain ⟨hPaginate, hLinks⟩ := writePages_paginate (by simp) hStart
  -- page `i` of the section is sector `length + i` of the file, and its address leads to it
  have hPage : ∀ i page, pages[i]? = some page →
      done.file.sectors[file.sectors.length + i]? = some page := by
    intro i page hi
    rw [hFile, MapFile.write, List.getElem?_append_right (Nat.le_add_right _ _),
      Nat.add_sub_cancel_left]
    exact hi
  have hLeads : ∀ i page place a, pages[i]? = some page →
      mapAddr opts file.geo (file.here + 512 * i) place = .ok a → Leads bios opts disk a page := by
    intro i page place a hi ha
    have hAddr : mapAddr opts done.file.geo (512 * (file.sectors.length + i)) place = .ok a := by
      rw [hFile, Nat.mul_add]
      exact ha
    exact hSynced.leads (hPage i page hi) hAddr
  cases pages with
  | nil =>
    -- a section without pages would have no addresses, and is refused
    cases hAs : sectionAddrs opts dontCompact map with
    | nil => exact absurd hAs hEmpty
    | cons a as =>
      rw [hAs, paginate, if_neg (by simp [mapFormat])] at hPaginate
      obtain ⟨p, ps, hFirst, -⟩ := paginate_first mapFormat (linkAt opts file.geo file.here) 0
        ([] ++ [a]) (by simp) (by simp [mapFormat]) as
      rw [hFirst] at hPaginate
      cases hPaginate
  | cons page rest =>
    -- the first page is read from its address, the others by the links
    obtain ⟨hinib', hOk', hRead⟩ := readPage_leads (s := ⟨0, before, hinib⟩)
      (hLeads 0 page "alloc_page" done.addr rfl hAddr) hOk
    refine ⟨⟨0, page, hinib'⟩, ?_, hOk', 0, rfl, ?_⟩
    · rw [openSection, hRead]
      rfl
    · have hLeadsLink : ∀ i q, rest[i]? = some q →
          Leads bios opts disk (linkAt opts file.geo file.here (0 + 1 + i)) q := by
        intro i q hi
        have hLength := (List.getElem?_eq_some_iff.mp hi).1
        have hLink := hLinks i (by simpa using hLength)
        refine hLeads (0 + 1 + i) q "alloc_page" _ ?_ hLink
        rw [Nat.zero_add, Nat.add_comm]
        exact hi
      refine paginate_listed hPaginate.symm hLeadsLink ?_ hEntries
      intro i hi
      obtain ⟨x, hStands, -⟩ := hLeadsLink i rest[i] (List.getElem?_eq_getElem hi)
      exact hStands.not_eof

end MultiOS.Lilo
