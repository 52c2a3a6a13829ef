import Mathlib.Data.List.GetD
import MultiOS.Lib.Pages
import MultiOS.Lilo.Compact
import MultiOS.Model.Loader

/-!
# LILO — pages of the map

A page of the map file is an instance of the general format: 101 sector
addresses and a link (`mapFormat`). `map_end_section` writes the pages of that
format (`writePages_paginate`), and `lfetch` walks them: it returns the
addresses of the section one after the other and then finds the end
(`lfetch_next`, `lfetch_end`).

No address that the map installer writes looks like the end of the map.
-/

namespace MultiOS.Lilo

open Lib

-- ---------------------------------------------------------------------------
-- The format
-- ---------------------------------------------------------------------------

/-- An address is five bytes of the map. -/
theorem length_flatMap_bytes (as : List SectorAddr) :
    (as.flatMap SectorAddr.bytes).length = 5 * as.length := by
  induction as with
  | nil => rfl
  | cons a as ih =>
    rw [List.flatMap_cons, List.length_append, ih, List.length_cons]
    show 5 + 5 * as.length = 5 * (as.length + 1)
    omega

/-- An address reads back from where its bytes stand. -/
theorem entryAt_bytes (before after : List Byte) (a : SectorAddr) :
    entryAt (before ++ (a.bytes ++ after)) before.length = a := by
  have hByte : ∀ k, k < 5 → (before ++ (a.bytes ++ after)).getD (before.length + k) 0 =
      a.bytes.getD k 0 := by
    intro k hk
    have hLength : k < a.bytes.length := hk
    rw [List.getD_append_right _ _ _ _ (Nat.le_add_right _ _), Nat.add_sub_cancel_left,
      List.getD_append _ _ _ _ hLength]
  have hFirst := hByte 0 (by omega)
  rw [Nat.add_zero] at hFirst
  unfold entryAt
  rw [hFirst, hByte 1 (by omega), hByte 2 (by omega), hByte 3 (by omega), hByte 4 (by omega)]
  rfl

/-- Zeros read as the end of the map. -/
theorem entryAt_zeros (before : List Byte) (n : Nat) :
    IsEof (entryAt (before ++ List.replicate n 0) before.length) := by
  have hByte : ∀ k, (before ++ List.replicate n (0 : Byte)).getD (before.length + k) 0 = 0 := by
    intro k
    rw [List.getD_append_right _ _ _ _ (Nat.le_add_right _ _), Nat.add_sub_cancel_left]
    by_cases hk : k < n
    · rw [List.getD_replicate _ hk]
    · exact List.getD_eq_default _ _ (by simpa using hk)
  have hEntry : entryAt (before ++ List.replicate n 0) before.length = ⟨0, 0, 0, 0, 0⟩ := by
    unfold entryAt
    have hFirst := hByte 0
    rw [Nat.add_zero] at hFirst
    rw [hFirst, hByte, hByte, hByte, hByte]
  rw [hEntry]
  decide

/-- The pages of the map file. -/
def mapFormat : PageFormat (List Byte) SectorAddr where
  width := 101
  slot page i := entryAt page (5 * i)
  IsEnd := IsEof
  make as link := padPage (as.flatMap SectorAddr.bytes ++ (link.map SectorAddr.bytes).getD [])
  width_pos := by omega
  slot_make := by
    intro before after a link _
    rw [padPage, List.flatMap_append, List.flatMap_cons, ← length_flatMap_bytes]
    simp only [List.append_assoc]
    exact entryAt_bytes _ _ a
  slot_link := by
    intro as link hWidth
    rw [padPage, ← hWidth, ← length_flatMap_bytes, List.append_assoc]
    exact entryAt_bytes _ _ link
  slot_end := by
    intro as hWidth
    rw [padPage, ← length_flatMap_bytes, Option.map_none, Option.getD_none, List.append_nil]
    exact entryAt_zeros _ _

-- ---------------------------------------------------------------------------
-- Writing
-- ---------------------------------------------------------------------------

section
variable {opts : Options} {geo : Geometry}

/-- The address of the page that is written at a file position. -/
def linkAt (opts : Options) (geo : Geometry) (base n : Nat) : SectorAddr :=
  match mapAddr opts geo (base + 512 * n) "alloc_page" with
  | .ok a => a
  | .error _ => ⟨0, 0, 0, 0, 0⟩

/-- `map_end_section` writes pages of the format, and all their links were
computed. -/
theorem writePages_paginate {base n : Nat} {buffer as : List SectorAddr}
    {pages : List (List Byte)} (hBuffer : buffer.length ≤ 101)
    (h : writePages opts geo (base + 512 * n) (buffer.flatMap SectorAddr.bytes) as = .ok pages) :
    pages = paginate mapFormat (linkAt opts geo base) n buffer as ∧
      ∀ i, i + 1 < pages.length → mapAddr opts geo (base + 512 * (n + 1 + i)) "alloc_page" =
        .ok (linkAt opts geo base (n + 1 + i)) := by
  have hLength := length_flatMap_bytes buffer
  induction as generalizing n buffer pages with
  | nil =>
    rw [writePages, hLength] at h
    have hEq := Except.ok.inj h
    rw [paginate, ← hEq]
    by_cases hEmpty : buffer.length = 0
    · rw [if_pos hEmpty, if_pos (by omega)]
      exact ⟨rfl, fun i hi => by simp at hi⟩
    · rw [if_neg hEmpty, if_neg (by omega)]
      refine ⟨?_, fun i hi => by simp at hi⟩
      show [padPage _] = [padPage (_ ++ [])]
      rw [List.append_nil]
  | cons a as ih =>
    rw [writePages, hLength] at h
    by_cases hFull : buffer.length = 101
    · rw [if_pos (by omega)] at h
      have hNext : base + 512 * n + 512 = base + 512 * (n + 1) := by omega
      rw [hNext] at h
      -- a full page ends with the address of the next one
      obtain ⟨link, hLink, h⟩ := bind_ok h
      obtain ⟨rest, hRest, h⟩ := bind_ok h
      have hEq := Except.ok.inj h
      have hLinkAt : linkAt opts geo base (n + 1) = link := by rw [linkAt, hLink]
      have hPage : writePages opts geo (base + 512 * (n + 1)) ([a].flatMap SectorAddr.bytes) as =
          .ok rest := by simpa using hRest
      obtain ⟨hPaginate, hLinks⟩ := ih (by simp) hPage (length_flatMap_bytes [a])
      refine ⟨?_, ?_⟩
      · rw [paginate, if_pos (show buffer.length = mapFormat.width from hFull), ← hPaginate,
          ← hEq, hLinkAt]
        rfl
      · rintro (_ | i) hi
        · rw [Nat.add_zero, hLink, hLinkAt]
        · rw [← hEq, List.length_cons] at hi
          rw [Nat.add_comm i, ← Nat.add_assoc]
          exact hLinks i (by omega)
    · rw [if_neg (by omega)] at h
      -- there is room for one more address on the page
      have hAppend : buffer.flatMap SectorAddr.bytes ++ a.bytes =
          (buffer ++ [a]).flatMap SectorAddr.bytes := by simp
      rw [hAppend] at h
      rw [paginate, if_neg (show ¬ buffer.length = mapFormat.width from hFull)]
      exact ih (by simp; omega) h (length_flatMap_bytes _)

end

-- ---------------------------------------------------------------------------
-- No address is an end mark
-- ---------------------------------------------------------------------------

variable {bios : Bios} {opts : Options} {disk : Disk}

/-- A word is 0 only if both of its bytes are. -/
theorem append_eq_zero {x y : Byte} (h : x ++ y = (0 : BitVec 16)) : x = 0 ∧ y = 0 := by
  have hNat := congrArg BitVec.toNat h
  have hx := x.isLt
  have hy : y.toNat < 2 ^ 8 := y.isLt
  rw [BitVec.toNat_append, ← Nat.shiftLeft_add_eq_or_of_lt hy, Nat.shiftLeft_eq] at hNat
  change x.toNat * 256 + y.toNat = 0 at hNat
  exact ⟨BitVec.eq_of_toNat_eq (by simp; omega), BitVec.eq_of_toNat_eq (by simp; omega)⟩

/-- An address that can be read is not taken for the end of the map: it has a
sector, or a mark. -/
theorem Readable.not_eof {hinib : Byte} {a : SectorAddr} {form : Form} {e : Extent Byte}
    (h : Readable bios opts hinib a form e) : ¬ IsEof a := by
  rintro ⟨hCx, hDx⟩
  have hSector := (append_eq_zero hCx).2
  have hDevice := (append_eq_zero hDx).2
  by_cases hForm : form = .chs
  · have hPos := (h.track hForm).sector_pos
    rw [hSector] at hPos
    exact absurd hPos (by decide)
  · have hHas := h.meaning.marked.has_number
    rw [SectorAddr.has, hDevice] at hHas
    simp [hForm] at hHas

/-- The address of a sector is not the mark of the end. -/
theorem Stands.not_eof {x : DiskSector} {a : SectorAddr} (h : Stands bios opts x a) :
    ¬ IsEof a :=
  (h.readable hinibOk_zero).not_eof

/-- Nor is any address of a run. -/
theorem ReadsAll.not_eof {hinib : Byte} {as : List SectorAddr} {es : List (Extent Byte)}
    (h : ReadsAll bios opts hinib as es) : ∀ a ∈ as, ¬ IsEof a := by
  induction h with
  | nil => simp
  | cons hHead hTail ih =>
    intro a ha
    rcases List.mem_cons.mp ha with rfl | ha
    · exact hHead.not_eof
    · exact ih a ha

-- ---------------------------------------------------------------------------
-- Walking
-- ---------------------------------------------------------------------------

/-- The address of a page leads to the page that is on the disk there. -/
def Leads (bios : Bios) (opts : Options) (disk : Disk) (link : SectorAddr)
    (page : List Byte) : Prop :=
  ∃ x, Stands bios opts x link ∧ disk x = page

/-- The loader is at a list of addresses: it has still to read these. -/
def At (bios : Bios) (opts : Options) (disk : Disk) (s : Loader) (as : List SectorAddr) : Prop :=
  ∃ i, s.moff = 5 * i ∧ Listed mapFormat (Leads bios opts disk) s.map i as

/-- A page of the map fits in its buffer. -/
theorem mapBuffer_fits : mapBuffer.Fits 1 := by decide

/-- A page is read from its address, whatever high byte is in effect. -/
theorem readPage_leads {s : Loader} {link : SectorAddr} {page : List Byte}
    (h : Leads bios opts disk link page) (hOk : HinibOk opts s.hinib) :
    ∃ hinib, HinibOk opts hinib ∧
      s.readPage bios disk link = some { s with map := page, hinib } := by
  obtain ⟨x, hStands, hPage⟩ := h
  have hReadable := hStands.readable hOk
  refine ⟨hinibAfter s.hinib link (Form.chosen opts x.1), hReadable.hinibOk hOk, ?_⟩
  rw [Loader.readPage, cread_eq hReadable mapBuffer_fits, ← hPage]
  rfl

/-- At the end of the list, `lfetch` finds the end of the map. -/
theorem lfetch_end {s : Loader} (h : At bios opts disk s []) :
    lfetch bios disk 2 s = some (none, s) := by
  obtain ⟨i, hMoff, hListed⟩ := h
  cases hListed with
  | done hEnd =>
    rw [lfetch, hMoff]
    exact if_pos hEnd

/-- A slot that is not the last: its address is returned, and the loader is at the
rest of the list. -/
theorem lfetch_here {s : Loader} {i passes : Nat} {a : SectorAddr} {as : List SectorAddr}
    (hMoff : s.moff = 5 * i) (hWidth : i < 101) (hSlot : entryAt s.map (5 * i) = a)
    (hNot : ¬ IsEof a) (hRest : Listed mapFormat (Leads bios opts disk) s.map (i + 1) as) :
    ∃ s', lfetch bios disk (passes + 1) s = some (some a, s') ∧ At bios opts disk s' as ∧
      s'.hinib = s.hinib := by
  refine ⟨{ s with moff := s.moff + 5 }, ?_, ⟨i + 1, ?_, hRest⟩, rfl⟩
  · unfold lfetch
    simp only [hMoff, hSlot]
    rw [if_neg hNot, if_pos (by omega)]
  · simp only
    omega

/-- **The next address.** `lfetch` returns the first address of the list, turning
the page if it must; `hinib` is as it was. -/
theorem lfetch_next {s : Loader} {a : SectorAddr} {as : List SectorAddr}
    (h : At bios opts disk s (a :: as)) (hOk : HinibOk opts s.hinib) :
    ∃ s', lfetch bios disk 2 s = some (some a, s') ∧ At bios opts disk s' as ∧
      s'.hinib = s.hinib := by
  obtain ⟨i, hMoff, hListed⟩ := h
  cases hListed with
  | here hWidth hSlot hNot hRest => exact lfetch_here hMoff hWidth hSlot hNot hRest
  | @turn _ page link _ _ hSlot hNot hLeads hRest =>
    -- the link is read, and the first slot of its page is not the last
    have hSlot' : entryAt s.map 505 = link := hSlot
    have hMoff' : s.moff = 505 := hMoff
    obtain ⟨hinib, -, hRead⟩ := readPage_leads hLeads hOk
    cases hRest with
    | here hWidth hFirst hNotEnd hAfter =>
      have hHere : ∃ s', lfetch bios disk 1 ⟨0, page, s.hinib⟩ = some (some a, s') ∧
          At bios opts disk s' as ∧ s'.hinib = s.hinib :=
        lfetch_here rfl hWidth hFirst hNotEnd hAfter
      obtain ⟨s', hFetch, hAt, hHinib⟩ := hHere
      refine ⟨s', ?_, hAt, hHinib⟩
      unfold lfetch
      simp only [hMoff', hSlot']
      rw [if_neg (show ¬ IsEof link from hNot), if_neg (by omega), hRead]
      exact hFetch

end MultiOS.Lilo
