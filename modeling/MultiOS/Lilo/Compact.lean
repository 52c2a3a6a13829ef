import Mathlib.Data.List.Forall2
import MultiOS.Lilo.DiskRead

/-!
# LILO — compaction of a map section

`map_compact` joins the addresses of consecutive sectors, so that the loader
reads many sectors with one call. The addresses it leaves stand for the same
sectors in the same order (`mapCompact_reads`), each is one that the loader
can read, and, loaded from a bank boundary on, no transfer of the compacted
part leaves its bank (`Banked`).

The loop keeps `hinib` equal to the high byte that the loader will have in
effect, whenever the address it stands at has none of its own.
-/

namespace MultiOS.Lilo

open Lib

variable {bios : Bios} {opts : Options}

-- ---------------------------------------------------------------------------
-- Reading a list of addresses
-- ---------------------------------------------------------------------------

/-- The loader can read the addresses one after the other, and they stand for
the extents. -/
inductive ReadsAll (bios : Bios) (opts : Options) :
    Byte → List SectorAddr → List (Extent Byte) → Prop
  | nil {hinib} : ReadsAll bios opts hinib [] []
  | cons {hinib a form e as es} (head : Readable bios opts hinib a form e)
      (tail : ReadsAll bios opts (hinibAfter hinib a form) as es) :
      ReadsAll bios opts hinib (a :: as) (e :: es)

/-- The high bytes that occur: with `linear` there are none. -/
def HinibOk (opts : Options) (hinib : Byte) : Prop := opts.linear = true → hinib = 0

/-- Before the first address there is none. -/
theorem hinibOk_zero : HinibOk opts 0 := fun _ => rfl

/-- Each transfer stays within its bank, when the first is put at `offset` from a
bank boundary and the others after it. -/
def Banked : Nat → List (Extent Byte) → Prop
  | _, [] => True
  | offset, e :: es =>
    offset / 65536 = (offset + 512 * e.count - 1) / 65536 ∧ Banked (offset + 512 * e.count) es

/-- Nor does reading an address bring one in. -/
theorem Readable.hinibOk {hinib : Byte} {a : SectorAddr} {form : Form} {e : Extent Byte}
    (h : Readable bios opts hinib a form e) (hOk : HinibOk opts hinib) :
    HinibOk opts (hinibAfter hinib a form) := by
  intro hLinear
  unfold hinibAfter
  by_cases hForm : form = .noCount
  · have hChosen := h.chosen
    rw [hForm] at hChosen
    rw [(Form.chosen_noCount hChosen.symm).2] at hLinear
    cases hLinear
  · rw [if_neg hForm]
    exact hOk hLinear

/-- The address of one sector reads that sector. -/
theorem Stands.readable {x : DiskSector} {a : SectorAddr} (h : Stands bios opts x a)
    {hinib : Byte} (hOk : HinibOk opts hinib) :
    Readable bios opts hinib a (Form.chosen opts x.1) ⟨x.1, x.2, 1⟩ :=
  h.fresh hinib hOk

/-- A single sector is never stored with a count. -/
theorem chosen_ne_counted (device : Byte) : Form.chosen opts device ≠ .counted := by
  intro h
  have hBase := Form.base_chosen opts device
  rw [h] at hBase
  cases hBase

/-- Addresses as they were registered stand for their sectors. -/
theorem readsAll_of_stands {xs : List DiskSector} {as : List SectorAddr}
    (h : List.Forall₂ (Stands bios opts) xs as) {hinib : Byte} (hOk : HinibOk opts hinib) :
    ReadsAll bios opts hinib as (xs.map fun x => ⟨x.1, x.2, 1⟩) := by
  induction h generalizing hinib with
  | nil => exact ReadsAll.nil
  | cons hHead hTail ih =>
    exact ReadsAll.cons (hHead.readable hOk) (ih ((hHead.readable hOk).hinibOk hOk))

/-- One extent for each sector covers the sectors. -/
theorem cover_singles (xs : List DiskSector) :
    cover (xs.map fun x => (⟨x.1, x.2, 1⟩ : Extent Byte)) = xs := by
  induction xs with
  | nil => rfl
  | cons x xs ih =>
    rw [List.map_cons, cover_cons, ih, Extent.blocks_one]
    rfl

/-- Addresses as they were registered, before others that can be read. -/
theorem ReadsAll.append {xs ys : List DiskSector} {as bs : List SectorAddr}
    (hStands : List.Forall₂ (Stands bios opts) xs as) {hinib : Byte} (hOk : HinibOk opts hinib)
    (hRest : ∀ hinib, HinibOk opts hinib → ∃ es, ReadsAll bios opts hinib bs es ∧ cover es = ys) :
    ∃ es, ReadsAll bios opts hinib (as ++ bs) es ∧ cover es = xs ++ ys := by
  induction hStands generalizing hinib with
  | nil => exact hRest hinib hOk
  | @cons x a xs as hHead hTail ih =>
    have hReadable := hHead.readable hOk
    obtain ⟨es, hReads, hCover⟩ := ih (hReadable.hinibOk hOk)
    refine ⟨_, ReadsAll.cons hReadable hReads, ?_⟩
    rw [cover_cons, hCover, Extent.blocks_one]
    rfl

-- ---------------------------------------------------------------------------
-- One address
-- ---------------------------------------------------------------------------

/-- An address whose high byte is in effect can be given a count. -/
theorem Stands.counted {x : DiskSector} {a : SectorAddr} (h : Stands bios opts x a)
    (hForm : Form.chosen opts x.1 = .noCount) {hinib : Byte} (hOk : HinibOk opts hinib)
    (hHigh : a.numSect = hinib) :
    Readable bios opts hinib a.counted .counted ⟨x.1, x.2, 1⟩ := by
  have hFresh := h.readable hOk
  rw [hForm] at hFresh
  have hMeaning := hFresh.meaning
  refine ⟨⟨hMeaning.marked.counted, ?_, rfl, by simp⟩, hFresh.count_pos, hFresh.count_le,
    hFresh.reach, hFresh.chosen, by simp⟩
  rw [hMeaning.first_eq, ← hHigh]
  rfl

-- ---------------------------------------------------------------------------
-- The two tests of the loop
-- ---------------------------------------------------------------------------

/-- What the first test leaves: `next` still stands for its sector, `hinib` is the
high byte in effect if `next` has none, and if the test holds then `next` is
of the device and the form of `walk`. -/
structure Adjoined (bios : Bios) (opts : Options) (hinib : Byte) (form : Form) (e : Extent Byte)
    (x : DiskSector) (r : Bool × Nat × SectorAddr) (form' : Form) : Prop where
  readable : Readable bios opts hinib r.2.2 form' ⟨x.1, x.2, 1⟩
  numSect_eq : form' ≠ .noCount → r.2.2.numSect = 1
  hinib_eq : form' = .counted → r.2.1 = hinib.toNat
  same : r.1 = true → e.device = x.1 ∧ form' = form ∧ form ≠ .noCount

/-- The first test of `adjoin`, for a run that reads its extent and an address that
stands for the next sector. -/
theorem adjoin_spec {h : Byte} {hinib : Nat} {walk next : SectorAddr} {form : Form}
    {e : Extent Byte} {x : DiskSector} (hOk : HinibOk opts h)
    (hWalk : Readable bios opts h walk form e) (hNext : Stands bios opts x next)
    (hHinib : form = .counted → hinib = h.toNat) :
    ∃ form', Adjoined bios opts (hinibAfter h walk form) form e x (adjoin hinib walk next) form' := by
  have hOk' := hWalk.hinibOk hOk
  have hFresh := hNext.readable hOk'
  have hNot : Form.chosen opts x.1 ≠ .counted := chosen_ne_counted x.1
  have hMarked := hWalk.meaning.marked
  unfold adjoin
  by_cases hTest : (walk.device ^^^ next.device) &&& ~~~lba32NoCount = 0
  · obtain ⟨hDevice, hBase⟩ := hMarked.same_device hFresh.meaning.marked hTest
    rw [Form.base_chosen] at hBase
    simp only [hTest, BEq.rfl, Bool.true_and, hMarked.has_lba32, hMarked.has_noCount]
    -- of one device and form: with LBA32 the high bytes have to agree too
    cases form with
    | chs | linear =>
      refine ⟨Form.chosen opts x.1, ?_⟩
      rw [if_neg (by simp [Form.base])]
      exact ⟨hFresh, hNext.numSect_eq, fun h => absurd h hNot,
        fun _ => ⟨hDevice, hBase.symm, by simp⟩⟩
    | counted =>
      have hForm : Form.chosen opts x.1 = .noCount := hBase.symm
      rw [if_pos (by simp [Form.base]), if_pos (by simp)]
      by_cases hHigh : hinib = next.numSect.toNat
      · rw [if_pos hHigh]
        have hEq : next.numSect = h := BitVec.eq_of_toNat_eq (by rw [← hHigh, hHinib rfl])
        exact ⟨.counted, hNext.counted hForm hOk hEq, fun _ => rfl, fun _ => hHinib rfl,
          fun _ => ⟨hDevice, rfl, by simp⟩⟩
      · rw [if_neg hHigh]
        exact ⟨_, hFresh, hNext.numSect_eq, fun h => absurd h hNot, by simp⟩
    | noCount =>
      have hForm : Form.chosen opts x.1 = .noCount := hBase.symm
      rw [if_pos (by simp [Form.base]), if_neg (by simp)]
      by_cases hHigh : (next.has lba32NoCount && next.numSect.toNat == walk.numSect.toNat) = true
      · rw [if_pos hHigh]
        rw [Bool.and_eq_true, beq_iff_eq] at hHigh
        have hEq : next.numSect = walk.numSect := BitVec.eq_of_toNat_eq hHigh.2
        exact ⟨.counted, hNext.counted hForm hOk' hEq, fun _ => rfl, fun _ => rfl, by simp⟩
      · rw [if_neg hHigh]
        exact ⟨_, hFresh, hNext.numSect_eq, fun h => absurd h hNot, by simp⟩
  · -- of different ones: nothing is touched
    have hTest' : ((walk.device ^^^ next.device) &&& ~~~lba32NoCount == 0) = false := by
      simpa using hTest
    simp only [hTest', Bool.false_and]
    rw [if_neg (by simp)]
    exact ⟨_, hFresh, hNext.numSect_eq, fun h => absurd h hNot, by simp⟩

/-- A sector number and the high bits of a cylinder above it: with one more
sector of the same track, the cylinder is the same. -/
theorem sector_add {s t : Byte} {count : Nat} (hSum : s.toNat + count = t.toNat)
    (hs : 1 ≤ sectorOf s) (hLast : sectorOf s + count ≤ 64) (ht : 1 ≤ sectorOf t) :
    sectorOf t = sectorOf s + count ∧ ∀ track, cylinderOf track t = cylinderOf track s := by
  rw [sectorOf_eq] at hs hLast ht ⊢
  rw [sectorOf_eq]
  refine ⟨by omega, ?_⟩
  intro track
  rw [cylinderOf_eq, cylinderOf_eq]
  omega

/-- Sectors of one track are numbered one after the other. -/
theorem Drive.number_add (d : Drive) {cylinder head sector : Nat} (count : Nat)
    (hSector : 1 ≤ sector) :
    d.number cylinder head (sector + count) = d.number cylinder head sector + count := by
  unfold Drive.number
  omega

section
variable {h : Byte} {walk next : SectorAddr} {form : Form} {e : Extent Byte} {x : DiskSector}

/-- By cylinder, head and sector: `next` is on the track of `walk`, after it. -/
theorem continues_chs (hWalk : Readable bios opts h walk .chs e)
    (hNext : Readable bios opts h next .chs ⟨x.1, x.2, 1⟩) (hDevice : e.device = x.1)
    (hContinues : continues walk next = true) :
    x.2 = e.first + e.count ∧
      sectorOf walk.sector + e.count + 1 ≤ (bios.drive walk.device).sectors + 1 := by
  have hTrack := hWalk.track rfl
  have hTrack' := hNext.track rfl
  have hCount : e.count = walk.numSect.toNat := hWalk.meaning.count_eq
  have hOne : 1 = next.numSect.toNat := hNext.meaning.count_eq
  have hFirst := hWalk.meaning.first_eq
  have hFirst' := hNext.meaning.first_eq
  have hMark : walk.device = e.device := hWalk.meaning.marked.device_eq.trans BitVec.or_zero
  have hMark' : next.device = x.1 := hNext.meaning.marked.device_eq.trans BitVec.or_zero
  have hSectors := (bios.drive walk.device).sectors_le
  unfold continues at hContinues
  rw [hWalk.meaning.marked.has_number, if_neg (by simp)] at hContinues
  simp only [Bool.and_eq_true, beq_iff_eq] at hContinues
  obtain ⟨⟨hSameTrack, hSameHead⟩, hSum⟩ := hContinues
  have hWalkLe := hTrack.sector_le
  have hNextLe := hTrack'.sector_le
  obtain ⟨hSector, hCylinder⟩ :=
    sector_add hSum hTrack.sector_pos (by omega) hTrack'.sector_pos
  rw [hMark', ← hDevice, ← hMark] at hNextLe
  refine ⟨?_, by omega⟩
  simp only [SectorAddr.first] at hFirst hFirst'
  rw [hFirst', hFirst, ← hSameTrack, ← hSameHead, hSector, hCylinder, hDevice, hCount,
    Drive.number_add _ _ hTrack.sector_pos]

/-- By number: the numbers follow each other. -/
theorem continues_number (hWalk : Readable bios opts h walk form e)
    (hNext : Readable bios opts h next form ⟨x.1, x.2, 1⟩) (hForm : form ≠ .noCount)
    (hChs : form ≠ .chs) (hContinues : continues walk next = true) :
    x.2 = e.first + e.count := by
  have hCount := hWalk.meaning.count_eq
  have hFirst := hWalk.meaning.first_eq
  have hFirst' := hNext.meaning.first_eq
  unfold continues at hContinues
  rw [hWalk.meaning.marked.has_number, if_pos (by simpa using hChs), beq_iff_eq] at hContinues
  rw [SectorAddr.count, if_neg hForm] at hCount
  cases form with
  | noCount => exact absurd rfl hForm
  | chs => exact absurd rfl hChs
  | linear | counted =>
    simp only [SectorAddr.first] at hFirst hFirst'
    omega

/-- **Joining.** When the tests of the loop hold, `walk` with a count of one more
stands for its sectors and that of `next`. -/
theorem join_spec (hWalk : Readable bios opts h walk form e)
    (hNext : Readable bios opts h next form ⟨x.1, x.2, 1⟩) (hDevice : e.device = x.1)
    (hForm : form ≠ .noCount) (hContinues : continues walk next = true)
    (hMax : walk.numSect.toNat < opts.maxcount) :
    x = (e.device, e.first + e.count) ∧
      Readable bios opts h { walk with numSect := walk.numSect + 1 } form
        ⟨e.device, e.first, e.count + 1⟩ := by
  have hNumber : x.2 = e.first + e.count := by
    by_cases hChs : form = .chs
    · subst hChs
      exact (continues_chs hWalk hNext hDevice hContinues).1
    · exact continues_number hWalk hNext hForm hChs hContinues
  have hX : x = (e.device, e.first + e.count) := by rw [hDevice, ← hNumber]
  have hCount := hWalk.meaning.count_eq
  rw [SectorAddr.count, if_neg hForm] at hCount
  have hMaxLe : opts.maxcount ≤ 128 := maxcount_le
  -- the count is below `maxcount`, so the byte does not wrap
  have hSucc : (walk.numSect + 1).toNat = e.count + 1 := by
    rw [BitVec.toNat_add, hCount]
    show (walk.numSect.toNat + 1) % 256 = walk.numSect.toNat + 1
    omega
  refine ⟨hX, ⟨⟨hWalk.meaning.marked.coded, hWalk.meaning.marked.device_eq⟩, ?_, ?_,
    hWalk.meaning.linear⟩, by simp, by simp only; omega, ?_, hWalk.chosen, ?_⟩
  · rw [hWalk.meaning.first_eq]
    cases form with
    | noCount => exact absurd rfl hForm
    | chs | linear | counted => rfl
  · rw [SectorAddr.count, if_neg hForm, hSucc]
  · intro y hy
    rw [Extent.blocks_add, List.mem_append] at hy
    rcases hy with hy | hy
    · exact hWalk.reach y hy
    · rw [Extent.blocks_one, List.mem_singleton] at hy
      rw [hy, ← hX]
      exact hNext.reach x (List.mem_singleton.mpr rfl)
  · intro hChs
    subst hChs
    have hTrack := hWalk.track rfl
    refine ⟨hTrack.sector_pos, ?_, hTrack.head_lt, hTrack.cylinder_lt⟩
    rw [hSucc]
    exact (continues_chs hWalk hNext hDevice hContinues).2

end

-- ---------------------------------------------------------------------------
-- The loop
-- ---------------------------------------------------------------------------

/-- The loop leaves addresses that stand for the same sectors, and no transfer
leaves its bank. -/
theorem compactLoop_reads {xs : List DiskSector} {rest : List SectorAddr}
    (hRest : List.Forall₂ (Stands bios opts) xs rest) {h : Byte} {hinib offset noffset : Nat}
    {walk : SectorAddr} {form : Form} {e : Extent Byte} (hOk : HinibOk opts h)
    (hWalk : Readable bios opts h walk form e) (hHinib : form = .counted → hinib = h.toNat)
    (hLast : noffset + 512 = offset + 512 * e.count) (hBank : offset / 65536 = noffset / 65536)
    (hAligned : 512 ∣ offset) :
    ∃ es, ReadsAll bios opts h (compactLoop opts.maxcount hinib offset noffset walk rest) es ∧
      cover es = e.blocks ++ xs ∧ Banked offset es := by
  have hWhole : offset / 65536 = (offset + 512 * e.count - 1) / 65536 := by omega
  induction hRest generalizing h hinib offset noffset walk form e with
  | nil =>
    exact ⟨[e], ReadsAll.cons hWalk ReadsAll.nil, by simp, hWhole, trivial⟩
  | @cons x next xs rest hNext hRest ih =>
    obtain ⟨form', hAdjoin⟩ := adjoin_spec hOk hWalk hNext hHinib
    unfold compactLoop
    generalize adjoin hinib walk next = r at hAdjoin ⊢
    obtain ⟨adj, hinib', next'⟩ := r
    simp only
    split
    · -- `next` is joined to `walk`
      next hTests =>
      simp only [Bool.and_eq_true, beq_iff_eq, decide_eq_true_eq, Nat.shiftRight_eq_div_pow]
        at hTests
      obtain ⟨⟨⟨hAdj, hContinues⟩, hSameBank⟩, hMax⟩ := hTests
      obtain ⟨hDevice, hForm, hNot⟩ := hAdjoin.same hAdj
      -- the run goes on with one sector more, and keeps its high byte
      have hReadable := hAdjoin.readable
      subst hForm
      rw [hinibAfter, if_neg hNot] at hReadable
      obtain ⟨hX, hJoined⟩ := join_spec hWalk hReadable hDevice hNot hContinues hMax
      have hHinib' : form' = .counted → hinib' = h.toNat := by
        intro hCounted
        have hEq := hAdjoin.hinib_eq hCounted
        rw [hinibAfter, if_neg hNot] at hEq
        exact hEq
      have hLast' : noffset + 512 + 512 = offset + 512 * (e.count + 1) := by omega
      obtain ⟨es, hReads, hCover, hBanked⟩ :=
        ih hOk hJoined hHinib' hLast' hSameBank hAligned (by simp only; omega)
      refine ⟨es, hReads, ?_, hBanked⟩
      rw [hCover, Extent.blocks_add, List.append_assoc, hX, Extent.blocks_one]
      rfl
    · -- `walk` stays, and the loop goes on with `next`
      have hOne : noffset + 512 + 512 = noffset + 512 + 512 * 1 := rfl
      obtain ⟨es, hReads, hCover, hBanked⟩ := ih (hWalk.hinibOk hOk) hAdjoin.readable
        hAdjoin.hinib_eq hOne rfl (by omega) (by simp only; omega)
      refine ⟨e :: es, ReadsAll.cons hWalk hReads, ?_, hWhole, ?_⟩
      · rw [cover_cons, hCover]
        rfl
      · rw [← hLast]
        exact hBanked

-- ---------------------------------------------------------------------------
-- A section, compacted or not
-- ---------------------------------------------------------------------------

/-- Sectors read one by one leave no bank. -/
theorem banked_singles {offset : Nat} (hAligned : 512 ∣ offset) (xs : List DiskSector) :
    Banked offset (xs.map fun x => (⟨x.1, x.2, 1⟩ : Extent Byte)) := by
  induction xs generalizing offset with
  | nil => trivial
  | cons x xs ih =>
    refine ⟨?_, ih (by omega)⟩
    simp only
    omega

/-- **Compaction keeps the meaning of a section.** The first addresses are as they
were; the rest stand for the same sectors in the same order, whatever high
byte is in effect before them. -/
theorem sectionAddrs_reads {xs : List DiskSector} {map : List SectorAddr}
    (h : List.Forall₂ (Stands bios opts) xs map) (dontCompact : Nat) :
    ∃ rest, sectionAddrs opts dontCompact map = map.take (dontCompact + 1) ++ rest ∧
      ∀ hinib, HinibOk opts hinib → ∃ es, ReadsAll bios opts hinib rest es ∧
        cover es = xs.drop (dontCompact + 1) ∧ Banked 0 es := by
  have hDrop := List.forall₂_drop (dontCompact + 1) h
  unfold sectionAddrs
  split
  · unfold mapCompact
    cases hMap : map.drop (dontCompact + 1) with
    | nil =>
      rw [hMap, List.forall₂_nil_right_iff] at hDrop
      refine ⟨[], ?_, fun hinib _ => ⟨[], ReadsAll.nil, by rw [hDrop]; rfl, trivial⟩⟩
      rw [List.append_nil, List.take_of_length_le (List.drop_eq_nil_iff.mp hMap)]
    | cons walk rest =>
      refine ⟨_, rfl, ?_⟩
      intro hinib hOk
      rw [hMap, List.forall₂_cons_right_iff] at hDrop
      obtain ⟨x, ys, hWalk, hRest, hXs⟩ := hDrop
      have hLoop : ∃ es, ReadsAll bios opts hinib
          (compactLoop opts.maxcount 257 0 0 walk rest) es ∧
          cover es = (Extent.mk x.1 x.2 1).blocks ++ ys ∧ Banked 0 es :=
        compactLoop_reads hRest hOk (hWalk.readable hOk)
          (fun hCounted => absurd hCounted (chosen_ne_counted x.1)) rfl rfl (Nat.dvd_zero 512)
      obtain ⟨es, hReads, hCover, hBanked⟩ := hLoop
      refine ⟨es, hReads, ?_, hBanked⟩
      rw [hCover, hXs, Extent.blocks_one]
      rfl
  · refine ⟨map.drop (dontCompact + 1), (List.take_append_drop _ _).symm, ?_⟩
    intro hinib hOk
    exact ⟨_, readsAll_of_stands hDrop hOk, cover_singles _, banked_singles (Nat.dvd_zero 512) _⟩

end MultiOS.Lilo
