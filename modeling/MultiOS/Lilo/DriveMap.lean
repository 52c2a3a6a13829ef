import MultiOS.Model.Chain

/-!
# LILO — exchanged drives

`new13` of `chain.S` stands between an operating system and `int 0x13`. Its frame
on the stack is followed through all of it: every register reaches the old
handler as the caller left it, but for the drive, and comes back as the handler
left it; the word that held the caller's flags holds the entry of the drive map
in between. `drives_exchanged` says what a call comes to with the map that
`do_map_drive` made.
-/

namespace MultiOS.Lilo

-- ---------------------------------------------------------------------------
-- The frame
-- ---------------------------------------------------------------------------

namespace Machine

/-- `k` words were pushed after `mov bp,sp`. -/
def Framed (k : Nat) (m : Machine) : Prop := m.regs.bp = m.sp + BitVec.ofNat 16 (2 * k)

/-- A word above the frame pointer is that far above it on the stack. -/
theorem Framed.slot {m : Machine} {k : Nat} (h : m.Framed k) (j : Nat) (hSmall : k + j < 0x8000) :
    m.slot (BitVec.ofNat 16 (2 * j)) = k + j := by
  unfold Framed at h
  unfold Machine.slot
  have hSum : m.regs.bp + BitVec.ofNat 16 (2 * j) - m.sp = BitVec.ofNat 16 (2 * (k + j)) := by
    rw [h, Nat.mul_add, BitVec.ofNat_add]
    grind
  rw [hSum, BitVec.toNat_ofNat]
  omega

/-- Reading a word of the frame. -/
theorem Framed.word {m : Machine} {k : Nat} {stack : List (BitVec 16)} (h : m.Framed k)
    (hStack : m.stack = stack) (j : Nat) (hSmall : k + j < 0x8000) :
    m.word (BitVec.ofNat 16 (2 * j)) = stack.getD (k + j) 0 := by
  rw [Machine.word, h.slot j hSmall, hStack]

/-- Writing a word of the frame. -/
theorem Framed.setWord {m : Machine} {k : Nat} {stack : List (BitVec 16)} (h : m.Framed k)
    (hStack : m.stack = stack) (j : Nat) (hSmall : k + j < 0x8000) (w : BitVec 16) :
    m.setWord (BitVec.ofNat 16 (2 * j)) w = { m with stack := stack.set (k + j) w } := by
  rw [Machine.setWord, h.slot j hSmall, hStack]

/-- At `mov bp,sp` the frame begins. -/
theorem framed_zero {m : Machine} (h : m.regs.bp = m.sp) : m.Framed 0 := by
  rw [Framed, h]
  exact (BitVec.add_zero _).symm

/-- A push puts the frame one word deeper. -/
theorem Framed.push {m : Machine} {k : Nat} (h : m.Framed k) (w : BitVec 16) :
    (m.push w).Framed (k + 1) := by
  unfold Framed at *
  show m.regs.bp = m.sp - 2 + BitVec.ofNat 16 (2 * k + 2)
  rw [h, BitVec.ofNat_add]
  grind

/-- A pop brings it up again. -/
theorem Framed.drop {m : Machine} {k : Nat} (h : m.Framed (k + 1)) : m.drop.Framed k := by
  unfold Framed at *
  show m.regs.bp = m.sp + 2 + BitVec.ofNat 16 (2 * k)
  rw [h, Nat.mul_add, BitVec.ofNat_add]
  grind

end Machine

-- ---------------------------------------------------------------------------
-- new13, from label to label
-- ---------------------------------------------------------------------------

/-- The entry of the drive map goes through AX and DL, and three words are on the stack. -/
theorem new13Entry_eq (below drvmap : List (BitVec 16)) (m : Machine) {found : BitVec 16 × Byte}
    (hFound : mapfl (lodsWords below drvmap m.regs.flags) (lowByte m.regs.dx) = found) :
    new13Entry below drvmap m =
      { m with
        regs := { m.regs with
          ax := found.1
          dx := setLow m.regs.dx found.2
          bp := m.sp - 4 }
        sp := m.sp - 6
        stack := m.regs.flags :: m.regs.bp :: m.regs.ax :: m.stack } := by
  have hBp : m.sp - 2 - 2 = m.sp - 4 := by grind
  have hSp : m.sp - 4 - 2 - 2 + 2 = m.sp - 6 := by grind
  rw [← hFound]
  show Machine.mk _ (m.sp - 2 - 2 - 2 - 2 + 2) _ _ _ = _
  rw [hBp, hSp]
  show Machine.mk ⟨_, _, _, _, _, _, m.sp - 2 - 2, _, _, _⟩ _ _ _ _ = _
  rw [hBp]
  rfl

/-- The map entry takes the place of the flags. -/
theorem nomap_eq {m : Machine} {f b a ip cs flags : BitVec 16} {rest : List (BitVec 16)}
    (hFrame : m.Framed 1) (hStack : m.stack = f :: b :: a :: ip :: cs :: flags :: rest) :
    nomap m = { m with
      regs := { m.regs with ax := a, bp := b }
      stack := f :: b :: a :: ip :: cs :: m.regs.ax :: rest } := by
  have hSet : m.setWord 8 m.regs.ax =
      { m with stack := f :: b :: a :: ip :: cs :: m.regs.ax :: rest } :=
    hFrame.setWord hStack 4 (by decide) m.regs.ax
  generalize hMapped : f :: b :: a :: ip :: cs :: m.regs.ax :: rest = stack at hSet
  have hFrame' : ({ m with stack } : Machine).Framed 1 := hFrame
  have hAx : ({ m with stack } : Machine).word 2 = a := hFrame'.word hMapped.symm 1 (by decide)
  have hFrame'' : (({ m with stack } : Machine).setAx a).Framed 1 := hFrame
  have hBp : (({ m with stack } : Machine).setAx a).word 0 = b :=
    hFrame''.word hMapped.symm 0 (by decide)
  unfold nomap
  simp only [hSet, hAx, hBp]
  rfl

/-- The functions that return something else in DL. -/
def KeepsDl (ax : BitVec 16) : Prop := highByte ax = 8 ∨ highByte ax = 0x15

instance (ax : BitVec 16) : Decidable (KeepsDl ax) := inferInstanceAs (Decidable (_ ∨ _))

/-- The drive that was asked for takes the place of the one that was used. -/
theorem new13Back_eq {m : Machine} {b a ip cs entry : BitVec 16} {rest : List (BitVec 16)}
    (hStack : m.stack = b :: a :: ip :: cs :: entry :: rest) :
    new13Back m = { m with
      regs := { m.regs with
        ax := if KeepsDl a then a else entry
        dx := if KeepsDl a ∨ entry = 0 then m.regs.dx else setLow m.regs.dx (lowByte entry)
        bp := m.sp - 2 }
      sp := m.sp - 2 - 2
      stack := m.regs.flags :: m.regs.bp :: b :: m.regs.ax :: ip :: cs :: entry :: rest } := by
  -- the frame, and the words that are read and written in it
  have hFrame : ((m.push m.regs.bp).setBp (m.sp - 2)).Framed 0 := Machine.framed_zero rfl
  have hPush : ((m.push m.regs.bp).setBp (m.sp - 2)).stack =
      m.regs.bp :: b :: a :: ip :: cs :: entry :: rest :=
    congrArg (m.regs.bp :: ·) hStack
  have hCommand : ((m.push m.regs.bp).setBp (m.sp - 2)).word 4 = a :=
    hFrame.word hPush 2 (by decide)
  have hSave : ((m.push m.regs.bp).setBp (m.sp - 2)).setWord 4 m.regs.ax =
      { (m.push m.regs.bp).setBp (m.sp - 2) with
        stack := m.regs.bp :: b :: m.regs.ax :: ip :: cs :: entry :: rest } :=
    hFrame.setWord hPush 2 (by decide) m.regs.ax
  have hPushed : (((((m.push m.regs.bp).setBp (m.sp - 2)).setWord 4 m.regs.ax).setAx a).push
      m.regs.flags) = { m with
        regs := { m.regs with ax := a, bp := m.sp - 2 }
        sp := m.sp - 2 - 2
        stack := m.regs.flags :: m.regs.bp :: b :: m.regs.ax :: ip :: cs :: entry :: rest } := by
    rw [hSave]
    rfl
  -- from here on AX is the function and the flags lie below the frame
  generalize hSaved : { m with
      regs := { m.regs with ax := a, bp := m.sp - 2 }
      sp := m.sp - 2 - 2
      stack := m.regs.flags :: m.regs.bp :: b :: m.regs.ax :: ip :: cs :: entry :: rest } = saved
    at hPushed
  have hEntry : saved.word 10 = entry := by
    have hFrame' : saved.Framed 1 := by
      rw [← hSaved]
      exact Machine.Framed.push (m := ⟨{ m.regs with bp := m.sp - 2 }, m.sp - 2, [], 0, 0⟩)
        (Machine.framed_zero rfl) 0
    exact hFrame'.word (congrArg Machine.stack hSaved).symm 5 (by decide)
  have hBack : new13Back m =
      if KeepsDl saved.regs.ax then saved
      else
        if saved.word 10 = 0 then saved.setAx (saved.word 10)
        else (saved.setAx (saved.word 10)).setDl (lowByte (saved.word 10)) := by
    rw [← hPushed, ← hCommand]
    rfl
  have hAx : saved.regs.ax = a := by rw [← hSaved]
  rw [hBack, hEntry, hAx]
  by_cases hKeeps : KeepsDl a
  · rw [if_pos hKeeps, if_pos hKeeps, if_pos (.inl hKeeps), ← hSaved]
  · rw [if_neg hKeeps, if_neg hKeeps]
    by_cases hZero : entry = 0
    · rw [if_pos hZero, if_pos (.inr hZero), ← hSaved]
      rfl
    · rw [if_neg hZero, if_neg (by tauto), ← hSaved]
      rfl

/-- The words of the frame at `done13`. -/
theorem done13_eq {m : Machine} {f b b' a ip cs entry : BitVec 16} {rest : List (BitVec 16)}
    (hFrame : m.Framed 1)
    (hStack : m.stack = f :: b :: b' :: a :: ip :: cs :: entry :: rest) :
    done13 m =
      { regs := { m.regs with ax := a, bp := b, flags := f }, sp := m.sp + 14, stack := rest,
        ip, cs } := by
  have hAx : m.word 4 = a := hFrame.word hStack 2 (by decide)
  have hTop : m.top = f := by
    rw [Machine.top, hStack]
    rfl
  have hFrame' : (m.setAx a).drop.Framed 0 := Machine.Framed.drop (m := m.setAx a) hFrame
  have hFlags : (m.setAx a).drop.setWord 10 f =
      { (m.setAx a).drop with stack := b :: b' :: a :: ip :: cs :: f :: rest } :=
    hFrame'.setWord (congrArg List.tail hStack) 5 (by decide) f
  have hSp : m.sp + 2 + 2 + 2 + 2 + 2 + 2 + 2 = m.sp + 14 := by grind
  unfold done13
  have hTop' : (m.setAx a).top = f := hTop
  simp only [hAx, hTop', hFlags]
  rw [← hSp]
  rfl

-- ---------------------------------------------------------------------------
-- The drive map
-- ---------------------------------------------------------------------------

/-- The word that is stored. -/
def stored (p : BitVec 32 × BitVec 32) : BitVec 16 := (mapping p.1 p.2).setWidth 16

/-- A number that is a byte. -/
def IsByte (w : BitVec 32) : Prop := (w.setWidth 8).setWidth 32 = w

/-- Of the numbers that pass, the negative ones are no bytes. -/
theorem isByte_of_nonneg {w : BitVec 32} (hNonneg : 0 ≤ w.toInt) (hPasses : w.toInt ≤ 0xff) :
    IsByte w := by
  have hSmall : w.toNat < 256 := by
    have hWidth := w.isLt
    rw [BitVec.toInt_eq_toNat_cond] at hNonneg hPasses
    split at hNonneg <;> split at hPasses <;> omega
  refine BitVec.eq_of_toNat_eq ?_
  rw [BitVec.toNat_setWidth, BitVec.toNat_setWidth]
  omega

/-- The mask of the drive in an entry. -/
theorem getLsbD_ff (i : Nat) : (0xff#32).getLsbD i = decide (i < 8) := by
  rcases Nat.lt_or_ge i 32 with h | h
  · have hMask : ∀ i < 32, (0xff#32).getLsbD i = decide (i < 8) := by decide
    exact hMask i h
  · rw [BitVec.getLsbD_of_ge _ _ h, decide_eq_false (by omega)]

/-- What is left of a mapping below bit 8. -/
theorem mapping_low (drive mapped : BitVec 32) :
    mapping drive mapped &&& 0xff#32 = (drive.setWidth 8).setWidth 32 := by
  refine BitVec.eq_of_getLsbD_eq ?_
  intro i hi
  simp only [mapping, BitVec.getLsbD_and, BitVec.getLsbD_or, BitVec.getLsbD_shiftLeft,
    BitVec.getLsbD_setWidth, getLsbD_ff]
  grind

/-- What `do_map_drive` compares of an entry that it has stored. -/
theorem stored_low (p : BitVec 32 × BitVec 32) :
    (stored p).setWidth 32 &&& 0xff#32 = (p.1.setWidth 8).setWidth 32 := by
  rw [← mapping_low p.1 p.2]
  refine BitVec.eq_of_getLsbD_eq ?_
  intro i hi
  simp only [stored, BitVec.getLsbD_and, BitVec.getLsbD_setWidth, getLsbD_ff]
  grind

/-- The drive that the entry exchanges. -/
theorem lowByte_stored (p : BitVec 32 × BitVec 32) : lowByte (stored p) = p.1.setWidth 8 := by
  refine BitVec.eq_of_getLsbD_eq ?_
  intro i hi
  simp only [lowByte, stored, mapping, BitVec.getLsbD_or, BitVec.getLsbD_shiftLeft,
    BitVec.getLsbD_setWidth]
  grind

/-- The drive that it is exchanged with, if the first is a byte. -/
theorem highByte_stored {p : BitVec 32 × BitVec 32} (hDrive : IsByte p.1) :
    highByte (stored p) = p.2.setWidth 8 := by
  refine BitVec.eq_of_getLsbD_eq ?_
  intro i hi
  have hBit : p.1.getLsbD (8 + i) = false := by
    rw [← hDrive, BitVec.getLsbD_setWidth, BitVec.getLsbD_setWidth]
    simp
  simp only [highByte, stored, mapping, BitVec.getLsbD_or, BitVec.getLsbD_shiftLeft,
    BitVec.getLsbD_setWidth, BitVec.getLsbD_ushiftRight, hBit]
  grind

/-- The end mark is the mapping that `do_map_drive` leaves out. -/
theorem stored_ne_zero {p : BitVec 32 × BitVec 32} (hDrive : IsByte p.1) (hMapped : IsByte p.2)
    (hp : p ≠ (0, 0)) : stored p ≠ 0 := by
  intro h
  have hLow := lowByte_stored p
  have hHigh := highByte_stored hDrive
  rw [h] at hLow hHigh
  refine hp (Prod.ext ?_ ?_)
  · rw [← hDrive, ← hLow]
    rfl
  · rw [← hMapped, ← hHigh]
    rfl

/-- The numbers of a section pass. -/
def MapDrive.Passes (d : MapDrive) : Prop :=
  d.drive.toInt ≤ 0xff ∧ ∃ mapped, d.mapped = some mapped ∧ mapped.toInt ≤ 0xff

/-- The numbers of a section are not negative. -/
def MapDrive.Nonneg (d : MapDrive) : Prop :=
  0 ≤ d.drive.toInt ∧ ∀ mapped, d.mapped = some mapped → 0 ≤ mapped.toInt

/-- A drive and the one to be used for it: `0` for `0` is no exchange. -/
def MapDrive.exchange (d : MapDrive) : Option (BitVec 32 × BitVec 32) :=
  d.mapped.bind fun mapped => if d.drive = 0 ∧ mapped = 0 then none else some (d.drive, mapped)

/-- The exchanges that the `MAP-DRIVE` sections ask for. -/
def exchanges (drives : List MapDrive) : List (BitVec 32 × BitVec 32) :=
  drives.filterMap MapDrive.exchange

/-- A section asks for an exchange by its two drives. -/
theorem exchange_eq_some {d : MapDrive} {p : BitVec 32 × BitVec 32} (h : d.exchange = some p) :
    d.drive = p.1 ∧ d.mapped = some p.2 ∧ p ≠ (0, 0) := by
  obtain ⟨mapped, hMapped, hSome⟩ := Option.bind_eq_some_iff.mp h
  split at hSome
  · cases hSome
  · next hZero =>
    cases hSome
    exact ⟨rfl, hMapped, fun hp => hZero (Prod.ext_iff.mp hp)⟩

/-- No drive is the one that an older exchange is stored for, and the map has room for all of
them. Drives that are bytes are exchanged once each (`fits_iff`); a negative one is never found. -/
def Fits (ps : List (BitVec 32 × BitVec 32)) : Prop :=
  ps.Pairwise (fun p q => (p.1.setWidth 8).setWidth 32 ≠ q.1) ∧ ps.length ≤ drvmapSize

/-- For bytes: no drive is mapped twice, and there is room. -/
theorem fits_iff {ps : List (BitVec 32 × BitVec 32)} (hPs : ∀ p ∈ ps, IsByte p.1) :
    Fits ps ↔ (ps.map Prod.fst).Nodup ∧ ps.length ≤ drvmapSize := by
  unfold Fits List.Nodup
  rw [List.pairwise_map, List.Pairwise.iff_of_mem fun {p q} hp _ => by rw [hPs p hp]]

/-- What fits before the last entry fits. -/
theorem Fits.of_append {ps qs : List (BitVec 32 × BitVec 32)} (h : Fits (ps ++ qs)) : Fits ps := by
  obtain ⟨hPairs, hLength⟩ := h
  rw [List.length_append] at hLength
  exact ⟨(List.pairwise_append.mp hPairs).1, by omega⟩

/-- One more entry fits if it repeats no drive and there is room for it. -/
theorem fits_append_singleton {ps : List (BitVec 32 × BitVec 32)} (hPs : Fits ps)
    (q : BitVec 32 × BitVec 32) :
    Fits (ps ++ [q]) ↔
      (∀ p ∈ ps, (p.1.setWidth 8).setWidth 32 ≠ q.1) ∧ ps.length ≠ drvmapSize := by
  obtain ⟨hPairs, hLength⟩ := hPs
  unfold Fits
  rw [List.pairwise_append, List.length_append, List.length_singleton]
  constructor
  · rintro ⟨⟨-, -, hNew⟩, hRoom⟩
    exact ⟨fun p hp => hNew p hp q (List.mem_singleton_self q), by omega⟩
  · rintro ⟨hNew, hRoom⟩
    refine ⟨⟨hPairs, List.pairwise_singleton _ _, ?_⟩, by omega⟩
    intro p hp q' hq
    rw [List.mem_singleton.mp hq]
    exact hNew p hp

/-- The first comparison finds nothing that the second does not: a drive that is part of a
word that is stored is a byte. -/
theorem mappingClash_eq_none {drive mapped : BitVec 32} (hPasses : drive.toInt ≤ 0xff)
    (p : BitVec 32 × BitVec 32) :
    mappingClash drive mapped (stored p) = none ↔ (p.1.setWidth 8).setWidth 32 ≠ drive := by
  have hFirst : (stored p).setWidth 32 = mapping drive mapped →
      (p.1.setWidth 8).setWidth 32 = drive := by
    intro hSame
    have hSign : drive.msb = false := by
      have hBit := congrArg (BitVec.getLsbD · 31) hSame
      simp only [mapping, BitVec.getLsbD_setWidth, BitVec.getLsbD_or] at hBit
      rw [BitVec.msb_eq_getLsbD_last]
      grind
    have hByte : IsByte drive :=
      isByte_of_nonneg (BitVec.toInt_nonneg_of_msb_false hSign) hPasses
    calc (p.1.setWidth 8).setWidth 32 = (stored p).setWidth 32 &&& 0xff#32 := (stored_low p).symm
      _ = mapping drive mapped &&& 0xff#32 := by rw [hSame]
      _ = (drive.setWidth 8).setWidth 32 := mapping_low drive mapped
      _ = drive := hByte
  unfold mappingClash
  rw [stored_low]
  split
  · next hSame => exact ⟨nofun, fun h => absurd (hFirst hSame) h⟩
  · split
    · next hDrive => exact ⟨nofun, fun h => absurd hDrive h⟩
    · next hDrive => exact ⟨fun _ => hDrive, fun _ => rfl⟩

/-- `do_map_drive` finds no clash if no entry is for the drive. -/
theorem mappings_eq_none {drive : BitVec 32} (hPasses : drive.toInt ≤ 0xff) (mapped : BitVec 32)
    (ps : List (BitVec 32 × BitVec 32)) :
    (ps.map stored).findSome? (mappingClash drive mapped) = none ↔
      ∀ p ∈ ps, (p.1.setWidth 8).setWidth 32 ≠ drive := by
  rw [List.findSome?_eq_none_iff, List.forall_mem_map]
  exact forall₂_congr fun p _ => mappingClash_eq_none hPasses p

/-- What is added keeps the map as it must be, and only what would not is refused. -/
theorem doMapDrive_eq {ps : List (BitVec 32 × BitVec 32)} (hPs : Fits ps) (d : MapDrive)
    (drvMap : List (BitVec 16)) :
    doMapDrive (ps.map stored) d = .ok drvMap ↔
      d.Passes ∧ Fits (ps ++ d.exchange.toList) ∧
        drvMap = (ps ++ d.exchange.toList).map stored := by
  unfold doMapDrive
  by_cases hDrive : 0xff < d.drive.toInt
  · rw [if_pos hDrive]
    exact ⟨nofun, fun h => absurd h.1.1 (not_le.mpr hDrive)⟩
  rw [if_neg hDrive]
  cases hTo : d.mapped with
  | none =>
    -- a section without TO= is refused
    refine ⟨nofun, ?_⟩
    intro h
    obtain ⟨mapped, hSome, -⟩ := h.1.2
    cases hTo.symm.trans hSome
  | some mapped =>
    dsimp only
    by_cases hMapped : 0xff < mapped.toInt
    · rw [if_pos hMapped]
      refine ⟨nofun, ?_⟩
      intro h
      obtain ⟨mapped', hSome, hPasses⟩ := h.1.2
      cases hTo.symm.trans hSome
      exact absurd hPasses (not_le.mpr hMapped)
    have hPasses : d.Passes := ⟨not_lt.mp hDrive, mapped, hTo, not_lt.mp hMapped⟩
    rw [if_neg hMapped, and_iff_right hPasses, MapDrive.exchange, hTo, Option.bind_some]
    by_cases hZero : d.drive = 0 ∧ mapped = 0
    · -- the entry that would end the list is not stored
      rw [if_pos hZero, if_pos hZero, Option.toList_none, List.append_nil, and_iff_right hPs]
      exact ⟨fun h => by cases h; rfl, fun h => by rw [h]⟩
    · rw [if_neg hZero, if_neg hZero, Option.toList_some, fits_append_singleton hPs,
        ← mappings_eq_none hPasses.1 mapped, List.map_append, List.map_singleton]
      cases hClash : (ps.map stored).findSome? (mappingClash d.drive mapped) with
      | some e => exact ⟨nofun, fun h => nomatch h.1.1⟩
      | none =>
        dsimp only
        rw [List.length_map]
        by_cases hFull : ps.length = drvmapSize
        · rw [if_pos hFull]
          exact ⟨nofun, fun h => absurd hFull h.1.2⟩
        · rw [if_neg hFull]
          exact ⟨fun h => ⟨⟨rfl, hFull⟩, by cases h; rfl⟩, fun h => by rw [h.2]; rfl⟩

/-- **The options are accepted** exactly when each of them passes and the exchanges fit. -/
theorem mapDrives_eq (drives : List MapDrive) {ps : List (BitVec 32 × BitVec 32)} (hPs : Fits ps)
    (drvMap : List (BitVec 16)) :
    mapDrives drives (ps.map stored) = .ok drvMap ↔
      (∀ d ∈ drives, d.Passes) ∧ Fits (ps ++ exchanges drives) ∧
        drvMap = (ps ++ exchanges drives).map stored := by
  induction drives generalizing ps with
  | nil =>
    rw [exchanges, List.filterMap_nil, List.append_nil]
    constructor
    · intro h
      cases h
      exact ⟨nofun, hPs, rfl⟩
    · intro h
      rw [h.2.2]
      rfl
  | cons d drives ih =>
    have hSplit : ps ++ exchanges (d :: drives) =
        (ps ++ d.exchange.toList) ++ exchanges drives := by
      rw [List.append_assoc]
      unfold exchanges
      cases hExchange : d.exchange with
      | none => rw [List.filterMap_cons_none hExchange]; rfl
      | some p => rw [List.filterMap_cons_some hExchange]; rfl
    rw [hSplit, List.forall_mem_cons]
    constructor
    · intro h
      obtain ⟨drvMap₁, hFirst, hRest⟩ := bind_ok h
      obtain ⟨hPasses, hFits, rfl⟩ := (doMapDrive_eq hPs d drvMap₁).mp hFirst
      obtain ⟨hRest, hMap⟩ := (ih hFits).mp hRest
      exact ⟨⟨hPasses, hRest⟩, hMap⟩
    · intro h
      -- what all exchanges fit with, the first ones fit with
      have hFits := h.2.1.of_append
      have hFirst := (doMapDrive_eq hPs d _).mpr ⟨h.1.1, hFits, rfl⟩
      show (doMapDrive (ps.map stored) d >>= fun drvMap => mapDrives drives drvMap) = _
      rw [hFirst]
      exact (ih hFits).mpr ⟨h.1.2, h.2⟩

/-- The options that `do_map_drive` accepts. -/
def Acceptable (drives : List MapDrive) : Prop :=
  (∀ d ∈ drives, d.Passes) ∧ Fits (exchanges drives)

/-- The drive to be used for a drive. -/
def exchangeFor (drives : List MapDrive) (drive : Byte) : Option Byte :=
  ((exchanges drives).find? (·.1 == drive.setWidth 32)).map fun p => p.2.setWidth 8

/-- Drives that are not negative and pass the test are bytes. -/
theorem exchanges_bytes {drives : List MapDrive} (hPasses : ∀ d ∈ drives, d.Passes)
    (hNonneg : ∀ d ∈ drives, d.Nonneg) :
    ∀ p ∈ exchanges drives, IsByte p.1 ∧ IsByte p.2 ∧ p ≠ (0, 0) := by
  intro p hp
  obtain ⟨d, hd, hExchange⟩ := List.mem_filterMap.mp hp
  obtain ⟨hDrive, hMapped, hZero⟩ := exchange_eq_some hExchange
  obtain ⟨hDrivePasses, mapped, hSome, hMappedPasses⟩ := hPasses d hd
  obtain ⟨hDriveNonneg, hMappedNonneg⟩ := hNonneg d hd
  rw [hMapped] at hSome
  cases hSome
  exact ⟨isByte_of_nonneg (hDrive ▸ hDriveNonneg) (hDrive ▸ hDrivePasses),
    isByte_of_nonneg (hMappedNonneg _ hMapped) hMappedPasses, hZero⟩

/-- The search of `new13` through the map. -/
theorem mapfl_stored (ps : List (BitVec 32 × BitVec 32))
    (hPs : ∀ p ∈ ps, IsByte p.1 ∧ IsByte p.2 ∧ p ≠ (0, 0)) (stale : List (BitVec 16))
    (drive : Byte) :
    mapfl (drvmapWords (ps.map stored) stale) drive =
      (((ps.find? (·.1 == drive.setWidth 32)).map stored).getD 0,
        ((ps.find? (·.1 == drive.setWidth 32)).map fun p => p.2.setWidth 8).getD drive) := by
  induction ps with
  | nil => rfl
  | cons p ps ih =>
    obtain ⟨⟨hDrive, hMapped, hp⟩, hPs⟩ := List.forall_mem_cons.mp hPs
    show (if stored p = 0 then _ else if drive = lowByte (stored p) then
      (stored p, highByte (stored p)) else mapfl (drvmapWords (ps.map stored) stale) drive) = _
    rw [if_neg (stored_ne_zero hDrive hMapped hp), lowByte_stored, highByte_stored hDrive]
    by_cases hSame : drive = p.1.setWidth 8
    · have hFound : p.1 = drive.setWidth 32 := by rw [hSame, hDrive]
      rw [if_pos hSame, List.find?_cons_of_pos (by simp [hFound])]
      rfl
    · have hOther : p.1 ≠ drive.setWidth 32 := by
        intro h
        refine hSame ?_
        rw [h, BitVec.setWidth_setWidth_of_le _ (by decide), BitVec.setWidth_eq]
      rw [if_neg hSame, List.find?_cons_of_neg (by simpa using hOther)]
      exact ih hPs

-- ---------------------------------------------------------------------------
-- A call
-- ---------------------------------------------------------------------------

variable {σ : Type} (old : Regs → σ → Regs × σ)

/-- What a call of the old handler is made of: its registers with another drive, and the
flags without the two that `int` clears. -/
def Regs.called (r : Regs) (drive : Byte) : Regs :=
  { r with dx := setLow r.dx drive, flags := r.flags &&& 0xfcff#16 }

/-- `int 0x13` on exchanged drives: the other drive is asked, and the caller finds the one
that it asked for, where the function does not return something else in its place. -/
def exchangedCall (drives : List MapDrive) (r : Regs) (s : σ) : Regs × σ :=
  let drive := lowByte r.dx
  let result := old (r.called ((exchangeFor drives drive).getD drive)) s
  if KeepsDl r.ax ∨ exchangeFor drives drive = none then result
  else ({ result.1 with dx := setLow result.1.dx drive }, result.2)

/-- From `int` to `iret`. -/
theorem new13_interrupt {drvmap : List (BitVec 16)} (below : List (BitVec 16)) {m : Machine}
    (ip cs : BitVec 16) {s : σ} {found : BitVec 16 × Byte} {result : Regs × σ}
    (hForward : m.regs.flags.getLsbD 10 = false)
    (hFound : mapfl drvmap (lowByte m.regs.dx) = found)
    (hResult : old (m.regs.called found.2) s = result) :
    new13 old below drvmap (m.interrupt ip cs) s =
      ({ m with
          regs := { result.1 with
            dx := if KeepsDl m.regs.ax ∨ found.1 = 0 then result.1.dx
              else setLow result.1.dx (lowByte found.1) }
          ip, cs }, result.2) := by
  -- INT clears the interrupt and the trap flag only, so lodsw goes upwards
  have hFlag : (m.interrupt ip cs).regs.flags.getLsbD 10 = false := by
    show (m.regs.flags &&& 0xfcff#16).getLsbD 10 = false
    rw [BitVec.getLsbD_and, hForward, Bool.false_and]
  have hRead : mapfl (lodsWords below drvmap (m.interrupt ip cs).regs.flags)
      (lowByte (m.interrupt ip cs).regs.dx) = found := by
    rw [lodsWords, if_neg (by rw [hFlag]; decide)]
    exact hFound
  have hEntry := new13Entry_eq below drvmap (m.interrupt ip cs) hRead
  -- after the entry the frame is one word above the stack pointer
  have hFrame : (new13Entry below drvmap (m.interrupt ip cs)).Framed 1 := by
    rw [hEntry]
    show (m.interrupt ip cs).sp - 4 = (m.interrupt ip cs).sp - 6 + BitVec.ofNat 16 2
    grind
  have hStack : (new13Entry below drvmap (m.interrupt ip cs)).stack =
      (m.regs.flags &&& 0xfcff#16) :: m.regs.bp :: m.regs.ax :: ip :: cs :: m.regs.flags ::
        m.stack := by
    rw [hEntry]
    rfl
  have hMapped := nomap_eq hFrame hStack
  rw [hEntry] at hMapped
  -- the old handler returns with IRET to the words that were pushed for it
  have hCalled : callOld old (nomap (new13Entry below drvmap (m.interrupt ip cs))) s =
      ({ regs := result.1, sp := (m.interrupt ip cs).sp - 6 + 2
         stack := m.regs.bp :: m.regs.ax :: ip :: cs :: found.1 :: m.stack, ip := m.ip, cs := m.cs },
        result.2) := by
    rw [hEntry, hMapped, ← hResult]
    rfl
  generalize hSp : (m.interrupt ip cs).sp - 6 + 2 = sp at hCalled
  have hBack := new13Back_eq (m := { regs := result.1, sp
                                     stack := m.regs.bp :: m.regs.ax :: ip :: cs :: found.1 :: m.stack
                                     ip := m.ip, cs := m.cs }) rfl
  have hLeft := done13_eq (m := new13Back ⟨result.1, sp, _, m.ip, m.cs⟩)
    (by
      rw [hBack]
      show sp - 2 = sp - 2 - 2 + BitVec.ofNat 16 2
      grind) (by rw [hBack])
  -- every word that new13 has pushed is gone again
  have hRestored : sp - 2 - 2 + 14 = m.sp := by
    rw [← hSp]
    show m.sp - 2 - 2 - 2 - 6 + 2 - 2 - 2 + 14 = m.sp
    grind
  unfold new13
  rw [hCalled]
  show (done13 (new13Back _), result.2) = _
  rw [hLeft, hBack, hRestored]

/-- **Exchanged drives.** The options are accepted exactly when no number is above 255, no drive
is the one that an older exchange is stored for, and there are no more exchanges than the map has
room for. Where no number is negative and the direction flag is clear, a call then asks the drive
that stands for the one in DL; the stack is as it was, and every register is as the old handler
left it. -/
theorem drives_exchanged (drives : List MapDrive) :
    ((∃ drvMap, mapDrives drives [] = .ok drvMap) ↔ Acceptable drives) ∧
      ∀ drvMap, mapDrives drives [] = .ok drvMap → (∀ d ∈ drives, d.Nonneg) →
        ∀ (below stale : List (BitVec 16)) (m : Machine) (ip cs : BitVec 16) (s : σ),
          m.regs.flags.getLsbD 10 = false →
            new13 old below (drvmapWords drvMap stale) (m.interrupt ip cs) s =
              ({ m with regs := (exchangedCall old drives m.regs s).1, ip, cs },
                (exchangedCall old drives m.regs s).2) := by
  have hStart : Fits [] := ⟨List.Pairwise.nil, Nat.zero_le _⟩
  have hMade := fun drvMap => mapDrives_eq drives hStart drvMap
  refine ⟨⟨?_, ?_⟩, ?_⟩
  · rintro ⟨drvMap, hMap⟩
    obtain ⟨hPasses, hFits, -⟩ := (hMade drvMap).mp hMap
    exact ⟨hPasses, hFits⟩
  · rintro ⟨hPasses, hFits⟩
    exact ⟨_, (hMade _).mpr ⟨hPasses, hFits, rfl⟩⟩
  · intro drvMap hMap hNonneg below stale m ip cs s hForward
    -- the list in chain.S is that of the exchanges; a drive is looked up in both
    obtain ⟨hPasses, -, hWords⟩ := (hMade drvMap).mp hMap
    have hBytes := exchanges_bytes hPasses hNonneg
    rw [hWords, List.nil_append,
      new13_interrupt old below ip cs hForward (mapfl_stored _ hBytes stale _) rfl]
    unfold exchangedCall exchangeFor
    dsimp only
    generalize lowByte m.regs.dx = drive
    generalize hFind : (exchanges drives).find? (·.1 == drive.setWidth 32) = found
    cases found with
    | none => simp
    | some p =>
      have hDrive : p.1 = drive.setWidth 32 := by simpa using List.find?_some hFind
      have hLow : lowByte (stored p) = drive := by
        rw [lowByte_stored, hDrive, BitVec.setWidth_setWidth_of_le _ (by decide),
          BitVec.setWidth_eq]
      obtain ⟨hDrive, hMapped, hp⟩ := hBytes p (List.mem_of_find?_eq_some hFind)
      have hEntry := stored_ne_zero hDrive hMapped hp
      simp only [Option.map_some, Option.getD_some, hEntry, or_false, hLow, reduceCtorEq]
      split <;> rfl

/-- A handler that notes which drive is asked. -/
def notesDrive (r : Regs) (asked : List Byte) : Regs × List Byte := (r, asked ++ [lowByte r.dx])

/-- A caller that reads from the first hard disk. -/
def someCaller : Machine where
  regs := ⟨0x0201, 0x7c00, 1, 0x80, 0, 0, 0, 0, 0, 0x46⟩
  sp := 0x7c00
  stack := []

/-- Two disks in each other's place. -/
def someDrives : List MapDrive :=
  [⟨0x80, some 0x81⟩, ⟨0, some 0⟩, ⟨0x81, some 0x80⟩]

/-- The first two hard disks exchanged: a call for the first reaches the second. -/
theorem drives_exchanged_swapped :
    mapDrives someDrives [] = .ok [0x8180, 0x8081] ∧
      new13 notesDrive [] (drvmapWords [0x8180, 0x8081] []) (someCaller.interrupt 0 0) [] =
        (someCaller, [0x81]) := by
  have hMap : mapDrives someDrives [] = .ok [0x8180, 0x8081] := by decide
  have hNonneg : ∀ d ∈ someDrives, d.Nonneg := by
    unfold someDrives
    simp only [List.forall_mem_cons]
    refine ⟨⟨by decide, ?_⟩, ⟨by decide, ?_⟩, ⟨by decide, ?_⟩, nofun⟩ <;>
      · rintro _ ⟨⟩
        decide
  refine ⟨hMap, ?_⟩
  rw [(drives_exchanged notesDrive someDrives).2 _ hMap hNonneg [] [] someCaller 0 0 [] rfl]
  decide

end MultiOS.Lilo
