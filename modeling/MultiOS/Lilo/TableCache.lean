import MultiOS.Lib.GuardedWrites
import MultiOS.Lib.Outcome
import MultiOS.Model.Chain

/-!
# LILO — partition tables at boot time

`chain.S` keeps the table of one disk in memory while the rules are for that
disk, and writes it back when a rule is for another one. `rewrite` makes the same
changes on the disks themselves, without a table in memory.
`tables_rewritten` compares the two: if no call of `int 0x13` fails the disks are
the same, and if one fails, they are as after the rules up to a change of the
drive, with nothing of the rules after it.

`dirty` is never cleared, so after the first change tables are also written back
that were not changed. This makes no difference to the disks.
-/

namespace MultiOS.Lilo

open Lib

-- ---------------------------------------------------------------------------
-- Rules
-- ---------------------------------------------------------------------------

/-- What a rule says. -/
structure Rule where
  bios : Byte
  offset : Byte
  expect : Byte
  set : Byte
  deriving DecidableEq, Repr

/-- The rule in a word of `prt_map`. -/
def ruleOf (word : BitVec 32) : Rule :=
  ⟨word.setWidth 8, (word >>> 8).setWidth 8, (word >>> 16).setWidth 8, (word >>> 24).setWidth 8⟩

/-- A rule as `add_rule` packs it and chain.S unpacks it. -/
theorem ruleOf_ruleWord (bios offset expect set : Byte) :
    ruleOf (ruleWord bios offset expect set) = ⟨bios, offset, expect, set⟩ := by
  unfold ruleOf ruleWord
  rw [Rule.mk.injEq]
  refine ⟨?_, ?_, ?_, ?_⟩
  · ext i hi
    simp
  all_goals
    ext i hi
    simp only [BitVec.getElem_setWidth, BitVec.getLsbD_ushiftRight, BitVec.getLsbD_or,
      BitVec.getLsbD_shiftLeft, BitVec.getLsbD_setWidth]
    grind

/-- The rules that `chain.S` reads: a rule for drive 0 is taken for the end. -/
def rulesOf (prtMap : List (BitVec 32)) : List Rule :=
  (prtMap.map ruleOf).takeWhile fun r => r.bios ≠ 0

/-- The rule as a write to one byte of one disk. -/
def Rule.write (r : Rule) : GuardedWrite (Byte × Fin 512) Byte :=
  ⟨(r.bios, tableIndex r.offset), r.expect, r.set⟩

/-- The changes, made on the disks. -/
def rewrite (rules : List Rule) (disks : Byte → BootSector) : Byte → BootSector :=
  fun d i => runAll (rules.map Rule.write) (fun p => disks p.1 p.2) (d, i)

/-- Rules one after the other. -/
theorem rewrite_append (rules rules' : List Rule) (disks : Byte → BootSector) :
    rewrite (rules ++ rules') disks = rewrite rules' (rewrite rules disks) := by
  funext d i
  unfold rewrite
  rw [List.map_append, runAll_append]

/-- One rule. -/
theorem rewrite_one (r : Rule) (disks : Byte → BootSector) :
    rewrite [r] disks =
      if disks r.bios (tableIndex r.offset) = r.expect then
        Function.update disks r.bios
          (Function.update (disks r.bios) (tableIndex r.offset) r.set)
      else disks := by
  funext d i
  show r.write.run (fun p => disks p.1 p.2) (d, i) = _
  unfold GuardedWrite.run Rule.write
  simp only
  split
  · by_cases hDrive : d = r.bios
    · subst hDrive
      rw [Function.update_self]
      by_cases hIndex : i = tableIndex r.offset
      · rw [hIndex, Function.update_self, Function.update_self]
      · rw [Function.update_of_ne hIndex, Function.update_of_ne]
        exact fun h => hIndex (Prod.ext_iff.mp h).2
    · rw [Function.update_of_ne hDrive, Function.update_of_ne]
      exact fun h => hDrive (Prod.ext_iff.mp h).1
  · rfl

/-- The two words of a rule, byte by byte. -/
theorem rule_bytes (word : BitVec 32) :
    lowByte (word.setWidth 16) = (ruleOf word).bios ∧
      highByte (word.setWidth 16) = (ruleOf word).offset ∧
      lowByte ((word >>> 16).setWidth 16) = (ruleOf word).expect ∧
      highByte ((word >>> 16).setWidth 16) = (ruleOf word).set := by
  unfold lowByte highByte ruleOf
  refine ⟨?_, ?_, ?_, ?_⟩
  all_goals
    ext i hi
    simp
  · grind
  · grind

-- ---------------------------------------------------------------------------
-- The table in memory
-- ---------------------------------------------------------------------------

namespace ChainState

/-- The first sectors of the disks, with the table in memory for the one it is of. -/
def logical (c : ChainState) : Byte → BootSector :=
  if c.cache = 0 then c.disks else Function.update c.disks c.cache c.table

/-- A table that is not dirty is as on its disk, and that of the boot drive is at
PARTS_LOAD. -/
structure Coherent (drive : Byte) (c : ChainState) : Prop where
  clean : c.cache ≠ 0 → c.dirty = false → c.table = c.disks c.cache
  place : c.cache ≠ 0 → (c.cbxLoad = true ↔ c.cache = drive)

@[simp] theorem table_setTable (c : ChainState) (sector : BootSector) :
    (c.setTable sector).table = sector := by
  unfold setTable table
  split <;> simp [*]

@[simp] theorem setTable_disks (c : ChainState) (sector : BootSector) :
    (c.setTable sector).disks = c.disks := by
  unfold setTable
  split <;> rfl

@[simp] theorem setTable_cache (c : ChainState) (sector : BootSector) :
    (c.setTable sector).cache = c.cache := by
  unfold setTable
  split <;> rfl

@[simp] theorem setTable_cbxLoad (c : ChainState) (sector : BootSector) :
    (c.setTable sector).cbxLoad = c.cbxLoad := by
  unfold setTable
  split <;> rfl

/-- PARTS_LOAD is written only while the cached table is that of the drive that
boots. -/
theorem setTable_partsLoad (c : ChainState) (sector : BootSector) :
    (c.setTable sector).partsLoad = if c.cbxLoad then sector else c.partsLoad := by
  unfold setTable
  split <;> rfl

end ChainState

section
variable (answered : Nat → Bool) {drive : Byte}

/-- Before a call fails nothing was moved. -/
theorem flush_error {c c' : ChainState} (h : flush answered c = .error c') :
    c'.disks = c.disks := by
  unfold flush at h
  split at h
  · cases h
  split at h
  · cases h
  split at h
  · cases h
  · cases h
    rfl

/-- The disks as they are once the cached table is written back. -/
theorem ChainState.logical_of_cache {c : ChainState} (h : c.cache ≠ 0) :
    c.logical = Function.update c.disks c.cache c.table :=
  if_neg h

/-- A table that is not to be written back is as on its disk. -/
theorem ChainState.Coherent.logical_eq {c : ChainState} (hc : c.Coherent drive)
    (h : c.dirty = false ∨ c.cache = 0) : c.logical = c.disks := by
  unfold ChainState.logical
  split
  · rfl
  · next hCache =>
    rw [hc.clean hCache (h.resolve_right hCache), Function.update_eq_self]

/-- What `flush` leaves: the disks are as they should be, and nothing else is changed. -/
structure Flushed (drive : Byte) (c c' : ChainState) : Prop where
  coherent : c'.Coherent drive
  disks : c'.disks = c.logical
  cache : c'.cache = c.cache
  partsLoad : c'.partsLoad = c.partsLoad

/-- A write that succeeds brings the disk up to date. -/
theorem flush_ok {c c' : ChainState} (hc : c.Coherent drive) (h : flush answered c = .ok c') :
    Flushed drive c c' := by
  unfold flush at h
  split at h
  · next hClean =>
    cases h
    exact ⟨hc, (hc.logical_eq (Or.inl (by simpa using hClean))).symm, rfl, rfl⟩
  · next hDirty =>
    split at h
    · next hCache =>
      cases h
      exact ⟨hc, (hc.logical_eq (Or.inr hCache)).symm, rfl, rfl⟩
    · next hCache =>
      split at h
      · cases h
        have hTrue : c.dirty = true := by simpa using hDirty
        refine ⟨⟨fun _ hFalse => ?_, hc.place⟩, (ChainState.logical_of_cache hCache).symm, rfl, rfl⟩
        exact absurd (hTrue.symm.trans hFalse) (by decide)
      · cases h

/-- What stands before `incache`: the table of the drive is in memory. -/
structure Fetched (drive bios : Byte) (c c' : ChainState) : Prop where
  coherent : c'.Coherent drive
  cache : c'.cache = bios
  logical : c'.logical = c.logical
  disks : (c.cache = bios ∧ c'.disks = c.disks) ∨ (c.cache ≠ bios ∧ c'.disks = c.logical)
  partsLoad : c'.partsLoad = if bios = drive then c'.logical drive else c.partsLoad

/-- With the table of a disk in memory as it is on the disk, nothing is pending. -/
theorem ChainState.logical_of_table {c : ChainState} (h : c.table = c.disks c.cache) :
    c.logical = c.disks := by
  unfold ChainState.logical
  split
  · rfl
  · rw [h, Function.update_eq_self]

/-- The table of another disk is read after the old one was written. -/
theorem loadTable_ok {bios : Byte} {c c₁ c' : ChainState} (hOther : c.cache ≠ bios)
    (hFlushed : Flushed drive c c₁) (h : loadTable answered drive bios c₁ = .ok c') :
    Fetched drive bios c c' := by
  unfold loadTable at h
  simp only at h
  split at h
  · rw [Except.ok.injEq] at h
    have hDisks : c'.disks = c₁.disks := by rw [← h, ChainState.setTable_disks]
    have hCache : c'.cache = bios := by rw [← h, ChainState.setTable_cache]
    have hTable : c'.table = c'.disks c'.cache := by
      rw [hDisks, hCache, ← h, ChainState.table_setTable]
    have hPlace : c'.cbxLoad = (bios == drive) := by rw [← h, ChainState.setTable_cbxLoad]
    have hLogical : c'.logical = c.logical := by
      rw [ChainState.logical_of_table hTable, hDisks, hFlushed.disks]
    have hBoot : c'.partsLoad = if bios = drive then c₁.disks bios else c₁.partsLoad := by
      rw [← h, ChainState.setTable_partsLoad]
      simp only [beq_iff_eq]
    refine ⟨⟨fun _ _ => hTable, fun _ => ?_⟩, hCache, hLogical, Or.inr ⟨hOther, ?_⟩, ?_⟩
    · rw [hPlace, hCache, beq_iff_eq]
    · rw [hDisks, hFlushed.disks]
    · rw [hBoot, hLogical, hFlushed.disks, hFlushed.partsLoad]
      split
      · next hEq => rw [hEq]
      · rfl
  · cases h

/-- A read that fails changes no disk. -/
theorem loadTable_error {bios : Byte} {c c' : ChainState}
    (h : loadTable answered drive bios c = .error c') : c'.disks = c.disks := by
  unfold loadTable at h
  simp only at h
  split at h
  · cases h
  · cases h
    rfl

/-- After `fetch_table` the cache holds the table of the disk. -/
theorem fetchTable_ok {bios : Byte} {c c' : ChainState} (hBios : bios ≠ 0)
    (hc : c.Coherent drive) (h : fetchTable answered drive bios c = .ok c') :
    Fetched drive bios c c' := by
  unfold fetchTable at h
  split at h
  · next hSame =>
    cases h
    have hCache : c.cache ≠ 0 := hSame ▸ hBios
    refine ⟨hc, hSame.symm, rfl, Or.inl ⟨hSame.symm, rfl⟩, ?_⟩
    split
    · next hDrive =>
      have hLoad := (hc.place hCache).mpr (hSame.symm.trans hDrive)
      rw [ChainState.logical_of_cache hCache, ← hDrive, hSame, Function.update_self,
        ChainState.table, if_pos hLoad]
    · rfl
  · next hOther =>
    obtain ⟨c₁, hFlush, hLoad⟩ := bind_ok h
    exact loadTable_ok answered (Ne.symm hOther) (flush_ok answered hc hFlush) hLoad

/-- A call that fails leaves the disks as they were, or with the table written back. -/
theorem fetchTable_error {bios : Byte} {c c' : ChainState} (hc : c.Coherent drive)
    (h : fetchTable answered drive bios c = .error c') :
    c.cache ≠ bios ∧ (c'.disks = c.disks ∨ c'.disks = c.logical) := by
  unfold fetchTable at h
  split at h
  · cases h
  · next hOther =>
    refine ⟨Ne.symm hOther, ?_⟩
    cases hFlush : flush answered c with
    | error c₁ =>
      rw [hFlush] at h
      cases h
      exact Or.inl (flush_error answered hFlush)
    | ok c₁ =>
      rw [hFlush] at h
      have hDisks := (flush_ok answered hc hFlush).disks
      exact Or.inr ((loadTable_error answered h).trans hDisks)

-- ---------------------------------------------------------------------------
-- One rule
-- ---------------------------------------------------------------------------

/-- What stands at `nocng`. -/
structure Changed (drive : Byte) (r : Rule) (c c' : ChainState) : Prop where
  coherent : c'.Coherent drive
  cache : c'.cache = c.cache
  disks : c'.disks = c.disks
  logical : c'.logical = rewrite [r] c.logical
  partsLoad : c'.partsLoad = if r.bios = drive then c'.logical drive else c.partsLoad

/-- A rule acts on the cached table as on the disk. -/
theorem changeTable_changed {r : Rule} {c : ChainState} (hBios : r.bios ≠ 0)
    (hCache : c.cache = r.bios) (hc : c.Coherent drive) :
    Changed drive r c (changeTable r.offset r.expect r.set c) := by
  have hLoaded : c.cache ≠ 0 := hCache ▸ hBios
  have hLogical := ChainState.logical_of_cache hLoaded
  have hTable : c.logical r.bios = c.table := by rw [hLogical, hCache, Function.update_self]
  have hRule := rewrite_one r c.logical
  rw [hTable] at hRule
  unfold changeTable
  split
  · next hMatch =>
    -- the byte is as expected: it is set in memory, and the table is dirty
    rw [if_pos hMatch] at hRule
    generalize hNew : Function.update c.table (tableIndex r.offset) r.set = new at hRule ⊢
    have hUpdate : ({ c.setTable new with dirty := true } : ChainState).logical =
        Function.update c.disks c.cache new := by
      rw [ChainState.logical_of_cache (by simpa using hLoaded)]
      show Function.update (c.setTable new).disks (c.setTable new).cache (c.setTable new).table = _
      rw [ChainState.setTable_disks, ChainState.setTable_cache, ChainState.table_setTable]
    have hAfter : ({ c.setTable new with dirty := true } : ChainState).logical =
        rewrite [r] c.logical := by
      rw [hUpdate, hRule, hLogical, ← hCache, Function.update_idem]
    refine ⟨⟨fun _ hFalse => ?_, fun _ => ?_⟩, ?_, ?_, hAfter, ?_⟩
    · cases hFalse
    · simp only [ChainState.setTable_cbxLoad, ChainState.setTable_cache]
      exact hc.place hLoaded
    · exact ChainState.setTable_cache c new
    · exact ChainState.setTable_disks c new
    · rw [hUpdate, ← hCache]
      refine (ChainState.setTable_partsLoad c new).trans ?_
      split
      · next hLoad =>
        have hDrive := (hc.place hLoaded).mp hLoad
        rw [if_pos hDrive, hDrive, Function.update_self]
      · next hLoad => rw [if_neg fun hDrive => hLoad ((hc.place hLoaded).mpr hDrive)]
  · next hOther =>
    -- otherwise neither the table nor the disk is changed
    rw [if_neg hOther] at hRule
    refine ⟨hc, rfl, rfl, hRule.symm, ?_⟩
    split
    · next hDrive =>
      have hLoad := (hc.place hLoaded).mpr (hCache.trans hDrive)
      rw [← hDrive, hTable, ChainState.table, if_pos hLoad]
    · rfl

-- ---------------------------------------------------------------------------
-- All rules
-- ---------------------------------------------------------------------------

/-- The disks as they are within the loop: `done` are the rules that were written back,
`current` those of the table in memory. -/
structure Progress (drive : Byte) (start c : ChainState) (done current : List Rule) : Prop where
  coherent : c.Coherent drive
  disks : c.disks = rewrite done start.disks
  logical : c.logical = rewrite (done ++ current) start.disks
  current_cache : ∀ r ∈ current, r.bios = c.cache
  done_cache : ∀ r, done.getLast? = some r → r.bios ≠ c.cache
  current_ne_nil : done ≠ [] → current ≠ []
  partsLoad : c.partsLoad =
    if (done ++ current).any (·.bios == drive) then c.logical drive else start.partsLoad

/-- The drive changes between the rules. -/
def Between (done rest : List Rule) : Prop :=
  ∀ r r', done.getLast? = some r → rest.head? = some r' → r.bios ≠ r'.bios

/-- Before the first rule. -/
theorem Progress.start {c : ChainState} (hCache : c.cache = 0) : Progress drive c c [] [] where
  coherent := ⟨fun h => absurd hCache h, fun h => absurd hCache h⟩
  disks := rfl
  logical := if_pos hCache
  current_cache := nofun
  done_cache := nofun
  current_ne_nil := fun h => absurd rfl h
  partsLoad := rfl

/-- The last rule is for the drive in memory. -/
theorem Progress.last {start c : ChainState} {done current : List Rule}
    (h : Progress drive start c done current) {r : Rule}
    (hr : (done ++ current).getLast? = some r) : r.bios = c.cache := by
  by_cases hNil : current = []
  · have hDone : done = [] := by
      by_contra hDone
      exact h.current_ne_nil hDone hNil
    rw [hNil, hDone] at hr
    cases hr
  · rw [List.getLast?_append, List.getLast?_eq_some_getLast hNil] at hr
    cases hr
    exact h.current_cache _ (List.getLast_mem hNil)

/-- What was written back ends where the drive changes. -/
theorem Progress.between {start c : ChainState} {done current : List Rule}
    (h : Progress drive start c done current) (rest : List Rule) :
    Between done (current ++ rest) := by
  intro r r' hr hr'
  have hDone : done ≠ [] := by
    rintro rfl
    cases hr
  obtain ⟨r₁, current', rfl⟩ := List.exists_cons_of_ne_nil (h.current_ne_nil hDone)
  obtain rfl : r₁ = r' := Option.some.inj hr'
  rw [h.current_cache r₁ List.mem_cons_self]
  exact h.done_cache r hr

/-- What a failure leaves: the rules up to a change of the drive, and nothing else. -/
def Stopped (start c : ChainState) (rules : List Rule) : Prop :=
  ∃ done rest, rules = done ++ rest ∧ Between done rest ∧ c.disks = rewrite done start.disks

/-- A rule for another disk changes nothing here. -/
theorem rewrite_one_of_ne {r : Rule} {d : Byte} (h : r.bios ≠ d) (disks : Byte → BootSector) :
    rewrite [r] disks d = disks d := by
  rw [rewrite_one]
  split
  · exact Function.update_of_ne (Ne.symm h) _ _
  · rfl

/-- The table of the boot drive, after a rule. -/
theorem Progress.partsLoad_step {start c c₁ c' : ChainState} {done current : List Rule} {r : Rule}
    (h : Progress drive start c done current) (hFetch : Fetched drive r.bios c c₁)
    (hChange : Changed drive r c₁ c') :
    c'.partsLoad = if (done ++ current ++ [r]).any (·.bios == drive) then c'.logical drive
      else start.partsLoad := by
  rw [hChange.partsLoad, hFetch.partsLoad, List.any_append, List.any_cons, List.any_nil,
    Bool.or_false]
  by_cases hDrive : r.bios = drive
  · simp [hDrive]
  · have hSame : c'.logical drive = c.logical drive := by
      rw [hChange.logical, rewrite_one_of_ne hDrive, hFetch.logical]
    have hNot : (r.bios == drive) = false := by simpa using hDrive
    rw [if_neg hDrive, if_neg hDrive, hNot, Bool.or_false, hSame, h.partsLoad]

/-- A rule, from `prtclp` to `nocng`. -/
theorem Progress.step {start c c₁ c' : ChainState} {done current : List Rule} {r : Rule}
    (h : Progress drive start c done current) (hFetch : Fetched drive r.bios c c₁)
    (hChange : Changed drive r c₁ c') :
    ∃ done' current', done ++ current ++ [r] = done' ++ current' ∧
      Progress drive start c' done' current' := by
  have hCache : c'.cache = r.bios := hChange.cache.trans hFetch.cache
  have hLogical : c'.logical = rewrite (done ++ current ++ [r]) start.disks := by
    rw [hChange.logical, hFetch.logical, h.logical, ← rewrite_append]
  have hParts := h.partsLoad_step hFetch hChange
  rcases hFetch.disks with ⟨hSame, hDisks⟩ | ⟨hOther, hDisks⟩
  · have hAssoc := List.append_assoc done current [r]
    rw [hAssoc] at hLogical hParts
    refine ⟨done, current ++ [r], hAssoc, hChange.coherent, ?_, hLogical, ?_, ?_, ?_, hParts⟩
    · rw [hChange.disks, hDisks, h.disks]
    · intro r' hr'
      rcases List.mem_append.mp hr' with hOld | hNew
      · rw [h.current_cache r' hOld, hSame, hCache]
      · rw [List.mem_singleton.mp hNew, hCache]
    · intro r' hr'
      rw [hCache, ← hSame]
      exact h.done_cache r' hr'
    · exact fun _ => List.append_ne_nil_of_right_ne_nil _ (List.cons_ne_nil _ _)
  · refine ⟨done ++ current, [r], rfl, hChange.coherent, ?_, hLogical, ?_, ?_, ?_, hParts⟩
    · rw [hChange.disks, hDisks, h.logical]
    · intro r' hr'
      rw [List.mem_singleton.mp hr', hCache]
    · intro r' hr'
      rw [hCache, h.last hr']
      exact hOther
    · exact fun _ => List.cons_ne_nil _ _

/-- A call that fails leaves a prefix of the rules done. -/
theorem Progress.stop {start c c' : ChainState} {done current : List Rule} {r : Rule}
    (h : Progress drive start c done current) (rest : List Rule)
    (hFetch : fetchTable answered drive r.bios c = .error c') :
    Stopped start c' (done ++ current ++ r :: rest) := by
  obtain ⟨hOther, hDisks | hDisks⟩ := fetchTable_error answered h.coherent hFetch
  · refine ⟨done, current ++ r :: rest, List.append_assoc _ _ _, h.between _, ?_⟩
    rw [hDisks, h.disks]
  · refine ⟨done ++ current, r :: rest, rfl, ?_, ?_⟩
    · rintro r₁ r' hr₁ ⟨⟩
      rw [h.last hr₁]
      exact hOther
    · rw [hDisks, h.logical]

/-- `chain.S` at a rule. -/
theorem prtclp_rule {word : BitVec 32} (rest : List (BitVec 16)) (c : ChainState)
    (hBios : (ruleOf word).bios ≠ 0) :
    prtclp answered drive (word.setWidth 16 :: (word >>> 16).setWidth 16 :: rest) c =
      fetchTable answered drive (ruleOf word).bios c >>= fun c =>
        prtclp answered drive rest
          (changeTable (ruleOf word).offset (ruleOf word).expect (ruleOf word).set c) := by
  obtain ⟨hDrive, hOffset, hExpect, hSet⟩ := rule_bytes word
  rw [prtclp, hDrive, hOffset, hExpect, hSet, if_neg hBios]

/-- `chain.S` at the end of the rules. -/
theorem prtclp_end {ax : BitVec 16} (rest : List (BitVec 16)) (c : ChainState)
    (h : lowByte ax = 0) : prtclp answered drive (ax :: rest) c = flush answered c := by
  cases rest with
  | nil => rw [prtclp, if_pos h]
  | cons => rw [prtclp, if_pos h]

/-- What the loop comes to. -/
def Rewritten (drive : Byte) (start : ChainState) (rules : List Rule) :
    Except ChainState ChainState → Prop :=
  Outcome
    (fun c => c.disks = rewrite rules start.disks ∧
      c.partsLoad = if rules.any (·.bios == drive) then c.disks drive else start.partsLoad)
    fun c => Stopped start c rules

/-- The last table is written back at the end. -/
theorem Progress.flush {start c : ChainState} {done current : List Rule}
    (h : Progress drive start c done current) :
    Rewritten drive start (done ++ current) (flush answered c) := by
  refine Outcome.of_cases (fun c' hFlush => ?_) fun c' hFlush => ?_
  · have hFlushed := flush_ok answered h.coherent hFlush
    refine ⟨hFlushed.disks.trans h.logical, ?_⟩
    rw [hFlushed.partsLoad, hFlushed.disks, h.partsLoad]
  · have hBetween := h.between []
    rw [List.append_nil] at hBetween
    exact ⟨done, current, rfl, hBetween, (flush_error answered hFlush).trans h.disks⟩

/-- A word for drive 0 ends the rules. -/
theorem rulesOf_cons_end {word : BitVec 32} (prtMap : List (BitVec 32))
    (h : (ruleOf word).bios = 0) : rulesOf (word :: prtMap) = [] := by
  rw [rulesOf, List.map_cons, List.takeWhile_cons_of_neg (by simpa using h)]

/-- Any other is a rule. -/
theorem rulesOf_cons_rule {word : BitVec 32} (prtMap : List (BitVec 32))
    (h : (ruleOf word).bios ≠ 0) : rulesOf (word :: prtMap) = ruleOf word :: rulesOf prtMap := by
  rw [rulesOf, List.map_cons, List.takeWhile_cons_of_pos (by simpa using h)]
  rfl

/-- By induction on the rules that are left: each is cached or the run stops. -/
theorem Progress.run {start c : ChainState} {done current : List Rule} (prtMap : List (BitVec 32))
    (stale : List (BitVec 16)) (h : Progress drive start c done current) :
    Rewritten drive start (done ++ current ++ rulesOf prtMap)
      (prtclp answered drive (prtmapWords prtMap stale) c) := by
  induction prtMap generalizing c done current with
  | nil =>
    have hFlush := h.flush answered
    have hEnd : lowByte 0 = 0 := rfl
    rw [← prtclp_end answered stale c hEnd, ← List.append_nil (done ++ current)] at hFlush
    exact hFlush
  | cons word prtMap ih =>
    by_cases hBios : (ruleOf word).bios = 0
    · have hEnd : lowByte (word.setWidth 16) = 0 := (rule_bytes word).1.trans hBios
      have hFlush := h.flush answered
      rw [← prtclp_end answered _ c hEnd, ← List.append_nil (done ++ current),
        ← rulesOf_cons_end prtMap hBios] at hFlush
      exact hFlush
    · rw [rulesOf_cons_rule prtMap hBios]
      show Rewritten drive start _ (prtclp answered drive (word.setWidth 16 ::
        (word >>> 16).setWidth 16 :: prtmapWords prtMap stale) c)
      rw [prtclp_rule answered (prtmapWords prtMap stale) c hBios]
      have hFetch : Outcome (fun c₁ => Fetched drive (ruleOf word).bios c c₁)
          (fun c' => Stopped start c' (done ++ current ++ ruleOf word :: rulesOf prtMap))
          (fetchTable answered drive (ruleOf word).bios c) :=
        Outcome.of_cases (fun c₁ => fetchTable_ok answered hBios h.coherent)
          fun c' => h.stop answered _
      refine hFetch.bind fun c₁ hFetched => ?_
      -- the rule is applied to the table in memory; the others by induction
      have hChange := changeTable_changed hBios hFetched.cache hFetched.coherent
      obtain ⟨done', current', hSplit, hProgress⟩ := h.step hFetched hChange
      have hRun := ih hProgress
      rw [← hSplit, List.append_assoc _ [ruleOf word]] at hRun
      exact hRun

end

/-- **The partition tables at boot time.** Whatever the rules are and whichever calls fail:
with a table in memory, the disks are as if each rule had changed its disk; the boot drive's
table is then at PARTS_LOAD if there is a rule for it. When a call fails, the disks are as
after the rules up to a change of the drive. -/
theorem tables_rewritten (answered : Nat → Bool) (drive : Byte) (prtMap : List (BitVec 32))
    (stale : List (BitVec 16)) (disks : Byte → BootSector) (partsLoad partsScr : BootSector) :
    Rewritten drive { disks, partsLoad, partsScr } (rulesOf prtMap)
      (prtclp answered drive (prtmapWords prtMap stale) { disks, partsLoad, partsScr }) :=
  (Progress.start rfl).run answered prtMap stale

end MultiOS.Lilo
