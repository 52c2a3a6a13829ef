import Mathlib.Data.List.TakeWhile
import MultiOS.Lilo.TableCache

/-!
# LILO — partition table changes

From the `CHANGE` sections to the disks. `PartChange.rules` is what a section asks
for; `do_cr_part` adds these rules and refuses any that repeats a rule or would
change what another has set (`doChange_adds`). What is left is `Unchained`, so at boot
time the rules act as if they were all applied at once to the tables as they were,
and only the entries of the partitions named are changed (`changes_at_once`).
-/

namespace MultiOS.Lilo

open Lib

-- ---------------------------------------------------------------------------
-- add_rule
-- ---------------------------------------------------------------------------

/-- The comparisons of `add_rule`, for the parts of an older rule. -/
theorem rule_compared (old : BitVec 32) :
    old &&& 0xffff#32 =
        ((ruleOf old).offset.setWidth 32 <<< 8) ||| (ruleOf old).bios.setWidth 32 ∧
      old >>> 24 = (ruleOf old).set.setWidth 32 := by
  have hMask : ∀ i < 32, (0xffff#32).getLsbD i = decide (i < 16) := by decide
  unfold ruleOf
  refine ⟨BitVec.eq_of_getLsbD_eq ?_, BitVec.eq_of_getLsbD_eq ?_⟩
  · intro i hi
    simp only [BitVec.getLsbD_and, BitVec.getLsbD_or, BitVec.getLsbD_shiftLeft,
      BitVec.getLsbD_setWidth, BitVec.getLsbD_ushiftRight, hMask i hi]
    grind
  · intro i hi
    simp only [BitVec.getLsbD_setWidth, BitVec.getLsbD_ushiftRight]
    grind

/-- Two offsets that name the same byte of the sector are the same offset. -/
theorem tableIndex_inj {a b : Byte} (h : tableIndex a = tableIndex b) : a = b := by
  have hNat : 0x100 + (0xbe + a).toNat = 0x100 + (0xbe + b).toNat := Fin.val_eq_of_eq h
  have hByte : 0xbe + a = 0xbe + b := BitVec.eq_of_toNat_eq (Nat.add_left_cancel hNat)
  exact (BitVec.add_right_inj _).mp hByte

/-- A rule that passes does not change what an older one has set. -/
theorem ruleClash_none {r : Rule} {old : BitVec 32}
    (h : ruleClash r.bios r.offset r.expect r.set old = none)
    (hPlace : (ruleOf old).write.place = r.write.place) : (ruleOf old).set ≠ r.expect := by
  intro hSet
  obtain ⟨hBios, hIndex⟩ := Prod.ext_iff.mp hPlace
  have hOffset := tableIndex_inj hIndex
  obtain ⟨hSame, hHigh⟩ := rule_compared old
  have hBios' : (ruleOf old).bios = r.bios := hBios
  rw [hOffset, hBios'] at hSame
  rw [hSet] at hHigh
  unfold ruleClash at h
  simp only at h
  split at h
  · cases h
  · rw [if_pos ⟨hSame, hHigh⟩] at h
    cases h

/-- Rules of which none sets what a later one expects. -/
def RulesUnchained (rules : List Rule) : Prop := Unchained (rules.map Rule.write)

/-- The rules are added, and the rules stay unchained. -/
structure Adds (rules : List Rule) (prtMap prtMap' : List (BitVec 32)) : Prop where
  rules_eq : prtMap'.map ruleOf = prtMap.map ruleOf ++ rules
  unchained : RulesUnchained (prtMap.map ruleOf) → RulesUnchained (prtMap'.map ruleOf)

/-- No rule added. -/
theorem Adds.refl (prtMap : List (BitVec 32)) : Adds [] prtMap prtMap :=
  ⟨(List.append_nil _).symm, id⟩

/-- Rules added one after the other. -/
theorem Adds.trans {rules rules' : List Rule} {prtMap prtMap' prtMap'' : List (BitVec 32)}
    (h : Adds rules prtMap prtMap') (h' : Adds rules' prtMap' prtMap'') :
    Adds (rules ++ rules') prtMap prtMap'' := by
  refine ⟨?_, fun hUnchained => h'.unchained (h.unchained hUnchained)⟩
  rw [h'.rules_eq, h.rules_eq, List.append_assoc]

/-- A rule that `add_rule` accepts is appended, and sets nothing that an older
one expects. -/
theorem addRule_adds {bios offset expect set : Byte} {prtMap prtMap' : List (BitVec 32)}
    (h : addRule bios offset expect set prtMap = .ok prtMap') :
    Adds [⟨bios, offset, expect, set⟩] prtMap prtMap' := by
  unfold addRule at h
  split at h
  · cases h
  split at h
  · cases h
  · next hNone =>
    cases h
    have hRules : (prtMap ++ [ruleWord bios offset expect set]).map ruleOf =
        prtMap.map ruleOf ++ [⟨bios, offset, expect, set⟩] := by
      rw [List.map_append, List.map_singleton, ruleOf_ruleWord]
    refine ⟨hRules, ?_⟩
    intro hUnchained
    -- only the pairs with the new rule last are new
    unfold RulesUnchained Unchained at *
    rw [hRules, List.map_append, List.pairwise_append]
    refine ⟨hUnchained, List.pairwise_singleton _ _, ?_⟩
    intro w hw w' hw' hPlace
    obtain ⟨r, hr, rfl⟩ := List.mem_map.mp hw
    obtain ⟨old, hOld, rfl⟩ := List.mem_map.mp hr
    obtain rfl := List.mem_singleton.mp hw'
    have hClash := List.findSome?_eq_none_iff.mp hNone old hOld
    exact ruleClash_none (r := ⟨bios, offset, expect, set⟩) hClash hPlace

-- ---------------------------------------------------------------------------
-- TYPE options
-- ---------------------------------------------------------------------------

/-- A type that is added is found, and hides no other. -/
theorem addType_find {type : List Byte} {normal hidden : Option Byte}
    {types types' : List ChangeRule} (h : addType type normal hidden types = .ok types') :
    (∃ rule, (types'.find? fun rule => sameName rule.type type) = some rule ∧
      (∀ b, normal = some b → rule.normal = b) ∧ (∀ b, hidden = some b → rule.hidden = b)) ∧
      ∀ name rule, (types.find? fun rule => sameName rule.type name) = some rule →
        (types'.find? fun rule => sameName rule.type name) = some rule := by
  unfold addType at h
  split at h
  · cases h
  · next hNew =>
    cases h
    refine ⟨⟨_, List.find?_cons_of_pos (sameName_iff.mpr rfl), ?_, ?_⟩, ?_⟩
    · rintro b rfl
      rfl
    · rintro b rfl
      rfl
    · intro name rule hFind
      rw [List.find?_cons_of_neg, hFind]
      -- the new name is of no older type
      intro hSame
      have hRule := List.find?_some hFind
      have hTypes : sameName rule.type type = true :=
        sameName_iff.mpr ((sameName_iff.mp hRule).trans (sameName_iff.mp hSame).symm)
      exact hNew (List.any_eq_true.mpr ⟨rule, List.mem_of_find?_eq_some hFind, hTypes⟩)

/-- Of a type with one value, the values differ by `HIDDEN_OFF`. -/
theorem doCrType_one {type : List Byte} {normal hidden : Option Byte}
    {types types' : List ChangeRule} (h : doCrType type normal hidden types = .ok types')
    (hOne : normal = none ∨ hidden = none) :
    ∃ rule, types' = rule :: types ∧ rule.type = type ∧
      rule.normal = (normal <|> hidden).getD 0 ∧ rule.hidden = rule.normal ^^^ hiddenOff := by
  have hAdd : ∀ b, addType type (some b) none types = .ok types' →
      ∃ rule, types' = rule :: types ∧ rule.type = type ∧ rule.normal = b ∧
        rule.hidden = rule.normal ^^^ hiddenOff := by
    intro b h
    unfold addType at h
    split at h
    · cases h
    · cases h
      exact ⟨_, rfl, rfl, rfl, rfl⟩
  rcases hOne with rfl | rfl
  · cases hidden with
    | none => cases h
    | some b => exact hAdd b h
  · cases normal with
    | none => cases h
    | some b => exact hAdd b h

-- ---------------------------------------------------------------------------
-- CHANGE sections
-- ---------------------------------------------------------------------------

/-- What SET asks for. -/
def PartChange.typeRules (types : List ChangeRule) (c : PartChange) : List Rule :=
  match c.set with
  | none => []
  | some name =>
    match typeName name with
    | .error _ => []
    | .ok (type, normal) =>
      match types.find? fun rule => sameName rule.type type with
      | none => []
      | some rule =>
        [⟨c.device, c.offset partTypeEntOff, if normal then rule.hidden else rule.normal,
          if normal then rule.normal else rule.hidden⟩]

/-- What a section for a partition asks for. -/
def PartChange.rules (types : List ChangeRule) (c : PartChange) : List Rule :=
  c.typeRules types ++
    ((if c.activate then [⟨c.device, c.offset partActEntOff, 0x00, 0x80⟩] else []) ++
      if c.deactivate then [⟨c.device, c.offset partActEntOff, 0x80, 0x00⟩] else [])

variable {types : List ChangeRule}

/-- `SET=` adds the rule that takes the type from one value to the other. -/
theorem crSet_adds {c : PartChange} {prtMap prtMap' : List (BitVec 32)}
    (h : crSet types c prtMap = .ok prtMap') : Adds (c.typeRules types) prtMap prtMap' := by
  unfold crSet at h
  cases hSet : c.set with
  | none =>
    have hRules : c.typeRules types = [] := by rw [PartChange.typeRules, hSet]
    rw [hSet] at h
    cases h
    rw [hRules]
    exact Adds.refl _
  | some name =>
    rw [hSet] at h
    dsimp only at h
    split at h
    · cases h
    · next type normal hName =>
      split at h
      · cases h
      · next rule hRule =>
        have hRules : c.typeRules types = [⟨c.device, c.offset partTypeEntOff,
            if normal then rule.hidden else rule.normal,
            if normal then rule.normal else rule.hidden⟩] := by
          unfold PartChange.typeRules
          simp only [hSet, hName, hRule]
        rw [hRules]
        exact addRule_adds h

/-- `ACTIVATE` adds the rule that sets the active flag. -/
theorem crActivate_adds {c : PartChange} {prtMap prtMap' : List (BitVec 32)}
    (h : crActivate c prtMap = .ok prtMap') :
    Adds (if c.activate then [⟨c.device, c.offset partActEntOff, 0x00, 0x80⟩] else [])
      prtMap prtMap' := by
  unfold crActivate at h
  split at h
  · next hActivate =>
    obtain ⟨prtMap₁, hAdd, h⟩ := bind_ok h
    rw [if_pos hActivate]
    split at h
    · cases h
    · cases h
      exact addRule_adds hAdd
  · next hActivate =>
    cases h
    rw [if_neg hActivate]
    exact Adds.refl _

/-- A section that is accepted adds its rules, and is for a primary partition. -/
theorem doCrPart_adds {c : PartChange} {prtMap prtMap' : List (BitVec 32)}
    (h : doCrPart types c prtMap = .ok prtMap') :
    Adds (c.rules types) prtMap prtMap' ∧ 1 ≤ c.partition ∧ c.partition ≤ partMax := by
  unfold doCrPart at h
  split at h
  · cases h
  · next hPrimary =>
    rw [not_or, Nat.not_lt] at hPrimary
    refine ⟨?_, Nat.one_le_iff_ne_zero.mpr hPrimary.1, hPrimary.2⟩
    obtain ⟨prtMap₁, hSet, h⟩ := bind_ok h
    obtain ⟨prtMap₂, hActivate, h⟩ := bind_ok h
    refine (crSet_adds hSet).trans ((crActivate_adds hActivate).trans ?_)
    split at h
    · next hDeactivate =>
      rw [if_pos hDeactivate]
      exact addRule_adds h
    · next hDeactivate =>
      cases h
      rw [if_neg hDeactivate]
      exact Adds.refl _

/-- **The rules are what the sections ask for**, in their order, and none changes what
another has set. -/
theorem doChange_adds {cs : List PartChange} {prtMap prtMap' : List (BitVec 32)}
    (h : doChange types cs prtMap = .ok prtMap') :
    Adds (cs.flatMap (PartChange.rules types)) prtMap prtMap' ∧
      ∀ c ∈ cs, 1 ≤ c.partition ∧ c.partition ≤ partMax := by
  induction cs generalizing prtMap with
  | nil =>
    cases h
    exact ⟨Adds.refl _, nofun⟩
  | cons c cs ih =>
    obtain ⟨prtMap₁, hPart, h⟩ := bind_ok h
    obtain ⟨hAdds, hPrimary⟩ := doCrPart_adds hPart
    obtain ⟨hAdds', hPrimary'⟩ := ih h
    exact ⟨hAdds.trans hAdds', List.forall_mem_cons.mpr ⟨hPrimary, hPrimary'⟩⟩

-- ---------------------------------------------------------------------------
-- Where the changes are
-- ---------------------------------------------------------------------------

/-- Where the partition's entry is in the sector. -/
def PartChange.entry (c : PartChange) : Nat := 0x1be + 16 * (c.partition - 1)

/-- The bytes that rules may name are in the entry of the partition. -/
theorem PartChange.tableIndex_offset {c : PartChange} (h : c.partition ≤ partMax) {n : Nat}
    (hn : n ≤ 4) : (tableIndex (c.offset n)).val = c.entry + n := by
  have hTable : (0xbe : Byte).toNat = 0xbe := rfl
  unfold tableIndex PartChange.offset PartChange.entry partitionEntry
  unfold partMax at h
  simp only [BitVec.toNat_add, BitVec.toNat_ofNat, hTable]
  omega

/-- The rule of `SET=` is for the type byte of the partition. -/
theorem PartChange.mem_typeRules {c : PartChange} {r : Rule} (h : r ∈ c.typeRules types) :
    r.bios = c.device ∧ r.offset = c.offset partTypeEntOff := by
  unfold PartChange.typeRules at h
  split at h
  · cases h
  split at h
  · cases h
  split at h
  · cases h
  · obtain rfl := List.mem_singleton.mp h
    exact ⟨rfl, rfl⟩

/-- A section changes the type or the active flag of its partition. -/
theorem PartChange.mem_rules {c : PartChange} {r : Rule} (h : r ∈ c.rules types) :
    r.bios = c.device ∧ ∃ n, (n = partTypeEntOff ∨ n = partActEntOff) ∧ r.offset = c.offset n := by
  unfold PartChange.rules at h
  rcases List.mem_append.mp h with hType | hActive
  · obtain ⟨hBios, hOffset⟩ := PartChange.mem_typeRules hType
    exact ⟨hBios, partTypeEntOff, Or.inl rfl, hOffset⟩
  · have hRule : r.bios = c.device ∧ r.offset = c.offset partActEntOff := by
      rcases List.mem_append.mp hActive with hOn | hOff
      · split at hOn
        · obtain rfl := List.mem_singleton.mp hOn
          exact ⟨rfl, rfl⟩
        · cases hOn
      · split at hOff
        · obtain rfl := List.mem_singleton.mp hOff
          exact ⟨rfl, rfl⟩
        · cases hOff
    exact ⟨hRule.1, partActEntOff, Or.inr rfl, hRule.2⟩

-- ---------------------------------------------------------------------------
-- From the sections to the disks
-- ---------------------------------------------------------------------------

/-- When no disk call fails, the cached table is written back. -/
theorem flush_answered (c : ChainState) : ∃ c', flush (fun _ => true) c = .ok c' := by
  unfold flush
  split
  · exact ⟨c, rfl⟩
  split
  · exact ⟨c, rfl⟩
  · exact ⟨_, rfl⟩

/-- When no disk call fails, the table of any drive is fetched. -/
theorem fetchTable_answered (drive bios : Byte) (c : ChainState) :
    ∃ c', fetchTable (fun _ => true) drive bios c = .ok c' := by
  unfold fetchTable
  split
  · exact ⟨c, rfl⟩
  · obtain ⟨c', hFlush⟩ := flush_answered c
    rw [hFlush]
    exact ⟨_, rfl⟩

/-- When no disk call fails, the rules are run to their end. -/
theorem prtclp_answered (drive : Byte) (words : List (BitVec 16)) (c : ChainState) :
    ∃ c', prtclp (fun _ => true) drive words c = .ok c' := by
  fun_induction prtclp (fun _ => true) drive words c with
  | case1 c => exact ⟨c, rfl⟩
  | case2 ax words c => exact flush_answered c
  | case3 ax c => exact ⟨c, rfl⟩
  | case4 ax c hRule ax' words ih =>
    obtain ⟨c₁, hFetch⟩ := fetchTable_answered drive (lowByte ax) c
    rw [hFetch]
    exact ih c₁

/-- The rule is for this byte of this disk, and for what it is. -/
def Rule.Matches (r : Rule) (disks : Byte → BootSector) (d : Byte) (i : Fin 512) : Prop :=
  r.write.Matches (fun p => disks p.1 p.2) (d, i)

instance (r : Rule) (disks : Byte → BootSector) (d : Byte) (i : Fin 512) :
    Decidable (r.Matches disks d i) :=
  inferInstanceAs (Decidable (GuardedWrite.Matches _ _ _))

/-- Rules that do not chain act at once: a byte is set by the first that matches
what it was. -/
theorem rewrite_apply {rules : List Rule} (h : RulesUnchained rules) (disks : Byte → BootSector)
    (d : Byte) (i : Fin 512) :
    rewrite rules disks d i =
      ((rules.find? fun r => r.Matches disks d i).map Rule.set).getD (disks d i) := by
  unfold rewrite
  rw [runAll_apply h, List.find?_map, Option.map_map]
  rfl

/-- When no section is for drive 0, all rules are read. -/
theorem rulesOf_eq {prtMap : List (BitVec 32)} (h : ∀ r ∈ prtMap.map ruleOf, r.bios ≠ 0) :
    rulesOf prtMap = prtMap.map ruleOf := by
  rw [rulesOf, List.takeWhile_eq_self_iff]
  intro r hr
  simpa using h r hr

/-- **`CHANGE` sections act at once.** After sections that were accepted, and with no call
that fails, each byte of the first sectors is set by the first rule that expects what it
was; other bytes stay, and only types and active flags of the partitions named are set. -/
theorem changes_at_once {cs : List PartChange} {prtMap : List (BitVec 32)}
    (hChange : doChange types cs [] = .ok prtMap) (hDevice : ∀ c ∈ cs, c.device ≠ 0)
    (drive : Byte) (stale : List (BitVec 16)) (disks : Byte → BootSector)
    (partsLoad partsScr : BootSector) :
    ∃ c, prtclp (fun _ => true) drive (prtmapWords prtMap stale)
        { disks, partsLoad, partsScr } = .ok c ∧
      (∀ d i, c.disks d i = (((cs.flatMap (PartChange.rules types)).find? fun r =>
        r.Matches disks d i).map Rule.set).getD (disks d i)) ∧
      ∀ d i, c.disks d i ≠ disks d i → ∃ s ∈ cs, s.device = d ∧
        (i.val = s.entry + partTypeEntOff ∨ i.val = s.entry + partActEntOff) := by
  -- the rules are those of the sections, and do not chain
  obtain ⟨hAdds, hPrimary⟩ := doChange_adds hChange
  have hRules : prtMap.map ruleOf = cs.flatMap (PartChange.rules types) := hAdds.rules_eq
  have hUnchained := hAdds.unchained List.Pairwise.nil
  have hSection : ∀ r ∈ prtMap.map ruleOf, ∃ s ∈ cs, r ∈ s.rules types := by
    rw [hRules]
    exact fun r hr => List.mem_flatMap.mp hr
  -- a rule for drive 0 would end the list for chain.S
  have hAll : rulesOf prtMap = prtMap.map ruleOf := by
    refine rulesOf_eq ?_
    intro r hr
    obtain ⟨s, hs, hr⟩ := hSection r hr
    rw [(PartChange.mem_rules hr).1]
    exact hDevice s hs
  -- the cached run is the rules applied one after the other
  obtain ⟨c, hRun⟩ := prtclp_answered drive (prtmapWords prtMap stale) { disks, partsLoad, partsScr }
  have hStart : Progress drive { disks, partsLoad, partsScr } { disks, partsLoad, partsScr } [] [] :=
    Progress.start rfl
  have hRewritten := hStart.run (fun _ => true) prtMap stale
  have hDisks : c.disks = rewrite (prtMap.map ruleOf) disks := by
    rw [← hAll]
    exact (hRewritten.value hRun).1
  have hBytes : ∀ d i, c.disks d i =
      (((prtMap.map ruleOf).find? fun r => r.Matches disks d i).map Rule.set).getD (disks d i) := by
    intro d i
    rw [hDisks, rewrite_apply hUnchained]
  refine ⟨c, hRun, ?_, ?_⟩
  · intro d i
    rw [hBytes, hRules]
  · intro d i hSet
    -- a byte that changed was matched by the rule of some section
    rw [hBytes] at hSet
    cases hFind : (prtMap.map ruleOf).find? fun r => r.Matches disks d i with
    | none =>
      rw [hFind] at hSet
      exact absurd rfl hSet
    | some r =>
      obtain ⟨s, hs, hr⟩ := hSection r (List.mem_of_find?_eq_some hFind)
      obtain ⟨hBios, n, hn, hOffset⟩ := PartChange.mem_rules hr
      have hMatch : r.Matches disks d i := by simpa using List.find?_some hFind
      have hDrive : r.bios = d := (Prod.ext_iff.mp hMatch.1).1
      have hIndex : tableIndex r.offset = i := (Prod.ext_iff.mp hMatch.1).2
      refine ⟨s, hs, hBios.symm.trans hDrive, ?_⟩
      rw [← hIndex, hOffset]
      rcases hn with rfl | rfl
      · exact Or.inl (PartChange.tableIndex_offset (hPrimary s hs).2 (by decide))
      · exact Or.inr (PartChange.tableIndex_offset (hPrimary s hs).2 (by decide))

/-- The active flag of a disk is moved from its second partition to its first. -/
def someChange : List PartChange :=
  [{ device := 0x80, partition := 1, activate := true },
    { device := 0x80, partition := 2, deactivate := true }]

/-- Disks on which the second partition is active. -/
def someTables (_ : Byte) (i : Fin 512) : Byte := if i.val = 0x1ce then 0x80 else 0

/-- The active flag is moved on the disk named and on no other. -/
theorem changes_at_once_moved :
    ∃ c, prtclp (fun _ => true) 0x80
        (prtmapWords [ruleWord 0x80 0 0 0x80, ruleWord 0x80 16 0x80 0] [])
        { disks := someTables, partsLoad := fun _ => 0, partsScr := fun _ => 0 } = .ok c ∧
      c.disks 0x80 0x1be = 0x80 ∧ c.disks 0x80 0x1ce = 0 ∧ c.disks 0x81 0x1ce = 0x80 := by
  have hAccepted : doChange [] someChange [] =
      .ok [ruleWord 0x80 0 0 0x80, ruleWord 0x80 16 0x80 0] := rfl
  obtain ⟨c, hRun, hBytes, -⟩ :=
    changes_at_once hAccepted (by decide) 0x80 [] someTables (fun _ => 0) fun _ => 0
  refine ⟨c, hRun, ?_, ?_, ?_⟩
  · rw [hBytes]
    decide
  · rw [hBytes]
    decide
  · rw [hBytes]
    decide

end MultiOS.Lilo
