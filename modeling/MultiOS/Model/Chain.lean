import Mathlib.Logic.Function.Basic
import MultiOS.Model.Config

/-!
# LILO — chain loading

How another operating system is started. The map installer makes two tables of
its options: `do_map_drive` the drives to be exchanged, `do_cr_part` the changes
to partition tables (`CHANGE` sections). `boot_other` writes both behind the
code of `chain.S`, which changes the tables on the disks and puts itself between
the operating system and `int 0x13`.

`long` is 32 bits wide. The partition of `do_cr_part` is its minor number; that
it is a block device, and `geo_get`, are no part of the model. `do_map_drive` starts
with the numbers that `strtoul` makes of its two texts; that a text is no number
is no part of the model either.
-/

namespace MultiOS.Lilo

-- ---------------------------------------------------------------------------
-- partition.c, boot.c: the tables
-- ---------------------------------------------------------------------------

def prtmapSize : Nat := 32

def drvmapSize : Nat := 8

inductive MapError where
  | duplicateType (type : List Byte)
  | noTypeValue
  | tooManyRules
  | repeatedRule (rule : BitVec 32)
  | redundantRule (rule : BitVec 32)
  | notPrimary
  | badTypeName
  | unknownType
  | incompatible
  | badDrive (drive : BitVec 32)
  | noDriveTo
  | mappingExists (drive mapped : BitVec 32)
  | ambiguousMapping (drive : BitVec 32) (mapped : BitVec 16) (mapped' : BitVec 32)
  | tooManyMappings
  deriving DecidableEq, Repr

/-- `CHANGE_RULE`. -/
structure ChangeRule where
  type : List Byte
  normal : Byte
  hidden : Byte
  deriving DecidableEq, Repr

/-- `HIDDEN_OFF`. -/
def hiddenOff : Byte := 0x10

/-- `add_type`. -/
def addType (type : List Byte) (normal hidden : Option Byte) (rules : List ChangeRule) :
    Except MapError (List ChangeRule) :=
  if rules.any fun rule => sameName rule.type type then .error (.duplicateType type)
  else
    .ok (⟨type, normal.getD (hidden.getD 0xff ^^^ hiddenOff),
      hidden.getD (normal.getD 0xff ^^^ hiddenOff)⟩ :: rules)

/-- `do_cr_type`. A value that is the only one is taken for the normal one, also that of
HIDDEN. -/
def doCrType (type : List Byte) (normal hidden : Option Byte) (rules : List ChangeRule) :
    Except MapError (List ChangeRule) :=
  match normal, hidden with
  | some normal, hidden => addType type (some normal) hidden rules
  | none, some hidden => addType type (some hidden) none rules
  | none, none => .error .noTypeValue

/-- A rule, as it is stored: drive, offset, the byte expected and the byte to be set. -/
def ruleWord (bios offset expect set : Byte) : BitVec 32 :=
  (set.setWidth 32 <<< 24) ||| (expect.setWidth 32 <<< 16) ||| (offset.setWidth 32 <<< 8) |||
    bios.setWidth 32

/-- What `add_rule` finds when it compares a rule with an older one. -/
def ruleClash (bios offset expect set : Byte) (old : BitVec 32) : Option MapError :=
  let new := ruleWord bios offset expect set
  if old = new then some (.repeatedRule new)
  else if old &&& 0xffff#32 = (offset.setWidth 32 <<< 8) ||| bios.setWidth 32 ∧
      old >>> 24 = expect.setWidth 32 then some (.redundantRule new)
  else none

/-- `add_rule`. -/
def addRule (bios offset expect set : Byte) (prtMap : List (BitVec 32)) :
    Except MapError (List (BitVec 32)) :=
  if prtMap.length = prtmapSize then .error .tooManyRules
  else
    match prtMap.findSome? (ruleClash bios offset expect set) with
    | some e => .error e
    | none => .ok (prtMap ++ [ruleWord bios offset expect set])

/-- `PARTITION_ENTRY`. -/
def partitionEntry : Nat := 16

/-- `PART_ACT_ENT_OFF`. -/
def partActEntOff : Nat := 0

/-- `PART_TYPE_ENT_OFF`. -/
def partTypeEntOff : Nat := 4

/-- `PART_MAX`. -/
def partMax : Nat := 4

/-- A section for a partition: the BIOS code of its drive, its number, and the options. -/
structure PartChange where
  device : Byte
  partition : Nat
  set : Option (List Byte) := none
  activate : Bool := false
  deactivate : Bool := false
  deriving DecidableEq, Repr

/-- The name of a type and whether it ends in `normal`. The underscore is the last one. -/
def typeName (name : List Byte) : Except MapError (List Byte × Bool) :=
  let state := (name.reverse.takeWhile (· != byte '_')).reverse
  let type := name.take (name.length - state.length - 1)
  if name.length < 7 ∨ state.length = name.length then .error .badTypeName
  else if sameName state ("normal".toList.map byte) then .ok (type, true)
  else if sameName state ("hidden".toList.map byte) then .ok (type, false)
  else .error .badTypeName

/-- The offset of a byte of the partition's entry in the table. -/
def PartChange.offset (c : PartChange) (n : Nat) : Byte :=
  BitVec.ofNat 8 ((c.partition - 1) * partitionEntry + n)

/-- `do_cr_part`, SET. -/
def crSet (types : List ChangeRule) (c : PartChange) (prtMap : List (BitVec 32)) :
    Except MapError (List (BitVec 32)) :=
  match c.set with
  | none => .ok prtMap
  | some name =>
    match typeName name with
    | .error e => .error e
    | .ok (type, normal) =>
      match types.find? fun rule => sameName rule.type type with
      | none => .error .unknownType
      | some rule =>
        addRule c.device (c.offset partTypeEntOff) (if normal then rule.hidden else rule.normal)
          (if normal then rule.normal else rule.hidden) prtMap

/-- `do_cr_part`, ACTIVATE. -/
def crActivate (c : PartChange) (prtMap : List (BitVec 32)) :
    Except MapError (List (BitVec 32)) :=
  if c.activate then do
    let prtMap ← addRule c.device (c.offset partActEntOff) 0x00 0x80 prtMap
    if c.deactivate then .error .incompatible else .ok prtMap
  else .ok prtMap

/-- `do_cr_part`. -/
def doCrPart (types : List ChangeRule) (c : PartChange) (prtMap : List (BitVec 32)) :
    Except MapError (List (BitVec 32)) :=
  if c.partition = 0 ∨ c.partition > partMax then .error .notPrimary
  else do
    let prtMap ← crSet types c prtMap
    let prtMap ← crActivate c prtMap
    if c.deactivate then addRule c.device (c.offset partActEntOff) 0x80 0x00 prtMap
    else .ok prtMap

/-- `do_change`: the sections for partitions, one after the other. -/
def doChange (types : List ChangeRule) (cs : List PartChange) (prtMap : List (BitVec 32)) :
    Except MapError (List (BitVec 32)) :=
  cs.foldlM (fun prtMap c => doCrPart types c prtMap) prtMap

/-- A section MAP-DRIVE: `from` and, when TO is there, `to`. Both are of type `int`. -/
structure MapDrive where
  drive : BitVec 32
  mapped : Option (BitVec 32)
  deriving DecidableEq, Repr

/-- `(to << 8) | from`. -/
def mapping (drive mapped : BitVec 32) : BitVec 32 := (mapped <<< 8) ||| drive

/-- What `do_map_drive` finds when it compares a mapping with an older one, which is an
`unsigned short`: the comparisons are those of an `int`. -/
def mappingClash (drive mapped : BitVec 32) (old : BitVec 16) : Option MapError :=
  if old.setWidth 32 = mapping drive mapped then some (.mappingExists drive mapped)
  else if old.setWidth 32 &&& 0xff#32 = drive then
    some (.ambiguousMapping drive (old >>> 8) mapped)
  else none

/-- `do_map_drive`. A number is refused when it is above 255, and a negative one is not. -/
def doMapDrive (drvMap : List (BitVec 16)) (d : MapDrive) : Except MapError (List (BitVec 16)) :=
  if 0xff < d.drive.toInt then .error (.badDrive d.drive)
  else
    match d.mapped with
    | none => .error .noDriveTo
    | some mapped =>
      if 0xff < mapped.toInt then .error (.badDrive mapped)
      else if d.drive = 0 ∧ mapped = 0 then .ok drvMap
      else
        match drvMap.findSome? (mappingClash d.drive mapped) with
        | some e => .error e
        | none =>
          if drvMap.length = drvmapSize then .error .tooManyMappings
          else .ok (drvMap ++ [(mapping d.drive mapped).setWidth 16])

/-- The sections MAP-DRIVE, one after the other. -/
def mapDrives (drives : List MapDrive) (drvMap : List (BitVec 16)) :
    Except MapError (List (BitVec 16)) :=
  drives.foldlM doMapDrive drvMap

/-- The drive map behind `chain.S`, with what the array has after the end mark. -/
def drvmapWords (drvMap stale : List (BitVec 16)) : List (BitVec 16) := drvMap ++ 0 :: stale

/-- The rules behind the drive map, as words of 16 bits. -/
def prtmapWords (prtMap : List (BitVec 32)) (stale : List (BitVec 16)) : List (BitVec 16) :=
  prtMap.flatMap (fun rule : BitVec 32 => [rule.setWidth 16, (rule >>> 16).setWidth 16]) ++
    0 :: stale

-- ---------------------------------------------------------------------------
-- chain.S: the partition tables
-- ---------------------------------------------------------------------------

/-- AL. -/
def lowByte (w : BitVec 16) : Byte := w.setWidth 8

/-- AH. -/
def highByte (w : BitVec 16) : Byte := (w >>> 8).setWidth 8

/-- The first sector of a disk. -/
abbrev BootSector := Fin 512 → Byte

/-- The first sectors of the disks; the memory at 0000:PARTS_LOAD and at
DS:PARTS_SCR; `cache`; whether `cbx` is PARTS_LOAD; `dirty`; and how often
`int 0x13` was called. -/
structure ChainState where
  disks : Byte → BootSector
  partsLoad : BootSector
  partsScr : BootSector
  cache : Byte := 0
  cbxLoad : Bool := false
  dirty : Bool := false
  calls : Nat := 0

namespace ChainState

/-- The sector at `cbx`. -/
def table (c : ChainState) : BootSector := if c.cbxLoad then c.partsLoad else c.partsScr

def setTable (c : ChainState) (sector : BootSector) : ChainState :=
  if c.cbxLoad then { c with partsLoad := sector } else { c with partsScr := sector }

end ChainState

/-- The byte that `bx` points to: the offset is added to `bl` only. -/
def tableIndex (offset : Byte) : Fin 512 :=
  ⟨0x100 + (0xbe + offset).toNat, by omega⟩

section
variable (answered : Nat → Bool)

/-- `flush`. The first argument says which calls of `int 0x13` do not fail; a call that
fails moves nothing. `dirty` stays as it is. -/
def flush (c : ChainState) : Except ChainState ChainState :=
  if !c.dirty then .ok c
  else if c.cache = 0 then .ok c
  else if answered c.calls then
    .ok { c with disks := Function.update c.disks c.cache c.table, calls := c.calls + 1 }
  else .error { c with calls := c.calls + 1 }

/-- From `noc` or before it to `incache`: the table of a drive is loaded. -/
def loadTable (drive bios : Byte) (c : ChainState) : Except ChainState ChainState :=
  let c := { c with cache := bios, cbxLoad := bios == drive }
  if answered c.calls then
    .ok (ChainState.setTable { c with calls := c.calls + 1 } (c.disks bios))
  else .error { c with calls := c.calls + 1 }

/-- From `prtclp` to `incache`: the table of the drive of a rule. -/
def fetchTable (drive bios : Byte) (c : ChainState) : Except ChainState ChainState :=
  if bios = c.cache then .ok c
  else do
    let c ← flush answered c
    loadTable answered drive bios c

/-- From `incache` to `nocng`. -/
def changeTable (offset expect set : Byte) (c : ChainState) : ChainState :=
  if c.table (tableIndex offset) = expect then
    { c.setTable (Function.update c.table (tableIndex offset) set) with dirty := true }
  else c

/-- `prtclp`, with the words that SI points to. When a call fails, LILO is started again:
what is left is the state then. -/
def prtclp (drive : Byte) : List (BitVec 16) → ChainState → Except ChainState ChainState
  | [], c => .ok c
  | ax :: words, c =>
    if lowByte ax = 0 then flush answered c
    else
      match words with
      | [] => .ok c
      | ax' :: words => do
        let c ← fetchTable answered drive (lowByte ax) c
        prtclp drive words (changeTable (highByte ax) (lowByte ax') (highByte ax') c)

end

-- ---------------------------------------------------------------------------
-- chain.S: the drives
-- ---------------------------------------------------------------------------

structure Regs where
  ax : BitVec 16
  bx : BitVec 16
  cx : BitVec 16
  dx : BitVec 16
  si : BitVec 16
  di : BitVec 16
  bp : BitVec 16
  ds : BitVec 16
  es : BitVec 16
  flags : BitVec 16
  deriving DecidableEq, Repr

/-- The registers, SP and the words from SS:SP on, and CS:IP where it is returned to. -/
structure Machine where
  regs : Regs
  sp : BitVec 16
  stack : List (BitVec 16)
  ip : BitVec 16 := 0
  cs : BitVec 16 := 0
  deriving DecidableEq, Repr

/-- A register with another low half. -/
def setLow (w : BitVec 16) (b : Byte) : BitVec 16 := highByte w ++ b

namespace Machine

def push (w : BitVec 16) (m : Machine) : Machine :=
  { m with sp := m.sp - 2, stack := w :: m.stack }

/-- The word on top of the stack. -/
def top (m : Machine) : BitVec 16 := m.stack.headD 0

def drop (m : Machine) : Machine := { m with sp := m.sp + 2, stack := m.stack.tail }

/-- Where `n(bp)` is, counted in words from SP. -/
def slot (n : BitVec 16) (m : Machine) : Nat := (m.regs.bp + n - m.sp).toNat / 2

def word (n : BitVec 16) (m : Machine) : BitVec 16 := m.stack.getD (m.slot n) 0

def setWord (n w : BitVec 16) (m : Machine) : Machine :=
  { m with stack := m.stack.set (m.slot n) w }

def setAx (w : BitVec 16) (m : Machine) : Machine := { m with regs := { m.regs with ax := w } }

def setBp (w : BitVec 16) (m : Machine) : Machine := { m with regs := { m.regs with bp := w } }

def setSi (w : BitVec 16) (m : Machine) : Machine := { m with regs := { m.regs with si := w } }

def setDl (b : Byte) (m : Machine) : Machine :=
  { m with regs := { m.regs with dx := setLow m.regs.dx b } }

/-- `int`: the interrupt and the trap flag are cleared. -/
def interrupt (ip cs : BitVec 16) (m : Machine) : Machine :=
  let pushed := ((m.push m.regs.flags).push cs).push ip
  { pushed with regs := { m.regs with flags := m.regs.flags &&& 0xfcff#16 } }

/-- `iret`. -/
def iret (m : Machine) : Machine :=
  let flags := m.drop.drop.top
  { m.drop.drop.drop with ip := m.top, cs := m.drop.top, regs := { m.regs with flags } }

end Machine

/-- `mapfl`, with the words that SI points to: AX and DL at `nomap`. -/
def mapfl : List (BitVec 16) → Byte → BitVec 16 × Byte
  | [], dl => (0, dl)
  | ax :: words, dl =>
    if ax = 0 then (0, dl)
    else if dl = lowByte ax then (ax, highByte ax)
    else mapfl words dl

section
variable {σ : Type} (old : Regs → σ → Regs × σ)

/-- The call of the old handler, up to its `iret`: the flags that it returns with are on
the stack. What it does to the disks and to memory is in `σ`; it leaves the stack as it is. -/
def callOld (m : Machine) (s : σ) : Machine × σ :=
  let result := old { m.regs with flags := m.top } s
  ({ m.drop with regs := result.1 }, result.2)

/-- The words that `lodsw` takes from the drive map on. Nothing in `chain.S` clears the
direction flag: where the caller has set it, the words below the map follow its first one. -/
def lodsWords (below drvmap : List (BitVec 16)) (flags : BitVec 16) : List (BitVec 16) :=
  if flags.getLsbD 10 then drvmap.take 1 ++ below else drvmap

/-- From `new13` to `nomap`, with `pop si`. -/
def new13Entry (below drvmap : List (BitVec 16)) (m : Machine) : Machine :=
  let m := m.push m.regs.ax
  let m := m.push m.regs.bp
  let m := m.setBp m.sp
  let m := m.push m.regs.flags
  let m := m.push m.regs.si
  let found := mapfl (lodsWords below drvmap m.regs.flags) (lowByte m.regs.dx)
  let m := (m.setDl found.2).setAx found.1
  (m.setSi m.top).drop

/-- From `nomap` to the call of the old handler. -/
def nomap (m : Machine) : Machine :=
  let m := m.setWord 8 m.regs.ax
  let m := m.setAx (m.word 2)
  m.setBp (m.word 0)

/-- From the return of the old handler to `done13`. -/
def new13Back (m : Machine) : Machine :=
  let m := m.push m.regs.bp
  let m := m.setBp m.sp
  let ax := m.word 4
  let m := (m.setWord 4 m.regs.ax).setAx ax
  let m := m.push m.regs.flags
  if highByte m.regs.ax = 8 ∨ highByte m.regs.ax = 0x15 then m
  else
    let m := m.setAx (m.word 10)
    if m.regs.ax = 0 then m else m.setDl (lowByte m.regs.ax)

/-- From `done13` on. -/
def done13 (m : Machine) : Machine :=
  let m := m.setAx (m.word 4)
  let flags := m.top
  let m := m.drop.setWord 10 flags
  let m := (m.setBp m.top).drop
  m.drop.drop.iret

/-- `new13`, with the words below the drive map. -/
def new13 (below drvmap : List (BitVec 16)) (m : Machine) (s : σ) : Machine × σ :=
  let called := callOld old (nomap (new13Entry below drvmap m)) s
  (done13 (new13Back called.1), called.2)

end

end MultiOS.Lilo
