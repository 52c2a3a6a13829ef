import Mathlib.Data.Nat.Notation
import Mathlib.Data.Prod.Lex
import MultiOS.Model.SectorAddress

/-!
# LILO — the configuration file

`cfg.c`: how the map installer reads its configuration file. `next` gives the
characters, with `$name` replaced by the value of the variable; a character
can be given back once (`again`). `cfg_get_token` makes tokens of them, quoted
or not, `cfg_next` items with or without a value, and `cfg_parse` puts these
into a table.

A character is an `int`, as `getc` returns it: -1 is EOF. A byte of the file is
not negative; a byte of a variable is a `char`, which is signed. The message of
an error comes with `line_num`. `putc` to a buffer keeps the low byte, and a
token ends at the first zero byte, where `strdup` ends it.

The tables are those without actions: `cf_image` with `cf_kernel` and `cf_all`,
`cf_disk`, `cf_partition`, `cf_map_drive`, `cf_change_rule` and `cf_change_dsc`.
The entries of `cf_top`, `cf_identify`, `cf_partitions` and `cf_change`, and some
of `cf_options`, `cf_other` and `cf_change_rules`, have a function that
`cfg_do_set` calls; what it does to the parser and to the tables is no part of the
model. A `cft_link` is replaced by the entries of its table.
-/

namespace MultiOS.Lilo

/-- A character constant. -/
def chr (c : Char) : Int := c.toNat

def byte (c : Char) : Byte := BitVec.ofNat 8 c.toNat

def eof : Int := -1

/-- What `cfg_error` and `die` are called with. -/
inductive CfgError where
  | eofInVariable
  | controlInVariable
  | variableTooLong
  | unknownVariable (name : List Byte)
  | againTwice
  | eofInQuoted
  | badBackslash
  | controlInQuoted
  | quotedTooLong
  | backslashEof
  | tokenTooLong
  | syntaxError
  | valueExpectedAtEof
  | syntaxErrorAfter (item : List Byte)
  | noValue (name : List Byte)
  | valueExpected (name : List Byte)
  | duplicate (name : List Byte)
  | notAFlag (name : List Byte)
  | notAString (name : List Byte)
  | unknownItem (name : List Byte)
  deriving DecidableEq, Repr

def textOf (bytes : List Byte) : String := String.ofList (bytes.map fun b => Char.ofNat b.toNat)

def CfgError.message : CfgError → String
  | .eofInVariable => "EOF in variable name"
  | .controlInVariable => "control character in variable name"
  | .variableTooLong => "variable name too long"
  | .unknownVariable name => "unknown variable \"" ++ textOf name ++ "\""
  | .againTwice => "internal error: again invoked twice"
  | .eofInQuoted => "EOF in quoted string"
  | .badBackslash => "Bad use of \\ in quoted string"
  | .controlInQuoted => "\\n and \\t are not allowed in quoted strings"
  | .quotedTooLong => "Quoted string is too long"
  | .backslashEof => "\\ precedes EOF"
  | .tokenTooLong => "Token is too long"
  | .syntaxError => "Syntax error"
  | .valueExpectedAtEof => "Value expected at EOF"
  | .syntaxErrorAfter item => "Syntax error after " ++ textOf item
  | .noValue name => "'" ++ textOf name ++ "' doesn't have a value"
  | .valueExpected name => "Value expected for '" ++ textOf name ++ "'"
  | .duplicate name => "Duplicate entry '" ++ textOf name ++ "'"
  | .notAFlag name => "cfg_get_flag: operating on non-flag " ++ textOf name
  | .notAString name => "cfg_get_strg: operating on non-string " ++ textOf name
  | .unknownItem name => "unknown item " ++ textOf name

-- ---------------------------------------------------------------------------
-- Characters
-- ---------------------------------------------------------------------------

/-- The file from the next byte on, what is left of the value of a variable, the
character given back (0 if none), and `line_num`. -/
structure Reader where
  file : List Byte
  var : List Byte := []
  back : Int := 0
  lineNum : Nat := 1
  deriving DecidableEq, Repr

/-- A result, or an error near a line. -/
abbrev Read (α : Type) := Except (CfgError × Nat) α

/-- `cfg_error`. -/
def Reader.error {α : Type} (r : Reader) (e : CfgError) : Read α := .error (e, r.lineNum)

/-- The string in a buffer. -/
def cString (buf : List Byte) : List Byte := buf.takeWhile (· != 0)

/-- The environment: `getenv`. -/
abbrev Env := List Byte → Option (List Byte)

/-- `MAX_TOKEN` and `MAX_VAR_NAME`. -/
def maxToken : Nat := 200

/-- `isalpha(ch) || isdigit(ch) || ch == '_'`. -/
def inName (b : Byte) : Bool :=
  (byte 'a' ≤ b && b ≤ byte 'z') || (byte 'A' ≤ b && b ≤ byte 'Z') ||
    (byte '0' ≤ b && b ≤ byte '9') || b == byte '_'

/-- The loop of `next` over the name of a variable: the name, and the file after it. -/
def varRest (r : Reader) (braced : Bool) : List Byte → List Byte → Read (List Byte × List Byte)
  | _, [] => r.error .eofInVariable
  | name, b :: file =>
    if b < byte ' ' then r.error .controlInVariable
    else if braced && b == byte '\x7d' then .ok (name, file)
    else if !braced && !inName b then .ok (name, b :: file)
    else if name.length = maxToken then r.error .variableTooLong
    else varRest r braced (name ++ [b]) file

/-- The name of a variable, after `$`. Its first byte is not checked. -/
def varName (r : Reader) : List Byte → Read (List Byte × List Byte)
  | [] => r.error .eofInVariable
  | b :: file => if b = byte '\x7b' then varRest r true [] file else varRest r false [b] file

/-- What follows the name of a variable is a part of what was there. -/
theorem varRest_length {r : Reader} {braced : Bool} {name name' file rest : List Byte}
    (h : varRest r braced name file = .ok (name', rest)) : rest.length ≤ file.length := by
  induction file generalizing name with
  | nil => cases h
  | cons b file ih =>
    unfold varRest at h
    split at h
    · cases h
    split at h
    · cases h
      exact Nat.le_succ _
    split at h
    · cases h
      exact Nat.le_refl _
    split at h
    · cases h
    exact Nat.le_succ_of_le (ih h)

/-- With its `$` it is shorter. -/
theorem varName_length {r : Reader} {name file rest : List Byte}
    (h : varName r file = .ok (name, rest)) : rest.length < file.length + 1 := by
  cases file with
  | nil => cases h
  | cons b file =>
    rw [varName] at h
    split at h <;> exact Nat.lt_succ_of_le (Nat.le_succ_of_le (varRest_length h))

/-- `next` when nothing was given back and no variable is being read: the
character, the file after it, and the rest of the variable it came from. -/
def nextOfFile (env : Env) (r : Reader) (file : List Byte) :
    Read (Int × List Byte × List Byte) :=
  match file with
  | [] => .ok (eof, [], [])
  | b :: file =>
    if b = byte '\\' then
      match file with
      | [] => .ok (chr '\\', [], [])
      | c :: rest =>
        if c = byte '$' then .ok (chr '$', rest, []) else .ok (chr '\\', c :: rest, [])
    else if b = byte '$' then
      match _h : varName r file with
      | .error e => .error e
      | .ok (name, rest) =>
        match env (cString name) with
        | none => r.error (.unknownVariable (cString name))
        | some [] => nextOfFile env r rest
        | some (c :: var) => .ok (c.toInt, rest, var)
    else .ok (b.toNat, file, [])
termination_by file.length
decreasing_by exact varName_length _h

/-- `next`: the next character. -/
def next (env : Env) (r : Reader) : Read (Int × Reader) :=
  if r.back ≠ 0 then .ok (r.back, { r with back := 0 })
  else
    match r.var with
    | b :: var => .ok (b.toInt, { r with var })
    | [] => do
      let (ch, file, var) ← nextOfFile env r r.file
      return (ch, { r with file, var })

/-- `again`. -/
def again (ch : Int) (r : Reader) : Read Reader :=
  if r.back ≠ 0 then r.error .againTwice else .ok { r with back := ch }

-- ---------------------------------------------------------------------------
-- What is left to read
-- ---------------------------------------------------------------------------

/-- What is left to read: a variable may add to what is left of its value, but then
the file gets shorter. -/
def Reader.left (r : Reader) : Nat × Nat × Nat :=
  (r.file.length, r.var.length, if r.back = 0 then 0 else 1)

/-- Less is left to read. -/
def Reader.Before (r r' : Reader) : Prop :=
  r'.file.length < r.file.length ∨
    (r'.file.length = r.file.length ∧
      (r'.var.length < r.var.length ∨
        (r'.var.length = r.var.length ∧ r'.back = 0 ∧ r.back ≠ 0)))

/-- A reader that went on has less left. -/
theorem Reader.Before.lex {r r' : Reader} (h : r.Before r') :
    Prod.Lex (· < ·) (Prod.Lex (· < ·) (· < ·)) r'.left r.left := by
  unfold Reader.left
  rcases h with hFile | ⟨hFile, hVar | ⟨hVar, hBack', hBack⟩⟩
  · exact Prod.Lex.left _ _ hFile
  · rw [hFile]
    exact Prod.Lex.right _ (Prod.Lex.left _ _ hVar)
  · rw [hFile, hVar, if_pos hBack', if_neg hBack]
    exact Prod.Lex.right _ (Prod.Lex.right _ Nat.one_pos)

/-- Going on twice is going on. -/
theorem Reader.Before.trans {r r' r'' : Reader} (h : r.Before r') (h' : r'.Before r'') :
    r.Before r'' := by
  unfold Reader.Before at *
  omega

/-- A character comes from the file, or the file has ended. -/
theorem nextOfFile_length {env : Env} {r : Reader} {file rest var : List Byte} {ch : Int}
    (h : nextOfFile env r file = .ok (ch, rest, var)) :
    rest.length < file.length ∨ (file = [] ∧ rest = [] ∧ var = [] ∧ ch = eof) := by
  fun_induction nextOfFile env r file with
  | case1 =>
    cases h
    exact Or.inr ⟨rfl, rfl, rfl, rfl⟩
  | case2 | case4 | case9 =>
    cases h
    exact Or.inl (Nat.lt_succ_self _)
  | case3 =>
    cases h
    exact Or.inl (Nat.lt_succ_of_lt (Nat.lt_succ_self _))
  | case5 | case6 => cases h
  | case7 file name rest' hName hValue hNe ih =>
    have hShorter := varName_length hName
    rcases ih h with hLess | ⟨rfl, rfl, -⟩
    · exact Or.inl (Nat.lt_trans hLess hShorter)
    · exact Or.inl hShorter
  | case8 file name rest' hName c value hValue hNe =>
    cases h
    exact Or.inl (varName_length hName)

/-- `next` goes on, or is at the end of the file. -/
theorem next_left {env : Env} {r r' : Reader} {ch : Int} (h : next env r = .ok (ch, r')) :
    r.Before r' ∨ (r'.left = r.left ∧ ch = eof) := by
  unfold next at h
  split at h
  · next hBack =>
    cases h
    exact Or.inl (Or.inr ⟨rfl, Or.inr ⟨rfl, rfl, hBack⟩⟩)
  split at h
  · next hVar =>
    cases h
    refine Or.inl (Or.inr ⟨rfl, Or.inl ?_⟩)
    rw [hVar]
    exact Nat.lt_succ_self _
  · next hVar =>
    match hFile : nextOfFile env r r.file with
    | .error e =>
      rw [hFile] at h
      cases h
    | .ok (ch', file, var) =>
      rw [hFile] at h
      cases h
      rcases nextOfFile_length hFile with hLess | ⟨hEnd, rfl, rfl, rfl⟩
      · exact Or.inl (Or.inl hLess)
      · refine Or.inr ⟨?_, rfl⟩
        rw [Reader.left, Reader.left, hEnd, hVar]

/-- With a character it has gone on. -/
theorem next_before {env : Env} {r r' : Reader} {ch : Int} (h : next env r = .ok (ch, r'))
    (hCh : ch ≠ eof) : r.Before r' := by
  rcases next_left h with hBefore | ⟨-, hEof⟩
  · exact hBefore
  · exact absurd hEof hCh

-- ---------------------------------------------------------------------------
-- Tokens
-- ---------------------------------------------------------------------------

/-- `next_raw`, up to the end of a comment: the file after it. -/
def skipComment : List Byte → Option (List Byte)
  | [] => none
  | b :: file => if b = byte '\n' then some file else skipComment file

/-- A comment takes at least the end of its line. -/
theorem skipComment_length {file rest : List Byte} (h : skipComment file = some rest) :
    rest.length < file.length := by
  induction file with
  | nil => cases h
  | cons b file ih =>
    rw [skipComment] at h
    split at h
    · cases h
      exact Nat.lt_succ_self _
    · exact Nat.lt_succ_of_lt (ih h)

/-- The loop of `cfg_get_token` over blanks and comments: the first character of the
token, EOF if there is none. -/
def startToken (env : Env) (r : Reader) : Read (Int × Reader) :=
  match _h : next env r with
  | .error e => .error e
  | .ok (ch, r') =>
    if _hBlank : ch = chr ' ' ∨ ch = chr '\t' then startToken env r'
    else if _hNewline : ch = chr '\n' then
      startToken env { r' with lineNum := r'.lineNum + 1 }
    else if _hComment : ch = chr '#' then
      match _hSkip : skipComment r'.file with
      | none => .ok (eof, { r' with file := [] })
      | some file => startToken env { r' with file, lineNum := r'.lineNum + 1 }
    else .ok (ch, r')
termination_by r.left
decreasing_by
  · exact (next_before _h (by rcases _hBlank with rfl | rfl <;> decide)).lex
  · exact (next_before _h (by rw [_hNewline]; decide)).lex
  · have hNext := next_before _h (by rw [_hComment]; decide)
    exact (hNext.trans (Or.inl (skipComment_length _hSkip))).lex

/-- The blanks after an escaped end of line: the first character after them. -/
def skipSpaces (env : Env) (r : Reader) : Read (Int × Reader) :=
  match _h : next env r with
  | .error e => .error e
  | .ok (ch, r') =>
    if _hBlank : ch = chr ' ' ∨ ch = chr '\t' then skipSpaces env r'
    else .ok (ch, r')
termination_by r.left
decreasing_by exact (next_before _h (by rcases _hBlank with rfl | rfl <;> decide)).lex

/-- Skipping blanks goes on up to a character. -/
theorem skipSpaces_before {env : Env} {r r' : Reader} {ch : Int}
    (h : skipSpaces env r = .ok (ch, r')) (hCh : ch ≠ eof) : r.Before r' := by
  fun_induction skipSpaces env r with
  | case1 => cases h
  | case2 r ch' r₁ hNext hBlank ih =>
    have hFirst := next_before hNext (by rcases hBlank with rfl | rfl <;> decide)
    exact hFirst.trans (ih h)
  | case3 r ch' r₁ hNext hBlank =>
    cases h
    exact next_before hNext hCh

/-- What a backslash and the character after it stand for in a quoted string: `none`
where the source has `continue`. -/
def quotedEscape (env : Env) (r : Reader) : Read (Option Byte × Reader) := do
  let (ch, r) ← next env r
  if ch = chr '"' ∨ ch = chr '\\' then return (some (BitVec.ofInt 8 ch), r)
  else if ch = chr '\n' then do
    let (ch, r) ← skipSpaces env r
    if ch = 0 then return (none, r)
    else do
      let r ← again ch r
      return (some (byte ' '), r)
  else r.error .badBackslash

/-- A continued line goes on as well. -/
theorem quotedEscape_none {env : Env} {r r' : Reader}
    (h : quotedEscape env r = .ok (none, r')) : r.Before r' := by
  obtain ⟨⟨ch, r₁⟩, hNext, h⟩ := bind_ok h
  simp only at h
  split at h
  · cases h
  split at h
  · next hNewline =>
    have hFirst := next_before hNext (by rw [hNewline]; decide)
    obtain ⟨⟨ch', r₂⟩, hSpaces, h⟩ := bind_ok h
    simp only at h
    split at h
    · next hZero =>
      cases h
      exact hFirst.trans (skipSpaces_before hSpaces (by rw [hZero]; decide))
    · obtain ⟨r₃, -, h⟩ := bind_ok h
      cases h
  · cases h

/-- The loop of `cfg_get_token` over a quoted string. -/
def quoted (env : Env) (buf : List Byte) (r : Reader) : Read (List Byte × Reader) :=
  if _hRoom : buf.length < maxToken then
    match _h : next env r with
    | .error e => .error e
    | .ok (ch, r') =>
      if _hEof : ch = eof then r'.error .eofInQuoted
      else if ch = chr '"' then .ok (buf, r')
      else if ch = chr '\\' then
        match _hEscape : quotedEscape env r' with
        | .error e => .error e
        | .ok (none, r'') => quoted env buf r''
        | .ok (some b, r'') => quoted env (buf ++ [b]) r''
      else if ch = chr '\n' ∨ ch = chr '\t' then r'.error .controlInQuoted
      else quoted env (buf ++ [BitVec.ofInt 8 ch]) r'
  else r.error .quotedTooLong
termination_by (maxToken - buf.length, r.left)
decreasing_by
  · exact Prod.Lex.right _ ((next_before _h _hEof).trans (quotedEscape_none _hEscape)).lex
  · refine Prod.Lex.left _ _ ?_
    rw [List.length_append, List.length_singleton]
    omega
  · refine Prod.Lex.left _ _ ?_
    rw [List.length_append, List.length_singleton]
    omega

/-- The characters that end a token. -/
def endsWord (ch : Int) : Bool :=
  ch == chr ' ' || ch == chr '\t' || ch == chr '\n' || ch == chr '#' || ch == chr '=' || ch == eof

/-- What a character adds to a token, and whether the next one is escaped. -/
def wordStep (escaped : Bool) (ch : Int) (buf : List Byte) : List Byte × Bool :=
  if escaped then
    if ch = chr '\n' then (buf, false)
    else (buf ++ [if ch = chr '\t' then byte ' ' else BitVec.ofInt 8 ch], false)
  else if ch = chr '\\' then (buf, true)
  else (buf ++ [BitVec.ofInt 8 ch], false)

/-- A character adds one byte to the buffer at most. -/
theorem wordStep_buf (escaped : Bool) (ch : Int) (buf : List Byte) :
    (wordStep escaped ch buf).1 = buf ∨ (wordStep escaped ch buf).1.length = buf.length + 1 := by
  unfold wordStep
  split
  · split
    · exact Or.inl rfl
    · exact Or.inr List.length_append
  · split
    · exact Or.inl rfl
    · exact Or.inr List.length_append

/-- The loop of `cfg_get_token` over a token without quotes. -/
def word (env : Env) (buf : List Byte) (escaped : Bool) (ch : Int) (r : Reader) :
    Read (List Byte × Reader) :=
  if _hRoom : buf.length < maxToken then
    if !escaped && endsWord ch then (again ch r).map (buf, ·)
    else if _hEof : ch = eof then r.error .backslashEof
    else
      let r₁ := if escaped ∧ ch = chr '\n' then { r with lineNum := r.lineNum + 1 } else r
      match _h : next env r₁ with
      | .error e => .error e
      | .ok (ch', r') =>
        word env (wordStep escaped ch buf).1 (wordStep escaped ch buf).2 ch' r'
  else r.error .tokenTooLong
termination_by (maxToken - buf.length, r.left, if ch = eof then 0 else 1)
decreasing_by
  have hSame : r₁.left = r.left := by
    simp only [r₁]
    split <;> rfl
  rcases wordStep_buf escaped ch buf with hBuf | hBuf
  · rw [hBuf]
    refine Prod.Lex.right _ ?_
    rcases next_left _h with hBefore | ⟨hLeft, hEnd⟩
    · have hLex := hBefore.lex
      rw [hSame] at hLex
      exact Prod.Lex.left _ _ hLex
    · rw [hLeft, hSame, if_pos hEnd, if_neg _hEof]
      exact Prod.Lex.right _ Nat.one_pos
  · refine Prod.Lex.left _ _ ?_
    rw [hBuf]
    omega

/-- An item of the configuration file. -/
structure CfgItem where
  item : List Byte
  value : Option (List Byte)
  deriving DecidableEq, Repr

/-- The reader, and the token and the item that were given back. -/
structure Parser where
  reader : Reader
  lastToken : Option (List Byte) := none
  lastItem : Option CfgItem := none
  deriving DecidableEq, Repr

/-- `cfg_open`. -/
def cfgOpen (file : List Byte) : Parser := { reader := { file } }

/-- `cfg_get_token`, when no token was given back. -/
def getToken (env : Env) (r : Reader) : Read (Option (List Byte) × Reader) := do
  let (ch, r) ← startToken env r
  if ch = eof then return (none, r)
  else if ch = chr '=' then return (some [byte '='], r)
  else if ch = chr '"' then do
    let (buf, r) ← quoted env [] r
    return (some (cString buf), r)
  else do
    let (buf, r) ← word env [] false ch r
    return (some (cString buf), r)

/-- `cfg_get_token`. -/
def cfgGetToken (env : Env) (p : Parser) : Read (Option (List Byte) × Parser) :=
  match p.lastToken with
  | some token => .ok (some token, { p with lastToken := none })
  | none => (getToken env p.reader).map fun t => (t.1, { p with reader := t.2 })

/-- `cfg_next`. -/
def cfgNext (env : Env) (p : Parser) : Read (Option CfgItem × Parser) :=
  match p.lastItem with
  | some item => .ok (some item, { p with lastItem := none })
  | none => do
    let (item, p) ← cfgGetToken env p
    match item with
    | none => return (none, p)
    | some item =>
      if item = [byte '='] then p.reader.error .syntaxError
      else do
        let (this, p) ← cfgGetToken env p
        match this with
        | none => return (some ⟨item, none⟩, p)
        | some this =>
          if this ≠ [byte '='] then
            return (some ⟨item, none⟩, { p with lastToken := some this })
          else do
            let (value, p) ← cfgGetToken env p
            match value with
            | none => p.reader.error .valueExpectedAtEof
            | some value =>
              if value = [byte '='] then p.reader.error (.syntaxErrorAfter item)
              else return (some ⟨item, some value⟩, p)

-- ---------------------------------------------------------------------------
-- Tables
-- ---------------------------------------------------------------------------

/-- `cft_strg` and `cft_flag`. -/
inductive CfgType where
  | strg
  | flag
  deriving DecidableEq, Repr

/-- An entry of a table, one whose `action` is NULL. `data` is the value of a string, the
empty string for a flag that is set, `none` if it is not set; `context` is the table that
was parsed when it was. -/
structure CfgEntry where
  type : CfgType
  name : List Byte
  data : Option (List Byte) := none
  context : Nat := 0
  deriving DecidableEq, Repr

/-- `{ cft_strg, name, NULL, NULL, NULL }`. -/
def cftStrg (name : String) : CfgEntry := { type := .strg, name := name.toList.map byte }

/-- `{ cft_flag, name, NULL, NULL, NULL }`. -/
def cftFlag (name : String) : CfgEntry := { type := .flag, name := name.toList.map byte }

/-- `cf_all`. -/
def cfAll : List CfgEntry :=
  [cftStrg "label", cftStrg "alias", cftStrg "password", cftFlag "restricted",
    cftFlag "optional", cftFlag "lock", cftStrg "fallback", cftFlag "single-key"]

/-- `cf_kernel`, which ends with a link to `cf_all`. -/
def cfKernel : List CfgEntry :=
  [cftStrg "root", cftStrg "vga", cftStrg "ramdisk", cftFlag "read-only", cftFlag "read-write",
    cftStrg "append", cftStrg "literal", cftStrg "initrd"] ++ cfAll

/-- `cf_image`, which ends with a link to `cf_kernel`. -/
def cfImage : List CfgEntry := cftStrg "range" :: cfKernel

/-- `cf_map_drive`. -/
def cfMapDrive : List CfgEntry := [cftStrg "to"]

/-- `tolower`. -/
def toLower (b : Byte) : Byte := if byte 'A' ≤ b && b ≤ byte 'Z' then b + 0x20 else b

/-- `!strcasecmp`. -/
def sameName (a b : List Byte) : Bool := a.map toLower == b.map toLower

/-- `strcasecmp` compares what `tolower` makes of both. -/
theorem sameName_iff {a b : List Byte} : sameName a b = true ↔ a.map toLower = b.map toLower :=
  beq_iff_eq

/-- `cfg_init`. -/
def cfgInit (table : List CfgEntry) : List CfgEntry := table.map fun e => { e with data := none }

/-- `cfg_do_set`: the table with the item set, `none` if it has no such entry. An
entry that was set in another context stays as it is. No entry has an action, which the
source would call last. -/
def cfgDoSet (context : Nat) (i : CfgItem) : List CfgEntry → Except CfgError (Option (List CfgEntry))
  | [] => .ok none
  | e :: table =>
    if sameName e.name i.item then
      if i.value.isSome ∧ e.type ≠ .strg then .error (.noValue e.name)
      else if i.value = none ∧ e.type = .strg then .error (.valueExpected e.name)
      else if e.data.isSome then
        if e.context = context then .error (.duplicate e.name) else .ok (some (e :: table))
      else .ok (some ({ e with data := some (i.value.getD []), context } :: table))
    else (cfgDoSet context i table).map (·.map (e :: ·))

/-- `cfg_parse`: whether an unknown item was met, the table, and the parser, which
has the item back then. The number of items is bounded by the first argument. -/
def cfgParse (env : Env) (context : Nat) :
    Nat → Parser → List CfgEntry → Option (Read (Bool × List CfgEntry × Parser))
  | 0, _, _ => none
  | items + 1, p, table =>
    match cfgNext env p with
    | .error e => some (.error e)
    | .ok (none, p') => some (.ok (false, table, p'))
    | .ok (some i, p') =>
      match cfgDoSet context i table with
      | .error e => some (p'.reader.error e)
      | .ok none => some (.ok (true, table, { p' with lastItem := some i }))
      | .ok (some table') => cfgParse env context items p' table'

/-- The entry that `cfg_get_flag` and `cfg_get_strg` find. -/
def cfgFind (item : List Byte) (table : List CfgEntry) : Option CfgEntry :=
  table.find? fun e => sameName e.name item

/-- `cfg_get_flag`. -/
def cfgGetFlag (table : List CfgEntry) (item : List Byte) : Except CfgError Bool :=
  match cfgFind item table with
  | none => .error (.unknownItem item)
  | some e => if e.type ≠ .flag then .error (.notAFlag item) else .ok e.data.isSome

/-- `cfg_get_strg`. -/
def cfgGetStrg (table : List CfgEntry) (item : List Byte) :
    Except CfgError (Option (List Byte)) :=
  match cfgFind item table with
  | none => .error (.unknownItem item)
  | some e => if e.type ≠ .strg then .error (.notAString item) else .ok e.data

end MultiOS.Lilo
