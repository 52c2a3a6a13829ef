import MultiOS.Lib.Outcome
import MultiOS.Lilo.ConfigItems

/-!
# LILO — reading any configuration file

Whatever is in the file and in the environment: each loop of `cfg.c` is followed
through every branch, for what it returns and for the errors it may stop with.
A character is never given back twice, no token is longer than its buffer, and
every item takes something from the file, from a variable or from what was given
back, so `cfg_parse` comes to an end (`config_ends`).
-/

namespace MultiOS.Lilo

open Lib (Outcome)

-- ---------------------------------------------------------------------------
-- How far a reader is
-- ---------------------------------------------------------------------------

/-- `r'` is where `r` is, or after it. What was given back is not counted. -/
def Reader.Reaches (r r' : Reader) : Prop :=
  r'.file.length < r.file.length ∨
    (r'.file.length = r.file.length ∧ r'.var.length ≤ r.var.length)

/-- From `r` to `r'` a character was taken from the file or from a variable. -/
def Reader.Takes (r r' : Reader) : Prop :=
  r'.file.length < r.file.length ∨
    (r'.file.length = r.file.length ∧ r'.var.length < r.var.length)

/-- A reader is where it is. -/
theorem Reader.Reaches.refl (r : Reader) : r.Reaches r := Or.inr ⟨rfl, Nat.le_refl _⟩

/-- The order is transitive. -/
theorem Reader.Reaches.trans {r r' r'' : Reader} (h : r.Reaches r') (h' : r'.Reaches r'') :
    r.Reaches r'' := by
  unfold Reader.Reaches at *
  omega

/-- Taking a character is going on. -/
theorem Reader.Takes.reaches {r r' : Reader} (h : r.Takes r') : r.Reaches r' := by
  unfold Reader.Takes at h
  unfold Reader.Reaches
  omega

/-- A character taken later is taken. -/
theorem Reader.Reaches.takes {r r' r'' : Reader} (h : r.Reaches r') (h' : r'.Takes r'') :
    r.Takes r'' := by
  unfold Reader.Reaches at h
  unfold Reader.Takes at *
  omega

/-- A character taken before going on is taken. -/
theorem Reader.Takes.trans {r r' r'' : Reader} (h : r.Takes r') (h' : r'.Reaches r'') :
    r.Takes r'' := by
  unfold Reader.Reaches at h'
  unfold Reader.Takes at *
  omega

/-- The errors that may occur: all but the internal one. -/
def NotTwice (e : CfgError × Nat) : Prop := e.1 ≠ .againTwice

/-- An error other than the internal one. -/
theorem Reader.error_notTwice {α : Type} {P : α → Prop} (r : Reader) {e : CfgError}
    (h : e ≠ .againTwice) : Outcome P NotTwice (r.error e) :=
  Outcome.error h

-- ---------------------------------------------------------------------------
-- next, again
-- ---------------------------------------------------------------------------

/-- The name of a variable up to its end. -/
theorem varRest_notTwice (r : Reader) (braced : Bool) (name file : List Byte) :
    Outcome (fun _ => True) NotTwice (varRest r braced name file) := by
  induction file generalizing name with
  | nil => exact r.error_notTwice nofun
  | cons b file ih =>
    rw [varRest]
    split
    · exact r.error_notTwice nofun
    split
    · exact Outcome.ok trivial
    split
    · exact Outcome.ok trivial
    split
    · exact r.error_notTwice nofun
    · exact ih _

/-- A name with braces or without. -/
theorem varName_notTwice (r : Reader) (file : List Byte) :
    Outcome (fun _ => True) NotTwice (varName r file) := by
  cases file with
  | nil => exact r.error_notTwice nofun
  | cons b file =>
    rw [varName]
    split <;> exact varRest_notTwice r _ _ _

/-- Line continuations and variables stop with no internal error. -/
theorem nextOfFile_notTwice {env : Env} {r : Reader} {file : List Byte} {e : CfgError × Nat}
    (h : nextOfFile env r file = .error e) : NotTwice e := by
  fun_induction nextOfFile env r file with
  | case5 file e' hName =>
    cases h
    exact (varName_notTwice r file).failure hName
  | case6 =>
    cases h
    rintro ⟨⟩
  | case7 file name rest hName hValue hNe ih => exact ih h
  | _ => cases h

/-- What `next` does to a reader. -/
structure Reader.Step (r : Reader) (ch : Int) (r' : Reader) : Prop where
  back : r'.back = 0
  reaches : r.Reaches r'
  takes : r.back = 0 → ch = eof ∨ r.Takes r'
  given : r.back ≠ 0 → ch = r.back

/-- `next` gives back what it was given, or takes a character unless the file is
at its end. -/
theorem next_outcome (env : Env) (r : Reader) :
    Outcome (fun x => r.Step x.1 x.2) NotTwice (next env r) := by
  unfold next
  split
  · next hBack =>
    exact Outcome.ok ⟨rfl, Reader.Reaches.refl r, fun h => absurd h hBack, fun _ => rfl⟩
  · next hBack =>
    rw [not_not] at hBack
    split
    · next b var hVar =>
      have hTakes : r.Takes { r with var } := Or.inr ⟨rfl, by rw [hVar]; exact Nat.lt_succ_self _⟩
      exact Outcome.ok ⟨hBack, hTakes.reaches, fun _ => Or.inr hTakes, fun h => absurd hBack h⟩
    · next hVar =>
      refine Outcome.bind (Outcome.of_cases (fun _ h => h) fun _ h => nextOfFile_notTwice h) ?_
      rintro ⟨ch, file, var⟩ hFile
      refine Outcome.ok ?_
      rcases nextOfFile_length hFile with hLess | ⟨hEnd, rfl, rfl, rfl⟩
      · have hTakes : r.Takes { r with file, var } := Or.inl hLess
        exact ⟨hBack, hTakes.reaches, fun _ => Or.inr hTakes, fun h => absurd hBack h⟩
      · refine ⟨hBack, Or.inr ⟨?_, Nat.zero_le _⟩, fun _ => Or.inl rfl, fun h => absurd hBack h⟩
        rw [hEnd]

/-- A character is given back where none was. -/
theorem again_eq {r : Reader} (ch : Int) (h : r.back = 0) :
    again ch r = .ok { r with back := ch } :=
  if_neg (not_not_intro h)

-- ---------------------------------------------------------------------------
-- The loops of cfg_get_token
-- ---------------------------------------------------------------------------

variable (env : Env)

/-- Between tokens, what ended a token may have been given back, and nothing else. -/
def Reader.Settled (r : Reader) : Prop := r.back = 0 ∨ endsWord r.back = true

/-- The character, if it is in a token, was not one that was given back. -/
theorem Reader.Step.takes_word {r r' : Reader} {ch : Int} (h : r.Step ch r') (hr : r.Settled)
    (hWord : endsWord ch = false) : r.Takes r' := by
  by_cases hBack : r.back = 0
  · rcases h.takes hBack with rfl | hTakes
    · exact absurd hWord (by decide)
    · exact hTakes
  · have hEnds := hr.resolve_left hBack
    rw [← h.given hBack, hWord] at hEnds
    cases hEnds

/-- Where the loop over blanks and comments ends. -/
structure Reader.Started (r : Reader) (ch : Int) (r' : Reader) : Prop where
  back : r'.back = 0
  reaches : r.Reaches r'
  takes : endsWord ch = false → r.Takes r'
  first : ch ≠ eof → ch ≠ chr '=' → endsWord ch = false

/-- Going on before a token does not matter for how it starts. -/
theorem Reader.Reaches.started {r r' r'' : Reader} {ch : Int} (h : r.Reaches r')
    (h' : r'.Started ch r'') : r.Started ch r'' :=
  ⟨h'.back, h.trans h'.reaches, fun hWord => h.takes (h'.takes hWord), h'.first⟩

/-- Lines and comments are skipped in the file. -/
theorem Reader.Reaches.skip {r r' : Reader} {file : List Byte} (h : r.Reaches r')
    (hFile : file.length ≤ r'.file.length) (line : Nat) :
    r.Reaches { r' with file, lineNum := line } := by
  rcases h with hLess | ⟨hSame, hVar⟩
  · exact Or.inl (Nat.lt_of_le_of_lt hFile hLess)
  · rcases Nat.lt_or_eq_of_le hFile with hLess | hEq
    · exact Or.inl (hSame ▸ hLess)
    · exact Or.inr ⟨hEq.trans hSame, hVar⟩

/-- Blanks, line ends and comments before a token. -/
theorem startToken_outcome {r : Reader} (hr : r.Settled) :
    Outcome (fun x => r.Started x.1 x.2) NotTwice (startToken env r) := by
  fun_induction startToken env r with
  | case1 r e hNext => exact Outcome.error ((next_outcome env r).failure hNext)
  | case2 r ch r' hNext hBlank ih =>
    have hStep := (next_outcome env r).value hNext
    exact (ih (Or.inl hStep.back)).mono fun _ h => hStep.reaches.started h
  | case3 r r' hNext _ ih =>
    have hStep := (next_outcome env r).value hNext
    have hReaches := hStep.reaches.skip (Nat.le_refl _) (r'.lineNum + 1)
    exact (ih (Or.inl hStep.back)).mono fun _ h => hReaches.started h
  | case4 r r' hSkip hNext =>
    have hStep := (next_outcome env r).value hNext
    have hReaches : r.Reaches { r' with file := [] } := hStep.reaches.skip (Nat.zero_le _) _
    have hEnds : ¬ endsWord eof = false := by decide
    exact Outcome.ok ⟨hStep.back, hReaches, fun h => absurd h hEnds, fun h => absurd rfl h⟩
  | case5 r r' file hSkip hNext _ _ ih =>
    have hStep := (next_outcome env r).value hNext
    have hReaches := hStep.reaches.skip (Nat.le_of_lt (skipComment_length hSkip)) (r'.lineNum + 1)
    exact (ih (Or.inl hStep.back)).mono fun _ h => hReaches.started h
  | case6 r ch r' hNext hBlank hNewline hHash =>
    have hStep := (next_outcome env r).value hNext
    refine Outcome.ok ⟨hStep.back, hStep.reaches, hStep.takes_word hr, ?_⟩
    intro hEof hEquals
    rw [not_or] at hBlank
    simp [endsWord, hBlank, hNewline, hHash, hEof, hEquals]

/-- The blanks after a continued line of a quoted word. -/
theorem skipSpaces_outcome (r : Reader) :
    Outcome (fun x => x.2.back = 0 ∧ r.Reaches x.2) NotTwice (skipSpaces env r) := by
  fun_induction skipSpaces env r with
  | case1 r e hNext => exact Outcome.error ((next_outcome env r).failure hNext)
  | case2 r ch r' hNext hBlank ih =>
    have hStep := (next_outcome env r).value hNext
    exact ih.mono fun _ h => ⟨h.1, hStep.reaches.trans h.2⟩
  | case3 r ch r' hNext =>
    have hStep := (next_outcome env r).value hNext
    exact Outcome.ok ⟨hStep.back, hStep.reaches⟩

/-- A backslash inside quotes. -/
theorem quotedEscape_outcome (r : Reader) :
    Outcome (fun x => r.Reaches x.2) NotTwice (quotedEscape env r) := by
  refine (next_outcome env r).bind ?_
  rintro ⟨ch, r'⟩ hStep
  simp only
  split
  · exact Outcome.ok hStep.reaches
  split
  · refine (skipSpaces_outcome env r').bind ?_
    rintro ⟨ch', r''⟩ ⟨hBack, hSpaces⟩
    have hReaches := hStep.reaches.trans hSpaces
    simp only
    split
    · exact Outcome.ok hReaches
    · rw [again_eq ch' hBack]
      exact Outcome.ok hReaches
  · exact r'.error_notTwice nofun

/-- Where the loops over a token end. -/
structure Reader.Read (r : Reader) (buf : List Byte) (r' : Reader) : Prop where
  length : buf.length < maxToken
  settled : r'.Settled
  reaches : r.Reaches r'

/-- Nor does it matter for what is read. -/
theorem Reader.Reaches.read {r r' r'' : Reader} {buf : List Byte} (h : r.Reaches r')
    (h' : r'.Read buf r'') : r.Read buf r'' :=
  ⟨h'.length, h'.settled, h.trans h'.reaches⟩

/-- A quoted word fits in the buffer, or the token is too long. -/
theorem quoted_outcome (buf : List Byte) (r : Reader) :
    Outcome (fun x => r.Read x.1 x.2) NotTwice (quoted env buf r) := by
  fun_induction quoted env buf r with
  | case1 buf r hRoom e hNext => exact Outcome.error ((next_outcome env r).failure hNext)
  | case3 buf r hRoom r' hNext =>
    have hStep := (next_outcome env r).value hNext
    exact Outcome.ok ⟨hRoom, Or.inl hStep.back, hStep.reaches⟩
  | case4 buf r hRoom r' e hEscape =>
    exact Outcome.error ((quotedEscape_outcome env r').failure hEscape)
  | case5 buf r hRoom r' r'' hEscape hNext _ _ ih =>
    have hReaches := ((next_outcome env r).value hNext).reaches
    have hReaches' := (quotedEscape_outcome env r').value hEscape
    exact ih.mono fun _ h => (hReaches.trans hReaches').read h
  | case6 buf r hRoom r' b r'' hEscape hNext _ _ ih =>
    have hReaches := ((next_outcome env r).value hNext).reaches
    have hReaches' := (quotedEscape_outcome env r').value hEscape
    exact ih.mono fun _ h => (hReaches.trans hReaches').read h
  | case8 buf r hRoom ch r' hNext _ _ _ _ ih =>
    have hReaches := ((next_outcome env r).value hNext).reaches
    exact ih.mono fun _ h => hReaches.read h
  | case2 buf r hRoom r' | case7 buf r hRoom ch r' => exact r'.error_notTwice nofun
  | case9 buf r => exact r.error_notTwice nofun

/-- A new line is counted, and nothing else. -/
theorem Reader.reaches_counted (r : Reader) (b : Prop) [Decidable b] :
    let r' := if b then { r with lineNum := r.lineNum + 1 } else r
    r.Reaches r' ∧ r'.back = r.back := by
  simp only
  split <;> exact ⟨Reader.Reaches.refl r, rfl⟩

/-- So does a word without quotes; it gives the character after it back once. -/
theorem word_outcome (buf : List Byte) (escaped : Bool) (ch : Int) {r : Reader}
    (hr : r.back = 0) :
    Outcome (fun x => r.Read x.1 x.2) NotTwice (word env buf escaped ch r) := by
  fun_induction word env buf escaped ch r with
  | case1 buf escaped ch r hRoom hEnds =>
    rw [Bool.and_eq_true] at hEnds
    rw [again_eq ch hr]
    exact Outcome.ok ⟨hRoom, Or.inr hEnds.2, Reader.Reaches.refl r⟩
  | case2 buf escaped r => exact r.error_notTwice nofun
  | case3 buf escaped ch r hRoom _ hEof r₁ e hNext =>
    exact Outcome.error ((next_outcome env r₁).failure hNext)
  | case4 buf escaped ch r hRoom _ hEof r₁ ch' r' hNext ih =>
    have hStep := (next_outcome env r₁).value hNext
    have hReaches := (r.reaches_counted (escaped ∧ ch = chr '\n')).1.trans hStep.reaches
    exact (ih hStep.back).mono fun _ h => hReaches.read h
  | case5 buf escaped ch r => exact r.error_notTwice nofun

-- ---------------------------------------------------------------------------
-- Tokens and items
-- ---------------------------------------------------------------------------

/-- A string that fits in the buffer of `cfg_get_token`. -/
structure IsShort (t : List Byte) : Prop where
  length : t.length < maxToken
  no_zero : (0 : Byte) ∉ t

/-- Both tokens of the item fit in the buffer. -/
structure CfgItem.Short (i : CfgItem) : Prop where
  item : IsShort i.item
  value : ∀ v, i.value = some v → IsShort v

/-- A C string is no longer than what it was read from. -/
theorem cString_short {buf : List Byte} (h : buf.length < maxToken) : IsShort (cString buf) := by
  refine ⟨Nat.lt_of_le_of_lt (List.takeWhile_prefix _).length_le h, ?_⟩
  intro hZero
  have hNe := List.mem_takeWhile_imp hZero
  simp at hNe

/-- What reading a token comes to, in any file. -/
structure Reader.Token (r : Reader) (t : Option (List Byte)) (r' : Reader) : Prop where
  settled : r'.Settled
  reaches : r.Reaches r'
  short : ∀ t', t = some t' → IsShort t'
  takes : ∀ t', t = some t' → t' ≠ [byte '='] → r.Takes r'

/-- What was read after taking a character is a token. -/
theorem Reader.Read.token {r r' r'' : Reader} {buf : List Byte} (h : r'.Read buf r'')
    (hTakes : r.Takes r') : r.Token (some (cString buf)) r'' := by
  have hTakes' := hTakes.trans h.reaches
  refine ⟨h.settled, hTakes'.reaches, ?_, fun _ _ _ => hTakes'⟩
  rintro _ ⟨⟩
  exact cString_short h.length

/-- `cfg_get_token`, without the token that was given back. -/
theorem getToken_outcome {r : Reader} (hr : r.Settled) :
    Outcome (fun x => r.Token x.1 x.2) NotTwice (getToken env r) := by
  refine (startToken_outcome env hr).bind ?_
  rintro ⟨ch, r'⟩ hStart
  simp only
  split
  · exact Outcome.ok ⟨Or.inl hStart.back, hStart.reaches, nofun, nofun⟩
  · next hEof =>
    split
    · refine Outcome.ok ⟨Or.inl hStart.back, hStart.reaches, ?_, ?_⟩
      · rintro _ ⟨⟩
        exact ⟨by decide, by decide⟩
      · rintro _ ⟨⟩ hNe
        exact absurd rfl hNe
    · next hEquals =>
      have hTakes := hStart.takes (hStart.first hEof hEquals)
      split
      · exact (quoted_outcome env [] r').bind fun x h => Outcome.ok (h.token hTakes)
      · have hWord := word_outcome env [] false ch hStart.back
        exact hWord.bind fun x h => Outcome.ok (h.token hTakes)

/-- What reading a configuration file keeps of a parser. -/
structure Parser.Sound (p : Parser) : Prop where
  settled : p.reader.Settled
  token : ∀ t, p.lastToken = some t → IsShort t
  item : ∀ i, p.lastItem = some i → i.Short

/-- `cfg_open` has given nothing back. -/
theorem cfgOpen_sound (file : List Byte) : (cfgOpen file).Sound := ⟨Or.inl rfl, nofun, nofun⟩

/-- How many tokens and items were given back. -/
def Parser.held (p : Parser) : Nat := p.lastToken.toList.length + p.lastItem.toList.length

/-- `p'` is after `p`: something was taken from the file, from a variable, or from what
was given back. -/
def Parser.Advances (p p' : Parser) : Prop :=
  p.reader.Takes p'.reader ∨ (p.reader.Reaches p'.reader ∧ p'.held < p.held)

/-- What `cfg_get_token` does to a parser. -/
structure Parser.Token (p : Parser) (t : Option (List Byte)) (p' : Parser) : Prop where
  sound : p'.Sound
  none_held : p'.lastToken = none
  same_item : p'.lastItem = p.lastItem
  reaches : p.reader.Reaches p'.reader
  short : ∀ t', t = some t' → IsShort t'
  takes : ∀ t', t = some t' → t' ≠ [byte '='] →
    p.reader.Takes p'.reader ∨ p.lastToken.isSome

/-- A token, given back or new. -/
theorem cfgGetToken_outcome {p : Parser} (hp : p.Sound) :
    Outcome (fun x => p.Token x.1 x.2) NotTwice (cfgGetToken env p) := by
  obtain ⟨r, token, item⟩ := p
  cases token with
  | some t =>
    refine Outcome.ok ⟨⟨hp.settled, nofun, hp.item⟩, rfl, rfl, Reader.Reaches.refl r, ?_, ?_⟩
    · rintro _ ⟨⟩
      exact hp.token t rfl
    · exact fun _ _ _ => Or.inr rfl
  | none =>
    refine (getToken_outcome env hp.settled).map ?_
    intro x h
    exact ⟨⟨h.settled, nofun, hp.item⟩, rfl, rfl, h.reaches, h.short,
      fun t ht hNe => Or.inl (h.takes t ht hNe)⟩

/-- What `cfg_next` does to a parser. -/
structure Parser.Item (p : Parser) (i : Option CfgItem) (p' : Parser) : Prop where
  sound : p'.Sound
  none_held : p'.lastItem = none
  short : ∀ i', i = some i' → i'.Short
  advances : i.isSome → p.Advances p'

/-- After the first token, nothing is held and more may be read. -/
theorem Parser.Token.advances {p p₁ p' : Parser} {t : List Byte} (h : p.Token (some t) p₁)
    (hItem : t ≠ [byte '=']) (hReaches : p₁.reader.Reaches p'.reader)
    (hToken : p'.lastToken = none) (hNone : p'.lastItem = none) : p.Advances p' := by
  rcases h.takes t rfl hItem with hTakes | hSome
  · exact Or.inl (hTakes.trans hReaches)
  · refine Or.inr ⟨h.reaches.trans hReaches, ?_⟩
    obtain ⟨t', ht'⟩ := Option.isSome_iff_exists.mp hSome
    rw [Parser.held, Parser.held, hToken, hNone, ht']
    exact Nat.lt_of_lt_of_le Nat.zero_lt_one (Nat.le_add_right 1 _)

/-- An item, when nothing is held after its tokens. -/
theorem Parser.Token.item {p p₁ p' : Parser} {t : List Byte} {value : Option (List Byte)}
    (h : p.Token (some t) p₁) (hItem : t ≠ [byte '=']) (hNone : p.lastItem = none)
    (hReaches : p₁.reader.Reaches p'.reader) (hSound : p'.Sound) (hToken : p'.lastToken = none)
    (hSame : p'.lastItem = p₁.lastItem) (hValue : ∀ v, value = some v → IsShort v) :
    p.Item (some ⟨t, value⟩) p' := by
  have hNone' : p'.lastItem = none := by rw [hSame, h.same_item, hNone]
  refine ⟨hSound, hNone', ?_, fun _ => h.advances hItem hReaches hToken hNone'⟩
  rintro _ ⟨⟩
  exact ⟨h.short t rfl, hValue⟩

/-- An item takes something; at most one token is given back after it. -/
theorem cfgNext_outcome {p : Parser} (hp : p.Sound) :
    Outcome (fun x => p.Item x.1 x.2) NotTwice (cfgNext env p) := by
  unfold cfgNext
  split
  -- an item that `cfg_parse` gave back
  · next item hItem =>
    refine Outcome.ok ⟨⟨hp.settled, hp.token, nofun⟩, rfl, ?_, fun _ => Or.inr ⟨?_, ?_⟩⟩
    · rintro _ ⟨⟩
      exact hp.item item hItem
    · exact Reader.Reaches.refl p.reader
    · rw [Parser.held, Parser.held, hItem]
      exact Nat.lt_succ_self _
  · next hNone =>
    refine (cfgGetToken_outcome env hp).bind ?_
    rintro ⟨_ | t, p₁⟩ hFirst
    · exact Outcome.ok ⟨hFirst.sound, hFirst.same_item.trans hNone, nofun, nofun⟩
    simp only
    split
    · exact p₁.reader.error_notTwice nofun
    · next hItem =>
      refine (cfgGetToken_outcome env hFirst.sound).bind ?_
      rintro ⟨_ | this, p₂⟩ hSecond
      · exact Outcome.ok (hFirst.item hItem hNone hSecond.reaches hSecond.sound hSecond.none_held
          hSecond.same_item nofun)
      simp only
      split
      · next hThis =>
        -- no `=` follows: the token is held for the next item
        have hNone' : p₂.lastItem = none := by rw [hSecond.same_item, hFirst.same_item, hNone]
        have hTakes : p₁.reader.Takes p₂.reader := by
          rcases hSecond.takes this rfl hThis with hTakes | hSome
          · exact hTakes
          · rw [hFirst.none_held] at hSome
            cases hSome
        refine Outcome.ok ⟨⟨hSecond.sound.settled, ?_, hSecond.sound.item⟩, hNone', ?_, ?_⟩
        · rintro _ ⟨⟩
          exact hSecond.short this rfl
        · rintro _ ⟨⟩
          exact ⟨hFirst.short t rfl, nofun⟩
        · exact fun _ => Or.inl (hFirst.reaches.takes hTakes)
      · refine (cfgGetToken_outcome env hSecond.sound).bind ?_
        rintro ⟨_ | value, p₃⟩ hThird
        · exact p₃.reader.error_notTwice nofun
        simp only
        split
        · exact p₃.reader.error_notTwice nofun
        · refine Outcome.ok (hFirst.item hItem hNone (hSecond.reaches.trans hThird.reaches)
            hThird.sound hThird.none_held (hThird.same_item.trans hSecond.same_item) ?_)
          rintro _ ⟨⟩
          exact hThird.short value rfl

-- ---------------------------------------------------------------------------
-- Tables
-- ---------------------------------------------------------------------------

/-- What is in the table fits in the buffer of `cfg_get_token`. -/
def ShortTable (table : List CfgEntry) : Prop :=
  ∀ e ∈ table, ∀ v, e.data = some v → IsShort v

/-- The entries that the table has, apart from what they are set to. -/
def shape (table : List CfgEntry) : List (CfgType × List Byte) :=
  table.map fun e => (e.type, e.name)

/-- An item sets one entry of the table to a string that fits, or the table is
as it was. -/
theorem cfgDoSet_outcome (context : Nat) {i : CfgItem} (hi : i.Short) {table : List CfgEntry}
    (hTable : ShortTable table) :
    Outcome (fun t => ∀ table', t = some table' →
      ShortTable table' ∧ shape table' = shape table) (· ≠ .againTwice)
      (cfgDoSet context i table) := by
  induction table with
  | nil => exact Outcome.ok nofun
  | cons e table ih =>
    obtain ⟨hHead, hRest⟩ := List.forall_mem_cons.mp hTable
    rw [cfgDoSet]
    split
    · split
      · exact Outcome.error nofun
      split
      · exact Outcome.error nofun
      split
      · split
        · exact Outcome.error nofun
        · refine Outcome.ok ?_
          rintro _ ⟨⟩
          exact ⟨hTable, rfl⟩
      · refine Outcome.ok ?_
        rintro _ ⟨⟩
        refine ⟨List.forall_mem_cons.mpr ⟨?_, hRest⟩, rfl⟩
        rintro _ ⟨⟩
        cases hValue : i.value with
        | none => exact ⟨by decide, by simp⟩
        | some v => exact hi.value v hValue
    · refine (ih hRest).map ?_
      rintro (_ | table') hSet
      · exact nofun
      · rintro _ ⟨⟩
        obtain ⟨hShort, hShape⟩ := hSet table' rfl
        exact ⟨List.forall_mem_cons.mpr ⟨hHead, hShort⟩, congrArg (_ :: ·) hShape⟩

-- ---------------------------------------------------------------------------
-- cfg_parse
-- ---------------------------------------------------------------------------

/-- What is left of the file and of a variable, and what was given back. -/
def Parser.left (p : Parser) : Nat × Nat × Nat :=
  (p.reader.file.length, p.reader.var.length, p.held)

/-- What an item takes, in the order that `cfg_parse` goes down in. -/
theorem Parser.Advances.lex {p p' : Parser} (h : p.Advances p') :
    Prod.Lex (· < ·) (Prod.Lex (· < ·) (· < ·)) p'.left p.left := by
  unfold Parser.left
  rcases h with (hFile | ⟨hFile, hVar⟩) | ⟨hFile | ⟨hFile, hVar⟩, hHeld⟩
  · exact Prod.Lex.left _ _ hFile
  · rw [hFile]
    exact Prod.Lex.right _ (Prod.Lex.left _ _ hVar)
  · exact Prod.Lex.left _ _ hFile
  · rw [hFile]
    rcases Nat.lt_or_eq_of_le hVar with hLess | hEq
    · exact Prod.Lex.right _ (Prod.Lex.left _ _ hLess)
    · rw [hEq]
      exact Prod.Lex.right _ (Prod.Lex.right _ hHeld)

/-- What `cfg_parse` comes to: the parser and the table are as before, in the sense of
`Parser.Sound` and `ShortTable`, or an error that may occur. -/
def Ends (table : List CfgEntry) (result : Read (Bool × List CfgEntry × Parser)) : Prop :=
  Outcome (fun x => x.2.2.Sound ∧ ShortTable x.2.1 ∧ shape x.2.1 = shape table) NotTwice result

/-- By induction on what is left: each item that the table takes leaves less. -/
theorem cfgParse_ends (context : Nat) {p : Parser} (hp : p.Sound) {table : List CfgEntry}
    (hTable : ShortTable table) :
    ∃ n result, cfgParse env context n p table = some result ∧ Ends table result := by
  -- an error, the end of the file, or an item
  have hItem := cfgNext_outcome env hp
  rcases hNext : cfgNext env p with e | ⟨_ | i, p'⟩
  · exact ⟨1, .error e, by simp only [cfgParse, hNext], Outcome.error (hItem.failure hNext)⟩
  · have hSound := (hItem.value hNext).sound
    exact ⟨1, .ok (false, table, p'), by simp only [cfgParse, hNext],
      Outcome.ok ⟨hSound, hTable, rfl⟩⟩
  · have hThis : p.Item (some i) p' := hItem.value hNext
    -- which the table refuses, does not know, or takes
    have hDo := cfgDoSet_outcome context (hThis.short i rfl) hTable
    rcases hSet : cfgDoSet context i table with e | _ | table'
    · exact ⟨1, p'.reader.error e, by simp only [cfgParse, hNext, hSet],
        p'.reader.error_notTwice (hDo.failure hSet)⟩
    · refine ⟨1, .ok (true, table, { p' with lastItem := some i }),
        by simp only [cfgParse, hNext, hSet],
        Outcome.ok ⟨⟨hThis.sound.settled, hThis.sound.token, ?_⟩, hTable, rfl⟩⟩
      rintro _ ⟨⟩
      exact hThis.short i rfl
    · obtain ⟨hShort, hShape⟩ := hDo.value hSet table' rfl
      have hAdvances := hThis.advances rfl
      obtain ⟨n, result, hParse, hEnds⟩ := cfgParse_ends context hThis.sound hShort
      refine ⟨n + 1, result, ?_, hEnds.mono fun x hx => ⟨hx.1, hx.2.1, hx.2.2.trans hShape⟩⟩
      simp only [cfgParse, hNext, hSet]
      exact hParse
termination_by p.left
decreasing_by exact hAdvances.lex

/-- **Reading a configuration file comes to an end.** Whatever the file and the
environment are, there is a bound from which on `cfg_parse` has a result: no character
is given back twice, every string in the table fits in the buffer, and the parser can
go on from there. -/
theorem config_ends (context : Nat) {p : Parser} (hp : p.Sound) {table : List CfgEntry}
    (hTable : ShortTable table) :
    ∃ n result, (∀ m, n ≤ m → cfgParse env context m p table = some result) ∧
      Ends table result := by
  obtain ⟨n, result, hParse, hEnds⟩ := cfgParse_ends env context hp hTable
  exact ⟨n, result, fun m hm => cfgParse_mono hParse hm, hEnds⟩

/-- A table that `cfg_init` was called for is empty. -/
theorem shortTable_cfgInit (table : List CfgEntry) : ShortTable (cfgInit table) := by
  intro e he v hv
  obtain ⟨e', -, rfl⟩ := List.mem_map.mp he
  cases hv

/-- A file that asks for a variable that is not set. -/
theorem config_ends_open :
    ∃ n result, (∀ m, n ≤ m → cfgParse (fun _ => none) 0 m (cfgOpen [byte '$', byte 'x'])
        (cfgInit cfMapDrive) = some result) ∧
      Ends (cfgInit cfMapDrive) result :=
  config_ends _ 0 (cfgOpen_sound _) (shortTable_cfgInit _)

end MultiOS.Lilo
