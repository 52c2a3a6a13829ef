import Mathlib.Data.List.TakeWhile
import Mathlib.Tactic.Push
import MultiOS.Lilo.ConfigText

/-!
# LILO — tokens of a configuration file

The two loops of `cfg_get_token` over a token: each reads what was written for
the token, and stops after it (`quoted_reads`, `word_reads`). With the loop over
blanks and comments they make `getToken_lexes`: the tokens of a text are
returned one after the other.
-/

namespace MultiOS.Lilo

variable {env : Env}

-- ---------------------------------------------------------------------------
-- Quoted strings
-- ---------------------------------------------------------------------------

/-- One pass of the loop. -/
theorem quoted_pass {buf : List Byte} {r r' : Reader} {ch : Int} (hRoom : buf.length < maxToken)
    (hNext : next env r = .ok (ch, r')) :
    quoted env buf r =
      if ch = eof then r'.error .eofInQuoted
      else if ch = chr '"' then .ok (buf, r')
      else if ch = chr '\\' then
        quotedEscape env r' >>= fun x => quoted env (buf ++ x.1.toList) x.2
      else if ch = chr '\n' ∨ ch = chr '\t' then r'.error .controlInQuoted
      else quoted env (buf ++ [BitVec.ofInt 8 ch]) r' := by
  rw [quoted, dif_pos hRoom]
  split
  · next hOther =>
    rw [hNext] at hOther
    cases hOther
  · next hSame =>
    rw [hNext] at hSame
    cases hSame
    split
    · rfl
    split
    · rfl
    split
    · split
      · next hEscape =>
        rw [hEscape]
        rfl
      · next hEscape =>
        rw [hEscape]
        exact congrArg (fun b => quoted env b _) (List.append_nil buf).symm
      · next hEscape =>
        rw [hEscape]
        rfl
    · rfl

/-- The closing quote ends the word. -/
theorem quoted_end {buf : List Byte} {r r' : Reader} (hRoom : buf.length < maxToken)
    (hNext : next env r = .ok (chr '"', r')) : quoted env buf r = .ok (buf, r') := by
  rw [quoted_pass hRoom hNext, if_neg (by decide), if_pos rfl]

/-- A character that means nothing special inside quotes. -/
theorem quoted_step {buf : List Byte} {r r' : Reader} {ch : Int} (hRoom : buf.length < maxToken)
    (hNext : next env r = .ok (ch, r')) (hEof : ch ≠ eof) (hQuote : ch ≠ chr '"')
    (hBackslash : ch ≠ chr '\\') (hNewline : ch ≠ chr '\n') (hTab : ch ≠ chr '\t') :
    quoted env buf r = quoted env (buf ++ [BitVec.ofInt 8 ch]) r' := by
  rw [quoted_pass hRoom hNext, if_neg hEof, if_neg hQuote, if_neg hBackslash,
    if_neg (by simp [hNewline, hTab])]

/-- An escape that yields a character. -/
theorem quoted_escape {buf : List Byte} {r r' r'' : Reader} {b : Byte}
    (hRoom : buf.length < maxToken) (hNext : next env r = .ok (chr '\\', r'))
    (hEscape : quotedEscape env r' = .ok (some b, r'')) :
    quoted env buf r = quoted env (buf ++ [b]) r'' := by
  rw [quoted_pass hRoom hNext, if_neg (by decide), if_neg (by decide), if_pos rfl, hEscape]
  rfl

/-- `next` passes a backslash on unless a dollar sign follows. -/
theorem next_backslash_cons {c : Byte} (s : List Byte) (line : Nat) (h : c ≠ byte '$') :
    next env (fresh (byte '\\' :: c :: s) line) = .ok (chr '\\', fresh (c :: s) line) :=
  next_backslash line fun hEq => h (Option.some.inj hEq)

/-- A character that is escaped is read, also a backslash. -/
theorem next_escaped {c : Byte} {s : List Byte} (line : Nat) (hDollar : c ≠ byte '$')
    (hHead : s.head? ≠ some (byte '$')) :
    next env (fresh (c :: s) line) = .ok (c.toNat, fresh s line) := by
  by_cases hBackslash : c = byte '\\'
  · rw [hBackslash]
    exact next_backslash line hHead
  · exact next_plain s line hBackslash hDollar

/-- One character of the blanks after a continued line. -/
theorem skipSpaces_pass {r r' : Reader} {ch : Int} (hNext : next env r = .ok (ch, r')) :
    skipSpaces env r =
      if ch = chr ' ' ∨ ch = chr '\t' then skipSpaces env r' else .ok (ch, r') := by
  rw [skipSpaces]
  split
  · next hOther =>
    rw [hNext] at hOther
    cases hOther
  · next hSame =>
    rw [hNext] at hSame
    cases hSame
    rfl

/-- The test of that loop. -/
theorem space_test (c : Byte) : ((c.toNat : Int) = chr ' ' ∨ (c.toNat : Int) = chr '\t') ↔
    IsSpace c := by
  obtain ⟨hBlank, hTab, -⟩ := chr_tests c
  rw [hBlank, hTab]
  rfl

/-- The blanks are skipped, up to the character after them. -/
theorem skipSpaces_reads {spaces text : List Byte} (hSpaces : ∀ b ∈ spaces, IsSpace b) {line : Nat}
    {ch : Int} {r : Reader} (hNext : next env (fresh text line) = .ok (ch, r))
    (hSpace : ¬ (ch = chr ' ' ∨ ch = chr '\t')) :
    skipSpaces env (fresh (spaces ++ text) line) = .ok (ch, r) := by
  induction spaces with
  | nil => rw [List.nil_append, skipSpaces_pass hNext, if_neg hSpace]
  | cons b spaces ih =>
    have hSpace' := hSpaces b List.mem_cons_self
    obtain ⟨hBackslash, hDollar⟩ := IsDelimiter.plain (Or.inl hSpace')
    rw [List.cons_append, skipSpaces_pass (next_plain _ line hBackslash hDollar),
      if_pos ((space_test b).mpr hSpace')]
    exact ih fun b hb => hSpaces b (List.mem_cons_of_mem _ hb)

/-- What stands between quotes does not begin with a dollar sign. -/
theorem Quotes.head {t body : List Byte} (h : Quotes t body) (rest : List Byte) :
    (body ++ byte '"' :: rest).head? ≠ some (byte '$') := by
  cases h with
  | nil => exact (by decide : some (byte '"') ≠ some (byte '$'))
  | plain hPlain => exact fun hEq => hPlain.ne_dollar (Option.some.inj hEq)
  | escaped | dollar | joined => exact (by decide : some (byte '\\') ≠ some (byte '$'))

/-- A quote or a backslash after a backslash is itself. -/
theorem quotedEscape_char {c : Byte} {s : List Byte} {line : Nat}
    (hChar : c = byte '"' ∨ c = byte '\\')
    (hNext : next env (fresh (c :: s) line) = .ok (c.toNat, fresh s line)) :
    quotedEscape env (fresh (c :: s) line) = .ok (some c, fresh s line) := by
  obtain ⟨-, -, -, -, -, hQuote, hBackslash⟩ := chr_tests c
  have hTest : (c.toNat : Int) = chr '"' ∨ (c.toNat : Int) = chr '\\' := by
    rw [hQuote, hBackslash]
    exact hChar
  unfold quotedEscape
  rw [hNext]
  show (if (c.toNat : Int) = chr '"' ∨ (c.toNat : Int) = chr '\\' then _ else _) = _
  rw [if_pos hTest, ofInt_toNat]
  rfl

/-- A plain character is not 0. -/
theorem IsPlain.toNat_ne_zero {c : Byte} (h : IsPlain c) : (c.toNat : Int) ≠ 0 := by
  intro hZero
  exact h.ne_zero (BitVec.eq_of_toNat_eq (by simpa using hZero))

/-- What is read first of a string and its closing quote. -/
theorem Quotes.first {t body : List Byte} (h : Quotes t body)
    (hSpace : ∀ b, body.head? = some b → ¬ IsSpace b) (rest : List Byte) (line : Nat) :
    ∃ ch s, next env (fresh (body ++ byte '"' :: rest) line) = .ok (ch, fresh s line) ∧ ch ≠ 0 ∧
      ¬ (ch = chr ' ' ∨ ch = chr '\t') := by
  cases h with
  | nil =>
    exact ⟨chr '"', rest, next_plain rest line (by decide) (by decide), by decide, by decide⟩
  | @plain c t s hPlain =>
    exact ⟨c.toNat, _, next_plain _ line hPlain.ne_backslash hPlain.ne_dollar,
      hPlain.toNat_ne_zero, (space_test c).not.mpr (hSpace c rfl)⟩
  | @escaped c t s hChar =>
    have hDollar : c ≠ byte '$' := by rcases hChar with rfl | rfl <;> decide
    exact ⟨chr '\\', _, next_backslash_cons _ line hDollar, by decide, by decide⟩
  | dollar => exact ⟨chr '$', _, next_dollar _ line, by decide, by decide⟩
  | joined =>
    exact ⟨chr '\\', _, next_backslash_cons _ line (by decide), by decide, by decide⟩

/-- A line that is continued: the first character after its blanks is given back. -/
theorem quotedEscape_joined {spaces text s : List Byte} (hSpaces : ∀ b ∈ spaces, IsSpace b)
    {line : Nat} {ch : Int} (hNext : next env (fresh text line) = .ok (ch, fresh s line))
    (hZero : ch ≠ 0) (hSpace : ¬ (ch = chr ' ' ∨ ch = chr '\t')) :
    quotedEscape env (fresh (byte '\n' :: (spaces ++ text)) line) =
      .ok (some (byte ' '), ⟨s, [], ch, line⟩) := by
  unfold quotedEscape
  rw [next_plain _ line (by decide) (by decide)]
  show (skipSpaces env (fresh (spaces ++ text) line) >>= _) = _
  rw [skipSpaces_reads hSpaces hNext hSpace]
  show (if ch = 0 then _ else _) = _
  rw [if_neg hZero]
  rfl

/-- It makes no difference that a character was read and given back. -/
theorem quoted_back {buf text s : List Byte} (hRoom : buf.length < maxToken) {line : Nat} {ch : Int}
    (hNext : next env (fresh text line) = .ok (ch, fresh s line)) (hZero : ch ≠ 0) :
    quoted env buf ⟨s, [], ch, line⟩ = quoted env buf (fresh text line) := by
  rw [quoted_pass hRoom (next_back s line hZero), quoted_pass hRoom hNext]

/-- **A quoted string is read.** -/
theorem quoted_reads {t body : List Byte} (h : Quotes t body) (rest : List Byte)
    (buf : List Byte) (line : Nat) (hLength : buf.length + t.length < maxToken) :
    quoted env buf (fresh (body ++ byte '"' :: rest) line) = .ok (buf ++ t, fresh rest line) := by
  induction h generalizing buf with
  | nil =>
    rw [List.append_nil]
    exact quoted_end hLength (next_plain rest line (by decide) (by decide))
  | @plain c t s hPlain hQuote hNewline hTab hRest ih =>
    obtain ⟨-, hTab', hNewline', -, -, hQuote', hBackslash'⟩ := chr_tests c
    rw [List.length_cons] at hLength
    rw [List.cons_append, quoted_step (by omega)
      (next_plain _ line hPlain.ne_backslash hPlain.ne_dollar) (toNat_ne_eof c)
      (hQuote'.not.mpr hQuote) (hBackslash'.not.mpr hPlain.ne_backslash)
      (hNewline'.not.mpr hNewline) (hTab'.not.mpr hTab), ofInt_toNat,
      ih _ (by rw [List.length_append, List.length_singleton]; omega), List.append_assoc]
    rfl
  | @escaped c t s hChar hRest ih =>
    -- `next` passes the backslash on, since no dollar sign follows
    have hDollar : c ≠ byte '$' := by rcases hChar with rfl | rfl <;> decide
    rw [List.length_cons] at hLength
    rw [List.cons_append, List.cons_append, quoted_escape (by omega)
      (next_backslash_cons _ line hDollar)
      (quotedEscape_char hChar (next_escaped line hDollar (hRest.head rest))),
      ih _ (by rw [List.length_append, List.length_singleton]; omega), List.append_assoc]
    rfl
  | @dollar t s hRest ih =>
    rw [List.length_cons] at hLength
    rw [List.cons_append, List.cons_append, quoted_step (by omega) (next_dollar _ line)
      (by decide) (by decide) (by decide) (by decide) (by decide),
      ih _ (by rw [List.length_append, List.length_singleton]; omega), List.append_assoc]
    rfl
  | @joined t s spaces hSpaces hAll hRest ih =>
    -- the blanks after the line end are read up to the next character, which is given back
    obtain ⟨ch, s', hNext, hZero, hSpace⟩ := @Quotes.first env _ _ hRest hAll rest line
    have hRoom : (buf ++ [byte ' ']).length + t.length < maxToken := by
      rw [List.length_append, List.length_singleton]
      rw [List.length_cons] at hLength
      omega
    rw [List.cons_append, List.cons_append, List.append_assoc,
      quoted_escape (by omega) (next_backslash_cons _ line (by decide))
        (quotedEscape_joined hSpaces hNext hZero hSpace),
      quoted_back (by omega) hNext hZero, ih _ hRoom, List.append_assoc]
    rfl

-- ---------------------------------------------------------------------------
-- Tokens without quotes
-- ---------------------------------------------------------------------------

/-- One pass of the loop, within the token. -/
theorem word_step {buf : List Byte} {escaped : Bool} {ch ch' : Int} {text : List Byte}
    {line : Nat} {r' : Reader} (hRoom : buf.length < maxToken)
    (hWithin : escaped = true ∨ endsWord ch = false) (hEof : ch ≠ eof)
    (hNext : next env (fresh text (if escaped ∧ ch = chr '\n' then line + 1 else line)) =
      .ok (ch', r')) :
    word env buf escaped ch (fresh text line) =
      word env (wordStep escaped ch buf).1 (wordStep escaped ch buf).2 ch' r' := by
  have hReader : (if escaped ∧ ch = chr '\n' then { fresh text line with lineNum := line + 1 }
      else fresh text line) = fresh text (if escaped ∧ ch = chr '\n' then line + 1 else line) := by
    split <;> rfl
  have hNot : ¬ (!escaped && endsWord ch) = true := by
    rcases hWithin with h | h <;> simp [h]
  rw [word, dif_pos hRoom, if_neg hNot, dif_neg hEof]
  simp only
  split
  · next hOther =>
    change next env (if _ then { fresh text line with lineNum := line + 1 } else _) = _ at hOther
    rw [hReader, hNext] at hOther
    cases hOther
  · next hSame =>
    change next env (if _ then { fresh text line with lineNum := line + 1 } else _) = _ at hSame
    rw [hReader, hNext] at hSame
    cases hSame
    rfl

/-- A delimiter ends the word and is given back. -/
theorem word_end {buf : List Byte} {ch : Int} {s : List Byte} {line : Nat}
    (hRoom : buf.length < maxToken) (hEnds : endsWord ch = true) :
    word env buf false ch (fresh s line) = .ok (buf, ⟨s, [], ch, line⟩) := by
  rw [word, dif_pos hRoom, if_pos (by simp [hEnds])]
  rfl

/-- What is written for a token, and what comes after it, does not begin with a
dollar sign. -/
theorem Spells.head {t body rest : List Byte} (h : Spells t body) (hRest : Delimited rest) :
    (body ++ rest).head? ≠ some (byte '$') := by
  cases h with
  | nil =>
    intro hEq
    exact (hRest _ hEq).plain.2 rfl
  | plain hPlain => exact fun hEq => hPlain.ne_dollar (Option.some.inj hEq)
  | escaped | tab | dollar | joined =>
    exact (by decide : some (byte '\\') ≠ some (byte '$'))

/-- A plain character is added to the token. -/
theorem wordStep_plain {c : Byte} (buf : List Byte) (hBackslash : c ≠ byte '\\') :
    wordStep false c.toNat buf = (buf ++ [c], false) := by
  obtain ⟨-, -, -, -, -, -, hTest⟩ := chr_tests c
  rw [wordStep, if_neg (by decide), if_neg (hTest.not.mpr hBackslash), ofInt_toNat]

/-- A character after a backslash is itself. -/
theorem wordStep_escaped {c : Byte} (buf : List Byte) (hNewline : c ≠ byte '\n')
    (hTab : c ≠ byte '\t') : wordStep true c.toNat buf = (buf ++ [c], false) := by
  obtain ⟨-, hTest, hTest', -⟩ := chr_tests c
  rw [wordStep, if_pos rfl, if_neg (hTest'.not.mpr hNewline), if_neg (hTest.not.mpr hTab),
    ofInt_toNat]

/-- A backslash, and then the character it escapes. -/
theorem word_escape {buf : List Byte} {c : Byte} {ch : Int} {s : List Byte} {line : Nat}
    {r : Reader} (hRoom : buf.length < maxToken)
    (hNext : next env (fresh (c :: s) line) = .ok (c.toNat, fresh s line))
    (hNext' : next env (fresh s (if c = byte '\n' then line + 1 else line)) = .ok (ch, r)) :
    word env buf false (chr '\\') (fresh (c :: s) line) =
      word env (wordStep true c.toNat buf).1 (wordStep true c.toNat buf).2 ch r := by
  obtain ⟨-, -, hTest, -⟩ := chr_tests c
  have hFirst : word env buf false (chr '\\') (fresh (c :: s) line) =
      word env buf true c.toNat (fresh s line) :=
    word_step hRoom (Or.inr (by decide)) (by decide) hNext
  rw [hFirst]
  refine word_step hRoom (Or.inl rfl) (toNat_ne_eof c) ?_
  rw [← hNext']
  simp only [true_and, hTest]

/-- **A token without quotes is read.** -/
theorem word_reads {t body rest : List Byte} (h : Spells t body) (hRest : Delimited rest)
    (buf : List Byte) (line : Nat) (hLength : buf.length + t.length < maxToken) :
    ∃ ch r r', next env (fresh (body ++ rest) line) = .ok (ch, r) ∧
      word env buf false ch r = .ok (buf ++ t, r') ∧ ReadsAt r' rest := by
  induction h generalizing buf line with
  | nil =>
    -- the character that ends the word is read and given back
    rw [List.append_nil]
    cases rest with
    | nil => exact ⟨eof, _, _, next_nil line, word_end hLength (by decide), ReadsAt.backEof⟩
    | cons d s =>
      have hDelimiter := hRest d rfl
      obtain ⟨hBackslash, hDollar⟩ := hDelimiter.plain
      exact ⟨_, _, _, next_plain s line hBackslash hDollar,
        word_end hLength ((endsWord_iff d).mpr hDelimiter), ReadsAt.back hDelimiter⟩
  | @plain c t s hPlain hDelimiter _ ih =>
    rw [List.length_cons] at hLength
    obtain ⟨ch, r, r', hNext, hWord, hAt⟩ :=
      ih (buf ++ [c]) line (by rw [List.length_append, List.length_singleton]; omega)
    refine ⟨c.toNat, fresh (s ++ rest) line, r',
      next_plain _ line hPlain.ne_backslash hPlain.ne_dollar, ?_, hAt⟩
    -- a plain character goes to the buffer, and the loop reads the next
    have hWithin : endsWord c.toNat = false := by
      rw [← Bool.not_eq_true, endsWord_iff]
      exact hDelimiter
    rw [word_step (by omega) (Or.inr hWithin) (toNat_ne_eof c) (by simpa using hNext),
      wordStep_plain buf hPlain.ne_backslash, hWord, List.append_assoc]
    rfl
  | @escaped c t s hDollar _ hNewline hTab hSpells ih =>
    rw [List.length_cons] at hLength
    obtain ⟨ch, r, r', hNext, hWord, hAt⟩ :=
      ih (buf ++ [c]) line (by rw [List.length_append, List.length_singleton]; omega)
    refine ⟨chr '\\', _, r', next_backslash_cons _ line hDollar, ?_, hAt⟩
    rw [List.append_eq, word_escape (by omega) (next_escaped line hDollar (hSpells.head hRest))
      (by rw [if_neg hNewline]; exact hNext), wordStep_escaped buf hNewline hTab, hWord,
      List.append_assoc]
    rfl
  | @tab t s hSpells ih =>
    rw [List.length_cons] at hLength
    obtain ⟨ch, r, r', hNext, hWord, hAt⟩ :=
      ih (buf ++ [byte ' ']) line (by rw [List.length_append, List.length_singleton]; omega)
    refine ⟨chr '\\', _, r', next_backslash_cons _ line (by decide), ?_, hAt⟩
    have hStep : wordStep true (byte '\t').toNat buf = (buf ++ [byte ' '], false) := rfl
    rw [List.append_eq, word_escape (by omega) (next_plain _ line (by decide) (by decide))
      (by rw [if_neg (by decide)]; exact hNext), hStep, hWord, List.append_assoc]
    rfl
  | @dollar t s hSpells ih =>
    rw [List.length_cons] at hLength
    obtain ⟨ch, r, r', hNext, hWord, hAt⟩ :=
      ih (buf ++ [byte '$']) line (by rw [List.length_append, List.length_singleton]; omega)
    refine ⟨chr '$', _, r', next_dollar _ line, ?_, hAt⟩
    have hStep : wordStep false (chr '$') buf = (buf ++ [byte '$'], false) := rfl
    rw [word_step (by omega) (Or.inr (by decide)) (by decide) (by simpa using hNext), hStep, hWord,
      List.append_assoc]
    rfl
  | @joined t s hSpells ih =>
    obtain ⟨ch, r, r', hNext, hWord, hAt⟩ := ih buf (line + 1) hLength
    refine ⟨chr '\\', _, r', next_backslash_cons _ line (by decide), ?_, hAt⟩
    -- a continued line leaves nothing in the buffer
    have hStep : wordStep true (byte '\n').toNat buf = (buf, false) := rfl
    rw [List.append_eq, word_escape (by omega) (next_plain _ line (by decide) (by decide))
      (by rw [if_pos rfl]; exact hNext), hStep, hWord]

-- ---------------------------------------------------------------------------
-- Between tokens
-- ---------------------------------------------------------------------------

/-- One pass of the loop. -/
theorem startToken_pass {r r' : Reader} {ch : Int} (hNext : next env r = .ok (ch, r')) :
    startToken env r =
      if ch = chr ' ' ∨ ch = chr '\t' then startToken env r'
      else if ch = chr '\n' then startToken env { r' with lineNum := r'.lineNum + 1 }
      else if ch = chr '#' then
        match skipComment r'.file with
        | none => .ok (eof, { r' with file := [] })
        | some file => startToken env { r' with file, lineNum := r'.lineNum + 1 }
      else .ok (ch, r') := by
  rw [startToken]
  split
  · next hOther =>
    rw [hNext] at hOther
    cases hOther
  · next hSame =>
    rw [hNext] at hSame
    cases hSame
    split
    · rfl
    split
    · rfl
    split
    · split
      · next hSkip => rw [hSkip]
      · next hSkip => rw [hSkip]
    · rfl

/-- A comment is passed with the end of its line. -/
theorem skipComment_reads {body : List Byte} (hBody : byte '\n' ∉ body) (s : List Byte) :
    skipComment (body ++ byte '\n' :: s) = some s := by
  induction body with
  | nil => exact if_pos rfl
  | cons b body ih =>
    rw [List.mem_cons, not_or] at hBody
    rw [List.cons_append, skipComment, if_neg fun h => hBody.1 h.symm, ih hBody.2]

/-- A comment on the last line, without a line end. -/
theorem skipComment_end {body : List Byte} (hBody : byte '\n' ∉ body) :
    skipComment body = none := by
  induction body with
  | nil => rfl
  | cons b body ih =>
    rw [List.mem_cons, not_or] at hBody
    rw [skipComment, if_neg fun h => hBody.1 h.symm, ih hBody.2]

/-- A blank or a line end before a token is passed. -/
theorem startToken_blank {r : Reader} {c : Byte} {s : List Byte} (h : ReadsAt r (c :: s))
    (hBlank : IsSpace c ∨ c = byte '\n') :
    ∃ line, startToken env r = startToken env (fresh s line) := by
  rcases hBlank with hSpace | rfl
  · refine ⟨r.lineNum, ?_⟩
    rw [startToken_pass (h.next_delimiter (Or.inl hSpace)), if_pos ((space_test c).mpr hSpace)]
  · refine ⟨r.lineNum + 1, ?_⟩
    rw [startToken_pass (h.next_delimiter (Or.inr (Or.inl rfl))), if_neg (by decide),
      if_pos (by decide)]
    rfl

/-- So is a comment. -/
theorem startToken_hash {r : Reader} {s : List Byte} (h : ReadsAt r (byte '#' :: s)) :
    startToken env r =
      match skipComment s with
      | none => .ok (eof, fresh [] r.lineNum)
      | some file => startToken env (fresh file (r.lineNum + 1)) := by
  rw [startToken_pass (h.next_delimiter (Or.inr (Or.inr (Or.inl rfl)))), if_neg (by decide),
    if_neg (by decide), if_pos (by decide)]
  rfl

/-- A character that begins a token without quotes. -/
structure Begins (ch : Int) : Prop where
  not_space : ¬ (ch = chr ' ' ∨ ch = chr '\t')
  ne_newline : ch ≠ chr '\n'
  ne_hash : ch ≠ chr '#'
  ne_eof : ch ≠ eof
  ne_equals : ch ≠ chr '='
  ne_quote : ch ≠ chr '"'

/-- A character that begins a token is where the token starts. -/
theorem Begins.startToken {r r' : Reader} {ch : Int} (h : Begins ch)
    (hNext : next env r = .ok (ch, r')) : startToken env r = .ok (ch, r') := by
  rw [startToken_pass hNext, if_neg h.not_space, if_neg h.ne_newline, if_neg h.ne_hash]

/-- What is written for a token without quotes begins as such. -/
theorem Spells.begins {t body rest : List Byte} {c : Byte} {line : Nat} {ch : Int} {r : Reader}
    (h : Spells t (c :: body)) (hQuote : c ≠ byte '"')
    (hNext : next env (fresh (c :: body ++ rest) line) = .ok (ch, r)) : Begins ch := by
  have hBackslash : ∀ {d : Byte} {s : List Byte}, d ≠ byte '$' →
      next env (fresh (byte '\\' :: d :: s) line) = .ok (ch, r) → Begins ch := by
    intro d s hDollar hNext
    rw [next_backslash_cons s line hDollar] at hNext
    cases hNext
    constructor <;> decide
  cases h with
  | plain hPlain hDelimiter =>
    rw [List.cons_append, next_plain _ line hPlain.ne_backslash hPlain.ne_dollar] at hNext
    cases hNext
    obtain ⟨-, -, hNewline, hHash, hEquals, hQuote', -⟩ := chr_tests c
    unfold IsDelimiter at hDelimiter
    push Not at hDelimiter
    exact ⟨(space_test c).not.mpr hDelimiter.1, hNewline.not.mpr hDelimiter.2.1,
      hHash.not.mpr hDelimiter.2.2.1, toNat_ne_eof c, hEquals.not.mpr hDelimiter.2.2.2,
      hQuote'.not.mpr hQuote⟩
  | escaped hDollar => exact hBackslash hDollar hNext
  | tab => exact hBackslash (by decide) hNext
  | joined => exact hBackslash (by decide) hNext
  | dollar =>
    rw [List.cons_append, List.cons_append, next_dollar _ line] at hNext
    cases hNext
    constructor <;> decide

-- ---------------------------------------------------------------------------
-- cfg_get_token
-- ---------------------------------------------------------------------------

/-- No quoted token contains a 0. -/
theorem Quotes.ne_zero {t body : List Byte} (h : Quotes t body) : ∀ b ∈ t, b ≠ 0 := by
  induction h with
  | nil => simp
  | plain hPlain _ _ _ _ ih => exact List.forall_mem_cons.mpr ⟨hPlain.ne_zero, ih⟩
  | escaped hChar _ ih =>
    exact List.forall_mem_cons.mpr ⟨by rcases hChar with rfl | rfl <;> decide, ih⟩
  | dollar _ ih => exact List.forall_mem_cons.mpr ⟨by decide, ih⟩
  | joined _ _ _ ih => exact List.forall_mem_cons.mpr ⟨by decide, ih⟩

/-- Nor does any token. -/
theorem Spells.ne_zero {t body : List Byte} (h : Spells t body) : ∀ b ∈ t, b ≠ 0 := by
  induction h with
  | nil => simp
  | plain hPlain _ _ ih => exact List.forall_mem_cons.mpr ⟨hPlain.ne_zero, ih⟩
  | escaped _ hZero _ _ _ ih => exact List.forall_mem_cons.mpr ⟨hZero, ih⟩
  | tab _ ih => exact List.forall_mem_cons.mpr ⟨by decide, ih⟩
  | dollar _ ih => exact List.forall_mem_cons.mpr ⟨by decide, ih⟩
  | joined _ ih => exact ih

/-- So the buffer holds the whole token as a C string. -/
theorem cString_eq {t : List Byte} (h : ∀ b ∈ t, b ≠ 0) : cString t = t := by
  rw [cString, List.takeWhile_eq_self_iff]
  intro b hb
  simpa using h b hb

/-- What reading a token comes to. -/
def TokenRead (env : Env) (r : Reader) : List (List Byte) → Prop
  | [] => ∃ r', getToken env r = .ok (none, r') ∧ ReadsAt r' []
  | t :: ts => ∃ r' text, getToken env r = .ok (some t, r') ∧ ReadsAt r' text ∧ Lexes text ts

/-- What was passed before a token does not matter for what is read. -/
theorem TokenRead.of_start {r r' : Reader} {ts : List (List Byte)} (h : TokenRead env r' ts)
    (hStart : startToken env r = startToken env r') : TokenRead env r ts := by
  have hToken : getToken env r = getToken env r' := by rw [getToken, getToken, hStart]
  cases ts with
  | nil =>
    obtain ⟨r'', hRead, hAt⟩ := h
    exact ⟨r'', hToken.trans hRead, hAt⟩
  | cons t ts =>
    obtain ⟨r'', text, hRead, hRest⟩ := h
    exact ⟨r'', text, hToken.trans hRead, hRest⟩

/-- **The tokens of a text.** `cfg_get_token` returns the first token that a text
spells, and is then at a text that spells the others. -/
theorem getToken_lexes {text : List Byte} {ts : List (List Byte)} (h : Lexes text ts)
    {r : Reader} (hAt : ReadsAt r text) : TokenRead env r ts := by
  induction h generalizing r with
  | done =>
    refine ⟨fresh [] r.lineNum, ?_, ReadsAt.here _ _⟩
    rw [getToken, startToken_pass hAt.next_end, if_neg (by decide), if_neg (by decide),
      if_neg (by decide)]
    rfl
  | blank hBlank _ ih =>
    obtain ⟨line, hStart⟩ := startToken_blank hAt hBlank
    exact (ih (ReadsAt.here _ line)).of_start hStart
  | comment hBody _ ih =>
    refine (ih (ReadsAt.here _ (r.lineNum + 1))).of_start ?_
    rw [startToken_hash hAt, skipComment_reads hBody]
  | lastComment hBody =>
    refine ⟨fresh [] r.lineNum, ?_, ReadsAt.here _ _⟩
    rw [getToken, startToken_hash hAt, skipComment_end hBody]
    rfl
  | @equals s ts hRest _ =>
    refine ⟨fresh s r.lineNum, s, ?_, ReadsAt.here _ _, hRest⟩
    rw [getToken, startToken_pass (hAt.next_delimiter (Or.inr (Or.inr (Or.inr rfl)))),
      if_neg (by decide), if_neg (by decide), if_neg (by decide)]
    rfl
  | @quoted t body s ts hQuotes hLength hRest _ =>
    refine ⟨fresh s r.lineNum, s, ?_, ReadsAt.here _ _, hRest⟩
    -- a quote was not given back, so the reader is at it
    have hNot : ¬ IsDelimiter (byte '"') := by
      rintro ((h | h) | h | h | h) <;> exact absurd h (by decide)
    have hNext : next env r = .ok (chr '"', fresh (body ++ byte '"' :: s) r.lineNum) := by
      rw [hAt.eq_fresh hNot]
      exact next_plain _ _ (by decide) (by decide)
    have hBody : quoted env [] (fresh (body ++ byte '"' :: s) r.lineNum) =
        .ok ([] ++ t, fresh s r.lineNum) :=
      quoted_reads hQuotes s [] r.lineNum (by simpa using hLength)
    rw [getToken, startToken_pass hNext, if_neg (by decide), if_neg (by decide),
      if_neg (by decide)]
    show (quoted env [] (fresh (body ++ byte '"' :: s) r.lineNum) >>= _) = _
    rw [hBody]
    show Except.ok (some (cString ([] ++ t)), _) = _
    rw [List.nil_append, cString_eq hQuotes.ne_zero]
  | @word t c body s ts hSpells hQuote hLength hDelimited hRest _ =>
    obtain ⟨ch, r₁, r₂, hNext, hWord, hAt'⟩ : ∃ ch r₁ r₂,
        next env (fresh (c :: body ++ s) r.lineNum) = .ok (ch, r₁) ∧
          word env [] false ch r₁ = .ok ([] ++ t, r₂) ∧ ReadsAt r₂ s :=
      word_reads hSpells hDelimited [] r.lineNum (by simpa using hLength)
    -- the first character neither ends the file nor is one of the others
    have hBegins := hSpells.begins hQuote hNext
    have hNot : ¬ IsDelimiter c := by
      intro hDelimiter
      cases hSpells with
      | plain _ hPlain => exact hPlain hDelimiter
      | escaped | tab | dollar | joined => exact hDelimiter.plain.1 rfl
    have hNext' : next env r = .ok (ch, r₁) := by
      rw [hAt.eq_fresh hNot]
      exact hNext
    refine ⟨r₂, s, ?_, hAt', hRest⟩
    rw [getToken, hBegins.startToken hNext']
    show (if ch = eof then _ else if ch = chr '=' then _ else if ch = chr '"' then _ else _) = _
    rw [if_neg hBegins.ne_eof, if_neg hBegins.ne_equals, if_neg hBegins.ne_quote, hWord]
    show Except.ok (some (cString ([] ++ t)), _) = _
    rw [List.nil_append, cString_eq hSpells.ne_zero]

end MultiOS.Lilo
