import MultiOS.Model.Config

/-!
# LILO — what a configuration file says

`Lexes` says which tokens a text spells, without a word about how it is read:
blanks and comments between tokens, tokens with quotes or without, characters
escaped by a backslash, tokens continued on the next line. A text may spell the
same tokens in many ways. It has no variables in it: each `$` is escaped.

`getToken_lexes` is the bridge to `cfg_get_token`: at a text that spells
tokens, it returns the first, and is then at a text that spells the others.
-/

namespace MultiOS.Lilo

-- ---------------------------------------------------------------------------
-- Texts
-- ---------------------------------------------------------------------------

/-- The blanks within a line. -/
def IsSpace (c : Byte) : Prop := c = byte ' ' ∨ c = byte '\t'

/-- What separates tokens. -/
def IsDelimiter (c : Byte) : Prop :=
  IsSpace c ∨ c = byte '\n' ∨ c = byte '#' ∨ c = byte '='

/-- A byte that has no meaning of its own to `next`, and ends no string. -/
structure IsPlain (c : Byte) : Prop where
  ne_backslash : c ≠ byte '\\'
  ne_dollar : c ≠ byte '$'
  ne_zero : c ≠ 0

/-- What stands between quotes for a token. -/
inductive Quotes : List Byte → List Byte → Prop
  | nil : Quotes [] []
  | plain {c t s} (hPlain : IsPlain c) (hQuote : c ≠ byte '"') (hNewline : c ≠ byte '\n')
      (hTab : c ≠ byte '\t') (hRest : Quotes t s) : Quotes (c :: t) (c :: s)
  | escaped {c t s} (hChar : c = byte '"' ∨ c = byte '\\') (hRest : Quotes t s) :
      Quotes (c :: t) (byte '\\' :: c :: s)
  | dollar {t s} (hRest : Quotes t s) : Quotes (byte '$' :: t) (byte '\\' :: byte '$' :: s)
  | joined {t s} {spaces : List Byte} (hSpaces : ∀ b ∈ spaces, IsSpace b)
      (hAll : ∀ b, s.head? = some b → ¬ IsSpace b) (hRest : Quotes t s) :
      Quotes (byte ' ' :: t) (byte '\\' :: byte '\n' :: (spaces ++ s))

/-- What stands for a token without quotes. -/
inductive Spells : List Byte → List Byte → Prop
  | nil : Spells [] []
  | plain {c t s} (hPlain : IsPlain c) (hDelimiter : ¬ IsDelimiter c) (hRest : Spells t s) :
      Spells (c :: t) (c :: s)
  | escaped {c t s} (hDollar : c ≠ byte '$') (hZero : c ≠ 0) (hNewline : c ≠ byte '\n')
      (hTab : c ≠ byte '\t') (hRest : Spells t s) : Spells (c :: t) (byte '\\' :: c :: s)
  | tab {t s} (hRest : Spells t s) : Spells (byte ' ' :: t) (byte '\\' :: byte '\t' :: s)
  | dollar {t s} (hRest : Spells t s) : Spells (byte '$' :: t) (byte '\\' :: byte '$' :: s)
  | joined {t s} (hRest : Spells t s) : Spells t (byte '\\' :: byte '\n' :: s)

/-- A token without quotes ends here. -/
def Delimited (s : List Byte) : Prop := ∀ c, s.head? = some c → IsDelimiter c

/-- A text and the tokens it spells. -/
inductive Lexes : List Byte → List (List Byte) → Prop
  | done : Lexes [] []
  | blank {c s ts} (hBlank : IsSpace c ∨ c = byte '\n') (hRest : Lexes s ts) : Lexes (c :: s) ts
  | comment {body s ts} (hBody : byte '\n' ∉ body) (hRest : Lexes s ts) :
      Lexes (byte '#' :: (body ++ byte '\n' :: s)) ts
  | lastComment {body} (hBody : byte '\n' ∉ body) : Lexes (byte '#' :: body) []
  | equals {s ts} (hRest : Lexes s ts) : Lexes (byte '=' :: s) ([byte '='] :: ts)
  | quoted {t body s ts} (hQuotes : Quotes t body) (hLength : t.length < maxToken)
      (hRest : Lexes s ts) : Lexes (byte '"' :: (body ++ byte '"' :: s)) (t :: ts)
  | word {t c body s ts} (hSpells : Spells t (c :: body)) (hQuote : c ≠ byte '"')
      (hLength : t.length < maxToken) (hDelimited : Delimited s) (hRest : Lexes s ts) :
      Lexes (c :: (body ++ s)) (t :: ts)

-- ---------------------------------------------------------------------------
-- Bytes and characters
-- ---------------------------------------------------------------------------

/-- Comparing a byte with a character constant. -/
theorem toNat_eq_chr {c : Byte} {x : Char} (hx : x.toNat < 256) :
    (c.toNat : Int) = chr x ↔ c = byte x := by
  unfold chr byte
  rw [Int.natCast_inj]
  constructor
  · intro h
    refine BitVec.eq_of_toNat_eq ?_
    rw [h, BitVec.toNat_ofNat]
    exact (Nat.mod_eq_of_lt hx).symm
  · intro h
    rw [h, BitVec.toNat_ofNat]
    exact Nat.mod_eq_of_lt hx

/-- No byte of the file is `EOF`. -/
theorem toNat_ne_eof (c : Byte) : (c.toNat : Int) ≠ eof := by
  unfold eof
  omega

/-- A byte stored from the `int` it was read as. -/
theorem ofInt_toNat (c : Byte) : BitVec.ofInt 8 (c.toNat : Int) = c := by
  simp

/-- The characters that the tests of `cfg_get_token` are about, for a byte. -/
theorem chr_tests (c : Byte) :
    ((c.toNat : Int) = chr ' ' ↔ c = byte ' ') ∧ ((c.toNat : Int) = chr '\t' ↔ c = byte '\t') ∧
      ((c.toNat : Int) = chr '\n' ↔ c = byte '\n') ∧ ((c.toNat : Int) = chr '#' ↔ c = byte '#') ∧
      ((c.toNat : Int) = chr '=' ↔ c = byte '=') ∧ ((c.toNat : Int) = chr '"' ↔ c = byte '"') ∧
      ((c.toNat : Int) = chr '\\' ↔ c = byte '\\') :=
  ⟨toNat_eq_chr (by decide), toNat_eq_chr (by decide), toNat_eq_chr (by decide),
    toNat_eq_chr (by decide), toNat_eq_chr (by decide), toNat_eq_chr (by decide),
    toNat_eq_chr (by decide)⟩

/-- The characters that end a word without quotes. -/
theorem endsWord_iff (c : Byte) : endsWord c.toNat = true ↔ IsDelimiter c := by
  obtain ⟨hSpace, hTab, hNewline, hComment, hEquals, -⟩ := chr_tests c
  have hEof := toNat_ne_eof c
  unfold endsWord IsDelimiter IsSpace
  simp only [Bool.or_eq_true, beq_iff_eq, hSpace, hTab, hNewline, hComment, hEquals, hEof,
    or_false, or_assoc]

-- ---------------------------------------------------------------------------
-- Readers at a text
-- ---------------------------------------------------------------------------

/-- A reader at a text, when nothing was given back. -/
def fresh (text : List Byte) (line : Nat) : Reader := ⟨text, [], 0, line⟩

/-- A reader at a text: what ends a token may have been given back. -/
inductive ReadsAt : Reader → List Byte → Prop
  | here (text line) : ReadsAt (fresh text line) text
  | back {c s line} (hDelimiter : IsDelimiter c) : ReadsAt ⟨s, [], c.toNat, line⟩ (c :: s)
  | backEof {line} : ReadsAt ⟨[], [], eof, line⟩ []

/-- None of them is 0. -/
theorem IsDelimiter.toNat_ne_zero {c : Byte} (h : IsDelimiter c) : (c.toNat : Int) ≠ 0 := by
  rcases h with (rfl | rfl) | rfl | rfl | rfl <;> decide

/-- None of them is a backslash or a dollar sign. -/
theorem IsDelimiter.plain {c : Byte} (h : IsDelimiter c) : c ≠ byte '\\' ∧ c ≠ byte '$' := by
  rcases h with (rfl | rfl) | rfl | rfl | rfl <;> decide

variable {env : Env}

/-- Where nothing was given back and no variable is open, `next` reads the file. -/
theorem next_fresh {text rest : List Byte} {line : Nat} {ch : Int}
    (h : nextOfFile env (fresh text line) text = .ok (ch, rest, [])) :
    next env (fresh text line) = .ok (ch, fresh rest line) := by
  rw [next, if_neg (by simp [fresh])]
  simp only [fresh] at h ⊢
  rw [h]
  rfl

/-- At the end of the file. -/
theorem next_nil (line : Nat) : next env (fresh [] line) = .ok (eof, fresh [] line) := by
  refine next_fresh ?_
  rw [nextOfFile]

/-- A character that stands for itself. -/
theorem next_plain {c : Byte} (s : List Byte) (line : Nat) (hBackslash : c ≠ byte '\\')
    (hDollar : c ≠ byte '$') :
    next env (fresh (c :: s) line) = .ok (c.toNat, fresh s line) := by
  refine next_fresh ?_
  unfold nextOfFile
  rw [if_neg hBackslash, if_neg hDollar]

/-- A backslash, unless a dollar sign follows. -/
theorem next_backslash {s : List Byte} (line : Nat) (h : s.head? ≠ some (byte '$')) :
    next env (fresh (byte '\\' :: s) line) = .ok (chr '\\', fresh s line) := by
  refine next_fresh ?_
  unfold nextOfFile
  cases s with
  | nil => rfl
  | cons c s =>
    have hDollar : c ≠ byte '$' := by simpa using h
    simp only [if_true]
    exact if_neg hDollar

/-- An escaped dollar sign. -/
theorem next_dollar (s : List Byte) (line : Nat) :
    next env (fresh (byte '\\' :: byte '$' :: s) line) = .ok (chr '$', fresh s line) := by
  refine next_fresh ?_
  unfold nextOfFile
  simp only [if_true]

/-- What was given back comes first. -/
theorem next_back (s : List Byte) (line : Nat) {ch : Int} (h : ch ≠ 0) :
    next env ⟨s, [], ch, line⟩ = .ok (ch, fresh s line) := by
  rw [next, if_pos h]
  rfl

/-- A delimiter is read whether it was given back or not. -/
theorem ReadsAt.next_delimiter {r : Reader} {c : Byte} {s : List Byte} (h : ReadsAt r (c :: s))
    (hDelimiter : IsDelimiter c) : next env r = .ok (c.toNat, fresh s r.lineNum) := by
  cases h with
  | here =>
    obtain ⟨hBackslash, hDollar⟩ := hDelimiter.plain
    exact next_plain _ _ hBackslash hDollar
  | back => exact next_back _ _ hDelimiter.toNat_ne_zero

/-- The end of the text. -/
theorem ReadsAt.next_end {r : Reader} (h : ReadsAt r []) :
    next env r = .ok (eof, fresh [] r.lineNum) := by
  cases h with
  | here => exact next_nil _
  | backEof =>
    have hEof : eof ≠ 0 := by decide
    exact next_back _ _ hEof

/-- At a text that does not begin with a delimiter, nothing was given back. -/
theorem ReadsAt.eq_fresh {r : Reader} {c : Byte} {s : List Byte} (h : ReadsAt r (c :: s))
    (hDelimiter : ¬ IsDelimiter c) : r = fresh (c :: s) r.lineNum := by
  cases h with
  | here => rfl
  | back hDelimiter' => exact absurd hDelimiter' hDelimiter

end MultiOS.Lilo
