import MultiOS.Lilo.ConfigTokens

/-!
# LILO — items of a configuration file

`cfg_next` makes items of the tokens, with one token to look ahead, and
`cfg_parse` puts them into a table up to the first that the table has no entry
for. `Parser.AtItems` says where a parser is: what it was given back comes
first, then what the rest of the file spells.

`setItems` is `cfg_parse` without the file: the items are given.
`cfgParse_items` shows that `cfg_parse` does what `setItems` does, on any text
that spells the items, and is then at those it has not set.
-/

namespace MultiOS.Lilo

-- ---------------------------------------------------------------------------
-- Where a parser is
-- ---------------------------------------------------------------------------

/-- How an item is written. -/
def CfgItem.tokens (i : CfgItem) : List (List Byte) :=
  match i.value with
  | none => [i.item]
  | some value => [i.item, [byte '='], value]

/-- No part of the item is an equals sign: `cfg_next` does not tell it from the one
between an item and its value, not even in quotes. -/
structure CfgItem.Writable (i : CfgItem) : Prop where
  item : i.item ≠ [byte '=']
  value : i.value ≠ some [byte '=']

/-- The tokens that items are written with. -/
def tokensOf (items : List CfgItem) : List (List Byte) := items.flatMap CfgItem.tokens

/-- The tokens that a parser is at. -/
inductive Parser.AtTokens : Parser → List (List Byte) → Prop
  | text {r text ts item} (hAt : ReadsAt r text) (hLexes : Lexes text ts) :
      AtTokens ⟨r, none, item⟩ ts
  | returned {r text t ts item} (hAt : ReadsAt r text) (hLexes : Lexes text ts) :
      AtTokens ⟨r, some t, item⟩ (t :: ts)

/-- The items that a parser is at. -/
inductive Parser.AtItems : Parser → List CfgItem → Prop
  | text {r token items} (hTokens : Parser.AtTokens ⟨r, token, none⟩ (tokensOf items)) :
      AtItems ⟨r, token, none⟩ items
  | returned {r token i items} (hTokens : Parser.AtTokens ⟨r, token, none⟩ (tokensOf items)) :
      AtItems ⟨r, token, some i⟩ (i :: items)

-- ---------------------------------------------------------------------------
-- cfg_get_token, cfg_next
-- ---------------------------------------------------------------------------

section
variable (env : Env) {r : Reader} {token : Option (List Byte)}

/-- The next token, whether it was held or is still in the text. -/
theorem cfgGetToken_cons {t : List Byte} {ts : List (List Byte)}
    (h : Parser.AtTokens ⟨r, token, none⟩ (t :: ts)) :
    ∃ r' text, cfgGetToken env ⟨r, token, none⟩ = .ok (some t, ⟨r', none, none⟩) ∧
      ReadsAt r' text ∧ Lexes text ts := by
  cases h with
  | text hAt hLexes =>
    have hToken : TokenRead env r (t :: ts) := getToken_lexes hLexes hAt
    obtain ⟨r', text, hRead, hAt', hLexes'⟩ := hToken
    refine ⟨r', text, ?_, hAt', hLexes'⟩
    unfold cfgGetToken
    rw [hRead]
    rfl
  | returned hAt hLexes => exact ⟨r, _, rfl, hAt, hLexes⟩

/-- No token is left. -/
theorem cfgGetToken_nil (h : Parser.AtTokens ⟨r, token, none⟩ []) :
    ∃ r', cfgGetToken env ⟨r, token, none⟩ = .ok (none, ⟨r', none, none⟩) ∧ ReadsAt r' [] := by
  cases h with
  | text hAt hLexes =>
    have hToken : TokenRead env r [] := getToken_lexes hLexes hAt
    obtain ⟨r', hRead, hAt'⟩ := hToken
    refine ⟨r', ?_, hAt'⟩
    unfold cfgGetToken
    rw [hRead]
    rfl

/-- At the end there is no item. -/
theorem cfgNext_nil {p : Parser} (h : p.AtItems []) :
    ∃ p', cfgNext env p = .ok (none, p') ∧ p'.AtItems [] := by
  cases h with
  | text hTokens =>
    obtain ⟨r', hToken, hAt⟩ := cfgGetToken_nil env hTokens
    refine ⟨⟨r', none, none⟩, ?_, Parser.AtItems.text (Parser.AtTokens.text hAt Lexes.done)⟩
    unfold cfgNext
    simp only
    rw [hToken]
    rfl

/-- An item without a value: the token after it is given back. -/
theorem cfgNext_flag {item : List Byte} {items : List CfgItem} (hItem : item ≠ [byte '='])
    (hWritable : ∀ i ∈ items, i.Writable)
    (h : Parser.AtTokens ⟨r, token, none⟩ (item :: tokensOf items)) :
    ∃ r' token', cfgNext env ⟨r, token, none⟩ = .ok (some ⟨item, none⟩, ⟨r', token', none⟩) ∧
      Parser.AtTokens ⟨r', token', none⟩ (tokensOf items) := by
  obtain ⟨r₁, text, hToken, hAt, hLexes⟩ := cfgGetToken_cons env h
  have hNext : Parser.AtTokens ⟨r₁, none, none⟩ (tokensOf items) := Parser.AtTokens.text hAt hLexes
  cases items with
  | nil =>
    obtain ⟨r₂, hEnd, hAt'⟩ := cfgGetToken_nil env hNext
    refine ⟨r₂, none, ?_, Parser.AtTokens.text hAt' Lexes.done⟩
    unfold cfgNext
    simp only
    rw [hToken]
    refine (if_neg hItem).trans ?_
    rw [hEnd]
    rfl
  | cons i items =>
    have hTokens : ∃ ts, tokensOf (i :: items) = i.item :: ts := by
      unfold tokensOf CfgItem.tokens
      rw [List.flatMap_cons]
      split <;> exact ⟨_, rfl⟩
    obtain ⟨ts, hTokens⟩ := hTokens
    rw [hTokens] at hNext ⊢
    obtain ⟨r₂, text', hThis, hAt', hLexes'⟩ := cfgGetToken_cons env hNext
    refine ⟨r₂, some i.item, ?_, Parser.AtTokens.returned hAt' hLexes'⟩
    unfold cfgNext
    simp only
    rw [hToken]
    refine (if_neg hItem).trans ?_
    rw [hThis]
    exact if_pos (hWritable i List.mem_cons_self).item

/-- An item with a value. -/
theorem cfgNext_value {item value : List Byte} {ts : List (List Byte)} (hItem : item ≠ [byte '='])
    (hValue : value ≠ [byte '='])
    (h : Parser.AtTokens ⟨r, token, none⟩ (item :: [byte '='] :: value :: ts)) :
    ∃ r', cfgNext env ⟨r, token, none⟩ = .ok (some ⟨item, some value⟩, ⟨r', none, none⟩) ∧
      Parser.AtTokens ⟨r', none, none⟩ ts := by
  -- the name, the equals sign and the value
  obtain ⟨r₁, text₁, hToken₁, hAt₁, hLexes₁⟩ := cfgGetToken_cons env h
  obtain ⟨r₂, text₂, hToken₂, hAt₂, hLexes₂⟩ :=
    cfgGetToken_cons env (Parser.AtTokens.text hAt₁ hLexes₁)
  obtain ⟨r₃, text₃, hToken₃, hAt₃, hLexes₃⟩ :=
    cfgGetToken_cons env (Parser.AtTokens.text hAt₂ hLexes₂)
  refine ⟨r₃, ?_, Parser.AtTokens.text hAt₃ hLexes₃⟩
  unfold cfgNext
  simp only
  rw [hToken₁]
  refine (if_neg hItem).trans ?_
  rw [hToken₂]
  simp only [bind, Except.bind]
  rw [if_neg (not_not_intro rfl), hToken₃]
  exact if_neg hValue

/-- **Items are returned one after the other.** -/
theorem cfgNext_cons {p : Parser} {i : CfgItem} {items : List CfgItem}
    (hWritable : ∀ j ∈ i :: items, j.Writable) (h : p.AtItems (i :: items)) :
    ∃ r' token', cfgNext env p = .ok (some i, ⟨r', token', none⟩) ∧
      Parser.AtTokens ⟨r', token', none⟩ (tokensOf items) := by
  obtain ⟨hThis, hOthers⟩ := List.forall_mem_cons.mp hWritable
  cases h with
  | returned hTokens => exact ⟨_, _, rfl, hTokens⟩
  | text hTokens =>
    obtain ⟨item, value⟩ := i
    cases value with
    | none => exact cfgNext_flag env hThis.item hOthers hTokens
    | some value =>
      have hValue : value ≠ [byte '='] := fun hEq => hThis.value (congrArg some hEq)
      obtain ⟨r', hNext, hTokens'⟩ := cfgNext_value env hThis.item hValue hTokens
      exact ⟨r', none, hNext, hTokens'⟩

end

-- ---------------------------------------------------------------------------
-- cfg_parse
-- ---------------------------------------------------------------------------

/-- `cfg_parse` on given items: those that are not set, and the table. -/
def setItems (context : Nat) :
    List CfgItem → List CfgEntry → Except CfgError (List CfgItem × List CfgEntry)
  | [], table => .ok ([], table)
  | i :: items, table =>
    match cfgDoSet context i table with
    | .error e => .error e
    | .ok none => .ok (i :: items, table)
    | .ok (some table') => setItems context items table'

/-- What `cfg_parse` makes of a text that comes to `result`: an error near some line,
or the table, and the items that were not set are still to be read. -/
def Parsed (result : Except CfgError (List CfgItem × List CfgEntry))
    (parsed : Option (Read (Bool × List CfgEntry × Parser))) : Prop :=
  match result with
  | .error e => ∃ line, parsed = some (.error (e, line))
  | .ok (next, table) => ∃ p, parsed = some (.ok (!next.isEmpty, table, p)) ∧ p.AtItems next

/-- **`cfg_parse` reads what is written.** -/
theorem cfgParse_items (env : Env) (context : Nat) {items : List CfgItem} {p : Parser}
    (hWritable : ∀ i ∈ items, i.Writable) (hAt : p.AtItems items) (table : List CfgEntry) {n : Nat}
    (hFuel : items.length < n) :
    Parsed (setItems context items table) (cfgParse env context n p table) := by
  induction items generalizing p table n with
  | nil =>
    obtain ⟨n, rfl⟩ := Nat.exists_eq_succ_of_ne_zero (Nat.ne_of_gt hFuel)
    obtain ⟨p', hNext, hAt'⟩ := cfgNext_nil env hAt
    refine ⟨p', ?_, hAt'⟩
    rw [cfgParse, hNext]
    rfl
  | cons i items ih =>
    obtain ⟨n, rfl⟩ := Nat.exists_eq_succ_of_ne_zero (Nat.ne_of_gt (Nat.zero_lt_of_lt hFuel))
    obtain ⟨r', token', hNext, hTokens⟩ := cfgNext_cons env hWritable hAt
    rw [cfgParse, hNext, setItems]
    simp only
    rcases cfgDoSet context i table with e | _ | table'
    · exact ⟨r'.lineNum, rfl⟩
    · exact ⟨_, rfl, Parser.AtItems.returned hTokens⟩
    · exact ih (fun j hj => hWritable j (List.mem_cons_of_mem _ hj))
        (Parser.AtItems.text hTokens) table' (Nat.lt_of_succ_lt_succ hFuel)

/-- More room for items changes nothing. -/
theorem cfgParse_mono {env : Env} {context : Nat} {n m : Nat} {p : Parser} {table : List CfgEntry}
    {result : Read (Bool × List CfgEntry × Parser)}
    (h : cfgParse env context n p table = some result) (hMore : n ≤ m) :
    cfgParse env context m p table = some result := by
  induction n generalizing m p table with
  | zero => cases h
  | succ n ih =>
    obtain ⟨m, rfl⟩ := Nat.exists_eq_succ_of_ne_zero (Nat.ne_of_gt (Nat.zero_lt_of_lt hMore))
    rw [cfgParse] at h ⊢
    revert h
    rcases cfgNext env p with e | ⟨_ | i, p'⟩
    · exact id
    · exact id
    · simp only
      rcases cfgDoSet context i table with e | _ | table'
      · exact id
      · exact id
      · exact fun h => ih h (Nat.le_of_succ_le_succ hMore)

end MultiOS.Lilo
