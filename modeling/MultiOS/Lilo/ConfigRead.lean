import MultiOS.Lib.FirstMatch
import MultiOS.Lilo.ConfigItems

/-!
# LILO — what a configuration file sets

`setItems_find` says what is found in a table after items were put into it, and
`config_read` puts this together with `cfgParse_items`: from the text of the
file to what `cfg_get_strg` and `cfg_get_flag` return.

`written` is one of the texts for given tokens: each in quotes, on a line of its
own (`written_lexes`). So whatever has no zero byte, end of line or tabulator in
it and is not too long can be written.
-/

namespace MultiOS.Lilo

-- ---------------------------------------------------------------------------
-- What is found in a table afterwards
-- ---------------------------------------------------------------------------

/-- Names that differ otherwise than in case. -/
theorem sameName_false {a b : List Byte} :
    sameName a b = false ↔ a.map toLower ≠ b.map toLower := by
  rw [← Bool.not_eq_true, sameName_iff]

/-- Two searches by the same name are one. -/
theorem sameName_congr {a b : List Byte} (h : sameName a b = true) :
    (fun e : CfgEntry => sameName e.name a) = fun e => sameName e.name b := by
  funext e
  rw [Bool.eq_iff_iff, sameName_iff, sameName_iff, sameName_iff.mp h]

/-- The case of a name does not matter. -/
theorem cfgFind_congr {a b : List Byte} (h : sameName a b = true) (table : List CfgEntry) :
    cfgFind a table = cfgFind b table :=
  congrArg (table.find? ·) (sameName_congr h)

/-- The entry found has the name. -/
theorem cfgFind_name {name : List Byte} {table : List CfgEntry} {e : CfgEntry}
    (h : cfgFind name table = some e) : sameName e.name name = true := by
  simpa using List.find?_some h

/-- The entry, set by an item. -/
def CfgEntry.set (context : Nat) (i : CfgItem) (e : CfgEntry) : CfgEntry :=
  { e with data := some (i.value.getD []), context }

/-- The entry is not set, and is of the kind that the item is for. -/
structure CfgEntry.Takes (e : CfgEntry) (i : CfgItem) : Prop where
  unset : e.data = none
  kind : e.type = .strg ↔ i.value.isSome

/-- `cfg_do_set` leaves an item that the table does not know. -/
theorem cfgDoSet_unknown (context : Nat) {i : CfgItem} {table : List CfgEntry}
    (h : cfgFind i.item table = none) : cfgDoSet context i table = .ok none := by
  induction table with
  | nil => rfl
  | cons e table ih =>
    rw [cfgFind, List.find?_cons] at h
    split at h
    · cases h
    · next hName =>
      rw [cfgDoSet, hName, ih h]
      rfl

/-- An item that its entry takes sets that entry. -/
theorem cfgDoSet_takes (context : Nat) {i : CfgItem} {table : List CfgEntry} {e : CfgEntry}
    (hFind : cfgFind i.item table = some e) (hTakes : e.Takes i) :
    ∃ table', cfgDoSet context i table = .ok (some table') ∧
      Lib.updateFirst (fun e => sameName e.name i.item) (CfgEntry.set context i) table =
        some (e, table') := by
  induction table with
  | nil => cases hFind
  | cons e' table ih =>
    rw [cfgFind, List.find?_cons] at hFind
    split at hFind
    · next hName =>
      cases hFind
      refine ⟨e.set context i :: table, ?_, ?_⟩
      · have hValue : ¬ (i.value.isSome ∧ e.type ≠ .strg) := fun h => h.2 (hTakes.kind.mpr h.1)
        have hNoValue : ¬ (i.value = none ∧ e.type = .strg) := by
          intro h
          have hSome := hTakes.kind.mp h.2
          rw [h.1] at hSome
          cases hSome
        rw [cfgDoSet, if_pos hName, if_neg hValue, if_neg hNoValue, hTakes.unset]
        rfl
      · rw [Lib.updateFirst, if_pos hName]
    · next hName =>
      obtain ⟨table', hSet, hUpdate⟩ := ih hFind
      refine ⟨e' :: table', ?_, ?_⟩
      · rw [cfgDoSet, hName, hSet]
        rfl
      · rw [Lib.updateFirst, hName, hUpdate]
        rfl

/-- An item sets the entry of its name and no other. -/
theorem cfgDoSet_find (context : Nat) {i : CfgItem} {table : List CfgEntry} {e : CfgEntry}
    (hFind : cfgFind i.item table = some e) (hTakes : e.Takes i) :
    ∃ table', cfgDoSet context i table = .ok (some table') ∧
      ∀ name, cfgFind name table' =
        if sameName i.item name then some (e.set context i) else cfgFind name table := by
  obtain ⟨table', hSet, hUpdate⟩ := cfgDoSet_takes context hFind hTakes
  have hName : sameName e.name i.item = true := (Lib.updateFirst_mem hUpdate).2
  refine ⟨table', hSet, ?_⟩
  intro name
  split
  · next hSame =>
    unfold cfgFind
    rw [← sameName_congr hSame]
    exact Lib.find?_updateFirst hUpdate hName
  · next hOther =>
    have hNot : sameName e.name name = false := by
      rw [sameName_false, sameName_iff.mp hName]
      rw [sameName_iff] at hOther
      exact hOther
    exact Lib.find?_updateFirst_of_neg hUpdate hNot hNot

/-- The entry after these items: set by the one of its name. -/
def CfgEntry.after (context : Nat) (items : List CfgItem) (e : CfgEntry) : CfgEntry :=
  match items.find? fun i => sameName e.name i.item with
  | some i => e.set context i
  | none => e

/-- An entry that the first item names is set by it. -/
theorem CfgEntry.after_cons_pos {context : Nat} {i : CfgItem} {items : List CfgItem}
    {e : CfgEntry} (h : sameName e.name i.item = true) :
    e.after context (i :: items) = e.set context i := by
  rw [CfgEntry.after, List.find?_cons, h]

/-- Otherwise the later items decide. -/
theorem CfgEntry.after_cons_neg {context : Nat} {i : CfgItem} {items : List CfgItem}
    {e : CfgEntry} (h : sameName e.name i.item = false) :
    e.after context (i :: items) = e.after context items := by
  rw [CfgEntry.after, List.find?_cons, h]
  rfl

/-- An entry that no item names is as it was. -/
theorem CfgEntry.after_none {context : Nat} {items : List CfgItem} {e : CfgEntry}
    (h : ∀ i ∈ items, sameName e.name i.item = false) : e.after context items = e := by
  have hNone : items.find? (fun i => sameName e.name i.item) = none := by
    rw [List.find?_eq_none]
    intro i hi hSame
    rw [h i hi] at hSame
    cases hSame
  rw [CfgEntry.after, hNone]

/-- Of items of different names, the one of the entry's name sets it. -/
theorem CfgEntry.after_mem {context : Nat} {i : CfgItem} {items : List CfgItem} {e : CfgEntry}
    (hOnce : items.Pairwise fun i j => sameName i.item j.item = false) (hi : i ∈ items)
    (h : sameName e.name i.item = true) : e.after context items = e.set context i := by
  induction items with
  | nil => cases hi
  | cons j items ih =>
    obtain ⟨hFirst, hOnce⟩ := List.pairwise_cons.mp hOnce
    rcases List.mem_cons.mp hi with rfl | hi
    · exact CfgEntry.after_cons_pos h
    · have hOther : sameName e.name j.item = false := by
        rw [sameName_false, sameName_iff.mp h]
        exact (sameName_false.mp (hFirst i hi)).symm
      rw [CfgEntry.after_cons_neg hOther, ih hOnce hi]

/-- **What is found in the table afterwards.** Items that the table has entries for are
all set, up to an item that it has none for. -/
theorem setItems_find (context : Nat) {items next : List CfgItem} {table : List CfgEntry}
    (hTable : ∀ i ∈ items, ∃ e, cfgFind i.item table = some e ∧ e.Takes i)
    (hOnce : items.Pairwise fun i j => sameName i.item j.item = false)
    (hNext : ∀ i, next.head? = some i → cfgFind i.item table = none) :
    ∃ table', setItems context (items ++ next) table = .ok (next, table') ∧
      ∀ name, cfgFind name table' = (cfgFind name table).map (CfgEntry.after context items) := by
  induction items generalizing table with
  | nil =>
    refine ⟨table, ?_, fun name => Option.map_id'.symm⟩
    rcases next with _ | ⟨i, next⟩
    · rfl
    · rw [List.nil_append, setItems, cfgDoSet_unknown context (hNext i rfl)]
  | cons i items ih =>
    obtain ⟨⟨e, hFind, hTakes⟩, hOthers⟩ := List.forall_mem_cons.mp hTable
    obtain ⟨hFirst, hOnce⟩ := List.pairwise_cons.mp hOnce
    obtain ⟨table₁, hSet, hFound⟩ := cfgDoSet_find context hFind hTakes
    have hName := cfgFind_name hFind
    -- what is left to be set is still not set, and the next item still unknown
    have hTable₁ : ∀ j ∈ items, ∃ e, cfgFind j.item table₁ = some e ∧ e.Takes j := by
      intro j hj
      rw [hFound, hFirst j hj]
      exact hOthers j hj
    have hNext₁ : ∀ j, next.head? = some j → cfgFind j.item table₁ = none := by
      intro j hj
      have hNone := hNext j hj
      rw [hFound, if_neg, hNone]
      intro hSame
      rw [cfgFind_congr hSame, hNone] at hFind
      cases hFind
    obtain ⟨table', hItems, hRest⟩ := ih hTable₁ hOnce hNext₁
    refine ⟨table', ?_, ?_⟩
    · rw [List.cons_append, setItems, hSet]
      exact hItems
    intro name
    rw [hRest, hFound]
    -- an entry is set by the only item of its name
    by_cases hSame : sameName i.item name = true
    · have hEntry : cfgFind name table = some e := by rw [← cfgFind_congr hSame, hFind]
      have hNone : ∀ j ∈ items, sameName (e.set context i).name j.item = false := by
        intro j hj
        rw [sameName_false]
        exact fun hEq => sameName_false.mp (hFirst j hj) ((sameName_iff.mp hName).symm.trans hEq)
      rw [if_pos hSame, hEntry]
      show some _ = some _
      rw [CfgEntry.after_none hNone, CfgEntry.after_cons_pos hName]
    · rw [if_neg hSame]
      refine Option.map_congr ?_
      intro e' he'
      refine (CfgEntry.after_cons_neg ?_).symm
      rw [sameName_iff] at hSame
      rw [sameName_false, sameName_iff.mp (cfgFind_name he')]
      exact fun hEq => hSame hEq.symm

-- ---------------------------------------------------------------------------
-- A text for given items
-- ---------------------------------------------------------------------------

/-- A byte between quotes. -/
def quoteByte (c : Byte) : List Byte :=
  if c = byte '"' ∨ c = byte '\\' ∨ c = byte '$' then [byte '\\', c] else [c]

/-- A text that spells these tokens. -/
def written (ts : List (List Byte)) : List Byte :=
  ts.flatMap fun t => byte '"' :: (t.flatMap quoteByte ++ [byte '"', byte '\n'])

/-- What can be written between quotes, and is not too long. -/
structure IsToken (t : List Byte) : Prop where
  bytes : ∀ c ∈ t, c ≠ 0 ∧ c ≠ byte '\n' ∧ c ≠ byte '\t'
  length : t.length < maxToken

/-- The quoted form of a token reads as the token. -/
theorem quotes_flatMap {t : List Byte} (h : ∀ c ∈ t, c ≠ 0 ∧ c ≠ byte '\n' ∧ c ≠ byte '\t') :
    Quotes t (t.flatMap quoteByte) := by
  induction t with
  | nil => exact Quotes.nil
  | cons c t ih =>
    obtain ⟨⟨hZero, hNewline, hTab⟩, hRest⟩ := List.forall_mem_cons.mp h
    rw [List.flatMap_cons, quoteByte]
    split
    · next hSpecial =>
      rcases hSpecial with rfl | rfl | rfl
      · exact Quotes.escaped (Or.inl rfl) (ih hRest)
      · exact Quotes.escaped (Or.inr rfl) (ih hRest)
      · exact Quotes.dollar (ih hRest)
    · next hPlain =>
      rw [not_or, not_or] at hPlain
      obtain ⟨hQuote, hBackslash, hDollar⟩ := hPlain
      exact Quotes.plain ⟨hBackslash, hDollar, hZero⟩ hQuote hNewline hTab (ih hRest)

/-- The tokens, each quoted and on a line of its own, read as these tokens. -/
theorem written_lexes {ts : List (List Byte)} (h : ∀ t ∈ ts, IsToken t) :
    Lexes (written ts) ts := by
  induction ts with
  | nil => exact Lexes.done
  | cons t ts ih =>
    obtain ⟨hToken, hRest⟩ := List.forall_mem_cons.mp h
    have hText : written (t :: ts) =
        byte '"' :: (t.flatMap quoteByte ++ byte '"' :: byte '\n' :: written ts) := by
      rw [written, List.flatMap_cons, List.cons_append, List.append_assoc]
      rfl
    rw [hText]
    exact Lexes.quoted (quotes_flatMap hToken.bytes) hToken.length
      (Lexes.blank (Or.inr rfl) (ih hRest))

/-- The file is read from the beginning. -/
theorem atItems_cfgOpen {text : List Byte} {items : List CfgItem}
    (h : Lexes text (tokensOf items)) : (cfgOpen text).AtItems items :=
  Parser.AtItems.text (Parser.AtTokens.text (ReadsAt.here text 1) h)

-- ---------------------------------------------------------------------------
-- From the text to the table
-- ---------------------------------------------------------------------------

/-- What `cfg_get_strg` or `cfg_get_flag` returns under the name is what the item says. -/
def CfgItem.FoundIn (i : CfgItem) (name : List Byte) (table : List CfgEntry) : Prop :=
  match i.value with
  | none => cfgGetFlag table name = .ok true
  | some value => cfgGetStrg table name = .ok (some value)

/-- What an item has set is found under its name. -/
theorem CfgEntry.Takes.foundIn {i : CfgItem} {name : List Byte} {table : List CfgEntry}
    {e : CfgEntry} {context : Nat} (hTakes : e.Takes i)
    (hFind : cfgFind name table = some (e.set context i)) : i.FoundIn name table := by
  obtain ⟨item, value⟩ := i
  cases value with
  | none =>
    have hFlag : e.type = .flag := by
      have hKind := hTakes.kind
      cases hType : e.type with
      | flag => rfl
      | strg => exact absurd (hKind.mp hType) (by simp)
    show cfgGetFlag table name = .ok true
    rw [cfgGetFlag, hFind]
    show (if e.type ≠ .flag then _ else _) = _
    rw [if_neg (not_not_intro hFlag)]
    rfl
  | some value =>
    have hStrg : e.type = .strg := hTakes.kind.mpr rfl
    show cfgGetStrg table name = .ok (some value)
    rw [cfgGetStrg, hFind]
    show (if e.type ≠ .strg then _ else _) = _
    rw [if_neg (not_not_intro hStrg)]
    rfl

/-- **What is written is what is read.** A parser at a text that spells items sets those
that the table has an entry for, whatever the layout of the text, and stops before the
first that it has none for, which is read again by the next call. A string is then found
as it was written and a flag is set, under the name in any case of letters; what is found
under any other name is as before. -/
theorem config_read (env : Env) (context : Nat) {p : Parser} {items next : List CfgItem}
    {table : List CfgEntry} (hAt : p.AtItems (items ++ next))
    (hWritable : ∀ i ∈ items ++ next, i.Writable)
    (hTable : ∀ i ∈ items, ∃ e, cfgFind i.item table = some e ∧ e.Takes i)
    (hOnce : items.Pairwise fun i j => sameName i.item j.item = false)
    (hNext : ∀ i, next.head? = some i → cfgFind i.item table = none) :
    ∃ p' table',
      (∀ n, (items ++ next).length < n →
        cfgParse env context n p table = some (.ok (!next.isEmpty, table', p'))) ∧
      p'.AtItems next ∧
      (∀ i ∈ items, ∀ name, sameName i.item name = true → i.FoundIn name table') ∧
      ∀ name, (∀ i ∈ items, sameName i.item name = false) →
        cfgFind name table' = cfgFind name table := by
  -- parsing the text is setting the items, one after the other
  obtain ⟨table', hSet, hFound⟩ := setItems_find context hTable hOnce hNext
  have hParsed := cfgParse_items env context hWritable hAt table (Nat.lt_succ_self _)
  rw [hSet] at hParsed
  obtain ⟨p', hParse, hAt'⟩ := hParsed
  refine ⟨p', table', fun n hn => cfgParse_mono hParse hn, hAt', ?_, ?_⟩
  · intro i hi name hName
    obtain ⟨e, hFind, hTakes⟩ := hTable i hi
    have hEntry : cfgFind name table' = some (e.set context i) := by
      rw [hFound, ← cfgFind_congr hName, hFind]
      exact congrArg some (CfgEntry.after_mem hOnce hi (cfgFind_name hFind))
    exact hTakes.foundIn hEntry
  · intro name hOther
    rw [hFound]
    cases hFind : cfgFind name table with
    | none => rfl
    | some e =>
      refine congrArg some (CfgEntry.after_none ?_)
      intro i hi
      rw [sameName_false, sameName_iff.mp (cfgFind_name hFind)]
      exact (sameName_false.mp (hOther i hi)).symm

/-- A flag, and a string with a quote and a backslash in it. -/
def someItems : List CfgItem :=
  [⟨"Read-Only".toList.map byte, none⟩,
    ⟨"append".toList.map byte, some [byte '"', byte '\\']⟩]

/-- The next section. -/
def someSectionItems : List CfgItem :=
  [⟨"image".toList.map byte, some ("/vmlinuz".toList.map byte)⟩]

/-- The items of the example, as they are written. -/
theorem some_items_written :
    (cfgOpen (written (tokensOf (someItems ++ someSectionItems)))).AtItems
      (someItems ++ someSectionItems) := by
  have hTokens : ∀ t ∈ tokensOf (someItems ++ someSectionItems),
      (∀ c ∈ t, c ≠ 0 ∧ c ≠ byte '\n' ∧ c ≠ byte '\t') ∧ t.length < maxToken := by decide
  exact atItems_cfgOpen (written_lexes fun t ht => ⟨(hTokens t ht).1, (hTokens t ht).2⟩)

/-- They can be written. -/
theorem some_items_writable : ∀ i ∈ someItems ++ someSectionItems, i.Writable := by
  have hWritable : ∀ i ∈ someItems ++ someSectionItems,
      i.item ≠ [byte '='] ∧ i.value ≠ some [byte '='] := by decide
  exact fun i hi => ⟨(hWritable i hi).1, (hWritable i hi).2⟩

/-- The image table takes those of its own section. -/
theorem some_table_takes :
    ∀ i ∈ someItems, ∃ e, cfgFind i.item cfImage = some e ∧ e.Takes i := by
  refine List.forall_mem_cons.mpr ⟨⟨cftFlag "read-only", by decide, rfl, by decide⟩, ?_⟩
  exact List.forall_mem_singleton.mpr ⟨cftStrg "append", by decide, rfl, by decide⟩

/-- An image with a quoted value, read back up to the next section. -/
theorem config_read_written :
    ∃ p' table',
      cfgParse (fun _ => none) 0 4
        (cfgOpen (written (tokensOf (someItems ++ someSectionItems)))) cfImage =
          some (.ok (true, table', p')) ∧
      p'.AtItems someSectionItems ∧
      cfgGetFlag table' ("read-only".toList.map byte) = .ok true ∧
      cfgGetStrg table' ("append".toList.map byte) = .ok (some [byte '"', byte '\\']) := by
  obtain ⟨p', table', hParse, hNext, hFound, -⟩ :=
    config_read (fun _ => none) 0 some_items_written some_items_writable some_table_takes
      (by decide) (by rintro i ⟨⟩; decide)
  exact ⟨p', table', hParse 4 (by decide), hNext,
    hFound ⟨"Read-Only".toList.map byte, none⟩ (by decide) ("read-only".toList.map byte)
      (by decide),
    hFound ⟨"append".toList.map byte, some [byte '"', byte '\\']⟩ (by decide)
      ("append".toList.map byte) (by decide)⟩

end MultiOS.Lilo
