import Mathlib.Data.List.DropRight
import TestLint.Json.Codec
import TestLint.Proofs.Json.Tokens

/-!
# The texts of a value

What counts as a text of a value, whatever blanks stand between its tokens
(`Json.Spells`).  Both layouts write such a text (`Json.Plain.spells_compact`,
`Json.Plain.spells_pretty`), and every such text is read as the value
(`Json.read?_of_spells`), so what is written is read back.

What is asked of a codec is just this, and only for values that are not nested too deep
(`Json.Codec.RoundTrips`).

Each level of a value takes at most two units of fuel for each of its characters.
-/

namespace TestLint.Json

/-- There is nothing but blanks. -/
def Blank (cs : List Char) : Prop :=
  ∀ c ∈ cs, isSpace c = true

mutual

/-- The characters are a text of the value, without blanks around it. -/
inductive Spells : Json → List Char → Prop
  | null : Spells .null "null".toList
  | yes : Spells (.bool true) "true".toList
  | no : Spells (.bool false) "false".toList
  | number (n : Nat) : Spells (ofNat n) n.repr.toList
  | string (s : String) : Spells (.string s) (quote s)
  | emptyArray : Spells (.array []) ['[', ']']
  | array {items : List Json} {cs : List Char} (h : SpellsItems items cs) :
      Spells (.array items) ('[' :: cs ++ [']'])
  | emptyObject : Spells (.object []) ['\x7b', '\x7d']
  | object {fields : List (String × Json)} {cs : List Char} (h : SpellsFields fields cs) :
      Spells (.object fields) ('\x7b' :: cs ++ ['\x7d'])

/-- The characters are a text of what stands between the brackets of an array. -/
inductive SpellsItems : List Json → List Char → Prop
  | last {item : Json} {cs before after : List Char} (h : Spells item cs) (hbefore : Blank before)
      (hafter : Blank after) : SpellsItems [item] (before ++ cs ++ after)
  | cons {item : Json} {items : List Json} {cs before rest : List Char} (h : Spells item cs)
      (hbefore : Blank before) (hrest : SpellsItems items rest) :
      SpellsItems (item :: items) (before ++ cs ++ ',' :: rest)

/-- The characters are a text of what stands between the braces of an object. -/
inductive SpellsFields : List (String × Json) → List Char → Prop
  | last (key : String) {value : Json} {cs before between after : List Char} (h : Spells value cs)
      (hbefore : Blank before) (hbetween : Blank between) (hafter : Blank after) :
      SpellsFields [(key, value)] (before ++ quote key ++ ':' :: between ++ cs ++ after)
  | cons (key : String) {value : Json} {fields : List (String × Json)}
      {cs before between rest : List Char} (h : Spells value cs) (hbefore : Blank before)
      (hbetween : Blank between) (hrest : SpellsFields fields rest) :
      SpellsFields ((key, value) :: fields)
        (before ++ quote key ++ ':' :: between ++ cs ++ ',' :: rest)

end

/-! ## Blanks -/

theorem dropWhile_blank {cs : List Char} (h : Blank cs) (rest : List Char) :
    (cs ++ rest).dropWhile isSpace = rest.dropWhile isSpace :=
  List.dropWhile_append_of_pos h

theorem dropWhile_of_not_isSpace {c : Char} (h : isSpace c = false) (rest : List Char) :
    (c :: rest).dropWhile isSpace = c :: rest := by
  rw [List.dropWhile_cons, h]
  rfl

theorem readValue_dropWhile (fuel : Nat) (cs : List Char) :
    readValue fuel (cs.dropWhile isSpace) = readValue fuel cs := by
  cases fuel with
  | zero => rfl
  | succ fuel => rw [readValue, readValue, List.dropWhile_idempotent]

theorem readValue_blank {before : List Char} (h : Blank before) (fuel : Nat) (cs : List Char) :
    readValue fuel (before ++ cs) = readValue fuel cs := by
  rw [← readValue_dropWhile, dropWhile_blank h, readValue_dropWhile]

theorem readItems_dropWhile (fuel : Nat) (cs : List Char) :
    readItems fuel (cs.dropWhile isSpace) = readItems fuel cs := by
  cases fuel with
  | zero => rfl
  | succ fuel => rw [readItems, readItems, readValue_dropWhile]

theorem readFields_dropWhile (fuel : Nat) (cs : List Char) :
    readFields fuel (cs.dropWhile isSpace) = readFields fuel cs := by
  cases fuel with
  | zero => rfl
  | succ fuel => rw [readFields, readFields, List.dropWhile_idempotent]

/-- Blanks, and brackets and commas after them, do not belong to a number. -/
theorem endsNumber_blank {after : List Char} (h : Blank after) {c : Char} {rest : List Char}
    (hc : EndsNumber (c :: rest)) : EndsNumber (after ++ c :: rest) := by
  cases after with
  | nil => exact hc
  | cons d after =>
    have hd : isSpace d = true := h d List.mem_cons_self
    simp only [isSpace, Bool.or_eq_true, beq_iff_eq] at hd
    apply endsNumber_cons
    rcases hd with ((rfl | rfl) | rfl) | rfl <;> decide

/-! ## How texts begin -/

theorem isSpace_of_isDigit {c : Char} (h : c.isDigit = true) : isSpace c = false := by
  simp only [isSpace, Bool.or_eq_false_iff, beq_eq_false_iff_ne]
  refine ⟨⟨⟨?_, ?_⟩, ?_⟩, ?_⟩ <;>
  · rintro rfl
    cases h

/-- A text of a value begins with a character that is neither blank nor a bracket that
closes. -/
theorem Spells.exists_cons {v : Json} {cs : List Char} (h : Spells v cs) :
    ∃ c tail, cs = c :: tail ∧ isSpace c = false ∧ c ≠ ']' := by
  cases h with
  | number n =>
    obtain ⟨c, tail, hdigits, hc⟩ := exists_repr_eq_cons n
    refine ⟨c, tail, hdigits, isSpace_of_isDigit hc, ?_⟩
    rintro rfl
    cases hc
  | null => exact ⟨_, _, rfl, by decide, by decide⟩
  | yes => exact ⟨_, _, rfl, by decide, by decide⟩
  | no => exact ⟨_, _, rfl, by decide, by decide⟩
  | string s => exact ⟨_, _, rfl, by decide, by decide⟩
  | emptyArray => exact ⟨_, _, rfl, by decide, by decide⟩
  | array => exact ⟨_, _, rfl, by decide, by decide⟩
  | emptyObject => exact ⟨_, _, rfl, by decide, by decide⟩
  | object => exact ⟨_, _, rfl, by decide, by decide⟩

/-- What stands between the brackets of an array is not the bracket that closes it. -/
theorem SpellsItems.exists_dropWhile {items : List Json} {cs : List Char} (h : SpellsItems items cs)
    (rest : List Char) : ∃ c tail, (cs ++ rest).dropWhile isSpace = c :: tail ∧ c ≠ ']' := by
  obtain ⟨before, item, text, tail, hbefore, hitem, rfl⟩ : ∃ before item text tail,
      Blank before ∧ Spells item text ∧ cs = before ++ text ++ tail := by
    cases h with
    | last hitem hbefore => exact ⟨_, _, _, _, hbefore, hitem, rfl⟩
    | cons hitem hbefore => exact ⟨_, _, _, _, hbefore, hitem, rfl⟩
  obtain ⟨c, text, rfl, hspace, hc⟩ := hitem.exists_cons
  simp only [List.append_assoc, List.cons_append, dropWhile_blank hbefore]
  exact ⟨c, _, dropWhile_of_not_isSpace hspace _, hc⟩

/-- What stands between the braces of an object begins with a quote. -/
theorem SpellsFields.exists_dropWhile {fields : List (String × Json)} {cs : List Char}
    (h : SpellsFields fields cs) (rest : List Char) :
    ∃ tail, (cs ++ rest).dropWhile isSpace = '"' :: tail := by
  obtain ⟨before, key, tail, hbefore, rfl⟩ : ∃ before key tail,
      Blank before ∧ cs = before ++ quote key ++ tail := by
    cases h with
    | last _ _ hbefore => exact ⟨_, _, _, hbefore, by simp only [List.append_assoc]; rfl⟩
    | cons _ _ hbefore => exact ⟨_, _, _, hbefore, by simp only [List.append_assoc]; rfl⟩
  simp only [quote, List.append_assoc, List.cons_append, dropWhile_blank hbefore]
  exact ⟨_, dropWhile_of_not_isSpace (by decide) _⟩

/-! ## Reading one token -/

theorem readValue_quote (fuel : Nat) (s : String) (rest : List Char) :
    readValue (fuel + 1) (quote s ++ rest) = some (.string s, rest) := by
  unfold quote
  rw [readValue, List.append_assoc, List.cons_append, List.cons_append,
    dropWhile_of_not_isSpace (by decide)]
  simp only [List.nil_append, readQuoted_quote, Option.map_some, ofQuoted]

theorem readValue_repr (fuel n : Nat) {rest : List Char} (h : EndsNumber rest) :
    readValue (fuel + 1) (n.repr.toList ++ rest) = some (ofNat n, rest) := by
  have hread := readNumber_repr n h
  obtain ⟨c, cs, hdigits, hc⟩ := exists_repr_eq_cons n
  rw [hdigits, List.cons_append] at hread ⊢
  rw [readValue, dropWhile_of_not_isSpace (isSpace_of_isDigit hc)]
  split
  case h_1 heq => cases heq
  case h_2 heq => cases heq; cases hc
  case h_3 heq => cases heq; cases hc
  case h_4 heq => cases heq; cases hc
  case h_5 heq =>
    cases heq
    simp [hc, hread]

/-- An opening bracket with something else than the closing one behind it. -/
theorem readValue_array {cs : List Char} {c : Char} {tail : List Char}
    (hdrop : cs.dropWhile isSpace = c :: tail) (hc : c ≠ ']') (fuel : Nat) :
    readValue (fuel + 1) ('[' :: cs) =
      (readItems fuel cs).map fun (items, after) => (.array items, after) := by
  have hitems : readItems fuel (c :: tail) = readItems fuel cs := by
    rw [← hdrop, readItems_dropWhile]
  simp only [readValue, dropWhile_of_not_isSpace (c := '[') (by decide), hdrop]
  split
  case h_1 heq =>
    cases heq
    exact absurd rfl hc
  case h_2 => rw [hitems]

/-- An opening brace with a key behind it. -/
theorem readValue_object {cs tail : List Char} (hdrop : cs.dropWhile isSpace = '"' :: tail)
    (fuel : Nat) :
    readValue (fuel + 1) ('\x7b' :: cs) =
      (readFields fuel cs).map fun (fields, after) => (ofFields fields, after) := by
  have hfields : readFields fuel ('"' :: tail) = readFields fuel cs := by
    rw [← hdrop, readFields_dropWhile]
  simp only [readValue, dropWhile_of_not_isSpace (c := '\x7b') (by decide), hdrop]
  rw [← hfields]
  rfl

/-- A field with another one behind it. -/
theorem readFields_comma {before cs rest later : List Char} {fuel : Nat} {value : Json}
    (hbefore : Blank before) (key : String) (hvalue : readValue fuel cs = some (value, rest))
    (hrest : rest.dropWhile isSpace = ',' :: later) :
    readFields (fuel + 1) (before ++ quote key ++ ':' :: cs) =
      (readFields fuel later).map fun (fields, after) => ((some key, value) :: fields, after) := by
  unfold quote
  simp only [readFields, List.append_assoc, dropWhile_blank hbefore, List.cons_append,
    dropWhile_of_not_isSpace (c := '"') (by decide), List.nil_append, readQuoted_quote,
    Option.bind_eq_bind, Option.bind_some, dropWhile_of_not_isSpace (c := ':') (by decide), hvalue,
    hrest]

/-- The last field of an object. -/
theorem readFields_brace {before cs rest later : List Char} {fuel : Nat} {value : Json}
    (hbefore : Blank before) (key : String) (hvalue : readValue fuel cs = some (value, rest))
    (hrest : rest.dropWhile isSpace = '\x7d' :: later) :
    readFields (fuel + 1) (before ++ quote key ++ ':' :: cs) =
      some ([(some key, value)], later) := by
  unfold quote
  simp only [readFields, List.append_assoc, dropWhile_blank hbefore, List.cons_append,
    dropWhile_of_not_isSpace (c := '"') (by decide), List.nil_append, readQuoted_quote,
    Option.bind_eq_bind, Option.bind_some, dropWhile_of_not_isSpace (c := ':') (by decide), hvalue,
    hrest]

/-- What was written item by item is read back as a list. -/
theorem mapM_map_eq_some {α β : Type} {read : β → Option α} {write : α → β} {items : List α}
    (h : ∀ item ∈ items, read (write item) = some item) :
    (items.map write).mapM read = some items := by
  induction items with
  | nil => rfl
  | cons item items ih =>
    obtain ⟨hitem, hitems⟩ := List.forall_mem_cons.1 h
    rw [List.map_cons, List.mapM_cons, hitem, ih hitems]
    rfl

/-- Fields that were written with their keys are those of an object. -/
theorem ofFields_some (fields : List (String × Json)) :
    ofFields (fields.map fun field => (some field.1, field.2)) = .object fields := by
  have hkeys : (fields.map fun field => (some field.1, field.2)).mapM
      (fun field => field.1.map (·, field.2)) = some fields :=
    mapM_map_eq_some fun _ _ => rfl
  unfold ofFields
  split
  case h_1 heq => rw [Option.some.inj (heq.symm.trans hkeys)]
  case h_2 heq => cases heq.symm.trans hkeys

/-! ## Reading a value -/

mutual

/-- A text of a value is read as the value, whatever follows it that is not part of a number. -/
theorem Spells.read {v : Json} {cs : List Char} (h : Spells v cs) (fuel : Nat)
    (hfuel : 2 * cs.length ≤ fuel) {rest : List Char} (hrest : EndsNumber rest) :
    readValue fuel (cs ++ rest) = some (v, rest) := by
  obtain ⟨fuel, rfl⟩ : ∃ k, fuel = k + 1 := by
    obtain ⟨c, tail, rfl, -⟩ := h.exists_cons
    exact ⟨fuel - 1, by simp at hfuel; omega⟩
  cases h with
  | null => rfl
  | yes => rfl
  | no => rfl
  | number n => exact readValue_repr fuel n hrest
  | string s => exact readValue_quote fuel s rest
  | emptyArray => rfl
  | emptyObject => rfl
  | array h =>
    obtain ⟨c, tail, hdrop, hc⟩ := h.exists_dropWhile (']' :: rest)
    simp only [List.cons_append, List.append_assoc, List.nil_append]
    rw [readValue_array hdrop hc, h.read fuel (by simp at hfuel; omega), Option.map_some]
  | object h =>
    obtain ⟨tail, hdrop⟩ := h.exists_dropWhile ('\x7d' :: rest)
    simp only [List.cons_append, List.append_assoc, List.nil_append]
    rw [readValue_object hdrop, h.read fuel (by simp at hfuel; omega), Option.map_some]
    dsimp only
    rw [ofFields_some]

/-- What stands between brackets is read up to the closing one. -/
theorem SpellsItems.read {items : List Json} {cs : List Char} (h : SpellsItems items cs)
    (fuel : Nat) (hfuel : 2 * cs.length + 1 ≤ fuel) (rest : List Char) :
    readItems fuel (cs ++ ']' :: rest) = some (items, rest) := by
  obtain ⟨fuel, rfl⟩ : ∃ k, fuel = k + 1 := ⟨fuel - 1, by omega⟩
  cases h with
  | last h hbefore hafter =>
    have hread := h.read fuel (by simp at hfuel; omega)
      (endsNumber_blank hafter (endsNumber_cons (c := ']') (by decide) rest))
    rw [readItems, List.append_assoc, List.append_assoc, readValue_blank hbefore, hread]
    simp only [Option.bind_eq_bind, Option.bind_some, dropWhile_blank hafter,
      dropWhile_of_not_isSpace (c := ']') (by decide)]
  | @cons item items cs before later h hbefore hlater =>
    have hread := h.read fuel (by simp at hfuel; omega)
      (endsNumber_cons (c := ',') (by decide) (later ++ ']' :: rest))
    rw [readItems, List.append_assoc, List.append_assoc, readValue_blank hbefore, List.cons_append,
      hread]
    simp only [Option.bind_eq_bind, Option.bind_some,
      dropWhile_of_not_isSpace (c := ',') (by decide)]
    rw [hlater.read fuel (by simp at hfuel; omega), Option.map_some]

/-- What stands between braces is read up to the closing one. -/
theorem SpellsFields.read {fields : List (String × Json)} {cs : List Char}
    (h : SpellsFields fields cs) (fuel : Nat) (hfuel : 2 * cs.length + 1 ≤ fuel)
    (rest : List Char) :
    readFields fuel (cs ++ '\x7d' :: rest) =
      some (fields.map fun field => (some field.1, field.2), rest) := by
  obtain ⟨fuel, rfl⟩ : ∃ k, fuel = k + 1 := ⟨fuel - 1, by omega⟩
  cases h with
  | @last key value cs before between after h hbefore hbetween hafter =>
    have hread := h.read fuel (by simp at hfuel; omega)
      (endsNumber_blank hafter (endsNumber_cons (c := '\x7d') (by decide) rest))
    rw [← readValue_blank hbetween] at hread
    have hbrace := readFields_brace hbefore key hread
      ((dropWhile_blank hafter _).trans (dropWhile_of_not_isSpace (by decide) rest))
    simp only [List.append_assoc, List.cons_append] at hbrace ⊢
    exact hbrace
  | @cons key value fields cs before between later h hbefore hbetween hlater =>
    have hread := h.read fuel (by simp at hfuel; omega)
      (endsNumber_cons (c := ',') (by decide) (later ++ '\x7d' :: rest))
    rw [← readValue_blank hbetween] at hread
    have hcomma := readFields_comma hbefore key hread (dropWhile_of_not_isSpace (by decide) _)
    rw [hlater.read fuel (by simp at hfuel; omega), Option.map_some] at hcomma
    simp only [List.append_assoc, List.cons_append] at hcomma ⊢
    exact hcomma

end

/-- Every text of a value is read as the value. -/
theorem read?_of_spells {v : Json} {cs : List Char} (h : Spells v cs) :
    read? (String.ofList cs) = some v := by
  have hread := h.read (2 * cs.length + 2) (by omega) endsNumber_nil
  unfold read?
  rw [String.toList_ofList]
  dsimp only
  rw [List.append_nil] at hread
  rw [hread]
  rfl

/-! ## Writing a value -/

/-- A value whose numbers are natural ones and whose texts are whole, with no more than `depth`
arrays and objects around any of its parts. -/
inductive Plain : Nat → Json → Prop
  | null {depth : Nat} : Plain depth .null
  | bool {depth : Nat} (b : Bool) : Plain depth (.bool b)
  | number {depth : Nat} (n : Nat) : Plain depth (ofNat n)
  | string {depth : Nat} (s : String) : Plain depth (.string s)
  | array {depth : Nat} {items : List Json} (h : ∀ item ∈ items, Plain depth item) :
      Plain (depth + 1) (.array items)
  | object {depth : Nat} {fields : List (String × Json)}
      (h : ∀ field ∈ fields, Plain depth field.2) : Plain (depth + 1) (.object fields)

theorem blank_nil : Blank [] := by
  intro c hc
  cases hc

theorem blank_newline (level : Nat) : Blank (newline level) := by
  intro c hc
  rcases List.mem_cons.1 hc with rfl | hc
  · decide
  · rw [List.eq_of_mem_replicate hc]
    decide

theorem blank_space : Blank [' '] := by
  intro c hc
  rw [List.mem_singleton.1 hc]
  decide

/-- Texts one after the other, with commas between them. -/
def commaJoined : List (List Char) → List Char
  | [] => []
  | [cs] => cs
  | cs :: rest => cs ++ ',' :: commaJoined rest

/-- Texts of items, each with blanks before it, are a text of what stands between brackets. -/
theorem spellsItems_joined {write : Json → List Char} {before after : List Char}
    (hbefore : Blank before) (hafter : Blank after) {items : List Json} (hne : items ≠ [])
    (h : ∀ item ∈ items, Spells item (write item)) :
    SpellsItems items (commaJoined (items.map fun item => before ++ write item) ++ after) := by
  induction items with
  | nil => exact absurd rfl hne
  | cons item items ih =>
    have hitem := h item List.mem_cons_self
    have hrest := fun later hlater => h later (List.mem_cons_of_mem item hlater)
    cases items with
    | nil => exact .last hitem hbefore hafter
    | cons next items =>
      have hlater := ih (List.cons_ne_nil next items) hrest
      simpa [commaJoined] using SpellsItems.cons hitem hbefore hlater

/-- Texts of fields, each with blanks before it and before its value, are a text of what
stands between braces. -/
theorem spellsFields_joined {write : Json → List Char} {before between after : List Char}
    (hbefore : Blank before) (hbetween : Blank between) (hafter : Blank after)
    {fields : List (String × Json)} (hne : fields ≠ [])
    (h : ∀ field ∈ fields, Spells field.2 (write field.2)) :
    SpellsFields fields
      (commaJoined (fields.map fun field =>
        before ++ quote field.1 ++ ':' :: between ++ write field.2) ++ after) := by
  induction fields with
  | nil => exact absurd rfl hne
  | cons field fields ih =>
    have hvalue := h field List.mem_cons_self
    have hrest := fun later hlater => h later (List.mem_cons_of_mem field hlater)
    cases fields with
    | nil => exact .last field.1 hvalue hbefore hbetween hafter
    | cons next fields =>
      have hlater := ih (List.cons_ne_nil next fields) hrest
      simpa [commaJoined] using SpellsFields.cons field.1 hvalue hbefore hbetween hlater

theorem compactItems_eq (items : List Json) :
    compactItems items = commaJoined (items.map fun item => [] ++ compactChars item) := by
  induction items with
  | nil => rfl
  | cons item items ih =>
    cases items with
    | nil => rfl
    | cons next items => simp [compactItems, commaJoined, ih]

theorem compactFields_eq (fields : List (String × Json)) :
    compactFields fields = commaJoined (fields.map fun field =>
      [] ++ quote field.1 ++ ':' :: [] ++ compactChars field.2) := by
  induction fields with
  | nil => rfl
  | cons field fields ih =>
    cases fields with
    | nil => simp [compactFields, commaJoined]
    | cons next fields => simp [compactFields, commaJoined, ih]

/-- The compact text of a value is a text of it. -/
theorem Plain.spells_compact {depth : Nat} {v : Json} (h : Plain depth v) :
    Spells v (compactChars v) := by
  induction h with
  | null => exact .null
  | bool b =>
    cases b with
    | false => exact .no
    | true => exact .yes
  | number n => exact .number n
  | string s => exact .string s
  | @array depth items _ ih =>
    cases items with
    | nil => exact .emptyArray
    | cons item items =>
      have hitems := spellsItems_joined blank_nil blank_nil (List.cons_ne_nil item items) ih
      rw [List.append_nil, ← compactItems_eq] at hitems
      exact .array hitems
  | @object depth fields _ ih =>
    cases fields with
    | nil => exact .emptyObject
    | cons field fields =>
      have hfields :=
        spellsFields_joined blank_nil blank_nil blank_nil (List.cons_ne_nil field fields) ih
      rw [List.append_nil, ← compactFields_eq] at hfields
      exact .object hfields

theorem prettyItems_eq (level : Nat) (items : List Json) :
    prettyItems level items =
      commaJoined (items.map fun item => newline level ++ prettyChars level item) := by
  induction items with
  | nil => rfl
  | cons item items ih =>
    cases items with
    | nil => rfl
    | cons next items => simp [prettyItems, commaJoined, ih]

theorem prettyFields_eq (level : Nat) (fields : List (String × Json)) :
    prettyFields level fields = commaJoined (fields.map fun field =>
      newline level ++ quote field.1 ++ ':' :: [' '] ++ prettyChars level field.2) := by
  induction fields with
  | nil => rfl
  | cons field fields ih =>
    cases fields with
    | nil => simp [prettyFields, commaJoined]
    | cons next fields => simp [prettyFields, commaJoined, ih]

/-- The text of a value on indented lines is a text of it, at whatever level it stands. -/
theorem Plain.spells_pretty {depth : Nat} {v : Json} (h : Plain depth v) (level : Nat) :
    Spells v (prettyChars level v) := by
  induction h generalizing level with
  | null => exact .null
  | bool b =>
    cases b with
    | false => exact .no
    | true => exact .yes
  | number n => exact .number n
  | string s => exact .string s
  | @array depth items _ ih =>
    cases items with
    | nil => exact .emptyArray
    | cons item items =>
      have hitems := spellsItems_joined (blank_newline (level + 1)) (blank_newline level)
        (List.cons_ne_nil item items) fun later hlater => ih later hlater (level + 1)
      rw [← prettyItems_eq] at hitems
      exact .array hitems
  | @object depth fields _ ih =>
    cases fields with
    | nil => exact .emptyObject
    | cons field fields =>
      have hfields := spellsFields_joined (blank_newline (level + 1)) blank_space
        (blank_newline level) (List.cons_ne_nil field fields)
        fun later hlater => ih later hlater (level + 1)
      rw [← prettyFields_eq] at hfields
      exact .object hfields

/-! ## Codecs -/

namespace Codec

/-- How deep arrays and objects may be nested in a text; readers give up below that. -/
def nestingLimit : Nat := 127

/-- What is written in either layout is read back. -/
structure RoundTrips (json : Codec) : Prop where
  compact {v : Json} (h : Plain nestingLimit v) : json.read? (json.compact v) = some v
  pretty {v : Json} (h : Plain nestingLimit v) : json.read? (json.pretty v) = some v

theorem roundTrips_strict : strict.RoundTrips where
  compact h := read?_of_spells h.spells_compact
  pretty h := read?_of_spells (h.spells_pretty 0)

end Codec

end TestLint.Json
