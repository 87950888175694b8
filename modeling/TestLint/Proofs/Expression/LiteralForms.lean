import TestLint.Proofs.Expression.LiteralValue

/-!
# Forms of literals

Of a plain literal (`IsPlain`) the constant is the value.  Other literals keep their differences
only among those of one form (`WrittenLiteral.Alike`): literals that are alike and have the same
constant have the same value (`WrittenLiteral.Alike.value_eq`).
-/

namespace TestLint

namespace WrittenLiteral

open Literal

/-- The literal of the kind is written in such a way that its constant is its value. -/
inductive IsPlain : String → List Char → Prop
  | null {text : List Char} : IsPlain "null_literal" text
  | bool {text : List Char} : IsPlain "boolean_literal" text
  | char {c : Char} (h : c ≠ '\\') : IsPlain "character_literal" ['\'', c, '\'']
  /-- An escape whose constant is the character that it stands for. -/
  | escaped {c : Char} (h : c ∈ ['n', 't', 'r', '0', '\'', '"', '\\']) :
      IsPlain "character_literal" ['\'', '\\', c, '\'']
  | regular {content : List Char} (h : '\\' ∉ content) :
      IsPlain "string_literal" ('"' :: (content ++ ['"']))
  | verbatim {content : List Char} (h : '"' ∉ content) :
      IsPlain "verbatim_string_literal" ('@' :: '"' :: (content ++ ['"']))
  /-- On one line, without blanks inside the quotes. -/
  | raw {content : List Char} (more : Nat) (hline : '\n' ∉ content)
      (hcontent : Text.Unpadded content) (hfirst : content.head? ≠ some '"')
      (hlast : content.getLast? ≠ some '"') :
      IsPlain "raw_string_literal"
        (List.replicate (more + 3) '"' ++ content ++ List.replicate (more + 3) '"')
  /-- On three lines, the one between those of the quotes without more blanks around it. -/
  | block {indentation content ending : List Char} (more : Nat) (hline : '\n' ∉ content)
      (hcontent : Text.Unpadded content) (hindentation : Text.AllBlank indentation)
      (hindentationLine : '\n' ∉ indentation) (hending : ending = [] ∨ ending = ['\r']) :
      IsPlain "raw_string_literal"
        (List.replicate (more + 3) '"' ++
          ['\n'].intercalate [ending, indentation ++ content ++ ending, indentation] ++
          List.replicate (more + 3) '"')

/-- The value that a constant is taken for. -/
def taken? : Constant → Option DataValue
  | .null => some .null
  | .bool b => some (.bool b)
  | .char c => some (.char c.toNat)
  | .string s => some (.string (Text.units16 s))
  | _ => none

end WrittenLiteral

/-! ## Plain literals -/

namespace Literal

variable {content : List Char}

theorem betweenQuotes?_eq (content : List Char) :
    betweenQuotes? ('"' :: (content ++ ['"'])) = some content := by
  have hdrop : Text.dropStart? ['"'] ('"' :: (content ++ ['"'])) = some (content ++ ['"']) :=
    Text.dropStart?_append ['"'] _
  rw [betweenQuotes?, hdrop, Option.bind_some, Text.dropEnd?_append]

/-- What stands between the quotes of a string that does not begin with three of them. -/
theorem stringContent_quoted (h : content.head? ≠ some '"') :
    stringContent ('"' :: (content ++ ['"'])) = content := by
  have hthree : ¬['"', '"', '"'].isPrefixOf ('"' :: (content ++ ['"'])) = true := by
    rw [List.isPrefixOf_iff_prefix]
    intro hprefix
    cases content with
    | nil => exact absurd hprefix.length_le (by decide)
    | cons c rest =>
      rw [List.cons_append, List.cons_prefix_cons, List.cons_prefix_cons] at hprefix
      exact h (by rw [List.head?_cons, ← hprefix.2.1])
  have hbody : ('"' :: (content ++ ['"'])).dropWhile (· == '@') = '"' :: (content ++ ['"']) :=
    List.dropWhile_cons_of_neg (by decide)
  have hinner := betweenQuotes?_eq content
  rw [betweenQuotes?] at hinner
  rw [stringContent, hbody]
  simp only [if_neg hthree, hinner, Option.getD_some]

theorem stringContent_verbatim (h : content.head? ≠ some '"') :
    stringContent ('@' :: '"' :: (content ++ ['"'])) = content := by
  have hquoted := stringContent_quoted h
  rw [stringContent] at hquoted ⊢
  rwa [List.dropWhile_cons_of_pos (by decide)]

/-- What stands between the quotes, without the blanks at both ends. -/
theorem stringContent_raw (more : Nat) (hne : content ≠ []) (hfirst : content.head? ≠ some '"')
    (hlast : content.getLast? ≠ some '"') :
    stringContent
      (List.replicate (more + 3) '"' ++ content ++ List.replicate (more + 3) '"') =
      Text.trim content := by
  obtain ⟨c, rest, rfl⟩ := List.exists_cons_of_ne_nil hne
  have hopen (cs : List Char) : (List.replicate (more + 3) '"' ++ cs).dropWhile (· == '@') =
      List.replicate (more + 3) '"' ++ cs :=
    List.dropWhile_cons_of_neg (by decide)
  have hthree (cs : List Char) :
      ['"', '"', '"'].isPrefixOf (List.replicate (more + 3) '"' ++ cs) = true := by
    rw [List.isPrefixOf_iff_prefix]
    exact ⟨List.replicate more '"' ++ cs, rfl⟩
  have hinner (cs : List Char) : (List.replicate (more + 3) '"' ++ (c :: rest ++ cs)).dropWhile
      (· == '"') = c :: rest ++ cs := by
    rw [List.dropWhile_append_of_pos fun d hd => by rw [List.eq_of_mem_replicate hd]; rfl]
    refine List.dropWhile_cons_of_neg ?_
    intro heq
    exact hfirst (congrArg some (eq_of_beq heq))
  rw [stringContent, List.append_assoc, hopen]
  simp only [hthree, if_true, hinner, (Text.dropEndWhile_eq_iff hlast).2 ⟨more + 3, rfl⟩]

/-- Without backslashes nothing is decoded. -/
theorem decode_eq {units : List Nat} (h : '\\' ∉ content) (hunits : decode 0 content = some units) :
    units = content.flatMap Text.unitsOf := by
  induction content generalizing units with
  | nil =>
    cases hunits
    rfl
  | cons c rest ih =>
    have hc : c ≠ '\\' := fun heq => h (heq ▸ List.mem_cons_self)
    rw [decode, if_neg (by decide), if_neg hc] at hunits
    split at hunits
    · cases hunits
    · obtain ⟨more, hmore, rfl⟩ := Option.map_eq_some_iff.1 hunits
      rw [List.flatMap_cons, ← ih (fun hmem => h (List.mem_cons_of_mem c hmem)) hmore]

theorem head?_of_decode {units : List Nat} (h : decode 0 content = some units) :
    content.head? ≠ some '"' := by
  cases content with
  | nil => exact nofun
  | cons c rest =>
    rw [List.head?_cons]
    rintro ⟨⟩
    rw [decode, if_neg (by decide), if_neg (by decide), if_pos (.inl rfl)] at h
    cases h

theorem verbatimContent?_eq (h : '"' ∉ content) : verbatimContent? content = some content := by
  induction content with
  | nil => rfl
  | cons c rest ih =>
    obtain ⟨hc, hrest⟩ : c ≠ '"' ∧ '"' ∉ rest := by
      exact ⟨fun heq => h (heq ▸ List.mem_cons_self), fun hmem => h (List.mem_cons_of_mem c hmem)⟩
    rw [verbatimContent?, ih hrest, Option.map_some]
    · exact fun _ heq => absurd heq hc
    · exact fun heq => absurd heq hc

theorem rawContent?_eq (more : Nat) (hne : content ≠ []) (hfirst : content.head? ≠ some '"') :
    rawContent? (List.replicate (more + 3) '"' ++ content ++ List.replicate (more + 3) '"') =
      if content.contains '\n' then rawLines? content else some content := by
  have hquotes (cs : List Char) : (List.replicate (more + 3) '"' ++ (content ++ cs)).takeWhile
      (· == '"') = List.replicate (more + 3) '"' := by
    rw [List.takeWhile_append_of_pos fun d hd => by rw [List.eq_of_mem_replicate hd]; rfl]
    obtain ⟨c, rest, rfl⟩ := List.exists_cons_of_ne_nil hne
    rw [List.cons_append, List.takeWhile_cons_of_neg, List.append_nil]
    intro heq
    exact hfirst (congrArg some (eq_of_beq heq))
  rw [rawContent?, List.append_assoc, hquotes]
  have hlength : ¬(List.replicate (more + 3) '"').length < 3 := by
    rw [List.length_replicate]
    omega
  simp only [if_neg hlength, List.drop_left, Text.dropEnd?_append, Option.bind_some]

section Block

variable {indentation ending : List Char}

theorem dropEndWhile_returns {cs : List Char} (hne : cs ≠ [])
    (hlast : ∀ c ∈ cs.getLast?, Text.isBlank c = false) (hending : ending = [] ∨ ending = ['\r']) :
    Text.dropEndWhile (· == '\r') (cs ++ ending) = cs := by
  have hreturns : Text.dropEndWhile (· == '\r') ending = [] := by
    rcases hending with rfl | rfl <;> rfl
  rw [Text.dropEndWhile_append hne, hreturns, List.append_nil]
  intro c hc
  rw [beq_eq_false_iff_ne]
  rintro rfl
  exact absurd (hlast _ hc) (by decide)

theorem unindented?_eq (hcontent : Text.Unpadded content)
    (hending : ending = [] ∨ ending = ['\r']) :
    unindented? indentation (indentation ++ content ++ ending) = some (content ++ ending) := by
  have hwritten : Text.dropEndWhile (· == '\r') (indentation ++ content ++ ending) =
      indentation ++ content := by
    refine dropEndWhile_returns (List.append_ne_nil_of_right_ne_nil _ hcontent.ne_nil) ?_ hending
    rw [List.getLast?_append_of_ne_nil _ hcontent.ne_nil]
    exact hcontent.last
  have hblank : ¬(indentation ++ content).all Text.isBlank = true := by
    obtain ⟨c, rest, rfl⟩ := List.exists_cons_of_ne_nil hcontent.ne_nil
    intro hall
    have hc := List.all_eq_true.1 hall c (by simp)
    rw [hcontent.first c rfl] at hc
    cases hc
  rw [unindented?, hwritten]
  simp only [if_neg hblank, List.drop_left, Text.dropStart?_append, Option.map_some]

theorem rawLines?_eq (hline : '\n' ∉ content)
    (hcontent : Text.Unpadded content) (hindentation : Text.AllBlank indentation)
    (hindentationLine : '\n' ∉ indentation) (hending : ending = [] ∨ ending = ['\r']) :
    rawLines? (['\n'].intercalate [ending, indentation ++ content ++ ending, indentation]) =
      some content := by
  have hendingLine : '\n' ∉ ending := by
    rcases hending with rfl | rfl <;> decide
  have hsplit : (['\n'].intercalate [ending, indentation ++ content ++ ending,
      indentation]).splitOn '\n' = [ending, indentation ++ content ++ ending, indentation] := by
    refine List.splitOn_intercalate '\n' ?_ (by simp)
    simp [hendingLine, hline, hindentationLine]
  have hblank : (ending.all Text.isBlank && indentation.all Text.isBlank) = true := by
    rw [Bool.and_eq_true]
    refine ⟨?_, List.all_eq_true.2 hindentation⟩
    rcases hending with rfl | rfl <;> decide
  rw [rawLines?, hsplit]
  simp only [List.reverse_cons, List.reverse_nil, List.nil_append, List.cons_append, hblank,
    if_true, List.mapM_cons, List.mapM_nil, unindented?_eq hcontent hending]
  have hcut := dropEndWhile_returns hcontent.ne_nil hcontent.last hending
  refine congrArg some ?_
  dsimp only
  rw [List.intercalate_singleton, hcut]

/-- The content of a block stands between two equal runs of blanks. -/
theorem block_eq (content : List Char) :
    ['\n'].intercalate [ending, indentation ++ content ++ ending, indentation] =
      (ending ++ '\n' :: indentation) ++ content ++ (ending ++ '\n' :: indentation) := by
  simp [List.intercalate, List.intersperse]

theorem allBlank_break (hindentation : Text.AllBlank indentation)
    (hending : ending = [] ∨ ending = ['\r']) : Text.AllBlank (ending ++ '\n' :: indentation) := by
  have hbreak : Text.AllBlank ('\n' :: indentation) := by
    intro c hc
    rcases List.mem_cons.1 hc with rfl | hc
    · rfl
    · exact hindentation c hc
  refine Text.AllBlank.append ?_ hbreak
  rcases hending with rfl | rfl
  · exact .nil
  · exact List.forall_mem_singleton.2 rfl

/-- No quote stands at an end of a text with blanks around it. -/
theorem ends_of_allBlank {blanks : List Char} (hne : blanks ≠ []) (h : Text.AllBlank blanks) :
    blanks ++ content ++ blanks ≠ [] ∧ (blanks ++ content ++ blanks).head? ≠ some '"' ∧
      (blanks ++ content ++ blanks).getLast? ≠ some '"' := by
  have hquote : '"' ∉ blanks := fun hmem => absurd (h _ hmem) (by decide)
  refine ⟨List.append_ne_nil_of_right_ne_nil _ hne, ?_, ?_⟩
  · rw [List.append_assoc, List.head?_append_of_ne_nil _ hne]
    exact fun h => hquote (List.mem_of_mem_head? h)
  · rw [List.getLast?_append_of_ne_nil _ hne]
    exact fun h => hquote (List.mem_of_getLast? h)

theorem rawContent?_block (more : Nat) (hline : '\n' ∉ content) (hcontent : Text.Unpadded content)
    (hindentation : Text.AllBlank indentation) (hindentationLine : '\n' ∉ indentation)
    (hending : ending = [] ∨ ending = ['\r']) :
    rawContent? (List.replicate (more + 3) '"' ++
      ['\n'].intercalate [ending, indentation ++ content ++ ending, indentation] ++
      List.replicate (more + 3) '"') = some content := by
  have hlines := rawLines?_eq hline hcontent hindentation hindentationLine hending
  rw [block_eq] at hlines ⊢
  have hblank := allBlank_break hindentation hending
  have hbreak : '\n' ∈ ending ++ '\n' :: indentation := by simp
  obtain ⟨hne, hfirst, -⟩ := @ends_of_allBlank content _ (List.ne_nil_of_mem hbreak) hblank
  have hcontains : (ending ++ '\n' :: indentation ++ content ++
      (ending ++ '\n' :: indentation)).contains '\n' = true :=
    List.contains_iff_mem.2 (List.mem_append_right _ hbreak)
  rw [rawContent?_eq more hne hfirst, if_pos hcontains, hlines]

theorem stringContent_block (more : Nat) (hcontent : Text.Unpadded content)
    (hindentation : Text.AllBlank indentation) (hending : ending = [] ∨ ending = ['\r']) :
    stringContent (List.replicate (more + 3) '"' ++
      ['\n'].intercalate [ending, indentation ++ content ++ ending, indentation] ++
      List.replicate (more + 3) '"') = content := by
  have hblank := allBlank_break hindentation hending
  have hpad : ending ++ '\n' :: indentation ≠ [] := by simp
  obtain ⟨hne, hfirst, hlast⟩ := @ends_of_allBlank content _ hpad hblank
  rw [block_eq, stringContent_raw more hne hfirst hlast, hcontent.trim_append hblank hblank]

end Block

end Literal

namespace WrittenLiteral

open Literal

theorem betweenApostrophes (inner : List Char) :
    (Text.dropStart? ['\''] ('\'' :: (inner ++ ['\'']))).bind (Text.dropEnd? ['\'']) =
      some inner := by
  have hdrop : Text.dropStart? ['\''] ('\'' :: (inner ++ ['\''])) = some (inner ++ ['\'']) :=
    Text.dropStart?_append ['\''] _
  rw [hdrop, Option.bind_some, Text.dropEnd?_append]

theorem charUnit?_char {c : Char} (hc : c ≠ '\\') {unit : Nat}
    (h : charUnit? ['\'', c, '\''] = some unit) :
    character? ['\'', c, '\''] = some c ∧ unit = c.toNat := by
  have hinner := betweenApostrophes [c]
  rw [List.singleton_append] at hinner
  obtain ⟨rest, hrest, hend⟩ := Option.bind_eq_some_iff.1 hinner
  constructor
  · simp only [character?, Option.bind_eq_bind, hrest, Option.bind_some, hend]
  · simp only [charUnit?, Option.bind_eq_bind, hinner, Option.bind_some] at h
    split at h
    · cases h
    · exact (Option.some.inj h).symm

theorem escaped_taken {c : Char} (hc : c ∈ ['n', 't', 'r', '0', '\'', '"', '\\']) :
    (character? ['\'', '\\', c, '\'']).map Char.toNat = charUnit? ['\'', '\\', c, '\''] := by
  simp only [List.mem_cons, List.not_mem_nil, or_false] at hc
  rcases hc with rfl | rfl | rfl | rfl | rfl | rfl | rfl <;> decide

/-- A plain literal is taken for its value. -/
theorem IsPlain.taken {kind text : String} (h : IsPlain kind text.toList) {v : DataValue}
    (hv : value? ⟨false, kind, text⟩ = some v) : taken? (bareConstant kind text) = some v := by
  generalize hcs : text.toList = cs at h
  cases h with
  | null =>
    cases hv
    rfl
  | bool =>
    rw [value?_boolean] at hv
    split at hv
    case isTrue h =>
      cases hv
      rw [h]
      rfl
    case isFalse =>
      split at hv
      case isTrue h =>
        cases hv
        rw [h]
        rfl
      case isFalse => cases hv
  | char h =>
    rw [value?_character, hcs] at hv
    obtain ⟨unit, hunit, rfl⟩ := Option.map_eq_some_iff.1 hv
    obtain ⟨hchar, rfl⟩ := charUnit?_char h hunit
    simp only [bareConstant, hcs, hchar, Option.map_some, Option.getD_some, taken?]
  | escaped h =>
    rw [value?_character, hcs, ← escaped_taken h] at hv
    obtain ⟨unit, hunit, rfl⟩ := Option.map_eq_some_iff.1 hv
    obtain ⟨c, hchar, rfl⟩ := Option.map_eq_some_iff.1 hunit
    simp only [bareConstant, hcs, hchar, Option.map_some, Option.getD_some, taken?]
  | regular h =>
    rw [value?_regular, hcs, regularUnits?, betweenQuotes?_eq, Option.bind_some] at hv
    obtain ⟨units, hunits, rfl⟩ := Option.map_eq_some_iff.1 hv
    simp only [bareConstant, hcs, stringContent_quoted (head?_of_decode hunits), taken?,
      decode_eq h hunits, Text.units16, String.toList_ofList]
  | verbatim h =>
    have hdrop (rest : List Char) : Text.dropStart? ['@'] ('@' :: rest) = some rest :=
      Text.dropStart?_append ['@'] rest
    rw [value?_verbatim, hcs] at hv
    simp only [verbatimUnits?, hdrop, Option.bind_eq_bind, Option.bind_some, betweenQuotes?_eq,
      verbatimContent?_eq h, Option.map_some, Option.some.injEq] at hv
    have hhead : ∀ content : List Char, '"' ∉ content → content.head? ≠ some '"' :=
      fun content h heq => h (List.mem_of_mem_head? heq)
    simp only [bareConstant, hcs, stringContent_verbatim (hhead _ h), taken?, ← hv, Text.units16,
      String.toList_ofList]
  | raw more hline hcontent hfirst hlast =>
    rw [value?_raw, hcs, rawUnits?, rawContent?_eq more hcontent.ne_nil hfirst, if_neg (by
      rwa [List.contains_iff_mem]), Option.map_some, Option.map_some, Option.some.injEq] at hv
    simp only [bareConstant, hcs, stringContent_raw more hcontent.ne_nil hfirst hlast,
      hcontent.trim_eq, taken?, ← hv, Text.units16, String.toList_ofList]
  | block more hline hcontent hindentation hindentationLine hending =>
    rw [value?_raw, hcs, rawUnits?,
      rawContent?_block more hline hcontent hindentation hindentationLine hending,
      Option.map_some, Option.map_some, Option.some.injEq] at hv
    simp only [bareConstant, hcs, stringContent_block more hcontent hindentation hending, taken?,
      ← hv, Text.units16, String.toList_ofList]

theorem taken?_congr {c c' : Constant} (h : Constant.same c c' = true) : taken? c = taken? c' := by
  unfold Constant.same at h
  split at h
  case h_2 | h_5 | h_6 => rw [beq_iff_eq.1 h]
  case h_13 => cases h
  all_goals rfl

/-! ## Literals that are alike -/

/-- The number that a real literal spells, with its sign. -/
def spelledNumber? (l : WrittenLiteral) : Option ℚ :=
  (realDecimal? l.text.toList).map fun (d, _) => if l.isNegated then -d.number else d.number

/-- The literals are written in such ways that different values have different constants. -/
inductive Alike : WrittenLiteral → WrittenLiteral → Prop
  | same (l : WrittenLiteral) : Alike l l
  | plain {kind kind' text text' : String} (h : IsPlain kind text.toList)
      (h' : IsPlain kind' text'.toList) : Alike ⟨false, kind, text⟩ ⟨false, kind', text'⟩
  | regular (text text' : String) :
      Alike ⟨false, "string_literal", text⟩ ⟨false, "string_literal", text'⟩
  | verbatim {content content' : List Char} (h : content.head? ≠ some '"')
      (h' : content'.head? ≠ some '"') :
      Alike ⟨false, "verbatim_string_literal", String.ofList ('@' :: '"' :: (content ++ ['"']))⟩
        ⟨false, "verbatim_string_literal", String.ofList ('@' :: '"' :: (content' ++ ['"']))⟩
  | integers {l l' : WrittenLiteral} {type : IntegerType} {i j : Int}
      (h : l.value? = some (.integer type i)) (h' : l'.value? = some (.integer type j)) : Alike l l'
  | doubles {l l' : WrittenLiteral} {b b' : UInt64} (h : l.value? = some (.double b))
      (h' : l'.value? = some (.double b')) : Alike l l'
  /-- Reals of any type that spell one number, such as `1f` and `1.0F`. -/
  | reals {l l' : WrittenLiteral} (hkind : l.kind = "real_literal")
      (hkind' : l'.kind = "real_literal") (h : l.spelledNumber? = l'.spelledNumber?) : Alike l l'

theorem betweenQuotes?_eq_some {text content : List Char} (h : betweenQuotes? text = some content) :
    text = '"' :: (content ++ ['"']) := by
  obtain ⟨rest, hrest, hcontent⟩ := Option.bind_eq_some_iff.1 h
  rw [Text.dropStart?_eq_some_iff.1 hrest, Text.dropEnd?_eq_some hcontent]
  rfl

/-- A regular string is kept as it is written. -/
theorem regular_constant {text : String} {v : DataValue}
    (hv : value? ⟨false, "string_literal", text⟩ = some v) :
    ∃ content, text = String.ofList ('"' :: (content ++ ['"'])) ∧
      constant ⟨false, "string_literal", text⟩ = .string (String.ofList content) := by
  rw [value?_regular, Option.map_eq_some_iff] at hv
  obtain ⟨units, hunits, -⟩ := hv
  obtain ⟨content, hcontent, hunits⟩ := Option.bind_eq_some_iff.1 hunits
  have htext := betweenQuotes?_eq_some hcontent
  refine ⟨content, by rw [← htext, String.ofList_toList], ?_⟩
  rw [constant_eq]
  refine congrArg (fun cs => Constant.string (String.ofList cs)) ?_
  rw [htext, stringContent_quoted (head?_of_decode hunits)]

theorem verbatim_constant {content : List Char} (h : content.head? ≠ some '"') :
    constant ⟨false, "verbatim_string_literal", String.ofList ('@' :: '"' :: (content ++ ['"']))⟩ =
      .string (String.ofList content) := by
  refine congrArg (fun cs => Constant.string (String.ofList cs)) ?_
  rw [String.toList_ofList, stringContent_verbatim h]

/-- The values that literals of a kind have. -/
inductive Gives : String → DataValue → Prop
  | null : Gives "null_literal" .null
  | bool (b : Bool) : Gives "boolean_literal" (.bool b)
  | integer (type : IntegerType) (i : Int) : Gives "integer_literal" (.integer type i)
  | double (bits : UInt64) : Gives "real_literal" (.double bits)
  | float (number : ℚ) : Gives "real_literal" (.float number)
  | decimal (number : ℚ) : Gives "real_literal" (.decimal number)
  | char (unit : Nat) : Gives "character_literal" (.char unit)
  | regular (units : List Nat) : Gives "string_literal" (.string units)
  | verbatim (units : List Nat) : Gives "verbatim_string_literal" (.string units)
  | raw (units : List Nat) : Gives "raw_string_literal" (.string units)

theorem gives_of_integer {isNegated : Bool} {text : List Char} {v : DataValue}
    (h : integerValue? isNegated text = some v) : Gives "integer_literal" v := by
  simp only [integerValue?, Option.bind_eq_bind, Option.bind_eq_some_iff] at h
  obtain ⟨n, -, h⟩ := h
  split at h
  all_goals
    obtain ⟨type, -, rfl⟩ := Option.map_eq_some_iff.1 h
    exact .integer type _

theorem gives_of_real {isNegated : Bool} {text : List Char} {v : DataValue}
    (h : realValue? isNegated text = some v) : Gives "real_literal" v := by
  obtain ⟨⟨d, ending⟩, -, hvalue⟩ := Option.map_eq_some_iff.1 h
  dsimp only at hvalue
  split at hvalue
  · exact hvalue ▸ .float _
  · exact hvalue ▸ .decimal _
  · exact hvalue ▸ .double _

theorem gives_of_value {l : WrittenLiteral} {v : DataValue} (h : l.value? = some v) :
    Gives l.kind v := by
  unfold value? at h
  dsimp only at h
  split at h
  case h_1 hkind => exact hkind ▸ gives_of_integer h
  case h_2 hkind => exact hkind ▸ gives_of_real h
  case h_3 =>
    split at h
    case isTrue => cases h
    case isFalse =>
      split at h
      case h_1 hkind =>
        cases h
        exact hkind ▸ .null
      case h_2 hkind =>
        split at h
        · cases h
          exact hkind ▸ .bool true
        · split at h
          · cases h
            exact hkind ▸ .bool false
          · cases h
      case h_7 => cases h
      all_goals
        rename_i hkind
        obtain ⟨_, -, rfl⟩ := Option.map_eq_some_iff.1 h
        rw [hkind]
        constructor

theorem integer_constant {l : WrittenLiteral} {type : IntegerType} {i : Int}
    (h : l.value? = some (.integer type i)) : l.constant = .integer i := by
  obtain ⟨isNegated, kind, text⟩ := l
  obtain rfl : "integer_literal" = kind := by
    cases gives_of_value h
    rfl
  rw [value?_integer] at h
  simp only [integerValue?, Option.bind_eq_bind, Option.bind_eq_some_iff] at h
  obtain ⟨n, hn, h⟩ := h
  have hbare : bareConstant "integer_literal" text = .integer n := by
    simp only [bareConstant, hn, Option.map_some, Option.getD_some]
  rw [constant]
  dsimp only
  rw [hbare]
  cases isNegated
  all_goals
    obtain ⟨_, -, hvalue⟩ := Option.map_eq_some_iff.1 h
    cases hvalue
    rfl

/-- The value of a real number: its ending tells its type. -/
def realOf (ending : Option Char) (number : ℚ) (bits : UInt64) : DataValue :=
  match ending with
  | some 'f' => .float number
  | some 'm' => .decimal number
  | _ => .double (zeroless bits)

/-- The constant of a real literal keeps the ending and the bits, and the value has nothing more
than these and the number that is spelled. -/
theorem real_constant {l : WrittenLiteral} (hkind : l.kind = "real_literal") {v : DataValue}
    (h : l.value? = some v) : ∃ bits ending number, l.constant = .real bits ending ∧
      l.spelledNumber? = some number ∧ v = realOf ending number bits := by
  obtain ⟨isNegated, kind, text⟩ := l
  obtain rfl : kind = "real_literal" := hkind
  rw [value?_real] at h
  obtain ⟨⟨d, ending⟩, hreal, hvalue⟩ := Option.map_eq_some_iff.1 h
  have hbare : bareConstant "real_literal" text = .real d.bits ending := by
    simp only [bareConstant, real?_eq, hreal, Option.map_some]
  refine ⟨if isNegated then negateBits d.bits else d.bits, ending,
    if isNegated then -d.number else d.number, ?_, ?_, ?_⟩
  · rw [constant]
    dsimp only
    rw [hbare]
    cases isNegated with
    | false => rw [if_neg Bool.false_ne_true, if_neg Bool.false_ne_true]
    | true => rw [if_pos rfl, if_pos rfl, negated]
  · rw [spelledNumber?, hreal, Option.map_some]
  · dsimp only at hvalue
    rw [← hvalue]
    split
    · rfl
    · rfl
    · rw [realOf] <;> assumption

theorem double_constant {l : WrittenLiteral} {b : UInt64} (h : l.value? = some (.double b)) :
    ∃ bits ending, l.constant = .real bits ending ∧ zeroless bits = b := by
  have hkind : l.kind = "real_literal" := by
    have hgives := gives_of_value h
    generalize l.kind = kind at hgives
    cases hgives
    rfl
  obtain ⟨bits, ending, number, hconstant, -, hvalue⟩ := real_constant hkind h
  refine ⟨bits, ending, hconstant, ?_⟩
  unfold realOf at hvalue
  split at hvalue
  · cases hvalue
  · cases hvalue
  · exact (DataValue.double.inj hvalue).symm

/-- The constant of a literal that has a number as its value is a number. -/
theorem exists_number {l : WrittenLiteral} {v : DataValue} (h : l.value? = some v)
    (hkind : l.kind = "integer_literal" ∨ l.kind = "real_literal") :
    (∃ n, bareConstant l.kind l.text = .integer n) ∨
      ∃ bits ending, bareConstant l.kind l.text = .real bits ending := by
  obtain ⟨isNegated, kind, text⟩ := l
  obtain rfl | rfl : kind = "integer_literal" ∨ kind = "real_literal" := hkind
  · rw [value?_integer] at h
    simp only [integerValue?, Option.bind_eq_bind, Option.bind_eq_some_iff] at h
    obtain ⟨n, hn, -⟩ := h
    exact .inl ⟨n, by simp only [bareConstant, hn, Option.map_some, Option.getD_some]⟩
  · rw [value?_real] at h
    obtain ⟨⟨d, ending⟩, hreal, -⟩ := Option.map_eq_some_iff.1 h
    exact .inr ⟨d.bits, ending, by simp only [bareConstant, real?_eq, hreal, Option.map_some]⟩

/-- Literals that are alike and have the same constant have the same value. -/
theorem Alike.value_eq {l l' : WrittenLiteral} (h : l.Alike l') {v v' : DataValue}
    (hv : l.value? = some v) (hv' : l'.value? = some v')
    (hsame : Constant.same l.constant l'.constant = true) : v = v' := by
  cases h with
  | same => exact Option.some.inj (hv.symm.trans hv')
  | plain h h' =>
    -- each of the constants tells the value
    rw [constant_eq, constant_eq] at hsame
    refine Option.some.inj ?_
    rw [← h.taken hv, ← h'.taken hv']
    exact taken?_congr hsame
  | regular text text' =>
    obtain ⟨content, rfl, hconstant⟩ := regular_constant hv
    obtain ⟨content', rfl, hconstant'⟩ := regular_constant hv'
    rw [hconstant, hconstant', Constant.same, beq_iff_eq] at hsame
    rw [String.ofList_inj] at hsame
    rw [hsame] at hv
    exact Option.some.inj (hv.symm.trans hv')
  | verbatim h h' =>
    rw [verbatim_constant h, verbatim_constant h', Constant.same, beq_iff_eq,
      String.ofList_inj] at hsame
    rw [hsame] at hv
    exact Option.some.inj (hv.symm.trans hv')
  | integers h h' =>
    rw [integer_constant h, integer_constant h', Constant.same, beq_iff_eq] at hsame
    cases h.symm.trans hv
    cases h'.symm.trans hv'
    rw [hsame]
  | doubles h h' =>
    obtain ⟨bits, ending, hconstant, rfl⟩ := double_constant h
    obtain ⟨bits', ending', hconstant', rfl⟩ := double_constant h'
    rw [hconstant, hconstant', Constant.same, Bool.and_eq_true] at hsame
    cases h.symm.trans hv
    cases h'.symm.trans hv'
    rw [zeroless_eq_of_sameReal hsame.1]
  | reals hkind hkind' h =>
    obtain ⟨bits, ending, number, hconstant, hnumber, rfl⟩ := real_constant hkind hv
    obtain ⟨bits', ending', number', hconstant', hnumber', rfl⟩ := real_constant hkind' hv'
    rw [hconstant, hconstant', Constant.same, Bool.and_eq_true, beq_iff_eq] at hsame
    obtain rfl : number = number' := Option.some.inj (hnumber.symm.trans (h.trans hnumber'))
    obtain ⟨hbits, rfl⟩ := hsame
    simp only [realOf, zeroless_eq_of_sameReal hbits]

end WrittenLiteral

end TestLint
