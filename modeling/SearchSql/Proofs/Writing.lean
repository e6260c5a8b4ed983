import SearchSql.Proofs.LeafReading

/-!
# How written trees lex

The written form of a tree lexes to the tokens of its outline, if these can be read back: nothing
that is written behind a token runs into it. `Expr.lexes_render` says so for expressions,
`Query.lexes_render` for queries.
-/

set_option autoImplicit false

namespace SearchSql

open Token Number

variable {a b : String} {as bs : List Token}

/-! ## Fixed words and spaces -/

/-- Two texts that are written as one. -/
theorem Opens.append_as (ha : Opens a as) (hb : Opens b bs) (text : String) (h : text = a ++ b) :
    Opens text (as ++ bs) := h ▸ ha.append hb

/-- Reserved words with a space behind each. -/
theorem opens_words (text : String) (words : List Keyword) (h : text = phrase words) :
    Opens text (words.map ofKeyword) := h ▸ opens_phrase words

/-- Reserved words behind a text, with a space on either side of each. -/
theorem Lexes.phrased (ha : Lexes a as) (text : String) (words : List Keyword)
    (h : text = " " ++ phrase words) : Opens (a ++ text) (as ++ words.map ofKeyword) :=
  h ▸ ha.words words

/-- A token stops in front of a comma. -/
theorem Lexes.comma (ha : Lexes a as) : Opens (a ++ ", ") (as ++ [ofSymbol .comma]) :=
  ha.opens (b := ", ") (opens_symbol_space .comma) fun _ => stops_cons (c := ',') (by decide) _

/-- A symbol behind a text, with a space on either side. -/
theorem Lexes.spaced (ha : Lexes a as) (sign : Symbol) :
    Opens (a ++ " " ++ sign.text ++ " ") (as ++ [ofSymbol sign]) := by
  rw [show a ++ " " ++ sign.text ++ " " = a ++ " " ++ (sign.text ++ " ") from String.append_assoc]
  exact ha.space.append (opens_symbol_space sign)

/-- It stops in front of a sign between spaces. -/
theorem Lexes.sign (ha : Lexes a as) (text : String) (sign : Symbol)
    (h : text = " " ++ (sign.text ++ " ")) : Opens (a ++ text) (as ++ [ofSymbol sign]) := by
  rw [h, ← String.append_assoc]
  exact ha.space.append (opens_symbol_space sign)

/-- What stands behind a space may stand behind others. -/
theorem Lexes.trails_space (hb : Lexes b bs) : Trails (" " ++ b) bs :=
  Lexes.trails (c := ' ') (by decide) (opens_space.lexes_append hb)

/-- Reserved words may stand behind others with a space in front. -/
theorem trails_phrased (hb : Lexes b bs) (text : String) (words : List Keyword)
    (h : text = " " ++ phrase words) : Trails (text ++ b) (words.map ofKeyword ++ bs) := by
  rw [h, String.append_assoc]
  exact ((opens_phrase words).lexes_append hb).trails_space

theorem trails_comma (hb : Lexes b bs) : Trails (", " ++ b) (ofSymbol .comma :: bs) := by
  have hcomma : ", " ++ b = "," ++ (" " ++ b) := by
    rw [← String.append_assoc]
    rfl
  have hlexes : Lexes ("," ++ (" " ++ b)) (ofSymbol .comma :: bs) :=
    hcomma ▸ (opens_symbol_space .comma).lexes_append hb
  rw [hcomma]
  exact Lexes.trails (c := ',') (by decide) hlexes

/-- A word that is known by its spelling. -/
theorem lexes_word {text : String} (h : Ident.isBareForm text.toList = true) :
    Lexes text [(Mark.word text).token] := fun _ hcs => tokensOf_bare h hcs.namePart

/-! ## Outlines that are written -/

/-- The text lexes to the tokens of the outline where a token stops behind it. -/
def Writes (text : String) (items : List Item) : Prop := Lexes text (writtenTokens items)

/-- A text that lexes to the tokens of an outline writes the outline. -/
theorem Writes.of_lexes {text : String} {tokens : List Token} {items : List Item}
    (h : Lexes text tokens) (heq : writtenTokens items = tokens) : Writes text items := by
  unfold Writes
  rwa [heq]

@[simp] theorem Mark.token_keyword (word : Keyword) : (Mark.keyword word).token = ofKeyword word :=
  rfl

@[simp] theorem Mark.token_symbol (sign : Symbol) : (Mark.symbol sign).token = ofSymbol sign := rfl

@[simp] theorem Mark.token_string (value : String) : (Mark.string value).token = ofString value :=
  rfl

/-- Texts with commas between them write their outlines with commas between those. -/
theorem writes_commaSeparated {texts : List String} {outlines : List (List Item)}
    (h : List.Forall₂ Writes texts outlines) :
    Writes (commaSeparated texts) (separated .comma outlines) := by
  cases h with
  | nil => exact opens_nil.lexes
  | @cons text items texts outlines hfirst hrest =>
    -- The texts behind the first have a comma in front of each.
    suffices hall : ∀ first firstItems, Writes first firstItems →
        Writes (", ".intercalate (first :: texts))
          (firstItems ++ outlines.flatMap (.symbol .comma :: ·)) from hall text items hfirst
    induction hrest with
    | nil =>
      intro first firstItems hfirst
      simpa using hfirst
    | @cons text items texts outlines htext _ ih =>
      intro first firstItems hfirst
      rw [String.intercalate_cons_cons]
      exact .of_lexes (hfirst.comma.lexes_append (ih text items htext)) (by simp)

/-- Texts that may stand one behind the other. -/
theorem trails_join {α : Type} {render : α → String} {outline : α → List Item} {xs : List α}
    (h : ∀ x ∈ xs, Trails (render x) (writtenTokens (outline x))) :
    Trails (String.join (xs.map render)) (writtenTokens (xs.flatMap outline)) := by
  induction xs with
  | nil => exact trails_nil
  | cons x xs ih =>
    obtain ⟨hx, hxs⟩ := List.forall_mem_cons.1 h
    simpa using hx.append (ih hxs)

/-! ## Names -/

/-- Whether the text lexes to the outline also in front of a dot. -/
def WritesName (text : String) (items : List Item) : Prop :=
  ∀ cs, (∀ c ∈ cs.head?, c ∈ '.' :: stopChars) →
    tokensOf (text.toList ++ cs) = writtenTokens items ++ tokensOf cs

/-- What is read alike in front of a dot is read alike where a token stops. -/
theorem WritesName.writes {text : String} {items : List Item} (h : WritesName text items) :
    Writes text items := fun cs hcs => h cs fun c hc => List.mem_cons_of_mem _ (hcs c hc)

/-- What no dot and no stop satisfies, the text behind a name does not start with. -/
theorem head_of_dot_or_stop {cs : List Char} (h : ∀ c ∈ cs.head?, c ∈ '.' :: stopChars)
    {p : Char → Bool} (hp : ('.' :: stopChars).all (fun c => !p c) = true) :
    ∀ c ∈ cs.head?, p c = false := by
  intro c hc
  have hall := List.all_eq_true.1 hp c (h c hc)
  simpa using hall

/-- A dot in front of anything but a digit is a token. -/
theorem tokensOf_dot {cs : List Char} (h : ∀ c ∈ cs.head?, c.isDigit = false) :
    tokensOf ('.' :: cs) = ofSymbol .dot :: tokensOf cs :=
  tokensOf_symbol (c := '.') rfl rfl (fun _ => h) fun _ _ => rfl

/-- A bare name in front of a dot. -/
theorem writesName_bare {name : String} (h : IsName name) :
    WritesName name [.mark (.name name true)] :=
  fun _ hcs => tokensOf_name h (head_of_dot_or_stop hcs (by decide))

/-- A name in backticks is read as itself in front of anything. -/
theorem writesName_quoted {name : String} (h : name ≠ "") :
    WritesName (Text.backticked name) [.mark (.name name false)] := by
  intro cs hcs
  refine tokensOf_backticked h fun heq => ?_
  exact absurd (hcs _ heq) (by decide)

/-- A name with its dot in front. -/
theorem WritesName.dotted {text : String} {items : List Item} (h : WritesName text items)
    (hhead : ∀ cs, ∀ c ∈ (text.toList ++ cs).head?, c.isDigit = false) :
    WritesName ("." ++ text) (.symbol .dot :: items) := by
  intro cs hcs
  rw [String.toList_append, List.append_assoc]
  show tokensOf ('.' :: (text.toList ++ cs)) = _
  rw [tokensOf_dot (hhead cs), h cs hcs]
  rfl

/-- A name starts with no digit. -/
theorem head_of_isName {name : String} (h : IsName name) (cs : List Char) :
    ∀ c ∈ (name.toList ++ cs).head?, c.isDigit = false := by
  have hform := h.1
  cases hchars : name.toList with
  | nil =>
    rw [hchars] at hform
    cases hform
  | cons d ds =>
    rw [hchars] at hform
    rintro c ⟨⟩
    exact isDigit_of_isNameStart (Bool.and_eq_true_iff.1 hform).1

namespace Ident

/-- An identifier that can be read back is written with the tokens of its outline. -/
theorem writes_render {name : Ident} (h : Legible name.outline) :
    WritesName name.render name.outline := by
  unfold outline at h ⊢
  unfold render
  cases hbare : name.isBare with
  | false =>
    simp only [hbare, Bool.false_eq_true, if_false, legible_cons] at h ⊢
    exact writesName_quoted h.2.1
  | true =>
    simp only [hbare, if_true, legible_cons] at h ⊢
    obtain ⟨-, h⟩ := h
    split at h
    · next cs heq =>
      simp only [legible_cons] at h
      have hvalue : name.value = "." ++ String.ofList cs := by
        rw [← String.toList_inj, heq]
        simp
      rw [hvalue]
      exact (writesName_bare h.2.1).dotted (head_of_isName h.2.1)
    · exact writesName_bare (legible_cons.1 h).1

/-- No identifier is written with a digit in front. -/
theorem head_render {name : Ident} (h : Legible name.outline) (cs : List Char) :
    ∀ c ∈ (name.render.toList ++ cs).head?, c.isDigit = false := by
  unfold outline at h
  unfold render
  cases hbare : name.isBare with
  | false =>
    rintro c hc
    simp [Text.backticked] at hc
    rw [← hc]
    decide
  | true =>
    simp only [hbare, if_true, legible_cons] at h ⊢
    obtain ⟨-, h⟩ := h
    split at h
    · next ds heq =>
      rw [heq]
      rintro c ⟨⟩
      decide
    · exact head_of_isName (legible_cons.1 h).1 cs

end Ident

/-- Identifiers with dots between them. -/
theorem writesName_dotted {first : Ident} {rest : List Ident}
    (hfirst : Legible first.outline) (hrest : ∀ name ∈ rest, Legible name.outline) :
    WritesName (".".intercalate ((first :: rest).map Ident.render))
      (separated .dot ((first :: rest).map Ident.outline)) := by
  induction rest generalizing first with
  | nil => simpa [separated] using Ident.writes_render hfirst
  | cons second rest ih =>
    obtain ⟨hsecond, hrest⟩ := List.forall_mem_cons.1 hrest
    intro cs hcs
    have hwritten := ih hsecond hrest cs hcs
    have hhead : ∀ c ∈ ((".".intercalate ((second :: rest).map Ident.render)).toList ++ cs).head?,
        c.isDigit = false := by
      cases rest with
      | nil => simpa using Ident.head_render hsecond cs
      | cons third rest =>
        rw [List.map_cons, List.map_cons, String.intercalate_cons_cons, String.toList_append,
          String.toList_append, List.append_assoc, List.append_assoc]
        exact Ident.head_render hsecond _
    rw [List.map_cons, List.map_cons, String.intercalate_cons_cons, ← List.map_cons,
      String.toList_append, String.toList_append, List.append_assoc, List.append_assoc,
      Ident.writes_render hfirst _ (by rintro c ⟨⟩; decide)]
    show _ ++ tokensOf
      ('.' :: ((".".intercalate ((second :: rest).map Ident.render)).toList ++ cs)) = _
    rw [tokensOf_dot hhead, hwritten]
    simp [separated]

/-- A name that can be read back writes its outline, segment by segment. -/
theorem QualifiedName.writes_render {name : QualifiedName} (h : Legible name.outline) :
    WritesName name.render name.outline := by
  obtain ⟨⟨hparts, -⟩, h⟩ := legible_cons.1 h
  obtain ⟨first, rest, heq⟩ := List.exists_cons_of_ne_nil hparts
  have hall := legible_separated.1 h
  rw [heq, List.forall_mem_map, List.forall_mem_cons] at hall
  have hwritten := writesName_dotted hall.1 hall.2
  rw [← heq] at hwritten
  exact hwritten

/-! ## Fields -/

/-- So does a field, with its star if it has one. -/
theorem Field.writes_render {f : Field} (h : Legible f.outline) : Writes f.render f.outline := by
  cases f with
  | name n => exact (QualifiedName.writes_render h).writes
  | quoted value span => exact lexes_string value

/-- A boost is written without a sign. -/
theorem writes_weight {x : Binary64} (h : (Item.mark (.weight x)).Legible) :
    Lexes (Layout.weight.text x) [(Mark.weight x).token] := by
  have hlexes := lexes_layout Layout.weight x
  rw [show x.negative = false from h.1] at hlexes
  exact hlexes

/-- So does a field with its weight. -/
theorem WeightedField.writes_render {f : WeightedField} (h : Legible f.outline) :
    Writes f.render f.outline := by
  obtain ⟨field, weight⟩ := f
  cases weight with
  | none => exact .of_lexes (Field.writes_render (legible_append.1 h).1) (by simp [outline])
  | some weight =>
    simp only [outline, legible_append, legible_cons] at h
    obtain ⟨hfield, -, -, hweight, -⟩ := h
    refine .of_lexes (((Field.writes_render hfield).sign " ^ " .caret rfl).lexes_append
      (writes_weight hweight)) ?_
    simp [outline]

theorem writes_weightedFields {fs : List WeightedField} (h : ∀ f ∈ fs, Legible f.outline) :
    Writes (commaSeparated (fs.map WeightedField.render))
      (separated .comma (fs.map WeightedField.outline)) := by
  refine writes_commaSeparated (List.forall₂_map_left_iff.2 (List.forall₂_map_right_iff.2 ?_))
  exact List.forall₂_same.2 fun f hf => f.writes_render (h f hf)

theorem trails_rightBracket : Trails "]" [ofSymbol .rightBracket] :=
  ⟨(opens_symbol .rightBracket rfl).lexes, fun cs _ => stops_cons (c := ']') (by decide) cs⟩

/-- Fields in brackets write their outline. -/
theorem writes_bracketed {fs : List WeightedField} (h : Legible (bracketed fs)) :
    Writes ("[" ++ commaSeparated (fs.map WeightedField.render) ++ "]") (bracketed fs) := by
  have hfields := writes_weightedFields (legible_bracketed.1 h)
  exact .of_lexes (((opens_symbol .leftBracket rfl).lexes_append hfields).append trails_rightBracket)
    (by simp [bracketed])

/-- So do the fields of a named argument, a single one without brackets. -/
theorem writes_namedFields {fs : List WeightedField} (h : Legible (namedFields fs)) :
    Writes (renderNamedFields fs) (namedFields fs) := by
  match fs, h with
  | [f], h => exact f.writes_render h
  | [], h => exact writes_bracketed h
  | _ :: _ :: _, h => exact writes_bracketed h

theorem HighlightOption.trails_render {o : HighlightOption} (h : Legible o.outline) :
    Trails o.render (writtenTokens o.outline) := by
  simp only [outline, legible_cons] at h
  have hoption := ((lexes_word h.2.1).sign " = " .eq rfl).lexes_append (lexes_string o.value)
  have htrails := trails_comma hoption
  simpa [outline, render, String.append_assoc] using htrails

/-! ## Values of time -/

/-- A string of plain characters is written as it is. -/
theorem quoted_of_plain {value : String} (h : value.toList.all Text.isPlain = true) :
    Text.quoted value = "'" ++ value ++ "'" := by
  have hdoubling : ∀ cs : List Char, cs.all Text.isPlain = true →
      Text.doubling (fun c => c == Text.quoteMark || c == '\\') cs = cs := by
    intro cs
    induction cs with
    | nil => exact fun _ => rfl
    | cons c cs ih =>
      intro hall
      obtain ⟨hc, hcs⟩ := Bool.and_eq_true_iff.1 hall
      simp only [Text.isPlain, Bool.and_eq_true, bne_iff_ne, ne_eq] at hc
      rw [Text.doubling_cons, ih hcs]
      simp [hc]
  unfold Text.quoted
  rw [hdoubling _ h, ← String.toList_inj]
  simp [Text.quoteMark]

/-- A value of time is written as a string behind the word for its kind. -/
theorem writes_temporal {word : Keyword} {value : String} {before : String}
    (hplain : value.toList.all Text.isPlain = true) (h : before = phrase [word] ++ "'") :
    Lexes (before ++ value ++ "'") [ofKeyword word, ofString value] := by
  have htext : phrase [word] ++ "'" ++ value ++ "'" = phrase [word] ++ ("'" ++ value ++ "'") := by
    simp only [String.append_assoc]
  rw [h, htext, ← quoted_of_plain hplain]
  exact (opens_phrase [word]).lexes_append (lexes_string value)

/-! ## Expressions -/

/-- A test is negated by its word, in front of it. -/
theorem opens_negation (negated : Bool) :
    Opens (negation negated) (writtenTokens (negationOutline negated)) := by
  cases negated with
  | false => exact opens_nil
  | true => exact opens_words "NOT " [.NOT] rfl

/-- A comparison with a space on either side. -/
theorem Lexes.comparison (ha : Lexes a as) (op : ComparisonOp) :
    Opens (a ++ " " ++ op.text ++ " ") (as ++ [ofSymbol op.sign]) := by
  have hsign : op.text = op.sign.text := by cases op <;> rfl
  rw [hsign]
  exact ha.spaced op.sign

/-- An arithmetic operator with a space on either side. -/
theorem Lexes.arithmetic (ha : Lexes a as) (op : ArithmeticOp) :
    Opens (a ++ " " ++ op.text ++ " ") (as ++ writtenTokens [op.outline]) := by
  have hword {text : String} (h : Ident.isBareForm text.toList = true) :=
    (ha.space.lexes_append (lexes_word h)).space
  cases op with
  | add => exact ha.spaced .plus
  | subtract => exact ha.spaced .minus
  | multiply => exact ha.spaced .star
  | divide => exact ha.spaced .slash
  | modulo => exact ha.spaced .percent
  | wholeDivide => exact hword (show Ident.isBareForm "DIV".toList = true by decide)
  | wholeModulo => exact hword (show Ident.isBareForm "MOD".toList = true by decide)

/-- A text whose tokens stop behind it in front of what is written in parentheses. -/
theorem Lexes.close (ha : Lexes a as) : Opens (a ++ ") ") (as ++ [ofSymbol .rightParen]) :=
  ha.opens (b := ") ") ((opens_symbol .rightParen rfl).append_as opens_space ") " rfl)
    fun _ => stops_cons (c := ')') (by decide) _

/-- A path in front of a star. -/
theorem WritesName.star {text : String} {items : List Item} (h : WritesName text items) :
    Opens (text ++ ".*)")
      (writtenTokens items ++ [ofSymbol .dot, ofSymbol .star, ofSymbol .rightParen]) := by
  intro cs
  rw [String.toList_append, List.append_assoc, h _ (by rintro c ⟨⟩; decide), List.append_assoc]
  show _ ++ tokensOf ('.' :: '*' :: ')' :: cs) = _
  rw [tokensOf_dot (by rintro c ⟨⟩; decide)]
  exact congrArg (_ ++ ofSymbol .dot :: ·)
    (((opens_symbol .star rfl).append (opens_symbol .rightParen rfl)) cs)

/-- Reserved words behind a negation, with a space behind each. -/
theorem Lexes.negated (ha : Lexes a as) (negated : Bool) (text : String) (words : List Keyword)
    (h : text = phrase words) : Opens (a ++ " " ++ negation negated ++ text)
      (as ++ writtenTokens (negationOutline negated) ++ words.map ofKeyword) :=
  (ha.space.append (opens_negation negated)).append (opens_words text words h)

/-- A relevance call up to its options. -/
theorem RelevanceForm.writes_render (form : RelevanceForm) {name query : String}
    {items : List Item} (hquery : Writes query items) (h : Legible (form.outline name items)) :
    Writes (form.render name query) (form.outline name items) := by
  cases form with
  | noField => exact (lexes_word (legible_cons.1 h).1).paren.lexes_append hquery
  | field f =>
    simp only [outline, List.cons_append, legible_append, legible_cons] at h
    obtain ⟨hname, -, hfield, -⟩ := h
    have hcomma := ((lexes_word hname).paren.lexes_append (f.writes_render hfield)).comma
    exact .of_lexes (hcomma.lexes_append hquery) (by simp [outline])
  | fields fs =>
    simp only [outline, List.cons_append, legible_append, legible_cons] at h
    obtain ⟨hname, -, hfields, -⟩ := h
    have hopen := (lexes_word hname).opens (b := "([")
      ((opens_symbol .leftParen rfl).append_as (opens_symbol .leftBracket rfl) "([" rfl)
      fun _ => stops_cons (c := '(') (by decide) _
    have hlist := hopen.lexes_append (writes_weightedFields (legible_bracketed.1 hfields))
    have hclose := hlist.opens (b := "], ")
      ((opens_symbol .rightBracket rfl).append_as (opens_symbol_space .comma) "], " rfl)
      fun _ => stops_cons (c := ']') (by decide) _
    exact .of_lexes (hclose.lexes_append hquery) (by simp [outline, bracketed])
  | fieldEquals f | fieldEqualsMulti f =>
    simp only [outline, legible_append, legible_cons] at h
    obtain ⟨hfield, -, hname, -⟩ := h
    have hword := ((f.writes_render hfield).sign " = " .eq rfl).lexes_append (lexes_word hname)
    exact .of_lexes (hword.paren.lexes_append hquery) (by simp [outline])
  | named fs =>
    simp only [outline, List.cons_append, legible_append, legible_cons] at h
    obtain ⟨hname, -, -, hquery', -, -, -, hfields', -, hfields⟩ := h
    have hopen := (lexes_word hname).opens (b := "(query = ")
      ((opens_symbol .leftParen rfl).append_as ((lexes_word hquery').sign " = " .eq rfl)
        "(query = " rfl)
      fun _ => stops_cons (c := '(') (by decide) _
    have hcomma := (hopen.lexes_append hquery).opens (b := ", fields = ")
      ((opens_symbol_space .comma).append_as ((lexes_word hfields').sign " = " .eq rfl)
        ", fields = " rfl)
      fun _ => stops_cons (c := ',') (by decide) _
    exact .of_lexes (hcomma.lexes_append (writes_namedFields hfields)) (by simp [outline])

/-- The outline of a relevance call contains the one of its query. -/
theorem RelevanceForm.legible_query (form : RelevanceForm) {name : String} {items : List Item}
    (h : Legible (form.outline name items)) : Legible items := by
  intro i hi
  refine h i ?_
  cases form <;> simp [outline, hi]

/-- The tokens of reserved words are those words. -/
@[simp] theorem writtenTokens_keywords (words : List Keyword) :
    writtenTokens (words.map Item.keyword) = words.map ofKeyword := by
  induction words with
  | nil => rfl
  | cons word words ih => simp [ih]

/-- The direction of an order stands behind its expression. -/
theorem trails_direction (direction : Option Direction) :
    Trails (match direction with
      | some d => " " ++ d.text
      | none => "") (writtenTokens (direction.elim [] ([·.outline]))) := by
  match direction with
  | none => exact trails_nil
  | some .ascending => exact (lexes_keyword .ASC).trails_space
  | some .descending => exact (lexes_keyword .DESC).trails_space

/-- The place of missing values stands behind that. -/
theorem trails_nulls (nulls : Option NullOrder) :
    Trails (match nulls with
      | some n => " " ++ n.text
      | none => "") (writtenTokens (nulls.elim [] NullOrder.outline)) := by
  have hphrase (word : Keyword) :
      Trails (" " ++ ("NULLS " ++ word.text)) [ofKeyword .NULLS, ofKeyword word] :=
    ((opens_words "NULLS " [.NULLS] rfl).lexes_append (lexes_keyword word)).trails_space
  match nulls with
  | none => exact trails_nil
  | some .first => exact hphrase .FIRST
  | some .last => exact hphrase .LAST

mutual

/-- An expression that can be read back is written with the tokens of its outline. -/
theorem Expr.writes_render : ∀ e : Expr, Legible e.outline → Writes e.render e.outline
  | .not operand _, h => by
    simp only [Expr.outline, legible_cons] at h
    exact (opens_words "NOT " [.NOT] rfl).lexes_append (operand.writes_render h.2)
  | .and left right, h => by
    simp only [Expr.outline, legible_append, legible_cons] at h
    obtain ⟨hleft, -, hright⟩ := h
    exact .of_lexes (((left.writes_render hleft).phrased " AND " [.AND] rfl).lexes_append
      (right.writes_render hright)) (by simp [Expr.outline])
  | .or left right, h => by
    simp only [Expr.outline, legible_append, legible_cons] at h
    obtain ⟨hleft, -, hright⟩ := h
    exact .of_lexes (((left.writes_render hleft).phrased " OR " [.OR] rfl).lexes_append
      (right.writes_render hright)) (by simp [Expr.outline])
  | .predicate p, h => p.writes_render h

/-- A predicate that can be read back is written with the tokens of its outline. -/
theorem Predicate.writes_render : ∀ p : Predicate, Legible p.outline → Writes p.render p.outline
  | .comparison op left right, h => by
    simp only [Predicate.outline, legible_append, legible_cons] at h
    obtain ⟨hleft, -, hright⟩ := h
    exact .of_lexes (((left.writes_render hleft).comparison op).lexes_append
      (right.writes_render hright)) (by simp [Predicate.outline])
  | .isNull target negated _, h => by
    simp only [Predicate.outline, legible_append, legible_cons] at h
    have hword := ((target.writes_render h.1.1).phrased " IS " [.IS] rfl).append
      (opens_negation negated)
    exact .of_lexes (hword.lexes_append (lexes_keyword .NULL)) (by simp [Predicate.outline])
  | .between target negated low high, h => by
    simp only [Predicate.outline, legible_append, legible_cons] at h
    obtain ⟨⟨⟨htarget, -⟩, -, hlow⟩, -, hhigh⟩ := h
    have hword := (target.writes_render htarget).negated negated "BETWEEN " [.BETWEEN] rfl
    have hlow := (hword.lexes_append (low.writes_render hlow)).phrased " AND " [.AND] rfl
    exact .of_lexes (hlow.lexes_append (high.writes_render hhigh)) (by simp [Predicate.outline])
  | .like left negated pattern, h => by
    simp only [Predicate.outline, legible_append, legible_cons] at h
    obtain ⟨⟨hleft, -⟩, -, hpattern⟩ := h
    have hword := (left.writes_render hleft).negated negated "LIKE " [.LIKE] rfl
    exact .of_lexes (hword.lexes_append (pattern.writes_render hpattern))
      (by simp [Predicate.outline])
  | .regexp left negated pattern, h => by
    simp only [Predicate.outline, legible_append, legible_cons] at h
    obtain ⟨⟨hleft, -⟩, -, hpattern⟩ := h
    have hword := (left.writes_render hleft).negated negated "REGEXP " [.REGEXP] rfl
    exact .of_lexes (hword.lexes_append (pattern.writes_render hpattern))
      (by simp [Predicate.outline])
  | .within target negated items _, h => by
    simp only [Predicate.outline, legible_append, legible_cons, legible_separated] at h
    obtain ⟨⟨⟨htarget, -⟩, -, -, hitems⟩, -⟩ := h
    have hword := ((target.writes_render htarget).space.append (opens_negation negated)).append
      ((lexes_keyword .IN).space.append_as (opens_symbol .leftParen rfl) "IN (" rfl)
    have hlist := hword.lexes_append (writes_commaSeparated (writes_renderAll items hitems))
    exact .of_lexes (hlist.append trails_rightParen) (by simp [Predicate.outline])
  | .atom a, h => a.writes_render h

/-- An atom that can be read back is written with the tokens of its outline. -/
theorem Atom.writes_render : ∀ a : Atom, Legible a.outline → Writes a.render a.outline
  | .constant c, h => c.writes_render h
  | .column name, h => (QualifiedName.writes_render h).writes
  | .call f, h => f.writes_render h
  | .parenthesized inner _, h => by
    simp only [Atom.outline, legible_append, legible_cons] at h
    have hinner := (opens_symbol .leftParen rfl).lexes_append (inner.writes_render h.1.2)
    exact .of_lexes (hinner.append trails_rightParen) (by simp [Atom.outline])
  | .arithmetic op left right, h => by
    simp only [Atom.outline, legible_append, legible_cons] at h
    obtain ⟨hleft, -, hright⟩ := h
    exact .of_lexes (((left.writes_render hleft).arithmetic op).lexes_append
      (right.writes_render hright)) (by cases op <;> simp [Atom.outline, ArithmeticOp.outline])

/-- A constant writes its outline. One theorem for each type of the tree says so, by the recursion
of the tree. -/
theorem Constant.writes_render : ∀ c : Constant, Legible c.outline → Writes c.render c.outline
  | ⟨value, span⟩, h => by
    have hwritten := value.writes_render (legible_append.1 h).2
    have hremark : writtenTokens (value.remark span) = [] := by cases value <;> rfl
    exact .of_lexes hwritten (by rw [Constant.outline, writtenTokens_append, hremark]; rfl)

/-- A literal that can be read back is written with the tokens of its outline. -/
theorem Literal.writes_render : ∀ l : Literal, Legible l.outline → Writes l.render l.outline
  | .string value, _ => lexes_string value
  | .integer value, _ => by
    refine .of_lexes (lexes_integer value) ?_
    unfold integerTokens signedTokens
    by_cases hneg : value < 0 <;> simp [Literal.outline, hneg] <;> rfl
  | .real value, _ => by
    refine .of_lexes (lexes_layout Layout.literal value) ?_
    unfold signedTokens
    cases hneg : value.negative <;> simp [Literal.outline, hneg] <;> rfl
  | .boolean true, _ => lexes_keyword .TRUE
  | .boolean false, _ => lexes_keyword .FALSE
  | .null, _ => lexes_keyword .NULL
  | .date value, _ => writes_temporal value.plain rfl
  | .time value, _ => writes_temporal value.plain rfl
  | .timestamp value, _ => writes_temporal value.plain rfl
  | .interval amount unit, h => by
    simp only [Literal.outline, legible_append, legible_cons] at h
    obtain ⟨⟨-, hamount⟩, hunit, -⟩ := h
    have hword := (opens_words "INTERVAL " [.INTERVAL] rfl).lexes_append
      (amount.writes_render hamount)
    exact .of_lexes (hword.space.lexes_append (lexes_word hunit)) (by simp [Literal.outline])
  | .datetime name parens, h => by
    have hname := lexes_word (legible_cons.1 h).1
    cases parens with
    | false => exact .of_lexes (hname.append trails_nil) (by simp [Literal.outline])
    | true =>
      exact .of_lexes (hname.append (b := "()") ⟨((opens_symbol .leftParen rfl).append
        (opens_symbol .rightParen rfl)).lexes, fun _ _ => stops_cons (c := '(') (by decide) _⟩)
        (by simp [Literal.outline])
  | .malformed _ _ _, h => (legible_cons.1 h).1.elim

theorem Call.writes_render : ∀ c : Call, Legible c.outline → Writes c.render c.outline
  | ⟨shape, _⟩, h => shape.writes_render h

/-- A call that can be read back is written with the tokens of its outline. -/
theorem CallShape.writes_render : ∀ f : CallShape, Legible f.outline → Writes f.render f.outline
  | .nestedAll name path, h => by
    simp only [CallShape.outline, legible_append, legible_cons] at h
    obtain ⟨⟨hname, -, hpath⟩, -⟩ := h
    have hopen := (lexes_word hname).paren.append (QualifiedName.writes_render hpath).star
    rw [← String.append_assoc] at hopen
    exact .of_lexes hopen.lexes (by simp [CallShape.outline])
  | .scalar name _ args, h => by
    simp only [CallShape.outline, legible_append, legible_cons, legible_separated] at h
    obtain ⟨⟨hname, -, hargs⟩, -⟩ := h
    have hlist := (lexes_word hname).paren.lexes_append
      (writes_commaSeparated (writes_renderAll args hargs))
    exact .of_lexes (hlist.append trails_rightParen) (by simp [CallShape.outline])
  | .case operand branches otherwise, h => by
    simp only [CallShape.outline, legible_append, legible_cons] at h
    obtain ⟨⟨⟨⟨-, hoperand⟩, hbranches⟩, hotherwise⟩, -⟩ := h
    have hword := (lexes_keyword .CASE).append (trails_renderOptional " " [] rfl operand hoperand)
    have hbranches := hword.append (trails_renderBranches branches hbranches)
    have hotherwise := hbranches.append
      (trails_renderOptional " ELSE " [.ELSE] rfl otherwise hotherwise)
    exact .of_lexes (hotherwise.append (lexes_keyword .END).trails_space)
      (by simp [CallShape.outline])
  | .cast expr target, h => by
    simp only [CallShape.outline, legible_append, legible_cons] at h
    obtain ⟨⟨-, -, hexpr⟩, -, htarget, -⟩ := h
    have hopen := (lexes_keyword .CAST).paren.lexes_append (expr.writes_render hexpr)
    have hword := (hopen.phrased " AS " [.AS] rfl).lexes_append (lexes_word htarget)
    exact .of_lexes (hword.append trails_rightParen) (by simp [CallShape.outline])
  | .ranking function args window, h => by
    simp only [CallShape.outline, legible_append, legible_cons, legible_separated] at h
    obtain ⟨⟨hname, -, hargs⟩, -, hwindow⟩ := h
    have hlist := (lexes_word hname).paren.lexes_append
      (writes_commaSeparated (writes_renderAll args hargs))
    exact .of_lexes (hlist.close.lexes_append (window.writes_render hwindow))
      (by simp [CallShape.outline])
  | .windowed aggregate window, h => by
    have hboth := legible_append.1 h
    exact .of_lexes ((aggregate.writes_render hboth.1).space.lexes_append
      (window.writes_render hboth.2)) (by simp [CallShape.outline])
  | .aggregate aggregate, h => aggregate.writes_render h
  | .filtered aggregate orderBy filter, h => by
    simp only [CallShape.outline, legible_append] at h
    obtain ⟨⟨haggregate, horder⟩, hfilter⟩ := h
    have horder := (aggregate.writes_render haggregate).append
      (writes_renderOptionalOrder orderBy horder).2
    exact .of_lexes (horder.space.lexes_append (filter.writes_render hfilter))
      (by simp [CallShape.outline])
  | .score name relevance weight, h => by
    -- The text ends in the parenthesis, with the weight in front where there is one.
    simp only [CallShape.outline, legible_append, legible_cons] at h
    obtain ⟨⟨⟨hname, -, hrelevance⟩, hweight⟩, -⟩ := h
    have hcall := (lexes_word hname).paren.lexes_append (relevance.writes_render hrelevance)
    cases weight with
    | none =>
      exact .of_lexes ((hcall.append trails_nil).append trails_rightParen)
        (by simp [CallShape.outline])
    | some w =>
      have hweight := trails_comma (writes_weight (legible_cons.1 (legible_cons.1 hweight).2).1)
      exact .of_lexes ((hcall.append hweight).append trails_rightParen) (by simp [CallShape.outline])
  | .relevance relevance, h => relevance.writes_render h
  | .highlight field options, h => by
    simp only [CallShape.outline, legible_append, legible_cons] at h
    obtain ⟨⟨⟨hname, -, hfield⟩, hoptions⟩, -⟩ := h
    have hopen := (lexes_word hname).paren.lexes_append (field.writes_render hfield)
    have htrails : ∀ o ∈ options, Trails o.render (writtenTokens o.outline) := fun o ho =>
      o.trails_render fun i hi => hoptions i (List.mem_flatMap.2 ⟨o, ho, hi⟩)
    exact .of_lexes ((hopen.append (trails_join htrails)).append trails_rightParen)
      (by simp [CallShape.outline])
  | .position substring string, h => by
    simp only [CallShape.outline, legible_append, legible_cons] at h
    obtain ⟨⟨⟨hname, -, hsubstring⟩, -, hstring⟩, -⟩ := h
    have hopen := (lexes_word hname).paren.lexes_append (substring.writes_render hsubstring)
    have hword := (hopen.phrased " IN " [.IN] rfl).lexes_append (string.writes_render hstring)
    exact .of_lexes (hword.append trails_rightParen) (by simp [CallShape.outline])
  | .extract unit arg, h => by
    simp only [CallShape.outline, legible_append, legible_cons] at h
    obtain ⟨⟨hname, -, hunit, -, harg⟩, -⟩ := h
    have hopen := (lexes_word hname).paren.lexes_append (lexes_word hunit)
    have hword := (hopen.phrased " FROM " [.FROM] rfl).lexes_append (arg.writes_render harg)
    exact .of_lexes (hword.append trails_rightParen) (by simp [CallShape.outline])
  | .getFormat target format, h => by
    simp only [CallShape.outline, legible_append, legible_cons] at h
    obtain ⟨⟨hname, -, htarget, -, hformat⟩, -⟩ := h
    have hopen := (lexes_word hname).paren.lexes_append (lexes_word htarget)
    have hcomma := hopen.comma.lexes_append (format.writes_render hformat)
    exact .of_lexes (hcomma.append trails_rightParen) (by simp [CallShape.outline])
  | .timestamp function unit first second, h => by
    simp only [CallShape.outline, legible_append, legible_cons] at h
    obtain ⟨⟨⟨hname, -, hunit, -, hfirst⟩, -, hsecond⟩, -⟩ := h
    have hopen := (lexes_word hname).paren.lexes_append (lexes_word hunit)
    have hfirst := hopen.comma.lexes_append (first.writes_render hfirst)
    have hsecond := hfirst.comma.lexes_append (second.writes_render hsecond)
    exact .of_lexes (hsecond.append trails_rightParen) (by simp [CallShape.outline])

theorem CaseBranch.trails_render : ∀ b : CaseBranch, Legible b.outline →
    Trails b.render (writtenTokens b.outline)
  | ⟨condition, result⟩, h => by
    simp only [CaseBranch.outline, legible_append, legible_cons] at h
    obtain ⟨⟨-, hcondition⟩, -, hresult⟩ := h
    have hwhen := trails_phrased (condition.writes_render hcondition) " WHEN " [.WHEN] rfl
    have hthen := trails_phrased (result.writes_render hresult) " THEN " [.THEN] rfl
    have hall := hwhen.append hthen
    simpa [CaseBranch.outline, CaseBranch.render, String.append_assoc] using hall

/-- An aggregate writes its outline, with `DISTINCT` if it has that. -/
theorem Aggregate.writes_render : ∀ a : Aggregate, Legible a.outline → Writes a.render a.outline
  | .regular function arg, h => by
    simp only [Aggregate.outline, legible_append, legible_cons] at h
    obtain ⟨⟨hname, -, harg⟩, -⟩ := h
    have hopen := (lexes_word hname).paren.lexes_append (arg.writes_render harg)
    exact .of_lexes (hopen.append trails_rightParen) (by simp [Aggregate.outline])
  | .countStar, h => by
    have hname := (lexes_word (legible_cons.1 h).1).paren
    exact ((hname.append (opens_symbol .star rfl)).append (opens_symbol .rightParen rfl)).lexes
  | .countDistinct args, h => by
    simp only [Aggregate.outline, legible_append, legible_cons, legible_separated] at h
    obtain ⟨⟨hname, -, -, hargs⟩, -⟩ := h
    have hopen := (lexes_word hname).paren.append_as (opens_words "DISTINCT " [.DISTINCT] rfl)
      "COUNT(DISTINCT " rfl
    have hlist := hopen.lexes_append (writes_commaSeparated (writes_renderAll args hargs))
    exact .of_lexes (hlist.append trails_rightParen) (by simp [Aggregate.outline])
  | .percentile function field percent compression, h => by
    simp only [Aggregate.outline, legible_append, legible_cons] at h
    obtain ⟨⟨⟨⟨hname, -, hfield⟩, -, hpercent⟩, hcompression⟩, -⟩ := h
    have hopen := (lexes_word hname).paren.lexes_append (field.writes_render hfield)
    have hpercent := hopen.comma.lexes_append (percent.writes_render hpercent)
    have hall := hpercent.append (trails_renderOptionalConstant compression hcompression)
    exact .of_lexes (hall.append trails_rightParen) (by simp [Aggregate.outline])

theorem Window.writes_render : ∀ w : Window, Legible w.outline → Writes w.render w.outline
  | ⟨none, orderBy, _⟩, h => by
    simp only [Window.outline, legible_append, legible_cons] at h
    obtain ⟨⟨⟨-, -, -⟩, horder⟩, -⟩ := h
    have hopen := (lexes_keyword .OVER).space.append_as (opens_symbol .leftParen rfl) "OVER (" rfl
    have hall := hopen.lexes_append (writes_renderOptionalOrder orderBy horder).1
    exact .of_lexes (hall.append trails_rightParen)
      (by simp [Window.outline, outlineOptionalPartition])
  | ⟨some partition, orderBy, _⟩, h => by
    simp only [Window.outline, legible_append, legible_cons] at h
    obtain ⟨⟨⟨-, -, hpartition⟩, horder⟩, -⟩ := h
    have hopen := (lexes_keyword .OVER).space.append_as (opens_symbol .leftParen rfl) "OVER (" rfl
    have hpartition := hopen.lexes_append (partition.writes_render hpartition)
    have hall := hpartition.append (writes_renderOptionalOrder orderBy horder).2
    exact .of_lexes (hall.append trails_rightParen)
      (by simp [Window.outline, outlineOptionalPartition])

theorem PartitionBy.writes_render : ∀ p : PartitionBy, Legible p.outline → Writes p.render p.outline
  | ⟨exprs, _⟩, h => by
    simp only [PartitionBy.outline, legible_cons, legible_separated] at h
    exact (opens_words "PARTITION BY " [.PARTITION, .BY] rfl).lexes_append
      (writes_commaSeparated (writes_renderAll exprs h.2.2))

theorem OrderBy.writes_render : ∀ o : OrderBy, Legible o.outline → Writes o.render o.outline
  | ⟨items, _⟩, h => by
    simp only [OrderBy.outline, legible_cons, legible_separated] at h
    exact (opens_words "ORDER BY " [.ORDER, .BY] rfl).lexes_append
      (writes_commaSeparated (writes_renderItems items h.2.2))

theorem OrderItem.writes_render : ∀ o : OrderItem, Legible o.outline → Writes o.render o.outline
  | ⟨expr, direction, nulls⟩, h => by
    have hexpr := expr.writes_render (legible_append.1 (legible_append.1 h).1).1
    exact .of_lexes ((hexpr.append (trails_direction direction)).append (trails_nulls nulls))
      (by simp [OrderItem.outline])

theorem Filter.writes_render : ∀ f : Filter, Legible f.outline → Writes f.render f.outline
  | ⟨condition, _⟩, h => by
    simp only [Filter.outline, legible_append, legible_cons] at h
    obtain ⟨⟨-, -, -, hcondition⟩, -⟩ := h
    have hopen := (lexes_keyword .FILTER).paren.append_as (opens_words "WHERE " [.WHERE] rfl)
      "FILTER(WHERE " rfl
    exact .of_lexes ((hopen.lexes_append (condition.writes_render hcondition)).append
      trails_rightParen) (by simp [Filter.outline])

/-- A relevance function writes its outline, in the form in which it was read. -/
theorem Relevance.writes_render : ∀ r : Relevance, Legible r.outline → Writes r.render r.outline
  | ⟨name, form, query, options⟩, h => by
    simp only [Relevance.outline, legible_append] at h
    obtain ⟨⟨hform, hoptions⟩, -⟩ := h
    have hquery := query.writes_render (form.legible_query hform)
    have hall := (form.writes_render hquery hform).append (trails_renderOptions options hoptions)
    exact .of_lexes (hall.append trails_rightParen) (by simp [Relevance.outline])

theorem SearchValue.writes_render : ∀ v : SearchValue, Legible v.outline → Writes v.render v.outline
  | .name _, h => (QualifiedName.writes_render h).writes
  | .constant c, h => c.writes_render h

theorem RelevanceOption.trails_render : ∀ o : RelevanceOption, Legible o.outline →
    Trails o.render (writtenTokens o.outline)
  | ⟨name, quotedName, value⟩, h => by
    simp only [RelevanceOption.outline, legible_cons] at h
    obtain ⟨-, hname, -, hvalue⟩ := h
    have hvalue := value.writes_render hvalue
    cases quotedName with
    | true =>
      have hoption := trails_comma (((lexes_string name).sign " = " .eq rfl).lexes_append hvalue)
      simpa [RelevanceOption.outline, RelevanceOption.render, String.append_assoc] using hoption
    | false =>
      have hoption := trails_comma (((lexes_word hname).sign " = " .eq rfl).lexes_append hvalue)
      simpa [RelevanceOption.outline, RelevanceOption.render, String.append_assoc] using hoption

theorem writes_renderAll : ∀ es : List Expr, (∀ items ∈ outlineAll es, Legible items) →
    List.Forall₂ Writes (renderAll es) (outlineAll es)
  | [], _ => .nil
  | e :: es, h =>
    have hall := List.forall_mem_cons.1 h
    .cons (e.writes_render hall.1) (writes_renderAll es hall.2)

theorem writes_renderItems : ∀ is : List OrderItem, (∀ items ∈ outlineItems is, Legible items) →
    List.Forall₂ Writes (renderItems is) (outlineItems is)
  | [], _ => .nil
  | i :: is, h =>
    have hall := List.forall_mem_cons.1 h
    .cons (i.writes_render hall.1) (writes_renderItems is hall.2)

theorem trails_renderBranches : ∀ bs : List CaseBranch, Legible (outlineBranches bs) →
    Trails (renderBranches bs) (writtenTokens (outlineBranches bs))
  | [], _ => trails_nil
  | b :: bs, h => by
    have hboth := legible_append.1 h
    rw [outlineBranches, writtenTokens_append]
    exact (b.trails_render hboth.1).append (trails_renderBranches bs hboth.2)

theorem trails_renderOptions : ∀ os : List RelevanceOption, Legible (outlineOptions os) →
    Trails (renderOptions os) (writtenTokens (outlineOptions os))
  | [], _ => trails_nil
  | o :: os, h => by
    have hboth := legible_append.1 h
    rw [outlineOptions, writtenTokens_append]
    exact (o.trails_render hboth.1).append (trails_renderOptions os hboth.2)

/-- An expression behind reserved words, if there is one. -/
theorem trails_renderOptional (text : String) (words : List Keyword)
    (htext : text = " " ++ phrase words) : ∀ e : Option Expr,
      Legible (outlineOptional (words.map Item.keyword) e) →
      Trails (renderOptional text e) (writtenTokens (outlineOptional (words.map Item.keyword) e))
  | none, _ => trails_nil
  | some e, h => by
    rw [outlineOptional, writtenTokens_append, writtenTokens_keywords]
    exact trails_phrased (e.writes_render (legible_append.1 h).2) text words htext

theorem trails_renderOptionalConstant : ∀ c : Option Constant, Legible (outlineOptionalConstant c) →
    Trails (renderOptionalConstant ", " c) (writtenTokens (outlineOptionalConstant c))
  | none, _ => trails_nil
  | some c, h => trails_comma (c.writes_render (legible_cons.1 h).2)

/-- An order with or without a space in front, if there is one. -/
theorem writes_renderOptionalOrder : ∀ o : Option OrderBy, Legible (outlineOptionalOrder o) →
    Writes (renderOptionalOrder "" o) (outlineOptionalOrder o) ∧
      Trails (renderOptionalOrder " " o) (writtenTokens (outlineOptionalOrder o))
  | none, _ => ⟨opens_nil.lexes, trails_nil⟩
  | some o, h => by
    have horder := o.writes_render h
    exact ⟨opens_nil.lexes_append horder, horder.trails_space⟩

end

/-! ## Queries -/

/-- A list of expressions writes its outline. -/
theorem writes_exprs {es : List Expr} (h : ∀ items ∈ es.map Expr.outline, Legible items) :
    Writes (commaSeparated (es.map Expr.render)) (separated .comma (es.map Expr.outline)) := by
  rw [← outlineAll_eq_map] at h ⊢
  rw [← renderAll_eq_map]
  exact writes_commaSeparated (writes_renderAll es h)

/-- An alias is written behind its word. -/
theorem trails_alias (name : Option Ident) (h : Legible (name.elim [] aliasOutline)) :
    Trails (renderAlias name) (writtenTokens (name.elim [] aliasOutline)) := by
  cases name with
  | none => exact trails_nil
  | some name =>
    have hname := (Ident.writes_render (legible_cons.1 (legible_cons.1 h).2).2).writes
    exact trails_phrased hname " AS " [.AS] rfl

/-- A quantifier is written in front of the elements. -/
theorem opens_quantifier (quantifier : Option Quantifier) :
    Opens (renderQuantifier quantifier) (writtenTokens (quantifier.elim [] ([·.outline]))) := by
  match quantifier with
  | none => exact opens_nil
  | some .all => exact opens_words "ALL " [.ALL] rfl
  | some .distinct => exact opens_words "DISTINCT " [.DISTINCT] rfl

theorem SelectItem.writes_render {item : SelectItem} (h : Legible item.outline) :
    Writes item.render item.outline := by
  cases item with
  | star span => exact (opens_symbol .star rfl).lexes
  | expr e name =>
    have hboth := legible_append.1 h
    exact .of_lexes ((e.writes_render hboth.1).append (trails_alias name hboth.2))
      (by simp [outline])

theorem writes_selectItems {items : List SelectItem}
    (h : ∀ is ∈ items.map SelectItem.outline, Legible is) :
    Writes (commaSeparated (items.map SelectItem.render))
      (separated .comma (items.map SelectItem.outline)) := by
  refine writes_commaSeparated (List.forall₂_map_left_iff.2 (List.forall₂_map_right_iff.2 ?_))
  exact List.forall₂_same.2 fun item hitem =>
    SelectItem.writes_render (h _ (List.mem_map_of_mem hitem))

/-- A limit is written in one form, whichever it was read in. -/
theorem Limit.writes_render (l : Limit) : Writes l.render l.outline := by
  have hcount := (opens_words "LIMIT " [.LIMIT] rfl).lexes_append (lexes_count l.count)
  obtain ⟨count, offset, span⟩ := l
  cases offset with
  | none => exact .of_lexes (hcount.append trails_nil) (by simp [outline, Mark.token])
  | some offset =>
    have hoffset := trails_phrased (lexes_count offset) " OFFSET " [.OFFSET] rfl
    exact .of_lexes (hcount.append hoffset) (by simp [outline, Mark.token])

theorem trails_condition (part : Option Condition) (text : String) (word : Keyword)
    (htext : text = " " ++ phrase [word]) (h : Legible (part.elim [] (Condition.outline word))) :
    Trails (part.elim "" fun c => text ++ c.expr.render)
      (writtenTokens (part.elim [] (Condition.outline word))) := by
  cases part with
  | none => exact trails_nil
  | some c => exact trails_phrased (c.expr.writes_render (legible_cons.1 h).2) text [word] htext

theorem trails_groupBy (part : Option GroupBy) (h : Legible (part.elim [] GroupBy.outline)) :
    Trails (part.elim "" fun g => " GROUP BY " ++ commaSeparated (g.exprs.map Expr.render))
      (writtenTokens (part.elim [] GroupBy.outline)) := by
  cases part with
  | none => exact trails_nil
  | some g =>
    have hexprs := legible_separated.1 (legible_cons.1 (legible_cons.1 h).2).2
    exact trails_phrased (writes_exprs hexprs) " GROUP BY " [.GROUP, .BY] rfl

/-- The clauses of a query are written in their order, each behind a space. -/
theorem trails_clauses (condition : Option Condition) (groupBy : Option GroupBy)
    (having : Option Condition) (orderBy : Option OrderBy) (limit : Option Limit)
    (h : Legible (clausesOutline condition groupBy having orderBy limit)) :
    Trails (renderClauses condition groupBy having orderBy limit)
      (writtenTokens (clausesOutline condition groupBy having orderBy limit)) := by
  simp only [clausesOutline, legible_append] at h
  obtain ⟨⟨⟨⟨hcondition, hgroupBy⟩, hhaving⟩, horderBy⟩, hlimit⟩ := h
  have hwhere := trails_condition condition " WHERE " .WHERE rfl hcondition
  have hrows := (hwhere.append (trails_groupBy groupBy hgroupBy)).append
    (trails_condition having " HAVING " .HAVING rfl hhaving)
  have horder : Trails (orderBy.elim "" fun o => " " ++ o.render)
      (writtenTokens (orderBy.elim [] OrderBy.outline)) := by
    cases orderBy with
    | none => exact trails_nil
    | some o => exact (o.writes_render horderBy).trails_space
  have hlimit : Trails (limit.elim "" fun l => " " ++ l.render)
      (writtenTokens (limit.elim [] Limit.outline)) := by
    cases limit with
    | none => exact trails_nil
    | some l => exact l.writes_render.trails_space
  simp only [clausesOutline, writtenTokens_append]
  exact (hrows.append horder).append hlimit

mutual

/-- A query that can be read back is written with the tokens of its outline. -/
theorem Query.writes_render : ∀ q : Query, Legible q.outline → Writes q.render q.outline
  | ⟨quantifier, items, relation, condition, groupBy, having, orderBy, limit, _⟩, h => by
    simp only [Query.outline, legible_append, legible_cons, legible_separated] at h
    obtain ⟨⟨⟨⟨-, -⟩, hitems⟩, hrelation⟩, hclauses⟩ := h
    have hselect := (opens_words "SELECT " [.SELECT] rfl).append (opens_quantifier quantifier)
    have hfrom := (hselect.lexes_append (writes_selectItems hitems)).append
      (trails_renderFrom relation hrelation)
    exact .of_lexes (hfrom.append (trails_clauses _ _ _ _ _ hclauses)) (by simp [Query.outline])

/-- A relation writes its outline, a query in parentheses if it is one. -/
theorem Relation.writes_render : ∀ r : Relation, Legible r.outline → Writes r.render r.outline
  | .table name aliasName, h => by
    have hboth := legible_append.1 h
    exact .of_lexes ((QualifiedName.writes_render hboth.1).writes.append
      (trails_alias aliasName hboth.2)) (by simp [Relation.outline])
  | .subquery query aliasName _, h => by
    simp only [Relation.outline, legible_append, legible_cons] at h
    obtain ⟨⟨-, hquery⟩, -, hname⟩ := h
    have hopen := (opens_symbol .leftParen rfl).lexes_append (query.writes_render hquery)
    have hword := hopen.opens (b := ") AS ")
      ((opens_symbol .rightParen rfl).append_as (opens_space_phrase [.AS]) ") AS " rfl)
      fun _ => stops_cons (c := ')') (by decide) _
    have hname := Ident.writes_render (legible_cons.1 (legible_cons.1 hname).2).2
    exact .of_lexes (hword.lexes_append hname.writes)
      (by simp [Relation.outline, aliasOutline])

theorem trails_renderFrom : ∀ r : Option Relation, Legible (fromOutline r) →
    Trails (renderFrom r) (writtenTokens (fromOutline r))
  | none, _ => trails_nil
  | some r, h => trails_phrased (r.writes_render (legible_cons.1 h).2) " FROM " [.FROM] rfl

end

end SearchSql
