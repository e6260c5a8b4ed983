import SearchSql.Proofs.LiteralReading

/-!
# What rules read

Every rule of the grammar reads the outline of what it builds if its callees do, one lemma for each
rule. What the callees read is `Nonterminal.outline`; some of them start at a token that the rule in
front has looked at (`Nonterminal.Opens`).
-/

set_option autoImplicit false

namespace SearchSql

/-- The name of the functions of a family, if they share one. -/
def FunctionFamily.text? : FunctionFamily → Option String
  | .ranking function => some function.text
  | .aggregate function => some function.text
  | .percentile function => some function.text
  | .timestamp function => some function.text
  | .highlight => some "HIGHLIGHT"
  | .position => some "POSITION"
  | .extract => some "EXTRACT"
  | .getFormat => some "GET_FORMAT"
  | .nested | .scalar _ | .score | .relevance _ => none

/-- A name belongs to a family of one name only if it is that name. -/
theorem FunctionFamily.upper_of_ofUpper? {word text : String} {family : FunctionFamily}
    (h : FunctionFamily.ofUpper? (Text.upper word) = some family) (htext : family.text? = some text) :
    Text.upper word = text := by
  have hfound {α : Type} {values : List α} {spelling : α → String} {a : α}
      (h : Text.findSpelling values spelling (Text.upper word) = some a)
      (htext : spelling a = text) : Text.upper word = text := by
    rw [← htext, Text.spelling_of_findSpelling h, Text.upper_upper]
  unfold FunctionFamily.ofUpper? at h
  split at h
  · cases h
    cases htext
  · simp only [Option.orElse_eq_orElse, Option.orElse_eq_or, Option.or_eq_some_iff,
      Option.map_eq_some_iff] at h
    cases family with
    | ranking function =>
      simp at h
      exact hfound h.2 (Option.some.inj htext)
    | aggregate function =>
      simp at h
      exact hfound h.2.2 (Option.some.inj htext)
    | percentile function =>
      simp at h
      exact hfound h.2.2.2 (Option.some.inj htext)
    | timestamp function =>
      simp at h
      obtain ⟨-, -, -, -, -, -, -, -, -, -, hfunction⟩ := h
      exact hfound hfunction (Option.some.inj htext)
    | highlight | position | extract | getFormat =>
      simp at h
      exact (by simp [h] : Text.upper word = _).trans (Option.some.inj htext)
    | nested | scalar _ | score | relevance _ => cases htext

/-- The name of a family is a word in capital letters. -/
theorem FunctionFamily.isBareForm_text {family : FunctionFamily} {text : String}
    (h : family.text? = some text) : Ident.isBareForm text.toList = true ∧ Text.upper text = text := by
  cases family with
  | ranking function | aggregate function | percentile function | timestamp function =>
    cases function <;> (cases h; decide)
  | highlight | position | extract | getFormat =>
    cases h
    decide
  | nested | scalar _ | score | relevance _ => cases h

namespace Grammar

open SearchSql.Grammar.Parser

variable {α β : Type} {T : List Token} {s t : State} {here : Token → Prop} {before : List Item}

/-- Whether a token is a word, reserved or not. -/
def IsBare (u : Token) : Prop := u.kind.isBareName = true ∨ u.kind.keyword?.isSome = true

namespace Nonterminal

/-- The outline of what a rule builds. Some rules pass more than the tree itself. -/
def outline : {α : Type} → Nonterminal α → α → List Item
  | _, .expr _ => Expr.outline
  | _, .predicate _ => Predicate.outline
  | _, .arithmetic _ | _, .operand | _, .parenthesized => Atom.outline
  | _, .constant => Constant.outline
  | _, .interval => Literal.outline
  | _, .call => Call.outline
  | _, .shape _ | _, .scalar _ | _, .case | _, .cast | _, .ranking _ | _, .aggregateTail _
  | _, .score | _, .position | _, .extract | _, .getFormat | _, .timestamp _ => CallShape.outline
  | _, .arguments => fun args => separated .comma (outlineAll args) ++ [.symbol .rightParen]
  | _, .aggregate _ | _, .percentile _ => Aggregate.outline
  | _, .window => Window.outline
  | _, .filter => Filter.outline
  | _, .orderBy => OrderBy.outline
  | _, .orderItem => OrderItem.outline
  | _, .relevance _ | _, .fieldEquals => Relevance.outline
  | _, .namedArguments => fun (text, fields) =>
      .remark .named :: .word "query" :: .symbol .eq :: text.outline ++
        .symbol .comma :: .word "fields" :: .symbol .eq :: namedFields fields
  | _, .searchValue => SearchValue.outline
  | _, .relevanceOptions => outlineOptions
  | _, .selectItems => fun items => separated .comma (items.map SelectItem.outline)
  | _, .selectItem _ => SelectItem.outline
  | _, .relation => fun relation => .keyword .FROM :: relation.outline
  | _, .condition word => Condition.outline word
  | _, .groupBy => GroupBy.outline
  | _, .query => Query.outline

/-- The outline of what was passed in front of a rule and belongs to what it builds. -/
def behind : {α : Type} → Nonterminal α → List Item
  | _, .aggregateTail a => a.outline
  | _, _ => []

/-- The tokens that a rule starts with, as far as the rule in front has seen to it. -/
def Opens : {α : Type} → Nonterminal α → Token → Prop
  | _, .shape family => fun u => ∃ value, u.kind = .name value ∧
      FunctionFamily.ofUpper? (Text.upper value) = some family
  | _, .scalar _ | _, .score | _, .relevance _ => IsBare
  | _, .ranking function => fun u => Spells u function.text
  | _, .aggregate function => fun u => Spells u function.text
  | _, .percentile function => fun u => Spells u function.text
  | _, .position => fun u => Spells u "POSITION"
  | _, .extract => fun u => Spells u "EXTRACT"
  | _, .getFormat => fun u => Spells u "GET_FORMAT"
  | _, .timestamp function => fun u => Spells u function.text
  | _, _ => Anywhere

end Nonterminal

/-- Whether a way to run rules reads what they build. -/
def AllRead (T : List Token) (call : Callee) : Prop :=
  ∀ {α : Type} (n : Nonterminal α), Reads T n.Opens n.behind (call n) n.outline

/-! ## Openings -/

/-- A parser that reads from some tokens on reads from others that are such tokens. -/
theorem Reads.opening (hT : Scanned T) {opens : Token → Prop} {p : Parser α} {after : α → List Item}
    (h : Reads T opens before p after) (himp : ∀ u : Token, u.Sound → here u → opens u) :
    Reads T here before p after :=
  fun front s a t hs hhere heq => h front s a t hs (himp _ (hs.sound hT) hhere) heq

/-! ## Names of calls -/

/-- The name of a call where its spelling is known. -/
theorem reads_callName_as {text : String} :
    Reads T (fun u => Spells u text) before callName
      (fun _ => before ++ [.word text, .symbol .leftParen]) := by
  refine reads_current_bind fun u => ?_
  refine (reads_skip (m := .word text) (fun _ h => isEnd_of_spells h.2) (fun _ h => h.2.2)
    fun _ h => h.2.1).bind fun _ => (reads_symbol .leftParen).bind fun _ => reads_pure ?_
  rw [List.append_assoc]
  rfl

section Rules

variable (hT : Scanned T)

include hT

/-- The name of a call as it is written. -/
theorem reads_callName :
    Reads T IsBare before callName (fun name => before ++ [.word name, .symbol .leftParen]) := by
  refine reads_sound_bind hT fun u hsound hbare => ?_
  refine (reads_skip_word (spells_text hsound hbare)).bind fun _ =>
    (reads_symbol .leftParen).bind fun _ => reads_pure ?_
  rw [List.append_assoc]
  rfl

/-! ## Calls without recursion -/

/-- A nested field with a star is read with its name in front. -/
theorem reads_nestedAll : Reads T IsBare before nestedAll (fun shape => before ++ shape.outline) := by
  refine (reads_callName hT).bind fun name => (reads_qualifiedName hT).bind fun path =>
    (reads_symbol .dot).bind fun _ => (reads_symbol .star).bind fun _ =>
      (reads_symbol .rightParen).bind fun _ => reads_pure ?_
  simp [CallShape.outline]

/-- An option is its name, an equals sign and a string. -/
theorem reads_highlightOptions :
    Reads T here before highlightOptions
      (fun options => before ++ options.flatMap HighlightOption.outline) := by
  have hstep (options : List HighlightOption) : Reads T Anywhere
      (before ++ options.reverse.flatMap HighlightOption.outline) (highlightStep options)
      (fun r => before ++ r.value.reverse.flatMap HighlightOption.outline) := by
    refine reads_takeSymbol_bind ?_ (reads_pure rfl)
    refine (reads_optionName hT _ _).bind fun name => (reads_symbol .eq).bind fun _ =>
      reads_string.bind fun value => reads_pure ?_
    simp [ForInStep.value, HighlightOption.outline]
  rw [highlightOptions_eq]
  have hloop : Reads T here before (loop [] highlightStep)
      (fun options => before ++ options.reverse.flatMap HighlightOption.outline) := by
    have h : Reads T here _ _ _ := reads_loop hstep []
    simpa using h
  exact hloop.bind fun options => reads_pure rfl

theorem reads_highlight :
    Reads T (fun u => Spells u "HIGHLIGHT") before highlight
      (fun shape => before ++ shape.outline) := by
  refine reads_callName_as.bind fun _ => (reads_field hT).bind fun f =>
    (reads_highlightOptions hT).bind fun options => (reads_symbol .rightParen).bind fun _ =>
      reads_pure ?_
  simp [CallShape.outline]

end Rules

/-! ## Small clauses -/

theorem reads_direction :
    Reads T here before direction (fun d => before ++ d.elim [] ([·.outline])) := by
  refine reads_takeKeyword_bind (reads_pure rfl) ?_
  refine reads_takeKeyword_bind (reads_pure rfl) (reads_pure ?_)
  simp

theorem reads_nullOrder :
    Reads T here before nullOrder (fun n => before ++ n.elim [] NullOrder.outline) := by
  refine reads_takeKeyword_bind ?_ (reads_pure (by simp))
  refine reads_takeKeyword_bind (reads_pure ?_) ?_
  · simp [NullOrder.outline]
  · refine reads_takeKeyword_bind (reads_pure ?_) (reads_rejectCurrent _)
    simp [NullOrder.outline]

theorem reads_quantifier :
    Reads T here before quantifier (fun q => before ++ q.elim [] ([·.outline])) := by
  refine reads_takeKeyword_bind (reads_pure rfl) ?_
  refine reads_takeKeyword_bind (reads_pure rfl) (reads_pure ?_)
  simp

/-! ## Operators -/

/-- The outline of a test between its operands. -/
def Test.outline : Test → List Item
  | .comparison op => [.symbol op.sign]
  | .isNull negated => .keyword .IS :: negationOutline negated
  | .between negated => negationOutline negated ++ [.keyword .BETWEEN]
  | .like negated => negationOutline negated ++ [.keyword .LIKE]
  | .regexp negated => negationOutline negated ++ [.keyword .REGEXP]
  | .within negated => negationOutline negated ++ [.keyword .IN]

/-- Whether a mark is a symbol or a reserved word of the given kind. -/
inductive Mark.IsFixed : Mark → TokenKind → Prop where
  | symbol (sign : Symbol) : IsFixed (.symbol sign) (.symbol sign)
  | keyword (word : Keyword) : IsFixed (.keyword word) (.keyword word)

/-- A test that starts with a word is known by its first two words. -/
theorem Test.ofWord?_eq_some {negated : Bool} {first second : TokenKind} {test : Test}
    (h : Test.ofWord? negated first second = some test) :
    ∃ word, first = .keyword word ∧ test.outline = negationOutline negated ++ [.keyword word] := by
  unfold Test.ofWord? at h
  split at h
  · cases h
    exact ⟨_, rfl, rfl⟩
  · cases h
    exact ⟨_, rfl, rfl⟩
  · cases h
    exact ⟨_, rfl, rfl⟩
  · cases h
    exact ⟨_, rfl, rfl⟩
  · cases h

/-- A test takes one token or two, each for a mark, unless it is a comparison that is written
apart. -/
theorem Test.ofKinds?_eq_some {first second third : TokenKind} {test : Test} {width : Nat}
    (h : Test.ofKinds? first second third = some (test, width)) :
    (width = 1 ∧ ∃ m, Mark.IsFixed m first ∧ test.outline = [.mark m]) ∨
      (width = 2 ∧ isSplitComparison first second = true) ∨
      width = 2 ∧ ∃ m n, Mark.IsFixed m first ∧ Mark.IsFixed n second ∧
        test.outline = [.mark m, .mark n] := by
  unfold Test.ofKinds? at h
  -- Single signs first, then the comparisons of two signs, then the words with and without `NOT`.
  split at h
  · cases h
    exact .inl ⟨rfl, _, .symbol _, rfl⟩
  · cases h
    exact .inl ⟨rfl, _, .symbol _, rfl⟩
  · cases h
    exact .inl ⟨rfl, _, .symbol _, rfl⟩
  · cases h
    exact .inl ⟨rfl, _, .symbol _, rfl⟩
  · cases h
    exact .inr (.inl ⟨rfl, rfl⟩)
  · cases h
    exact .inr (.inl ⟨rfl, rfl⟩)
  · cases h
    exact .inl ⟨rfl, _, .symbol _, rfl⟩
  · cases h
    exact .inr (.inl ⟨rfl, rfl⟩)
  · cases h
    exact .inl ⟨rfl, _, .symbol _, rfl⟩
  · cases h
    exact .inr (.inr ⟨rfl, _, _, .keyword _, .keyword _, rfl⟩)
  · cases h
    exact .inl ⟨rfl, _, .keyword _, rfl⟩
  · obtain ⟨found, hfound, heq⟩ := Option.map_eq_some_iff.1 h
    cases heq
    obtain ⟨word, rfl, houtline⟩ := Test.ofWord?_eq_some hfound
    exact .inr (.inr ⟨rfl, _, _, .keyword _, .keyword _, houtline⟩)
  · obtain ⟨found, hfound, heq⟩ := Option.map_eq_some_iff.1 h
    cases heq
    obtain ⟨word, rfl, houtline⟩ := Test.ofWord?_eq_some hfound
    exact .inl ⟨rfl, _, .keyword _, houtline⟩

section Operators

/-- A fixed mark is denoted by a token of its kind. -/
theorem Mark.IsFixed.denotes {library : Time.Library} {m : Mark} {u : Token}
    (h : Mark.IsFixed m u.kind) : m.Denotes library u := by
  generalize hkind : u.kind = kind at h
  cases h with
  | symbol sign => exact hkind
  | keyword word => exact hkind

/-- A fixed mark is not the end of the input. -/
theorem Mark.IsFixed.isEnd {m : Mark} {u : Token} (h : Mark.IsFixed m u.kind) : u.isEnd = false := by
  generalize hkind : u.kind = kind at h
  cases h with
  | symbol sign => exact isEnd_of_symbol hkind
  | keyword word => exact isEnd_of_keyword hkind

/-- A fixed mark is written as it is read. -/
theorem Mark.IsFixed.legible {m : Mark} {kind : TokenKind} (h : Mark.IsFixed m kind) :
    (Item.mark m).Legible := by
  cases h with
  | symbol sign => trivial
  | keyword word => trivial

/-- A test can be read back. -/
theorem Test.legible_outline (test : Test) : Legible test.outline := by
  have hnegation (negated : Bool) : Legible (negationOutline negated) := by
    cases negated with
    | false => exact fun _ h => absurd h List.not_mem_nil
    | true => exact fun i h => (List.mem_singleton.1 h) ▸ trivial
  have hmark {m : Mark} (h : (Item.mark m).Legible) : Legible [.mark m] :=
    fun i hi => (List.mem_singleton.1 hi) ▸ h
  cases test with
  | comparison op => exact hmark trivial
  | isNull negated => exact legible_cons.2 ⟨trivial, hnegation negated⟩
  | between negated | like negated | regexp negated | within negated =>
    exact legible_append.2 ⟨hnegation negated, hmark trivial⟩

/-- The tokens of a test stand for its outline. A comparison that is written apart is not plainly
spelled. -/
theorem At.test {items : List Item} (hs : At T items s) {test : Test} {width : Nat}
    (h : Test.at? s.cursor = some (test, width)) :
    At T (items ++ test.outline) (s.skip width) := by
  unfold Test.at? at h
  rw [Cursor.peek_zero] at h
  obtain ⟨rfl, m, hm, houtline⟩ | ⟨rfl, hsplit⟩ | ⟨rfl, m, n, hm, hn, houtline⟩ :=
    Test.ofKinds?_eq_some h
  · rw [houtline]
    exact hs.take hm.isEnd hm.legible fun _ _ => hm.denotes
  · have hend : s.cursor.current.isEnd = false := by
      refine isEnd_eq_false fun hkind => ?_
      rw [hkind] at hsplit
      cases hsplit
    refine hs.of_not_plain (s.leads_skip 2) ?_ ?_
    · exact legible_append.2 ⟨hs.legible, test.legible_outline⟩
    · intro hplain _
      have hinfix := Cursor.current_peek_infix hend
      rw [hs.allTokens] at hinfix
      exact absurd (hsplit.symm.trans (hplain.comparisons _ _ hinfix)) nofun
  · have hpeek := Cursor.current_skip_one hm.isEnd
    have hnext : Mark.IsFixed n (s.skip 1).cursor.current.kind := by
      rw [State.skip_cursor, hpeek]
      exact hn
    have hat := (hs.take hm.isEnd hm.legible fun _ _ => hm.denotes).take hnext.isEnd hnext.legible
      fun _ _ => hnext.denotes
    rw [houtline, ← s.skip_skip_one 1]
    simpa using hat

/-- The word of an arithmetic operator is known by its spelling. -/
theorem ArithmeticOp.denotes_of_ofKind? {u : Token} (hsound : u.Sound) {op : ArithmeticOp}
    (h : ArithmeticOp.ofKind? u.kind = some op) :
    ∃ m, op.outline = .mark m ∧ (Item.mark m).Legible ∧
      (∀ {library : Time.Library}, m.Denotes library u) ∧ u.isEnd = false := by
  unfold ArithmeticOp.ofKind? at h
  split at h
  · next hkind =>
    cases h
    exact ⟨_, rfl, trivial, hkind, isEnd_of_symbol hkind⟩
  · next hkind =>
    cases h
    exact ⟨_, rfl, trivial, hkind, isEnd_of_symbol hkind⟩
  · next hkind =>
    cases h
    exact ⟨_, rfl, trivial, hkind, isEnd_of_symbol hkind⟩
  · next hkind =>
    cases h
    exact ⟨_, rfl, trivial, hkind, isEnd_of_symbol hkind⟩
  · next hkind =>
    cases h
    exact ⟨_, rfl, trivial, hkind, isEnd_of_symbol hkind⟩
  · next word hkind =>
    have hspells {text : String} (hsame : Text.sameWord word text = true)
        (hform : Ident.isBareForm text.toList = true) :=
      spells_of_name hsound hkind hsame hform
    split at h
    · next hsame =>
      cases h
      have hword := hspells hsame (by decide)
      exact ⟨_, rfl, hword.2, hword.1, isEnd_of_spells hword⟩
    · split at h
      · next hsame =>
        cases h
        have hword := hspells hsame (by decide)
        exact ⟨_, rfl, hword.2, hword.1, isEnd_of_spells hword⟩
      · cases h
  · cases h

end Operators


/-! ## Rules that call others -/

/-- A rule that starts with the name of a function whose family has one name. -/
theorem spells_of_family {u : Token} (hsound : u.Sound) {family : FunctionFamily} {text : String}
    (htext : family.text? = some text) (h : (Nonterminal.shape family).Opens u) : Spells u text := by
  obtain ⟨value, hkind, hfamily⟩ := h
  obtain ⟨hform, hupper⟩ := FunctionFamily.isBareForm_text htext
  refine spells_of_name hsound hkind ?_ hform
  unfold Text.sameWord
  rw [hupper, FunctionFamily.upper_of_ofUpper? hfamily htext, beq_self_eq_true]

/-- The name of a function is a word. -/
theorem isBare_of_family {u : Token} {family : FunctionFamily}
    (h : (Nonterminal.shape family).Opens u) : IsBare u := by
  obtain ⟨value, hkind, -⟩ := h
  exact .inl (by rw [hkind]; rfl)

section Callees

variable {call : Callee} (hT : Scanned T) (hcall : AllRead T call)

include hcall

/-- What a callee reads that may start anywhere. -/
theorem AllRead.anywhere (n : Nonterminal α) (hopens : n.Opens = Anywhere) (hbehind : n.behind = []) :
    Reads T here before (call n) (fun a => before ++ n.outline a) := by
  have h := hcall n
  rw [hopens, hbehind] at h
  exact h.behind.weaken

/-- Expressions are read by their rule. -/
theorem AllRead.expr :
    Reads T here before (call .wholeExpr) (fun e => before ++ e.outline) :=
  hcall.anywhere .wholeExpr rfl rfl

/-- So are lists of them. -/
theorem AllRead.commaExprs (rule : String) :
    Reads T here before (Parser.commaSeparated rule (call .wholeExpr))
      (fun es => before ++ separated .comma (outlineAll es)) := by
  have h : Reads T Anywhere [] (call .wholeExpr) Expr.outline := hcall .wholeExpr
  simpa only [outlineAll_eq_map] using h.commaSeparated rule

theorem AllRead.searchValue :
    Reads T here before (call .searchValue) (fun value => before ++ value.outline) :=
  hcall.anywhere .searchValue rfl rfl

include hT

theorem reads_intervalRule :
    Reads T here before (intervalRule call) (fun value => before ++ value.outline) := by
  refine (reads_keyword .INTERVAL).bind fun _ => hcall.expr.bind fun amount =>
    (reads_datetimeUnit hT).bind fun unit => reads_pure ?_
  simp [Literal.outline]

theorem reads_literalRule :
    Reads T here before (literalRule call) (fun value => before ++ value.outline) := by
  refine reads_sound_bind hT fun u hsound _ => ?_
  split
  · next value hkind =>
    exact reads_simpleLiteral (m := .string value) rfl (isEnd_eq_false (by rw [hkind]; nofun))
      trivial hkind
  · exact reads_bracedLiteral
  · next hkind => exact reads_simpleLiteral rfl (isEnd_of_keyword hkind) trivial hkind
  · next hkind => exact reads_simpleLiteral rfl (isEnd_of_keyword hkind) trivial hkind
  · next hkind => exact reads_simpleLiteral rfl (isEnd_of_keyword hkind) trivial hkind
  · exact hcall.anywhere .interval rfl rfl
  · next word hkind =>
    split
    · next kind hword =>
      intro front s value t hs hhere heq
      have hopens : s.cursor.current.kind = .keyword kind.word := by
        rw [hhere.1, hkind, TemporalKind.ofKeyword?_eq_some hword]
      exact reads_wordLiteral kind front s value t hs hopens heq
    · exact reads_rejectCurrent _
  · next word hkind =>
    split
    · next name hword =>
      intro front s value t hs hhere heq
      have hspells : Spells s.cursor.current name.text := by
        rw [hhere.1]
        exact spells_of_name hsound hkind (Text.sameWord_of_findSpelling hword) name.isBareForm_text
      exact reads_datetimeConstant name front s value t hs hspells heq
    · exact reads_rejectCurrent _
  · exact reads_rejectCurrent _

theorem reads_constantRule :
    Reads T here before (constantRule call) (fun c => before ++ c.outline) := by
  have hother : Reads T Anywhere before (do
      let start := (← current).span
      let value ← literalRule call
      return ⟨value, ← spanFrom start⟩ : Parser Constant) (fun c => before ++ c.outline) := by
    refine reads_current_bind fun u => (reads_literalRule hT hcall).bind fun value =>
      reads_spanFrom_bind fun span => ?_
    intro front s c t hs _ heq
    obtain ⟨rfl, rfl⟩ := pure_eq_ok_iff.1 heq
    rw [← List.append_assoc] at hs ⊢
    exact hs.constant span
  refine reads_current_bind fun u => ?_
  split
  · exact reads_number hT
  · exact reads_number hT
  · exact reads_number hT
  · exact reads_number hT
  · exact hother.weaken

omit hT in
/-- Arguments are read up to the parenthesis that closes them. -/
theorem reads_argumentsRule :
    Reads T here before (argumentsRule call)
      (fun args => before ++ (separated .comma (outlineAll args) ++ [.symbol .rightParen])) := by
  refine reads_takeSymbol_bind (reads_pure rfl) ?_
  refine (hcall.commaExprs _).bind fun args => (reads_symbol .rightParen).bind fun _ => reads_pure ?_
  simp

/-- A function is read from its name on. -/
theorem reads_scalarRule (category : ScalarCategory) :
    Reads T IsBare before (scalarRule call category) (fun shape => before ++ shape.outline) := by
  refine (reads_callName hT).bind fun name => (hcall.anywhere .arguments rfl rfl).bind fun args =>
    reads_pure ?_
  simp [CallShape.outline, Nonterminal.outline]

omit hT in
theorem reads_caseBranches :
    Reads T here before (caseBranches call) (fun branches => before ++ outlineBranches branches) := by
  have hstep (branches : List CaseBranch) : Reads T Anywhere
      (before ++ branches.reverse.flatMap CaseBranch.outline) (caseStep call branches)
      (fun r => before ++ r.value.reverse.flatMap CaseBranch.outline) := by
    refine reads_takeKeyword_bind ?_ (reads_pure rfl)
    refine hcall.expr.bind fun condition => (reads_keyword .THEN).bind fun _ =>
      hcall.expr.bind fun result => reads_pure ?_
    simp [ForInStep.value, CaseBranch.outline]
  have hloop : Reads T here before (loop [] (caseStep call))
      (fun branches => before ++ branches.reverse.flatMap CaseBranch.outline) := by
    have h : Reads T here _ _ _ := reads_loop hstep []
    simpa using h
  rw [caseBranches_eq]
  exact hloop.bind fun branches => reads_pure (by rw [outlineBranches_eq_flatMap])

omit hT in
/-- What was read in front of the end of a `CASE` belongs to its outline. -/
theorem reads_caseEnd (operand : Option Expr) (branches : List CaseBranch) :
    Reads T here
      (before ++ .keyword .CASE :: outlineOptional [] operand ++ outlineBranches branches)
      (caseEnd call operand branches) (fun shape => before ++ shape.outline) := by
  have hend (otherwise : Option Expr) : Reads T Anywhere
      (before ++ .keyword .CASE :: outlineOptional [] operand ++ outlineBranches branches ++
        outlineOptional [.keyword .ELSE] otherwise)
      (do
        let _ ← keyword .END
        return .case operand branches otherwise : Parser CallShape)
      (fun shape => before ++ shape.outline) := by
    refine (reads_keyword .END).bind fun _ => reads_pure ?_
    simp [CallShape.outline]
  unfold caseEnd
  dsimp only
  split
  · exact reads_rejectCurrent_bind _ _
  refine reads_takeKeyword_bind ?_ ?_
  · refine (Reads.map hcall.expr ?_).bind hend
    intro e
    simp [outlineOptional]
  · refine Reads.bind (reads_pure ?_) hend
    simp [outlineOptional]

omit hT in
theorem reads_caseRule :
    Reads T here before (caseRule call) (fun shape => before ++ shape.outline) := by
  have hrest (operand : Option Expr) : Reads T Anywhere
      (before ++ .keyword .CASE :: outlineOptional [] operand) (do
        let branches ← caseBranches call
        caseEnd call operand branches) (fun shape => before ++ shape.outline) :=
    (reads_caseBranches hcall).bind fun branches => reads_caseEnd hcall operand branches
  refine (reads_keyword .CASE).bind fun _ => reads_atKeyword_bind ?_ ?_
  · exact Reads.bind (reads_pure (by simp [outlineOptional])) hrest
  · refine (Reads.map hcall.expr ?_).bind hrest
    intro e
    simp [outlineOptional]

theorem reads_castRule :
    Reads T here before (castRule call) (fun shape => before ++ shape.outline) := by
  refine (reads_keyword .CAST).bind fun _ => (reads_symbol .leftParen).bind fun _ =>
    hcall.expr.bind fun expr => (reads_keyword .AS).bind fun _ =>
      (reads_dataType hT).bind fun target => (reads_symbol .rightParen).bind fun _ => reads_pure ?_
  simp [CallShape.outline]

omit hT in
/-- `POSITION` is read with `IN` between its operands. -/
theorem reads_positionRule :
    Reads T (fun u => Spells u "POSITION") before (positionRule call)
      (fun shape => before ++ shape.outline) := by
  refine reads_callName_as.bind fun _ => hcall.expr.atSeparator.bind fun substring =>
    (reads_keyword .IN).bind fun _ => hcall.expr.bind fun string =>
      (reads_symbol .rightParen).bind fun _ => reads_pure ?_
  simp [CallShape.outline]

theorem reads_extractRule :
    Reads T (fun u => Spells u "EXTRACT") before (extractRule call)
      (fun shape => before ++ shape.outline) := by
  refine reads_callName_as.bind fun _ => (reads_datetimeUnit hT).bind fun unit =>
    (reads_keyword .FROM).bind fun _ => hcall.expr.bind fun arg =>
      (reads_symbol .rightParen).bind fun _ => reads_pure ?_
  simp [CallShape.outline]

omit hT in
theorem reads_getFormatRule :
    Reads T (fun u => Spells u "GET_FORMAT") before (getFormatRule call)
      (fun shape => before ++ shape.outline) := by
  refine reads_callName_as.bind fun _ => reads_formatTarget.bind fun target =>
    (reads_symbol .comma).bind fun _ => hcall.expr.bind fun format =>
      (reads_symbol .rightParen).bind fun _ => reads_pure ?_
  simp [CallShape.outline]

theorem reads_timestampRule (function : TimestampFunction) :
    Reads T (fun u => Spells u function.text) before (timestampRule call function)
      (fun shape => before ++ shape.outline) := by
  refine reads_callName_as.bind fun _ => (reads_singleUnit hT).bind fun unit =>
    (reads_symbol .comma).bind fun _ => hcall.expr.bind fun first =>
      (reads_symbol .comma).bind fun _ => hcall.expr.bind fun second =>
        (reads_symbol .rightParen).bind fun _ => reads_pure ?_
  simp [CallShape.outline]

/-- A callee whose opening the rule in front has seen to. -/
theorem AllRead.opening (n : Nonterminal α) (hbehind : n.behind = [])
    (hopens : ∀ u : Token, u.Sound → here u → n.Opens u) :
    Reads T here before (call n) (fun a => before ++ n.outline a) := by
  have h := hcall n
  rw [hbehind] at h
  exact h.behind.opening hT hopens

theorem reads_shapeRule (family : FunctionFamily) :
    Reads T (Nonterminal.shape family).Opens before (shapeRule call family)
      (fun shape => before ++ shape.outline) := by
  have hbare (u : Token) (_ : u.Sound) (h : (Nonterminal.shape family).Opens u) : IsBare u :=
    isBare_of_family h
  have hspells {text : String} (htext : family.text? = some text) (u : Token) (hsound : u.Sound)
      (h : (Nonterminal.shape family).Opens u) : Spells u text := spells_of_family hsound htext h
  have htail (aggregate : Aggregate) : Reads T Anywhere (before ++ aggregate.outline)
      (call (.aggregateTail aggregate)) (fun shape => before ++ shape.outline) := by
    intro front s shape t hs hhere heq
    rw [← List.append_assoc] at hs ⊢
    exact hcall (.aggregateTail aggregate) _ s shape t hs hhere heq
  cases family with
  | nested =>
    refine reads_get_bind fun s => ?_
    split
    · exact (reads_nestedAll hT).opening hT fun u hu h => hbare u hu h.2
    · exact hcall.opening hT (.scalar .nested) rfl fun u hu h => hbare u hu h.2
  | scalar category => exact hcall.opening hT (.scalar category) rfl hbare
  | ranking function => exact hcall.opening hT (.ranking function) rfl (hspells rfl)
  | aggregate function =>
    exact (hcall.opening hT (.aggregate function) rfl (hspells rfl)).bind htail
  | percentile function =>
    exact (hcall.opening hT (.percentile function) rfl (hspells rfl)).bind htail
  | score => exact hcall.opening hT .score rfl hbare
  | relevance kind =>
    exact (hcall.opening hT (.relevance kind) rfl hbare).bind fun _ => reads_pure rfl
  | highlight => exact (reads_highlight hT).opening hT (hspells rfl)
  | position => exact hcall.opening hT .position rfl (hspells rfl)
  | extract => exact hcall.opening hT .extract rfl (hspells rfl)
  | getFormat => exact hcall.opening hT .getFormat rfl (hspells rfl)
  | timestamp function => exact hcall.opening hT (.timestamp function) rfl (hspells rfl)

/-- The form of a call is read from the name of its function on. -/
theorem reads_callShape :
    Reads T here before (callShape call) (fun shape => before ++ shape.outline) := by
  have hword {u : Token} {word : Keyword} (hkind : u.kind = .keyword word) :
      Reads T (fun v => v = u ∧ here v) before (call (.scalar .dateTime))
        (fun shape => before ++ shape.outline) := by
    refine hcall.opening hT (.scalar .dateTime) rfl ?_
    rintro _ - ⟨rfl, -⟩
    exact .inr (by rw [hkind]; rfl)
  refine reads_current_bind fun u => ?_
  split
  · exact hcall.anywhere .case rfl rfl
  · exact hcall.anywhere .cast rfl rfl
  · next hkind => exact hword hkind
  · next hkind => exact hword hkind
  · next hkind => exact hword hkind
  · next hkind => exact hword hkind
  · next name hkind =>
    split
    · next family hfamily =>
      refine hcall.opening hT (.shape family) rfl ?_
      rintro _ - ⟨rfl, -⟩
      exact ⟨name, hkind, hfamily⟩
    · exact reads_reject _
  · exact reads_reject _

theorem reads_callRule :
    Reads T here before (callRule call) (fun f => before ++ f.outline) := by
  rw [callRule_eq]
  refine Reads.nest (reads_current_bind fun u => (reads_callShape hT hcall).bind fun shape =>
    reads_spanFrom_bind fun span => reads_pure ?_) 1
  rfl

end Callees

end Grammar

end SearchSql
