import SearchSql.Proofs.ConstantRetracing
import SearchSql.Proofs.LookingOver

/-!
# Retracing calls

A call in front of written tokens was in front of the source as well, with the same word and the same
parentheses.
-/

set_option autoImplicit false

namespace SearchSql.Grammar

open SearchSql.Grammar.Parser SearchSql.Token

variable {library : Time.Library} {α β : Type} [Erases α] [Erases β] {s t : State} {c d : Cursor}
variable {items before : List Item} {tokens rest : List Token} {here : Token → Prop}
variable {front R : Outlook} {call : Callee}

/-! ## Names of calls -/

/-- A token ahead is one nearer behind a step. -/
theorem peek_skip_one (h : c.current.isEnd = false) (k : Nat) :
    (c.skip 1).peek k = c.peek (k + 1) := by
  have hclosing : (c.skip 1).closing = c.closing := c.closing_advance
  unfold Cursor.peek
  rw [hclosing, ahead_eq_cons h, List.getElem?_cons_succ]

/-- The same word, reserved or not, in any case of its letters. -/
inductive SameWord : TokenKind → TokenKind → Prop where
  | keyword (word : Keyword) : SameWord (.keyword word) (.keyword word)
  | name {value value' : String} : Text.upper value = Text.upper value' →
      SameWord (.name value) (.name value')

/-- The same word is the same bare word. -/
theorem SameWord.bareWord? {kind kind' : TokenKind} (h : SameWord kind kind') :
    kind.bareWord? = kind'.bareWord? := by
  cases h with
  | keyword word => rfl
  | name h => exact congrArg some h

/-- A word is written like the token that spells it. -/
theorem sameWord_of_spells {u : Token} {text : String} (h : Spells u text) :
    SameWord u.kind (Mark.word text).token.kind := by
  obtain ⟨⟨v, hkind, hsame⟩, -⟩ := h
  have hupper : Text.upper v = Text.upper text := eq_of_beq hsame
  have hword : Keyword.ofText? v = Keyword.ofText? text := by
    simp only [Keyword.ofText?, Text.findSpelling, hupper]
  rw [hkind]
  show SameWord (bareKind v) (bareKind text)
  unfold bareKind
  rw [hword]
  cases Keyword.ofText? text with
  | some word => exact .keyword word
  | none => exact .name hupper

/-- A call of the same function is in front of both. If the written call has no arguments, neither has
the one in the source. -/
structure Calls (c : Cursor) (tokens : List Token) : Prop where
  word : SameWord c.current.kind (kindAt tokens 0)
  paren : (c.peek 1).kind = .symbol .leftParen
  written : kindAt tokens 1 = .symbol .leftParen
  close : kindAt tokens 2 = .symbol .rightParen → (c.peek 2).kind = .symbol .rightParen

/-- What is in front of a written call is a word. -/
theorem Calls.ne {kind : TokenKind} (h : Calls c tokens) (hname : kind.isBareName = false)
    (hkeyword : kind.keyword? = none) : kindAt tokens 0 ≠ kind := by
  rintro rfl
  have hword := h.word
  generalize kindAt tokens 0 = written at hword hname hkeyword
  generalize c.current.kind = kind at hword
  cases hword with
  | keyword word => cases hkeyword
  | name _ => cases hname

/-- A call was read from a name with a parenthesis behind it. -/
theorem callName_eq_ok {name : String} (h : callName s = .ok name t) :
    name = s.cursor.current.text ∧ (s.skip 1).cursor.current.kind = .symbol .leftParen ∧
      t = (s.skip 1).skip 1 := by
  unfold callName at h
  rw [current_bind_apply, skip_bind_apply] at h
  obtain ⟨_, u, hparen, hrest⟩ := bind_eq_ok_iff.1 h
  obtain ⟨hkind, -, rfl⟩ := symbol_eq_ok_iff.1 hparen
  obtain ⟨rfl, rfl⟩ := pure_eq_ok_iff.1 hrest
  exact ⟨rfl, hkind, rfl⟩

/-- What a name and a parenthesis open is retraced. -/
theorem retraces_callName_bind {text name : String} {N : Outlook} {f f' : String → Parser α}
    {after : α → List Item} {rears : α → Outlook}
    (hclose : ∀ d tokens, N d tokens → kindAt tokens 0 = .symbol .rightParen →
      d.current.kind = .symbol .rightParen)
    (hfront : ∀ d e tokens, Calls d tokens → N e (tokens.drop 2) → front d tokens)
    (h : Retraces Anywhere N (before ++ [.word text, .symbol .leftParen]) (f name) (f' text) after
      rears) :
    Retraces (fun u => Spells u text ∧ u.text = name) front before (callName >>= f)
      (callName >>= f') after rears := by
  intro s a t hs hhere heq
  obtain ⟨found, u, hname, hrest⟩ := bind_eq_ok_iff.1 heq
  obtain ⟨rfl, hparen, rfl⟩ := callName_eq_ok hname
  obtain ⟨hspells, rfl⟩ := hhere
  obtain ⟨js, hafter, hr⟩ := h ((s.skip 1).skip 1) a t ((hs.skip 1).skip 1) trivial hrest
  have hend : s.cursor.current.isEnd = false := isEnd_of_spells hspells
  have hendWritten : (Mark.word text).token.isEnd = false := isEnd_of_bareKind (v := text) rfl
  refine ⟨.word text :: .symbol .leftParen :: js, by rw [hafter]; simp,
    (s.leads_skip 1).trans (((s.skip 1).leads_skip 1).trans hr.leads), ?_, ?_⟩
  · intro rest hfine hrear
    have hnext := hr.front rest hfine.tail.tail hrear
    refine hfront _ _ _ ⟨sameWord_of_spells hspells, ?_, rfl, fun hkind => ?_⟩ hnext
    · rw [← Cursor.current_skip_one hend]
      exact hparen
    · have hright := hclose _ _ hnext hkind
      rw [State.skip_cursor, Cursor.current_skip_one (isEnd_of_symbol hparen), State.skip_cursor,
        peek_skip_one hend] at hright
      exact hright
  · intro s' rest hfine htwin hfaces hrear
    have hfaces' : s'.Faces ((Mark.word text).token :: ofSymbol .leftParen ::
        (writtenTokens js ++ rest)) := hfaces
    rw [bind_of_ok (callName_of_faces hendWritten hfaces').1]
    exact hr.again _ rest hfine.tail.tail ((htwin.skip 1 1).skip 1 1)
      ((hfaces'.skip hendWritten).skip rfl) hrear

/-- A call under its own name is retraced. -/
theorem retraces_named_bind {N : Outlook} {f f' : String → Parser α} {after : α → List Item}
    {rears : α → Outlook}
    (hclose : ∀ d tokens, N d tokens → kindAt tokens 0 = .symbol .rightParen →
      d.current.kind = .symbol .rightParen)
    (hfront : ∀ d e tokens, Calls d tokens → N e (tokens.drop 2) → front d tokens)
    (h : ∀ name, Retraces Anywhere N (before ++ [.word name, .symbol .leftParen]) (f name) (f' name)
      after rears) :
    Retraces IsBare front before (callName >>= f) (callName >>= f') after rears :=
  fun s a t hs hhere heq => retraces_callName_bind hclose hfront (h s.cursor.current.text) s a t hs
    ⟨spells_text hs.ready.current hhere, rfl⟩ heq

/-- A call of a function with a single name is retraced. -/
theorem retraces_spelled_bind {text : String} {N : Outlook} {p q : Parser α} {after : α → List Item}
    {rears : α → Outlook}
    (hclose : ∀ d tokens, N d tokens → kindAt tokens 0 = .symbol .rightParen →
      d.current.kind = .symbol .rightParen)
    (h : Retraces Anywhere N (before ++ [.word text, .symbol .leftParen]) p q after rears) :
    Retraces (fun u => Spells u text) Calls before (callName >>= fun _ => p)
      (callName >>= fun _ => q) after rears :=
  fun s a t hs hhere heq => by
    have hbind : Retraces (fun u => Spells u text ∧ u.text = s.cursor.current.text) Calls before
        (callName >>= fun _ => p) (callName >>= fun _ => q) after rears :=
      retraces_callName_bind hclose (fun _ _ _ hcalls _ => hcalls) h
    exact hbind s a t hs ⟨hhere, rfl⟩ heq

/-! ## Calls without recursion -/

/-- A path and all of its fields are in front of the written tokens. -/
def Starred : Outlook := fun _ tokens => ∃ rest, afterName? tokens = some rest ∧
  kindAt rest 0 = .symbol .dot ∧ kindAt rest 1 = .symbol .star ∧ kindAt rest 2 = .symbol .rightParen

/-- What is written for a nested field with a star starts as one. -/
theorem Starred.startsNestedAll (h : Starred d (tokens.drop 2)) (hcalls : Calls c tokens) :
    startsNestedAll tokens = true := startsNestedAll_iff.2 ⟨hcalls.written, h⟩

/-- The end of a path with all of its fields is in front of the written tokens. -/
def PathEnds : Outlook := fun _ tokens =>
  kindAt tokens 0 = .symbol .dot ∧ kindAt tokens 1 = .symbol .star ∧
    kindAt tokens 2 = .symbol .rightParen

/-- A name ends in front of the comma or parenthesis that ends a path. -/
theorem PathEnds.nameEnds (h : PathEnds c tokens) : NameEnds tokens := by
  rintro ⟨-, hname⟩
  rw [h.2.1] at hname
  cases hname

/-- A nested field with a star is retraced with its name. -/
theorem retraces_nestedAll :
    Retraces IsBare (fun c tokens => Calls c tokens ∧ startsNestedAll tokens = true) before nestedAll
      nestedAll (fun shape => before ++ shape.outline) (fun _ => R) := by
  refine retraces_named_bind (N := Starred) (fun _ _ hstarred hkind => ?_)
    (fun _ _ _ hcalls hstarred => ⟨hcalls, hstarred.startsNestedAll hcalls⟩) fun name => ?_
  · obtain ⟨rest, hrest, -⟩ := hstarred
    rw [afterName?_of_isFieldless (by rw [hkind]; rfl)] at hrest
    cases hrest
  · refine (retraces_qualifiedName (R := PathEnds) ?_ fun _ _ h => h.nameEnds).bind
      fun path path' hpath => ?_
    · intro s path t rest _ hfine hends
      exact ⟨rest, afterName?_written hfine hends.nameEnds, hends⟩
    · refine (retraces_symbol_of (N := fun _ tokens => kindAt tokens 0 = .symbol .star ∧
        kindAt tokens 1 = .symbol .rightParen) fun _ _ _ h => ⟨rfl, h⟩).bind fun _ _ _ => ?_
      refine (retraces_symbol_of (N := fun _ tokens => kindAt tokens 0 = .symbol .rightParen)
        fun _ _ _ h => ⟨rfl, h⟩).bind fun _ _ _ => ?_
      refine (retraces_symbol_of (N := R) fun _ _ _ _ => rfl).bind fun _ _ _ =>
        retraces_pure ?_ (congrArg (CallShape.nestedAll name) hpath)
      simp [CallShape.outline]

/-- A comma or a closing parenthesis is in front of both. -/
def Listed : Outlook := fun c tokens =>
  Meets (.symbol .comma) c tokens ∨ Meets (.symbol .rightParen) c tokens

/-- No list goes on with a dot. -/
theorem Listed.ne_dot (h : Listed c tokens) : kindAt tokens 0 ≠ .symbol .dot := by
  rcases h with ⟨-, h⟩ | ⟨-, h⟩
  · exact h.trans_ne (by decide)
  · exact h.trans_ne (by decide)

theorem retraces_highlightOptions :
    Retraces here Listed before highlightOptions highlightOptions
      (fun options => before ++ options.flatMap HighlightOption.outline)
      (fun _ => Meets (.symbol .rightParen)) := by
  have hstep (options options' : List HighlightOption) (hoptions : erase options = erase options') :
      Retraces Anywhere Listed (before ++ options.reverse.flatMap HighlightOption.outline)
        (highlightStep options) (highlightStep options')
        (fun r => before ++ r.value.reverse.flatMap HighlightOption.outline)
        (roundOutlook Listed (Meets (.symbol .rightParen))) := by
    refine retraces_takeSymbol_bind (N := Outlook.any) ?_
      (retraces_pure_of rfl (congrArg ForInStep.done hoptions) fun _ _ h => h)
      (fun _ _ hkind _ => .inl ⟨hkind, rfl⟩)
      fun _ _ _ hclose => ⟨.inr hclose, hclose.2.trans_ne (by decide)⟩
    refine (retraces_optionName _ _ (R := Meets (.symbol .eq))).starting (fun _ _ _ _ => trivial)
      |>.bind fun name name' hname => ?_
    refine (retraces_symbol .eq (N := Outlook.any)).bind fun _ _ _ => ?_
    refine (retraces_string (R := Listed)).bind fun value value' hvalue => ?_
    obtain rfl : name = name' := hname
    obtain rfl : value = value' := hvalue
    refine retraces_pure_of ?_ (congrArg ForInStep.yield (erase_cons.2 ⟨rfl, hoptions⟩))
      fun _ _ h => h
    simp [ForInStep.value, HighlightOption.outline]
  have hloop : Retraces here Listed before (loop [] highlightStep) (loop [] highlightStep)
      (fun options => before ++ options.reverse.flatMap HighlightOption.outline)
      (fun _ => Meets (.symbol .rightParen)) := by
    have h : Retraces here _ _ (loop [] highlightStep) _ _ _ :=
      retraces_loop Congruence.advances_highlightStep hstep rfl
    simpa using h
  rw [highlightOptions_eq]
  exact hloop.bind fun options options' hoptions => retraces_pure rfl (erase_reverse hoptions)

theorem retraces_highlight :
    Retraces (fun u => Spells u "HIGHLIGHT") Calls before highlight highlight
      (fun shape => before ++ shape.outline) (fun _ => R) := by
  refine retraces_spelled_bind (N := Unclosed) (fun _ _ hunclosed hkind => absurd hkind hunclosed) ?_
  refine (retraces_field (R := Listed) (fun _ _ _ _ _ hfine _ => unclosed_field hfine)
    fun _ _ hlisted => nameEnds_of_ne_dot hlisted.ne_dot).bind fun f f' hf => ?_
  refine retraces_highlightOptions.bind fun options options' hoptions => ?_
  refine (retraces_symbol .rightParen (N := R)).bind fun _ _ _ => retraces_pure ?_ ?_
  · simp [CallShape.outline]
  · exact congrArg₂ CallShape.highlight hf hoptions

/-! ## Small clauses -/

/-- A reserved word that tells what follows is in front of the source if it is in front of the written
tokens. -/
def Keyed : Outlook := fun c tokens =>
  ∀ word, kindAt tokens 0 = .keyword word → word ≠ .AS → c.current.kind = .keyword word

theorem Alike.keyed (h : Alike c tokens) : Keyed c tokens := h.keyword

/-- A reserved word that the source does not go on with is not written. -/
theorem Keyed.ne {word : Keyword} (h : Keyed c tokens) (hword : word ≠ .AS)
    (hne : c.current.kind ≠ .keyword word) : kindAt tokens 0 ≠ .keyword word :=
  fun hkind => hne (h word hkind hword)

/-- Where the source has a reserved word, what is written behind an expression may start with it. -/
theorem alike_of_keyword {word : Keyword} (h : c.current.kind = .keyword word)
    (hplain : isPlainOutlook (.keyword word) = true) (horder : word ≠ .ORDER) :
    Alike c (ofKeyword word :: rest) :=
  Meets.alike ⟨h, rfl⟩ hplain fun heq => horder (TokenKind.keyword.inj heq)

/-- A direction is written if there is one. -/
theorem retraces_direction :
    Retraces here Alike before direction direction (fun d => before ++ d.elim [] ([·.outline]))
      (fun _ => Alike) := by
  refine retraces_takeKeyword_bind (N := Alike) (retraces_pure rfl rfl) ?_
    (fun _ _ hkind _ => alike_of_keyword hkind rfl (by decide))
    fun _ _ hkind halike => ⟨halike, halike.keyed.ne (by decide) hkind⟩
  refine retraces_takeKeyword_bind (N := Alike) (retraces_pure rfl rfl) (retraces_pure (by simp) rfl)
    (fun _ _ hkind _ => alike_of_keyword hkind rfl (by decide))
    fun _ _ hkind halike => ⟨halike, halike.keyed.ne (by decide) hkind⟩

theorem retraces_nullOrder :
    Retraces here Alike before nullOrder nullOrder (fun n => before ++ n.elim [] NullOrder.outline)
      (fun _ => Alike) := by
  refine retraces_takeKeyword_bind (N := Outlook.any) ?_ (retraces_pure (by simp) rfl)
    (fun _ _ hkind _ => alike_of_keyword hkind rfl (by decide))
    fun _ _ hkind halike => ⟨halike, halike.keyed.ne (by decide) hkind⟩
  refine retraces_takeKeyword_bind (N := Alike) (U := Meets (.keyword .LAST))
    (retraces_pure (by simp [NullOrder.outline]) rfl) ?_ (fun _ _ _ _ => trivial)
    fun _ _ _ hlast => ⟨trivial, hlast.2.trans_ne (by decide)⟩
  refine retraces_takeKeyword_bind (N := Alike) (U := Meets (.keyword .LAST))
    (retraces_pure (by simp [NullOrder.outline]) rfl) (retraces_rejectCurrent _)
    (fun _ _ hkind _ => ⟨hkind, rfl⟩) fun _ _ hkind hlast => absurd hlast.1 hkind

/-! ## The outlooks of rules -/

/-- Arguments or the parenthesis that closes them are in front. -/
def Arguments : Outlook := fun c tokens => Meets (.symbol .rightParen) c tokens ∨ Heads c tokens

/-- A call is in front that may start an expression. -/
def OpeningCalls : Outlook := fun c tokens =>
  Meets (.keyword .CASE) c tokens ∨ Meets (.keyword .CAST) c tokens ∨
    Calls c tokens ∧ isOpening (kindAt tokens 0) = true

/-- A relevance function behind its field is in front. -/
def FieldFirst : Outlook := fun c tokens => Heads c tokens ∧ startsFieldEquals tokens = true

/-- An argument with a name is in front of the written tokens. -/
def Named : Outlook := fun _ tokens => startsNamedArgument (kindAt tokens 0) (kindAt tokens 1) = true

/-- An item of the select list is in front. -/
def Selects : Outlook := fun c tokens => Meets (.symbol .star) c tokens ∨ Heads c tokens

/-- The outlook behind a query: the end of what is written, or a closing parenthesis. -/
def Ended : Outlook := fun c tokens =>
  kindAt tokens 0 = .endOfInput ∨ Meets (.symbol .rightParen) c tokens

namespace Nonterminal

/-- What a rule builds, seen without places and quotes. -/
@[reducible] def erases : {α : Type} → Nonterminal α → Erases α
  | _, .expr _ => inferInstance
  | _, .predicate _ => inferInstance
  | _, .arithmetic _ | _, .operand | _, .parenthesized => inferInstance
  | _, .constant => inferInstance
  | _, .interval => inferInstance
  | _, .call => inferInstance
  | _, .shape _ | _, .scalar _ | _, .case | _, .cast | _, .ranking _ | _, .aggregateTail _
  | _, .score | _, .position | _, .extract | _, .getFormat | _, .timestamp _ => inferInstance
  | _, .arguments => inferInstance
  | _, .aggregate _ | _, .percentile _ => inferInstance
  | _, .window => inferInstance
  | _, .filter => inferInstance
  | _, .orderBy => inferInstance
  | _, .orderItem => inferInstance
  | _, .relevance _ | _, .fieldEquals => inferInstance
  | _, .namedArguments => inferInstance
  | _, .searchValue => inferInstance
  | _, .relevanceOptions => inferInstance
  | _, .selectItems => inferInstance
  | _, .selectItem _ => inferInstance
  | _, .relation => inferInstance
  | _, .condition _ => inferInstance
  | _, .groupBy => inferInstance
  | _, .query => inferInstance

/-- The outlook in front of what a rule takes. -/
def Starts : {α : Type} → Nonterminal α → Outlook
  | _, .expr _ | _, .orderItem => Heads
  | _, .predicate _ | _, .arithmetic _ | _, .operand => Operands
  | _, .parenthesized => Meets (.symbol .leftParen)
  | _, .constant => Constants
  | _, .interval => Meets (.keyword .INTERVAL)
  | _, .call => OpeningCalls
  | _, .scalar _ => fun c tokens => Calls c tokens ∧ startsNestedAll tokens = false
  | _, .case => Meets (.keyword .CASE)
  | _, .cast => Meets (.keyword .CAST)
  | _, .shape _ | _, .ranking _ | _, .aggregate _ | _, .percentile _ | _, .score | _, .relevance _
  | _, .position | _, .extract | _, .getFormat | _, .timestamp _ => Calls
  | _, .arguments => Arguments
  | _, .aggregateTail _ => Outlook.any
  | _, .window => Meets (.keyword .OVER)
  | _, .filter => Meets (.keyword .FILTER)
  | _, .orderBy => Meets (.keyword .ORDER)
  | _, .fieldEquals => FieldFirst
  | _, .namedArguments => Named
  | _, .searchValue => Unclosed
  | _, .relevanceOptions => Listed
  | _, .selectItems | _, .selectItem _ => Selects
  | _, .relation => Meets (.keyword .FROM)
  | _, .condition word => Meets (.keyword word)
  | _, .groupBy => Meets (.keyword .GROUP)
  | _, .query => Meets (.keyword .SELECT)

/-- The outlook behind what a rule takes. -/
def Ends [Time.Library] : {α : Type} → Nonterminal α → Outlook
  | _, .expr _ | _, .predicate _ | _, .arithmetic _ | _, .operand | _, .call | _, .shape _
  | _, .aggregateTail _ | _, .orderBy | _, .orderItem | _, .selectItems | _, .selectItem _
  | _, .relation | _, .condition _ | _, .groupBy => Alike
  | _, .constant | _, .searchValue => Follows
  | _, .namedArguments => Listed
  | _, .relevanceOptions => Meets (.symbol .rightParen)
  | _, .query => Ended
  | _, _ => Outlook.any

end Nonterminal

/-- Whether the rules that are run on are retraced over written tokens by the rules themselves. The
aggregate in front of its tail may be another one but for places and quotes, and in the first operand
of `POSITION` the word `IN` ends the expression. -/
structure AllRetrace [Time.Library] (call : Callee) : Prop where
  steady : ∀ {α : Type} (n : Nonterminal α), Steady (call n)
  rule : ∀ {α : Type} (n : Nonterminal α), letI := n.erases
    Retraces n.Opens n.Starts n.behind (call n) (read n) n.outline (fun _ => n.Ends)
  tail : ∀ a a' : Aggregate, erase a = erase a' → Retraces Anywhere Outlook.any a.outline
    (call (.aggregateTail a)) (read (.aggregateTail a')) CallShape.outline (fun _ => Alike)
  beforeIn : Retraces Anywhere Heads [] (atSeparator (call .wholeExpr))
    (atSeparator (read .wholeExpr)) Expr.outline (fun _ => Alike)

section Callees

variable (hcall : AllRetrace call)

include hcall

/-- What is run on is retraced behind anything. -/
theorem AllRetrace.retraces {γ : Type} (n : Nonterminal γ) (hbehind : n.behind = []) :
    letI := n.erases
    Retraces n.Opens n.Starts before (call n) (read n) (fun a => before ++ n.outline a)
      (fun _ => n.Ends) := by
  let := n.erases
  have h := hcall.rule n
  rw [hbehind] at h
  exact h.behindAll

/-- Expressions are retraced by their rule. -/
theorem AllRetrace.expr :
    Retraces here Heads before (call .wholeExpr) (read .wholeExpr) (fun e => before ++ e.outline)
      (fun _ => Alike) := (hcall.retraces .wholeExpr rfl).anywhere

omit hcall in
/-- Where the source has a comma, what is written may go on with one. -/
theorem alike_of_comma (h : c.current.kind = .symbol .comma) : Alike c (ofSymbol .comma :: rest) :=
  Meets.alike ⟨h, rfl⟩ rfl TokenKind.noConfusion

omit hcall in
/-- Where it has none, a list does not go on. -/
theorem Alike.ne_comma (h : Alike c tokens) (hkind : c.current.kind ≠ .symbol .comma) :
    kindAt tokens 0 ≠ .symbol .comma := fun heq => hkind (h.comma heq)

/-- Lists of expressions are retraced as well. -/
theorem AllRetrace.commaExprs (rule : String) :
    Retraces here Heads before (Parser.commaSeparated rule (call .wholeExpr))
      (Parser.commaSeparated rule (read .wholeExpr))
      (fun es => before ++ separated .comma (outlineAll es)) (fun _ => Alike) := by
  have h : Retraces Anywhere Heads [] (call .wholeExpr) (read .wholeExpr) Expr.outline
      (fun _ => Alike) := hcall.rule .wholeExpr
  simpa only [outlineAll_eq_map] using h.commaSeparated (steady_read _)
    (fun e => fills_of_closes e.closes_outline) (fun _ _ hkind _ => alike_of_comma hkind)
    (fun _ _ hkind halike => ⟨halike, halike.ne_comma hkind⟩) rule

/-! ## Calls -/

omit hcall in
theorem close_of_heads (h : Heads c tokens) : kindAt tokens 0 ≠ .symbol .rightParen := h.ne rfl

omit hcall in
theorem Meets.alike_keyword {word : Keyword} (h : Meets (.keyword word) c tokens)
    (hplain : isPlainOutlook (.keyword word) = true) (horder : word ≠ .ORDER) : Alike c tokens :=
  h.alike hplain fun heq => horder (TokenKind.keyword.inj heq)

omit hcall in
theorem Meets.alike_symbol {sign : Symbol} (h : Meets (.symbol sign) c tokens)
    (hplain : isPlainOutlook (.symbol sign) = true) : Alike c tokens :=
  h.alike hplain TokenKind.noConfusion

theorem retraces_intervalRule :
    Retraces here (Meets (.keyword .INTERVAL)) before (intervalRule call) (intervalRule read)
      (fun value => before ++ value.outline) (fun _ => R) := by
  refine (retraces_keyword .INTERVAL).bind fun _ _ _ =>
    hcall.expr.bind fun amount amount' hamount => ?_
  refine ((retraces_datetimeUnit (R := R)).starting fun _ _ _ h => h.alike).bind
    fun unit unit' hunit => ?_
  obtain rfl : unit = unit' := hunit
  refine retraces_pure ?_ (congrArg (Literal.interval · unit) hamount)
  simp [Literal.outline]

theorem retraces_argumentsRule :
    Retraces here Arguments before (argumentsRule call) (argumentsRule read)
      (fun args => before ++ (separated .comma (outlineAll args) ++ [.symbol .rightParen]))
      (fun _ => R) := by
  refine retraces_takeSymbol_bind (N := R) (retraces_pure rfl rfl) ?_
    (fun _ _ hkind _ => .inl ⟨hkind, rfl⟩) fun _ _ _ hheads => ⟨.inr hheads, close_of_heads hheads⟩
  refine ((hcall.commaExprs _).ending fun _ _ _ hclose => hclose.alike_symbol rfl).bind
    fun args args' hargs => (retraces_symbol .rightParen).bind fun _ _ _ => retraces_pure ?_ hargs
  simp

omit hcall in
theorem Arguments.close (h : Arguments c tokens) (hkind : kindAt tokens 0 = .symbol .rightParen) :
    c.current.kind = .symbol .rightParen := by
  rcases h with hclose | hheads
  · exact hclose.1
  · exact absurd hkind (close_of_heads hheads)

omit hcall in
theorem Arguments.startsNestedAll_eq_false (h : Arguments d (tokens.drop 2)) :
    startsNestedAll tokens = false := by
  refine Bool.eq_false_iff.2 fun hstarts => ?_
  obtain ⟨-, rest, hrest, hdot, -⟩ := startsNestedAll_iff.1 hstarts
  rcases h with hclose | hheads
  · rw [afterName?_of_isFieldless (by rw [hclose.2]; rfl)] at hrest
    cases hrest
  · exact hheads.dotless rest hrest hdot

theorem retraces_scalarRule (category : ScalarCategory) :
    Retraces IsBare (fun c tokens => Calls c tokens ∧ startsNestedAll tokens = false) before
      (scalarRule call category) (scalarRule read category) (fun shape => before ++ shape.outline)
      (fun _ => R) := by
  refine retraces_named_bind (N := Arguments) (fun _ _ hargs => hargs.close)
    (fun _ _ _ hcalls hargs => ⟨hcalls, hargs.startsNestedAll_eq_false⟩) fun name => ?_
  refine ((hcall.retraces .arguments rfl).ending fun _ _ _ _ => trivial).bind
    fun args args' hargs => retraces_pure ?_ ?_
  · simp [CallShape.outline, Nonterminal.outline]
  · exact congrArg (CallShape.scalar name category) (viewAll_erased hargs)

/-- The end of the branches is in front of both. -/
def BranchesEnd : Outlook := fun c tokens =>
  Meets (.keyword .ELSE) c tokens ∨ Meets (.keyword .END) c tokens

/-- A branch is in front of both, or the end of the branches. -/
def Branches : Outlook := fun c tokens => Meets (.keyword .WHEN) c tokens ∨ BranchesEnd c tokens

omit hcall in
theorem BranchesEnd.ne_when (h : BranchesEnd c tokens) : kindAt tokens 0 ≠ .keyword .WHEN := by
  rcases h with h | h
  · exact h.2.trans_ne (by decide)
  · exact h.2.trans_ne (by decide)

omit hcall in
theorem Branches.alike (h : Branches c tokens) : Alike c tokens := by
  rcases h with h | h | h
  all_goals exact h.alike_keyword rfl (by decide)

omit hcall in
theorem Branches.written (h : Branches c tokens) (hkind : c.current.kind = .keyword .WHEN) :
    kindAt tokens 0 = .keyword .WHEN := by
  rcases h with h | h | h
  · exact h.2
  · cases hkind.symm.trans h.1
  · cases hkind.symm.trans h.1

theorem retraces_caseBranches :
    Retraces here Branches before (caseBranches call) (caseBranches read)
      (fun branches => before ++ outlineBranches branches) (fun _ => BranchesEnd) := by
  have hstep (branches branches' : List CaseBranch) (hbranches : erase branches = erase branches') :
      Retraces Anywhere Branches (before ++ branches.reverse.flatMap CaseBranch.outline)
        (caseStep call branches) (caseStep read branches')
        (fun r => before ++ r.value.reverse.flatMap CaseBranch.outline)
        (roundOutlook Branches BranchesEnd) := by
    refine retraces_takeKeyword_bind (N := Heads) ?_
      (retraces_pure_of rfl (congrArg ForInStep.done hbranches) fun _ _ h => h)
      (fun _ _ hkind _ => .inl ⟨hkind, rfl⟩) fun _ _ _ hend => ⟨.inr hend, hend.ne_when⟩
    refine (hcall.expr.ending fun _ _ _ (h : Meets (.keyword .THEN) _ _) =>
      h.alike_keyword rfl (by decide)).bind fun condition condition' hcondition => ?_
    refine (retraces_keyword .THEN (N := Heads)).bind fun _ _ _ => ?_
    refine (hcall.expr.ending fun _ _ _ (h : Branches _ _) => h.alike).bind
      fun result result' hresult => ?_
    refine retraces_pure_of ?_ (congrArg ForInStep.yield (erase_cons.2 ⟨?_, hbranches⟩))
      fun _ _ h => h
    · simp [ForInStep.value, CaseBranch.outline]
    · exact congrArg₂ CaseBranch.mk hcondition hresult
  have hloop : Retraces here Branches before (loop [] (caseStep call)) (loop [] (caseStep read))
      (fun branches => before ++ branches.reverse.flatMap CaseBranch.outline)
      (fun _ => BranchesEnd) := by
    have h : Retraces here _ _ (loop [] (caseStep call)) _ _ _ :=
      retraces_loop (Congruence.advances_caseStep (steady_read _)) hstep rfl
    simpa using h
  rw [caseBranches_eq, caseBranches_eq]
  exact hloop.bind fun branches branches' hbranches =>
    retraces_pure (by rw [outlineBranches_eq_flatMap]) (erase_reverse hbranches)

theorem retraces_caseEnd {operand operand' : Option Expr} (hoperand : erase operand = erase operand')
    {branches branches' : List CaseBranch} (hbranches : erase branches = erase branches') :
    Retraces here BranchesEnd
      (before ++ .keyword .CASE :: outlineOptional [] operand ++ outlineBranches branches)
      (caseEnd call operand branches) (caseEnd read operand' branches')
      (fun shape => before ++ shape.outline) (fun _ => R) := by
  -- With and without `ELSE`, what is left of the expression is its end.
  have hend (otherwise otherwise' : Option Expr) (hotherwise : erase otherwise = erase otherwise') :
      Retraces Anywhere (Meets (.keyword .END))
        (before ++ .keyword .CASE :: outlineOptional [] operand ++ outlineBranches branches ++
          outlineOptional [.keyword .ELSE] otherwise)
        (do
          let _ ← keyword .END
          return .case operand branches otherwise : Parser CallShape)
        (do
          let _ ← keyword .END
          return .case operand' branches' otherwise')
        (fun shape => before ++ shape.outline) (fun _ => R) := by
    refine (retraces_keyword .END).bind fun _ _ _ => retraces_pure ?_ ?_
    · simp [CallShape.outline]
    · show CallShape.case _ _ _ = CallShape.case _ _ _
      rw [viewOptional_erased hoperand, viewBranches_erased hbranches, viewOptional_erased hotherwise]
  unfold caseEnd
  rw [erase_isEmpty hbranches]
  dsimp only
  split
  -- An expression without branches is refused.
  · exact fun _ _ _ _ _ heq => absurd heq (by simp [bind_eq_ok_iff, rejectCurrent_ne_ok])
  refine retraces_takeKeyword_bind (N := Heads) ?_ ?_ (fun _ _ hkind _ => .inl ⟨hkind, rfl⟩)
    fun _ _ _ (h : Meets (.keyword .END) _ _) => ⟨.inr h, h.2.trans_ne (by decide)⟩
  · refine ((hcall.expr.ending fun _ _ _ (h : Meets (.keyword .END) _ _) =>
      h.alike_keyword rfl (by decide)).some ?_).bind hend
    intro e
    simp [outlineOptional]
  · refine Retraces.bind (retraces_pure ?_ rfl) hend
    simp [outlineOptional]

theorem retraces_caseRule :
    Retraces here (Meets (.keyword .CASE)) before (caseRule call) (caseRule read)
      (fun shape => before ++ shape.outline) (fun _ => R) := by
  have hrest (operand operand' : Option Expr) (hoperand : erase operand = erase operand') :
      Retraces Anywhere Branches (before ++ .keyword .CASE :: outlineOptional [] operand) (do
        let branches ← caseBranches call
        caseEnd call operand branches) (do
        let branches ← caseBranches read
        caseEnd read operand' branches) (fun shape => before ++ shape.outline) (fun _ => R) :=
    (retraces_caseBranches hcall).bind fun _ _ hbranches =>
      retraces_caseEnd hcall hoperand hbranches
  refine (retraces_keyword .CASE (N := Outlook.any)).bind fun _ _ _ => ?_
  refine retraces_atKeyword_bind (S := Branches) (U := Heads) ?_ ?_
    (fun _ _ hkind h => ⟨trivial, h.written hkind⟩) fun _ _ _ h => ⟨trivial, h.ne rfl⟩
  · exact Retraces.bind (retraces_pure (by simp [outlineOptional]) rfl) hrest
  · refine ((hcall.expr.ending fun _ _ _ (h : Branches _ _) => h.alike).some ?_).bind hrest
    intro e
    simp [outlineOptional]

theorem retraces_castRule :
    Retraces here (Meets (.keyword .CAST)) before (castRule call) (castRule read)
      (fun shape => before ++ shape.outline) (fun _ => R) := by
  refine (retraces_keyword .CAST).bind fun _ _ _ =>
    (retraces_symbol .leftParen (N := Heads)).bind fun _ _ _ => ?_
  refine (hcall.expr.ending fun _ _ _ (h : Meets (.keyword .AS) _ _) =>
    h.alike_keyword rfl (by decide)).bind fun expr expr' hexpr => ?_
  refine (retraces_keyword .AS).bind fun _ _ _ =>
    (retraces_dataType (R := Meets (.symbol .rightParen))).bind fun target target' htarget => ?_
  obtain rfl : target = target' := htarget
  refine (retraces_symbol .rightParen (N := R)).bind fun _ _ _ =>
    retraces_pure ?_ (congrArg (CallShape.cast · target) hexpr)
  simp [CallShape.outline]

omit hcall in
/-- Behind an expression, the word `IN` is in front of a parenthesis in the source if it is where it
is written. -/
theorem alike_of_in (h : c.current.kind = .keyword .IN) (hrest : Heads (c.skip 1) rest) :
    Alike c (ofKeyword .IN :: rest) := by
  have hne {kind : TokenKind} (hk : kind.keyword? ≠ some .IN) :
      kindAt (ofKeyword .IN :: rest) 0 ≠ kind := by
    rintro rfl
    exact hk rfl
  refine ⟨hne (by decide), hne (by decide), fun hcomma => absurd hcomma (hne (by decide)),
    fun word hword _ => h.trans hword, fun hname => ?_, fun op hop => ?_, fun test width htest => ?_,
    fun hjoins => absurd hjoins.1 (hne (by decide)), not_doomed_of_ne (hne (by decide))⟩
  · rcases hname with hname | hname
    · exact absurd hname (hne (by decide))
    · cases hname
  · cases hop
  · have hparen : kindAt rest 0 = .symbol .leftParen ∧ test = .within false := by
      replace htest : (Test.ofWord? false (.keyword .IN) (kindAt rest 0)).map (·, 1) =
        some (test, width) := htest
      unfold Test.ofWord? at htest
      split at htest
      all_goals cases htest
      · next hkind => cases hkind
      · next hkind => cases hkind
      · next hkind => cases hkind
      · next hsecond => exact ⟨hsecond, rfl⟩
    have hsource := hrest.paren hparen.1
    rw [Cursor.current_skip_one (isEnd_of_keyword h)] at hsource
    refine ⟨1, ?_⟩
    unfold Test.at?
    rw [Cursor.peek_zero, h, hsource, hparen.2]
    rfl

theorem retraces_positionRule :
    Retraces (fun u => Spells u "POSITION") Calls before (positionRule call) (positionRule read)
      (fun shape => before ++ shape.outline) (fun _ => R) := by
  refine retraces_spelled_bind (N := Heads) (fun _ _ h hkind => absurd hkind (close_of_heads h)) ?_
  refine hcall.beforeIn.behindAll.bind fun substring substring' hsubstring => ?_
  refine (retraces_keyword_of (N := Heads) fun _ _ hkind h => alike_of_in hkind h).bind fun _ _ _ => ?_
  refine (hcall.expr.ending fun _ _ _ (h : Meets (.symbol .rightParen) _ _) =>
    h.alike_symbol rfl).bind fun string string' hstring => ?_
  refine (retraces_symbol .rightParen (N := R)).bind fun _ _ _ =>
    retraces_pure ?_ (congrArg₂ CallShape.position hsubstring hstring)
  simp [CallShape.outline]

theorem retraces_extractRule :
    Retraces (fun u => Spells u "EXTRACT") Calls before (extractRule call) (extractRule read)
      (fun shape => before ++ shape.outline) (fun _ => R) := by
  refine retraces_spelled_bind (N := Worded) (fun _ _ h hkind => absurd hkind h.unclosed) ?_
  refine (retraces_datetimeUnit (R := Meets (.keyword .FROM))).bind fun unit unit' hunit => ?_
  obtain rfl : unit = unit' := hunit
  refine (retraces_keyword .FROM (N := Heads)).bind fun _ _ _ => ?_
  refine (hcall.expr.ending fun _ _ _ (h : Meets (.symbol .rightParen) _ _) =>
    h.alike_symbol rfl).bind fun arg arg' harg => ?_
  refine (retraces_symbol .rightParen (N := R)).bind fun _ _ _ =>
    retraces_pure ?_ (congrArg (CallShape.extract unit) harg)
  simp [CallShape.outline]

theorem retraces_getFormatRule :
    Retraces (fun u => Spells u "GET_FORMAT") Calls before (getFormatRule call) (getFormatRule read)
      (fun shape => before ++ shape.outline) (fun _ => R) := by
  refine retraces_spelled_bind (N := Unclosed) (fun _ _ h hkind => absurd hkind h) ?_
  refine (retraces_formatTarget (R := Meets (.symbol .comma))).bind fun target target' htarget => ?_
  obtain rfl : target = target' := htarget
  refine (retraces_symbol .comma (N := Heads)).bind fun _ _ _ => ?_
  refine (hcall.expr.ending fun _ _ _ (h : Meets (.symbol .rightParen) _ _) =>
    h.alike_symbol rfl).bind fun format format' hformat => ?_
  refine (retraces_symbol .rightParen (N := R)).bind fun _ _ _ =>
    retraces_pure ?_ (congrArg (CallShape.getFormat target) hformat)
  simp [CallShape.outline]

theorem retraces_timestampRule (function : TimestampFunction) :
    Retraces (fun u => Spells u function.text) Calls before (timestampRule call function)
      (timestampRule read function) (fun shape => before ++ shape.outline) (fun _ => R) := by
  refine retraces_spelled_bind (N := Worded) (fun _ _ h hkind => absurd hkind h.unclosed) ?_
  refine (retraces_singleUnit (R := Meets (.symbol .comma))).bind fun unit unit' hunit => ?_
  obtain rfl : unit = unit' := hunit
  refine (retraces_symbol .comma (N := Heads)).bind fun _ _ _ => ?_
  refine (hcall.expr.ending fun _ _ _ (h : Meets (.symbol .comma) _ _) =>
    h.alike_symbol rfl).bind fun first first' hfirst => ?_
  refine (retraces_symbol .comma (N := Heads)).bind fun _ _ _ => ?_
  refine (hcall.expr.ending fun _ _ _ (h : Meets (.symbol .rightParen) _ _) =>
    h.alike_symbol rfl).bind fun second second' hsecond => ?_
  refine (retraces_symbol .rightParen (N := R)).bind fun _ _ _ =>
    retraces_pure ?_ (congrArg₂ (CallShape.timestamp function unit) hfirst hsecond)
  simp [CallShape.outline]

/-- What is run on where the rule in front has looked at the word. -/
theorem AllRetrace.opening {γ : Type} (n : Nonterminal γ) (hbehind : n.behind = [])
    (hopens : ∀ u : Token, u.Sound → here u → n.Opens u)
    (hends : ∀ c tokens, R c tokens → n.Ends c tokens) : letI := n.erases
    Retraces here n.Starts before (call n) (read n) (fun a => before ++ n.outline a) (fun _ => R) := by
  let := n.erases
  exact ((hcall.retraces n hbehind).opening hopens).ending fun _ => hends

omit hcall in
theorem shapeRule_nested_apply (call : Callee) (s : State) :
    shapeRule call .nested s =
      (if startsNestedAll s.cursor.ahead = true then nestedAll else call (.scalar .nested)) s := rfl

theorem retraces_shapeRule (family : FunctionFamily) :
    Retraces (Nonterminal.shape family).Opens Calls before (shapeRule call family)
      (shapeRule read family) (fun shape => before ++ shape.outline) (fun _ => Alike) := by
  have hbare (u : Token) (_ : u.Sound) (h : (Nonterminal.shape family).Opens u) : IsBare u :=
    isBare_of_family h
  have hspells {text : String} (htext : family.text? = some text) (u : Token) (hsound : u.Sound)
      (h : (Nonterminal.shape family).Opens u) : Spells u text := spells_of_family hsound htext h
  have hany (c : Cursor) (tokens : List Token) (_ : Alike c tokens) : Outlook.any c tokens :=
    trivial
  have hall (c : Cursor) (tokens : List Token) (_ : Outlook.any c tokens) : Outlook.any c tokens :=
    trivial
  have hscalar (category : ScalarCategory) : Retraces (Nonterminal.shape family).Opens
      (fun c tokens => Calls c tokens ∧ startsNestedAll tokens = false) before
      (call (.scalar category)) (read (.scalar category)) (fun shape => before ++ shape.outline)
      (fun _ => Alike) := hcall.opening (.scalar category) rfl hbare hany
  have htail (a a' : Aggregate) (h : erase a = erase a') : Retraces Anywhere Outlook.any
      (before ++ a.outline) (call (.aggregateTail a)) (read (.aggregateTail a'))
      (fun shape => before ++ shape.outline) (fun _ => Alike) := (hcall.tail a a' h).behind before
  cases family with
  | nested =>
    refine retraces_of fun s _ hhere => ?_
    cases hstarts : startsNestedAll s.cursor.ahead with
    | true =>
      refine ⟨_, nestedAll, nestedAll, retraces_nestedAll.opening fun u hu h => ?_, ?_,
        fun tokens hfront => ⟨hfront.1, fun s' _ hfaces => ?_⟩⟩
      · exact hbare u hu (h ▸ hhere)
      · rw [shapeRule_nested_apply, if_pos hstarts]
      · rw [shapeRule_nested_apply, hfaces.startsNestedAll, if_pos hfront.2]
    | false =>
      refine ⟨_, call (.scalar .nested), read (.scalar .nested), (hscalar .nested).opening
        fun u _ h => h ▸ hhere, ?_, fun tokens hfront => ⟨hfront.1, fun s' _ hfaces => ?_⟩⟩
      · rw [shapeRule_nested_apply, hstarts]
        rfl
      · rw [shapeRule_nested_apply, hfaces.startsNestedAll, hfront.2]
        rfl
  | scalar category => exact (hscalar category).starting fun _ _ _ h => h.1
  | ranking function => exact hcall.opening (.ranking function) rfl (hspells rfl) hany
  | aggregate function =>
    exact (hcall.opening (.aggregate function) rfl (hspells rfl) hall).bind htail
  | percentile function =>
    exact (hcall.opening (.percentile function) rfl (hspells rfl) hall).bind htail
  | score => exact hcall.opening .score rfl hbare hany
  | relevance kind =>
    exact (hcall.opening (.relevance kind) rfl hbare hany).bind fun _ _ h =>
      retraces_pure rfl (congrArg CallShape.relevance h)
  | highlight => exact retraces_highlight.opening (hspells rfl)
  | position => exact hcall.opening .position rfl (hspells rfl) hany
  | extract => exact hcall.opening .extract rfl (hspells rfl) hany
  | getFormat => exact hcall.opening .getFormat rfl (hspells rfl) hany
  | timestamp function => exact hcall.opening (.timestamp function) rfl (hspells rfl) hany

omit hcall in
/-- What the shape of a call is read by, from the kind of its first token. -/
def shapeAt (call : Callee) (token : Token) : TokenKind → Parser CallShape
  | .keyword .CASE => call .case
  | .keyword .CAST => call .cast
  | .keyword .DATE | .keyword .TIME | .keyword .TIMESTAMP | .keyword .DATETIME =>
      call (.scalar .dateTime)
  | .name name =>
      match FunctionFamily.ofUpper? (Text.upper name) with
      | some family => call (.shape family)
      | none => reject (.unknownFunction name token)
  | _ => reject (.noAlternative "function call" ["function name", "CASE", "CAST"] token)

omit hcall in
theorem callShape_apply (call : Callee) (s : State) :
    callShape call s = shapeAt call s.cursor.current s.cursor.current.kind s := rfl

omit hcall in
theorem Calls.keyword {word : Keyword} (h : Calls c tokens) (hkind : c.current.kind = .keyword word) :
    kindAt tokens 0 = .keyword word := by
  have hword := h.word
  rw [hkind] at hword
  generalize kindAt tokens 0 = written at hword
  cases hword
  rfl

omit hcall in
theorem Calls.name {value : String} (h : Calls c tokens) (hkind : c.current.kind = .name value) :
    ∃ value', kindAt tokens 0 = .name value' ∧ Text.upper value = Text.upper value' := by
  have hword := h.word
  rw [hkind] at hword
  generalize kindAt tokens 0 = written at hword
  cases hword with
  | name hupper => exact ⟨_, rfl, hupper⟩

theorem retraces_callShape :
    Retraces here OpeningCalls before (callShape call) (callShape read)
      (fun shape => before ++ shape.outline) (fun _ => Alike) := by
  have hany (c : Cursor) (tokens : List Token) (_ : Alike c tokens) : Outlook.any c tokens := trivial
  intro s shape t hs _ heq
  rw [callShape_apply] at heq
  have hword {word : Keyword} (hkind : s.cursor.current.kind = .keyword word)
      (hopening : isOpening (.keyword word) = true)
      (hshape : ∀ (call : Callee) (u : Token),
        shapeAt call u (.keyword word) = call (.scalar .dateTime))
      (heq : call (.scalar .dateTime) s = .ok shape t) : ∃ items,
        before ++ shape.outline = before ++ items ∧
          Retrace OpeningCalls Alike (callShape read) items s shape t := by
    obtain ⟨items, hafter, hr⟩ := ((hcall.retraces (.scalar .dateTime) rfl).ending fun _ => hany)
      s shape t hs (Or.inr (by rw [hkind]; rfl)) heq
    refine ⟨items, hafter, hr.congr fun tokens hfront => ?_⟩
    have hwritten := hfront.1.keyword hkind
    refine ⟨.inr (.inr ⟨hfront.1, by rw [hwritten]; exact hopening⟩), fun s' _ hfaces => ?_⟩
    rw [callShape_apply, hfaces.current, hwritten, hshape]
  cases hkind : s.cursor.current.kind with
  | keyword word =>
    rw [hkind] at heq
    cases word with
    | CASE =>
      obtain ⟨items, hafter, hr⟩ :=
        ((hcall.retraces .case rfl).ending fun _ => hany) s shape t hs trivial heq
      refine ⟨items, hafter, hr.congr fun tokens hfront => ⟨.inl hfront, fun s' _ hfaces => ?_⟩⟩
      rw [callShape_apply, hfaces.current, hfront.2]
      rfl
    | CAST =>
      obtain ⟨items, hafter, hr⟩ :=
        ((hcall.retraces .cast rfl).ending fun _ => hany) s shape t hs trivial heq
      refine ⟨items, hafter, hr.congr fun tokens hfront => ⟨.inr (.inl hfront), fun s' _ hfaces => ?_⟩⟩
      rw [callShape_apply, hfaces.current, hfront.2]
      rfl
    | DATE | TIME | TIMESTAMP | DATETIME => exact hword hkind rfl (fun _ _ => rfl) heq
    | _ => exact absurd heq reject_ne_ok
  | name value =>
    rw [hkind] at heq
    cases hfamily : FunctionFamily.ofUpper? (Text.upper value) with
    | none =>
      simp only [shapeAt, hfamily] at heq
      exact absurd heq reject_ne_ok
    | some family =>
      simp only [shapeAt, hfamily] at heq
      obtain ⟨items, hafter, hr⟩ := hcall.opening (.shape family) rfl (fun _ _ h => h)
        (fun _ _ h => h) s shape t hs ⟨value, hkind, hfamily⟩ heq
      refine ⟨items, hafter, hr.congr fun tokens hfront => ?_⟩
      obtain ⟨value', hwritten, hupper⟩ := hfront.name hkind
      refine ⟨.inr (.inr ⟨hfront, by rw [hwritten]; rfl⟩), fun s' _ hfaces => ?_⟩
      rw [callShape_apply, hfaces.current, hwritten]
      simp only [shapeAt, ← hupper, hfamily]
  | _ =>
    rw [hkind] at heq
    exact absurd heq reject_ne_ok

theorem retraces_callRule :
    Retraces here OpeningCalls before (callRule call) (callRule read) (fun f => before ++ f.outline)
      (fun _ => Alike) := by
  refine Retraces.nest (retraces_start_bind fun u u' => ?_) 1
  refine (retraces_callShape hcall).bind fun shape shape' hshape => ?_
  refine retraces_spanFrom_bind fun span span' => retraces_pure rfl ?_
  exact congrArg (Call.mk · default) hshape

end Callees

end SearchSql.Grammar
