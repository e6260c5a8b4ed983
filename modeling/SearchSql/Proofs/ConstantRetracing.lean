import SearchSql.Proofs.LeafRetracing

/-!
# Retracing constants

A constant in front of written tokens was in front of the source as well. A literal may be written in
another form, so what stands behind it matters only as far as it is no call, no further segment and no
relevance function behind a field (`Follows`).
-/

set_option autoImplicit false

namespace SearchSql.Grammar

open SearchSql.Grammar.Parser SearchSql.Token

variable {library : Time.Library} {α β : Type} [Erases α] [Erases β] {s t : State} {c d : Cursor}
variable {items before : List Item} {tokens rest : List Token} {here : Token → Prop}
variable {front R : Outlook} {call : Callee}

theorem kindAt_symbol_ne {sign other : Symbol} (h : sign ≠ other) :
    kindAt (ofSymbol sign :: rest) 0 ≠ .symbol other := fun heq => h (TokenKind.symbol.inj heq)

/-! ## Constants -/

/-- A constant is in front of the written tokens, as something is in the source in front of which an
expression may start. -/
def Constants : Outlook := fun c tokens =>
  startsConstant (kindAt tokens 0) (kindAt tokens 1) (kindAt tokens 2) = true ∧ Operands c tokens

/-- Whether a number or its sign is in front. -/
def startsNumber : TokenKind → Bool
  | .symbol .plus | .symbol .minus | .integer | .real => true
  | _ => false

/-- A constant is in front of the written tokens that is not a number. -/
def Literals : Outlook := fun c tokens => Constants c tokens ∧ startsNumber (kindAt tokens 0) = false

/-- A literal other than a number, as a constant. -/
def literalConstant (call : Callee) : Parser Constant := do
  let start := (← current).span
  let value ← literalRule call
  return ⟨value, ← spanFrom start⟩

theorem constantRule_apply (call : Callee) (s : State) :
    constantRule call s =
      if startsNumber s.cursor.current.kind = true then number s else literalConstant call s := by
  unfold constantRule
  rw [current_bind_apply]
  cases s.cursor.current.kind with
  | symbol sign => cases sign <;> rfl
  | _ => rfl

/-- In front of what starts with no field, nothing counts but the kind of the first token. -/
theorem operands_of_isFieldless (hopening : isOpening (kindAt tokens 0) = true)
    (hfield : isFieldless (kindAt tokens 0) = true) (hparen : kindAt tokens 0 ≠ .symbol .leftParen)
    (hnot : kindAt tokens 0 ≠ .keyword .NOT) : Operands c tokens :=
  ⟨heads_of_isFieldless hopening hfield fun h => (h.elim hparen hnot).elim, hnot⟩

theorem Numbers.constants (h : Numbers c tokens) :
    Constants c tokens ∧ startsNumber (kindAt tokens 0) = true := by
  rcases h with h | ⟨h, hsecond⟩
  · cases hkind : kindAt tokens 0 with
    | integer | real =>
      refine ⟨⟨by rw [hkind]; rfl, ?_⟩, rfl⟩
      refine operands_of_isFieldless ?_ ?_ ?_ ?_
      all_goals
        rw [hkind]
        first
          | rfl
          | exact TokenKind.noConfusion
    | _ =>
      rw [hkind] at h
      cases h
  · refine ⟨⟨by rw [h]; exact hsecond, ?_⟩, by rw [h]; rfl⟩
    refine operands_of_isFieldless ?_ ?_ ?_ ?_
    all_goals
      rw [h]
      first
        | rfl
        | decide

/-- A reserved word by which a literal is known is in front of the written tokens. -/
theorem literals_of_keyword {word : Keyword} (h : kindAt tokens 0 = .keyword word)
    (hword : word = .TRUE ∨ word = .FALSE ∨ word = .NULL ∨ word = .INTERVAL) :
    Literals c tokens := by
  rcases hword with rfl | rfl | rfl | rfl
  all_goals
    refine ⟨⟨by rw [h]; rfl, ?_⟩, by rw [h]; rfl⟩
    refine operands_of_isFieldless ?_ ?_ ?_ ?_
    all_goals
      rw [h]
      first
        | rfl
        | decide

/-- A word with a text behind it is in front of the written tokens. -/
theorem literals_of_temporal {kind : TemporalKind} {text : String} :
    Literals c (ofKeyword kind.word :: ofString text :: rest) := by
  have hname : afterName? (ofKeyword kind.word :: ofString text :: rest) =
      some (ofString text :: rest) :=
    afterName?_of_ident (afterIdent?_of_name (by cases kind <;> rfl)) TokenKind.noConfusion
  have hne {kind' : TokenKind} (h : kind'.keyword? ≠ some kind.word) :
      kindAt (ofKeyword kind.word :: ofString text :: rest) 0 ≠ kind' := by
    rintro rfl
    exact h rfl
  refine ⟨⟨by cases kind <;> rfl, ?_⟩, rfl⟩
  refine operands_of_ahead (by cases kind <;> rfl) (hne ?_) (hne ?_) ?_ ?_
  · cases kind <;> decide
  · cases kind <;> decide
  · intro _ hword _
    cases hword
  · intro rest' hrest'
    obtain rfl := Option.some.inj ((afterField?_of_afterName? hname).symm.trans hrest')
    exact ⟨TokenKind.noConfusion, fun hjoins => absurd hjoins.1 TokenKind.noConfusion⟩

/-- What the rule of literals does at a token of a kind. -/
def literalAt (call : Callee) : TokenKind → Parser Literal
  | .string value => simpleLiteral (.string value)
  | .symbol .leftBrace => bracedLiteral
  | .keyword .TRUE => simpleLiteral (.boolean true)
  | .keyword .FALSE => simpleLiteral (.boolean false)
  | .keyword .NULL => simpleLiteral .null
  | .keyword .INTERVAL => call .interval
  | .keyword word =>
      match TemporalKind.ofKeyword? word with
      | some kind => wordLiteral kind
      | none => rejectCurrent "constant"
  | .name word =>
      match DatetimeConstant.ofText? word with
      | some name => datetimeConstant name
      | none => rejectCurrent "constant"
  | _ => rejectCurrent "constant"

theorem literalRule_apply (call : Callee) (s : State) :
    literalRule call s = literalAt call s.cursor.current.kind s := rfl

theorem wordLiteral_eq_ok {kind : TemporalKind} {value : Literal} (hs : s.Primed)
    (h : wordLiteral kind s = .ok value t) :
    ∃ written, kind.read s.library written = .ok value := by
  unfold wordLiteral at h
  rw [take_bind_apply] at h
  obtain ⟨written, u, hstring, hrest⟩ := bind_eq_ok_iff.1 h
  obtain ⟨-, rfl⟩ := string_kind_of_eq_ok hstring
  rw [spanFrom_bind_apply] at hrest
  exact ⟨written, (temporalLiteral_eq_ok ((hs.skip 1).skip 1).strict hrest).2⟩

theorem bracedLiteral_eq_ok {value : Literal} (hs : s.Primed)
    (h : bracedLiteral s = .ok value t) :
    ∃ (kind : TemporalKind) (written : String), kind.read s.library written = .ok value := by
  obtain ⟨start, u, hbrace, hrest⟩ := bind_eq_ok_iff.1 h
  obtain ⟨-, -, rfl⟩ := symbol_eq_ok_iff.1 hbrace
  rw [current_bind_apply] at hrest
  cases hword : TemporalKind.ofKind? (s.skip 1).cursor.current.kind with
  | none =>
    rw [hword] at hrest
    exact absurd hrest rejectCurrent_ne_ok
  | some kind =>
    rw [hword] at hrest
    dsimp only at hrest
    rw [skip_bind_apply] at hrest
    obtain ⟨written, v, hstring, hrest⟩ := bind_eq_ok_iff.1 hrest
    obtain ⟨-, rfl⟩ := string_kind_of_eq_ok hstring
    obtain ⟨_, w, hclose, hrest⟩ := bind_eq_ok_iff.1 hrest
    obtain ⟨-, -, rfl⟩ := symbol_eq_ok_iff.1 hclose
    rw [spanFrom_bind_apply] at hrest
    have hbehind := (((hs.skip 1).skip 1).skip 1).skip 1
    exact ⟨kind, written, (temporalLiteral_eq_ok hbehind.strict hrest).2⟩

/-- A word for the current date or time is called in the source if it is called where it is written. -/
theorem datetimeConstant_eq_ok {name : DatetimeConstant} {value : Literal}
    (hend : s.cursor.current.isEnd = false) (h : datetimeConstant name s = .ok value t) :
    (value = .datetime name true ∧ (s.cursor.peek 1).kind = .symbol .leftParen) ∨
      value = .datetime name false ∧ t = s.skip 1 := by
  unfold datetimeConstant at h
  rw [skip_bind_apply, takeSymbol_bind_apply] at h
  split at h
  · next hparen =>
    obtain ⟨_, u, -, hrest⟩ := bind_eq_ok_iff.1 h
    obtain ⟨rfl, rfl⟩ := pure_eq_ok_iff.1 hrest
    rw [State.skip_cursor, Cursor.current_skip_one hend] at hparen
    exact .inl ⟨rfl, hparen⟩
  · replace h : (pure (.datetime name false) : Parser Literal) (s.skip 1) = .ok value t := h
    obtain ⟨rfl, rfl⟩ := pure_eq_ok_iff.1 h
    exact .inr ⟨rfl, rfl⟩

theorem token_datetime (name : DatetimeConstant) :
    (Mark.word name.text).token = ofName name.text :=
  congrArg (Token.mk · name.text default) (bareKind_datetime name)

/-- A word for the current date or time may stand in front of an expression if it does so in the
source. -/
theorem literals_of_datetime {name : DatetimeConstant} {value : Literal} {word : String}
    (hkind : s.cursor.current.kind = .name word) (hname : DatetimeConstant.ofText? word = some name)
    (h : datetimeConstant name s = .ok value t) (hrest : Follows t.cursor rest) :
    Literals s.cursor (writtenTokens value.outline ++ rest) := by
  have hend : s.cursor.current.isEnd = false :=
    isEnd_eq_false (by rw [hkind]; exact TokenKind.noConfusion)
  have hupper : Text.upper word = Text.upper name.text := by
    rw [Text.spelling_of_findSpelling hname, Text.upper_upper]
  have hafter {tokens : List Token} (hdot : kindAt tokens 0 ≠ .symbol .dot) :
      afterField? (ofName name.text :: tokens) = some tokens :=
    afterField?_of_afterName? (afterName?_of_ident (afterIdent?_of_name rfl) hdot)
  have hstarts {second third : TokenKind}
      (hcall : second ≠ .symbol .leftParen ∨ third = .symbol .rightParen) :
      startsConstant (.name name.text) second third = true := by
    rw [startsConstant_name, DatetimeConstant.ofText?_text, Option.isSome_some, Bool.true_and]
    exact Bool.or_eq_true_iff.2 (hcall.imp bne_iff_ne.2 beq_iff_eq.2)
  -- With and without the pair of parentheses behind the name.
  obtain ⟨rfl, hparen⟩ | ⟨rfl, rfl⟩ := datetimeConstant_eq_ok hend h
  · show Literals _
      ((Mark.word name.text).token :: ofSymbol .leftParen :: ofSymbol .rightParen :: rest)
    rw [token_datetime]
    refine ⟨⟨hstarts (.inr rfl), operands_of_ahead rfl TokenKind.noConfusion TokenKind.noConfusion
      ?_ ?_⟩, rfl⟩
    · intro found hword _
      obtain rfl := Option.some.inj hword
      rw [hkind]
      exact ⟨congrArg some hupper, hparen⟩
    · intro rest' hrest'
      obtain rfl := Option.some.inj ((hafter (kindAt_symbol_ne (by decide))).symm.trans hrest')
      exact ⟨kindAt_symbol_ne (by decide),
        fun hjoins => absurd hjoins.1 (kindAt_symbol_ne (by decide))⟩
  · show Literals _ ((Mark.word name.text).token :: rest)
    rw [token_datetime]
    refine ⟨⟨hstarts (.inl hrest.paren), ?_⟩, rfl⟩
    refine operands_of_field rfl TokenKind.noConfusion TokenKind.noConfusion
      (fun _ => hrest.paren) (hafter hrest.dot) (fun hjoins => ?_) hrest
    rw [ahead_eq_cons hend]
    refine afterField?_of_afterName? (afterName?_of_ident (afterIdent?_of_name (by rw [hkind]; rfl)) ?_)
    exact hjoins.1.trans_ne (by decide)

theorem steady_literalRule_read [Time.Library] : Steady (literalRule read) :=
  (steady_congruence.literalRule (b := 0) ⟨steady_read _, steady_read _⟩).1

section

variable {value : Literal} (hleads : s.Leads t)

include hleads

/-- A literal that is read again wherever it is written is retraced. -/
theorem retrace_freely (h : Rereads Freely (literalRule read) value.outline value)
    (hfront : ∀ rest, Follows t.cursor rest →
      Literals s.cursor (writtenTokens value.outline ++ rest)) :
    Retrace Literals Follows (literalRule read) value.outline s value t :=
  h.retrace steady_literalRule_read hleads (fun rest _ => hfront rest) fun _ _ => trivial

/-- A date or time is retraced, since the other run has the same library, which reads back what it has
read in this one. -/
theorem retrace_temporal (hs : s.Primed) {kind : TemporalKind} {written : String}
    (h : kind.read s.library written = .ok value) :
    Retrace Literals Follows (literalRule read) value.outline s value t := by
  obtain ⟨found, rfl, rfl⟩ := TemporalKind.exists_value_of_read h
  rw [hs.withLibrary] at h
  have hback := found.read_text hs.readsBack h
  refine ⟨hleads, fun rest _ _ => ?_, fun s' rest _ htwin hfaces _ => ?_⟩
  · rw [found.outline_literal]
    exact literals_of_temporal
  · have hlibrary : library = s'.library := (htwin.library.trans hs.withLibrary).symm
    obtain ⟨t', hrun, hbehind⟩ := temporal_again (hlibrary ▸ hback) hfaces
    exact ⟨_, t', hrun, rfl, htwin.leads hleads (steady_literalRule_read.leads hrun), hbehind⟩

/-- A literal of a single reserved word is retraced. -/
theorem retrace_simple {found : Literal} {word : Keyword}
    (hrun : simpleLiteral found s = .ok value t)
    (h : Rereads Freely (literalRule read) found.outline found)
    (houtline : found.outline = [.keyword word])
    (hword : word = .TRUE ∨ word = .FALSE ∨ word = .NULL ∨ word = .INTERVAL) :
    Retrace Literals Follows (literalRule read) value.outline s value t := by
  unfold simpleLiteral at hrun
  rw [skip_bind_apply] at hrun
  obtain ⟨rfl, rfl⟩ := pure_eq_ok_iff.1 hrun
  refine retrace_freely hleads h fun rest _ => ?_
  rw [houtline]
  exact literals_of_keyword rfl hword

/-- A text is retraced. -/
theorem retrace_string {text : String} (hkind : s.cursor.current.kind = .string text)
    (hrun : simpleLiteral (.string text) s = .ok value t) :
    Retrace Literals Follows (literalRule read) value.outline s value t := by
  unfold simpleLiteral at hrun
  rw [skip_bind_apply] at hrun
  obtain ⟨rfl, rfl⟩ := pure_eq_ok_iff.1 hrun
  refine retrace_freely hleads (rereads_stringLiteral text) fun rest hrest => ⟨⟨rfl, ?_⟩, rfl⟩
  have hend : s.cursor.current.isEnd = false :=
    isEnd_eq_false (by rw [hkind]; exact TokenKind.noConfusion)
  have hsource : afterField? s.cursor.ahead = some (s.skip 1).cursor.ahead := by
    rw [ahead_eq_cons hend]
    exact afterField?_of_string (by rw [hkind]; rfl)
  exact operands_of_string rfl rfl hsource hrest

/-- A word for the current date or time is retraced, with its parentheses or without. -/
theorem retrace_datetime {word : String} {name : DatetimeConstant}
    (hkind : s.cursor.current.kind = .name word) (hname : DatetimeConstant.ofText? word = some name)
    (hrun : datetimeConstant name s = .ok value t) :
    Retrace Literals Follows (literalRule read) value.outline s value t := by
  have hend : s.cursor.current.isEnd = false :=
    isEnd_eq_false (by rw [hkind]; exact TokenKind.noConfusion)
  have hagain : Rereads (fun tokens => kindAt tokens 0 ≠ .symbol .leftParen) (literalRule read)
      value.outline value := by
    obtain ⟨rfl, -⟩ | ⟨rfl, -⟩ := datetimeConstant_eq_ok hend hrun
    · exact rereads_datetime name true
    · exact rereads_datetime name false
  exact hagain.retrace steady_literalRule_read hleads
    (fun rest _ hrest => literals_of_datetime hkind hname hrun hrest) fun _ hrest => hrest.paren

end

/-- Literals other than numbers are retraced. -/
theorem retraces_literalRule (hsteady : Steady (literalRule call))
    (hinterval : Retraces Anywhere (Meets (.keyword .INTERVAL)) [] (call .interval) (read .interval)
      Literal.outline (fun _ => Outlook.any)) :
    Retraces Anywhere Literals [] (literalRule call) (literalRule read) Literal.outline
      (fun _ => Follows) := by
  intro s value t hs _ heq
  have hleads := hsteady.leads heq
  rw [literalRule_apply] at heq
  cases hkind : s.cursor.current.kind with
  | string text =>
    rw [hkind] at heq
    exact ⟨_, rfl, retrace_string hleads hkind heq⟩
  | symbol sign =>
    rw [hkind] at heq
    cases sign with
    | leftBrace =>
      obtain ⟨kind, written, hwritten⟩ := bracedLiteral_eq_ok hs heq
      exact ⟨_, rfl, retrace_temporal hleads hs hwritten⟩
    | _ => exact absurd heq rejectCurrent_ne_ok
  | keyword word =>
    rw [hkind] at heq
    cases word with
    | TRUE => exact ⟨_, rfl, retrace_simple hleads heq (rereads_boolean true) rfl (.inl rfl)⟩
    | FALSE =>
      exact ⟨_, rfl, retrace_simple hleads heq (rereads_boolean false) rfl (.inr (.inl rfl))⟩
    | NULL => exact ⟨_, rfl, retrace_simple hleads heq rereads_null rfl (.inr (.inr (.inl rfl)))⟩
    | INTERVAL =>
      obtain ⟨items, hitems, hr⟩ := hinterval s value t hs trivial heq
      refine ⟨items, hitems, (hr.ending fun _ _ => trivial).congr fun tokens hfront => ?_⟩
      refine ⟨literals_of_keyword hfront.2 (.inr (.inr (.inr rfl))), fun s' _ hfaces => ?_⟩
      rw [literalRule_apply, hfaces.current, hfront.2]
      rfl
    | DATE | TIME | TIMESTAMP =>
      obtain ⟨written, hwritten⟩ := wordLiteral_eq_ok hs heq
      exact ⟨_, rfl, retrace_temporal hleads hs hwritten⟩
    | _ => exact absurd heq rejectCurrent_ne_ok
  | name word =>
    rw [hkind] at heq
    cases hname : DatetimeConstant.ofText? word with
    | none =>
      simp only [literalAt, hname] at heq
      exact absurd heq rejectCurrent_ne_ok
    | some name =>
      simp only [literalAt, hname] at heq
      exact ⟨_, rfl, retrace_datetime hleads hkind hname heq⟩
  | _ =>
    rw [hkind] at heq
    exact absurd heq rejectCurrent_ne_ok

theorem Constant.outline_eq_or (found : Constant) : found.outline = found.value.outline ∨
    ∃ r, found.outline = .remark r :: found.value.outline := by
  obtain ⟨value, span⟩ := found
  cases value with
  | integer n => exact .inr ⟨_, rfl⟩
  | real x => exact .inr ⟨_, rfl⟩
  | _ => exact .inl rfl

section

variable (hsteady : Steady (literalRule call))
variable (hinterval : Retraces Anywhere (Meets (.keyword .INTERVAL)) [] (call .interval)
  (read .interval) Literal.outline (fun _ => Outlook.any))

include hsteady hinterval

theorem retraces_literalConstant :
    Retraces here Literals [] (literalConstant call) (literalConstant read) Constant.outline
      (fun _ => Follows) := by
  have h : Retraces here Literals [] (literalConstant call) (literalConstant read)
      (fun found => found.value.outline) (fun _ => Follows) := by
    refine retraces_start_bind fun _ _ => ?_
    refine (retraces_literalRule hsteady hinterval).anywhere.bind fun value value' hvalue => ?_
    refine retraces_spanFrom_bind fun span span' => retraces_pure rfl ?_
    exact congrArg (Constant.mk · default) hvalue
  exact h.remarked Constant.outline_eq_or

/-- Constants are retraced. -/
theorem retraces_constantRule :
    Retraces here Constants [] (constantRule call) (constantRule read) Constant.outline
      (fun _ => Follows) := by
  refine retraces_of fun s _ _ => ?_
  cases hnumber : startsNumber s.cursor.current.kind with
  | true =>
    refine ⟨Numbers, number, number, retraces_number.ending fun _ _ _ _ => trivial, ?_, ?_⟩
    · rw [constantRule_apply, if_pos hnumber]
    · intro tokens hfront
      obtain ⟨hconstants, hstarts⟩ := hfront.constants
      refine ⟨hconstants, fun s' _ hfaces => ?_⟩
      rw [constantRule_apply, hfaces.current, if_pos hstarts]
  | false =>
    refine ⟨Literals, literalConstant call, literalConstant read,
      retraces_literalConstant hsteady hinterval, ?_, ?_⟩
    · rw [constantRule_apply, hnumber]
      rfl
    · intro tokens hfront
      refine ⟨hfront.1, fun s' _ hfaces => ?_⟩
      rw [constantRule_apply, hfaces.current, hfront.2]
      rfl

end

end SearchSql.Grammar
