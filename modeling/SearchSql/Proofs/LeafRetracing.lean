import SearchSql.Proofs.Recovering
import SearchSql.Proofs.Rereading

/-!
# Retracing names and values

What is read again from its written tokens is retraced, and what is written for it looks to the rule
in front as the source did: a name or a constant in front of an expression (`Operands`), a unit of time
behind one (`Alike`).
-/

set_option autoImplicit false

namespace SearchSql.Grammar

open SearchSql.Grammar.Parser SearchSql.Token

variable {library : Time.Library} {α β : Type} [Erases α] [Erases β] {s t : State} {c d : Cursor}
variable {items before : List Item} {tokens rest : List Token} {here : Token → Prop}
variable {front R : Outlook}

/-- What is read again from its written tokens is retraced. -/
theorem retraces_of_rereads {p q : Parser α} {outline : α → List Item} {rears : α → Outlook}
    (hp : Steady p) (hq : Steady q)
    (h : ∀ s a t, s.Primed → here s.cursor.current → p s = .ok a t →
      Rereads (rears a t.cursor) q (outline a) a ∧ ∀ rest, Fine (outline a) →
        rears a t.cursor rest → front s.cursor (writtenTokens (outline a) ++ rest)) :
    Retraces here front before p q (fun a => before ++ outline a) rears := by
  intro s a t hs hhere heq
  obtain ⟨hagain, hfront⟩ := h s a t hs hhere heq
  exact ⟨outline a, rfl, hagain.retrace hq (hp.leads heq) hfront fun _ h => h⟩

/-! ## In front of names -/

/-- The outlook in front of an expression, from what stands behind the field it may start with. -/
theorem operands_of_ahead (hopening : isOpening (kindAt tokens 0) = true)
    (hparen : kindAt tokens 0 ≠ .symbol .leftParen) (hnot : kindAt tokens 0 ≠ .keyword .NOT)
    (hcalled : ∀ word, (kindAt tokens 0).bareWord? = some word →
      kindAt tokens 1 = .symbol .leftParen →
        c.current.kind.bareWord? = some word ∧ (c.peek 1).kind = .symbol .leftParen)
    (hafter : ∀ rest, afterField? tokens = some rest → kindAt rest 0 ≠ .symbol .dot ∧
      (JoinsField rest → startsFieldEquals c.ahead = true)) : Operands c tokens := by
  refine ⟨⟨hopening, fun h => absurd h hparen, fun h => absurd h hnot, hcalled, ?_, ?_⟩, hnot⟩
  · intro h
    obtain ⟨rest, hrest, hjoins⟩ := startsFieldEquals_iff.1 h
    exact (hafter rest hrest).2 hjoins
  · exact fun rest h => (hafter rest (afterField?_of_afterName? h)).1

/-- A field is in front of an expression as it was in the source. -/
theorem operands_of_field (hopening : isOpening (kindAt tokens 0) = true)
    (hparen : kindAt tokens 0 ≠ .symbol .leftParen) (hnot : kindAt tokens 0 ≠ .keyword .NOT)
    (hcalled : (kindAt tokens 0).bareWord?.isSome = true → kindAt tokens 1 ≠ .symbol .leftParen)
    (hfield : afterField? tokens = some rest)
    (hsource : JoinsField d.ahead → afterField? c.ahead = some d.ahead) (h : Follows d rest) :
    Operands c tokens := by
  refine operands_of_ahead hopening hparen hnot (fun word hword hcall => ?_) ?_
  · exact absurd hcall (hcalled (by rw [hword]; rfl))
  · intro rest' hrest'
    obtain rfl := Option.some.inj (hfield.symm.trans hrest')
    refine ⟨h.dot, fun hjoins => startsFieldEquals_iff.2 ⟨d.ahead, ?_, h.joins hjoins⟩⟩
    exact hsource (h.joins hjoins)

/-- How a written name starts in front of `rest`. -/
inductive NameStarts (rest tokens : List Token) : Prop where
  | bare {value : String} : contextualWords.contains (Text.upper value) = false →
      kindAt tokens 0 = .name value →
      kindAt tokens 1 = .symbol .dot ∨ kindAt tokens 1 = kindAt rest 0 → NameStarts rest tokens
  | dotted {value : String} : kindAt tokens 0 = .symbol .dot → kindAt tokens 1 = .name value →
      NameStarts rest tokens
  | quoted {value : String} : kindAt tokens 0 = .quotedName value → NameStarts rest tokens

/-- What is written for a name starts as a name does. -/
theorem nameStarts_written {name : QualifiedName} (hfine : Fine name.outline) (rest : List Token) :
    NameStarts rest (writtenTokens name.outline ++ rest) := by
  have hparts : name.parts ≠ [] := (hfine.legible _ List.mem_cons_self).1
  obtain ⟨_ | ⟨first, parts⟩, span⟩ := name
  · exact absurd rfl hparts
  rw [writtenTokens_qualifiedName, List.append_assoc]
  have hwritten := first.written
  generalize writtenTokens first.outline = tokens at hwritten
  cases hwritten with
  | bare hcontext =>
    refine .bare hcontext rfl ?_
    cases parts with
    | nil => exact .inr rfl
    | cons part parts => exact .inl rfl
  | dotted _ => exact .dotted rfl rfl
  | quoted => exact .quoted rfl

section

variable (h : NameStarts rest tokens)

include h

/-- An expression may start with a name. -/
theorem NameStarts.isOpening : isOpening (kindAt tokens 0) = true := by
  rcases h with ⟨-, h, -⟩ | ⟨h, -⟩ | h
  all_goals
    rw [h]
    rfl

/-- A name starts with a token that may be one, or with a dot. -/
theorem NameStarts.ne {kind : TokenKind} (hlike : kind.isNameLike = false)
    (hdot : kind ≠ .symbol .dot) : kindAt tokens 0 ≠ kind := by
  rintro rfl
  rcases h with ⟨-, h, -⟩ | ⟨h, -⟩ | h
  · rw [h] at hlike
    cases hlike
  · exact hdot h
  · rw [h] at hlike
    cases hlike

/-- A written name is no word for the current date or time. -/
theorem NameStarts.startsConstant (second third : TokenKind) :
    startsConstant (kindAt tokens 0) second third = false := by
  cases h with
  | @bare value hcontext h _ =>
    rw [h, startsConstant_name]
    cases hfound : DatetimeConstant.ofText? value with
    | none => rfl
    | some name =>
      have hall : name ∈ DatetimeConstant.all := by cases name <;> decide
      have hmem : Text.upper value ∈ contextualWords := by
        rw [← Text.spelling_of_findSpelling hfound]
        exact List.mem_cons_of_mem _ (List.mem_cons_of_mem _ (List.mem_map_of_mem hall))
      rw [List.contains_iff_mem.2 hmem] at hcontext
      cases hcontext
  | dotted h _ =>
    rw [h]
    rfl
  | quoted h =>
    rw [h]
    rfl

theorem NameStarts.operandForm? (hparen : kindAt rest 0 ≠ .symbol .leftParen) (third : TokenKind) :
    operandForm? (kindAt tokens 0) (kindAt tokens 1) third = some .column := by
  unfold Grammar.operandForm?
  rw [h.startsConstant]
  rcases h with ⟨-, h, hsecond⟩ | ⟨h, hsecond⟩ | h
  · have hne : (kindAt tokens 1 == .symbol .leftParen) = false := by
      refine beq_eq_false_iff_ne.2 ?_
      rcases hsecond with hsecond | hsecond
      · rw [hsecond]
        decide
      · rw [hsecond]
        exact hparen
    rw [h, hne]
    rfl
  · rw [h, hsecond]
    rfl
  · rw [h]
    rfl

end

/-- A written name may stand in front of an expression if the field of the source does. -/
theorem NameStarts.operands (h : NameStarts rest tokens) (hfield : afterField? tokens = some rest)
    (hsource : afterField? c.ahead = some d.ahead) (hrest : Follows d rest) : Operands c tokens := by
  refine operands_of_field h.isOpening (h.ne rfl (by decide)) (h.ne rfl (by decide)) ?_ hfield
    (fun _ => hsource) hrest
  intro hword
  rcases h with ⟨-, -, hsecond⟩ | ⟨hkind, -⟩ | hkind
  · rcases hsecond with hsecond | hsecond
    · rw [hsecond]
      decide
    · rw [hsecond]
      exact hrest.paren
  · rw [hkind] at hword
    cases hword
  · rw [hkind] at hword
    cases hword

/-- A name may be written in front of what a constant may stand in front of. -/
theorem operands_of_name {name : QualifiedName} (h : qualifiedName s = .ok name t)
    (hfine : Fine name.outline) (hrest : Follows t.cursor rest) :
    Operands s.cursor (writtenTokens name.outline ++ rest) :=
  (nameStarts_written hfine rest).operands
    (afterField?_of_afterName? (afterName?_written hfine (nameEnds_of_ne_dot hrest.dot)))
    (afterField?_of_afterName? (afterName?_of_qualifiedName h)) hrest

theorem afterField?_of_string {u : Token} {us : List Token} (h : u.kind.isString = true) :
    afterField? (u :: us) = some us := by simp [afterField?, h]

/-- What is written for a field starts with a string or as a name does. -/
theorem fieldStarts_written {f : Field} (hfine : Fine f.outline) (rest : List Token) :
    (∃ value, kindAt (writtenTokens f.outline ++ rest) 0 = .string value) ∨
      NameStarts rest (writtenTokens f.outline ++ rest) := by
  cases f with
  | name n => exact .inr (nameStarts_written hfine rest)
  | quoted value span => exact .inl ⟨value, rfl⟩

/-- What starts with a string may stand in front of an expression if it does so in the source. -/
theorem operands_of_string {value : String} (hkind : kindAt tokens 0 = .string value)
    (hfield : afterField? tokens = some rest) (hsource : afterField? c.ahead = some d.ahead)
    (hrest : Follows d rest) : Operands c tokens := by
  refine operands_of_field ?_ ?_ ?_ (fun hword => ?_) hfield (fun _ => hsource) hrest
  · rw [hkind]
    rfl
  · rw [hkind]
    exact TokenKind.noConfusion
  · rw [hkind]
    exact TokenKind.noConfusion
  · rw [hkind] at hword
    cases hword

/-- A written field may stand in front of an expression if the field of the source does. -/
theorem operands_of_fieldRun {f : Field} (h : field s = .ok f t) (hfine : Fine f.outline)
    (hrest : Follows t.cursor rest) : Operands s.cursor (writtenTokens f.outline ++ rest) := by
  have hfield := afterField?_written hfine (nameEnds_of_ne_dot hrest.dot)
  have hsource := afterField?_of_field h
  rcases fieldStarts_written hfine rest with ⟨value, hkind⟩ | hstarts
  · exact operands_of_string hkind hfield hsource hrest
  · exact hstarts.operands hfield hsource hrest

/-! ## Names and fields -/

/-- No closing parenthesis is in front of the written tokens. -/
def Unclosed : Outlook := fun _ tokens => kindAt tokens 0 ≠ .symbol .rightParen

/-- A name may be written in another way, but is read again. -/
theorem retraces_ident :
    Retraces here Outlook.any before ident ident (fun name => before ++ name.outline)
      (fun _ => R) :=
  retraces_of_rereads steady_ident steady_ident fun _ name _ _ _ _ =>
    ⟨(rereads_ident name).imp fun _ _ => trivial, fun _ _ _ => trivial⟩

/-- A name is retraced where its written form is looked at as the source was. -/
theorem retraces_qualifiedName
    (hfront : ∀ s name t rest, qualifiedName s = .ok name t → Fine name.outline →
      R t.cursor rest → front s.cursor (writtenTokens name.outline ++ rest))
    (hrear : ∀ c rest, R c rest → NameEnds rest) :
    Retraces here front before qualifiedName qualifiedName (fun name => before ++ name.outline)
      (fun _ => R) :=
  retraces_of_rereads steady_qualifiedName steady_qualifiedName fun s name t _ _ heq =>
    ⟨(rereads_qualifiedName name).imp (hrear t.cursor), fun rest => hfront s name t rest heq⟩

/-- So is a field. -/
theorem retraces_field
    (hfront : ∀ s f t rest, field s = .ok f t → Fine f.outline → R t.cursor rest →
      front s.cursor (writtenTokens f.outline ++ rest))
    (hrear : ∀ c rest, R c rest → NameEnds rest) :
    Retraces here front before field field (fun f => before ++ f.outline) (fun _ => R) :=
  retraces_of_rereads steady_field steady_field fun s f t _ _ heq =>
    ⟨(rereads_field f).imp (hrear t.cursor), fun rest => hfront s f t rest heq⟩

/-- A written field starts with no closing parenthesis. -/
theorem unclosed_field {f : Field} (hfine : Fine f.outline) :
    kindAt (writtenTokens f.outline ++ rest) 0 ≠ .symbol .rightParen := by
  rcases fieldStarts_written hfine rest with ⟨value, hkind⟩ | hstarts
  · rw [hkind]
    exact TokenKind.noConfusion
  · exact hstarts.ne rfl (by decide)

/-- A field with its weight is retraced, if nothing follows that it would go on with. -/
theorem retraces_weightedField :
    Retraces here Outlook.any before weightedField weightedField (fun f => before ++ f.outline)
      (fun _ _ tokens => FieldEnds tokens) :=
  retraces_of_rereads steady_weightedField steady_weightedField fun _ f _ _ _ _ =>
    ⟨rereads_weightedField f, fun _ _ _ => trivial⟩

/-- A field ends in front of every sign but a dot and a caret. -/
theorem fieldEnds_of_symbol {sign : Symbol} (h : kindAt tokens 0 = .symbol sign)
    (hdot : sign ≠ .dot) (hcaret : sign ≠ .caret) : FieldEnds tokens where
  name := nameEnds_of_ne_dot (by rw [h]; simpa using hdot)
  caret := by rw [h]; simpa using hcaret
  number := by rw [h]; rfl

/-- There is at least one token in a field. -/
theorem WeightedField.fills_outline (f : WeightedField) : Fills f.outline :=
  (fills_of_closes f.field.closes_outline).append _

/-- Fields in brackets are retraced whatever follows. -/
theorem retraces_fieldList :
    Retraces here (Meets (.symbol .leftBracket)) before fieldList fieldList
      (fun fs => before ++ bracketed fs) (fun _ => R) := by
  have hfield : Retraces Anywhere Outlook.any [] weightedField weightedField WeightedField.outline
      (fun _ _ tokens => FieldEnds tokens) := retraces_weightedField
  refine (retraces_symbol .leftBracket).bind fun _ _ _ =>
    (hfield.commaSeparated steady_weightedField WeightedField.fills_outline ?_ ?_
      "relevance field").bind fun fs fs' hfs =>
        (retraces_symbol .rightBracket).bind fun _ _ _ => retraces_pure ?_ hfs
  · intro c rest _ _
    exact fieldEnds_of_symbol rfl (by decide) (by decide)
  · intro c rest _ hmeets
    refine ⟨fieldEnds_of_symbol hmeets.2 (by decide) (by decide), ?_⟩
    rw [hmeets.2]
    decide
  · simp [bracketed]

/-! ## Numbers and words -/

theorem retraces_string :
    Retraces here Outlook.any before string string (fun value => before ++ [.string value])
      (fun _ => R) :=
  retraces_of_rereads steady_string steady_string fun _ value _ _ _ _ =>
    ⟨(rereads_string value).imp fun _ _ => trivial, fun _ _ _ => trivial⟩

theorem retraces_weight :
    Retraces here Outlook.any before weight weight (fun x => before ++ [.mark (.weight x)])
      (fun _ => R) :=
  retraces_of_rereads steady_weight steady_weight fun _ x _ _ _ _ =>
    ⟨(rereads_weight x).imp fun _ _ => trivial, fun _ _ _ => trivial⟩

theorem steady_number : Steady number := (steady_congruence.number (b := 0)).1

/-- A number that is read has a value. -/
theorem isNumeric_of_number (hstrict : s.settings.recover = false) {found : Constant}
    (h : number s = .ok found t) : IsNumeric found.value := by
  have hbehind {s : State} {start : Span} {negative : Bool} (hstrict : s.settings.recover = false)
      (h : Likeness.numberBehind start negative s = .ok found t) : IsNumeric found.value := by
    obtain ⟨-, -, -, ⟨-, n, hn, -⟩ | ⟨-, x, hx, -⟩⟩ := numberBehind_eq_ok hstrict h
    · exact .inl ⟨n, hn⟩
    · exact .inr ⟨x, hx⟩
  rw [Likeness.number_eq, current_bind_apply] at h
  unfold Likeness.numberFrom at h
  rw [takeSymbol_bind_apply] at h
  split at h
  · exact hbehind (s := s.skip 1) hstrict h
  · replace h : (takeSymbol .plus >>= fun _ =>
        Likeness.numberBehind s.cursor.current.span false) s = .ok found t := h
    rw [takeSymbol_bind_apply] at h
    split at h
    · exact hbehind (s := s.skip 1) hstrict h
    · exact hbehind hstrict h

/-- A number is in front of the written tokens. -/
def Numbers : Outlook := fun _ tokens =>
  (kindAt tokens 0).isNumber = true ∨
    kindAt tokens 0 = .symbol .minus ∧ (kindAt tokens 1).isNumber = true

/-- What is written for a number starts with a number or a sign. -/
theorem numbers_written {found : Constant} (h : IsNumeric found.value) (c : Cursor)
    (rest : List Token) : Numbers c (writtenTokens found.outline ++ rest) := by
  obtain ⟨value, span⟩ := found
  have hnumber (cs : List Char) : (numeralToken cs).kind.isNumber = true := isNumber_numeralKind cs
  obtain ⟨n, rfl⟩ | ⟨x, rfl⟩ := h
  · by_cases hneg : n < 0
    · simp [Numbers, Constant.outline, Literal.remark, Literal.outline, hneg, Mark.token, ofSymbol,
        hnumber]
    · simp [Numbers, Constant.outline, Literal.remark, Literal.outline, hneg, Mark.token, hnumber]
  · cases hneg : x.negative with
    | true =>
      simp [Numbers, Constant.outline, Literal.remark, Literal.outline, hneg, Mark.token, ofSymbol,
        hnumber]
    | false =>
      simp [Numbers, Constant.outline, Literal.remark, Literal.outline, hneg, Mark.token, hnumber]

/-- A number is retraced whatever follows. -/
theorem retraces_number :
    Retraces here Numbers before number number (fun found => before ++ found.outline)
      (fun _ => R) :=
  retraces_of_rereads steady_number steady_number fun _ _ _ hs _ heq =>
    have hnumeric := isNumeric_of_number hs.strict heq
    ⟨(rereads_number hnumeric).imp fun _ _ => trivial,
      fun rest _ _ => numbers_written hnumeric _ rest⟩

/-- A bare name is in front of both, and no operator is written. -/
def Worded : Outlook := fun c tokens =>
  c.current.kind.isBareName = true ∧
    ∃ value, kindAt tokens 0 = .name value ∧ ArithmeticOp.ofKind? (.name value) = none

theorem Worded.unclosed (h : Worded c tokens) : Unclosed c tokens := by
  obtain ⟨-, value, hkind, -⟩ := h
  show kindAt tokens 0 ≠ _
  rw [hkind]
  exact TokenKind.noConfusion

/-- Behind an expression, a word goes on with nothing. -/
theorem Worded.alike (h : Worded c tokens) : Alike c tokens := by
  obtain ⟨hsource, value, hkind, hop⟩ := h
  have hne {kind : TokenKind} (hk : kind.isBareName = false) : kindAt tokens 0 ≠ kind := by
    rintro rfl
    rw [hkind] at hk
    cases hk
  refine ⟨hne rfl, hne rfl, fun h => absurd h (hne rfl), fun _ h => absurd h (hne rfl), fun _ => ?_,
    fun op h => ?_, fun test width h => ?_, fun h => absurd h.1 (hne rfl),
    not_doomed_of_ne (hne rfl)⟩
  · refine .inr ?_
    cases hcurrent : c.current.kind with
    | name => rfl
    | _ =>
      rw [hcurrent] at hsource
      cases hsource
  · rw [hkind, hop] at h
    cases h
  · rw [hkind] at h
    cases h

theorem steady_singleUnit : Steady singleUnit := (steady_congruence.singleUnit (b := 0)).1

/-- A unit was read from a word that names it. -/
theorem unit_of_datetimeUnit {unit : DatetimeUnit} (h : datetimeUnit s = .ok unit t) :
    s.cursor.current.kind.bareWord?.bind DatetimeUnit.ofText? = some unit := by
  unfold Parser.datetimeUnit at h
  rw [current_bind_apply] at h
  cases hfound : s.cursor.current.kind.bareWord?.bind DatetimeUnit.ofText? with
  | none =>
    rw [hfound] at h
    exact absurd h rejectCurrent_ne_ok
  | some found =>
    rw [hfound] at h
    dsimp only at h
    rw [skip_bind_apply] at h
    obtain ⟨rfl, -⟩ := pure_eq_ok_iff.1 h
    rfl

/-- The word that is written for a unit is a bare name in both. -/
theorem worded_unit {unit : DatetimeUnit} (h : datetimeUnit s = .ok unit t) :
    Worded s.cursor (writtenTokens [.word unit.text] ++ rest) := by
  refine ⟨?_, unit.text, ?_, ?_⟩
  · have hfound := unit_of_datetimeUnit h
    cases hkind : s.cursor.current.kind with
    | name => rfl
    | _ =>
      rw [hkind] at hfound
      cases hfound
  · exact bareKind_unit unit
  · cases unit <;> decide

theorem retraces_datetimeUnit :
    Retraces here Worded before datetimeUnit datetimeUnit (fun unit => before ++ [.word unit.text])
      (fun _ => R) :=
  retraces_of_rereads steady_datetimeUnit steady_datetimeUnit fun _ unit _ _ _ heq =>
    ⟨(rereads_datetimeUnit unit).imp fun _ _ => trivial, fun _ _ _ => worded_unit heq⟩

theorem retraces_singleUnit :
    Retraces here Worded before singleUnit singleUnit (fun unit => before ++ [.word unit.text])
      (fun _ => R) := by
  refine retraces_of_rereads steady_singleUnit steady_singleUnit fun s unit t _ _ heq => ?_
  unfold singleUnit at heq
  rw [current_bind_apply] at heq
  obtain ⟨unit', u, hu, hrest⟩ := bind_eq_ok_iff.1 heq
  dsimp only at hrest
  cases hsingle : unit'.isSingle with
  | false =>
    rw [hsingle] at hrest
    obtain ⟨_, _, hreject, -⟩ := bind_eq_ok_iff.1 hrest
    exact absurd hreject reject_ne_ok
  | true =>
    rw [hsingle] at hrest
    obtain ⟨rfl, rfl⟩ := pure_eq_ok_iff.1 hrest
    exact ⟨(rereads_singleUnit hsingle).imp fun _ _ => trivial, fun _ _ _ => worded_unit hu⟩

theorem retraces_dataType :
    Retraces here Outlook.any before dataType dataType (fun target => before ++ [.word target.text])
      (fun _ => R) :=
  retraces_of_rereads steady_dataType steady_dataType fun _ target _ _ _ _ =>
    ⟨(rereads_dataType target).imp fun _ _ => trivial, fun _ _ _ => trivial⟩

theorem retraces_formatTarget :
    Retraces here Unclosed before formatTarget formatTarget
      (fun target => before ++ [.word target.text]) (fun _ => R) := by
  refine retraces_of_rereads steady_formatTarget steady_formatTarget fun _ target _ _ _ _ =>
    ⟨(rereads_formatTarget target).imp fun _ _ => trivial, fun _ _ _ => ?_⟩
  show bareKind target.text ≠ _
  cases target <;> decide

/-- A bare name among the tokens of a text is a name when it is written bare. -/
theorem bareKind_of_sound {u : Token} (hsound : u.Sound) {value : String}
    (hkind : u.kind = .name value) : bareKind value = .name value :=
  bareKind_of_isName (hsound.name hkind).2

/-- No string is in front of the written tokens. -/
def Unquoted : Outlook := fun _ tokens => (kindAt tokens 0).isString = false

/-- An option is retraced, since its word is written as it was. -/
theorem retraces_optionName (names : List String) (expected : String) :
    Retraces here Unquoted before (optionName names expected) (optionName names expected)
      (fun name => before ++ [.word name]) (fun _ => R) := by
  have hsteady : Steady (optionName names expected) := (steady_congruence.optionName (b := 0) _ _).1
  refine retraces_of_rereads hsteady hsteady fun s name t hs _ heq => ?_
  unfold optionName at heq
  rw [current_bind_apply] at heq
  cases hkind : s.cursor.current.kind with
  | name value =>
    rw [hkind] at heq
    dsimp only at heq
    cases hname : names.contains (Text.upper value) with
    | false =>
      rw [hname] at heq
      exact absurd heq rejectCurrent_ne_ok
    | true =>
      rw [hname, if_pos rfl, skip_bind_apply] at heq
      obtain ⟨rfl, rfl⟩ := pure_eq_ok_iff.1 heq
      have hbare := bareKind_of_sound hs.ready.current hkind
      refine ⟨(rereads_optionName hbare hname).imp fun _ _ => trivial, fun _ _ _ => ?_⟩
      show (bareKind value).isString = false
      rw [hbare]
      rfl
  | _ =>
    rw [hkind] at heq
    exact absurd heq rejectCurrent_ne_ok

/-- A limit is retraced in the one form in which it is written. -/
theorem retraces_limit :
    Retraces here (Meets (.keyword .LIMIT)) before limit limit (fun l => before ++ l.outline)
      (fun _ _ tokens => LimitEnds tokens) := by
  refine retraces_of_rereads steady_limit steady_limit fun _ l _ _ _ heq =>
    ⟨rereads_limit l, fun rest _ _ => ⟨?_, rfl⟩⟩
  obtain ⟨_, _, hword, -⟩ := bind_eq_ok_iff.1 heq
  exact (keyword_eq_ok_iff.1 hword).1

end SearchSql.Grammar
