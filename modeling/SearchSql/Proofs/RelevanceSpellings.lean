import SearchSql.Proofs.FieldReading
import SearchSql.Proofs.LeadingCall
import SearchSql.Proofs.Portable
import SearchSql.Time.Reading

/-!
# Two spellings of a full-text search

The field that a relevance function searches stands in front of the function, with an equals sign, or
between its parentheses; its named arguments come in either order. From the text of the search on, the
two spellings have the same tokens, and they are read by the same rules, at most under another level of
nesting. So both spellings are refused, or both give the same call (`parseTokensStrict_respelled`).
-/

set_option autoImplicit false

namespace SearchSql

/-! ## What differs between two spellings -/

/-- The form with the field in parentheses. -/
def RelevanceForm.fieldInside : RelevanceForm → RelevanceForm
  | .fieldEquals f => .field f
  | .fieldEqualsMulti f => .fields [⟨f, none⟩]
  | form => form

/-- The full-text search in another form. -/
def Relevance.mapForm (g : RelevanceForm → RelevanceForm) (r : Relevance) : Relevance :=
  ⟨r.name, g r.form, r.query, r.options⟩

/-- The call with another form of full-text search. -/
def Call.mapForm (g : RelevanceForm → RelevanceForm) : Call → Call
  | ⟨.relevance r, span⟩ => ⟨.relevance (r.mapForm g), span⟩
  | c => c

/-- To change no form changes no call. -/
@[simp] theorem Call.mapForm_id : Call.mapForm id = id := by
  funext c
  obtain ⟨shape, span⟩ := c
  cases shape with
  | relevance r => cases r; rfl
  | _ => rfl

/-- Whether the parse met the limit of nesting, where it ended or in an attempt that it gave up. -/
def Outcome.meetsLimit (o : Outcome) : Bool :=
  o.events.any fun
    | .aborted d | .attemptUndone _ d => d.kind == .recursionLimitExceeded
    | _ => false

namespace Grammar

open SearchSql.Grammar.Parser

variable {library : Time.Library} {α β γ : Type} {rest : List Token} {cost : Nat} {s s' t : State}
variable {g : RelevanceForm → RelevanceForm} {name m : String} {kind : RelevanceKind}

/-! ## Behind the fields -/

/-- What stands behind the text of a full-text search. -/
def searchEnd (name : String) (start : Span) (target : RelevanceForm × SearchValue) : Parser Call := do
  let options ← read .relevanceOptions
  let _ ← symbol .rightParen
  return ⟨.relevance ⟨name, target.1, target.2, options⟩, ← spanFrom start⟩

/-- The text of a full-text search and what stands behind it. -/
def searchTail (name : String) (start : Span) (form : RelevanceForm) : Parser Call := do
  let query ← read .searchValue
  searchEnd name start (form, query)

/-- Calls that differ in their places, and as `g` says in the form of a full-text search. -/
def CallsMatch (g : RelevanceForm → RelevanceForm) (a b : Call) : Prop :=
  b.view .placeless = (a.mapForm g).view .placeless

/-- A rule that ends behind a token of its own reads the same on both sides. -/
theorem sides_firm {n : Nonterminal α} (hfront : n.front = false) (hpredicate : n.isPredicate = false)
    (hfirm : n.firm = true) : Sides rest cost
      (fun a b => n.view .placeless b = n.view .placeless a) (read n) (read n) :=
  ⟨steady_read n, steady_read n, ends_deeper hfront hpredicate hfirm⟩

/-- Behind the text of a search, its options are read on both sides. -/
theorem sides_searchEnd {form form' : RelevanceForm} {query query' : SearchValue}
    (hform : form'.view .placeless = (g form).view .placeless)
    (hquery : query'.view .placeless = query.view .placeless) (start start' : Span) :
    Sides rest cost (CallsMatch g) (searchEnd name start (form, query))
      (searchEnd name start' (form', query')) := by
  have hoptions : Sides rest cost (fun a b => b.map (RelevanceOption.view .placeless) =
      a.map (RelevanceOption.view .placeless)) (read .relevanceOptions) (read .relevanceOptions) :=
    sides_firm (n := .relevanceOptions) rfl rfl rfl
  refine hoptions.bind (fun _ => rfl) fun options options' ho =>
    (sides_symbol .rightParen).bind (fun _ => trivial) fun _ _ _ =>
      (sides_spanFrom start start').map fun _ _ _ => ?_
  simp only [CallsMatch, Call.mapForm, Relevance.mapForm, Call.view, CallShape.view, Relevance.view,
    viewOptions_eq, hform, hquery, ho]
  rfl

theorem steady_searchEnd (name : String) (start : Span) (target : RelevanceForm × SearchValue) :
    Steady (searchEnd name start target) := by
  have hsides : Sides [] 0 (CallsMatch id) (searchEnd name start target)
      (searchEnd name start target) := sides_searchEnd rfl rfl start start
  exact hsides.left

/-- Behind the fields of a search, its text and its options are. -/
theorem sides_searchTail {form form' : RelevanceForm}
    (hform : form'.view .placeless = (g form).view .placeless) (start start' : Span) :
    Sides rest cost (CallsMatch g) (searchTail name start form) (searchTail name start' form') := by
  have hquery : Sides rest cost
      (fun a b => SearchValue.view .placeless b = SearchValue.view .placeless a)
      (read .searchValue) (read .searchValue) := sides_firm (n := .searchValue) rfl rfl rfl
  exact hquery.bind (fun _ => rfl) fun query query' hquery => sides_searchEnd hform hquery start start'

/-! ## Nested calls -/

/-- A run that goes on as another one does. -/
theorem bind_of_eq {p q : Parser α} (h : p s = q t) (f : α → Parser β) :
    (p >>= f) s = (q >>= f) t := by
  rw [bind_apply_andThen, bind_apply_andThen, h]

/-- A level of nesting that only the second run has is given back. -/
theorem Ends.shallower {R : α → β → Prop} {r : Run α} {r' : Run β} (h : Ends rest 1 R r r') :
    Ends rest 0 R r (mapState (·.shallower 1) r') := by
  cases h with
  | @ok a b t t' hab ht =>
    refine .ok hab ⟨⟨⟨ht.frame.settings, ht.frame.library, ?_, ht.frame.attempts, ht.frame.subqueries,
      ht.frame.separatorDepth⟩, ht.strict, ht.settled⟩, ht.tokens⟩
    have hdepth : t.depth + 1 = t'.depth := ht.frame.depth
    show t.depth + 0 = t'.depth - 1
    omega
  | failed => exact .failed
  | limited h => exact .limited (h.imp_right (·.mapState fun _ => rfl))

/-- The second run uses up a level. -/
theorem Ends.nest_right {R : α → β → Prop} {r : Run α} {q : Parser β}
    (h : Ends rest 1 R r (q (s'.deeper 1))) : Ends rest 0 R r (Parser.nest 1 q s') := by
  rw [nest_apply]
  by_cases hroom : s'.settings.nestingLimit < s'.depth + 1
  · rw [if_pos hroom]
    exact .limited (.inr (.inl ⟨_, s', rfl, rfl⟩))
  · rw [if_neg hroom]
    exact h.shallower

/-! ## The field in front of the function -/

/-- The form of a full-text search whose field stands in front of the function. -/
def formBehind (kind : RelevanceKind) (field : Field) : RelevanceForm :=
  if kind = .multiField then .fieldEqualsMulti field else .fieldEquals field

theorem bareWord?_ofName (m : String) : (Token.ofName m).kind.bareWord? = some (Text.upper m) := rfl

/-- An operand that begins with a field, an equals sign and a relevance function. -/
theorem operand_of_fieldEquals (hkind : fieldEqualsKind? (Text.upper m) = some kind) {f : Field}
    (hfield : field s = .ok f t)
    (ht : t.Faces (.ofSymbol .eq :: .ofName m :: .ofSymbol .leftParen :: rest)) :
    ∃ u, s.Leads u ∧ u.Faces rest ∧ read .operand s =
      (Atom.call <$> searchTail m s.cursor.current.span (formBehind kind f)) u := by
  have hname := ht.skip rfl
  obtain ⟨hcall, hfaces⟩ := callName_of_faces rfl hname
  have hstarts : startsFieldEquals s.cursor.ahead = true := by
    refine startsFieldEquals_iff.2 ⟨_, afterField?_of_field hfield, ?_, ?_, ?_⟩
    · exact ht.kindAt 0
    · rw [ht.kindAt 1]
      show ((Token.ofName m).kind.bareWord?.bind fieldEqualsKind?).isSome = true
      rw [bareWord?_ofName, Option.bind_some, hkind]
      rfl
    · exact ht.kindAt 2
  have heq : symbol .eq t = .ok _ (t.skip 1) := symbol_eq_ok_iff.2 ⟨ht.current, rfl, rfl⟩
  have hword : (t.skip 1).cursor.current.kind.bareWord?.bind fieldEqualsKind? = some kind := by
    rw [hname.current]
    exact hkind
  have hleads : s.Leads (((t.skip 1).skip 1).skip 1) :=
    ((steady_field.leads hfield).trans (t.leads_skip 1)).trans (steady_callName.leads hcall)
  refine ⟨_, hleads, hfaces, ?_⟩
  -- Behind field, equals sign and name the rule goes on as that of the call does.
  have hrule : read .fieldEquals s = (do
      let query ← read .searchValue
      let options ← read .relevanceOptions
      let _ ← symbol .rightParen
      return (⟨m, formBehind kind f, query, options⟩ : Relevance)) (((t.skip 1).skip 1).skip 1) := by
    rw [read_eq_rule]
    show fieldEqualsRule read s = _
    unfold fieldEqualsRule
    rw [bind_of_ok hfield, bind_of_ok heq, current_bind_apply]
    simp only [hword]
    rw [bind_of_ok hcall]
    rfl
  rw [read_eq_rule]
  show operandRule read s = _
  rw [operandRule_eq, get_bind_apply]
  unfold operandAt
  rw [if_pos hstarts]
  refine bind_of_eq ?_ _
  unfold fieldEqualsCall
  rw [current_bind_apply]
  refine (bind_of_eq hrule _).trans ?_
  simp only [searchTail, searchEnd, bind_assoc, pure_bind]

/-! ## The field between the parentheses -/

/-- A name with a parenthesis behind it is no field with an equals sign. -/
theorem startsFieldEquals_of_name {first second : Token} {behind : List Token}
    (hname : first.kind = .name m) (hopen : second.kind = .symbol .leftParen) :
    startsFieldEquals (first :: second :: behind) = false := by
  refine startsFieldEquals_eq_false fun left hleft hjoins => ?_
  obtain ⟨more, rfl⟩ : ∃ more, left = second :: more := by
    cases behind <;>
      simp [afterField?, afterName?, afterIdent?, afterSegments, hname, hopen, TokenKind.isString,
        TokenKind.isNameLike] at hleft <;> exact ⟨_, hleft.symm⟩
  have heq : second.kind = .symbol .eq := hjoins.1
  rw [hopen] at heq
  cases heq

/-- The name of a relevance function names no other function, and no time. -/
theorem family_of_relevance {word : String} (h : RelevanceKind.ofUpper? word = some kind) :
    FunctionFamily.ofUpper? word = some (.relevance kind) ∧ DatetimeConstant.ofText? word = none := by
  have hall : ∀ kind : RelevanceKind, ∀ word ∈ kind.names,
      RelevanceKind.ofUpper? word = some kind ∧
        FunctionFamily.ofUpper? word = some (.relevance kind) ∧
          DatetimeConstant.ofText? word = none := by
    rintro (_ | _ | _) <;> decide +kernel
  have hmem : word ∈ kind.names := by
    have hfound := List.find?_some h
    exact List.contains_iff_mem.1 hfound
  exact (hall kind word hmem).2

/-- An operand that begins with a name and a parenthesis is a call, unless the name is that of a
constant. -/
theorem operand_of_name (hconstant : DatetimeConstant.ofText? (Text.upper m) = none)
    (hs : s.Faces (.ofName m :: .ofSymbol .leftParen :: rest)) :
    read .operand s = (Atom.call <$> Parser.nest 1 (callBody read)) s := by
  have hstarts : startsFieldEquals s.cursor.ahead = false := by
    obtain ⟨first, behind, hahead, hfirst, hbehind⟩ := List.map_eq_cons_iff.1 (show _ = _ from hs)
    obtain ⟨second, behind, rfl, hsecond, -⟩ := List.map_eq_cons_iff.1 hbehind
    rw [hahead]
    exact startsFieldEquals_of_name (congrArg Token.kind hfirst) (congrArg Token.kind hsecond)
  have hform : s.cursor.operandForm? = some .call := by
    unfold Cursor.operandForm? Grammar.operandForm? Grammar.startsConstant startsDatetimeConstant
    rw [hs.peek 0, hs.peek 1]
    show (if ((Token.ofName m).kind.bareWord?.bind DatetimeConstant.ofText?).isSome && _ then _
      else _) = _
    rw [bareWord?_ofName, Option.bind_some, hconstant]
    rfl
  rw [read_eq_rule]
  show operandRule read s = _
  rw [operandRule_eq, get_bind_apply]
  unfold operandAt
  rw [hstarts, hform]
  show (Atom.call <$> read .call) s = _
  rw [read_eq_rule]
  rfl

/-- An operand that begins with a relevance function. -/
theorem operand_of_relevance (hkind : RelevanceKind.ofUpper? (Text.upper m) = some kind)
    (hs : s.Faces (.ofName m :: .ofSymbol .leftParen :: rest)) :
    read .operand s = (Atom.call <$> Parser.nest 1 (callBody read)) s :=
  operand_of_name (family_of_relevance hkind).2 hs

/-- The shape of a call is that of its family. -/
theorem callShape_of_family {family : FunctionFamily}
    (hfamily : FunctionFamily.ofUpper? (Text.upper m) = some family)
    (hs : s.Faces (.ofName m :: .ofSymbol .leftParen :: rest)) :
    callShape read s = shapeRule read family s := by
  have hname : s.cursor.current.kind = .name m := hs.current
  unfold callShape
  rw [current_bind_apply, hname]
  dsimp only
  rw [hfamily]
  dsimp only
  rw [read_eq_rule]
  rfl

/-- What a relevance function searches is read behind its name. -/
theorem callBody_of_relevance (hkind : RelevanceKind.ofUpper? (Text.upper m) = some kind)
    (hs : s.Faces (.ofName m :: .ofSymbol .leftParen :: rest)) :
    ∃ u, s.Leads u ∧ u.Faces rest ∧ callBody read s =
      (searchTarget read kind >>= searchEnd m s.cursor.current.span) u := by
  obtain ⟨hcall, hfaces⟩ : callName s = .ok m ((s.skip 1).skip 1) ∧ _ := callName_of_faces rfl hs
  have hrule : read (.relevance kind) s = (searchTarget read kind >>= fun target => do
      let options ← read .relevanceOptions
      let _ ← symbol .rightParen
      return (⟨m, target.1, target.2, options⟩ : Relevance)) ((s.skip 1).skip 1) := by
    rw [read_eq_rule]
    show relevanceRule read kind s = _
    unfold relevanceRule
    rw [bind_of_ok hcall]
  have hshape : callShape read s = (CallShape.relevance <$> read (.relevance kind)) s :=
    callShape_of_family (family_of_relevance hkind).1 hs
  refine ⟨_, steady_callName.leads hcall, hfaces, ?_⟩
  unfold callBody
  rw [current_bind_apply]
  refine (bind_of_eq hshape _).trans ?_
  rw [map_eq_pure_bind, bind_assoc]
  refine (bind_of_eq hrule _).trans ?_
  simp only [bind_assoc, pure_bind]
  rfl

/-- A sign that is faced is taken. -/
theorem symbol_of_faces {sign : Symbol} (hs : s.Faces (.ofSymbol sign :: rest)) :
    symbol sign s = .ok s.cursor.current.span (s.skip 1) ∧ (s.skip 1).Faces rest :=
  ⟨symbol_eq_ok_iff.2 ⟨hs.current, rfl, rfl⟩, hs.skip rfl⟩

/-- A field and a comma in front of the text. -/
theorem searchTarget_of_field {f : Field} (hfield : field s = .ok f t)
    (ht : t.Faces (.ofSymbol .comma :: rest)) (start : Span) :
    (searchTarget read .singleField >>= searchEnd m start) s =
      searchTail m start (.field f) (t.skip 1) := by
  unfold searchTarget
  rw [bind_assoc, bind_of_ok hfield, bind_assoc, bind_of_ok (symbol_of_faces ht).1, bind_assoc]
  simp only [pure_bind]
  rfl

/-- A field in brackets and a comma in front of the text. -/
theorem searchTarget_of_fieldList {f : Field} {left : List Token}
    (hs : s.Faces (.ofSymbol .leftBracket :: left)) (hfield : field (s.skip 1) = .ok f t)
    (htaken : t.cursor.ahead.length < (s.skip 1).cursor.ahead.length)
    (ht : t.Faces (.ofSymbol .rightBracket :: .ofSymbol .comma :: rest)) (start : Span) :
    (searchTarget read .multiField >>= searchEnd m start) s =
      searchTail m start (.fields [⟨f, none⟩]) ((t.skip 1).skip 1) := by
  have hkind : t.cursor.current.kind = .symbol .rightBracket := ht.current
  have hweighted : weightedField (s.skip 1) = .ok ⟨f, none⟩ t := by
    unfold weightedField
    rw [bind_of_ok hfield, takeSymbol_bind_apply, if_neg (hkind ▸ nofun),
      if_neg Bool.false_ne_true, current_bind_apply, hkind]
    rfl
  have hlist : Parser.commaSeparated "relevance field" weightedField (s.skip 1) =
      .ok [⟨f, none⟩] t :=
    commaList_of_single steady_weightedField steady_weightedField hweighted htaken (hkind ▸ nofun)
  have hfields : fieldList s = .ok [⟨f, none⟩] (t.skip 1) := by
    unfold fieldList
    rw [bind_of_ok (symbol_of_faces hs).1, bind_of_ok hlist, bind_of_ok (symbol_of_faces ht).1]
    rfl
  have htarget : searchTarget read .multiField s = (do
      let query ← read .searchValue
      return (RelevanceForm.fields [⟨f, none⟩], query)) ((t.skip 1).skip 1) := by
    unfold searchTarget
    dsimp only
    rw [current_bind_apply, peek_bind_apply, hs.current]
    show (fieldList >>= _) s = _
    rw [bind_of_ok hfields, bind_of_ok (symbol_of_faces (ht.skip rfl)).1]
  refine (bind_of_eq htarget _).trans ?_
  rw [bind_assoc]
  simp only [pure_bind]
  rfl

/-! ## Named arguments -/

/-- A run has met the limit whatever is made of its result. -/
theorem MetLimit.map {p : Parser α} (h : MetLimit (p s)) (f : α → β) : MetLimit ((f <$> p) s) := by
  show MetLimit ((p >>= fun a => pure (f a)) s)
  rw [bind_apply_andThen]
  exact h.andThen fun _ => steady_pure _

/-- The tokens a field may begin with. -/
theorem field_starts {f : Field} (h : field s = .ok f t) :
    (∃ value, s.cursor.current.kind = .string value) ∨ s.cursor.current.kind.isNameLike = true ∨
      s.cursor.current.kind = .symbol .dot := by
  by_cases hstring : ∃ value, s.cursor.current.kind = .string value
  · exact .inl hstring
  · rw [field_of_ne fun value hvalue => hstring ⟨value, hvalue⟩] at h
    obtain ⟨name, hname, -⟩ := map_eq_ok_iff.1 h
    rw [qualifiedName_eq] at hname
    obtain ⟨first, u, hfirst, -⟩ := bind_eq_ok_iff.1 hname
    obtain ⟨-, -, hname | hquoted | ⟨word, hword, hlike, -⟩⟩ | ⟨value, hdot, -⟩ := ident_eq_ok hfirst
    · exact .inr (.inl (hname ▸ rfl))
    · exact .inr (.inl (hquoted ▸ rfl))
    · exact .inr (.inl (hword ▸ hlike))
    · exact .inr (.inr hdot)

/-- The fields behind `fields =`. -/
def namedFields : Parser (List WeightedField) := do
  if ← atSymbol .leftBracket then fieldList else return [← weightedField]

/-- The token in front is the first, if there is one. -/
theorem kindAt_append {front behind : List Token} (h : kindAt front 0 ≠ .endOfInput) :
    kindAt (front ++ behind) 0 = kindAt front 0 := by
  cases front with
  | nil => exact absurd rfl h
  | cons t front => rfl

/-- What is read alone is read by some run that has nothing left. -/
theorem ReadsAlone.exists_run {p : Parser α} {tokens : List Token} (h : ReadsAlone p tokens) :
    ∃ s : State, s.Faces (tokens.map Token.placeless) ∧ ∃ a t, p s = .ok a t := by
  obtain ⟨input, hinput, a, t, hrun, -⟩ := h
  exact ⟨State.ofTokens input _, hinput, a, t, hrun⟩

/-- A weighted field, or a list of them in brackets. -/
theorem gives_namedFields {tokens : List Token}
    (h : ReadsAlone weightedField tokens ∨ ReadsAlone fieldList tokens) :
    ∃ seen, Gives namedFields tokens (List.map (WeightedField.view .placeless)) seen := by
  -- A single field starts with no bracket, a list of fields does.
  obtain h | h := h
  · obtain ⟨seen, hseen⟩ := portable_weightedField.again h
    refine ⟨[seen], fun {rest s} hs hborder horder hne hfaces => ?_⟩
    have hfirst : kindAt (tokens.map Token.placeless) 0 ≠ .endOfInput ∧
        kindAt (tokens.map Token.placeless) 0 ≠ .symbol .leftBracket := by
      obtain ⟨alone, halone, a, t, hrun⟩ := h.exists_run
      obtain ⟨f, u, hfield, -⟩ := bind_eq_ok_iff.1 hrun
      rw [← halone.current]
      obtain ⟨value, hvalue⟩ | hname | hdot := field_starts hfield
      · rw [hvalue]
        exact ⟨nofun, nofun⟩
      · have hdiffers {kind : TokenKind} (hkind : kind.isNameLike = false) :
            alone.cursor.current.kind ≠ kind := by
          rintro rfl
          exact absurd (hkind.symm.trans hname) nofun
        exact ⟨hdiffers rfl, hdiffers rfl⟩
      · rw [hdot]
        exact ⟨nofun, nofun⟩
    have hfields : namedFields s = ((fun f => [f]) <$> weightedField) s := by
      unfold namedFields
      rw [atSymbol_bind_apply, hfaces.current, kindAt_append hfirst.1, beq_false_of_ne hfirst.2]
      rfl
    rw [hfields]
    obtain ⟨a, t, hrun, hview, ht⟩ | hlimit := hseen hs hborder horder hne hfaces
    · exact .inl ⟨[a], t, map_eq_ok_iff.2 ⟨a, hrun, rfl⟩, congrArg (fun f => [f]) hview, ht⟩
    · exact .inr (hlimit.map _)
  · obtain ⟨seen, hseen⟩ := portable_fieldList.again h
    refine ⟨seen, fun {rest s} hs hborder horder hne hfaces => ?_⟩
    have hfirst : kindAt (tokens.map Token.placeless) 0 = .symbol .leftBracket := by
      obtain ⟨alone, halone, a, t, hrun⟩ := h.exists_run
      obtain ⟨f, u, hopen, -⟩ := bind_eq_ok_iff.1 hrun
      rw [← halone.current]
      exact (symbol_eq_ok_iff.1 hopen).1
    have hfields : namedFields s = fieldList s := by
      unfold namedFields
      rw [atSymbol_bind_apply, hfaces.current, kindAt_append (hfirst ▸ nofun), hfirst]
      rfl
    rw [hfields]
    exact hseen hs hborder horder hne hfaces

/-- An argument behind its name and an equals sign. -/
theorem Gives.named {p : Parser α} {f : α → NamedArgument} {view : α → β}
    {view' : NamedArgument → γ} {tokens : List Token} {seen : β} {seen' : γ} {word : String}
    (h : Gives p tokens view seen) (hview : ∀ a, view a = seen → view' (f a) = seen')
    (hrun : ∀ s, s.cursor.current.kind = .name word →
      namedArgument read s = (symbol .eq >>= fun _ => f <$> p) (s.skip 1)) :
    Gives (namedArgument read) (.ofName word :: .ofSymbol .eq :: tokens) view' seen' := by
  intro rest s hs hborder horder hne hfaces
  have hname : s.Faces (.ofName word :: .ofSymbol .eq :: (tokens.map Token.placeless ++ rest)) := hfaces
  obtain ⟨heq, hafter⟩ := symbol_of_faces (hname.skip rfl)
  rw [hrun s hname.current, bind_of_ok heq]
  have hplain : ((s.skip 1).skip 1).Plain := hs.leads ((s.leads_skip 1).trans ((s.skip 1).leads_skip 1))
  obtain ⟨a, t, hok, ha, ht⟩ | hlimit := h hplain hborder horder hne hafter
  · exact .inl ⟨f a, t, map_eq_ok_iff.2 ⟨a, hok, rfl⟩, hview a ha, ht⟩
  · exact .inr (hlimit.map f)

/-- A search text behind its word is a named argument. -/
theorem gives_queryArgument {tokens : List Token} {seen : SearchValue}
    (h : Gives (read .searchValue) tokens (SearchValue.view .placeless) seen) :
    Gives (namedArgument read) (.ofName "query" :: .ofSymbol .eq :: tokens)
      (Likeness.viewArgument .placeless) (.query seen) := by
  refine h.named (f := .query) (fun a ha => congrArg NamedArgument.query ha) fun s hs => ?_
  unfold namedArgument
  rw [current_bind_apply, hs]
  rfl

/-- So are fields behind theirs. -/
theorem gives_fieldsArgument {tokens : List Token} {seen : List WeightedField}
    (h : Gives namedFields tokens (List.map (WeightedField.view .placeless)) seen) :
    Gives (namedArgument read) (.ofName "fields" :: .ofSymbol .eq :: tokens)
      (Likeness.viewArgument .placeless) (.fields seen) := by
  refine h.named (f := .fields) (fun a ha => congrArg NamedArgument.fields ha) fun s hs => ?_
  unfold namedArgument
  rw [current_bind_apply, hs]
  show (symbol .eq >>= _) (s.skip 1) = _
  refine congrFun (congrArg (symbol .eq >>= ·) (funext fun _ => ?_)) (s.skip 1)
  unfold namedFields
  funext u
  rw [map_eq_pure_bind]
  show (atSymbol .leftBracket >>= _) u = ((atSymbol .leftBracket >>= _) >>= _) u
  rw [bind_assoc, atSymbol_bind_apply, atSymbol_bind_apply]
  cases u.cursor.current.kind == .symbol .leftBracket with
  | true => rfl
  | false =>
    show (weightedField >>= _) u = ((weightedField >>= _) >>= _) u
    rw [bind_assoc]
    rfl

/-- What two named arguments are together. -/
def bothArguments : NamedArgument → NamedArgument → Parser (SearchValue × List WeightedField)
  | .query query, .fields fields => return (query, fields)
  | .fields fields, .query query => return (query, fields)
  | .query _, .query _ => rejectCurrent "fields"
  | .fields _, .fields _ => rejectCurrent "query"

/-- Two named arguments stand with a comma between them, in either order. -/
theorem namedArgumentsRule_eq (call : Callee) :
    namedArgumentsRule call = namedArgument call >>= fun x => symbol .comma >>= fun _ =>
      namedArgument call >>= fun y => bothArguments x y := by
  unfold namedArgumentsRule bothArguments
  rfl

theorem steady_bothArguments (x y : NamedArgument) : Steady (bothArguments x y) := by
  cases x <;> cases y
  · exact steady_current_bind fun _ => steady_reject _
  · exact steady_pure _
  · exact steady_pure _
  · exact steady_current_bind fun _ => steady_reject _

/-- The arguments of a search of several fields, as seen. -/
def viewBoth : SearchValue × List WeightedField → SearchValue × List WeightedField :=
  Prod.map (SearchValue.view .placeless) (List.map (WeightedField.view .placeless))

/-- Both named arguments are read, each in its place. -/
theorem gives_namedArguments {first second : List Token} {a b : NamedArgument}
    {seen : SearchValue × List WeightedField}
    (hfirst : Gives (namedArgument read) first (Likeness.viewArgument .placeless) a)
    (hsecond : Gives (namedArgument read) second (Likeness.viewArgument .placeless) b)
    (hboth : ∀ x y s, Likeness.viewArgument .placeless x = a → Likeness.viewArgument .placeless y = b →
      ∃ both, bothArguments x y s = .ok both s ∧ viewBoth both = seen) :
    Gives (read .namedArguments) (first ++ .ofSymbol .comma :: second) viewBoth seen := by
  intro rest s hs hborder horder hne hfaces
  rw [List.map_append, List.append_assoc] at hfaces
  have hsteady : Steady (namedArgument read) :=
    (steady_congruence.namedArgument (b := 0) ⟨steady_read _, steady_read _⟩).1
  rw [read_eq_rule]
  show (∃ a t, namedArgumentsRule read s = .ok a t ∧ _ ∧ _) ∨ MetLimit (namedArgumentsRule read s)
  rw [namedArgumentsRule_eq]
  have hborders : Border ((.ofSymbol .comma :: second).map Token.placeless ++ rest) := rfl
  obtain ⟨x, t, hx, hviewx, ht⟩ | hlimit := hfirst hs hborders nofun nofun hfaces
  swap
  · rw [bind_apply_andThen]
    exact .inr (hlimit.andThen fun x => (steady_symbol _).bind fun _ => hsteady.bind fun y =>
      steady_bothArguments x y)
  obtain ⟨hcomma, hafter⟩ := symbol_of_faces ht
  rw [bind_of_ok hx, bind_of_ok hcomma]
  have hplain : (t.skip 1).Plain := hs.leads ((hsteady.leads hx).trans (t.leads_skip 1))
  obtain ⟨y, u, hy, hviewy, hu⟩ | hlimit := hsecond hplain hborder horder hne hafter
  swap
  · rw [bind_apply_andThen]
    exact .inr (hlimit.andThen fun y => steady_bothArguments x y)
  obtain ⟨both, hpair, hseen⟩ := hboth x y u hviewx hviewy
  rw [bind_of_ok hy]
  exact .inl ⟨both, u, hpair, hseen, hu⟩

/-! ## The spellings -/

/-- Two spellings of the beginning of the same full-text search, in front of `rest`, and what differs
between the forms that they are read as. -/
inductive Respelled [Time.Library] (rest : List Token) :
    (RelevanceForm → RelevanceForm) → List Token → List Token → Prop where
  | field {tokens : List Token} {m : String} : ReadsAlone field tokens →
      Text.upper m ∈ ["MATCH_QUERY", "MATCHQUERY", "MATCH_PHRASE", "MATCHPHRASE"] →
      Respelled rest .fieldInside (tokens ++ [.ofSymbol .eq, .ofName m, .ofSymbol .leftParen])
        ([.ofName m, .ofSymbol .leftParen] ++ tokens ++ [.ofSymbol .comma])
  | fieldList {tokens : List Token} {m : String} : ReadsAlone field tokens →
      Text.upper m ∈ ["MULTI_MATCH", "MULTIMATCH"] →
      Respelled rest .fieldInside (tokens ++ [.ofSymbol .eq, .ofName m, .ofSymbol .leftParen])
        ([.ofName m, .ofSymbol .leftParen, .ofSymbol .leftBracket] ++ tokens ++
          [.ofSymbol .rightBracket, .ofSymbol .comma])
  | named {query fields : List Token} {m : String} :
      RelevanceKind.ofUpper? (Text.upper m) = some .multiField →
      ReadsAlone (read .searchValue) query →
      ReadsAlone weightedField fields ∨ ReadsAlone Parser.fieldList fields →
      kindAt rest 0 = .symbol .comma ∨ kindAt rest 0 = .symbol .rightParen →
      Respelled rest id
        ([.ofName m, .ofSymbol .leftParen] ++ ([.ofName "query", .ofSymbol .eq] ++ query ++
          .ofSymbol .comma :: ([.ofName "fields", .ofSymbol .eq] ++ fields)))
        ([.ofName m, .ofSymbol .leftParen] ++ ([.ofName "fields", .ofSymbol .eq] ++ fields ++
          .ofSymbol .comma :: ([.ofName "query", .ofSymbol .eq] ++ query)))

/-- An operand may start as a field does. -/
theorem startsOperand_of_field {f : Field} (h : Parser.field s = .ok f t) :
    StartsOperand s.cursor.current.kind := by
  obtain ⟨value, hvalue⟩ | hname | hdot := field_starts h
  · rw [hvalue]
    exact ⟨nofun, nofun, nofun, nofun⟩
  · have hdiffers {kind : TokenKind} (hkind : kind.isNameLike = false) :
        s.cursor.current.kind ≠ kind := by
      rintro rfl
      exact absurd (hkind.symm.trans hname) nofun
    exact ⟨hdiffers rfl, hdiffers rfl, hdiffers rfl, hdiffers rfl⟩
  · rw [hdot]
    exact ⟨nofun, nofun, nofun, nofun⟩

/-- A level more in the second state is a level of difference. -/
theorem State.Abreast.deeper_right (h : s.Abreast 0 s') : s.Abreast 1 (s'.deeper 1) :=
  ⟨(h.deeper 1).frame, h.strict, h.settled⟩

/-- The field in front of a relevance function, and the field between its parentheses. -/
theorem ends_operand_of_field {f : Field} {u' : State} (hs : s.Abreast 0 s')
    (hbehind : fieldEqualsKind? (Text.upper m) = some kind) (hfield : field s = .ok f t)
    (ht : t.Faces (.ofSymbol .eq :: .ofName m :: .ofSymbol .leftParen :: rest))
    (hoperand : read .operand s' = (Atom.call <$> Parser.nest 1 (callBody read)) s')
    {start : Span} {form : RelevanceForm}
    (hbody : callBody read (s'.deeper 1) = searchTail m start form u')
    (hleads : (s'.deeper 1).Leads u') (hfaces : u'.Faces rest)
    (hform : form.view .placeless = (g (formBehind kind f)).view .placeless) :
    Ends rest 0 (AtomsMatch (Call.mapForm g)) (read .operand s) (read .operand s') := by
  obtain ⟨u, hu, hrest, hrun⟩ := operand_of_fieldEquals hbehind hfield ht
  rw [hrun, hoperand]
  have hbeside : u.Beside rest 1 u' :=
    ⟨hs.deeper_right.leads hu hleads, rest, List.suffix_refl rest, hrest, hfaces⟩
  have hends : Ends rest 0 (CallsMatch g) (searchTail m s.cursor.current.span (formBehind kind f) u)
      (Parser.nest 1 (callBody read) s') := by
    refine Ends.nest_right ?_
    rw [hbody]
    exact (sides_searchTail hform _ _).ends hbeside
  exact hends.map fun a b hab => congrArg Atom.call hab

/-- The tokens that are a field where they stand alone are a field in front of others. -/
theorem ReadsAlone.field {tokens : List Token} (h : ReadsAlone Parser.field tokens) :
    ∃ seen : Field, ∀ {rest : List Token} {s : State},
      s.Faces (tokens.map Token.placeless ++ rest) → kindAt rest 0 ≠ .symbol .dot →
        ∃ f t, Parser.field s = .ok f t ∧ f.view .placeless = seen ∧ t.Faces rest := by
  obtain ⟨input, hinput, f, t, hrun, hend⟩ := h
  have halone : (State.ofTokens input { Settings.deepest with recover := false }).Faces
      (tokens.map Token.placeless ++ []) := by
    rw [List.append_nil]
    exact hinput
  have ht : t.Faces [] := by
    unfold State.Faces
    rw [hend]
    rfl
  exact ⟨f.view .placeless, fun hs hdot => field_again hrun halone ht hs hdot⟩

/-- A field has at least one token. -/
theorem ReadsAlone.ne_nil {tokens : List Token} (h : ReadsAlone Parser.field tokens) :
    tokens ≠ [] := by
  rintro rfl
  obtain ⟨alone, halone, f, t, hrun⟩ := h.exists_run
  have hend : alone.cursor.current.kind = .endOfInput := halone.current
  obtain ⟨value, hvalue⟩ | hname | hdot := field_starts hrun
  · cases hend.symm.trans hvalue
  · rw [hend] at hname
    cases hname
  · cases hend.symm.trans hdot

theorem steady_callBody : Steady (callBody read) :=
  (steady_congruence.callBody (b := 0) ⟨steady_read _, steady_read _⟩ ⟨steady_read _, steady_read _⟩
    (fun _ => ⟨steady_read _, steady_read _⟩) fun _ => ⟨steady_read _, steady_read _⟩).1

/-- A plain state is plain one level deeper. -/
theorem State.Plain.deeper (h : s.Plain) : (s.deeper 1).Plain :=
  ⟨h.withLibrary, h.strict, h.settled.deeper 1, h.outside⟩

/-- A search of several fields by named arguments, up to its options. -/
theorem callBody_of_named {first : List Token} {seen : SearchValue × List WeightedField}
    (hkind : RelevanceKind.ofUpper? (Text.upper m) = some .multiField) (hplain : s.Plain)
    (hs : s.Faces (.ofName m :: .ofSymbol .leftParen :: (first.map Token.placeless ++ rest)))
    (hrest : kindAt rest 0 = .symbol .comma ∨ kindAt rest 0 = .symbol .rightParen)
    (hstarts : startsNamedArgument (kindAt (first.map Token.placeless ++ rest) 0)
      (kindAt (first.map Token.placeless ++ rest) 1) = true)
    (hgives : Gives (read .namedArguments) first viewBoth seen) :
    (∃ both t, viewBoth both = seen ∧ s.Leads t ∧ t.Faces rest ∧ callBody read s =
      searchEnd m s.cursor.current.span (.named both.2, both.1) t) ∨ MetLimit (callBody read s) := by
  obtain ⟨u, hu, hfaces, hbody⟩ := callBody_of_relevance hkind hs
  have htarget : searchTarget read .multiField u = ((fun both : SearchValue × List WeightedField =>
      (RelevanceForm.named both.2, both.1)) <$> read .namedArguments) u := by
    unfold searchTarget
    dsimp only
    rw [current_bind_apply, peek_bind_apply, hfaces.current, hfaces.peek, if_pos hstarts]
    rfl
  -- Behind the arguments stands a border that is no order, as what is read alone asks for.
  have hborder : Border rest := by
    unfold Border
    obtain h | h := hrest <;> rw [h] <;> rfl
  have hne : rest ≠ [] := by
    rintro rfl
    obtain h | h := hrest <;> cases h
  have horder : kindAt rest 0 ≠ .keyword .ORDER := by
    obtain h | h := hrest <;> rw [h] <;> nofun
  have hend (target : RelevanceForm × SearchValue) : Steady (searchEnd m s.cursor.current.span target) :=
    steady_searchEnd m _ target
  rw [hbody]
  refine (bind_of_eq htarget _).symm ▸ ?_
  obtain ⟨both, t, hrun, hview, ht⟩ | hlimit := hgives (hplain.leads hu) hborder horder hne hfaces
  · refine .inl ⟨both, t, hview, hu.trans ((steady_read _).leads hrun), ht, ?_⟩
    rw [bind_of_ok (map_eq_ok_iff.2 ⟨both, hrun, rfl⟩)]
  · refine .inr ?_
    rw [bind_apply_andThen]
    exact (hlimit.map _).andThen hend

/-- What is abreast of a plain state is plain. -/
theorem State.Plain.abreast (h : s.Plain) (hs : s.Abreast cost s') : s'.Plain := by
  have hsettled : s'.Settled := by
    have hsettled := h.settled.deeper cost
    unfold State.Settled at hsettled ⊢
    rwa [← hs.frame.separatorDepth, ← hs.frame.depth]
  exact ⟨hs.frame.library ▸ h.withLibrary, hs.frame.settings ▸ h.strict, hsettled,
    hs.frame.subqueries ▸ h.outside⟩

/-- Named arguments that are read alike, in one order and in the other. -/
theorem ends_operand_of_named {first second : List Token}
    {seen : SearchValue × List WeightedField}
    (hkind : RelevanceKind.ofUpper? (Text.upper m) = some .multiField) (hs : s.Abreast 0 s')
    (hplain : s.Plain) (hrest : kindAt rest 0 = .symbol .comma ∨ kindAt rest 0 = .symbol .rightParen)
    (hfirst : s.Faces (.ofName m :: .ofSymbol .leftParen :: (first.map Token.placeless ++ rest)))
    (hstarts : startsNamedArgument (kindAt (first.map Token.placeless ++ rest) 0)
      (kindAt (first.map Token.placeless ++ rest) 1) = true)
    (hgives : Gives (read .namedArguments) first viewBoth seen)
    (hsecond : s'.Faces (.ofName m :: .ofSymbol .leftParen :: (second.map Token.placeless ++ rest)))
    (hstarts' : startsNamedArgument (kindAt (second.map Token.placeless ++ rest) 0)
      (kindAt (second.map Token.placeless ++ rest) 1) = true)
    (hgives' : Gives (read .namedArguments) second viewBoth seen) :
    Ends rest 0 (AtomsMatch (Call.mapForm id)) (read .operand s) (read .operand s') := by
  have hends : Ends rest 0 (CallsMatch id) (callBody read (s.deeper 1))
      (callBody read (s'.deeper 1)) := by
    -- Either run may meet the limit first; otherwise both give the same arguments and go on alike.
    obtain ⟨both, t, hboth, ht, hfaces, hbody⟩ | hlimit :=
      callBody_of_named (s := s.deeper 1) hkind hplain.deeper hfirst hrest hstarts hgives
    swap
    · exact .limited (.inl hlimit)
    obtain ⟨both', t', hboth', ht', hfaces', hbody'⟩ | hlimit :=
      callBody_of_named (s := s'.deeper 1) hkind (hplain.abreast hs).deeper hsecond hrest hstarts'
        hgives'
    swap
    · exact .limited (.inr hlimit)
    rw [hbody, hbody']
    have hsame : viewBoth both' = viewBoth both := hboth'.trans hboth.symm
    have hbeside : t.Beside rest 0 t' :=
      ⟨(hs.deeper 1).leads ht ht', _, List.suffix_refl _, hfaces, hfaces'⟩
    have hform : (RelevanceForm.named both'.2).view .placeless =
        (id (RelevanceForm.named both.2)).view .placeless :=
      congrArg (fun b : SearchValue × List WeightedField => RelevanceForm.named b.2) hsame
    exact (sides_searchEnd hform (congrArg Prod.fst hsame) _ _).ends hbeside
  rw [operand_of_relevance hkind hfirst, operand_of_relevance hkind hsecond]
  exact (hends.nest steady_callBody steady_callBody hs).map fun a b hab => congrArg Atom.call hab

/-- Both spellings are read as operands that match. -/
theorem Respelled.ends_operand {first second : List Token} (h : Respelled rest g first second)
    (hs : s.Abreast 0 s') (hplain : s.Plain)
    (hfirst : s.Faces (first.map Token.placeless ++ rest.map Token.placeless))
    (hsecond : s'.Faces (second.map Token.placeless ++ rest.map Token.placeless)) :
    Ends (rest.map Token.placeless) 0 (AtomsMatch (Call.mapForm g)) (read .operand s)
      (read .operand s') := by
  cases h with
  -- `field = FUNCTION(…)` and `FUNCTION(field, …)`: both read the field, at different places.
  | @field tokens m hfield hm =>
    have hkinds : ∀ word ∈ ["MATCH_QUERY", "MATCHQUERY", "MATCH_PHRASE", "MATCHPHRASE"],
        fieldEqualsKind? word = some .singleField ∧
          RelevanceKind.ofUpper? word = some .singleField := by decide
    obtain ⟨hbehind, hkind⟩ := hkinds _ hm
    obtain ⟨seen, hseen⟩ := hfield.field
    rw [List.map_append, List.append_assoc] at hfirst
    rw [List.map_append, List.map_append, List.append_assoc, List.append_assoc] at hsecond
    obtain ⟨f, t, hf, hview, ht⟩ := hseen hfirst nofun
    obtain ⟨u, hu, hfaces, hbody⟩ := callBody_of_relevance (s := s'.deeper 1) hkind hsecond
    obtain ⟨f', t', hf', hview', ht'⟩ := hseen hfaces nofun
    refine ends_operand_of_field hs hbehind hf ht (operand_of_relevance hkind hsecond)
      (hbody.trans (searchTarget_of_field hf' ht' _))
      ((hu.trans (steady_field.leads hf')).trans (t'.leads_skip 1)) (ht'.skip rfl) ?_
    exact congrArg RelevanceForm.field (hview'.trans hview.symm)
  -- The same with brackets around the field, which the first spelling does not have.
  | @fieldList tokens m hfield hm =>
    have hkinds : ∀ word ∈ ["MULTI_MATCH", "MULTIMATCH"],
        fieldEqualsKind? word = some .multiField ∧
          RelevanceKind.ofUpper? word = some .multiField := by decide
    obtain ⟨hbehind, hkind⟩ := hkinds _ hm
    obtain ⟨seen, hseen⟩ := hfield.field
    rw [List.map_append, List.append_assoc] at hfirst
    rw [List.map_append, List.map_append, List.append_assoc, List.append_assoc] at hsecond
    obtain ⟨f, t, hf, hview, ht⟩ := hseen hfirst nofun
    obtain ⟨u, hu, hfaces, hbody⟩ := callBody_of_relevance (s := s'.deeper 1) hkind hsecond
    have hafter : (u.skip 1).Faces (tokens.map Token.placeless ++
        (.ofSymbol .rightBracket :: .ofSymbol .comma :: rest.map Token.placeless)) := hfaces.skip rfl
    obtain ⟨f', t', hf', hview', ht'⟩ := hseen hafter nofun
    have htaken : t'.cursor.ahead.length < (u.skip 1).cursor.ahead.length := by
      have hlength := List.length_pos_iff.2 hfield.ne_nil
      rw [ht'.length, hafter.length, List.length_append, List.length_map]
      omega
    refine ends_operand_of_field hs hbehind hf ht (operand_of_relevance hkind hsecond)
      (hbody.trans (searchTarget_of_fieldList hfaces hf' htaken ht' _))
      ((((hu.trans (u.leads_skip 1)).trans (steady_field.leads hf')).trans (t'.leads_skip 1)).trans
        ((t'.skip 1).leads_skip 1)) ((ht'.skip rfl).skip rfl) ?_
    exact congrArg (fun f => RelevanceForm.fields [⟨f, none⟩]) (hview'.trans hview.symm)
  -- Two named arguments in either order: what each of them gives does not depend on what is in
  -- front.
  | @named query fields m hkind hquery hfields hrest =>
    obtain ⟨q, hq⟩ := portable_searchValue.again hquery
    obtain ⟨fs, hfs⟩ := gives_namedFields hfields
    have hfront : Gives (read .namedArguments) _ viewBoth (q, fs) :=
      gives_namedArguments (gives_queryArgument hq) (gives_fieldsArgument hfs) fun x y s hx hy => by
        cases x <;> cases hx
        cases y <;> cases hy
        exact ⟨_, rfl, rfl⟩
    have hback : Gives (read .namedArguments) _ viewBoth (q, fs) :=
      gives_namedArguments (gives_fieldsArgument hfs) (gives_queryArgument hq) fun x y s hx hy => by
        cases x <;> cases hx
        cases y <;> cases hy
        exact ⟨_, rfl, rfl⟩
    have hrest' : kindAt (rest.map Token.placeless) 0 = .symbol .comma ∨
        kindAt (rest.map Token.placeless) 0 = .symbol .rightParen := by
      rwa [kindAt_placeless]
    exact ends_operand_of_named hkind hs hplain hrest' hfirst rfl hfront hsecond rfl hback

/-- An operand may start with a name. -/
theorem startsOperand_ofName {behind : List Token} (h : s.Faces (.ofName m :: behind)) :
    StartsOperand s.cursor.current.kind := by
  rw [h.current]
  exact ⟨nofun, nofun, nofun, nofun⟩

/-- Each spelling begins an operand. -/
theorem Respelled.startsOperand {first second : List Token} (h : Respelled rest g first second)
    (hfirst : s.Faces (first.map Token.placeless ++ rest.map Token.placeless))
    (hsecond : s'.Faces (second.map Token.placeless ++ rest.map Token.placeless)) :
    StartsOperand s.cursor.current.kind ∧ StartsOperand s'.cursor.current.kind := by
  have hstarts {tokens behind : List Token} (hfield : ReadsAlone Parser.field tokens)
      (hfaces : s.Faces ((tokens ++ .ofSymbol .eq :: behind).map Token.placeless ++
        rest.map Token.placeless)) : StartsOperand s.cursor.current.kind := by
    obtain ⟨seen, hseen⟩ := hfield.field
    rw [List.map_append, List.append_assoc] at hfaces
    obtain ⟨f, t, hf, -⟩ := hseen hfaces nofun
    exact startsOperand_of_field hf
  cases h with
  | field hfield _ => exact ⟨hstarts hfield hfirst, startsOperand_ofName hsecond⟩
  | fieldList hfield _ => exact ⟨hstarts hfield hfirst, startsOperand_ofName hsecond⟩
  | named _ _ _ _ => exact ⟨startsOperand_ofName hfirst, startsOperand_ofName hsecond⟩

/-- Neither spelling is empty. -/
theorem Respelled.length_pos {first second : List Token} (h : Respelled rest g first second) :
    0 < first.length ∧ 0 < second.length := by
  cases h <;> simp

/-- What has met the limit in its run has met it in its outcome. -/
theorem meetsLimit_of_metLimit {r : Run (Option Statement)} (h : MetLimit r) :
    (outcome r).meetsLimit = true := by
  unfold Outcome.meetsLimit
  rw [List.any_eq_true]
  obtain ⟨d, t, rfl, hkind⟩ | ⟨rule, d, hkind, hmem⟩ := h
  · exact ⟨.aborted d, List.mem_reverse.2 (List.mem_cons_self ..), beq_iff_eq.2 hkind⟩
  · exact ⟨.attemptUndone rule d, mem_events_outcome hmem, beq_iff_eq.2 hkind⟩

end Grammar

open Grammar in
/-- Two spellings of a full-text search are both refused, whatever stands behind them, or both are the
same call, the one written with the form that `g` makes of the other's. -/
theorem parseTokensStrict_respelled [Time.Library] {input input' first second rest : List Token}
    {select : Token}
    {g : RelevanceForm → RelevanceForm} {settings : Settings} (h : Respelled rest g first second)
    (hselect : select.kind = .keyword .SELECT)
    (hinput : ConsistsOf input (select :: (first ++ rest)))
    (hinput' : ConsistsOf input' (select :: (second ++ rest)))
    (hlimit : (parseTokens input { settings with recover := false }).meetsLimit = false)
    (hlimit' : (parseTokens input' { settings with recover := false }).meetsLimit = false) :
    (∃ s s', parseTokensStrict input settings = .ok s ∧ parseTokensStrict input' settings = .ok s' ∧
        s'.view .placeless = (s.mapLeadingCall (Call.mapForm g)).view .placeless) ∨
      ∃ e e', parseTokensStrict input settings = .error e ∧
        parseTokensStrict input' settings = .error e' := by
  let s := State.ofTokens input { settings with recover := false }
  let s' := State.ofTokens input' { settings with recover := false }
  have hs : s.Faces (select.placeless :: (first.map Token.placeless ++ rest.map Token.placeless)) := by
    rw [← List.map_append]
    exact hinput
  have hs' : s'.Faces (select.placeless :: (second.map Token.placeless ++ rest.map Token.placeless)) := by
    rw [← List.map_append]
    exact hinput'
  have hend : select.placeless.isEnd = false := isEnd_of_keyword hselect
  have habreast : s.Abreast 0 s' := ⟨⟨rfl, rfl, rfl, rfl, rfl, rfl⟩, rfl, nofun⟩
  have hplain : s.Plain := ⟨rfl, rfl, nofun, rfl⟩
  have hskip := hs.skip hend
  have hskip' := hs'.skip hend
  have hdeeper : ((s.skip 1).deeper 1).Abreast 0 ((s'.skip 1).deeper 1) :=
    (habreast.leads (s.leads_skip 1) (s'.leads_skip 1)).deeper 1
  -- The two operands match, and so do expression, select list and statement around them.
  have hoperand := h.ends_operand hdeeper (hplain.leads (s.leads_skip 1)).deeper hskip hskip'
  obtain ⟨hstarts, hstarts'⟩ := h.startsOperand hskip hskip'
  obtain ⟨hpos, hpos'⟩ := h.length_pos
  have hlt : (rest.map Token.placeless).length < (s.skip 1).cursor.ahead.length := by
    rw [hskip.length, List.length_append, List.length_map, List.length_map]
    omega
  have hlt' : (rest.map Token.placeless).length < (s'.skip 1).cursor.ahead.length := by
    rw [hskip'.length, List.length_append, List.length_map, List.length_map]
    omega
  have hkind : s.cursor.current.kind = .keyword .SELECT := hs.current.trans hselect
  have hkind' : s'.cursor.current.kind = .keyword .SELECT := hs'.current.trans hselect
  have hends := ends_root habreast hkind hkind' <|
    ends_query habreast hkind hkind' hstarts hstarts' hlt hlt' hoperand
  rw [← runRoot_eq, ← runRoot_eq] at hends
  unfold parseTokensStrict
  generalize hr : runRoot input { settings with recover := false } = r at hends
  generalize hr' : runRoot input' { settings with recover := false } = r' at hends
  cases hends with
  | @ok a b t t' hmatch ht =>
    cases a with
    | none =>
      cases b with
      | none => exact .inr ⟨_, _, rfl, rfl⟩
      | some b => cases hmatch
    | some a =>
      cases b with
      | none => cases hmatch
      | some b => exact .inl ⟨a, b, rfl, rfl, Option.some.inj hmatch⟩
  | failed => exact .inr ⟨_, _, rfl, rfl⟩
  -- A run that differs has met the limit of nesting, which neither parse does.
  | limited hmet =>
    obtain hmet | hmet := hmet
    · cases hlimit.symm.trans (meetsLimit_of_metLimit (hr ▸ hmet))
    · cases hlimit'.symm.trans (meetsLimit_of_metLimit (hr' ▸ hmet))

/-- The field of a search may stand in front of the function, and named arguments in either order. -/
theorem parseTokensStrict_respelled_title :
    (∃ s s',
      parseTokensStrict (Token.tokenize "SELECT title = MATCH_QUERY('x')") Settings.standard = .ok s ∧
        parseTokensStrict (Token.tokenize "SELECT MATCH_QUERY(title, 'x')") Settings.standard = .ok s' ∧
          s'.view .placeless =
            (s.mapLeadingCall (Call.mapForm .fieldInside)).view .placeless) ∧
      ∃ s s',
        parseTokensStrict (Token.tokenize "SELECT MULTI_MATCH(query = q, fields = title)")
            Settings.standard = .ok s ∧
          parseTokensStrict (Token.tokenize "SELECT MULTI_MATCH(fields = title, query = q)")
            Settings.standard = .ok s' ∧ s'.view .placeless = s.view .placeless := by
  have htitle : Grammar.ReadsAlone Grammar.Parser.field [.ofName "title"] := by
    refine ⟨[.ofName "title"], rfl, .name ⟨[⟨"title", false, default⟩], default⟩, _, rfl, ?_⟩
    rfl
  have hfields : Grammar.ReadsAlone Grammar.Parser.weightedField [.ofName "title"] := by
    refine ⟨[.ofName "title"], rfl, ⟨.name ⟨[⟨"title", false, default⟩], default⟩, none⟩, _, rfl, ?_⟩
    rfl
  have hquery : Grammar.ReadsAlone (Grammar.read .searchValue) [.ofName "q"] := by
    have hrun : ∃ t : Grammar.State, Grammar.read .searchValue (Grammar.State.ofTokens [.ofName "q"]
        { Settings.deepest with recover := false }) =
          .ok (.name ⟨[⟨"q", false, default⟩], default⟩) t ∧ t.cursor.ahead = [] := by
      rw [Grammar.read_eq_rule]
      exact ⟨_, rfl, rfl⟩
    exact ⟨[.ofName "q"], rfl, _, hrun⟩
  have hselect : (Token.ofKeyword .SELECT).kind = .keyword .SELECT := rfl
  constructor
  · have hspellings : Grammar.Respelled [.ofString "x", .ofSymbol .rightParen] .fieldInside _ _ :=
      .field (m := "MATCH_QUERY") htitle (by decide)
    have hlimit : (parseTokens (Token.tokenize "SELECT title = MATCH_QUERY('x')")
        { Settings.standard with recover := false }).meetsLimit = false := by decide +kernel
    have hlimit' : (parseTokens (Token.tokenize "SELECT MATCH_QUERY(title, 'x')")
        { Settings.standard with recover := false }).meetsLimit = false := by decide +kernel
    obtain h | ⟨e, e', h, -⟩ := parseTokensStrict_respelled hspellings hselect (by decide +kernel)
      (by decide +kernel) hlimit hlimit'
    · exact h
    · have hok : (parseTokensStrict (Token.tokenize "SELECT title = MATCH_QUERY('x')")
          Settings.standard).toBool = true := by decide +kernel
      rw [h] at hok
      cases hok
  · have hspellings : Grammar.Respelled [.ofSymbol .rightParen] id _ _ :=
      .named (m := "MULTI_MATCH") rfl hquery (.inl hfields) (.inr rfl)
    have hlimit : (parseTokens (Token.tokenize "SELECT MULTI_MATCH(query = q, fields = title)")
        { Settings.standard with recover := false }).meetsLimit = false := by decide +kernel
    have hlimit' : (parseTokens (Token.tokenize "SELECT MULTI_MATCH(fields = title, query = q)")
        { Settings.standard with recover := false }).meetsLimit = false := by decide +kernel
    obtain ⟨s, s', h, h', heq⟩ | ⟨e, e', h, -⟩ := parseTokensStrict_respelled hspellings hselect
      (by decide +kernel) (by decide +kernel) hlimit hlimit'
    · rw [Call.mapForm_id, Statement.mapLeadingCall_id] at heq
      exact ⟨s, s', h, h', heq⟩
    · have hok : (parseTokensStrict (Token.tokenize "SELECT MULTI_MATCH(query = q, fields = title)")
          Settings.standard).toBool = true := by decide +kernel
      rw [h] at hok
      cases hok

end SearchSql
