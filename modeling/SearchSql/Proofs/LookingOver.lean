import SearchSql.Proofs.Expecting
import SearchSql.Proofs.RelevanceSpellings
import SearchSql.Time.Reading

/-!
# What is looked over is read

Looking over a name or a field takes no token. It finds an end exactly where reading succeeds, and
passes over as many tokens as reading takes (`passedOver_afterName?_iff`, `passedOver_afterField?_iff`).
So the rules that are chosen by what stands behind a name go past that name without an error: a path with
all of its fields (`nestedAll_of_startsNestedAll`), and a relevance function behind its field
(`fieldEqualsRule_of_startsFieldEquals`). `lookahead_agrees` puts together what holds of every decision
that the tokens ahead make, those for columns and constants among them.
-/

set_option autoImplicit false

namespace SearchSql.Grammar

open SearchSql.Grammar.Parser

variable {α : Type} {s t : State} {first : Token} {rest : List Token}

/-! ## Tokens taken -/

/-- The run gives a result and takes `k` tokens. -/
def Takes (k : Nat) (p : Parser α) (s : State) : Prop :=
  ∃ a t, p s = .ok a t ∧ t.cursor.position = s.cursor.position + k

/-- How many tokens `look` passes over, if it finds an end. -/
def passedOver (look : List Token → Option (List Token)) (tokens : List Token) : Option Nat :=
  (look tokens).map fun rest => tokens.length - rest.length

/-- The tokens taken are those that are no longer ahead. -/
theorem State.Leads.position_add (h : s.Leads t) :
    t.cursor.position + t.cursor.ahead.length = s.cursor.position + s.cursor.ahead.length := by
  have hlength := congrArg List.length h.allTokens
  simp only [Cursor.allTokens, List.length_append, List.length_reverse, List.length_singleton] at hlength
  unfold Cursor.position
  omega

/-- Looking over what a parser reads finds the number of the tokens it takes, if it finds an end where
the parser stops and the parser succeeds wherever an end is found. -/
theorem passedOver_eq_some_iff {look : List Token → Option (List Token)} {p : Parser α}
    (hsteady : Steady p)
    (hlook : ∀ {a t}, p s = .ok a t → look s.cursor.ahead = some t.cursor.ahead)
    (hread : (look s.cursor.ahead).isSome = true → ∃ a t, p s = .ok a t) {k : Nat} :
    passedOver look s.cursor.ahead = some k ↔ Takes k p s := by
  unfold passedOver
  rw [Option.map_eq_some_iff]
  constructor
  · rintro ⟨rest, hrest, rfl⟩
    obtain ⟨a, t, ha⟩ := hread (hrest ▸ rfl)
    obtain rfl : t.cursor.ahead = rest := Option.some.inj ((hlook ha).symm.trans hrest)
    have hsum := (hsteady.leads ha).position_add
    have hle := (hsteady.leads ha).ahead.length_le
    exact ⟨a, t, ha, by omega⟩
  · rintro ⟨a, t, ha, hposition⟩
    have hsum := (hsteady.leads ha).position_add
    exact ⟨_, hlook ha, by omega⟩

/-! ## Names -/

/-- An identifier is a token that may stand for a name, or a dot and a bare name. -/
theorem isSome_afterIdent?_iff {tokens : List Token} :
    (afterIdent? tokens).isSome = true ↔
      (kindAt tokens 0).isNameLike = true ∨
        kindAt tokens 0 = .symbol .dot ∧ (kindAt tokens 1).isBareName = true := by
  match tokens with
  | [] => simp [afterIdent?, TokenKind.isNameLike]
  | [first] =>
    cases hlike : first.kind.isNameLike <;> simp [afterIdent?, hlike, kindAt, TokenKind.isBareName]
  | first :: second :: rest =>
    cases hlike : first.kind.isNameLike with
    | true => simp [afterIdent?, hlike]
    | false => simp [afterIdent?, hlike, kindAt]

/-- A token that may stand for a name is read as an identifier. -/
theorem ident_of_isNameLike (h : s.cursor.current.kind.isNameLike = true) :
    ∃ name, ident s = .ok name (s.skip 1) := by
  cases hkind : s.cursor.current.kind with
  | name value => exact ⟨_, ident_of_name hkind⟩
  | quotedName value => exact ⟨_, ident_of_quotedName hkind⟩
  | keyword word =>
    rw [hkind] at h
    exact ⟨_, ident_of_keyword hkind h⟩
  | _ =>
    rw [hkind] at h
    cases h

/-- Where looking over an identifier finds an end, one is read. -/
theorem ident_of_afterIdent? (h : (afterIdent? s.cursor.ahead).isSome = true) :
    ∃ name t, ident s = .ok name t := by
  obtain hlike | ⟨hdot, hbare⟩ := isSome_afterIdent?_iff.1 h
  · rw [kindAt_zero] at hlike
    obtain ⟨name, hname⟩ := ident_of_isNameLike hlike
    exact ⟨name, _, hname⟩
  · rw [kindAt_zero] at hdot
    rw [kindAt_ahead] at hbare
    cases hkind : (s.cursor.peek 1).kind with
    | name value => exact ⟨_, _, ident_of_dot hdot hkind⟩
    | _ =>
      rw [hkind] at hbare
      cases hbare

/-- The segments behind the first can be read from everywhere, since a dot is taken only in front of a
segment. -/
theorem exists_rounds_namePart (names : List Ident × Span) (s : State) :
    ∃ found t, Rounds namePart names s found t := by
  induction hn : s.cursor.ahead.length using Nat.strong_induction_on generalizing names s with
  | _ n ih =>
    by_cases hpart : s.cursor.current.kind = .symbol .dot ∧ (s.cursor.peek 1).kind.isNameLike = true
    · obtain ⟨hdot, hnext⟩ := hpart
      have hend : s.cursor.current.isEnd = false := isEnd_of_symbol hdot
      have hsecond : (s.skip 1).cursor.current.kind.isNameLike = true := by
        rw [State.skip_cursor, Cursor.current_skip_one hend]
        exact hnext
      obtain ⟨part, hident⟩ := ident_of_isNameLike hsecond
      have hshorter : (s.cursor.skip (1 + 1)).ahead.length < n := hn ▸ ahead_skip_lt hend 1
      obtain ⟨found, t, hrounds⟩ := ih _ hshorter
        (part :: names.1, names.2.merge part.span) ((s.skip 1).skip 1) rfl
      exact ⟨found, t, .more (namePart_of_ident names hdot hnext hident) hrounds⟩
    · refine ⟨names, s, .last ?_⟩
      unfold namePart
      rw [atSymbol_bind_apply, peek_bind_apply, if_neg]
      · rfl
      · rw [Bool.and_eq_true_iff, beq_iff_eq]
        exact hpart

/-- Where looking over a name finds an end, a name is read. -/
theorem qualifiedName_of_afterName? (h : afterName? s.cursor.ahead = some rest) :
    ∃ name t, qualifiedName s = .ok name t := by
  obtain ⟨middle, hmiddle, -⟩ := Option.map_eq_some_iff.1 h
  obtain ⟨first, u, hfirst⟩ := ident_of_afterIdent? (Option.isSome_iff_exists.2 ⟨_, hmiddle⟩)
  obtain ⟨found, t, hrounds⟩ := exists_rounds_namePart ([first], first.span) u
  rw [qualifiedName_eq]
  refine ⟨⟨found.1.reverse, found.2⟩, t, ?_⟩
  rw [bind_of_ok hfirst, bind_of_ok ((loop_eq_ok_iff Congruence.advances_namePart).2 hrounds)]
  rfl

/-- Looking over a name passes over `k` tokens exactly where a name is read from `k` tokens. -/
theorem passedOver_afterName?_iff {k : Nat} :
    passedOver afterName? s.cursor.ahead = some k ↔ Takes k qualifiedName s := by
  refine passedOver_eq_some_iff steady_qualifiedName afterName?_of_qualifiedName fun h => ?_
  obtain ⟨rest, hrest⟩ := Option.isSome_iff_exists.1 h
  exact qualifiedName_of_afterName? hrest

/-! ## Fields -/

/-- A field that is no string is a name. -/
theorem afterField?_of_isString_eq_false {tokens : List Token}
    (h : (kindAt tokens 0).isString = false) : afterField? tokens = afterName? tokens := by
  cases tokens with
  | nil => rfl
  | cons first rest => exact if_neg (Bool.eq_false_iff.1 h)

/-- Where looking over a field finds an end, a field is read. -/
theorem field_of_afterField? (h : afterField? s.cursor.ahead = some rest) :
    ∃ f t, field s = .ok f t := by
  cases hstring : s.cursor.current.kind.isString with
  | true =>
    cases hkind : s.cursor.current.kind with
    | string value => exact ⟨_, _, field_of_string hkind⟩
    | _ =>
      rw [hkind] at hstring
      cases hstring
  | false =>
    have hname : afterName? s.cursor.ahead = some rest := by
      rw [← afterField?_of_isString_eq_false (by rwa [kindAt_zero]), h]
    obtain ⟨name, t, hread⟩ := qualifiedName_of_afterName? hname
    have hne (value : String) : s.cursor.current.kind ≠ .string value := by
      intro hvalue
      rw [hvalue] at hstring
      cases hstring
    rw [field_of_ne hne]
    exact ⟨.name name, t, map_eq_ok_iff.2 ⟨name, hread, rfl⟩⟩

/-- Looking over a field passes over `k` tokens exactly where a field is read from `k` tokens. -/
theorem passedOver_afterField?_iff {k : Nat} :
    passedOver afterField? s.cursor.ahead = some k ↔ Takes k field s := by
  refine passedOver_eq_some_iff steady_field afterField?_of_field fun h => ?_
  obtain ⟨rest, hrest⟩ := Option.isSome_iff_exists.1 h
  exact field_of_afterField? hrest

/-! ## Paths and functions behind fields -/

/-- Behind a token that ends nothing, what is ahead is what was ahead behind it. -/
theorem kindAt_skip_one (h : s.cursor.current.isEnd = false) (k : Nat) :
    kindAt (s.skip 1).cursor.ahead k = kindAt s.cursor.ahead (k + 1) := by
  rw [ahead_eq_cons h]
  rfl

/-- A sign that is ahead is taken. -/
theorem symbol_of_kindAt {sign : Symbol} (h : kindAt s.cursor.ahead 0 = .symbol sign) :
    symbol sign s = .ok s.cursor.current.span (s.skip 1) ∧
      ∀ k, kindAt (s.skip 1).cursor.ahead k = kindAt s.cursor.ahead (k + 1) := by
  rw [kindAt_zero] at h
  exact ⟨symbol_eq_ok_iff.2 ⟨h, rfl, rfl⟩, kindAt_skip_one (isEnd_of_symbol h)⟩

/-- Behind any token, a parenthesis that is ahead is taken with it. -/
theorem callName_of_kindAt (hend : s.cursor.current.isEnd = false)
    (h : kindAt s.cursor.ahead 1 = .symbol .leftParen) :
    callName s = .ok s.cursor.current.text ((s.skip 1).skip 1) ∧
      ((s.skip 1).skip 1).cursor.ahead = s.cursor.ahead.drop 2 := by
  rw [← kindAt_skip_one hend] at h
  obtain ⟨hparen, -⟩ := symbol_of_kindAt h
  rw [kindAt_zero] at h
  constructor
  · unfold callName
    rw [current_bind_apply, skip_bind_apply, bind_of_ok hparen]
    rfl
  · rw [ahead_eq_cons hend, ahead_eq_cons (c := s.cursor.skip 1) (isEnd_of_symbol h)]
    rfl

/-- A path with all of its fields is a name in parentheses, with a dot and a star behind it. -/
theorem startsNestedAll_iff {tokens : List Token} :
    startsNestedAll tokens = true ↔
      kindAt tokens 1 = .symbol .leftParen ∧
        ∃ rest, afterName? (tokens.drop 2) = some rest ∧ kindAt rest 0 = .symbol .dot ∧
          kindAt rest 1 = .symbol .star ∧ kindAt rest 2 = .symbol .rightParen := by
  rcases tokens with _ | ⟨name, _ | ⟨second, behind⟩⟩
  · simp [startsNestedAll, kindAt]
  · simp [startsNestedAll, kindAt]
  · unfold startsNestedAll
    cases hname : afterName? behind with
    | none => simp [hname]
    | some rest =>
      rcases rest with _ | ⟨a, _ | ⟨b, _ | ⟨c, rest⟩⟩⟩
      · simp [hname, kindAt]
      · simp [hname, kindAt]
      · simp [hname, kindAt]
      · simp [hname, kindAt, and_assoc]

/-- A path with all of its fields is read where one is found to start, whatever the function name
is. -/
theorem nestedAll_of_startsNestedAll (h : startsNestedAll s.cursor.ahead = true)
    (hend : s.cursor.current.isEnd = false) : ∃ shape t, nestedAll s = .ok shape t := by
  obtain ⟨hopen, rest, hafter, hdot, hstar, hclose⟩ := startsNestedAll_iff.1 h
  obtain ⟨hcall, hahead⟩ := callName_of_kindAt hend hopen
  rw [← hahead] at hafter
  obtain ⟨path, t, hpath⟩ := qualifiedName_of_afterName? hafter
  -- Reading the path ends where looking over it did.
  obtain rfl : t.cursor.ahead = rest :=
    Option.some.inj ((afterName?_of_qualifiedName hpath).symm.trans hafter)
  obtain ⟨hdot, hnext⟩ := symbol_of_kindAt hdot
  rw [← hnext] at hstar hclose
  obtain ⟨hstar, hnext⟩ := symbol_of_kindAt hstar
  rw [← hnext] at hclose
  obtain ⟨hclose, -⟩ := symbol_of_kindAt hclose
  refine ⟨.nestedAll s.cursor.current.text path, ((t.skip 1).skip 1).skip 1, ?_⟩
  unfold nestedAll
  rw [bind_of_ok hcall, bind_of_ok hpath, bind_of_ok hdot, bind_of_ok hstar, bind_of_ok hclose]
  rfl

/-- What stands behind the name of a relevance function that is written behind its field. -/
def fieldEqualsRest (call : Callee) (name : String) (form : RelevanceForm) : Parser Relevance := do
  let query ← call .searchValue
  let options ← call .relevanceOptions
  let _ ← symbol .rightParen
  return ⟨name, form, query, options⟩

/-- Between the field of a relevance function and its arguments stand an equals sign, a name of the kind
`kind` and a parenthesis. -/
structure NamesFunction (kind : RelevanceKind) (s : State) : Prop where
  sign : s.cursor.current.kind = .symbol .eq
  function : (s.skip 1).cursor.current.kind.bareWord?.bind fieldEqualsKind? = some kind
  paren : ((s.skip 1).skip 1).cursor.current.kind = .symbol .leftParen

/-- Behind its field, a relevance function is read up to its first argument. -/
theorem fieldEqualsRule_of_field {f : Field} {kind : RelevanceKind} (hfield : field s = .ok f t)
    (h : NamesFunction kind t) (call : Callee) :
    fieldEqualsRule call s = fieldEqualsRest call (t.skip 1).cursor.current.text (formBehind kind f)
      (((t.skip 1).skip 1).skip 1) := by
  have hsign : symbol .eq t = .ok t.cursor.current.span (t.skip 1) :=
    symbol_eq_ok_iff.2 ⟨h.sign, rfl, rfl⟩
  have hparen : symbol .leftParen ((t.skip 1).skip 1) = .ok _ (((t.skip 1).skip 1).skip 1) :=
    symbol_eq_ok_iff.2 ⟨h.paren, rfl, rfl⟩
  have hname : callName (t.skip 1) =
      .ok (t.skip 1).cursor.current.text (((t.skip 1).skip 1).skip 1) := by
    unfold callName
    rw [current_bind_apply, skip_bind_apply, bind_of_ok hparen]
    rfl
  unfold fieldEqualsRule
  rw [bind_of_ok hfield, bind_of_ok hsign, current_bind_apply]
  simp only [h.function]
  rw [bind_of_ok hname]
  rfl

/-- Where a relevance function behind its field is found to start, it is read up to its first
argument. -/
theorem fieldEqualsRule_of_startsFieldEquals (h : startsFieldEquals s.cursor.ahead = true) :
    ∃ f kind t, field s = .ok f t ∧ NamesFunction kind t ∧
      ∀ call : Callee, fieldEqualsRule call s =
        fieldEqualsRest call (t.skip 1).cursor.current.text (formBehind kind f)
          (((t.skip 1).skip 1).skip 1) := by
  obtain ⟨rest, hafter, hsign, hfunction, hparen⟩ := startsFieldEquals_iff.1 h
  obtain ⟨f, t, hfield⟩ := field_of_afterField? hafter
  obtain rfl : t.cursor.ahead = rest :=
    Option.some.inj ((afterField?_of_field hfield).symm.trans hafter)
  obtain ⟨kind, hkind⟩ := Option.isSome_iff_exists.1 hfunction
  -- The three tokens behind the field stand at the cursor one after another.
  have hcurrent : t.cursor.current.kind = .symbol .eq := (kindAt_zero _).symm.trans hsign
  have hnext := kindAt_skip_one (isEnd_of_symbol hcurrent)
  rw [← hnext, kindAt_zero] at hkind
  have hend : (t.skip 1).cursor.current.isEnd = false := by
    refine isEnd_eq_false fun heq => ?_
    rw [heq] at hkind
    cases hkind
  rw [← hnext, ← kindAt_skip_one hend, kindAt_zero] at hparen
  have hnames : NamesFunction kind t := ⟨hcurrent, hkind, hparen⟩
  exact ⟨f, kind, t, hfield, hnames, fieldEqualsRule_of_field hfield hnames⟩

/-! ## Columns -/

/-- A column starts with an identifier. -/
theorem identifier_of_column {first second third : TokenKind}
    (h : operandForm? first second third = some .column) :
    first.isNameLike = true ∨ first = .symbol .dot ∧ second.isBareName = true := by
  unfold operandForm? at h
  cases hconstant : startsConstant first second third with
  | true =>
    rw [hconstant] at h
    cases h
  | false =>
    rw [hconstant, if_neg Bool.false_ne_true] at h
    cases first with
    | name value => exact .inl rfl
    | quotedName value => exact .inl rfl
    | keyword word =>
      refine .inl ?_
      cases word <;> first | rfl | simp [isTemporalWord, Keyword.isNameLike] at h
    | symbol sign =>
      cases sign with
      | dot =>
        cases hbare : second.isBareName with
        | true => exact .inr ⟨rfl, rfl⟩
        | false => simp [hbare] at h
      | _ => cases h
    | _ => cases h

/-- Where an operand is found to be a column, a name is read. -/
theorem qualifiedName_of_operandForm? (h : s.cursor.operandForm? = some .column) :
    ∃ name t, qualifiedName s = .ok name t := by
  have hidentifier := identifier_of_column h
  rw [← kindAt_ahead, ← kindAt_ahead] at hidentifier
  obtain ⟨rest, hrest⟩ := Option.isSome_iff_exists.1 (isSome_afterIdent?_iff.2 hidentifier)
  exact qualifiedName_of_afterName? (Option.map_eq_some_iff.2 ⟨rest, hrest, rfl⟩)

/-! ## Decisions -/

/-- From every state, the decisions by the tokens ahead agree with the rules they stand for. Looking over
a name or a field passes over `k` tokens exactly where one is read from `k` tokens. Where a path with all
of its fields is found, it is read, and where a relevance function behind its field is found, it is read
up to its first argument. Where a column is found, a name is read; where a constant is found, the rule of
a constant does not fail because one is expected, whatever fuel is left. -/
theorem lookahead_agrees (s : State) :
    (∀ k, passedOver afterName? s.cursor.ahead = some k ↔ Takes k qualifiedName s) ∧
    (∀ k, passedOver afterField? s.cursor.ahead = some k ↔ Takes k field s) ∧
    (startsNestedAll s.cursor.ahead = true → s.cursor.current.isEnd = false →
      ∃ shape t, nestedAll s = .ok shape t) ∧
    (startsFieldEquals s.cursor.ahead = true →
      ∃ f kind t, field s = .ok f t ∧ NamesFunction kind t ∧
        ∀ call : Callee, fieldEqualsRule call s =
          fieldEqualsRest call (t.skip 1).cursor.current.text (formBehind kind f)
            (((t.skip 1).skip 1).skip 1)) ∧
    (s.cursor.operandForm? = some .column → ∃ name t, qualifiedName s = .ok name t) ∧
    (s.cursor.startsConstant = true → ∀ fuel d t,
      derive fuel .constant s = .error (.rejected d) t → ¬AsksForConstant d) := by
  refine ⟨fun _ => passedOver_afterName?_iff, fun _ => passedOver_afterField?_iff,
    nestedAll_of_startsNestedAll, fieldEqualsRule_of_startsFieldEquals,
    qualifiedName_of_operandForm?, fun hstarts fuel d t herror => ?_⟩
  have hends : withoutAsking.Ends (derive fuel .constant s) :=
    (calleesSpare_derive fuel).constant s hstarts
  rw [herror] at hends
  exact hends

/-- What the decisions find in front of a path with all of its fields, a relevance function behind its
field, a column that starts with a dot, and a constant. -/
theorem lookahead_agrees_everywhere :
    (∃ s : State, s = .ofTokens (Token.tokenize "NESTED(.a.`b`.*)") Settings.standard ∧
      startsNestedAll s.cursor.ahead = true ∧ s.cursor.current.isEnd = false ∧
      ∃ shape t, nestedAll s = .ok shape t) ∧
    (∃ s : State, s = .ofTokens (Token.tokenize "a.b = MATCH_QUERY('c')") Settings.standard ∧
      startsFieldEquals s.cursor.ahead = true ∧ passedOver afterField? s.cursor.ahead = some 3 ∧
      Takes 3 field s ∧ ∃ f kind t, field s = .ok f t ∧ NamesFunction kind t) ∧
    (∃ s : State, s = .ofTokens (Token.tokenize ".a.b + 1") Settings.standard ∧
      s.cursor.operandForm? = some .column ∧ passedOver afterName? s.cursor.ahead = some 4 ∧
      Takes 4 qualifiedName s ∧ ∃ name t, qualifiedName s = .ok name t) ∧
    ∃ s : State, s = .ofTokens (Token.tokenize "INTERVAL ) DAY") Settings.standard ∧
      s.cursor.startsConstant = true ∧
      ∀ fuel d t, derive fuel .constant s = .error (.rejected d) t → ¬AsksForConstant d := by
  refine ⟨⟨_, rfl, ?_⟩, ⟨_, rfl, ?_⟩, ⟨_, rfl, ?_⟩, ⟨_, rfl, ?_⟩⟩
  · obtain ⟨-, -, hnested, -⟩ :=
      lookahead_agrees (.ofTokens (Token.tokenize "NESTED(.a.`b`.*)") Settings.standard)
    exact ⟨by decide +kernel, by decide +kernel,
      hnested (by decide +kernel) (by decide +kernel)⟩
  · obtain ⟨-, hfields, -, hfunction, -⟩ :=
      lookahead_agrees (.ofTokens (Token.tokenize "a.b = MATCH_QUERY('c')") Settings.standard)
    obtain ⟨f, kind, t, hfield, hnames, -⟩ := hfunction (by decide +kernel)
    exact ⟨by decide +kernel, by decide +kernel, (hfields 3).1 (by decide +kernel),
      f, kind, t, hfield, hnames⟩
  · obtain ⟨hnames, -, -, -, hcolumn, -⟩ :=
      lookahead_agrees (.ofTokens (Token.tokenize ".a.b + 1") Settings.standard)
    exact ⟨by decide +kernel, by decide +kernel, (hnames 4).1 (by decide +kernel),
      hcolumn (by decide +kernel)⟩
  · obtain ⟨-, -, -, -, -, hconstant⟩ :=
      lookahead_agrees (.ofTokens (Token.tokenize "INTERVAL ) DAY") Settings.standard)
    exact ⟨by decide +kernel, hconstant (by decide +kernel)⟩

end SearchSql.Grammar
