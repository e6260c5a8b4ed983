import SearchSql.Proofs.ExprRetracing
import SearchSql.Proofs.QueryReading

/-!
# Retracing full-text search

What a relevance function searches for, its fields and its options are retraced. Named arguments are
written with the text first, and a single field without brackets, whatever the source has
(`retraces_namedArgumentsRule`).
-/

set_option autoImplicit false

namespace SearchSql.Grammar

open SearchSql.Grammar.Parser SearchSql.Token

variable {library : Time.Library} {α β : Type} [Erases α] [Erases β] {s s' t : State} {c d : Cursor}
variable {items before : List Item} {tokens rest : List Token} {here : Token → Prop}
variable {front R : Outlook} {call : Callee}

theorem Constants.unclosed (h : Constants c tokens) : Unclosed c tokens := h.2.1.ne rfl

/-- A constant may stand in front of a comma or a closing parenthesis. -/
theorem Listed.follows (h : Listed c tokens) : Follows c tokens := by
  rcases h with ⟨-, h⟩ | ⟨-, h⟩
  · exact follows_of_ne (h.trans_ne nofun) (h.trans_ne nofun) (h.trans_ne nofun)
  · exact follows_of_ne (h.trans_ne nofun) (h.trans_ne nofun) (h.trans_ne nofun)

/-- So may a field with its weight. -/
theorem Listed.fieldEnds (h : Listed c tokens) : FieldEnds tokens := by
  rcases h with ⟨-, h⟩ | ⟨-, h⟩
  · exact fieldEnds_of_symbol h (by decide) (by decide)
  · exact fieldEnds_of_symbol h (by decide) (by decide)

/-- A constant may stand in front of a comma. -/
theorem follows_of_comma : Follows c (ofSymbol .comma :: rest) :=
  follows_of_ne (kindAt_symbol_ne (by decide)) (kindAt_symbol_ne (by decide))
    (kindAt_symbol_ne (by decide))

section Callees

variable (hcall : AllRetrace call)

include hcall

/-! ## Search texts and options -/

omit hcall in
theorem searchValueRule_apply (call : Callee) (s : State) :
    searchValueRule call s =
      if s.cursor.startsConstant = true then (SearchValue.constant <$> call .constant) s
      else (SearchValue.name <$> qualifiedName) s := by
  unfold searchValueRule
  rw [get_bind_apply]
  split <;> rfl

/-- A search text is a constant or a name, and is written as such. -/
theorem retraces_searchValueRule :
    Retraces here Unclosed before (searchValueRule call) (searchValueRule read)
      (fun value => before ++ value.outline) (fun _ => Follows) := by
  refine retraces_of fun s _ _ => ?_
  -- What starts a constant starts none of the names, and the other way round.
  cases hstarts : s.cursor.startsConstant with
  | true =>
    have h : Retraces (fun u => u = s.cursor.current) Constants before
        (SearchValue.constant <$> call .constant) (SearchValue.constant <$> read .constant)
        (fun value => before ++ value.outline) (fun _ => Follows) :=
      (hcall.retraces .constant rfl).anywhere.map (fun _ => rfl)
        fun _ _ h => congrArg SearchValue.constant h
    refine ⟨_, _, _, h, ?_, fun tokens hfront => ⟨hfront.unclosed, fun s' _ hfaces => ?_⟩⟩
    · rw [searchValueRule_apply, if_pos hstarts]
    · rw [searchValueRule_apply, if_pos]
      unfold Cursor.startsConstant
      rw [hfaces.peek, hfaces.peek, hfaces.peek]
      exact hfront.1
  | false =>
    have hname : Retraces (fun u => u = s.cursor.current)
        (fun _ tokens => ∃ rest, NameStarts rest tokens) before qualifiedName qualifiedName
        (fun name => before ++ name.outline) (fun _ => Follows) :=
      retraces_qualifiedName (fun _ _ _ rest _ hfine _ => ⟨rest, nameStarts_written hfine rest⟩)
        fun _ _ h => nameEnds_of_ne_dot h.dot
    have h : Retraces (fun u => u = s.cursor.current)
        (fun _ tokens => ∃ rest, NameStarts rest tokens) before
        (SearchValue.name <$> qualifiedName) (SearchValue.name <$> qualifiedName)
        (fun value => before ++ value.outline) (fun _ => Follows) :=
      hname.map (fun _ => rfl) fun _ _ h => congrArg SearchValue.name h
    refine ⟨_, _, _, h, ?_, fun tokens hfront => ?_⟩
    · rw [searchValueRule_apply, hstarts, if_neg Bool.false_ne_true]
    · obtain ⟨rest, hname⟩ := hfront
      refine ⟨hname.ne rfl (by decide), fun s' _ hfaces => ?_⟩
      rw [searchValueRule_apply, if_neg]
      unfold Cursor.startsConstant
      rw [hfaces.peek, hfaces.peek, hfaces.peek, hname.startsConstant]
      exact Bool.false_ne_true

/-- Search texts are retraced by their rule. -/
theorem AllRetrace.searchValue :
    Retraces here Unclosed before (call .searchValue) (read .searchValue)
      (fun value => before ++ value.outline) (fun _ => Follows) :=
  (hcall.retraces .searchValue rfl).anywhere

omit hcall in
/-- An option without quotes is one of the options known. -/
theorem relevanceOptionName_of_not_isString (h : s.cursor.current.kind.isString = false) :
    relevanceOptionName s =
      ((·, false) <$> optionName relevanceOptionNames "relevance option name") s := by
  unfold relevanceOptionName
  rw [current_bind_apply]
  cases hkind : s.cursor.current.kind with
  | string value =>
    rw [hkind] at h
    cases h
  | _ => rfl

omit hcall in
/-- An option in quotes may be any. -/
theorem relevanceOptionName_of_string {value : String}
    (h : s.cursor.current.kind = .string value) :
    relevanceOptionName s = .ok (value, true) (s.skip 1) := by
  unfold relevanceOptionName
  rw [current_bind_apply, h]
  rfl

omit hcall in
/-- An option is written with quotes if it was read with them. -/
theorem retraces_relevanceOptionName :
    Retraces here Outlook.any before relevanceOptionName relevanceOptionName
      (fun name => before ++ [if name.2 then .string name.1 else .word name.1]) (fun _ => R) := by
  intro s name t hs hhere heq
  cases hstring : s.cursor.current.kind.isString with
  | true =>
    obtain ⟨value, hkind⟩ : ∃ value, s.cursor.current.kind = .string value := by
      cases hkind : s.cursor.current.kind with
      | string value => exact ⟨value, rfl⟩
      | _ =>
        rw [hkind] at hstring
        cases hstring
    rw [relevanceOptionName_of_string hkind] at heq
    injection heq with hname ht
    subst hname ht
    refine ⟨[.string value], rfl, s.leads_skip 1, fun _ _ _ => trivial, ?_⟩
    intro s' rest _ htwin hfaces _
    exact ⟨(value, true), s'.skip 1, relevanceOptionName_of_string hfaces.current, rfl,
      htwin.skip 1 1, hfaces.skip rfl⟩
  | false =>
    rw [relevanceOptionName_of_not_isString hstring] at heq
    have h : Retraces Anywhere Unquoted before
        ((·, false) <$> optionName relevanceOptionNames "relevance option name")
        ((·, false) <$> optionName relevanceOptionNames "relevance option name")
        (fun name : String × Bool => before ++ [if name.2 then .string name.1 else .word name.1])
        (fun _ => R) :=
      (retraces_optionName _ _).map (fun _ => rfl) fun _ _ h => erase_pair.2 ⟨h, rfl⟩
    obtain ⟨items, hafter, hr⟩ := h s name t hs trivial heq
    refine ⟨items, hafter, hr.congr fun tokens hfront => ⟨trivial, fun s' _ hfaces => ?_⟩⟩
    exact relevanceOptionName_of_not_isString (by rw [hfaces.current]; exact hfront)

/-- Options go on with a comma or end at the parenthesis, in the source as in what is written. -/
theorem retraces_relevanceOptionsRule :
    Retraces here Listed before (relevanceOptionsRule call) (relevanceOptionsRule read)
      (fun options => before ++ outlineOptions options) (fun _ => Meets (.symbol .rightParen)) := by
  have hstep (options options' : List RelevanceOption) (hoptions : erase options = erase options') :
      Retraces Anywhere Listed (before ++ options.reverse.flatMap RelevanceOption.outline)
        (relevanceStep call options) (relevanceStep read options')
        (fun r => before ++ r.value.reverse.flatMap RelevanceOption.outline)
        (roundOutlook Listed (Meets (.symbol .rightParen))) := by
    refine retraces_takeSymbol_bind (N := Outlook.any) ?_
      (retraces_pure_of rfl (congrArg ForInStep.done hoptions) fun _ _ h => h)
      (fun _ _ hkind _ => .inl ⟨hkind, rfl⟩)
      fun _ _ _ hclose => ⟨.inr hclose, hclose.2.trans_ne (by decide)⟩
    refine (retraces_relevanceOptionName (R := Meets (.symbol .eq))).bind fun name name' hname => ?_
    obtain rfl : name = name' := hname
    refine (retraces_symbol .eq (N := Unclosed)).bind fun _ _ _ => ?_
    refine (hcall.searchValue.ending fun _ _ _ (h : Listed _ _) => h.follows).bind
      fun value value' hvalue => ?_
    refine retraces_pure_of ?_ (congrArg ForInStep.yield (erase_cons.2 ⟨?_, hoptions⟩))
      fun _ _ h => h
    · simp [ForInStep.value, RelevanceOption.outline]
    · exact congrArg (RelevanceOption.mk (View.erased.optionName name.2 name.1) name.2) hvalue
  have hloop : Retraces here Listed before (loop [] (relevanceStep call)) (loop [] (relevanceStep read))
      (fun options => before ++ options.reverse.flatMap RelevanceOption.outline)
      (fun _ => Meets (.symbol .rightParen)) := by
    have h : Retraces here _ _ (loop [] (relevanceStep call)) _ _ _ :=
      retraces_loop (Congruence.advances_relevanceStep (steady_read _)) hstep rfl
    simpa using h
  rw [relevanceOptionsRule_eq, relevanceOptionsRule_eq]
  exact hloop.bind fun options options' hoptions =>
    retraces_pure (by rw [outlineOptions_eq_flatMap]) (erase_reverse hoptions)

/-! ## Named arguments -/

omit hcall in
/-- The search text as a named argument. -/
def queryArgument (call : Callee) : Parser SearchValue := do
  skip 1
  let _ ← symbol .eq
  call .searchValue

omit hcall in
/-- The fields as a named argument. -/
def fieldsArgument : Parser (List WeightedField) := do
  skip 1
  let _ ← symbol .eq
  namedFields

omit hcall in
/-- A named argument by its word. -/
theorem namedArgument_apply (call : Callee) (s : State) :
    namedArgument call s =
      if s.cursor.current.kind.isWord "query" = true then (.query <$> queryArgument call) s
      else if s.cursor.current.kind.isWord "fields" = true then (.fields <$> fieldsArgument) s
      else rejectCurrent "query or fields" s := by
  unfold namedArgument
  rw [current_bind_apply]
  dsimp only
  split
  · simp only [queryArgument, map_eq_pure_bind, bind_assoc]
  split
  · simp only [fieldsArgument, namedFields, map_eq_pure_bind, bind_assoc]
    refine congrFun (congrArg _ (funext fun _ => ?_)) s
    refine congrArg _ (funext fun _ => ?_)
    refine congrArg _ (funext fun found => ?_)
    cases found with
    | true => rfl
    | false => simp
  · rfl

omit hcall in
/-- A named argument is a search text or a list of fields. -/
theorem namedArgument_eq_ok {a : NamedArgument} (h : namedArgument call s = .ok a t) :
    (∃ query, a = .query query ∧ queryArgument call s = .ok query t) ∨
      ∃ fs, a = .fields fs ∧ fieldsArgument s = .ok fs t := by
  rw [namedArgument_apply] at h
  split at h
  · obtain ⟨query, hquery, rfl⟩ := map_eq_ok_iff.1 h
    exact .inl ⟨query, rfl, hquery⟩
  split at h
  · obtain ⟨fs, hfs, rfl⟩ := map_eq_ok_iff.1 h
    exact .inr ⟨fs, rfl, hfs⟩
  · exact absurd h rejectCurrent_ne_ok

/-- Both named arguments are read somewhere on the way. -/
theorem namedArgumentsRule_eq_ok {found : SearchValue × List WeightedField}
    (h : namedArgumentsRule call s = .ok found t) :
    s.Leads t ∧ (∃ v w, s.Leads v ∧ queryArgument call v = .ok found.1 w) ∧
      ∃ v w, s.Leads v ∧ fieldsArgument v = .ok found.2 w := by
  have hsteady : Steady (namedArgument call) :=
    (steady_congruence.namedArgument (b := 0) ⟨hcall.steady _, hcall.steady _⟩).1
  obtain ⟨first, u, hfirst, hrest⟩ := bind_eq_ok_iff.1 h
  obtain ⟨_, v, hcomma, hrest⟩ := bind_eq_ok_iff.1 hrest
  obtain ⟨second, w, hsecond, hrest⟩ := bind_eq_ok_iff.1 hrest
  have hv : s.Leads v := (hsteady.leads hfirst).trans ((steady_symbol .comma).leads hcomma)
  have hw : s.Leads w := hv.trans (hsteady.leads hsecond)
  obtain ⟨query, rfl, hquery⟩ | ⟨fs, rfl, hfs⟩ := namedArgument_eq_ok hfirst
  · obtain ⟨query', rfl, -⟩ | ⟨fs, rfl, hfs⟩ := namedArgument_eq_ok hsecond
    · exact absurd hrest rejectCurrent_ne_ok
    · obtain ⟨rfl, rfl⟩ := pure_eq_ok_iff.1 hrest
      exact ⟨hw, ⟨s, u, .refl s, hquery⟩, v, w, hv, hfs⟩
  · obtain ⟨query, rfl, hquery⟩ | ⟨fs', rfl, -⟩ := namedArgument_eq_ok hsecond
    · obtain ⟨rfl, rfl⟩ := pure_eq_ok_iff.1 hrest
      exact ⟨hw, ⟨v, w, hv, hquery⟩, s, u, .refl s, hfs⟩
    · exact absurd hrest rejectCurrent_ne_ok

/-- The search text is written in front of the fields, whatever their order was. -/
theorem retraces_queryArgument :
    Retraces here Outlook.any [] (queryArgument call) (queryArgument read)
      (fun query => .word "query" :: .symbol .eq :: query.outline) (fun _ => Follows) :=
  (retraces_skip (m := .word "query") (N := Meets (.symbol .eq)) (by decide)
    fun _ _ _ _ => trivial).bind fun _ _ _ => (retraces_symbol .eq).bind
      fun _ _ _ => hcall.searchValue

omit hcall in
theorem steady_fieldList : Steady fieldList := (steady_congruence.fieldList (b := 0)).1

omit hcall in
/-- Several fields stand in brackets. -/
theorem namedFields_of_bracket (h : s.cursor.current.kind = .symbol .leftBracket) :
    namedFields s = fieldList s := by
  unfold namedFields
  rw [atSymbol_bind_apply, beq_iff_eq.2 h, if_pos rfl]

omit hcall in
/-- A single field stands without them. -/
theorem namedFields_of_ne (h : s.cursor.current.kind ≠ .symbol .leftBracket) :
    namedFields s = (([·]) <$> weightedField) s := by
  unfold namedFields
  rw [atSymbol_bind_apply, beq_eq_false_iff_ne.2 h, if_neg Bool.false_ne_true]
  rfl

omit hcall [Erases α] in
theorem steady_atSymbol_bind {sign : Symbol} {f : Bool → Parser α} (h : ∀ here, Steady (f here)) :
    Steady (atSymbol sign >>= f) := steady_current_bind fun t => h (t.kind == .symbol sign)

omit hcall in
theorem steady_namedFields : Steady namedFields := by
  refine steady_atSymbol_bind fun bracket => ?_
  cases bracket with
  | true => exact steady_fieldList
  | false => exact steady_weightedField.bind fun _ => steady_pure _

omit hcall in
theorem steady_queryArgument (h : Steady (call .searchValue)) : Steady (queryArgument call) :=
  (steady_skip 1).bind fun _ => (steady_symbol .eq).bind fun _ => h

omit hcall in
theorem steady_fieldsArgument : Steady fieldsArgument :=
  (steady_skip 1).bind fun _ => (steady_symbol .eq).bind fun _ => steady_namedFields

omit hcall in
theorem namedArgument_of_query (h : s.cursor.current.kind.isWord "query" = true) :
    namedArgument call s = (.query <$> queryArgument call) s := by
  rw [namedArgument_apply, if_pos h]

omit hcall in
theorem namedArgument_of_fields (h : s.cursor.current.kind = .name "fields") :
    namedArgument call s = (.fields <$> fieldsArgument) s := by
  rw [namedArgument_apply, h, if_neg (by decide), if_pos (by decide)]

omit hcall in
/-- No field starts with a bracket. -/
theorem ne_leftBracket_of_field {f : Field} (hfine : Fine f.outline) :
    kindAt (writtenTokens f.outline ++ rest) 0 ≠ .symbol .leftBracket := by
  rcases fieldStarts_written hfine rest with ⟨value, hkind⟩ | hstarts
  · rw [hkind]
    exact TokenKind.noConfusion
  · exact hstarts.ne rfl (by decide)

omit hcall in
/-- A single field is written without brackets. -/
theorem rereads_namedFields (f : WeightedField) : Rereads FieldEnds namedFields f.outline [f] := by
  intro s rest hfine hfaces hrest
  have hne : s.cursor.current.kind ≠ .symbol .leftBracket := by
    rw [hfaces.current]
    unfold WeightedField.outline at hfine ⊢
    rw [writtenTokens_append, List.append_assoc]
    exact ne_leftBracket_of_field hfine.left
  rw [namedFields_of_ne hne]
  exact ((rereads_weightedField f).map fun f' h => erase_cons.2 ⟨h, rfl⟩) s rest hfine hfaces hrest

omit hcall in
/-- Fields are written in brackets, unless there is only one. -/
theorem retraces_namedFields :
    Retraces here Outlook.any before namedFields namedFields
      (fun fs => before ++ SearchSql.namedFields fs) (fun _ _ tokens => FieldEnds tokens) := by
  have hsingle {f : WeightedField} {s t : State} (h : namedFields s = .ok [f] t) :
      ∃ items, before ++ SearchSql.namedFields [f] = before ++ items ∧
        Retrace Outlook.any (fun _ tokens => FieldEnds tokens) namedFields items s [f] t :=
    ⟨f.outline, rfl, (rereads_namedFields f).retrace steady_namedFields
      (steady_namedFields.leads h) (fun _ _ _ => trivial) fun _ h => h⟩
  intro s fs t hs hhere heq
  by_cases hkind : s.cursor.current.kind = .symbol .leftBracket
  · have hlist := heq
    rw [namedFields_of_bracket hkind] at hlist
    have hfieldList : Retraces here (Meets (.symbol .leftBracket)) before fieldList fieldList
        (fun fs => before ++ bracketed fs) (fun _ _ tokens => FieldEnds tokens) := retraces_fieldList
    obtain ⟨items, hafter, hr⟩ := hfieldList s fs t hs hhere hlist
    have hbrackets (h : SearchSql.namedFields fs = bracketed fs) :
        ∃ items, before ++ SearchSql.namedFields fs = before ++ items ∧
          Retrace Outlook.any (fun _ tokens => FieldEnds tokens) namedFields items s fs t := by
      refine ⟨items, by rw [h]; exact hafter, hr.congr fun tokens hfront => ?_⟩
      refine ⟨trivial, fun s' _ hfaces => namedFields_of_bracket ?_⟩
      rw [hfaces.current]
      exact hfront.2
    cases fs with
    | nil => exact hbrackets rfl
    | cons f more =>
      cases more with
      | nil => exact hsingle heq
      | cons g more => exact hbrackets rfl
  · have hsource := heq
    rw [namedFields_of_ne hkind] at hsource
    obtain ⟨f, -, rfl⟩ := map_eq_ok_iff.1 hsource
    exact hsingle heq

omit hcall in
theorem retraces_fieldsArgument :
    Retraces here Outlook.any [] fieldsArgument fieldsArgument
      (fun fs => .word "fields" :: .symbol .eq :: SearchSql.namedFields fs)
      (fun _ _ tokens => FieldEnds tokens) :=
  (retraces_skip (m := .word "fields") (N := Meets (.symbol .eq)) (by decide)
    fun _ _ _ _ => trivial).bind fun _ _ _ => (retraces_symbol .eq).bind
      fun _ _ _ => retraces_namedFields

/-- Both named arguments are retraced, with the text in front. -/
theorem retraces_namedArgumentsRule :
    Retraces here Named before (namedArgumentsRule call) (namedArgumentsRule read)
      (fun found => before ++ Nonterminal.namedArguments.outline found) (fun _ => Listed) := by
  intro s found t hs _ heq
  obtain ⟨ht, ⟨v, w, hv, hquery⟩, x, y, hx, hfs⟩ := namedArgumentsRule_eq_ok hcall heq
  have hqueries : Retraces Anywhere Outlook.any [] (queryArgument call) (queryArgument read)
      (fun query => .word "query" :: .symbol .eq :: query.outline) (fun _ => Follows) :=
    retraces_queryArgument hcall
  have hfields : Retraces Anywhere Outlook.any [] fieldsArgument fieldsArgument
      (fun fs => .word "fields" :: .symbol .eq :: SearchSql.namedFields fs)
      (fun _ _ tokens => FieldEnds tokens) := retraces_fieldsArgument
  obtain ⟨is, his, hr⟩ := hqueries v found.1 w (hs.leads hv) trivial hquery
  obtain ⟨js, hjs, hr'⟩ := hfields x found.2 y (hs.leads hx) trivial hfs
  rw [List.nil_append] at his hjs
  -- The query is written in front of the fields, in whichever order they were read.
  refine ⟨.remark .named :: is ++ .symbol .comma :: js, ?_, ht, fun rest hfine hrest => ?_,
    fun s' rest hfine htwin hfaces hrest => ?_⟩
  · rw [← his, ← hjs]
    rfl
  · rw [← his]
    exact (by decide : startsNamedArgument (bareKind "query") (.symbol .eq) = true)
  · have hwritten : writtenTokens (.remark .named :: is ++ .symbol .comma :: js) ++ rest =
        writtenTokens is ++ ofSymbol .comma :: (writtenTokens js ++ rest) := by simp
    rw [hwritten] at hfaces
    -- So the written arguments are read in that order, each from the state behind the other.
    obtain ⟨query, u, hrun, hsame, -, hbehind⟩ :=
      hr.again s' _ hfine.tail.left (htwin.leads hv (.refl s')) hfaces follows_of_comma
    have hu : s'.Leads u := (steady_queryArgument (steady_read .searchValue)).leads hrun
    have hskip : s'.Leads (u.skip 1) := hu.trans (u.leads_skip 1)
    have hcomma : u.cursor.current.kind = .symbol .comma := hbehind.current
    obtain ⟨fs, t', hrun', hsame', -, hfaces'⟩ :=
      hr'.again (u.skip 1) rest hfine.tail.right.tail (htwin.leads hx hskip) (hbehind.skip rfl)
        hrest.fieldEnds
    have ht' : s'.Leads t' := hskip.trans (steady_fieldsArgument.leads hrun')
    have hfirst : namedArgument read s' = .ok (.query query) u := by
      rw [namedArgument_of_query]
      · exact map_eq_ok_iff.2 ⟨query, hrun, rfl⟩
      · rw [hfaces.current, ← his]
        exact (by decide : (bareKind "query").isWord "query" = true)
    have hsecond : namedArgument read (u.skip 1) = .ok (.fields fs) t' := by
      rw [namedArgument_of_fields]
      · exact map_eq_ok_iff.2 ⟨fs, hrun', rfl⟩
      · rw [(hbehind.skip rfl).current, ← hjs]
        exact (by decide : bareKind "fields" = .name "fields")
    refine ⟨(query, fs), t', ?_, erase_pair.2 ⟨hsame, hsame'⟩, htwin.leads ht ht', hfaces'⟩
    unfold namedArgumentsRule
    rw [bind_of_ok hfirst, bind_of_ok (symbol_eq_ok_iff.2 ⟨hcomma, rfl, rfl⟩), bind_of_ok hsecond]
    rfl

/-! ## Relevance functions -/

/-- What a relevance function of several fields searches for, behind named arguments. -/
def namedTarget (call : Callee) : Parser (RelevanceForm × SearchValue) := do
  let (query, fields) ← call .namedArguments
  return (.named fields, query)

/-- What a relevance function searches for in a list of fields. -/
def listedTarget (call : Callee) : Parser (RelevanceForm × SearchValue) := do
  let fields ← fieldList
  let _ ← symbol .comma
  return (.fields fields, ← call .searchValue)

omit hcall in
/-- A function of several fields has named arguments or a list of fields in front. -/
theorem searchTarget_multiField_apply (call : Callee) (s : State) :
    searchTarget call .multiField s =
      (if startsNamedArgument s.cursor.current.kind (s.cursor.peek 1).kind = true then
        namedTarget call
      else listedTarget call) s := rfl

/-- What is searched for is retraced in the form in which it was read. -/
theorem retraces_searchTarget (kind : RelevanceKind) (name : String) :
    Retraces here Unclosed (before ++ [.word name, .symbol .leftParen]) (searchTarget call kind)
      (searchTarget read kind) (fun target => before ++ target.1.outline name target.2.outline)
      (fun _ => Listed) := by
  have hvalue {here : Token → Prop} {middle : List Item} :
      Retraces here Unclosed middle (call .searchValue) (read .searchValue)
        (fun value => middle ++ value.outline) (fun _ => Listed) :=
    hcall.searchValue.ending fun _ _ _ h => h.follows
  cases kind with
  | noField =>
    refine hvalue.bind fun value value' h => retraces_pure ?_ (erase_pair.2 ⟨rfl, h⟩)
    simp [RelevanceForm.outline]
  | singleField =>
    refine (retraces_field (R := Meets (.symbol .comma))
      (fun _ _ _ _ _ hfine _ => unclosed_field hfine) fun _ _ h =>
        nameEnds_of_ne_dot (h.2.trans_ne (by decide))).bind fun f f' hf => ?_
    refine (retraces_symbol .comma).bind fun _ _ _ => hvalue.bind fun value value' h =>
      retraces_pure ?_ (erase_pair.2 ⟨congrArg RelevanceForm.field hf, h⟩)
    simp [RelevanceForm.outline]
  | multiField =>
    refine retraces_of fun s _ _ => ?_
    cases hnamed : startsNamedArgument s.cursor.current.kind (s.cursor.peek 1).kind with
    -- Named arguments show their name and an equals sign, which are written again.
    | true =>
      have h : Retraces (fun u => u = s.cursor.current) Named
          (before ++ [.word name, .symbol .leftParen]) (namedTarget call) (namedTarget read)
          (fun target => before ++ target.1.outline name target.2.outline) (fun _ => Listed) := by
        refine (hcall.retraces .namedArguments rfl).anywhere.bind fun found found' hfound =>
          retraces_pure ?_ ?_
        · simp [Nonterminal.outline, RelevanceForm.outline]
        · obtain ⟨hquery, hfields⟩ := erase_pair.1 hfound
          exact erase_pair.2 ⟨congrArg RelevanceForm.named hfields, hquery⟩
      refine ⟨_, _, _, h, ?_, fun tokens hfront => ⟨fun hclose => ?_, fun s' _ hfaces => ?_⟩⟩
      · rw [searchTarget_multiField_apply, if_pos hnamed]
      · unfold Named at hfront
        rw [hclose] at hfront
        cases hfront
      · rw [searchTarget_multiField_apply, hfaces.current, hfaces.peek]
        exact congrFun (if_pos hfront) s'
    | false =>
      -- A list of fields shows its bracket instead.
      have h : Retraces (fun u => u = s.cursor.current) (Meets (.symbol .leftBracket))
          (before ++ [.word name, .symbol .leftParen]) (listedTarget call) (listedTarget read)
          (fun target => before ++ target.1.outline name target.2.outline) (fun _ => Listed) := by
        refine retraces_fieldList.bind fun fs fs' hfs => (retraces_symbol .comma).bind fun _ _ _ =>
          hvalue.bind fun value value' h =>
            retraces_pure ?_ (erase_pair.2 ⟨congrArg RelevanceForm.fields hfs, h⟩)
        simp [RelevanceForm.outline]
      refine ⟨_, _, _, h, ?_, fun tokens hfront => ⟨hfront.2.trans_ne (by decide),
        fun s' _ hfaces => ?_⟩⟩
      · rw [searchTarget_multiField_apply, hnamed, if_neg Bool.false_ne_true]
      · rw [searchTarget_multiField_apply, hfaces.current, hfront.2]
        rfl

/-- A relevance function is retraced with its options. -/
theorem retraces_relevanceRule (kind : RelevanceKind) :
    Retraces IsBare Calls before (relevanceRule call kind) (relevanceRule read kind)
      (fun relevance => before ++ relevance.outline) (fun _ => R) := by
  refine retraces_named_bind (N := Unclosed) (fun _ _ hunclosed hkind => absurd hkind hunclosed)
    (fun _ _ _ hcalls _ => hcalls) fun name => ?_
  refine (retraces_searchTarget hcall kind name).bind fun target target' htarget =>
    (hcall.retraces .relevanceOptions rfl).anywhere.bind fun options options' hoptions =>
      (retraces_symbol .rightParen (N := R)).bind fun _ _ _ => retraces_pure ?_ ?_
  · simp [Relevance.outline, Nonterminal.outline]
  · obtain ⟨hform, hquery⟩ := erase_pair.1 htarget
    show Relevance.mk _ _ _ _ = Relevance.mk _ _ _ _
    rw [show target.1.view .erased = target'.1.view .erased from hform,
      show target.2.view .erased = target'.2.view .erased from hquery, viewOptions_erased hoptions]

/-! ## Relevance functions behind their fields -/

omit hcall in
/-- What is read behind a field and its equals sign, where a function of the kind is named. -/
def fieldEqualsCalled (call : Callee) (f : Field) (kind : RelevanceKind) : Parser Relevance := do
  let name ← callName
  fieldEqualsRest call name (formBehind kind f)

omit hcall in
/-- What is read behind a field and its equals sign. -/
def fieldEqualsAt (call : Callee) (f : Field) : Parser Relevance := do
  match (← current).kind.bareWord?.bind fieldEqualsKind? with
  | some kind => fieldEqualsCalled call f kind
  | none => rejectCurrent "relevance function"

omit hcall in
/-- A relevance function behind its field is a field, an equals sign and the function. -/
theorem fieldEqualsRule_eq (call : Callee) :
    fieldEqualsRule call =
      field >>= fun f => symbol .eq >>= fun _ => fieldEqualsAt call f := rfl

omit hcall in
theorem fieldEqualsAt_apply {kind : RelevanceKind} (call : Callee) (f : Field)
    (h : s.cursor.current.kind.bareWord?.bind fieldEqualsKind? = some kind) :
    fieldEqualsAt call f s = fieldEqualsCalled call f kind s := by
  unfold fieldEqualsAt
  rw [current_bind_apply, h]

omit hcall in
/-- A call of a function that may stand behind a field is in front of both. -/
def FieldCalls : Outlook := fun c tokens =>
  Calls c tokens ∧ ((kindAt tokens 0).bareWord?.bind fieldEqualsKind?).isSome = true

omit hcall in
/-- An equals sign and such a call are in front of both. -/
def Joined : Outlook := fun c tokens => JoinsField tokens ∧ JoinsField c.ahead

omit hcall in
/-- An equals sign in front of such a function joins it to its field. -/
theorem joined_of_fieldCalls (hkind : c.current.kind = .symbol .eq)
    (h : FieldCalls (c.skip 1) rest) : Joined c (ofSymbol .eq :: rest) := by
  obtain ⟨hcalls, hfunction⟩ := h
  have hend := isEnd_of_symbol hkind
  refine ⟨⟨rfl, hfunction, hcalls.written⟩, ?_, ?_, ?_⟩
  · rw [kindAt_zero, hkind]
  · rw [kindAt_ahead, ← Cursor.current_skip_one hend, hcalls.word.bareWord?]
    exact hfunction
  · rw [kindAt_ahead, ← peek_skip_one hend]
    exact hcalls.paren

omit hcall [Erases α] in
theorem isBare_of_bareWord {u : Token} {found : α} {f : String → Option α}
    (h : u.kind.bareWord?.bind f = some found) : IsBare u := by
  obtain ⟨word, hword, -⟩ := Option.bind_eq_some_iff.1 h
  cases hkind : u.kind with
  | name value => exact .inl (by rw [hkind]; rfl)
  | _ =>
    rw [hkind] at hword
    cases hword

theorem retraces_fieldEqualsCalled {f f' : Field} (hf : erase f = erase f') (kind : RelevanceKind) :
    Retraces IsBare Calls (before ++ f.outline ++ [.symbol .eq]) (fieldEqualsCalled call f kind)
      (fieldEqualsCalled read f' kind) (fun relevance => before ++ relevance.outline)
      (fun _ => R) := by
  refine retraces_named_bind (N := Unclosed) (fun _ _ hunclosed hclose => absurd hclose hunclosed)
    (fun _ _ _ hcalls _ => hcalls) fun name => ?_
  refine (hcall.searchValue.ending fun _ _ _ (h : Listed _ _) => h.follows).bind
    fun query query' hquery => (hcall.retraces .relevanceOptions rfl).anywhere.bind
      fun options options' hoptions => (retraces_symbol .rightParen (N := R)).bind
        fun _ _ _ => retraces_pure ?_ ?_
  · cases kind <;> simp [Relevance.outline, RelevanceForm.outline, Nonterminal.outline, formBehind]
  · show Relevance.mk _ _ _ _ = Relevance.mk _ _ _ _
    rw [show query.view .erased = query'.view .erased from hquery, viewOptions_erased hoptions]
    refine congrArg (Relevance.mk _ · _ _) ?_
    cases kind with
    | multiField => exact congrArg RelevanceForm.fieldEqualsMulti hf
    | _ => exact congrArg RelevanceForm.fieldEquals hf

/-- A relevance function behind its field may have another field in front, the same up to quotes. -/
theorem retraces_fieldEqualsAt {f f' : Field} (hf : erase f = erase f') :
    Retraces here FieldCalls (before ++ f.outline ++ [.symbol .eq]) (fieldEqualsAt call f)
      (fieldEqualsAt read f') (fun relevance => before ++ relevance.outline) (fun _ => R) := by
  intro s relevance t hs _ heq
  cases hkind : s.cursor.current.kind.bareWord?.bind fieldEqualsKind? with
  | none =>
    unfold fieldEqualsAt at heq
    rw [current_bind_apply, hkind] at heq
    exact absurd heq rejectCurrent_ne_ok
  | some kind =>
    rw [fieldEqualsAt_apply call f hkind] at heq
    obtain ⟨items, hafter, hr⟩ :=
      retraces_fieldEqualsCalled hcall hf kind s relevance t hs (isBare_of_bareWord hkind) heq
    refine ⟨items, hafter, hr.congr fun tokens hcalls => ?_⟩
    have hwritten : (kindAt tokens 0).bareWord?.bind fieldEqualsKind? = some kind := by
      rw [← hcalls.word.bareWord?]
      exact hkind
    refine ⟨⟨hcalls, by rw [hwritten]; rfl⟩, fun s' _ hfaces => fieldEqualsAt_apply read f' ?_⟩
    rw [hfaces.current]
    exact hwritten

theorem retraces_fieldEqualsRule :
    Retraces here FieldFirst before (fieldEqualsRule call) (fieldEqualsRule read)
      (fun relevance => before ++ relevance.outline) (fun _ => R) := by
  rw [fieldEqualsRule_eq, fieldEqualsRule_eq]
  refine (retraces_field (R := Joined) (fun s f t rest hfield hfine hjoined => ?_)
    fun _ _ h => nameEnds_of_ne_dot (h.1.1.trans_ne (by decide))).bind fun f f' hf => ?_
  · have hfollows : Follows t.cursor rest :=
      ⟨hjoined.1.1.trans_ne (by decide), hjoined.1.1.trans_ne (by decide), fun _ => hjoined.2⟩
    have hafter := afterField?_written hfine (nameEnds_of_ne_dot hfollows.dot)
    exact ⟨(operands_of_fieldRun hfield hfine hfollows).1,
      startsFieldEquals_iff.2 ⟨rest, hafter, hjoined.1⟩⟩
  · refine (retraces_symbol_of (N := FieldCalls) fun _ _ => joined_of_fieldCalls).bind fun _ _ _ => ?_
    exact retraces_fieldEqualsAt hcall hf

/-! ## Scores -/

omit hcall in
/-- A score is that of a relevance function, behind its field or by its name. -/
theorem scoredRelevance_apply (call : Callee) (s : State) :
    scoredRelevance call s =
      (if startsFieldEquals s.cursor.ahead = true then call .fieldEquals else namedRelevance call) s :=
  rfl

omit hcall in
theorem namedRelevance_apply {kind : RelevanceKind} (call : Callee)
    (h : s.cursor.current.kind.bareWord?.bind RelevanceKind.ofUpper? = some kind) :
    namedRelevance call s = call (.relevance kind) s := by
  unfold namedRelevance
  rw [current_bind_apply]
  dsimp only
  rw [h]

theorem retraces_namedRelevance :
    Retraces here Calls before (namedRelevance call) (namedRelevance read)
      (fun relevance => before ++ relevance.outline) (fun _ => R) := by
  intro s relevance t hs _ heq
  cases hkind : s.cursor.current.kind.bareWord?.bind RelevanceKind.ofUpper? with
  | none =>
    unfold namedRelevance at heq
    rw [current_bind_apply] at heq
    dsimp only at heq
    rw [hkind] at heq
    exact absurd heq reject_ne_ok
  | some kind =>
    rw [namedRelevance_apply call hkind] at heq
    have h : Retraces IsBare Calls before (call (.relevance kind)) (read (.relevance kind))
        (fun relevance => before ++ relevance.outline) (fun _ => R) :=
      hcall.opening (.relevance kind) rfl (fun _ _ h => h) fun _ _ _ => trivial
    obtain ⟨items, hafter, hr⟩ := h s relevance t hs (isBare_of_bareWord hkind) heq
    refine ⟨items, hafter, hr.congr fun tokens hcalls => ⟨hcalls, fun s' _ hfaces => ?_⟩⟩
    refine namedRelevance_apply read ?_
    rw [hfaces.current, ← hcalls.word.bareWord?]
    exact hkind

omit hcall in
theorem Calls.startsFieldEquals (h : Calls c tokens) : startsFieldEquals tokens = false := by
  refine Bool.eq_false_iff.2 fun hstarts => ?_
  obtain ⟨rest, hrest, hjoins⟩ := startsFieldEquals_iff.1 hstarts
  cases hjoins.1.symm.trans (h.afterField? hrest)

/-- The relevance function inside of a score is retraced in its own form. -/
theorem retraces_scoredRelevance :
    Retraces here Unclosed before (scoredRelevance call) (scoredRelevance read)
      (fun relevance => before ++ relevance.outline) (fun _ => R) := by
  refine retraces_of fun s _ _ => ?_
  cases hstarts : Grammar.startsFieldEquals s.cursor.ahead with
  | true =>
    refine ⟨FieldFirst, _, _, (hcall.retraces .fieldEquals rfl).anywhere.ending
      fun _ _ _ _ => trivial, ?_, fun tokens hfront => ⟨hfront.1.ne rfl, fun s' _ hfaces => ?_⟩⟩
    · rw [scoredRelevance_apply, if_pos hstarts]
    · rw [scoredRelevance_apply, hfaces.startsFieldEquals]
      exact congrFun (if_pos hfront.2) s'
  | false =>
    refine ⟨Calls, _, _, retraces_namedRelevance hcall, ?_,
      fun tokens hfront => ⟨hfront.ne rfl rfl, fun s' _ hfaces => ?_⟩⟩
    · rw [scoredRelevance_apply, hstarts]
      rfl
    · rw [scoredRelevance_apply, hfaces.startsFieldEquals, hfront.startsFieldEquals]
      rfl

theorem retraces_scoreRule :
    Retraces IsBare Calls before (scoreRule call) (scoreRule read)
      (fun shape => before ++ shape.outline) (fun _ => R) := by
  have hclose (name : String) {relevance relevance' : Relevance}
      (hrelevance : erase relevance = erase relevance') (weight weight' : Option Number.Binary64)
      (hweight : erase weight = erase weight') :
      Retraces Anywhere (Meets (.symbol .rightParen)) (before ++ .word name :: .symbol .leftParen ::
        relevance.outline ++ weight.elim [] fun w => [.symbol .comma, .mark (.weight w)]) (do
        let _ ← symbol .rightParen
        return .score name relevance weight : Parser CallShape) (do
        let _ ← symbol .rightParen
        return .score name relevance' weight')
        (fun shape => before ++ shape.outline) (fun _ => R) := by
    refine (retraces_symbol .rightParen (N := R)).bind fun _ _ _ => retraces_pure ?_ ?_
    · cases weight <;> simp [CallShape.outline]
    · obtain rfl : weight = weight' := Option.map_injective (fun _ _ h => h) hweight
      exact congrArg (CallShape.score name · weight) hrelevance
  refine retraces_named_bind (N := Unclosed) (fun _ _ hunclosed hkind => absurd hkind hunclosed)
    (fun _ _ _ hcalls _ => hcalls) fun name => ?_
  refine (retraces_scoredRelevance hcall (R := Listed)).bind fun relevance relevance' hrelevance => ?_
  refine retraces_takeSymbol_bind (N := Outlook.any) (U := Meets (.symbol .rightParen)) ?_ ?_
    (fun _ _ hkind _ => .inl ⟨hkind, rfl⟩) fun _ _ _ h => ⟨.inr h, h.2.trans_ne (by decide)⟩
  · refine (retraces_weight.some ?_).bind (hclose name hrelevance)
    intro w
    simp
  · refine Retraces.bind (retraces_pure ?_ rfl) (hclose name hrelevance)
    simp

end Callees

end SearchSql.Grammar
