import SearchSql.Proofs.Likeness
import SearchSql.Proofs.RuleCongruence

/-!
# Names, numbers and constants of token lists that look alike

The parsers that read no expression respect a likeness: each gives, of what looks alike, what looks
alike. A parser that takes whatever token stands first is compared only where something is in sight.
-/

set_option autoImplicit false

namespace SearchSql.Grammar.Likeness

open SearchSql.Grammar.Parser

variable {α β γ : Type} {L : Likeness} {front : Bool}

/-! ## The token behind the next -/

/-- The token behind the next is the first behind a step. -/
theorem peek_one {c : Cursor} (h : c.current.isEnd = false) : c.peek 1 = c.advance.current := by
  obtain ⟨passed, ahead, closing, hclosing⟩ := c
  cases ahead with
  | nil => exact absurd (hclosing.symm.trans h) nofun
  | cons t ts =>
    have hend : t.isEnd = false := h
    cases ts <;> simp [Cursor.peek, Cursor.advance, Cursor.current, hend]

/-- Behind a token in sight, the next tokens are seen alike. -/
theorem Linked.seen_next (hL : L.Lawful) {s s' : State} (h : L.Linked s s')
    (hend : L.ends s.cursor.current.kind = false) :
    L.Seen (s.cursor.peek 1) (s'.cursor.peek 1) := by
  rw [peek_one (isEnd_of_ends hL hend), peek_one (isEnd_of_ends hL (h.ends_false hL hend))]
  exact (h.skip_one hL hend).seen hL

/-- A question about a kind that no end of a comparison answers with yes. -/
structure Asks (L : Likeness) (test : TokenKind → Bool) : Prop where
  view (k : TokenKind) : test (k.view L.view) = test k
  ends {k : TokenKind} : IsEndKind k → test k = false

/-- No comparison ends at what may be a name. -/
theorem asks_isNameLike : L.Asks TokenKind.isNameLike :=
  ⟨fun k => k.isNameLike_view, by rintro _ (rfl | rfl) <;> rfl⟩

/-- Nor at a number. -/
theorem asks_isNumber : L.Asks TokenKind.isNumber :=
  ⟨fun k => k.isNumber_view, by rintro _ (rfl | rfl) <;> rfl⟩

theorem asks_isInteger : L.Asks (· == .integer) :=
  ⟨fun k => by cases k <;> rfl, by rintro _ (rfl | rfl) <;> rfl⟩

/-- Nor at a word. -/
theorem asks_isWord (hL : L.Lawful) (word : String) : L.Asks (·.isWord word) :=
  ⟨fun k => k.isWord_view hL.view word, by rintro _ (rfl | rfl) <;> rfl⟩

/-- Tokens that are seen alike answer such a question alike. -/
theorem Asks.seen {test : TokenKind → Bool} (h : L.Asks test) (hL : L.Lawful) {t t' : Token}
    (hseen : L.Seen t t') : test t'.kind = test t.kind := by
  cases hseen with
  | inSight _ => exact h.view t.kind
  | atEnd ht ht' _ => rw [h.ends (hL.ends.eq_or_eq ht), h.ends (hL.ends.eq_or_eq ht')]

/-- A parser that takes one of two ways by what is under the cursor. -/
theorem Asks.like_bind {test : TokenKind → Bool} (h : L.Asks test) (hL : L.Lawful) {f : α → β}
    {p q : Parser α} {p' q' : Parser β} (hp : L.Like true f p p') (hq : L.Like front f q q') :
    L.Like front f (current >>= fun t => if test t.kind then p else q)
      (current >>= fun t => if test t.kind then p' else q') := by
  intro s s' hs hfront
  rw [current_bind_apply, current_bind_apply, h.seen hL (hs.seen hL)]
  cases htest : test s.cursor.current.kind with
  | true =>
    refine hp s s' hs fun _ => sight_ne_nil hL ?_
    rw [← Bool.not_eq_true]
    intro hend
    rw [h.ends (hL.ends.eq_or_eq hend)] at htest
    cases htest
  | false => exact hq s s' hs hfront

/-- A parser that requires a certain kind of token. -/
theorem Asks.like_require {test : TokenKind → Bool} (h : L.Asks test) (hL : L.Lawful) {f : α → β}
    (expected : String) {k : Token → Parser α} {k' : Token → Parser β}
    (hk : ∀ t, L.Like true f (k t) (k' (t.view L.view))) :
    L.Like front f
      (current >>= fun t =>
        if !test t.kind then rejectCurrent expected >>= fun _ : Unit => k t else k t)
      (current >>= fun t =>
        if !test t.kind then rejectCurrent expected >>= fun _ : Unit => k' t else k' t) := by
  intro s s' hs hfront
  have hseen := hs.seen hL
  rw [current_bind_apply, current_bind_apply, h.seen hL hseen]
  cases htest : test s.cursor.current.kind with
  | false => exact .refused (hL.refused_matching hs (.unexpected expected hseen))
  | true =>
    have hend : L.ends s.cursor.current.kind = false := by
      rw [← Bool.not_eq_true]
      intro hend
      rw [h.ends (hL.ends.eq_or_eq hend)] at htest
      cases htest
    rw [hseen.eq_view hend]
    exact hk _ s s' hs fun _ => sight_ne_nil hL hend

/-! ## Names -/

/-- A name as seen stands where it is seen to stand. -/
theorem ident_span (hV : L.view.Lawful) (name : Ident) :
    (L.view.ident name).span = L.view.span name.span := by
  obtain ⟨value, quoted, span⟩ := name
  cases quoted with
  | false => rw [hV.bare]
  | true => rw [hV.quoted]

/-- A bare name is taken by both, at places that look alike. -/
theorem like_bareName (hL : L.Lawful) (value : String) :
    L.Like true L.view.ident (do return ⟨value, false, ← take⟩)
      (do return ⟨L.view.word value, false, ← take⟩) :=
  (like_take hL).map fun span => hL.view.bare value span

/-- The name behind a dot. -/
def dotName : Parser Ident := do
  match (← peek 1).kind with
  | .name value =>
      let start ← take
      let stop ← take
      return ⟨"." ++ value, false, start.merge stop⟩
  | _ => rejectCurrent "identifier"

theorem like_dotName (hL : L.Lawful) : L.Like true L.view.ident dotName dotName := by
  intro s s' hs hfront
  have hend := ends_current hL (hfront rfl)
  have hseen := hs.seen_next hL hend
  have hreject : L.Ends L.view.ident (rejectCurrent "identifier" s) (rejectCurrent "identifier" s') :=
    like_rejectCurrent hL _ s s' hs hfront
  unfold dotName
  rw [peek_bind_apply, peek_bind_apply]
  generalize hu' : s'.cursor.peek 1 = u' at hseen
  generalize hu : s.cursor.peek 1 = u at hseen
  cases hseen with
  | atEnd hk hk' _ =>
    obtain hkind | hkind := hL.ends.eq_or_eq hk <;> obtain hkind' | hkind' := hL.ends.eq_or_eq hk' <;>
      rw [hkind, hkind'] <;> exact hreject
  -- Behind the dot only a bare name is read, which must be in sight of both.
  | inSight hk =>
    obtain ⟨kind, text, span⟩ := u
    cases kind with
    | name value =>
      have hsecond : L.ends (s.skip 1).cursor.current.kind = false := by
        show L.ends s.cursor.advance.current.kind = false
        rw [← peek_one (isEnd_of_ends hL hend), hu]
        exact hk
      have hstop (start : Span) : L.Like true L.view.ident
          (do return ⟨"." ++ value, false, start.merge (← take)⟩)
          (do return ⟨"." ++ L.view.word value, false, (L.view.span start).merge (← take)⟩) :=
        (like_take hL).bind fun stop => like_pure_of_eq (by
          rw [hL.view.bare, hL.view.merge, hL.view.dot])
      show L.Ends L.view.ident
        ((take >>= fun start => do return ⟨"." ++ value, false, start.merge (← take)⟩) s)
        ((take >>= fun start => do
          return ⟨"." ++ L.view.word value, false, start.merge (← take)⟩) s')
      rw [bind_apply_andThen, bind_apply_andThen]
      refine (like_take hL s s' hs hfront).andThen fun start t t' hstart _ ht => ?_
      cases hstart
      exact hstop _ _ t' ht fun _ => sight_ne_nil hL hsecond
    | _ => exact hreject

/-- Both read a name, the same as seen, whatever way it is written. -/
theorem like_ident (hL : L.Lawful) : L.Like front L.view.ident ident ident := by
  refine like_current_bind_of_eq hL (fun t ht => ?_) (like_rejectCurrent hL "identifier")
    (by rintro ⟨_, _, _⟩ (rfl | rfl) <;> rfl) (by rintro ⟨_, _, _⟩ (rfl | rfl) <;> rfl)
  have hreject : L.Like true L.view.ident (rejectCurrent "identifier")
      (rejectCurrent "identifier") := like_rejectCurrent hL _
  obtain ⟨kind, text, span⟩ := t
  cases kind with
  | name value => exact like_bareName hL value
  | quotedName value => exact (like_take hL).map fun span => hL.view.quoted value span
  | keyword word =>
    cases hword : word.isNameLike with
    | true => simpa [hword, Token.view, TokenKind.view] using like_bareName hL text
    | false => simpa [hword, Token.view, TokenKind.view] using hreject
  | symbol sign =>
    cases sign with
    | dot => exact like_dotName hL
    | _ => exact hreject
  | _ => exact hreject

/-- The segments of a name as seen, with where they were read. -/
def viewParts (V : View) (names : List Ident × Span) : List Ident × Span :=
  (names.1.map V.ident, V.span names.2)

/-- Both names go on with a dot or neither does. -/
theorem like_namePart (hL : L.Lawful) (names : List Ident × Span) :
    L.Like false (stepView (viewParts L.view)) (namePart names)
      (namePart (viewParts L.view names)) := by
  have hdone : L.Like false (stepView (viewParts L.view)) (pure (.done names))
      (pure (.done (viewParts L.view names))) := like_pure (ForInStep.done names)
  have hpart : L.Like false (stepView (viewParts L.view))
      (do
        let part ← ident
        return .yield (part :: names.1, names.2.merge part.span))
      (do
        let part ← ident
        return .yield (part :: (viewParts L.view names).1,
          (viewParts L.view names).2.merge part.span)) := by
    refine (like_ident hL).map fun part => ?_
    rw [ident_span hL.view]
    show ForInStep.yield (L.view.ident part :: names.1.map L.view.ident,
      L.view.span (names.2.merge part.span)) = _
    rw [hL.view.merge]
    rfl
  intro s s' hs hfront
  unfold namePart
  rw [atSymbol_bind_apply, atSymbol_bind_apply, peek_bind_apply, peek_bind_apply,
    (hs.seen hL).beq_symbol hL (by decide)]
  cases hdot : s.cursor.current.kind == .symbol .dot with
  | false => exact hdone s s' hs hfront
  | true =>
    have hend : L.ends s.cursor.current.kind = false := by
      rw [eq_of_beq hdot]
      exact ends_symbol hL (by decide)
    rw [asks_isNameLike.seen hL (hs.seen_next hL hend)]
    cases (s.cursor.peek 1).kind.isNameLike with
    | false => exact hdone s s' hs hfront
    | true => exact hpart _ _ (hs.skip_one hL hend) nofun

/-- Both read a qualified name, the same as seen. -/
theorem like_qualifiedName (hL : L.Lawful) :
    L.Like front (QualifiedName.view L.view) qualifiedName qualifiedName := by
  rw [qualifiedName_eq]
  refine (like_ident hL).bind fun first => ?_
  have hloop : L.Like false (viewParts L.view) (loop ([first], first.span) namePart)
      (loop (viewParts L.view ([first], first.span)) namePart) :=
    like_loop (like_namePart hL) Congruence.advances_namePart Congruence.advances_namePart _
  rw [ident_span hL.view]
  refine hloop.bind fun names => like_pure_of_eq ?_
  rw [QualifiedName.view, List.map_reverse]
  rfl

theorem like_optionalAlias (hL : L.Lawful) :
    L.Like front (Option.map L.view.ident) optionalAlias optionalAlias :=
  like_takeKeyword_bind hL .AS ((like_ident hL).map fun _ => rfl)
    (asks_isNameLike.like_bind hL ((like_ident hL).map fun _ => rfl) (like_pure none))

/-! ## Numbers and words -/

theorem like_count (hL : L.Lawful) : L.Like front id count count := by
  refine asks_isInteger.like_require hL "integer" fun t => (like_skip_one hL).bind fun _ => ?_
  rw [show (t.view L.view).text = L.view.word t.text from rfl, hL.view.readUnsigned]
  cases Number.readUnsigned t.text with
  | ok n => exact like_pure n
  | error fault => exact like_reject hL (.malformed "integer" fault.message t.span)

theorem like_weight (hL : L.Lawful) : L.Like front id weight weight := by
  refine asks_isNumber.like_require hL "number" fun t => (like_skip_one hL).bind fun _ => ?_
  rw [show (t.view L.view).text = L.view.word t.text from rfl, hL.view.readReal]
  cases Number.readReal t.text with
  | ok x => exact like_pure x
  | error _ => exact like_reject hL (.malformed "real" _ t.span)

theorem like_datetimeUnit (hL : L.Lawful) : L.Like front id datetimeUnit datetimeUnit := by
  refine like_current_bind_of_eq hL (fun t ht => ?_) (like_rejectCurrent hL "date/time unit")
    (by rintro ⟨_, _, _⟩ (rfl | rfl) <;> rfl) (by rintro ⟨_, _, _⟩ (rfl | rfl) <;> rfl)
  rw [show (t.view L.view).kind = t.kind.view L.view from rfl, TokenKind.bareWord?_view hL.view]
  cases t.kind.bareWord?.bind DatetimeUnit.ofText? with
  | some unit => exact (like_skip_one hL).bind fun _ => like_pure unit
  | none => exact like_rejectCurrent hL _

theorem like_string (hL : L.Lawful) : L.Like front id Parser.string Parser.string := by
  refine like_current_bind_of_eq hL (fun t ht => ?_) (like_rejectCurrent hL "string literal")
    (by rintro ⟨_, _, _⟩ (rfl | rfl) <;> rfl) (by rintro ⟨_, _, _⟩ (rfl | rfl) <;> rfl)
  obtain ⟨kind, text, span⟩ := t
  cases kind with
  | string value => exact (like_skip_one hL).bind fun _ => like_pure value
  | _ => exact like_rejectCurrent hL _

theorem like_direction (hL : L.Lawful) : L.Like front id direction direction :=
  like_takeKeyword_bind hL .ASC (like_pure _) (like_takeKeyword_bind hL .DESC (like_pure _)
    (like_pure _))

theorem like_nullOrder (hL : L.Lawful) : L.Like front id nullOrder nullOrder :=
  like_takeKeyword_bind hL .NULLS
    (like_takeKeyword_bind hL .FIRST (like_pure _) (like_takeKeyword_bind hL .LAST (like_pure _)
      ((like_rejectCurrent hL (f := id) _).bind fun _ => like_pure _)))
    (like_pure _)

theorem like_quantifier (hL : L.Lawful) : L.Like front id quantifier quantifier :=
  like_takeKeyword_bind hL .ALL (like_pure _) (like_takeKeyword_bind hL .DISTINCT (like_pure _)
    (like_pure _))

theorem like_limit (hL : L.Lawful) : L.Like front (Limit.view L.view) limit limit := by
  refine (like_keyword hL .LIMIT).bind fun start => (like_count hL).bind fun first => ?_
  refine like_takeSymbol_bind hL (by decide) ?_ (like_takeKeyword_bind hL .OFFSET ?_ ?_)
  · exact (like_count hL).bind fun rows => like_spanFrom_bind hL start fun _ => rfl
  · exact (like_count hL).bind fun offset => like_spanFrom_bind hL start fun _ => rfl
  · exact like_spanFrom_bind hL start fun _ => rfl

/-! ## Fields -/

theorem like_field (hL : L.Lawful) : L.Like front (Field.view L.view) field field := by
  have hname {front : Bool} : L.Like front (Field.view L.view) (Field.name <$> qualifiedName)
      (Field.name <$> qualifiedName) := (like_qualifiedName hL).map fun _ => rfl
  refine like_current_bind_of_eq hL (fun t ht => ?_) hname
    (by rintro ⟨_, _, _⟩ (rfl | rfl) <;> rfl) (by rintro ⟨_, _, _⟩ (rfl | rfl) <;> rfl)
  obtain ⟨kind, text, span⟩ := t
  cases kind with
  | string value => exact (like_take hL).map fun _ => rfl
  | _ => exact hname

theorem like_weightedField (hL : L.Lawful) :
    L.Like front (WeightedField.view L.view) weightedField weightedField :=
  (like_field hL).bind fun _ => like_takeSymbol_bind hL (by decide)
    ((like_weight hL).map fun _ => rfl)
    (asks_isNumber.like_bind hL ((like_weight hL).map fun _ => rfl) (like_pure _))

theorem like_fieldList (hL : L.Lawful) :
    L.Like front (List.map (WeightedField.view L.view)) fieldList fieldList := by
  have hsteady : Steady weightedField := (steady_congruence.weightedField (b := 0)).1
  exact (like_symbol hL (by decide)).bind fun _ =>
    ((like_weightedField hL).commaSeparated hL _ hsteady hsteady).bind fun fields =>
      (like_symbol hL (by decide)).bind fun _ => like_pure fields

/-! ## Constants -/

/-- Both report a malformed literal, or refuse it. -/
theorem like_malformedLiteral (hL : L.Lawful) (kind : LiteralKind) (text : String)
    (fault : LiteralFault) (span : Span) :
    L.Like front (Literal.view L.view) (malformedLiteral kind text fault span)
      (malformedLiteral kind (L.view.literalText kind text) fault (L.view.span span)) :=
  fun _ _ hs _ => hL.malformedLiteral kind text fault span hs

/-- The value of a number depends on its text, which is seen as it is. -/
theorem like_numberLiteral (hL : L.Lawful) (kind : TokenKind) (text : String) (span : Span) :
    L.Like front (Literal.view L.view) (numberLiteral kind text span)
      (numberLiteral (kind.view L.view) (L.view.word text) (L.view.span span)) := by
  have hreal : L.Like front (Literal.view L.view)
      (numberLiteral .real text span)
      (numberLiteral .real (L.view.word text) (L.view.span span)) := by
    unfold numberLiteral
    rw [hL.view.readReal]
    cases Number.readReal text with
    | ok x => exact like_pure _
    | error fault => exact like_malformedLiteral hL .real text (.real fault) span
  cases kind with
  | integer =>
    unfold numberLiteral
    rw [hL.view.readSigned]
    cases Number.readSigned text with
    | ok n => exact like_pure _
    | error fault => exact like_malformedLiteral hL .integer text (.integer fault) span
  | _ => exact hreal

/-- A number behind its sign. -/
def numberBehind (start : Span) (negative : Bool) : Parser Constant := do
  let token ← current
  if !token.kind.isNumber then rejectCurrent "number"
  skip 1
  let span ← spanFrom start
  let text := if negative then "-" ++ token.text else token.text
  return ⟨← numberLiteral token.kind text span, span⟩

/-- A number with an optional sign, from `start` on. -/
def numberFrom (start : Span) : Parser Constant := do
  let negative ← takeSymbol .minus
  if !negative then
    let _ ← takeSymbol .plus
  numberBehind start negative

/-- A number is one with an optional sign from the token in front on. -/
theorem number_eq : number = current >>= fun t => numberFrom t.span := rfl

theorem like_numberBehind (hL : L.Lawful) (start : Span) (negative : Bool) :
    L.Like front (Constant.view L.view) (numberBehind start negative)
      (numberBehind (L.view.span start) negative) := by
  refine asks_isNumber.like_require hL "number" fun t => (like_skip_one hL).bind fun _ =>
    (like_spanFrom hL start).bind fun span => ?_
  have htext : (if negative then "-" ++ (t.view L.view).text else (t.view L.view).text) =
      L.view.word (if negative then "-" ++ t.text else t.text) := by
    cases negative with
    | true => exact (hL.view.minus t.text).symm
    | false => rfl
  rw [htext]
  exact (like_numberLiteral hL t.kind _ span).map fun _ => rfl

theorem like_numberFrom (hL : L.Lawful) (start : Span) :
    L.Like front (Constant.view L.view) (numberFrom start) (numberFrom (L.view.span start)) :=
  like_takeSymbol_bind hL (by decide) (like_numberBehind hL start true)
    (like_takeSymbol_bind hL (by decide) (like_numberBehind hL start false)
      (like_numberBehind hL start false))

/-- Where a comparison ends, there is no number. -/
theorem numberFrom_of_isEndKind (start : Span) {s : State} (h : IsEndKind s.cursor.current.kind) :
    numberFrom start s = .error (.rejected (.unexpected "number" s.cursor.current)) s := by
  have hne {sign : Symbol} (hsign : sign ≠ .semicolon) : s.cursor.current.kind ≠ .symbol sign := by
    obtain hkind | hkind := h
    · rw [hkind]
      nofun
    · rw [hkind]
      exact fun heq => hsign (TokenKind.symbol.inj heq).symm
  have hnumber : s.cursor.current.kind.isNumber = false := by
    obtain hkind | hkind := h <;> rw [hkind] <;> rfl
  unfold numberFrom
  rw [takeSymbol_bind_apply, if_neg (hne (by decide))]
  show (takeSymbol .plus >>= fun _ => numberBehind start false) s = _
  rw [takeSymbol_bind_apply, if_neg (hne (by decide))]
  unfold numberBehind
  rw [current_bind_apply, hnumber]
  rfl

/-- Where a number is missing, it does not matter that it would have started there. -/
theorem like_number (hL : L.Lawful) : L.Like front (Constant.view L.view) number number := by
  rw [number_eq]
  refine like_current_bind hL (fun t _ => like_numberFrom hL t.span) fun _ s s' hs hend hend' => ?_
  rw [numberFrom_of_isEndKind _ hend, numberFrom_of_isEndKind _ hend']
  exact .refused (hL.refused_matching hs (.unexpected "number" (hs.seen hL)))

/-- Dates and times hold nothing that a view changes. -/
theorem temporalKind_read_view {V : View} {library : Time.Library} {kind : TemporalKind}
    {text : String} {value : Literal} (h : kind.read library text = .ok value) :
    value.view V = value := by
  obtain ⟨_, rfl⟩ | ⟨_, rfl⟩ | ⟨_, rfl⟩ := TemporalKind.cases_of_read h
  all_goals rfl

/-- The library reads the same text for both, since it is the same library. -/
theorem like_temporalLiteral (hL : L.Lawful) (kind : TemporalKind) (text : String) (span : Span) :
    L.Like front (Literal.view L.view) (temporalLiteral kind text span)
      (temporalLiteral kind text (L.view.span span)) := by
  intro s s' hs hfront
  unfold temporalLiteral
  rw [get_bind_apply, get_bind_apply, ← hs.frame.library]
  cases hread : kind.read s.library text with
  | ok value => exact like_pure_of_eq (temporalKind_read_view hread) s s' hs hfront
  | error fault =>
    have hmalformed : L.Like front (Literal.view L.view)
        (malformedLiteral kind.literalKind text (.time fault) span)
        (malformedLiteral kind.literalKind (L.view.literalText kind.literalKind text) (.time fault)
          (L.view.span span)) := like_malformedLiteral hL _ _ _ _
    rw [show L.view.literalText kind.literalKind text = text by cases kind <;> rfl] at hmalformed
    exact hmalformed s s' hs hfront

theorem like_wordLiteral (hL : L.Lawful) (kind : TemporalKind) :
    L.Like true (Literal.view L.view) (wordLiteral kind) (wordLiteral kind) :=
  (like_take hL).bind fun start => (like_string hL).bind fun text =>
    (like_spanFrom hL start).bind fun span => like_temporalLiteral hL kind text span

theorem temporalKind_ofKind?_view (hV : L.view.Lawful) (k : TokenKind) :
    TemporalKind.ofKind? (k.view L.view) = TemporalKind.ofKind? k := by
  cases k <;> simp [TokenKind.view, TemporalKind.ofKind?, Text.sameWord, hV.upper]

theorem like_bracedLiteral (hL : L.Lawful) :
    L.Like front (Literal.view L.view) bracedLiteral bracedLiteral := by
  refine (like_symbol hL (by decide)).bind fun start => ?_
  refine like_current_bind_of_eq hL (fun t ht => ?_) (like_rejectCurrent hL "d, t or ts")
    (by rintro ⟨_, _, _⟩ (rfl | rfl) <;> rfl) (by rintro ⟨_, _, _⟩ (rfl | rfl) <;> rfl)
  rw [show (t.view L.view).kind = t.kind.view L.view from rfl, temporalKind_ofKind?_view hL.view]
  cases TemporalKind.ofKind? t.kind with
  | none => exact like_rejectCurrent hL _
  | some kind =>
    exact (like_skip_one hL).bind fun _ => (like_string hL).bind fun text =>
      (like_symbol hL (by decide)).bind fun _ => (like_spanFrom hL start).bind fun span =>
        like_temporalLiteral hL kind text span

theorem like_datetimeConstant (hL : L.Lawful) (name : DatetimeConstant) :
    L.Like true (Literal.view L.view) (datetimeConstant name) (datetimeConstant name) :=
  (like_skip_one hL).bind fun _ => like_takeSymbol_bind hL (by decide)
    ((like_symbol hL (by decide)).bind fun _ => like_pure _) (like_pure _)

theorem like_simpleLiteral (hL : L.Lawful) {value : Literal} (h : value.view L.view = value) :
    L.Like true (Literal.view L.view) (simpleLiteral value) (simpleLiteral value) :=
  (like_skip_one hL).bind fun _ => like_pure_of_eq h

/-! ## Parts of calls -/

/-- Both take the name of a call, the same as a word. -/
theorem like_callName (hL : L.Lawful) : L.Like true L.view.word callName callName :=
  like_current_bind hL (fun t _ => (like_skip_one hL).bind fun _ =>
    (like_symbol hL (by decide)).bind fun _ => like_pure t.text) nofun

theorem like_nestedAll (hL : L.Lawful) :
    L.Like true (CallShape.view L.view) nestedAll nestedAll :=
  (like_callName hL).bind fun _ => (like_qualifiedName hL).bind fun _ =>
    (like_symbol hL (by decide)).bind fun _ => (like_symbol hL (by decide)).bind fun _ =>
      (like_symbol hL (by decide)).bind fun _ => like_pure _

/-- An option is known by its word. -/
theorem like_optionName (hL : L.Lawful) (names : List String) (expected : String) :
    L.Like front L.view.word (optionName names expected) (optionName names expected) := by
  refine like_current_bind_of_eq hL (fun t ht => ?_) (like_rejectCurrent hL expected)
    (by rintro ⟨_, _, _⟩ (rfl | rfl) <;> rfl) (by rintro ⟨_, _, _⟩ (rfl | rfl) <;> rfl)
  obtain ⟨kind, text, span⟩ := t
  cases kind with
  | name name =>
    simp only [Token.view, TokenKind.view, hL.view.upper]
    split
    · exact (like_skip_one hL).bind fun _ => like_pure name
    · exact like_rejectCurrent hL _
  | _ => exact like_rejectCurrent hL _

theorem like_highlightStep (hL : L.Lawful) (options : List HighlightOption) :
    L.Like false (stepView (List.map (HighlightOption.view L.view))) (highlightStep options)
      (highlightStep (options.map (HighlightOption.view L.view))) :=
  like_takeSymbol_bind hL (by decide)
    ((like_optionName hL _ _).bind fun _ => (like_symbol hL (by decide)).bind fun _ =>
      (like_string hL).map fun _ => rfl)
    (like_pure (ForInStep.done options))

theorem like_highlightOptions (hL : L.Lawful) :
    L.Like front (List.map (HighlightOption.view L.view)) highlightOptions highlightOptions := by
  rw [highlightOptions_eq]
  have hloop : L.Like front (List.map (HighlightOption.view L.view)) (loop [] highlightStep)
      (loop (List.map (HighlightOption.view L.view) []) highlightStep) :=
    like_loop (like_highlightStep hL) Congruence.advances_highlightStep
      Congruence.advances_highlightStep []
  exact hloop.bind fun options => like_pure_of_eq List.map_reverse

theorem like_highlight (hL : L.Lawful) : L.Like true (CallShape.view L.view) highlight highlight :=
  (like_callName hL).bind fun _ => (like_field hL).bind fun _ =>
    (like_highlightOptions hL).bind fun _ => (like_symbol hL (by decide)).bind fun _ => like_pure _

/-- The type that a token names, if it is a word. -/
def typeNamed? (t : Token) : Option DataType :=
  match t.kind with
  | .name _ | .keyword _ => DataType.ofText? t.text
  | _ => none

/-- The type is taken, if the token names one. -/
def takeType : Option DataType → Parser DataType
  | some target => Parser.skip 1 >>= fun _ => pure target
  | none => rejectCurrent "type name"

/-- A type is known by its word. -/
theorem typeNamed?_view (hV : L.view.Lawful) (t : Token) :
    typeNamed? (t.view L.view) = typeNamed? t := by
  obtain ⟨kind, text, span⟩ := t
  have htype : DataType.ofText? (L.view.word text) = DataType.ofText? text := by
    unfold DataType.ofText? Text.findSpelling
    rw [hV.upper]
  cases kind <;> first | rfl | exact htype

theorem like_dataType (hL : L.Lawful) : L.Like front id dataType dataType := by
  refine like_current_bind_of_eq hL (fun t ht => ?_) (like_rejectCurrent hL "type name")
    (by rintro ⟨_, _, _⟩ (rfl | rfl) <;> rfl) (by rintro ⟨_, _, _⟩ (rfl | rfl) <;> rfl)
  show L.Like true id (takeType (typeNamed? t)) (takeType (typeNamed? (t.view L.view)))
  rw [typeNamed?_view hL.view]
  cases typeNamed? t with
  | some target => exact (like_skip_one hL).bind fun _ => like_pure target
  | none => exact like_rejectCurrent hL _

theorem like_formatTarget (hL : L.Lawful) : L.Like front id formatTarget formatTarget := by
  refine like_current_bind_of_eq hL (fun t ht => ?_)
    (like_rejectCurrent hL "DATE, DATETIME, TIME or TIMESTAMP")
    (by rintro ⟨_, _, _⟩ (rfl | rfl) <;> rfl) (by rintro ⟨_, _, _⟩ (rfl | rfl) <;> rfl)
  obtain ⟨kind, text, span⟩ := t
  cases kind with
  | keyword word =>
    cases word with
    | DATE | DATETIME | TIME | TIMESTAMP => exact (like_skip_one hL).bind fun _ => like_pure _
    | _ => exact like_rejectCurrent hL _
  | _ => exact like_rejectCurrent hL _

theorem like_singleUnit (hL : L.Lawful) : L.Like front id singleUnit singleUnit := by
  intro s s' hs hfront
  unfold singleUnit
  rw [current_bind_apply, current_bind_apply]
  have hseen := hs.seen hL
  have hlike : L.Like front id datetimeUnit datetimeUnit := like_datetimeUnit hL
  refine hlike.bind (fun unit => ?_) s s' hs hfront
  cases hunit : unit.isSingle with
  | true =>
    simp only [id, hunit, Bool.not_true, Bool.false_eq_true, if_false]
    exact like_pure unit
  | false =>
    simp only [id, hunit, Bool.not_false, if_true]
    exact fun _ _ ht _ =>
      .refused (hL.refused_matching ht (.unexpected "single date/time unit" hseen))

end SearchSql.Grammar.Likeness
