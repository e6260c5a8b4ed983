import SearchSql.Proofs.NumberLexemes
import SearchSql.Proofs.Placing
import SearchSql.Proofs.RuleRecording
import SearchSql.Time.Reading

/-!
# Numbers in a tree

A constant that is a number comes from a number token and the sign in front of it, if there is one, and
a constant that stands at such tokens is a number. As the tokens of a text are numerals
(`Token.isNumeral_tokenize`), an integer has its exact value or is out of the range, and a real number
without a value is not finite: no other reason is ever given (`parse_numbers`). A number of rows and the
boost of a field are refused for the same reasons only.
-/

set_option autoImplicit false

namespace SearchSql

open Number

/-- Whether a literal is a number, or would be one if it had a value. -/
def Literal.isNumber : Literal → Bool
  | .integer _ | .real _ | .malformed .integer _ _ | .malformed .real _ _ => true
  | _ => false

/-- The literal that digits denote behind a sign: the integer, if a signed word of 64 bits holds it. -/
def Literal.ofDigits (negative : Bool) (text : String) : Literal :=
  if signedValue negative text.toList < -signedBound then
    .malformed .integer (signedText negative text) (.integer .tooSmall)
  else if signedBound ≤ signedValue negative text.toList then
    .malformed .integer (signedText negative text) (.integer .tooLarge)
  else .integer (signedValue negative text.toList)

/-- The literals that a number token denotes behind a sign. -/
inductive Token.Denotes (negative : Bool) (t : Token) : Literal → Prop where
  | integer : t.kind = .integer → Denotes negative t (.ofDigits negative t.text)
  | real {mantissa : Nat} {exponent : Int} : t.kind = .real →
      readDecimal t.text.toList = some (mantissa, exponent) →
      (Binary64.ofDecimal negative mantissa exponent).isFinite = true →
      Denotes negative t (.real (Binary64.ofDecimal negative mantissa exponent))
  | unbounded {mantissa : Nat} {exponent : Int} : t.kind = .real →
      readDecimal t.text.toList = some (mantissa, exponent) →
      (Binary64.ofDecimal negative mantissa exponent).isFinite = false →
      Denotes negative t (.malformed .real (signedText negative t.text) (.real .outOfRange))

/-- The tokens in front of a number that make up its sign. -/
inductive Token.IsSign : Bool → List Token → Prop where
  | none : IsSign false []
  | plus {u : Token} : u.kind = .symbol .plus → IsSign false [u]
  | minus {u : Token} : u.kind = .symbol .minus → IsSign true [u]

/-- The constant covers the token `t` and the sign in front of it, if there is one. -/
def Constant.StandsAt (tokens : List Token) (negative : Bool) (t : Token) (c : Constant) : Prop :=
  ∃ sign, Token.IsSign negative sign ∧ sign ++ [t] <:+: tokens ∧
    c.span = (sign.head?.getD t).span.merge t.span

/-- The constant was read from the number token at which it stands. -/
def Constant.IsReadFrom (tokens : List Token) (c : Constant) : Prop :=
  ∃ negative t, c.StandsAt tokens negative t ∧ t.Denotes negative c.value

/-- Numbers are the constants that stand at number tokens, and each has the value of its token. -/
structure Constant.IsExact (tokens : List Token) (c : Constant) : Prop where
  source : c.value.isNumber = true → c.IsReadFrom tokens
  value {negative : Bool} {t : Token} : t.kind.isNumber = true → c.StandsAt tokens negative t →
    t.Denotes negative c.value

mutual

/-- The limits of a query and of those it selects from. -/
def Query.limits : Query → List Limit
  | ⟨_, _, relation, _, _, _, _, limit, _⟩ => limitsFrom relation ++ limit.toList

/-- The limits in a relation. -/
def Relation.limits : Relation → List Limit
  | .table _ _ => []
  | .subquery query _ _ => query.limits

/-- The limits in the relation behind `FROM`, if there is one. -/
def limitsFrom : Option Relation → List Limit
  | none => []
  | some relation => relation.limits

end

/-- The limits in a statement. -/
def Statement.limits : Statement → List Limit
  | .select query => query.limits
  | .showTables _ _ | .describe _ _ _ => []

/-- A number of rows is the value of an integer token, which an unsigned word of 64 bits holds. -/
def IsCountOf (tokens : List Token) (n : Nat) : Prop :=
  n < unsignedBound ∧ ∃ t ∈ tokens, t.kind = .integer ∧ digitsValue 0 t.text.toList = n

/-- The numbers of rows were read from tokens. -/
structure Limit.IsReadFrom (tokens : List Token) (l : Limit) : Prop where
  count : IsCountOf tokens l.count
  offset : ∀ n ∈ l.offset, IsCountOf tokens n

/-! ## Constants by their place -/

/-- What a number token denotes is a number. -/
theorem Token.Denotes.isNumber {negative : Bool} {t : Token} {value : Literal}
    (h : t.Denotes negative value) : t.kind.isNumber = true ∧ value.isNumber = true := by
  cases h with
  | integer hkind =>
    refine ⟨by rw [hkind]; rfl, ?_⟩
    unfold Literal.ofDigits
    split
    · rfl
    · split
      · rfl
      · rfl
  | real hkind _ _ => exact ⟨by rw [hkind]; rfl, rfl⟩
  | unbounded hkind _ _ => exact ⟨by rw [hkind]; rfl, rfl⟩

/-- A token that is covered together with two tokens of a run is one of the run. -/
theorem Token.Apart.mem_of_covered {front run back : List Token} {first last u : Token}
    (h : Apart (front ++ run ++ back)) (hfirst : first ∈ run) (hlast : last ∈ run)
    (hu : u ∈ front ++ run ++ back) (hpos : u.span.start < u.span.stop)
    (hstart : (first.span.merge last.span).start ≤ u.span.start)
    (hstop : u.span.stop ≤ (first.span.merge last.span).stop) : u ∈ run := by
  have hstart : min first.span.start last.span.start ≤ u.span.start := hstart
  have hstop : u.span.stop ≤ max first.span.stop last.span.stop := hstop
  obtain ⟨hleft, -, hback⟩ := List.pairwise_append.1 h
  have hfront := (List.pairwise_append.1 hleft).2.2
  rcases List.mem_append.1 hu with hmem | hmem
  · rcases List.mem_append.1 hmem with hmem | hmem
    · have hbefore := hfront u hmem first hfirst
      have hbefore' := hfront u hmem last hlast
      omega
    · exact hmem
  · have hbehind := hback first (List.mem_append_right front hfirst) u hmem
    have hbehind' := hback last (List.mem_append_right front hlast) u hmem
    omega

namespace Constant.StandsAt

variable {tokens : List Token} {negative negative' : Bool} {t t' u : Token} {c : Constant}
  (htokens : Token.Apart tokens)

include htokens

/-- The token at which a constant stands and the sign in front of it are the only ones it covers. -/
theorem eq_or_isSign (h : c.StandsAt tokens negative t) (hu : u ∈ tokens)
    (hpos : u.span.start < u.span.stop) (hstart : c.span.start ≤ u.span.start)
    (hstop : u.span.stop ≤ c.span.stop) :
    u = t ∨ u.kind = .symbol (if negative then .minus else .plus) := by
  obtain ⟨sign, hsign, ⟨front, back, rfl⟩, hspan⟩ := h
  rw [hspan] at hstart hstop
  have hlast : t ∈ sign ++ [t] := List.mem_append_right sign (List.mem_singleton.2 rfl)
  have hfirst : sign.head?.getD t ∈ sign ++ [t] := by
    cases sign with
    | nil => exact hlast
    | cons v rest => exact List.mem_cons_self
  have hmem := htokens.mem_of_covered hfirst hlast hu hpos hstart hstop
  cases hsign with
  | none => exact .inl (List.mem_singleton.1 hmem)
  | plus hkind =>
    rcases List.mem_cons.1 hmem with rfl | hmem
    · exact .inr hkind
    · exact .inl (List.mem_singleton.1 hmem)
  | minus hkind =>
    rcases List.mem_cons.1 hmem with rfl | hmem
    · exact .inr hkind
    · exact .inl (List.mem_singleton.1 hmem)

variable (hpos : ∀ u ∈ tokens, u.isEnd = false → u.span.start < u.span.stop)

include hpos

/-- A constant does not stand at two number tokens, and a minus sign is in front of both or neither. -/
theorem eq_and_minus (h : c.StandsAt tokens negative t) (h' : c.StandsAt tokens negative' t')
    (hnumber : t.kind.isNumber = true) (hnumber' : t'.kind.isNumber = true) :
    t = t' ∧ (negative = true → negative' = true) := by
  have hne {u : Token} (hu : u.kind.isNumber = true) (sign : Symbol) : u.kind ≠ .symbol sign := by
    intro hkind
    rw [hkind] at hu
    cases hu
  obtain ⟨sign, hsign, hinfix, hspan⟩ := h
  have hmem {u : Token} (hu : u ∈ sign ++ [t]) : u ∈ tokens := hinfix.subset hu
  constructor
  · have ht : t ∈ tokens := hmem (List.mem_append_right sign (List.mem_singleton.2 rfl))
    have hplace := h'.eq_or_isSign htokens ht (hpos t ht (Token.isEnd_of_isNumber hnumber))
      (by rw [hspan]; exact Nat.min_le_right _ _) (by rw [hspan]; exact Nat.le_max_right _ _)
    exact hplace.resolve_right (hne hnumber _)
  · rintro rfl
    cases hsign with
    | @minus u hkind =>
      have hu : u ∈ tokens := hmem List.mem_cons_self
      have hplace := h'.eq_or_isSign htokens hu (hpos u hu (Grammar.isEnd_of_symbol hkind))
        (by rw [hspan]; exact Nat.min_le_left _ _) (by rw [hspan]; exact Nat.le_max_left _ _)
      rcases hplace with rfl | hplace
      · exact absurd hkind (hne hnumber' _)
      · cases negative' with
        | true => rfl
        | false => exact absurd (hkind.symm.trans hplace) nofun

/-- A constant stands at one number token only, behind one sign. -/
theorem unique (h : c.StandsAt tokens negative t) (h' : c.StandsAt tokens negative' t')
    (hnumber : t.kind.isNumber = true) (hnumber' : t'.kind.isNumber = true) :
    negative = negative' ∧ t = t' := by
  obtain ⟨ht, hminus⟩ := h.eq_and_minus htokens hpos h' hnumber hnumber'
  obtain ⟨-, hminus'⟩ := h'.eq_and_minus htokens hpos h hnumber' hnumber
  exact ⟨Bool.eq_iff_iff.2 ⟨hminus, hminus'⟩, ht⟩

/-- A constant that starts at a token of another kind stands at no number. -/
theorem span_ne (h : c.StandsAt tokens negative t) (hnumber : t.kind.isNumber = true)
    (hu : u ∈ tokens) (hstarts : u.kind.startsLiteral = true) (stop : Span) :
    c.span ≠ u.span.merge stop := by
  intro hspan
  have hend : u.isEnd = false := by
    apply Grammar.isEnd_eq_false
    intro hkind
    rw [hkind] at hstarts
    cases hstarts
  have hplace := h.eq_or_isSign htokens hu (hpos u hu hend)
    (by rw [hspan]; exact Nat.min_le_left _ _) (by rw [hspan]; exact Nat.le_max_left _ _)
  rcases hplace with rfl | hkind
  · cases hkind : u.kind with
    | integer | real =>
      rw [hkind] at hstarts
      cases hstarts
    | _ =>
      rw [hkind] at hnumber
      cases hnumber
  · rw [hkind] at hstarts
    cases negative with
    | true => cases hstarts
    | false => cases hstarts

end Constant.StandsAt

namespace Grammar

open SearchSql.Grammar.Parser

variable {tokens : List Token} {D : List Diagnostic} {s t : State}

/-- The literal of a number token is a number, and it denotes what the token stands for behind the
sign. -/
theorem numberLiteral_denotes {negative : Bool} {token : Token} {span : Span} {value : Literal}
    (hnumeral : token.IsNumeral) (hnumber : token.kind.isNumber = true)
    (h : numberLiteral token.kind (signedText negative token.text) span s = .ok value t) :
    value.isNumber = true ∧ token.Denotes negative value := by
  -- A number token is an integer, judged by the bounds of a signed word, or a real number, judged
  -- by being finite.
  cases hkind : token.kind with
  | integer =>
    have hvalue : value = .ofDigits negative token.text := by
      rw [hkind] at h
      simp only [numberLiteral] at h
      rw [readSigned_digits negative (hnumeral.integer hkind)] at h
      unfold Literal.ofDigits
      by_cases hlow : signedValue negative token.text.toList < -signedBound
      · rw [if_pos hlow] at h ⊢
        exact (malformedLiteral_eq_ok h).2.1
      · rw [if_neg hlow] at h ⊢
        by_cases hhigh : signedBound ≤ signedValue negative token.text.toList
        · rw [if_pos hhigh] at h ⊢
          exact (malformedLiteral_eq_ok h).2.1
        · rw [if_neg hhigh] at h ⊢
          exact (pure_eq_ok_iff.1 h).1.symm
    subst hvalue
    refine ⟨?_, .integer hkind⟩
    unfold Literal.ofDigits
    split
    · rfl
    · split <;> rfl
  | real =>
    obtain ⟨mantissa, exponent, hdecimal, hread⟩ := readReal_decimal negative (hnumeral.real hkind)
    rw [hkind] at h
    simp only [numberLiteral, hread] at h
    cases hfinite : (Binary64.ofDecimal negative mantissa exponent).isFinite with
    | true =>
      rw [hfinite] at h
      obtain ⟨rfl, -⟩ := pure_eq_ok_iff.1 h
      exact ⟨rfl, .real hkind hdecimal hfinite⟩
    | false =>
      rw [hfinite] at h
      obtain ⟨-, rfl, -⟩ := malformedLiteral_eq_ok h
      exact ⟨rfl, .unbounded hkind hdecimal hfinite⟩
  | _ =>
    rw [hkind] at hnumber
    cases hnumber

/-- What stands behind the sign. -/
theorem numberBehind_denotes {start : Span} {negative : Bool} {c : Constant}
    (hnumeral : s.cursor.current.IsNumeral)
    (h : Likeness.numberBehind start negative s = .ok c t) :
    s.cursor.current.isEnd = false ∧ c.span = start.merge s.cursor.current.span ∧
      c.value.isNumber = true ∧ s.cursor.current.Denotes negative c.value := by
  unfold Likeness.numberBehind at h
  rw [current_bind_apply] at h
  dsimp only at h
  split at h
  · obtain ⟨_, _, hreject, -⟩ := bind_eq_ok_iff.1 h
    exact absurd hreject rejectCurrent_ne_ok
  · next hnumber =>
    have hnumber : s.cursor.current.kind.isNumber = true := by simpa using hnumber
    have hend := Token.isEnd_of_isNumber hnumber
    rw [skip_bind_apply, spanFrom_bind_apply] at h
    obtain ⟨value, u, hvalue, hrest⟩ := bind_eq_ok_iff.1 h
    obtain ⟨rfl, rfl⟩ := pure_eq_ok_iff.1 hrest
    have hspan : (s.skip 1).cursor.previousSpan = s.cursor.current.span :=
      Cursor.previousSpan_skip_one hend
    refine ⟨hend, congrArg start.merge hspan, ?_⟩
    exact numberLiteral_denotes hnumeral hnumber hvalue

/-- The tokens under the cursor and behind it are next to one another. -/
theorem Cursor.infix_of_current {c : Cursor} (hend : c.current.isEnd = false) :
    [c.current] <:+: c.allTokens := by
  refine ⟨c.passed.reverse, (c.skip 1).ahead ++ [c.closing], ?_⟩
  rw [Cursor.allTokens, ahead_eq_cons hend]
  simp

/-- What is read as a number is one, and it was read from the tokens that it covers. -/
theorem number_isReadFrom {c : Constant} (hnumerals : ∀ t ∈ s.cursor.allTokens, t.IsNumeral)
    (h : number s = .ok c t) : c.value.isNumber = true ∧ c.IsReadFrom s.cursor.allTokens := by
  -- A sign is passed, and the number is behind it.
  have hsigned {negative : Bool} {sign : Symbol} (hkind : s.cursor.current.kind = .symbol sign)
      (hsign : Token.IsSign negative [s.cursor.current])
      (h : Likeness.numberBehind s.cursor.current.span negative (s.skip 1) = .ok c t) :
      c.value.isNumber = true ∧ c.IsReadFrom s.cursor.allTokens := by
    have hnumeral : (s.skip 1).cursor.current.IsNumeral := by
      apply hnumerals
      rw [← Cursor.allTokens_skip 1]
      exact (s.skip 1).cursor.current_mem_allTokens
    obtain ⟨hend, hspan, hnumber, hdenotes⟩ := numberBehind_denotes hnumeral h
    refine ⟨hnumber, negative, (s.skip 1).cursor.current,
      ⟨[s.cursor.current], hsign, ?_, hspan⟩, hdenotes⟩
    refine ⟨s.cursor.passed.reverse, ((s.skip 1).cursor.skip 1).ahead ++ [s.cursor.closing], ?_⟩
    have hahead : s.cursor.ahead = s.cursor.current :: (s.skip 1).cursor.ahead :=
      ahead_eq_cons (isEnd_of_symbol hkind)
    rw [Cursor.allTokens, hahead, ahead_eq_cons hend]
    simp
  rw [Likeness.number_eq, current_bind_apply] at h
  unfold Likeness.numberFrom at h
  rw [takeSymbol_bind_apply] at h
  split at h
  · next hkind => exact hsigned hkind (.minus hkind) h
  · change (takeSymbol .plus >>= fun _ => Likeness.numberBehind _ false) s = _ at h
    rw [takeSymbol_bind_apply] at h
    split at h
    · next hkind => exact hsigned hkind (.plus hkind) h
    · have hnumeral := hnumerals _ s.cursor.current_mem_allTokens
      obtain ⟨hend, hspan, hnumber, hdenotes⟩ := numberBehind_denotes hnumeral h
      exact ⟨hnumber, false, s.cursor.current,
        ⟨[], .none, Cursor.infix_of_current hend, hspan⟩, hdenotes⟩

/-- A date or time is no number. -/
theorem isNumber_temporalLiteral (kind : TemporalKind) (text : String) (span : Span) :
    Yields (fun value => value.isNumber = false) (temporalLiteral kind text span) := by
  refine yields_bind fun s => ?_
  split
  · next value hvalue =>
    apply yields_pure
    obtain ⟨_, rfl⟩ | ⟨_, rfl⟩ | ⟨_, rfl⟩ := TemporalKind.cases_of_read hvalue
    all_goals rfl
  · refine yields_bind fun _ => yields_pure ?_
    cases kind <;> rfl

/-- What stands behind a word for a date or time is no number. -/
theorem isNumber_wordLiteral (kind : TemporalKind) :
    Yields (fun value => value.isNumber = false) (wordLiteral kind) :=
  yields_bind fun _ => yields_bind fun _ => yields_bind fun _ => isNumber_temporalLiteral _ _ _

/-- A date or time in braces is no number. -/
theorem isNumber_bracedLiteral : Yields (fun value => value.isNumber = false) bracedLiteral := by
  refine yields_bind fun _ => yields_bind fun t => ?_
  split
  · exact yields_bind fun _ => yields_bind fun _ => yields_bind fun _ => yields_bind fun _ =>
      isNumber_temporalLiteral _ _ _
  · exact yields_rejectCurrent _

section

variable (htokens : Token.Apart tokens)
  (hpos : ∀ u ∈ tokens, u.isEnd = false → u.span.start < u.span.stop)

include htokens hpos

/-- What is read as a number has the value of the tokens at which it stands. -/
theorem isExact_number {c : Constant} (hs : s.IsReporting tokens [])
    (hnumerals : ∀ t ∈ tokens, t.IsNumeral) (heq : number s = .ok c t) : c.IsExact tokens := by
  have hall : s.cursor.allTokens = tokens := hs.ordered.allTokens
  rw [← hall] at hnumerals
  obtain ⟨-, hread⟩ := number_isReadFrom hnumerals heq
  rw [hall] at hread
  refine ⟨fun _ => hread, fun {negative t} hnumber hplace => ?_⟩
  obtain ⟨negative', t', hplace', hdenotes⟩ := hread
  obtain ⟨rfl, rfl⟩ := hplace.unique htokens hpos hplace' hnumber hdenotes.isNumber.1
  exact hdenotes

/-- What starts at another token is no number, and it stands at none. -/
theorem isExact_literal {value : Literal} (hs : s.IsReporting tokens [])
    (hstarts : s.cursor.current.kind.startsLiteral = true) (hvalue : value.isNumber = false)
    (stop : Span) : Constant.IsExact tokens ⟨value, s.cursor.current.span.merge stop⟩ where
  source hnumber := absurd (hvalue.symm.trans hnumber) nofun
  value {negative t} hnumber hplace := by
    have hmem : s.cursor.current ∈ tokens :=
      hs.ordered.allTokens ▸ s.cursor.current_mem_allTokens
    exact absurd rfl (hplace.span_ne htokens hpos hnumber hmem hstarts stop)

/-- Where constants are read, those that are numbers are those that stand at numerals. -/
theorem number_leaves (hnumerals : ∀ t ∈ tokens, t.IsNumeral) :
    Leaves tokens D (Constant.IsExact tokens) where
  unfailing {s value} stop hs hstarts hvalue := by
    refine isExact_literal htokens hpos hs hstarts ?_ stop
    cases value with
    | string | boolean | null | interval | datetime => rfl
    | _ => cases hvalue
  number hs heq _ := isExact_number htokens hpos hs hnumerals heq
  word {s t kind value} hs hstarts _ heq _ :=
    isExact_literal htokens hpos hs hstarts (isNumber_wordLiteral kind s t value heq) _
  braced {s t value} hs heq _ := by
    refine isExact_literal htokens hpos hs ?_ (isNumber_bracedLiteral s t value heq) _
    obtain ⟨_, _, hbrace, -⟩ := bind_eq_ok_iff.1 heq
    rw [(symbol_eq_ok_iff.1 hbrace).1]
    rfl

end

/-! ## Numbers of rows and boosts -/

/-- A number of rows is the value of the integer token under the cursor. If an unsigned word does
not hold it, the token is a malformed literal. -/
theorem count_apply (hnumeral : s.cursor.current.IsNumeral)
    (hkind : s.cursor.current.kind = .integer) :
    count s =
      if digitsValue 0 s.cursor.current.text.toList < unsignedBound then
        .ok (digitsValue 0 s.cursor.current.text.toList) (s.skip 1)
      else .error (.rejected (.malformed "integer" IntegerFault.tooLarge.message
        s.cursor.current.span)) (s.skip 1) := by
  unfold Parser.count
  rw [current_bind_apply]
  dsimp only
  rw [if_neg (by simp [hkind]), skip_bind_apply, readUnsigned_digits (hnumeral.integer hkind)]
  by_cases hlt : digitsValue 0 s.cursor.current.text.toList < unsignedBound
  · rw [if_pos hlt, if_pos hlt]
    rfl
  · rw [if_neg hlt, if_neg hlt]
    rfl

/-- A number of rows that is read is the value of an integer token of the text. -/
theorem isCountOf_count {n : Nat} (hnumeral : s.cursor.current.IsNumeral) (h : count s = .ok n t) :
    IsCountOf s.cursor.allTokens n := by
  by_cases hkind : s.cursor.current.kind = .integer
  · rw [count_apply hnumeral hkind] at h
    split at h
    · next hlt =>
      obtain ⟨rfl, -⟩ := EStateM.Result.ok.inj h
      exact ⟨hlt, _, s.cursor.current_mem_allTokens, hkind, rfl⟩
    · cases h
  · unfold Parser.count at h
    rw [current_bind_apply] at h
    dsimp only at h
    rw [if_pos (by simpa using hkind)] at h
    obtain ⟨_, _, hreject, -⟩ := bind_eq_ok_iff.1 h
    exact absurd hreject rejectCurrent_ne_ok

/-- The weight of a field is the real number nearest to the decimal fraction under the cursor. If
that is not finite, the token is a malformed literal. -/
theorem weight_apply (hnumeral : s.cursor.current.IsNumeral)
    (hnumber : s.cursor.current.kind.isNumber = true) :
    ∃ mantissa exponent, readDecimal s.cursor.current.text.toList = some (mantissa, exponent) ∧
      weight s =
        if (Binary64.ofDecimal false mantissa exponent).isFinite then
          .ok (Binary64.ofDecimal false mantissa exponent) (s.skip 1)
        else .error (.rejected (.malformed "real" RealFault.outOfRange.message
          s.cursor.current.span)) (s.skip 1) := by
  have hdecimal : IsDecimal s.cursor.current.text.toList := by
    cases hkind : s.cursor.current.kind with
    | integer => exact IsDigits.isDecimal (hnumeral.integer hkind)
    | real => exact hnumeral.real hkind
    | _ =>
      rw [hkind] at hnumber
      cases hnumber
  obtain ⟨mantissa, exponent, hread, hreal⟩ := readReal_decimal false hdecimal
  refine ⟨mantissa, exponent, hread, ?_⟩
  have hreal : readReal s.cursor.current.text = _ := hreal
  unfold weight
  rw [current_bind_apply]
  dsimp only
  rw [if_neg (by simp [hnumber]), skip_bind_apply, hreal]
  cases (Binary64.ofDecimal false mantissa exponent).isFinite <;> rfl

section

variable (htokens : Token.InOrder tokens) (hnumerals : ∀ t ∈ tokens, t.IsNumeral)

include htokens hnumerals

/-- Every number of rows that is read was counted from a token of the text. -/
theorem records_count : Records tokens D (IsCountOf tokens) count := by
  intro s t n hs heq
  have hall : s.cursor.allTokens = tokens := hs.ordered.allTokens
  refine ⟨(records_plain (D := D) htokens (·.count) s t n hs heq).1, fun _ => ?_⟩
  rw [← hall]
  exact isCountOf_count (hnumerals _ (hall ▸ s.cursor.current_mem_allTokens)) heq

/-- The numbers of rows in a limit were read from tokens of the text. -/
theorem records_limit : Records tokens D (Limit.IsReadFrom tokens) limit := by
  have hcount := records_count (D := D) htokens hnumerals
  refine records_behind htokens (·.keyword .LIMIT) fun start => hcount.bind fun first =>
    records_behind htokens (·.takeSymbol .comma) fun comma => ?_
  cases comma with
  | true =>
    refine hcount.bind fun rows => records_spanFrom_bind start fun _ => ?_
    exact records_pure fun hrows hfirst => ⟨hrows, by rintro n ⟨⟩; exact hfirst⟩
  | false =>
    refine records_behind htokens (·.takeKeyword .OFFSET) fun word => ?_
    cases word with
    | true =>
      refine hcount.bind fun offset => records_spanFrom_bind start fun _ => ?_
      exact records_pure fun hoffset hfirst => ⟨hfirst, by rintro n ⟨⟩; exact hoffset⟩
    | false => exact records_spanFrom_bind start fun _ => records_pure fun hfirst => ⟨hfirst, nofun⟩

/-- A query holds its own limit and those of its relation. -/
theorem limits_queryRule {fuel : Nat}
    (hrelation : Records tokens D (fun r => ∀ l ∈ r.limits, l.IsReadFrom tokens)
      (derive fuel .relation)) :
    Records tokens D (fun q => ∀ l ∈ q.limits, l.IsReadFrom tokens) (queryRule (derive fuel)) := by
  have hmeets {α : Type} (n : Nonterminal α) {C : Contract} (hC : C.Lawful) :
      C.Meets (derive fuel n) := hC.derive fuel n
  refine records_behind htokens (·.keyword .SELECT) fun start =>
    records_behind htokens (·.quantifier) fun _ =>
      records_behind htokens (fun hC => (hmeets .selectItems hC).recover hC) fun items =>
        records_behind htokens (·.clauseEnd) fun _ =>
          records_atKeyword_bind .FROM fun hasRelation => ?_
  refine (hrelation.clause htokens (fun _ => hmeets .relation (reporting_lawful htokens))
    hasRelation .FROM).bind fun relation => ?_
  refine records_behind htokens (fun hC => (hmeets _ hC).clause hC _ _) fun _ =>
    records_behind htokens (fun hC => (hmeets _ hC).clause hC _ _) fun _ =>
      records_behind htokens (fun hC => (hmeets _ hC).clause hC _ _) fun _ =>
        records_behind htokens (fun hC => (hmeets _ hC).clause hC _ _) fun _ => ?_
  have hlimit : Records tokens D (fun found => ∀ l ∈ found, Limit.IsReadFrom tokens l)
      limitClause := by
    refine records_atKeyword_bind .LIMIT fun here => ?_
    split
    · exact (records_limit htokens hnumerals).recover htokens fun _ =>
        (reporting_lawful htokens).limit
    · exact records_pure nofun
  refine hlimit.bind fun limit => records_spanFrom_bind start fun span =>
    records_pure fun hl hr => ?_
  intro l hmem
  rcases List.mem_append.1 hmem with hmem | hmem
  · cases relation with
    | none => cases hmem
    | some r => exact hr r rfl l hmem
  · exact hl l (Option.mem_toList.1 hmem)

omit hnumerals in
/-- A relation holds the limits of its subquery. -/
theorem limits_relationRule {fuel : Nat}
    (hquery : Records tokens D (fun q => ∀ l ∈ q.limits, l.IsReadFrom tokens)
      (derive fuel .query)) :
    Records tokens D (fun r => ∀ l ∈ r.limits, l.IsReadFrom tokens)
      (relationRule (derive fuel)) := by
  refine records_behind htokens (·.keyword .FROM) fun _ => records_atSymbol_bind .leftParen
    fun here => ?_
  split
  · refine records_behind htokens (·.take) fun start => hquery.subquery.nest.bind fun q => ?_
    exact records_behind htokens (·.symbol .rightParen) fun _ =>
      records_behind htokens (·.takeKeyword .AS) fun _ => records_behind htokens (·.ident)
        fun _ => records_spanFrom_bind start fun _ => records_pure fun hq => hq
  · exact records_behind htokens (·.qualifiedName) fun _ =>
      records_behind htokens (·.optionalAlias) fun _ => records_pure nofun

/-- Only queries and what they select from hold limits. All else is read as before. -/
theorem limits_derive (fuel : Nat) :
    Records tokens D (fun q => ∀ l ∈ q.limits, l.IsReadFrom tokens) (derive fuel .query) ∧
      Records tokens D (fun r => ∀ l ∈ r.limits, l.IsReadFrom tokens) (derive fuel .relation) := by
  induction fuel with
  | zero => exact ⟨fun _ _ _ _ heq => absurd heq nofun, fun _ _ _ _ heq => absurd heq nofun⟩
  | succ fuel ih =>
    obtain ⟨hquery, hrelation⟩ := ih
    exact ⟨limits_queryRule htokens hnumerals hrelation, limits_relationRule htokens hquery⟩

end

/-- In what a parse gives, numbers come from numerals. -/
theorem numbers_runRoot [Time.Library] {settings : Settings} {found : Option Statement} {t : State}
    {last : Token} (hapart : Token.Apart tokens) (hnumerals : ∀ t ∈ tokens, t.IsNumeral)
    (hlast : tokens.getLast? = some last) (hend : last.isEnd = true)
    (heq : runRoot tokens settings = .ok found t) :
    ∀ statement ∈ found, (∀ c ∈ statement.constants, c.IsExact tokens) ∧
      ∀ l ∈ statement.limits, l.IsReadFrom tokens := by
  have htokens := hapart.inOrder
  have hpos : ∀ u ∈ tokens, u.isEnd = false → u.span.start < u.span.stop :=
    fun u hu hmore => hapart.start_lt_stop hlast hend hu hmore
  have hlimits : Records tokens t.diagnostics
      (fun statement => ∀ l ∈ statement.limits, l.IsReadFrom tokens)
      (statementRule (derive (fuelFor settings))) := by
    refine records_current_bind fun u => ?_
    dsimp only
    split
    · exact (limits_derive htokens hnumerals _).1.bind fun _ => records_pure fun hq => hq
    · refine records_yields htokens (·.showTables) ?_
      exact yields_bind fun _ => yields_bind fun _ => yields_bind fun _ => yields_bind fun _ =>
        yields_pure nofun
    · refine records_yields htokens (·.describe) ?_
      exact yields_bind fun _ => yields_bind fun _ => yields_bind fun _ => yields_bind fun _ =>
        yields_bind fun _ => yields_pure nofun
    · exact records_reject _
  intro statement hstatement
  constructor
  · have hleaves := number_leaves (D := t.diagnostics) hapart hpos hnumerals
    exact allSatisfy_runRoot htokens hlast hend heq hleaves statement hstatement
  · exact satisfies_runRoot htokens hlast hend heq hlimits statement hstatement

end Grammar

open Grammar

/-- A number without a value is out of the range, and no other reason is given for it. -/
theorem Constant.IsReadFrom.message {tokens : List Token} {c : Constant} (h : c.IsReadFrom tokens)
    {kind : LiteralKind} {text : String} {fault : LiteralFault}
    (hvalue : c.value = .malformed kind text fault) :
    (kind = .integer ∧ (fault.message = "number too small to fit in target type" ∨
      fault.message = "number too large to fit in target type")) ∨
      (kind = .real ∧ fault.message = "value out of range") := by
  obtain ⟨negative, t, -, hdenotes⟩ := h
  generalize c.value = value at hdenotes hvalue
  cases hdenotes with
  | integer =>
    left
    unfold Literal.ofDigits at hvalue
    split at hvalue
    · cases hvalue
      exact ⟨rfl, .inl rfl⟩
    · split at hvalue
      · cases hvalue
        exact ⟨rfl, .inr rfl⟩
      · cases hvalue
  | real => cases hvalue
  | unbounded =>
    cases hvalue
    exact .inr ⟨rfl, rfl⟩

/-- The tokens of a text are numerals, and what the parser makes of them is exact: the constants that stand
at a number token are those that are numbers, an integer has the value of its digits or is out of the
range, as is a number of rows, and a real number is one that its text denotes or is not finite. -/
theorem parse_numbers [Time.Library] (text : String) (settings : Settings) :
    (∀ t ∈ Token.tokenize text, (t.kind = .integer → IsDigits t.text.toList) ∧
      (t.kind = .real → IsDecimal t.text.toList)) ∧
      (∀ statement, (parse text settings).statement = some statement ∨
          parseStrict text settings = .ok statement →
        (∀ c ∈ statement.constants,
          (∀ negative t, t.kind.isNumber = true → c.StandsAt (Token.tokenize text) negative t →
            c.value.isNumber = true ∧ t.Denotes negative c.value) ∧
          (c.value.isNumber = true → c.IsReadFrom (Token.tokenize text) ∧
            ∀ kind literal fault, c.value = .malformed kind literal fault →
              (kind = .integer ∧ (fault.message = "number too small to fit in target type" ∨
                fault.message = "number too large to fit in target type")) ∨
                (kind = .real ∧ fault.message = "value out of range"))) ∧
          ∀ l ∈ statement.limits, l.IsReadFrom (Token.tokenize text)) ∧
        ∀ s : State, s.cursor.allTokens = Token.tokenize text →
          (∀ c t, Parser.number s = .ok c t →
            c.value.isNumber = true ∧ c.IsReadFrom (Token.tokenize text)) ∧
          (s.cursor.current.kind = .integer → Parser.count s =
            if digitsValue 0 s.cursor.current.text.toList < unsignedBound then
              .ok (digitsValue 0 s.cursor.current.text.toList) (s.skip 1)
            else .error (.rejected (.malformed "integer" "number too large to fit in target type"
              s.cursor.current.span)) (s.skip 1)) ∧
            (s.cursor.current.kind.isNumber = true → ∃ mantissa exponent,
              readDecimal s.cursor.current.text.toList = some (mantissa, exponent) ∧
                Parser.weight s =
                  if (Binary64.ofDecimal false mantissa exponent).isFinite then
                    .ok (Binary64.ofDecimal false mantissa exponent) (s.skip 1)
                  else .error (.rejected (.malformed "real" "value out of range"
                    s.cursor.current.span)) (s.skip 1)) := by
  have hapart := Token.apart_tokenize text
  have hlast := (Token.tokenize_tiles text).1
  have hnumerals := Token.isNumeral_tokenize text
  refine ⟨fun t ht => ⟨(hnumerals t ht).integer, (hnumerals t ht).real⟩, ?_, ?_⟩
  · intro statement hstatement
    -- Both parses are runs over the tokens of the text.
    obtain ⟨settings', t, hrun⟩ :
        ∃ settings' t, runRoot (Token.tokenize text) settings' = .ok (some statement) t := by
      rcases hstatement with hparse | hstrict
      · exact ⟨_, parseTokens_statement_eq_some.1 hparse⟩
      · exact ⟨_, parseTokensStrict_eq_ok.1 hstrict⟩
    obtain ⟨hconstants, hlimits⟩ :=
      numbers_runRoot hapart hnumerals hlast rfl hrun statement rfl
    refine ⟨fun c hc => ⟨fun negative t hkind hplace => ?_, fun hnumber => ?_⟩, hlimits⟩
    · have hdenotes := (hconstants c hc).value hkind hplace
      exact ⟨hdenotes.isNumber.2, hdenotes⟩
    · have hread := (hconstants c hc).source hnumber
      exact ⟨hread, fun kind literal fault hvalue => hread.message hvalue⟩
  · intro s hall
    rw [← hall] at hnumerals ⊢
    have hnumeral := hnumerals _ s.cursor.current_mem_allTokens
    exact ⟨fun c t hread => number_isReadFrom hnumerals hread, count_apply hnumeral,
      weight_apply hnumeral⟩

/-- The least integer is read, one beyond the greatest is out of the range, and so is a number of rows
that is too large by one. -/
theorem parse_numbers_bounds :
    (∃ statement, (parse "SELECT -9223372036854775808" Settings.standard).statement = some statement ∧
      ∃ c ∈ statement.constants, ∃ t, t.kind.isNumber = true ∧
        c.StandsAt (Token.tokenize "SELECT -9223372036854775808") true t ∧
          c.value = .integer (-9223372036854775808)) ∧
      (∃ statement, (parse "SELECT 9223372036854775808" Settings.standard).statement = some statement ∧
        ∃ c ∈ statement.constants, ∃ fault,
          c.value = .malformed .integer "9223372036854775808" fault ∧
            c.IsReadFrom (Token.tokenize "SELECT 9223372036854775808") ∧
              (fault.message = "number too small to fit in target type" ∨
                fault.message = "number too large to fit in target type")) ∧
      Parser.count (State.ofTokens (Token.tokenize "18446744073709551616") Settings.standard) =
        .error (.rejected (.malformed "integer" "number too large to fit in target type" ⟨0, 20⟩))
          ((State.ofTokens (Token.tokenize "18446744073709551616") Settings.standard).skip 1) := by
  refine ⟨?_, ?_, ?_⟩
  · have hparse : ((parse "SELECT -9223372036854775808" Settings.standard).statement.any
        fun statement => statement.constants.any fun c => c.span = ⟨7, 27⟩) = true := by
      decide +kernel
    obtain ⟨statement, hstatement, hany⟩ := (Option.any_eq_true _ _).1 hparse
    obtain ⟨c, hc, hspan⟩ := List.any_eq_true.1 hany
    have hplace : c.StandsAt (Token.tokenize "SELECT -9223372036854775808") true
        ⟨.integer, "9223372036854775808", ⟨8, 27⟩⟩ :=
      ⟨[⟨.symbol .minus, "-", ⟨7, 8⟩⟩], .minus rfl,
        ⟨[⟨.keyword .SELECT, "SELECT", ⟨0, 6⟩⟩], [⟨.endOfInput, "", ⟨27, 27⟩⟩], by decide +kernel⟩,
        of_decide_eq_true hspan⟩
    -- That the constant is a number with this value is what the theorem says of its token.
    obtain ⟨-, hdenotes⟩ := (((parse_numbers "SELECT -9223372036854775808" Settings.standard).2.1
      statement (.inl hstatement)).1 c hc).1 true _ rfl hplace
    refine ⟨statement, hstatement, c, hc, _, rfl, hplace, ?_⟩
    generalize c.value = value at hdenotes ⊢
    cases hdenotes with
    | integer _ =>
      have hvalue : signedValue true "9223372036854775808".toList = -9223372036854775808 := by
        decide +kernel
      unfold Literal.ofDigits
      rw [hvalue]
      rfl
    | real hkind => cases hkind
    | unbounded hkind => cases hkind
  · have hparse : ((parse "SELECT 9223372036854775808" Settings.standard).statement.any
        fun statement => statement.constants.any fun c =>
          c.value.malformed?.any fun m => m.1 = .integer ∧ m.2.1 = "9223372036854775808") = true := by
      decide +kernel
    obtain ⟨statement, hstatement, hany⟩ := (Option.any_eq_true _ _).1 hparse
    obtain ⟨c, hc, hmalformed⟩ := List.any_eq_true.1 hany
    obtain ⟨⟨kind, literal, fault⟩, hvalue, hkind⟩ := (Option.any_eq_true _ _).1 hmalformed
    obtain ⟨rfl, rfl⟩ := of_decide_eq_true hkind
    have hvalue := Literal.malformed?_eq_some.1 hvalue
    have hnumber : c.value.isNumber = true := by
      rw [hvalue]
      rfl
    obtain ⟨hread, hmessage⟩ := (((parse_numbers "SELECT 9223372036854775808" Settings.standard).2.1
      statement (.inl hstatement)).1 c hc).2 hnumber
    refine ⟨statement, hstatement, c, hc, fault, hvalue, hread, ?_⟩
    rcases hmessage _ _ _ hvalue with ⟨-, hmessage⟩ | ⟨hreal, -⟩
    · exact hmessage
    · cases hreal
  · have hcount := ((parse_numbers "18446744073709551616" Settings.standard).2.2
      (State.ofTokens (Token.tokenize "18446744073709551616") Settings.standard)
        (by decide +kernel)).2.1 (by decide +kernel)
    have hspan : (State.ofTokens (Token.tokenize "18446744073709551616")
        Settings.standard).cursor.current.span = ⟨0, 20⟩ := by decide +kernel
    rw [if_neg (by decide +kernel), hspan] at hcount
    exact hcount

end SearchSql
