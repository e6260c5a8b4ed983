import SearchSql.Proofs.ValueReading

/-!
# What parsers of literals read

A number reads its sign and its digits, a date or time its word and its text. Where no fault is passed
over, every literal that is read denotes a value, so its written form can be read back.
-/

set_option autoImplicit false

namespace SearchSql.Grammar

open SearchSql.Grammar.Parser

variable {T : List Token} {s t : State} {here : Token → Prop} {before : List Item}

/-! ## Values of literals -/

/-- Where no fault is passed over, there is no literal without a value. -/
theorem malformedLiteral_ne_ok (hstrict : s.settings.recover = false) {kind : LiteralKind}
    {text : String} {fault : LiteralFault} {span : Span} {value : Literal} :
    malformedLiteral kind text fault span s ≠ .ok value t := by
  intro h
  have hrecover := (malformedLiteral_eq_ok h).1
  exact absurd (hrecover.symm.trans hstrict) nofun

/-- A number that is read at the first attempt has the value of its text. -/
theorem numberLiteral_eq_ok (hstrict : s.settings.recover = false) {kind : TokenKind} {text : String}
    {span : Span} {value : Literal} (h : numberLiteral kind text span s = .ok value t) :
    s = t ∧ ((kind = .integer ∧ ∃ n, value = .integer n ∧ Number.readSigned text = .ok n) ∨
      kind ≠ .integer ∧ ∃ x, value = .real x ∧ Number.readReal text = .ok x) := by
  by_cases hkind : kind = .integer
  · subst hkind
    unfold numberLiteral at h
    dsimp only at h
    cases hread : Number.readSigned text with
    | ok n =>
      rw [hread] at h
      obtain ⟨rfl, rfl⟩ := pure_eq_ok_iff.1 h
      exact ⟨rfl, .inl ⟨rfl, n, rfl, rfl⟩⟩
    | error fault =>
      rw [hread] at h
      exact absurd h (malformedLiteral_ne_ok hstrict)
  · unfold numberLiteral at h
    split at h
    · exact absurd rfl hkind
    cases hread : Number.readReal text with
    | ok x =>
      rw [hread] at h
      obtain ⟨rfl, rfl⟩ := pure_eq_ok_iff.1 h
      exact ⟨rfl, .inr ⟨hkind, x, rfl, rfl⟩⟩
    | error fault =>
      rw [hread] at h
      exact absurd h (malformedLiteral_ne_ok hstrict)

/-- A date or time that is read at the first attempt has the value of its text. -/
theorem temporalLiteral_eq_ok (hstrict : s.settings.recover = false) {kind : TemporalKind}
    {text : String} {span : Span} {value : Literal}
    (h : temporalLiteral kind text span s = .ok value t) :
    s = t ∧ kind.read s.library text = .ok value := by
  unfold temporalLiteral at h
  rw [get_bind_apply] at h
  cases hread : kind.read s.library text with
  | ok found =>
    rw [hread] at h
    obtain ⟨rfl, rfl⟩ := pure_eq_ok_iff.1 h
    exact ⟨rfl, rfl⟩
  | error fault =>
    rw [hread] at h
    exact absurd h (malformedLiteral_ne_ok hstrict)

/-! ## Numbers -/

/-- The sign in front of a number that is not positive. -/
def signText (negative : Bool) : String := if negative then "-" else ""

/-- What a number is that is taken behind its sign, where no fault is passed over. -/
theorem numberBehind_eq_ok {start : Span} {negative : Bool} (hstrict : s.settings.recover = false)
    {c : Constant} (h : Likeness.numberBehind start negative s = .ok c t) :
    t = s.skip 1 ∧ c.span = start.merge s.cursor.current.span ∧
      s.cursor.current.kind.isNumber = true ∧
      ((s.cursor.current.kind = .integer ∧ ∃ n, c.value = .integer n ∧
          Number.readSigned (signText negative ++ s.cursor.current.text) = .ok n) ∨
        s.cursor.current.kind = .real ∧ ∃ x, c.value = .real x ∧
          Number.readReal (signText negative ++ s.cursor.current.text) = .ok x) := by
  have htext : (if negative then "-" ++ s.cursor.current.text else s.cursor.current.text) =
      signText negative ++ s.cursor.current.text := by
    cases negative with
    | true => rfl
    | false => exact String.empty_append.symm
  unfold Likeness.numberBehind at h
  rw [current_bind_apply] at h
  dsimp only at h
  rw [htext] at h
  split at h
  · obtain ⟨_, _, hreject, -⟩ := bind_eq_ok_iff.1 h
    exact absurd hreject rejectCurrent_ne_ok
  -- A strict parse has no malformed number, so the literal has the value of its text.
  · next hkind =>
    have hnumber : s.cursor.current.kind.isNumber = true := by simpa using hkind
    rw [skip_bind_apply, spanFrom_bind_apply, State.skip_cursor,
      Cursor.previousSpan_skip_one (Token.isEnd_of_isNumber hnumber)] at h
    obtain ⟨value, u, hvalue, hrest⟩ := bind_eq_ok_iff.1 h
    obtain ⟨rfl, rfl⟩ := pure_eq_ok_iff.1 hrest
    obtain ⟨rfl, hread⟩ := numberLiteral_eq_ok (s := s.skip 1) hstrict hvalue
    refine ⟨rfl, rfl, hnumber, hread.imp_right fun hreal => ⟨?_, hreal.2⟩⟩
    cases hkind : s.cursor.current.kind with
    | real => rfl
    | integer => exact absurd hkind hreal.1
    | _ =>
      rw [hkind] at hnumber
      cases hnumber

/-- A number behind a minus sign reads its outline. A zero that is an integer is not plainly spelled
with the sign. -/
theorem At.negativeNumber {items : List Item} (hs : At T items s)
    (hminus : s.cursor.current.kind = .symbol .minus) {c : Constant}
    (h : Likeness.numberBehind s.cursor.current.span true (s.skip 1) = .ok c t) :
    At T (items ++ c.outline) t := by
  have hend := isEnd_of_symbol hminus
  obtain ⟨rfl, hspan, hnumber, hvalue⟩ := numberBehind_eq_ok (s := s.skip 1) hs.strict h
  obtain ⟨value, span⟩ := c
  have hnext := Token.isEnd_of_isNumber hnumber
  have htake (zero : Bool) : At T (items ++ .remark (.number zero span) :: [.symbol .minus]) (s.skip 1) :=
    (hs.take (m := .symbol .minus) hend trivial fun _ _ => hminus).remarked trivial
  obtain ⟨hinteger, n, rfl, hread⟩ | ⟨hreal, x, rfl, hread⟩ := hvalue
  · have hrange := range_of_readSigned hread
    have hsign := Number.nonpos_of_readSigned hread
    -- A zero with a minus sign is written without it, so the text is not plain.
    by_cases hzero : n = 0
    · subst hzero
      refine hs.of_not_plain ((s.leads_skip 1).trans ((s.skip 1).leads_skip 1)) ?_ ?_
      · refine legible_append.2 ⟨hs.legible, ?_⟩
        simp [Constant.outline, Literal.remark, Literal.outline, Legible, Item.Legible,
          Number.signedBound]
      · intro hplain _
        have hremark := hplain.remarks (.number true span)
          (mem_remarks.2 (List.mem_append_right _ List.mem_cons_self)) _ hs.mem ?_
        · exact hremark.2 rfl hminus
        · rw [show span = _ from hspan]
          exact Span.contains_merge_left _ (Span.contains_self _)
    · have hneg : n < 0 := by omega
      have hat := (htake (n == 0)).take (m := .integer n) hnext hrange fun _ _ =>
        ⟨hinteger, by rw [if_pos hneg]; exact hread⟩
      simpa [Constant.outline, Literal.remark, Literal.outline, hneg] using hat
  · have hnegative : x.negative = true := by
      rw [Number.negative_of_readReal hread]
      unfold signText
      rw [if_pos rfl, String.toList_append]
      rfl
    have hat := (htake false).take (m := .real x) hnext (Number.isFinite_of_readReal hread) fun _ _ =>
      ⟨hreal, by rw [hnegative]; exact hread⟩
    simpa [Constant.outline, Literal.remark, Literal.outline, hnegative] using hat

/-- A number without a sign is not negative. -/
theorem sign_of_numberBehind {u : Token} (hsound : u.Sound) (hnumber : u.kind.isNumber = true) :
    (∀ n, Number.readSigned (signText false ++ u.text) = .ok n → 0 ≤ n) ∧
      ∀ x, Number.readReal (signText false ++ u.text) = .ok x → x.negative = false := by
  obtain ⟨c, cs, htext, hc⟩ := hsound.number hnumber
  rw [show signText false ++ u.text = u.text from String.empty_append]
  refine ⟨fun n hread => Number.nonneg_of_readSigned htext hc hread, fun x hread => ?_⟩
  rw [Number.negative_of_readReal hread, htext, Number.splitSign_of_unsigned hc]

/-- A number behind its sign can be read back. -/
theorem legible_of_numberBehind {c : Constant} {negative : Bool} {u : Token}
    (h : (u.kind = .integer ∧ ∃ n, c.value = .integer n ∧
        Number.readSigned (signText negative ++ u.text) = .ok n) ∨
      u.kind = .real ∧ ∃ x, c.value = .real x ∧
        Number.readReal (signText negative ++ u.text) = .ok x) : Legible c.outline := by
  obtain ⟨value, span⟩ := c
  obtain ⟨-, n, rfl, hread⟩ | ⟨-, x, rfl, hread⟩ := h
  · have hrange := range_of_readSigned hread
    by_cases hneg : n < 0
    · simpa [Constant.outline, Literal.remark, Literal.outline, Legible, Item.Legible, hneg] using hrange
    · simpa [Constant.outline, Literal.remark, Literal.outline, Legible, Item.Legible, hneg] using hrange
  · have hfinite := Number.isFinite_of_readReal hread
    cases hneg : x.negative with
    | true =>
      simp [Constant.outline, Literal.remark, Literal.outline, Legible, Item.Legible, hneg, hfinite]
    | false =>
      simp [Constant.outline, Literal.remark, Literal.outline, Legible, Item.Legible, hneg, hfinite]

section Numbers

variable (hT : Scanned T)

include hT

/-- A number without a sign reads its outline. -/
theorem At.unsignedNumber {items : List Item} (hs : At T items s) {start : Span} {c : Constant}
    (h : Likeness.numberBehind start false s = .ok c t) : At T (items ++ c.outline) t := by
  obtain ⟨rfl, -, hnumber, hvalue⟩ := numberBehind_eq_ok hs.strict h
  obtain ⟨value, span⟩ := c
  have hend := Token.isEnd_of_isNumber hnumber
  obtain ⟨hinteger, hreal⟩ := sign_of_numberBehind (hs.sound hT) hnumber
  have hremark (zero : Bool) : At T (items ++ [.remark (.number zero span)]) s :=
    (show At T (items ++ []) s by rwa [List.append_nil]).remarked trivial
  obtain ⟨hkind, n, rfl, hread⟩ | ⟨hkind, x, rfl, hread⟩ := hvalue
  · have hpos : ¬ n < 0 := Int.not_lt.2 (hinteger n hread)
    have hat := (hremark (n == 0)).take (m := .integer n) hend (range_of_readSigned hread)
      fun _ _ => ⟨hkind, by rw [if_neg hpos]; exact hread⟩
    simpa [Constant.outline, Literal.remark, Literal.outline, hpos] using hat
  · have hpos : x.negative = false := hreal x hread
    have hat := (hremark false).take (m := .real x) hend (Number.isFinite_of_readReal hread)
      fun _ _ => ⟨hkind, by rw [hpos]; exact hread⟩
    simpa [Constant.outline, Literal.remark, Literal.outline, hpos] using hat

/-- A number is read back from its sign and its token. -/
theorem reads_number : Reads T here before number (fun c => before ++ c.outline) := by
  intro front s c t hs _ heq
  rw [← List.append_assoc]
  rw [Likeness.number_eq, current_bind_apply] at heq
  unfold Likeness.numberFrom at heq
  rw [takeSymbol_bind_apply] at heq
  split at heq
  · next hminus => exact hs.negativeNumber hminus heq
  · replace heq : (takeSymbol .plus >>= fun _ =>
        Likeness.numberBehind s.cursor.current.span false) s = .ok c t := heq
    rw [takeSymbol_bind_apply] at heq
    split at heq
    · next hplus =>
      -- A plus sign is not plainly spelled.
      obtain ⟨rfl, hspan, -, hvalue⟩ := numberBehind_eq_ok (s := s.skip 1) hs.strict heq
      have hlegible := legible_of_numberBehind hvalue
      obtain ⟨value, span⟩ := c
      have hcontains : span.contains s.cursor.current.span = true := by
        rw [show span = _ from hspan]
        exact Span.contains_merge_left _ (Span.contains_self _)
      refine hs.of_not_plain ((s.leads_skip 1).trans ((s.skip 1).leads_skip 1))
        (legible_append.2 ⟨hs.legible, hlegible⟩) ?_
      intro hplain _
      obtain ⟨-, n, rfl, -⟩ | ⟨-, x, rfl, -⟩ := hvalue
      · exact (hplain.remarks (.number (n == 0) span) (mem_remarks.2
          (List.mem_append_right _ List.mem_cons_self)) _ hs.mem hcontains).1 hplus
      · exact (hplain.remarks (.number false span) (mem_remarks.2
          (List.mem_append_right _ List.mem_cons_self)) _ hs.mem hcontains).1 hplus
    · exact hs.unsignedNumber hT heq

end Numbers

/-- A number whose text denotes a value is taken behind its sign. -/
theorem numberBehind_of_ok {start : Span} {negative : Bool} {value : Literal}
    (hnumber : s.cursor.current.kind.isNumber = true)
    (hvalue : ∀ span, numberLiteral s.cursor.current.kind
      (signText negative ++ s.cursor.current.text) span (s.skip 1) = .ok value (s.skip 1)) :
    Likeness.numberBehind start negative s =
      .ok ⟨value, start.merge (s.skip 1).cursor.previousSpan⟩ (s.skip 1) := by
  have htext : (if negative then "-" ++ s.cursor.current.text else s.cursor.current.text) =
      signText negative ++ s.cursor.current.text := by
    cases negative with
    | true => rfl
    | false => exact String.empty_append.symm
  unfold Likeness.numberBehind
  rw [current_bind_apply, hnumber]
  show (Parser.skip 1 >>= fun _ => _) s = _
  rw [skip_bind_apply, spanFrom_bind_apply, htext]
  exact bind_of_ok (hvalue _)

/-- An integer token in range is read as its value behind the sign. -/
theorem numberBehind_of_integer {start : Span} {negative : Bool} {n : Int}
    (hkind : s.cursor.current.kind = .integer)
    (hread : Number.readSigned (signText negative ++ s.cursor.current.text) = .ok n) :
    Likeness.numberBehind start negative s =
      .ok ⟨.integer n, start.merge (s.skip 1).cursor.previousSpan⟩ (s.skip 1) :=
  numberBehind_of_ok (hkind ▸ rfl) fun _ => by
    unfold numberLiteral
    simp only [hkind, hread]
    rfl

/-- A real token in range is read as its value behind the sign. -/
theorem numberBehind_of_real {start : Span} {negative : Bool} {x : Number.Binary64}
    (hkind : s.cursor.current.kind = .real)
    (hread : Number.readReal (signText negative ++ s.cursor.current.text) = .ok x) :
    Likeness.numberBehind start negative s =
      .ok ⟨.real x, start.merge (s.skip 1).cursor.previousSpan⟩ (s.skip 1) :=
  numberBehind_of_ok (hkind ▸ rfl) fun _ => by
    unfold numberLiteral
    simp only [hkind, hread]
    rfl

/-- Without a sign in front, the number itself is under the cursor. -/
theorem number_of_isNumber (h : s.cursor.current.kind.isNumber = true) :
    number s = Likeness.numberBehind s.cursor.current.span false s := by
  have hsign (sign : Symbol) : s.cursor.current.kind ≠ .symbol sign := by
    intro hkind
    rw [hkind] at h
    cases h
  rw [Likeness.number_eq, current_bind_apply]
  unfold Likeness.numberFrom
  rw [takeSymbol_bind_apply, if_neg (hsign .minus)]
  show (takeSymbol .plus >>= fun _ => Likeness.numberBehind s.cursor.current.span false) s = _
  rw [takeSymbol_bind_apply, if_neg (hsign .plus)]

/-- Behind a minus sign, a number is negative. -/
theorem number_of_minus (h : s.cursor.current.kind = .symbol .minus) :
    number s = Likeness.numberBehind s.cursor.current.span true (s.skip 1) := by
  rw [Likeness.number_eq, current_bind_apply]
  unfold Likeness.numberFrom
  rw [takeSymbol_bind_apply, if_pos h]
  rfl

/-! ## Dates and times -/

/-- The word in front of a literal of a kind. -/
def TemporalKind.word : TemporalKind → Keyword
  | .date => .DATE
  | .time => .TIME
  | .timestamp => .TIMESTAMP

/-- A word for a date or time is that of its kind. -/
theorem TemporalKind.ofKeyword?_eq_some {word : Keyword} {kind : TemporalKind}
    (h : TemporalKind.ofKeyword? word = some kind) : word = kind.word := by
  cases word with
  | DATE | TIME | TIMESTAMP =>
    cases h
    rfl
  | _ => cases h

/-- What is read as a date or time is the literal of a value. -/
theorem TemporalKind.exists_value_of_read {library : Time.Library} {kind : TemporalKind}
    {text : String} {literal : Literal} (h : kind.read library text = .ok literal) :
    ∃ value : TemporalValue, value.kind = kind ∧ value.literal = literal := by
  cases kind with
  | date =>
    obtain ⟨d, -, rfl⟩ := ok_of_map h
    exact ⟨.date d, rfl, rfl⟩
  | time =>
    obtain ⟨c, -, rfl⟩ := ok_of_map h
    exact ⟨.time c, rfl, rfl⟩
  | timestamp =>
    obtain ⟨t, -, rfl⟩ := ok_of_map h
    exact ⟨.timestamp t, rfl, rfl⟩

/-- A date or time is written as a word and a string. -/
theorem TemporalValue.outline_literal (value : TemporalValue) :
    value.literal.outline = [.keyword value.kind.word, .mark (.temporal value)] := by
  cases value with
  | date _ | time _ | timestamp _ => rfl

/-- What is written for a date or time can be read back. -/
theorem TemporalValue.legible_outline (value : TemporalValue) : Legible value.literal.outline := by
  rw [value.outline_literal]
  exact legible_cons.2 ⟨trivial, legible_cons.2 ⟨trivial, nofun⟩⟩

/-- A string is a single token. -/
theorem string_kind_of_eq_ok {value : String} (h : string s = .ok value t) :
    s.cursor.current.kind = .string value ∧ t = s.skip 1 := by
  refine ⟨?_, (string_eq_ok h).2⟩
  unfold Parser.string at h
  rw [current_bind_apply] at h
  cases hkind : s.cursor.current.kind with
  | string found =>
    rw [hkind] at h
    obtain ⟨rfl, -⟩ := pure_eq_ok_iff.1 h
    rfl
  | _ =>
    rw [hkind] at h
    exact absurd h rejectCurrent_ne_ok

/-- A date or time behind its word is read back. -/
theorem reads_wordLiteral (kind : TemporalKind) :
    Reads T (fun u => u.kind = .keyword kind.word) before (wordLiteral kind)
      (fun value => before ++ value.outline) := by
  intro front s value t hs hword heq
  unfold wordLiteral at heq
  rw [take_bind_apply] at heq
  obtain ⟨written, u, hstring, hrest⟩ := bind_eq_ok_iff.1 heq
  obtain ⟨hkind, rfl⟩ := string_kind_of_eq_ok hstring
  rw [spanFrom_bind_apply] at hrest
  have hstrict : ((s.skip 1).skip 1).settings.recover = false := hs.strict
  obtain ⟨rfl, hread⟩ := temporalLiteral_eq_ok hstrict hrest
  obtain ⟨found, rfl, rfl⟩ := TemporalKind.exists_value_of_read hread
  have htake := hs.take (m := .keyword found.kind.word) (isEnd_of_keyword hword) trivial
    fun _ _ => hword
  have hat := htake.take (m := .temporal found) (isEnd_eq_false (by rw [hkind]; nofun)) trivial
    fun _ _ => ⟨written, hkind, hread⟩
  simpa [found.outline_literal] using hat

/-- A literal between braces is not plainly spelled. -/
theorem reads_bracedLiteral :
    Reads T here before bracedLiteral (fun value => before ++ value.outline) := by
  intro front s value t hs _ heq
  have hleads := (steady_congruence.bracedLiteral (b := 0)).1.leads heq
  obtain ⟨start, u, hbrace, hrest⟩ := bind_eq_ok_iff.1 heq
  obtain ⟨hkind, -, rfl⟩ := symbol_eq_ok_iff.1 hbrace
  have hlegible : Legible value.outline := by
    rw [current_bind_apply] at hrest
    cases hword : TemporalKind.ofKind? (s.skip 1).cursor.current.kind with
    | none =>
      rw [hword] at hrest
      exact absurd hrest rejectCurrent_ne_ok
    | some kind =>
      rw [hword] at hrest
      dsimp only at hrest
      rw [skip_bind_apply] at hrest
      obtain ⟨written, v, hstring, hrest⟩ := bind_eq_ok_iff.1 hrest
      obtain ⟨-, rfl⟩ := string_kind_of_eq_ok hstring
      obtain ⟨_, w, hclose, hrest⟩ := bind_eq_ok_iff.1 hrest
      obtain ⟨-, -, rfl⟩ := symbol_eq_ok_iff.1 hclose
      rw [spanFrom_bind_apply] at hrest
      have hstrict : ((((s.skip 1).skip 1).skip 1).skip 1).settings.recover = false := hs.strict
      obtain ⟨found, -, rfl⟩ :=
        TemporalKind.exists_value_of_read (temporalLiteral_eq_ok hstrict hrest).2
      exact found.legible_outline
  refine hs.of_not_plain hleads ?_ fun hplain _ => hplain.noBrace _ hs.mem hkind
  rw [← List.append_assoc]
  exact legible_append.2 ⟨hs.legible, hlegible⟩

/-! ## Constants -/

/-- The name of a current date or time is read back. -/
theorem reads_datetimeConstant (name : DatetimeConstant) :
    Reads T (fun u => Spells u name.text) before (datetimeConstant name)
      (fun value => before ++ value.outline) := by
  refine (reads_skip (m := .word name.text) (fun _ h => isEnd_of_spells h) (fun _ h => h.2)
    fun _ h => h.1).bind fun _ => reads_takeSymbol_bind ?_ ?_
  · refine (reads_symbol .rightParen).bind fun _ => reads_pure ?_
    simp [Literal.outline]
  · exact reads_pure (by simp [Literal.outline])

/-- A literal that is a single token is read back. -/
theorem reads_simpleLiteral {value : Literal} {m : Mark} {u : Token} (hvalue : value.outline = [.mark m])
    (hend : u.isEnd = false) (hlegible : (Item.mark m).Legible)
    (hdenotes : ∀ {library : Time.Library}, m.Denotes library u) :
    Reads T (fun v => v = u ∧ here v) before (simpleLiteral value)
      (fun value => before ++ value.outline) :=
  (reads_skip_at hend hlegible hdenotes).bind fun _ => reads_pure (by rw [hvalue])

/-- A remark may be added in front of the outline of a literal. -/
theorem At.constant {items : List Item} {value : Literal} (h : At T (items ++ value.outline) s)
    (span : Span) : At T (items ++ (⟨value, span⟩ : Constant).outline) s := by
  cases value with
  | integer n => exact h.remarked trivial
  | real x => exact h.remarked trivial
  | _ => exact h

end SearchSql.Grammar
