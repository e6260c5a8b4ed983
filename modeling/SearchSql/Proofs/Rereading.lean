import SearchSql.Proofs.FieldReading
import SearchSql.Proofs.Outlooks

/-!
# Written names and values, read again

What parsers without rules read is read again from its written tokens: they give the same name or
value, up to places and quotes, wherever nothing stands behind that would go on with it (`Rereads`).

Several tokens may be written for an identifier (`Ident.Written`). One that follows a dot is a single
token, unless its value starts with a dot itself.
-/

set_option autoImplicit false

namespace SearchSql

open Number Token

/-! ## Written identifiers -/

/-- The tokens that are written for an identifier with a value: a bare name that means nothing else, a
dot and a bare name, or a name between backticks. -/
inductive Ident.Written (value : String) : List Token → Prop where
  | bare : contextualWords.contains (Text.upper value) = false → Written value [ofName value]
  | dotted {word : String} : value = "." ++ word → Written value [ofSymbol .dot, ofName word]
  | quoted : Written value [ofQuotedName value]

/-- What is written for a name is one of these. -/
theorem Ident.written (name : Ident) : Written name.value (writtenTokens name.outline) := by
  cases hdotted : name.isDotted with
  | true =>
    obtain ⟨word, hvalue, htokens⟩ := writtenTokens_of_isDotted hdotted
    rw [htokens]
    exact .dotted hvalue
  | false =>
    rw [writtenTokens_of_not_isDotted hdotted]
    cases hbare : name.isBare with
    | false => exact .quoted
    | true =>
      have hhead : name.value.toList.head? ≠ some '.' := by simpa [isDotted, hbare] using hdotted
      simp only [isBare, Bool.and_eq_true, Bool.not_eq_true', body_of_head hhead,
        String.ofList_toList] at hbare
      exact .bare hbare.2

/-- An identifier without a dot in front is written as a single name. -/
theorem Ident.Written.single {value : String} {tokens : List Token} (h : Written value tokens)
    (hhead : value.toList.head? ≠ some '.') :
    ∃ u, tokens = [u] ∧ u.kind.isNameLike = true := by
  cases h with
  | bare _ => exact ⟨_, rfl, rfl⟩
  | quoted => exact ⟨_, rfl, rfl⟩
  | dotted hvalue =>
    refine absurd ?_ hhead
    rw [hvalue, String.toList_append]
    rfl

/-- A name without a dot in front is not written with one. -/
theorem Ident.not_isDotted_of_head {name : Ident} (h : name.value.toList.head? ≠ some '.') :
    name.isDotted = false := by simp [isDotted, h]

/-- Names are the same up to places and quotes just if they have the same value. -/
theorem erase_ident {a a' : Ident} : erase a = erase a' ↔ a.value = a'.value :=
  ⟨congrArg Ident.value, congrArg Ident.ofValue⟩

namespace Grammar

open SearchSql.Grammar.Parser

variable {α β : Type} [Erases α] [Erases β] {s t : State} {items : List Item} {rest : List Token}

/-! ## Reading again -/

/-- Wherever `ok` holds behind the tokens that are written for `items`, they are taken by `q`, which
gives `a` up to places and quotes. -/
def Rereads (ok : List Token → Prop) (q : Parser α) (items : List Item) (a : α) : Prop :=
  ∀ s rest, Fine items → s.Faces (writtenTokens items ++ rest) → ok rest →
    ∃ a' t, q s = .ok a' t ∧ erase a = erase a' ∧ t.Faces rest

/-- Whatever may stand behind. -/
def Freely : List Token → Prop := fun _ => True

variable {ok ok' : List Token → Prop} {p q : Parser α} {a : α}

/-- What is read again wherever something holds is read again where more does. -/
theorem Rereads.imp (h : Rereads ok q items a) (himp : ∀ rest, ok' rest → ok rest) :
    Rereads ok' q items a :=
  fun s rest hfine hfaces hrest => h s rest hfine hfaces (himp rest hrest)

/-- What is read again in any case is retraced. -/
theorem Rereads.retrace {front rear : Outlook} (h : Rereads ok q items a) (hq : Steady q)
    (hleads : s.Leads t)
    (hfront : ∀ rest, Fine items → rear t.cursor rest → front s.cursor (writtenTokens items ++ rest))
    (hrear : ∀ rest, rear t.cursor rest → ok rest) : Retrace front rear q items s a t where
  leads := hleads
  front := hfront
  again s' rest hfine htwin hfaces hrest := by
    obtain ⟨a', t', hrun, hsame, hfaces'⟩ := h s' rest hfine hfaces (hrear rest hrest)
    exact ⟨a', t', hrun, hsame, htwin.leads hleads (hq.leads hrun), hfaces'⟩

/-- What is read again one after the other stands one behind the other, if the first may stand in
front of the second. -/
theorem Rereads.bind {is : List Item} (js : List Item) {b : β} {f : α → Parser β}
    (hq : Rereads ok' q is a)
    (hf : ∀ a', erase a = erase a' → Rereads ok (f a') js b)
    (hrest : ∀ rest, ok rest → ok' (writtenTokens js ++ rest)) :
    Rereads ok (q >>= f) (is ++ js) b := by
  intro s rest hfine hfaces hok
  rw [writtenTokens_append, List.append_assoc] at hfaces
  obtain ⟨a', u, hu, hsame, hfaces'⟩ := hq s _ hfine.left hfaces (hrest rest hok)
  obtain ⟨b', t, ht, hsame', hfaces''⟩ := hf a' hsame u rest hfine.right hfaces' hok
  exact ⟨b', t, (bind_of_ok hu).trans ht, hsame', hfaces''⟩

theorem rereads_pure {a' : α} (h : erase a = erase a') : Rereads ok (pure a') [] a :=
  fun s _ _ hfaces _ => ⟨a', s, rfl, h, hfaces⟩

/-- What is made of a value is read again if the value is. -/
theorem Rereads.map {b : β} {f : α → β} (hq : Rereads ok q items a)
    (hf : ∀ a', erase a = erase a' → erase b = erase (f a')) : Rereads ok (f <$> q) items b := by
  have h : Rereads ok (q >>= fun a' => pure (f a')) (items ++ []) b :=
    hq.bind [] (fun a' ha => rereads_pure (hf a' ha)) fun _ h => h
  rwa [List.append_nil] at h

/-- What takes a single token. -/
theorem rereads_token {m : Mark} (hend : m.token.isEnd = false)
    (h : ∀ s : State, Fine [.mark m] → s.cursor.current.kind = m.token.kind →
      s.cursor.current.text = m.token.text → ∃ a', q s = .ok a' (s.skip 1) ∧ erase a = erase a') :
    Rereads Freely q [.mark m] a := by
  intro s rest hfine hfaces _
  obtain ⟨a', hrun, hsame⟩ := h s hfine hfaces.current hfaces.text
  exact ⟨a', _, hrun, hsame, hfaces.skip hend⟩

/-- A reserved word is read again. -/
theorem rereads_keyword (word : Keyword) (span : Span) :
    Rereads Freely (keyword word) [.keyword word] span :=
  rereads_token rfl fun _ _ hkind _ => ⟨_, keyword_eq_ok_iff.2 ⟨hkind, rfl, rfl⟩, rfl⟩

/-- So is a string. -/
theorem rereads_string (value : String) : Rereads Freely string [.string value] value := by
  refine rereads_token rfl fun s _ hkind _ => ⟨value, ?_, rfl⟩
  replace hkind : s.cursor.current.kind = .string value := hkind
  unfold Parser.string
  rw [current_bind_apply, hkind]
  rfl

/-! ## Names -/

/-- So is a name, whatever way it is written. -/
theorem rereads_ident (name : Ident) : Rereads Freely ident name.outline name := by
  intro s rest _ hfaces _
  obtain ⟨part, t, hpart, hvalue, ht⟩ := ident_of_written hfaces
  exact ⟨part, t, hpart, erase_ident.2 hvalue.symm, ht⟩

/-- Whether a segment of a name is in front, with its dot. -/
def Segmented (tokens : List Token) : Prop :=
  kindAt tokens 0 = .symbol .dot ∧ (kindAt tokens 1).isNameLike = true

/-- Nothing is in front that a name would go on with. -/
def NameEnds (tokens : List Token) : Prop := ¬Segmented tokens

/-- Without a dot, no name goes on. -/
theorem nameEnds_of_ne_dot {tokens : List Token} (h : kindAt tokens 0 ≠ .symbol .dot) :
    NameEnds tokens := fun hsegment => h hsegment.1

/-- What is written for a name is its first segment and the others with their dots. -/
theorem writtenTokens_qualifiedName (first : Ident) (parts : List Ident) (span : Span) :
    writtenTokens (QualifiedName.outline ⟨first :: parts, span⟩) =
      writtenTokens first.outline ++ writtenSegments parts := by
  rw [QualifiedName.outline, writtenTokens_cons_remark]
  exact writtenTokens_partsOutline first parts

/-- To look over a written segment comes to what stands behind it. -/
theorem afterIdent?_written (name : Ident) (rest : List Token) :
    afterIdent? (writtenTokens name.outline ++ rest) = some rest := by
  have hwritten := name.written
  generalize writtenTokens name.outline = tokens at hwritten
  cases hwritten with
  | bare _ => rfl
  | quoted => rfl
  | dotted _ => rfl

/-- Where a name ends, there are no further segments. -/
theorem afterSegments_of_nameEnds (h : NameEnds rest) : afterSegments rest = rest := by
  rcases rest with _ | ⟨t, _ | ⟨u, ts⟩⟩
  · rfl
  · rfl
  · have hnot : ¬(t.kind == .symbol .dot && u.kind.isNameLike) = true := by
      intro heq
      obtain ⟨hdot, hname⟩ := Bool.and_eq_true_iff.1 heq
      exact h ⟨eq_of_beq hdot, hname⟩
    rw [afterSegments, if_neg hnot]

/-- To look over written segments comes to what stands behind them, if none of them begins with a
dot. -/
theorem afterSegments_written {parts : List Ident}
    (hdots : ∀ part ∈ parts, part.value.toList.head? ≠ some '.') (hrest : NameEnds rest) :
    afterSegments (writtenSegments parts ++ rest) = rest := by
  induction parts with
  | nil => exact afterSegments_of_nameEnds hrest
  | cons part parts ih =>
    obtain ⟨u, hu, hname⟩ := part.written.single (hdots part List.mem_cons_self)
    have htokens : writtenSegments (part :: parts) ++ rest =
        ofSymbol .dot :: u :: (writtenSegments parts ++ rest) := by
      simp [writtenSegments, hu]
    have hsegment : ((ofSymbol .dot).kind == .symbol .dot && u.kind.isNameLike) = true :=
      Bool.and_eq_true_iff.2 ⟨rfl, hname⟩
    rw [htokens, afterSegments, if_pos hsegment]
    exact ih fun part' h => hdots part' (List.mem_cons_of_mem _ h)

/-- Looking over a written name finds its end. -/
theorem afterName?_written {name : QualifiedName} (hfine : Fine name.outline)
    (hrest : NameEnds rest) : afterName? (writtenTokens name.outline ++ rest) = some rest := by
  have hparts : name.parts ≠ [] := (hfine.legible _ List.mem_cons_self).1
  have hdots := hfine.dots name (mem_remarks.2 List.mem_cons_self)
  obtain ⟨_ | ⟨first, parts⟩, span⟩ := name
  · exact absurd rfl hparts
  rw [writtenTokens_qualifiedName, List.append_assoc]
  unfold afterName?
  rw [afterIdent?_written, Option.map_some]
  exact congrArg some (afterSegments_written hdots hrest)

/-- The rounds that take the written segments of a name. -/
theorem rounds_segments {parts : List Ident}
    (hdots : ∀ part ∈ parts, part.value.toList.head? ≠ some '.') (hrest : NameEnds rest)
    (names : List Ident × Span) (hfaces : s.Faces (writtenSegments parts ++ rest)) :
    ∃ names' t, Rounds namePart names s names' t ∧
      erase names'.1 = erase (parts.reverse ++ names.1) ∧ t.Faces rest := by
  induction parts generalizing s names with
  | nil =>
    have hend : kindAt rest 0 ≠ .symbol .dot ∨ (kindAt rest 1).isNameLike = false :=
      (not_and_or.1 hrest).imp_right Bool.eq_false_iff.2
    exact ⟨names, s, .last (namePart_done names hend hfaces), rfl, hfaces⟩
  | cons part parts ih =>
    have hdotted := Ident.not_isDotted_of_head (hdots part List.mem_cons_self)
    have hfaces' : s.Faces (ofSymbol .dot :: writtenTokens part.outline ++
        (writtenSegments parts ++ rest)) := by
      simpa [writtenSegments] using hfaces
    obtain ⟨part', u, hstep, hvalue, hu⟩ := namePart_of_written hdotted names hfaces'
    obtain ⟨names', t, hrounds, hnames, ht⟩ :=
      ih (fun part' h => hdots part' (List.mem_cons_of_mem _ h)) _ hu
    refine ⟨names', t, .more hstep hrounds, ?_, ht⟩
    have hswap : erase (part' :: names.1) = erase (part :: names.1) :=
      erase_cons.2 ⟨erase_ident.2 hvalue, rfl⟩
    rw [hnames]
    show List.map _ _ = List.map _ _
    rw [List.reverse_cons, List.append_assoc, List.map_append, List.map_append]
    exact congrArg _ hswap

/-- A name is read again in front of whatever it does not go on with. -/
theorem rereads_qualifiedName (name : QualifiedName) :
    Rereads NameEnds qualifiedName name.outline name := by
  intro s rest hfine hfaces hrest
  have hparts : name.parts ≠ [] := (hfine.legible _ List.mem_cons_self).1
  have hdots := hfine.dots name (mem_remarks.2 List.mem_cons_self)
  obtain ⟨_ | ⟨first, parts⟩, span⟩ := name
  · exact absurd rfl hparts
  rw [writtenTokens_qualifiedName, List.append_assoc] at hfaces
  obtain ⟨first', u, hu, hvalue, hfaces'⟩ := ident_of_written hfaces
  obtain ⟨names, t, hrounds, hnames, ht⟩ :=
    rounds_segments hdots hrest ([first'], first'.span) hfaces'
  refine ⟨⟨names.1.reverse, names.2⟩, t, ?_, ?_, ht⟩
  · rw [qualifiedName_eq, bind_of_ok hu]
    exact bind_of_ok ((loop_eq_ok_iff Congruence.advances_namePart).2 hrounds)
  · have hlist : erase (first :: parts) = erase names.1.reverse := by
      have h := erase_reverse hnames
      rw [List.reverse_append, List.reverse_reverse] at h
      rw [h]
      exact erase_cons.2 ⟨erase_ident.2 hvalue.symm, rfl⟩
    exact congrArg (QualifiedName.mk · default) hlist

/-! ## Fields -/

/-- A string is no name. -/
theorem afterName?_of_isString {u : Token} (us : List Token) (h : u.kind.isString = true) :
    afterName? (u :: us) = none := by
  have hnone : afterIdent? (u :: us) = none := by
    cases hkind : u.kind with
    | string value => cases us <;> simp [afterIdent?, hkind, TokenKind.isNameLike]
    | _ =>
      rw [hkind] at h
      cases h
  simp [afterName?, hnone]

/-- A name is a field. -/
theorem afterField?_of_afterName? {tokens : List Token} (h : afterName? tokens = some rest) :
    afterField? tokens = some rest := by
  cases tokens with
  | nil => cases h
  | cons u us =>
    cases hstring : u.kind.isString with
    | false => simpa [afterField?, hstring] using h
    | true =>
      rw [afterName?_of_isString us hstring] at h
      cases h

/-- Looking over a written field finds its end. -/
theorem afterField?_written {f : Field} (hfine : Fine f.outline) (hrest : NameEnds rest) :
    afterField? (writtenTokens f.outline ++ rest) = some rest := by
  cases f with
  | name n => exact afterField?_of_afterName? (afterName?_written hfine hrest)
  | quoted value span => rfl

/-- A field is read again in front of whatever its name does not go on with. -/
theorem rereads_field (f : Field) : Rereads NameEnds field f.outline f := by
  cases f with
  | quoted value span =>
    have h : Rereads Freely field (Field.quoted value span).outline (.quoted value span) :=
      rereads_token rfl fun s _ hkind _ => ⟨.quoted value s.cursor.current.span,
        field_of_string hkind, rfl⟩
    exact h.imp fun _ _ => trivial
  | name n =>
    intro s rest hfine hfaces hrest
    obtain ⟨n', t, hrun, hsame, ht⟩ := rereads_qualifiedName n s rest hfine hfaces hrest
    refine ⟨.name n', t, ?_, congrArg Field.name hsame, ht⟩
    rw [field_of_ne (ne_string_of_qualifiedName hrun)]
    exact map_eq_ok_iff.2 ⟨n', hrun, rfl⟩

/-- A remark in the outline is not written. -/
theorem Rereads.remarked (h : Rereads ok q items a) (r : Remark) :
    Rereads ok q (.remark r :: items) a :=
  fun s rest hfine hfaces hrest => h s rest hfine.tail hfaces hrest

/-- A sign that is written is taken. -/
theorem rereads_takeSymbol_bind {sign : Symbol} {f : Bool → Parser α}
    (h : Rereads ok (f true) items a) :
    Rereads ok (takeSymbol sign >>= f) (.symbol sign :: items) a := by
  intro s rest hfine hfaces hrest
  have hkind : s.cursor.current.kind = .symbol sign := hfaces.current
  rw [takeSymbol_bind_apply, if_pos hkind]
  exact h _ rest hfine.tail (hfaces.skip rfl) hrest

/-- A sign that is not written is not taken, if nothing that may stand there is that sign. -/
theorem rereads_takeSymbol_bind_of_ne {sign : Symbol} {f : Bool → Parser α}
    (h : Rereads ok (f false) items a)
    (hne : ∀ rest, ok rest → kindAt (writtenTokens items ++ rest) 0 ≠ .symbol sign) :
    Rereads ok (takeSymbol sign >>= f) items a := by
  intro s rest hfine hfaces hrest
  have hkind : s.cursor.current.kind ≠ .symbol sign := by
    rw [hfaces.current]
    exact hne rest hrest
  rw [takeSymbol_bind_apply, if_neg hkind]
  exact h _ rest hfine hfaces hrest

/-- A word that is written is taken. -/
theorem rereads_takeKeyword_bind {word : Keyword} {f : Bool → Parser α}
    (h : Rereads ok (f true) items a) :
    Rereads ok (takeKeyword word >>= f) (.keyword word :: items) a := by
  intro s rest hfine hfaces hrest
  have hkind : s.cursor.current.kind = .keyword word := hfaces.current
  rw [takeKeyword_bind_apply, if_pos hkind]
  exact h _ rest hfine.tail (hfaces.skip rfl) hrest

/-- A word that is not written is not taken, if nothing that may stand there is that word. -/
theorem rereads_takeKeyword_bind_of_ne {word : Keyword} {f : Bool → Parser α}
    (h : Rereads ok (f false) items a)
    (hne : ∀ rest, ok rest → kindAt (writtenTokens items ++ rest) 0 ≠ .keyword word) :
    Rereads ok (takeKeyword word >>= f) items a := by
  intro s rest hfine hfaces hrest
  have hkind : s.cursor.current.kind ≠ .keyword word := by
    rw [hfaces.current]
    exact hne rest hrest
  rw [takeKeyword_bind_apply, if_neg hkind]
  exact h _ rest hfine hfaces hrest

theorem rereads_spanFrom_bind {f : Span → Parser α} {start : Span}
    (h : ∀ span, Rereads ok (f span) items a) : Rereads ok (spanFrom start >>= f) items a :=
  fun s rest hfine hfaces hrest => h _ s rest hfine hfaces hrest

/-! ## Numbers -/

/-- A weight is read again from its text. -/
theorem rereads_weight (x : Binary64) : Rereads Freely weight [.mark (.weight x)] x := by
  refine rereads_token (Token.isEnd_of_isNumber (isNumber_numeralKind _))
    fun s hfine hkind htext => ⟨x, ?_, rfl⟩
  obtain ⟨hnumber, hread⟩ := hfine.denotes (fun _ => Mark.noConfusion) s.library
  rw [← hkind] at hnumber
  rw [← htext] at hread
  unfold Parser.weight
  rw [current_bind_apply, hnumber]
  show (Parser.skip 1 >>= fun _ => _) s = _
  rw [skip_bind_apply, hread]
  rfl

/-- A count is read again from its digits. -/
theorem rereads_count (n : Nat) : Rereads Freely count [.mark (.count n)] n := by
  refine rereads_token (Token.isEnd_of_isNumber (isNumber_numeralKind _))
    fun s hfine hkind htext => ⟨n, ?_, rfl⟩
  obtain ⟨hinteger, hread⟩ := hfine.denotes (fun _ => Mark.noConfusion) s.library
  rw [← hkind] at hinteger
  rw [← htext] at hread
  unfold Parser.count
  rw [current_bind_apply, hinteger]
  show (Parser.skip 1 >>= fun _ => _) s = _
  rw [skip_bind_apply, hread]
  rfl

/-- Nothing is in front that a field with its boost would go on with. -/
structure FieldEnds (tokens : List Token) : Prop where
  name : NameEnds tokens
  caret : kindAt tokens 0 ≠ .symbol .caret
  number : (kindAt tokens 0).isNumber = false

/-- A field with its weight is read again, if no weight or star may stand behind it. -/
theorem rereads_weightedField (f : WeightedField) :
    Rereads FieldEnds weightedField f.outline f := by
  obtain ⟨f, weight⟩ := f
  cases weight with
  | some x =>
    refine (rereads_field f).bind _ (fun f' hsame => ?_)
      fun _ _ => nameEnds_of_ne_dot fun h => Symbol.noConfusion (TokenKind.symbol.inj h)
    have hweight := (rereads_weight x).map (f := fun x' => WeightedField.mk f' (some x'))
      (b := ⟨f, some x⟩) fun x' hx => by
        obtain rfl : x = x' := hx
        exact congrArg (WeightedField.mk · _) hsame
    exact (rereads_takeSymbol_bind (hweight.imp fun _ _ => trivial)).remarked _
  | none =>
    refine (rereads_field f).bind [] (fun f' hsame => ?_) fun _ h => h.name
    refine rereads_takeSymbol_bind_of_ne ?_ fun _ h => h.caret
    intro s rest _ hfaces hrest
    refine ⟨⟨f', none⟩, s, ?_, congrArg (WeightedField.mk · none) hsame, hfaces⟩
    have hnumber : s.cursor.current.kind.isNumber = false := by
      rw [hfaces.current]
      exact hrest.number
    show (current >>= fun token => _) s = _
    rw [current_bind_apply, hnumber]
    rfl

/-- Nothing is in front that a limit would go on with. -/
structure LimitEnds (tokens : List Token) : Prop where
  comma : kindAt tokens 0 ≠ .symbol .comma
  offset : kindAt tokens 0 ≠ .keyword .OFFSET

/-- A limit is read again, if no comma or `OFFSET` may stand behind it. -/
theorem rereads_limit (l : Limit) : Rereads LimitEnds limit l.outline l := by
  obtain ⟨n, offset, span⟩ := l
  have hsame {m m' : Nat} (h : erase m = erase m') : m = m' := h
  cases offset with
  | none =>
    refine ((rereads_keyword .LIMIT span).bind _ (fun start _ => (rereads_count n).bind []
      (fun n' hn => ?_) fun _ _ => trivial) fun _ _ => trivial).remarked _
    obtain rfl := hsame hn
    refine rereads_takeSymbol_bind_of_ne ?_ fun _ h => h.comma
    refine rereads_takeKeyword_bind_of_ne ?_ fun _ h => h.offset
    exact rereads_spanFrom_bind fun _ => rereads_pure rfl
  | some m =>
    refine ((rereads_keyword .LIMIT span).bind _ (fun start _ => (rereads_count n).bind
      [.keyword .OFFSET, .mark (.count m)]
      (fun n' hn => ?_) fun _ _ => trivial) fun _ _ => trivial).remarked _
    obtain rfl := hsame hn
    refine rereads_takeSymbol_bind_of_ne ?_ fun _ _ h => TokenKind.noConfusion h
    refine rereads_takeKeyword_bind ((rereads_count m).bind [] (fun m' hm => ?_)
      fun _ _ => trivial)
    obtain rfl := hsame hm
    exact rereads_spanFrom_bind fun _ => rereads_pure rfl

/-- Whether a literal is a number. -/
def IsNumeric (value : Literal) : Prop := (∃ n, value = .integer n) ∨ ∃ x, value = .real x

/-- A number is read again with its sign: an integer from its digits, a real number from its text.
-/
theorem rereads_number {c : Constant} (h : IsNumeric c.value) :
    Rereads Freely number c.outline c := by
  obtain ⟨value, span⟩ := c
  intro s rest hfine hfaces _
  -- The two kinds of numbers, each with and without a minus sign, which is a token of its own.
  obtain ⟨n, rfl⟩ | ⟨x, rfl⟩ := h
  · have hend := Token.isEnd_of_isNumber
      (t := numeralToken (Nat.toDigits 10 n.natAbs)) (isNumber_numeralKind _)
    by_cases hneg : n < 0
    · have hitems : (Constant.mk (.integer n) span).outline =
          [.remark (.number (n == 0) span), .symbol .minus, .mark (.integer n)] := by
        simp [Constant.outline, Literal.remark, Literal.outline, hneg]
      rw [hitems] at hfine hfaces
      obtain ⟨hkind, hread⟩ := hfine.tail.tail.denotes (fun _ => Mark.noConfusion) s.library
      have hnext := hfaces.skip rfl
      rw [if_pos hneg] at hread
      rw [← hnext.text] at hread
      exact ⟨_, _, (number_of_minus hfaces.current).trans
        (numberBehind_of_integer (hnext.current.trans hkind) hread), rfl, hnext.skip hend⟩
    · have hitems : (Constant.mk (.integer n) span).outline =
          [.remark (.number (n == 0) span), .mark (.integer n)] := by
        simp [Constant.outline, Literal.remark, Literal.outline, hneg]
      rw [hitems] at hfine hfaces
      obtain ⟨hkind, hread⟩ := hfine.tail.denotes (fun _ => Mark.noConfusion) s.library
      rw [if_neg hneg] at hread
      rw [← hfaces.text] at hread
      have hcurrent := hfaces.current.trans hkind
      exact ⟨_, _, (number_of_isNumber (hcurrent ▸ rfl)).trans
        (numberBehind_of_integer hcurrent hread), rfl, hfaces.skip hend⟩
  · have hend := Token.isEnd_of_isNumber
      (t := numeralToken (Layout.literal.magnitude x)) (isNumber_numeralKind _)
    cases hneg : x.negative with
    | true =>
      have hitems : (Constant.mk (.real x) span).outline =
          [.remark (.number false span), .symbol .minus, .mark (.real x)] := by
        simp [Constant.outline, Literal.remark, Literal.outline, hneg]
      rw [hitems] at hfine hfaces
      obtain ⟨hkind, hread⟩ := hfine.tail.tail.denotes (fun _ => Mark.noConfusion) s.library
      have hnext := hfaces.skip rfl
      rw [if_pos hneg] at hread
      rw [← hnext.text] at hread
      exact ⟨_, _, (number_of_minus hfaces.current).trans
        (numberBehind_of_real (hnext.current.trans hkind) hread), rfl, hnext.skip hend⟩
    | false =>
      have hitems : (Constant.mk (.real x) span).outline =
          [.remark (.number false span), .mark (.real x)] := by
        simp [Constant.outline, Literal.remark, Literal.outline, hneg]
      rw [hitems] at hfine hfaces
      obtain ⟨hkind, hread⟩ := hfine.tail.denotes (fun _ => Mark.noConfusion) s.library
      rw [hneg, if_neg Bool.false_ne_true] at hread
      rw [← hfaces.text] at hread
      have hcurrent := hfaces.current.trans hkind
      exact ⟨_, _, (number_of_isNumber (hcurrent ▸ rfl)).trans
        (numberBehind_of_real hcurrent hread), rfl, hfaces.skip hend⟩

/-! ## Words -/

/-- A word by which a parser finds what it gives. -/
theorem rereads_word {word : String} (h : ∀ s : State, s.cursor.current.kind = bareKind word →
    s.cursor.current.text = word → ∃ a', q s = .ok a' (s.skip 1) ∧ erase a = erase a') :
    Rereads Freely q [.word word] a :=
  rereads_token (isEnd_of_bareKind (v := word) rfl) fun s _ hkind htext => h s hkind htext

/-- The text of a unit is a name when it is written bare. -/
theorem bareKind_unit (unit : DatetimeUnit) : bareKind unit.text = .name unit.text := by
  cases unit <;> decide

/-- A unit is read again. -/
theorem rereads_datetimeUnit (unit : DatetimeUnit) :
    Rereads Freely datetimeUnit [.word unit.text] unit := by
  refine rereads_word fun s hkind _ => ⟨unit, ?_, rfl⟩
  have hfound : (bareKind unit.text).bareWord?.bind DatetimeUnit.ofText? = some unit := by
    rw [bareKind_unit, TokenKind.bareWord?, Option.bind_some, DatetimeUnit.ofText?_upper]
    exact DatetimeUnit.ofText?_text unit
  unfold Parser.datetimeUnit
  rw [current_bind_apply, hkind, hfound]
  rfl

theorem rereads_singleUnit {unit : DatetimeUnit} (h : unit.isSingle = true) :
    Rereads Freely singleUnit [.word unit.text] unit := by
  intro s rest hfine hfaces hrest
  obtain ⟨unit', t, ht, hsame, hfaces'⟩ := rereads_datetimeUnit unit s rest hfine hfaces hrest
  obtain rfl : unit = unit' := hsame
  refine ⟨unit, t, ?_, rfl, hfaces'⟩
  unfold singleUnit
  rw [current_bind_apply, bind_of_ok ht, h]
  rfl

theorem rereads_dataType (target : DataType) :
    Rereads Freely dataType [.word target.text] target := by
  refine rereads_word fun s hkind htext => ⟨target, ?_, rfl⟩
  have hfound : DataType.ofText? target.text = some target := by
    cases target <;> decide
  unfold dataType
  rw [current_bind_apply, hkind, htext, hfound]
  cases target <;> rfl

theorem rereads_formatTarget (target : FormatTarget) :
    Rereads Freely formatTarget [.word target.text] target := by
  refine rereads_word fun s hkind _ => ⟨target, ?_, rfl⟩
  unfold formatTarget
  rw [current_bind_apply, hkind]
  cases target <;> rfl

/-- An option is read again, if its name is one of those allowed. -/
theorem rereads_optionName {names : List String} {expected name : String}
    (hkind : bareKind name = .name name) (hname : names.contains (Text.upper name) = true) :
    Rereads Freely (optionName names expected) [.word name] name := by
  refine rereads_word fun s hcurrent _ => ⟨name, ?_, rfl⟩
  unfold optionName
  rw [current_bind_apply, hcurrent, hkind]
  dsimp only
  rw [if_pos hname]
  rfl

/-! ## Literals -/

section

variable {call : Callee}

/-- A literal of one token is read again. -/
theorem rereads_simpleLiteral {m : Mark} {value : Literal} (hend : m.token.isEnd = false)
    (h : ∀ s : State, s.cursor.current.kind = m.token.kind →
      literalRule call s = simpleLiteral value s) :
    Rereads Freely (literalRule call) [.mark m] value :=
  rereads_token hend fun s _ hkind _ => ⟨value, h s hkind, rfl⟩

/-- A string is read again as a literal. -/
theorem rereads_stringLiteral (value : String) :
    Rereads Freely (literalRule call) (Literal.outline (.string value)) (.string value) := by
  refine rereads_simpleLiteral rfl fun s hkind => ?_
  unfold literalRule
  rw [current_bind_apply, hkind]
  rfl

theorem rereads_boolean (value : Bool) :
    Rereads Freely (literalRule call) (Literal.outline (.boolean value)) (.boolean value) := by
  refine rereads_simpleLiteral (by cases value <;> rfl) fun s hkind => ?_
  unfold literalRule
  rw [current_bind_apply, hkind]
  cases value <;> rfl

theorem rereads_null :
    Rereads Freely (literalRule call) (Literal.outline .null) .null := by
  refine rereads_simpleLiteral rfl fun s hkind => ?_
  unfold literalRule
  rw [current_bind_apply, hkind]
  rfl

/-- A date or time is read from the text that is written for it, if the library knows the text. -/
theorem temporal_again {value : TemporalValue} {s : State}
    (hread : value.kind.read s.library value.text = .ok value.literal)
    (hfaces : s.Faces (writtenTokens value.literal.outline ++ rest)) :
    ∃ t, literalRule call s = .ok value.literal t ∧ t.Faces rest := by
  rw [value.outline_literal] at hfaces
  have hword : literalRule call s = wordLiteral value.kind s := by
    unfold literalRule
    rw [current_bind_apply, hfaces.current]
    cases value <;> rfl
  have hnext := hfaces.skip rfl
  have hstring : string (s.skip 1) = .ok value.text ((s.skip 1).skip 1) := by
    unfold Parser.string
    rw [current_bind_apply, hnext.current]
    rfl
  refine ⟨_, ?_, hnext.skip rfl⟩
  rw [hword]
  unfold wordLiteral
  rw [take_bind_apply, bind_of_ok hstring, spanFrom_bind_apply]
  unfold temporalLiteral
  rw [get_bind_apply, State.skip_library, State.skip_library, hread]
  rfl

theorem bareKind_datetime (name : DatetimeConstant) : bareKind name.text = .name name.text := by
  cases name <;> decide

/-- A word for the current date or time, if no parenthesis follows by which it would be called. -/
theorem rereads_datetime (name : DatetimeConstant) (parens : Bool) :
    Rereads (fun tokens => kindAt tokens 0 ≠ .symbol .leftParen) (literalRule call)
      (Literal.outline (.datetime name parens)) (.datetime name parens) := by
  intro s rest _ hfaces hrest
  have hend : (Mark.token (.word name.text)).isEnd = false := isEnd_of_bareKind (v := name.text) rfl
  have hkind : s.cursor.current.kind = .name name.text := hfaces.current.trans (bareKind_datetime name)
  have hconstant : literalRule call s = datetimeConstant name s := by
    unfold literalRule
    rw [current_bind_apply, hkind]
    dsimp only
    rw [DatetimeConstant.ofText?_text]
  rw [hconstant]
  unfold datetimeConstant
  rw [skip_bind_apply]
  cases parens with
  | true =>
    have hopen : (s.skip 1).Faces (ofSymbol .leftParen :: ofSymbol .rightParen :: rest) :=
      hfaces.skip hend
    have hleft : (s.skip 1).cursor.current.kind = .symbol .leftParen := hopen.current
    have hclose := hopen.skip rfl
    rw [takeSymbol_bind_apply, if_pos hleft]
    exact ⟨_, _, bind_of_ok (symbol_eq_ok_iff.2 ⟨hclose.current, rfl, rfl⟩), rfl, hclose.skip rfl⟩
  | false =>
    have hnext : (s.skip 1).Faces rest := hfaces.skip hend
    rw [takeSymbol_bind_apply, if_neg (by rw [hnext.current]; exact hrest)]
    exact ⟨_, _, rfl, rfl, hnext⟩

end

end Grammar

end SearchSql
