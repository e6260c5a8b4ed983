import SearchSql.Proofs.LeafReading
import SearchSql.Proofs.Lexing
import SearchSql.Proofs.Sight

/-!
# What stands ahead

What the grammar looks for in front of an operand depends on the kinds of the tokens ahead. Behind a
field, an equals sign and the name of a relevance function take the field for themselves
(`JoinsField`). Looking over a name finds the tokens at which reading it ends
(`afterName?_of_qualifiedName`).
-/

set_option autoImplicit false

namespace SearchSql.Grammar

open SearchSql.Grammar.Parser

variable {s t : State}

/-! ## Kinds of tokens ahead -/

/-- The kinds of the tokens ahead are those a cursor sees. -/
theorem kindAt_ahead (c : Cursor) (k : Nat) : kindAt c.ahead k = (c.peek k).kind := by
  unfold kindAt Cursor.peek
  cases c.ahead[k]? with
  | none => exact (eq_of_beq c.closing_isEnd).symm
  | some t => rfl

/-- The first kind ahead is that of the current token. -/
theorem kindAt_zero (c : Cursor) : kindAt c.ahead 0 = c.current.kind := by
  rw [kindAt_ahead, Cursor.peek_zero]

/-- The token under the cursor is the first of those ahead. -/
theorem ahead_eq_cons {c : Cursor} (h : c.current.isEnd = false) :
    c.ahead = c.current :: (c.skip 1).ahead := by
  obtain ⟨passed, ahead, closing, hclosing⟩ := c
  cases ahead with
  | nil => exact absurd (hclosing.symm.trans h) nofun
  | cons t ts =>
    have ht : t.isEnd = false := h
    simp [Cursor.skip, Cursor.advance, Cursor.current, ht]

/-- The tokens ahead are `tokens`, wherever they stand. -/
def State.Faces (s : State) (tokens : List Token) : Prop :=
  s.cursor.ahead.map Token.placeless = tokens

section

variable {u : Token} {tokens : List Token}

/-- The kinds ahead are those of the tokens faced. -/
theorem State.Faces.kindAt (h : s.Faces tokens) (k : Nat) :
    kindAt s.cursor.ahead k = Grammar.kindAt tokens k := by
  unfold Grammar.kindAt
  rw [← show s.cursor.ahead.map Token.placeless = tokens from h, List.getElem?_map]
  cases s.cursor.ahead[k]? <;> rfl

/-- A look ahead sees the tokens faced. -/
theorem State.Faces.peek (h : s.Faces tokens) (k : Nat) :
    (s.cursor.peek k).kind = Grammar.kindAt tokens k := by
  rw [← kindAt_ahead, h.kindAt]

/-- The current token has the kind of the first token faced. -/
theorem State.Faces.current (h : s.Faces tokens) :
    s.cursor.current.kind = Grammar.kindAt tokens 0 := by
  rw [← kindAt_zero, h.kindAt]

/-- As many tokens are ahead as are faced. -/
theorem State.Faces.length (h : s.Faces tokens) : s.cursor.ahead.length = tokens.length := by
  rw [← show s.cursor.ahead.map Token.placeless = tokens from h, List.length_map]

/-- The token under the cursor is the first of the tokens ahead. -/
theorem State.Faces.current_placeless (h : s.Faces (u :: tokens)) :
    s.cursor.current.placeless = u := by
  unfold Cursor.current
  obtain ⟨t, ts, hahead, ht, -⟩ := List.map_eq_cons_iff.1 (show _ = u :: tokens from h)
  rw [hahead, List.headD_cons, ht]

/-- The current token has the text of the first token faced. -/
theorem State.Faces.text (h : s.Faces (u :: tokens)) : s.cursor.current.text = u.text := by
  rw [← h.current_placeless]
  rfl

/-- Behind the first token the others are faced. -/
theorem State.Faces.skip (h : s.Faces (u :: tokens)) (hend : u.isEnd = false) :
    (s.skip 1).Faces tokens := by
  have hcurrent : s.cursor.current.isEnd = false := by
    rw [← hend, ← h.current_placeless]
    rfl
  unfold State.Faces at h ⊢
  rw [ahead_eq_cons hcurrent, List.map_cons] at h
  exact (List.cons.inj h).2

end

/-- A parse of a text starts in front of its tokens. -/
theorem faces_ofTokens [Time.Library] {text : String} {tokens : List Token} (settings : Settings)
    (h : Token.tokensOf text.toList = tokens ++ [.ending]) :
    (State.ofTokens (Token.tokenize text) settings).Faces tokens := by
  obtain ⟨ts, last, heq, hts, hlast⟩ := List.map_eq_append_iff.1 h
  obtain ⟨e, rfl, he⟩ := List.map_eq_singleton_iff.1 hlast
  have hend : e.isEnd = true := by
    show e.placeless.isEnd = true
    rw [he]
    rfl
  show (Cursor.ofTokens (Token.tokensFrom 0 text.toList)).ahead.map Token.placeless = tokens
  unfold Cursor.ofTokens
  rw [heq, List.getLast?_concat]
  simp only [hend, dif_pos, List.dropLast_concat]
  exact hts

/-! ## Relevance functions behind fields -/

/-- Whether an equals sign and the name of a relevance function that may stand behind its field are
in front. -/
def JoinsField (tokens : List Token) : Prop :=
  kindAt tokens 0 = .symbol .eq ∧
    ((kindAt tokens 1).bareWord?.bind fieldEqualsKind?).isSome = true ∧
      kindAt tokens 2 = .symbol .leftParen

/-- A search of one field starts at a field with an equals sign and the name of the function behind
it. -/
theorem startsFieldEquals_iff {tokens : List Token} :
    startsFieldEquals tokens = true ↔
      ∃ rest, afterField? tokens = some rest ∧ JoinsField rest := by
  unfold startsFieldEquals JoinsField
  cases afterField? tokens with
  | none => simp
  | some rest =>
    match rest with
    | [] | [a] | [a, b] => simp
    | a :: b :: c :: rest => simp [and_assoc]

/-- No search of one field starts where neither follows a field. -/
theorem startsFieldEquals_eq_false {tokens : List Token}
    (h : ∀ rest, afterField? tokens = some rest → ¬JoinsField rest) :
    startsFieldEquals tokens = false := by
  refine Bool.eq_false_iff.2 fun heq => ?_
  obtain ⟨rest, hrest, hjoins⟩ := startsFieldEquals_iff.1 heq
  exact h rest hrest hjoins

/-- A field starts with a string, with a name, or with a dot. -/
theorem afterField?_eq_none {tokens : List Token} (hstring : (kindAt tokens 0).isString = false)
    (hname : (kindAt tokens 0).isNameLike = false) (hdot : kindAt tokens 0 ≠ .symbol .dot) :
    afterField? tokens = none := by
  match tokens with
  | [] => rfl
  | [t] =>
    have ht : t.kind.isString = false := hstring
    have ht' : t.kind.isNameLike = false := hname
    rw [afterField?, ht, if_neg Bool.false_ne_true, afterName?, afterIdent?, ht',
      if_neg Bool.false_ne_true, Option.map_none]
  | t :: u :: rest =>
    have ht : t.kind.isString = false := hstring
    have ht' : t.kind.isNameLike = false := hname
    have ht'' : (t.kind == .symbol .dot) = false := beq_eq_false_iff_ne.2 hdot
    rw [afterField?, ht, if_neg Bool.false_ne_true, afterName?, afterIdent?, ht',
      if_neg Bool.false_ne_true, ht'', Bool.false_and, if_neg Bool.false_ne_true, Option.map_none]

/-! ## Names -/

/-- Without a dot no segment follows. -/
theorem afterSegments_of_ne_dot {tokens : List Token} (h : kindAt tokens 0 ≠ .symbol .dot) :
    afterSegments tokens = tokens := by
  match tokens with
  | [] | [t] => rfl
  | t :: u :: rest =>
    have ht : (t.kind == .symbol .dot) = false := beq_eq_false_iff_ne.2 h
    simp [afterSegments, ht]

/-- An identifier without a dot behind it is a whole name. -/
theorem afterName?_of_ident {tokens rest : List Token} (h : afterIdent? tokens = some rest)
    (hdot : kindAt rest 0 ≠ .symbol .dot) : afterName? tokens = some rest := by
  unfold afterName?
  rw [h, Option.map_some, afterSegments_of_ne_dot hdot]

/-- A name is an identifier. -/
theorem afterIdent?_of_name {u : Token} {rest : List Token} (h : u.kind.isNameLike = true) :
    afterIdent? (u :: rest) = some rest := by simp [afterIdent?, h]

/-- A token that stands for a name may be one. -/
theorem isNameLike_of_name {library : Time.Library} {value : String} {bare : Bool} {u : Token}
    (h : (Mark.name value bare).Denotes library u) : u.kind.isNameLike = true := by
  obtain hname | hquoted | ⟨word, hword, hlike, -⟩ := h
  · rw [hname]
    rfl
  · rw [hquoted]
    rfl
  · rw [hword]
    exact hlike

/-- Looking over an identifier finds where reading it ends. -/
theorem afterIdent?_of_ident {name : Ident} (h : ident s = .ok name t) :
    afterIdent? s.cursor.ahead = some t.cursor.ahead := by
  obtain ⟨rfl, -, hdenotes⟩ | ⟨value, hdot, hname, rfl, rfl⟩ := ident_eq_ok h
  · rw [ahead_eq_cons (isEnd_of_name hdenotes)]
    exact afterIdent?_of_name (isNameLike_of_name hdenotes)
  · have hpeek := Cursor.current_skip_one (isEnd_of_symbol hdot)
    have hend : (s.skip 1).cursor.current.isEnd = false :=
      isEnd_eq_false (by rw [State.skip_cursor, hpeek, hname]; nofun)
    have hsecond : (s.cursor.skip 1).current.kind = .name value := by rw [hpeek, hname]
    rw [ahead_eq_cons (isEnd_of_symbol hdot), ahead_eq_cons (c := s.cursor.skip 1) hend]
    simp [afterIdent?, hdot, hsecond, TokenKind.isNameLike, TokenKind.isBareName]

/-- Looking over a name goes on as long as reading it does. -/
theorem afterSegments_of_namePart {names : List Ident × Span} {r : ForInStep (List Ident × Span)}
    (h : namePart names s = .ok r t) :
    afterSegments s.cursor.ahead = afterSegments t.cursor.ahead ∧
      ∀ found, r = .done found → afterSegments t.cursor.ahead = t.cursor.ahead := by
  unfold namePart at h
  rw [atSymbol_bind_apply, peek_bind_apply] at h
  split at h
  -- A dot with a name behind it is passed, and the name is a single token.
  · next hdot =>
    obtain ⟨hsign, hlike⟩ := Bool.and_eq_true_iff.1 hdot
    have hkind : s.cursor.current.kind = .symbol .dot := eq_of_beq hsign
    rw [skip_bind_apply] at h
    obtain ⟨part, u, hpart, hrest⟩ := bind_eq_ok_iff.1 h
    obtain ⟨rfl, rfl⟩ := pure_eq_ok_iff.1 hrest
    have hnext : (s.skip 1).cursor.current.kind.isNameLike = true := by
      rw [State.skip_cursor, Cursor.current_skip_one (isEnd_of_symbol hkind)]
      exact hlike
    refine ⟨?_, nofun⟩
    obtain ⟨rfl, -, hdenotes⟩ | ⟨value, hdot', -⟩ := ident_eq_ok hpart
    · rw [ahead_eq_cons (isEnd_of_symbol hkind),
        ahead_eq_cons (c := s.cursor.skip 1) (isEnd_of_name hdenotes), afterSegments, if_pos]
      · rfl
      · exact Bool.and_eq_true_iff.2 ⟨hsign, hnext⟩
    · rw [hdot'] at hnext
      cases hnext
  · next hdot =>
    obtain ⟨rfl, rfl⟩ := pure_eq_ok_iff.1 h
    refine ⟨rfl, fun _ _ => ?_⟩
    rw [← kindAt_zero, ← kindAt_ahead] at hdot
    rcases htokens : s.cursor.ahead with _ | ⟨u, _ | ⟨v, rest⟩⟩
    · rfl
    · rfl
    · rw [htokens] at hdot
      exact (afterSegments.eq_1 u v rest).trans (if_neg hdot)

/-- Looking over a name finds where reading it ends. -/
theorem afterName?_of_qualifiedName {name : QualifiedName} (h : qualifiedName s = .ok name t) :
    afterName? s.cursor.ahead = some t.cursor.ahead := by
  rw [qualifiedName_eq] at h
  obtain ⟨first, u, hfirst, hrest⟩ := bind_eq_ok_iff.1 h
  obtain ⟨names, v, hloop, hend⟩ := bind_eq_ok_iff.1 hrest
  obtain ⟨rfl, rfl⟩ := pure_eq_ok_iff.1 hend
  unfold afterName?
  rw [afterIdent?_of_ident hfirst, Option.map_some]
  obtain ⟨rest, w, hw, hdone⟩ := exists_done_of_loop
    (P := fun _ w => afterSegments u.cursor.ahead = afterSegments w.cursor.ahead)
    (fun _ _ _ _ hstart hr => hstart.trans (afterSegments_of_namePart hr).1) rfl hloop
  obtain ⟨hlast, hstop⟩ := afterSegments_of_namePart hdone
  rw [hw, hlast, hstop names rfl]

end SearchSql.Grammar
