import SearchSql.Proofs.Agreement
import SearchSql.Proofs.Retracing
import SearchSql.Proofs.Slices

/-!
# What two runs see ahead

In front of an operand, and behind an expression, a few tokens decide how a parse goes on. When a run
is retraced over written tokens, these are not the tokens that the run itself saw: words may be
written in another case, names with or without quotes, and an alias gets its `AS`. What matters is
that no decision comes out in another way. `Heads` says so in front of an expression, `Alike` behind
one.

Behind an expression it is enough that what the written tokens would go on with, the run itself could
have gone on with as well: since it did not, neither does the run over the written tokens.
-/

set_option autoImplicit false

namespace SearchSql.Grammar

open SearchSql.Grammar.Parser

variable {library : Time.Library} {c : Cursor} {tokens rest : List Token} {kind : TokenKind}

/-! ## Looking ahead -/

section

variable {s : State} (h : s.Faces tokens)

include h

/-- The tokens faced are those ahead, seen without their places. -/
theorem State.Faces.eq_map : tokens = s.cursor.ahead.map (Token.view (.moved fun _ => default)) := by
  rw [← show s.cursor.ahead.map Token.placeless = tokens from h]
  refine List.map_congr_left fun u _ => ?_
  obtain ⟨kind, text, span⟩ := u
  cases kind <;> rfl

/-- A look ahead for a search of one field sees the tokens faced. -/
theorem State.Faces.startsFieldEquals :
    startsFieldEquals s.cursor.ahead = Grammar.startsFieldEquals tokens := by
  rw [h.eq_map, startsFieldEquals_map (View.lawful_moved fun _ _ => rfl)]

/-- A look ahead for the fields of a nested value sees the tokens faced. -/
theorem State.Faces.startsNestedAll :
    startsNestedAll s.cursor.ahead = Grammar.startsNestedAll tokens := by
  rw [h.eq_map, startsNestedAll_map]

end

/-! ## In front of expressions -/

/-- Whether an expression may be written with a token of this kind in front. -/
def isOpening : TokenKind → Bool
  | .integer | .real | .string _ | .name _ | .quotedName _ => true
  | .symbol .minus | .symbol .leftParen | .symbol .dot => true
  | .keyword .NOT | .keyword .TRUE | .keyword .FALSE | .keyword .NULL | .keyword .INTERVAL => true
  | .keyword .CASE | .keyword .CAST | .keyword .DATETIME => true
  | .keyword .DATE | .keyword .TIME | .keyword .TIMESTAMP => true
  | _ => false

/-- The outlook in front of an expression. A parenthesis, a negation, a call and a relevance function
behind its field are in front of the run itself if they are in front of the written tokens, and a
name at the start is not followed by a dot. -/
structure Heads (c : Cursor) (tokens : List Token) : Prop where
  opening : isOpening (kindAt tokens 0) = true
  paren : kindAt tokens 0 = .symbol .leftParen → c.current.kind = .symbol .leftParen
  not : kindAt tokens 0 = .keyword .NOT → c.current.kind = .keyword .NOT
  called : ∀ word, (kindAt tokens 0).bareWord? = some word →
    kindAt tokens 1 = .symbol .leftParen →
      c.current.kind.bareWord? = some word ∧ (c.peek 1).kind = .symbol .leftParen
  joins : startsFieldEquals tokens = true → startsFieldEquals c.ahead = true
  dotless : ∀ rest, afterName? tokens = some rest → kindAt rest 0 ≠ .symbol .dot

/-- What an expression starts with has an opening kind. -/
theorem Heads.ne (h : Heads c tokens) (hkind : isOpening kind = false) : kindAt tokens 0 ≠ kind := by
  intro heq
  rw [← heq, h.opening] at hkind
  cases hkind

/-- Whether no field and no name may start with a token of this kind. -/
def isFieldless (kind : TokenKind) : Bool :=
  !kind.isString && !kind.isNameLike && kind != .symbol .dot

/-- No identifier is in front where no field starts. -/
theorem afterIdent?_of_isFieldless (h : isFieldless (kindAt tokens 0) = true) :
    afterIdent? tokens = none := by
  simp only [isFieldless, Bool.and_eq_true, Bool.not_eq_true', bne_iff_ne] at h
  cases tokens with
  | nil => rfl
  | cons t ts =>
    have hdot : (t.kind == .symbol .dot) = false := beq_eq_false_iff_ne.2 h.2
    have hname : t.kind.isNameLike = false := h.1.2
    cases ts with
    | nil => simp [afterIdent?, hname]
    | cons u us => simp [afterIdent?, hname, hdot]

/-- No name is in front where no field starts. -/
theorem afterName?_of_isFieldless (h : isFieldless (kindAt tokens 0) = true) :
    afterName? tokens = none := by
  unfold afterName?
  rw [afterIdent?_of_isFieldless h]
  rfl

/-- No field is in front where none starts. -/
theorem afterField?_of_isFieldless (h : isFieldless (kindAt tokens 0) = true) :
    afterField? tokens = none := by
  have hname := afterName?_of_isFieldless h
  simp only [isFieldless, Bool.and_eq_true, Bool.not_eq_true', bne_iff_ne] at h
  cases tokens with
  | nil => rfl
  | cons t ts =>
    have hstring : t.kind.isString = false := h.1.1
    simp [afterField?, hstring, hname]

/-- In front of what starts with no field, only the kind of the first token matters. -/
theorem heads_of_isFieldless (hopening : isOpening (kindAt tokens 0) = true)
    (hfield : isFieldless (kindAt tokens 0) = true)
    (hsame : kindAt tokens 0 = .symbol .leftParen ∨ kindAt tokens 0 = .keyword .NOT →
      c.current.kind = kindAt tokens 0) : Heads c tokens where
  opening := hopening
  paren h := (hsame (.inl h)).trans h
  not h := (hsame (.inr h)).trans h
  called word hword _ := by
    cases hkind : kindAt tokens 0 with
    | name value =>
      rw [hkind] at hfield
      cases hfield
    | _ =>
      rw [hkind] at hword
      cases hword
  joins h := by
    obtain ⟨rest, hrest, -⟩ := startsFieldEquals_iff.1 h
    rw [afterField?_of_isFieldless hfield] at hrest
    cases hrest
  dotless rest h := by
    rw [afterName?_of_isFieldless hfield] at h
    cases h

/-- The outlook in front of an expression that is not negated. -/
def Operands : Outlook := fun c tokens => Heads c tokens ∧ kindAt tokens 0 ≠ .keyword .NOT

/-- A token of the same kind in front of both, with which no field starts. -/
theorem Meets.heads (h : Meets kind c tokens) (hopening : isOpening kind = true)
    (hfield : isFieldless kind = true) : Heads c tokens := by
  obtain ⟨hsource, rfl⟩ := h
  exact heads_of_isFieldless hopening hfield fun _ => hsource

/-! ## Behind expressions -/

/-- The outlook behind an expression: what the written tokens would go on with is in front of the run
itself as well. -/
structure Alike [library : Time.Library] (c : Cursor) (tokens : List Token) : Prop where
  paren : kindAt tokens 0 ≠ .symbol .leftParen
  dot : kindAt tokens 0 ≠ .symbol .dot
  comma : kindAt tokens 0 = .symbol .comma → c.current.kind = .symbol .comma
  keyword : ∀ word, kindAt tokens 0 = .keyword word → word ≠ .AS → c.current.kind = .keyword word
  naming : kindAt tokens 0 = .keyword .AS ∨ (kindAt tokens 0).isNameLike = true →
    c.current.kind = .keyword .AS ∨ c.current.kind.isNameLike = true
  arithmetic : ∀ op, ArithmeticOp.ofKind? (kindAt tokens 0) = some op →
    ArithmeticOp.ofKind? c.current.kind = some op
  test : ∀ test width, Test.ofKinds? (kindAt tokens 0) (kindAt tokens 1) (kindAt tokens 2) =
    some (test, width) → ∃ width', Test.at? c = some (test, width')
  joins : JoinsField tokens → JoinsField c.ahead
  /-- No filter is behind an order that is in front of the written tokens. -/
  filter : ∀ s : State, s.Faces tokens → ∀ b, ¬Doomed library b s.cursor

/-- The outlook behind a constant. -/
structure Follows (c : Cursor) (tokens : List Token) : Prop where
  paren : kindAt tokens 0 ≠ .symbol .leftParen
  dot : kindAt tokens 0 ≠ .symbol .dot
  joins : JoinsField tokens → JoinsField c.ahead

/-- What is alike on both sides may follow an expression. -/
theorem Alike.follows (h : Alike c tokens) : Follows c tokens := ⟨h.paren, h.dot, h.joins⟩

/-- Behind anything, a token may follow that goes on with nothing. -/
theorem follows_of_ne (hparen : kindAt tokens 0 ≠ .symbol .leftParen)
    (hdot : kindAt tokens 0 ≠ .symbol .dot) (heq : kindAt tokens 0 ≠ .symbol .eq) :
    Follows c tokens := ⟨hparen, hdot, fun h => absurd h.1 heq⟩

/-- Without an order in front no filter is given up. -/
theorem not_doomed_of_ne (h : kindAt tokens 0 ≠ .keyword .ORDER) :
    ∀ s : State, s.Faces tokens → ∀ b, ¬Doomed library b s.cursor :=
  fun _ hfaces _ hdoomed => h (hfaces.current.symm.trans hdoomed.atOrder)

/-- Whether a token of this kind behind an expression is seen alike by whoever sees it. -/
def isPlainOutlook : TokenKind → Bool
  | .symbol .leftParen | .symbol .dot | .symbol .eq | .symbol .lt | .symbol .gt => false
  | .keyword .IS | .keyword .NOT | .keyword .IN => false
  | _ => true

/-- A plain kind starts no test, whatever follows. -/
theorem ofKinds?_of_isPlainOutlook (h : isPlainOutlook kind = true)
    (second third second' third' : TokenKind) :
    Test.ofKinds? kind second third = Test.ofKinds? kind second' third' := by
  cases kind with
  | symbol sign =>
    cases sign
    all_goals first
      | rfl
      | cases h
  | keyword word =>
    cases word
    all_goals first
      | rfl
      | cases h
  | _ => rfl

/-- Behind a plain kind both sides are alike, unless a filter is given up there. -/
theorem Meets.alike_of_filter (h : Meets kind c tokens) (hplain : isPlainOutlook kind = true)
    (hfilter : ∀ s : State, s.Faces tokens → ∀ b, ¬Doomed library b s.cursor) : Alike c tokens := by
  obtain ⟨hsource, rfl⟩ := h
  have hne {k : TokenKind} (hk : isPlainOutlook k = false) : kindAt tokens 0 ≠ k := by
    intro heq
    rw [heq, hk] at hplain
    cases hplain
  refine ⟨hne rfl, hne rfl, hsource.trans, fun _ hword _ => hsource.trans hword, ?_, ?_, ?_, ?_,
    hfilter⟩
  · rw [hsource]
    exact id
  · rw [hsource]
    exact fun _ => id
  · intro test width htest
    refine ⟨width, ?_⟩
    unfold Test.at?
    rw [Cursor.peek_zero, hsource, ← htest]
    exact ofKinds?_of_isPlainOutlook hplain _ _ _ _
  · exact fun h => absurd h.1 (hne rfl)

/-- Behind a plain kind that is no order both sides are alike. -/
theorem Meets.alike (h : Meets kind c tokens) (hplain : isPlainOutlook kind = true)
    (horder : kind ≠ .keyword .ORDER) : Alike c tokens :=
  h.alike_of_filter hplain (not_doomed_of_ne (h.2.trans_ne horder))

/-- At the end, nothing goes on. -/
theorem alike_of_end (h : kindAt tokens 0 = .endOfInput) : Alike c tokens := by
  have hne {k : TokenKind} (hk : k ≠ .endOfInput) : kindAt tokens 0 ≠ k := h.trans_ne hk.symm
  constructor
  case filter => exact not_doomed_of_ne (hne TokenKind.noConfusion)
  all_goals simp [h, ArithmeticOp.ofKind?, Test.ofKinds?, Test.ofWord?, TokenKind.isNameLike,
    JoinsField]

end SearchSql.Grammar
