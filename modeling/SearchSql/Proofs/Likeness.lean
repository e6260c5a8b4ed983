import SearchSql.Proofs.Fuel
import SearchSql.Proofs.Sight

/-!
# Token lists that look alike

Two runs are compared whose tokens in sight are the same as seen by a view: the second run gives what
the view shows of the first. A `Likeness` says which view that is, where the comparison of tokens
ends, and what links the diagnostics of two runs. What rules are written with respects a likeness, one
lemma for each parser that rules share.

Parsers are compared from states with something in sight (`front`) or from all states.
-/

set_option autoImplicit false

namespace SearchSql.Grammar

open SearchSql.Grammar.Parser

variable {α β γ δ : Type}

/-- A way to compare runs whose tokens look alike. -/
structure Likeness where
  view : View
  /-- The kinds of tokens at which the comparison of two token lists ends. -/
  ends : TokenKind → Bool
  /-- What links the tokens at which it ends. -/
  borders : Token → Token → Prop
  /-- What links the diagnostics of two states. -/
  log : State → State → Prop
  /-- What links two refusals and the states in which they are made. -/
  refused : Diagnostic → State → Diagnostic → State → Prop

/-- The settings and the diagnostics of two states are the same. -/
structure State.Keeps (s t : State) : Prop where
  settings : t.settings = s.settings
  diagnostics : t.diagnostics = s.diagnostics
  lastReported : t.lastReported = s.lastReported

/-- The answer of a step of a repetition, with what it has come to changed by `f`. -/
def stepView (f : α → β) : ForInStep α → ForInStep β
  | .done a => .done (f a)
  | .yield a => .yield (f a)

namespace Likeness

variable (L : Likeness)

/-- The tokens ahead of a cursor that are in sight. -/
def sight (c : Cursor) : List Token := inSight L.ends c.ahead

/-- The first token from a cursor on at which the comparison ends. -/
def border (c : Cursor) : Token := (c.ahead.find? fun t => L.ends t.kind).getD c.closing

/-- Two states from which runs are compared. -/
structure Linked (s s' : State) : Prop where
  frame : s.SameFrame s'
  border : L.borders (L.border s.cursor) (L.border s'.cursor)
  sight : L.sight s'.cursor = (L.sight s.cursor).map (Token.view L.view)
  position : s'.cursor.position = s.cursor.position
  previous : s'.cursor.previousSpan = L.view.span s.cursor.previousSpan
  log : L.log s s'

/-- The tokens under the cursors of two linked states. -/
inductive Seen (t : Token) : Token → Prop where
  | inSight : L.ends t.kind = false → Seen t (t.view L.view)
  | atEnd {t' : Token} : L.ends t.kind = true → L.ends t'.kind = true → L.borders t t' → Seen t t'

/-- Diagnostics for the same reason, about places that look alike. -/
inductive Matching : Diagnostic → Diagnostic → Prop where
  | unexpected (expected : String) {t t' : Token} : L.Seen t t' →
      Matching (.unexpected expected t) (.unexpected expected t')
  | noAlternative (construct : String) (expected : List String) {t t' : Token} : L.Seen t t' →
      Matching (.noAlternative construct expected t) (.noAlternative construct expected t')
  | unknownFunction (name : String) {t t' : Token} : L.Seen t t' →
      Matching (.unknownFunction name t) (.unknownFunction (L.view.word name) t')
  | malformed (literal reason : String) (span : Span) :
      Matching (.malformed literal reason span) (.malformed literal reason (L.view.span span))
  | noProgress (rule : String) {t t' : Token} : L.Seen t t' →
      Matching ⟨.noProgress rule, t.span⟩ ⟨.noProgress rule, t'.span⟩
  | tooDeep (limit : Nat) {t t' : Token} : L.Seen t t' →
      Matching ⟨.tooDeep limit, t.span⟩ ⟨.tooDeep limit, t'.span⟩

/-- How two compared runs end: the second gives what `f` makes of what the first gives. -/
inductive Ends (f : α → β) : Run α → Run β → Prop where
  | ok (a : α) {t t' : State} : L.Linked t t' → Ends f (.ok a t) (.ok (f a) t')
  | refused {d d' : Diagnostic} {t t' : State} : L.refused d t d' t' →
      Ends f (.error (.rejected d) t) (.error (.rejected d') t')
  | exhausted {t t' : State} : Ends f (.error .outOfFuel t) (.error .outOfFuel t')

/-- Parsers whose runs from linked states end alike. -/
def Like (front : Bool) (f : α → β) (p : Parser α) (q : Parser β) : Prop :=
  ∀ s s', L.Linked s s' → (front = true → L.sight s.cursor ≠ []) → L.Ends f (p s) (q s')

/-- What makes a likeness one that the parsers respect. -/
structure Lawful : Prop where
  view : L.view.Lawful
  ends : EndKinds L.ends
  log_same {s s' t t' : State} : L.log s s' → s.Keeps t → s'.Keeps t' → L.log t t'
  refused_frame {d d' : Diagnostic} {t t' : State} : L.refused d t d' t' → t.SameFrame t'
  refused_same {d d' : Diagnostic} {s s' t t' : State} : L.refused d s d' s' → t.SameFrame t' →
    s.Keeps t → s'.Keeps t' → t.cursor = s.cursor → t'.cursor = s'.cursor → L.refused d t d' t'
  refused_matching {d d' : Diagnostic} {s s' : State} : L.Linked s s' → L.Matching d d' →
    L.refused d s d' s'
  malformedLiteral {s s' : State} (kind : LiteralKind) (text : String) (fault : LiteralFault)
    (span : Span) : L.Linked s s' → L.Ends (Literal.view L.view)
      (malformedLiteral kind text fault span s)
      (malformedLiteral kind (L.view.literalText kind text) fault (L.view.span span) s')

variable {L} {front : Bool}

/-! ## Linked states -/

/-- States are linked behind whatever changes their counters alike and nothing else. -/
theorem Linked.same {s s' t t' : State} (hL : L.Lawful) (h : L.Linked s s')
    (hframe : t.SameFrame t') (hs : s.Keeps t) (hs' : s'.Keeps t') (hcursor : t.cursor = s.cursor)
    (hcursor' : t'.cursor = s'.cursor) : L.Linked t t' where
  frame := hframe
  border := by
    rw [hcursor, hcursor']
    exact h.border
  sight := by rw [hcursor, hcursor', h.sight]
  position := by rw [hcursor, hcursor', h.position]
  previous := by rw [hcursor, hcursor', h.previous]
  log := hL.log_same h.log hs hs'

/-- Nothing is in sight just if the comparison ends at the cursor. -/
theorem sight_eq_nil_iff (hL : L.Lawful) (c : Cursor) :
    L.sight c = [] ↔ L.ends c.current.kind = true := by
  unfold sight
  obtain ⟨passed, ahead, closing, hclosing⟩ := c
  cases ahead with
  | nil =>
    have hkind : closing.kind = .endOfInput := eq_of_beq hclosing
    simp [inSight, Cursor.current, hkind, hL.ends.endOfInput]
  | cons t ts =>
    show inSight L.ends (t :: ts) = [] ↔ L.ends t.kind = true
    cases ht : L.ends t.kind with
    | true => simp [inSight_cons_of_ends ts ht]
    | false => simp [inSight_cons ts ht]

/-- The comparison goes on in front of no end of the input. -/
theorem isEnd_of_ends (hL : L.Lawful) {t : Token} (h : L.ends t.kind = false) : t.isEnd = false :=
  isEnd_eq_false fun hkind => by
    rw [hkind, hL.ends.endOfInput] at h
    cases h

/-- With something in sight, the token under the cursor is the first of it. -/
theorem sight_cons (hL : L.Lawful) {c : Cursor} (h : L.ends c.current.kind = false) :
    L.sight c = c.current :: L.sight c.advance := by
  unfold sight
  obtain ⟨passed, ahead, closing, hclosing⟩ := c
  cases ahead with
  | nil =>
    have hkind : closing.kind = .endOfInput := eq_of_beq hclosing
    have hclosing' : L.ends closing.kind = false := h
    rw [hkind, hL.ends.endOfInput] at hclosing'
    cases hclosing'
  | cons t ts =>
    have ht : L.ends t.kind = false := h
    simp [Cursor.advance, Cursor.current, isEnd_of_ends hL ht, inSight_cons ts ht]

/-- Where nothing is in sight, the token under the cursor ends the comparison. -/
theorem border_eq_current {c : Cursor} (h : L.ends c.current.kind = true) :
    L.border c = c.current := by
  unfold border
  obtain ⟨passed, ahead, closing, hclosing⟩ := c
  cases ahead with
  | nil => rfl
  | cons t ts =>
    have ht : L.ends t.kind = true := h
    simp [Cursor.current, ht]

/-- A step within sight leaves the border where it is. -/
theorem border_advance (hL : L.Lawful) {c : Cursor} (h : L.ends c.current.kind = false) :
    L.border c.advance = L.border c := by
  unfold border
  obtain ⟨passed, ahead, closing, hclosing⟩ := c
  cases ahead with
  | nil => rfl
  | cons t ts =>
    have ht : L.ends t.kind = false := h
    simp [Cursor.advance, isEnd_of_ends hL ht, ht]

/-- Where the first run goes on, so does the second. -/
theorem Linked.ends_false (hL : L.Lawful) {s s' : State} (h : L.Linked s s')
    (hend : L.ends s.cursor.current.kind = false) : L.ends s'.cursor.current.kind = false := by
  rw [← Bool.not_eq_true, ← sight_eq_nil_iff hL, h.sight, sight_cons hL hend]
  nofun

/-- Where the comparison ends for the first run, it ends for the second. -/
theorem Linked.ends_true (hL : L.Lawful) {s s' : State} (h : L.Linked s s')
    (hend : L.ends s.cursor.current.kind = true) : L.ends s'.cursor.current.kind = true := by
  rw [← sight_eq_nil_iff hL, h.sight, (sight_eq_nil_iff hL _).2 hend]
  rfl

/-- The tokens under linked cursors are seen alike. -/
theorem Linked.seen (hL : L.Lawful) {s s' : State} (h : L.Linked s s') :
    L.Seen s.cursor.current s'.cursor.current := by
  cases hend : L.ends s.cursor.current.kind with
  | true =>
    have hend' := h.ends_true hL hend
    have hborder := h.border
    rw [border_eq_current hend, border_eq_current hend'] at hborder
    exact .atEnd hend hend' hborder
  | false =>
    have hsight := h.sight
    rw [sight_cons hL hend, sight_cons hL (h.ends_false hL hend)] at hsight
    rw [(List.cons.inj hsight).1]
    exact .inSight hend

/-- In sight, the token under the cursor is passed. -/
theorem previousSpan_advance (hL : L.Lawful) {c : Cursor} (h : L.ends c.current.kind = false) :
    c.advance.previousSpan = c.current.span := by
  obtain ⟨passed, ahead, closing, hclosing⟩ := c
  cases ahead with
  | nil => exact absurd (isEnd_of_ends hL h) (by simp [Cursor.current, hclosing])
  | cons t ts =>
    simp [Cursor.advance, Cursor.current, Cursor.previousSpan,
      show t.isEnd = false from isEnd_of_ends hL h]

/-- Both runs may take a token within sight. -/
theorem Linked.skip_one (hL : L.Lawful) {s s' : State} (h : L.Linked s s')
    (hend : L.ends s.cursor.current.kind = false) : L.Linked (s.skip 1) (s'.skip 1) := by
  have hend' := h.ends_false hL hend
  have hsight := h.sight
  rw [sight_cons hL hend, sight_cons hL hend'] at hsight
  refine ⟨h.frame.leads (s.leads_skip 1) (s'.leads_skip 1), ?_, (List.cons.inj hsight).2, ?_, ?_,
    hL.log_same h.log ⟨rfl, rfl, rfl⟩ ⟨rfl, rfl, rfl⟩⟩
  · show L.borders (L.border s.cursor.advance) (L.border s'.cursor.advance)
    rw [border_advance hL hend, border_advance hL hend']
    exact h.border
  · show s'.cursor.advance.position = s.cursor.advance.position
    rw [Cursor.position_advance _ (isEnd_of_ends hL hend),
      Cursor.position_advance _ (isEnd_of_ends hL hend'), h.position]
  · show s'.cursor.advance.previousSpan = L.view.span s.cursor.advance.previousSpan
    rw [previousSpan_advance hL hend, previousSpan_advance hL hend', (List.cons.inj hsight).1]
    rfl

/-! ## Combining parsers -/

/-- What is compared from all states is compared from those with something in sight. -/
theorem Like.weaken {f : α → β} {p : Parser α} {q : Parser β} (h : L.Like false f p q) :
    L.Like front f p q := fun s s' hs _ => h s s' hs nofun

theorem like_pure {f : α → β} (a : α) : L.Like front f (pure a) (pure (f a)) :=
  fun _ _ hs _ => .ok a hs

theorem like_pure_of_eq {f : α → β} {a : α} {b : β} (h : f a = b) :
    L.Like front f (pure a) (pure b) := h ▸ like_pure a

/-- Runs that end alike go on alike. -/
theorem Ends.andThen {f : α → β} {g : γ → δ} {r : Run α} {r' : Run β} {k : α → Parser γ}
    {k' : β → Parser δ} (h : L.Ends f r r')
    (hk : ∀ a t t', r = .ok a t → r' = .ok (f a) t' → L.Linked t t' → L.Ends g (k a t) (k' (f a) t')) :
    L.Ends g (Run.andThen r k) (Run.andThen r' k') := by
  cases h with
  | ok a ht => exact hk a _ _ rfl rfl ht
  | refused h => exact .refused h
  | exhausted => exact .exhausted

/-- Parsers that look alike do so one after the other. -/
theorem Like.bind {f : α → β} {g : γ → δ} {p : Parser α} {q : Parser β} {k : α → Parser γ}
    {k' : β → Parser δ} (hp : L.Like front f p q) (hk : ∀ a, L.Like false g (k a) (k' (f a))) :
    L.Like front g (p >>= k) (q >>= k') := by
  intro s s' hs hfront
  rw [bind_apply_andThen, bind_apply_andThen]
  exact (hp s s' hs hfront).andThen fun a t t' _ _ ht => hk a t t' ht nofun

/-- What they give may be changed on both sides. -/
theorem Like.map {f : α → β} {g : γ → δ} {p : Parser α} {q : Parser β} {h : α → γ} {h' : β → δ}
    (hp : L.Like front f p q) (heq : ∀ a, g (h a) = h' (f a)) :
    L.Like front g (h <$> p) (h' <$> q) :=
  hp.bind fun a => like_pure_of_eq (heq a)

/-- Failures for the same reason, about places that look alike, are compared. -/
theorem like_reject (hL : L.Lawful) {f : α → β} {d d' : Diagnostic} (h : L.Matching d d') :
    L.Like front f (reject d) (reject d') :=
  fun _ _ hs _ => .refused (hL.refused_matching hs h)

/-- Both runs are refused for the tokens under their cursors. -/
theorem like_rejectCurrent (hL : L.Lawful) {f : α → β} (expected : String) :
    L.Like front f (rejectCurrent expected) (rejectCurrent expected) :=
  fun _ _ hs _ => .refused (hL.refused_matching hs (.unexpected expected (hs.seen hL)))

/-! ## Looking at tokens -/

/-- Within sight, a token of the second run is that of the first as seen. -/
theorem Seen.eq_view {t t' : Token} (h : L.Seen t t') (hend : L.ends t.kind = false) :
    t' = t.view L.view := by
  cases h with
  | inSight _ => rfl
  | atEnd ht _ _ =>
    rw [hend] at ht
    cases ht

/-- The second run sees a sign where the first does, but for the semicolon, where a comparison may
end. -/
theorem Seen.kind_eq_symbol_iff (hL : L.Lawful) {t t' : Token} (h : L.Seen t t') {sign : Symbol}
    (hsign : sign ≠ .semicolon) : t'.kind = .symbol sign ↔ t.kind = .symbol sign := by
  have hnot {k : TokenKind} (hk : L.ends k = true) : k ≠ .symbol sign := by
    rintro rfl
    obtain heq | heq := hL.ends.eq_or_eq hk
    · cases heq
    · injection heq with heq
      exact hsign heq
  cases h with
  | inSight _ => exact t.kind.view_eq_symbol_iff sign
  | atEnd ht ht' _ => exact ⟨fun heq => absurd heq (hnot ht'), fun heq => absurd heq (hnot ht)⟩

/-- The second run sees a reserved word where the first does. -/
theorem Seen.kind_eq_keyword_iff (hL : L.Lawful) {t t' : Token} (h : L.Seen t t') {word : Keyword} :
    t'.kind = .keyword word ↔ t.kind = .keyword word := by
  have hnot {k : TokenKind} (hk : L.ends k = true) : k ≠ .keyword word := by
    rintro rfl
    obtain heq | heq := hL.ends.eq_or_eq hk <;> cases heq
  cases h with
  | inSight _ => exact t.kind.view_eq_keyword_iff word
  | atEnd ht ht' _ => exact ⟨fun heq => absurd heq (hnot ht'), fun heq => absurd heq (hnot ht)⟩

/-- A comparison ends nowhere but at a semicolon or at the end. -/
theorem ends_eq_false (hL : L.Lawful) {k : TokenKind} (h : k ≠ .endOfInput)
    (h' : k ≠ .symbol .semicolon) : L.ends k = false := by
  rw [← Bool.not_eq_true]
  intro hk
  obtain heq | heq := hL.ends.eq_or_eq hk
  · exact h heq
  · exact h' heq

theorem ends_symbol (hL : L.Lawful) {sign : Symbol} (h : sign ≠ .semicolon) :
    L.ends (.symbol sign) = false :=
  ends_eq_false hL nofun fun heq => h (TokenKind.symbol.inj heq)

theorem ends_keyword (hL : L.Lawful) (word : Keyword) : L.ends (.keyword word) = false :=
  ends_eq_false hL nofun nofun

theorem Seen.beq_symbol (hL : L.Lawful) {t t' : Token} (h : L.Seen t t') {sign : Symbol}
    (hsign : sign ≠ .semicolon) : (t'.kind == .symbol sign) = (t.kind == .symbol sign) := by
  rw [Bool.eq_iff_iff, beq_iff_eq, beq_iff_eq]
  exact h.kind_eq_symbol_iff hL hsign

theorem Seen.beq_keyword (hL : L.Lawful) {t t' : Token} (h : L.Seen t t') (word : Keyword) :
    (t'.kind == .keyword word) = (t.kind == .keyword word) := by
  rw [Bool.eq_iff_iff, beq_iff_eq, beq_iff_eq]
  exact h.kind_eq_keyword_iff hL

/-- Where the comparison goes on, there is something in sight. -/
theorem sight_ne_nil (hL : L.Lawful) {c : Cursor} (h : L.ends c.current.kind = false) :
    L.sight c ≠ [] := by
  rw [sight_cons hL h]
  nofun

/-- Where something is in sight, the comparison goes on. -/
theorem ends_current (hL : L.Lawful) {c : Cursor} (h : L.sight c ≠ []) :
    L.ends c.current.kind = false :=
  Bool.not_eq_true _ ▸ fun hend => h ((sight_eq_nil_iff hL c).2 hend)

/-- In sight, the token under the cursor is taken by both runs. -/
theorem like_take (hL : L.Lawful) : L.Like true L.view.span take take := by
  intro s s' hs hfront
  have hend := ends_current hL (hfront rfl)
  have hspan : s'.cursor.current.span = L.view.span s.cursor.current.span :=
    congrArg Token.span ((hs.seen hL).eq_view hend)
  show L.Ends _ (.ok s.cursor.current.span (s.skip 1)) (.ok s'.cursor.current.span (s'.skip 1))
  rw [hspan]
  exact .ok _ (hs.skip_one hL hend)

/-- A token in sight is taken by both. -/
theorem like_skip_one (hL : L.Lawful) : L.Like true id (Parser.skip 1) (Parser.skip 1) :=
  fun _ _ hs hfront => .ok () (hs.skip_one hL (ends_current hL (hfront rfl)))

/-- Both find a sign or neither does; where it is found, something is in sight. -/
theorem like_atSymbol_bind (hL : L.Lawful) {g : γ → δ} {sign : Symbol} (hsign : sign ≠ .semicolon)
    {k : Bool → Parser γ} {k' : Bool → Parser δ} (htrue : L.Like true g (k true) (k' true))
    (hfalse : L.Like front g (k false) (k' false)) :
    L.Like front g (atSymbol sign >>= k) (atSymbol sign >>= k') := by
  intro s s' hs hfront
  rw [atSymbol_bind_apply, atSymbol_bind_apply, (hs.seen hL).beq_symbol hL hsign]
  cases hkind : s.cursor.current.kind == .symbol sign with
  | true =>
    refine htrue s s' hs fun _ => sight_ne_nil hL ?_
    rw [eq_of_beq hkind]
    exact ends_symbol hL hsign
  | false => exact hfalse s s' hs hfront

/-- The same for a reserved word. -/
theorem like_atKeyword_bind (hL : L.Lawful) {g : γ → δ} (word : Keyword)
    {k : Bool → Parser γ} {k' : Bool → Parser δ} (htrue : L.Like true g (k true) (k' true))
    (hfalse : L.Like front g (k false) (k' false)) :
    L.Like front g (atKeyword word >>= k) (atKeyword word >>= k') := by
  intro s s' hs hfront
  rw [atKeyword_bind_apply, atKeyword_bind_apply, (hs.seen hL).beq_keyword hL]
  cases hkind : s.cursor.current.kind == .keyword word with
  | true =>
    refine htrue s s' hs fun _ => sight_ne_nil hL ?_
    rw [eq_of_beq hkind]
    exact ends_keyword hL word
  | false => exact hfalse s s' hs hfront

/-- Both take a sign, at places that look alike, or neither does. -/
theorem like_symbol (hL : L.Lawful) {sign : Symbol} (hsign : sign ≠ .semicolon) :
    L.Like front L.view.span (symbol sign) (symbol sign) :=
  like_atSymbol_bind hL hsign (like_take hL) (like_rejectCurrent hL _)

/-- The same for a reserved word. -/
theorem like_keyword (hL : L.Lawful) (word : Keyword) :
    L.Like front L.view.span (keyword word) (keyword word) :=
  like_atKeyword_bind hL word (like_take hL) (like_rejectCurrent hL _)

/-- Both take a sign that may stand here, or neither does. -/
theorem like_takeSymbol_bind (hL : L.Lawful) {g : γ → δ} {sign : Symbol} (hsign : sign ≠ .semicolon)
    {k : Bool → Parser γ} {k' : Bool → Parser δ} (htrue : L.Like false g (k true) (k' true))
    (hfalse : L.Like front g (k false) (k' false)) :
    L.Like front g (takeSymbol sign >>= k) (takeSymbol sign >>= k') := by
  intro s s' hs hfront
  have hiff := (hs.seen hL).kind_eq_symbol_iff hL hsign
  rw [takeSymbol_bind_apply, takeSymbol_bind_apply]
  by_cases hkind : s.cursor.current.kind = .symbol sign
  · rw [if_pos hkind, if_pos (hiff.2 hkind)]
    exact htrue _ _ (hs.skip_one hL (hkind ▸ ends_symbol hL hsign)) nofun
  · rw [if_neg hkind, if_neg (mt hiff.1 hkind)]
    exact hfalse s s' hs hfront

/-- The same for a reserved word. -/
theorem like_takeKeyword_bind (hL : L.Lawful) {g : γ → δ} (word : Keyword)
    {k : Bool → Parser γ} {k' : Bool → Parser δ} (htrue : L.Like false g (k true) (k' true))
    (hfalse : L.Like front g (k false) (k' false)) :
    L.Like front g (takeKeyword word >>= k) (takeKeyword word >>= k') := by
  intro s s' hs hfront
  have hiff : s'.cursor.current.kind = .keyword word ↔ s.cursor.current.kind = .keyword word :=
    (hs.seen hL).kind_eq_keyword_iff hL
  rw [takeKeyword_bind_apply, takeKeyword_bind_apply]
  by_cases hkind : s.cursor.current.kind = .keyword word
  · rw [if_pos hkind, if_pos (hiff.2 hkind)]
    exact htrue _ _ (hs.skip_one hL (hkind ▸ ends_keyword hL word)) nofun
  · rw [if_neg hkind, if_neg (mt hiff.1 hkind)]
    exact hfalse s s' hs hfront

/-- What looks at the state is compared for each pair of linked states. -/
theorem like_get_bind {g : γ → δ} {k : State → Parser γ} {k' : State → Parser δ}
    (h : ∀ s s', L.Linked s s' → (front = true → L.sight s.cursor ≠ []) →
      L.Ends g (k s s) (k' s' s')) : L.Like front g (get >>= k) (get >>= k') := h

/-- A parser that looks at the token under the cursor is compared where that token is in sight, and
where it is not. -/
theorem like_current_bind (hL : L.Lawful) {g : γ → δ} {k : Token → Parser γ} {k' : Token → Parser δ}
    (hin : ∀ t, L.ends t.kind = false → L.Like true g (k t) (k' (t.view L.view)))
    (hout : front = false → ∀ s s', L.Linked s s' → IsEndKind s.cursor.current.kind →
      IsEndKind s'.cursor.current.kind →
        L.Ends g (k s.cursor.current s) (k' s'.cursor.current s')) :
    L.Like front g (current >>= k) (current >>= k') := by
  intro s s' hs hfront
  rw [current_bind_apply, current_bind_apply]
  have hseen := hs.seen hL
  cases hend : L.ends s.cursor.current.kind with
  | false =>
    rw [hseen.eq_view hend]
    exact hin _ hend s s' hs fun _ => sight_ne_nil hL hend
  | true =>
    cases front with
    | false => exact hout rfl s s' hs (hL.ends.eq_or_eq hend) (hL.ends.eq_or_eq (hs.ends_true hL hend))
    | true => exact absurd ((sight_eq_nil_iff hL _).2 hend) (hfront rfl)

/-- Where nothing is in sight, it does not matter which token is under the cursor. -/
theorem like_current_bind_of_eq (hL : L.Lawful) {g : γ → δ} {k : Token → Parser γ}
    {k' : Token → Parser δ} {r : Parser γ} {r' : Parser δ}
    (hin : ∀ t, L.ends t.kind = false → L.Like true g (k t) (k' (t.view L.view)))
    (hr : L.Like false g r r') (hk : ∀ t, IsEndKind t.kind → k t = r)
    (hk' : ∀ t, IsEndKind t.kind → k' t = r') :
    L.Like front g (current >>= k) (current >>= k') := by
  refine like_current_bind hL hin fun _ s s' hs hend hend' => ?_
  rw [hk _ hend, hk' _ hend']
  exact hr s s' hs nofun

/-- What ends at linked cursors ends at places that look alike. -/
theorem like_spanFrom (hL : L.Lawful) (start : Span) :
    L.Like front L.view.span (spanFrom start) (spanFrom (L.view.span start)) := by
  intro s s' hs _
  have heq : L.view.span (start.merge s.cursor.previousSpan) =
      (L.view.span start).merge s'.cursor.previousSpan := by
    rw [hL.view.merge, hs.previous]
  show L.Ends _ (.ok (start.merge s.cursor.previousSpan) s)
    (.ok ((L.view.span start).merge s'.cursor.previousSpan) s')
  rw [← heq]
  exact .ok _ hs

/-- A parser that builds something of what it was given and of where that was read. -/
theorem like_spanFrom_bind (hL : L.Lawful) {g : γ → δ} {k : Span → γ} {k' : Span → δ} (start : Span)
    (h : ∀ span, g (k span) = k' (L.view.span span)) :
    L.Like front g (spanFrom start >>= fun span => pure (k span))
      (spanFrom (L.view.span start) >>= fun span => pure (k' span)) :=
  (like_spanFrom hL start).bind fun span => like_pure_of_eq (h span)

/-! ## Repetitions -/

/-- Steps that look alike are repeated alike: both repetitions stop in the same round, as each round
takes a token within sight. -/
theorem like_loop {f : α → β} {step : α → Parser (ForInStep α)} {step' : β → Parser (ForInStep β)}
    (hstep : ∀ a, L.Like false (stepView f) (step a) (step' (f a))) (hadv : ∀ a, Advances (step a))
    (hadv' : ∀ b, Advances (step' b)) (a : α) :
    L.Like front f (loop a step) (loop (f a) step') := by
  have hrounds : ∀ (rounds rounds' : List Token) (a : α) (s s' : State), L.Linked s s' →
      s.cursor.ahead.length ≤ rounds.length → s'.cursor.ahead.length ≤ rounds'.length →
        L.Ends f (loopOver step rounds a s) (loopOver step' rounds' (f a) s') := by
    -- By induction on the tokens ahead of the first run; every round takes one of them, in both.
    intro rounds
    induction rounds with
    | nil =>
      intro rounds' a s s' hs hlen hlen'
      rw [loopOver_eq, loopOver_eq, bind_apply_andThen, bind_apply_andThen]
      refine (hstep a s s' hs nofun).andThen fun r t t' hr _ ht => ?_
      cases r with
      | done a => exact .ok a ht
      | yield a =>
        have hlt := hadv _ s t a hr
        simp only [List.length_nil] at hlen
        omega
    | cons _ rounds ih =>
      intro rounds' a s s' hs hlen hlen'
      rw [loopOver_eq, loopOver_eq, bind_apply_andThen, bind_apply_andThen]
      refine (hstep a s s' hs nofun).andThen fun r t t' hr hr' ht => ?_
      cases r with
      | done a => exact .ok a ht
      | yield a =>
        have hlt := hadv _ s t a hr
        have hlt' := hadv' _ s' t' (f a) hr'
        cases rounds' with
        | nil =>
          simp only [List.length_nil] at hlen'
          omega
        | cons _ rounds' =>
          simp only [List.length_cons] at hlen hlen'
          exact ih rounds' a t t' ht (by omega) (by omega)
  intro s s' hs _
  exact hrounds _ _ a s s' hs (Nat.le_refl _) (Nat.le_refl _)

/-- A token is taken by both or by neither. -/
theorem like_progress (hL : L.Lawful) (f : α → β) (rule : String) (before : Nat) (item : α) :
    L.Like front f (progress rule before item) (progress rule before (f item)) := by
  intro s s' hs _
  unfold progress
  rw [get_bind_apply, get_bind_apply, hs.position]
  dsimp only
  split
  · exact .refused (hL.refused_matching hs (.noProgress rule (hs.seen hL)))
  · exact .ok item hs

/-- Parsers that have to take a token are compared as before. -/
theorem Like.taking (hL : L.Lawful) {f : α → β} {p : Parser α} {q : Parser β} (rule : String)
    (h : L.Like front f p q) : L.Like front f (taking rule p) (Parser.taking rule q) := by
  intro s s' hs hfront
  rw [taking_eq, taking_eq, get_bind_apply, get_bind_apply, hs.position]
  exact h.bind (like_progress hL f rule _) s s' hs hfront

/-- Both lists go on with a comma or neither does. -/
theorem Like.commaStep (hL : L.Lawful) {f : α → β} {p : Parser α} {q : Parser β} (rule : String)
    (h : L.Like false f p q) (items : List α) :
    L.Like false (stepView (List.map f)) (commaStep rule p items)
      (Grammar.commaStep rule q (items.map f)) :=
  like_takeSymbol_bind hL (by decide) ((h.taking hL rule).bind fun item =>
    like_pure (ForInStep.yield (item :: items))) (like_pure (ForInStep.done items))

/-- Lists of items that look alike look alike. -/
theorem Like.commaList (hL : L.Lawful) {f : α → β} {first next : Parser α} {first' next' : Parser β}
    (rule : String) (hfirst : L.Like front f first first') (hnext : L.Like false f next next')
    (hs : Steady next) (hs' : Steady next') :
    L.Like front (List.map f) (commaList rule first next) (Parser.commaList rule first' next') := by
  rw [commaList_eq, commaList_eq]
  refine (hfirst.taking hL rule).bind fun head => ?_
  refine (like_loop (hnext.commaStep hL rule) (Congruence.advances_commaStep rule hs)
    (Congruence.advances_commaStep rule hs') []).bind fun tail => like_pure_of_eq ?_
  rw [List.map_cons, List.map_reverse]

/-- The same where the first item is read like the others. -/
theorem Like.commaSeparated (hL : L.Lawful) {f : α → β} {p : Parser α} {q : Parser β}
    (rule : String) (h : L.Like false f p q) (hp : Steady p) (hq : Steady q) :
    L.Like front (List.map f) (Parser.commaSeparated rule p) (Parser.commaSeparated rule q) :=
  h.weaken.commaList hL rule h hp hq

/-! ## Changing the state -/

/-- Runs end alike if their counters are changed alike behind them. -/
theorem Ends.mapState (hL : L.Lawful) {f : α → β} {r : Run α} {r' : Run β} {change : State → State}
    (h : L.Ends f r r')
    (hsame : ∀ t : State, t.Keeps (change t) ∧ (change t).cursor = t.cursor)
    (hframe : ∀ t t' : State, t.SameFrame t' → (change t).SameFrame (change t')) :
    L.Ends f (mapState change r) (mapState change r') := by
  cases h with
  | ok a ht =>
    exact .ok a (ht.same hL (hframe _ _ ht.frame) (hsame _).1 (hsame _).1 (hsame _).2 (hsame _).2)
  | refused h =>
    exact .refused (hL.refused_same h (hframe _ _ (hL.refused_frame h)) (hsame _).1 (hsame _).1
      (hsame _).2 (hsame _).2)
  | exhausted => exact .exhausted

/-- Both have the levels of nesting or neither has. -/
theorem Like.nest (hL : L.Lawful) {f : α → β} {p : Parser α} {q : Parser β} (cost : Nat)
    (h : L.Like front f p q) : L.Like front f (nest cost p) (Parser.nest cost q) := by
  intro s s' hs hfront
  rw [nest_apply, nest_apply, ← hs.frame.settings, ← hs.frame.depth]
  split
  · exact .refused (hL.refused_matching hs (.tooDeep _ (hs.seen hL)))
  · have hdeep : L.Linked (s.deeper cost) (s'.deeper cost) :=
      hs.same hL (hs.frame.deeper cost) ⟨rfl, rfl, rfl⟩ ⟨rfl, rfl, rfl⟩ rfl rfl
    exact (h _ _ hdeep hfront).mapState hL (fun t => ⟨⟨rfl, rfl, rfl⟩, rfl⟩) fun t t' ht =>
      ht.shallower cost

/-- Both open a subquery. -/
theorem Like.subquery (hL : L.Lawful) {f : α → β} {p : Parser α} {q : Parser β}
    (h : L.Like front f p q) : L.Like front f (subquery p) (Parser.subquery q) := by
  intro s s' hs hfront
  rw [subquery_apply, subquery_apply]
  have henclosed : L.Linked s.enclosed s'.enclosed :=
    hs.same hL hs.frame.enclosed ⟨rfl, rfl, rfl⟩ ⟨rfl, rfl, rfl⟩ rfl rfl
  exact (h _ _ henclosed hfront).mapState hL (fun t => ⟨⟨rfl, rfl, rfl⟩, rfl⟩) fun t t' ht =>
    ht.disclosed

/-- For both, `IN` separates. -/
theorem Like.atSeparator (hL : L.Lawful) {f : α → β} {p : Parser α} {q : Parser β}
    (h : L.Like front f p q) : L.Like front f (atSeparator p) (Parser.atSeparator q) := by
  intro s s' hs hfront
  rw [atSeparator_apply, atSeparator_apply, hs.frame.separatorDepth]
  have hseparating : L.Linked s.separating s'.separating :=
    hs.same hL hs.frame.separating ⟨rfl, rfl, rfl⟩ ⟨rfl, rfl, rfl⟩ rfl rfl
  exact (h _ _ hseparating hfront).mapState hL (fun t => ⟨⟨rfl, rfl, rfl⟩, rfl⟩) fun t t' ht =>
    ⟨ht.settings, ht.library, ht.depth, ht.attempts, ht.subqueries, rfl⟩

/-- An attempt succeeds for both or is undone for both. -/
theorem Like.attempt (hL : L.Lawful) {f : α → β} {p : Parser α} {q : Parser β} (rule : String)
    (hp : Steady p) (hq : Steady q) (h : L.Like front f p q) :
    L.Like front (Option.map f) (attempt rule p) (Parser.attempt rule q) := by
  intro s s' hs hfront
  rw [attempt_apply, attempt_apply]
  have htrying : L.Linked s.trying s'.trying :=
    hs.same hL hs.frame.trying ⟨rfl, rfl, rfl⟩ ⟨rfl, rfl, rfl⟩ rfl rfl
  have hleads := hp s.trying
  have hleads' := hq s'.trying
  have hends := h _ _ htrying hfront
  generalize p s.trying = r at hends hleads
  generalize q s'.trying = r' at hends hleads'
  cases hends with
  | ok a ht =>
    exact .ok (some a) (ht.same hL ht.frame.tried ⟨rfl, rfl, rfl⟩ ⟨rfl, rfl, rfl⟩ rfl rfl)
  | @refused d d' t t' hrefused =>
    have hframe := (hL.refused_frame hrefused).tried
    exact .ok none ⟨hframe.same _ _ _ _ _ _ _ _, hs.border, hs.sight, hs.position, hs.previous,
      hL.log_same hs.log ⟨hleads.settings, rfl, rfl⟩ ⟨hleads'.settings, rfl, rfl⟩⟩
  | exhausted => exact .exhausted

end Likeness

end SearchSql.Grammar
