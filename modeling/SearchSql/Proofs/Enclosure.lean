import SearchSql.Proofs.Ahead
import SearchSql.Proofs.Contract

/-!
# What a run passes

A run takes a closing parenthesis only if it took the opening one itself, and a word that starts a
clause only between parentheses that it took. `levels?` follows the parentheses along the tokens that
are passed, and a parser `Walks` from one level to another if its runs pass such tokens only. A run
that fails stops at some level, wherever it is.

The word `ORDER` is the exception: an aggregate may have it behind its parentheses. A parser that is
not `ordered` takes it only behind a parenthesis that it opened before.
-/

set_option autoImplicit false

namespace SearchSql

/-! ## Levels of parentheses -/

/-- Whether a token of this kind may be passed anywhere: it is no parenthesis and starts no clause. -/
def TokenKind.isPlain : TokenKind → Bool
  | .symbol sign => sign != .leftParen && sign != .rightParen
  | .keyword word => !word.startsClause
  | _ => true

/-- The parentheses open behind a token of this kind, with `opened` in front of it. A word that starts
a clause is not passed outside of parentheses, apart from `ORDER`. -/
def levelAfter? (opened : Nat) : TokenKind → Option Nat
  | .symbol .leftParen => some (opened + 1)
  | .symbol .rightParen => if opened = 0 then none else some (opened - 1)
  | .keyword word =>
      if word.startsClause && word != .ORDER && opened == 0 then none else some opened
  | _ => some opened

/-- The parentheses open behind `tokens`, with `opened` in front of them. -/
def levels? : Nat → List Token → Option Nat
  | opened, [] => some opened
  | opened, t :: ts => (levelAfter? opened t.kind).bind (levels? · ts)

@[simp] theorem levels?_nil (opened : Nat) : levels? opened [] = some opened := rfl

theorem levels?_cons (opened : Nat) (t : Token) (ts : List Token) :
    levels? opened (t :: ts) = (levelAfter? opened t.kind).bind (levels? · ts) := rfl

/-- The levels behind two rows of tokens are counted one row after the other. -/
theorem levels?_append (opened : Nat) (v w : List Token) :
    levels? opened (v ++ w) = (levels? opened v).bind (levels? · w) := by
  induction v generalizing opened with
  | nil => rfl
  | cons t v ih =>
    simp only [List.cons_append, levels?_cons]
    cases levelAfter? opened t.kind with
    | none => rfl
    | some k => exact ih k

/-- A plain token opens and closes nothing. -/
theorem levelAfter?_of_isPlain {kind : TokenKind} (h : kind.isPlain = true) (opened : Nat) :
    levelAfter? opened kind = some opened := by
  unfold levelAfter?
  split
  · simp [TokenKind.isPlain] at h
  · simp [TokenKind.isPlain] at h
  · next word =>
    have hword : word.startsClause = false := by simpa [TokenKind.isPlain] using h
    simp [hword]
  · rfl

/-- The word `ORDER` is among the tokens only behind an opening parenthesis. -/
def Unordered (tokens : List Token) : Prop :=
  ∀ v t w, tokens = v ++ t :: w → t.kind = .keyword .ORDER → ∃ p ∈ v, p.kind = .symbol .leftParen

theorem unordered_nil : Unordered [] := by
  intro v t w h
  simp at h

/-- Behind an opening parenthesis, the word `ORDER` may stand anywhere. -/
theorem Unordered.append_of_open {v w : List Token} (hv : Unordered v) {p : Token} (hp : p ∈ v)
    (hkind : p.kind = .symbol .leftParen) : Unordered (v ++ w) := by
  intro x t y h hord
  obtain ⟨u, hx, -⟩ | ⟨u, hsplit, hrest⟩ := List.append_eq_append_iff.1 h
  · rw [hx]
    exact ⟨p, List.mem_append_left u hp, hkind⟩
  · cases u with
    | nil =>
      rw [List.append_nil] at hsplit
      exact ⟨p, hsplit ▸ hp, hkind⟩
    | cons u us =>
      obtain ⟨rfl, -⟩ := List.cons.inj hrest
      exact hv x t us hsplit hord

/-- Two rows of tokens without a bare `ORDER` have none together. -/
theorem Unordered.append {v w : List Token} (hv : Unordered v) (hw : Unordered w) :
    Unordered (v ++ w) := by
  intro x t y h hord
  obtain ⟨u, hx, hrest⟩ | ⟨u, hsplit, hrest⟩ := List.append_eq_append_iff.1 h
  · obtain ⟨p, hp, hkind⟩ := hw u t y hrest hord
    exact ⟨p, hx ▸ List.mem_append_right v hp, hkind⟩
  · cases u with
    | nil =>
      obtain ⟨p, hp, -⟩ := hw [] t y hrest.symm hord
      cases hp
    | cons u us =>
      obtain ⟨rfl, -⟩ := List.cons.inj hrest
      exact hv x t us hsplit hord

theorem unordered_singleton {t : Token} (h : t.kind ≠ .keyword .ORDER) : Unordered [t] := by
  intro v u w heq hord
  match v with
  | [] =>
    obtain ⟨rfl, -⟩ := List.cons.inj heq
    exact absurd hord h
  | a :: v => simp at heq

namespace Grammar

open SearchSql.Grammar.Parser

variable {α β : Type}

/-! ## Walks -/

/-- The tokens between two states lead from one level to another. Unless the way is `ordered`, the word
`ORDER` is among them only behind an opening parenthesis. -/
def State.Passes (ordered : Bool) (k l : Nat) (s t : State) : Prop :=
  ∃ tokens, s.cursor.ahead = tokens ++ t.cursor.ahead ∧ levels? k tokens = some l ∧
    (ordered = false → Unordered tokens)

variable {ordered : Bool} {k l m : Nat}

theorem State.Passes.refl (s : State) : s.Passes ordered k k s :=
  ⟨[], rfl, rfl, fun _ => unordered_nil⟩

theorem State.Passes.of_cursor_eq {s t : State} (h : t.cursor = s.cursor) :
    s.Passes ordered k k t := by
  refine ⟨[], ?_, rfl, fun _ => unordered_nil⟩
  rw [h]
  rfl

/-- Two ways that meet are one way. -/
theorem State.Passes.trans {s t u : State} (hst : s.Passes ordered k l t)
    (htu : t.Passes ordered l m u) : s.Passes ordered k m u := by
  obtain ⟨v, hv, hlevel, hunordered⟩ := hst
  obtain ⟨w, hw, hlevel', hunordered'⟩ := htu
  refine ⟨v ++ w, ?_, ?_, fun h => (hunordered h).append (hunordered' h)⟩
  · rw [hv, hw, List.append_assoc]
  · rw [levels?_append, hlevel]
    exact hlevel'

/-- How a walk ends. -/
def EndsWalk (ordered : Bool) (k l : Nat) (s : State) : Run α → Prop
  | .ok _ t => s.Passes ordered k l t
  | .error _ t => ∃ m, s.Passes ordered k m t

/-- How a walk ends that has passed an opening parenthesis. -/
def EndsOpening (k l : Nat) (s : State) : Run α → Prop
  | .ok _ t => ∃ tokens, s.cursor.ahead = tokens ++ t.cursor.ahead ∧ levels? k tokens = some l ∧
      Unordered tokens ∧ ∃ p ∈ tokens, p.kind = .symbol .leftParen
  | .error _ t => ∃ m, s.Passes false k m t

/-- The runs of the parser from a token that satisfies `here` walk from one level to another, if they
succeed. -/
def WalksAt (here : Token → Prop) (ordered : Bool) (k l : Nat) (p : Parser α) : Prop :=
  ∀ s : State, here s.cursor.current → EndsWalk ordered k l s (p s)

/-- All runs of the parser walk from one level to another, if they succeed. -/
abbrev Walks (ordered : Bool) (k l : Nat) (p : Parser α) : Prop :=
  WalksAt (fun _ => True) ordered k l p

/-- The runs of the parser from a token that satisfies `here` walk from one level to another and pass
an opening parenthesis, if they succeed. -/
def OpensAt (here : Token → Prop) (k l : Nat) (p : Parser α) : Prop :=
  ∀ s : State, here s.cursor.current → EndsOpening k l s (p s)

section

variable {here : Token → Prop}

theorem WalksAt.at {p : Parser α} (h : Walks ordered k l p) : WalksAt here ordered k l p :=
  fun s _ => h s trivial

/-- However a walk ends, it has come to some level. -/
theorem EndsWalk.exists_passes {s : State} {r : Run α} (h : EndsWalk ordered k l s r) :
    ∃ m, s.Passes ordered k m (lastState r) := by
  cases r with
  | ok a t => exact ⟨l, h⟩
  | error e t => exact h

/-- A walk may be lengthened by the way in front of it. -/
theorem State.Passes.endsWalk {s t : State} {r : Run α} (h : s.Passes ordered k l t)
    (hr : EndsWalk ordered l m t r) : EndsWalk ordered k m s r := by
  cases r with
  | ok a u => exact State.Passes.trans h hr
  | error e u =>
    obtain ⟨n, hn⟩ := hr
    exact ⟨n, h.trans hn⟩

/-- A walk goes on where the next parser begins. -/
theorem EndsWalk.andThen {s : State} {r : Run α} {f : α → Parser β} (hr : EndsWalk ordered k l s r)
    (hf : ∀ a t, r = .ok a t → EndsWalk ordered l m t (f a t)) :
    EndsWalk ordered k m s (Run.andThen r f) := by
  cases r with
  | error e t => exact hr
  | ok a t =>
    have hpasses : s.Passes ordered k l t := hr
    exact hpasses.endsWalk (hf a t rfl)

/-- Two parsers that walk walk one after the other. -/
theorem WalksAt.bind {p : Parser α} {f : α → Parser β} (hp : WalksAt here ordered k l p)
    (hf : ∀ a, Walks ordered l m (f a)) : WalksAt here ordered k m (p >>= f) := by
  intro s hs
  rw [bind_apply_andThen]
  exact (hp s hs).andThen fun a t _ => hf a t trivial

theorem walks_pure (a : α) : WalksAt here ordered k k (pure a : Parser α) :=
  fun s _ => State.Passes.refl s

theorem walks_reject (d : Diagnostic) : WalksAt here ordered k l (reject d : Parser α) :=
  fun s _ => ⟨k, State.Passes.refl s⟩

theorem walks_rejectCurrent (expected : String) :
    WalksAt here ordered k l (rejectCurrent expected : Parser α) :=
  fun s _ => ⟨k, State.Passes.refl s⟩

/-- What is behind a refusal is not run. -/
theorem walks_rejectCurrent_bind (expected : String) (f : α → Parser β) :
    WalksAt here ordered k l (rejectCurrent expected >>= f) :=
  fun s _ => ⟨k, State.Passes.refl s⟩

/-- What is read on a walk may be given in another form. -/
theorem WalksAt.map {p : Parser α} (hp : WalksAt here ordered k l p) (f : α → β) :
    WalksAt here ordered k l (f <$> p) := hp.bind fun a => walks_pure (f a)

/-- What looks at the state walks if it does for every state. -/
theorem walks_get_bind {f : State → Parser α}
    (h : ∀ s, WalksAt here ordered k l (f s)) : WalksAt here ordered k l (get >>= f) :=
  fun s hs => h s s hs

/-- What looks at the token in front may be taken to start with that token. -/
theorem walks_current_bind {f : Token → Parser α}
    (h : ∀ t, WalksAt (fun u => u = t) ordered k l (f t)) :
    WalksAt here ordered k l (current >>= f) := fun s _ => h s.cursor.current s rfl

theorem walks_peek_bind (n : Nat) {f : Token → Parser α}
    (h : ∀ t, WalksAt here ordered k l (f t)) : WalksAt here ordered k l (peek n >>= f) :=
  fun s hs => h (s.cursor.peek n) s hs

theorem walks_spanFrom (start : Span) : WalksAt here ordered k k (spanFrom start) :=
  fun s _ => State.Passes.refl s

/-- What is done after a look at the token under the cursor may depend on what it is. -/
theorem walks_atSymbol_bind {sign : Symbol} {f : Bool → Parser α}
    (htrue : WalksAt (fun t => t.kind = .symbol sign) ordered k l (f true))
    (hfalse : WalksAt here ordered k l (f false)) :
    WalksAt here ordered k l (atSymbol sign >>= f) := by
  intro s hs
  rw [atSymbol_bind_apply]
  by_cases hkind : s.cursor.current.kind = .symbol sign
  · rw [beq_iff_eq.2 hkind]
    exact htrue s hkind
  · rw [beq_eq_false_iff_ne.2 hkind]
    exact hfalse s hs

/-- What asks for a word walks if it does behind both answers. -/
theorem walks_atKeyword_bind {word : Keyword} {f : Bool → Parser α}
    (htrue : WalksAt (fun t => t.kind = .keyword word) ordered k l (f true))
    (hfalse : WalksAt here ordered k l (f false)) :
    WalksAt here ordered k l (atKeyword word >>= f) := by
  intro s hs
  rw [atKeyword_bind_apply]
  by_cases hkind : s.cursor.current.kind = .keyword word
  · rw [beq_iff_eq.2 hkind]
    exact htrue s hkind
  · rw [beq_eq_false_iff_ne.2 hkind]
    exact hfalse s hs

/-! ## Taking tokens -/

/-- A token that is taken leads to the level behind it. -/
theorem passes_step {s : State} (hend : s.cursor.current.isEnd = false)
    (hlevel : levelAfter? k s.cursor.current.kind = some l)
    (horder : ordered = false → s.cursor.current.kind ≠ .keyword .ORDER) :
    s.Passes ordered k l (s.skip 1) := by
  refine ⟨[s.cursor.current], ahead_eq_cons hend, ?_, fun h => ?_⟩
  · rw [levels?_cons, hlevel]
    rfl
  · exact unordered_singleton (horder h)

/-- A plain token leads to the same level. -/
theorem passes_plain {s : State} (h : s.cursor.current.kind.isPlain = true) :
    s.Passes ordered k k (s.skip 1) := by
  cases hend : s.cursor.current.isEnd with
  | true => exact .of_cursor_eq (Cursor.advance_of_isEnd hend)
  | false =>
    refine passes_step hend (levelAfter?_of_isPlain h k) fun _ horder => ?_
    rw [horder] at h
    cases h

theorem walks_skip (hplain : ∀ t, here t → t.kind.isPlain = true) :
    WalksAt here ordered k k (Parser.skip 1) := fun _ hs => passes_plain (hplain _ hs)

theorem walks_take (hplain : ∀ t, here t → t.kind.isPlain = true) :
    WalksAt here ordered k k take := fun _ hs => passes_plain (hplain _ hs)

/-- A sign that is taken leads to the level behind it. -/
theorem walks_symbol {sign : Symbol} (hlevel : levelAfter? k (.symbol sign) = some l) :
    WalksAt here ordered k l (symbol sign) := by
  refine walks_atSymbol_bind (fun s hkind => ?_) (walks_rejectCurrent _)
  refine passes_step (isEnd_of_symbol hkind) (hkind ▸ hlevel) fun _ horder => ?_
  cases hkind.symm.trans horder

/-- A word other than `ORDER` leads to the level behind it. -/
theorem walks_keyword {word : Keyword} (hlevel : levelAfter? k (.keyword word) = some l)
    (horder : word ≠ .ORDER) : WalksAt here ordered k l (keyword word) := by
  refine walks_atKeyword_bind (fun s hkind => ?_) (walks_rejectCurrent _)
  refine passes_step (isEnd_of_keyword hkind) (hkind ▸ hlevel) fun _ h => ?_
  exact horder (TokenKind.keyword.inj (hkind.symm.trans h))

/-- Behind `ORDER`, the way is ordered. -/
theorem walks_order : WalksAt here true k k (keyword .ORDER) := by
  refine walks_atKeyword_bind (fun s hkind => ?_) (walks_rejectCurrent _)
  exact passes_step (isEnd_of_keyword hkind) (hkind ▸ rfl) nofun

/-- A sign that may stand here leads on or not, and what follows walks from there. -/
theorem walks_takeSymbol_bind {sign : Symbol} {f : Bool → Parser α}
    (hlevel : levelAfter? k (.symbol sign) = some m) (htrue : Walks ordered m l (f true))
    (hfalse : WalksAt here ordered k l (f false)) :
    WalksAt here ordered k l (takeSymbol sign >>= f) := by
  intro s hs
  rw [takeSymbol_bind_apply]
  split
  · next hkind =>
    refine State.Passes.endsWalk (passes_step (isEnd_of_symbol hkind) (hkind ▸ hlevel) ?_)
      (htrue _ trivial)
    intro _ horder
    cases hkind.symm.trans horder
  · exact hfalse s hs

/-- The same for a word that opens and closes nothing. -/
theorem walks_takeKeyword_bind {word : Keyword} {f : Bool → Parser α}
    (hplain : (TokenKind.keyword word).isPlain = true) (htrue : Walks ordered k l (f true))
    (hfalse : WalksAt here ordered k l (f false)) :
    WalksAt here ordered k l (takeKeyword word >>= f) := by
  intro s hs
  rw [takeKeyword_bind_apply]
  split
  · next hkind => exact (passes_plain (hkind ▸ hplain)).endsWalk (htrue _ trivial)
  · exact hfalse s hs

theorem walks_takeSymbol {sign : Symbol} (hplain : (TokenKind.symbol sign).isPlain = true) :
    WalksAt here ordered k k (takeSymbol sign) := by
  have h : WalksAt here ordered k k (takeSymbol sign >>= pure) :=
    walks_takeSymbol_bind (levelAfter?_of_isPlain hplain k) (walks_pure true) (walks_pure false)
  rwa [bind_pure] at h

theorem walks_string : WalksAt here ordered k k string := by
  refine walks_current_bind fun t => ?_
  split
  · next hkind =>
    refine (walks_skip fun u hu => ?_).bind fun _ => walks_pure _
    rw [hu, hkind]
    rfl
  · exact walks_rejectCurrent _

/-! ## Opening parentheses -/

/-- A way with an opening parenthesis on it is a way. -/
theorem OpensAt.walks {p : Parser α} (h : OpensAt here k l p) : WalksAt here ordered k l p := by
  intro s hs
  have hends := h s hs
  cases hrun : p s with
  | ok a t =>
    rw [hrun] at hends
    obtain ⟨tokens, hahead, hlevel, hunordered, -⟩ := hends
    exact ⟨tokens, hahead, hlevel, fun _ => hunordered⟩
  | error e t =>
    rw [hrun] at hends
    obtain ⟨m, v, hv, hlevel, hunordered⟩ := hends
    exact ⟨m, v, hv, hlevel, fun _ => hunordered rfl⟩

/-- Behind an opening parenthesis, the rest of the way may be ordered. -/
theorem OpensAt.bind {p : Parser α} {f : α → Parser β} (hp : OpensAt here k l p)
    (hf : ∀ a, Walks true l m (f a)) : OpensAt here k m (p >>= f) := by
  intro s hs
  have hends := hp s hs
  rw [bind_apply_andThen]
  cases hrun : p s with
  | error e t =>
    rw [hrun] at hends
    exact hends
  | ok a t =>
    rw [hrun] at hends
    obtain ⟨v, hv, hlevel, hunordered, p, hmem, hkind⟩ := hends
    have hbehind (w : List Token) : Unordered (v ++ w) := hunordered.append_of_open hmem hkind
    have hrest := hf a t trivial
    show EndsOpening k m s (f a t)
    cases hrun' : f a t with
    | ok b u =>
      rw [hrun'] at hrest
      obtain ⟨w, hw, hlevel', -⟩ := hrest
      refine ⟨v ++ w, ?_, ?_, hbehind w, p, List.mem_append_left w hmem, hkind⟩
      · rw [hv, hw, List.append_assoc]
      · rw [levels?_append, hlevel]
        exact hlevel'
    | error e u =>
      rw [hrun'] at hrest
      obtain ⟨n, w, hw, hlevel', -⟩ := hrest
      refine ⟨n, v ++ w, ?_, ?_, fun _ => hbehind w⟩
      · rw [hv, hw, List.append_assoc]
      · rw [levels?_append, hlevel]
        exact hlevel'

/-- An opening parenthesis may be behind another parser. -/
theorem WalksAt.bind_opens {p : Parser α} {f : α → Parser β} (hp : WalksAt here false k l p)
    (hf : ∀ a, OpensAt (fun _ => True) l m (f a)) : OpensAt here k m (p >>= f) := by
  intro s hs
  have hends := hp s hs
  rw [bind_apply_andThen]
  cases hrun : p s with
  | error e t =>
    rw [hrun] at hends
    exact hends
  | ok a t =>
    rw [hrun] at hends
    obtain ⟨v, hv, hlevel, hunordered⟩ := hends
    have hrest := hf a t trivial
    show EndsOpening k m s (f a t)
    cases hrun' : f a t with
    | ok b u =>
      rw [hrun'] at hrest
      obtain ⟨w, hw, hlevel', hunordered', p, hmem, hkind⟩ := hrest
      refine ⟨v ++ w, ?_, ?_, (hunordered rfl).append hunordered', p, List.mem_append_right v hmem,
        hkind⟩
      · rw [hv, hw, List.append_assoc]
      · rw [levels?_append, hlevel]
        exact hlevel'
    | error e u =>
      rw [hrun'] at hrest
      obtain ⟨n, hn⟩ := hrest
      exact ⟨n, State.Passes.trans ⟨v, hv, hlevel, hunordered⟩ hn⟩

/-- An opening parenthesis leads one level up. -/
theorem opens_leftParen : OpensAt here k (k + 1) (symbol .leftParen) := by
  intro s _
  rw [symbol, atSymbol_bind_apply]
  by_cases hkind : s.cursor.current.kind = .symbol .leftParen
  · simp only [hkind, beq_self_eq_true, if_true]
    refine ⟨[s.cursor.current], ahead_eq_cons (isEnd_of_symbol hkind), ?_,
      unordered_singleton (hkind ▸ nofun), _, List.mem_singleton_self _, hkind⟩
    rw [levels?_cons, hkind]
    rfl
  · simp only [beq_eq_false_iff_ne.2 hkind, Bool.false_eq_true, if_false]
    exact ⟨k, State.Passes.refl s⟩

/-- The name of a call is plain. -/
theorem opens_callName (hplain : ∀ t, here t → t.kind.isPlain = true) :
    OpensAt here k (k + 1) callName := by
  have hname : WalksAt here false k k (get >>= fun _ => Parser.skip 1) :=
    walks_get_bind fun _ => walks_skip hplain
  intro s hs
  exact (hname.bind_opens fun _ => opens_leftParen.bind fun _ => walks_pure s.cursor.current.text) s hs

/-! ## Repetitions and lists -/

theorem walks_loopNext {step : α → Parser (ForInStep α)} (h : ∀ a, Walks ordered k k (step a))
    (rounds : List Token) (r : ForInStep α) : Walks ordered k k (loopNext step rounds r) := by
  induction rounds generalizing r with
  | nil =>
    cases r with
    | done a => exact walks_pure a
    | yield a => exact fun s _ => ⟨k, State.Passes.refl s⟩
  | cons _ rounds ih =>
    cases r with
    | done a => exact walks_pure a
    | yield a =>
      show Walks ordered k k (loopOver step rounds a)
      rw [loopOver_eq]
      exact (h a).bind ih

/-- Steps on one level are repeated on that level. -/
theorem walks_loop {step : α → Parser (ForInStep α)} (h : ∀ a, Walks ordered k k (step a)) (a : α) :
    WalksAt here ordered k k (loop a step) := by
  refine walks_get_bind fun s => ?_
  rw [loopOver_eq]
  exact ((h a).bind (walks_loopNext h _)).at

theorem walks_progress (rule : String) (before : Nat) (item : α) :
    WalksAt here ordered k k (progress rule before item) := by
  refine walks_get_bind fun s => ?_
  split
  · exact walks_current_bind fun _ => walks_reject _
  · exact walks_pure item

/-- What has to take a token walks as before. -/
theorem WalksAt.taking {p : Parser α} (h : WalksAt here ordered k k p) (rule : String) :
    WalksAt here ordered k k (taking rule p) := by
  rw [taking_eq]
  intro s hs
  exact (h.bind fun a => walks_progress rule s.cursor.position a) s hs

/-- Items on one level make a list on that level. -/
theorem WalksAt.commaList {first next : Parser α} (hfirst : WalksAt here ordered k k first)
    (hnext : Walks ordered k k next) (rule : String) :
    WalksAt here ordered k k (commaList rule first next) := by
  rw [commaList_eq]
  refine (hfirst.taking rule).bind fun head => (walks_loop (fun items => ?_) _).bind fun tail =>
    walks_pure _
  refine walks_takeSymbol_bind rfl ?_ (walks_pure _)
  exact (hnext.taking rule).bind fun _ => walks_pure _

theorem Walks.commaSeparated {p : Parser α} (h : Walks ordered k k p) (rule : String) :
    Walks ordered k k (Parser.commaSeparated rule p) := WalksAt.commaList h h rule

/-! ## Changing the state -/

/-- A walk ends as before if what is changed behind it is not the cursor. -/
theorem EndsWalk.mapState {s : State} {r : Run α} {change : State → State}
    (h : EndsWalk ordered k l s r) (hchange : ∀ t, (change t).cursor = t.cursor) :
    EndsWalk ordered k l s (mapState change r) := by
  cases r with
  | ok a t => exact State.Passes.trans h (.of_cursor_eq (hchange t))
  | error e t =>
    obtain ⟨m, hm⟩ := h
    exact ⟨m, hm.trans (.of_cursor_eq (hchange t))⟩

theorem EndsWalk.of_cursor_eq {s t : State} {r : Run α} (h : EndsWalk ordered k l t r)
    (ht : t.cursor = s.cursor) : EndsWalk ordered k l s r :=
  State.Passes.endsWalk (.of_cursor_eq ht) h

/-- Levels of nesting are no levels of parentheses. -/
theorem WalksAt.nest {p : Parser α} (h : WalksAt here ordered k l p) (cost : Nat) :
    WalksAt here ordered k l (nest cost p) := by
  intro s hs
  rw [nest_apply]
  split
  · exact ⟨k, State.Passes.refl s⟩
  · exact ((h (s.deeper cost) hs).of_cursor_eq rfl).mapState fun _ => rfl

/-- The same is true of the separator of `POSITION`. -/
theorem WalksAt.atSeparator {p : Parser α} (h : WalksAt here ordered k l p) :
    WalksAt here ordered k l (atSeparator p) := by
  intro s hs
  rw [atSeparator_apply]
  exact ((h s.separating hs).of_cursor_eq rfl).mapState fun _ => rfl

/-- An attempt that fails passes nothing. -/
theorem WalksAt.attempt {p : Parser α} (h : WalksAt here ordered k k p) (rule : String) :
    WalksAt here ordered k k (attempt rule p) := by
  intro s hs
  have hends := (h s.trying hs).of_cursor_eq (s := s) rfl
  rw [attempt_apply]
  cases hrun : p s.trying with
  | ok a t =>
    rw [hrun] at hends
    exact State.Passes.trans hends (.of_cursor_eq rfl)
  | error e t =>
    rw [hrun] at hends
    cases e with
    | rejected d => exact State.Passes.of_cursor_eq rfl
    | outOfFuel =>
      obtain ⟨m, hm⟩ := hends
      exact ⟨m, hm.trans (.of_cursor_eq rfl)⟩

/-! ## Reporting -/

theorem walks_report (d : Diagnostic) : WalksAt here ordered k k (report d) := by
  intro s _
  rw [report_apply]
  split
  · exact State.Passes.of_cursor_eq rfl
  · split
    · exact ⟨k, State.Passes.of_cursor_eq rfl⟩
    · exact State.Passes.of_cursor_eq rfl

theorem walks_malformedLiteral (kind : LiteralKind) (text : String) (fault : LiteralFault)
    (span : Span) : WalksAt here ordered k k (malformedLiteral kind text fault span) := by
  refine WalksAt.bind (walks_get_bind fun s => ?_) fun _ => walks_pure _
  split
  · exact walks_report _
  · exact walks_reject _

end

end Grammar

end SearchSql
