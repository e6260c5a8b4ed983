import SearchSql.Proofs.Placing

/-!
# Parsers that place spans

A parser `Lays` some pieces behind others if its runs lead from a state in front of which the one is
laid to a state in front of which the other is. What rules are written with lays what it builds; one
lemma for each parser that rules share says so. Where an error is recovered from, what was built is
given up, but the cursor has moved on, so that what follows is laid behind it.
-/

set_option autoImplicit false

namespace SearchSql

namespace Grammar

open SearchSql.Grammar.Parser

variable {α β : Type} {T : List Token} {lo hi : Nat} {before after : List Piece} {s t : State}

/-! ## Moving on -/

/-- Along a run, the cursor does not move backwards. -/
def moving (T : List Token) (lo hi : Nat) : Contract where
  keeps := Laid T lo hi []
  refuses _ := Laid T lo hi []

/-- Reports do not move the cursor. -/
theorem moving_reporting (hT : Token.Apart T) : (moving T lo hi).Reporting where
  skip_one hs hend := (hs.leaf hT hend).forget (List.nil_sublist _) fun _ => rfl
  same hs _ hcursor := hs.same hcursor
  refuses_same hs _ hcursor := hs.same hcursor
  refuses_current hs _ := hs
  refuses_passed _ hs hend := (hs.leaf hT hend).forget (List.nil_sublist _) fun _ => rfl
  refuses_literal _ _ _ _ _ h := h
  report {d s} hs _ _ := by
    rw [report_apply]
    split
    · exact hs.same rfl
    · split
      · exact hs.same rfl
      · exact hs.same rfl

/-- All parsers move on or stay. -/
theorem moving_lawful (hT : Token.Apart T) : (moving T lo hi).Lawful := (moving_reporting hT).lawful

/-! ## Parsers that lay pieces -/

/-- The parser leads from a state in front of which `before` is laid, where what is under the cursor
satisfies `here`, to one in front of which `after` of its result is laid. -/
def Lays (T : List Token) (here : Token → Prop) (before : List Piece) (p : Parser α)
    (after : α → List Piece) : Prop :=
  ∀ lo hi s a t, Laid T lo hi before s → here s.cursor.current → p s = .ok a t →
    Laid T lo hi (after a) t

/-- Any token. -/
def AnyToken : Token → Prop := fun _ => True

variable {here : Token → Prop}

/-- What lays pieces from everywhere lays them from some tokens. -/
theorem Lays.weaken {p : Parser α} {after : α → List Piece} (h : Lays T AnyToken before p after) :
    Lays T here before p after :=
  fun lo hi s a t hs _ heq => h lo hi s a t hs trivial heq

/-- What is given without moving may be seen in other pieces, if they are the same. -/
theorem lays_pure {after : α → List Piece} {a : α} (h : after a = before) :
    Lays T here before (pure a) after := by
  intro lo hi s b t hs _ heq
  obtain ⟨rfl, rfl⟩ := pure_eq_ok_iff.1 heq
  rwa [h]

/-- What is not needed any more is forgotten. -/
theorem lays_pure_forget {after : α → List Piece} {a : α}
    (hsub : (treesOf (after a)).Sublist (treesOf before)) (hne : before = [] → after a = []) :
    Lays T here before (pure a) after := by
  intro lo hi s b t hs _ heq
  obtain ⟨rfl, rfl⟩ := pure_eq_ok_iff.1 heq
  exact hs.forget hsub hne

theorem lays_reject {after : α → List Piece} (d : Diagnostic) :
    Lays T here before (reject d) after := fun _ _ _ _ _ _ _ heq => absurd heq reject_ne_ok

theorem lays_rejectCurrent {after : α → List Piece} (expected : String) :
    Lays T here before (rejectCurrent expected) after :=
  fun _ _ _ _ _ _ _ heq => absurd heq rejectCurrent_ne_ok

/-- Pieces are laid one behind the other. -/
theorem Lays.bind {p : Parser α} {f : α → Parser β} {middle : α → List Piece}
    {after : β → List Piece} (hp : Lays T here before p middle)
    (hf : ∀ a, Lays T AnyToken (middle a) (f a) after) : Lays T here before (p >>= f) after := by
  intro lo hi s b t hs hhere heq
  obtain ⟨a, u, hu, hrest⟩ := bind_eq_ok_iff.1 heq
  exact hf a lo hi u b t (hp lo hi s a u hs hhere hu) trivial hrest

/-- A node may stand for the pieces that it was made of. -/
theorem Lays.map {p : Parser α} {f : α → β} {middle : α → List Piece} {after : β → List Piece}
    (hp : Lays T here before p middle) (hf : ∀ a, after (f a) = middle a) :
    Lays T here before (f <$> p) after := hp.bind fun a => lays_pure (hf a)

/-- What looks at the state may be taken to look at a state with that token in front. -/
theorem lays_get_bind {f : State → Parser α} {after : α → List Piece}
    (h : ∀ s, Lays T (fun t => t = s.cursor.current ∧ here t) before (f s) after) :
    Lays T here before (get >>= f) after :=
  fun lo hi s a t hs hhere heq => h s lo hi s a t hs ⟨rfl, hhere⟩ heq

/-- What looks at the token in front may be taken to start there. -/
theorem lays_current_bind {f : Token → Parser α} {after : α → List Piece}
    (h : ∀ t, Lays T (fun u => u = t ∧ here u) before (f t) after) :
    Lays T here before (current >>= f) after :=
  fun lo hi s a t hs hhere heq => h s.cursor.current lo hi s a t hs ⟨rfl, hhere⟩ heq

theorem lays_peek_bind (k : Nat) {f : Token → Parser α} {after : α → List Piece}
    (h : ∀ t, Lays T here before (f t) after) : Lays T here before (peek k >>= f) after :=
  fun lo hi s a t hs hhere heq => h (s.cursor.peek k) lo hi s a t hs hhere heq

/-- What asks for a sign starts with it in the one case. -/
theorem lays_atSymbol_bind {sign : Symbol} {f : Bool → Parser α} {after : α → List Piece}
    (htrue : Lays T (fun t => t.kind = .symbol sign) before (f true) after)
    (hfalse : Lays T here before (f false) after) :
    Lays T here before (atSymbol sign >>= f) after := by
  intro lo hi s a t hs hhere heq
  rw [atSymbol_bind_apply] at heq
  cases hkind : s.cursor.current.kind == .symbol sign with
  | true => exact htrue lo hi s a t hs (eq_of_beq hkind) (hkind ▸ heq)
  | false => exact hfalse lo hi s a t hs hhere (hkind ▸ heq)

/-- What asks for a word starts with it in the one case. -/
theorem lays_atKeyword_bind {word : Keyword} {f : Bool → Parser α} {after : α → List Piece}
    (htrue : Lays T (fun t => t.kind = .keyword word) before (f true) after)
    (hfalse : Lays T here before (f false) after) :
    Lays T here before (atKeyword word >>= f) after := by
  intro lo hi s a t hs hhere heq
  rw [atKeyword_bind_apply] at heq
  cases hkind : s.cursor.current.kind == .keyword word with
  | true => exact htrue lo hi s a t hs (eq_of_beq hkind) (hkind ▸ heq)
  | false => exact hfalse lo hi s a t hs hhere (hkind ▸ heq)

/-- Levels of nesting lay nothing, nor do the other changes of the state. -/
theorem Lays.nest {p : Parser α} {after : α → List Piece} (h : Lays T here before p after)
    (cost : Nat) : Lays T here before (nest cost p) after := by
  intro lo hi s a t hs hhere heq
  obtain ⟨-, u, hu, rfl⟩ := nest_eq_ok_iff.1 heq
  exact (h lo hi (s.deeper cost) a u (hs.same rfl) hhere hu).same rfl

theorem Lays.subquery {p : Parser α} {after : α → List Piece} (h : Lays T here before p after) :
    Lays T here before (subquery p) after := by
  intro lo hi s a t hs hhere heq
  rw [subquery_apply] at heq
  obtain ⟨u, hu, rfl⟩ := mapState_eq_ok_iff.1 heq
  exact (h lo hi s.enclosed a u (hs.same rfl) hhere hu).same rfl

theorem Lays.atSeparator {p : Parser α} {after : α → List Piece} (h : Lays T here before p after) :
    Lays T here before (atSeparator p) after := by
  intro lo hi s a t hs hhere heq
  rw [atSeparator_apply] at heq
  obtain ⟨u, hu, rfl⟩ := mapState_eq_ok_iff.1 heq
  exact (h lo hi s.separating a u (hs.same rfl) hhere hu).same rfl

/-- A repetition whose rounds all lay pieces. -/
theorem lays_loop {after : α → List Piece} {step : α → Parser (ForInStep α)}
    (hstep : ∀ a, Lays T AnyToken (after a) (step a) (fun r => after r.value)) (a : α) :
    Lays T here (after a) (loop a step) after :=
  fun lo hi _ _ _ hs _ heq => keeps_loop (P := fun a s => Laid T lo hi (after a) s)
    (fun a r s t hs hr => hstep a lo hi s r t hs trivial hr) hs heq

theorem Lays.taking {p : Parser α} {after : α → List Piece} (h : Lays T here before p after)
    (rule : String) : Lays T here before (taking rule p) after :=
  fun lo hi s a t hs hhere heq => h lo hi s a t hs hhere (taking_eq_ok heq)

/-- An attempt that is given up lays nothing. -/
theorem Lays.attempt {p : Parser α} {after : α → List Piece} (h : Lays T here before p after)
    (rule : String) :
    Lays T here before (attempt rule p) (fun found => found.elim before after) := by
  intro lo hi s found t hs hhere heq
  rw [attempt_apply] at heq
  cases hrun : p s.trying with
  | ok a u =>
    rw [hrun] at heq
    injection heq with hfound ht
    subst hfound
    rw [← ht]
    exact (h lo hi s.trying a u (hs.same rfl) hhere hrun).same rfl
  | error e u =>
    rw [hrun] at heq
    cases e with
    | outOfFuel => cases heq
    | rejected d =>
      injection heq with hfound ht
      subst hfound
      rw [← ht]
      exact hs.same rfl

/-- A part that may be left out, where it is there. -/
theorem Lays.some {p : Parser α} {tree : α → SpanTree}
    (h : Lays T here before p (fun a => before ++ [.tree (tree a)])) :
    Lays T here before (Option.some <$> p)
      (fun found => before ++ (found.map fun a => Piece.tree (tree a)).toList) :=
  h.map fun _ => rfl

/-- A part that may be left out, where it is not there. -/
theorem lays_none (tree : α → SpanTree) :
    Lays T here before (pure none)
      (fun found => before ++ (found.map fun a => Piece.tree (tree a)).toList) :=
  lays_pure (by simp)

/-- Trees in a row make up a node without a span of its own. -/
theorem lays_group (before : List Piece) (kids : List SpanTree) {pieces : List Piece}
    {after : α → List Piece} {a : α}
    (hafter : after a = before ++ [.tree (.group kids)])
    (hsub : (treesOf before ++ kids).Sublist (treesOf pieces)) (hne : pieces ≠ []) :
    Lays T here pieces (pure a) after := by
  intro lo hi s b t hs _ heq
  obtain ⟨rfl, rfl⟩ := pure_eq_ok_iff.1 heq
  refine ⟨hs.allTokens, hs.low, hs.high, ?_, fun _ => hs.taken hne⟩
  rw [hafter, treesOf_append, treesOf_tree, treesOf_nil]
  have hrow : Row T lo s.cursor.previousSpan.stop (treesOf before ++ kids ++ []) := by
    simpa using hs.row.sublist hsub
  exact hrow.group

/-- A text and some fields, in whatever order they are written. -/
theorem lays_either (text : SpanTree) (fields : List SpanTree) {pieces : List Piece}
    {after : α → List Piece} {a : α} (hafter : after a = [.tree (.either text (.group fields))])
    (hsub : (text :: fields).Sublist (treesOf pieces) ∨
      (fields ++ [text]).Sublist (treesOf pieces)) (hne : pieces ≠ []) :
    Lays T here pieces (pure a) after := by
  intro lo hi s b t hs _ heq
  obtain ⟨rfl, rfl⟩ := pure_eq_ok_iff.1 heq
  refine ⟨hs.allTokens, hs.low, hs.high, ?_, fun _ => hs.taken hne⟩
  rw [hafter, treesOf_tree, treesOf_nil]
  rcases hsub with hsub | hsub
  · have hrow : Row T lo s.cursor.previousSpan.stop ([text] ++ fields ++ []) := by
      simpa using hs.row.sublist hsub
    exact hrow.group.either.1
  · have hrow : Row T lo s.cursor.previousSpan.stop ([] ++ fields ++ [text]) := by
      simpa using hs.row.sublist hsub
    exact hrow.group.either.2

/-- To look where something has ended lays nothing. -/
theorem lays_spanFrom_bind {f : Span → Parser α} {after : α → List Piece} {start : Span}
    (h : ∀ span, Lays T AnyToken before (f span) after) :
    Lays T here before (spanFrom start >>= f) after :=
  fun lo hi s a t hs _ heq => h _ lo hi s a t hs trivial heq

section Apart

variable (hT : Token.Apart T)

include hT

/-- What a parser lays, it lays behind anything. -/
theorem Lays.behind {p : Parser α} {after : α → List Piece} (h : Lays T here [] p after) :
    Lays T here before p (fun a => before ++ after a) :=
  fun _ _ s a t hs hhere heq => hs.behind hT (h _ _ s a t (laid_nil hs.allTokens) hhere heq)

/-- A parser that only moves on lays nothing. -/
theorem lays_of_meets {p : Parser α} (h : ∀ lo hi, (moving T lo hi).Meets p) :
    Lays T here before p (fun _ => before) := by
  have hnothing : Lays T here [] p (fun _ => []) := by
    intro lo hi s a t hs _ heq
    have hends := h lo hi s hs
    rw [heq] at hends
    exact hends
  simpa using hnothing.behind hT

/-- Tokens may be passed without a piece of their own. -/
theorem lays_skip (n : Nat) : Lays T here before (Parser.skip n) (fun _ => before) :=
  lays_of_meets hT fun _ _ => (moving_lawful hT).skip n

/-- The token under the cursor is passed, and its span kept. -/
theorem lays_take (hend : ∀ t, here t → t.isEnd = false) :
    Lays T here before take (fun span => before ++ [.tree (.leaf span)]) := by
  intro lo hi s span t hs hhere heq
  rw [← bind_pure take, take_bind_apply] at heq
  obtain ⟨rfl, rfl⟩ := pure_eq_ok_iff.1 heq
  exact hs.leaf hT (hend _ hhere)

/-- The token under the cursor is passed. -/
theorem lays_pass (hend : ∀ t, here t → t.isEnd = false) :
    Lays T here before (Parser.skip 1) (fun _ => before ++ [.token]) := by
  intro lo hi s _ t hs hhere heq
  rw [← bind_pure (Parser.skip 1), skip_bind_apply] at heq
  obtain ⟨rfl, rfl⟩ := pure_eq_ok_iff.1 heq
  exact (hs.leaf hT (hend _ hhere)).forget (by simp) (by simp)

theorem lays_take_symbol {sign : Symbol} :
    Lays T (fun t => t.kind = .symbol sign) before take
      (fun span => before ++ [.tree (.leaf span)]) :=
  lays_take hT fun _ h => isEnd_of_symbol h

theorem lays_take_keyword {word : Keyword} :
    Lays T (fun t => t.kind = .keyword word) before take
      (fun span => before ++ [.tree (.leaf span)]) :=
  lays_take hT fun _ h => isEnd_of_keyword h

/-- A sign that is taken is a leaf. -/
theorem lays_symbol (sign : Symbol) :
    Lays T here before (symbol sign) (fun span => before ++ [.tree (.leaf span)]) :=
  lays_atSymbol_bind (lays_take_symbol hT) (lays_rejectCurrent _)

/-- A reserved word that is taken is a leaf. -/
theorem lays_keyword (word : Keyword) :
    Lays T here before (keyword word) (fun span => before ++ [.tree (.leaf span)]) :=
  lays_atKeyword_bind (lays_take_keyword hT) (lays_rejectCurrent _)

omit hT in
/-- A token that is passed without keeping its span. -/
theorem Lays.token {p : Parser Span}
    (h : Lays T here before p (fun span => before ++ [.tree (.leaf span)])) :
    Lays T here before p (fun _ => before ++ [.token]) :=
  fun lo hi s span t hs hhere heq => (h lo hi s span t hs hhere heq).forget (by simp) (by simp)

/-- A sign that was taken lies between the pieces. -/
theorem lays_takeSymbol_bind {sign : Symbol} {f : Bool → Parser α} {after : α → List Piece}
    (htrue : Lays T AnyToken (before ++ [.token]) (f true) after)
    (hfalse : Lays T here before (f false) after) :
    Lays T here before (takeSymbol sign >>= f) after := by
  intro lo hi s a t hs hhere heq
  rw [takeSymbol_bind_apply] at heq
  split at heq
  · next hkind =>
    refine htrue lo hi _ a t ?_ trivial heq
    exact (hs.leaf hT (isEnd_of_symbol hkind)).forget (by simp) (by simp)
  · exact hfalse lo hi s a t hs hhere heq

/-- So does a word. -/
theorem lays_takeKeyword_bind {word : Keyword} {f : Bool → Parser α} {after : α → List Piece}
    (htrue : Lays T AnyToken (before ++ [.token]) (f true) after)
    (hfalse : Lays T here before (f false) after) :
    Lays T here before (takeKeyword word >>= f) after := by
  intro lo hi s a t hs hhere heq
  rw [takeKeyword_bind_apply] at heq
  split at heq
  · next hkind =>
    refine htrue lo hi _ a t ?_ trivial heq
    exact (hs.leaf hT (isEnd_of_keyword hkind)).forget (by simp) (by simp)
  · exact hfalse lo hi s a t hs hhere heq

/-- A list with commas lays its items one behind the other. -/
theorem Lays.commaList {first next : Parser α} {tree : α → SpanTree}
    (hfirst : Lays T here [] first fun a => [.tree (tree a)])
    (hnext : Lays T AnyToken [] next fun a => [.tree (tree a)]) (rule : String) :
    Lays T here before (commaList rule first next)
      (fun as => before ++ as.map fun a => .tree (tree a)) := by
  rw [commaList_eq]
  refine ((hfirst.behind hT).taking rule).bind fun head => ?_
  have hstep (items : List α) : Lays T AnyToken
      (before ++ (head :: items.reverse).map fun a => .tree (tree a)) (commaStep rule next items)
      (fun r => before ++ (head :: r.value.reverse).map fun a => .tree (tree a)) := by
    refine lays_takeSymbol_bind hT ?_ (lays_pure rfl)
    refine ((hnext.behind hT).taking rule).bind fun item => lays_pure_forget ?_ (by simp)
    simp [ForInStep.value]
  have hloop : Lays T AnyToken (before ++ [.tree (tree head)]) (loop [] (commaStep rule next))
      (fun items => before ++ (head :: items.reverse).map fun a => .tree (tree a)) := by
    have h : Lays T AnyToken _ (loop [] (commaStep rule next)) _ := lays_loop hstep []
    simpa using h
  exact hloop.bind fun tail => lays_pure rfl

/-- The items of a list lie behind each other, with commas between them. -/
theorem Lays.commaSeparated {p : Parser α} {tree : α → SpanTree}
    (h : Lays T AnyToken [] p fun a => [.tree (tree a)]) (rule : String) :
    Lays T here before (Parser.commaSeparated rule p)
      (fun as => before ++ as.map fun a => .tree (tree a)) := h.weaken.commaList hT h rule

/-- A node is closed behind the token passed last. It starts with one of the pieces. -/
theorem lays_spanFrom {start : Span} {inner more kids : List SpanTree} {pieces : List Piece}
    (hsub : (treesOf before ++ .node start inner :: more).Sublist (treesOf pieces))
    (hkids : kids.Sublist (.node start inner :: more)) :
    Lays T here pieces (spanFrom start) (fun span => before ++ [.tree (.node span kids)]) := by
  intro lo hi s span t hs _ heq
  rw [← bind_pure (spanFrom start), spanFrom_bind_apply] at heq
  obtain ⟨rfl, rfl⟩ := pure_eq_ok_iff.1 heq
  have hforgotten : Laid T lo hi (before ++ .tree (.node start inner) :: more.map .tree) s := by
    refine hs.forget (by simpa using hsub) ?_
    rintro rfl
    simp at hsub
  exact hforgotten.enclose hT (by simpa using hkids)

/-- A node that starts with a token of its own. -/
theorem lays_node (before : List Piece) (kids : List SpanTree) {start : Span} {pieces : List Piece}
    {f : Span → α} {after : α → List Piece}
    (hsub : (treesOf before ++ .leaf start :: kids).Sublist (treesOf pieces))
    (hafter : ∀ span, after (f span) = before ++ [.tree (.node span kids)]) :
    Lays T here pieces (do return f (← spanFrom start)) after :=
  (lays_spanFrom hT hsub (List.sublist_cons_self _ _)).bind fun span => lays_pure (hafter span)

/-- A node that starts at the token under the cursor. -/
theorem lays_spanned {p : Parser α} {f : α → Span → β} {tree : β → SpanTree}
    {pieces : α → List Piece} (h : Lays T here [] p pieces) (hne : ∀ a, pieces a ≠ [])
    (htree : ∀ a span, tree (f a span) = .node span (treesOf (pieces a))) :
    Lays T here before (do
      let start := (← current).span
      let a ← p
      return f a (← spanFrom start)) (fun b => before ++ [.tree (tree b)]) := by
  have hnode : Lays T here [] (do
      let start := (← current).span
      let a ← p
      return f a (← spanFrom start)) (fun b => [.tree (tree b)]) := by
    intro lo hi s b t hs hhere heq
    rw [current_bind_apply] at heq
    obtain ⟨a, u, hu, hrest⟩ := bind_eq_ok_iff.1 heq
    rw [spanFrom_bind_apply] at hrest
    obtain ⟨rfl, rfl⟩ := pure_eq_ok_iff.1 hrest
    have hlaid := (h _ _ s a u (laid_nil hs.allTokens) hhere hu).span hT hs.allTokens (hne a)
    rw [← htree] at hlaid
    exact hs.behind hT hlaid
  exact hnode.behind hT

/-- Where a run is recovered from, what it has built is given up. -/
theorem Lays.recover {p : Parser α} {after : α → List Piece} (h : Lays T here before p after)
    (hp : ∀ lo hi, (moving T lo hi).Meets p) :
    Lays T here before (recover p) (fun found => found.elim before after) := by
  intro lo hi s found t hs hhere heq
  cases found with
  | some a =>
    refine h lo hi s a t hs hhere ?_
    unfold Parser.recover at heq
    cases hrun : p s with
    | ok b u =>
      rw [hrun] at heq
      cases heq
      rfl
    | error e u =>
      rw [hrun] at heq
      cases e with
      | outOfFuel => cases heq
      | rejected d =>
        obtain ⟨-, v, -, hrest⟩ := bind_eq_ok_iff.1 heq
        cases hrest
  | none =>
    exact lays_of_meets hT (fun lo hi => (hp lo hi).recover (moving_lawful hT)) lo hi s none t hs
      hhere heq

/-- What is passed over behind a clause lays nothing. -/
theorem lays_clauseEnd : Lays T here before clauseEnd (fun _ => before) :=
  lays_of_meets hT fun _ _ => (moving_lawful hT).clauseEnd

/-! ## Names and numbers -/

/-- An identifier is a single token, or a dot and a bare name. -/
theorem lays_ident : Lays T here before ident (fun name => before ++ [.tree name.spanTree]) := by
  refine lays_current_bind fun u => ?_
  have hone {value : String} {quoted : Bool} (hkind : u.kind ≠ .endOfInput) :
      Lays T (fun v => v = u ∧ here v) before (do return ⟨value, quoted, ← take⟩ : Parser Ident)
        (fun name => before ++ [.tree name.spanTree]) := by
    refine (lays_take hT ?_).bind fun span => lays_pure rfl
    rintro _ ⟨rfl, -⟩
    exact isEnd_eq_false hkind
  split
  · next hkind => exact hone (hkind ▸ nofun)
  · next hkind => exact hone (hkind ▸ nofun)
  · next word hkind =>
    split
    · exact hone (hkind ▸ nofun)
    · exact lays_rejectCurrent _
  -- A dot and the name behind it are two leaves, which are joined.
  · next hdot =>
    intro lo hi s name t hs hhere heq
    have hend : s.cursor.current.isEnd = false := isEnd_of_symbol (hhere.1 ▸ hdot)
    rw [peek_bind_apply] at heq
    cases hname : (s.cursor.peek 1).kind with
    | name value =>
      rw [hname] at heq
      dsimp only at heq
      rw [take_bind_apply, take_bind_apply] at heq
      obtain ⟨rfl, rfl⟩ := pure_eq_ok_iff.1 heq
      have hnext : (s.skip 1).cursor.current.isEnd = false := by
        rw [State.skip_cursor, Cursor.current_skip_one hend]
        exact isEnd_eq_false (hname ▸ nofun)
      have hboth : Laid T lo hi (before ++ .tree (.leaf s.cursor.current.span) ::
          ([] ++ [.tree (.leaf (s.skip 1).cursor.current.span)])) ((s.skip 1).skip 1) := by
        simpa using (hs.leaf hT hend).leaf hT hnext
      exact hboth.join hT (List.nil_sublist _)
    | _ =>
      rw [hname] at heq
      exact absurd heq rejectCurrent_ne_ok
  · exact lays_rejectCurrent _

/-- The pieces of a name of which the segments are read latest first. -/
def nameTree (names : List Ident × Span) : SpanTree :=
  .node names.2 (names.1.reverse.map Ident.spanTree)

/-- A name grows at its end. -/
theorem lays_namePart (names : List Ident × Span) :
    Lays T AnyToken (before ++ [.tree (nameTree names)]) (namePart names)
      (fun r => before ++ [.tree (nameTree r.value)]) := by
  refine lays_atSymbol_bind (lays_peek_bind 1 fun u => ?_) (lays_peek_bind 1 fun u => lays_pure rfl)
  split
  · refine (lays_skip hT 1).bind fun _ => (lays_ident hT).bind fun part => ?_
    intro lo hi s r t hs _ heq
    obtain ⟨rfl, rfl⟩ := pure_eq_ok_iff.1 heq
    rw [List.append_assoc] at hs
    simpa [nameTree, Ident.spanTree, ForInStep.value] using Laid.extend hT hs
  · exact lays_pure rfl

/-- The segments of a name lie inside of the name. -/
theorem lays_qualifiedName :
    Lays T here before qualifiedName (fun name => before ++ [.tree name.spanTree]) := by
  rw [qualifiedName_eq]
  refine (lays_ident hT).bind fun first => ?_
  have hloop : Lays T AnyToken (before ++ [.tree first.spanTree])
      (loop ([first], first.span) namePart) (fun names => before ++ [.tree (nameTree names)]) :=
    fun lo hi s names t hs hhere heq =>
      lays_loop (lays_namePart hT) ([first], first.span) lo hi s names t hs.wrap hhere heq
  exact hloop.bind fun names => lays_pure rfl

theorem lays_optionalAlias :
    Lays T here before optionalAlias
      (fun name => before ++ (name.map fun n => Piece.tree n.spanTree).toList) := by
  have hident : Lays T AnyToken before (some <$> ident)
      (fun name => before ++ (name.map fun n => Piece.tree n.spanTree).toList) :=
    (lays_ident hT).map fun _ => rfl
  refine lays_takeKeyword_bind hT ?_ ?_
  · refine (lays_ident hT).bind fun name => lays_pure_forget ?_ (by simp)
    simp
  · refine lays_current_bind fun u => ?_
    split
    · exact hident.weaken
    · exact lays_pure (by simp)

theorem lays_field : Lays T here before field (fun f => before ++ [.tree f.spanTree]) := by
  refine lays_current_bind fun u => ?_
  split
  · next value hkind =>
    refine (lays_take hT ?_).bind fun span => lays_pure rfl
    rintro _ ⟨rfl, -⟩
    exact isEnd_eq_false (hkind ▸ nofun)
  · exact (lays_qualifiedName hT).bind fun name => lays_pure rfl

/-- A boost leaves no span behind. -/
theorem lays_weightedField :
    Lays T here before weightedField (fun f => before ++ [.tree f.spanTree]) := by
  have hweight {before : List Piece} : Lays T AnyToken before weight (fun _ => before) :=
    lays_of_meets hT fun _ _ => (moving_lawful hT).weight
  refine (lays_field hT).bind fun f => lays_takeSymbol_bind hT ?_ (lays_current_bind fun u => ?_)
  · refine hweight.bind fun w => lays_pure_forget ?_ (by simp)
    simp [WeightedField.spanTree]
  · split
    · exact hweight.weaken.bind fun w => lays_pure rfl
    · exact lays_pure rfl

theorem lays_fieldList :
    Lays T here before fieldList
      (fun fs => before ++ fs.map fun f => Piece.tree f.spanTree) := by
  have hfield : Lays T AnyToken [] weightedField (fun f => [.tree f.spanTree]) :=
    lays_weightedField hT
  refine ((lays_symbol hT .leftBracket).token).bind fun _ => (hfield.commaSeparated hT _).bind
    fun fields => (lays_symbol hT .rightBracket).bind fun _ => lays_pure_forget ?_ (by simp)
  simp

theorem lays_callName : Lays T here before callName (fun _ => before ++ [.token]) :=
  lays_current_bind fun _ => (lays_skip hT 1).bind fun _ => (lays_symbol hT _).token.bind
    fun _ => lays_pure rfl

theorem lays_limit : Lays T here before limit (fun l => before ++ [.tree l.spanTree]) := by
  have hcount {here : Token → Prop} {before : List Piece} :
      Lays T here before count (fun _ => before) :=
    lays_of_meets hT fun _ _ => (moving_lawful hT).count
  have hend {start : Span} {rows : Nat} {offset : Option Nat} {pieces : List Piece}
      (hsub : (treesOf before ++ [SpanTree.leaf start]).Sublist (treesOf pieces)) :
      Lays T AnyToken pieces (do return ⟨rows, offset, ← spanFrom start⟩ : Parser Limit)
        (fun l => before ++ [.tree l.spanTree]) :=
    lays_node hT before [] hsub fun _ => rfl
  refine (lays_keyword hT .LIMIT).bind fun start => hcount.bind fun first =>
    lays_takeSymbol_bind hT ?_ (lays_takeKeyword_bind hT ?_ ?_)
  · exact hcount.bind fun rows => hend (by simp)
  · exact hcount.bind fun offset => hend (by simp)
  · exact hend (by simp)

theorem lays_nameFilter :
    Lays T here before nameFilter (fun f => before ++ [.tree f.spanTree]) := by
  have hword : Lays T here [] (keyword .LIKE) (fun span => [] ++ [.tree (.leaf span)]) :=
    lays_keyword hT .LIKE
  have hpattern : Lays T here [] likePattern (fun _ => [.token]) := hword.token.bind fun _ =>
    lays_of_meets hT fun _ _ => (moving_lawful hT).pattern
  exact lays_spanned hT hpattern (fun _ => List.cons_ne_nil _ _) fun _ _ => rfl

theorem lays_columnFilter :
    Lays T here before columnFilter
      (fun f => before ++ (f.map fun f => Piece.tree f.spanTree).toList) := by
  refine lays_atKeyword_bind ?_ (lays_pure (by simp))
  have hpattern {before : List Piece} : Lays T AnyToken before likePattern (fun _ => before) :=
    lays_of_meets hT fun _ _ => (moving_lawful hT).likePattern
  exact (lays_take_keyword hT).bind fun start => hpattern.bind fun pattern =>
    lays_node hT before [] (by simp) fun _ => rfl

/-! ## Literals -/

omit hT in
/-- A number has nothing inside it, and its literal is made without moving on. -/
theorem numberLiteral_still {kind : TokenKind} {text : String} {span : Span} {value : Literal}
    (h : numberLiteral kind text span s = .ok value t) :
    value.spanTrees = [] ∧ t.cursor = s.cursor := by
  have hother (fault : LiteralFault) {kind : LiteralKind}
      (h : malformedLiteral kind text fault span s = .ok value t) :
      value.spanTrees = [] ∧ t.cursor = s.cursor := by
    obtain ⟨-, rfl, hcursor⟩ := malformedLiteral_eq_ok h
    exact ⟨rfl, hcursor⟩
  unfold numberLiteral at h
  split at h
  · cases hread : Number.readSigned text with
    | ok n =>
      rw [hread] at h
      obtain ⟨rfl, rfl⟩ := pure_eq_ok_iff.1 h
      exact ⟨rfl, rfl⟩
    | error fault =>
      rw [hread] at h
      exact hother _ h
  · cases hread : Number.readReal text with
    | ok x =>
      rw [hread] at h
      obtain ⟨rfl, rfl⟩ := pure_eq_ok_iff.1 h
      exact ⟨rfl, rfl⟩
    | error fault =>
      rw [hread] at h
      exact hother _ h

omit hT in
/-- A date or time has no parts. -/
theorem spanTrees_of_read {library : Time.Library} {kind : TemporalKind} {text : String}
    {value : Literal} (h : kind.read library text = .ok value) : value.spanTrees = [] := by
  obtain ⟨_, rfl⟩ | ⟨_, rfl⟩ | ⟨_, rfl⟩ := TemporalKind.cases_of_read h
  all_goals rfl

omit hT in
/-- A date or time has nothing inside it, and its literal is made without moving on. -/
theorem temporalLiteral_still {kind : TemporalKind} {text : String} {span : Span} {value : Literal}
    (h : temporalLiteral kind text span s = .ok value t) :
    value.spanTrees = [] ∧ t.cursor = s.cursor := by
  unfold temporalLiteral at h
  rw [get_bind_apply] at h
  cases hread : kind.read s.library text with
  | ok found =>
    rw [hread] at h
    obtain ⟨rfl, rfl⟩ := pure_eq_ok_iff.1 h
    exact ⟨spanTrees_of_read hread, rfl⟩
  | error fault =>
    rw [hread] at h
    obtain ⟨-, rfl, hcursor⟩ := malformedLiteral_eq_ok h
    exact ⟨rfl, hcursor⟩

omit hT in
/-- Its tokens lie in front of the cursor when it is read. -/
theorem lays_temporalLiteral {kind : TemporalKind} {text : String} {span : Span} :
    Lays T here (before ++ [.token]) (temporalLiteral kind text span)
      (fun value => before ++ .token :: value.spanTrees.map .tree) := by
  intro lo hi s value t hs _ heq
  obtain ⟨hvalue, hcursor⟩ := temporalLiteral_still heq
  dsimp only
  rw [hvalue]
  exact hs.same hcursor

/-- The digits of a number that starts at `s`. -/
theorem Laid.numberBehind {u : State} {negative : Bool} {c : Constant}
    (hall : s.cursor.allTokens = T)
    (hs : Laid T s.cursor.current.span.start s.cursor.previousSpan.stop [] u)
    (heq : Likeness.numberBehind s.cursor.current.span negative u = .ok c t) :
    Laid T s.cursor.current.span.start s.cursor.previousSpan.stop [.tree c.spanTree] t := by
  unfold Likeness.numberBehind at heq
  rw [current_bind_apply] at heq
  dsimp only at heq
  split at heq
  · obtain ⟨_, _, hreject, -⟩ := bind_eq_ok_iff.1 heq
    exact absurd hreject rejectCurrent_ne_ok
  · next hnumber =>
    rw [skip_bind_apply, spanFrom_bind_apply] at heq
    obtain ⟨value, v, hvalue, hrest⟩ := bind_eq_ok_iff.1 heq
    obtain ⟨rfl, rfl⟩ := pure_eq_ok_iff.1 hrest
    obtain ⟨htrees, hcursor⟩ := numberLiteral_still hvalue
    have hlaid : Laid T s.cursor.current.span.start s.cursor.previousSpan.stop [.token] (u.skip 1) :=
      (hs.leaf hT (Token.isEnd_of_isNumber (by simpa using hnumber))).forget (by simp) (by simp)
    rw [Constant.spanTree, htrees]
    exact (hlaid.span hT hall (List.cons_ne_nil _ _)).same hcursor

/-- A number lies from its sign to its last token. -/
theorem lays_number : Lays T here before number (fun c => before ++ [.tree c.spanTree]) := by
  intro lo hi s c t hs hhere heq
  rw [Likeness.number_eq, current_bind_apply] at heq
  refine hs.behind hT ?_
  have hstart := laid_nil hs.allTokens
  unfold Likeness.numberFrom at heq
  rw [takeSymbol_bind_apply] at heq
  have hsign {sign : Symbol} (hkind : s.cursor.current.kind = .symbol sign) :
      Laid T s.cursor.current.span.start s.cursor.previousSpan.stop [] (s.skip 1) :=
    (hstart.leaf hT (isEnd_of_symbol hkind)).forget (List.nil_sublist _) fun _ => rfl
  split at heq
  · next hminus => exact Laid.numberBehind hT hs.allTokens (hsign hminus) heq
  · replace heq : (takeSymbol .plus >>= fun _ =>
        Likeness.numberBehind s.cursor.current.span false) s = .ok c t := heq
    rw [takeSymbol_bind_apply] at heq
    split at heq
    · next hplus => exact Laid.numberBehind hT hs.allTokens (hsign hplus) heq
    · exact Laid.numberBehind hT hs.allTokens hstart heq

theorem lays_string : Lays T here before string (fun _ => before) :=
  lays_of_meets hT fun _ _ => (moving_lawful hT).string

theorem lays_wordLiteral {word : Keyword} (kind : TemporalKind) :
    Lays T (fun t => t.kind = .keyword word) before (wordLiteral kind)
      (fun value => before ++ .token :: value.spanTrees.map .tree) :=
  (lays_take_keyword hT).token.bind fun _ => (lays_string hT).bind fun _ =>
    lays_spanFrom_bind fun _ => lays_temporalLiteral

theorem lays_bracedLiteral :
    Lays T here before bracedLiteral
      (fun value => before ++ .token :: value.spanTrees.map .tree) := by
  refine (lays_symbol hT .leftBrace).token.bind fun _ => lays_current_bind fun u => ?_
  split
  · refine (lays_skip hT 1).bind fun _ => (lays_string hT).bind fun _ =>
      (lays_of_meets hT fun _ _ => (moving_lawful hT).symbol .rightBrace).bind fun _ =>
        lays_spanFrom_bind fun _ => lays_temporalLiteral
  · exact lays_rejectCurrent _

theorem lays_datetimeConstant (name : DatetimeConstant) (hend : ∀ t, here t → t.isEnd = false) :
    Lays T here before (datetimeConstant name)
      (fun value => before ++ .token :: value.spanTrees.map .tree) := by
  refine (lays_pass hT hend).bind fun _ => lays_takeSymbol_bind hT ?_ (lays_pure rfl)
  exact (lays_symbol hT .rightParen).bind fun _ =>
    lays_pure_forget (by simp [Literal.spanTrees]) (by simp)

theorem lays_simpleLiteral {value : Literal} (hvalue : value.spanTrees = [])
    (hend : ∀ t, here t → t.isEnd = false) :
    Lays T here before (simpleLiteral value)
      (fun value => before ++ .token :: value.spanTrees.map .tree) :=
  (lays_pass hT hend).bind fun _ => lays_pure (by rw [hvalue]; rfl)

/-! ## Calls without recursion -/

theorem lays_nestedAll :
    Lays T here before nestedAll (fun shape => before ++ .token :: shape.spanTrees.map .tree) := by
  refine (lays_callName hT).bind fun name => (lays_qualifiedName hT).bind fun path =>
    (lays_symbol hT .dot).token.bind fun _ => (lays_symbol hT .star).token.bind fun _ =>
      (lays_symbol hT .rightParen).token.bind fun _ => lays_pure_forget ?_ (by simp)
  simp [CallShape.spanTrees]

theorem lays_highlight :
    Lays T here before highlight (fun shape => before ++ .token :: shape.spanTrees.map .tree) := by
  have hoptions {before : List Piece} : Lays T AnyToken before highlightOptions (fun _ => before) :=
    lays_of_meets hT fun _ _ => (moving_lawful hT).highlightOptions
  refine (lays_callName hT).bind fun _ => (lays_field hT).bind fun f => hoptions.bind fun options =>
    (lays_symbol hT .rightParen).token.bind fun _ => lays_pure_forget ?_ (by simp)
  simp [CallShape.spanTrees]

end Apart

end Grammar

end SearchSql
