import SearchSql.Proofs.SourceOrder
import SearchSql.Proofs.SpanTrees

/-!
# Where spans are placed

What a parser builds has its spans on the tokens that the parser passes. `Laid` says of a state that
the pieces built so far stand in a row between an offset and the end of the token passed last. A
piece is a tree of spans, or a token that was passed without leaving a span behind.

The span of a node starts with a token passed at the beginning and ends with one passed last, so that
it encloses all pieces between the two (`Laid.enclose`, `Laid.join`).
-/

set_option autoImplicit false

namespace SearchSql

/-- No token but the last ends the input or is empty, and each ends where the next one starts or in
front of it. -/
def Token.Apart (tokens : List Token) : Prop :=
  tokens.Pairwise fun t u =>
    t.isEnd = false ∧ t.span.start < t.span.stop ∧ t.span.stop ≤ u.span.start

/-- Tokens that are apart are in order. -/
theorem Token.Apart.inOrder {tokens : List Token} (h : Apart tokens) : InOrder tokens :=
  h.imp fun hpair => Nat.lt_of_lt_of_le hpair.2.1 hpair.2.2

/-- Of two tokens the earlier one ends before the later one starts. -/
theorem Token.Apart.get {tokens : List Token} (h : Apart tokens) {i j : Nat} {t u : Token}
    (ht : tokens[i]? = some t) (hu : tokens[j]? = some u) (hij : i < j) :
    t.isEnd = false ∧ t.span.start < t.span.stop ∧ t.span.stop ≤ u.span.start := by
  obtain ⟨hi, rfl⟩ := List.getElem?_eq_some_iff.1 ht
  obtain ⟨hj, rfl⟩ := List.getElem?_eq_some_iff.1 hu
  exact List.pairwise_iff_getElem.1 h i j hi hj hij

/-- Only the token that ends the input is empty. -/
theorem Token.Apart.start_lt_stop {tokens : List Token} (h : Apart tokens) {last t : Token}
    (hlast : tokens.getLast? = some last) (hend : last.isEnd = true) (ht : t ∈ tokens)
    (hmore : t.isEnd = false) : t.span.start < t.span.stop := by
  obtain ⟨front, rfl⟩ := List.getLast?_eq_some_iff.1 hlast
  rcases List.mem_append.1 ht with hmem | hmem
  · exact ((List.pairwise_append.1 h).2.2 t hmem last (List.mem_singleton.2 rfl)).2.1
  · rw [List.mem_singleton.1 hmem, hend] at hmore
    cases hmore

/-- Of two tokens, the one that starts first ends first. -/
theorem Token.Apart.stop_le {tokens : List Token} (h : Apart tokens) {t u : Token}
    (ht : t ∈ tokens) (hu : u ∈ tokens) (hstart : t.span.start ≤ u.span.start)
    (hpos : u.span.start < u.span.stop) : t.span.stop ≤ u.span.stop := by
  obtain ⟨i, ht⟩ := List.mem_iff_getElem?.1 ht
  obtain ⟨j, hu⟩ := List.mem_iff_getElem?.1 hu
  rcases Nat.lt_trichotomy i j with hij | rfl | hji
  · have hpair := h.get ht hu hij
    omega
  · exact Nat.le_of_eq (by rw [Option.some.inj (ht.symm.trans hu)])
  · have hpair := h.get hu ht hji
    omega

/-- A token in front of one that does not end the input does not end it, either. -/
theorem Token.Apart.isEnd_eq_false {tokens : List Token} (h : Apart tokens) {t u : Token}
    (ht : t ∈ tokens) (hu : u ∈ tokens) (hend : u.isEnd = false)
    (hstart : t.span.start ≤ u.span.start) (hpos : u.span.start < u.span.stop) :
    t.isEnd = false := by
  obtain ⟨i, ht⟩ := List.mem_iff_getElem?.1 ht
  obtain ⟨j, hu⟩ := List.mem_iff_getElem?.1 hu
  rcases Nat.lt_trichotomy i j with hij | rfl | hji
  · exact (h.get ht hu hij).1
  · rwa [Option.some.inj (ht.symm.trans hu)]
  · have hpair := h.get hu ht hji
    omega

/-- The tokens of a text are apart. -/
theorem Token.apart_tokenize (text : String) : Apart (tokenize text) := by
  obtain ⟨hlast, hkinds, hapart, -⟩ := tokenize_tiles text
  obtain ⟨front, hfront⟩ := List.getLast?_eq_some_iff.1 hlast
  rw [hfront, List.dropLast_concat] at hkinds
  rw [hfront, List.pairwise_append] at hapart
  have hend {t : Token} (ht : t ∈ front) : t.isEnd = false := beq_eq_false_iff_ne.2 (hkinds t ht).1
  rw [hfront]
  refine List.pairwise_append.2 ⟨?_, List.pairwise_singleton _ _, fun t ht u hu => ?_⟩
  · exact hapart.1.imp_of_mem fun ht _ hpair => ⟨hend ht, hpair⟩
  · exact ⟨hend ht, hapart.2.2 t ht u hu⟩

/-! ## Spans of tokens -/

namespace Span

variable {tokens : List Token} {a b : Span}

/-- A token has a span of its own. -/
theorem covers_of_mem {t : Token} (h : t ∈ tokens) (hend : t.isEnd = false) :
    t.span.Covers tokens := by
  obtain ⟨i, hi, rfl⟩ := List.mem_iff_getElem.1 h
  have hget := List.getElem?_eq_getElem hi
  exact ⟨i, i, _, _, Nat.le_refl i, hget, hget, hend, hend, rfl⟩

/-- Two spans of tokens of which the first does not start behind the end of the second. -/
theorem Covers.to (htokens : Token.Apart tokens) (ha : a.Covers tokens) (hb : b.Covers tokens)
    (hlt : a.start < b.stop) : (⟨a.start, b.stop⟩ : Span).Covers tokens := by
  obtain ⟨i, _, t, _, _, ht, _, htend, _, rfl⟩ := ha
  obtain ⟨_, j, _, u, _, _, hu, _, huend, rfl⟩ := hb
  change t.span.start < u.span.stop at hlt
  refine ⟨i, j, t, u, Nat.le_of_not_lt fun hji => ?_, ht, hu, htend, huend, rfl⟩
  -- Otherwise the last token would end in front of the first one.
  have hstop := (Token.Apart.get htokens hu ht hji).2.2
  omega

/-- A span of tokens starts in front of a token that it reaches. -/
theorem Covers.start_le (htokens : Token.Apart tokens) (ha : a.Covers tokens) {t : Token}
    (ht : t ∈ tokens) (hlt : a.start < t.span.stop) : a.start ≤ t.span.start := by
  obtain ⟨i, _, u, _, _, hu, _, _, _, rfl⟩ := ha
  obtain ⟨j, ht⟩ := List.mem_iff_getElem?.1 ht
  change u.span.start < t.span.stop at hlt
  show u.span.start ≤ t.span.start
  rcases Nat.lt_trichotomy i j with hij | rfl | hji
  · have hpair := Token.Apart.get htokens hu ht hij
    omega
  · exact Nat.le_of_eq (by rw [Option.some.inj (hu.symm.trans ht)])
  · have hpair := Token.Apart.get htokens ht hu hji
    omega

end Span

namespace Cursor

variable {c : Cursor} (h : Token.Apart c.allTokens)

/-- A token that does not end the input is followed by another one. -/
theorem exists_behind_current (hend : c.current.isEnd = false) :
    ∃ front behind next, c.allTokens = front ++ c.current :: (behind ++ [next]) := by
  obtain ⟨passed, ahead, closing, hclosing⟩ := c
  cases ahead with
  | nil => exact absurd (hclosing.symm.trans hend) nofun
  | cons t ts => exact ⟨passed.reverse, ts, closing, by simp [allTokens, current]⟩

include h

/-- A token that is not the end of the input is not empty. -/
theorem start_lt_stop (hend : c.current.isEnd = false) :
    c.current.span.start < c.current.span.stop := by
  obtain ⟨front, behind, next, htokens⟩ := exists_behind_current hend
  rw [htokens] at h
  exact ((List.pairwise_cons.1 (List.pairwise_append.1 h).2.1).1 next (by simp)).2.1

/-- The token passed last ends where the one under the cursor starts, or in front of it. -/
theorem previous_le_current : c.previousSpan.stop ≤ c.current.span.start := by
  unfold previousSpan
  split
  · exact Nat.le_refl _
  · next t ts hpassed =>
    rw [allTokens_eq, hpassed] at h
    exact ((List.pairwise_append.1 h).2.2 t (by simp) _ c.current_mem).2.2

/-- Behind a token, what was passed last is a token. -/
theorem exists_previous {t : Token} (ht : t ∈ c.allTokens) (hpos : t.span.start < t.span.stop)
    (hstop : t.span.stop ≤ c.previousSpan.stop) :
    ∃ u ∈ c.allTokens, u.isEnd = false ∧ c.previousSpan = u.span := by
  cases hpassed : c.passed with
  | cons u us =>
    rw [allTokens_eq, hpassed] at h
    refine ⟨u, ?_, ?_, by rw [previousSpan, hpassed]⟩
    · rw [allTokens_eq, hpassed]
      simp
    · exact ((List.pairwise_append.1 h).2.2 u (by simp) _ c.current_mem).1
  | nil =>
    -- Nothing has been passed, so the token cannot end here.
    exfalso
    have hcurrent : c.previousSpan.stop = c.current.span.start := by rw [previousSpan, hpassed]; rfl
    rw [allTokens_eq, hpassed, List.reverse_nil, List.nil_append] at h ht
    obtain ⟨rest, hrest⟩ := c.exists_current_cons
    rw [hrest] at h ht
    rcases List.mem_cons.1 ht with rfl | ht
    · omega
    · have hpair := (List.pairwise_cons.1 h).1 t ht
      omega

end Cursor

/-! ## Trees in a row -/

/-- The trees are nested, and stand one behind the other between two offsets. -/
structure Row (tokens : List Token) (lo hi : Nat) (ts : List SpanTree) : Prop where
  nested : ∀ t ∈ ts, t.Nested tokens
  ordered : ts.Pairwise SpanTree.Precedes
  within : ∀ x ∈ spansAll ts, lo ≤ x.start ∧ x.stop ≤ hi

namespace Row

variable {T : List Token} {lo hi lo' hi' : Nat} {ts us : List SpanTree}

theorem nil : Row T lo hi [] := ⟨nofun, .nil, nofun⟩

theorem mono (h : Row T lo hi ts) (hlo : lo' ≤ lo) (hhi : hi ≤ hi') : Row T lo' hi' ts :=
  ⟨h.nested, h.ordered, fun x hx =>
    ⟨Nat.le_trans hlo (h.within x hx).1, Nat.le_trans (h.within x hx).2 hhi⟩⟩

theorem sublist (h : Row T lo hi us) (hsub : ts.Sublist us) : Row T lo hi ts where
  nested t ht := h.nested t (hsub.subset ht)
  ordered := h.ordered.sublist hsub
  within x hx := by
    obtain ⟨t, ht, hx⟩ := mem_spansAll.1 hx
    exact h.within x (mem_spansAll.2 ⟨t, hsub.subset ht, hx⟩)

/-- Two rows, one behind the other, are a row. -/
theorem append (hts : Row T lo hi ts) (hus : Row T lo' hi' us) (hmid : hi ≤ lo') (hlo : lo ≤ lo')
    (hhi : hi ≤ hi') : Row T lo hi' (ts ++ us) := by
  have hleft := hts.mono (Nat.le_refl lo) hhi
  have hright := hus.mono hlo (Nat.le_refl hi')
  refine ⟨?_, ?_, ?_⟩
  · intro t ht
    rcases List.mem_append.1 ht with ht | ht
    · exact hts.nested t ht
    · exact hus.nested t ht
  · refine List.pairwise_append.2 ⟨hts.ordered, hus.ordered, ?_⟩
    intro t ht u hu x hx y hy
    have hstop := (hts.within x (mem_spansAll.2 ⟨t, ht, hx⟩)).2
    have hstart := (hus.within y (mem_spansAll.2 ⟨u, hu, hy⟩)).1
    omega
  · intro x hx
    obtain ⟨t, ht, hx⟩ := mem_spansAll.1 hx
    rcases List.mem_append.1 ht with ht | ht
    · exact hleft.within x (mem_spansAll.2 ⟨t, ht, hx⟩)
    · exact hright.within x (mem_spansAll.2 ⟨t, ht, hx⟩)

/-- A single node, from what is below it. -/
theorem node (span : Span) (hspan : span.Covers T) (hpos : span.start < span.stop)
    (h : Row T span.start span.stop ts) : Row T span.start span.stop [.node span ts] where
  nested t ht := by
    rw [List.mem_singleton.1 ht]
    refine .node hspan hpos (fun x hx => ?_) h.ordered h.nested
    simpa [Span.contains] using h.within x hx
  ordered := List.pairwise_singleton _ _
  within x hx := by
    simp only [spansAll, SpanTree.spans, List.append_nil, List.mem_cons] at hx
    rcases hx with rfl | hx
    · exact ⟨Nat.le_refl _, Nat.le_refl _⟩
    · exact h.within x hx

/-- Trees in a row may be taken as one. -/
theorem group {front rest : List SpanTree} (h : Row T lo hi (front ++ ts ++ rest)) :
    Row T lo hi (front ++ .group ts :: rest) := by
  have hmem {t : SpanTree} (ht : t ∈ front ∨ t ∈ ts ∨ t ∈ rest) : t ∈ front ++ ts ++ rest := by
    simpa [or_assoc] using ht
  obtain ⟨hmid, hrest, hbefore⟩ := List.pairwise_append.1 h.ordered
  obtain ⟨hfront, hts, hacross⟩ := List.pairwise_append.1 hmid
  have hspans {x : Span} (hx : x ∈ (SpanTree.group ts).spans) : ∃ t ∈ ts, x ∈ t.spans :=
    mem_spansAll.1 hx
  refine ⟨fun t ht => ?_, List.pairwise_append.2 ⟨hfront, List.pairwise_cons.2 ⟨?_, hrest⟩, ?_⟩,
    fun x hx => ?_⟩
  · rcases List.mem_append.1 ht with ht | ht
    · exact h.nested t (hmem (.inl ht))
    · rcases List.mem_cons.1 ht with rfl | ht
      · exact .group hts fun t ht => h.nested t (hmem (.inr (.inl ht)))
      · exact h.nested t (hmem (.inr (.inr ht)))
  · intro u hu x hx y hy
    obtain ⟨t, ht, hx⟩ := hspans hx
    exact hbefore t (List.mem_append_right _ ht) u hu x hx y hy
  · intro t ht u hu x hx y hy
    rcases List.mem_cons.1 hu with rfl | hu
    · obtain ⟨u, hu, hy⟩ := hspans hy
      exact hacross t ht u hu x hx y hy
    · exact hbefore t (List.mem_append_left _ ht) u hu x hx y hy
  · refine h.within x ?_
    simpa [spansAll_eq, SpanTree.spans] using hx

/-- Two trees in a row may be taken as one in which their order does not count. -/
theorem either {first second : SpanTree} (h : Row T lo hi [first, second]) :
    Row T lo hi [.either first second] ∧ Row T lo hi [.either second first] := by
  have hprecedes : first.Precedes second := List.rel_of_pairwise_cons h.ordered List.mem_cons_self
  have hfirst := h.nested first List.mem_cons_self
  have hsecond := h.nested second (List.mem_cons_of_mem _ List.mem_cons_self)
  refine ⟨⟨?_, List.pairwise_singleton _ _, ?_⟩, ⟨?_, List.pairwise_singleton _ _, ?_⟩⟩
  · intro t ht
    rw [List.mem_singleton.1 ht]
    exact .either (.inl hprecedes) hfirst hsecond
  · intro x hx
    exact h.within x (by simpa [spansAll, SpanTree.spans] using hx)
  · intro t ht
    rw [List.mem_singleton.1 ht]
    exact .either (.inr hprecedes) hsecond hfirst
  · intro x hx
    refine h.within x ?_
    simpa [spansAll, SpanTree.spans, or_comm] using hx

/-- A node in a row has its span, and what is below it, in the row. -/
theorem root (h : Row T lo hi ts) (span : Span) (children : List SpanTree)
    (hmem : SpanTree.node span children ∈ ts) :
    span.Covers T ∧ span.start < span.stop ∧ lo ≤ span.start ∧ span.stop ≤ hi ∧
      Row T span.start span.stop [.node span children] := by
  obtain ⟨hcovers, hpos, hcontains, hordered, hnested⟩ := h.nested _ hmem
  have hwithin := h.within span (mem_spansAll.2 ⟨_, hmem, by simp [SpanTree.spans]⟩)
  refine ⟨hcovers, hpos, hwithin.1, hwithin.2, node span hcovers hpos ⟨hnested, hordered, ?_⟩⟩
  intro x hx
  simpa [Span.contains] using hcontains x hx

/-- In a row, what is behind a node is behind its start, and what is in front of it in front. -/
theorem split {front rest inner : List SpanTree} {start : Span}
    (h : Row T lo hi (front ++ .node start inner :: rest)) :
    Row T lo start.start front ∧ Row T start.start hi (.node start inner :: rest) := by
  have hroot := h.root start inner (by simp)
  obtain ⟨hfront, hmid, hacross⟩ := List.pairwise_append.1 h.ordered
  obtain ⟨hbehind, -⟩ := List.pairwise_cons.1 hmid
  have hmem : start ∈ (SpanTree.node start inner).spans := by simp [SpanTree.spans]
  refine ⟨⟨fun t ht => h.nested t (List.mem_append_left _ ht), hfront, fun x hx => ?_⟩,
    ⟨fun t ht => h.nested t (List.mem_append_right _ ht), hmid, fun x hx => ?_⟩⟩
  · obtain ⟨t, ht, hx⟩ := mem_spansAll.1 hx
    refine ⟨(h.within x (mem_spansAll.2 ⟨t, List.mem_append_left _ ht, hx⟩)).1, ?_⟩
    exact hacross t ht _ List.mem_cons_self x hx start hmem
  · obtain ⟨t, ht, hx⟩ := mem_spansAll.1 hx
    refine ⟨?_, (h.within x (mem_spansAll.2 ⟨t, List.mem_append_right _ ht, hx⟩)).2⟩
    rcases List.mem_cons.1 ht with rfl | ht
    · exact (hroot.2.2.2.2.within x (mem_spansAll.2 ⟨_, List.mem_singleton.2 rfl, hx⟩)).1
    · have hstart := hbehind t ht start hmem x hx
      have hpos := hroot.2.1
      omega

/-- What is below a node may stand in its place. -/
theorem opened {span : Span} {inner rest : List SpanTree} (h : Row T lo hi (.node span inner :: rest)) :
    Row T lo hi (inner ++ rest) := by
  obtain ⟨-, -, hcontains, hordered, hnested⟩ := h.nested _ List.mem_cons_self
  obtain ⟨hbehind, hrest⟩ := List.pairwise_cons.1 h.ordered
  have hspans {x : Span} {t : SpanTree} (ht : t ∈ inner) (hx : x ∈ t.spans) :
      x ∈ (SpanTree.node span inner).spans := by
    rw [SpanTree.spans]
    exact List.mem_cons_of_mem _ (mem_spansAll.2 ⟨t, ht, hx⟩)
  refine ⟨fun t ht => ?_, List.pairwise_append.2 ⟨hordered, hrest, ?_⟩, fun x hx => ?_⟩
  · rcases List.mem_append.1 ht with ht | ht
    · exact hnested t ht
    · exact h.nested t (List.mem_cons_of_mem _ ht)
  · intro t ht u hu x hx y hy
    exact hbehind u hu x (hspans ht hx) y hy
  · obtain ⟨t, ht, hx⟩ := mem_spansAll.1 hx
    rcases List.mem_append.1 ht with ht | ht
    · exact h.within x (mem_spansAll.2 ⟨_, List.mem_cons_self, hspans ht hx⟩)
    · exact h.within x (mem_spansAll.2 ⟨t, List.mem_cons_of_mem _ ht, hx⟩)

/-- A node that starts with another one encloses it and what is behind it. -/
theorem enclose {front rest inner kids : List SpanTree} {start : Span}
    (h : Row T lo hi (front ++ .node start inner :: rest)) (stop : Nat)
    (hcovers : (⟨start.start, stop⟩ : Span).Covers T)
    (hstop : ∀ x ∈ spansAll (.node start inner :: rest), x.stop ≤ stop) (hhi : stop ≤ hi)
    (hkids : kids.Sublist (.node start inner :: rest)) :
    Row T lo hi (front ++ [.node ⟨start.start, stop⟩ kids]) := by
  obtain ⟨hfront, hmid⟩ := h.split
  have hroot := h.root start inner (by simp)
  have hlt : start.start < stop := by
    have hle := hstop start (by simp [spansAll, SpanTree.spans])
    omega
  have hinside : Row T start.start stop (.node start inner :: rest) :=
    ⟨hmid.nested, hmid.ordered, fun x hx => ⟨(hmid.within x hx).1, hstop x hx⟩⟩
  have hnode := node ⟨start.start, stop⟩ hcovers hlt (hinside.sublist hkids)
  exact (hfront.append hnode (Nat.le_refl _) hroot.2.2.1 (Nat.le_of_lt hlt)).mono (Nat.le_refl _) hhi

end Row

/-! ## Pieces -/

/-- A part of what has been passed: a tree of spans, or a token whose span is not kept. -/
inductive Piece where
  | token
  | tree (tree : SpanTree)

/-- The trees among the pieces. -/
def treesOf : List Piece → List SpanTree
  | [] => []
  | .token :: ps => treesOf ps
  | .tree t :: ps => t :: treesOf ps

@[simp] theorem treesOf_nil : treesOf [] = [] := rfl
@[simp] theorem treesOf_token (ps : List Piece) : treesOf (.token :: ps) = treesOf ps := rfl
@[simp] theorem treesOf_tree (t : SpanTree) (ps : List Piece) :
    treesOf (.tree t :: ps) = t :: treesOf ps := rfl

@[simp] theorem treesOf_append (ps qs : List Piece) :
    treesOf (ps ++ qs) = treesOf ps ++ treesOf qs := by
  induction ps with
  | nil => rfl
  | cons p ps ih => cases p <;> simp [ih]

@[simp] theorem treesOf_map {α : Type} (tree : α → SpanTree) (as : List α) :
    treesOf (as.map fun a => .tree (tree a)) = as.map tree := by
  induction as with
  | nil => rfl
  | cons a as ih => simp [ih]

@[simp] theorem treesOf_map_tree (ts : List SpanTree) : treesOf (ts.map .tree) = ts :=
  (treesOf_map id ts).trans (List.map_id ts)

@[simp] theorem treesOf_map_comp {α : Type} (tree : α → SpanTree) (as : List α) :
    treesOf (as.map (Piece.tree ∘ tree)) = as.map tree := treesOf_map tree as

@[simp] theorem treesOf_toList {α : Type} (tree : α → SpanTree) (a : Option α) :
    treesOf (a.map fun a => Piece.tree (tree a)).toList = (a.map tree).toList := by
  cases a <;> rfl

namespace Grammar

open SearchSql.Grammar.Parser

variable {α β : Type} {T : List Token} {lo hi : Nat} {before after : List Piece} {s t : State}

/-- In front of the cursor, the pieces stand in a row behind the offset `lo`. What was passed reaches
at least to `hi`. -/
structure Laid (T : List Token) (lo hi : Nat) (pieces : List Piece) (s : State) : Prop where
  allTokens : s.cursor.allTokens = T
  low : lo ≤ s.cursor.current.span.start
  high : hi ≤ s.cursor.previousSpan.stop
  row : Row T lo s.cursor.previousSpan.stop (treesOf pieces)
  /-- Each piece takes a token at least. -/
  taken : pieces ≠ [] → ∃ t ∈ T, t.isEnd = false ∧ lo ≤ t.span.start ∧
    t.span.start < t.span.stop ∧ t.span.stop ≤ s.cursor.previousSpan.stop

/-- Nothing is built yet. -/
theorem laid_nil (h : s.cursor.allTokens = T) :
    Laid T s.cursor.current.span.start s.cursor.previousSpan.stop [] s :=
  ⟨h, Nat.le_refl _, Nat.le_refl _, .nil, fun hne => absurd rfl hne⟩

/-- What is laid stays while the cursor does. -/
theorem Laid.same (h : Laid T lo hi before s) (hcursor : t.cursor = s.cursor) :
    Laid T lo hi before t := by
  obtain ⟨hall, hlow, hhigh, hrow, htaken⟩ := h
  rw [← hcursor] at hall hlow hhigh hrow htaken
  exact ⟨hall, hlow, hhigh, hrow, htaken⟩

/-- Of the pieces only the trees count, and whether there are any. -/
theorem Laid.forget (h : Laid T lo hi before s) (hsub : (treesOf after).Sublist (treesOf before))
    (hne : before = [] → after = []) : Laid T lo hi after s where
  allTokens := h.allTokens
  low := h.low
  high := h.high
  row := h.row.sublist hsub
  taken hafter := h.taken (mt hne hafter)

section Apart

variable (hT : Token.Apart T)

include hT

/-- Where some pieces are built behind others, all of them are in a row. -/
theorem Laid.behind (hs : Laid T lo hi before s)
    (ht : Laid T s.cursor.current.span.start s.cursor.previousSpan.stop after t) :
    Laid T lo hi (before ++ after) t := by
  have hgap : s.cursor.previousSpan.stop ≤ s.cursor.current.span.start :=
    Cursor.previous_le_current (hs.allTokens.symm ▸ hT)
  refine ⟨ht.allTokens, Nat.le_trans hs.low ht.low, Nat.le_trans hs.high ht.high, ?_, ?_⟩
  · rw [treesOf_append]
    exact hs.row.append ht.row hgap hs.low ht.high
  · intro hne
    cases before with
    | nil =>
      obtain ⟨u, hu, hend, hlow, hpos, hstop⟩ := ht.taken hne
      exact ⟨u, hu, hend, Nat.le_trans hs.low hlow, hpos, hstop⟩
    | cons p ps =>
      obtain ⟨u, hu, hend, hlow, hpos, hstop⟩ := hs.taken (List.cons_ne_nil p ps)
      exact ⟨u, hu, hend, hlow, hpos, Nat.le_trans hstop ht.high⟩

/-- The span of the token under the cursor is a piece behind it. -/
theorem Laid.leaf (h : Laid T lo hi before s) (hend : s.cursor.current.isEnd = false) :
    Laid T lo hi (before ++ [.tree (.leaf s.cursor.current.span)]) (s.skip 1) := by
  have hall : Token.Apart s.cursor.allTokens := h.allTokens.symm ▸ hT
  have hpos := Cursor.start_lt_stop hall hend
  have hgap := Cursor.previous_le_current hall
  have hmem : s.cursor.current ∈ T := by
    rw [← h.allTokens, Cursor.allTokens_eq]
    exact List.mem_append_right _ s.cursor.current_mem
  have hstop : (s.skip 1).cursor.previousSpan.stop = s.cursor.current.span.stop :=
    congrArg Span.stop (Cursor.previousSpan_skip_one hend)
  refine h.behind hT ⟨?_, ?_, ?_, ?_, ?_⟩
  · exact (Cursor.allTokens_skip 1 s.cursor).trans h.allTokens
  · exact Cursor.start_le_skip hall.inOrder 1
  · omega
  · rw [hstop]
    exact .node _ (Span.covers_of_mem hmem hend) hpos .nil
  · intro _
    exact ⟨_, hmem, hend, Nat.le_refl _, hpos, Nat.le_of_eq hstop.symm⟩

/-- A node encloses the pieces from the one that it starts with, up to the token passed last. -/
theorem Laid.enclose {front rest : List Piece} {start : Span} {inner kids : List SpanTree}
    (h : Laid T lo hi (front ++ .tree (.node start inner) :: rest) s)
    (hkids : kids.Sublist (.node start inner :: treesOf rest)) :
    Laid T lo hi (front ++ [.tree (.node (start.merge s.cursor.previousSpan) kids)]) s := by
  have hall : Token.Apart s.cursor.allTokens := h.allTokens.symm ▸ hT
  have hrow := h.row
  rw [treesOf_append, treesOf_tree] at hrow
  have hroot := hrow.root start inner (by simp)
  -- The new span stops where the token passed last does, and that is behind the old one.
  obtain ⟨t, ht, -, -, hpos, hstop⟩ := h.taken (by simp)
  obtain ⟨u, hu, hend, hprevious⟩ :=
    Cursor.exists_previous hall (h.allTokens.symm ▸ ht) hpos hstop
  rw [h.allTokens] at hu
  have hlt : start.start < u.span.stop := by
    have hle : start.stop ≤ s.cursor.previousSpan.stop := hroot.2.2.2.1
    rw [hprevious] at hle
    have := hroot.2.1
    omega
  have hstart : start.start ≤ u.span.start := hroot.1.start_le hT hu hlt
  have hmerge : start.merge s.cursor.previousSpan = ⟨start.start, s.cursor.previousSpan.stop⟩ := by
    have hle := hroot.2.2.2.1
    rw [hprevious] at hle ⊢
    simp only [Span.merge, Span.mk.injEq]
    omega
  have hcovers : (⟨start.start, s.cursor.previousSpan.stop⟩ : Span).Covers T := by
    rw [hprevious]
    exact hroot.1.to hT (Span.covers_of_mem hu hend) hlt
  refine ⟨h.allTokens, h.low, h.high, ?_, fun _ => h.taken (by simp)⟩
  rw [hmerge, treesOf_append]
  refine hrow.enclose _ hcovers (fun x hx => ?_) (Nat.le_refl _) hkids
  exact (hrow.split.2.within x hx).2

/-- Two nodes in a row, with what is between them. -/
theorem Laid.joined {front rest : List Piece} {left right : Span} {ls rs : List SpanTree}
    (h : Laid T lo hi (front ++ .tree (.node left ls) :: (rest ++ [.tree (.node right rs)])) s) :
    left.merge right = ⟨left.start, right.stop⟩ ∧ (left.merge right).Covers T ∧
      ∀ x ∈ spansAll (.node left ls :: (treesOf rest ++ [.node right rs])), x.stop ≤ right.stop := by
  have hrow := h.row
  rw [treesOf_append, treesOf_tree, treesOf_append, treesOf_tree, treesOf_nil] at hrow
  have hleft := hrow.root left ls (by simp)
  have hright := hrow.root right rs (by simp)
  -- Everything but the last node ends where this one starts, or in front of it.
  have hfront : ∀ x ∈ spansAll (.node left ls :: treesOf rest), x.stop ≤ right.start := by
    intro x hx
    have hlast : Row T lo s.cursor.previousSpan.stop
        ((treesOf front ++ .node left ls :: treesOf rest) ++ [.node right rs]) := by
      simpa using hrow
    obtain ⟨t, ht, hx⟩ := mem_spansAll.1 hx
    exact (hlast.split.1.within x (mem_spansAll.2 ⟨t, List.mem_append_right _ ht, hx⟩)).2
  have hle : left.stop ≤ right.start := hfront left (by simp [spansAll, SpanTree.spans])
  have hposLeft := hleft.2.1
  have hposRight := hright.2.1
  have hmerge : left.merge right = ⟨left.start, right.stop⟩ := by
    simp only [Span.merge, Span.mk.injEq]
    omega
  refine ⟨hmerge, ?_, fun x hx => ?_⟩
  · rw [hmerge]
    exact hleft.1.to hT hright.1 (by omega)
  · obtain ⟨t, ht, hx⟩ := mem_spansAll.1 hx
    rw [← List.cons_append, List.mem_append, List.mem_singleton] at ht
    rcases ht with ht | rfl
    · have hstop := hfront x (mem_spansAll.2 ⟨t, ht, hx⟩)
      omega
    · exact (hright.2.2.2.2.within x (mem_spansAll.2 ⟨_, List.mem_singleton.2 rfl, hx⟩)).2

/-- A node encloses the pieces from the one that it starts with to the one that it ends with. -/
theorem Laid.join {front rest : List Piece} {left right : Span} {ls rs kids : List SpanTree}
    (h : Laid T lo hi (front ++ .tree (.node left ls) :: (rest ++ [.tree (.node right rs)])) s)
    (hkids : kids.Sublist (.node left ls :: (treesOf rest ++ [.node right rs]))) :
    Laid T lo hi (front ++ [.tree (.node (left.merge right) kids)]) s := by
  obtain ⟨hmerge, hcovers, hstop⟩ := h.joined hT
  have hrow := h.row
  rw [treesOf_append, treesOf_tree, treesOf_append, treesOf_tree, treesOf_nil] at hrow
  have hright := hrow.root right rs (by simp)
  refine ⟨h.allTokens, h.low, h.high, ?_, fun _ => h.taken (by simp)⟩
  rw [hmerge] at hcovers ⊢
  rw [treesOf_append]
  exact hrow.enclose _ hcovers hstop hright.2.2.2.1 hkids

omit hT in
/-- A node may be put into one with the same span. -/
theorem Laid.wrap {front : List Piece} {span : Span} {inner : List SpanTree}
    (h : Laid T lo hi (front ++ [.tree (.node span inner)]) s) :
    Laid T lo hi (front ++ [.tree (.node span [.node span inner])]) s := by
  have hrow := h.row
  rw [treesOf_append, treesOf_tree, treesOf_nil] at hrow
  have hroot := hrow.root span inner (by simp)
  refine ⟨h.allTokens, h.low, h.high, ?_, fun _ => h.taken (by simp)⟩
  rw [treesOf_append]
  exact hrow.enclose span.stop hroot.1 (fun x hx => (hroot.2.2.2.2.within x hx).2)
    hroot.2.2.2.1 (List.Sublist.refl _)

/-- A node is extended by one that is laid behind it. -/
theorem Laid.extend {front : List Piece} {left right : Span} {ls rs : List SpanTree}
    (h : Laid T lo hi (front ++ [.tree (.node left ls), .tree (.node right rs)]) s) :
    Laid T lo hi (front ++ [.tree (.node (left.merge right) (ls ++ [.node right rs]))]) s := by
  have hboth : Laid T lo hi (front ++ .tree (.node left ls) :: ([] ++ [.tree (.node right rs)])) s := h
  obtain ⟨hmerge, hcovers, hstop⟩ := hboth.joined hT
  have hrow := h.row
  rw [treesOf_append, treesOf_tree, treesOf_tree, treesOf_nil] at hrow
  have hleft := hrow.root left ls (by simp)
  have hright := hrow.root right rs (by simp)
  obtain ⟨hfront, hmid⟩ := hrow.split
  have hinside : Row T left.start right.stop [.node left ls, .node right rs] :=
    ⟨hmid.nested, hmid.ordered, fun x hx => ⟨(hmid.within x hx).1, hstop x hx⟩⟩
  refine ⟨h.allTokens, h.low, h.high, ?_, fun _ => h.taken (by simp)⟩
  rw [hmerge] at hcovers ⊢
  rw [treesOf_append]
  have hlt : left.start < right.stop := by
    have hle := hstop left (by simp [spansAll, SpanTree.spans])
    have := hleft.2.1
    omega
  have hnode := Row.node ⟨left.start, right.stop⟩ hcovers hlt hinside.opened
  exact (hfront.append hnode (Nat.le_refl _) hleft.2.2.1 (Nat.le_of_lt hlt)).mono (Nat.le_refl _)
    hright.2.2.2.1

/-- A node that starts with the token under the cursor encloses what is laid from there on. -/
theorem Laid.span (hs : s.cursor.allTokens = T)
    (h : Laid T s.cursor.current.span.start s.cursor.previousSpan.stop before t)
    (hne : before ≠ []) :
    Laid T s.cursor.current.span.start s.cursor.previousSpan.stop
      [.tree (.node (s.cursor.current.span.merge t.cursor.previousSpan) (treesOf before))] t := by
  have hall : Token.Apart t.cursor.allTokens := h.allTokens.symm ▸ hT
  have hfirst : s.cursor.current ∈ T := by
    rw [← hs, Cursor.allTokens_eq]
    exact List.mem_append_right _ s.cursor.current_mem
  -- The span reaches from the current token to the one passed last, which exists as something was
  -- read.
  obtain ⟨u, hu, hend, hstart, hpos, hstop⟩ := h.taken hne
  obtain ⟨v, hv, hvend, hprevious⟩ :=
    Cursor.exists_previous hall (h.allTokens.symm ▸ hu) hpos hstop
  rw [h.allTokens] at hv
  have hcovers := Span.covers_of_mem hfirst (hT.isEnd_eq_false hfirst hu hend hstart hpos)
  have hlt : s.cursor.current.span.start < v.span.stop := by
    rw [hprevious] at hstop
    omega
  have hmerge : s.cursor.current.span.merge t.cursor.previousSpan =
      ⟨s.cursor.current.span.start, t.cursor.previousSpan.stop⟩ := by
    have hle := hcovers.start_le hT hv hlt
    have hle' := Nat.le_trans (hT.stop_le hfirst hu hstart hpos) hstop
    rw [hprevious] at hle' ⊢
    simp only [Span.merge, Span.mk.injEq]
    omega
  refine ⟨h.allTokens, h.low, h.high, ?_, fun _ => ⟨u, hu, hend, hstart, hpos, hstop⟩⟩
  rw [hmerge]
  have hnode : (⟨s.cursor.current.span.start, t.cursor.previousSpan.stop⟩ : Span).Covers T := by
    rw [hprevious]
    exact hcovers.to hT (Span.covers_of_mem hv hvend) hlt
  exact .node _ hnode (by rw [hprevious]; exact hlt) h.row

end Apart

end Grammar

end SearchSql
