import Mathlib.Data.List.Forall2
import Mathlib.Order.Lattice
import Mathlib.Order.MinMax
import SearchSql.Proofs.Mirroring
import SearchSql.Proofs.Slices
import SearchSql.Proofs.SpanMaps
import SearchSql.Proofs.SpanNesting
import SearchSql.Time.Reading

/-!
# A parse does not depend on the layout

Texts with the same tokens, apart from what stands between them, give the same outcome, apart from
the places (`parse_same_layout`). Every place in the one outcome is that of the tokens from one to
another, and at the same place in the other outcome is that of the same tokens.

Both texts are compared with their tokens as such: `Token.numbered` puts in place of each span the
number of the token, and the tokens of a text are the numbered ones as seen under `View.placing`,
which knows where the tokens of the text are.
-/

set_option autoImplicit false

namespace SearchSql

/-- The two spans reach over the same tokens of two lists, from one to the same or a later one. -/
def Span.Corresponds (tokens tokens' : List Token) (s s' : Span) : Prop :=
  ∃ (i j : Nat) (t u t' u' : Token), i ≤ j ∧ tokens[i]? = some t ∧ tokens[j]? = some u ∧
    tokens'[i]? = some t' ∧ tokens'[j]? = some u' ∧
    s = ⟨t.span.start, u.span.stop⟩ ∧ s' = ⟨t'.span.start, u'.span.stop⟩

/-- The view that forgets all places. -/
def View.unplaced : View := .moved fun _ => .point 0

/-- All spans of an outcome: those of the statement and those of the diagnostics. -/
def Outcome.spans (o : Outcome) : List Span :=
  o.statement.elim [] (·.spanTree.spans) ++ o.diagnostics.map (·.span)

/-- Outcomes that are the same but for their spans, of which each covers the same tokens in both
lists. -/
structure Outcome.SameButLayout (tokens tokens' : List Token) (o o' : Outcome) : Prop where
  aborted : o'.aborted = o.aborted
  statement : o'.statement.map (Statement.view .unplaced) =
    o.statement.map (Statement.view .unplaced)
  diagnostics : o'.diagnostics.map (Diagnostic.view .unplaced) =
    o.diagnostics.map (Diagnostic.view .unplaced)
  spans : List.Forall₂ (Span.Corresponds tokens tokens') o.spans o'.spans

/-! ## Tokens as such -/

namespace Token

variable {tokens tokens' : List Token}

/-- The tokens with their numbers in place of their spans. -/
def numbered (tokens : List Token) : List Token :=
  tokens.mapIdx fun i t => ⟨t.kind, t.text, ⟨i, i + 1⟩⟩

/-- A numbered token stands at its own number. -/
theorem getElem?_numbered (tokens : List Token) (i : Nat) :
    (numbered tokens)[i]? = tokens[i]?.map fun t => ⟨t.kind, t.text, ⟨i, i + 1⟩⟩ :=
  List.getElem?_mapIdx

/-- Where the places do not count, tokens are a kind and a text. -/
theorem numbered_congr (h : tokens'.map (fun t => (t.kind, t.text)) =
    tokens.map (fun t => (t.kind, t.text))) : numbered tokens' = numbered tokens := by
  refine List.ext_getElem? fun i => ?_
  have hi := congrArg (·[i]?) h
  simp only [List.getElem?_map] at hi
  rw [getElem?_numbered, getElem?_numbered]
  cases ht : tokens[i]? with
  | none =>
    rw [ht] at hi
    rw [Option.map_eq_none_iff.1 hi]
  | some t =>
    rw [ht] at hi
    obtain ⟨t', ht', hpair⟩ := Option.map_eq_some_iff.1 hi
    obtain ⟨hkind, htext⟩ := Prod.mk.inj hpair
    rw [ht', Option.map_some, Option.map_some, hkind, htext]

/-- The span of a numbered token is one of the numbers below the length. -/
theorem span_of_mem_numbered {t : Token} (h : t ∈ numbered tokens) :
    t.span.start < t.span.stop ∧ t.span.stop ≤ tokens.length := by
  obtain ⟨i, hi⟩ := List.mem_iff_getElem?.1 h
  rw [getElem?_numbered] at hi
  obtain ⟨u, hu, rfl⟩ := Option.map_eq_some_iff.1 hi
  exact ⟨Nat.lt_succ_self i, (List.getElem?_eq_some_iff.1 hu).1⟩

/-- The tokens of a text end with the end of the input, also where they are numbered. -/
theorem numbered_tokenize (text : String) :
    ∃ front e, numbered (tokenize text) = front ++ [e] ∧ e.isEnd = true ∧
      ∀ t ∈ front, t.isEnd = false := by
  obtain ⟨front, e, hsplit, he, hfront⟩ := tokenize_eq_concat text
  refine ⟨numbered front, ⟨e.kind, e.text, ⟨front.length, front.length + 1⟩⟩, ?_, he,
    fun t ht => ?_⟩
  · rw [hsplit, numbered, List.mapIdx_concat]
    rfl
  · obtain ⟨i, hi⟩ := List.mem_iff_getElem?.1 ht
    rw [getElem?_numbered] at hi
    obtain ⟨u, hu, rfl⟩ := Option.map_eq_some_iff.1 hi
    exact (hfront u (List.mem_of_getElem? hu)).1

/-- Numbered tokens are apart if the tokens are. -/
theorem apart_numbered (h : Apart tokens) : Apart (numbered tokens) := by
  refine List.pairwise_iff_getElem.2 fun i j hi hj hij => ?_
  obtain ⟨t, ht, heq⟩ := Option.map_eq_some_iff.1
    ((getElem?_numbered tokens i).symm.trans (List.getElem?_eq_getElem hi))
  obtain ⟨u, hu, heq'⟩ := Option.map_eq_some_iff.1
    ((getElem?_numbered tokens j).symm.trans (List.getElem?_eq_getElem hj))
  rw [← heq, ← heq']
  exact ⟨(h.get ht hu hij).1, Nat.lt_succ_self i, hij⟩

/-- Where a token starts; behind the last one, at places of their own. -/
def startAt (tokens : List Token) : Nat → Nat
  | 0 => (tokens[0]?.map (·.span.start)).getD 0
  | i + 1 => (tokens[i + 1]?.map (·.span.start)).getD (startAt tokens i + 1)

/-- Where the token in front of a number stops, and at `0` where the first token starts. -/
def stopAt (tokens : List Token) : Nat → Nat
  | 0 => startAt tokens 0
  | j + 1 => (tokens[j]?.map (·.span.stop)).getD (stopAt tokens j)

theorem startAt_of_getElem? {i : Nat} {t : Token} (h : tokens[i]? = some t) :
    startAt tokens i = t.span.start := by
  cases i <;> rw [startAt, h] <;> rfl

theorem stopAt_of_getElem? {j : Nat} {t : Token} (h : tokens[j]? = some t) :
    stopAt tokens (j + 1) = t.span.stop := by
  rw [stopAt, h]
  rfl

/-- In front of a token there are only tokens. -/
theorem exists_getElem?_of_succ {i : Nat} {u : Token} (h : tokens[i + 1]? = some u) :
    ∃ t, tokens[i]? = some t :=
  ⟨_, List.getElem?_eq_getElem (Nat.lt_of_succ_lt (List.getElem?_eq_some_iff.1 h).1)⟩

/-- Later tokens start later. -/
theorem strictMono_startAt (h : Apart tokens) : StrictMono (startAt tokens) := by
  refine strictMono_nat_of_lt_succ fun i => ?_
  cases hu : tokens[i + 1]? with
  | none =>
    rw [startAt, hu]
    exact Nat.lt_succ_self _
  | some u =>
    obtain ⟨t, ht⟩ := exists_getElem?_of_succ hu
    obtain ⟨-, hlt, hle⟩ := h.get ht hu (Nat.lt_succ_self i)
    rw [startAt_of_getElem? ht, startAt_of_getElem? hu]
    exact Nat.lt_of_lt_of_le hlt hle

/-- Later tokens do not stop earlier. -/
theorem monotone_stopAt (h : Apart tokens) (hspans : ∀ t ∈ tokens, t.span.start ≤ t.span.stop) :
    Monotone (stopAt tokens) := by
  refine monotone_nat_of_le_succ fun j => ?_
  cases hu : tokens[j]? with
  | none =>
    rw [stopAt, hu]
    exact Nat.le_refl _
  | some u =>
    have hspan := hspans u (List.mem_of_getElem? hu)
    rw [stopAt_of_getElem? hu]
    cases j with
    | zero =>
      rw [stopAt, startAt_of_getElem? hu]
      exact hspan
    | succ i =>
      obtain ⟨t, ht⟩ := exists_getElem?_of_succ hu
      obtain ⟨-, -, hle⟩ := h.get ht hu (Nat.lt_succ_self i)
      rw [stopAt_of_getElem? ht]
      exact Nat.le_trans hle hspan

end Token

/-! ## Where the tokens of a text are -/

/-- The view that puts the tokens of a list where they are. -/
def View.placing (tokens : List Token) : View :=
  .moved fun s => ⟨Token.startAt tokens s.start, Token.stopAt tokens s.stop⟩

section Placing

variable {tokens : List Token} (happart : Token.Apart tokens)
  (hspans : ∀ t ∈ tokens, t.span.start ≤ t.span.stop)

/-- Numbered tokens become the tokens again where each is put back in its place. -/
theorem Token.view_numbered (tokens : List Token) :
    (numbered tokens).map (Token.view (.placing tokens)) = tokens := by
  refine List.ext_getElem? fun i => ?_
  rw [List.getElem?_map, getElem?_numbered]
  cases ht : tokens[i]? with
  | none => rfl
  | some t =>
    have hkind : t.kind.view (.placing tokens) = t.kind := by
      cases t.kind <;> rfl
    simp only [Option.map_some, Option.some.injEq]
    show Token.mk (t.kind.view (.placing tokens)) t.text
      ⟨startAt tokens i, stopAt tokens (i + 1)⟩ = t
    rw [hkind, startAt_of_getElem? ht, stopAt_of_getElem? ht]

include happart hspans

/-- Putting tokens in their places keeps what the rules look at. -/
theorem View.faithful_placing : (View.placing tokens).Faithful (Token.startAt tokens) where
  toLawful := View.lawful_moved fun s t => by
    simp only [Span.merge, (Token.strictMono_startAt happart).monotone.map_min,
      (Token.monotone_stopAt happart hspans).map_max]
  start _ := rfl
  injective := (Token.strictMono_startAt happart).injective

end Placing

/-! ## Spans over tokens as such -/

/-- The span is not empty and ends with one of the first `n` tokens or in front of it, where tokens
are numbered. -/
def Span.IsWithin (n : Nat) (s : Span) : Prop := s.start < s.stop ∧ s.stop ≤ n

/-- Spans over the numbers are merged to one over them. -/
theorem Span.IsWithin.merge {n : Nat} {s t : Span} (hs : s.IsWithin n) (ht : t.IsWithin n) :
    (s.merge t).IsWithin n :=
  ⟨Nat.lt_of_le_of_lt (Nat.min_le_left _ _) (Nat.lt_of_lt_of_le hs.1 (Nat.le_max_left _ _)),
    Nat.max_le.2 ⟨hs.2, ht.2⟩⟩

/-- What a nested tree covers are tokens. -/
theorem SpanTree.Nested.covers {tokens : List Token} {t : SpanTree} (h : t.Nested tokens) :
    ∀ x ∈ t.spans, x.Covers tokens := by
  have hall {children : List SpanTree}
      (ih : ∀ t ∈ children, ∀ x ∈ t.spans, x.Covers tokens) :
      ∀ x ∈ spansAll children, x.Covers tokens := by
    induction children with
    | nil => exact nofun
    | cons t ts hrest =>
      intro x hx
      rcases List.mem_append.1 hx with hx | hx
      · exact ih t List.mem_cons_self x hx
      · exact hrest (fun u hu => ih u (List.mem_cons_of_mem _ hu)) x hx
  induction h with
  | node hspan _ _ _ _ ih =>
    intro x hx
    rcases List.mem_cons.1 hx with rfl | hx
    · exact hspan
    · exact hall ih x hx
  | group _ _ ih => exact hall ih
  | either _ _ _ hfirst hsecond =>
    intro x hx
    rcases List.mem_append.1 hx with hx | hx
    · exact hfirst x hx
    · exact hsecond x hx

/-- A span of numbered tokens is one over the numbers. -/
theorem Span.Covers.isWithin {tokens : List Token} {s : Span}
    (h : s.Covers (Token.numbered tokens)) : s.IsWithin tokens.length := by
  obtain ⟨i, j, t, u, hij, ht, hu, -, -, rfl⟩ := h
  rw [Token.getElem?_numbered] at ht hu
  obtain ⟨_, _, rfl⟩ := Option.map_eq_some_iff.1 ht
  obtain ⟨_, hj, rfl⟩ := Option.map_eq_some_iff.1 hu
  exact ⟨Nat.lt_succ_of_le hij, (List.getElem?_eq_some_iff.1 hj).1⟩

namespace Grammar

open SearchSql.Grammar.Parser

/-- Diagnostics are about tokens of the list, if these are numbered. -/
def numbering (tokens : List Token) : Contract where
  keeps s := s.cursor.allTokens = Token.numbered tokens ∧
    ∀ d ∈ s.diagnostics, d.span.IsWithin tokens.length
  refuses d s := (s.cursor.allTokens = Token.numbered tokens ∧
    ∀ e ∈ s.diagnostics, e.span.IsWithin tokens.length) ∧ d.span.IsWithin tokens.length

variable {tokens : List Token}

/-- The current token has a span over the numbers. -/
theorem isWithin_current {s : State} (h : (numbering tokens).keeps s) :
    s.cursor.current.span.IsWithin tokens.length := by
  refine Token.span_of_mem_numbered ?_
  rw [← h.1, Cursor.allTokens_eq]
  exact List.mem_append_right _ (Cursor.current_mem _)

theorem numbering_reporting (happart : Token.Apart tokens) : (numbering tokens).Reporting where
  skip_one hs _ := ⟨(Cursor.allTokens_skip 1 _).trans hs.1, hs.2⟩
  same {s t} hs ht hcursor := by
    refine ⟨?_, ?_⟩
    · rw [hcursor]
      exact hs.1
    · rw [ht.diagnostics]
      exact hs.2
  refuses_same {d s t} hs ht hcursor := by
    refine ⟨⟨?_, ?_⟩, hs.2⟩
    · rw [hcursor]
      exact hs.1.1
    · rw [ht.diagnostics]
      exact hs.1.2
  refuses_current {d s} hs hd := by
    refine ⟨hs, ?_⟩
    rw [hd.span_eq]
    exact isWithin_current hs
  refuses_passed expected hs hend :=
    ⟨⟨(Cursor.allTokens_skip 1 _).trans hs.1, hs.2⟩, isWithin_current hs⟩
  refuses_literal {s} literal reason n hs hend ht := by
    -- The diagnostic of a literal reaches from its first token to its last, and both are numbered.
    have horder : Token.InOrder s.cursor.allTokens := by
      rw [hs.1]
      exact (Token.apart_numbered happart).inOrder
    obtain ⟨t, hmem, hspan, -, -⟩ := Cursor.previousSpan_between horder hend n
    rw [hs.1] at hmem
    have hprevious : (s.skip (n + 1)).cursor.previousSpan = t.span := hspan
    refine ⟨ht, ?_⟩
    rw [hprevious]
    exact (isWithin_current hs).merge (Token.span_of_mem_numbered hmem)
  report {d s} hs hfatal hrecover := by
    have hadded : (numbering tokens).keeps (s.reported d) :=
      ⟨hs.1.1, List.forall_mem_cons.2 ⟨hs.2, hs.1.2⟩⟩
    rw [report_apply]
    split
    · exact hs.1
    · split
      · exact ⟨hadded, isWithin_current (s := s) hs.1⟩
      · exact hadded

/-- Every combination of rules that report spans over the numbers does. -/
theorem numbering_lawful (happart : Token.Apart tokens) : (numbering tokens).Lawful :=
  (numbering_reporting happart).lawful

end Grammar

open SearchSql.Grammar

/-- All spans of an outcome over numbered tokens are those of tokens. -/
theorem isWithin_of_mem_spans [Time.Library] {tokens : List Token} (happart : Token.Apart tokens)
    {last : Token} (hlast : (Token.numbered tokens).getLast? = some last) (hend : last.isEnd = true)
    (settings : Settings) :
    ∀ s ∈ (parseTokens (Token.numbered tokens) settings).spans, s.IsWithin tokens.length := by
  intro s hs
  -- The spans are those of the statement, which are made of tokens, or those of diagnostics.
  rcases List.mem_append.1 hs with hs | hs
  · cases hstatement : (parseTokens (Token.numbered tokens) settings).statement with
    | none =>
      rw [hstatement] at hs
      cases hs
    | some st =>
      rw [hstatement] at hs
      have hnested :=
        parseTokens_nested (Token.apart_numbered happart) hlast hend settings hstatement
      exact (hnested.covers s hs).isWithin
  · obtain ⟨d, hd, rfl⟩ := List.mem_map.1 hs
    have hstart : (numbering tokens).keeps (State.ofTokens (Token.numbered tokens) settings) :=
      ⟨Cursor.allTokens_ofTokens hlast hend, nofun⟩
    have hends := (numbering_lawful happart).runRoot hstart
    have hfuel := runRoot_ne_outOfFuel (Token.numbered tokens) settings
    unfold parseTokens at hd
    cases hrun : runRoot (Token.numbered tokens) settings with
    | ok statement t =>
      rw [hrun] at hends hd
      exact hends.2 d (List.mem_reverse.1 hd)
    | error e t =>
      cases e with
      | outOfFuel => exact absurd hrun (hfuel t)
      | rejected e =>
        rw [hrun] at hends hd
        rcases List.mem_cons.1 (List.mem_reverse.1 hd) with rfl | hd
        · exact hends.2
        · exact hends.1.2 d hd

/-! ## Two texts with the same tokens -/

/-- The same tokens of two lists stand where the views that place these lists see them. -/
theorem Span.IsWithin.corresponds {tokens tokens' : List Token}
    (hlength : tokens'.length = tokens.length) {s : Span} (h : s.IsWithin tokens.length) :
    Corresponds tokens tokens' ((View.placing tokens).span s) ((View.placing tokens').span s) := by
  obtain ⟨start, stop⟩ := s
  obtain ⟨hlt, hle⟩ := h
  obtain ⟨j, rfl⟩ : ∃ j, stop = j + 1 := Nat.exists_eq_succ_of_ne_zero (Nat.ne_zero_of_lt hlt)
  dsimp only at hlt hle
  have hi : start < tokens.length := Nat.lt_of_lt_of_le hlt hle
  have hget {l : List Token} {i : Nat} (h : i < l.length) : l[i]? = some l[i] :=
    List.getElem?_eq_getElem h
  refine ⟨start, j, _, _, _, _, Nat.le_of_lt_succ hlt, hget hi, hget hle,
    hget (hlength.symm ▸ hi), hget (hlength.symm ▸ hle), ?_, ?_⟩
  · rw [← Token.startAt_of_getElem? (hget hi), ← Token.stopAt_of_getElem? (hget hle)]
    rfl
  · rw [← Token.startAt_of_getElem? (hget (hlength.symm ▸ hi)),
      ← Token.stopAt_of_getElem? (hget (hlength.symm ▸ hle))]
    rfl

/-- A statement without places is the same wherever it was. -/
theorem Statement.view_unplaced (f : Span → Span) (st : Statement) :
    (st.view (.moved f)).view .unplaced = st.view .unplaced :=
  Statement.view_view _ _ st

/-- A diagnostic without places is the same wherever it was. -/
theorem Diagnostic.view_unplaced (f : Span → Span) (d : Diagnostic) :
    (d.view (.moved f)).view .unplaced = d.view .unplaced := by
  have hkind (kind : TokenKind) : (kind.view (.moved f)).view .unplaced = kind.view .unplaced := by
    cases kind <;> rfl
  obtain ⟨cause, span⟩ := d
  cases cause with
  | unexpected expected found | noAlternative construct expected found =>
    simp only [view, Cause.view, hkind]
    rfl
  | unknownFunction name found =>
    simp only [view, Cause.view, hkind]
    rfl
  | _ => rfl

namespace Outcome

variable {V : View} {o o₁ o₂ : Outcome}

/-- Outcomes seen alike have the spans of one another. -/
theorem SeenAs.spans_eq (hV : V.Lawful) (h : o.SeenAs V o₁) : o₁.spans = o.spans.map V.span := by
  unfold Outcome.spans
  rw [h.statement, h.diagnostics, List.map_append, List.map_map, List.map_map]
  congr 1
  cases o.statement with
  | none => rfl
  | some st =>
    show (st.view V).spanTree.spans = st.spanTree.spans.map V.span
    rw [Statement.spanTree_view hV, SpanTree.spans_map]

/-- Outcomes that show one outcome at two places are the same but for the places. -/
theorem SeenAs.sameButLayout {tokens tokens' : List Token}
    (hV : (View.placing tokens).Lawful) (hV' : (View.placing tokens').Lawful)
    (h : o.SeenAs (.placing tokens) o₁) (h' : o.SeenAs (.placing tokens') o₂)
    (hlength : tokens'.length = tokens.length) (hspans : ∀ s ∈ o.spans, s.IsWithin tokens.length) :
    SameButLayout tokens tokens' o₁ o₂ where
  aborted := h'.aborted.trans h.aborted.symm
  statement := by
    have hplaced (tokens : List Token) : (o.statement.map (Statement.view (.placing tokens))).map
        (Statement.view .unplaced) = o.statement.map (Statement.view .unplaced) := by
      rw [Option.map_map]
      exact congrArg (Option.map · o.statement) (funext (Statement.view_unplaced _))
    rw [h.statement, h'.statement, hplaced, hplaced]
  diagnostics := by
    have hplaced (tokens : List Token) : (o.diagnostics.map (Diagnostic.view (.placing tokens))).map
        (Diagnostic.view .unplaced) = o.diagnostics.map (Diagnostic.view .unplaced) := by
      rw [List.map_map]
      exact congrArg (List.map · o.diagnostics) (funext (Diagnostic.view_unplaced _))
    rw [h.diagnostics, h'.diagnostics, hplaced, hplaced]
  spans := by
    rw [h.spans_eq hV, h'.spans_eq hV', List.forall₂_map_left_iff, List.forall₂_map_right_iff,
      List.forall₂_same]
    exact fun s hs => (hspans s hs).corresponds hlength

end Outcome

/-- The places of the tokens of a text are seen in a faithful way. -/
theorem faithful_placing_tokenize (text : String) :
    (View.placing (Token.tokenize text)).Faithful (Token.startAt (Token.tokenize text)) := by
  refine View.faithful_placing (Token.apart_tokenize text) fun t ht => ?_
  obtain ⟨front, e, hsplit, he, hfront⟩ := Token.tokenize_eq_concat text
  obtain ⟨hlast, -, hpairs, -⟩ := Token.tokenize_tiles text
  rw [hsplit] at ht hlast hpairs
  obtain rfl : e = _ := Option.some.inj (List.getLast?_concat.symm.trans hlast)
  rcases List.mem_append.1 ht with ht | ht
  · exact Nat.le_of_lt ((List.pairwise_append.1 hpairs).2.2 t ht _ List.mem_cons_self).1
  · rw [List.mem_singleton.1 ht]

/-- The parse of a query shows the parse of its tokens as such. -/
theorem parse_seenAs_placing [Time.Library] {text : String}
    (hselect : (Token.tokenize text).head?.map (·.kind) = some (.keyword .SELECT))
    (settings : Settings) :
    (parseTokens (Token.numbered (Token.tokenize text)) settings).SeenAs
      (.placing (Token.tokenize text)) (parse text settings) := by
  obtain ⟨front, e, hsplit, he, hfront⟩ := Token.numbered_tokenize text
  have hview : front.map (Token.view (.placing (Token.tokenize text))) ++
      [e.view (.placing (Token.tokenize text))] = Token.tokenize text := by
    have hall := Token.view_numbered (Token.tokenize text)
    rwa [hsplit, List.map_append] at hall
  have hzero : (Token.numbered (Token.tokenize text))[0]? = some (front.head?.getD e) := by
    rw [hsplit]
    cases front <;> rfl
  rw [Token.getElem?_numbered] at hzero
  obtain ⟨first, hfirst, hnumbered⟩ := Option.map_eq_some_iff.1 hzero
  have hkind : (front.head?.getD e).kind = .keyword .SELECT := by
    rw [List.head?_eq_getElem?, hfirst] at hselect
    rw [← hnumbered]
    exact Option.some.inj hselect
  have hseen : (parseTokens (front ++ [e]) settings).SeenAs (.placing (Token.tokenize text))
      (parseTokens (front.map (Token.view (.placing (Token.tokenize text))) ++
        [e.view (.placing (Token.tokenize text))]) settings) :=
    parseTokens_seenAs (faithful_placing_tokenize text) (by rw [← hnumbered]; rfl) hfront he
      settings (.inr hkind)
  rwa [← hsplit, hview] at hseen

/-- A parse does not depend on the layout: if two texts have the same tokens, the first of which is
`SELECT`, their parses are the same apart from the places, and in both the spans at the same place
are those of the same tokens. -/
theorem parse_same_layout [Time.Library] {text text' : String}
    (hselect : (Token.tokenize text).head?.map (·.kind) = some (.keyword .SELECT))
    (h : (Token.tokenize text').map (fun t => (t.kind, t.text)) =
      (Token.tokenize text).map (fun t => (t.kind, t.text))) (settings : Settings) :
    (parse text settings).SameButLayout (Token.tokenize text) (Token.tokenize text')
      (parse text' settings) := by
  have hlength : (Token.tokenize text').length = (Token.tokenize text).length := by
    simpa using congrArg List.length h
  have hselect' : (Token.tokenize text').head?.map (·.kind) = some (.keyword .SELECT) := by
    have hheads := congrArg (fun l => l.head?.map Prod.fst) h
    simp only [List.head?_map, Option.map_map] at hheads
    exact hheads.trans hselect
  have hseen := parse_seenAs_placing hselect settings
  have hseen' := parse_seenAs_placing hselect' settings
  rw [Token.numbered_congr h] at hseen'
  refine hseen.sameButLayout (faithful_placing_tokenize text).toLawful
    (faithful_placing_tokenize text').toLawful hseen' hlength ?_
  obtain ⟨front, e, hsplit, he, -⟩ := Token.numbered_tokenize text
  refine isWithin_of_mem_spans (Token.apart_tokenize text) ?_ he settings
  rw [hsplit]
  exact List.getLast?_concat

/-- The text with a missing operand may be written without blanks and with comments. -/
theorem parse_same_layout_repaired :
    let text := "SELECT a + 1, b FROM t WHERE a < LIMIT 2"
    let text' := "SELECT a+1,b FROM/* tables */t -- all of them\n  WHERE a<LIMIT 2"
    (Token.tokenize text).head?.map (·.kind) = some (.keyword .SELECT) ∧
      (Token.tokenize text').map (fun t => (t.kind, t.text)) =
        (Token.tokenize text).map (fun t => (t.kind, t.text)) ∧
      (parse text .standard).SameButLayout (Token.tokenize text) (Token.tokenize text')
        (parse text' .standard) := by
  intro text text'
  have hselect : (Token.tokenize text).head?.map (·.kind) = some (.keyword .SELECT) := by
    decide +kernel
  have hsame : (Token.tokenize text').map (fun t => (t.kind, t.text)) =
      (Token.tokenize text).map (fun t => (t.kind, t.text)) := by
    decide +kernel
  exact ⟨hselect, hsame, parse_same_layout hselect hsame .standard⟩

end SearchSql
