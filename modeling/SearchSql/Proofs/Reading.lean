import Mathlib.Data.List.Forall2
import SearchSql.Proofs.Closing
import SearchSql.Proofs.QueryCongruence
import SearchSql.Proofs.Spelling

/-!
# What parsers read

Along a run that stops at the first error, the tokens passed so far stand for an outline (`At`). A
parser `Reads` an outline `after` behind `before` if its runs lead from a state behind the one to a
state behind the other. What rules are written with reads what it builds; one lemma for each parser
that rules share says so.

The tokens stand for the marks one by one where they are plainly spelled. Otherwise the outline only
says that what was built can be read back.
-/

set_option autoImplicit false

namespace SearchSql

/-! ## Passing tokens -/

namespace Cursor

variable {c : Cursor}

/-- The token under the cursor is among all tokens. -/
theorem current_mem_allTokens (c : Cursor) : c.current ∈ c.allTokens := by
  obtain ⟨rest, hrest⟩ := c.exists_current_cons
  unfold allTokens
  rw [List.append_assoc, hrest]
  simp

/-- The token passed last stands directly in front of the one under the cursor. -/
theorem passed_current_infix {t : Token} {ts : List Token} (h : c.passed = t :: ts) :
    [t, c.current] <:+: c.allTokens := by
  obtain ⟨rest, hrest⟩ := c.exists_current_cons
  refine ⟨ts.reverse, rest, ?_⟩
  unfold allTokens
  rw [h, List.append_assoc _ c.ahead, hrest]
  simp

variable (h : c.current.isEnd = false)

include h

/-- The token behind the one under the cursor stands directly behind it. -/
theorem current_peek_infix : [c.current, c.peek 1] <:+: c.allTokens := by
  have hinfix := passed_current_infix (passed_skip_one h)
  rwa [current_skip_one h, allTokens_skip] at hinfix

end Cursor

/-! ## Outlines that are part of others -/

/-- A plain spelling of a tree is one of its parts. -/
theorem PlainSpelling.mono {tokens : List Token} {is js : List Item}
    (h : PlainSpelling tokens js) (hsub : is ⊆ js) : PlainSpelling tokens is :=
  { h with remarks := fun _ hr => h.remarks _ (mem_remarks.2 (hsub (mem_remarks.1 hr))) }

/-- A part of an outline has no other dots. -/
theorem DotsBare.mono {is js : List Item} (h : DotsBare js) (hsub : is ⊆ js) : DotsBare is :=
  fun name hname => h name (mem_remarks.2 (hsub (mem_remarks.1 hname)))

namespace Grammar

open SearchSql.Grammar.Parser

variable {α β γ : Type} {T : List Token} {items : List Item} {s t : State}

/-! ## States behind an outline -/

/-- A state of a run over the tokens `T` that stops at the first error, where what was passed stands
for `items`. -/
structure At (T : List Token) (items : List Item) (s : State) : Prop where
  strict : s.settings.recover = false
  allTokens : s.cursor.allTokens = T
  legible : Legible items
  denotes : PlainSpelling T items → DotsBare items →
    List.Forall₂ (Mark.Denotes s.library) s.cursor.passed.reverse (marks items)

/-- The outline behind a state depends on no more than the settings, the library and the cursor. -/
theorem At.same (h : At T items s) (hsettings : t.settings = s.settings)
    (hlibrary : t.library = s.library) (hcursor : t.cursor = s.cursor) : At T items t where
  strict := hsettings ▸ h.strict
  allTokens := hcursor ▸ h.allTokens
  legible := h.legible
  denotes := hcursor ▸ hlibrary ▸ h.denotes

/-- The token under the cursor is taken for a mark. -/
theorem At.take {m : Mark} (h : At T items s) (hend : s.cursor.current.isEnd = false)
    (hlegible : (Item.mark m).Legible)
    (hdenotes : PlainSpelling T (items ++ [.mark m]) → DotsBare (items ++ [.mark m]) →
      m.Denotes s.library s.cursor.current) : At T (items ++ [.mark m]) (s.skip 1) where
  strict := h.strict
  allTokens := (Cursor.allTokens_skip 1 s.cursor).trans h.allTokens
  legible := legible_append.2 ⟨h.legible, by simpa [Legible] using hlegible⟩
  denotes hplain hdots := by
    have hsub : items ⊆ items ++ [.mark m] := List.subset_append_left _ _
    rw [State.skip_cursor, Cursor.passed_skip_one hend, List.reverse_cons, marks_append]
    exact List.rel_append (h.denotes (hplain.mono hsub) (hdots.mono hsub))
      (.cons (hdenotes hplain hdots) .nil)

/-- A remark may be added anywhere. -/
theorem At.remarked {is js : List Item} (h : At T (is ++ js) s) {r : Remark}
    (hlegible : (Item.remark r).Legible) : At T (is ++ .remark r :: js) s where
  strict := h.strict
  allTokens := h.allTokens
  legible :=
    have hboth := legible_append.1 h.legible
    legible_append.2 ⟨hboth.1, legible_cons.2 ⟨hlegible, hboth.2⟩⟩
  denotes hplain hdots := by
    have hsub : is ++ js ⊆ is ++ .remark r :: js := by
      intro i hi
      rcases List.mem_append.1 hi with h | h
      · exact List.mem_append_left _ h
      · exact List.mem_append_right _ (List.mem_cons_of_mem _ h)
    rw [marks_append, marks_cons_remark, ← marks_append]
    exact h.denotes (hplain.mono hsub) (hdots.mono hsub)

/-- Of what is not plainly spelled, only that it can be read back is said. -/
theorem At.of_not_plain {js : List Item} (h : At T items s) (hst : s.Leads t) (hlegible : Legible js)
    (hnot : PlainSpelling T js → DotsBare js → False) : At T js t where
  strict := (congrArg Settings.recover hst.settings).trans h.strict
  allTokens := hst.allTokens.trans h.allTokens
  legible := hlegible
  denotes hplain hdots := (hnot hplain hdots).elim

/-- What is under the cursor is among the tokens of the run. -/
theorem At.mem (h : At T items s) : s.cursor.current ∈ T :=
  h.allTokens ▸ s.cursor.current_mem_allTokens

/-- The token passed last stands for the last mark, and directly in front of the one under the
cursor. -/
theorem At.last {ms : List Mark} {m : Mark} (h : At T items s) (hplain : PlainSpelling T items)
    (hdots : DotsBare items) (hmarks : marks items = ms ++ [m]) :
    ∃ u, m.Denotes s.library u ∧ [u, s.cursor.current] <:+: T ∧ s.cursor.previousSpan = u.span := by
  have hdenotes := h.denotes hplain hdots
  rw [hmarks, show ms ++ [m] = (m :: ms.reverse).reverse by simp, List.forall₂_reverse_iff] at hdenotes
  cases hpassed : s.cursor.passed with
  | nil =>
    rw [hpassed] at hdenotes
    cases hdenotes
  | cons u us =>
    rw [hpassed] at hdenotes
    cases hdenotes with
    | cons hu _ =>
      refine ⟨u, hu, h.allTokens ▸ Cursor.passed_current_infix hpassed, ?_⟩
      unfold Cursor.previousSpan
      rw [hpassed]

/-! ## Parsers that read -/

/-- The parser leads from a state behind `before`, where what is under the cursor satisfies `here`, to
one behind `after` of its result, whatever stands in front of both. -/
def Reads (T : List Token) (here : Token → Prop) (before : List Item) (p : Parser α)
    (after : α → List Item) : Prop :=
  ∀ front s a t, At T (front ++ before) s → here s.cursor.current → p s = .ok a t →
    At T (front ++ after a) t

/-- Any token. -/
def Anywhere : Token → Prop := fun _ => True

variable {here : Token → Prop} {before : List Item}

/-- What is read from everywhere is read from some tokens. -/
theorem Reads.weaken {p : Parser α} {after : α → List Item}
    (h : Reads T Anywhere before p after) : Reads T here before p after :=
  fun front s a t hs _ heq => h front s a t hs trivial heq

/-- What a parser reads, it reads behind anything. -/
theorem Reads.behind {p : Parser α} {after : α → List Item} (h : Reads T here [] p after) :
    Reads T here before p (fun a => before ++ after a) := by
  intro front s a t hs hhere heq
  rw [← List.append_assoc]
  exact h (front ++ before) s a t (by simpa using hs) hhere heq

/-- What is given without moving has the outline so far. -/
theorem reads_pure {after : α → List Item} {a : α} (h : after a = before) :
    Reads T here before (pure a) after := by
  intro front s b t hs _ heq
  obtain ⟨rfl, rfl⟩ := pure_eq_ok_iff.1 heq
  rwa [h]

theorem reads_reject {after : α → List Item} (d : Diagnostic) :
    Reads T here before (reject d) after := fun _ _ _ _ _ _ heq => absurd heq reject_ne_ok

theorem reads_rejectCurrent {after : α → List Item} (expected : String) :
    Reads T here before (rejectCurrent expected) after :=
  fun _ _ _ _ _ _ heq => absurd heq rejectCurrent_ne_ok

/-- What is read one after the other stands one behind the other in the outline. -/
theorem Reads.bind {p : Parser α} {f : α → Parser β} {middle : α → List Item}
    {after : β → List Item} (hp : Reads T here before p middle)
    (hf : ∀ a, Reads T Anywhere (middle a) (f a) after) : Reads T here before (p >>= f) after := by
  intro front s b t hs hhere heq
  obtain ⟨a, u, hu, hrest⟩ := bind_eq_ok_iff.1 heq
  exact hf a front u b t (hp front s a u hs hhere hu) trivial hrest

/-- What is made of a value may stand for the same tokens. -/
theorem Reads.map {p : Parser α} {f : α → β} {middle : α → List Item} {after : β → List Item}
    (hp : Reads T here before p middle) (hf : ∀ a, after (f a) = middle a) :
    Reads T here before (f <$> p) after := hp.bind fun a => reads_pure (hf a)

/-- What looks at the state may be taken to look at a state with that token in front. -/
theorem reads_get_bind {f : State → Parser α} {after : α → List Item}
    (h : ∀ s, Reads T (fun t => t = s.cursor.current ∧ here t) before (f s) after) :
    Reads T here before (get >>= f) after :=
  fun front s a t hs hhere heq => h s front s a t hs ⟨rfl, hhere⟩ heq

/-- What looks at the token in front may be taken to start there. -/
theorem reads_current_bind {f : Token → Parser α} {after : α → List Item}
    (h : ∀ t, Reads T (fun u => u = t ∧ here u) before (f t) after) :
    Reads T here before (current >>= f) after :=
  fun front s a t hs hhere heq => h s.cursor.current front s a t hs ⟨rfl, hhere⟩ heq

/-- Places are not in the outline. -/
theorem reads_spanFrom_bind {f : Span → Parser α} {after : α → List Item} {start : Span}
    (h : ∀ span, Reads T here before (f span) after) :
    Reads T here before (spanFrom start >>= f) after :=
  fun front s a t hs hhere heq => h _ front s a t hs hhere heq

/-- The token under the cursor is passed for a mark. -/
theorem reads_skip {m : Mark} (hend : ∀ t, here t → t.isEnd = false)
    (hlegible : ∀ t, here t → (Item.mark m).Legible)
    (hdenotes : ∀ {library : Time.Library} t, here t → m.Denotes library t) :
    Reads T here before (Parser.skip 1) (fun _ => before ++ [.mark m]) := by
  intro front s a t hs hhere heq
  injection heq with _ ht
  rw [← ht, ← List.append_assoc]
  exact hs.take (hend _ hhere) (hlegible _ hhere) fun _ _ => hdenotes _ hhere

/-- A token that is taken stands for a mark, if every token it may be does. -/
theorem reads_take {m : Mark} (hend : ∀ t, here t → t.isEnd = false)
    (hlegible : ∀ t, here t → (Item.mark m).Legible)
    (hdenotes : ∀ {library : Time.Library} t, here t → m.Denotes library t) :
    Reads T here before take (fun _ => before ++ [.mark m]) := by
  refine reads_current_bind fun t => ?_
  exact (reads_skip (fun u hu => hend u hu.2) (fun u hu => hlegible u hu.2)
    fun u hu => hdenotes u hu.2).bind fun _ => reads_pure rfl

theorem reads_take_symbol {sign : Symbol} :
    Reads T (fun t => t.kind = .symbol sign) before take
      (fun _ => before ++ [.symbol sign]) :=
  reads_take (fun _ h => isEnd_of_symbol h) (fun _ _ => trivial) fun _ h => h

theorem reads_take_keyword {word : Keyword} :
    Reads T (fun t => t.kind = .keyword word) before take
      (fun _ => before ++ [.keyword word]) :=
  reads_take (fun _ h => isEnd_of_keyword h) (fun _ _ => trivial) fun _ h => h

theorem reads_skip_symbol {sign : Symbol} :
    Reads T (fun t => t.kind = .symbol sign) before (Parser.skip 1)
      (fun _ => before ++ [.symbol sign]) :=
  reads_skip (fun _ h => isEnd_of_symbol h) (fun _ _ => trivial) fun _ h => h

theorem reads_skip_keyword {word : Keyword} :
    Reads T (fun t => t.kind = .keyword word) before (Parser.skip 1)
      (fun _ => before ++ [.keyword word]) :=
  reads_skip (fun _ h => isEnd_of_keyword h) (fun _ _ => trivial) fun _ h => h

/-- What asks for a sign starts with it in the one case. -/
theorem reads_atSymbol_bind {sign : Symbol} {f : Bool → Parser α} {after : α → List Item}
    (htrue : Reads T (fun t => t.kind = .symbol sign) before (f true) after)
    (hfalse : Reads T here before (f false) after) :
    Reads T here before (atSymbol sign >>= f) after := by
  intro front s a t hs hhere heq
  rw [atSymbol_bind_apply] at heq
  cases hkind : s.cursor.current.kind == .symbol sign with
  | true => exact htrue front s a t hs (eq_of_beq hkind) (hkind ▸ heq)
  | false => exact hfalse front s a t hs hhere (hkind ▸ heq)

/-- What asks for a word starts with it in the one case. -/
theorem reads_atKeyword_bind {word : Keyword} {f : Bool → Parser α} {after : α → List Item}
    (htrue : Reads T (fun t => t.kind = .keyword word) before (f true) after)
    (hfalse : Reads T here before (f false) after) :
    Reads T here before (atKeyword word >>= f) after := by
  intro front s a t hs hhere heq
  rw [atKeyword_bind_apply] at heq
  cases hkind : s.cursor.current.kind == .keyword word with
  | true => exact htrue front s a t hs (eq_of_beq hkind) (hkind ▸ heq)
  | false => exact hfalse front s a t hs hhere (hkind ▸ heq)

/-- A sign stands for itself. -/
theorem reads_symbol (sign : Symbol) :
    Reads T here before (symbol sign) (fun _ => before ++ [.symbol sign]) :=
  reads_atSymbol_bind reads_take_symbol (reads_rejectCurrent _)

/-- A reserved word stands for itself. -/
theorem reads_keyword (word : Keyword) :
    Reads T here before (keyword word) (fun _ => before ++ [.keyword word]) :=
  reads_atKeyword_bind reads_take_keyword (reads_rejectCurrent _)

/-- A sign that was taken is in the outline. -/
theorem reads_takeSymbol_bind {sign : Symbol} {f : Bool → Parser α} {after : α → List Item}
    (htrue : Reads T Anywhere (before ++ [.symbol sign]) (f true) after)
    (hfalse : Reads T here before (f false) after) :
    Reads T here before (takeSymbol sign >>= f) after := by
  intro front s a t hs hhere heq
  rw [takeSymbol_bind_apply] at heq
  split at heq
  · next hkind =>
    exact htrue front _ a t (reads_skip_symbol front s () _ hs hkind rfl) trivial heq
  · exact hfalse front s a t hs hhere heq

/-- So is a word. -/
theorem reads_takeKeyword_bind {word : Keyword} {f : Bool → Parser α} {after : α → List Item}
    (htrue : Reads T Anywhere (before ++ [.keyword word]) (f true) after)
    (hfalse : Reads T here before (f false) after) :
    Reads T here before (takeKeyword word >>= f) after := by
  intro front s a t hs hhere heq
  rw [takeKeyword_bind_apply] at heq
  split at heq
  · next hkind =>
    exact htrue front _ a t (reads_skip_keyword front s () _ hs hkind rfl) trivial heq
  · exact hfalse front s a t hs hhere heq

/-! ## Repetitions -/

/-- A repetition whose rounds all read. -/
theorem reads_loop {after : α → List Item} {step : α → Parser (ForInStep α)}
    (hstep : ∀ a, Reads T Anywhere (after a) (step a) (fun r => after r.value)) (a : α) :
    Reads T here (after a) (loop a step) after :=
  fun front _ _ _ hs _ heq => keeps_loop (P := fun a s => At T (front ++ after a) s)
    (fun a r s t hs hr => hstep a front s r t hs trivial hr) hs heq

theorem Reads.taking {p : Parser α} {after : α → List Item} (h : Reads T here before p after)
    (rule : String) : Reads T here before (taking rule p) after :=
  fun front s a t hs hhere heq => h front s a t hs hhere (taking_eq_ok heq)

/-- A list with commas reads its items with commas between them. -/
theorem Reads.commaList {first next : Parser α} {outline : α → List Item}
    (hfirst : Reads T here [] first outline) (hnext : Reads T Anywhere [] next outline)
    (rule : String) :
    Reads T here before (commaList rule first next)
      (fun as => before ++ separated .comma (as.map outline)) := by
  rw [commaList_eq]
  refine (hfirst.behind.taking rule).bind fun head => ?_
  have hstep (items : List α) : Reads T Anywhere
      (before ++ separated .comma ((head :: items.reverse).map outline))
      (commaStep rule next items)
      (fun r => before ++ separated .comma ((head :: r.value.reverse).map outline)) := by
    refine reads_takeSymbol_bind ?_ (reads_pure rfl)
    refine (hnext.behind.taking rule).bind fun item => reads_pure ?_
    simp [ForInStep.value, separated]
  have hloop : Reads T Anywhere (before ++ outline head) (loop [] (commaStep rule next))
      (fun items => before ++ separated .comma ((head :: items.reverse).map outline)) := by
    have h : Reads T Anywhere _ (loop [] (commaStep rule next)) _ := reads_loop hstep []
    simpa [separated] using h
  exact hloop.bind fun tail => reads_pure rfl

/-- The items of a list are in the outline, with commas between them. -/
theorem Reads.commaSeparated {p : Parser α} {outline : α → List Item}
    (h : Reads T Anywhere [] p outline) (rule : String) :
    Reads T here before (Parser.commaSeparated rule p)
      (fun as => before ++ separated .comma (as.map outline)) := h.weaken.commaList h rule

/-! ## Changing the state -/

/-- Levels of nesting are not in the outline, nor is any other change of the state. -/
theorem Reads.nest {p : Parser α} {after : α → List Item} (h : Reads T here before p after)
    (cost : Nat) : Reads T here before (nest cost p) after := by
  intro front s a t hs hhere heq
  obtain ⟨-, u, hu, rfl⟩ := nest_eq_ok_iff.1 heq
  exact (h front (s.deeper cost) a u (hs.same rfl rfl rfl) hhere hu).same rfl rfl rfl

theorem Reads.subquery {p : Parser α} {after : α → List Item} (h : Reads T here before p after) :
    Reads T here before (subquery p) after := by
  intro front s a t hs hhere heq
  rw [subquery_apply] at heq
  obtain ⟨u, hu, rfl⟩ := mapState_eq_ok_iff.1 heq
  exact (h front s.enclosed a u (hs.same rfl rfl rfl) hhere hu).same rfl rfl rfl

theorem Reads.atSeparator {p : Parser α} {after : α → List Item} (h : Reads T here before p after) :
    Reads T here before (atSeparator p) after := by
  intro front s a t hs hhere heq
  rw [atSeparator_apply] at heq
  obtain ⟨u, hu, rfl⟩ := mapState_eq_ok_iff.1 heq
  exact (h front s.separating a u (hs.same rfl rfl rfl) hhere hu).same rfl rfl rfl

/-- An attempt that is given up reads nothing. -/
theorem Reads.attempt {p : Parser α} {after : α → List Item} (h : Reads T here before p after)
    (hp : Steady p) (rule : String) :
    Reads T here before (attempt rule p) (fun found => found.elim before after) := by
  intro front s found t hs hhere heq
  have hleads := (Steady.attempt hp : Steady (Parser.attempt rule p)).leads heq
  rw [attempt_apply] at heq
  cases hrun : p s.trying with
  | ok a u =>
    rw [hrun] at heq
    injection heq with hfound ht
    subst hfound
    rw [← ht]
    exact (h front s.trying a u (hs.same rfl rfl rfl) hhere hrun).same rfl rfl rfl
  | error e u =>
    rw [hrun] at heq
    cases e with
    | outOfFuel => cases heq
    | rejected d =>
      injection heq with hfound ht
      subst hfound
      rw [← ht] at hleads ⊢
      exact hs.same hleads.settings hleads.library rfl

/-- Where a run stops at the first error, what is recovered from is read. -/
theorem Reads.recover {p : Parser α} {after : α → List Item} (h : Reads T here before p after)
    (hp : Steady p) :
    Reads T here before (recover p) (fun found => found.elim before after) := by
  intro front s found t hs hhere heq
  obtain ⟨a, ha, rfl⟩ := (recover_eq_ok_iff hp (notRecovering_of_strict hs.strict)).1 heq
  exact h front s a t hs hhere ha

/-- Where a run stops at the first error, a clause ends without passing anything. -/
theorem reads_clauseEnd : Reads T here before clauseEnd (fun _ => before) := by
  intro front s a t hs _ heq
  obtain ⟨-, rfl⟩ := (clauseEnd_eq_ok_iff (notRecovering_of_strict hs.strict)).1 heq
  exact hs

end Grammar

end SearchSql
