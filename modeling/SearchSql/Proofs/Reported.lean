import SearchSql.Proofs.Constants
import SearchSql.Proofs.Landing
import SearchSql.Proofs.Progress
import SearchSql.Proofs.SourceOrder
import SearchSql.Proofs.Spending

/-!
# Diagnostics that are not dropped

A diagnostic is dropped if the one reported last is about the same place. For literals this does not
happen: behind a report the cursor is at a boundary, which no literal starts with, or behind the
literal that was reported (`State.IsFresh`).

A parser `Records` a property of its results if they have it whenever all diagnostics so far are among
`D`. Diagnostics are only ever added, except by an attempt that fails, whose result is dropped as
well. So a property of parts of a result that speaks of `D` is one of the whole.
-/

set_option autoImplicit false

namespace SearchSql

/-- A step takes the cursor to a later place. -/
theorem Cursor.start_lt_skip_one {c : Cursor} (h : Token.InOrder c.allTokens)
    (hend : c.current.isEnd = false) : c.current.span.start < (c.skip 1).current.span.start := by
  have hskip : Token.InOrder (c.skip 1).allTokens := by
    rw [allTokens_skip]
    exact h
  refine start_lt_current hskip ?_
  rw [passed_skip_one hend]
  exact List.mem_cons_self

/-- All constants of the list have the property. -/
def AllSatisfy (W : Constant → Prop) (cs : List Constant) : Prop := ∀ c ∈ cs, W c

section

variable {W : Constant → Prop}

@[simp] theorem allSatisfy_nil : AllSatisfy W [] := fun _ h => absurd h List.not_mem_nil

@[simp] theorem allSatisfy_cons {c : Constant} {cs : List Constant} :
    AllSatisfy W (c :: cs) ↔ W c ∧ AllSatisfy W cs := List.forall_mem_cons

/-- The constants of two lists have a property if those of each have it. -/
@[simp] theorem allSatisfy_append {cs ds : List Constant} :
    AllSatisfy W (cs ++ ds) ↔ AllSatisfy W cs ∧ AllSatisfy W ds := List.forall_mem_append

/-- The constants of a list of expressions are those of each. -/
theorem allSatisfy_constantsAll {es : List Expr} :
    AllSatisfy W (constantsAll es) ↔ ∀ e ∈ es, AllSatisfy W e.constants := by
  simp only [AllSatisfy, mem_constantsAll]
  grind

theorem allSatisfy_constantsItems {is : List OrderItem} :
    AllSatisfy W (constantsItems is) ↔ ∀ i ∈ is, AllSatisfy W i.constants := by
  simp only [AllSatisfy, mem_constantsItems]
  grind

theorem allSatisfy_constantsBranches {bs : List CaseBranch} :
    AllSatisfy W (constantsBranches bs) ↔ ∀ b ∈ bs, AllSatisfy W b.constants := by
  simp only [AllSatisfy, mem_constantsBranches]
  grind

theorem allSatisfy_constantsOptions {os : List RelevanceOption} :
    AllSatisfy W (constantsOptions os) ↔ ∀ o ∈ os, AllSatisfy W o.constants := by
  simp only [AllSatisfy, mem_constantsOptions]
  grind

end

namespace Grammar

open SearchSql.Grammar.Parser

variable {α β : Type} {tokens : List Token} {ds : List Diagnostic}

/-! ## Where the last diagnostic is -/

/-- If the diagnostic reported last starts where the token under the cursor does, this token is a
boundary. -/
def State.IsFresh (s : State) : Prop :=
  s.lastReported = some s.cursor.current.span.start → isBoundary true s.cursor.current.kind = true

/-- The diagnostic reported last does not start behind the cursor. -/
theorem State.IsOrdered.lastReported_le {s : State} {o : Nat} (h : s.IsOrdered tokens)
    (ho : s.lastReported = some o) : o ≤ s.cursor.current.span.start := by
  rw [h.last] at ho
  obtain ⟨d, hd, rfl⟩ := Option.map_eq_some_iff.1 ho
  exact h.behind d (List.mem_of_mem_head? hd)

/-- Behind the place of the last diagnostic nothing has been reported. -/
theorem State.IsOrdered.isFresh_of_lt {s : State} {n : Nat} (h : s.IsOrdered tokens)
    (hlt : s.cursor.current.span.start <
      (s.skip n).cursor.current.span.start) : (s.skip n).IsFresh := by
  intro hlast
  exact absurd (h.lastReported_le hlast) (Nat.not_le.2 hlt)

/-- The diagnostics are in order, those of `ds` are among them, and the last is not about a token that
is still to be taken. -/
structure State.IsReporting (tokens : List Token) (ds : List Diagnostic) (s : State) : Prop where
  ordered : s.IsOrdered tokens
  fresh : s.IsFresh
  noted : ds ⊆ s.diagnostics

/-- The diagnostic comes behind those reported, which are as they should be. A literal without a value
has been passed. -/
structure State.IsRefusing (tokens : List Token) (ds : List Diagnostic) (d : Diagnostic)
    (s : State) : Prop where
  next : s.IsNext tokens d
  noted : ds ⊆ s.diagnostics
  literal : d.kind = .malformedLiteral → d.span.start < s.cursor.current.span.start

/-- Nothing is reported about a token that is taken later on, and no diagnostic is lost. -/
def reporting (tokens : List Token) (ds : List Diagnostic) : Contract where
  keeps := State.IsReporting tokens ds
  refuses d s := s.IsRefusing tokens ds d

/-- A report never runs out of fuel. -/
theorem report_ne_outOfFuel {s t : State} {d : Diagnostic} : report d s ≠ .error .outOfFuel t := by
  rw [report_apply]
  split
  · nofun
  · split <;> nofun

section

variable {s t : State} {d e : Diagnostic} (h : s.IsRefusing tokens ds d)
  (htokens : Token.InOrder tokens) (hfatal : d.isFatal = false) (hrecover : s.settings.recover = true)

include h htokens hfatal hrecover

/-- What is known of the state behind a report. -/
theorem State.IsRefusing.report_eq_ok (hreport : report d s = .ok () t) :
    t.IsOrdered tokens ∧ ds ⊆ t.diagnostics ∧ t.cursor = s.cursor ∧
      t.lastReported = some d.span.start := by
  have hends := (sourceOrder_reporting htokens).report h.next hfatal hrecover
  rw [hreport] at hends
  refine ⟨hends, ?_⟩
  rw [report_apply] at hreport
  split at hreport
  · next hlast =>
    obtain ⟨-, rfl⟩ := EStateM.Result.ok.inj hreport
    exact ⟨h.noted, rfl, hlast⟩
  · split at hreport
    · cases hreport
    · obtain ⟨-, rfl⟩ := EStateM.Result.ok.inj hreport
      exact ⟨List.subset_cons_of_subset _ h.noted, rfl, rfl⟩

/-- A report may be one too many. -/
theorem State.IsRefusing.report_eq_error (hreport : report d s = .error (.rejected e) t) :
    t.IsRefusing tokens ds e := by
  have hends := (sourceOrder_reporting htokens).report h.next hfatal hrecover
  rw [hreport] at hends
  rw [report_apply] at hreport
  split at hreport
  · cases hreport
  · split at hreport
    · cases hreport
      exact ⟨hends, List.subset_cons_of_subset _ h.noted, nofun⟩
    · cases hreport

/-- A report keeps the contract with what is done behind it. -/
theorem State.IsRefusing.ends_report {f : Unit → Parser α}
    (hf : ∀ t, t.IsOrdered tokens → ds ⊆ t.diagnostics → t.cursor = s.cursor →
      t.lastReported = some d.span.start → (reporting tokens ds).Ends (f () t)) :
    (reporting tokens ds).Ends ((report d >>= f) s) := by
  rw [bind_apply_andThen]
  cases hreport : report d s with
  | ok _ t =>
    obtain ⟨ht, hnoted, hcursor, hlast⟩ := h.report_eq_ok htokens hfatal hrecover hreport
    exact hf t ht hnoted hcursor hlast
  | error e t =>
    cases e with
    | rejected e => exact h.report_eq_error htokens hfatal hrecover hreport
    | outOfFuel => exact absurd hreport report_ne_outOfFuel

end

/-! ## Boundaries -/

/-- What ends a statement ends a subquery. -/
theorem isBoundary_inside {insideParens : Bool} {kind : TokenKind}
    (h : isBoundary insideParens kind = true) : isBoundary true kind = true := by
  unfold isBoundary at h ⊢
  split
  · rfl
  · rfl
  · rfl
  · exact h
  · simp_all

/-- The end of the input is a boundary. -/
theorem isBoundary_of_isEnd {t : Token} (h : t.isEnd = true) : isBoundary true t.kind = true := by
  have hkind : t.kind = .endOfInput := eq_of_beq h
  rw [hkind]
  rfl

/-- What is skipped leads up to a boundary. -/
theorem isBoundary_fromBoundary {insideParens : Bool} {opened : Nat} {tokens : List Token} {t : Token}
    (h : (fromBoundary insideParens opened tokens).head? = some t) :
    isBoundary true t.kind = true := by
  induction tokens generalizing opened with
  | nil => cases h
  | cons u us ih =>
    cases hstop : u.isEnd || (opened == 0 && isBoundary insideParens u.kind) with
    | true =>
      rw [fromBoundary_of_stop hstop] at h
      obtain rfl : u = t := Option.some.inj h
      rcases Bool.or_eq_true_iff.1 hstop with hend | hboundary
      · exact isBoundary_of_isEnd hend
      · exact isBoundary_inside (Bool.and_eq_true_iff.1 hboundary).2
    | false =>
      rw [fromBoundary_of_pass hstop] at h
      exact ih h

/-- The cursor that recovery goes on with is at a boundary. -/
theorem isBoundary_landing {insideParens : Bool} {opened : Nat} {tokens : List Token} {c : Cursor}
    (h : c.ahead = fromBoundary insideParens opened tokens) :
    isBoundary true c.current.kind = true := by
  unfold Cursor.current
  cases hahead : c.ahead with
  | nil => exact isBoundary_of_isEnd c.closing_isEnd
  | cons t ts =>
    rw [hahead] at h
    have hhead : (fromBoundary insideParens opened tokens).head? = some t := by
      rw [← h]
      rfl
    exact isBoundary_fromBoundary hhead

/-- Behind all tokens that are left the cursor is at an end of the input. -/
theorem Cursor.isEnd_skip_ahead (c : Cursor) : (c.skip c.ahead.length).current.isEnd = true := by
  generalize hlength : c.ahead.length = n
  induction n generalizing c with
  | zero =>
    have hahead : c.ahead = [] := List.length_eq_zero_iff.1 hlength
    show c.current.isEnd = true
    unfold Cursor.current
    rw [hahead]
    exact c.closing_isEnd
  | succ n ih =>
    show (c.advance.skip n).current.isEnd = true
    cases hend : c.current.isEnd with
    | false =>
      refine ih c.advance ?_
      have hlength' := c.ahead_length_advance hend
      omega
    | true =>
      rw [Cursor.advance_of_isEnd hend, Cursor.skip_of_isEnd hend]
      exact hend

/-! ## The contract -/

/-- No parser reports anything about a token that it takes afterwards. -/
theorem reporting_lawful (htokens : Token.InOrder tokens) : (reporting tokens ds).Lawful where
  skip_one {s} hs hend := by
    refine ⟨hs.ordered.skip htokens 1, ?_, hs.noted⟩
    refine hs.ordered.isFresh_of_lt (Cursor.start_lt_skip_one ?_ hend)
    rw [hs.ordered.allTokens]
    exact htokens
  same {s t} hs ht hcursor := by
    refine ⟨hs.ordered.same ht hcursor, ?_, ?_⟩
    · unfold State.IsFresh
      rw [ht.lastReported, hcursor]
      exact hs.fresh
    · rw [ht.diagnostics]
      exact hs.noted
  refuses_same {d s t} hs ht hcursor := by
    refine ⟨(sourceOrder_lawful htokens).refuses_same hs.next ht hcursor, ?_, ?_⟩
    · rw [ht.diagnostics]
      exact hs.noted
    · rw [hcursor]
      exact hs.literal
  refuses_current hs hd :=
    ⟨(sourceOrder_lawful htokens).refuses_current hs.ordered hd, hs.noted,
      fun hkind => absurd hkind hd.kind_ne.2⟩
  refuses_passed expected hs hend :=
    ⟨(sourceOrder_lawful htokens).refuses_passed expected hs.ordered hend, hs.noted, nofun⟩
  refuses_literal {s} literal reason n hs hend ht := by
    refine ⟨(sourceOrder_lawful htokens).refuses_literal literal reason n hs.ordered hend ht.ordered,
      ht.noted, fun _ => ?_⟩
    have horder : Token.InOrder s.cursor.allTokens := by
      rw [hs.ordered.allTokens]
      exact htokens
    have horder' : Token.InOrder (s.cursor.skip 1).allTokens := by
      rw [Cursor.allTokens_skip]
      exact horder
    -- The literal in front of the current token started before it, so the next place is behind.
    calc min s.cursor.current.span.start (s.skip (n + 1)).cursor.previousSpan.start
        ≤ s.cursor.current.span.start := Nat.min_le_left _ _
      _ < (s.cursor.skip 1).current.span.start := Cursor.start_lt_skip_one horder hend
      _ ≤ (s.cursor.skip (n + 1)).current.span.start := Cursor.start_le_skip horder' n
  report_synchronize {d s} hs hfatal hrecover := by
    refine hs.ends_report htokens hfatal hrecover fun t ht hnoted _ _ => ?_
    cases hrun : synchronize t with
    | ok _ u =>
      have hu : u.IsOrdered tokens := by
        have hends := (sourceOrder_lawful htokens).synchronize t ht
        rw [hrun] at hends
        exact hends
      -- What was skipped ends at a boundary, where the last diagnostic may stand.
      refine ⟨hu, fun _ => isBoundary_landing (synchronize_eq_ok hrun), ?_⟩
      obtain ⟨-, rfl⟩ := EStateM.Result.ok.inj hrun
      exact hnoted
    | error e u => cases hrun
  report_skip {d s} hs hfatal hrecover := by
    refine hs.ends_report htokens hfatal hrecover fun t ht hnoted _ _ => ?_
    exact ⟨ht.skip htokens _, fun _ => isBoundary_of_isEnd (Cursor.isEnd_skip_ahead _), hnoted⟩
  report_literal {d s} hs hkind hrecover := by
    have hfatal : d.isFatal = false := by
      unfold Diagnostic.isFatal
      rw [hkind]
      rfl
    have hends := hs.ends_report htokens hfatal hrecover (f := pure) fun t ht hnoted hcursor hlast => ?_
    · rwa [bind_pure] at hends
    · refine ⟨ht, fun hplace => ?_, hnoted⟩
      rw [hlast, hcursor] at hplace
      exact absurd (Option.some.inj hplace) (Nat.ne_of_lt (hs.literal hkind))

/-! ## Parsers and the constants they give -/

/-- What was known to be reported in front of a run is reported behind it. -/
theorem State.IsReporting.mono {s t : State} (ht : t.IsReporting tokens ds)
    (hs : s.diagnostics ⊆ ds) : t.IsReporting tokens s.diagnostics :=
  ⟨ht.ordered, ht.fresh, List.Subset.trans hs ht.noted⟩

theorem State.IsReporting.forget {s : State} (hs : s.IsReporting tokens ds) :
    s.IsReporting tokens [] := ⟨hs.ordered, hs.fresh, List.nil_subset _⟩

theorem State.IsReporting.refl {s : State} (hs : s.IsReporting tokens ds) :
    s.IsReporting tokens s.diagnostics := ⟨hs.ordered, hs.fresh, List.Subset.refl _⟩

/-- Only the cursor and the diagnostics count. -/
theorem State.IsReporting.same {s t : State} (hs : s.IsReporting tokens ds)
    (hcursor : t.cursor = s.cursor) (hdiagnostics : t.diagnostics = s.diagnostics)
    (hlast : t.lastReported = s.lastReported) : t.IsReporting tokens ds := by
  obtain ⟨⟨hall, hlocated, horder, hhead, hbehind⟩, hfresh, hnoted⟩ := hs
  unfold State.IsFresh at hfresh
  rw [← hcursor] at hall hbehind hfresh
  rw [← hlast] at hhead hfresh
  rw [← hdiagnostics] at hlocated horder hhead hbehind hnoted
  exact ⟨⟨hall, hlocated, horder, hhead, hbehind⟩, hfresh, hnoted⟩

/-- No diagnostic is lost, and if all of them are among `D`, then the result has the property `P`. -/
def Records (tokens : List Token) (D : List Diagnostic) (P : α → Prop) (p : Parser α) : Prop :=
  ∀ (s t : State) (a : α), s.IsReporting tokens [] → p s = .ok a t →
    t.IsReporting tokens s.diagnostics ∧ (t.diagnostics ⊆ D → P a)

section

variable {D : List Diagnostic} {P : α → Prop} {Q : β → Prop} {p : Parser α}

theorem records_pure {a : α} (h : P a) : Records tokens D P (pure a) := by
  intro s t b hs heq
  obtain ⟨rfl, rfl⟩ := pure_eq_ok_iff.1 heq
  exact ⟨hs.refl, fun _ => h⟩

/-- A failure has no result. -/
theorem records_reject (d : Diagnostic) : Records tokens D P (reject d) :=
  fun _ _ _ _ h => absurd h reject_ne_ok

theorem records_rejectCurrent (expected : String) : Records tokens D P (rejectCurrent expected) :=
  fun _ _ _ _ h => absurd h rejectCurrent_ne_ok

/-- What is known of a result may be forgotten in part. -/
theorem Records.imp {P' : α → Prop} (hp : Records tokens D P p) (h : ∀ a, P a → P' a) :
    Records tokens D P' p := by
  intro s t a hs heq
  obtain ⟨ht, ha⟩ := hp s t a hs heq
  exact ⟨ht, fun hD => h a (ha hD)⟩

/-- What is known of the first result is known in the end, since no diagnostic is lost on the way. -/
theorem Records.bind {f : α → Parser β} (hp : Records tokens D P p)
    (hf : ∀ a, Records tokens D (fun b => P a → Q b) (f a)) : Records tokens D Q (p >>= f) := by
  intro s t b hs heq
  obtain ⟨a, u, hpu, hfu⟩ := bind_eq_ok_iff.1 heq
  obtain ⟨hu, ha⟩ := hp s u a hs hpu
  obtain ⟨ht, hb⟩ := hf a u t b hu.forget hfu
  exact ⟨ht.mono hu.noted, fun hD => hb hD (ha (List.Subset.trans ht.noted hD))⟩

/-- What is known of a result is known of what is made of it. -/
theorem Records.map {f : α → β} (hp : Records tokens D P p) (h : ∀ a, P a → Q (f a)) :
    Records tokens D Q (f <$> p) := hp.bind fun a => records_pure (h a)

/-- What looks at the state records if it does for every state. -/
theorem records_get_bind {f : State → Parser α} (h : ∀ s, Records tokens D P (f s)) :
    Records tokens D P (get >>= f) := fun s => h s s

theorem records_current_bind {f : Token → Parser α} (h : ∀ t, Records tokens D P (f t)) :
    Records tokens D P (current >>= f) := fun s => h s.cursor.current s

theorem records_peek_bind (k : Nat) {f : Token → Parser α} (h : ∀ t, Records tokens D P (f t)) :
    Records tokens D P (peek k >>= f) := fun s => h (s.cursor.peek k) s

theorem records_atSymbol_bind (sign : Symbol) {f : Bool → Parser α}
    (h : ∀ here, Records tokens D P (f here)) : Records tokens D P (atSymbol sign >>= f) :=
  records_current_bind fun t => h (t.kind == .symbol sign)

theorem records_atKeyword_bind (word : Keyword) {f : Bool → Parser α}
    (h : ∀ here, Records tokens D P (f here)) : Records tokens D P (atKeyword word >>= f) :=
  records_current_bind fun t => h (t.kind == .keyword word)

theorem records_spanFrom_bind (start : Span) {f : Span → Parser α}
    (h : ∀ span, Records tokens D P (f span)) : Records tokens D P (spanFrom start >>= f) :=
  fun s => h (start.merge s.cursor.previousSpan) s

/-- Two ways to read what the rest goes on with. -/
theorem records_either {here : Prop} [Decidable here] {q r : Parser β} {f : β → Parser α}
    (hq : Records tokens D Q q) (hr : Records tokens D Q r)
    (hf : ∀ b, Records tokens D (fun a => Q b → P a) (f b)) :
    Records tokens D P (if here then q >>= f else r >>= f) := by
  split
  · exact hq.bind hf
  · exact hr.bind hf

/-- A parser on a condition, in front of what follows in any case. -/
theorem records_guarded {here : Prop} [Decidable here] {q : Parser β}
    (hq : Records tokens D (fun _ => True) q) (hp : Records tokens D P p) :
    Records tokens D P (if here then q >>= fun _ => p else p) := by
  split
  · exact hq.bind fun _ => hp.imp fun _ ha _ => ha
  · exact hp

/-! ### Repetitions -/

/-- What each step hands on from its start is handed on by the repetition. -/
theorem records_loop {step : α → Parser (ForInStep α)}
    (hstep : ∀ a, Records tokens D (fun r => P a → P r.value) (step a)) (a : α) :
    Records tokens D (fun b => P a → P b) (loop a step) := by
  intro s t b hs heq
  refine keeps_loop
    (P := fun c u => u.IsReporting tokens s.diagnostics ∧ (u.diagnostics ⊆ D → P a → P c))
    ?_ ⟨hs.refl, fun _ ha => ha⟩ heq
  intro c r u v hkeeps hrun
  obtain ⟨hu, hc⟩ := hkeeps
  obtain ⟨hv, hr⟩ := hstep c u v r hu.forget hrun
  exact ⟨hv.mono hu.noted, fun hD ha => hr hD (hc (List.Subset.trans hv.noted hD) ha)⟩

theorem Records.taking (hp : Records tokens D P p) (rule : String) :
    Records tokens D P (taking rule p) := fun s t a hs heq => hp s t a hs (taking_eq_ok heq)

/-! ### Changing the state -/

theorem Records.nest (hp : Records tokens D P p) {cost : Nat} :
    Records tokens D P (nest cost p) := by
  intro s t a hs heq
  obtain ⟨_, u, hu, rfl⟩ := nest_eq_ok_iff.1 heq
  have hdeeper : (s.deeper cost).IsReporting tokens [] := hs.same rfl rfl rfl
  obtain ⟨hkeeps, ha⟩ := hp _ u a hdeeper hu
  exact ⟨hkeeps.same rfl rfl rfl, ha⟩

theorem Records.subquery (hp : Records tokens D P p) : Records tokens D P (subquery p) := by
  intro s t a hs heq
  rw [subquery_apply] at heq
  obtain ⟨u, hu, rfl⟩ := mapState_eq_ok_iff.1 heq
  have henclosed : s.enclosed.IsReporting tokens [] := hs.same rfl rfl rfl
  obtain ⟨hkeeps, ha⟩ := hp _ u a henclosed hu
  exact ⟨hkeeps.same rfl rfl rfl, ha⟩

theorem Records.atSeparator (hp : Records tokens D P p) : Records tokens D P (atSeparator p) := by
  intro s t a hs heq
  rw [atSeparator_apply] at heq
  obtain ⟨u, hu, rfl⟩ := mapState_eq_ok_iff.1 heq
  have hseparating : s.separating.IsReporting tokens [] := hs.same rfl rfl rfl
  obtain ⟨hkeeps, ha⟩ := hp _ u a hseparating hu
  exact ⟨hkeeps.same rfl rfl rfl, ha⟩

/-- An attempt that fails drops its result with the diagnostics. -/
theorem Records.attempt (hp : Records tokens D P p) (rule : String) :
    Records tokens D (fun found => ∀ a ∈ found, P a) (attempt rule p) := by
  intro s t found hs heq
  rw [attempt_apply] at heq
  have htrying : s.trying.IsReporting tokens [] := hs.same rfl rfl rfl
  cases hrun : p s.trying with
  | ok a u =>
    rw [hrun] at heq
    obtain ⟨rfl, rfl⟩ := EStateM.Result.ok.inj heq
    obtain ⟨hkeeps, ha⟩ := hp _ u a htrying hrun
    refine ⟨hkeeps.same rfl rfl rfl, fun hD b hb => ?_⟩
    obtain rfl := Option.some.inj hb
    exact ha hD
  | error e u =>
    rw [hrun] at heq
    cases e with
    | outOfFuel => cases heq
    | rejected d =>
      obtain ⟨rfl, rfl⟩ := EStateM.Result.ok.inj heq
      exact ⟨hs.refl.same rfl rfl rfl, fun _ => nofun⟩

variable (htokens : Token.InOrder tokens)

include htokens

/-- A parser whose results hold no constants. -/
theorem records_plain (h : ∀ {C : Contract}, C.Lawful → C.Meets p) :
    Records tokens D (fun _ => True) p := by
  intro s t a hs heq
  have hends := h (reporting_lawful htokens) s hs.refl
  rw [heq] at hends
  exact ⟨hends, fun _ => trivial⟩

/-- A parser that reports nothing about what it gives. -/
theorem records_yields (h : ∀ {C : Contract}, C.Lawful → C.Meets p) (hp : Yields P p) :
    Records tokens D P p := by
  intro s t a hs heq
  exact ⟨(records_plain (D := D) htokens h s t a hs heq).1, fun _ => hp s t a heq⟩

/-- A parser behind one whose results hold no constants. -/
theorem records_behind {p : Parser β} {f : β → Parser α}
    (h : ∀ {C : Contract}, C.Lawful → C.Meets p) (hf : ∀ b, Records tokens D P (f b)) :
    Records tokens D P (p >>= f) :=
  (records_plain htokens h).bind fun b => (hf b).imp fun _ ha _ => ha

/-- What is known of each item is known of all items of a list. -/
theorem Records.commaList {first next : Parser α} (hfirst : Records tokens D P first)
    (hnext : Records tokens D P next) (rule : String) :
    Records tokens D (fun items => ∀ a ∈ items, P a) (commaList rule first next) := by
  have hstep (items : List α) :
      Records tokens D (fun r => (∀ a ∈ items, P a) → ∀ a ∈ r.value, P a)
        (commaStep rule next items) := by
    refine records_behind htokens (·.takeSymbol .comma) fun found => ?_
    cases found with
    | true =>
      exact (hnext.taking rule).map fun a ha hitems => List.forall_mem_cons.2 ⟨ha, hitems⟩
    | false => exact records_pure fun hitems => hitems
  rw [commaList_eq]
  refine (hfirst.taking rule).bind fun head => (records_loop hstep []).bind fun tail => ?_
  refine records_pure fun htail hhead => ?_
  have htail := htail fun a ha => absurd ha List.not_mem_nil
  exact List.forall_mem_cons.2 ⟨hhead, fun a ha => htail a (List.mem_reverse.1 ha)⟩

theorem Records.commaSeparated (hp : Records tokens D P p) (rule : String) :
    Records tokens D (fun items => ∀ a ∈ items, P a) (Parser.commaSeparated rule p) :=
  hp.commaList htokens hp rule

/-- A failure that is passed over leaves nothing behind. -/
theorem Records.recover (hp : Records tokens D P p)
    (hmeets : ∀ ds, (reporting tokens ds).Meets p) :
    Records tokens D (fun found => ∀ a ∈ found, P a) (recover p) := by
  intro s t found hs heq
  have hends := (hmeets s.diagnostics).recover (reporting_lawful htokens) s hs.refl
  rw [heq] at hends
  refine ⟨hends, fun hD => ?_⟩
  rintro a rfl
  obtain ⟨b, hrun, hb⟩ | ⟨d, u, -, -, hnone⟩ := recover_eq_ok heq
  · obtain rfl := Option.some.inj hb
    exact (hp s t a hs hrun).2 hD
  · cases hnone

/-- What is known of the body of a clause is known where there is one. -/
theorem Records.clause (hp : Records tokens D P p) (hmeets : ∀ ds, (reporting tokens ds).Meets p)
    (allowed : Bool) (word : Keyword) :
    Records tokens D (fun found => ∀ a ∈ found, P a) (clause allowed word p) := by
  refine records_atKeyword_bind word fun here => ?_
  split
  · refine (hp.recover htokens hmeets).bind fun found => ?_
    exact records_behind htokens (·.clauseEnd) fun _ => records_pure fun hfound => hfound
  · exact records_pure nofun

end

end Grammar

end SearchSql
