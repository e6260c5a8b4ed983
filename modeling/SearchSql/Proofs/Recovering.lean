import SearchSql.Proofs.Quota
import SearchSql.Time.Reading

/-!
# Recovery of queries

A parse that recovers fails only with a fatal diagnostic, wherever its rules are recovered from. In a
query that is everywhere: behind the word `SELECT` each clause is read on its own, and so is the end
of each clause. Hence a statement that starts with this word is never lost, unless the parse ends
early (`parseTokens_select`).
-/

set_option autoImplicit false

namespace SearchSql

namespace Grammar

open SearchSql.Grammar.Parser

variable {α β : Type}

theorem current_ofTokens (token : Token) (rest : List Token) :
    (Cursor.ofTokens (token :: rest)).current = token := by
  unfold Cursor.ofTokens
  cases hlast : (token :: rest).getLast? with
  | none => simp at hlast
  | some last =>
    dsimp only
    split
    · -- The list is closed by its own last token, which may be its first.
      cases rest with
      | nil => exact (Option.some.inj hlast).symm
      | cons next rest => rfl
    · rfl

/-- Where failures are recovered from, only fatal ones are left. -/
def FailsFatally (p : Parser α) : Prop :=
  ∀ (s t : State) (d : Diagnostic), s.isRecovering = true → p s = .error (.rejected d) t →
    d.isFatal = true

theorem failsFatally_pure (a : α) : FailsFatally (pure a : Parser α) :=
  fun _ _ _ _ hrun => nomatch hrun

theorem failsFatally_get_bind {f : State → Parser α} (h : ∀ s, FailsFatally (f s)) :
    FailsFatally (get >>= f) := fun s => h s s

theorem failsFatally_current_bind {f : Token → Parser α} (h : ∀ t, FailsFatally (f t)) :
    FailsFatally (current >>= f) := fun s => h s.cursor.current s

theorem failsFatally_atKeyword_bind (word : Keyword) {f : Bool → Parser α}
    (h : ∀ here, FailsFatally (f here)) : FailsFatally (atKeyword word >>= f) :=
  failsFatally_current_bind fun t => h (t.kind == .keyword word)

theorem failsFatally_skip (n : Nat) : FailsFatally (Parser.skip n) :=
  fun _ _ _ _ hrun => nomatch hrun

theorem failsFatally_note (e : Event) : FailsFatally (note e) :=
  fun _ _ _ _ hrun => nomatch hrun

/-- Two parsers in a row fail only fatally if each does. -/
theorem FailsFatally.bind {p : Parser α} {f : α → Parser β} (hp : FailsFatally p)
    (hsteady : Steady p) (hf : ∀ a, FailsFatally (f a)) : FailsFatally (p >>= f) := by
  intro s t d hs hrun
  rw [bind_apply] at hrun
  cases hfirst : p s with
  | ok a u =>
    rw [hfirst] at hrun
    have hu : u.isRecovering = true := (hsteady.leads hfirst).isRecovering.trans hs
    exact hf a u t d hu hrun
  | error e u =>
    rw [hfirst] at hrun
    cases hrun
    exact hp s t d hs hfirst

theorem failsFatally_report (d : Diagnostic) : FailsFatally (report d) := by
  intro s t e _ hrun
  rw [report_apply] at hrun
  split at hrun
  · cases hrun
  · split at hrun
    · cases hrun
      rfl
    · cases hrun

/-- Skipping to a boundary never fails. -/
theorem failsFatally_synchronize : FailsFatally synchronize :=
  failsFatally_get_bind fun _ => (failsFatally_skip _).bind (steady_skip _) fun _ =>
    failsFatally_current_bind fun _ => failsFatally_note _

/-- What is not passed over is fatal. -/
theorem failsFatally_passOver (d : Diagnostic) : FailsFatally (passOver d) := by
  intro s t e hs hrun
  unfold passOver at hrun
  rw [get_bind_apply, hs, Bool.and_true] at hrun
  cases hfatal : d.isFatal with
  | true =>
    rw [hfatal] at hrun
    cases hrun
    exact hfatal
  | false =>
    rw [hfatal] at hrun
    have hpasses : FailsFatally (report d >>= fun _ => synchronize) :=
      (failsFatally_report d).bind (steady_report d) fun _ => failsFatally_synchronize
    exact hpasses s t e hs hrun

/-- A parser that recovers fails only fatally. -/
theorem failsFatally_recover {p : Parser α} (hp : Steady p) : FailsFatally (recover p) := by
  intro s t d hs hrun
  unfold recover at hrun
  cases hinner : p s with
  | ok a u =>
    rw [hinner] at hrun
    cases hrun
  | error e u =>
    rw [hinner] at hrun
    cases e with
    | outOfFuel => cases hrun
    | rejected e =>
      have hu := hp s
      rw [hinner] at hu
      have hrecovering : u.isRecovering = true := hu.isRecovering.trans hs
      have hpasses : FailsFatally (passOver e >>= fun _ => (pure none : Parser (Option α))) :=
        (failsFatally_passOver e).bind (steady_passOver e) fun _ => failsFatally_pure none
      exact hpasses u t d hrecovering hrun

/-- The end of a clause fails only fatally. -/
theorem failsFatally_clauseEnd : FailsFatally clauseEnd := by
  refine failsFatally_get_bind fun s => ?_
  split
  · exact failsFatally_current_bind fun _ => failsFatally_passOver _
  · exact failsFatally_pure _

/-- A clause that recovers fails only fatally. -/
theorem failsFatally_clause {p : Parser α} (hp : Steady p) (allowed : Bool) (word : Keyword) :
    FailsFatally (clause allowed word p) := by
  refine failsFatally_atKeyword_bind word fun here => ?_
  split
  · exact (failsFatally_recover hp).bind hp.recover fun _ =>
      failsFatally_clauseEnd.bind steady_clauseEnd fun _ => failsFatally_pure _
  · exact failsFatally_pure none

theorem steady_clause {p : Parser α} (hp : Steady p) (allowed : Bool) (word : Keyword) :
    Steady (clause allowed word p) := by
  have hclause (here : Bool) : Steady (if allowed && here then (do
      let found ← recover p
      clauseEnd
      return found) else pure none) := by
    split
    · exact hp.recover.bind fun _ => steady_clauseEnd.bind fun _ => steady_pure _
    · exact steady_pure none
  exact steady_current_bind fun t => hclause (t.kind == .keyword word)

/-- The clause of a limit fails only fatally. -/
theorem failsFatally_limitClause : FailsFatally limitClause := by
  refine failsFatally_atKeyword_bind .LIMIT fun here => ?_
  split
  · exact failsFatally_recover steady_limit
  · exact failsFatally_pure none

/-- A quantifier fails only fatally. -/
theorem failsFatally_quantifier : FailsFatally quantifier := by
  intro s t d _ hrun
  unfold quantifier at hrun
  rw [takeKeyword_bind_apply] at hrun
  split at hrun
  · cases hrun
  · simp only [Bool.false_eq_true, if_false] at hrun
    rw [takeKeyword_bind_apply] at hrun
    split at hrun
    · cases hrun
    · cases hrun

section Query

variable {call : Callee} (hcall : ∀ {α : Type} (n : Nonterminal α), Steady (call n))

include hcall

/-- Behind the select list, every failure of a query is recovered from. -/
theorem failsFatally_fromRelation (start : Span)
    (finish : Option Relation → Option Condition → Option GroupBy → Option Condition →
      Option OrderBy → Option Limit → Span → Query) :
    FailsFatally (fromRelation call start finish) := by
  have hclause {α : Type} (n : Nonterminal α) (allowed : Bool) (word : Keyword)
      {f : Option α → Parser Query} (hf : ∀ found, FailsFatally (f found)) :
      FailsFatally (clause allowed word (call n) >>= f) :=
    (failsFatally_clause (hcall n) allowed word).bind (steady_clause (hcall n) allowed word) hf
  refine failsFatally_clauseEnd.bind steady_clauseEnd fun _ =>
    failsFatally_atKeyword_bind .FROM fun hasRelation => ?_
  refine hclause .relation _ _ fun _ => hclause (.condition .WHERE) _ _ fun _ => ?_
  refine hclause .groupBy _ _ fun _ => hclause (.condition .HAVING) _ _ fun _ => ?_
  refine hclause .orderBy _ _ fun _ => ?_
  have hlimit : Steady limitClause := (steady_congruence.limitClause (b := 0)).1
  exact failsFatally_limitClause.bind hlimit fun _ _ _ _ _ hrun => nomatch hrun

/-- A query that starts with its word fails only for good. -/
theorem isFatal_of_queryRule {s t : State} {d : Diagnostic} (hs : s.isRecovering = true)
    (hselect : s.cursor.current.kind = .keyword .SELECT)
    (hrun : queryRule call s = .error (.rejected d) t) : d.isFatal = true := by
  rw [queryRule_eq, bind_of_ok (keyword_eq_ok_iff.2 ⟨hselect, rfl, rfl⟩)] at hrun
  have hquantifier : Steady quantifier := (steady_congruence.quantifier (b := 0)).1
  have hitems := (hcall .selectItems).recover
  have hrest : FailsFatally (quantifier >>= fun q => recover (call .selectItems) >>= fun items =>
      fromRelation call s.cursor.current.span (Query.mk q (items.getD []))) :=
    failsFatally_quantifier.bind hquantifier fun _ =>
      (failsFatally_recover (hcall .selectItems)).bind hitems fun _ =>
        failsFatally_fromRelation hcall _ _
  exact hrest (s.skip 1) t d hs hrun

end Query

/-- A statement that starts with `SELECT` is a query. -/
theorem statementRule_of_select {call : Callee} {s : State}
    (hselect : s.cursor.current.kind = .keyword .SELECT) :
    statementRule call s = (call .query >>= fun q => pure (.select q)) s := by
  unfold statementRule
  rw [current_bind_apply, hselect]

/-- The end of the input fails only fatally. -/
theorem failsFatally_inputEnd : FailsFatally inputEnd := by
  intro s t d hs hrun
  unfold inputEnd at hrun
  rw [current_bind_apply] at hrun
  cases hend : s.cursor.current.isEnd with
  | true =>
    rw [hend] at hrun
    cases hrun
  | false =>
    rw [hend] at hrun
    simp only [Bool.not_false, if_true] at hrun
    rw [get_bind_apply, hs] at hrun
    simp only [if_true] at hrun
    have hreport : FailsFatally (report (.unexpected "end of input" s.cursor.current) >>= fun _ =>
        get >>= fun u => Parser.skip u.cursor.ahead.length >>= fun _ => note .trailingSkipped) :=
      (failsFatally_report _).bind (steady_report _) fun _ => failsFatally_get_bind fun _ =>
        (failsFatally_skip _).bind (steady_skip _) fun _ => failsFatally_note _
    exact hreport s t d hs hrun

/-- What follows the statement is recovered from, too. -/
theorem failsFatally_rootRule {call : Callee} (hcall : Steady (call .query)) :
    FailsFatally (rootRule call) := by
  have hstatement : Steady (statementRule call) :=
    (steady_congruence.statementRule (b := 0) ⟨hcall, hcall⟩).1
  have hoptional : FailsFatally (optionalStatement call) := by
    refine failsFatally_current_bind fun t => ?_
    split
    · exact failsFatally_pure none
    · exact failsFatally_pure none
    · exact failsFatally_recover hstatement
  have hsteady : Steady (optionalStatement call) := by
    refine steady_current_bind fun t => ?_
    split
    · exact steady_pure none
    · exact steady_pure none
    · exact hstatement.recover
  refine hoptional.bind hsteady fun statement => ?_
  intro s t d hs hrun
  rw [takeSymbol_bind_apply] at hrun
  have hend : FailsFatally (inputEnd >>= fun _ => (pure statement : Parser (Option Statement))) :=
    failsFatally_inputEnd.bind steady_inputEnd fun _ => failsFatally_pure _
  split at hrun
  · exact hend (s.skip 1) t d hs hrun
  · exact hend s t d hs hrun

/-- A parse that recovers and ends early ends for good. -/
theorem isFatal_of_runRoot [Time.Library] {tokens : List Token} {settings : Settings}
    {d : Diagnostic} {t : State}
    (h : settings.recover = true) (hrun : runRoot tokens settings = .error (.rejected d) t) :
    d.isFatal = true := by
  have hrecovering : (State.ofTokens tokens settings).isRecovering = true := by
    unfold State.isRecovering State.ofTokens
    rw [h]
    rfl
  exact failsFatally_rootRule (steady_derive _ .query) _ t d hrecovering hrun

/-- A rule whose failures are all fatal leaves nothing out where it is recovered from. -/
theorem recover_of_failsFatally {p : Parser α} {s t : State} {found : Option α}
    (h : ∀ d u, p s = .error (.rejected d) u → d.isFatal = true)
    (hrun : recover p s = .ok found t) : ∃ a, p s = .ok a t ∧ found = some a := by
  unfold recover at hrun
  cases hinner : p s with
  | ok a u =>
    rw [hinner] at hrun
    cases hrun
    exact ⟨a, rfl, rfl⟩
  | error e u =>
    rw [hinner] at hrun
    cases e with
    | outOfFuel => cases hrun
    | rejected d =>
      have hpass : passOver d u = .error (.rejected d) u := by
        unfold passOver
        rw [get_bind_apply, h d u hinner]
        rfl
      have hstop : (passOver d >>= fun _ => (pure none : Parser (Option α))) u =
          .error (.rejected d) u := bind_of_error hpass
      cases hstop.symm.trans hrun

/-- In front of the word `SELECT`, a parse that recovers and gets to the end reads a query. -/
theorem query_of_runRoot [Time.Library] {token : Token} {rest : List Token} {settings : Settings}
    {statement : Option Statement} {t : State} (hselect : token.kind = .keyword .SELECT)
    (h : settings.recover = true)
    (hrun : runRoot (token :: rest) settings = .ok statement t) :
    ∃ q u, read .query (State.ofTokens (token :: rest) settings) = .ok q u ∧
      statement = some (.select q) := by
  generalize hs : State.ofTokens (token :: rest) settings = s
  have hcurrent : s.cursor.current.kind = .keyword .SELECT := by
    rw [← hs]
    exact (congrArg Token.kind (current_ofTokens token rest)).trans hselect
  have hrecovering : s.isRecovering = true := by
    rw [← hs]
    unfold State.isRecovering State.ofTokens
    rw [h]
    rfl
  rw [runRoot_eq, hs] at hrun
  obtain ⟨found, u, hoptional, hrest⟩ := bind_eq_ok_iff.1 hrun
  unfold optionalStatement at hoptional
  rw [current_bind_apply, hcurrent] at hoptional
  -- The statement is a query, and a query in front of its word fails only for good.
  have hfatal : ∀ d v, statementRule read s = .error (.rejected d) v →
      d.isFatal = true := by
    intro d v hfails
    rw [statementRule_of_select hcurrent, bind_apply] at hfails
    cases hquery : read .query s with
    | ok q w =>
      rw [hquery] at hfails
      cases hfails
    | error e w =>
      rw [hquery] at hfails
      cases hfails
      rw [read_eq_rule] at hquery
      exact isFatal_of_queryRule steady_read hrecovering hcurrent hquery
  obtain ⟨a, ha, rfl⟩ := recover_of_failsFatally hfatal hoptional
  rw [statementRule_of_select hcurrent] at ha
  obtain ⟨q, v, hquery, hq⟩ := bind_eq_ok_iff.1 ha
  obtain ⟨rfl, -⟩ := pure_eq_ok_iff.1 hq
  obtain ⟨_, w, -, hrest⟩ := bind_eq_ok_iff.1 hrest
  obtain ⟨_, x, -, hresult⟩ := bind_eq_ok_iff.1 hrest
  obtain ⟨rfl, -⟩ := pure_eq_ok_iff.1 hresult
  exact ⟨q, v, hquery, rfl⟩

/-- In front of the word `SELECT`, a parse that recovers and gets to the end builds a query. -/
theorem select_of_runRoot [Time.Library] {token : Token} {rest : List Token} {settings : Settings}
    {statement : Option Statement} {t : State} (hselect : token.kind = .keyword .SELECT)
    (h : settings.recover = true)
    (hrun : runRoot (token :: rest) settings = .ok statement t) :
    ∃ q, statement = some (.select q) := by
  obtain ⟨q, u, -, hq⟩ := query_of_runRoot hselect h hrun
  exact ⟨q, hq⟩

end Grammar

open SearchSql.Grammar

/-- A parse that recovers loses no query: it ends early exactly if its last diagnostic is fatal, and
has no statement then; otherwise it has a query, whatever stands behind the word `SELECT`. -/
theorem parseTokens_select [Time.Library] (token : Token) (rest : List Token) (settings : Settings)
    (hselect : token.kind = .keyword .SELECT) (h : settings.recover = true) :
    let o := parseTokens (token :: rest) settings
    (o.aborted = true ↔ ∃ d, o.diagnostics.getLast? = some d ∧ d.EndsParse) ∧
    (o.aborted = true → o.statement = none) ∧
    (o.aborted = false → ∃ q, o.statement = some (.select q)) := by
  have hends := quota_lawful.runRoot (hasRoom_ofTokens (token :: rest) h)
  have hfuel := runRoot_ne_outOfFuel (token :: rest) settings
  dsimp only
  unfold parseTokens
  cases hrun : runRoot (token :: rest) settings with
  | ok statement t =>
    rw [hrun] at hends
    have ht : t.HasRoom := hends
    refine ⟨⟨nofun, ?_⟩, nofun, fun _ => select_of_runRoot hselect h hrun⟩
    rintro ⟨d, hd, hfound⟩
    have hmem : d ∈ t.diagnostics := List.mem_reverse.1 (List.mem_of_getLast? hd)
    cases (ht.notFatal d hmem).symm.trans (Diagnostic.isFatal_iff.2 hfound)
  | error e t =>
    cases e with
    | outOfFuel => exact absurd hrun (hfuel t)
    | rejected d =>
      have hfound : d.EndsParse := Diagnostic.isFatal_iff.1 (isFatal_of_runRoot h hrun)
      refine ⟨⟨fun _ => ⟨d, ?_, hfound⟩, fun _ => rfl⟩, fun _ => rfl, nofun⟩
      show (d :: t.diagnostics).reverse.getLast? = some d
      rw [List.reverse_cons, List.getLast?_concat]

/-- Nothing behind the word `SELECT` is a query as well. -/
theorem parseTokens_select_alone :
    (parseTokens [⟨.keyword .SELECT, "SELECT", ⟨0, 6⟩⟩] Settings.standard).aborted = false ∧
      ∃ q, (parseTokens [⟨.keyword .SELECT, "SELECT", ⟨0, 6⟩⟩] Settings.standard).statement =
        some (.select q) := by
  have haborted : (parseTokens [⟨.keyword .SELECT, "SELECT", ⟨0, 6⟩⟩]
      Settings.standard).aborted = false := by decide +kernel
  exact ⟨haborted,
    (parseTokens_select ⟨.keyword .SELECT, "SELECT", ⟨0, 6⟩⟩ [] Settings.standard rfl rfl).2.2
      haborted⟩

end SearchSql
