import SearchSql.Proofs.RuleRecording
import SearchSql.Time.Reading

/-!
# Every literal without a value is reported once

A literal without a value is kept in the tree, and its diagnostic is added to the list apart from that.
Where the literal is read, its diagnostic is not dropped, so it is there in the end if its constant is.
With the order of diagnostics in the text, each constant without a value has exactly one diagnostic of
its own, and a parse that stops at the first error gives no such constant (`parse_malformed`).
-/

set_option autoImplicit false

namespace SearchSql

/-- If the constant has no value, this is one of the diagnostics. -/
def Constant.Noted (D : List Diagnostic) (c : Constant) : Prop :=
  ∀ kind text fault, c.value = .malformed kind text fault →
    .malformed kind.text fault.message c.span ∈ D

theorem Constant.Noted.mono {D E : List Diagnostic} {c : Constant} (h : c.Noted D) (hDE : D ⊆ E) :
    c.Noted E := fun kind text fault hvalue => hDE (h kind text fault hvalue)

namespace Grammar

open SearchSql.Grammar.Parser

variable {tokens : List Token} {D : List Diagnostic}

/-! ## Where literals are read -/

section

variable {s t : State} {value : Literal} {c : Constant} {n : Nat}

/-- No literal starts at a boundary, so the one that starts under the cursor is reported behind it. -/
theorem malformedLiteral_noted (hs : s.IsReporting tokens []) (htokens : Token.InOrder tokens)
    (hstart : isBoundary true s.cursor.current.kind = false) {kind : LiteralKind} {text : String}
    {fault : LiteralFault}
    (h : malformedLiteral kind text fault
      (s.cursor.current.span.merge (s.skip (n + 1)).cursor.previousSpan) (s.skip (n + 1)) =
        .ok value t) :
    t.cursor = (s.skip (n + 1)).cursor ∧
      (⟨value, s.cursor.current.span.merge t.cursor.previousSpan⟩ : Constant).Noted
        t.diagnostics := by
  have horder : Token.InOrder s.cursor.allTokens := by
    rw [hs.ordered.allTokens]
    exact htokens
  have hend : s.cursor.current.isEnd = false := by
    apply isEnd_eq_false
    intro hkind
    rw [hkind] at hstart
    cases hstart
  -- The literal starts where its first token does.
  have hplace : (s.cursor.current.span.merge (s.skip (n + 1)).cursor.previousSpan).start =
      s.cursor.current.span.start := by
    obtain ⟨u, -, hspan, hle, -⟩ := Cursor.previousSpan_between horder hend n
    have hprevious : (s.skip (n + 1)).cursor.previousSpan = u.span := hspan
    rw [hprevious]
    exact Nat.min_eq_left hle
  obtain ⟨_, u, hreport, hvalue⟩ := bind_eq_ok_iff.1 h
  obtain ⟨rfl, rfl⟩ := pure_eq_ok_iff.1 hvalue
  unfold reportLiteral at hreport
  rw [get_bind_apply] at hreport
  split at hreport
  · rw [report_apply] at hreport
    split at hreport
    · next hlast =>
      -- The last diagnostic is not about the first token of the literal.
      have hlast' : s.lastReported = some s.cursor.current.span.start := hplace ▸ hlast
      rw [hs.fresh hlast'] at hstart
      cases hstart
    · split at hreport
      · cases hreport
      · obtain ⟨-, rfl⟩ := EStateM.Result.ok.inj hreport
        refine ⟨rfl, ?_⟩
        rintro kind' text' fault' ⟨⟩
        exact List.mem_cons_self
  · cases hreport

theorem noted_of_ne {ds : List Diagnostic}
    (h : ∀ kind text fault, c.value ≠ .malformed kind text fault) : c.Noted ds :=
  fun kind text fault hc => absurd hc (h kind text fault)

theorem numberLiteral_noted (hs : s.IsReporting tokens []) (htokens : Token.InOrder tokens)
    (hstart : isBoundary true s.cursor.current.kind = false) {kind : TokenKind} {text : String}
    (h : numberLiteral kind text
      (s.cursor.current.span.merge (s.skip (n + 1)).cursor.previousSpan) (s.skip (n + 1)) =
        .ok value t) :
    t.cursor = (s.skip (n + 1)).cursor ∧
      (⟨value, s.cursor.current.span.merge t.cursor.previousSpan⟩ : Constant).Noted
        t.diagnostics := by
  unfold numberLiteral at h
  split at h
  · cases hread : Number.readSigned text with
    | ok _ =>
      rw [hread] at h
      obtain ⟨rfl, rfl⟩ := pure_eq_ok_iff.1 h
      exact ⟨rfl, noted_of_ne nofun⟩
    | error fault =>
      rw [hread] at h
      exact malformedLiteral_noted hs htokens hstart h
  · cases hread : Number.readReal text with
    | ok _ =>
      rw [hread] at h
      obtain ⟨rfl, rfl⟩ := pure_eq_ok_iff.1 h
      exact ⟨rfl, noted_of_ne nofun⟩
    | error fault =>
      rw [hread] at h
      exact malformedLiteral_noted hs htokens hstart h

theorem temporalKind_read_ne {library : Time.Library} {kind : TemporalKind} {text : String}
    (h : kind.read library text = .ok value) (kind' : LiteralKind) (text' : String)
    (fault : LiteralFault) : value ≠ .malformed kind' text' fault := by
  obtain ⟨_, rfl⟩ | ⟨_, rfl⟩ | ⟨_, rfl⟩ := TemporalKind.cases_of_read h
  all_goals nofun

theorem temporalLiteral_noted (hs : s.IsReporting tokens []) (htokens : Token.InOrder tokens)
    (hstart : isBoundary true s.cursor.current.kind = false) {kind : TemporalKind} {text : String}
    (h : temporalLiteral kind text
      (s.cursor.current.span.merge (s.skip (n + 1)).cursor.previousSpan) (s.skip (n + 1)) =
        .ok value t) :
    t.cursor = (s.skip (n + 1)).cursor ∧
      (⟨value, s.cursor.current.span.merge t.cursor.previousSpan⟩ : Constant).Noted
        t.diagnostics := by
  unfold temporalLiteral at h
  rw [get_bind_apply] at h
  cases hread : kind.read (s.skip (n + 1)).library text with
  | ok _ =>
    rw [hread] at h
    obtain ⟨rfl, rfl⟩ := pure_eq_ok_iff.1 h
    exact ⟨rfl, noted_of_ne (temporalKind_read_ne hread)⟩
  | error fault =>
    rw [hread] at h
    exact malformedLiteral_noted hs htokens hstart h

/-- The number behind `n` tokens for its sign. -/
theorem numberBehind_noted (hs : s.IsReporting tokens []) (htokens : Token.InOrder tokens)
    (hstart : isBoundary true s.cursor.current.kind = false) {negative : Bool}
    (h : Likeness.numberBehind s.cursor.current.span negative (s.skip n) = .ok c t) :
    c.Noted t.diagnostics := by
  unfold Likeness.numberBehind at h
  rw [current_bind_apply] at h
  dsimp only at h
  split at h
  · obtain ⟨_, _, hreject, -⟩ := bind_eq_ok_iff.1 h
    exact absurd hreject rejectCurrent_ne_ok
  · rw [skip_bind_apply, spanFrom_bind_apply, State.skip_skip_one] at h
    obtain ⟨value, u, hvalue, hrest⟩ := bind_eq_ok_iff.1 h
    obtain ⟨rfl, rfl⟩ := pure_eq_ok_iff.1 hrest
    obtain ⟨hcursor, hnoted⟩ := numberLiteral_noted hs htokens hstart hvalue
    rwa [hcursor] at hnoted

theorem number_noted (hs : s.IsReporting tokens []) (htokens : Token.InOrder tokens)
    (h : number s = .ok c t) : c.Noted t.diagnostics := by
  rw [Likeness.number_eq, current_bind_apply] at h
  unfold Likeness.numberFrom at h
  rw [takeSymbol_bind_apply] at h
  split at h
  · next hkind => exact numberBehind_noted hs htokens (n := 1) (by rw [hkind]; rfl) h
  · change (takeSymbol .plus >>= fun _ => Likeness.numberBehind _ false) s = _ at h
    rw [takeSymbol_bind_apply] at h
    split at h
    · next hkind => exact numberBehind_noted hs htokens (n := 1) (by rw [hkind]; rfl) h
    · refine numberBehind_noted hs htokens (n := 0) ?_ h
      -- A number without a sign starts with its digits.
      unfold Likeness.numberBehind at h
      rw [current_bind_apply] at h
      cases hkind : s.cursor.current.kind with
      | integer | real => rfl
      | _ =>
        rw [hkind] at h
        cases h

theorem wordLiteral_noted (hs : s.IsReporting tokens []) (htokens : Token.InOrder tokens)
    (hstart : isBoundary true s.cursor.current.kind = false) {kind : TemporalKind}
    (h : wordLiteral kind s = .ok value t) :
    (⟨value, s.cursor.current.span.merge t.cursor.previousSpan⟩ : Constant).Noted
      t.diagnostics := by
  unfold wordLiteral at h
  rw [take_bind_apply] at h
  obtain ⟨text, u, hstring, hrest⟩ := bind_eq_ok_iff.1 h
  obtain ⟨-, rfl⟩ := string_eq_ok hstring
  rw [spanFrom_bind_apply] at hrest
  exact (temporalLiteral_noted (n := 1) hs htokens hstart hrest).2

theorem bracedLiteral_noted (hs : s.IsReporting tokens []) (htokens : Token.InOrder tokens)
    (h : bracedLiteral s = .ok value t) :
    (⟨value, s.cursor.current.span.merge t.cursor.previousSpan⟩ : Constant).Noted
      t.diagnostics := by
  obtain ⟨_, _, hbrace, hrest⟩ := bind_eq_ok_iff.1 h
  obtain ⟨hkind, rfl, rfl⟩ := symbol_eq_ok_iff.1 hbrace
  have hstart : isBoundary true s.cursor.current.kind = false := by
    rw [hkind]
    rfl
  rw [current_bind_apply] at hrest
  cases hword : TemporalKind.ofKind? (s.skip 1).cursor.current.kind with
  | none =>
    rw [hword] at hrest
    exact absurd hrest rejectCurrent_ne_ok
  | some kind =>
    rw [hword] at hrest
    dsimp only at hrest
    rw [skip_bind_apply] at hrest
    obtain ⟨text, u, hstring, hrest⟩ := bind_eq_ok_iff.1 hrest
    obtain ⟨-, rfl⟩ := string_eq_ok hstring
    obtain ⟨_, _, hclose, hrest⟩ := bind_eq_ok_iff.1 hrest
    obtain ⟨-, -, rfl⟩ := symbol_eq_ok_iff.1 hclose
    rw [spanFrom_bind_apply] at hrest
    exact (temporalLiteral_noted (n := 3) hs htokens hstart hrest).2

end

/-- Where constants are read, those without a value are reported. -/
theorem noted_leaves (htokens : Token.InOrder tokens) : Leaves tokens D (Constant.Noted D) where
  unfailing {s value} stop _ _ hvalue := by
    apply noted_of_ne
    intro kind text fault (heq : value = .malformed kind text fault)
    rw [heq] at hvalue
    cases hvalue
  number hs heq hD := (number_noted hs htokens heq).mono hD
  word hs _ hstart heq hD := (wordLiteral_noted hs htokens hstart heq).mono hD
  braced hs heq hD := (bracedLiteral_noted hs htokens heq).mono hD

/-- In what a parse gives, all literals without a value are reported. -/
theorem allNoted_runRoot [Time.Library] {settings : Settings} {found : Option Statement}
    {t : State} {last : Token}
    (htokens : Token.InOrder tokens) (hlast : tokens.getLast? = some last) (hend : last.isEnd = true)
    (heq : runRoot tokens settings = .ok found t) :
    ∀ statement ∈ found, AllSatisfy (Constant.Noted t.diagnostics) statement.constants :=
  allSatisfy_runRoot htokens hlast hend heq (noted_leaves htokens)

end Grammar

/-! ## Diagnostics by their place -/

/-- Where diagnostics are in order, one of them is the only one at its place. -/
theorem filter_eq_singleton {ds : List Diagnostic} {d : Diagnostic} {p : Diagnostic → Bool}
    (horder : ds.Pairwise fun d e => d.span.start < e.span.start) (hd : d ∈ ds) (hp : p d = true)
    (hplace : ∀ e, p e = true → e.span = d.span) : ds.filter p = [d] := by
  have hmem : d ∈ ds.filter p := List.mem_filter.2 ⟨hd, hp⟩
  have hfiltered := horder.filter p
  cases hfilter : ds.filter p with
  | nil =>
    rw [hfilter] at hmem
    cases hmem
  | cons e rest =>
    rw [hfilter] at hmem hfiltered
    obtain ⟨hhead, -⟩ := List.pairwise_cons.1 hfiltered
    have hsame {f : Diagnostic} (hf : f ∈ e :: rest) : f.span = d.span := by
      rw [← hfilter] at hf
      exact hplace f (List.mem_filter.1 hf).2
    cases rest with
    | nil => rw [List.mem_singleton.1 hmem]
    | cons f rest =>
      have hlt := hhead f List.mem_cons_self
      rw [hsame List.mem_cons_self, hsame (List.mem_cons_of_mem e List.mem_cons_self)] at hlt
      exact absurd hlt (Nat.lt_irrefl _)

open Grammar

/-- A constant without a value has exactly one diagnostic about a literal at its span, and this one
tells the kind of the literal and the reason. A parse up to the first error gives no such constant. -/
theorem parse_malformed [Time.Library] (text : String) (settings : Settings) :
    (∀ statement ∈ (parse text settings).statement, ∀ c ∈ statement.constants,
      ∀ kind literal fault, c.value = .malformed kind literal fault →
        ∃ d, (parse text settings).diagnostics.filter
            (fun d => d.kind = .malformedLiteral ∧ d.span = c.span) = [d] ∧
          d.message = "malformed " ++ kind.text ++ " literal: " ++ fault.message) ∧
      ∀ statement, parseStrict text settings = .ok statement → ∀ c ∈ statement.constants,
        ∀ kind literal fault, c.value ≠ .malformed kind literal fault := by
  have htokens := Token.inOrder_tokenize text
  have hlast := (Token.tokenize_tiles text).1
  refine ⟨fun statement hstatement c hc kind literal fault hvalue => ?_,
    fun statement hstrict c hc kind literal fault hvalue => ?_⟩
  -- A recovering parse has noted the literal, and no other diagnostic has its place.
  · have hends := (sourceOrder_lawful htokens).runRoot (isOrdered_ofTokens hlast rfl settings)
    obtain ⟨t, hrun⟩ := parseTokens_statement_eq_some.1 hstatement
    rw [hrun] at hends
    have ht : t.IsOrdered (Token.tokenize text) := hends
    have hnoted := allNoted_runRoot htokens hlast rfl hrun statement rfl c hc kind literal fault hvalue
    unfold parse parseTokens
    rw [hrun]
    exact ⟨_, filter_eq_singleton (List.pairwise_reverse.2 ht.order) (List.mem_reverse.2 hnoted)
      (decide_eq_true ⟨rfl, rfl⟩) fun e he => (of_decide_eq_true he).2, rfl⟩
  -- A strict parse notes nothing, but would have noted the literal.
  · have hsilent : silence.Ends
        (runRoot (Token.tokenize text) { settings with recover := false }) :=
      silence_lawful.runRoot ⟨rfl, rfl⟩
    obtain ⟨t, hrun⟩ := parseTokensStrict_eq_ok.1 hstrict
    rw [hrun] at hsilent
    have hnoted := allNoted_runRoot htokens hlast rfl hrun statement rfl c hc kind literal fault hvalue
    rw [show t.diagnostics = [] from hsilent.2] at hnoted
    cases hnoted

/-- The date is read in an attempt at a filter that is undone, and again for the query. -/
theorem parse_malformed_reread :
    (∃ statement ∈ (parse "SELECT a, FROM t HAVING SUM(a) ORDER BY DATE 'x', 1e999"
        Settings.standard).statement,
      ∃ c ∈ statement.constants, ∃ fault, c.value = .malformed .date "x" fault ∧
        ∃ d, (parse "SELECT a, FROM t HAVING SUM(a) ORDER BY DATE 'x', 1e999"
            Settings.standard).diagnostics.filter
              (fun d => d.kind = .malformedLiteral ∧ d.span = c.span) = [d] ∧
          d.message = "malformed " ++ LiteralKind.date.text ++ " literal: " ++ fault.message) ∧
      ∃ statement, parseStrict "SELECT DATE '2024-02-29'" Settings.standard = .ok statement ∧
        statement.constants.length = 1 ∧
          ∀ c ∈ statement.constants, ∀ kind literal fault,
            c.value ≠ .malformed kind literal fault := by
  constructor
  · have hparse : ((parse "SELECT a, FROM t HAVING SUM(a) ORDER BY DATE 'x', 1e999"
        Settings.standard).statement.any fun statement => statement.constants.any fun c =>
          c.value.malformed?.any fun m => m.1 = .date ∧ m.2.1 = "x") = true := by decide +kernel
    obtain ⟨statement, hstatement, hany⟩ := (Option.any_eq_true _ _).1 hparse
    obtain ⟨c, hc, hmalformed⟩ := List.any_eq_true.1 hany
    obtain ⟨⟨kind, literal, fault⟩, hvalue, hkind⟩ := (Option.any_eq_true _ _).1 hmalformed
    obtain ⟨rfl, rfl⟩ := of_decide_eq_true hkind
    have hvalue : c.value = .malformed .date "x" fault := Literal.malformed?_eq_some.1 hvalue
    exact ⟨statement, hstatement, c, hc, fault, hvalue,
      (parse_malformed _ Settings.standard).1 statement hstatement c hc .date "x" fault hvalue⟩
  · have hlength : (parseStrict "SELECT DATE '2024-02-29'" Settings.standard).toOption.map
        (fun statement => statement.constants.length) = some 1 := by decide +kernel
    cases hok : parseStrict "SELECT DATE '2024-02-29'" Settings.standard with
    | error failure =>
      rw [hok] at hlength
      cases hlength
    | ok statement =>
      rw [hok] at hlength
      exact ⟨statement, rfl, Option.some.inj hlength,
        (parse_malformed _ Settings.standard).2 statement hok⟩

end SearchSql
