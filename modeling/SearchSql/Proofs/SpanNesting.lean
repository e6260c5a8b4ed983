import SearchSql.Proofs.QueryLaying
import SearchSql.Time.Reading

/-!
# Spans are nested

In every statement that a parse gives, also in one repaired after errors, the span of a node runs from
a token to a token and encloses the spans below it, and what stands one behind the other in a node
stands so in the text (`parse_nested`).
-/

set_option autoImplicit false

namespace SearchSql

namespace Grammar

open SearchSql.Grammar.Parser

variable {T : List Token} {s t : State} {here : Token → Prop}
variable (hT : Token.Apart T)

include hT

theorem lays_showTables : Lays T here [] showTables (fun st => [.tree st.spanTree]) :=
  (lays_keyword hT .SHOW).bind fun start => (lays_keyword hT .TABLES).token.bind fun _ =>
    (lays_nameFilter hT).bind fun tables =>
      lays_node hT [] [tables.spanTree] (by simp) fun _ => rfl

theorem lays_describe : Lays T here [] describe (fun st => [.tree st.spanTree]) :=
  (lays_keyword hT .DESCRIBE).bind fun start => (lays_keyword hT .TABLES).token.bind fun _ =>
    (lays_nameFilter hT).bind fun tables => (lays_columnFilter hT).bind fun columns =>
      lays_node hT [] (tables.spanTree :: (columns.map NameFilter.spanTree).toList) (by simp)
        fun _ => rfl

theorem lays_statementRule (fuel : Nat) :
    Lays T here [] (statementRule (derive fuel)) (fun st => [.tree st.spanTree]) := by
  have hcall : AllLay T (derive fuel) := allLay_derive hT fuel
  refine lays_current_bind fun u => ?_
  dsimp only
  split
  · exact (hcall.run .query rfl).bind fun q => lays_pure rfl
  · exact lays_showTables hT
  · exact lays_describe hT
  · exact lays_reject _

theorem lays_optionalStatement (fuel : Nat) :
    Lays T here [] (optionalStatement (derive fuel))
      (fun found => [] ++ (found.map fun st => Piece.tree st.spanTree).toList) := by
  have hmeets (lo hi : Nat) : (moving T lo hi).Meets (statementRule (derive fuel)) :=
    (moving_lawful hT).statementRule fun n => (moving_lawful hT).derive fuel n
  refine lays_current_bind fun u => ?_
  split
  · exact lays_none Statement.spanTree
  · exact lays_none Statement.spanTree
  · exact (lays_statementRule hT fuel).recoverSome hT hmeets

/-- The statement of a run over tokens that stand apart. -/
theorem nested_of_runRoot [Time.Library] {settings : Settings} {st : Statement}
    (hall : (State.ofTokens T settings).cursor.allTokens = T)
    (heq : runRoot T settings = .ok (some st) t) : st.spanTree.Nested T := by
  obtain ⟨found, u, hfound, hrest⟩ := bind_eq_ok_iff.1 heq
  obtain ⟨_, v, -, hrest⟩ := bind_eq_ok_iff.1 hrest
  obtain ⟨_, w, -, hrest⟩ := bind_eq_ok_iff.1 hrest
  obtain ⟨rfl, rfl⟩ := pure_eq_ok_iff.1 hrest
  have hlays : Lays T AnyToken [] _ _ := lays_optionalStatement hT (fuelFor settings)
  have hlaid := hlays _ _ _ _ u (laid_nil hall) trivial hfound
  exact hlaid.row.nested _ (by simp)

end Grammar

open SearchSql.Grammar

/-- Over tokens that stand apart, the spans of a statement are nested. -/
theorem parseTokens_nested [Time.Library] {tokens : List Token} (happart : Token.Apart tokens)
    {last : Token}
    (hlast : tokens.getLast? = some last) (hend : last.isEnd = true) (settings : Settings)
    {st : Statement} (h : (parseTokens tokens settings).statement = some st) :
    st.spanTree.Nested tokens := by
  obtain ⟨t, hrun⟩ := parseTokens_statement_eq_some.1 h
  exact nested_of_runRoot happart (Cursor.allTokens_ofTokens hlast hend) hrun

/-- In whatever statement a parse gives, every span runs from the start of a token to the end of one,
encloses the spans below it, and ends in front of what is written behind it. -/
theorem parse_nested [Time.Library] (text : String) (settings : Settings) {st : Statement}
    (h : (parse text settings).statement = some st) :
    st.spanTree.Nested (Token.tokenize text) :=
  parseTokens_nested (Token.apart_tokenize text) (Token.tokenize_tiles text).1 rfl settings h

/-- A statement whose `WHERE` is left out after an error, with a relevance function whose fields are
written in front of its text. -/
theorem parse_nested_repaired :
    let text := "SELECT a + 1, MULTI_MATCH(fields = [b ^ 2], query = 'c') FROM t WHERE ) LIMIT 1"
    ∃ st, (parse text .standard).statement = some st ∧ st.spanTree.Nested (Token.tokenize text) := by
  intro text
  have hsome : (parse text .standard).statement.isSome = true := by decide +kernel
  obtain ⟨st, hst⟩ := Option.isSome_iff_exists.1 hsome
  exact ⟨st, hst, parse_nested text .standard hst⟩

end SearchSql
