import SearchSql.Proofs.Mirroring
import SearchSql.Time.Reading

/-!
# The end of the input

A token list may hold several tokens that end the input. A parse never moves past the first of them,
and although it looks ahead it tests the tokens there from the left to the right, so that nothing
behind the first end counts (`parseTokens_up_to_end`). This is a parse compared with itself under the
view that changes nothing.
-/

set_option autoImplicit false

namespace SearchSql

theorem faithful_viewId : View.id.Faithful id where
  merge _ _ := rfl
  bare _ _ := rfl
  quoted _ _ := rfl
  upper _ := rfl
  dot _ := rfl
  minus _ := rfl
  join words := by simp only [View.id, List.map_id']
  readSigned _ := rfl
  readUnsigned _ := rfl
  readReal _ := rfl
  start _ := rfl
  injective := Function.injective_id

theorem keepsGaps_viewId : View.id.KeepsGaps := fun _ _ => rfl

theorem Token.view_id (t : Token) : t.view .id = t := by
  obtain ⟨kind, text, span⟩ := t
  cases kind <;> rfl

theorem Diagnostic.view_id (d : Diagnostic) : d.view .id = d := by
  have hkind (k : TokenKind) : k.view .id = k := by cases k <;> rfl
  obtain ⟨cause, span⟩ := d
  cases cause with
  | unexpected | noAlternative | unknownFunction => simp only [view, Cause.view, hkind]; rfl
  | _ => rfl

namespace Grammar

variable {front rest rest' : List Token} {e : Token}

/-- The runs of two token lists that agree up to their first end of the input are linked. -/
theorem ends_same_front [Time.Library] (hfront : ∀ t ∈ front, t.isEnd = false) (he : e.isEnd = true)
    (settings : Settings) :
    (mirroring .id id).Ends (Option.map (Statement.view .id)) (runRoot (front ++ e :: rest) settings)
      (runRoot (front ++ e :: rest') settings) := by
  have hview : front.map (Token.view .id) = front := by
    rw [show (Token.view .id : Token → Token) = id from funext Token.view_id, List.map_id]
  have hends := ends_runRoot faithful_viewId rfl hfront he rest rest' settings
    (.inl keepsGaps_viewId)
  rw [hview, Token.view_id] at hends
  exact hends

/-- A list with its first end of the input at place `i` falls into what is in front of this end, the
end, and what is behind it. -/
theorem split_at_end {tokens : List Token} {i : Nat} (hend : tokens[i]? = some e)
    (hfirst : ∀ j < i, ∀ t, tokens[j]? = some t → t.isEnd = false) :
    tokens = tokens.take i ++ e :: tokens.drop (i + 1) ∧ ∀ t ∈ tokens.take i, t.isEnd = false := by
  obtain ⟨hlt, rfl⟩ := List.getElem?_eq_some_iff.1 hend
  refine ⟨?_, fun t ht => ?_⟩
  · rw [← List.drop_eq_getElem_cons, List.take_append_drop]
  · obtain ⟨j, hj, rfl⟩ := List.mem_take_iff_getElem.1 ht
    exact hfirst j (by omega) _ (List.getElem?_eq_getElem _)

end Grammar

namespace Grammar

/-- Runs that end alike under the view that changes nothing give the same to the parse that stops at
the first error. -/
theorem parseTokensStrict_eq_of_ends [Time.Library] {tokens tokens' : List Token}
    {settings : Settings} (h : (mirroring .id id).Ends (Option.map (Statement.view .id))
      (runRoot tokens { settings with recover := false })
      (runRoot tokens' { settings with recover := false })) :
    parseTokensStrict tokens' settings = parseTokensStrict tokens settings := by
  unfold parseTokensStrict
  generalize runRoot tokens { settings with recover := false } = r at h
  generalize runRoot tokens' { settings with recover := false } = r' at h
  cases h with
  | ok statement ht =>
    cases statement with
    | none =>
      show Except.error (Failure.rejected (.unexpected "statement" _)) = _
      rw [current_view ht, Token.view_id]
    | some statement => exact congrArg Except.ok statement.view_id
  | refused h =>
    obtain ⟨ht, rfl⟩ := h
    exact congrArg (fun d => Except.error (Failure.rejected d)) (Diagnostic.view_id _)
  | exhausted => rfl

end Grammar

open Grammar

/-- Nothing behind the first end of the input matters: token lists that agree up to it are parsed
alike, with recovery and without. -/
theorem parseTokens_up_to_end [Time.Library] {tokens tokens' : List Token} {i : Nat} {e : Token}
    (hend : tokens[i]? = some e) (he : e.isEnd = true)
    (hfirst : ∀ j < i, ∀ t, tokens[j]? = some t → t.isEnd = false)
    (hagree : tokens'.take (i + 1) = tokens.take (i + 1)) (settings : Settings) :
    (parseTokens tokens' settings).statement = (parseTokens tokens settings).statement ∧
      (parseTokens tokens' settings).diagnostics = (parseTokens tokens settings).diagnostics ∧
      (parseTokens tokens' settings).aborted = (parseTokens tokens settings).aborted ∧
      parseTokensStrict tokens' settings = parseTokensStrict tokens settings := by
  -- Behind the first end of the input neither list is looked at, so both parses are those of the
  -- front.
  obtain ⟨hsplit, hfront⟩ := split_at_end hend hfirst
  have hend' : tokens'[i]? = some e := by
    have hget := congrArg (·[i]?) hagree
    simpa [List.getElem?_take, hend] using hget
  have hfirst' : ∀ j < i, ∀ t, tokens'[j]? = some t → t.isEnd = false := by
    intro j hj t ht
    have hget := congrArg (·[j]?) hagree
    simp only [List.getElem?_take, show j < i + 1 by omega, if_true] at hget
    exact hfirst j hj t (hget ▸ ht)
  have hsplit' := (split_at_end hend' hfirst').1
  have htake : tokens'.take i = tokens.take i := by
    have htake := congrArg (List.take i) hagree
    simpa [List.take_take] using htake
  rw [htake] at hsplit'
  have hends (settings : Settings) : (mirroring .id id).Ends (Option.map (Statement.view .id))
      (runRoot tokens settings) (runRoot tokens' settings) := by
    rw [hsplit, hsplit']
    exact ends_same_front hfront he settings
  have hseen := seenAs_outcome (hends settings) (runRoot_ne_outOfFuel _ settings)
  refine ⟨?_, ?_, hseen.aborted, parseTokensStrict_eq_of_ends (hends _)⟩
  · refine hseen.statement.trans ?_
    rw [show (Statement.view .id : Statement → Statement) = id from funext Statement.view_id,
      Option.map_id]
    rfl
  · refine hseen.diagnostics.trans ?_
    rw [show (Diagnostic.view .id : Diagnostic → Diagnostic) = id from funext Diagnostic.view_id,
      List.map_id]
    rfl

/-- Behind the end of `SELECT a`, the tokens that would make `a` the field of a relevance function do
not matter. -/
theorem parseTokens_up_to_end_field :
    let tokens : List Token :=
      [⟨.keyword .SELECT, "SELECT", ⟨0, 6⟩⟩, ⟨.name "a", "a", ⟨7, 8⟩⟩, .endOfInput 8]
    let tokens' : List Token := tokens ++
      [⟨.symbol .eq, "=", ⟨9, 10⟩⟩, ⟨.name "match_query", "match_query", ⟨11, 22⟩⟩,
        ⟨.symbol .leftParen, "(", ⟨22, 23⟩⟩]
    (parseTokens tokens' .standard).statement = (parseTokens tokens .standard).statement ∧
      (parseTokens tokens' .standard).diagnostics = (parseTokens tokens .standard).diagnostics ∧
      (parseTokens tokens' .standard).aborted = (parseTokens tokens .standard).aborted ∧
      parseTokensStrict tokens' .standard = parseTokensStrict tokens .standard := by
  intro tokens tokens'
  have hfirst : ∀ j < 2, ∀ t, tokens[j]? = some t → t.isEnd = false := by
    intro j hj t ht
    match j, hj with
    | 0, _ => exact (Option.some.inj ht) ▸ rfl
    | 1, _ => exact (Option.some.inj ht) ▸ rfl
  exact parseTokens_up_to_end (i := 2) (e := .endOfInput 8) rfl rfl hfirst rfl .standard

end SearchSql
