import SearchSql.Proofs.Contract
import SearchSql.Proofs.QueryLikeness

/-!
# Whole parses of token lists that look alike

Where a view keeps apart the places at which diagnostics start (`View.Faithful`), it can be followed
through a whole parse, recovery included: a second token list, which up to the first end of the input
is the first one as seen, gives the statement and the diagnostics of the first one as seen
(`like_rootRule`). Only the patterns of catalogue statements depend on which tokens touch each other,
so they are compared under views that keep this as well (`View.KeepsGaps`).
-/

set_option autoImplicit false

namespace SearchSql

/-- A lawful view that moves the start of each span by a function that keeps places apart. -/
structure View.Faithful (V : View) (place : Nat → Nat) : Prop extends V.Lawful where
  start (s : Span) : (V.span s).start = place s.start
  injective : Function.Injective place

/-- What touches is seen to touch, and nothing else is. -/
def View.KeepsGaps (V : View) : Prop :=
  ∀ s t : Span, (s.stop == t.start) = ((V.span s).stop == (V.span t).start)

/-- The cause as seen. -/
def Cause.view (V : View) : Cause → Cause
  | .unexpected expected found => .unexpected expected (found.view V)
  | .noAlternative construct expected found => .noAlternative construct expected (found.view V)
  | .unknownFunction name found => .unknownFunction (V.word name) (found.view V)
  | .malformed literal reason => .malformed literal reason
  | .noProgress rule => .noProgress rule
  | .tooDeep limit => .tooDeep limit
  | .tooMany limit => .tooMany limit
  | .stated kind message => .stated kind message

/-- The diagnostic as seen. -/
def Diagnostic.view (V : View) (d : Diagnostic) : Diagnostic := ⟨d.cause.view V, V.span d.span⟩

@[simp] theorem Diagnostic.kind_view (V : View) (d : Diagnostic) : (d.view V).kind = d.kind := by
  obtain ⟨cause, span⟩ := d
  cases cause <;> rfl

/-- What is fatal is seen as fatal. -/
@[simp] theorem Diagnostic.isFatal_view (V : View) (d : Diagnostic) :
    (d.view V).isFatal = d.isFatal := congrArg DiagnosticKind.isFatal (d.kind_view V)

namespace Grammar

open SearchSql.Grammar.Parser

variable {α β : Type} {V : View} {place : Nat → Nat}

/-- Runs of which the second reads the tokens of the first as seen, up to the first end of the input,
and has reported what the first has reported, as seen. -/
def looking (V : View) (place : Nat → Nat) : Likeness where
  view := V
  ends kind := kind == .endOfInput
  borders t t' := t' = t.view V
  log s s' := s'.diagnostics = s.diagnostics.map (Diagnostic.view V) ∧
    s'.lastReported = s.lastReported.map place
  refused _ _ _ _ := False

/-- Runs that look alike also where they are refused, so that both may go on from there. -/
def mirroring (V : View) (place : Nat → Nat) : Likeness :=
  { looking V place with
    refused d t d' t' := (looking V place).Linked t t' ∧ d' = d.view V }

open Likeness

/-- Runs that mirror each other look alike. -/
theorem linked_looking {s s' : State} (h : (mirroring V place).Linked s s') :
    (looking V place).Linked s s' :=
  ⟨h.frame, h.border, h.sight, h.position, h.previous, h.log⟩

/-- Runs that look alike mirror each other. -/
theorem linked_mirroring {s s' : State} (h : (looking V place).Linked s s') :
    (mirroring V place).Linked s s' :=
  ⟨h.frame, h.border, h.sight, h.position, h.previous, h.log⟩

/-- Only at the end of the input does the comparison end. -/
theorem endKinds_mirroring : EndKinds (mirroring V place).ends where
  endOfInput := rfl
  eq_or_eq h := .inl (eq_of_beq h)

/-- The tokens at which the comparison ends are seen alike, too. -/
theorem eq_view_of_seen {t t' : Token} (h : (mirroring V place).Seen t t') : t' = t.view V := by
  cases h with
  | inSight _ => rfl
  | atEnd _ _ h => exact h

/-- A matching diagnostic is the diagnostic as seen. -/
theorem eq_view_of_matching {d d' : Diagnostic} (h : (mirroring V place).Matching d d') :
    d' = d.view V := by
  cases h with
  | malformed => rfl
  | unexpected _ h | noAlternative _ _ h | unknownFunction _ h | noProgress _ h | tooDeep _ h =>
    rw [eq_view_of_seen h]
    rfl

/-- What keeps the reports of both runs keeps them matching. -/
theorem log_same {s s' t t' : State} (h : (mirroring V place).log s s') (hs : s.Keeps t)
    (hs' : s'.Keeps t') : (mirroring V place).log t t' := by
  refine ⟨?_, ?_⟩
  · rw [hs.diagnostics, hs'.diagnostics]
    exact h.1
  · rw [hs.lastReported, hs'.lastReported]
    exact h.2

/-- The token under a cursor is the first in sight, or the one at which the comparison ends. -/
theorem current_eq (L : Likeness) (c : Cursor) :
    c.current = (L.sight c).head?.getD (L.border c) := by
  unfold Likeness.sight Likeness.border inSight
  obtain ⟨passed, ahead, closing, hclosing⟩ := c
  cases ahead with
  | nil => rfl
  | cons t ts =>
    cases ht : L.ends t.kind with
    | true => simp [Cursor.current, ht]
    | false => simp [Cursor.current, ht]

/-- The second run has the token of the first in front of it, as seen. -/
theorem current_view {s s' : State} (h : (mirroring V place).Linked s s') :
    s'.cursor.current = s.cursor.current.view V := by
  have hborder : (mirroring V place).border s'.cursor =
      ((mirroring V place).border s.cursor).view V := h.border
  rw [current_eq (mirroring V place), current_eq (mirroring V place) s.cursor, h.sight, hborder]
  cases (mirroring V place).sight s.cursor <;> rfl

/-- Events do not count. -/
theorem linked_noted {s s' : State} (h : (mirroring V place).Linked s s') (e e' : Event) :
    (mirroring V place).Linked { s with events := e :: s.events }
      { s' with events := e' :: s'.events } :=
  ⟨h.frame.same _ _ _ _ _ _ _ _, h.border, h.sight, h.position, h.previous, h.log⟩

section Reporting

variable (hV : V.Faithful place)

include hV

/-- Both may report a diagnostic, the second as seen. -/
theorem linked_reported {s s' : State} (hs : (mirroring V place).Linked s s') (d : Diagnostic) :
    (mirroring V place).Linked (s.reported d) (s'.reported (d.view V)) := by
  refine ⟨hs.frame.same _ _ _ _ _ _ _ _, hs.border, hs.sight, hs.position, hs.previous, ?_, ?_⟩
  · exact congrArg (d.view V :: ·) hs.log.1
  · exact congrArg some (hV.start d.span)

/-- A diagnostic is dropped as a duplicate, added, or one too many in both runs. -/
theorem ends_report {s s' : State} (hs : (mirroring V place).Linked s s') (d : Diagnostic) :
    (mirroring V place).Ends id (report d s) (report (d.view V) s') := by
  obtain ⟨hdiagnostics, hlast⟩ := hs.log
  have hduplicate : s'.lastReported = some (d.view V).span.start ↔
      s.lastReported = some d.span.start := by
    rw [hlast, show (d.view V).span.start = place d.span.start from hV.start d.span]
    cases s.lastReported with
    | none => exact ⟨nofun, nofun⟩
    | some offset => simp [hV.injective.eq_iff]
  have hlimit : s'.settings.maxDiagnostics ≤ s'.diagnostics.length + 1 ↔
      s.settings.maxDiagnostics ≤ s.diagnostics.length + 1 := by
    rw [hdiagnostics, List.length_map, hs.frame.settings]
  have hreported := linked_reported hV hs d
  rw [report_apply, report_apply]
  by_cases hlast : s.lastReported = some d.span.start
  · rw [if_pos hlast, if_pos (hduplicate.2 hlast)]
    exact .ok () (linked_noted hs _ _)
  · rw [if_neg hlast, if_neg (mt hduplicate.1 hlast)]
    by_cases hfull : s.settings.maxDiagnostics ≤ s.diagnostics.length + 1
    · rw [if_pos hfull, if_pos (hlimit.2 hfull)]
      refine .refused ⟨linked_looking hreported, ?_⟩
      rw [current_view hs, hs.frame.settings]
      rfl
    · rw [if_neg hfull, if_neg (mt hlimit.1 hfull)]
      exact .ok () hreported

/-- Mirroring is respected by all parsers. -/
theorem lawful_mirroring : (mirroring V place).Lawful where
  view := hV.toLawful
  ends := endKinds_mirroring
  log_same := log_same
  refused_frame h := h.1.frame
  refused_same {d d' s s' t t'} h hframe hs hs' hcursor hcursor' := by
    obtain ⟨hlinked, hd⟩ := h
    refine ⟨⟨hframe, ?_, ?_, ?_, ?_, log_same (V := V) hlinked.log hs hs'⟩, hd⟩
    · rw [hcursor, hcursor']
      exact hlinked.border
    · rw [hcursor, hcursor', hlinked.sight]
    · rw [hcursor, hcursor', hlinked.position]
    · rw [hcursor, hcursor', hlinked.previous]
  refused_matching hs h := ⟨linked_looking hs, eq_view_of_matching h⟩
  malformedLiteral {s s'} kind text fault span hs := by
    have hreport : (mirroring V place).Ends id
        (reportLiteral (.malformed kind.text fault.message span) s)
        (reportLiteral (.malformed kind.text fault.message (V.span span)) s') := by
      unfold reportLiteral
      rw [get_bind_apply, get_bind_apply, ← hs.frame.settings]
      split
      · exact ends_report hV hs _
      · exact .refused ⟨linked_looking hs, rfl⟩
    unfold malformedLiteral
    rw [bind_apply_andThen, bind_apply_andThen]
    exact hreport.andThen fun _ t t' _ _ ht => .ok (Literal.malformed kind text fault) ht

/-! ## Recovering -/

omit hV in
variable (V place) in
/-- The distance to the next boundary is decided by what is in sight. -/
theorem boundaryDistance_sight (inside : Bool) (opened : Nat) (tokens : List Token) :
    boundaryDistance inside opened (inSight (mirroring V place).ends tokens) =
      boundaryDistance inside opened tokens := by
  induction tokens generalizing opened with
  | nil => rfl
  | cons t ts ih =>
    cases hend : t.isEnd with
    | true =>
      rw [inSight_cons_of_ends ts hend, boundaryDistance, boundaryDistance, hend, Bool.true_or]
      rfl
    | false =>
      rw [inSight_cons ts hend, boundaryDistance, boundaryDistance]
      split
      · rfl
      · exact congrArg (· + 1) (ih _)

omit hV in
/-- The next boundary is as far away in the tokens as seen. -/
theorem boundaryDistance_view (inside : Bool) (opened : Nat) (tokens : List Token) :
    boundaryDistance inside opened (tokens.map (Token.view V)) =
      boundaryDistance inside opened tokens := by
  have hisEnd (t : Token) : (t.view V).isEnd = t.isEnd := by
    obtain ⟨kind, text, span⟩ := t
    cases kind <;> rfl
  have hboundary (t : Token) : isBoundary inside (t.view V).kind = isBoundary inside t.kind := by
    obtain ⟨kind, text, span⟩ := t
    cases kind <;> rfl
  have hopen (opened : Nat) (t : Token) : openAfter opened (t.view V).kind = openAfter opened t.kind := by
    obtain ⟨kind, text, span⟩ := t
    cases kind <;> rfl
  induction tokens generalizing opened with
  | nil => rfl
  | cons t ts ih =>
    rw [List.map_cons, boundaryDistance, boundaryDistance, hisEnd, hboundary, hopen, ih]

omit hV in
/-- It is as far away for both runs. -/
theorem boundaryDistance_linked {s s' : State} (hs : (mirroring V place).Linked s s') :
    boundaryDistance (0 < s'.subqueries) 0 s'.cursor.ahead =
      boundaryDistance (0 < s.subqueries) 0 s.cursor.ahead := by
  rw [← boundaryDistance_sight V place,
    ← boundaryDistance_sight V place _ _ s.cursor.ahead,
    show inSight (mirroring V place).ends s'.cursor.ahead = _ from hs.sight, boundaryDistance_view,
    hs.frame.subqueries]
  rfl

/-- Both runs move on to the same boundary. -/
theorem like_synchronize : (mirroring V place).Like false id synchronize synchronize := by
  intro s s' hs _
  have hle : boundaryDistance (0 < s.subqueries) 0 s.cursor.ahead ≤
      ((mirroring V place).sight s.cursor).length := by
    rw [← boundaryDistance_sight V place]
    exact boundaryDistance_le_length _ _ _
  have hskip := hs.skip (lawful_mirroring hV) hle
  unfold synchronize
  rw [get_bind_apply, get_bind_apply, boundaryDistance_linked hs, skip_bind_apply, skip_bind_apply,
    current_bind_apply, current_bind_apply]
  exact .ok () (linked_noted hskip _ _)

/-- Where one run passes over a failure, so does the other. -/
theorem ends_passOver {s s' : State} (hs : (mirroring V place).Linked s s') (d : Diagnostic) :
    (mirroring V place).Ends id (passOver d s) (passOver (d.view V) s') := by
  have hrecovering : s'.isRecovering = s.isRecovering := by
    unfold State.isRecovering
    rw [hs.frame.settings, hs.frame.attempts]
  unfold passOver
  rw [get_bind_apply, get_bind_apply, hrecovering, d.isFatal_view]
  split
  · rw [bind_apply_andThen, bind_apply_andThen]
    exact (ends_report hV hs d).andThen fun _ t t' _ _ ht => like_synchronize hV t t' ht nofun
  · exact .refused ⟨linked_looking hs, rfl⟩

/-- Mirroring is respected by queries. -/
theorem queryLawful_mirroring : (mirroring V place).QueryLawful where
  toLawful := lawful_mirroring hV
  recover {α β front f p q} _ _ h := by
    intro s s' hs hfront
    have hends := h s s' hs hfront
    unfold Parser.recover
    generalize p s = r at hends
    generalize q s' = r' at hends
    cases hends with
    | ok a ht => exact .ok (some a) ht
    | exhausted => exact .exhausted
    | @refused d d' t t' hrefused =>
      obtain ⟨ht, rfl⟩ := hrefused
      show (mirroring V place).Ends _ ((passOver d >>= fun _ => pure none) t)
        ((passOver (d.view V) >>= fun _ => pure none) t')
      rw [bind_apply_andThen, bind_apply_andThen]
      exact (ends_passOver hV (linked_mirroring ht) d).andThen fun _ u u' _ _ hu => .ok none hu
  clauseEnd := by
    intro s s' hs _
    have hboundary : s'.atBoundary = s.atBoundary := by
      unfold State.atBoundary
      rw [hs.frame.subqueries, current_view hs]
      exact isBoundary_view _ _
    unfold clauseEnd
    rw [get_bind_apply, get_bind_apply, hboundary]
    split
    · rw [current_bind_apply, current_bind_apply, current_view hs]
      exact ends_passOver hV hs _
    · exact .ok () hs

/-- If gaps are seen as such, mirroring is respected by statements. -/
theorem statementLawful_mirroring (hgaps : V.KeepsGaps) :
    (mirroring V place).StatementLawful where
  toQueryLawful := queryLawful_mirroring hV
  adjacent := hgaps

/-! ## The whole input -/

/-- The cursor stops behind everything in sight. -/
theorem skip_sight {c : Cursor} {n : Nat} (h : ((mirroring V place).sight c).length ≤ n) :
    c.skip n = c.skip ((mirroring V place).sight c).length := by
  have hL : (mirroring V place).Lawful := lawful_mirroring hV
  induction n generalizing c with
  | zero => rw [Nat.le_zero.1 h]
  | succ n ih =>
    cases hend : (mirroring V place).ends c.current.kind with
    | true =>
      have hnil : (mirroring V place).sight c = [] := (sight_eq_nil_iff hL c).2 hend
      rw [Cursor.skip, Cursor.advance_of_isEnd hend]
      exact ih (by rw [hnil]; exact Nat.zero_le n)
    | false =>
      rw [sight_cons hL hend] at h ⊢
      exact ih (Nat.le_of_succ_le_succ h)

/-- Both runs have come to their end or pass over the same tokens. -/
theorem ends_inputEnd {s s' : State} (hs : (mirroring V place).Linked s s') :
    (mirroring V place).Ends id (inputEnd s) (inputEnd s') := by
  have hisEnd : s'.cursor.current.isEnd = s.cursor.current.isEnd := by
    rw [current_view hs]
    obtain ⟨kind, text, span⟩ := s.cursor.current
    cases kind <;> rfl
  have hrecovering : s'.isRecovering = s.isRecovering := by
    unfold State.isRecovering
    rw [hs.frame.settings, hs.frame.attempts]
  unfold inputEnd
  rw [current_bind_apply, current_bind_apply, hisEnd]
  split
  · rw [get_bind_apply, get_bind_apply, hrecovering, current_view hs]
    split
    · rw [bind_apply_andThen, bind_apply_andThen]
      refine (ends_report hV hs (.unexpected "end of input" s.cursor.current)).andThen
        fun _ t t' _ _ ht => ?_
      -- What is left is skipped, which moves both cursors to the end of what is in sight.
      have hskip := ht.skip (lawful_mirroring hV) (Nat.le_refl _)
      have hleft : t.cursor.skip t.cursor.ahead.length = (t.skip _).cursor :=
        skip_sight hV (List.takeWhile_prefix _).length_le
      have hright : t'.cursor.skip t'.cursor.ahead.length =
          (t'.skip ((mirroring V place).sight t.cursor).length).cursor := by
        refine (skip_sight hV (List.takeWhile_prefix _).length_le).trans ?_
        rw [ht.sight, List.length_map]
        rfl
      show (mirroring V place).Ends id
        (.ok () { t with
          cursor := t.cursor.skip t.cursor.ahead.length, events := .trailingSkipped :: t.events })
        (.ok () { t' with
          cursor := t'.cursor.skip t'.cursor.ahead.length
          events := .trailingSkipped :: t'.events })
      rw [hleft, hright]
      exact .ok () (linked_noted hskip _ _)
    · exact .refused ⟨linked_looking hs, rfl⟩
  · exact .ok () hs

/-- Two runs of the whole input end alike if those of the statement do. -/
theorem ends_rootRule {c d : Callee} {s s' : State}
    (h : (mirroring V place).Ends (Option.map (Statement.view V)) (optionalStatement c s)
      (optionalStatement d s')) :
    (mirroring V place).Ends (Option.map (Statement.view V)) (rootRule c s) (rootRule d s') := by
  unfold rootRule
  rw [bind_apply_andThen, bind_apply_andThen]
  refine h.andThen fun statement t t' _ _ ht => ?_
  have hclose {u u' : State} (hu : (mirroring V place).Linked u u') :
      (mirroring V place).Ends (Option.map (Statement.view V))
        ((inputEnd >>= fun _ => pure statement : Parser _) u)
        ((inputEnd >>= fun _ => pure (statement.map (Statement.view V)) : Parser _) u') := by
    rw [bind_apply_andThen, bind_apply_andThen]
    exact (ends_inputEnd hV hu).andThen fun _ v v' _ _ hv => .ok statement hv
  have hkind : t'.cursor.current.kind = .symbol .semicolon ↔
      t.cursor.current.kind = .symbol .semicolon := by
    rw [current_view ht]
    exact TokenKind.view_eq_symbol_iff _ _
  rw [takeSymbol_bind_apply, takeSymbol_bind_apply]
  by_cases hsemicolon : t.cursor.current.kind = .symbol .semicolon
  · rw [if_pos hsemicolon, if_pos (hkind.2 hsemicolon)]
    exact hclose (ht.skip_one (lawful_mirroring hV) (by rw [hsemicolon]; rfl))
  · rw [if_neg hsemicolon, if_neg (mt hkind.1 hsemicolon)]
    exact hclose ht

/-- A query is compared under every faithful view. -/
theorem ends_optionalStatement_of_select {s s' : State} (hs : (mirroring V place).Linked s s')
    (hselect : s.cursor.current.kind = .keyword .SELECT) (fuel : Nat) :
    (mirroring V place).Ends (Option.map (Statement.view V)) (optionalStatement (derive fuel) s)
      (optionalStatement (derive fuel) s') := by
  have hQ : (mirroring V place).QueryLawful := queryLawful_mirroring hV
  have hstatement : (mirroring V place).Like false (Statement.view V)
      (Statement.select <$> derive fuel .query) (Statement.select <$> derive fuel .query) :=
    (show (mirroring V place).Like false (Query.view V) _ _ from like_derive hQ fuel .query).map
      fun _ => rfl
  have hsteady : Steady (Statement.select <$> derive fuel .query) :=
    (steady_derive fuel .query).bind fun _ => steady_pure _
  have hrun (c : Callee) {u : State} (hu : u.cursor.current.kind = .keyword .SELECT) :
      optionalStatement c u = recover (Statement.select <$> c .query) u := by
    have hrule : statementRule c u = (Statement.select <$> c .query) u := by
      unfold statementRule
      rw [current_bind_apply, hu]
      rfl
    have hrecover : recover (statementRule c) u = recover (Statement.select <$> c .query) u := by
      unfold Parser.recover
      rw [hrule]
    unfold optionalStatement
    rw [current_bind_apply, hu]
    exact hrecover
  have hselect' : s'.cursor.current.kind = .keyword .SELECT := by
    rw [current_view hs]
    exact (TokenKind.view_eq_keyword_iff _ _).2 hselect
  rw [hrun _ hselect, hrun _ hselect']
  exact hQ.recover hsteady hsteady hstatement s s' hs nofun

/-- Both runs find a statement, the same as seen, or none. -/
theorem ends_optionalStatement (hgaps : V.KeepsGaps) {s s' : State}
    (hs : (mirroring V place).Linked s s') (fuel : Nat) :
    (mirroring V place).Ends (Option.map (Statement.view V)) (optionalStatement (derive fuel) s)
      (optionalStatement (derive fuel) s') :=
  have hsteady : Steady (statementRule (derive fuel)) := steady_statementRule (steady_derive fuel _)
  have hcallees : LikeCallees (mirroring V place) (derive fuel) (derive fuel) :=
    ⟨steady_derive fuel, steady_derive fuel, like_derive (queryLawful_mirroring hV) fuel⟩
  have hlike : (mirroring V place).Like false (Option.map (Statement.view V))
      (optionalStatement (derive fuel)) (optionalStatement (derive fuel)) :=
    like_optionalStatement (statementLawful_mirroring hV hgaps) hcallees hsteady hsteady
  hlike s s' hs nofun

end Reporting

/-! ## Token lists -/

variable {front : List Token} {e : Token}

/-- At the start, nothing has been passed. -/
theorem passed_ofTokens (tokens : List Token) : (Cursor.ofTokens tokens).passed = [] := by
  unfold Cursor.ofTokens
  split
  · rfl
  · split <;> rfl

/-- A token list with an end of the input in it is cut behind the last token if that ends the input,
too. -/
theorem ahead_ofTokens (front rest : List Token) (he : e.isEnd = true) :
    (∃ tail, (Cursor.ofTokens (front ++ e :: rest)).ahead = front ++ e :: tail) ∨
      ((Cursor.ofTokens (front ++ e :: rest)).ahead = front ∧
        (Cursor.ofTokens (front ++ e :: rest)).closing = e) := by
  rcases List.eq_nil_or_concat rest with rfl | ⟨tail, last, hrest⟩
  · refine .inr ?_
    simp [Cursor.ofTokens, he]
  · refine .inl ?_
    have hlast : front ++ e :: rest = (front ++ e :: tail) ++ [last] := by simp [hrest]
    rw [hlast]
    unfold Cursor.ofTokens
    rw [List.getLast?_concat]
    dsimp only
    split
    · exact ⟨tail, List.dropLast_concat⟩
    · exact ⟨tail ++ [last], by simp⟩

/-- Up to its first end of the input a token list is in sight. -/
theorem sight_ofTokens (V : View) (place : Nat → Nat) (hfront : ∀ t ∈ front, t.isEnd = false)
    (he : e.isEnd = true) (rest : List Token) :
    (mirroring V place).sight (Cursor.ofTokens (front ++ e :: rest)) = front ∧
      (mirroring V place).border (Cursor.ofTokens (front ++ e :: rest)) = e := by
  have hnot : ∀ t ∈ front, (!(mirroring V place).ends t.kind) = true := fun t ht =>
    congrArg (!·) (hfront t ht)
  have hends : (mirroring V place).ends e.kind = true := he
  have hnone : front.find? (fun t => (mirroring V place).ends t.kind) = none :=
    List.find?_eq_none.2 fun t ht => by
      rw [show (mirroring V place).ends t.kind = false from hfront t ht]
      nofun
  unfold Likeness.sight Likeness.border inSight
  rcases ahead_ofTokens front rest he with ⟨tail, htail⟩ | ⟨hahead, hclosing⟩
  · rw [htail, List.takeWhile_append_of_pos hnot, List.find?_append, hnone]
    simp [hends]
  · have hfull : (front ++ []).takeWhile (fun t => !(mirroring V place).ends t.kind) =
        front ++ [].takeWhile fun t => !(mirroring V place).ends t.kind :=
      List.takeWhile_append_of_pos hnot
    rw [hahead, hclosing, hnone]
    exact ⟨by simpa using hfull, rfl⟩

/-- The end of the input is seen as such. -/
theorem Token.isEnd_view (t : Token) : (t.view V).isEnd = t.isEnd := by
  obtain ⟨kind, text, span⟩ := t
  cases kind <;> rfl

/-- Where a token list starts, the last token passed counts as an empty one. -/
theorem previousSpan_ofTokens (L : Likeness) (tokens : List Token) :
    (Cursor.ofTokens tokens).previousSpan =
      .point ((L.sight (Cursor.ofTokens tokens)).head?.getD
        (L.border (Cursor.ofTokens tokens))).span.start := by
  unfold Cursor.previousSpan
  rw [passed_ofTokens, ← current_eq]

/-- The tokens up to the first end of the input are compared with the same tokens as seen. -/
theorem linked_ofTokens_view [Time.Library] (hV : V.Faithful place)
    (hpoint : V.span (.point (front.head?.getD e).span.start) =
      .point (place (front.head?.getD e).span.start))
    (hfront : ∀ t ∈ front, t.isEnd = false) (he : e.isEnd = true) (rest rest' : List Token)
    (settings : Settings) :
    (mirroring V place).Linked (State.ofTokens (front ++ e :: rest) settings)
      (State.ofTokens (front.map (Token.view V) ++ e.view V :: rest') settings) := by
  have hfront' : ∀ t ∈ front.map (Token.view V), t.isEnd = false := by
    intro t ht
    obtain ⟨u, hu, rfl⟩ := List.mem_map.1 ht
    exact (Token.isEnd_view u).trans (hfront u hu)
  obtain ⟨hsight, hborder⟩ := sight_ofTokens V place hfront he rest
  obtain ⟨hsight', hborder'⟩ := sight_ofTokens V place hfront' ((Token.isEnd_view e).trans he) rest'
  refine ⟨⟨rfl, rfl, rfl, rfl, rfl, rfl⟩, ?_, ?_, ?_, ?_, rfl, rfl⟩
  · show (mirroring V place).border (Cursor.ofTokens _) =
      ((mirroring V place).border (Cursor.ofTokens _)).view V
    rw [hborder, hborder']
  · show (mirroring V place).sight (Cursor.ofTokens _) =
      ((mirroring V place).sight (Cursor.ofTokens _)).map (Token.view V)
    rw [hsight, hsight']
  · show (Cursor.ofTokens _).passed.length = (Cursor.ofTokens _).passed.length
    rw [passed_ofTokens, passed_ofTokens]
  · show (Cursor.ofTokens _).previousSpan = V.span (Cursor.ofTokens _).previousSpan
    rw [previousSpan_ofTokens (mirroring V place), previousSpan_ofTokens (mirroring V place),
      hsight, hborder, hsight', hborder', hpoint]
    refine congrArg Span.point ?_
    cases front with
    | nil => exact hV.start e.span
    | cons t ts => exact hV.start t.span

/-- Two runs of the whole input end alike if the statement is a query, or if the view shows what
touches. -/
theorem ends_runRoot [Time.Library] (hV : V.Faithful place)
    (hpoint : V.span (.point (front.head?.getD e).span.start) =
      .point (place (front.head?.getD e).span.start))
    (hfront : ∀ t ∈ front, t.isEnd = false) (he : e.isEnd = true) (rest rest' : List Token)
    (settings : Settings) (h : V.KeepsGaps ∨ (front.head?.getD e).kind = .keyword .SELECT) :
    (mirroring V place).Ends (Option.map (Statement.view V))
      (runRoot (front ++ e :: rest) settings)
      (runRoot (front.map (Token.view V) ++ e.view V :: rest') settings) := by
  have hs := linked_ofTokens_view hV hpoint hfront he rest rest' settings
  refine ends_rootRule hV ?_
  rcases h with hgaps | hselect
  · exact ends_optionalStatement hV hgaps hs _
  · refine ends_optionalStatement_of_select hV hs ?_ _
    obtain ⟨hsight, hborder⟩ := sight_ofTokens V place hfront he rest
    show (Cursor.ofTokens (front ++ e :: rest)).current.kind = _
    rw [current_eq (mirroring V place), hsight, hborder]
    exact hselect

end Grammar

/-- The outcome is the other one as seen; the events of both are not compared. -/
structure Outcome.SeenAs (V : View) (o o' : Outcome) : Prop where
  statement : o'.statement = o.statement.map (Statement.view V)
  diagnostics : o'.diagnostics = o.diagnostics.map (Diagnostic.view V)
  aborted : o'.aborted = o.aborted

open Grammar

variable {V : View} {place : Nat → Nat}

/-- Runs that mirror each other have outcomes of which the second is the first as seen. -/
theorem Grammar.seenAs_outcome {r r' : Run (Option Statement)}
    (h : (mirroring V place).Ends (Option.map (Statement.view V)) r r')
    (hfuel : ∀ t, r ≠ .error .outOfFuel t) : (outcome r).SeenAs V (outcome r') := by
  cases h with
  | ok statement ht =>
    refine ⟨rfl, ?_, rfl⟩
    show List.reverse _ = (List.reverse _).map _
    rw [ht.log.1, List.map_reverse]
  | refused h =>
    obtain ⟨ht, rfl⟩ := h
    refine ⟨rfl, ?_, rfl⟩
    show (_ :: _).reverse = (_ :: _).reverse.map _
    rw [ht.log.1, List.map_reverse]
    rfl
  | exhausted => exact absurd rfl (hfuel _)

/-- Up to its first end of the input a token list decides what a parse gives, and the same tokens as
seen give the same as seen. -/
theorem parseTokens_seenAs [Time.Library] (hV : V.Faithful place) {front rest rest' : List Token}
    {e : Token} (hpoint : V.span (.point (front.head?.getD e).span.start) =
      .point (place (front.head?.getD e).span.start))
    (hfront : ∀ t ∈ front, t.isEnd = false) (he : e.isEnd = true) (settings : Settings)
    (h : V.KeepsGaps ∨ (front.head?.getD e).kind = .keyword .SELECT) :
    (parseTokens (front ++ e :: rest) settings).SeenAs V
      (parseTokens (front.map (Token.view V) ++ e.view V :: rest') settings) :=
  seenAs_outcome (ends_runRoot hV hpoint hfront he rest rest' settings h) (runRoot_ne_outOfFuel _ settings)

end SearchSql
