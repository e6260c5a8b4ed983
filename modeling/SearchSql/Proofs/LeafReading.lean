import SearchSql.Proofs.Reading

/-!
# What parsers without rules read

Names, numbers, dates, options and the like: each parser reads the outline of what it builds.
-/

set_option autoImplicit false

namespace SearchSql

namespace Span

/-- A span contains itself. -/
theorem contains_self (span : Span) : span.contains span = true := by simp [contains]

/-- A span contains what its first part does. -/
theorem contains_merge_left {s t : Span} (u : Span) (h : s.contains t = true) :
    (s.merge u).contains t = true := by
  simp only [contains, Bool.and_eq_true, decide_eq_true_eq] at h ⊢
  exact ⟨Nat.le_trans (Nat.min_le_left _ _) h.1, Nat.le_trans h.2 (Nat.le_max_left _ _)⟩

/-- A span contains what its second part does. -/
theorem contains_merge_right {s t : Span} (u : Span) (h : s.contains t = true) :
    (u.merge s).contains t = true := by
  rw [merge_comm]
  exact contains_merge_left u h

end Span

/-! ## Identifiers -/

namespace Ident

/-- What is written for a bare identifier is scanned as a name. -/
theorem isName_of_isBare {name : Ident} (h : name.isBare = true) :
    Token.IsName (String.ofList (body name.value.toList)) := by
  simp only [isBare, Bool.and_eq_true, Option.isNone_iff_eq_none] at h
  exact ⟨by rw [String.toList_ofList]; exact h.1.1, h.1.2⟩

/-- Without a dot in front the whole identifier is its body. -/
theorem body_of_head {cs : List Char} (h : cs.head? ≠ some '.') : body cs = cs := by
  unfold body
  split
  · exact absurd rfl h
  · rfl

/-- Without a dot in front an identifier is a single mark. -/
theorem outline_of_head {name : Ident} (h : name.value.toList.head? ≠ some '.') :
    name.outline = [.remark (.ident name), .mark (.name name.value name.isBare)] := by
  unfold outline
  cases name.isBare with
  | false => rfl
  | true =>
    rw [if_pos rfl]
    split
    · next heq => exact absurd (congrArg List.head? heq) h
    · rfl

/-- A bare identifier with a dot in front is the dot and the name behind it. -/
theorem outline_of_dot {name : Ident} {value : String} (h : name.value = "." ++ value)
    (hbare : name.isBare = true) :
    name.outline = [.remark (.ident name), .symbol .dot, .mark (.name value true)] := by
  have hchars : name.value.toList = '.' :: value.toList := by
    rw [h, String.toList_append]
    rfl
  unfold outline
  rw [if_pos hbare, hchars]
  simp

/-- An identifier that is not empty can be read back. -/
theorem legible_outline {name : Ident} (h : name.value ≠ "") : Legible name.outline := by
  unfold outline
  refine legible_cons.2 ⟨trivial, ?_⟩
  cases hbare : name.isBare with
  | false => exact legible_cons.2 ⟨h, nofun⟩
  | true =>
    have hname := isName_of_isBare hbare
    rw [if_pos rfl]
    split
    · next heq =>
      rw [heq] at hname
      exact legible_cons.2 ⟨trivial, legible_cons.2 ⟨hname, nofun⟩⟩
    · next hdot =>
      have hhead : name.value.toList.head? ≠ some '.' := by
        intro heq
        cases hchars : name.value.toList with
        | nil =>
          rw [hchars] at heq
          cases heq
        | cons c cs =>
          rw [hchars] at heq
          obtain rfl := Option.some.inj heq
          exact hdot cs hchars
      rw [body_of_head hhead, String.ofList_toList] at hname
      exact legible_cons.2 ⟨hname, nofun⟩

/-- No identifier that can be read back is empty. -/
theorem value_ne_empty {name : Ident} (h : Legible name.outline) : name.value ≠ "" := by
  intro hempty
  have hbare : name.isBare = false := by
    unfold isBare
    rw [hempty]
    rfl
  unfold outline at h
  rw [hbare, if_neg Bool.false_ne_true] at h
  exact (legible_cons.1 (legible_cons.1 h).2).1 hempty

end Ident

/-- The bare form of a name starts with no dot. -/
theorem head_of_isBareForm {value : String} (h : Ident.isBareForm value.toList = true) :
    value.toList.head? ≠ some '.' := by
  intro heq
  cases hchars : value.toList with
  | nil =>
    rw [hchars] at heq
    cases heq
  | cons c cs =>
    rw [hchars] at heq h
    obtain rfl := Option.some.inj heq
    simp only [Ident.isBareForm, Bool.and_eq_true] at h
    exact absurd h.1 (by decide)

/-- The bare form of a name is not empty. -/
theorem ne_empty_of_isBareForm {value : String} (h : Ident.isBareForm value.toList = true) :
    value ≠ "" := by
  rintro rfl
  cases h

namespace Grammar

open SearchSql.Grammar.Parser

variable {α β : Type} {T : List Token} {s t : State} {here : Token → Prop} {before : List Item}

/-- A token that stands for a name is not the end of the input. -/
theorem isEnd_of_name {library : Time.Library} {value : String} {bare : Bool} {u : Token}
    (h : (Mark.name value bare).Denotes library u) : u.isEnd = false := by
  refine isEnd_eq_false fun hkind => ?_
  obtain hname | hquoted | ⟨word, hword, -⟩ := h
  · exact absurd (hkind.symm.trans hname) nofun
  · exact absurd (hkind.symm.trans hquoted) nofun
  · exact absurd (hkind.symm.trans hword) nofun

/-- An identifier is a single token, or a dot and a bare name. -/
theorem ident_eq_ok {name : Ident} (h : ident s = .ok name t) :
    (t = s.skip 1 ∧ name.span = s.cursor.current.span ∧
        (Mark.name name.value name.isBare).Denotes s.library s.cursor.current) ∨
      ∃ value, s.cursor.current.kind = .symbol .dot ∧ (s.cursor.peek 1).kind = .name value ∧
        name = ⟨"." ++ value, false, s.cursor.current.span.merge (s.skip 1).cursor.current.span⟩ ∧
        t = (s.skip 1).skip 1 := by
  unfold ident at h
  rw [current_bind_apply] at h
  -- The rule branches on the kind of the token, and behind a dot on the kind of the next one.
  cases htoken : s.cursor.current with
  | mk kind text span =>
    rw [htoken] at h
    have hspan : s.cursor.current.span = span := congrArg Token.span htoken
    cases kind with
    | name value =>
      dsimp only at h
      rw [take_bind_apply] at h
      obtain ⟨rfl, rfl⟩ := pure_eq_ok_iff.1 h
      exact .inl ⟨rfl, hspan, .inl rfl⟩
    | quotedName value =>
      dsimp only at h
      rw [take_bind_apply] at h
      obtain ⟨rfl, rfl⟩ := pure_eq_ok_iff.1 h
      exact .inl ⟨rfl, hspan, .inr (.inl rfl)⟩
    | keyword word =>
      dsimp only at h
      split at h
      · next hlike =>
        rw [take_bind_apply] at h
        obtain ⟨rfl, rfl⟩ := pure_eq_ok_iff.1 h
        exact .inl ⟨rfl, hspan, .inr (.inr ⟨word, rfl, hlike, rfl⟩)⟩
      · exact absurd h rejectCurrent_ne_ok
    | symbol sign =>
      cases sign with
      | dot =>
        dsimp only at h
        rw [peek_bind_apply] at h
        cases hnext : s.cursor.peek 1 with
        | mk kind' text' span' =>
          rw [hnext] at h
          cases kind' with
          | name value =>
            dsimp only at h
            rw [take_bind_apply, take_bind_apply] at h
            obtain ⟨rfl, rfl⟩ := pure_eq_ok_iff.1 h
            exact .inr ⟨value, rfl, rfl, by rw [hspan], rfl⟩
          | _ => exact absurd h rejectCurrent_ne_ok
      | _ => exact absurd h rejectCurrent_ne_ok
    | _ => exact absurd h rejectCurrent_ne_ok

/-- An identifier reaches to the end of the token taken last. -/
theorem ident_contains_last {name : Ident} (h : ident s = .ok name t) :
    name.span.contains t.cursor.previousSpan = true := by
  obtain ⟨rfl, hspan, hdenotes⟩ | ⟨value, hdot, hname, rfl, rfl⟩ := ident_eq_ok h
  · rw [State.skip_cursor, Cursor.previousSpan_skip_one (isEnd_of_name hdenotes), hspan]
    exact Span.contains_self _
  · have hpeek := Cursor.current_skip_one (isEnd_of_symbol hdot)
    have hsecond : (s.skip 1).cursor.current.isEnd = false :=
      isEnd_eq_false (by rw [State.skip_cursor, hpeek, hname]; nofun)
    rw [show ((s.skip 1).skip 1).cursor.previousSpan = (s.skip 1).cursor.current.span from
      Cursor.previousSpan_skip_one hsecond]
    exact Span.contains_merge_right _ (Span.contains_self _)

/-- The outline of the segments of a name. -/
def partsOutline (parts : List Ident) : List Item := separated .dot (parts.map Ident.outline)

/-- A last segment adds a dot and its own outline. -/
theorem partsOutline_concat {parts : List Ident} (h : parts ≠ []) (part : Ident) :
    partsOutline (parts ++ [part]) = partsOutline parts ++ .symbol .dot :: part.outline := by
  obtain ⟨first, rest, rfl⟩ := List.exists_cons_of_ne_nil h
  unfold partsOutline
  rw [List.map_append, List.map_cons, List.map_cons, List.map_nil, separated_concat]

section Names

variable (hT : Scanned T)

include hT

/-- The token under the cursor is sound. -/
theorem At.sound {items : List Item} (h : At T items s) : s.cursor.current.Sound :=
  hT.sound _ h.mem

/-- An identifier starts where its first token does. -/
theorem ident_span_start {items : List Item} (hs : At T items s) {name : Ident}
    (h : ident s = .ok name t) : name.span.start = s.cursor.current.span.start := by
  obtain ⟨-, hspan, -⟩ | ⟨value, hdot, -, rfl, -⟩ := ident_eq_ok h
  · rw [hspan]
  · have hend := isEnd_of_symbol hdot
    have hinfix := Cursor.current_peek_infix hend
    rw [hs.allTokens] at hinfix
    have hordered := hT.ordered.sublist hinfix.sublist
    have hpair := List.rel_of_pairwise_cons hordered List.mem_cons_self
    show min _ (s.cursor.skip 1).current.span.start = _
    rw [Cursor.current_skip_one hend]
    omega

/-- An identifier reads its outline. -/
theorem At.ident {items : List Item} (hs : At T items s) {name : Ident}
    (heq : Parser.ident s = .ok name t) : At T (items ++ name.outline) t := by
  have hsound := hs.sound hT
  -- A name is a single token, or a dot with a bare name behind it.
  obtain ⟨rfl, -, hdenotes⟩ | ⟨value, hdot, hname, rfl, rfl⟩ := ident_eq_ok heq
  · have hne : name.value ≠ "" ∧
        (PlainSpelling T items → name.value.toList.head? ≠ some '.') := by
      obtain hkind | hkind | ⟨word, hkind, -, htext⟩ := hdenotes
      · obtain ⟨-, hform, -⟩ := hsound.name hkind
        exact ⟨ne_empty_of_isBareForm hform, fun _ => head_of_isBareForm hform⟩
      · exact ⟨hsound.quotedName hkind, fun hplain => hplain.noQuotedDot _ hs.mem _ hkind⟩
      · obtain ⟨-, hform⟩ := hsound.keyword hkind
        rw [htext] at hform
        exact ⟨ne_empty_of_isBareForm hform, fun _ => head_of_isBareForm hform⟩
    have hlegible := Ident.legible_outline hne.1
    by_cases hhead : name.value.toList.head? = some '.'
    · -- Only between backticks can a single token be a name with a dot in front.
      refine hs.of_not_plain (s.leads_skip 1) (legible_append.2 ⟨hs.legible, hlegible⟩) ?_
      intro hplain _
      exact hne.2 (hplain.mono (List.subset_append_left _ _)) hhead
    · rw [Ident.outline_of_head hhead] at hlegible ⊢
      have hremark : At T (items ++ [.remark (.ident name)]) s :=
        (show At T (items ++ []) s by rwa [List.append_nil]).remarked trivial
      have htake := hremark.take (isEnd_of_name hdenotes) (hlegible _ (by simp)) fun _ _ => hdenotes
      simpa using htake
  · have hend := isEnd_of_symbol hdot
    have hpeek : (s.skip 1).cursor.current = s.cursor.peek 1 := Cursor.current_skip_one hend
    have hmem : s.cursor.peek 1 ∈ T := by
      have hnext := (s.skip 1).cursor.current_mem_allTokens
      rwa [hpeek, State.skip_cursor, Cursor.allTokens_skip, hs.allTokens] at hnext
    obtain ⟨-, hform, hword⟩ := (hT.sound _ hmem).name hname
    have hlegible : Legible (Ident.outline ⟨"." ++ value, false,
        s.cursor.current.span.merge (s.skip 1).cursor.current.span⟩) :=
      Ident.legible_outline fun hempty => by
        have hchars := congrArg String.toList hempty
        simp at hchars
    generalize hspan : s.cursor.current.span.merge (s.skip 1).cursor.current.span = span at hlegible ⊢
    by_cases hbare : (⟨"." ++ value, false, span⟩ : Ident).isBare = true
    · rw [Ident.outline_of_dot rfl hbare]
      have hremark : At T (items ++ [.remark (.ident ⟨"." ++ value, false, span⟩)]) s :=
        (show At T (items ++ []) s by rwa [List.append_nil]).remarked trivial
      have htake := hremark.take (m := .symbol .dot) hend trivial fun _ _ => hdot
      have hlast := htake.take (m := .name value true)
        (isEnd_eq_false (by rw [hpeek, hname]; nofun)) ⟨hform, hword⟩
        fun _ _ => .inl (by rw [hpeek, hname])
      simpa using hlast
    · -- The word behind the dot would mean something else, so the name is not plain.
      refine hs.of_not_plain ((s.leads_skip 1).trans ((s.skip 1).leads_skip 1))
        (legible_append.2 ⟨hs.legible, hlegible⟩) ?_
      intro _ hdots
      refine hbare (hdots _ ?_ ?_)
      · exact mem_remarks.2 (List.mem_append_right _ List.mem_cons_self)
      · show ("." ++ value).toList.head? = _
        rw [String.toList_append]
        rfl

/-- Each round reads a dot and a segment. The name reaches to the end of the last one. -/
theorem reads_namePart {names : List Ident × Span} {r : ForInStep (List Ident × Span)}
    {items : List Item} (hne : names.1 ≠ []) (hs : At T (items ++ partsOutline names.1.reverse) s)
    (hlast : names.2.contains s.cursor.previousSpan = true) (h : namePart names s = .ok r t) :
    r.value.1 ≠ [] ∧ At T (items ++ partsOutline r.value.1.reverse) t ∧
      r.value.2.contains t.cursor.previousSpan = true := by
  unfold namePart at h
  rw [atSymbol_bind_apply, peek_bind_apply] at h
  split at h
  · next hdot =>
    have hkind : s.cursor.current.kind = .symbol .dot :=
      eq_of_beq (Bool.and_eq_true_iff.1 hdot).1
    rw [skip_bind_apply] at h
    obtain ⟨part, u, hpart, hrest⟩ := bind_eq_ok_iff.1 h
    obtain ⟨rfl, rfl⟩ := pure_eq_ok_iff.1 hrest
    have htake := hs.take (m := .symbol .dot) (isEnd_of_symbol hkind) trivial fun _ _ => hkind
    have hat := htake.ident hT hpart
    refine ⟨List.cons_ne_nil _ _, ?_, Span.contains_merge_right _ (ident_contains_last hpart)⟩
    show At T (items ++ partsOutline (part :: names.1).reverse) u
    rw [List.reverse_cons, partsOutline_concat (by simpa using hne)]
    simpa using hat
  · obtain ⟨rfl, rfl⟩ := pure_eq_ok_iff.1 h
    exact ⟨hne, hs, hlast⟩

/-- A name reads its outline, and reaches to the end of the token taken last. -/
theorem qualifiedName_eq_ok {items : List Item} (hs : At T items s) {name : QualifiedName}
    (h : qualifiedName s = .ok name t) :
    At T (items ++ name.outline) t ∧ name.span.contains t.cursor.previousSpan = true := by
  rw [qualifiedName_eq] at h
  obtain ⟨first, u, hfirst, hrest⟩ := bind_eq_ok_iff.1 h
  obtain ⟨names, v, hloop, hend⟩ := bind_eq_ok_iff.1 hrest
  obtain ⟨rfl, rfl⟩ := pure_eq_ok_iff.1 hend
  have hat := hs.ident hT hfirst
  obtain ⟨hne, hparts, hlast⟩ := keeps_loop
    (P := fun names s => names.1 ≠ [] ∧ At T (items ++ partsOutline names.1.reverse) s ∧
      names.2.contains s.cursor.previousSpan = true)
    (fun _ _ _ _ hnames hr => reads_namePart hT hnames.1 hnames.2.1 hnames.2.2 hr)
    ⟨List.cons_ne_nil _ _, by simpa [partsOutline, separated] using hat,
      ident_contains_last hfirst⟩ hloop
  have hlegible := legible_separated.1 (legible_append.1 hparts.legible).2
  have hvalues : ∀ part ∈ names.1.reverse, part.value ≠ "" := fun part hpart =>
    Ident.value_ne_empty (hlegible _ (List.mem_map_of_mem hpart))
  exact ⟨hparts.remarked (r := .qualified ⟨names.1.reverse, names.2⟩)
    ⟨by simpa using hne, hvalues⟩, hlast⟩

/-- A qualified name is read back from the tokens it was read from. -/
theorem reads_qualifiedName :
    Reads T here before qualifiedName (fun name => before ++ name.outline) := by
  intro front s name t hs _ heq
  rw [← List.append_assoc]
  exact (qualifiedName_eq_ok hT hs heq).1

end Names

end Grammar

end SearchSql
