import SearchSql.Proofs.Ahead
import SearchSql.Proofs.Formatting
import SearchSql.Proofs.Rounds
import SearchSql.Time.Reading

/-!
# Written names are read back

A name is written segment by segment, with dots between the segments, and each segment decides for
itself whether it stands between backticks. A segment with a dot in front may stand bare, and reading
then takes this dot for its first token. Behind another segment there is no place for a second dot:
there reading the name ends (`qualifiedName_render`).

So the name that is written for a name of a statement is read as that name exactly if no segment
behind the first is written with a dot in front (`qualifiedName_render_iff`).
-/

set_option autoImplicit false

namespace SearchSql

open Token

/-! ## The tokens of a segment -/

namespace Ident

/-- Whether the identifier is written bare with a dot in front. -/
def isDotted (name : Ident) : Bool := name.isBare && name.value.toList.head? == some '.'

/-- A bare dot in front is a token of its own. -/
theorem writtenTokens_of_isDotted {name : Ident} (h : name.isDotted = true) :
    ∃ value, name.value = "." ++ value ∧
      writtenTokens name.outline = [ofSymbol .dot, ofName value] := by
  obtain ⟨hbare, hhead⟩ := Bool.and_eq_true_iff.1 h
  obtain ⟨cs, hchars⟩ := List.head?_eq_some_iff.1 (eq_of_beq hhead)
  refine ⟨String.ofList cs, ?_, ?_⟩
  · rw [← String.toList_inj, hchars]
    simp
  · unfold outline
    rw [if_pos hbare, hchars]
    rfl

/-- Any other identifier is a single token. -/
theorem writtenTokens_of_not_isDotted {name : Ident} (h : name.isDotted = false) :
    writtenTokens name.outline =
      [if name.isBare then ofName name.value else ofQuotedName name.value] := by
  cases hbare : name.isBare with
  | false =>
    unfold outline
    rw [hbare]
    rfl
  | true =>
    have hhead : name.value.toList.head? ≠ some '.' := by simpa [isDotted, hbare] using h
    rw [outline_of_head hhead, hbare]
    rfl

end Ident

/-- The segments behind the first, with a dot in front of each. -/
def writtenSegments (parts : List Ident) : List Token :=
  parts.flatMap fun part => ofSymbol .dot :: writtenTokens part.outline

/-- The segments of a name are written as the first and the others with dots in front. -/
theorem writtenTokens_partsOutline (first : Ident) (rest : List Ident) :
    writtenTokens (Grammar.partsOutline (first :: rest)) =
      writtenTokens first.outline ++ writtenSegments rest := by
  unfold Grammar.partsOutline
  rw [List.map_cons, separated, writtenTokens_append]
  congr 1
  induction rest with
  | nil => rfl
  | cons part rest ih =>
    rw [List.map_cons, List.flatMap_cons, writtenTokens_append, ih]
    rfl

namespace Grammar

open SearchSql.Grammar.Parser

variable {s t : State} {tokens : List Token}

/-! ## Reading segments -/

/-- A dot and a name in front are read as one segment with the dot in its value. -/
theorem ident_of_dotted {value : String} (hs : s.Faces (ofSymbol .dot :: ofName value :: tokens)) :
    ∃ part t, ident s = .ok part t ∧ part.value = "." ++ value ∧ t.Faces tokens := by
  have hdot : s.cursor.current.kind = .symbol .dot := hs.current
  have hname : (s.cursor.peek 1).kind = .name value := hs.peek 1
  refine ⟨⟨"." ++ value, false, s.cursor.current.span.merge (s.skip 1).cursor.current.span⟩,
    (s.skip 1).skip 1, ?_, rfl, (hs.skip rfl).skip rfl⟩
  unfold ident
  rw [current_bind_apply]
  simp only [hdot]
  rw [peek_bind_apply]
  simp only [hname]
  rw [take_bind_apply, take_bind_apply]
  rfl

/-- A name in front is read as the segment with its value. -/
theorem ident_of_single {value : String} {bare : Bool}
    (hs : s.Faces ((if bare then ofName value else ofQuotedName value) :: tokens)) :
    ∃ part t, ident s = .ok part t ∧ part.value = value ∧ t.Faces tokens := by
  cases bare with
  | false =>
    have hkind : s.cursor.current.kind = .quotedName value := hs.current
    refine ⟨⟨value, true, s.cursor.current.span⟩, s.skip 1, ?_, rfl, hs.skip rfl⟩
    unfold ident
    rw [current_bind_apply]
    simp only [hkind]
    rw [take_bind_apply]
    rfl
  | true =>
    have hkind : s.cursor.current.kind = .name value := hs.current
    refine ⟨⟨value, false, s.cursor.current.span⟩, s.skip 1, ?_, rfl, hs.skip rfl⟩
    unfold ident
    rw [current_bind_apply]
    simp only [hkind]
    rw [take_bind_apply]
    rfl

/-- A written identifier is read back, whatever stands behind it. -/
theorem ident_of_written {name : Ident} (hs : s.Faces (writtenTokens name.outline ++ tokens)) :
    ∃ part t, ident s = .ok part t ∧ part.value = name.value ∧ t.Faces tokens := by
  cases hdotted : name.isDotted with
  | false =>
    rw [Ident.writtenTokens_of_not_isDotted hdotted] at hs
    exact ident_of_single hs
  | true =>
    obtain ⟨value, hvalue, htokens⟩ := Ident.writtenTokens_of_isDotted hdotted
    rw [htokens] at hs
    rw [hvalue]
    exact ident_of_dotted hs

/-- Behind a dot, a segment without a dot in front is read. -/
theorem namePart_of_written {name : Ident} (hdotted : name.isDotted = false)
    (names : List Ident × Span)
    (hs : s.Faces (ofSymbol .dot :: writtenTokens name.outline ++ tokens)) :
    ∃ part t, namePart names s = .ok (.yield (part :: names.1, names.2.merge part.span)) t ∧
      part.value = name.value ∧ t.Faces tokens := by
  obtain ⟨part, t, hpart, hvalue, ht⟩ := ident_of_written (hs.skip rfl)
  have hdot : (s.cursor.current.kind == .symbol .dot) = true := beq_iff_eq.2 hs.current
  have hnext : (s.cursor.peek 1).kind.isNameLike = true := by
    rw [hs.peek, Ident.writtenTokens_of_not_isDotted hdotted]
    cases name.isBare <;> rfl
  refine ⟨part, t, ?_, hvalue, ht⟩
  unfold namePart
  rw [atSymbol_bind_apply, peek_bind_apply,
    if_pos (Bool.and_eq_true_iff.2 ⟨hdot, hnext⟩), skip_bind_apply, bind_of_ok hpart]
  rfl

/-- Where no name stands behind a dot, the name ends. -/
theorem namePart_done (names : List Ident × Span)
    (h : kindAt tokens 0 ≠ .symbol .dot ∨ (kindAt tokens 1).isNameLike = false)
    (hs : s.Faces tokens) : namePart names s = .ok (.done names) s := by
  unfold namePart
  rw [atSymbol_bind_apply, peek_bind_apply, if_neg]
  · rfl
  · intro hboth
    obtain ⟨hdot, hnext⟩ := Bool.and_eq_true_iff.1 hboth
    rcases h with h | h
    · exact h (hs.current ▸ eq_of_beq hdot)
    · rw [hs.peek, h] at hnext
      cases hnext

/-- The segments are read up to the first one with a dot in front. -/
theorem rounds_namePart {rest : List Ident} (names : List Ident × Span)
    (hs : s.Faces (writtenSegments rest)) :
    ∃ read t, Rounds namePart names s read t ∧
      read.1.map Ident.value =
        ((rest.takeWhile fun part => !part.isDotted).map Ident.value).reverse ++
          names.1.map Ident.value ∧
      t.Faces (writtenSegments (rest.dropWhile fun part => !part.isDotted)) := by
  induction rest generalizing names s with
  | nil =>
    have hstop := namePart_done names (.inl (by rintro ⟨⟩)) hs
    exact ⟨names, s, .last hstop, rfl, hs⟩
  | cons part rest ih =>
    cases hdotted : part.isDotted with
    | true =>
      -- The dot between the segments and the dot in front stand side by side.
      obtain ⟨value, -, htokens⟩ := Ident.writtenTokens_of_isDotted hdotted
      have hstop := namePart_done (s := s) names (.inr ?_) hs
      · exact ⟨names, s, .last hstop, by simp [hdotted], by simpa [hdotted] using hs⟩
      · rw [writtenSegments, List.flatMap_cons, htokens]
        rfl
    | false =>
      obtain ⟨again, u, hstep, hvalue, hu⟩ := namePart_of_written hdotted names hs
      obtain ⟨read, t, hrounds, hread, ht⟩ := ih _ hu
      refine ⟨read, t, .more hstep hrounds, ?_, by simpa [hdotted] using ht⟩
      rw [hread]
      simp [hdotted, hvalue]

/-- A written name is read up to the first segment behind the first that has a dot in front. -/
theorem qualifiedName_of_written {first : Ident} {rest : List Ident}
    (hs : s.Faces (writtenTokens (partsOutline (first :: rest)))) :
    ∃ again t, qualifiedName s = .ok again t ∧
      again.parts.map Ident.value =
        (first :: rest.takeWhile fun part => !part.isDotted).map Ident.value ∧
      t.Faces (writtenSegments (rest.dropWhile fun part => !part.isDotted)) := by
  rw [writtenTokens_partsOutline] at hs
  obtain ⟨head, u, hhead, hvalue, hu⟩ := ident_of_written hs
  obtain ⟨read, t, hrounds, hread, ht⟩ := rounds_namePart ([head], head.span) hu
  refine ⟨⟨read.1.reverse, read.2⟩, t, ?_, ?_, ht⟩
  · rw [qualifiedName_eq, bind_of_ok hhead,
      bind_of_ok ((loop_eq_ok_iff Congruence.advances_namePart).2 hrounds)]
    rfl
  · rw [List.map_reverse, hread]
    simp [hvalue]

end Grammar

/-! ## Names of statements -/

open Grammar

/-- The name that is written for a name is read up to the first segment behind the first that has a
dot in front, and the tokens from there on are left. -/
theorem qualifiedName_render [Time.Library] {name : QualifiedName} (h : Legible name.outline)
    (settings : Settings) :
    ∃ first rest, name.parts = first :: rest ∧
      ∃ again t, Parser.qualifiedName (State.ofTokens (tokenize name.render) settings) = .ok again t ∧
        again.parts.map Ident.value =
          (first :: rest.takeWhile fun part => !part.isDotted).map Ident.value ∧
        t.Faces (writtenSegments (rest.dropWhile fun part => !part.isDotted)) := by
  obtain ⟨first, rest, hparts⟩ := List.exists_cons_of_ne_nil (legible_cons.1 h).1.1
  refine ⟨first, rest, hparts, qualifiedName_of_written ?_⟩
  have hwritten := QualifiedName.writes_render h [] nofun
  rw [List.append_nil, tokensOf_nil, QualifiedName.outline, writtenTokens_cons_remark,
    hparts] at hwritten
  exact faces_ofTokens settings hwritten

/-- Whether what is written for the name is read as the same segments, with nothing left. -/
def QualifiedName.ReadsBack [Time.Library] (name : QualifiedName) (settings : Settings) : Prop :=
  ∃ again t, Parser.qualifiedName (State.ofTokens (tokenize name.render) settings) = .ok again t ∧
    t.cursor.current.isEnd = true ∧ again.parts.map Ident.value = name.parts.map Ident.value

/-- A legible name reads back if and only if no segment but the first has a dot in front. -/
theorem QualifiedName.readsBack_iff [Time.Library] {name : QualifiedName} (h : Legible name.outline)
    (settings : Settings) :
    name.ReadsBack settings ↔ ∀ part ∈ name.parts.tail, part.isDotted = false := by
  obtain ⟨first, rest, hparts, again, t, hrun, hvalues, ht⟩ := qualifiedName_render h settings
  constructor
  · rintro ⟨again', t', hrun', -, hvalues'⟩
    obtain ⟨rfl, rfl⟩ := EStateM.Result.ok.inj (hrun.symm.trans hrun')
    -- Equally many segments are read only if none of them stops the reading.
    have hlength := congrArg List.length (hvalues.symm.trans hvalues')
    simp only [hparts, List.length_map, List.length_cons, Nat.add_right_cancel_iff] at hlength
    have hall := List.takeWhile_eq_self_iff.1 ((List.takeWhile_prefix _).eq_of_length hlength)
    rw [hparts]
    exact fun part hpart => (Bool.not_eq_true' _).mp (hall part hpart)
  · intro hparts'
    rw [hparts] at hparts'
    have hall : ∀ part ∈ rest, (!part.isDotted) = true := fun part hpart => by
      rw [hparts' part hpart]
      rfl
    refine ⟨again, t, hrun, ?_, ?_⟩
    · rw [List.dropWhile_eq_nil_iff.2 hall] at ht
      exact beq_iff_eq.2 ht.current
    · rw [hvalues, hparts, List.takeWhile_eq_self_iff.2 hall]

/-- The qualified names that an outline recalls. -/
def qualifiedNames (items : List Item) : List QualifiedName :=
  (remarks items).filterMap fun
    | .qualified name => some name
    | _ => none

/-- The outline of a name that can be read back. -/
theorem legible_of_mem_qualifiedNames {items : List Item} (h : Legible items) {name : QualifiedName}
    (hname : name ∈ qualifiedNames items) : Legible name.outline := by
  obtain ⟨r, hr, heq⟩ := List.mem_filterMap.1 hname
  cases r with
  | qualified other =>
    obtain rfl := Option.some.inj heq
    have hparts := h _ (mem_remarks.1 hr)
    refine legible_cons.2 ⟨hparts, legible_separated.2 (List.forall_mem_map.2 fun part hpart => ?_)⟩
    exact Ident.legible_outline (hparts.2 part hpart)
  | _ => cases heq

/-- What is written for a qualified name of a statement is read as the same segments to the end,
exactly if no segment behind the first is written bare with a dot in front. -/
theorem parseStrict_names_readBack [Time.Library] {text : String} {settings : Settings}
    {found : Statement} (h : parseStrict text settings = .ok found) {name : QualifiedName}
    (hname : name ∈ qualifiedNames found.outline) (reading : Settings) :
    name.ReadsBack reading ↔ ∀ part ∈ name.parts.tail, part.isDotted = false :=
  QualifiedName.readsBack_iff
    (legible_of_mem_qualifiedNames (parseStrict_denotes h).2.1 hname) reading

/-- A reserved word, a backtick and a dot behind another character stand between backticks, and a dot
in front of the first segment is no obstacle. -/
theorem parseStrict_names_readBack_quoted :
    ∃ found, parseStrict "SELECT .a.`select`.`b``.c`" Settings.standard = .ok found ∧
      ∀ name ∈ qualifiedNames found.outline,
        (name.ReadsBack Settings.standard ↔ ∀ part ∈ name.parts.tail, part.isDotted = false) ∧
          name.ReadsBack Settings.standard := by
  obtain ⟨found, h, hparts⟩ := exists_ok_of_check (p := fun found : Statement =>
      ∀ name ∈ qualifiedNames found.outline, ∀ part ∈ name.parts.tail, part.isDotted = false)
    (x := parseStrict "SELECT .a.`select`.`b``.c`" Settings.standard) (by decide +kernel)
  refine ⟨found, h, fun name hname => ?_⟩
  have hiff := parseStrict_names_readBack h hname Settings.standard
  exact ⟨hiff, hiff.2 (hparts name hname)⟩

/-- A second segment with a dot in front is written bare behind the dot between the segments, and is
not read. -/
theorem parseStrict_segment_lost :
    ∃ found, parseStrict "SELECT a.`.b`" Settings.standard = .ok found ∧
      ∃ name ∈ qualifiedNames found.outline, name.parts.map Ident.value = ["a", ".b"] ∧
        name.render = "a..b" ∧ ¬name.ReadsBack Settings.standard := by
  obtain ⟨found, h, name, hname, hparts, hrender, hdotted⟩ := exists_ok_of_check
    (p := fun found : Statement => ∃ name ∈ qualifiedNames found.outline,
      name.parts.map Ident.value = ["a", ".b"] ∧ name.render = "a..b" ∧
        ∃ part ∈ name.parts.tail, part.isDotted = true)
    (x := parseStrict "SELECT a.`.b`" Settings.standard) (by decide +kernel)
  obtain ⟨part, hpart, hdot⟩ := hdotted
  refine ⟨found, h, name, hname, hparts, hrender, fun hback => ?_⟩
  have hlegible := legible_of_mem_qualifiedNames (parseStrict_denotes h).2.1 hname
  have hplain := (QualifiedName.readsBack_iff hlegible _).1 hback part hpart
  exact Bool.false_ne_true (hplain.symm.trans hdot)

end SearchSql
