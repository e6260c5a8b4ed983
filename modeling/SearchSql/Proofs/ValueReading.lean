import SearchSql.Proofs.LeafReading
import SearchSql.Proofs.RuleContract

/-!
# What parsers of values read

Numbers, boosts, times and the words that are known by their spelling: each parser reads the outline
of what it builds.
-/

set_option autoImplicit false

namespace SearchSql

/-! ## Signs and sizes of numbers -/

namespace Number

/-- A number that is read is the one nearest to a decimal, and finite. -/
theorem eq_ofDecimal_of_readReal {text : String} {x : Binary64} (h : readReal text = .ok x) :
    (∃ m e, x = .ofDecimal (splitSign text.toList).1 m e) ∧ x.isFinite = true := by
  unfold readReal at h
  split at h
  · cases h
  · dsimp only at h
    split at h
    · split at h
      · next hfinite =>
        obtain rfl := Except.ok.inj h
        exact ⟨⟨_, _, rfl⟩, hfinite⟩
      · cases h
    · split at h
      · cases h
      · cases h

/-- The sign of a number is the one in front of its text. -/
theorem negative_of_readReal {text : String} {x : Binary64} (h : readReal text = .ok x) :
    x.negative = (splitSign text.toList).1 := by
  obtain ⟨⟨m, e, rfl⟩, -⟩ := eq_ofDecimal_of_readReal h
  rfl

/-- A number that is read is finite. -/
theorem isFinite_of_readReal {text : String} {x : Binary64} (h : readReal text = .ok x) :
    x.isFinite = true := (eq_ofDecimal_of_readReal h).2

/-- A text that starts with a digit or a point has no sign. -/
theorem splitSign_of_unsigned {c : Char} {cs : List Char} (h : c.isDigit = true ∨ c = '.') :
    splitSign (c :: cs) = (false, c :: cs) := by
  unfold splitSign
  split
  · next heq =>
    obtain ⟨rfl, -⟩ := List.cons.inj heq
    rcases h with h | h
    · exact absurd h (by decide)
    · exact absurd h (by decide)
  · next heq =>
    obtain ⟨rfl, -⟩ := List.cons.inj heq
    rcases h with h | h
    · exact absurd h (by decide)
    · exact absurd h (by decide)
  · rfl

/-- A text that starts with a digit or a point is read as an integer that is not negative. -/
theorem nonneg_of_readSigned {text : String} {c : Char} {cs : List Char} {n : Int}
    (htext : text.toList = c :: cs) (hc : c.isDigit = true ∨ c = '.')
    (h : readSigned text = .ok n) : 0 ≤ n := by
  unfold readSigned at h
  rw [htext] at h
  split at h
  · cases h
  · next heq =>
    obtain ⟨rfl, -⟩ := List.cons.inj heq
    rcases hc with hc | hc
    · exact absurd hc (by decide)
    · exact absurd hc (by decide)
  · obtain ⟨m, -, rfl⟩ := ok_of_map h
    exact Int.natCast_nonneg m
  · obtain ⟨m, -, rfl⟩ := ok_of_map h
    exact Int.natCast_nonneg m

/-- Behind a minus sign an integer is not positive. -/
theorem nonpos_of_readSigned {text : String} {n : Int} (h : readSigned ("-" ++ text) = .ok n) :
    n ≤ 0 := by
  have htext : ("-" ++ text).toList = '-' :: text.toList := by
    rw [String.toList_append]
    rfl
  unfold readSigned at h
  rw [htext] at h
  split at h
  · next heq => cases heq
  · next cs _ =>
    cases hread : readMagnitude signedBound .tooSmall cs with
    | error fault =>
      rw [hread] at h
      cases h
    | ok m =>
      rw [hread] at h
      have heq : -(m : Int) = n := Except.ok.inj h
      omega
  · next heq => cases heq
  · next hne _ => exact absurd rfl (hne _)

end Number

/-- The texts of units, constants, types and formats are words. -/
theorem DatetimeUnit.isBareForm_text (unit : DatetimeUnit) :
    Ident.isBareForm unit.text.toList = true := by
  cases unit <;> decide

theorem DatetimeConstant.isBareForm_text (name : DatetimeConstant) :
    Ident.isBareForm name.text.toList = true := by
  cases name <;> decide

theorem DataType.isBareForm_text (target : DataType) :
    Ident.isBareForm target.text.toList = true := by
  cases target <;> decide

theorem FormatTarget.isBareForm_text (target : FormatTarget) :
    Ident.isBareForm target.text.toList = true := by
  cases target <;> decide

namespace Text

/-- A value found by its spelling is spelled like the word, in any case of its letters. -/
theorem sameWord_of_findSpelling {α : Type} {values : List α} {spelling : α → String}
    {word : String} {a : α} (h : findSpelling values spelling word = some a) :
    sameWord word (spelling a) = true := by
  unfold sameWord
  rw [spelling_of_findSpelling h, upper_upper, beq_self_eq_true]

/-- A word in capital letters is the same word. -/
theorem sameWord_upper {word text : String} (h : sameWord (upper word) text = true) :
    sameWord word text = true := by
  unfold sameWord at h ⊢
  rwa [upper_upper] at h

end Text

namespace Grammar

open SearchSql.Grammar.Parser

variable {α β : Type} {T : List Token} {s t : State} {here : Token → Prop} {before : List Item}

/-! ## Tokens with a known spelling -/

/-- Whether a token is written `text`, in any case of its letters, and may be written so again. -/
def Spells (u : Token) (text : String) : Prop :=
  (∃ v, u.kind = Token.bareKind v ∧ Text.sameWord v text = true) ∧
    Ident.isBareForm text.toList = true

/-- No word is the end of the input. -/
theorem isEnd_of_bareKind {v : String} {u : Token} (h : u.kind = Token.bareKind v) :
    u.isEnd = false := by
  refine isEnd_eq_false fun hend => ?_
  rw [hend] at h
  unfold Token.bareKind at h
  split at h
  · cases h
  · cases h

/-- What spells a text is not the end. -/
theorem isEnd_of_spells {u : Token} {text : String} (h : Spells u text) : u.isEnd = false := by
  obtain ⟨⟨v, hkind, -⟩, -⟩ := h
  exact isEnd_of_bareKind hkind

/-- What is a name when it is written bare is read as that name. -/
theorem bareKind_of_isName {name : String} (h : Token.IsName name) :
    Token.bareKind name = .name name := by
  unfold Token.bareKind
  rw [h.2]

/-- A bare name is written like any word that differs from it in the case of letters. -/
theorem spells_of_name {u : Token} (hsound : u.Sound) {value text : String}
    (hkind : u.kind = .name value) (hsame : Text.sameWord value text = true)
    (hform : Ident.isBareForm text.toList = true) : Spells u text :=
  ⟨⟨value, by rw [bareKind_of_isName (hsound.name hkind).2, hkind], hsame⟩, hform⟩

/-- A word, reserved or not, is written like itself. -/
theorem spells_text {u : Token} (hsound : u.Sound)
    (hkind : u.kind.isBareName = true ∨ u.kind.keyword?.isSome = true) : Spells u u.text := by
  have hsame : Text.sameWord u.text u.text = true := beq_self_eq_true _
  rcases hkind with hkind | hkind
  · cases hname : u.kind with
    | name value =>
      obtain ⟨htext, hform⟩ := hsound.name hname
      rw [← htext] at hform
      exact ⟨⟨u.text, by rw [bareKind_of_isName hform, hname, htext], hsame⟩, hform.1⟩
    | _ =>
      rw [hname] at hkind
      cases hkind
  · cases hword : u.kind with
    | keyword word =>
      obtain ⟨hbare, hform⟩ := hsound.keyword hword
      exact ⟨⟨u.text, by rw [hbare, hword], hsame⟩, hform⟩
    | _ =>
      rw [hword] at hkind
      cases hkind

/-- Behind an outline that closes, the token passed last is not the word `AS`. -/
theorem At.last_of_closes {front items : List Item} (h : At T (front ++ items) s)
    (hcloses : Closes items) (hplain : PlainSpelling T (front ++ items))
    (hdots : DotsBare (front ++ items)) :
    ∃ u, u.kind ≠ .keyword .AS ∧ [u, s.cursor.current] <:+: T ∧ s.cursor.previousSpan = u.span := by
  obtain ⟨ms, m, hmarks, hclosing⟩ := hcloses (legible_append.1 h.legible).2
  have hlast : marks (front ++ items) = (marks front ++ ms) ++ [m] := by
    rw [marks_append, hmarks, List.append_assoc]
  obtain ⟨u, hu, hbehind⟩ := h.last hplain hdots hlast
  exact ⟨u, Mark.isClosing_denotes hclosing hu, hbehind⟩

/-! ## Steps -/

/-- A token that is known is passed for a mark. -/
theorem reads_skip_at {m : Mark} {u : Token} (hend : u.isEnd = false)
    (hlegible : (Item.mark m).Legible)
    (hdenotes : ∀ {library : Time.Library}, m.Denotes library u) :
    Reads T (fun v => v = u ∧ here v) before (Parser.skip 1) (fun _ => before ++ [.mark m]) :=
  reads_skip (by rintro _ ⟨rfl, -⟩; exact hend) (fun _ _ => hlegible)
    (by rintro _ _ ⟨rfl, -⟩; exact hdenotes)

/-- A word that is passed stands for its text. -/
theorem reads_skip_word {u : Token} {text : String} (h : Spells u text) :
    Reads T (fun v => v = u ∧ here v) before (Parser.skip 1) (fun _ => before ++ [.word text]) :=
  reads_skip_at (isEnd_of_spells h) h.2 h.1

/-- A run of a parser that reads wherever it starts. -/
theorem Reads.run {items : List Item} {p : Parser α} {after : α → List Item}
    (h : Reads T Anywhere [] p after) (hs : At T items s) {a : α} (heq : p s = .ok a t) :
    At T (items ++ after a) t :=
  h items s a t (by rwa [List.append_nil]) trivial heq

theorem reads_rejectCurrent_bind {after : β → List Item} (expected : String)
    (f : α → Parser β) : Reads T here before (rejectCurrent expected >>= f) after := by
  intro front s b t hs hhere heq
  obtain ⟨a, u, hu, -⟩ := bind_eq_ok_iff.1 heq
  exact absurd hu rejectCurrent_ne_ok

theorem reads_reject_bind {after : β → List Item} (d : Diagnostic) (f : α → Parser β) :
    Reads T here before (reject d >>= f) after := by
  intro front s b t hs hhere heq
  obtain ⟨a, u, hu, -⟩ := bind_eq_ok_iff.1 heq
  exact absurd hu reject_ne_ok

/-- What is refused once it has been passed is not read. -/
theorem reads_skip_reject {after : α → List Item} (n : Nat) (d : Diagnostic) :
    Reads T here before (Parser.skip n >>= fun _ => reject d) after := by
  intro front s a t hs hhere heq
  rw [skip_bind_apply] at heq
  exact absurd heq reject_ne_ok

/-- A string stands for its value. -/
theorem reads_string : Reads T here before string (fun value => before ++ [.string value]) := by
  refine reads_current_bind fun u => ?_
  split
  · next value hkind =>
    exact (reads_skip_at (m := .string value) (isEnd_eq_false (by rw [hkind]; nofun)) trivial
      hkind).bind fun _ => reads_pure rfl
  · exact reads_rejectCurrent _

theorem reads_formatTarget :
    Reads T here before formatTarget (fun target => before ++ [.word target.text]) := by
  have htaken {u : Token} (target : FormatTarget) {word : Keyword} (hkind : u.kind = .keyword word)
      (hword : word.text = target.text) : Reads T (fun v => v = u ∧ here v) before
        (formatTarget.taken target) (fun target => before ++ [.word target.text]) := by
    have hspells : Spells u target.text := by
      refine ⟨⟨word.text, ?_, ?_⟩, target.isBareForm_text⟩
      · rw [hkind, Token.bareKind_keyword]
      · rw [hword]
        exact beq_self_eq_true _
    exact (reads_skip_word hspells).bind fun _ => reads_pure rfl
  refine reads_current_bind fun u => ?_
  split
  · next hkind => exact htaken .date hkind rfl
  · next hkind => exact htaken .datetime hkind rfl
  · next hkind => exact htaken .time hkind rfl
  · next hkind => exact htaken .timestamp hkind rfl
  · exact reads_rejectCurrent _

/-- The word under the cursor is found by its spelling. -/
theorem spells_of_bareWord {u : Token} (hsound : u.Sound) {values : List α} {spelling : α → String}
    {a : α} (h : u.kind.bareWord?.bind (Text.findSpelling values spelling) = some a)
    (hform : Ident.isBareForm (spelling a).toList = true) : Spells u (spelling a) := by
  obtain ⟨word, hword, hfound⟩ := Option.bind_eq_some_iff.1 h
  cases hkind : u.kind with
  | name value =>
    rw [hkind] at hword
    obtain rfl := Option.some.inj hword
    exact spells_of_name hsound hkind
      (Text.sameWord_upper (Text.sameWord_of_findSpelling hfound)) hform
  | _ =>
    rw [hkind] at hword
    cases hword

/-- A count stands for its number. -/
theorem reads_count : Reads T here before count (fun n => before ++ [.mark (.count n)]) := by
  refine reads_current_bind fun u => ?_
  dsimp only
  split
  · exact reads_rejectCurrent_bind _ _
  · next hkind =>
    have hinteger : u.kind = .integer := by simpa using hkind
    cases hread : Number.readUnsigned u.text with
    | ok n =>
      exact (reads_skip_at (m := .count n) (isEnd_eq_false (by rw [hinteger]; nofun))
        (lt_of_readUnsigned hread) ⟨hinteger, hread⟩).bind fun _ => reads_pure rfl
    | error fault => exact reads_skip_reject _ _

theorem steady_ident : Steady ident := (steady_congruence.ident (b := 0)).1

theorem steady_weight : Steady weight := (steady_congruence.weight (b := 0)).1

section Words

variable (hT : Scanned T)

include hT

/-- The token under the cursor is as read from a text. -/
theorem reads_sound_bind {f : Token → Parser α} {after : α → List Item}
    (h : ∀ u, u.Sound → here u → Reads T (fun v => v = u ∧ here v) before (f u) after) :
    Reads T here before (current >>= f) after :=
  fun front s a t hs hhere heq => h _ (hs.sound hT) hhere front s a t hs ⟨rfl, hhere⟩ heq

/-- A weight stands for its value. -/
theorem reads_weight : Reads T here before weight (fun x => before ++ [.mark (.weight x)]) := by
  refine reads_sound_bind hT fun u hsound _ => ?_
  dsimp only
  split
  · exact reads_rejectCurrent_bind _ _
  · next hkind =>
    have hnumber : u.kind.isNumber = true := by simpa using hkind
    cases hread : Number.readReal u.text with
    | ok x =>
      obtain ⟨c, cs, htext, hc⟩ := hsound.number hnumber
      have hnegative : x.negative = false := by
        rw [Number.negative_of_readReal hread, htext, Number.splitSign_of_unsigned hc]
      exact (reads_skip_at (m := .weight x) (Token.isEnd_of_isNumber hnumber)
        ⟨hnegative, Number.isFinite_of_readReal hread⟩ ⟨hnumber, hread⟩).bind fun _ => reads_pure rfl
    | error fault => exact reads_skip_reject _ _

/-- A unit stands for its text, in any case of the letters. -/
theorem reads_datetimeUnit :
    Reads T here before datetimeUnit (fun unit => before ++ [.word unit.text]) := by
  refine reads_sound_bind hT fun u hsound _ => ?_
  split
  · next unit hunit =>
    have hspells := spells_of_bareWord hsound hunit unit.isBareForm_text
    exact (reads_skip_word hspells).bind fun _ => reads_pure rfl
  · exact reads_rejectCurrent _

/-- A unit is refused behind it if it is not single. -/
theorem reads_singleUnit :
    Reads T here before singleUnit (fun unit => before ++ [.word unit.text]) := by
  refine reads_current_bind fun u => (reads_datetimeUnit hT).bind fun unit => ?_
  dsimp only
  split
  · exact reads_reject_bind _ _
  · exact reads_pure rfl

theorem reads_dataType :
    Reads T here before dataType (fun target => before ++ [.word target.text]) := by
  refine reads_sound_bind hT fun u hsound _ => ?_
  have hspells {target : DataType} (h : DataType.ofText? u.text = some target)
      (hkind : u.kind.isBareName = true ∨ u.kind.keyword?.isSome = true) :
      Spells u target.text := by
    obtain ⟨⟨v, hv, hsame⟩, -⟩ := spells_text hsound hkind
    refine ⟨⟨v, hv, ?_⟩, target.isBareForm_text⟩
    have hfound := Text.sameWord_of_findSpelling h
    unfold Text.sameWord at hsame hfound ⊢
    rw [eq_of_beq hsame, eq_of_beq hfound, beq_self_eq_true]
  dsimp only
  split
  · next target htarget =>
    split at htarget
    · next hkind =>
      exact (reads_skip_word (hspells htarget (.inl (by rw [hkind]; rfl)))).bind
        fun _ => reads_pure rfl
    · next hkind =>
      exact (reads_skip_word (hspells htarget (.inr (by rw [hkind]; rfl)))).bind
        fun _ => reads_pure rfl
    · cases htarget
  · exact reads_rejectCurrent _

/-- An option stands for its word. -/
theorem reads_optionName (names : List String) (expected : String) :
    Reads T here before (optionName names expected) (fun name => before ++ [.word name]) := by
  refine reads_sound_bind hT fun u hsound _ => ?_
  split
  · next name hkind =>
    split
    · have hspells := spells_of_name hsound hkind (beq_self_eq_true _) (hsound.name hkind).2.1
      exact (reads_skip_word hspells).bind fun _ => reads_pure rfl
    · exact reads_rejectCurrent _
  · exact reads_rejectCurrent _

/-- An alias behind `AS`. -/
theorem At.aliasBehindWord {items : List Item} (hs : At T (items ++ [.keyword .AS]) s) {name : Ident}
    (hname : Parser.ident s = .ok name t) : At T (items ++ aliasOutline name) t := by
  have hat := hs.ident hT hname
  have hsplit : items ++ [.keyword .AS] ++ name.outline =
      items ++ .keyword .AS :: name.outline := by simp
  rw [hsplit] at hat
  exact hat.remarked (r := .alias name) trivial

/-- An alias without `AS` is not plainly spelled, since the last token of what stands in front of it is
not this word. -/
theorem At.aliasAlone {front items : List Item} (hs : At T (front ++ items) s)
    (hcloses : Closes items) {name : Ident} (hname : Parser.ident s = .ok name t) :
    At T (front ++ items ++ aliasOutline name) t := by
  have hlegible := legible_append.1 (hs.ident hT hname).legible
  refine hs.of_not_plain (steady_ident.leads hname) ?_ ?_
  · exact legible_append.2 ⟨hlegible.1, legible_cons.2 ⟨trivial, legible_cons.2
      ⟨trivial, hlegible.2⟩⟩⟩
  · intro hplain hdots
    have hsub := List.subset_append_left (front ++ items) (aliasOutline name)
    obtain ⟨u, hkind, hinfix, -⟩ := hs.last_of_closes hcloses (hplain.mono hsub) (hdots.mono hsub)
    refine hkind ?_
    refine hplain.remarks (.alias name) ?_ u _ hinfix (ident_span_start hT hs hname).symm
    exact mem_remarks.2 (List.mem_append_right _ List.mem_cons_self)

/-- An alias reads its outline behind whatever does not end in `AS`. -/
theorem reads_optionalAlias (hbefore : Closes before) :
    Reads T here before optionalAlias (fun name => before ++ name.elim [] aliasOutline) := by
  refine reads_takeKeyword_bind ?_ ?_
  · rw [if_pos rfl]
    intro front s found t hs _ heq
    obtain ⟨name, u, hname, hrest⟩ := bind_eq_ok_iff.1 heq
    obtain ⟨rfl, rfl⟩ := pure_eq_ok_iff.1 hrest
    rw [← List.append_assoc] at hs ⊢
    exact hs.aliasBehindWord hT hname
  · rw [if_neg Bool.false_ne_true]
    intro front s found t hs _ heq
    rw [current_bind_apply] at heq
    split at heq
    · obtain ⟨name, u, hname, hrest⟩ := bind_eq_ok_iff.1 heq
      obtain ⟨rfl, rfl⟩ := pure_eq_ok_iff.1 hrest
      rw [← List.append_assoc]
      exact hs.aliasAlone hT hbefore hname
    · obtain ⟨rfl, rfl⟩ := pure_eq_ok_iff.1 heq
      simpa using hs

/-! ## Fields -/

/-- A field reads its outline, and reaches to the end of the token taken last. -/
theorem field_eq_ok {items : List Item} (hs : At T items s) {f : Field}
    (h : field s = .ok f t) :
    At T (items ++ f.outline) t ∧ f.span.contains t.cursor.previousSpan = true := by
  have hname (h : (do return .name (← qualifiedName) : Parser Field) s = .ok f t) :
      At T (items ++ f.outline) t ∧ f.span.contains t.cursor.previousSpan = true := by
    obtain ⟨name, u, hname, hrest⟩ := bind_eq_ok_iff.1 h
    obtain ⟨rfl, rfl⟩ := pure_eq_ok_iff.1 hrest
    exact qualifiedName_eq_ok hT hs hname
  unfold field at h
  rw [current_bind_apply] at h
  cases hkind : s.cursor.current.kind with
  | string value =>
    rw [hkind] at h
    dsimp only at h
    rw [take_bind_apply] at h
    obtain ⟨rfl, rfl⟩ := pure_eq_ok_iff.1 h
    have hend : s.cursor.current.isEnd = false := isEnd_eq_false (by rw [hkind]; nofun)
    refine ⟨hs.take (m := .string value) hend trivial fun _ _ => hkind, ?_⟩
    rw [State.skip_cursor, Cursor.previousSpan_skip_one hend]
    exact Span.contains_self _
  | _ =>
    rw [hkind] at h
    exact hname h

/-- A field is its name, with a star if it has one, or a string. -/
theorem reads_field : Reads T here before field (fun f => before ++ f.outline) := by
  intro front s f t hs _ heq
  rw [← List.append_assoc]
  exact (field_eq_ok hT hs heq).1

/-- A field with its boost reads its outline, where the boost is not plainly spelled without the
caret. -/
theorem reads_weightedField :
    Reads T here before weightedField (fun f => before ++ f.outline) := by
  have hweight : Reads T Anywhere [] weight _ := reads_weight hT
  intro front s a t hs _ heq
  obtain ⟨f, u, hfield, hrest⟩ := bind_eq_ok_iff.1 heq
  obtain ⟨hat, hlast⟩ := field_eq_ok hT hs hfield
  have hsplit (js : List Item) : front ++ (before ++ (f.outline ++ js)) =
      front ++ before ++ f.outline ++ js := by simp
  rw [takeSymbol_bind_apply] at hrest
  split at hrest
  · next hcaret =>
    obtain ⟨x, v, hx, hend⟩ := bind_eq_ok_iff.1 hrest
    obtain ⟨rfl, rfl⟩ := pure_eq_ok_iff.1 hend
    have htake := hat.take (m := .symbol .caret) (isEnd_of_symbol hcaret) trivial fun _ _ => hcaret
    have hread := hweight.run htake hx
    rw [List.append_assoc] at hread
    show At T (front ++ (before ++ (f.outline ++ _))) v
    rw [hsplit]
    exact hread.remarked (r := .boost f.span) trivial
  · have hrest := (show (current >>= fun token => _) u = _ from hrest)
    rw [current_bind_apply] at hrest
    split at hrest
    · next hnumber =>
      obtain ⟨x, v, hx, hend⟩ := bind_eq_ok_iff.1 hrest
      obtain ⟨rfl, rfl⟩ := pure_eq_ok_iff.1 hend
      have hread := hweight.run hat hx
      show At T (front ++ (before ++ (f.outline ++ _))) v
      rw [hsplit]
      refine hat.of_not_plain (steady_weight.leads hx) ?_ ?_
      · have hlegible := legible_append.1 hread.legible
        exact legible_append.2 ⟨hlegible.1, legible_cons.2 ⟨trivial, legible_cons.2
          ⟨trivial, hlegible.2⟩⟩⟩
      · intro hplain hdots
        -- The number stands directly behind the last token of the field.
        have hsub := List.subset_append_left (front ++ before ++ f.outline)
          [.remark (.boost f.span), .symbol .caret, .mark (.weight x)]
        obtain ⟨w, -, hinfix, hspan⟩ :=
          hat.last_of_closes f.closes_outline (hplain.mono hsub) (hdots.mono hsub)
        have hremark := hplain.remarks (.boost f.span)
          (mem_remarks.2 (List.mem_append_right _ List.mem_cons_self)) w _ hinfix (hspan ▸ hlast)
        rw [hnumber] at hremark
        cases hremark
    · obtain ⟨rfl, rfl⟩ := pure_eq_ok_iff.1 hrest
      show At T (front ++ (before ++ (f.outline ++ []))) u
      rw [hsplit, List.append_nil]
      exact hat

/-- Fields stand in brackets with commas between them. -/
theorem reads_fieldList : Reads T here before fieldList (fun fs => before ++ bracketed fs) := by
  refine (reads_symbol .leftBracket).bind fun _ =>
    ((reads_weightedField hT).commaSeparated "relevance field").bind fun fs =>
      (reads_symbol .rightBracket).bind fun _ => reads_pure ?_
  simp [bracketed]

end Words

end Grammar

end SearchSql
