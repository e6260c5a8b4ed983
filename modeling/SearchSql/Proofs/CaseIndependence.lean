import SearchSql.Proofs.CaseFolding
import SearchSql.Proofs.Mirroring
import SearchSql.Time.Reading

/-!
# Parsing does not depend on the case of letters

The view that puts words in upper case is lawful (`faithful_folded`): numbers are read from a text in
upper case as from the text itself. Texts that differ only in the case of letters have the same tokens
in this view (`tokenize_folded`), so that their parses are the same in it, too (`parse_caseless`).
-/

set_option autoImplicit false

namespace SearchSql

open Text

/-! ## Numbers -/

namespace Number

theorem raise_digits {cs : List Char} (h : cs.all Char.isDigit = true) : raise cs = cs := by
  refine List.map_congr_left (fun c hc => ?_) |>.trans (List.map_id cs)
  have hdigit : c.isDigit = true := List.all_eq_true.1 h c hc
  refine toUpper_of_not_isNameStart (Bool.eq_false_iff.2 fun hstart => ?_)
  rw [Token.isDigit_of_isNameStart hstart] at hdigit
  cases hdigit

/-- Digits are read alike in both cases. -/
theorem readDigits_raise (limit : Nat) (beyond : IntegerFault) (value : Nat) (cs : List Char) :
    readDigits limit beyond value (raise cs) = readDigits limit beyond value cs := by
  induction cs generalizing value with
  | nil => rfl
  | cons c cs ih =>
    rw [show raise (c :: cs) = c.toUpper :: raise cs from rfl, readDigits, readDigits,
      show c.toUpper.isDigit = c.isDigit from congrFun caseless_isDigit c]
    split
    · next hdigit =>
      have hraise : raise [c] = [c] := raise_digits (by simpa using hdigit)
      have hc : c.toUpper = c := (List.cons.inj hraise).1
      rw [hc]
      dsimp only
      rw [ih]
    · rfl

/-- A size is read alike in both cases. -/
theorem readMagnitude_raise (limit : Nat) (beyond : IntegerFault) (cs : List Char) :
    readMagnitude limit beyond (raise cs) = readMagnitude limit beyond cs := by
  cases cs with
  | nil => rfl
  | cons c cs => exact readDigits_raise limit beyond 0 (c :: cs)

theorem toList_upper (text : String) : (upper text).toList = raise text.toList :=
  String.toList_ofList

/-- A number of rows is read alike in both cases. -/
theorem readUnsigned_upper (text : String) : readUnsigned (upper text) = readUnsigned text := by
  unfold readUnsigned
  rw [toList_upper]
  cases text.toList with
  | nil => rfl
  | cons c cs =>
    by_cases hplus : c = '+'
    · subst hplus
      exact readMagnitude_raise _ _ cs
    · have hplus' : c.toUpper ≠ '+' := mt (toUpper_eq_iff (by decide)).1 hplus
      simpa [hplus, hplus'] using readMagnitude_raise _ _ (c :: cs)

/-- An integer is read alike in both cases. -/
theorem readSigned_upper (text : String) : readSigned (upper text) = readSigned text := by
  unfold readSigned
  rw [toList_upper]
  cases text.toList with
  | nil => rfl
  | cons c cs =>
    by_cases hminus : c = '-'
    · subst hminus
      simp only [show raise ('-' :: cs) = '-' :: raise cs from rfl, readMagnitude_raise]
    by_cases hplus : c = '+'
    · subst hplus
      exact congrArg (Except.map _) (readMagnitude_raise _ _ cs)
    have hminus' : c.toUpper ≠ '-' := mt (toUpper_eq_iff (by decide)).1 hminus
    have hplus' : c.toUpper ≠ '+' := mt (toUpper_eq_iff (by decide)).1 hplus
    simpa [hminus, hminus', hplus, hplus'] using
      congrArg (Except.map Int.ofNat) (readMagnitude_raise (signedBound - 1) .tooLarge (c :: cs))

/-- A sign is told from its number alike in both cases. -/
theorem splitSign_raise (cs : List Char) :
    splitSign (raise cs) = ((splitSign cs).1, raise (splitSign cs).2) := by
  cases cs with
  | nil => rfl
  | cons c cs =>
    by_cases hminus : c = '-'
    · subst hminus
      rfl
    by_cases hplus : c = '+'
    · subst hplus
      rfl
    have hminus' : c.toUpper ≠ '-' := mt (toUpper_eq_iff (by decide)).1 hminus
    have hplus' : c.toUpper ≠ '+' := mt (toUpper_eq_iff (by decide)).1 hplus
    simp [splitSign, hminus, hminus', hplus, hplus']

/-- An exponent is read alike in both cases. -/
theorem readExponent_raise (cs : List Char) : readExponent (raise cs) = readExponent cs := by
  cases cs with
  | nil => rfl
  | cons e cs =>
    have hall : (raise (splitSign cs).2).all Char.isDigit = (splitSign cs).2.all Char.isDigit := by
      rw [raise, List.all_map, caseless_isDigit]
    have hnil : raise (splitSign cs).2 ≠ [] ↔ (splitSign cs).2 ≠ [] :=
      not_congr List.map_eq_nil_iff
    rw [show raise (e :: cs) = e.toUpper :: raise cs from rfl, readExponent, readExponent]
    simp only [splitSign_raise, hall, hnil, toUpper_eq_exponent]
    split
    · next h => rw [raise_digits h.2.2]
    · rfl

/-- A fraction is read alike in both cases. -/
theorem splitFraction_raise (cs : List Char) :
    splitFraction (raise cs) = ((splitFraction cs).1, raise (splitFraction cs).2) := by
  cases cs with
  | nil => rfl
  | cons c cs =>
    by_cases hdot : c = '.'
    · subst hdot
      show (List.takeWhile _ (raise cs), List.dropWhile _ (raise cs)) = _
      rw [takeWhile_raise caseless_isDigit, dropWhile_raise caseless_isDigit,
        raise_digits List.all_takeWhile]
      rfl
    · have hdot' : c.toUpper ≠ '.' := mt (toUpper_eq_iff (by decide)).1 hdot
      simp [splitFraction, hdot, hdot']

/-- A decimal fraction is read alike in both cases. -/
theorem readDecimal_raise (cs : List Char) : readDecimal (raise cs) = readDecimal cs := by
  unfold readDecimal
  rw [takeWhile_raise caseless_isDigit, dropWhile_raise caseless_isDigit,
    raise_digits List.all_takeWhile, splitFraction_raise]
  dsimp only
  rw [readExponent_raise]

/-- A real number is read alike in both cases. -/
theorem readReal_upper (text : String) : readReal (upper text) = readReal text := by
  have hempty : (upper text).isEmpty = text.isEmpty := by
    rw [Bool.eq_iff_iff, String.isEmpty_iff, String.isEmpty_iff, ← String.toList_eq_nil_iff,
      ← String.toList_eq_nil_iff, toList_upper, List.map_eq_nil_iff]
  unfold readReal
  rw [hempty, toList_upper, splitSign_raise]
  dsimp only
  rw [readDecimal_raise, ← Token.upper_ofList, upper_upper]

end Number

/-! ## The view that folds the case of words -/

/-- The view that puts words and the values of bare names in upper case. -/
def View.folded : View where
  span s := s
  ident name := if name.quoted then name else { name with value := upper name.value }
  word := upper

/-- Texts are raised one by one. -/
theorem upper_append (a b : String) : upper (a ++ b) = upper a ++ upper b := by
  unfold upper
  rw [String.toList_append, List.map_append, String.ofList_append]

/-- Words are raised one by one. -/
theorem upper_join (words : List String) :
    upper (String.join words) = String.join (words.map upper) := by
  induction words with
  | nil => rfl
  | cons word words ih => rw [String.join_cons, upper_append, ih, List.map_cons, String.join_cons]

/-- Folding the case of words keeps what the rules look at. -/
theorem faithful_folded : View.folded.Faithful id where
  merge _ _ := rfl
  bare _ _ := rfl
  quoted _ _ := rfl
  upper := upper_upper
  dot word := upper_append "." word
  minus word := upper_append "-" word
  join := upper_join
  readSigned := Number.readSigned_upper
  readUnsigned := Number.readUnsigned_upper
  readReal := Number.readReal_upper
  start _ := rfl
  injective := Function.injective_id

/-- Folding the case of words moves no token. -/
theorem keepsGaps_folded : View.folded.KeepsGaps := fun _ _ => rfl

/-! ## Texts up to the case of letters -/

/-- Whether the case of letters counts in tokens of the kind. -/
def TokenKind.isVerbatim : TokenKind → Bool
  | .string _ | .quotedName _ | .invalid _ => true
  | _ => false

/-- The texts are the same up to the case of ASCII letters, and what the first one has as strings,
quoted names and invalid tokens is the same in the second one. -/
structure SameButCase (text text' : String) : Prop where
  upper : Text.upper text' = Text.upper text
  verbatim : ∀ t ∈ Token.tokenize text, t.kind.isVerbatim = true →
    t.span.slice text' = t.span.slice text

namespace Token

/-- What a token of a text is, apart from the end, is decided by its characters. -/
theorem kind_eq_lexeme {offset : Nat} {cs : List Char} :
    ∀ t ∈ tokensFrom offset cs, t.isEnd = false →
      ∃ c ds, t.text = String.ofList (c :: ds) ∧ t.kind = (lexeme c ds).kind := by
  fun_induction tokensFrom offset cs with
  | case1 offset cs blank start hrest =>
    rintro t (_ | ⟨_, ht⟩) hend
    · cases hend
    · cases ht
  | case2 offset cs blank start c rest hrest next stop ih =>
    rintro t (_ | ⟨_, ht⟩) hend
    · obtain ⟨d, ds, hds⟩ := List.exists_cons_of_ne_nil (lexeme_text_ne_nil c rest)
      have happend := lexeme_append c rest
      rw [hds] at happend
      obtain ⟨rfl, -⟩ := List.cons.inj happend
      -- The lexeme is read again from its own characters.
      have hagain : lexeme d ds = ⟨(lexeme d rest).kind, (lexeme d rest).text, []⟩ :=
        lexeme_cut (List.nil_append (lexeme d rest).rest).symm
          (fun _ h => absurd h.symm (List.cons_ne_nil _ _)) (by rw [hds, List.append_nil])
      exact ⟨d, ds, congrArg String.ofList hds, (congrArg Lexeme.kind hagain).symm⟩
    · exact ih t ht hend

/-- Tokens that are written alike are of the same kind. -/
theorem kind_eq_of_text_eq {text text' : String} {t t' : Token} (ht : t ∈ tokenize text)
    (ht' : t' ∈ tokenize text') (hend : t.isEnd = false) (hend' : t'.isEnd = false)
    (h : t'.text = t.text) : t'.kind = t.kind := by
  obtain ⟨c, ds, htext, hkind⟩ := kind_eq_lexeme t ht hend
  obtain ⟨c', ds', htext', hkind'⟩ := kind_eq_lexeme t' ht' hend'
  rw [htext, htext'] at h
  obtain ⟨rfl, rfl⟩ := List.cons.inj (String.ofList_injective h)
  rw [hkind, hkind']

/-- Every token of a text but its end is found at its place. -/
theorem slice_of_mem {text : String} {t : Token} (h : t ∈ tokenize text) (hend : t.isEnd = false) :
    t.span.slice text = some t.text := by
  obtain ⟨front, e, hsplit, he, hfront⟩ := tokenize_eq_concat text
  rw [hsplit, List.mem_append, List.mem_singleton] at h
  rcases h with h | rfl
  · exact (hfront t h).2
  · exact absurd (he.symm.trans hend) nofun

/-- Tokens with the same text in upper case look the same, if those whose case counts are the same. -/
theorem view_folded_eq {t t' : Token} (h : t'.raised = t.raised)
    (hsame : t.kind.isVerbatim = true → t' = t) : t'.view .folded = t.view .folded := by
  obtain ⟨kind, text, span⟩ := t
  obtain ⟨kind', text', span'⟩ := t'
  obtain ⟨hkind, htext, rfl⟩ : kind'.raised = kind.raised ∧ upper text' = upper text ∧ span' = span := by
    simpa [raised] using h
  cases hverbatim : kind.isVerbatim with
  | true => rw [hsame hverbatim]
  | false =>
    have hview : kind'.view .folded = kind.view .folded := by
      cases kind with
      | string | quotedName | invalid => cases hverbatim
      | _ => cases kind' <;> simp_all [TokenKind.raised, TokenKind.view, View.folded]
    have hword : View.folded.word text' = View.folded.word text := htext
    simp only [view, hview, hword]

theorem isEnd_of_raised {t t' : Token} (h : t'.raised = t.raised) : t'.isEnd = t.isEnd := by
  have hraised (t : Token) : t.raised.isEnd = t.isEnd := by
    obtain ⟨kind, text, span⟩ := t
    cases kind <;> rfl
  rw [← hraised, h, hraised]

/-- Texts up to the case of letters have the same tokens up to the case of letters. -/
theorem tokenize_folded {text text' : String} (h : SameButCase text text') :
    (tokenize text').map (Token.view .folded) = (tokenize text).map (Token.view .folded) := by
  have hraised : (tokenize text').map raised = (tokenize text).map raised := by
    unfold tokenize
    rw [← tokensFrom_raise, ← tokensFrom_raise, ← Number.toList_upper, ← Number.toList_upper,
      h.upper]
  have hlength : (tokenize text').length = (tokenize text).length := by
    simpa using congrArg List.length hraised
  -- The tokens are the same up to case; those that are taken verbatim have the same text as well.
  refine List.ext_getElem (by simpa using hlength) fun i hi' hi => ?_
  rw [List.length_map] at hi hi'
  have hi'' : (tokenize text')[i].raised = (tokenize text)[i].raised := by
    have hget := congrArg (·[i]?) hraised
    simpa [hi, hi'] using hget
  rw [List.getElem_map, List.getElem_map]
  refine view_folded_eq hi'' fun hverbatim => ?_
  generalize hmem : (tokenize text)[i] = t at hi'' hverbatim
  generalize hmem' : (tokenize text')[i] = t' at hi''
  have ht : t ∈ tokenize text := hmem ▸ List.getElem_mem hi
  have ht' : t' ∈ tokenize text' := hmem' ▸ List.getElem_mem hi'
  have hend : t.isEnd = false := by
    obtain ⟨kind, text, span⟩ := t
    cases kind <;> first | rfl | cases hverbatim
  have hend' : t'.isEnd = false := (isEnd_of_raised hi'').trans hend
  have hspan : t'.raised.span = t.raised.span := by rw [hi'']
  change t'.span = t.span at hspan
  have hslice := h.verbatim t ht hverbatim
  rw [slice_of_mem ht hend, ← hspan, slice_of_mem ht' hend'] at hslice
  have htext : t'.text = t.text := Option.some.inj hslice
  have hkind := kind_eq_of_text_eq ht ht' hend hend' htext
  obtain ⟨kind, text, span⟩ := t
  obtain ⟨kind', text', span'⟩ := t'
  simp_all

end Token

/-- A parse does not depend on the case of letters: of texts that are the same up to case, and in
strings, quoted names and invalid tokens exactly, the parses end alike, report diagnostics of the
same kinds at the same places, and give the same statement up to the case of its words. -/
theorem parse_caseless [Time.Library] {text text' : String} (h : SameButCase text text')
    (settings : Settings) :
    (parse text' settings).aborted = (parse text settings).aborted ∧
      (parse text' settings).diagnostics.map (fun d => (d.kind, d.span)) =
        (parse text settings).diagnostics.map (fun d => (d.kind, d.span)) ∧
      (parse text' settings).statement.map (Statement.view .folded) =
        (parse text settings).statement.map (Statement.view .folded) := by
  have hseen (text : String) : (parse text settings).SeenAs .folded
      (parseTokens ((Token.tokenize text).map (Token.view .folded)) settings) := by
    obtain ⟨front, e, hsplit, he, hfront⟩ := Token.tokenize_eq_concat text
    unfold parse
    rw [hsplit, List.map_append]
    exact parseTokens_seenAs faithful_folded rfl (fun t ht => (hfront t ht).1) he settings
      (.inl keepsGaps_folded)
  have hsame := hseen text'
  rw [Token.tokenize_folded h] at hsame
  have hplaces (o : Outcome) : o.diagnostics.map (fun d => (d.kind, d.span)) =
      (o.diagnostics.map (Diagnostic.view .folded)).map (fun d => (d.kind, d.span)) := by
    rw [List.map_map]
    refine List.map_congr_left fun d _ => ?_
    simp only [Function.comp_apply, Diagnostic.kind_view]
    rfl
  refine ⟨?_, ?_, ?_⟩
  · rw [← hsame.aborted, (hseen text).aborted]
  · rw [hplaces, hplaces (parse text settings), ← hsame.diagnostics, (hseen text).diagnostics]
  · rw [← hsame.statement, (hseen text).statement]

/-- A reserved word, a function, a name and an exponent may be written in either case next to a string
that is the same, also where an error follows. -/
theorem parse_caseless_error :
    let text := "SELECT Max(a), 'b' FROM t WHERE 1e3 < ,"
    let text' := "select mAX(A), 'b' from T Where 1E3 < ,"
    SameButCase text text' ∧
      (parse text' .standard).aborted = (parse text .standard).aborted ∧
      (parse text' .standard).diagnostics.map (fun d => (d.kind, d.span)) =
        (parse text .standard).diagnostics.map (fun d => (d.kind, d.span)) ∧
      (parse text' .standard).statement.map (Statement.view .folded) =
        (parse text .standard).statement.map (Statement.view .folded) := by
  intro text text'
  have hcase : SameButCase text text' := ⟨by decide, by decide +kernel⟩
  exact ⟨hcase, parse_caseless hcase .standard⟩

end SearchSql
