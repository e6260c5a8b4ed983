import SearchSql.Proofs.Lexing
import SearchSql.Proofs.Tiling

/-!
# Cutting a text behind a token

A lexeme is decided by its own characters and by what stands directly behind it. So it is read again
from a text that is cut somewhere behind it (`Again.lexeme`), with one exception: a number in front
of a dot that is not its own takes the dot if the letter behind the dot is cut off.

A text cut behind one of its tokens has the tokens up to there, if no word follows
(`tokensFrom_cut`).
-/

set_option autoImplicit false

namespace SearchSql.Token

open Text

-- Whether a text is a reserved word is looked up nowhere here: kinds are compared as they stand.
attribute [local irreducible] bareKind

/-! ## Lexemes in a cut text -/

/-- What stands at the start of a text, if anything does, does so at the start of the whole text. -/
theorem head?_of_append {front back : List Char} {p : Char → Bool}
    (h : ∀ c ∈ (front ++ back).head?, p c = false) : ∀ c ∈ front.head?, p c = false := by
  intro c hc
  cases front with
  | nil => cases hc
  | cons _ _ => exact h c hc

/-- What is left behind all characters with a property begins with none of them. -/
theorem head?_dropWhile {p : Char → Bool} (cs : List Char) :
    ∀ c ∈ (cs.dropWhile p).head?, p c = false := by
  intro c hc
  have hnot := List.head?_dropWhile_not p cs
  rw [Option.mem_def.1 hc] at hnot
  simpa using hnot

/-- The text of a quoted body begins where the body does. -/
theorem quotedBody_text_cons (mark : Char) (escapable : Char → Bool) (c : Char) (cs : List Char) :
    ∃ text, (quotedBody mark escapable (c :: cs)).text = c :: text := by
  cases cs with
  | nil =>
    unfold quotedBody
    split <;> exact ⟨[], rfl⟩
  | cons d cs =>
    unfold quotedBody
    split
    · split <;> exact ⟨_, rfl⟩
    · split <;> exact ⟨_, rfl⟩

/-- A quoted body that is closed is read in the same way where the text is cut behind it. -/
theorem quotedBody_cut {mark : Char} {escapable : Char → Bool} {cs front back : List Char}
    (h : (quotedBody mark escapable cs).rest = front ++ back) :
    quotedBody mark escapable ((quotedBody mark escapable cs).text ++ front) =
      ⟨(quotedBody mark escapable cs).value, (quotedBody mark escapable cs).text, front⟩ := by
  -- Only behind a closing mark is it looked at whether another one follows; the cut may not fall
  -- between the two.
  fun_induction quotedBody mark escapable cs with
  | case1 =>
    obtain ⟨rfl, rfl⟩ := List.append_eq_nil_iff.1 h.symm
    rfl
  | case2 =>
    obtain ⟨rfl, rfl⟩ := List.append_eq_nil_iff.1 h.symm
    simp [quotedBody]
  | case3 c hc =>
    obtain ⟨rfl, rfl⟩ := List.append_eq_nil_iff.1 h.symm
    simp [quotedBody, hc]
  | case4 cs body ih =>
    have hbody := ih h
    simp only [List.cons_append, quotedBody, if_true]
    rw [hbody]
  | case5 d cs hd =>
    cases front with
    | nil => simp [quotedBody]
    | cons e front =>
      obtain ⟨rfl, -⟩ := List.cons.inj h
      simp [quotedBody, hd]
  | case6 c d cs hc hescape body ih =>
    have hbody := ih h
    rw [List.cons_append, List.cons_append, quotedBody, if_neg hc, if_pos hescape, hbody]
  | case7 c d cs hc hescape body ih =>
    have hbody := ih h
    obtain ⟨text, htext⟩ := quotedBody_text_cons mark escapable d cs
    show quotedBody mark escapable (c :: (body.text ++ front)) = _
    rw [show body.text = d :: text from htext] at hbody ⊢
    simp only [List.cons_append, quotedBody, hc, hescape, if_false] at hbody ⊢
    rw [hbody]

theorem exponentSign_cons_append (c : Char) (cs back : List Char) :
    exponentSign (c :: cs ++ back) =
      ((exponentSign (c :: cs)).1, (exponentSign (c :: cs)).2 ++ back) := by
  by_cases hplus : c = '+'
  · subst hplus
    rfl
  · by_cases hminus : c = '-'
    · subst hminus
      rfl
    · simp [exponentSign, hplus, hminus]

/-- Whether an exponent starts here. -/
def startsExponent (cs : List Char) : Bool :=
  match cs with
  | [] => false
  | e :: cs => (e == 'e' || e == 'E') && (exponentSign cs).2.head?.any Char.isDigit

theorem exponent_of_not_startsExponent {cs : List Char} (h : startsExponent cs = false) :
    exponent cs = ([], cs) := by
  cases cs with
  | nil => rfl
  | cons e cs =>
    simp only [startsExponent, Bool.and_eq_false_iff, Bool.or_eq_false_iff, beq_eq_false_iff_ne] at h
    unfold exponent
    dsimp only
    rw [if_neg]
    rintro ⟨he, hdigit⟩
    obtain ⟨hlower, hupper⟩ | hnone := h
    · exact he.elim hlower hupper
    · rw [hdigit] at hnone
      cases hnone

/-- An exponent that starts here is its letter, a sign and digits. -/
theorem exponent_of_startsExponent {e : Char} {cs : List Char}
    (h : startsExponent (e :: cs) = true) :
    exponent (e :: cs) = (e :: ((exponentSign cs).1 ++ (exponentSign cs).2.takeWhile Char.isDigit),
      (exponentSign cs).2.dropWhile Char.isDigit) := by
  simp only [startsExponent, Bool.and_eq_true, Bool.or_eq_true, beq_iff_eq] at h
  unfold exponent
  dsimp only
  rw [if_pos h]

/-- No exponent starts where a text is cut, if none has started before. -/
theorem startsExponent_cut {front back : List Char} (h : startsExponent (front ++ back) = false) :
    startsExponent front = false := by
  match front with
  | [] => rfl
  | [e] => simp [startsExponent, exponentSign]
  | e :: c :: cs =>
    rw [List.cons_append] at h
    unfold startsExponent at h ⊢
    dsimp only at h ⊢
    rw [exponentSign_cons_append] at h
    cases hsigned : (exponentSign (c :: cs)).2 with
    | nil => simp
    | cons d ds =>
      rw [hsigned] at h
      exact h

/-- A sign is read again in front of a digit. -/
theorem exponentSign_again (cs : List Char) {d : Char} (hd : d.isDigit = true) (ds : List Char) :
    exponentSign ((exponentSign cs).1 ++ d :: ds) = ((exponentSign cs).1, d :: ds) := by
  fun_cases exponentSign cs with
  | case1 | case2 => rfl
  | case3 =>
    show exponentSign (d :: ds) = _
    unfold exponentSign
    split
    · next heq =>
      rw [(List.cons.inj heq).1] at hd
      cases hd
    · next heq =>
      rw [(List.cons.inj heq).1] at hd
      cases hd
    · rfl

/-- An exponent is read in the same way in a text that is cut behind it. -/
theorem exponent_cut {cs front back : List Char} (h : (exponent cs).2 = front ++ back) :
    exponent ((exponent cs).1 ++ front) = ((exponent cs).1, front) := by
  cases hstarts : startsExponent cs with
  | false =>
    rw [exponent_of_not_startsExponent hstarts] at h ⊢
    have hcs : cs = front ++ back := h
    exact exponent_of_not_startsExponent (startsExponent_cut (hcs ▸ hstarts))
  | true =>
    match cs with
    | [] => cases hstarts
    | e :: cs =>
      have hletter := hstarts
      rw [exponent_of_startsExponent hstarts] at h ⊢
      simp only [startsExponent, Bool.and_eq_true, Option.any_eq_true_iff_get] at hletter
      obtain ⟨he, hsome, hdigit⟩ := hletter
      generalize hsigned : (exponentSign cs).2 = digits at h hsome hdigit
      have hrun : (digits.takeWhile Char.isDigit).all Char.isDigit = true :=
        List.all_takeWhile
      have hrest : digits.dropWhile Char.isDigit = front ++ back := h
      -- The digits end in front of the cut or at it, so the cut text has the same ones.
      have hstop : ∀ c ∈ front.head?, c.isDigit = false :=
        head?_of_append (hrest ▸ head?_dropWhile digits)
      obtain ⟨d, ds, rfl⟩ : ∃ d ds, digits = d :: ds := by
        cases digits with
        | nil => cases hsome
        | cons d ds => exact ⟨d, ds, rfl⟩
      have hd : d.isDigit = true := hdigit
      have hagain : exponentSign ((exponentSign cs).1 ++ (d :: ds).takeWhile Char.isDigit ++ front) =
          ((exponentSign cs).1, (d :: ds).takeWhile Char.isDigit ++ front) := by
        rw [List.takeWhile_cons, if_pos hd, List.append_assoc]
        exact exponentSign_again cs hd _
      have hagainStarts : startsExponent
          (e :: ((exponentSign cs).1 ++ (d :: ds).takeWhile Char.isDigit ++ front)) = true := by
        unfold startsExponent
        dsimp only
        rw [hagain, List.takeWhile_cons, if_pos hd, he]
        exact hd
      rw [List.cons_append, exponent_of_startsExponent hagainStarts, hagain, takeWhile_run hrun hstop,
        dropWhile_run hrun hstop]

theorem fraction_of_ne {c : Char} (h : c ≠ '.') (cs : List Char) :
    fraction (c :: cs) = ([], c :: cs) := by
  simp [fraction, h]

/-- So is a fraction, unless the cut takes away the letter behind its point. -/
theorem fraction_cut {cs front back : List Char} (h : (fraction cs).2 = front ++ back)
    (hdot : (fraction cs).1 = [] → front = ['.'] → back.head?.any isAlphabetic = false) :
    fraction ((fraction cs).1 ++ front) = ((fraction cs).1, front) := by
  have hnone {cs : List Char} (hcs : fraction cs = ([], cs)) (hfront : cs = front ++ back)
      (hpoint : ∀ ds, front = '.' :: ds → ds.head?.any isAlphabetic = true) :
      fraction ((fraction cs).1 ++ front) = ((fraction cs).1, front) := by
    rw [hcs, List.nil_append]
    cases front with
    | nil => rfl
    | cons c ds =>
      by_cases hc : c = '.'
      · subst hc
        rw [fraction, if_pos (hpoint ds rfl)]
      · exact fraction_of_ne hc ds
  cases cs with
  | nil => exact hnone rfl h fun ds hds => by simp [fraction, hds] at h
  | cons c cs =>
    by_cases hc : c = '.'
    · subst hc
      cases hletter : cs.head?.any isAlphabetic with
      | true =>
        have hcs : fraction ('.' :: cs) = ([], '.' :: cs) := by rw [fraction, if_pos hletter]
        have hnil : (fraction ('.' :: cs)).1 = [] := by rw [hcs]
        rw [hcs] at h
        refine hnone hcs h fun ds hds => ?_
        -- The letter behind the point is not cut off.
        have hcs : cs = ds ++ back := by simpa [hds] using h
        cases ds with
        | nil =>
          rw [hcs, List.nil_append, hdot hnil hds] at hletter
          cases hletter
        | cons _ _ => rwa [hcs] at hletter
      | false =>
        have hcs : fraction ('.' :: cs) =
            ('.' :: cs.takeWhile Char.isDigit, cs.dropWhile Char.isDigit) := by
          rw [fraction, if_neg (by simp [hletter])]
        rw [hcs] at h ⊢
        have hrest : cs.dropWhile Char.isDigit = front ++ back := h
        have hrun : (cs.takeWhile Char.isDigit).all Char.isDigit = true := List.all_takeWhile
        have hstop : ∀ c ∈ front.head?, c.isDigit = false :=
          head?_of_append (hrest ▸ head?_dropWhile cs)
        have hplain : (cs.takeWhile Char.isDigit ++ front).head?.any isAlphabetic = false := by
          have happend := List.takeWhile_append_dropWhile (p := Char.isDigit) (l := cs)
          rw [hrest, ← List.append_assoc] at happend
          cases hrun' : cs.takeWhile Char.isDigit ++ front with
          | nil => rfl
          | cons d ds =>
            rw [← happend, hrun'] at hletter
            exact hletter
        rw [List.cons_append, fraction, if_neg (by rw [hplain]; exact Bool.false_ne_true),
          takeWhile_run hrun hstop,
          dropWhile_run hrun hstop]
    · have hcs := fraction_of_ne hc cs
      rw [hcs] at h
      refine hnone hcs h fun ds hds => ?_
      rw [hds] at h
      exact absurd (List.cons.inj h).1 hc

/-- A number is digits, a fraction and an exponent. -/
theorem numberLexeme_run {digits rest : List Char} (hdigits : digits.all Char.isDigit = true)
    (hrest : ∀ c ∈ rest.head?, c.isDigit = false) :
    numberLexeme (digits ++ rest) =
      ⟨if (fraction rest).1.isEmpty && (exponent (fraction rest).2).1.isEmpty then .integer else .real,
        digits ++ (fraction rest).1 ++ (exponent (fraction rest).2).1,
        (exponent (fraction rest).2).2⟩ := by
  simp only [numberLexeme, takeWhile_run hdigits hrest, dropWhile_run hdigits hrest]

/-- An exponent begins with no point. -/
theorem exponent_ne_point (cs ds : List Char) : (exponent cs).1 ≠ '.' :: ds := by
  cases hstarts : startsExponent cs with
  | false =>
    rw [exponent_of_not_startsExponent hstarts]
    nofun
  | true =>
    cases cs with
    | nil => cases hstarts
    | cons e cs =>
      rw [exponent_of_startsExponent hstarts]
      intro heq
      rw [(List.cons.inj heq).1] at hstarts
      cases hstarts

/-- A number is read in the same way in a text that is cut behind it, unless the cut takes away the
letter behind its point. -/
theorem numberLexeme_cut {cs front back : List Char} (h : (numberLexeme cs).rest = front ++ back)
    (hdot : (numberLexeme cs).kind = .integer → front = ['.'] →
      back.head?.any isAlphabetic = false) :
    numberLexeme ((numberLexeme cs).text ++ front) =
      ⟨(numberLexeme cs).kind, (numberLexeme cs).text, front⟩ := by
  obtain ⟨digits, ds, hdigits, hds, rfl⟩ : ∃ digits ds : List Char, digits.all Char.isDigit = true ∧
      (∀ c ∈ ds.head?, c.isDigit = false) ∧ cs = digits ++ ds :=
    ⟨cs.takeWhile Char.isDigit, cs.dropWhile Char.isDigit, List.all_takeWhile, head?_dropWhile cs,
      List.takeWhile_append_dropWhile.symm⟩
  rw [numberLexeme_run hdigits hds] at h hdot ⊢
  have hpower := exponent_cut h
  have hrest : (fraction ds).2 = (exponent (fraction ds).2).1 ++ front ++ back := by
    rw [List.append_assoc, ← show _ = front ++ back from h, exponent_append]
  have hpart := fraction_cut hrest fun hnone hpoint => by
    cases hexponent : (exponent (fraction ds).2).1 with
    | nil =>
      rw [hexponent] at hpoint
      exact hdot (by rw [hnone, hexponent]; rfl) hpoint
    | cons e es =>
      rw [hexponent] at hpoint
      exact absurd (hexponent.trans ((List.cons.inj hpoint).1 ▸ rfl)) (exponent_ne_point _ es)
  have hall : (fraction ds).1 ++ ((exponent (fraction ds).2).1 ++ front) ++ back = ds := by
    rw [List.append_assoc, ← hrest, fraction_append]
  have hstop : ∀ c ∈ ((fraction ds).1 ++ ((exponent (fraction ds).2).1 ++ front)).head?,
      c.isDigit = false := head?_of_append (hall.symm ▸ hds)
  simp only [List.append_assoc]
  rw [numberLexeme_run hdigits hstop, hpart, hpower]
  simp only [List.append_assoc]

/-- A point and a digit behind it are read together. -/
theorem numberLexeme_point {cs : List Char} (h : cs.head?.any Char.isDigit = true) :
    2 ≤ (numberLexeme ('.' :: cs)).text.length := by
  cases cs with
  | nil => cases h
  | cons d cs =>
    have hd : d.isDigit = true := h
    simp [numberLexeme, fraction, isAlphabetic_eq_false_of_isDigit hd, hd]

section Cut

variable {c : Char} {cs ds front back : List Char}

/-- So is a string. -/
theorem stringLexeme_cut (h : (stringLexeme c cs).rest = front ++ back)
    (hds : c :: ds = (stringLexeme c cs).text ++ front) :
    stringLexeme c ds = ⟨(stringLexeme c cs).kind, (stringLexeme c cs).text, front⟩ := by
  have hinner : ds = (quotedBody c isEscapable cs).text ++ front := (List.cons.inj hds).2
  have hbody : quotedBody c isEscapable ds = _ := hinner ▸ quotedBody_cut h
  simp only [stringLexeme, hbody]

/-- So is a quoted name. -/
theorem quotedNameLexeme_cut (h : (quotedNameLexeme cs).rest = front ++ back)
    (hds : c :: ds = (quotedNameLexeme cs).text ++ front) :
    quotedNameLexeme ds = ⟨(quotedNameLexeme cs).kind, (quotedNameLexeme cs).text, front⟩ := by
  have hinner : ds = (quotedBody backtick (fun _ => false) cs).text ++ front :=
    (List.cons.inj hds).2
  have hbody : quotedBody backtick (fun _ => false) ds = _ := hinner ▸ quotedBody_cut h
  simp only [quotedNameLexeme, hbody]

/-- So is a word. -/
theorem nameLexeme_cut (h : (nameLexeme c cs).rest = front ++ back)
    (hds : c :: ds = (nameLexeme c cs).text ++ front) :
    nameLexeme c ds = ⟨(nameLexeme c cs).kind, (nameLexeme c cs).text, front⟩ := by
  have hinner : ds = cs.takeWhile isNamePart ++ front := (List.cons.inj hds).2
  have hrest : cs.dropWhile isNamePart = front ++ back := h
  have hrun : (cs.takeWhile isNamePart).all isNamePart = true := List.all_takeWhile
  have hstop : ∀ c ∈ front.head?, isNamePart c = false :=
    head?_of_append (hrest ▸ head?_dropWhile cs)
  simp only [nameLexeme, hinner, takeWhile_run hrun hstop, dropWhile_run hrun hstop]

/-- So is a sign, unless a longer one is cut. -/
theorem symbolLexeme_cut (h : (symbolLexeme c cs).rest = front ++ back)
    (hds : c :: ds = (symbolLexeme c cs).text ++ front) :
    symbolLexeme c ds = ⟨(symbolLexeme c cs).kind, (symbolLexeme c cs).text, front⟩ := by
  cases cs with
  | nil =>
    obtain ⟨rfl, rfl⟩ := List.append_eq_nil_iff.1 h.symm
    obtain ⟨-, rfl⟩ := List.cons.inj hds
    rfl
  | cons d cs =>
    cases hsign : doubleSymbol? c d with
    | some sign =>
      have hlexeme (rest : List Char) : symbolLexeme c (d :: rest) = ⟨.symbol sign, [c, d], rest⟩ := by
        simp only [symbolLexeme, hsign]
      rw [hlexeme] at h hds ⊢
      obtain ⟨-, rfl⟩ := List.cons.inj hds
      exact hlexeme front
    | none =>
      have hlexeme (rest : List Char) : symbolLexeme c (d :: rest) = singleLexeme c (d :: rest) := by
        simp only [symbolLexeme, hsign]
      rw [hlexeme] at h hds ⊢
      obtain ⟨-, rfl⟩ := List.cons.inj hds
      cases ds with
      | nil => rfl
      | cons e ds =>
        obtain ⟨rfl, -⟩ := List.cons.inj h
        exact hlexeme ds

/-- The text of a lexeme starts with the character that the lexeme is read at. -/
theorem exists_text_cons (c : Char) (cs front : List Char) :
    ∃ ds, c :: ds = (lexeme c cs).text ++ front := by
  have happend := lexeme_append c cs
  cases htext : (lexeme c cs).text with
  | nil => exact absurd htext (lexeme_text_ne_nil c cs)
  | cons d text =>
    rw [htext] at happend
    exact ⟨text ++ front, by rw [(List.cons.inj happend).1]; rfl⟩

/-- Up to the cut, the text stays the same. -/
theorem eq_append_of_rest (h : (lexeme c cs).rest = front ++ back)
    (hds : c :: ds = (lexeme c cs).text ++ front) : cs = ds ++ back := by
  have happend := lexeme_append c cs
  rw [h, ← List.append_assoc, ← hds] at happend
  exact (List.cons.inj happend).2.symm

/-- A lexeme is read again from a text that is cut somewhere behind it. -/
theorem lexeme_cut (h : (lexeme c cs).rest = front ++ back)
    (hdot : (lexeme c cs).kind = .integer → front = ['.'] → back.head?.any isAlphabetic = false)
    (hds : c :: ds = (lexeme c cs).text ++ front) :
    lexeme c ds = ⟨(lexeme c cs).kind, (lexeme c cs).text, front⟩ := by
  have hcs := eq_append_of_rest h hds
  -- The first character decides, and for a point the digit behind it. Both stay in the cut text.
  by_cases hmark : c = quoteMark ∨ c = doubleMark
  · have hlexeme (cs : List Char) : lexeme c cs = stringLexeme c cs := if_pos hmark
    rw [hlexeme] at h hds
    rw [hlexeme, hlexeme]
    exact stringLexeme_cut h hds
  by_cases htick : c = backtick
  · have hlexeme (cs : List Char) : lexeme c cs = quotedNameLexeme cs := by
      rw [lexeme, if_neg hmark, if_pos htick]
    rw [hlexeme] at h hds
    rw [hlexeme, hlexeme]
    exact quotedNameLexeme_cut h hds
  have hlexeme (cs : List Char) : lexeme c cs =
      if c.isDigit ∨ (c = '.' ∧ cs.head?.any Char.isDigit = true) then numberLexeme (c :: cs)
      else if isNameStart c then nameLexeme c cs
      else symbolLexeme c cs := by
    rw [lexeme, if_neg hmark, if_neg htick]
  rw [hlexeme] at h hds hdot
  rw [hlexeme, hlexeme]
  by_cases hnumber : c.isDigit ∨ (c = '.' ∧ cs.head?.any Char.isDigit = true)
  · rw [if_pos hnumber] at h hds hdot ⊢
    have hagain : c.isDigit ∨ (c = '.' ∧ ds.head?.any Char.isDigit = true) := by
      refine hnumber.imp id fun hpoint => ⟨hpoint.1, ?_⟩
      have hdigit := hpoint.2
      cases ds with
      | nil =>
        obtain rfl := hpoint.1
        have hlength := congrArg List.length hds
        have htwo := numberLexeme_point hdigit
        -- A point alone is too short for a number.
        simp only [List.length_cons, List.length_nil, List.length_append] at hlength
        omega
      | cons d ds => rwa [hcs] at hdigit
    rw [if_pos hagain, hds]
    exact numberLexeme_cut h hdot
  · have hagain : ¬(c.isDigit ∨ (c = '.' ∧ ds.head?.any Char.isDigit = true)) := by
      refine mt (Or.imp id fun hpoint => ⟨hpoint.1, ?_⟩) hnumber
      have hdigit := hpoint.2
      cases ds with
      | nil => cases hdigit
      | cons d ds => rwa [hcs]
    rw [if_neg hnumber] at h hds ⊢
    rw [if_neg hagain]
    split
    · next hname =>
      rw [if_pos hname] at h hds
      exact nameLexeme_cut h hds
    · next hname =>
      rw [if_neg hname] at h hds
      exact symbolLexeme_cut h hds

end Cut

/-! ## Gaps in a cut text -/

/-- A comment that is closed is read again in front of anything. -/
theorem blockComment_again {cs : List Char} (h : (blockComment cs).2 ≠ []) (rest : List Char) :
    blockComment ((blockComment cs).1 ++ rest) = ((blockComment cs).1, rest) := by
  fun_induction blockComment cs with
  | case1 => exact absurd rfl h
  | case2 cs => rfl
  | case3 c cs hopen ih =>
    have happend := blockComment_append cs
    obtain ⟨d, ds, hds⟩ : ∃ d ds, (blockComment cs).1 = d :: ds := by
      cases hbody : (blockComment cs).1 with
      | cons d ds => exact ⟨d, ds, rfl⟩
      | nil =>
        fun_cases blockComment cs with
        | case1 => exact absurd rfl h
        | case2 => simp [blockComment] at hbody
        | case3 _ _ hopen' => simp [blockComment] at hbody
    have hrest := ih h
    rw [hds] at hrest happend ⊢
    rw [List.cons_append, List.cons_append, blockComment]
    · rw [← List.cons_append, hrest]
    · rintro rest' rfl heq
      obtain ⟨rfl, -⟩ := List.cons.inj heq
      exact hopen _ rfl happend.symm

/-- Behind a gap there is no further gap. -/
theorem gap_again (cs : List Char) : gap (gap cs).2 = ([], (gap cs).2) := by
  fun_induction gap cs with
  | case1 => rw [gap]
  | case2 rest line next ih => exact ih
  | case3 rest comment next ih => exact ih
  | case4 c rest hline hblock hblank ih => exact ih
  | case5 c rest hline hblock hblank =>
    rw [gap]
    · rw [if_neg hblank]
    · exact hline
    · exact hblock

/-- Blanks and comments are passed in the same way in a text that is cut behind them. -/
theorem gap_cut {cs front back : List Char} (h : (gap cs).2 = front ++ back) (hne : front ≠ []) :
    gap ((gap cs).1 ++ front) = ((gap cs).1, front) := by
  fun_induction gap cs with
  | case1 => exact absurd (List.append_eq_nil_iff.1 h.symm).1 hne
  -- A comment up to the end of its line: the cut is behind the line break, so the line is the
  -- same.
  | case2 rest line next ih =>
    have hnext := ih h
    have happend : rest.dropWhile (· ≠ '\n') = next.1 ++ front ++ back := by
      rw [List.append_assoc, ← show next.2 = front ++ back from h]
      exact (gap_append _).symm
    have hrun : line.all (· ≠ '\n') = true := List.all_takeWhile
    have hstop : ∀ c ∈ (next.1 ++ front).head?, decide (c ≠ '\n') = false :=
      head?_of_append (happend ▸ head?_dropWhile rest)
    show gap ('-' :: '-' :: (line ++ next.1 ++ front)) = _
    rw [gap, List.append_assoc]
    simp only [takeWhile_run hrun hstop, dropWhile_run hrun hstop]
    rw [hnext]
  -- A comment between marks is closed in front of the cut, or nothing would be left behind it.
  | case3 rest comment next ih =>
    have hclosed : comment.2 ≠ [] := by
      intro hnil
      have hnext : next.2 = [] := by simp [next, hnil, gap]
      exact absurd (List.append_eq_nil_iff.1 (h.symm.trans hnext)).1 hne
    have hnext := ih h
    show gap ('/' :: '*' :: (comment.1 ++ next.1 ++ front)) = _
    rw [gap, List.append_assoc]
    simp only [show blockComment (comment.1 ++ (next.1 ++ front)) = _ from
      blockComment_again hclosed _]
    rw [hnext]
  | case4 c rest hline hblock hblank ih =>
    rw [List.cons_append, gap_of_blank hblank, ih h]
  -- Where no gap starts, a mark for one would need a character that the cut has kept.
  | case5 c rest hline hblock hblank =>
    cases front with
    | nil => exact absurd rfl hne
    | cons d front =>
      obtain ⟨rfl, hrest⟩ := List.cons.inj h
      refine gap_of_not_startsGap ?_
      have hhead {e : Char} (hfront : front.head? = some e) : ∃ es, rest = e :: es := by
        cases front with
        | nil => cases hfront
        | cons e' front =>
          cases hfront
          exact ⟨_, hrest⟩
      simp only [startsGap, Bool.or_eq_false_iff, Bool.and_eq_false_iff, beq_eq_false_iff_ne]
      refine ⟨⟨by simpa using hblank, ?_⟩, ?_⟩
      · refine Classical.or_iff_not_imp_left.2 fun hc hfront => ?_
        obtain ⟨es, hes⟩ := hhead hfront
        exact hline _ (Classical.not_not.1 hc) hes
      · refine Classical.or_iff_not_imp_left.2 fun hc hfront => ?_
        obtain ⟨es, hes⟩ := hhead hfront
        exact hblock _ (Classical.not_not.1 hc) hes

/-! ## Token lists of a cut text -/

/-- A letter starts a word. -/
theorem tokensFrom_letter {c : Char} (h : isAlphabetic c = true) (offset : Nat) (cs : List Char) :
    ∃ word t tokens, tokensFrom offset (c :: cs) = t :: tokens ∧ t.kind = bareKind word ∧
      t.span.start = offset := by
  have hname : isNameStart c = true := by simp [isNameStart, h]
  have hgap := gap_of_not_startsGap (startsGap_of_isNameStart hname cs)
  have hkind : (lexeme c cs).kind = bareKind (String.ofList (c :: cs.takeWhile isNamePart)) :=
    congrArg Lexeme.kind (lexeme_bare hname cs)
  refine ⟨_, _, _, tokensFrom_cons (c := c) (congrArg Prod.snd hgap), hkind, ?_⟩
  rw [hgap]
  rfl

/-- The gap in front of the first token only moves the tokens. -/
theorem tokensFrom_gap (offset : Nat) (cs : List Char) :
    tokensFrom (offset + byteLength (gap cs).1) (gap cs).2 = tokensFrom offset cs := by
  have hgap := gap_again cs
  cases hrest : (gap cs).2 with
  | nil =>
    rw [hrest] at hgap
    rw [tokensFrom_nil hrest, tokensFrom_nil (congrArg Prod.snd hgap), hgap]
    rfl
  | cons c rest =>
    rw [hrest] at hgap
    rw [tokensFrom_cons hrest, tokensFrom_cons (congrArg Prod.snd hgap), hgap]
    rfl

/-- The first token starts behind the gap. -/
theorem start_tokensFrom {offset : Nat} {cs : List Char} {t : Token} {tokens : List Token}
    (h : tokensFrom offset cs = t :: tokens) :
    t.span.start = offset + byteLength (gap cs).1 := by
  cases hgap : (gap cs).2 with
  | nil =>
    rw [tokensFrom_nil hgap] at h
    rw [← (List.cons.inj h).1]
    rfl
  | cons c rest =>
    rw [tokensFrom_cons hgap] at h
    rw [← (List.cons.inj h).1]

/-- Where the last of `tokens` ends, which start at `offset`. -/
def stopOf (offset : Nat) (tokens : List Token) : Nat :=
  (tokens.getLast?.map fun t => t.span.stop).getD offset

@[simp] theorem stopOf_nil (offset : Nat) : stopOf offset [] = offset := rfl

@[simp] theorem stopOf_cons (offset : Nat) (t : Token) (tokens : List Token) :
    stopOf offset (t :: tokens) = stopOf t.span.stop tokens := by
  unfold stopOf
  rw [List.getLast?_cons]
  cases tokens.getLast? <;> rfl

/-- A text is cut behind any of its tokens that no word follows directly: up to there the tokens are
the same, and from there on too. -/
theorem tokensFrom_cut {body rest : List Token} {offset : Nat} {cs : List Char}
    (h : tokensFrom offset cs = body ++ rest)
    (hrest : ∃ t ∈ rest.head?, (∀ word, t.kind ≠ bareKind word) ∨
      t.span.start ≠ stopOf offset body) :
    ∃ front back, cs = front ++ back ∧
      tokensFrom offset front = body ++ [endOfInput (offset + byteLength front)] ∧
      tokensFrom (offset + byteLength front) back = rest ∧
      stopOf offset body = offset + byteLength front := by
  induction body generalizing offset cs with
  | nil =>
    have hgap : gap [] = ([], []) := by simp [gap]
    refine ⟨[], cs, rfl, ?_, h, rfl⟩
    rw [tokensFrom_nil (congrArg Prod.snd hgap), hgap]
    rfl
  | cons t body ih =>
    cases hgap : (gap cs).2 with
    | nil =>
      -- Only the end of the text is left, which is not followed by anything.
      rw [tokensFrom_nil hgap] at h
      have hnil := (List.append_eq_nil_iff.1 (List.cons.inj h).2.symm).2
      obtain ⟨u, hu, -⟩ := hrest
      rw [hnil] at hu
      cases hu
    | cons c ds =>
      rw [tokensFrom_cons hgap] at h
      obtain ⟨rfl, htail⟩ := List.cons.inj h
      rw [stopOf_cons] at hrest
      obtain ⟨front, back, hsplit, hfront, hback, hlast⟩ := ih htail hrest
      have hdot : front = ['.'] → back.head?.any isAlphabetic = false := by
        intro _
        cases back with
        | nil => rfl
        | cons d back =>
          rw [← Bool.not_eq_true]
          intro hletter
          obtain ⟨word, u, tokens, htokens, hkind, hstart⟩ := tokensFrom_letter hletter _ back
          obtain ⟨v, hv, hnext⟩ := hrest
          rw [← hback, htokens] at hv
          cases hv
          rcases hnext with hword | hplace
          · exact hword word hkind
          · exact hplace (hstart.trans hlast.symm)
      obtain ⟨es, hes⟩ := exists_text_cons c ds front
      have hlexeme := lexeme_cut hsplit (fun _ => hdot) hes
      have hall : (gap cs).2 = (lexeme c ds).text ++ front ++ back := by
        rw [hgap, List.append_assoc, ← hsplit, lexeme_append]
      have hcut := gap_cut hall (hes ▸ List.cons_ne_nil c es)
      have hbytes : offset + byteLength (gap cs).1 + byteLength (lexeme c ds).text +
          byteLength front =
            offset + byteLength ((gap cs).1 ++ ((lexeme c ds).text ++ front)) := by
        simp only [byteLength_append, Nat.add_assoc]
      refine ⟨(gap cs).1 ++ ((lexeme c ds).text ++ front), back, ?_, ?_, ?_, ?_⟩
      · rw [List.append_assoc, ← hall, gap_append]
      · rw [tokensFrom_cons (show (gap ((gap cs).1 ++ ((lexeme c ds).text ++ front))).2 = c :: es by
            rw [hcut]; exact hes.symm), hcut, hlexeme,
          hfront, hbytes]
        rfl
      · rw [← hbytes]
        exact hback
      · rw [← hbytes, ← hlast, stopOf_cons]

end SearchSql.Token
