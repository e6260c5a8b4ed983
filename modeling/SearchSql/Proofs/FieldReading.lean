import SearchSql.Proofs.NameReading
import SearchSql.Proofs.Retelling

/-!
# Fields in front of other tokens

A field ends where no dot goes on with it. So the tokens that are a field on their own are the same
field in front of any tokens but a dot (`field_again`), such as the equals sign in front of a
relevance function, or a comma.
-/

set_option autoImplicit false

namespace SearchSql.Grammar

open SearchSql.Grammar.Parser

variable {s s' t : State} {read left right : List Token}

/-- The first tokens ahead are those that are read in front of the others. -/
theorem State.Faces.read_eq {first : List Token} (hs : s.Faces (read ++ left))
    (h : s.Faces (first ++ left)) : read = first :=
  List.append_cancel_right (hs.symm.trans h)

/-- A state faces its own token and what it faces behind it. -/
theorem State.Faces.cons (ht : (s.skip 1).Faces left) (hend : s.cursor.current.isEnd = false) :
    s.Faces (s.cursor.current.placeless :: left) := by
  unfold State.Faces at ht ⊢
  rw [ahead_eq_cons hend, List.map_cons]
  exact congrArg _ ht

/-- A token that is read alone is read in front of other tokens. -/
theorem State.Faces.single (hs : s.Faces (read ++ left)) (ht : (s.skip 1).Faces left)
    (hend : s.cursor.current.isEnd = false) (hs' : s'.Faces (read ++ right)) :
    s'.cursor.current.placeless = s.cursor.current.placeless ∧ (s'.skip 1).Faces right := by
  obtain rfl : read = [s.cursor.current.placeless] := hs.read_eq (ht.cons hend)
  exact ⟨hs'.current_placeless, hs'.skip hend⟩

/-! ## Names -/

/-- A bare name is an identifier. -/
theorem ident_of_name {value : String} (h : s.cursor.current.kind = .name value) :
    ident s = .ok ⟨value, false, s.cursor.current.span⟩ (s.skip 1) := by
  unfold ident
  rw [current_bind_apply]
  simp only [h]
  rfl

/-- A name between backticks is an identifier. -/
theorem ident_of_quotedName {value : String} (h : s.cursor.current.kind = .quotedName value) :
    ident s = .ok ⟨value, true, s.cursor.current.span⟩ (s.skip 1) := by
  unfold ident
  rw [current_bind_apply]
  simp only [h]
  rfl

/-- A reserved word that may be a name is an identifier. -/
theorem ident_of_keyword {word : Keyword} (h : s.cursor.current.kind = .keyword word)
    (hlike : word.isNameLike = true) :
    ident s = .ok ⟨s.cursor.current.text, false, s.cursor.current.span⟩ (s.skip 1) := by
  unfold ident
  rw [current_bind_apply]
  simp only [h, hlike, if_true]
  rfl

/-- A dot and the name behind it are one identifier. -/
theorem ident_of_dot {value : String} (h : s.cursor.current.kind = .symbol .dot)
    (hname : (s.cursor.peek 1).kind = .name value) :
    ident s = .ok ⟨"." ++ value, false, s.cursor.current.span.merge (s.skip 1).cursor.current.span⟩
      ((s.skip 1).skip 1) := by
  unfold ident
  rw [current_bind_apply]
  simp only [h]
  rw [peek_bind_apply]
  simp only [hname]
  rfl

/-- An identifier is read again in front of any other tokens. -/
theorem ident_again {name : Ident} (h : ident s = .ok name t) (hs : s.Faces (read ++ left))
    (ht : t.Faces left) (hs' : s'.Faces (read ++ right)) :
    ∃ name' t', ident s' = .ok name' t' ∧ View.placeless.ident name' = View.placeless.ident name ∧
      t'.Faces right := by
  obtain ⟨rfl, -, hdenotes⟩ | ⟨value, hdot, hname, rfl, rfl⟩ := ident_eq_ok h
  · -- A single token.
    obtain ⟨hfirst, hrest⟩ := hs.single ht (isEnd_of_name hdenotes) hs'
    have hkind : s'.cursor.current.placeless.kind = s.cursor.current.placeless.kind :=
      congrArg Token.kind hfirst
    have htext : s'.cursor.current.placeless.text = s.cursor.current.placeless.text :=
      congrArg Token.text hfirst
    -- Bare, between backticks, or a word that is reserved elsewhere.
    obtain hname | hquoted | ⟨word, hword, hlike, -⟩ := hdenotes
    · rw [ident_of_name hname] at h
      have hview : View.placeless.ident _ = _ :=
        congrArg View.placeless.ident (EStateM.Result.ok.inj h).1
      exact ⟨_, _, ident_of_name (hkind.trans hname), hview, hrest⟩
    · rw [ident_of_quotedName hquoted] at h
      have hview : View.placeless.ident _ = _ :=
        congrArg View.placeless.ident (EStateM.Result.ok.inj h).1
      exact ⟨_, _, ident_of_quotedName (hkind.trans hquoted), hview, hrest⟩
    · rw [ident_of_keyword hword hlike] at h
      have hview : View.placeless.ident _ = _ :=
        congrArg View.placeless.ident (EStateM.Result.ok.inj h).1
      rw [← show s'.cursor.current.text = s.cursor.current.text from htext] at hview
      exact ⟨_, _, ident_of_keyword (hkind.trans hword) hlike, hview, hrest⟩
  · -- A dot and a bare name.
    have hend : s.cursor.current.isEnd = false := isEnd_of_symbol hdot
    have hsecond : (s.skip 1).cursor.current.kind = .name value := by
      rw [State.skip_cursor, Cursor.current_skip_one hend, hname]
    have hend' : (s.skip 1).cursor.current.isEnd = false := isEnd_eq_false (hsecond ▸ nofun)
    obtain rfl : read = [s.cursor.current.placeless, (s.skip 1).cursor.current.placeless] :=
      hs.read_eq ((ht.cons hend').cons hend)
    have hname' : (s'.cursor.peek 1).kind = .name value := (hs'.peek 1).trans hsecond
    exact ⟨_, _, ident_of_dot (hs'.current.trans hdot) hname', rfl, (hs'.skip hend).skip hend'⟩

/-- The tokens a run takes are in front of those it leaves. -/
theorem State.Faces.leads {tokens : List Token} (hs : s.Faces tokens) (h : s.Leads t) :
    ∃ read left, tokens = read ++ left ∧ t.Faces left := by
  obtain ⟨read, hread⟩ := h.ahead.map Token.placeless
  exact ⟨read, _, (hread.trans hs).symm, rfl⟩

/-- A name goes on with a dot and a segment, or ends. -/
theorem namePart_eq_ok {names : List Ident × Span} {r : ForInStep (List Ident × Span)}
    (h : namePart names s = .ok r t) :
    (r = .done names ∧ t = s) ∨
      ∃ part, r = .yield (part :: names.1, names.2.merge part.span) ∧
        s.cursor.current.kind = .symbol .dot ∧ (s.cursor.peek 1).kind.isNameLike = true ∧
        ident (s.skip 1) = .ok part t := by
  unfold namePart at h
  rw [atSymbol_bind_apply, peek_bind_apply] at h
  split at h
  · next hboth =>
    obtain ⟨hdot, hnext⟩ := Bool.and_eq_true_iff.1 hboth
    rw [skip_bind_apply] at h
    obtain ⟨part, u, hpart, hrest⟩ := bind_eq_ok_iff.1 h
    obtain ⟨rfl, rfl⟩ := pure_eq_ok_iff.1 hrest
    exact .inr ⟨part, rfl, eq_of_beq hdot, hnext, hpart⟩
  · obtain ⟨rfl, rfl⟩ := pure_eq_ok_iff.1 h
    exact .inl ⟨rfl, rfl⟩

/-- Behind a dot another segment of the name is read. -/
theorem namePart_of_ident {part : Ident} (names : List Ident × Span)
    (hdot : s.cursor.current.kind = .symbol .dot) (hnext : (s.cursor.peek 1).kind.isNameLike = true)
    (hpart : ident (s.skip 1) = .ok part t) :
    namePart names s = .ok (.yield (part :: names.1, names.2.merge part.span)) t := by
  unfold namePart
  rw [atSymbol_bind_apply, peek_bind_apply,
    if_pos (Bool.and_eq_true_iff.2 ⟨beq_iff_eq.2 hdot, hnext⟩), skip_bind_apply, bind_of_ok hpart]
  rfl

/-- Rounds of steady steps are steady. -/
theorem Rounds.leads {α : Type} {step : α → Parser (ForInStep α)} (hsteady : ∀ a, Steady (step a))
    {a b : α} (h : Rounds step a s b t) : s.Leads t := by
  induction h with
  | last hstep => exact (hsteady _).leads hstep
  | more hstep _ ih => exact ((hsteady _).leads hstep).trans ih

/-- A segment of a name is steady. -/
theorem steady_namePart (names : List Ident × Span) : Steady (namePart names) :=
  (steady_congruence.namePart (b := 0) names).1

/-- The segments behind the first are read again in front of any tokens but a dot. -/
theorem rounds_again {names names' found : List Ident × Span} (h : Rounds namePart names s found t)
    (hs : s.Faces (read ++ left)) (ht : t.Faces left) (hs' : s'.Faces (read ++ right))
    (hdot : kindAt right 0 ≠ .symbol .dot)
    (hnames : names'.1.map View.placeless.ident = names.1.map View.placeless.ident) :
    ∃ found' t', Rounds namePart names' s' found' t' ∧
      found'.1.map View.placeless.ident = found.1.map View.placeless.ident ∧ t'.Faces right := by
  induction h generalizing s' names' read with
  | last hstep =>
    obtain ⟨hdone, rfl⟩ | ⟨part, hdone, -⟩ := namePart_eq_ok hstep
    · obtain rfl : read = [] := hs.read_eq ht
      cases hdone
      exact ⟨names', s', .last (namePart_done names' (.inl hdot) hs'), hnames, hs'⟩
    · cases hdone
  | @more names names₁ found s u t hstep hrounds ih =>
    obtain ⟨hdone, -⟩ | ⟨part, hyield, hsign, hnext, hpart⟩ := namePart_eq_ok hstep
    · cases hdone
    cases hyield
    have hend : s.cursor.current.isEnd = false := isEnd_of_symbol hsign
    have hsecond : (s.skip 1).cursor.current.kind.isNameLike = true := by
      rw [State.skip_cursor, Cursor.current_skip_one hend]
      exact hnext
    obtain ⟨rfl, -, hdenotes⟩ | ⟨value, hdot, -⟩ := ident_eq_ok hpart
    swap
    · rw [hdot] at hsecond
      cases hsecond
    -- The dot, the token of the segment, and those of the segments behind it.
    obtain ⟨more, left', hu, ht'⟩ := State.Faces.leads (rfl : ((s.skip 1).skip 1).Faces _)
      (hrounds.leads steady_namePart)
    obtain rfl : left' = left := ht'.symm.trans ht
    replace hu : ((s.skip 1).skip 1).Faces (more ++ left') := hu
    have hend' := isEnd_of_name hdenotes
    obtain rfl : read = s.cursor.current.placeless :: (s.skip 1).cursor.current.placeless :: more :=
      hs.read_eq ((hu.cons hend').cons hend)
    have hsegment : (s.skip 1).Faces ([(s.skip 1).cursor.current.placeless] ++ (more ++ left')) :=
      hu.cons hend'
    obtain ⟨part', u', hpart', hview, hu'⟩ := ident_again hpart hsegment hu (hs'.skip hend)
    have hnext' : (s'.cursor.peek 1).kind.isNameLike = true := by
      rw [hs'.peek]
      exact hsecond
    have hnames' : (part' :: names'.1, names'.2.merge part'.span).1.map View.placeless.ident =
        (part :: names.1, names.2.merge part.span).1.map View.placeless.ident := by
      rw [List.map_cons, List.map_cons, hview, hnames]
    obtain ⟨found', t', hrounds', hfound, ht'⟩ := ih hu ht hu' hnames'
    exact ⟨found', t', .more (namePart_of_ident names' (hs'.current.trans hsign) hnext' hpart') hrounds',
      hfound, ht'⟩

/-- A name is read again in front of any tokens but a dot. -/
theorem qualifiedName_again {name : QualifiedName} (h : qualifiedName s = .ok name t)
    (hs : s.Faces (read ++ left)) (ht : t.Faces left) (hs' : s'.Faces (read ++ right))
    (hdot : kindAt right 0 ≠ .symbol .dot) :
    ∃ name' t', qualifiedName s' = .ok name' t' ∧ name'.view .placeless = name.view .placeless ∧
      t'.Faces right := by
  rw [qualifiedName_eq] at h ⊢
  obtain ⟨first, u, hfirst, hrest⟩ := bind_eq_ok_iff.1 h
  obtain ⟨names, v, hloop, hend⟩ := bind_eq_ok_iff.1 hrest
  obtain ⟨rfl, rfl⟩ := pure_eq_ok_iff.1 hend
  have hrounds := (loop_eq_ok_iff Congruence.advances_namePart).1 hloop
  obtain ⟨ahead, left', hahead, ht'⟩ := State.Faces.leads (rfl : u.Faces _)
    (hrounds.leads steady_namePart)
  obtain rfl : left' = left := ht'.symm.trans ht
  replace hahead : u.Faces (ahead ++ left') := hahead
  obtain ⟨front, behind, hfront, hbehind⟩ := hs.leads (steady_ident.leads hfirst)
  obtain rfl : behind = ahead ++ left' := hbehind.symm.trans hahead
  obtain rfl : read = front ++ ahead := hs.read_eq (by rwa [List.append_assoc, ← hfront])
  rw [List.append_assoc] at hs hs'
  obtain ⟨first', u', hfirst', hview, hu'⟩ := ident_again hfirst hs hahead hs'
  have hfirsts : ([first'], first'.span).1.map View.placeless.ident =
      ([first], first.span).1.map View.placeless.ident := congrArg (fun name => [name]) hview
  obtain ⟨names', t', hrounds', hnames, ht'⟩ := rounds_again hrounds hahead ht hu' hdot hfirsts
  refine ⟨⟨names'.1.reverse, names'.2⟩, t', ?_, ?_, ht'⟩
  · rw [bind_of_ok hfirst', bind_of_ok ((loop_eq_ok_iff Congruence.advances_namePart).2 hrounds')]
    rfl
  · simp only [QualifiedName.view, List.map_reverse, hnames]
    rfl

/-- A string is a field between quotes. -/
theorem field_of_string {value : String} (h : s.cursor.current.kind = .string value) :
    field s = .ok (.quoted value s.cursor.current.span) (s.skip 1) := by
  unfold field
  rw [current_bind_apply]
  simp only [h]
  rfl

/-- A field that is no string is a qualified name. -/
theorem field_of_ne (h : ∀ value, s.cursor.current.kind ≠ .string value) :
    field s = (Field.name <$> qualifiedName) s := by
  unfold field
  rw [current_bind_apply]
  cases hkind : s.cursor.current.kind with
  | string value => exact absurd hkind (h value)
  | _ => rfl

/-- No qualified name starts with a string. -/
theorem ne_string_of_qualifiedName {name : QualifiedName} (h : qualifiedName s = .ok name t)
    (value : String) : s.cursor.current.kind ≠ .string value := by
  intro hkind
  obtain ⟨first, u, hfirst, -⟩ := bind_eq_ok_iff.1 h
  unfold ident at hfirst
  rw [current_bind_apply] at hfirst
  simp only [hkind] at hfirst
  exact rejectCurrent_ne_ok hfirst

/-- A field is read again in front of any tokens but a dot. -/
theorem field_again {f : Field} (h : field s = .ok f t) (hs : s.Faces (read ++ left))
    (ht : t.Faces left) (hs' : s'.Faces (read ++ right)) (hdot : kindAt right 0 ≠ .symbol .dot) :
    ∃ f' t', field s' = .ok f' t' ∧ f'.view .placeless = f.view .placeless ∧ t'.Faces right := by
  by_cases hstring : ∃ value, s.cursor.current.kind = .string value
  · obtain ⟨value, hvalue⟩ := hstring
    rw [field_of_string hvalue] at h
    obtain ⟨rfl, rfl⟩ := EStateM.Result.ok.inj h
    obtain ⟨hfirst, hrest⟩ := hs.single ht (isEnd_eq_false (hvalue ▸ nofun)) hs'
    have hkind : s'.cursor.current.placeless.kind = s.cursor.current.placeless.kind :=
      congrArg Token.kind hfirst
    exact ⟨_, _, field_of_string (hkind.trans hvalue), rfl, hrest⟩
  · rw [field_of_ne fun value hvalue => hstring ⟨value, hvalue⟩] at h
    obtain ⟨name, hname, rfl⟩ := map_eq_ok_iff.1 h
    obtain ⟨name', t', hname', hview, ht'⟩ := qualifiedName_again hname hs ht hs' hdot
    refine ⟨.name name', t', ?_, congrArg Field.name hview, ht'⟩
    rw [field_of_ne (ne_string_of_qualifiedName hname')]
    exact map_eq_ok_iff.2 ⟨name', hname', rfl⟩

/-- A name and a parenthesis behind it. -/
theorem callName_of_faces {u : Token} (hend : u.isEnd = false)
    (hs : s.Faces (u :: .ofSymbol .leftParen :: left)) :
    callName s = .ok u.text ((s.skip 1).skip 1) ∧ ((s.skip 1).skip 1).Faces left := by
  have hskip := hs.skip hend
  have hparen : symbol .leftParen (s.skip 1) = .ok _ ((s.skip 1).skip 1) :=
    symbol_eq_ok_iff.2 ⟨hskip.current, rfl, rfl⟩
  refine ⟨?_, hskip.skip rfl⟩
  unfold callName
  rw [current_bind_apply, skip_bind_apply, bind_of_ok hparen, hs.text]
  rfl

/-- Looking over a field finds where reading it ends. -/
theorem afterField?_of_field {f : Field} (h : field s = .ok f t) :
    afterField? s.cursor.ahead = some t.cursor.ahead := by
  by_cases hstring : ∃ value, s.cursor.current.kind = .string value
  · obtain ⟨value, hvalue⟩ := hstring
    rw [field_of_string hvalue] at h
    obtain ⟨-, rfl⟩ := EStateM.Result.ok.inj h
    rw [ahead_eq_cons (isEnd_eq_false (hvalue ▸ nofun)), afterField?, hvalue]
    rfl
  · have hne (value : String) : s.cursor.current.kind ≠ .string value :=
      fun hvalue => hstring ⟨value, hvalue⟩
    rw [field_of_ne hne] at h
    obtain ⟨name, hname, -⟩ := map_eq_ok_iff.1 h
    have hafter := afterName?_of_qualifiedName hname
    cases hahead : s.cursor.ahead with
    | nil =>
      rw [hahead] at hafter
      cases hafter
    | cons u rest =>
      have hu : u.kind.isString = false := by
        have hkind : s.cursor.current.kind = u.kind := by rw [← kindAt_zero, hahead]; rfl
        rw [hkind] at hne
        cases hstring : u.kind with
        | string value => exact absurd hstring (hne value)
        | _ => rfl
      rw [afterField?, hu, if_neg Bool.false_ne_true, ← hahead, hafter]

end SearchSql.Grammar
