import SearchSql.Proofs.Height
import SearchSql.Proofs.ValueReading
import SearchSql.Proofs.WellFormed

/-!
# What parsers build

A parser `Builds` trees of some kind if all that it gives in front of tokens read from a text is of
that kind. Under `strict`, this is asked only of runs that recover from nothing. What comes to light
in the tokens is used up in the leaves of the tree: a name has characters because each token that
stands for a name has.
-/

set_option autoImplicit false

namespace SearchSql

namespace Grammar

open SearchSql.Grammar.Parser

variable {strict : Bool} {α β : Type}

/-! ## Parsers that build -/

/-- The tokens were read from a text, and under `strict` no error is recovered from. -/
structure State.Ready (strict : Bool) (s : State) : Prop where
  sound : ∀ t ∈ s.cursor.allTokens, t.Sound
  strict : strict = true → s.settings.recover = false

/-- Runs go on in tokens read from a text. -/
theorem State.Ready.leads {s t : State} (hs : s.Ready strict) (h : s.Leads t) : t.Ready strict :=
  ⟨h.allTokens ▸ hs.sound, fun hstrict => h.settings ▸ hs.strict hstrict⟩

/-- Nothing but the tokens and the mode matters. -/
theorem State.Ready.same {s t : State} (hs : s.Ready strict) (hcursor : t.cursor = s.cursor)
    (hsettings : t.settings = s.settings) : t.Ready strict :=
  ⟨hcursor ▸ hs.sound, fun hstrict => hsettings ▸ hs.strict hstrict⟩

/-- Each token has a text that goes with its kind. -/
theorem State.Ready.current {s : State} (hs : s.Ready strict) : s.cursor.current.Sound :=
  hs.sound _ s.cursor.current_mem_allTokens

/-- In front of tokens read from a text, all that the parser gives satisfies `P`. -/
def Builds (strict : Bool) (P : α → Prop) (p : Parser α) : Prop :=
  ∀ (s t : State) (a : α), s.Ready strict → p s = .ok a t → P a ∧ t.Ready strict

/-- Of whatever a steady parser gives, nothing in particular is known. -/
theorem Steady.builds {p : Parser α} (hp : Steady p) : Builds strict (fun _ => True) p :=
  fun _ _ _ hs heq => ⟨trivial, hs.leads (hp.leads heq)⟩

section

variable {P : α → Prop} {Q : β → Prop}

/-- What is known may be forgotten in part. -/
theorem Builds.imp {P' : α → Prop} {p : Parser α} (hp : Builds strict P p)
    (h : ∀ a, P a → P' a) : Builds strict P' p :=
  fun s t a hs heq => (hp s t a hs heq).imp_left (h a)

theorem builds_pure {a : α} (h : P a) : Builds strict P (pure a) := by
  intro s t b hs heq
  obtain ⟨rfl, rfl⟩ := pure_eq_ok_iff.1 heq
  exact ⟨h, hs⟩

theorem builds_reject (d : Diagnostic) : Builds strict P (reject d) :=
  fun _ _ _ _ heq => absurd heq reject_ne_ok

theorem builds_rejectCurrent (expected : String) : Builds strict P (rejectCurrent expected) :=
  fun _ _ _ _ heq => absurd heq rejectCurrent_ne_ok

/-- What is known of the first value is known to the next parser. -/
theorem Builds.bind {p : Parser α} {f : α → Parser β} (hp : Builds strict P p)
    (hf : ∀ a, P a → Builds strict Q (f a)) : Builds strict Q (p >>= f) := by
  intro s t b hs heq
  obtain ⟨a, u, hu, hrest⟩ := bind_eq_ok_iff.1 heq
  obtain ⟨ha, hready⟩ := hp s u a hs hu
  exact hf a ha u t b hready hrest

/-- What a steady parser gives need not be looked at. -/
theorem Steady.before {p : Parser α} {f : α → Parser β} (hp : Steady p)
    (hf : ∀ a, Builds strict Q (f a)) : Builds strict Q (p >>= f) :=
  hp.builds.bind fun a _ => hf a

/-- What is known of a value is known of what is made of it. -/
theorem Builds.map {p : Parser α} {f : α → β} (hp : Builds strict P p) (hf : ∀ a, P a → Q (f a)) :
    Builds strict Q (f <$> p) := hp.bind fun a ha => builds_pure (hf a ha)

theorem Builds.some {p : Parser α} {Q : Option α → Prop} (hp : Builds strict P p)
    (h : ∀ a, P a → Q (some a)) : Builds strict Q (some <$> p) := hp.map h

theorem builds_pure_bind {a : α} {f : α → Parser β} (h : Builds strict Q (f a)) :
    Builds strict Q (pure a >>= f) := by
  rwa [pure_bind]

/-- What looks at the state builds if it does for every state. -/
theorem builds_get_bind {f : State → Parser β} (hf : ∀ s, Builds strict Q (f s)) :
    Builds strict Q (get >>= f) := fun s => hf s s

/-- Each token under the cursor was read from the text. -/
theorem builds_current_bind {f : Token → Parser β} (hf : ∀ t, Builds strict Q (f t)) :
    Builds strict Q (current >>= f) := fun s => hf s.cursor.current s

theorem builds_peek_bind (k : Nat) {f : Token → Parser β} (hf : ∀ t, Builds strict Q (f t)) :
    Builds strict Q (peek k >>= f) := fun s => hf (s.cursor.peek k) s

theorem builds_atSymbol_bind (sign : Symbol) {f : Bool → Parser β}
    (hf : ∀ here, Builds strict Q (f here)) : Builds strict Q (atSymbol sign >>= f) :=
  builds_current_bind fun t => hf (t.kind == .symbol sign)

theorem builds_atKeyword_bind (word : Keyword) {f : Bool → Parser β}
    (hf : ∀ here, Builds strict Q (f here)) : Builds strict Q (atKeyword word >>= f) :=
  builds_current_bind fun t => hf (t.kind == .keyword word)

/-- Behind a refusal nothing is built. -/
theorem builds_rejectCurrent_bind (expected : String) (f : α → Parser β) :
    Builds strict Q (rejectCurrent expected >>= f) :=
  (builds_rejectCurrent (P := fun _ => False) expected).bind fun _ h => h.elim

end

section

variable {P : α → Prop} {Q : β → Prop}

/-! ## Levels, attempts and repetitions -/

theorem Builds.nest {p : Parser α} (hp : Builds strict P p) (cost : Nat) :
    Builds strict P (nest cost p) := by
  intro s t a hs heq
  obtain ⟨-, u, hu, rfl⟩ := nest_eq_ok_iff.1 heq
  obtain ⟨ha, hready⟩ := hp (s.deeper cost) u a (hs.same rfl rfl) hu
  exact ⟨ha, hready.same rfl rfl⟩

theorem Builds.subquery {p : Parser α} (hp : Builds strict P p) : Builds strict P (subquery p) := by
  intro s t a hs heq
  rw [subquery_apply] at heq
  obtain ⟨u, hu, rfl⟩ := mapState_eq_ok_iff.1 heq
  obtain ⟨ha, hready⟩ := hp s.enclosed u a (hs.same rfl rfl) hu
  exact ⟨ha, hready.same rfl rfl⟩

theorem Builds.atSeparator {p : Parser α} (hp : Builds strict P p) :
    Builds strict P (atSeparator p) := by
  intro s t a hs heq
  rw [atSeparator_apply] at heq
  obtain ⟨u, hu, rfl⟩ := mapState_eq_ok_iff.1 heq
  obtain ⟨ha, hready⟩ := hp s.separating u a (hs.same rfl rfl) hu
  exact ⟨ha, hready.same rfl rfl⟩

/-- What an attempt gives was built by the parser attempted. -/
theorem Builds.attempt {p : Parser α} (hp : Builds strict P p) (hsteady : Steady p)
    (rule : String) : Builds strict (fun found => ∀ a ∈ found, P a) (attempt rule p) := by
  intro s t found hs heq
  have hleads : s.Leads t := hsteady.attempt.leads heq
  refine ⟨?_, hs.leads hleads⟩
  rintro a rfl
  rw [attempt_apply] at heq
  cases hrun : p s.trying with
  | ok b u =>
    rw [hrun] at heq
    cases heq
    exact (hp s.trying u a (hs.same rfl rfl) hrun).1
  | error e u =>
    rw [hrun] at heq
    cases e <;> cases heq

/-- What is recovered from leaves nothing behind, and under `strict` nothing is recovered from. -/
theorem Builds.recover {p : Parser α} (hp : Builds strict P p) (hsteady : Steady p) :
    Builds strict (fun found => (∀ a ∈ found, P a) ∧ (strict = true → found.isSome = true))
      (recover p) := by
  intro s t found hs heq
  have hleads : s.Leads t := hsteady.recover.leads heq
  refine ⟨?_, hs.leads hleads⟩
  unfold Parser.recover at heq
  cases hrun : p s with
  | ok b u =>
    rw [hrun] at heq
    cases heq
    refine ⟨?_, fun _ => rfl⟩
    rintro a ⟨⟩
    exact (hp s t b hs hrun).1
  | error e u =>
    rw [hrun] at heq
    cases e with
    | outOfFuel => cases heq
    | rejected d =>
      obtain ⟨_, v, hpass, hnone⟩ := bind_eq_ok_iff.1 heq
      obtain ⟨rfl, rfl⟩ := pure_eq_ok_iff.1 hnone
      -- A strict run does not pass over anything, so it does not get here.
      refine ⟨nofun, fun hstrict => ?_⟩
      have hsettings : u.settings = s.settings := by
        have hlast := hsteady s
        rw [hrun] at hlast
        exact hlast.settings
      have hstill : u.isRecovering = false :=
        notRecovering_of_strict (hsettings ▸ hs.strict hstrict)
      rw [passOver_apply hstill] at hpass
      cases hpass

/-- What is known of the start and kept by each step is known of what a repetition gives. -/
theorem builds_loop {step : α → Parser (ForInStep α)}
    (hstep : ∀ a, P a → Builds strict (fun r => P r.value) (step a)) {a : α} (ha : P a) :
    Builds strict P (loop a step) := by
  intro s t b hs heq
  exact keeps_loop (P := fun a s => P a ∧ s.Ready strict)
    (fun a r u v hkeeps hr => hstep a hkeeps.1 u v r hkeeps.2 hr) ⟨ha, hs⟩ heq

theorem Builds.taking {p : Parser α} (hp : Builds strict P p) (rule : String) :
    Builds strict P (taking rule p) := fun s t a hs heq => hp s t a hs (taking_eq_ok heq)

/-- A list has a first item, and items behind it. -/
theorem Builds.commaList {P' : α → Prop} {first next : Parser α} (hfirst : Builds strict P first)
    (hnext : Builds strict P' next) (rule : String) :
    Builds strict (fun items => ∃ head tail, items = head :: tail ∧ P head ∧ ∀ a ∈ tail, P' a)
      (Parser.commaList rule first next) := by
  have hstep (items : List α) (hitems : ∀ a ∈ items, P' a) :
      Builds strict (fun r => ∀ a ∈ r.value, P' a) (commaStep rule next items) := by
    refine (steady_takeSymbol .comma).before fun found => ?_
    cases found with
    | true =>
      refine (hnext.taking rule).map fun a ha => ?_
      exact List.forall_mem_cons.2 ⟨ha, hitems⟩
    | false => exact builds_pure hitems
  rw [commaList_eq]
  refine (hfirst.taking rule).bind fun head hhead => ?_
  refine (builds_loop hstep (fun a h => absurd h List.not_mem_nil)).bind fun tail htail => ?_
  exact builds_pure ⟨head, tail.reverse, rfl, hhead, fun a ha => htail a (List.mem_reverse.1 ha)⟩

/-- A list has items, and all that is known of one is known of each. -/
theorem Builds.commaSeparated {p : Parser α} (hp : Builds strict P p) (rule : String) :
    Builds strict (fun items => items ≠ [] ∧ ∀ a ∈ items, P a)
      (Parser.commaSeparated rule p) := by
  refine (hp.commaList hp rule).imp fun items h => ?_
  obtain ⟨head, tail, rfl, hhead, htail⟩ := h
  exact ⟨List.cons_ne_nil _ _, List.forall_mem_cons.2 ⟨hhead, htail⟩⟩

end

/-! ## Names and fields -/

/-- Each token that stands for a name has characters. -/
theorem builds_ident : Builds strict Ident.WellFormed ident := by
  intro s t name hs heq
  refine ⟨?_, hs.leads (steady_ident.leads heq)⟩
  have hsound := hs.current
  obtain ⟨-, -, hdenotes⟩ | ⟨value, -, -, rfl, -⟩ := ident_eq_ok heq
  · obtain hkind | hkind | ⟨word, hkind, -, htext⟩ := hdenotes
    · exact ne_empty_of_isBareForm (hsound.name hkind).2.1
    · exact hsound.quotedName hkind
    · exact ne_empty_of_isBareForm (htext ▸ (hsound.keyword hkind).2)
  · intro hempty
    have hchars := congrArg String.toList hempty
    simp at hchars

/-- A name that is read has segments, none of them empty. -/
theorem builds_qualifiedName : Builds strict QualifiedName.WellFormed qualifiedName := by
  rw [qualifiedName_eq]
  have hpart (names : List Ident × Span)
      (hnames : names.1 ≠ [] ∧ ∀ part ∈ names.1, part.WellFormed) :
      Builds strict (fun r => r.value.1 ≠ [] ∧ ∀ part ∈ r.value.1, part.WellFormed)
        (namePart names) := by
    refine builds_atSymbol_bind .dot fun here => builds_peek_bind 1 fun t => ?_
    split
    · refine (steady_skip 1).before fun _ => builds_ident.bind fun part hwell => builds_pure ?_
      exact ⟨List.cons_ne_nil _ _, List.forall_mem_cons.2 ⟨hwell, hnames.2⟩⟩
    · exact builds_pure hnames
  refine builds_ident.bind fun first hfirst => ?_
  have hstart : [first] ≠ [] ∧ ∀ part ∈ [first], part.WellFormed :=
    ⟨List.cons_ne_nil _ _, List.forall_mem_cons.2 ⟨hfirst, nofun⟩⟩
  refine (builds_loop hpart hstart).bind fun names hnames => builds_pure ?_
  exact ⟨mt List.reverse_eq_nil_iff.1 hnames.1, fun part h => hnames.2 part (List.mem_reverse.1 h)⟩

/-- An alias that is read is well-formed. -/
theorem builds_optionalAlias :
    Builds strict (fun found => ∀ name ∈ found, name.WellFormed) optionalAlias := by
  have hsome : Builds strict (fun found => ∀ name ∈ found, Ident.WellFormed name)
      (do return some (← Parser.ident)) :=
    builds_ident.bind fun name hname => builds_pure (by rintro _ ⟨⟩; exact hname)
  refine (steady_takeKeyword .AS).before fun found => ?_
  split
  · exact hsome
  · refine builds_current_bind fun t => ?_
    split
    · exact hsome
    · exact builds_pure nofun

theorem builds_field : Builds strict Field.WellFormed field := by
  refine builds_current_bind fun t => ?_
  split
  · exact steady_take.before fun _ => builds_pure trivial
  · exact builds_qualifiedName.bind fun n hn => builds_pure hn

/-- No weight is infinite. -/
theorem builds_weight : Builds strict (fun w => w.isFinite = true) weight := by
  refine builds_current_bind fun t => ?_
  dsimp only
  split
  · exact builds_rejectCurrent_bind _ _
  · refine (steady_skip 1).before fun _ => ?_
    cases hread : Number.readReal t.text with
    | ok x => exact builds_pure (Number.isFinite_of_readReal hread)
    | error fault => exact builds_reject _

theorem builds_weightedField : Builds strict WeightedField.WellFormed weightedField := by
  have hweighted (f : Field) (hf : f.WellFormed) : Builds strict WeightedField.WellFormed
      (do return ⟨f, some (← Parser.weight)⟩) :=
    builds_weight.bind fun w hw => builds_pure ⟨hf, by rintro _ ⟨⟩; exact hw⟩
  refine builds_field.bind fun f hf => (steady_takeSymbol .caret).before fun found => ?_
  split
  · exact hweighted f hf
  · refine builds_current_bind fun t => ?_
    split
    · exact hweighted f hf
    · exact builds_pure ⟨hf, nofun⟩

theorem builds_fieldList :
    Builds strict (fun fs => fs ≠ [] ∧ ∀ f ∈ fs, f.WellFormed) fieldList := by
  refine (steady_symbol .leftBracket).before fun _ => ?_
  refine (builds_weightedField.commaSeparated _).bind fun fs hfs => ?_
  exact (steady_symbol .rightBracket).before fun _ => builds_pure hfs

/-- A single unit is not made of two. -/
theorem builds_singleUnit : Builds strict (fun unit => unit.isSingle = true) singleUnit := by
  refine builds_current_bind fun t => steady_datetimeUnit.before fun unit => ?_
  dsimp only
  split
  · exact (builds_reject (P := fun _ => False) _).bind fun _ h => h.elim
  · next hsingle => exact builds_pure (by simpa using hsingle)

/-! ## Literals -/

/-- A literal without parts that is well-formed. -/
def Plain (value : Literal) : Prop := value.WellFormed ∧ value.height 0 = 1

/-- In place of a malformed literal stands one that is marked as such. -/
theorem builds_malformedLiteral (kind : LiteralKind) (text : String) (fault : LiteralFault)
    (span : Span) : Builds strict Plain (malformedLiteral kind text fault span) :=
  (steady_reportLiteral _).before fun _ => builds_pure ⟨trivial, rfl⟩

theorem builds_numberLiteral (kind : TokenKind) (text : String) (span : Span) :
    Builds strict Plain (numberLiteral kind text span) := by
  unfold numberLiteral
  split
  · cases Number.readSigned text with
    | ok n => exact builds_pure ⟨trivial, rfl⟩
    | error fault => exact builds_malformedLiteral _ _ _ _
  · cases hread : Number.readReal text with
    | ok x => exact builds_pure ⟨Number.isFinite_of_readReal hread, rfl⟩
    | error fault => exact builds_malformedLiteral _ _ _ _

theorem builds_number : Builds strict (fun c => Plain c.value) number := by
  rw [Likeness.number_eq]
  have hbehind (start : Span) (negative : Bool) :
      Builds strict (fun c => Plain c.value) (Likeness.numberBehind start negative) := by
    refine builds_current_bind fun t => ?_
    dsimp only
    split
    · exact builds_rejectCurrent_bind _ _
    · refine (steady_skip 1).before fun _ => (steady_spanFrom start).before fun span => ?_
      exact (builds_numberLiteral _ _ _).bind fun value hvalue => builds_pure hvalue
  refine builds_current_bind fun t => (steady_takeSymbol .minus).before fun negative => ?_
  dsimp only
  split
  · exact (steady_takeSymbol .plus).before fun _ => hbehind _ _
  · exact hbehind _ _

/-- A date or time has no parts. -/
theorem plain_of_read {library : Time.Library} {kind : TemporalKind} {text : String}
    {value : Literal} (h : kind.read library text = .ok value) : Plain value := by
  obtain ⟨_, rfl⟩ | ⟨_, rfl⟩ | ⟨_, rfl⟩ := TemporalKind.cases_of_read h
  all_goals exact ⟨trivial, rfl⟩

/-- A date or time is a value of the library or malformed. -/
theorem builds_temporalLiteral (kind : TemporalKind) (text : String) (span : Span) :
    Builds strict Plain (temporalLiteral kind text span) := by
  refine builds_get_bind fun s => ?_
  cases hread : kind.read s.library text with
  | ok value => exact builds_pure (plain_of_read hread)
  | error fault => exact builds_malformedLiteral _ _ _ _

theorem builds_wordLiteral (kind : TemporalKind) : Builds strict Plain (wordLiteral kind) :=
  steady_take.before fun start => steady_string.before fun text =>
    (steady_spanFrom start).before fun span => builds_temporalLiteral kind text span

theorem builds_bracedLiteral : Builds strict Plain bracedLiteral := by
  refine (steady_symbol .leftBrace).before fun start => builds_current_bind fun t => ?_
  split
  · exact (steady_skip 1).before fun _ => steady_string.before fun text =>
      (steady_symbol .rightBrace).before fun _ => (steady_spanFrom start).before fun span =>
        builds_temporalLiteral _ text span
  · exact builds_rejectCurrent _

theorem builds_datetimeConstant (name : DatetimeConstant) :
    Builds strict Plain (datetimeConstant name) := by
  refine (steady_skip 1).before fun _ => (steady_takeSymbol .leftParen).before fun parens => ?_
  dsimp only
  split
  · exact (steady_symbol .rightParen).before fun _ => builds_pure ⟨trivial, rfl⟩
  · exact builds_pure ⟨trivial, rfl⟩

theorem builds_simpleLiteral {value : Literal} (h : Plain value) :
    Builds strict Plain (simpleLiteral value) :=
  (steady_skip 1).before fun _ => builds_pure h

end Grammar

end SearchSql
