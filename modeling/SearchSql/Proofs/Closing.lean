import SearchSql.Proofs.Outline

/-!
# How expressions end

What can be read back is `Legible`. The last token of an expression or of a name is never the word
`AS` (`Expr.closes_outline`, `QualifiedName.closes_outline`): where an alias follows and this word
stands directly in front of it, the word belongs to the alias.
-/

set_option autoImplicit false

namespace SearchSql

/-- Whether all elements of an outline are legible. -/
def Legible (items : List Item) : Prop := ∀ i ∈ items, i.Legible

/-- Two outlines can be read back one behind the other just if each can. -/
theorem legible_append {is js : List Item} : Legible (is ++ js) ↔ Legible is ∧ Legible js :=
  List.forall_mem_append

/-- An outline is legible if its first element is, and the others are. -/
theorem legible_cons {i : Item} {is : List Item} : Legible (i :: is) ↔ i.Legible ∧ Legible is :=
  List.forall_mem_cons

/-- So can outlines with signs between them. -/
theorem legible_separated {sign : Symbol} {outlines : List (List Item)} :
    Legible (separated sign outlines) ↔ ∀ items ∈ outlines, Legible items := by
  cases outlines with
  | nil => simp [separated, Legible]
  | cons first rest =>
    simp only [separated, legible_append, List.forall_mem_cons]
    refine and_congr_right fun _ => ?_
    simp only [Legible, List.mem_flatMap, List.mem_cons]
    constructor
    · intro h items hitems i hi
      exact h i ⟨items, hitems, .inr hi⟩
    · rintro h i ⟨items, hitems, rfl | hi⟩
      · trivial
      · exact h items hitems i hi

/-- So can fields in brackets. -/
theorem legible_bracketed {fs : List WeightedField} :
    Legible (bracketed fs) ↔ ∀ f ∈ fs, Legible f.outline := by
  have hbracket (sign : Symbol) : (Item.symbol sign).Legible := trivial
  simp only [bracketed, List.cons_append, legible_cons, legible_append, legible_separated, hbracket,
    true_and, List.forall_mem_map]
  exact and_iff_left fun i hi => absurd hi List.not_mem_nil

/-- The fields of a named argument are legible if each of them is. -/
theorem legible_namedFields {fs : List WeightedField} (h : ∀ f ∈ fs, Legible f.outline) :
    Legible (namedFields fs) := by
  unfold namedFields
  split
  · exact h _ List.mem_cons_self
  · exact legible_bracketed.2 h

/-! ## Where an expression ends -/

/-- Whether a mark may be the last of an expression: it is not the word `AS`. -/
def Mark.isClosing : Mark → Bool
  | keyword k => k != .AS
  | word text => Text.upper text != "AS"
  | verbatim _ => false
  | _ => true

/-- A token that stands for a closing mark is not `AS`. -/
theorem Mark.isClosing_denotes {library : Time.Library} {m : Mark} (h : m.isClosing = true)
    {t : Token} (ht : m.Denotes library t) : t.kind ≠ .keyword .AS := by
  intro hkind
  cases m with
  | keyword k =>
    obtain rfl := TokenKind.keyword.inj (hkind.symm.trans ht)
    cases h
  -- A word is `AS` only if it is spelled so in some case, and such a word does not close.
  | word text =>
    obtain ⟨v, hv, hsame⟩ := ht
    have hword : Keyword.ofText? v = some .AS := by
      rw [hkind] at hv
      unfold Token.bareKind at hv
      split at hv
      · next word heq => rw [heq, TokenKind.keyword.inj hv]
      · cases hv
    have hupper : Text.upper text = "AS" :=
      (eq_of_beq hsame).symm.trans (Text.spelling_of_findSpelling hword).symm
    simp [isClosing, hupper] at h
  | name value bare =>
    obtain hname | hquoted | ⟨k, hk, hlike, -⟩ := ht
    · exact absurd (hkind.symm.trans hname) nofun
    · exact absurd (hkind.symm.trans hquoted) nofun
    · obtain rfl := TokenKind.keyword.inj (hkind.symm.trans hk)
      cases hlike
  | temporal value =>
    obtain ⟨written, hstring, -⟩ := ht
    exact absurd (hkind.symm.trans hstring) nofun
  | integer value | real value | count value => exact absurd (hkind.symm.trans ht.1) nofun
  | weight value =>
    have hnumber := ht.1
    rw [hkind] at hnumber
    cases hnumber
  | verbatim token => cases h
  | symbol sign | string value | ending => exact absurd (hkind.symm.trans ht) nofun

/-- Whether an outline that can be read back ends in a mark that may be the last of an expression. -/
def Closes (items : List Item) : Prop :=
  Legible items → ∃ ms m, marks items = ms ++ [m] ∧ m.isClosing = true

/-- An outline of one closing mark closes. -/
theorem closes_mark {m : Mark} (h : m.isClosing = true) : Closes [.mark m] :=
  fun _ => ⟨[], m, rfl, h⟩

/-- Whatever stands in front, the end decides. -/
theorem Closes.behind {is : List Item} (h : Closes is) (js : List Item) : Closes (js ++ is) := by
  intro hlegible
  obtain ⟨ms, m, hmarks, hm⟩ := h (legible_append.1 hlegible).2
  exact ⟨marks js ++ ms, m, by rw [marks_append, hmarks, List.append_assoc], hm⟩

/-- What closes still does behind another element. -/
theorem Closes.behind_item {is : List Item} (h : Closes is) (i : Item) : Closes (i :: is) :=
  h.behind [i]

/-- A name may be the last of an expression. -/
theorem Ident.closes_outline (name : Ident) : Closes name.outline := by
  unfold Ident.outline
  refine Closes.behind_item ?_ _
  split
  · split
    · exact (closes_mark rfl).behind_item _
    · exact closes_mark rfl
  · exact closes_mark rfl

/-- A list ends as its last element does. -/
theorem closes_separated {sign : Symbol} {first : List Item} {rest : List (List Item)}
    (hfirst : Closes first) (hrest : ∀ is ∈ rest, Closes is) :
    Closes (separated sign (first :: rest)) := by
  induction rest generalizing first with
  | nil => simpa [separated] using hfirst
  | cons second rest ih =>
    have hsecond := ih (hrest second List.mem_cons_self)
      fun is his => hrest is (List.mem_cons_of_mem second his)
    have heq : separated sign (first :: second :: rest) =
        first ++ .symbol sign :: separated sign (second :: rest) := by
      simp [separated]
    rw [heq]
    exact (hsecond.behind_item _).behind first

/-- A qualified name ends in a mark that may be the last of an expression. -/
theorem QualifiedName.closes_outline (name : QualifiedName) : Closes name.outline := by
  intro hlegible
  have hparts : name.parts ≠ [] := (legible_cons.1 hlegible).1.1
  obtain ⟨first, rest, heq⟩ := List.exists_cons_of_ne_nil hparts
  refine Closes.behind_item ?_ _ hlegible
  rw [heq, List.map_cons]
  refine closes_separated first.closes_outline fun is his => ?_
  obtain ⟨part, -, rfl⟩ := List.mem_map.1 his
  exact part.closes_outline

/-- A parenthesis may be the last of an expression. -/
theorem closes_rightParen (is : List Item) : Closes (is ++ [.symbol .rightParen]) :=
  (closes_mark rfl).behind is

/-- A field ends in a mark that may be the last of an expression. -/
theorem Field.closes_outline (f : Field) : Closes f.outline := by
  cases f with
  | name n => exact n.closes_outline
  | quoted value span => exact closes_mark rfl

/-- A unit of time ends in a mark that may be the last of an expression. -/
theorem DatetimeUnit.closes_outline (unit : DatetimeUnit) : Closes [.word unit.text] :=
  closes_mark (by cases unit <;> decide)

/-- Every literal ends in a mark that may be the last. -/
theorem Literal.closes_outline (value : Literal) : Closes value.outline := by
  cases value with
  | integer n | real x => exact (closes_mark rfl).behind _
  | boolean b => cases b <;> exact closes_mark rfl
  | date d | time c | timestamp t => exact (closes_mark rfl).behind_item _
  | interval amount unit => exact (unit.closes_outline.behind _).behind_item _
  | datetime name parens =>
    cases parens with
    | false => exact closes_mark (by cases name <;> decide)
    | true => exact ((closes_mark rfl).behind_item _).behind_item _
  | malformed kind text fault => exact fun h => absurd (h _ List.mem_cons_self) not_false
  | string value | null => exact closes_mark rfl

/-- A constant ends in a mark that may be the last of an expression. -/
theorem Constant.closes_outline (c : Constant) : Closes c.outline := by
  cases c with
  | mk value span => exact value.closes_outline.behind _

/-- A window ends in its closing parenthesis. -/
theorem Window.closes_outline (w : Window) : Closes w.outline := by
  cases w with
  | mk partition orderBy span => exact closes_rightParen _

/-- An aggregate ends in a mark that may be the last of an expression. -/
theorem Aggregate.closes_outline (a : Aggregate) : Closes a.outline := by
  cases a with
  | countStar => exact closes_rightParen [_, _, _]
  | _ => exact closes_rightParen _

/-- A full-text search ends in its closing parenthesis. -/
theorem Relevance.closes_outline (r : Relevance) : Closes r.outline := by
  cases r with
  | mk name form query options => exact closes_rightParen _

/-- So does every call. -/
theorem CallShape.closes_outline (shape : CallShape) : Closes shape.outline := by
  cases shape with
  | case operand branches otherwise => exact (closes_mark rfl).behind _
  | cast expr target => exact (closes_rightParen [_, _]).behind _
  | nestedAll name path => exact (closes_rightParen [_, _]).behind _
  | ranking function args window =>
    exact (window.closes_outline.behind_item _).behind _
  | windowed aggregate window => exact window.closes_outline.behind _
  | aggregate aggregate => exact aggregate.closes_outline
  | filtered aggregate orderBy filter =>
    cases filter with
    | mk condition span => exact (closes_rightParen _).behind _
  | relevance relevance => exact relevance.closes_outline
  | _ => exact closes_rightParen _

/-- An atom ends in a mark that may be the last of an expression. -/
theorem Atom.closes_outline (a : Atom) : Closes a.outline := by
  cases a with
  | constant c => exact c.closes_outline
  | column name => exact name.closes_outline
  | call f =>
    cases f with
    | mk shape span => exact shape.closes_outline
  | parenthesized inner span => exact closes_rightParen _
  | arithmetic op left right => exact ((Atom.closes_outline right).behind_item _).behind _

/-- So does every predicate. -/
theorem Predicate.closes_outline (p : Predicate) : Closes p.outline := by
  cases p with
  | comparison op left right => exact ((Predicate.closes_outline right).behind_item _).behind _
  | isNull target negated span => exact (closes_mark rfl).behind _
  | between target negated low high =>
    exact (((Predicate.closes_outline high).behind_item _).behind _)
  | like left negated pattern => exact ((Predicate.closes_outline pattern).behind_item _).behind _
  | regexp left negated pattern => exact ((Predicate.closes_outline pattern).behind_item _).behind _
  | within target negated items span => exact closes_rightParen _
  | atom a => exact a.closes_outline

/-- What may stand in front of an alias does not end in `AS`. -/
theorem Expr.closes_outline (e : Expr) : Closes e.outline := by
  cases e with
  | not operand span => exact (Expr.closes_outline operand).behind_item _
  | and left right => exact ((Expr.closes_outline right).behind_item _).behind _
  | or left right => exact ((Expr.closes_outline right).behind_item _).behind _
  | predicate p => exact p.closes_outline

end SearchSql
