import SearchSql.Proofs.RealText
import SearchSql.Proofs.StatementReading
import SearchSql.Proofs.TimeText

/-!
# Formatting keeps the tokens

Where a text is plainly spelled, the text that writes its statement has the same number of tokens, and
position by position both tokens stand for the same mark (`parseStrict_render_tokens`). So formatting
drops nothing, adds nothing and keeps the order.
-/

set_option autoImplicit false

namespace SearchSql

open Number Token

/-! ## Written tokens -/

theorem integer_text (n : Int) :
    (if n < 0 then "-" else "") ++ String.ofList (Nat.toDigits 10 n.natAbs) = toString n := by
  rw [toString_eq_signed, String.ofList_append]
  split <;> rfl

/-- Where the library reads back, the text of a value that it has read denotes the value. -/
theorem Grammar.TemporalValue.read_text {library : Time.Library} (hlibrary : library.ReadsBack)
    {value : Grammar.TemporalValue} {written : String}
    (h : value.kind.read library written = .ok value.literal) :
    value.kind.read library value.text = .ok value.literal := by
  cases value with
  | date d =>
    obtain ⟨found, hread, hsame⟩ := ok_of_map h
    obtain rfl := Literal.date.inj hsame
    exact congrArg (Except.map Literal.date) (hlibrary.date hread)
  | time c =>
    obtain ⟨found, hread, hsame⟩ := ok_of_map h
    obtain rfl := Literal.time.inj hsame
    exact congrArg (Except.map Literal.time) (hlibrary.clock hread)
  | timestamp t =>
    obtain ⟨found, hread, hsame⟩ := ok_of_map h
    obtain rfl := Literal.timestamp.inj hsame
    exact congrArg (Except.map Literal.timestamp) (hlibrary.timestamp hread)

/-- The token that is written for a mark stands for it, if the library knows the text of the value
in the case of a date or time. -/
theorem Mark.denotes_token {library : Time.Library} {m : Mark} (h : (Item.mark m).Legible)
    (htemporal : ∀ value, m = .temporal value →
      value.kind.read library value.text = .ok value.literal) : m.Denotes library m.token := by
  cases m with
  | keyword word => rfl
  | symbol sign => rfl
  | word text => exact ⟨text, rfl, beq_self_eq_true _⟩
  | name value bare =>
    cases bare with
    | true => exact .inl rfl
    | false => exact .inr (.inl rfl)
  | string value => rfl
  | temporal value => exact ⟨value.text, rfl, htemporal value rfl⟩
  | integer value =>
    refine ⟨if_pos (isDigits_toDigits _).2, ?_⟩
    have hread := readSigned_toString h
    rwa [← integer_text] at hread
  | real value =>
    refine ⟨numeralKind_magnitude rfl value, ?_⟩
    have hread := readReal_text Layout.literal h
    rwa [← layout_text] at hread
  | weight value =>
    refine ⟨isNumber_numeralKind _, ?_⟩
    have hread := readReal_text Layout.weight h.2
    rw [← layout_text, h.1] at hread
    exact hread
  | count value => exact ⟨if_pos (isDigits_toDigits _).2, readUnsigned_toString h⟩
  | verbatim token => exact ⟨rfl, rfl⟩
  | ending => rfl

/-- What a token stands for does not depend on its place. -/
theorem Mark.denotes_placeless {library : Time.Library} {t : Token} {m : Mark} :
    m.Denotes library t.placeless ↔ m.Denotes library t := by
  cases m <;> exact Iff.rfl

/-- In a list that is matched by another, each element is matched. -/
theorem exists_of_forall₂ {α β : Type} {R : α → β → Prop} {as : List α} {bs : List β}
    (h : List.Forall₂ R as bs) {b : β} (hb : b ∈ bs) : ∃ a, R a b := by
  induction h with
  | nil => cases hb
  | @cons a b' as bs hab _ ih =>
    cases hb with
    | head => exact ⟨a, hab⟩
    | tail _ hb => exact ih hb

/-- The tokens of the text that writes a statement stand for its outline, as far as the library
knows the dates and times. -/
theorem Statement.denotes_render {library : Time.Library} {s : Statement} (h : s.Legible)
    (hlegible : SearchSql.Legible s.outline)
    (htemporal : ∀ value, .temporal value ∈ marks s.outline →
      value.kind.read library value.text = .ok value.literal) :
    List.Forall₂ (Mark.Denotes library) (tokenize s.render) (marks s.outline ++ [.ending]) := by
  have htokens := map_placeless_tokensFrom 0 s.render.toList
  rw [Statement.tokensOf_render h] at htokens
  have hwritten : List.Forall₂ (Mark.Denotes library) (writtenTokens s.outline ++ [ending])
      (marks s.outline ++ [.ending]) := by
    refine List.rel_append (List.forall₂_map_left_iff.2 (List.forall₂_same.2 fun m hm => ?_))
      (.cons rfl .nil)
    exact Mark.denotes_token (hlegible _ (mem_marks.1 hm)) fun value hvalue =>
      htemporal value (hvalue ▸ hm)
  rw [← htokens, List.forall₂_map_left_iff] at hwritten
  exact hwritten.imp fun _ _ => Mark.denotes_placeless.1

/-! ## Formatted texts -/

/-- A plainly spelled text and the text that writes its statement have equally many tokens, which
stand for the same marks one by one. -/
theorem parseStrict_render_tokens [library : Time.Library] (hlibrary : library.ReadsBack)
    {text : String} {settings : Settings} {found : Statement}
    (h : parseStrict text settings = .ok found)
    (hplain : PlainSpelling (tokenize text) found.outline) (hdots : DotsBare found.outline) :
    (tokenize found.render).length = (tokenize text).length ∧
      List.Forall₂ (Mark.Denotes library) (tokenize text) (marks found.outline ++ [.ending]) ∧
      List.Forall₂ (Mark.Denotes library) (tokenize found.render)
        (marks found.outline ++ [.ending]) := by
  obtain ⟨hfound, hlegible, hdenotes⟩ := parseStrict_denotes h
  have hsource := hdenotes hplain hdots
  have hwritten := Statement.denotes_render hfound hlegible fun value hvalue => by
    -- The library has read the value from the token that stands for it in the text.
    obtain ⟨t, written, -, hread⟩ := exists_of_forall₂ hsource (List.mem_append_left _ hvalue)
    exact value.read_text hlibrary hread
  exact ⟨hwritten.length_eq.trans hsource.length_eq.symm, hsource, hwritten⟩

/-- What is checked of a result that is there holds of it. -/
theorem exists_ok_of_check {ε α : Type} {x : Except ε α} {p : α → Prop} [DecidablePred p]
    (h : (match x with
      | .ok a => decide (p a)
      | .error _ => false) = true) : ∃ a, x = .ok a ∧ p a := by
  cases x with
  | error e => cases h
  | ok a => exact ⟨a, rfl, of_decide_eq_true h⟩

/-- A query with a real number, an alias, a date and a limit is formatted token by token. -/
theorem parseStrict_render_tokens_dated :
    ∃ found, parseStrict "select sum(.5e1) AS s from t where d > date '2020-1-05' limit 07"
        Settings.standard = .ok found ∧
      (tokenize found.render).length = (tokenize
        "select sum(.5e1) AS s from t where d > date '2020-1-05' limit 07").length ∧
      List.Forall₂ (Mark.Denotes Time.Gregorian.library) (tokenize
        "select sum(.5e1) AS s from t where d > date '2020-1-05' limit 07")
        (marks found.outline ++ [.ending]) ∧
      List.Forall₂ (Mark.Denotes Time.Gregorian.library) (tokenize found.render)
        (marks found.outline ++ [.ending]) := by
  obtain ⟨found, h, hplain, hdots⟩ := exists_ok_of_check (p := fun found : Statement =>
      PlainSpelling (tokenize "select sum(.5e1) AS s from t where d > date '2020-1-05' limit 07")
        found.outline ∧ DotsBare found.outline)
    (x := parseStrict "select sum(.5e1) AS s from t where d > date '2020-1-05' limit 07"
      Settings.standard) (by decide +kernel)
  exact ⟨found, h, parseStrict_render_tokens Time.Gregorian.library_readsBack h hplain hdots⟩

/-- Behind its dot, a name that means an operator inside an expression is written between backticks
together with the dot, so that two tokens become one. -/
theorem parseStrict_render_merges_dot :
    ∃ found, parseStrict "SELECT .div" Settings.standard = .ok found ∧
      PlainSpelling (tokenize "SELECT .div") found.outline ∧
      (tokenize found.render).length ≠ (tokenize "SELECT .div").length :=
  exists_ok_of_check (by decide +kernel)

end SearchSql
