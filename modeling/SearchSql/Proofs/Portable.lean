import SearchSql.Proofs.ClauseIsolation
import SearchSql.Proofs.EagerFilters
import SearchSql.Proofs.Limits

/-!
# What is read in front of anything

A parser that ends behind a token of its own reads the same tokens wherever they stand, under any limit
of nesting that it does not meet, and in front of anything that a rule may end in front of (`Gives`,
`Portable.again`). It is enough to read the tokens once where nothing stands behind them (`ReadsAlone`).
From there to the other place the run is told in steps: in front of as many commas as there are tokens
behind, then in front of these tokens, and last under the levels of nesting that are left.
-/

set_option autoImplicit false

namespace SearchSql.Grammar

open SearchSql.Grammar.Parser

variable {library : Time.Library} {α : Type}

/-- The tokens are all that the parser reads where they stand alone. -/
def ReadsAlone [Time.Library] (p : Parser α) (tokens : List Token) : Prop :=
  ∃ input, ConsistsOf input tokens ∧ ∃ a t,
    p (State.ofTokens input { Settings.deepest with recover := false }) = .ok a t ∧ t.cursor.ahead = []

/-- A parser that ends behind a token of its own, and sees no places. -/
structure Portable (view : α → α) (p : Parser α) : Prop where
  like : Likeness.placeless.Like false view p p
  complete : Complete p
  walks : Walks true 0 0 p
  replays {B : Seam} : B.Calm → B.Replays false .closed p
  replaysAlike {B : Seam} : B.Orderless → B.right ≠ [] → B.left.length = B.right.length →
    B.Replays false .closed p
  limits (library : Time.Library) (before : List Diagnostic) (b : Nat) :
    (limits library before).Rel false b true p p

theorem portable_searchValue : Portable (SearchValue.view .placeless) (read .searchValue) where
  like := like_read .searchValue
  complete := complete_read .searchValue
  walks := walking_read.level rfl
  replays hB := Seam.replays_read hB .searchValue nofun
  replaysAlike hB hne hlength := Seam.replays_firm hB hne hlength .searchValue rfl rfl
  limits _ _ b := limits_related b .searchValue

theorem portable_weightedField : Portable (WeightedField.view .placeless) weightedField where
  like := Likeness.like_weightedField Likeness.lawful_placeless
  complete := complete_of_identity fun b =>
    ((Simulation.family identity_lawful).congruence false).weightedField (b := b)
  walks := walks_weightedField
  replays _ := Seam.replays_weightedField
  replaysAlike _ _ _ := Seam.replays_weightedField
  limits _ _ _ := ((Simulation.family limits_lawful).congruence false).weightedField

theorem portable_fieldList : Portable (List.map (WeightedField.view .placeless)) fieldList where
  like := Likeness.like_fieldList Likeness.lawful_placeless
  complete := complete_of_identity fun b =>
    ((Simulation.family identity_lawful).congruence false).fieldList (b := b)
  walks := walks_fieldList
  replays _ := Seam.replays_fieldList
  replaysAlike _ _ _ := Seam.replays_fieldList
  limits _ _ _ := ((Simulation.family limits_lawful).congruence false).fieldList

/-! ## In front of commas -/

/-- As many commas. -/
def commas (n : Nat) : List Token := List.replicate n (.ofSymbol .comma)

theorem kindAt_commas (n : Nat) : kindAt (commas n) 0 = .endOfInput ∨
    kindAt (commas n) 0 = .symbol .comma := by
  cases n with
  | zero => exact .inl rfl
  | succ n => exact .inr rfl

theorem border_commas (n : Nat) : Border (commas n) := by
  unfold Border
  obtain h | h := kindAt_commas n <;> rw [h] <;> rfl

theorem unfiltered_commas (n : Nat) : Unfiltered (commas n) where
  order := by
    obtain h | h := kindAt_commas n <;> rw [h] <;> nofun
  filter v w hsplit _ _ := by
    obtain ⟨-, -, hw⟩ := List.append_eq_replicate_iff.1 hsplit.symm
    rw [show w = commas w.length from hw]
    obtain h | h := kindAt_commas w.length <;> rw [h] <;> nofun

/-! ## In front of anything -/

/-- The state of a run that fails at its first error, outside of `POSITION` and of subqueries. -/
structure State.Plain [library : Time.Library] (s : State) : Prop where
  withLibrary : s.library = library
  strict : s.settings.recover = false
  settled : s.Settled
  outside : s.subqueries = 0

theorem State.Plain.leads {s t : State} (h : s.Plain) (ht : s.Leads t) : t.Plain :=
  ⟨ht.library.trans h.withLibrary, ht.settings ▸ h.strict, h.settled.leads ht,
    ht.subqueries.trans h.outside⟩

/-- The parser reads the tokens in front of anything that a rule may end in front of and that begins
with no order, and gives what looks like `seen`, unless the limit of nesting is met. -/
def Gives [Time.Library] {β : Type} (p : Parser α) (tokens : List Token) (view : α → β)
    (seen : β) : Prop :=
  ∀ {rest : List Token} {s : State}, s.Plain → Border rest → kindAt rest 0 ≠ .keyword .ORDER →
    rest ≠ [] → s.Faces (tokens.map Token.placeless ++ rest) →
      (∃ a t, p s = .ok a t ∧ view a = seen ∧ t.Faces rest) ∨ MetLimit (p s)

/-- What is read where it stands alone is read in front of other tokens. -/
theorem Portable.again {view : α → α} {p : Parser α} (hp : Portable view p)
    {tokens : List Token} (h : ReadsAlone p tokens) : ∃ seen : α, Gives p tokens view seen := by
  obtain ⟨input, hinput, a, t, hrun, hend⟩ := h
  refine ⟨view a, fun {rest s} hs hborder horder hne hfaces => ?_⟩
  let front := tokens.map Token.placeless
  let alone := State.ofTokens input { Settings.deepest with recover := false }
  have hsteady : Steady p := (hp.limits library [] 0).steadyLeft
  have halone : alone.Faces front := hinput
  have hsealed : Sealed front := by
    have hends := hp.walks alone trivial
    rw [hrun] at hends
    obtain ⟨passed, hpassed, hlevel, -⟩ := hends
    rw [hend, List.append_nil] at hpassed
    rw [← show passed.map Token.placeless = front from hpassed ▸ hinput]
    exact (Balanced.of_levels hlevel).placeless.sealed
  -- In front of commas, as many as there are tokens in the rest.
  let row : List Token := commas rest.length
  let before : State := { alone with cursor := ⟨[], front ++ row, .ending, rfl⟩ }
  have hbefore : before.Faces (front ++ row) := by
    have hplaceless : (front ++ row).map Token.placeless = front ++ row := by
      rw [List.map_append, List.map_map, show row.map Token.placeless = row from List.map_replicate]
      rfl
    exact hplaceless
  have hrow : row.length = rest.length := List.length_replicate
  have hframe : alone.SameFrame before := ⟨rfl, rfl, rfl, rfl, rfl, rfl⟩
  obtain ⟨b, t₁, ahead, hrun₁, hb, ht, ht₁⟩ := Seam.retell (B := ⟨[], row⟩) hp.like hsteady hp.like
    hsteady (hp.replays ⟨Seam.unfiltered_nil, unfiltered_commas _⟩) hframe rfl
    ((List.append_nil front).symm ▸ halone) hbefore ⟨rfl, border_commas _, .inl hsealed⟩ hrun
    (Nat.zero_le _) trivial (hp.complete before)
  obtain rfl : ahead = [] := by
    unfold State.Faces at ht
    rw [hend] at ht
    exact (List.append_eq_nil_iff.1 ht.symm).1
  -- In front of the rest, with all levels left.
  let deep : State := { alone with cursor := s.cursor }
  have hdeep : before.SameFrame deep := ⟨rfl, rfl, rfl, rfl, rfl, rfl⟩
  obtain ⟨c, t₂, ahead, hrun₂, hc, ht₁', ht₂⟩ := Seam.retell (B := ⟨row, rest⟩) hp.like hsteady hp.like
    hsteady (hp.replaysAlike ⟨(unfiltered_commas _).order, horder⟩ hne hrow) hdeep rfl hbefore hfaces
    ⟨border_commas _, hborder, .inl hsealed⟩ hrun₁ (Nat.le_of_eq ht₁.length.symm) trivial
    (hp.complete deep)
  obtain rfl : ahead = [] := by
    have hsame : ahead ++ row = [] ++ row := ht₁'.symm.trans ht₁
    exact List.append_cancel_right hsame
  -- Under the levels that are left.
  have hwithin : s.Within deep := fun cost hroom => by
    show 0 + cost ≤ min Settings.depthCeiling Settings.depthCeiling
    have hlimit : s.settings.nestingLimit ≤ Settings.depthCeiling := Nat.min_le_right _ _
    omega
  obtain ⟨u, hu, hcursor⟩ | hlimit := limits_ok (hp.limits library)
    (show s.cursor = deep.cursor from rfl)
    ⟨hs.withLibrary, rfl, rfl, hwithin, by rw [hs.outside]; exact Iff.rfl, hs.settled, nofun⟩ nofun
    hrun₂ (.inl rfl)
  · refine .inl ⟨c, u, hu, hc.trans hb, ?_⟩
    unfold State.Faces
    rw [hcursor]
    exact ht₂
  · exact .inr hlimit

end SearchSql.Grammar
