import SearchSql.Proofs.Fuel
import SearchSql.Proofs.Rounds

/-!
# Ladders of operators

Connectives and arithmetic operators are read by climbing: one repetition reads operators of either
precedence, each with a right operand whose own operators bind tighter. A grammar in layers says the
same without numbers: it names the tight and the loose operators (`Layers`), an operand and the tight
operators behind it make up a group (`Layers.Group`), and groups stand between loose operators
(`Layers.Loose`). Climbing reads exactly what the layers describe and joins it from the left, each
group on its own and then the groups (`read_ladders`).

The right operand of a connective is read under a further level of nesting, and so is all that
belongs to its group. Operands of arithmetic are read without one.
-/

set_option autoImplicit false

namespace SearchSql.Grammar

open SearchSql.Grammar.Parser

variable {κ α : Type}

/-- What `R` does under `cost` further levels of nesting, if as many are left. -/
def Beneath (cost : Nat) (R : State → State → Prop) (s t : State) : Prop :=
  (cost = 0 ∨ s.depth + cost ≤ s.settings.nestingLimit) ∧
    ∃ u, R (s.deeper cost) u ∧ u.shallower cost = t

/-- What holds beneath further levels may be weakened there. -/
theorem Beneath.imp {cost : Nat} {R S : State → State → Prop} {s t : State}
    (h : Beneath cost R s t) (himp : ∀ u v, R u v → S u v) : Beneath cost S s t := by
  obtain ⟨hlimit, u, hu, ht⟩ := h
  exact ⟨hlimit, u, himp _ u hu, ht⟩

/-- Nothing is beneath where no level is taken. -/
theorem beneath_zero {R : State → State → Prop} {s t : State} : Beneath 0 R s t ↔ R s t := by
  constructor
  · rintro ⟨-, u, hu, rfl⟩
    exact hu
  · intro h
    exact ⟨.inl rfl, t, h, rfl⟩

/-- Beneath one level a parser runs as it does nested once. -/
theorem beneath_one {p : Parser α} {s t : State} {a : α} :
    Beneath 1 (fun u v => p u = .ok a v) s t ↔ nest 1 p s = .ok a t := by
  rw [nest_eq_ok_iff]
  unfold Beneath
  simp

/-! ## Layers -/

/-- A grammar in two layers: the tokens that are its tight operators and those that are its loose
ones, with the operands between them. The right operand of an operator is read under `cost` further
levels of nesting. -/
structure Layers (κ α : Type) where
  tight : TokenKind → κ → Prop
  loose : TokenKind → κ → Prop
  join : κ → α → α → α
  operand : Parser α
  cost : Nat

namespace Layers

variable (L : Layers κ α)

/-- Operands joined from the left. -/
def joinAll (first : α) (rest : List (κ × α)) : α :=
  rest.foldl (fun left next => L.join next.1 left next.2) first

/-- Groups of operands joined from the left, each joined on its own before. A group is its first
operand and the operators behind it with their right operands. -/
def joinGroups (first : α × List (κ × α)) (rest : List (κ × α × List (κ × α))) : α :=
  L.joinAll (L.joinAll first.1 first.2) (rest.map fun next => (next.1, L.joinAll next.2.1 next.2.2))

/-- From the first state to the second stand tight operators with an operand behind each, up to a
token that is no tight operator. -/
inductive Tight : State → List (κ × α) → State → Prop where
  | stop {s : State} : (∀ op, ¬ L.tight s.cursor.current.kind op) → Tight s [] s
  | step {s t u : State} {op : κ} {a : α} {rest : List (κ × α)} :
      L.tight s.cursor.current.kind op →
        Beneath L.cost (fun v w => L.operand v = .ok a w) (s.skip 1) t → Tight t rest u →
          Tight s ((op, a) :: rest) u

/-- From the first state to the second stands a group: an operand, and tight operators with an
operand behind each. -/
def Group (s : State) (group : α × List (κ × α)) (t : State) : Prop :=
  ∃ u, L.operand s = .ok group.1 u ∧ L.Tight u group.2 t

/-- From the first state to the second stand loose operators with a group behind each, up to a token
that is no operator of either layer. -/
inductive Loose : State → List (κ × α × List (κ × α)) → State → Prop where
  | stop {s : State} : (∀ op, ¬ L.tight s.cursor.current.kind op ∧ ¬ L.loose s.cursor.current.kind op) →
      Loose s [] s
  | step {s t u : State} {op : κ} {group : α × List (κ × α)}
      {rest : List (κ × α × List (κ × α))} :
      L.loose s.cursor.current.kind op →
        Beneath L.cost (fun v w => L.Group v group w) (s.skip 1) t → Loose t rest u →
          Loose s ((op, group) :: rest) u

variable {L}

/-- Behind a group stands no tight operator. -/
theorem Tight.stops {s t : State} {rest : List (κ × α)} (h : L.Tight s rest t) :
    ∀ op, ¬ L.tight t.cursor.current.kind op := by
  induction h with
  | stop hop => exact hop
  | step _ _ _ ih => exact ih

/-- In front of no tight operator there are none. -/
theorem Tight.eq_nil {s t : State} {rest : List (κ × α)} (h : L.Tight s rest t)
    (hop : ∀ op, ¬ L.tight s.cursor.current.kind op) : rest = [] ∧ t = s := by
  cases h with
  | stop => exact ⟨rfl, rfl⟩
  | step htight => exact absurd htight (hop _)

/-- A group, beneath further levels or not, takes all the tight operators there are. -/
theorem Group.stops {s t : State} {cost : Nat} {group : α × List (κ × α)}
    (h : Beneath cost (fun u v => L.Group u group v) s t) :
    ∀ op, ¬ L.tight t.cursor.current.kind op := by
  obtain ⟨-, u, ⟨v, -, htight⟩, rfl⟩ := h
  exact htight.stops

end Layers

/-! ## Climbing -/

/-- A ladder: layers whose operators are found by a function and told apart by their precedence. -/
structure Ladder (κ α : Type) extends Layers κ α where
  op? : TokenKind → Option κ
  precedence : κ → Nat

namespace Ladder

variable {L : Ladder κ α}

variable (L) in
/-- The operator under the cursor, if it binds at least as tightly as `least`, and its right operand,
added to `left`. -/
def step (side : Nat → Parser α) (least : Nat) (left : α) : Parser (ForInStep α) := do
  match L.op? (← current).kind with
  | none => return .done left
  | some op =>
      if L.precedence op < least then return .done left
      skip 1
      let right ← side (L.precedence op + 1)
      return .yield (L.join op left right)

variable (L) in
/-- Operators that bind at least as tightly as `least`, and the operands between them. -/
def climb (side : Nat → Parser α) (least : Nat) : Parser α := do
  let left ← L.operand
  loop left (L.step side least)

variable (L) in
/-- `side` reads right operands: it climbs from operators that bind tighter, under further levels. -/
structure Climbs (side : Nat → Parser α) : Prop where
  find {kind : TokenKind} {op : κ} : L.op? kind = some op ↔ L.tight kind op ∨ L.loose kind op
  tight {kind : TokenKind} {op : κ} : L.tight kind op → L.precedence op = 2
  loose {kind : TokenKind} {op : κ} : L.loose kind op → L.precedence op = 1
  advances (least : Nat) (left : α) : Advances (L.step side least left)
  side {least : Nat} {s t : State} {a : α} :
    side least s = .ok a t ↔ Beneath L.cost (fun u v => L.climb side least u = .ok a v) s t

section

variable {side : Nat → Parser α} {least : Nat} {left a : α} {s t u : State}

/-- A step is the last one in front of a token that is no operator, or one that binds less tightly
than asked for. -/
theorem step_eq_done_iff :
    L.step side least left s = .ok (.done a) t ↔
      (∀ op, L.op? s.cursor.current.kind = some op → L.precedence op < least) ∧ a = left ∧
        t = s := by
  unfold step
  rw [current_bind_apply]
  cases L.op? s.cursor.current.kind with
  | none =>
    simp only [pure_eq_ok_iff, ForInStep.done.injEq]
    grind
  | some op =>
    dsimp only
    split
    · simp only [pure_eq_ok_iff, ForInStep.done.injEq]
      grind
    · next hleast =>
      rw [skip_bind_apply, bind_eq_ok_iff]
      constructor
      · rintro ⟨right, u, -, hend⟩
        cases (pure_eq_ok_iff.1 hend).1
      · rintro ⟨hlt, -⟩
        exact absurd (hlt op rfl) hleast

/-- A step that goes on reads an operator that binds tightly enough, and its right operand. -/
theorem step_eq_yield_iff :
    L.step side least left s = .ok (.yield a) t ↔
      ∃ op right, L.op? s.cursor.current.kind = some op ∧ least ≤ L.precedence op ∧
        side (L.precedence op + 1) (s.skip 1) = .ok right t ∧ a = L.join op left right := by
  unfold step
  rw [current_bind_apply]
  cases L.op? s.cursor.current.kind with
  | none =>
    simp [pure_eq_ok_iff]
  | some op =>
    dsimp only
    split
    · next hlt =>
      simp only [pure_eq_ok_iff, reduceCtorEq, false_and, Option.some.injEq, false_iff]
      rintro ⟨op', right, rfl, hle, -⟩
      exact absurd hlt (Nat.not_lt.2 hle)
    · next hleast =>
      rw [skip_bind_apply, bind_eq_ok_iff]
      constructor
      · rintro ⟨right, u, hright, hend⟩
        obtain ⟨heq, rfl⟩ := pure_eq_ok_iff.1 hend
        exact ⟨op, right, rfl, Nat.not_lt.1 hleast, hright, (ForInStep.yield.inj heq).symm⟩
      · rintro ⟨op', right, hop, -, hright, rfl⟩
        obtain rfl := Option.some.inj hop
        exact ⟨right, t, hright, rfl⟩

variable (h : L.Climbs side)

include h

/-- Climbing reads an operand and then as many operators as bind tightly enough. -/
theorem climb_eq_ok_iff :
    L.climb side least s = .ok a t ↔
      ∃ first u, L.operand s = .ok first u ∧ Rounds (L.step side least) first u a t := by
  unfold climb
  rw [bind_eq_ok_iff]
  refine exists_congr fun first => exists_congr fun u => and_congr_right fun _ => ?_
  exact loop_eq_ok_iff (h.advances least)

/-- No operator binds tighter than the tight ones: an operand is all there is behind them. -/
theorem climb_operand : L.climb side 3 s = .ok a t ↔ L.operand s = .ok a t := by
  rw [climb_eq_ok_iff h]
  have hbelow {kind : TokenKind} {op : κ} (hop : L.op? kind = some op) : L.precedence op < 3 := by
    rcases h.find.1 hop with htight | hloose
    · rw [h.tight htight]
      decide
    · rw [h.loose hloose]
      decide
  constructor
  · rintro ⟨first, u, hfirst, hrounds⟩
    cases hrounds with
    | last hstep =>
      obtain ⟨-, rfl, rfl⟩ := step_eq_done_iff.1 hstep
      exact hfirst
    | more hstep _ =>
      obtain ⟨op, -, hop, hle, -⟩ := step_eq_yield_iff.1 hstep
      exact absurd (hbelow hop) (Nat.not_lt.2 hle)
  · intro hoperand
    exact ⟨a, t, hoperand, .last (step_eq_done_iff.2 ⟨fun op hop => hbelow hop, rfl, rfl⟩)⟩

/-- The right operand of a tight operator. -/
theorem side_tight : side 3 s = .ok a t ↔ Beneath L.cost (fun u v => L.operand u = .ok a v) s t := by
  rw [h.side]
  constructor
  · intro hside
    exact hside.imp fun u v => (climb_operand h).1
  · intro hside
    exact hside.imp fun u v => (climb_operand h).2

/-- An operator that binds no looser than a tight one is tight. -/
theorem tight_of_le {kind : TokenKind} {op : κ} (hop : L.op? kind = some op)
    (hle : 2 ≤ L.precedence op) : L.tight kind op := by
  rcases h.find.1 hop with htight | hloose
  · exact htight
  · rw [h.loose hloose] at hle
    exact absurd hle (by decide)

/-- Where no operator of either layer is, the ladder finds none. -/
theorem op?_eq_none_iff {kind : TokenKind} :
    L.op? kind = none ↔ ∀ op, ¬ L.tight kind op ∧ ¬ L.loose kind op := by
  rw [Option.eq_none_iff_forall_ne_some]
  apply forall_congr'
  intro op
  rw [← not_or, ← h.find]

/-- The rounds among tight operators alone read the rest of a group. -/
theorem rounds_tight_iff :
    Rounds (L.step side 2) left s a t ↔ ∃ rest, L.Tight s rest t ∧ a = L.joinAll left rest := by
  constructor
  -- By induction on the rounds, of which each adds a tight operator and its right operand.
  · intro hrounds
    induction hrounds with
    | last hstep =>
      obtain ⟨hop, rfl, rfl⟩ := step_eq_done_iff.1 hstep
      refine ⟨[], .stop fun op htight => ?_, rfl⟩
      have hlt := hop op (h.find.2 (.inl htight))
      rw [h.tight htight] at hlt
      exact absurd hlt (by decide)
    | more hstep _ ih =>
      obtain ⟨op, right, hop, hle, hright, rfl⟩ := step_eq_yield_iff.1 hstep
      obtain ⟨rest, hrest, rfl⟩ := ih
      have htight := tight_of_le h hop hle
      rw [h.tight htight] at hright
      exact ⟨(op, right) :: rest, .step htight ((side_tight h).1 hright) hrest, rfl⟩
  · rintro ⟨rest, hrest, rfl⟩
    induction hrest generalizing left with
    | stop hop =>
      refine .last (step_eq_done_iff.2 ⟨fun op hsome => ?_, rfl, rfl⟩)
      apply Nat.lt_of_not_le
      intro hle
      exact hop op (tight_of_le h hsome hle)
    | step htight hright _ ih =>
      have htwo := h.tight htight
      refine .more (step_eq_yield_iff.2
        ⟨_, _, h.find.2 (.inl htight), Nat.le_of_eq htwo.symm, ?_, rfl⟩) ih
      rw [htwo]
      exact (side_tight h).2 hright

/-- The right operand of a loose operator is a group. -/
theorem side_loose :
    side 2 s = .ok a t ↔
      ∃ group, Beneath L.cost (fun u v => L.Group u group v) s t ∧
        a = L.joinAll group.1 group.2 := by
  rw [h.side]
  constructor
  · rintro ⟨hlimit, v, hclimb, rfl⟩
    obtain ⟨first, u, hfirst, hrounds⟩ := (climb_eq_ok_iff h).1 hclimb
    obtain ⟨rest, hrest, rfl⟩ := (rounds_tight_iff h).1 hrounds
    exact ⟨(first, rest), ⟨hlimit, v, ⟨u, hfirst, hrest⟩, rfl⟩, rfl⟩
  · rintro ⟨group, ⟨hlimit, v, ⟨u, hfirst, hrest⟩, rfl⟩, rfl⟩
    refine ⟨hlimit, v, (climb_eq_ok_iff h).2 ⟨group.1, u, hfirst, ?_⟩, rfl⟩
    exact (rounds_tight_iff h).2 ⟨group.2, hrest, rfl⟩

/-- The rounds among all operators read the rest of a group, and the groups behind it. -/
theorem rounds_iff :
    Rounds (L.step side 0) left s a t ↔
      ∃ rest u groups, L.Tight s rest u ∧ L.Loose u groups t ∧
        a = L.joinGroups (left, rest) groups := by
  constructor
  -- Each round adds an operator: a tight one goes to the group that is open, a loose one starts
  -- another.
  · intro hrounds
    induction hrounds with
    | @last left _ s t hstep =>
      obtain ⟨hop, rfl, hend⟩ := step_eq_done_iff.1 hstep
      subst t
      have hnone : L.op? s.cursor.current.kind = none := by
        cases hsome : L.op? s.cursor.current.kind with
        | none => rfl
        | some op => exact absurd (hop op hsome) (Nat.not_lt_zero _)
      have hno := (op?_eq_none_iff h).1 hnone
      exact ⟨[], s, [], .stop fun op => (hno op).1, .stop hno, rfl⟩
    | @more left _ _ s v _ hstep _ ih =>
      obtain ⟨op, right, hop, -, hright, rfl⟩ := step_eq_yield_iff.1 hstep
      obtain ⟨rest, u, groups, hrest, hgroups, rfl⟩ := ih
      rcases h.find.1 hop with htight | hloose
      · rw [h.tight htight] at hright
        exact ⟨(op, right) :: rest, u, groups,
          .step htight ((side_tight h).1 hright) hrest, hgroups, rfl⟩
      · -- A loose operator ends the group, and what is behind its own group starts with another.
        have hone := h.loose hloose
        rw [hone] at hright
        obtain ⟨group, hgroup, rfl⟩ := (side_loose h).1 hright
        obtain ⟨rfl, rfl⟩ := hrest.eq_nil (Layers.Group.stops hgroup)
        refine ⟨[], s, (op, group) :: groups, .stop fun op' htight => ?_,
          .step hloose hgroup hgroups, rfl⟩
        obtain rfl := Option.some.inj (hop.symm.trans (h.find.2 (.inl htight)))
        exact absurd (hone.symm.trans (h.tight htight)) (by decide)
  -- Conversely, the operators of the first group come first, and those of each later group behind
  -- its loose operator.
  · rintro ⟨rest, u, groups, hrest, hgroups, rfl⟩
    induction hrest generalizing left with
    | stop hop =>
      clear hop
      induction hgroups generalizing left with
      | stop hno =>
        refine .last (step_eq_done_iff.2 ⟨fun op hsome => ?_, rfl, rfl⟩)
        rw [(op?_eq_none_iff h).2 hno] at hsome
        cases hsome
      | step hloose hgroup _ ih =>
        refine .more (step_eq_yield_iff.2
          ⟨_, _, h.find.2 (.inr hloose), Nat.zero_le _, ?_, rfl⟩) ih
        rw [h.loose hloose]
        exact (side_loose h).2 ⟨_, hgroup, rfl⟩
    | step htight hright _ ih =>
      refine .more (step_eq_yield_iff.2
        ⟨_, _, h.find.2 (.inl htight), Nat.zero_le _, ?_, rfl⟩) (ih hgroups)
      rw [h.tight htight]
      exact (side_tight h).2 hright

/-- Climbing from the loosest operators reads groups, and joins them from the left. -/
theorem climb_iff :
    L.climb side 0 s = .ok a t ↔
      ∃ group u groups, L.Group s group u ∧ L.Loose u groups t ∧ a = L.joinGroups group groups := by
  rw [climb_eq_ok_iff h]
  constructor
  · rintro ⟨first, v, hfirst, hrounds⟩
    obtain ⟨rest, u, groups, hrest, hgroups, rfl⟩ := (rounds_iff h).1 hrounds
    exact ⟨(first, rest), u, groups, ⟨v, hfirst, hrest⟩, hgroups, rfl⟩
  · rintro ⟨group, u, groups, ⟨v, hfirst, hrest⟩, hgroups, rfl⟩
    exact ⟨group.1, v, hfirst, (rounds_iff h).2 ⟨group.2, u, groups, hrest, hgroups, rfl⟩⟩

end

end Ladder

/-! ## The two ladders -/

/-- The tight operators of arithmetic. The words among them are ordinary names everywhere else. -/
inductive Multiplicative : TokenKind → ArithmeticOp → Prop where
  | star : Multiplicative (.symbol .star) .multiply
  | slash : Multiplicative (.symbol .slash) .divide
  | percent : Multiplicative (.symbol .percent) .modulo
  | div {word : String} : Text.sameWord word "DIV" = true →
      Multiplicative (.name word) .wholeDivide
  | mod {word : String} : Text.sameWord word "MOD" = true →
      Multiplicative (.name word) .wholeModulo

/-- The loose operators of arithmetic. -/
inductive Additive : TokenKind → ArithmeticOp → Prop where
  | plus : Additive (.symbol .plus) .add
  | minus : Additive (.symbol .minus) .subtract

/-- The tight connective. -/
inductive Conjunction : TokenKind → Connective → Prop where
  | and : Conjunction (.keyword .AND) .and

/-- The loose connective. -/
inductive Disjunction : TokenKind → Connective → Prop where
  | or : Disjunction (.keyword .OR) .or

/-- Arithmetic operators and their operands, which take no further level. -/
def arithmeticLayers : Layers ArithmeticOp Atom where
  tight := Multiplicative
  loose := Additive
  join := .arithmetic
  operand := read .operand
  cost := 0

/-- Connectives and their operands, of which those on the right take a further level. -/
def connectiveLayers : Layers Connective Expr where
  tight := Conjunction
  loose := Disjunction
  join
    | .and => .and
    | .or => .or
  operand := logicalOperand read
  cost := 1

/-- The ladder that arithmetic climbs. -/
def arithmeticLadder : Ladder ArithmeticOp Atom where
  toLayers := arithmeticLayers
  op? := ArithmeticOp.ofKind?
  precedence := ArithmeticOp.precedence

/-- The ladder that expressions climb. -/
def connectiveLadder : Ladder Connective Expr where
  toLayers := connectiveLayers
  op? := Connective.ofKind?
  precedence := Connective.precedence

/-- No word is both of the operators that are words. -/
theorem sameWord_div_of_mod {word : String} (h : Text.sameWord word "MOD" = true) :
    Text.sameWord word "DIV" = false := by
  unfold Text.sameWord at h ⊢
  rw [beq_iff_eq.1 h]
  decide

/-- The operators of arithmetic are those of its two layers. -/
theorem arithmeticOp_iff {kind : TokenKind} {op : ArithmeticOp} :
    ArithmeticOp.ofKind? kind = some op ↔ Multiplicative kind op ∨ Additive kind op := by
  constructor
  -- The table is read row by row.
  · intro h
    unfold ArithmeticOp.ofKind? at h
    split at h
    · cases h
      exact .inr .plus
    · cases h
      exact .inr .minus
    · cases h
      exact .inl .star
    · cases h
      exact .inl .slash
    · cases h
      exact .inl .percent
    · split at h
      · next hword =>
        cases h
        exact .inl (.div hword)
      · split at h
        · next hword =>
          cases h
          exact .inl (.mod hword)
        · cases h
    · cases h
  · rintro (h | h)
    · cases h with
      | star => rfl
      | slash => rfl
      | percent => rfl
      | div hword => exact if_pos hword
      | mod hword => simp [ArithmeticOp.ofKind?, sameWord_div_of_mod hword, hword]
    · cases h with
      | plus => rfl
      | minus => rfl

/-- The connectives are those of their two layers. -/
theorem connective_iff {kind : TokenKind} {op : Connective} :
    Connective.ofKind? kind = some op ↔ Conjunction kind op ∨ Disjunction kind op := by
  constructor
  · intro h
    unfold Connective.ofKind? at h
    split at h
    · cases h
      exact .inl .and
    · cases h
      exact .inr .or
    · cases h
  · rintro (h | h)
    · cases h
      rfl
    · cases h
      rfl

/-- The step of arithmetic is that of its ladder. -/
theorem arithmeticStep_eq (side : Callee) (least : Nat) (left : Atom) :
    arithmeticStep side least left =
      arithmeticLadder.step (fun least => side (.arithmetic least)) least left := by
  funext s
  unfold arithmeticStep Ladder.step
  rw [current_bind_apply, current_bind_apply]
  rw [show arithmeticLadder.op? = ArithmeticOp.ofKind? from rfl]
  cases ArithmeticOp.ofKind? s.cursor.current.kind <;> rfl

/-- The step of connectives is that of their ladder. -/
theorem logicalStep_eq (side : Callee) (least : Nat) (left : Expr) :
    logicalStep side least left =
      connectiveLadder.step (fun least => side (.expr least)) least left := by
  funext s
  unfold logicalStep Ladder.step
  rw [current_bind_apply, current_bind_apply]
  rw [show connectiveLadder.op? = Connective.ofKind? from rfl]
  cases Connective.ofKind? s.cursor.current.kind <;> rfl

/-- Climbing the ladder of arithmetic is the rule of arithmetic. -/
theorem arithmeticLadder_climb (least : Nat) :
    arithmeticLadder.climb (fun least => read (.arithmetic least)) least =
      read (.arithmetic least) := by
  rw [read_eq_rule (.arithmetic least)]
  show _ = read .operand >>= fun left => loop left (arithmeticStep read least)
  rw [funext (arithmeticStep_eq read least)]
  rfl

/-- Climbing the ladder of connectives is the rule of expressions. -/
theorem connectiveLadder_climb (least : Nat) :
    connectiveLadder.climb (fun least => read (.expr least)) least = exprBody read least := by
  unfold exprBody
  rw [funext (logicalStep_eq read least)]
  rfl

/-- The rule of arithmetic reads the right operands of its own ladder. -/
theorem arithmeticLadder_climbs : arithmeticLadder.Climbs fun least => read (.arithmetic least) where
  find := arithmeticOp_iff
  tight h := by
    cases h
    all_goals rfl
  loose h := by
    cases h
    all_goals rfl
  advances least left := by
    rw [← arithmeticStep_eq]
    exact advances_arithmeticStep (fun _ => steady_read _) least left
  side {least s t a} := by
    rw [arithmeticLadder_climb]
    exact (beneath_zero (R := fun u v => read (.arithmetic least) u = .ok a v)).symm

/-- The rule of expressions reads the right operands of its own ladder, one level deeper. -/
theorem connectiveLadder_climbs : connectiveLadder.Climbs fun least => read (.expr least) where
  find := connective_iff
  tight h := by
    cases h
    rfl
  loose h := by
    cases h
    rfl
  advances least left := by
    rw [← logicalStep_eq]
    exact advances_logicalStep (fun _ => steady_read _) least left
  side {least s t a} := by
    rw [connectiveLadder_climb, read_eq_rule (.expr least)]
    exact beneath_one.symm

/-- From the first state to the second stands a predicate, with any number of the word `NOT` in
front, each of which is read under a further level of nesting. -/
inductive Negations : State → Expr → State → Prop where
  | predicate {s t : State} {p : Predicate} : s.cursor.current.kind ≠ .keyword .NOT →
      read (.predicate 0) s = .ok p t → Negations s (.predicate p) t
  | not {s t : State} {e : Expr} : s.cursor.current.kind = .keyword .NOT →
      s.depth + 1 ≤ s.settings.nestingLimit → Negations ((s.skip 1).deeper 1) e t →
        Negations s (.not e (s.cursor.current.span.merge t.cursor.previousSpan)) (t.shallower 1)

/-- The word `NOT` is followed by an operand of its own, without any connective. -/
theorem logicalOperand_eq_ok_iff {s t : State} {e : Expr} :
    logicalOperand read s = .ok e t ↔
      (s.cursor.current.kind ≠ .keyword .NOT ∧
          ∃ p, read (.predicate 0) s = .ok p t ∧ e = .predicate p) ∨
        s.cursor.current.kind = .keyword .NOT ∧ s.depth + 1 ≤ s.settings.nestingLimit ∧
          ∃ operand u, logicalOperand read ((s.skip 1).deeper 1) = .ok operand u ∧
            t = u.shallower 1 ∧
              e = .not operand (s.cursor.current.span.merge u.cursor.previousSpan) := by
  -- The operand of a negation is read as one that binds as tightly, one level deeper.
  have hside {u v : State} {operand : Expr} :
      read (.expr notPrecedence) u = .ok operand v ↔
        Beneath 1 (fun u v => logicalOperand read u = .ok operand v) u v :=
    Ladder.side_tight connectiveLadder_climbs
  conv => lhs; unfold logicalOperand
  rw [atKeyword_bind_apply]
  by_cases hnot : s.cursor.current.kind = .keyword .NOT
  · simp only [hnot, beq_self_eq_true, if_true, ne_eq, not_true_eq_false, false_and, true_and,
      false_or]
    rw [take_bind_apply, bind_eq_ok_iff]
    constructor
    · rintro ⟨operand, u, hoperand, hrest⟩
      obtain ⟨hlimit, v, hv, rfl⟩ := hside.1 hoperand
      obtain ⟨rfl, rfl⟩ := pure_eq_ok_iff.1 hrest
      exact ⟨by simpa using hlimit, operand, v, hv, rfl, rfl⟩
    · rintro ⟨hlimit, operand, u, hoperand, rfl, rfl⟩
      exact ⟨operand, u.shallower 1, hside.2 ⟨.inr hlimit, u, hoperand, rfl⟩, rfl⟩
  · have hbeq : (s.cursor.current.kind == TokenKind.keyword .NOT) = false :=
      beq_eq_false_iff_ne.2 hnot
    simp only [hbeq, Bool.false_eq_true, if_false, hnot, ne_eq, not_false_eq_true, true_and,
      false_and, or_false]
    rw [bind_eq_ok_iff]
    constructor
    · rintro ⟨p, u, hp, hrest⟩
      obtain ⟨rfl, rfl⟩ := pure_eq_ok_iff.1 hrest
      exact ⟨p, hp, rfl⟩
    · rintro ⟨p, hp, rfl⟩
      exact ⟨p, t, hp, rfl⟩

/-- An operand of connectives is a predicate with the negations in front of it. -/
theorem negations_iff {s t : State} {e : Expr} :
    logicalOperand read s = .ok e t ↔ Negations s e t := by
  constructor
  · intro h
    -- Each `NOT` takes a token.
    induction hlength : s.cursor.ahead.length using Nat.strongRecOn generalizing s t e with
    | ind n ih =>
      rcases logicalOperand_eq_ok_iff.1 h with ⟨hnot, p, hp, rfl⟩ | hnegated
      · exact .predicate hnot hp
      · obtain ⟨hnot, hlimit, operand, u, hoperand, rfl, rfl⟩ := hnegated
        have htaken := ahead_skip_lt (isEnd_of_keyword hnot) 0
        exact .not hnot hlimit (ih _ (hlength ▸ htaken) hoperand rfl)
  · intro h
    induction h with
    | predicate hnot hp => exact logicalOperand_eq_ok_iff.2 (.inl ⟨hnot, _, hp, rfl⟩)
    | not hnot hlimit _ ih =>
      exact logicalOperand_eq_ok_iff.2 (.inr ⟨hnot, hlimit, _, _, ih, rfl, rfl⟩)

/-! ## What the ladders read -/

/-- Arithmetic reads operands with operators between them, and an expression reads predicates, negated
or not, with connectives between them. The operands are grouped by the operators that bind tightly;
each group is joined from the left, and then the groups are. Both end in front of the first token
that is no operator of theirs. -/
theorem read_ladders :
    (∀ (s t : State) (a : Atom),
        read (.arithmetic 0) s = .ok a t ↔
          ∃ group u groups, arithmeticLayers.Group s group u ∧ arithmeticLayers.Loose u groups t ∧
            a = arithmeticLayers.joinGroups group groups) ∧
      (∀ (s t : State) (e : Expr),
        read .wholeExpr s = .ok e t ↔
          s.depth + 1 ≤ s.settings.nestingLimit ∧
            ∃ group u groups v, connectiveLayers.Group (s.deeper 1) group u ∧
              connectiveLayers.Loose u groups v ∧ t = v.shallower 1 ∧
                e = connectiveLayers.joinGroups group groups) ∧
      ∀ (s t : State) (e : Expr), connectiveLayers.operand s = .ok e t ↔ Negations s e t := by
  refine ⟨fun s t a => ?_, fun s t e => ?_, fun s t e => negations_iff⟩
  · rw [← arithmeticLadder_climb]
    exact Ladder.climb_iff arithmeticLadder_climbs
  · rw [read_eq_rule, show rule read (.expr 0) = nest 1 (exprBody read 0) from rfl, nest_eq_ok_iff,
      ← connectiveLadder_climb]
    refine and_congr_right fun _ => ?_
    constructor
    · rintro ⟨v, hclimb, rfl⟩
      obtain ⟨group, u, groups, hgroup, hgroups, rfl⟩ :=
        (Ladder.climb_iff connectiveLadder_climbs).1 hclimb
      exact ⟨group, u, groups, v, hgroup, hgroups, rfl, rfl⟩
    · rintro ⟨group, u, groups, v, hgroup, hgroups, rfl, rfl⟩
      exact ⟨v, (Ladder.climb_iff connectiveLadder_climbs).2 ⟨group, u, groups, hgroup, hgroups, rfl⟩,
        rfl⟩

end SearchSql.Grammar
