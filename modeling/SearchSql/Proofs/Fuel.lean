import SearchSql.Proofs.Simulation

/-!
# Enough fuel

Each level of nesting passes through rules of falling rank, so fuel for the rank of a rule and for
all levels that are left never runs out, and more of it changes nothing (`derive_eq`). With as much
as a state calls for, fuel disappears: `read` runs the rule of a nonterminal (`closed_read`), and a
parse runs `read` (`runRoot_eq`).
-/

set_option autoImplicit false

namespace SearchSql.Grammar

open SearchSql.Grammar.Parser

variable {α β : Type}

/-- Two runs are refused at the same place, for the same reason. -/
def SameRefusal (r : Run α) (r' : Run β) : Prop :=
  ∃ d t t', r = .error (.rejected d) t ∧ r' = .error (.rejected d) t' ∧ t.cursor = t'.cursor ∧
    t'.SameLog t

/-- The counters and settings of two states are the same. -/
structure State.SameFrame (s s' : State) : Prop where
  settings : s.settings = s'.settings
  library : s.library = s'.library
  depth : s.depth = s'.depth
  attempts : s.attempts = s'.attempts
  subqueries : s.subqueries = s'.subqueries
  separatorDepth : s.separatorDepth = s'.separatorDepth

/-- Runs are compared for being the same, and not cut short. -/
def identity : Simulation where
  frame := State.SameFrame
  log s s' := s'.SameLog s
  left _ _ := False
  right _ _ := False
  parted := SameRefusal
  astray _ _ _ := False

/-- Nothing but the cursor, the counters and what was reported makes up a state. -/
theorem State.eq_of_same {s s' : State} (hcursor : s.cursor = s'.cursor) (hframe : s.SameFrame s')
    (hlog : s'.SameLog s) : s = s' := by
  obtain ⟨hsettings, hlibrary, hdepth, hattempts, hsubqueries, hseparator⟩ := hframe
  obtain ⟨hdiagnostics, hlast, hevents⟩ := hlog
  cases s
  cases s'
  simp_all

theorem State.SameFrame.symm {s s' : State} (h : s.SameFrame s') : s'.SameFrame s :=
  ⟨h.settings.symm, h.library.symm, h.depth.symm, h.attempts.symm, h.subqueries.symm,
    h.separatorDepth.symm⟩

theorem State.SameFrame.trans {s t u : State} (h : s.SameFrame t) (h' : t.SameFrame u) :
    s.SameFrame u :=
  ⟨h.settings.trans h'.settings, h.library.trans h'.library, h.depth.trans h'.depth,
    h.attempts.trans h'.attempts, h.subqueries.trans h'.subqueries,
    h.separatorDepth.trans h'.separatorDepth⟩

/-- Runs keep the counters and settings of their states, so states alike before are alike behind. -/
theorem State.SameFrame.leads {s s' t t' : State} (h : s.SameFrame s') (ht : s.Leads t)
    (ht' : s'.Leads t') : t.SameFrame t' where
  settings := by rw [ht.settings, ht'.settings, h.settings]
  library := by rw [ht.library, ht'.library, h.library]
  depth := by rw [ht.depth, ht'.depth, h.depth]
  attempts := by rw [ht.attempts, ht'.attempts, h.attempts]
  subqueries := by rw [ht.subqueries, ht'.subqueries, h.subqueries]
  separatorDepth := by rw [ht.separatorDepth, ht'.separatorDepth, h.separatorDepth]

theorem State.SameFrame.trying {s s' : State} (h : s.SameFrame s') : s.trying.SameFrame s'.trying :=
  ⟨h.settings, h.library, h.depth, congrArg (· + 1) h.attempts, h.subqueries, h.separatorDepth⟩

theorem State.SameFrame.separating {s s' : State} (h : s.SameFrame s') :
    s.separating.SameFrame s'.separating :=
  ⟨h.settings, h.library, h.depth, h.attempts, h.subqueries, congrArg (some <| · + 1) h.depth⟩

theorem State.SameFrame.tried {s s' : State} (h : s.SameFrame s') : s.tried.SameFrame s'.tried :=
  ⟨h.settings, h.library, h.depth, congrArg (· - 1) h.attempts, h.subqueries, h.separatorDepth⟩

theorem State.SameFrame.deeper {s s' : State} (h : s.SameFrame s') (cost : Nat) :
    (s.deeper cost).SameFrame (s'.deeper cost) :=
  ⟨h.settings, h.library, congrArg (· + cost) h.depth, h.attempts, h.subqueries, h.separatorDepth⟩

theorem State.SameFrame.shallower {s s' : State} (h : s.SameFrame s') (cost : Nat) :
    (s.shallower cost).SameFrame (s'.shallower cost) :=
  ⟨h.settings, h.library, congrArg (· - cost) h.depth, h.attempts, h.subqueries, h.separatorDepth⟩

theorem State.SameFrame.enclosed {s s' : State} (h : s.SameFrame s') :
    s.enclosed.SameFrame s'.enclosed :=
  ⟨h.settings, h.library, h.depth, h.attempts, congrArg (· + 1) h.subqueries, h.separatorDepth⟩

theorem State.SameFrame.disclosed {s s' : State} (h : s.SameFrame s') :
    s.disclosed.SameFrame s'.disclosed :=
  ⟨h.settings, h.library, h.depth, h.attempts, congrArg (· - 1) h.subqueries, h.separatorDepth⟩

/-- What is logged and where the cursor is are no part of the frame. -/
theorem State.SameFrame.same {s s' : State} (h : s.SameFrame s')
    (cursor cursor' : Cursor) (diagnostics diagnostics' : List Diagnostic)
    (events events' : List Event) (last last' : Option Nat) :
    State.SameFrame
      { s with
        cursor := cursor, diagnostics := diagnostics, events := events, lastReported := last }
      { s' with
        cursor := cursor', diagnostics := diagnostics', events := events',
        lastReported := last' } :=
  ⟨h.settings, h.library, h.depth, h.attempts, h.subqueries, h.separatorDepth⟩

/-- States are linked for the comparison by identity just if they are the same. -/
theorem identity_linked {s s' : State} : identity.Linked s s' ↔ s = s' := by
  constructor
  · rintro ⟨hcursor, hframe, hlog⟩
    exact State.eq_of_same hcursor hframe hlog
  · rintro rfl
    exact ⟨rfl, ⟨rfl, rfl, rfl, rfl, rfl, rfl⟩, ⟨rfl, rfl, rfl⟩⟩

/-! ## Runs that are not cut short -/

/-- No run of the parser runs out of steps. -/
def Complete (p : Parser α) : Prop := ∀ s t, p s ≠ .error .outOfFuel t

theorem complete_pure (a : α) : Complete (pure a : Parser α) := fun _ _ h => nomatch h

theorem complete_reject (d : Diagnostic) : Complete (reject d : Parser α) := fun _ _ h => nomatch h

theorem complete_note (e : Event) : Complete (note e) := fun _ _ h => nomatch h

theorem complete_skip (n : Nat) : Complete (Parser.skip n) := fun _ _ h => nomatch h

/-- Parsers run one after the other do not run out of steps if none of them does. -/
theorem Complete.bind {p : Parser α} {f : α → Parser β} (hp : Complete p)
    (hf : ∀ a, Complete (f a)) : Complete (p >>= f) := by
  intro s t h
  rw [bind_apply] at h
  cases hr : p s with
  | ok a u =>
    rw [hr] at h
    exact hf a u t h
  | error e u =>
    rw [hr] at h
    cases h
    exact hp s t hr

theorem complete_get_bind {f : State → Parser α} (h : ∀ s, Complete (f s)) :
    Complete (get >>= f) := fun s t => h s s t

theorem complete_report (d : Diagnostic) : Complete (report d) := by
  refine complete_get_bind fun s => ?_
  split
  · exact complete_note _
  · refine Complete.bind (fun _ _ h => nomatch h) fun _ => complete_get_bind fun s => ?_
    split
    · exact complete_reject _
    · exact complete_pure _

theorem complete_reportLiteral (d : Diagnostic) : Complete (reportLiteral d) := by
  refine complete_get_bind fun s => ?_
  split
  · exact complete_report d
  · exact complete_reject d

theorem complete_passOver (d : Diagnostic) : Complete (passOver d) := by
  refine complete_get_bind fun s => ?_
  split
  · exact (complete_report d).bind fun _ => complete_get_bind fun _ =>
      (complete_skip _).bind fun _ => complete_get_bind fun _ => complete_note _
  · exact complete_reject d

theorem complete_clauseEnd : Complete clauseEnd := by
  refine complete_get_bind fun s => ?_
  split
  · exact complete_get_bind fun _ => complete_passOver _
  · exact complete_pure _

/-- A complete run agrees with itself. -/
theorem Complete.agree {p : Parser α} (h : Complete p) (s : State) {b : Nat} {firm : Bool} :
    identity.Agree b firm (p s) (p s) := by
  have hs := h s
  generalize p s = r at hs
  cases r with
  | ok a t => exact .ok a rfl ⟨rfl, rfl, rfl⟩
  | error e t =>
    cases e with
    | rejected d => exact .parted ⟨d, t, t, rfl, rfl, rfl, ⟨rfl, rfl, rfl⟩⟩
    | outOfFuel => exact absurd rfl (hs t)

/-- To be the same, and not cut short, is respected by all that rules are written with. -/
theorem identity_lawful : identity.Lawful where
  frame_library h := h.library
  frame_leads h ht ht' := h.leads ht ht'
  frame_deeper {s s' cost} h _ _ _ := by
    have hdepth : s.depth + cost = s'.depth + cost := by rw [h.depth]
    refine ⟨⟨h.settings, h.library, hdepth, h.attempts, h.subqueries, h.separatorDepth⟩, ?_⟩
    show s.separatorDepth = some (s.depth + cost) ↔ s'.separatorDepth = some (s'.depth + cost)
    rw [h.separatorDepth, hdepth]
  frame_separatingHere h :=
    ⟨h.settings, h.library, h.depth, h.attempts, h.subqueries, congrArg some h.depth⟩
  log_same h hs hs' :=
    ⟨by rw [hs.diagnostics, hs'.diagnostics, h.diagnostics],
      by rw [hs.lastReported, hs'.lastReported, h.lastReported],
      by rw [hs.events, hs'.events, h.events]⟩
  left_atOrder := False.elim
  right_atOrder := False.elim
  -- Both runs are refused alike, as the parsers are the same.
  parted_andThen := by
    rintro α β γ δ _ _ f g ⟨d, t, t', rfl, rfl, h⟩ _ _
    exact ⟨d, t, t', rfl, rfl, h⟩
  parted_mapState := by
    rintro α β _ _ f g ⟨d, t, t', rfl, rfl, hcursor, hlog⟩ hf hg
    refine ⟨d, f t, g t', rfl, rfl, (hf t).2.trans (hcursor.trans (hg t').2.symm), ?_⟩
    exact ⟨by rw [(hf t).1.diagnostics, (hg t').1.diagnostics, hlog.diagnostics],
      by rw [(hf t).1.lastReported, (hg t').1.lastReported, hlog.lastReported],
      by rw [(hf t).1.events, (hg t').1.events, hlog.events]⟩
  parted_reject {α s s'} d h := ⟨d, s, s', rfl, rfl, h.cursor, h.log⟩
  parted_nest := by
    intro α s s' cost p q h hparted
    obtain rfl := identity_linked.1 h
    rw [or_self] at hparted
    rw [nest_apply, nest_apply, if_pos hparted, if_pos hparted]
    exact ⟨_, s, s, rfl, rfl, rfl, ⟨rfl, rfl, rfl⟩⟩
  astray_andThen := False.elim
  astray_mapState := False.elim
  malformedLiteral := by
    intro b s s' kind text fault span h
    obtain rfl := identity_linked.1 h
    exact ((complete_reportLiteral _).bind fun _ => complete_pure _).agree s

/-- It is respected by what the rules of queries add as well. -/
theorem identity_queryLawful : identity.QueryLawful where
  frame_enclosed h :=
    h.enclosed
  clauseEnd h := by
    obtain rfl := identity_linked.1 h
    exact complete_clauseEnd.agree _
  recover {α b firm p q s s'} hp hq hframe h := by
    have ht := hp s
    have ht' := hq s'
    unfold recover
    generalize p s = r at ht h
    generalize q s' = r' at ht' h
    cases h with
    | ok a hcursor hlog => exact .ok (some a) hcursor hlog
    | parted h =>
      obtain ⟨d, t, t', rfl, rfl, hcursor, hlog⟩ := h
      obtain rfl := State.eq_of_same hcursor (hframe.leads ht ht') hlog
      exact ((complete_passOver d).bind fun _ => complete_pure none).agree t
    | astray _ h => exact h.elim

/-- Runs that agree and end with the same counters are the same, and not cut short. -/
theorem eq_of_agree {r r' : Run α} {b : Nat} {firm : Bool} (h : identity.Agree b firm r r')
    (hframe : (lastState r).SameFrame (lastState r')) :
    r = r' ∧ ∀ t, r ≠ .error .outOfFuel t := by
  cases h with
  | ok a hcursor hlog =>
    obtain rfl := State.eq_of_same hcursor hframe hlog
    exact ⟨rfl, fun _ h => nomatch h⟩
  | parted h =>
    obtain ⟨d, t, t', rfl, rfl, hcursor, hlog⟩ := h
    obtain rfl := State.eq_of_same hcursor hframe hlog
    exact ⟨rfl, fun _ h => nomatch h⟩
  | astray _ h => exact h.elim

/-- A run that is not cut short agrees with itself. -/
theorem agree_of_eq {r r' : Run α} {b : Nat} {firm : Bool} (h : r = r')
    (hr : ∀ t, r ≠ .error .outOfFuel t) : identity.Agree b firm r r' := by
  subst h
  cases r with
  | ok a t => exact .ok a rfl ⟨rfl, rfl, rfl⟩
  | error e t =>
    cases e with
    | rejected d => exact .parted ⟨d, t, t, rfl, rfl, rfl, ⟨rfl, rfl, rfl⟩⟩
    | outOfFuel => exact absurd rfl (hr t)

/-- Being compared for identity means being the same where few enough levels are left. -/
theorem identity_rel_iff {p q : Parser α} {aligned : Bool} {b : Nat} {firm : Bool} :
    identity.Rel aligned b firm p q ↔ Steady p ∧ Steady q ∧
      ∀ s, s.budget ≤ b → p s = q s ∧ ∀ t, p s ≠ .error .outOfFuel t := by
  constructor
  · intro h
    refine ⟨h.steadyLeft, h.steadyRight, fun s hb => ?_⟩
    exact eq_of_agree (h.agree (identity_linked.2 rfl) hb hb fun _ => Iff.rfl)
      (State.SameFrame.leads ⟨rfl, rfl, rfl, rfl, rfl, rfl⟩ (h.steadyLeft s) (h.steadyRight s))
  · rintro ⟨hp, hq, h⟩
    refine ⟨hp, hq, fun {s s'} hs hb _ _ => ?_⟩
    obtain rfl := identity_linked.1 hs
    exact agree_of_eq (h s hb).1 (h s hb).2

/-- An attempt of parsers that run alike runs alike, whatever becomes of it. -/
theorem identity_attempt {p q : Parser α} {b : Nat} (rule : String)
    (h : identity.Rel false b true p q) :
    identity.Rel false b false (attempt rule p) (attempt rule q) := by
  obtain ⟨hp, hq, heq⟩ := identity_rel_iff.1 h
  refine identity_rel_iff.2 ⟨hp.attempt, hq.attempt, fun s hb => ?_⟩
  obtain ⟨hsame, hcomplete⟩ := heq s.trying hb
  rw [attempt_apply, attempt_apply, ← hsame]
  refine ⟨rfl, fun t => ?_⟩
  cases hr : p s.trying with
  | ok a u => nofun
  | error e u =>
    cases e with
    | rejected d => nofun
    | outOfFuel => exact absurd hr (hcomplete u)

/-- What comes to the same and is not cut short, under any number of levels, is complete. -/
theorem complete_of_identity {p : Parser α} {firm : Bool}
    (h : ∀ b, identity.Rel false b firm p p) : Complete p :=
  fun s => ((identity_rel_iff.1 (h s.budget)).2.2 s (Nat.le_refl _)).2

/-! ## Enough fuel -/

/-- Fuel that is enough for a rule, if `b` levels of nesting are left. -/
def Nonterminal.fuel (n : Nonterminal α) (b : Nat) : Nat := n.rank + fuelPerLevel * b + 1

/-- What is enough for a rule is more than enough for one of lower rank. -/
theorem Nonterminal.fuel_of_isAbove {n : Nonterminal α} {m : Nonterminal β} {b fuel : Nat}
    (hm : n.isAbove m = true) (h : n.fuel b ≤ fuel + 1) : m.fuel b ≤ fuel := by
  have hlt := Nonterminal.isAbove_iff.1 hm
  simp only [Nonterminal.fuel] at h ⊢
  omega

/-- What is enough for a rule is more than enough for any rule under a further level. -/
theorem Nonterminal.fuel_of_lt {n : Nonterminal α} {m : Nonterminal β} {b b' fuel : Nat}
    (hb : b' < b) (h : n.fuel b ≤ fuel + 1) : m.fuel b' ≤ fuel := by
  have hrank := m.rank_lt
  have hmul : fuelPerLevel * (b' + 1) ≤ fuelPerLevel * b := Nat.mul_le_mul_left _ hb
  rw [Nat.mul_succ] at hmul
  simp only [Nonterminal.fuel] at h ⊢
  omega

/-- Fuel that is enough for a rule is not zero. -/
theorem Nonterminal.exists_fuel {n : Nonterminal α} {b fuel : Nat} (h : n.fuel b ≤ fuel) :
    ∃ f, fuel = f + 1 :=
  Nat.exists_eq_add_one_of_ne_zero (Nat.ne_of_gt (Nat.lt_of_lt_of_le (Nat.succ_pos _) h))

/-- With enough fuel, a property of the rules follows from that of the rules of lower rank and of those
under further levels, with less fuel. -/
theorem Nonterminal.fuel_induction {P : Nat → Nat → {α : Type} → Nonterminal α → Prop}
    (hstep : ∀ {b fuel : Nat} {α : Type} (n : Nonterminal α),
      (∀ {β : Type} (m : Nonterminal β), n.isAbove m = true → P b fuel m) →
        (∀ b' < b, ∀ {β : Type} (m : Nonterminal β), P b' fuel m) → P b (fuel + 1) n)
    {b fuel : Nat} (n : Nonterminal α) (h : n.fuel b ≤ fuel) : P b fuel n := by
  induction b using Nat.strongRecOn generalizing α n fuel with
  | ind b ihb =>
    induction hr : n.rank using Nat.strongRecOn generalizing α n fuel with
    | ind r ihr =>
      obtain ⟨f, rfl⟩ := Nonterminal.exists_fuel h
      refine hstep n (fun m hm => ?_) fun b' hb _ m => ihb b' hb m (Nonterminal.fuel_of_lt hb h)
      have hlt := Nonterminal.isAbove_iff.1 hm
      exact ihr m.rank (hr ▸ hlt) m (Nonterminal.fuel_of_isAbove hm h) rfl

/-- Rules come to the same if their callees do, those of lower rank and those under further levels. -/
theorem identity_rule {b : Nat} {c d : Callee} (hc : ∀ {α : Type} (n : Nonterminal α), Steady (c n))
    (hd : ∀ {α : Type} (n : Nonterminal α), Steady (d n)) (hcWaits : Waits true (c .filter))
    (hdWaits : Waits true (d .filter)) (n : Nonterminal α)
    (hflat : ∀ {β : Type} (m : Nonterminal β), n.isAbove m = true →
      identity.Rel m.isPredicate b m.firm (c m) (d m))
    (hdeep : ∀ b' < b, ∀ {β : Type} (m : Nonterminal β),
      identity.Rel m.isPredicate b' m.firm (c m) (d m)) :
    identity.Rel n.isPredicate b n.firm (rule c n) (rule d n) := by
  have hcallees : Callees identity.Left identity.Right
      (fun aligned b firm _ p q => identity.Rel aligned b firm p q) b c d :=
    { steadyLeft := hc
      steadyRight := hd
      separating := fun hexpr _ => hexpr.atSeparator identity_lawful State.SameFrame.separating
      attempt := identity_attempt _
      waitsLeft := hcWaits
      waitsRight := hdWaits
      window := fun hexpr horder =>
        ((Simulation.family identity_lawful).congruence false).windowRule hexpr horder
          (fun _ _ _ hs => hs.1.elim) fun _ _ _ hs => hs.1.elim }
  exact (Simulation.family identity_lawful).queryRule
    (Simulation.query_congruence identity_lawful identity_queryLawful) hcallees
    (fun _ _ => ⟨fun _ _ _ hs => hs.1.elim, fun _ _ _ hs => hs.1.elim⟩) n hflat hdeep

/-- With enough fuel, a rule runs in the same way whatever the fuel is. -/
theorem derive_related {b fuel fuel' : Nat} (n : Nonterminal α) (h : n.fuel b ≤ fuel)
    (h' : n.fuel b ≤ fuel') :
    identity.Rel n.isPredicate b n.firm (derive fuel n) (derive fuel' n) := by
  refine Nonterminal.fuel_induction
    (P := fun b fuel _ n => ∀ fuel', n.fuel b ≤ fuel' →
      identity.Rel n.isPredicate b n.firm (derive fuel n) (derive fuel' n))
    (fun {b f α} n hflat hdeep fuel' h' => ?_) n h fuel' h'
  obtain ⟨f', rfl⟩ := Nonterminal.exists_fuel h'
  rw [derive_succ, derive_succ]
  exact identity_rule (steady_derive f) (steady_derive f') (waits_derive_filter f)
    (waits_derive_filter f') n
    (fun m hm => hflat m hm f' (Nonterminal.fuel_of_isAbove hm h'))
    fun b' hb _ m => hdeep b' hb m f' (Nonterminal.fuel_of_lt hb h')

/-- Fuel beyond what is enough changes nothing. -/
theorem derive_eq {fuel fuel' : Nat} {n : Nonterminal α} {s : State} (h : n.fuel s.budget ≤ fuel)
    (h' : n.fuel s.budget ≤ fuel') : derive fuel n s = derive fuel' n s :=
  ((identity_rel_iff.1 (derive_related n h h')).2.2 s (Nat.le_refl _)).1

/-- Enough fuel does not run out. -/
theorem derive_ne_outOfFuel {fuel : Nat} {n : Nonterminal α} {s : State}
    (h : n.fuel s.budget ≤ fuel) (t : State) : derive fuel n s ≠ .error .outOfFuel t :=
  ((identity_rel_iff.1 (derive_related n h h)).2.2 s (Nat.le_refl _)).2 t

/-! ## Rules without fuel -/

/-- Runs the rule of a nonterminal, with as much fuel as it takes. -/
def read : Callee := fun n s => derive (n.fuel s.budget) n s

/-- Rules with enough fuel and rules without fuel are the same. -/
theorem derive_eq_read {fuel : Nat} {n : Nonterminal α} {s : State} (h : n.fuel s.budget ≤ fuel) :
    derive fuel n s = read n s := derive_eq h (Nat.le_refl _)

/-- The fuel of a rule that takes as much as it needs never runs out. -/
theorem read_ne_outOfFuel (n : Nonterminal α) (s t : State) : read n s ≠ .error .outOfFuel t :=
  derive_ne_outOfFuel (Nat.le_refl _) t

/-- No rule changes what runs keep. -/
theorem steady_read (n : Nonterminal α) : Steady (read n) :=
  fun s => steady_derive (n.fuel s.budget) n s

/-- No rule is cut short. -/
theorem complete_read (n : Nonterminal α) : Complete (read n) := fun s => read_ne_outOfFuel n s

/-- In front of `ORDER`, no filter is read. -/
theorem waits_read_filter : Waits true (read .filter) :=
  fun s t a hs h => waits_derive_filter _ s t a hs h

/-- A rule with enough fuel is related to the rule without fuel by every law of the identity. -/
theorem derive_related_read {b fuel : Nat} (n : Nonterminal α) (h : n.fuel b ≤ fuel) :
    identity.Rel n.isPredicate b n.firm (derive fuel n) (read n) := by
  refine identity_rel_iff.2 ⟨steady_derive fuel n, steady_read n, fun s hb => ?_⟩
  have hmul := Nat.mul_le_mul_left fuelPerLevel hb
  have hfuel : n.fuel s.budget ≤ fuel := by
    simp only [Nonterminal.fuel] at h ⊢
    omega
  exact ⟨derive_eq_read hfuel, derive_ne_outOfFuel hfuel⟩

/-- `read` runs the rules. -/
theorem read_eq_rule (n : Nonterminal α) : read n = rule read n := by
  funext s
  show rule (derive (n.rank + fuelPerLevel * s.budget)) n s = rule read n s
  have hfuel : n.fuel s.budget ≤ n.rank + fuelPerLevel * s.budget + 1 := Nat.le_refl _
  have hrel := identity_rule (steady_derive _) steady_read (waits_derive_filter _) waits_read_filter n
    (fun m hm => derive_related_read m (Nonterminal.fuel_of_isAbove hm hfuel))
    fun b' hb _ m => derive_related_read m (Nonterminal.fuel_of_lt hb hfuel)
  exact ((identity_rel_iff.1 hrel).2.2 s (Nat.le_refl _)).1

/-- The rules without fuel are a solution of the equations of the grammar. -/
theorem closed_read : Closed read := ⟨read_eq_rule, steady_read⟩

/-- A statement takes a query from where it starts. -/
theorem statementRule_congr {c d : Callee} {s : State} (h : c .query s = d .query s) :
    statementRule c s = statementRule d s := by
  unfold statementRule
  rw [current_bind_apply, current_bind_apply]
  generalize s.cursor.current = token
  cases hkind : token.kind with
  | keyword word =>
    cases word with
    | SELECT =>
      show (c .query >>= fun query => pure (Statement.select query)) s =
        (d .query >>= fun query => pure (Statement.select query)) s
      rw [bind_apply, bind_apply, h]
    | _ => rfl
  | _ => rfl

/-- What may be a statement runs alike for callees that read queries alike. -/
theorem optionalStatement_congr {c d : Callee} {s : State} (h : c .query s = d .query s) :
    optionalStatement c s = optionalStatement d s := by
  have hrecover : recover (statementRule c) s = recover (statementRule d) s := by
    unfold recover
    rw [statementRule_congr h]
  unfold optionalStatement
  rw [current_bind_apply, current_bind_apply]
  cases s.cursor.current.kind with
  | endOfInput => rfl
  | symbol sign =>
    cases sign with
    | semicolon => rfl
    | _ => exact hrecover
  | _ => exact hrecover

/-- The same is true of the root rule. -/
theorem rootRule_congr {c d : Callee} {s : State} (h : c .query s = d .query s) :
    rootRule c s = rootRule d s := by
  unfold rootRule
  rw [bind_apply, bind_apply, optionalStatement_congr h]

/-- A parse has the fuel for a query with all levels of nesting. -/
theorem query_fuel_le (settings : Settings) :
    (Nonterminal.query).fuel settings.nestingLimit ≤ fuelFor settings := by
  show 3 + fuelPerLevel * settings.nestingLimit + 1 ≤ fuelPerLevel * (settings.nestingLimit + 1)
  simp only [fuelPerLevel]
  omega

/-- A parse runs the rules without running out of fuel. -/
theorem runRoot_eq [Time.Library] (tokens : List Token) (settings : Settings) :
    runRoot tokens settings = rootRule read (State.ofTokens tokens settings) :=
  rootRule_congr (derive_eq_read (query_fuel_le settings))

theorem complete_inputEnd : Complete inputEnd := by
  refine complete_get_bind fun s => ?_
  dsimp only
  split
  · refine complete_get_bind fun s => ?_
    split
    · exact (complete_report _).bind fun _ => complete_get_bind fun _ =>
        (complete_skip _).bind fun _ => complete_note _
    · exact complete_reject _
  · exact complete_pure _

/-- Every rule without fuel is related to itself. -/
theorem identity_read (b : Nat) (n : Nonterminal α) :
    identity.Rel n.isPredicate b n.firm (read n) (read n) :=
  identity_rel_iff.2 ⟨steady_read n, steady_read n, fun s _ => ⟨rfl, read_ne_outOfFuel n s⟩⟩

/-- No parse runs out of fuel. -/
theorem runRoot_ne_outOfFuel [Time.Library] (tokens : List Token) (settings : Settings)
    (t : State) :
    runRoot tokens settings ≠ .error .outOfFuel t := by
  rw [runRoot_eq]
  have hrel := (Simulation.query_congruence identity_lawful identity_queryLawful).rootRule
    (identity_read settings.nestingLimit .query)
    (identity_rel_iff.2 ⟨steady_inputEnd, steady_inputEnd, fun s _ => ⟨rfl, complete_inputEnd s⟩⟩)
    (fun _ _ _ hs => hs.1.elim) (fun _ _ _ hs => hs.1.elim)
  exact ((identity_rel_iff.1 hrel).2.2 _ (Nat.le_refl _)).2 t

end SearchSql.Grammar
