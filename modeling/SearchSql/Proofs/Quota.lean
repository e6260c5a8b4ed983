import SearchSql.Proofs.RuleContract
import SearchSql.Time.Reading

/-!
# The limit of diagnostics

While a parse that recovers goes on, none of its diagnostics is fatal and there is room for one more.
The diagnostic that takes the last place is followed by the one that says so, and by no other
(`parseTokens_quota`). An attempt may run out of room as well; what it reported is forgotten with it.
-/

set_option autoImplicit false

namespace SearchSql

/-- The diagnostic is of one of the kinds that end a parse. -/
def Diagnostic.EndsParse (d : Diagnostic) : Prop :=
  d.kind = .internalAmbiguity ∨ d.kind = .recursionLimitExceeded ∨ d.kind = .tooManyErrors

/-- The parser takes these diagnostics for fatal, and no others. -/
theorem Diagnostic.isFatal_iff {d : Diagnostic} : d.isFatal = true ↔ d.EndsParse := by
  unfold Diagnostic.isFatal Diagnostic.EndsParse
  cases d.kind
  all_goals simp [DiagnosticKind.isFatal]

namespace Grammar

open SearchSql.Grammar.Parser

/-- The parse recovers, has no fatal diagnostic, and has room for another one. The first always has
room. -/
structure State.HasRoom (s : State) : Prop where
  recover : s.settings.recover = true
  notFatal : ∀ d ∈ s.diagnostics, d.isFatal = false
  room : s.diagnostics = [] ∨ s.diagnostics.length < s.settings.maxDiagnostics

/-- The last place is taken. -/
structure State.IsFull (s : State) : Prop where
  notFatal : ∀ d ∈ s.diagnostics, d.isFatal = false
  length : s.diagnostics.length = max 1 s.settings.maxDiagnostics

/-- Room for a diagnostic stays while nothing is reported. -/
theorem State.HasRoom.same {s t : State} (h : s.HasRoom) (ht : s.Keeps t) : t.HasRoom := by
  constructor
  · rw [ht.settings]
    exact h.recover
  · rw [ht.diagnostics]
    exact h.notFatal
  · rw [ht.diagnostics, ht.settings]
    exact h.room

/-- A full record stays full while nothing is reported. -/
theorem State.IsFull.same {s t : State} (h : s.IsFull) (ht : s.Keeps t) : t.IsFull := by
  constructor
  · rw [ht.diagnostics]
    exact h.notFatal
  · rw [ht.diagnostics, ht.settings]
    exact h.length

/-- A diagnostic that takes a place takes the last one or leaves room for another. -/
theorem State.HasRoom.reported {s : State} (h : s.HasRoom) {d : Diagnostic}
    (hd : d.isFatal = false) :
    if s.settings.maxDiagnostics ≤ s.diagnostics.length + 1 then (s.reported d).IsFull
    else (s.reported d).HasRoom := by
  have hfatal : ∀ e ∈ d :: s.diagnostics, e.isFatal = false := by
    intro e he
    rcases List.mem_cons.1 he with rfl | he
    · exact hd
    · exact h.notFatal e he
  split
  · next hlimit =>
    refine ⟨hfatal, ?_⟩
    show s.diagnostics.length + 1 = max 1 s.settings.maxDiagnostics
    rcases h.room with hnil | hroom
    · rw [hnil] at hlimit ⊢
      simp only [List.length_nil] at hlimit ⊢
      omega
    · omega
  · next hlimit =>
    refine ⟨h.recover, hfatal, .inr ?_⟩
    show s.diagnostics.length + 1 < s.settings.maxDiagnostics
    omega

/-- While the parse goes on there is room, and a refusal says so if there is none. -/
def quota : Contract where
  keeps := State.HasRoom
  refuses d t := if d.kind = .tooManyErrors then t.IsFull else t.HasRoom

/-- A refusal in a state with room keeps to the quota, unless it says that there are too many
errors. -/
theorem quota_refuses {d : Diagnostic} {t : State} (h : d.kind ≠ .tooManyErrors)
    (ht : t.HasRoom) : quota.refuses d t := by
  show if d.kind = .tooManyErrors then t.IsFull else t.HasRoom
  rw [if_neg h]
  exact ht

/-- To keep to the quota is a condition on what is reported. -/
theorem quota_reporting : quota.Reporting where
  skip_one hs _ := hs.same ⟨rfl, rfl, rfl⟩
  same hs ht _ := hs.same ht
  refuses_same {d s t} hs ht _ := by
    change if d.kind = .tooManyErrors then s.IsFull else s.HasRoom at hs
    show if d.kind = .tooManyErrors then t.IsFull else t.HasRoom
    split
    · next h =>
      rw [if_pos h] at hs
      exact hs.same ht
    · next h =>
      rw [if_neg h] at hs
      exact hs.same ht
  refuses_current hs hd := quota_refuses hd.kind_ne.1 hs
  refuses_passed _ hs _ := quota_refuses nofun (hs.same ⟨rfl, rfl, rfl⟩)
  refuses_literal _ _ _ _ _ ht := quota_refuses nofun ht
  report {d s} hs hd _ := by
    -- What is reported is not fatal, so it does not speak of the limit.
    have hkind : d.kind ≠ .tooManyErrors := by
      intro hkind
      unfold Diagnostic.isFatal at hd
      rw [hkind] at hd
      cases hd
    change if d.kind = .tooManyErrors then s.IsFull else s.HasRoom at hs
    rw [if_neg hkind] at hs
    have hreported := hs.reported hd
    rw [report_apply]
    split
    · exact hs.same ⟨rfl, rfl, rfl⟩
    · split
      · next hlimit =>
        rw [if_pos hlimit] at hreported
        exact hreported
      · next hlimit =>
        rw [if_neg hlimit] at hreported
        exact hreported

/-- The quota is kept by every combination of rules that keep to it. -/
theorem quota_lawful : quota.Lawful := quota_reporting.lawful

/-- A parse that recovers starts with room for a diagnostic. -/
theorem hasRoom_ofTokens [Time.Library] (tokens : List Token) {settings : Settings}
    (h : settings.recover = true) : (State.ofTokens tokens settings).HasRoom :=
  ⟨h, nofun, .inl rfl⟩

end Grammar

open SearchSql.Grammar

/-- With room for another one there are fewer diagnostics than the quota. -/
theorem Grammar.State.HasRoom.length_lt {s : State} (h : s.HasRoom) :
    s.diagnostics.length < max 1 s.settings.maxDiagnostics := by
  rcases h.room with hnil | hroom
  · rw [hnil, List.length_nil]
    omega
  · omega

/-- A parse that recovers and gets to the end has room for one more diagnostic. The last diagnostic
is about the limit exactly if it stands behind all places there are; there is never another behind
it, and no other is fatal. -/
theorem parseTokens_quota [Time.Library] (tokens : List Token) (settings : Settings)
    (h : settings.recover = true) :
    let o := parseTokens tokens settings
    (o.aborted = false →
      o.diagnostics = [] ∨ o.diagnostics.length < settings.maxDiagnostics) ∧
    ((∃ d, o.diagnostics.getLast? = some d ∧ d.kind = .tooManyErrors) ↔
      o.diagnostics.length = max 1 settings.maxDiagnostics + 1) ∧
    o.diagnostics.length ≤ max 1 settings.maxDiagnostics + 1 ∧
    ∀ d ∈ o.diagnostics.dropLast, ¬ d.EndsParse := by
  have hends := quota_lawful.runRoot (hasRoom_ofTokens tokens h)
  have hsettings := (leads_runRoot tokens settings).settings
  have hfuel := runRoot_ne_outOfFuel tokens settings
  dsimp only
  unfold parseTokens
  generalize runRoot tokens settings = r at hends hsettings hfuel ⊢
  cases r with
  | ok statement t =>
    have ht : t.HasRoom := hends
    have hlimit : t.settings = settings := hsettings
    have hlength := ht.length_lt
    have hroom := ht.room
    rw [hlimit] at hlength hroom
    -- What has been kept so far is not fatal, so the last one does not say that there are too
    -- many.
    have hlast : ¬∃ d, t.diagnostics.reverse.getLast? = some d ∧ d.kind = .tooManyErrors := by
      rintro ⟨d, hd, hkind⟩
      have hfatal := ht.notFatal d (List.mem_reverse.1 (List.mem_of_getLast? hd))
      unfold Diagnostic.isFatal at hfatal
      rw [hkind] at hfatal
      cases hfatal
    refine ⟨fun _ => ?_, ?_, ?_, ?_⟩
    · simpa [outcome] using hroom
    · constructor
      · exact fun hd => absurd hd hlast
      · intro heq
        simp only [outcome, List.length_reverse] at heq
        omega
    · simp only [outcome, List.length_reverse]
      omega
    · intro d hd hends
      have hmem := List.mem_reverse.1 (List.dropLast_subset _ hd)
      cases (ht.notFatal d hmem).symm.trans (Diagnostic.isFatal_iff.2 hends)
  | error e t =>
    cases e with
    | outOfFuel => exact absurd rfl (hfuel t)
    | rejected d =>
      have hlimit : t.settings = settings := hsettings
      change if d.kind = .tooManyErrors then t.IsFull else t.HasRoom at hends
      have hfatal : ∀ e ∈ t.diagnostics, ¬ e.EndsParse := by
        intro e he hfound
        have hnot : e.isFatal = false := by
          split at hends
          · exact hends.notFatal e he
          · exact hends.notFatal e he
        cases hnot.symm.trans (Diagnostic.isFatal_iff.2 hfound)
      -- The last place is taken by the refusal that there are too many, or there is still room.
      have hlength : d.kind = .tooManyErrors ∧
            t.diagnostics.length = max 1 settings.maxDiagnostics ∨
          d.kind ≠ .tooManyErrors ∧ t.diagnostics.length < max 1 settings.maxDiagnostics := by
        rw [← hlimit]
        split at hends
        · next hkind => exact .inl ⟨hkind, hends.length⟩
        · next hkind => exact .inr ⟨hkind, hends.length_lt⟩
      simp only [outcome, List.reverse_cons, List.getLast?_concat, Option.some.injEq,
        exists_eq_left', List.length_append, List.length_reverse, List.length_singleton,
        List.dropLast_concat, List.mem_reverse]
      refine ⟨nofun, ?_, ?_, hfatal⟩
      · constructor
        · intro hkind
          rcases hlength with ⟨-, hfull⟩ | ⟨hne, -⟩
          · rw [hfull]
          · exact absurd hkind hne
        · intro heq
          rcases hlength with ⟨hkind, -⟩ | ⟨-, hlt⟩
          · exact hkind
          · omega
      · rcases hlength with ⟨-, hfull⟩ | ⟨-, hlt⟩
        · omega
        · omega

/-- With room for a single diagnostic, the first is followed by the one about the limit. -/
theorem parse_quota_one :
    (parse "SELECT FROM t WHERE" { Settings.standard with maxDiagnostics := 1 }).diagnostics.length
        = 2 ∧
      ∃ d, (parse "SELECT FROM t WHERE"
          { Settings.standard with maxDiagnostics := 1 }).diagnostics.getLast? = some d ∧
        d.kind = .tooManyErrors := by
  have hlength : (parse "SELECT FROM t WHERE"
      { Settings.standard with maxDiagnostics := 1 }).diagnostics.length = 2 := by decide +kernel
  exact ⟨hlength, (parseTokens_quota (Token.tokenize "SELECT FROM t WHERE")
    { Settings.standard with maxDiagnostics := 1 } rfl).2.1.2 hlength⟩

end SearchSql
