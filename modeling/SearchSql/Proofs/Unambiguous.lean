import SearchSql.Proofs.RuleContract
import SearchSql.Time.Reading

/-!
# No internal ambiguity

A list refuses an item that has taken no token, with a diagnostic of a kind of its own. As every item
takes one, no parse has such a diagnostic, nor does one that stops at the first error fail with it:
`parse_is_unambiguous`.
-/

set_option autoImplicit false

namespace SearchSql

/-- The diagnostic does not speak of an item without a token. -/
def Diagnostic.IsClear (d : Diagnostic) : Prop := d.kind ≠ .internalAmbiguity

namespace Grammar

open SearchSql.Grammar.Parser

theorem Blames.isClear {t : Token} {d : Diagnostic} (h : Blames t d) : d.IsClear := by
  cases h <;> exact nofun

/-- Neither what has been reported nor what is refused speaks of an item without a token. -/
def clarity : Contract where
  keeps s := ∀ d ∈ s.diagnostics, d.IsClear
  refuses d s := d.IsClear ∧ ∀ e ∈ s.diagnostics, e.IsClear

theorem clarity_same {s t : State} (hs : clarity.keeps s) (ht : s.Keeps t) : clarity.keeps t := by
  show ∀ d ∈ t.diagnostics, d.IsClear
  rw [ht.diagnostics]
  exact hs

theorem clarity_reporting : clarity.Reporting where
  skip_one hs _ := clarity_same hs ⟨rfl, rfl, rfl⟩
  same hs ht _ := clarity_same hs ht
  refuses_same hs ht _ := ⟨hs.1, clarity_same hs.2 ht⟩
  refuses_current hs hd := ⟨hd.isClear, hs⟩
  refuses_passed _ hs _ := ⟨nofun, clarity_same hs ⟨rfl, rfl, rfl⟩⟩
  refuses_literal _ _ _ _ _ ht := ⟨nofun, ht⟩
  report {d s} hs _ _ := by
    have hreported : ∀ e ∈ d :: s.diagnostics, e.IsClear := List.forall_mem_cons.2 hs
    rw [report_apply]
    split
    · exact hs.2
    · split
      · exact ⟨nofun, hreported⟩
      · exact hreported

/-- How a run ends, no diagnostic speaks of an item without a token. -/
theorem clarity_runRoot [Time.Library] (tokens : List Token) (settings : Settings) :
    clarity.Ends (runRoot tokens settings) :=
  clarity_reporting.lawful.runRoot fun _ hd => absurd hd List.not_mem_nil

end Grammar

open SearchSql.Grammar

/-- Whatever the tokens and the settings are, each item of a list that is read has moved the cursor,
from whatever state it is read. So neither a diagnostic of a parse nor the failure of one that stops
at the first error is of the kind that says otherwise. -/
theorem parse_is_unambiguous [Time.Library] :
    (∀ (fuel : Nat) {α : Type} (p : Parser α), ItemRule (derive fuel) p →
        ∀ (s t : State) (a : α), p s = .ok a t → s.cursor.position < t.cursor.position) ∧
      (∀ (tokens : List Token) (settings : Settings),
        ∀ d ∈ (parseTokens tokens settings).diagnostics, d.kind ≠ .internalAmbiguity) ∧
      ∀ (tokens : List Token) (settings : Settings) (d : Diagnostic),
        parseTokensStrict tokens settings = .error (.rejected d) → d.kind ≠ .internalAmbiguity := by
  refine ⟨fun fuel α p hp s t a hrun => hp.consumes.position_lt hrun, fun tokens settings => ?_,
    fun tokens settings d hrun => ?_⟩
  -- No rule refuses for ambiguity, so neither what was reported nor what ended the parse is of
  -- that kind.
  · have hends := clarity_runRoot tokens settings
    unfold parseTokens
    cases hr : runRoot tokens settings with
    | ok statement t =>
      rw [hr] at hends
      exact fun d hd => hends d (List.mem_reverse.1 hd)
    | error e t =>
      rw [hr] at hends
      cases e with
      | outOfFuel => exact fun d hd => hends d (List.mem_reverse.1 hd)
      | rejected d => exact fun e he => List.forall_mem_cons.2 hends e (List.mem_reverse.1 he)
  · have hends := clarity_runRoot tokens { settings with recover := false }
    unfold parseTokensStrict at hrun
    cases hr : runRoot tokens { settings with recover := false } with
    | ok statement t =>
      rw [hr] at hrun
      cases statement with
      | some statement => cases hrun
      | none =>
        cases hrun
        exact nofun
    | error e t =>
      rw [hr] at hrun hends
      cases hrun
      exact hends.1

/-- An end of the input among the tokens is no item, so both parses refuse it where one is due. -/
theorem parse_is_unambiguous_end :
    let tokens : List Token := [⟨.keyword .SELECT, "SELECT", ⟨0, 6⟩⟩, ⟨.endOfInput, "", ⟨7, 7⟩⟩,
      ⟨.symbol .comma, ",", ⟨7, 8⟩⟩, ⟨.name "a", "a", ⟨8, 9⟩⟩]
    (∃ d ∈ (parseTokens tokens Settings.standard).diagnostics, d.kind ≠ .internalAmbiguity) ∧
    (∃ d, parseTokensStrict tokens Settings.standard = .error (.rejected d) ∧
      d.kind ≠ .internalAmbiguity) ∧
    ∃ (s t : State) (a : OrderItem), derive 60 .orderItem s = .ok a t ∧
      s.cursor.position < t.cursor.position := by
  intro tokens
  obtain ⟨d, hd⟩ : ∃ d, d ∈ (parseTokens tokens Settings.standard).diagnostics :=
    ⟨_, List.mem_cons_self⟩
  have hrun : parseTokensStrict tokens Settings.standard =
      .error (.rejected (.noAlternative "expression"
        ["constant", "column name", "function call", "'('"] ⟨.endOfInput, "", ⟨7, 7⟩⟩)) := by
    rfl
  obtain ⟨t, a, hitem⟩ : ∃ (t : State) (a : OrderItem), derive 60 .orderItem
      (State.ofTokens [⟨.name "a", "a", ⟨0, 1⟩⟩] Settings.standard) = .ok a t := ⟨_, _, rfl⟩
  exact ⟨⟨d, hd, parse_is_unambiguous.2.1 tokens Settings.standard d hd⟩,
    ⟨_, hrun, parse_is_unambiguous.2.2 tokens Settings.standard _ hrun⟩,
    _, t, a, hitem, parse_is_unambiguous.1 60 _ .orderItem _ t a hitem⟩

end SearchSql
