import SearchSql.Proofs.Ahead
import SearchSql.Proofs.Building
import SearchSql.Proofs.Formatting
import SearchSql.Proofs.Rounds
import SearchSql.Proofs.View

/-!
# Retracing runs

A run that stops at the first error passes tokens and builds a tree. It is retraced by running the same
rules over the tokens that are written for the outline of the tree: they take these tokens and build
the same tree, up to places and quotes (`Retrace`).

Both runs look ahead, so what stands behind matters. An `Outlook` relates the place where the one run
stands to the tokens that the other faces. A parser `Retraces` from one outlook to another if each of
its runs can be retraced wherever the second outlook holds behind what is written, and if the first
outlook holds in front of it then. What rules are written with retraces what it builds; one lemma for
each parser that rules share says so.
-/

set_option autoImplicit false

namespace SearchSql

/-! ## Trees without places and quotes -/

/-- The view without places and quotes. -/
def View.erased : View := ⟨fun _ => default, fun name => .ofValue name.value, fun text => text⟩

/-- What parsers give, seen without places and quotes. -/
class Erases (α : Type) where
  erase : α → α

export Erases (erase)

section

variable {α β : Type}

instance : Erases Unit := ⟨id⟩
instance : Erases Bool := ⟨id⟩
instance : Erases Nat := ⟨id⟩
instance : Erases String := ⟨id⟩
instance : Erases Number.Binary64 := ⟨id⟩
instance : Erases DatetimeUnit := ⟨id⟩
instance : Erases DataType := ⟨id⟩
instance : Erases FormatTarget := ⟨id⟩
instance : Erases Direction := ⟨id⟩
instance : Erases NullOrder := ⟨id⟩
instance : Erases Quantifier := ⟨id⟩

instance : Erases Span := ⟨View.erased.span⟩
instance : Erases Ident := ⟨View.erased.ident⟩
instance : Erases QualifiedName := ⟨QualifiedName.view .erased⟩
instance : Erases Field := ⟨Field.view .erased⟩
instance : Erases WeightedField := ⟨WeightedField.view .erased⟩
instance : Erases RelevanceForm := ⟨RelevanceForm.view .erased⟩
instance : Erases HighlightOption := ⟨HighlightOption.view .erased⟩

instance : Erases Expr := ⟨Expr.view .erased⟩
instance : Erases Predicate := ⟨Predicate.view .erased⟩
instance : Erases Atom := ⟨Atom.view .erased⟩
instance : Erases Constant := ⟨Constant.view .erased⟩
instance : Erases Literal := ⟨Literal.view .erased⟩
instance : Erases Call := ⟨Call.view .erased⟩
instance : Erases CallShape := ⟨CallShape.view .erased⟩
instance : Erases CaseBranch := ⟨CaseBranch.view .erased⟩
instance : Erases Aggregate := ⟨Aggregate.view .erased⟩
instance : Erases Window := ⟨Window.view .erased⟩
instance : Erases PartitionBy := ⟨PartitionBy.view .erased⟩
instance : Erases OrderBy := ⟨OrderBy.view .erased⟩
instance : Erases OrderItem := ⟨OrderItem.view .erased⟩
instance : Erases Filter := ⟨Filter.view .erased⟩
instance : Erases Relevance := ⟨Relevance.view .erased⟩
instance : Erases SearchValue := ⟨SearchValue.view .erased⟩
instance : Erases RelevanceOption := ⟨RelevanceOption.view .erased⟩

instance : Erases SelectItem := ⟨SelectItem.view .erased⟩
instance : Erases Condition := ⟨Condition.view .erased⟩
instance : Erases GroupBy := ⟨GroupBy.view .erased⟩
instance : Erases Limit := ⟨Limit.view .erased⟩
instance : Erases Query := ⟨Query.view .erased⟩
instance : Erases Relation := ⟨Relation.view .erased⟩
instance : Erases Pattern := ⟨Pattern.view .erased⟩
instance : Erases NameFilter := ⟨NameFilter.view .erased⟩
instance : Erases Statement := ⟨Statement.view .erased⟩

variable [Erases α] [Erases β]

instance : Erases (Option α) := ⟨Option.map erase⟩
instance : Erases (List α) := ⟨List.map erase⟩
instance : Erases (α × β) := ⟨Prod.map erase erase⟩

instance : Erases (ForInStep α) where
  erase
    | .done a => .done (erase a)
    | .yield a => .yield (erase a)

@[simp] theorem erase_some {a a' : α} : erase (some a) = erase (some a') ↔ erase a = erase a' :=
  Option.some_inj

@[simp] theorem erase_cons {a a' : α} {as as' : List α} :
    erase (a :: as) = erase (a' :: as') ↔ erase a = erase a' ∧ erase as = erase as' :=
  List.cons_eq_cons

/-- Lists that are the same up to places and quotes are so backwards. -/
theorem erase_reverse {as as' : List α} (h : erase as = erase as') :
    erase as.reverse = erase as'.reverse :=
  (List.map_reverse ..).trans ((congrArg List.reverse h).trans (List.map_reverse ..).symm)

/-- So are pairs if their parts are. -/
theorem erase_pair {a a' : α} {b b' : β} :
    erase (a, b) = erase (a', b') ↔ erase a = erase a' ∧ erase b = erase b' :=
  Prod.ext_iff

/-- Such lists are both empty or neither is. -/
theorem erase_isEmpty {as as' : List α} (h : erase as = erase as') : as.isEmpty = as'.isEmpty := by
  cases as with
  | nil => cases as' with
    | nil => rfl
    | cons b bs => cases h
  | cons a as => cases as' with
    | nil => cases h
    | cons b bs => rfl

end

/-! ## Parts of trees without places and quotes -/

/-- Expressions that are the same as values of parsers are the same as parts of a tree. -/
theorem viewAll_erased {es es' : List Expr} (h : erase es = erase es') :
    viewAll .erased es = viewAll .erased es' := by
  rw [viewAll_eq, viewAll_eq]
  exact h

theorem viewItems_erased {is is' : List OrderItem} (h : erase is = erase is') :
    viewItems .erased is = viewItems .erased is' := by
  rw [viewItems_eq, viewItems_eq]
  exact h

theorem viewBranches_erased {bs bs' : List CaseBranch} (h : erase bs = erase bs') :
    viewBranches .erased bs = viewBranches .erased bs' := by
  rw [viewBranches_eq, viewBranches_eq]
  exact h

theorem viewOptions_erased {os os' : List RelevanceOption} (h : erase os = erase os') :
    viewOptions .erased os = viewOptions .erased os' := by
  rw [viewOptions_eq, viewOptions_eq]
  exact h

theorem viewOptional_erased {e e' : Option Expr} (h : erase e = erase e') :
    viewOptional .erased e = viewOptional .erased e' := by
  rw [viewOptional_eq, viewOptional_eq]
  exact h

theorem viewOptionalConstant_erased {c c' : Option Constant} (h : erase c = erase c') :
    viewOptionalConstant .erased c = viewOptionalConstant .erased c' := by
  rw [viewOptionalConstant_eq, viewOptionalConstant_eq]
  exact h

theorem viewOptionalOrder_erased {o o' : Option OrderBy} (h : erase o = erase o') :
    viewOptionalOrder .erased o = viewOptionalOrder .erased o' := by
  rw [viewOptionalOrder_eq, viewOptionalOrder_eq]
  exact h

theorem viewOptionalPartition_erased {p p' : Option PartitionBy} (h : erase p = erase p') :
    viewOptionalPartition .erased p = viewOptionalPartition .erased p' := by
  rw [viewOptionalPartition_eq, viewOptionalPartition_eq]
  exact h

theorem viewFrom_erased {r r' : Option Relation} (h : erase r = erase r') :
    viewFrom .erased r = viewFrom .erased r' := by
  rw [viewFrom_eq, viewFrom_eq]
  exact h

namespace Grammar

open SearchSql.Grammar.Parser

variable {α β γ : Type} {s s' t t' : State} {items : List Item}

/-! ## States alike but for the place -/

/-- Whether the state differs in no more than its place and what was reported. -/
structure State.Twin (s s' : State) : Prop where
  settings : s'.settings = s.settings
  library : s'.library = s.library
  depth : s'.depth = s.depth
  subqueries : s'.subqueries = s.subqueries
  separatorDepth : s'.separatorDepth = s.separatorDepth

/-- Twins stay twins along two runs. -/
theorem State.Twin.leads (h : s.Twin s') (ht : s.Leads t) (ht' : s'.Leads t') : t.Twin t' where
  settings := ht'.settings.trans (h.settings.trans ht.settings.symm)
  library := ht'.library.trans (h.library.trans ht.library.symm)
  depth := ht'.depth.trans (h.depth.trans ht.depth.symm)
  subqueries := ht'.subqueries.trans (h.subqueries.trans ht.subqueries.symm)
  separatorDepth := ht'.separatorDepth.trans (h.separatorDepth.trans ht.separatorDepth.symm)

/-- They do wherever each of them goes. -/
theorem State.Twin.skip (h : s.Twin s') (m n : Nat) : (s.skip m).Twin (s'.skip n) :=
  h.leads (s.leads_skip m) (s'.leads_skip n)

theorem State.Twin.deeper (h : s.Twin s') (cost : Nat) : (s.deeper cost).Twin (s'.deeper cost) :=
  ⟨h.settings, h.library, congrArg (· + cost) h.depth, h.subqueries, h.separatorDepth⟩

theorem State.Twin.shallower (h : s.Twin s') (cost : Nat) :
    (s.shallower cost).Twin (s'.shallower cost) :=
  ⟨h.settings, h.library, congrArg (· - cost) h.depth, h.subqueries, h.separatorDepth⟩

/-- Twins agree on what separates. -/
theorem State.Twin.isSeparator (h : s.Twin s') (test : Test) :
    s'.isSeparator test = s.isSeparator test := by
  unfold State.isSeparator
  rw [h.depth, h.separatorDepth]

/-! ## Retracing -/

/-- What is known of an outline: what is written for it can be read back, and no segment of a name but
the first has a dot in front. -/
structure Fine (items : List Item) : Prop where
  legible : Legible items
  dots : ∀ name, .qualified name ∈ remarks items →
    ∀ part ∈ name.parts.tail, part.value.toList.head? ≠ some '.'

/-- A part of a fine outline is fine. -/
theorem Fine.mono {is js : List Item} (h : Fine js) (hsub : is ⊆ js) : Fine is where
  legible := fun i hi => h.legible i (hsub hi)
  dots := fun name hname => h.dots name (mem_remarks.2 (hsub (mem_remarks.1 hname)))

theorem Fine.left {is js : List Item} (h : Fine (is ++ js)) : Fine is :=
  h.mono (List.subset_append_left is js)

theorem Fine.right {is js : List Item} (h : Fine (is ++ js)) : Fine js :=
  h.mono (List.subset_append_right is js)

theorem Fine.tail {i : Item} {is : List Item} (h : Fine (i :: is)) : Fine is :=
  h.mono (List.subset_cons_self i is)

/-- The token that is written for a mark of the outline stands for it, unless the library is
asked. -/
theorem Fine.denotes {m : Mark} {is : List Item} (h : Fine (.mark m :: is))
    (hm : ∀ value, m ≠ .temporal value) (library : Time.Library) : m.Denotes library m.token :=
  Mark.denotes_token (h.legible _ List.mem_cons_self) fun value hvalue => absurd hvalue (hm value)

/-- Whether there are tokens in the outline. -/
def Fills (items : List Item) : Prop := Legible items → writtenTokens items ≠ []

/-- What closes the outline of a rule has a token in it. -/
theorem fills_of_closes (h : Closes items) : Fills items := by
  intro hlegible
  obtain ⟨ms, m, hmarks, -⟩ := h hlegible
  unfold writtenTokens
  rw [hmarks]
  simp

theorem fills_cons_mark (m : Mark) (is : List Item) : Fills (.mark m :: is) :=
  fun _ => List.cons_ne_nil _ _

/-- An outline with a token in it has one if more stands behind it. -/
theorem Fills.append (h : Fills items) (js : List Item) : Fills (items ++ js) := by
  intro hlegible heq
  rw [writtenTokens_append, List.append_eq_nil_iff] at heq
  exact h (legible_append.1 hlegible).1 heq.1

/-- What relates the place of one run to the tokens that another faces. -/
abbrev Outlook : Type := Cursor → List Token → Prop

/-- Any places. -/
def Outlook.any : Outlook := fun _ _ => True

/-- A token of the same kind is in front of both. -/
def Meets (kind : TokenKind) : Outlook :=
  fun c tokens => c.current.kind = kind ∧ kindAt tokens 0 = kind

/-- The run from `s` to `t` that gave `a` is retraced by `q` on the tokens written for `items`: where the
outlook `rear` holds behind them, `front` holds in front of them, and `q` gives the same as `a`. -/
structure Retrace [Erases α] (front rear : Outlook) (q : Parser α) (items : List Item) (s : State)
    (a : α) (t : State) : Prop where
  leads : s.Leads t
  front : ∀ rest, Fine items → rear t.cursor rest → front s.cursor (writtenTokens items ++ rest)
  again : ∀ s' rest, Fine items → s.Twin s' → s'.Faces (writtenTokens items ++ rest) →
    rear t.cursor rest → ∃ a' t', q s' = .ok a' t' ∧ erase a = erase a' ∧ t.Twin t' ∧ t'.Faces rest

variable [Erases α] [Erases β] {here here' : Token → Prop} {before : List Item}
variable {front front' rear rear' : Outlook} {p q : Parser α} {after : α → List Item}

/-- What is known in front of the tokens may be used to change the outlook and the parser. -/
theorem Retrace.congr {q' : Parser α} {a : α} (h : Retrace front rear q items s a t)
    (hturn : ∀ tokens, front s.cursor tokens → front' s.cursor tokens ∧
      ∀ s', s.Twin s' → s'.Faces tokens → q' s' = q s') : Retrace front' rear q' items s a t where
  leads := h.leads
  front rest hfine hrear := (hturn _ (h.front rest hfine hrear)).1
  again s' rest hfine htwin hfaces hrear := by
    rw [(hturn _ (h.front rest hfine hrear)).2 s' htwin hfaces]
    exact h.again s' rest hfine htwin hfaces hrear

/-- What is retraced in front of many things is retraced in front of fewer. -/
theorem Retrace.ending {a : α} (h : Retrace front rear q items s a t)
    (himp : ∀ tokens, rear' t.cursor tokens → rear t.cursor tokens) :
    Retrace front rear' q items s a t where
  leads := h.leads
  front rest hfine hrear := h.front rest hfine (himp rest hrear)
  again s' rest hfine htwin hfaces hrear := h.again s' rest hfine htwin hfaces (himp rest hrear)

/-- A remark may be added, since none is written. -/
theorem Retrace.remarked {a : α} (h : Retrace front rear q items s a t) (r : Remark) :
    Retrace front rear q (.remark r :: items) s a t where
  leads := h.leads
  front rest hfine := h.front rest hfine.tail
  again s' rest hfine := h.again s' rest hfine.tail

variable {library : Time.Library}

/-- The state of a run over tokens read from a text that stops at the first error, where `IN` separates
nothing at greater depth. It asks the library, which reads back what it has read. -/
structure State.Primed [library : Time.Library] (s : State) : Prop where
  ready : s.Ready true
  settled : s.Settled
  withLibrary : s.library = library
  readsBack : library.ReadsBack

/-- Runs keep this of their state. -/
theorem State.Primed.leads (h : s.Primed) (ht : s.Leads t) : t.Primed :=
  ⟨h.ready.leads ht, h.settled.leads ht, ht.library.trans h.withLibrary, h.readsBack⟩

theorem State.Primed.skip (h : s.Primed) (n : Nat) : (s.skip n).Primed := h.leads (s.leads_skip n)

/-- The run stops at the first error. -/
theorem State.Primed.strict (h : s.Primed) : s.settings.recover = false := h.ready.strict rfl

/-- More levels of nesting may be in use. -/
theorem State.Primed.deeper (h : s.Primed) (cost : Nat) : (s.deeper cost).Primed :=
  ⟨h.ready.same rfl rfl, h.settled.deeper cost, h.withLibrary, h.readsBack⟩

/-- What is reported does not matter, nor do open subqueries. -/
theorem State.Primed.same (h : s.Primed) (hcursor : t.cursor = s.cursor)
    (hsettings : t.settings = s.settings) (hlibrary : t.library = s.library)
    (hdepth : t.depth = s.depth) (hseparator : t.separatorDepth = s.separatorDepth) :
    t.Primed := by
  refine ⟨h.ready.same hcursor hsettings, ?_, hlibrary.trans h.withLibrary, h.readsBack⟩
  unfold State.Settled
  rw [hdepth, hseparator]
  exact h.settled

/-- All runs of `p` from tokens that satisfy `here` are retraced by `q`. What they add to the outline
`before` is retraced, so that `after` is the outline behind them. -/
def Retraces [Time.Library] (here : Token → Prop) (front : Outlook) (before : List Item)
    (p q : Parser α) (after : α → List Item) (rear : α → Outlook) : Prop :=
  ∀ s a t, s.Primed → here s.cursor.current → p s = .ok a t →
    ∃ items, after a = before ++ items ∧ Retrace front (rear a) q items s a t

/-- What is retraced from some tokens on is retraced from others that are such tokens. -/
theorem Retraces.opening {rears : α → Outlook} (h : Retraces here front before p q after rears)
    (himp : ∀ u : Token, u.Sound → here' u → here u) : Retraces here' front before p q after rears :=
  fun s a t hs hhere heq => h s a t hs (himp _ hs.ready.current hhere) heq

/-- What is retraced from everywhere is retraced from some tokens. -/
theorem Retraces.anywhere {rears : α → Outlook}
    (h : Retraces Anywhere front before p q after rears) :
    Retraces here front before p q after rears := h.opening fun _ _ _ => trivial

/-- Less may be known in front of what is written. -/
theorem Retraces.starting {rears : α → Outlook} (h : Retraces here front before p q after rears)
    (himp : ∀ c tokens, here c.current → front c tokens → front' c tokens) :
    Retraces here front' before p q after rears := by
  intro s a t hs hhere heq
  obtain ⟨items, hafter, hr⟩ := h s a t hs hhere heq
  exact ⟨items, hafter, hr.congr fun tokens hfront => ⟨himp _ tokens hhere hfront, fun _ _ _ => rfl⟩⟩

/-- More may be known behind it. -/
theorem Retraces.ending {rears rears' : α → Outlook}
    (h : Retraces here front before p q after rears)
    (himp : ∀ a c tokens, rears' a c tokens → rears a c tokens) :
    Retraces here front before p q after rears' := by
  intro s a t hs hhere heq
  obtain ⟨items, hafter, hr⟩ := h s a t hs hhere heq
  exact ⟨items, hafter, hr.ending (himp a t.cursor)⟩

/-- What is retraced is retraced behind anything. -/
theorem Retraces.behind {rears : α → Outlook} (h : Retraces here front before p q after rears)
    (js : List Item) : Retraces here front (js ++ before) p q (fun a => js ++ after a) rears := by
  intro s a t hs hhere heq
  obtain ⟨items, hafter, hr⟩ := h s a t hs hhere heq
  exact ⟨items, (congrArg (js ++ ·) hafter).trans (List.append_assoc ..).symm, hr⟩

/-- What is retraced with nothing in front is retraced behind anything. -/
theorem Retraces.behindAll {rears : α → Outlook} (h : Retraces here front [] p q after rears) :
    Retraces here front before p q (fun a => before ++ after a) rears := by
  simpa using h.behind before

/-- A parser that, at each place, runs like one that is retraced. -/
theorem retraces_of {rears : α → Outlook}
    (h : ∀ s, s.Primed → here s.cursor.current → ∃ front' p' q',
      Retraces (fun u => u = s.cursor.current) front' before p' q' after rears ∧ p s = p' s ∧
        ∀ tokens, front' s.cursor tokens → front s.cursor tokens ∧
          ∀ s', s.Twin s' → s'.Faces tokens → q s' = q' s') :
    Retraces here front before p q after rears := by
  intro s a t hs hhere heq
  obtain ⟨front', p', q', hp, hsource, hturn⟩ := h s hs hhere
  rw [hsource] at heq
  obtain ⟨items, hafter, hr⟩ := hp s a t hs rfl heq
  exact ⟨items, hafter, hr.congr hturn⟩

/-- Without a token, the outlook in front is that behind. -/
theorem retraces_pure_of {rears : α → Outlook} {a a' : α} (h : after a = before)
    (hsame : erase a = erase a') (hrear : ∀ c tokens, rears a c tokens → front c tokens) :
    Retraces here front before (pure a) (pure a') after rears := by
  intro s b t hs _ heq
  obtain ⟨rfl, rfl⟩ := pure_eq_ok_iff.1 heq
  refine ⟨[], by rw [h, List.append_nil], .refl s, fun rest _ h => hrear _ rest h, ?_⟩
  intro s' rest _ htwin hfaces _
  exact ⟨a', s', rfl, hsame, htwin, hfaces⟩

theorem retraces_pure {a a' : α} (h : after a = before) (hsame : erase a = erase a') :
    Retraces here rear before (pure a) (pure a') after (fun _ => rear) :=
  retraces_pure_of h hsame fun _ _ hrear => hrear

/-- A failure need not be retraced. -/
theorem retraces_rejectCurrent {rears : α → Outlook} (expected : String) :
    Retraces here front before (rejectCurrent expected) q after rears :=
  fun _ _ _ _ _ heq => absurd heq rejectCurrent_ne_ok

/-- What is retraced one after the other is retraced, if the first outlook behind is the second in
front. -/
theorem Retraces.bind {middle : α → List Item} {rears : α → Outlook} {last : β → List Item}
    {ends : β → Outlook} {f f' : α → Parser β} (hp : Retraces here front before p q middle rears)
    (hf : ∀ a a', erase a = erase a' →
      Retraces Anywhere (rears a) (middle a) (f a) (f' a') last ends) :
    Retraces here front before (p >>= f) (q >>= f') last ends := by
  intro s b t hs hhere heq
  obtain ⟨a, u, hu, hrest⟩ := bind_eq_ok_iff.1 heq
  obtain ⟨is, hmiddle, hr⟩ := hp s a u hs hhere hu
  obtain ⟨js, hlast, hr'⟩ := hf a a rfl u b t (hs.leads hr.leads) trivial hrest
  refine ⟨is ++ js, by rw [hlast, hmiddle, List.append_assoc], hr.leads.trans hr'.leads, ?_, ?_⟩
  · intro rest hfine hrear
    rw [writtenTokens_append, List.append_assoc]
    exact hr.front _ hfine.left (hr'.front rest hfine.right hrear)
  · intro s' rest hfine htwin hfaces hrear
    rw [writtenTokens_append, List.append_assoc] at hfaces
    obtain ⟨a', u', hu', hsame, htwin', hfaces'⟩ := hr.again s' _ hfine.left htwin hfaces
      (hr'.front rest hfine.right hrear)
    -- The rest is retraced by the parser for what was given here, over the same tokens.
    obtain ⟨js', hlast', hr''⟩ := hf a a' hsame u b t (hs.leads hr.leads) trivial hrest
    obtain rfl : js = js' := List.append_cancel_left (hlast.symm.trans hlast')
    obtain ⟨b', t', ht', hsame', htwin'', hfaces''⟩ :=
      hr''.again u' rest hfine.right htwin' hfaces' hrear
    exact ⟨b', t', (bind_of_ok hu').trans ht', hsame', htwin'', hfaces''⟩

/-- What is retraced may be given in another form. -/
theorem Retraces.map {last : β → List Item} {f f' : α → β} {rear : Outlook}
    (hp : Retraces here front before p q after (fun _ => rear)) (hlast : ∀ a, last (f a) = after a)
    (hsame : ∀ a a', erase a = erase a' → erase (f a) = erase (f' a')) :
    Retraces here front before (f <$> p) (f' <$> q) last (fun _ => rear) :=
  hp.bind fun a a' h => retraces_pure (hlast a) (hsame a a' h)

/-- What is retraced is retraced as what may be there. -/
theorem Retraces.some {rear : Outlook} {last : Option α → List Item}
    (hp : Retraces here front before p q after (fun _ => rear))
    (hlast : ∀ a, last (some a) = after a) :
    Retraces here front before (some <$> p) (some <$> q) last (fun _ => rear) :=
  hp.map hlast fun _ _ h => erase_some.2 h

/-- A remark may be added in front of what is retraced. -/
theorem Retraces.remarked {outline outline' : α → List Item} {rears : α → Outlook}
    (h : Retraces here front [] p q outline rears)
    (hremark : ∀ a, outline' a = outline a ∨ ∃ r, outline' a = .remark r :: outline a) :
    Retraces here front [] p q outline' rears := by
  intro s a t hs hhere heq
  obtain ⟨items, hitems, hr⟩ := h s a t hs hhere heq
  rcases hremark a with houtline | ⟨r, houtline⟩
  · exact ⟨items, houtline.trans hitems, hr⟩
  · exact ⟨.remark r :: items, houtline.trans (congrArg (.remark r :: ·) hitems), hr.remarked r⟩

/-- A parser that, at each place, runs like one of those that retrace. -/
theorem Retraces.each {ι : Type} [Nonempty ι] {g : ι → Parser α} {rears : α → Outlook}
    (h : ∀ x, Retraces here front before p (g x) after rears) (hq : ∀ s', ∃ x, q s' = g x s') :
    Retraces here front before p q after rears := by
  intro s a t hs hhere heq
  obtain ⟨items, hafter, hr⟩ := h (Classical.arbitrary ι) s a t hs hhere heq
  refine ⟨items, hafter, hr.leads, hr.front, ?_⟩
  intro s' rest hfine htwin hfaces hrear
  obtain ⟨x, hx⟩ := hq s'
  obtain ⟨js, hafter', hr'⟩ := h x s a t hs hhere heq
  obtain rfl : items = js := List.append_cancel_left (hafter.symm.trans hafter')
  rw [hx]
  exact hr'.again s' rest hfine htwin hfaces hrear

/-! ## Looking and taking -/

section

variable {m : Mark} {N : Outlook} {f f' : Bool → Parser α} {rears : α → Outlook}

/-- The span in front of what is retraced is of no account. -/
theorem retraces_spanFrom_bind {f f' : Span → Parser α} {start start' : Span}
    (h : ∀ span span', Retraces here front before (f span) (f' span') after rears) :
    Retraces here front before (spanFrom start >>= f) (spanFrom start' >>= f') after rears :=
  fun s a t hs hhere heq =>
    Retraces.each (fun span' => h _ span') (fun _ => ⟨_, rfl⟩) s a t hs hhere heq

/-- The token under the cursor is of no account but for its place. -/
theorem retraces_start_bind {f f' : Token → Parser α}
    (h : ∀ u u', Retraces here front before (f u) (f' u') after rears) :
    Retraces here front before (current >>= f) (current >>= f') after rears :=
  fun s a t hs hhere heq =>
    have : Nonempty Token := ⟨s.cursor.current⟩
    Retraces.each (fun u' => h _ u') (fun _ => ⟨_, rfl⟩) s a t hs hhere heq

/-- A token is passed for a mark. -/
theorem retraces_skip (hend : m.token.isEnd = false)
    (hfront : ∀ c rest, here c.current → N (c.skip 1) rest → front c (m.token :: rest)) :
    Retraces here front before (Parser.skip 1) (Parser.skip 1) (fun _ => before ++ [.mark m])
      (fun _ => N) := by
  intro s a t _ hhere heq
  injection heq with _ ht
  subst ht
  refine ⟨[.mark m], rfl, s.leads_skip 1, fun rest _ hrear => hfront _ rest hhere hrear, ?_⟩
  intro s' rest _ htwin hfaces _
  exact ⟨(), s'.skip 1, rfl, rfl, htwin.skip 1 1, hfaces.skip hend⟩

/-- A token is retraced by the token that is written for its mark. -/
theorem retraces_take (hend : m.token.isEnd = false)
    (hfront : ∀ c rest, here c.current → N (c.skip 1) rest → front c (m.token :: rest)) :
    Retraces here front before take take (fun _ => before ++ [.mark m]) (fun _ => N) := by
  intro s a t _ hhere heq
  injection heq with _ ht
  subst ht
  refine ⟨[.mark m], rfl, s.leads_skip 1, fun rest _ hrear => hfront _ rest hhere hrear, ?_⟩
  intro s' rest _ htwin hfaces _
  exact ⟨_, s'.skip 1, rfl, rfl, htwin.skip 1 1, hfaces.skip hend⟩

theorem retraces_symbol_of {sign : Symbol}
    (hfront : ∀ c rest, c.current.kind = .symbol sign → N (c.skip 1) rest →
      front c (Token.ofSymbol sign :: rest)) :
    Retraces here front before (symbol sign) (symbol sign)
      (fun _ => before ++ [.symbol sign]) (fun _ => N) := by
  intro s a t _ _ heq
  obtain ⟨hkind, rfl, rfl⟩ := symbol_eq_ok_iff.1 heq
  refine ⟨[.symbol sign], rfl, s.leads_skip 1, fun rest _ h => hfront _ rest hkind h, ?_⟩
  intro s' rest _ htwin hfaces _
  have hkind' : s'.cursor.current.kind = .symbol sign := hfaces.current
  exact ⟨_, s'.skip 1, symbol_eq_ok_iff.2 ⟨hkind', rfl, rfl⟩, rfl, htwin.skip 1 1, hfaces.skip rfl⟩

/-- A sign is retraced in front of anything. -/
theorem retraces_symbol (sign : Symbol) :
    Retraces here (Meets (.symbol sign)) before (symbol sign) (symbol sign)
      (fun _ => before ++ [.symbol sign]) (fun _ => N) :=
  retraces_symbol_of fun _ _ hkind _ => ⟨hkind, rfl⟩

theorem retraces_keyword_of {word : Keyword}
    (hfront : ∀ c rest, c.current.kind = .keyword word → N (c.skip 1) rest →
      front c (Token.ofKeyword word :: rest)) :
    Retraces here front before (keyword word) (keyword word)
      (fun _ => before ++ [.keyword word]) (fun _ => N) := by
  intro s a t _ _ heq
  obtain ⟨hkind, rfl, rfl⟩ := keyword_eq_ok_iff.1 heq
  refine ⟨[.keyword word], rfl, s.leads_skip 1, fun rest _ h => hfront _ rest hkind h, ?_⟩
  intro s' rest _ htwin hfaces _
  have hkind' : s'.cursor.current.kind = .keyword word := hfaces.current
  exact ⟨_, s'.skip 1, keyword_eq_ok_iff.2 ⟨hkind', rfl, rfl⟩, rfl, htwin.skip 1 1, hfaces.skip rfl⟩

/-- So is a reserved word. -/
theorem retraces_keyword (word : Keyword) :
    Retraces here (Meets (.keyword word)) before (keyword word) (keyword word)
      (fun _ => before ++ [.keyword word]) (fun _ => N) :=
  retraces_keyword_of fun _ _ hkind _ => ⟨hkind, rfl⟩

/-- Both runs take the symbol, or neither does. -/
theorem retraces_takeSymbol_bind {sign : Symbol} {U : Outlook}
    (htrue : Retraces Anywhere N (before ++ [.symbol sign]) (f true) (f' true) after rears)
    (hfalse : Retraces here U before (f false) (f' false) after rears)
    (hseen : ∀ c rest, c.current.kind = .symbol sign → N (c.skip 1) rest →
      front c (Token.ofSymbol sign :: rest))
    (hunseen : ∀ c tokens, c.current.kind ≠ .symbol sign → U c tokens →
      front c tokens ∧ kindAt tokens 0 ≠ .symbol sign) :
    Retraces here front before (takeSymbol sign >>= f) (takeSymbol sign >>= f') after rears := by
  intro s a t hs hhere heq
  rw [takeSymbol_bind_apply] at heq
  split at heq
  · next hkind =>
    obtain ⟨js, hafter, hr⟩ := htrue (s.skip 1) a t (hs.skip 1) trivial heq
    refine ⟨.symbol sign :: js, by rw [hafter]; simp, (s.leads_skip 1).trans hr.leads, ?_, ?_⟩
    · intro rest hfine hrear
      exact hseen _ _ hkind (hr.front rest hfine.tail hrear)
    · intro s' rest hfine htwin hfaces hrear
      have hkind' : s'.cursor.current.kind = .symbol sign := hfaces.current
      rw [takeSymbol_bind_apply, if_pos hkind']
      exact hr.again (s'.skip 1) rest hfine.tail (htwin.skip 1 1) (hfaces.skip rfl) hrear
  · next hkind =>
    obtain ⟨js, hafter, hr⟩ := hfalse s a t hs hhere heq
    refine ⟨js, hafter, hr.congr fun tokens hfront => ?_⟩
    obtain ⟨hfront', hkind'⟩ := hunseen _ tokens hkind hfront
    refine ⟨hfront', fun s' _ hfaces => ?_⟩
    rw [takeSymbol_bind_apply, hfaces.current, if_neg hkind']

/-- Both runs take the word, or neither does. -/
theorem retraces_takeKeyword_bind {word : Keyword} {U : Outlook}
    (htrue : Retraces Anywhere N (before ++ [.keyword word]) (f true) (f' true) after rears)
    (hfalse : Retraces here U before (f false) (f' false) after rears)
    (hseen : ∀ c rest, c.current.kind = .keyword word → N (c.skip 1) rest →
      front c (Token.ofKeyword word :: rest))
    (hunseen : ∀ c tokens, c.current.kind ≠ .keyword word → U c tokens →
      front c tokens ∧ kindAt tokens 0 ≠ .keyword word) :
    Retraces here front before (takeKeyword word >>= f) (takeKeyword word >>= f') after rears := by
  intro s a t hs hhere heq
  rw [takeKeyword_bind_apply] at heq
  split at heq
  · next hkind =>
    obtain ⟨js, hafter, hr⟩ := htrue (s.skip 1) a t (hs.skip 1) trivial heq
    refine ⟨.keyword word :: js, by rw [hafter]; simp, (s.leads_skip 1).trans hr.leads, ?_, ?_⟩
    · intro rest hfine hrear
      exact hseen _ _ hkind (hr.front rest hfine.tail hrear)
    · intro s' rest hfine htwin hfaces hrear
      have hkind' : s'.cursor.current.kind = .keyword word := hfaces.current
      rw [takeKeyword_bind_apply, if_pos hkind']
      exact hr.again (s'.skip 1) rest hfine.tail (htwin.skip 1 1) (hfaces.skip rfl) hrear
  · next hkind =>
    obtain ⟨js, hafter, hr⟩ := hfalse s a t hs hhere heq
    refine ⟨js, hafter, hr.congr fun tokens hfront => ?_⟩
    obtain ⟨hfront', hkind'⟩ := hunseen _ tokens hkind hfront
    refine ⟨hfront', fun s' _ hfaces => ?_⟩
    rw [takeKeyword_bind_apply, hfaces.current, if_neg hkind']

/-- Both runs see the word, or neither does. -/
theorem retraces_atKeyword_bind {word : Keyword} {S U : Outlook}
    (htrue : Retraces (fun u => u.kind = .keyword word) S before (f true) (f' true) after rears)
    (hfalse : Retraces here U before (f false) (f' false) after rears)
    (hseen : ∀ c tokens, c.current.kind = .keyword word → S c tokens →
      front c tokens ∧ kindAt tokens 0 = .keyword word)
    (hunseen : ∀ c tokens, c.current.kind ≠ .keyword word → U c tokens →
      front c tokens ∧ kindAt tokens 0 ≠ .keyword word) :
    Retraces here front before (atKeyword word >>= f) (atKeyword word >>= f') after rears := by
  intro s a t hs hhere heq
  rw [atKeyword_bind_apply] at heq
  by_cases hkind : s.cursor.current.kind = .keyword word
  · rw [beq_iff_eq.2 hkind] at heq
    obtain ⟨js, hafter, hr⟩ := htrue s a t hs hkind heq
    refine ⟨js, hafter, hr.congr fun tokens hfront => ?_⟩
    obtain ⟨hfront', hkind'⟩ := hseen _ tokens hkind hfront
    refine ⟨hfront', fun s' _ hfaces => ?_⟩
    rw [atKeyword_bind_apply, hfaces.current, beq_iff_eq.2 hkind']
  · rw [beq_eq_false_iff_ne.2 hkind] at heq
    obtain ⟨js, hafter, hr⟩ := hfalse s a t hs hhere heq
    refine ⟨js, hafter, hr.congr fun tokens hfront => ?_⟩
    obtain ⟨hfront', hkind'⟩ := hunseen _ tokens hkind hfront
    refine ⟨hfront', fun s' _ hfaces => ?_⟩
    rw [atKeyword_bind_apply, hfaces.current, beq_eq_false_iff_ne.2 hkind']

/-- Both runs see the symbol, or neither does. -/
theorem retraces_atSymbol_bind {sign : Symbol} {S U : Outlook}
    (htrue : Retraces (fun u => u.kind = .symbol sign) S before (f true) (f' true) after rears)
    (hfalse : Retraces here U before (f false) (f' false) after rears)
    (hseen : ∀ c tokens, c.current.kind = .symbol sign → S c tokens →
      front c tokens ∧ kindAt tokens 0 = .symbol sign)
    (hunseen : ∀ c tokens, c.current.kind ≠ .symbol sign → U c tokens →
      front c tokens ∧ kindAt tokens 0 ≠ .symbol sign) :
    Retraces here front before (atSymbol sign >>= f) (atSymbol sign >>= f') after rears := by
  intro s a t hs hhere heq
  rw [atSymbol_bind_apply] at heq
  by_cases hkind : s.cursor.current.kind = .symbol sign
  · rw [beq_iff_eq.2 hkind] at heq
    obtain ⟨js, hafter, hr⟩ := htrue s a t hs hkind heq
    refine ⟨js, hafter, hr.congr fun tokens hfront => ?_⟩
    obtain ⟨hfront', hkind'⟩ := hseen _ tokens hkind hfront
    refine ⟨hfront', fun s' _ hfaces => ?_⟩
    rw [atSymbol_bind_apply, hfaces.current, beq_iff_eq.2 hkind']
  · rw [beq_eq_false_iff_ne.2 hkind] at heq
    obtain ⟨js, hafter, hr⟩ := hfalse s a t hs hhere heq
    refine ⟨js, hafter, hr.congr fun tokens hfront => ?_⟩
    obtain ⟨hfront', hkind'⟩ := hunseen _ tokens hkind hfront
    refine ⟨hfront', fun s' _ hfaces => ?_⟩
    rw [atSymbol_bind_apply, hfaces.current, beq_eq_false_iff_ne.2 hkind']

end

/-! ## Repetitions -/

/-- The outlook behind a round: the one in front of the next round, or behind the last. -/
def roundOutlook (front rear : Outlook) : ForInStep α → Outlook
  | .yield _ => front
  | .done _ => rear

/-- Rounds that can be retraced one by one are retraced by a repetition. -/
theorem Rounds.retrace {step step' : α → Parser (ForInStep α)} {front rear : Outlook}
    (hadv : ∀ a', Advances (step' a'))
    (hstep : ∀ a a', erase a = erase a' → Retraces Anywhere front (after a) (step a) (step' a')
      (fun r => after r.value) (roundOutlook front rear))
    {a b : α} (h : Rounds step a s b t) (hs : s.Primed) :
    ∃ items, after b = after a ++ items ∧
      ∀ a', erase a = erase a' → Retrace front rear (loop a' step') items s b t := by
  -- By induction on the rounds of the source; each of them is written and read again in front of
  -- the next.
  induction h with
  | @last a b s t hround =>
    obtain ⟨items, hafter, hr⟩ := hstep a a rfl s _ t hs trivial hround
    refine ⟨items, hafter, fun a' hsame => ⟨hr.leads, hr.front, ?_⟩⟩
    intro s' rest hfine htwin hfaces hrear
    obtain ⟨items', hafter', hr'⟩ := hstep a a' hsame s _ t hs trivial hround
    obtain rfl : items = items' := List.append_cancel_left (hafter.symm.trans hafter')
    obtain ⟨r', t', hrun, hsame', htwin', hfaces'⟩ := hr'.again s' rest hfine htwin hfaces hrear
    cases r' with
    | yield b' => cases hsame'
    | done b' =>
      injection hsame' with hsame'
      exact ⟨b', t', (loop_eq_ok_iff hadv).2 (.last hrun), hsame', htwin', hfaces'⟩
  | @more a b c s t u hround _ ih =>
    obtain ⟨is, hmiddle, hr⟩ := hstep a a rfl s _ t hs trivial hround
    obtain ⟨js, hafter, hrest⟩ := ih (hs.leads hr.leads)
    refine ⟨is ++ js, by rw [hafter, ← List.append_assoc]; exact congrArg (· ++ js) hmiddle, ?_⟩
    intro a' hsame
    refine ⟨hr.leads.trans (hrest b rfl).leads, ?_, ?_⟩
    · intro rest hfine hrear
      rw [writtenTokens_append, List.append_assoc]
      exact hr.front _ hfine.left ((hrest b rfl).front rest hfine.right hrear)
    · intro s' rest hfine htwin hfaces hrear
      rw [writtenTokens_append, List.append_assoc] at hfaces
      obtain ⟨is', hmiddle', hr'⟩ := hstep a a' hsame s _ t hs trivial hround
      obtain rfl : is = is' := List.append_cancel_left (hmiddle.symm.trans hmiddle')
      obtain ⟨r', u', hrun, hsame', htwin', hfaces'⟩ := hr'.again s' _ hfine.left htwin hfaces
        ((hrest b rfl).front rest hfine.right hrear)
      cases r' with
      | done b' => cases hsame'
      | yield b' =>
        injection hsame' with hsame'
        obtain ⟨c', t', hloop, hsame'', htwin'', hfaces''⟩ :=
          (hrest b' hsame').again u' rest hfine.right htwin' hfaces' hrear
        refine ⟨c', t', ?_, hsame'', htwin'', hfaces''⟩
        exact (loop_eq_ok_iff hadv).2 (.more hrun ((loop_eq_ok_iff hadv).1 hloop))

/-- A repetition is retraced round by round, where the outlook behind each round is that in front of
the next. -/
theorem retraces_loop {step step' : α → Parser (ForInStep α)} {front rear : Outlook}
    (hadv : ∀ a', Advances (step' a'))
    (hstep : ∀ a a', erase a = erase a' → Retraces Anywhere front (after a) (step a) (step' a')
      (fun r => after r.value) (roundOutlook front rear))
    {a a' : α} (hsame : erase a = erase a') :
    Retraces here front (after a) (loop a step) (loop a' step') after (fun _ => rear) := by
  intro s b t hs _ heq
  obtain ⟨items, hafter, hr⟩ := (rounds_of_loopOver heq).retrace hadv hstep hs
  exact ⟨items, hafter, hr a' hsame⟩

/-! ## Lists -/

/-- What has an outline with tokens in it takes one. -/
theorem Retraces.taking {outline : α → List Item} {rears : α → Outlook}
    (h : Retraces here front [] p q outline rears) (hsteady : Steady q)
    (hfills : ∀ a, Fills (outline a)) (rule : String) :
    Retraces here front [] (taking rule p) (taking rule q) outline rears := by
  intro s a t hs hhere heq
  obtain ⟨items, houtline, hr⟩ := h s a t hs hhere (taking_eq_ok heq)
  refine ⟨items, houtline, hr.leads, hr.front, ?_⟩
  intro s' rest hfine htwin hfaces hrear
  obtain ⟨a', t', hrun, hrest⟩ := hr.again s' rest hfine htwin hfaces hrear
  refine ⟨a', t', taking_of_ok hsteady hrun ?_, hrest⟩
  have hwritten : writtenTokens items ≠ [] := by
    have h := hfills a
    rw [houtline] at h
    exact h hfine.legible
  have hpos := List.length_pos_iff.2 hwritten
  rw [hfaces.length, hrest.2.2.length, List.length_append]
  omega

/-- A list with commas between its items. -/
theorem Retraces.commaList {first first' next next' : Parser α} {outline : α → List Item}
    {middle item rear : Outlook}
    (hfirst : Retraces here front [] first first' outline (fun _ => middle))
    (hnext : Retraces Anywhere item [] next next' outline (fun _ => middle))
    (hsteady : Steady first') (hsteady' : Steady next') (hfills : ∀ a, Fills (outline a))
    (hcomma : ∀ c rest, c.current.kind = .symbol .comma → item (c.skip 1) rest →
      middle c (Token.ofSymbol .comma :: rest))
    (hend : ∀ c rest, c.current.kind ≠ .symbol .comma → rear c rest →
      middle c rest ∧ kindAt rest 0 ≠ .symbol .comma) (rule : String) :
    Retraces here front before (Parser.commaList rule first next)
      (Parser.commaList rule first' next')
      (fun as => before ++ separated .comma (as.map outline)) (fun _ => rear) := by
  rw [commaList_eq, commaList_eq]
  refine (hfirst.taking hsteady hfills rule).behindAll.bind fun head head' hhead => ?_
  -- Each round reads a comma and an item, which are written behind what there is.
  have hstep (items items' : List α) (hitems : erase items = erase items') : Retraces Anywhere middle
      (before ++ separated .comma ((head :: items.reverse).map outline))
      (commaStep rule next items) (commaStep rule next' items')
      (fun r => before ++ separated .comma ((head :: r.value.reverse).map outline))
      (roundOutlook middle rear) := by
    refine retraces_takeSymbol_bind ?_
      (retraces_pure_of rfl (congrArg ForInStep.done hitems) fun _ _ h => h) hcomma hend
    refine (hnext.taking hsteady' hfills rule).behindAll.bind fun a a' ha =>
      retraces_pure_of ?_ (congrArg ForInStep.yield (erase_cons.2 ⟨ha, hitems⟩)) fun _ _ h => h
    simp [ForInStep.value, separated]
  have hloop : Retraces Anywhere middle (before ++ outline head) (loop [] (commaStep rule next))
      (loop [] (commaStep rule next'))
      (fun items => before ++ separated .comma ((head :: items.reverse).map outline))
      (fun _ => rear) := by
    have h : Retraces Anywhere _ _ (loop [] (commaStep rule next)) _ _ _ :=
      retraces_loop (Congruence.advances_commaStep rule hsteady') hstep rfl
    simpa [separated] using h
  exact hloop.bind fun tail tail' htail =>
    retraces_pure rfl (erase_cons.2 ⟨hhead, erase_reverse htail⟩)

/-- The items of a list are retraced with the commas between them, if both lists end at the same
item. -/
theorem Retraces.commaSeparated {outline : α → List Item} {middle rear : Outlook}
    (h : Retraces Anywhere front [] p q outline (fun _ => middle)) (hsteady : Steady q)
    (hfills : ∀ a, Fills (outline a))
    (hcomma : ∀ c rest, c.current.kind = .symbol .comma → front (c.skip 1) rest →
      middle c (Token.ofSymbol .comma :: rest))
    (hend : ∀ c rest, c.current.kind ≠ .symbol .comma → rear c rest →
      middle c rest ∧ kindAt rest 0 ≠ .symbol .comma) (rule : String) :
    Retraces here front before (Parser.commaSeparated rule p) (Parser.commaSeparated rule q)
      (fun as => before ++ separated .comma (as.map outline)) (fun _ => rear) :=
  h.anywhere.commaList h hsteady hsteady hfills hcomma hend rule

/-! ## Changing the state -/

/-- The other run has as many levels of nesting left. -/
theorem Retraces.nest {rears : α → Outlook} (h : Retraces here front before p q after rears)
    (cost : Nat) : Retraces here front before (nest cost p) (nest cost q) after rears := by
  intro s a t hs hhere heq
  obtain ⟨hlimit, u, hu, rfl⟩ := nest_eq_ok_iff.1 heq
  obtain ⟨items, hafter, hr⟩ := h (s.deeper cost) a u (hs.deeper cost) hhere hu
  refine ⟨items, hafter, ?_, hr.front, ?_⟩
  · have hl := hr.leads
    exact ⟨hl.settings, hl.library, by simp [State.shallower, hl.depth, State.deeper],
      hl.attempts, hl.subqueries, hl.separatorDepth, hl.allTokens, hl.ahead, hl.diagnostics,
      hl.events⟩
  · intro s' rest hfine htwin hfaces hrear
    obtain ⟨a', u', hu', hsame, htwin', hfaces'⟩ :=
      hr.again (s'.deeper cost) rest hfine (htwin.deeper cost) hfaces hrear
    refine ⟨a', u'.shallower cost, nest_eq_ok_iff.2 ⟨?_, u', hu', rfl⟩, hsame,
      htwin'.shallower cost, hfaces'⟩
    rw [htwin.depth, htwin.settings]
    exact hlimit

/-- A subquery is open in both runs or in neither. -/
theorem Retraces.subquery {rears : α → Outlook} (h : Retraces here front before p q after rears) :
    Retraces here front before (subquery p) (subquery q) after rears := by
  intro s a t hs hhere heq
  rw [subquery_apply] at heq
  obtain ⟨u, hu, rfl⟩ := mapState_eq_ok_iff.1 heq
  obtain ⟨items, hafter, hr⟩ := h s.enclosed a u (hs.same rfl rfl rfl rfl rfl) hhere hu
  refine ⟨items, hafter, ?_, hr.front, ?_⟩
  · have hl := hr.leads
    exact ⟨hl.settings, hl.library, hl.depth, hl.attempts,
      by simp [State.disclosed, hl.subqueries, State.enclosed], hl.separatorDepth, hl.allTokens,
      hl.ahead, hl.diagnostics, hl.events⟩
  · intro s' rest hfine htwin hfaces hrear
    have henclosed : s.enclosed.Twin s'.enclosed :=
      ⟨htwin.settings, htwin.library, htwin.depth, congrArg (· + 1) htwin.subqueries,
        htwin.separatorDepth⟩
    obtain ⟨a', u', hu', hsame, htwin', hfaces'⟩ :=
      hr.again s'.enclosed rest hfine henclosed hfaces hrear
    refine ⟨a', u'.disclosed, ?_, hsame, ?_, hfaces'⟩
    · rw [subquery_apply]
      exact mapState_eq_ok_iff.2 ⟨u', hu', rfl⟩
    · exact ⟨htwin'.settings, htwin'.library, htwin'.depth, congrArg (· - 1) htwin'.subqueries,
        htwin'.separatorDepth⟩

/-- Where `IN` comes to separate something at the present depth, it separates nothing at greater
depth. -/
theorem Retraces.separateHere {rears : α → Outlook} (h : Retraces here front before p q after rears) :
    Retraces here front before (separateHere p) (separateHere q) after rears := by
  intro s a t hs hhere heq
  obtain ⟨u, hu, rfl⟩ := mapState_eq_ok_iff.1 heq
  have hprimed : s.separatingHere.Primed :=
    ⟨hs.ready.same rfl rfl, s.settled_separatingHere, hs.withLibrary, hs.readsBack⟩
  obtain ⟨items, hafter, hr⟩ := h s.separatingHere a u hprimed hhere hu
  refine ⟨items, hafter, ?_, hr.front, ?_⟩
  · have hl := hr.leads
    exact ⟨hl.settings, hl.library, hl.depth, hl.attempts, hl.subqueries, rfl, hl.allTokens,
      hl.ahead, hl.diagnostics, hl.events⟩
  · intro s' rest hfine htwin hfaces hrear
    have hseparating : s.separatingHere.Twin s'.separatingHere :=
      ⟨htwin.settings, htwin.library, htwin.depth, htwin.subqueries,
        congrArg Option.some htwin.depth⟩
    obtain ⟨a', u', hu', hsame, htwin', hfaces'⟩ :=
      hr.again s'.separatingHere rest hfine hseparating hfaces hrear
    refine ⟨a', { u' with separatorDepth := s'.separatorDepth }, ?_, hsame, ?_, hfaces'⟩
    · exact mapState_eq_ok_iff.2 ⟨u', hu', rfl⟩
    · exact ⟨htwin'.settings, htwin'.library, htwin'.depth, htwin'.subqueries, htwin.separatorDepth⟩

/-- Where a run stops at the first error, what is recovered from is retraced. -/
theorem Retraces.recover {rears : α → Outlook} (h : Retraces here front [] p q after rears)
    (hp : Steady p) :
    Retraces here front before (recover p) (recover q)
      (fun found => before ++ found.elim [] after) (fun found => found.elim Outlook.any rears) := by
  intro s found t hs hhere heq
  obtain ⟨a, ha, rfl⟩ := (recover_eq_ok_iff hp (notRecovering_of_strict hs.strict)).1 heq
  obtain ⟨items, hafter, hr⟩ := h s a t hs hhere ha
  refine ⟨items, congrArg (before ++ ·) hafter, hr.leads, hr.front, ?_⟩
  intro s' rest hfine htwin hfaces hrear
  obtain ⟨a', t', hrun, hsame, hrest⟩ := hr.again s' rest hfine htwin hfaces hrear
  refine ⟨Option.some a', t', ?_, erase_some.2 hsame, hrest⟩
  unfold Parser.recover
  rw [hrun]

end Grammar

end SearchSql
