import SearchSql.Proofs.NumberText
import SearchSql.Time.Reading

/-!
# Written dates and times

The library of the Gregorian calendar reads the text of a date or time that it has read as the same
date or time (`library_readsBack`).

Each item that is read lies within bounds, and an item within these bounds is read from the digits
that write it, in front of whatever does not go on with them.
-/

set_option autoImplicit false

namespace SearchSql.Time.Gregorian

-- Powers are those of the core library, whatever else is in scope.
attribute [local instance (2000)] instPowNat

open Number Token

/-! ## Digits -/

/-- A padded number consists of digits. -/
theorem isDigits_padded (width n : Nat) : IsDigits (padded width n) :=
  isDigits_replicate_append (isDigits_toDigits n) _

/-- A padded number denotes the number. -/
theorem digitsValue_padded (width n : Nat) : digitsValue 0 (padded width n) = n :=
  (digitsValue_zeros _ _).trans (digitsValue_toDigits n)

/-- A padded number that fits is as long as it is padded to. -/
theorem length_padded {width n : Nat} (hwidth : 0 < width) (h : n < 10 ^ width) :
    (padded width n).length = width := by
  have hle : (Nat.toDigits 10 n).length ≤ width :=
    (Nat.length_toDigits_le_iff (by decide) hwidth).2 h
  unfold padded
  rw [List.length_append, List.length_replicate, Nat.sub_add_cancel hle]

/-! ## Items that are read from their digits -/

variable {α β : Type}

/-- Two items in a row are read one after the other. -/
theorem run_bind_of_ok {p : ItemReader α} {f : α → ItemReader β} {cs ds : List Char} {a : α}
    (h : p.run cs = .ok (a, ds)) : (p >>= f).run cs = (f a).run ds := by
  show (p.run cs >>= fun x => (f x.1).run x.2) = _
  rw [h]
  rfl

theorem run_get (cs : List Char) : (get : ItemReader (List Char)).run cs = .ok (cs, cs) := rfl

theorem run_set (cs ds : List Char) : (set ds : ItemReader PUnit).run cs = .ok (⟨⟩, ds) := rfl

/-- Nothing is skipped in front of what is no blank. -/
theorem run_skipBlanks_cons {c : Char} (hc : Text.isBlank c = false) (cs : List Char) :
    skipBlanks.run (c :: cs) = .ok ((), c :: cs) := by
  show Except.ok ((), (c :: cs).dropWhile Text.isBlank) = _
  rw [List.dropWhile_cons_of_neg (by simp [hc])]

/-- In front of digits there is no blank to skip. -/
theorem run_skipBlanks {ds : List Char} (h : IsDigits ds) (rest : List Char) :
    skipBlanks.run (ds ++ rest) = .ok ((), ds ++ rest) := by
  obtain ⟨c, es, hcons, hc⟩ := h.head rest
  rw [hcons]
  exact run_skipBlanks_cons (isBlank_of_isDigit hc) es

/-- Digits are read in front of anything that is no digit, or that is out of reach. -/
theorem run_digits {ds : List Char} (h : IsDigits ds) {rest : List Char}
    (hrest : ∀ c ∈ rest.head?, c.isDigit = false) {width : Option Nat}
    (hwidth : ∀ w ∈ width, ds.length ≤ w) :
    (digits width).run (ds ++ rest) = .ok (digitsValue 0 ds, rest) := by
  have hrun : (ds ++ rest).takeWhile Char.isDigit = ds := takeWhile_run h.2 hrest
  have htake : ds.take (width.getD ds.length) = ds := by
    refine List.take_of_length_le ?_
    cases width with
    | none => exact Nat.le_refl _
    | some w => exact hwidth w rfl
  obtain ⟨c, es, hcons, hc⟩ := h.head rest
  rw [hcons] at hrun ⊢
  show (if c.isDigit then _ else _ : ItemReader Nat).run (c :: es) = _
  rw [if_pos hc]
  show Except.ok (digitsValue 0 (((c :: es).takeWhile Char.isDigit).take
    (width.getD ((c :: es).takeWhile Char.isDigit).length)),
      (c :: es).drop (((c :: es).takeWhile Char.isDigit).take
        (width.getD ((c :: es).takeWhile Char.isDigit).length)).length) = _
  rw [hrun, htake, ← hcons, List.drop_left]

/-- The digits of a padded number are read as the number, if they are not out of reach. -/
theorem run_digits_padded {n least : Nat} {rest : List Char}
    (hrest : ∀ c ∈ rest.head?, c.isDigit = false) {width : Option Nat}
    (hwidth : ∀ w ∈ width, (padded least n).length ≤ w) :
    (digits width).run (padded least n ++ rest) = .ok (n, rest) := by
  rw [run_digits (isDigits_padded least n) hrest hwidth, digitsValue_padded]

/-- A padded number within its bounds is read back. -/
theorem run_number {width least greatest n : Nat} (hwidth : 0 < width) (hn : n < 10 ^ width)
    (hleast : least ≤ n) (hgreatest : n ≤ greatest) {rest : List Char}
    (hrest : ∀ c ∈ rest.head?, c.isDigit = false) :
    (number width least greatest).run (padded width n ++ rest) = .ok (n, rest) := by
  have hdigits : (digits (some width)).run (padded width n ++ rest) = .ok (n, rest) :=
    run_digits_padded hrest (by rintro w ⟨⟩; exact Nat.le_of_eq (length_padded hwidth hn))
  unfold number
  rw [run_bind_of_ok (run_skipBlanks (isDigits_padded width n) rest), run_bind_of_ok hdigits,
    if_pos ⟨hleast, hgreatest⟩]
  rfl

/-- A mark between two items is read back. -/
theorem run_separator (mark : Char) (rest : List Char) :
    (separator mark).run (mark :: rest) = .ok ((), rest) := by
  show (if mark = mark then _ else _ : ItemReader Unit).run (mark :: rest) = _
  rw [if_pos rfl]
  rfl

/-- A year is accepted where a signed word of 32 bits holds it. -/
theorem run_year_of_bounds {year : Int} (hleast : -(2 ^ (31 : Nat)) ≤ year)
    (hgreatest : year < 2 ^ (31 : Nat)) (rest : List Char) :
    (if -(2 ^ (31 : Nat)) ≤ year ∧ year < 2 ^ (31 : Nat) then pure year
      else throw .outOfRange : ItemReader Int).run rest = .ok (year, rest) := by
  rw [if_pos ⟨hleast, hgreatest⟩]
  rfl

/-- Four digits are read as a year, since none of the signs is a digit. -/
theorem run_yearItem_digits {n : Nat} (hn : n ≤ 9999) {rest : List Char}
    (hrest : ∀ c ∈ rest.head?, c.isDigit = false) :
    yearItem.run (padded 4 n ++ rest) = .ok ((n : Int), rest) := by
  have hlength : (padded 4 n).length = 4 := length_padded (by decide) (by omega)
  have hdigits : (digits (some 4)).run (padded 4 n ++ rest) = .ok (n, rest) :=
    run_digits_padded hrest (by rintro w ⟨⟩; exact Nat.le_of_eq hlength)
  obtain ⟨c, es, hcons, hc⟩ := (isDigits_padded 4 n).head rest
  unfold yearItem
  rw [run_bind_of_ok (run_skipBlanks (isDigits_padded 4 n) rest), run_bind_of_ok (run_get _)]
  rw [hcons] at hdigits ⊢
  dsimp only
  split
  · next heq => exact absurd hc ((List.cons.inj heq).1 ▸ by decide)
  · next heq => exact absurd hc ((List.cons.inj heq).1 ▸ by decide)
  · rw [run_bind_of_ok hdigits, pure_bind]
    exact run_year_of_bounds (by omega) (by omega) rest

/-- All digits behind a minus sign are read as a year before the year zero. -/
theorem run_yearItem_minus {n : Nat} (hn : n ≤ 2 ^ (31 : Nat)) {rest : List Char}
    (hrest : ∀ c ∈ rest.head?, c.isDigit = false) :
    yearItem.run ('-' :: (padded 4 n ++ rest)) = .ok (-(n : Int), rest) := by
  have hdigits : (digits none).run (padded 4 n ++ rest) = .ok (n, rest) :=
    run_digits_padded hrest nofun
  unfold yearItem
  rw [run_bind_of_ok (run_skipBlanks_cons (by decide) _), run_bind_of_ok (run_get _)]
  split
  · next heq =>
    obtain ⟨-, rfl⟩ := List.cons.inj heq
    rw [run_bind_of_ok (run_set _ _), run_bind_of_ok hdigits, pure_bind]
    exact run_year_of_bounds (by omega) (by omega) rest
  · next heq => exact absurd (List.cons.inj heq).1 (by decide)
  · next hne _ => exact absurd rfl (hne _)

/-- All digits behind a plus sign are read as a year. -/
theorem run_yearItem_plus {n : Nat} (hn : n < 2 ^ (31 : Nat)) {rest : List Char}
    (hrest : ∀ c ∈ rest.head?, c.isDigit = false) :
    yearItem.run ('+' :: (padded 4 n ++ rest)) = .ok ((n : Int), rest) := by
  have hdigits : (digits none).run (padded 4 n ++ rest) = .ok (n, rest) :=
    run_digits_padded hrest nofun
  unfold yearItem
  rw [run_bind_of_ok (run_skipBlanks_cons (by decide) _), run_bind_of_ok (run_get _)]
  split
  · next heq => exact absurd (List.cons.inj heq).1 (by decide)
  · next heq =>
    obtain ⟨-, rfl⟩ := List.cons.inj heq
    rw [run_bind_of_ok (run_set _ _), run_bind_of_ok hdigits, pure_bind]
    exact run_year_of_bounds (by omega) (by omega) rest
  · next _ hne => exact absurd rfl (hne _)

/-- The text of a year is read back, if a signed word of 32 bits holds the year. -/
theorem run_yearItem {year : Int} (hleast : -(2 ^ (31 : Nat)) ≤ year)
    (hgreatest : year < 2 ^ (31 : Nat)) {rest : List Char} (hrest : ∀ c ∈ rest.head?, c.isDigit = false) :
    yearItem.run (yearText year ++ rest) = .ok (year, rest) := by
  unfold yearText
  by_cases hplain : 0 ≤ year ∧ year ≤ 9999
  · have hyear : (year.toNat : Int) = year := Int.toNat_of_nonneg hplain.1
    rw [if_pos hplain, run_yearItem_digits (by omega) hrest, hyear]
  · rw [if_neg hplain]
    by_cases hneg : year < 0
    · have hyear : -(year.natAbs : Int) = year := by omega
      rw [if_pos hneg, List.cons_append, run_yearItem_minus (by omega) hrest, hyear]
    · have hyear : (year.natAbs : Int) = year := by omega
      rw [if_neg hneg, List.cons_append, run_yearItem_plus (by omega) hrest, hyear]

/-- As many digits as are shown behind the point count as many places. -/
theorem run_fractionItem_padded {width n : Nat} (hwidth : 0 < width) (hle : width ≤ 9)
    (hn : n < 10 ^ width) :
    fractionItem.run ('.' :: padded width n) = .ok (n * 10 ^ (9 - width), []) := by
  have hlength := length_padded hwidth hn
  have hread : (digits (some 9)).run (padded width n) = .ok (n, []) := by
    have hrun := run_digits_padded
      (show ∀ c ∈ ([] : List Char).head?, c.isDigit = false from nofun)
      (show ∀ w ∈ some 9, (padded width n).length ≤ w by rintro w ⟨⟩; omega)
    rwa [List.append_nil] at hrun
  have hshown : ((padded width n).takeWhile Char.isDigit).length = width := by
    have hrun := takeWhile_run (isDigits_padded width n).2
      (show ∀ c ∈ ([] : List Char).head?, c.isDigit = false from nofun)
    rw [List.append_nil] at hrun
    rw [hrun, hlength]
  unfold fractionItem
  rw [run_bind_of_ok (run_get _)]
  split
  · next heq =>
    obtain ⟨-, rfl⟩ := List.cons.inj heq
    rw [run_bind_of_ok (run_set _ _)]
    dsimp only
    rw [run_bind_of_ok hread, hshown, Nat.min_eq_right hle]
    rfl
  · next hne => exact absurd rfl (hne _)

/-- The text of a fraction of a second is read back: in thousandths, millionths or in full, whichever
is exact. -/
theorem run_fractionItem {nanosecond : Nat} (h : nanosecond < 10 ^ (9 : Nat)) :
    fractionItem.run (fractionText nanosecond) = .ok (nanosecond, []) := by
  unfold fractionText
  by_cases hzero : nanosecond = 0
  · rw [if_pos hzero, hzero]
    rfl
  · rw [if_neg hzero]
    by_cases hmilli : nanosecond % 1000000 = 0
    · have heq : nanosecond / 1000000 * 10 ^ (9 - 3) = nanosecond := by omega
      rw [if_pos hmilli, run_fractionItem_padded (by decide) (by decide) (by omega), heq]
    · rw [if_neg hmilli]
      by_cases hmicro : nanosecond % 1000 = 0
      · have heq : nanosecond / 1000 * 10 ^ (9 - 6) = nanosecond := by omega
        rw [if_pos hmicro, run_fractionItem_padded (by decide) (by decide) (by omega), heq]
      · have heq : nanosecond * 10 ^ (9 - 9) = nanosecond := by omega
        rw [if_neg hmicro, run_fractionItem_padded (by decide) (by decide) h, heq]

/-! ## Dates and times within their bounds -/

/-- The parts of a date as a text may give them. -/
structure Date.Legible (d : Date) : Prop where
  year : -(2 ^ (31 : Nat)) ≤ d.year ∧ d.year < 2 ^ (31 : Nat)
  month : 1 ≤ d.month ∧ d.month ≤ 12
  day : 1 ≤ d.day ∧ d.day ≤ 31

/-- The parts of a time of day as a text may give them. -/
structure Clock.Legible (c : Clock) : Prop where
  hour : c.hour ≤ 23
  minute : c.minute ≤ 59
  second : c.second ≤ 60
  nanosecond : c.nanosecond < 10 ^ (9 : Nat)

/-- The items of a legible date are read back. -/
theorem Date.Legible.run_dateItems {d : Date} (h : d.Legible) {rest : List Char}
    (hrest : ∀ c ∈ rest.head?, c.isDigit = false) :
    dateItems.run (d.chars ++ rest) = .ok (d, rest) := by
  obtain ⟨⟨hyear, hyear'⟩, ⟨hmonth, hmonth'⟩, hday, hday'⟩ := h
  unfold dateItems Date.chars
  rw [List.append_assoc, run_bind_of_ok (run_yearItem hyear hyear' (by rintro c ⟨⟩; rfl)),
    List.cons_append, run_bind_of_ok (run_separator '-' _), List.append_assoc,
    run_bind_of_ok (run_number (by decide) (by omega) hmonth hmonth' (by rintro c ⟨⟩; rfl)),
    List.cons_append, run_bind_of_ok (run_separator '-' _),
    run_bind_of_ok (run_number (by decide) (by omega) hday hday' hrest)]
  rfl

/-- The items of a legible time of day are read back. -/
theorem Clock.Legible.run_clockItems {c : Clock} (h : c.Legible) :
    clockItems.run c.chars = .ok (c, []) := by
  obtain ⟨hhour, hminute, hsecond, hnanosecond⟩ := h
  have hfraction : ∀ d ∈ (fractionText c.nanosecond).head?, d.isDigit = false := by
    unfold fractionText
    split
    · nofun
    · split
      · rintro d ⟨⟩; rfl
      · split <;> (rintro d ⟨⟩; rfl)
  unfold clockItems Clock.chars
  rw [run_bind_of_ok (run_number (by decide) (by omega) (Nat.zero_le _) hhour
      (by rintro c ⟨⟩; rfl)), run_bind_of_ok (run_separator ':' _),
    run_bind_of_ok (run_number (by decide) (by omega) (Nat.zero_le _) hminute
      (by rintro c ⟨⟩; rfl)), run_bind_of_ok (run_separator ':' _),
    run_bind_of_ok (run_number (by decide) (by omega) (Nat.zero_le _) hsecond hfraction),
    run_bind_of_ok (run_fractionItem hnanosecond)]
  rfl

/-! ## What is read lies within the bounds -/

/-- Two items in a row were each read. -/
theorem run_bind_eq_ok {p : ItemReader α} {f : α → ItemReader β} {cs ds : List Char} {b : β}
    (h : (p >>= f).run cs = .ok (b, ds)) :
    ∃ a es, p.run cs = .ok (a, es) ∧ (f a).run es = .ok (b, ds) := by
  have hbind : (p.run cs >>= fun x => (f x.1).run x.2) = .ok (b, ds) := h
  cases hp : p.run cs with
  | error e =>
    rw [hp] at hbind
    cases hbind
  | ok x =>
    rw [hp] at hbind
    exact ⟨x.1, x.2, rfl, hbind⟩

theorem pure_run_eq_ok {a b : α} {cs ds : List Char} (h : (pure a : ItemReader α).run cs = .ok (b, ds)) :
    a = b := congrArg Prod.fst (Except.ok.inj h)

/-- A number that is read lies within its bounds. -/
theorem bounds_of_number {width least greatest n : Nat} {cs ds : List Char}
    (h : (number width least greatest).run cs = .ok (n, ds)) : least ≤ n ∧ n ≤ greatest := by
  obtain ⟨_, es, -, hrest⟩ := run_bind_eq_ok h
  obtain ⟨m, fs, -, hjudge⟩ := run_bind_eq_ok hrest
  by_cases hm : least ≤ m ∧ m ≤ greatest
  · rw [if_pos hm] at hjudge
    exact pure_run_eq_ok hjudge ▸ hm
  · rw [if_neg hm] at hjudge
    cases hjudge

/-- A year that is read fits into a signed word of 32 bits. -/
theorem bounds_of_yearItem {year : Int} {cs ds : List Char}
    (h : yearItem.run cs = .ok (year, ds)) : -(2 ^ (31 : Nat)) ≤ year ∧ year < 2 ^ (31 : Nat) := by
  have hjudge {y : Int} {es : List Char}
      (hy : (if -(2 ^ (31 : Nat)) ≤ y ∧ y < 2 ^ (31 : Nat) then pure y
        else throw .outOfRange : ItemReader Int).run es = .ok (year, ds)) :
      -(2 ^ (31 : Nat)) ≤ year ∧ year < 2 ^ (31 : Nat) := by
    by_cases hbounds : -(2 ^ (31 : Nat)) ≤ y ∧ y < 2 ^ (31 : Nat)
    · rw [if_pos hbounds] at hy
      exact pure_run_eq_ok hy ▸ hbounds
    · rw [if_neg hbounds] at hy
      cases hy
  obtain ⟨_, es, -, hrest⟩ := run_bind_eq_ok h
  obtain ⟨fs, gs, -, hcases⟩ := run_bind_eq_ok hrest
  dsimp only at hcases
  split at hcases
  · obtain ⟨_, _, -, hn⟩ := run_bind_eq_ok hcases
    obtain ⟨n, _, -, hy⟩ := run_bind_eq_ok hn
    obtain ⟨y, _, -, hy'⟩ := run_bind_eq_ok hy
    exact hjudge hy'
  · obtain ⟨_, _, -, hn⟩ := run_bind_eq_ok hcases
    obtain ⟨n, _, -, hy⟩ := run_bind_eq_ok hn
    obtain ⟨y, _, -, hy'⟩ := run_bind_eq_ok hy
    exact hjudge hy'
  · obtain ⟨n, _, -, hy⟩ := run_bind_eq_ok hcases
    obtain ⟨y, _, -, hy'⟩ := run_bind_eq_ok hy
    exact hjudge hy'

/-- The value of some digits is bounded by their number. -/
theorem digitsValue_lt (value : Nat) {ds : List Char} (h : ds.all Char.isDigit = true) :
    digitsValue value ds < (value + 1) * 10 ^ ds.length := by
  induction ds generalizing value with
  | nil => simp [digitsValue]
  | cons d ds ih =>
    obtain ⟨hd, hds⟩ := Bool.and_eq_true_iff.1 h
    have hdigit : digitValue d ≤ 9 := by
      simp only [Char.isDigit, Bool.and_eq_true, decide_eq_true_eq, ge_iff_le,
        UInt32.le_iff_toNat_le] at hd
      have hbound : d.toNat ≤ 57 := hd.2
      show d.toNat - 48 ≤ 9
      omega
    have hrest := ih (value * 10 + digitValue d) hds
    have hle : (value * 10 + digitValue d + 1) * 10 ^ ds.length ≤
        (value * 10 + 10) * 10 ^ ds.length := Nat.mul_le_mul_right _ (by omega)
    have hpower : (value + 1) * 10 ^ (d :: ds).length = (value * 10 + 10) * 10 ^ ds.length := by
      rw [List.length_cons, Nat.pow_succ, Nat.mul_comm (10 ^ ds.length), ← Nat.mul_assoc]
      congr 1
      omega
    rw [hpower]
    exact Nat.lt_of_lt_of_le hrest hle

/-- Digits that are read denote the value of the first ones. -/
theorem digits_eq_ok {width n : Nat} {cs ds : List Char}
    (h : (digits (some width)).run cs = .ok (n, ds)) :
    n = digitsValue 0 ((cs.takeWhile Char.isDigit).take width) := by
  cases cs with
  | nil => cases h
  | cons c cs =>
    have hcases : (if c.isDigit then _ else _ : ItemReader Nat).run (c :: cs) = .ok (n, ds) := h
    by_cases hc : c.isDigit = true
    · rw [if_pos hc] at hcases
      obtain ⟨_, _, -, hpure⟩ := run_bind_eq_ok hcases
      exact (pure_run_eq_ok hpure).symm
    · rw [if_neg hc] at hcases
      cases hcases

/-- A fraction that is read is below a second. -/
theorem bound_of_fractionItem {n : Nat} {cs ds : List Char}
    (h : fractionItem.run cs = .ok (n, ds)) : n < 10 ^ (9 : Nat) := by
  obtain ⟨es, fs, hget, hcases⟩ := run_bind_eq_ok h
  dsimp only at hcases
  split at hcases
  · next tail =>
    obtain ⟨_, gs, hset, hdigits⟩ := run_bind_eq_ok hcases
    obtain ⟨m, _, hm, hmodify⟩ := run_bind_eq_ok hdigits
    obtain ⟨_, _, -, hpure⟩ := run_bind_eq_ok hmodify
    have hgs : tail = gs := congrArg Prod.snd (Except.ok.inj hset)
    rw [← pure_run_eq_ok hpure, digits_eq_ok hm, ← hgs]
    -- Digits after the ninth are dropped, and the others filled up to nine.
    have hall : ((tail.takeWhile Char.isDigit).take 9).all Char.isDigit = true :=
      List.all_eq_true.2 fun c hc =>
        List.all_eq_true.1 List.all_takeWhile c (List.mem_of_mem_take hc)
    have hlt := digitsValue_lt 0 hall
    rw [Nat.zero_add, Nat.one_mul, List.length_take] at hlt
    refine Nat.lt_of_lt_of_eq (Nat.mul_lt_mul_of_pos_right hlt (Nat.pow_pos (by decide))) ?_
    rw [← Nat.pow_add, Nat.add_sub_cancel' (Nat.min_le_left _ _)]
  · rw [← pure_run_eq_ok hcases]
    decide

/-- A date that is read is legible. -/
theorem legible_of_dateItems {d : Date} {cs ds : List Char} (h : dateItems.run cs = .ok (d, ds)) :
    d.Legible := by
  obtain ⟨year, _, hyear, hrest⟩ := run_bind_eq_ok h
  obtain ⟨_, _, -, hrest⟩ := run_bind_eq_ok hrest
  obtain ⟨month, _, hmonth, hrest⟩ := run_bind_eq_ok hrest
  obtain ⟨_, _, -, hrest⟩ := run_bind_eq_ok hrest
  obtain ⟨day, _, hday, hrest⟩ := run_bind_eq_ok hrest
  rw [← pure_run_eq_ok hrest]
  exact ⟨bounds_of_yearItem hyear, bounds_of_number hmonth, bounds_of_number hday⟩

/-- A time of day that is read is legible. -/
theorem legible_of_clockItems {c : Clock} {cs ds : List Char} (h : clockItems.run cs = .ok (c, ds)) :
    c.Legible := by
  obtain ⟨hour, _, hhour, hrest⟩ := run_bind_eq_ok h
  obtain ⟨_, _, -, hrest⟩ := run_bind_eq_ok hrest
  obtain ⟨minute, _, hminute, hrest⟩ := run_bind_eq_ok hrest
  obtain ⟨_, _, -, hrest⟩ := run_bind_eq_ok hrest
  obtain ⟨second, _, hsecond, hrest⟩ := run_bind_eq_ok hrest
  obtain ⟨nanosecond, _, hnanosecond, hrest⟩ := run_bind_eq_ok hrest
  rw [← pure_run_eq_ok hrest]
  exact ⟨(bounds_of_number hhour).2, (bounds_of_number hminute).2, (bounds_of_number hsecond).2,
    bound_of_fractionItem hnanosecond⟩

/-! ## Whole texts -/

/-- A text is read if its items are, and nothing is left. -/
theorem readAll_eq_ok_iff {items : ItemReader α} {text : String} {a : α} :
    readAll items text = .ok a ↔ items.run text.toList = .ok (a, []) := by
  unfold readAll
  cases hrun : items.run text.toList with
  | error e => exact ⟨nofun, nofun⟩
  | ok x =>
    obtain ⟨value, rest⟩ := x
    cases rest with
    | nil =>
      show Except.ok value = .ok a ↔ Except.ok (value, []) = .ok (a, [])
      simp
    | cons c cs =>
      show Except.error TimeFault.tooLong = .ok a ↔ Except.ok (value, c :: cs) = .ok (a, [])
      simp

/-- A date is accepted as it is, if the calendar has it. -/
theorem existing_eq_ok_iff {d d' : Date} : existing d = .ok d' ↔ d.exists = true ∧ d = d' := by
  unfold existing
  by_cases h : d.exists = true
  · rw [if_pos h]
    simp [h]
  · rw [if_neg h]
    simp [h]

/-- A date is read from its items, if the calendar has it. -/
theorem readDate_eq_ok_iff {text : String} {d : Date} :
    readDate text = .ok d ↔ dateItems.run text.toList = .ok (d, []) ∧ d.exists = true := by
  unfold readDate
  rw [← readAll_eq_ok_iff]
  cases hread : readAll dateItems text with
  | error e => exact ⟨nofun, fun h => nomatch h.1⟩
  | ok d' =>
    show existing d' = .ok d ↔ _
    rw [existing_eq_ok_iff]
    constructor
    · rintro ⟨hexists, rfl⟩
      exact ⟨rfl, hexists⟩
    · rintro ⟨heq, hexists⟩
      rw [Except.ok.inj heq]
      exact ⟨hexists, rfl⟩

/-- A date that was read is read again from the text that writes it. -/
theorem readDate_chars {text : String} {d : Date} (h : readDate text = .ok d) :
    readDate (String.ofList d.chars) = .ok d := by
  obtain ⟨hrun, hexists⟩ := readDate_eq_ok_iff.1 h
  refine readDate_eq_ok_iff.2 ⟨?_, hexists⟩
  have hchars := (legible_of_dateItems hrun).run_dateItems
    (show ∀ c ∈ ([] : List Char).head?, c.isDigit = false from nofun)
  rw [List.append_nil] at hchars
  rw [String.toList_ofList]
  exact hchars

/-- A time of day that was read is read again from the text that writes it. -/
theorem readClock_chars {text : String} {c : Clock} (h : readClock text = .ok c) :
    readClock (String.ofList c.chars) = .ok c := by
  refine readAll_eq_ok_iff.2 ?_
  rw [String.toList_ofList]
  exact (legible_of_clockItems (readAll_eq_ok_iff.1 h)).run_clockItems

/-- A date with a time of day is read from its items, if the calendar has the date. -/
theorem readTimestamp_eq_ok_iff {text : String} {t : Timestamp} :
    readTimestamp text = .ok t ↔
      timestampItems.run text.toList = .ok (t, []) ∧ t.date.exists = true := by
  unfold readTimestamp
  rw [← readAll_eq_ok_iff]
  cases hread : readAll timestampItems text with
  | error e => exact ⟨nofun, fun h => nomatch h.1⟩
  | ok t' =>
    obtain ⟨date, clock⟩ := t'
    show (existing date).bind (fun d => Except.ok (⟨d, clock⟩ : Timestamp)) = .ok t ↔ _
    by_cases hexists : date.exists = true
    · rw [existing_eq_ok_iff.2 ⟨hexists, rfl⟩]
      show Except.ok (⟨date, clock⟩ : Timestamp) = .ok t ↔ _
      constructor
      · intro heq
        rw [← Except.ok.inj heq]
        exact ⟨rfl, hexists⟩
      · exact fun h => h.1
    · have herror : existing date = .error .outOfRange := if_neg hexists
      rw [herror]
      refine ⟨nofun, fun ⟨heq, ht⟩ => ?_⟩
      rw [← Except.ok.inj heq] at ht
      exact absurd ht hexists

/-- A timestamp that was read is read again from the text that writes it. -/
theorem readTimestamp_chars {text : String} {t : Timestamp} (h : readTimestamp text = .ok t) :
    readTimestamp (String.ofList (t.date.chars ++ ' ' :: t.clock.chars)) = .ok t := by
  obtain ⟨hrun, hexists⟩ := readTimestamp_eq_ok_iff.1 h
  refine readTimestamp_eq_ok_iff.2 ⟨?_, hexists⟩
  obtain ⟨date, _, hdate, hrest⟩ := run_bind_eq_ok hrun
  obtain ⟨_, _, -, hrest⟩ := run_bind_eq_ok hrest
  obtain ⟨clock, _, hclock, hrest⟩ := run_bind_eq_ok hrest
  obtain rfl : (⟨date, clock⟩ : Timestamp) = t := pure_run_eq_ok hrest
  have hskip : skipBlanks.run (' ' :: clock.chars) = .ok ((), clock.chars) := by
    obtain ⟨c, es, hcons, hc⟩ := (isDigits_padded 2 clock.hour).head
      (':' :: (padded 2 clock.minute ++ ':' :: (padded 2 clock.second ++
        fractionText clock.nanosecond)))
    show Except.ok ((), (' ' :: clock.chars).dropWhile Text.isBlank) = _
    rw [List.dropWhile_cons_of_pos (by decide), Clock.chars, hcons,
      List.dropWhile_cons_of_neg (by simp [isBlank_of_isDigit hc])]
  rw [String.toList_ofList]
  unfold timestampItems
  rw [run_bind_of_ok ((legible_of_dateItems hdate).run_dateItems (by rintro c ⟨⟩; rfl)),
    run_bind_of_ok hskip, run_bind_of_ok (legible_of_clockItems hclock).run_clockItems]
  rfl

/-- What the library of the Gregorian calendar has read, it reads again from the text of the
value. -/
theorem library_readsBack : library.ReadsBack where
  date h := by
    obtain ⟨d, hread, rfl⟩ := ok_of_map h
    exact congrArg (Except.map Date.value) (readDate_chars hread)
  clock h := by
    obtain ⟨c, hread, rfl⟩ := ok_of_map h
    exact congrArg (Except.map Clock.value) (readClock_chars hread)
  timestamp h := by
    obtain ⟨t, hread, rfl⟩ := ok_of_map h
    have htext : t.value.text ' ' = String.ofList (t.date.chars ++ ' ' :: t.clock.chars) := by
      rw [← String.toList_inj]
      simp [Timestamp.value, Time.Timestamp.text, Date.value, Clock.value]
    rw [htext]
    exact congrArg (Except.map Timestamp.value) (readTimestamp_chars hread)

end SearchSql.Time.Gregorian
