import SearchSql.Text.CharClass

/-!
# Spans of query text

A span is a half-open range of byte offsets into the UTF-8 form of a text. `merge` covers two
spans, `contains` compares them, and `slice` cuts the covered part out of a text when both ends
fall between characters.
-/

set_option autoImplicit false

namespace SearchSql

/-- The bytes from `start` up to but not including `stop`. -/
structure Span where
  start : Nat
  stop : Nat
  deriving DecidableEq, Inhabited, Repr

namespace Span

/-- The empty span at `offset`. -/
def point (offset : Nat) : Span := ⟨offset, offset⟩

/-- The number of bytes covered. -/
def size (s : Span) : Nat := s.stop - s.start

/-- Whether the two ends coincide. -/
def isEmpty (s : Span) : Bool := s.start == s.stop

/-- The smallest span that covers `s` and `t`. -/
def merge (s t : Span) : Span := ⟨min s.start t.start, max s.stop t.stop⟩

/-- Whether `t` lies inside `s`. -/
def contains (s t : Span) : Bool := s.start ≤ t.start && t.stop ≤ s.stop

/-- The span as written in messages. -/
def text (s : Span) : String := toString s.start ++ ".." ++ toString s.stop

/-- The characters after the first `n` bytes, if the cut falls between characters. -/
def dropBytes : Nat → List Char → Option (List Char)
  | 0, cs => some cs
  | _ + 1, [] => none
  | n + 1, c :: cs => if c.utf8Size ≤ n + 1 then dropBytes (n + 1 - c.utf8Size) cs else none

/-- The characters of the first `n` bytes, if the cut falls between characters. -/
def takeBytes : Nat → List Char → Option (List Char)
  | 0, _ => some []
  | _ + 1, [] => none
  | n + 1, c :: cs =>
      if c.utf8Size ≤ n + 1 then (takeBytes (n + 1 - c.utf8Size) cs).map (c :: ·) else none

/-- The part of `source` that `s` covers; `none` for a reversed span, and for one with an end
outside the text or inside a character. -/
def slice (s : Span) (source : String) : Option String :=
  if s.start ≤ s.stop then
    ((dropBytes s.start source.toList).bind (takeBytes s.size)).map String.ofList
  else none

theorem merge_comm (s t : Span) : s.merge t = t.merge s := by
  simp [merge, Nat.min_comm, Nat.max_comm]

theorem dropBytes_append (cs ds : List Char) :
    dropBytes (Text.byteLength cs) (cs ++ ds) = some ds := by
  induction cs with
  | nil => cases ds <;> rfl
  | cons c cs ih =>
    have hc : 0 < c.utf8Size := Char.utf8Size_pos c
    obtain ⟨n, hn⟩ : ∃ n, Text.byteLength (c :: cs) = n + 1 :=
      ⟨Text.byteLength (c :: cs) - 1, by simp; omega⟩
    have hle : c.utf8Size ≤ n + 1 := by rw [← hn]; simp
    have hrest : n + 1 - c.utf8Size = Text.byteLength cs := by rw [← hn]; simp
    rw [hn, List.cons_append, dropBytes, if_pos hle, hrest, ih]

theorem takeBytes_append (cs ds : List Char) :
    takeBytes (Text.byteLength cs) (cs ++ ds) = some cs := by
  induction cs with
  | nil => cases ds <;> rfl
  | cons c cs ih =>
    have hc : 0 < c.utf8Size := Char.utf8Size_pos c
    obtain ⟨n, hn⟩ : ∃ n, Text.byteLength (c :: cs) = n + 1 :=
      ⟨Text.byteLength (c :: cs) - 1, by simp; omega⟩
    have hle : c.utf8Size ≤ n + 1 := by rw [← hn]; simp
    have hrest : n + 1 - c.utf8Size = Text.byteLength cs := by rw [← hn]; simp
    rw [hn, List.cons_append, takeBytes, if_pos hle, hrest, ih]
    rfl

/-- A text cut at two character boundaries gives the characters between them. -/
theorem slice_append (cs ds es : List Char) :
    slice ⟨Text.byteLength cs, Text.byteLength cs + Text.byteLength ds⟩
      (String.ofList (cs ++ (ds ++ es))) = some (String.ofList ds) := by
  simp [slice, size, dropBytes_append, takeBytes_append]

end Span

end SearchSql
