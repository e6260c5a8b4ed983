/-!
# Words and their spellings

Keywords, function names, units and options are recognised by their spelling without regard to the
case of ASCII letters. No other letter is folded, so only ASCII letters ever spell a word.
`findSpelling` looks a word up among finitely many spelled values.
-/

set_option autoImplicit false

namespace SearchSql.Text

/-- The text with its ASCII letters in upper case. -/
def upper (text : String) : String := String.ofList (text.toList.map Char.toUpper)

theorem toUpper_toUpper (c : Char) : c.toUpper.toUpper = c.toUpper := by
  unfold Char.toUpper
  by_cases h : 'a'.val ≤ c.val ∧ c.val ≤ 'z'.val
  · rw [dif_pos h]
    apply dif_neg
    rintro ⟨hleast, hgreatest⟩
    simp only [UInt32.le_iff_toNat_le, UInt32.toNat_add] at h hleast hgreatest
    simp at h hleast hgreatest
    omega
  · rw [dif_neg h, dif_neg h]

@[simp] theorem upper_upper (text : String) : upper (upper text) = upper text := by
  unfold upper
  rw [String.toList_ofList, List.map_map]
  congr 2
  exact funext toUpper_toUpper

/-- Whether two texts differ at most in the case of ASCII letters. -/
def sameWord (a b : String) : Bool := upper a == upper b

/-- The first of `values` whose upper-case `spelling` is that of `word`. -/
def findSpelling {α : Type} (values : List α) (spelling : α → String) (word : String) : Option α :=
  values.find? fun a => spelling a == upper word

/-- A value found by its spelling is spelled like the word. -/
theorem spelling_of_findSpelling {α : Type} {values : List α} {spelling : α → String}
    {word : String} {a : α} (h : findSpelling values spelling word = some a) :
    spelling a = upper word := by
  simpa using List.find?_some h

/-- The case of the word does not matter. -/
theorem findSpelling_upper {α : Type} (values : List α) (spelling : α → String) (word : String) :
    findSpelling values spelling (upper word) = findSpelling values spelling word := by
  unfold findSpelling
  rw [upper_upper]

end SearchSql.Text
