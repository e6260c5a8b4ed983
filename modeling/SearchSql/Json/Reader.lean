/-!
# Reading JSON

Readers for the parts of a JSON text. A reader takes the value at the start of the text and leaves
what follows; it fails on anything that is not strict JSON. Values of no interest are passed over by
`skipValue`, which checks their form but does not ask whether the escapes in their strings pair up.
-/

set_option autoImplicit false

namespace SearchSql.Json

/-- A reader of a part of a JSON text. -/
abbrev Reader (α : Type) := StateT (List Char) Option α

/-- Whether `c` may stand between the parts of a JSON text. -/
def isSpace (c : Char) : Bool := c == ' ' || c == '\n' || c == '\t' || c == '\r'

/-- Passes over space and takes the next character. -/
def next : Reader Char := do
  match (← get).dropWhile isSpace with
  | [] => failure
  | c :: cs =>
      set cs
      return c

/-- The next character after space, which is left in place. -/
def ahead : Reader Char := do
  let cs := (← get).dropWhile isSpace
  set cs
  match cs with
  | [] => failure
  | c :: _ => return c

/-- Takes the character `mark` after space. -/
def expect (mark : Char) : Reader Unit := do
  if (← next) = mark then return () else failure

/-- Takes the characters of `word` after space. -/
def word (word : List Char) : Reader Unit := do
  let cs := (← get).dropWhile isSpace
  if word.isPrefixOf cs then set (cs.drop word.length) else failure

/-- Whether nothing but space is left. -/
def atEnd : Reader Bool := return (← get).all isSpace

/-! ## Numbers and truth values -/

/-- Takes at least one digit. -/
def digits : Reader (List Char) := do
  let cs ← get
  let run := cs.takeWhile Char.isDigit
  if run.isEmpty then failure
  set (cs.drop run.length)
  return run

/-- Takes digits without a zero in front of others. -/
def wholeNumber : Reader (List Char) := do
  match ← get with
  | '0' :: cs =>
      if cs.head?.any Char.isDigit then failure
      set cs
      return ['0']
  | _ => digits

/-- Passes over the fraction of a number, if it has one. -/
def skipFraction : Reader Unit := do
  match ← get with
  | '.' :: cs =>
      set cs
      let _ ← digits
  | _ => return ()

/-- Passes over the exponent of a number, if it has one. -/
def skipExponent : Reader Unit := do
  match ← get with
  | e :: cs =>
      if e = 'e' ∨ e = 'E' then
        match cs with
        | '+' :: ds => set ds
        | '-' :: ds => set ds
        | ds => set ds
        let _ ← digits
      else return ()
  | [] => return ()

/-- Passes over a number. -/
def skipNumber : Reader Unit := do
  match ← get with
  | '-' :: cs => set cs
  | _ => pure ()
  let _ ← wholeNumber
  skipFraction
  skipExponent

/-- A truth value. -/
def bool : Reader Bool := do
  if (← ahead) = 't' then
    word ['t', 'r', 'u', 'e']
    return true
  else
    word ['f', 'a', 'l', 's', 'e']
    return false

/-! ## Strings -/

/-- The value of a hexadecimal digit. -/
def hexValue? (c : Char) : Option Nat :=
  if c.isDigit then some (c.toNat - '0'.toNat)
  else if 'a' ≤ c ∧ c ≤ 'f' then some (c.toNat - 'a'.toNat + 10)
  else if 'A' ≤ c ∧ c ≤ 'F' then some (c.toNat - 'A'.toNat + 10)
  else none

/-- The value of four hexadecimal digits. -/
def hexUnit : List Char → Option (Nat × List Char)
  | a :: b :: c :: d :: cs => do
      let a ← hexValue? a
      let b ← hexValue? b
      let c ← hexValue? c
      let d ← hexValue? d
      return (((a * 16 + b) * 16 + c) * 16 + d, cs)
  | _ => none

/-- The character that a single letter stands for behind a backslash. -/
def escapeValue? : Char → Option Char
  | '"' => some '"'
  | '\\' => some '\\'
  | '/' => some '/'
  | 'b' => some '\x08'
  | 'f' => some '\x0c'
  | 'n' => some '\n'
  | 'r' => some '\r'
  | 't' => some '\t'
  | _ => none

/-- The character written behind `\u`, of one unit or of two that pair up. -/
def unicodeEscape (cs : List Char) : Option (Char × List Char) := do
  let (unit, rest) ← hexUnit cs
  if unit < 0xD800 ∨ 0xDFFF < unit then return (Char.ofNat unit, rest)
  else if 0xDC00 ≤ unit then none
  else
    match rest with
    | '\\' :: 'u' :: tail =>
        let (low, rest) ← hexUnit tail
        if 0xDC00 ≤ low ∧ low ≤ 0xDFFF then
          return (Char.ofNat (0x10000 + (unit - 0xD800) * 0x400 + (low - 0xDC00)), rest)
        else none
    | _ => none

/-- The rest of a string after its opening mark, read by at most `fuel` characters. -/
def stringBody : Nat → List Char → Option (List Char × List Char)
  | 0, _ => none
  | _ + 1, [] => none
  | fuel + 1, c :: cs =>
      if c = '"' then some ([], cs)
      else if c.toNat < 0x20 then none
      else if c = '\\' then
        match cs with
        | 'u' :: tail => do
            let (value, rest) ← unicodeEscape tail
            let (values, rest) ← stringBody fuel rest
            return (value :: values, rest)
        | e :: tail => do
            let value ← escapeValue? e
            let (values, rest) ← stringBody fuel tail
            return (value :: values, rest)
        | [] => none
      else do
        let (values, rest) ← stringBody fuel cs
        return (c :: values, rest)

/-- A string. -/
def string : Reader String := do
  expect '"'
  let cs ← get
  let (values, rest) ← stringBody (cs.length + 1) cs
  set rest
  return String.ofList values

/-- What follows a string after its opening mark, whatever its escapes stand for. -/
def afterString : List Char → Option (List Char)
  | [] => none
  | '"' :: cs => some cs
  | '\\' :: 'u' :: a :: b :: c :: d :: cs =>
      if [a, b, c, d].all fun x => (hexValue? x).isSome then afterString cs else none
  | '\\' :: e :: cs => if (escapeValue? e).isSome then afterString cs else none
  | c :: cs => if c.toNat < 0x20 ∨ c = '\\' then none else afterString cs

/-- Passes over a string. -/
def skipString : Reader Unit := do
  expect '"'
  let rest ← afterString (← get)
  set rest

/-! ## Values of no interest -/

mutual

/-- Passes over a value. -/
def skipNested : Nat → Reader Unit
  | 0 => failure
  | fuel + 1 => do
      match ← ahead with
      | '"' => skipString
      | 'n' => word ['n', 'u', 'l', 'l']
      | 't' => word ['t', 'r', 'u', 'e']
      | 'f' => word ['f', 'a', 'l', 's', 'e']
      | '[' =>
          expect '['
          if (← ahead) = ']' then expect ']' else skipElements fuel
      | '\x7b' =>
          expect '\x7b'
          if (← ahead) = '\x7d' then expect '\x7d' else skipMembers fuel
      | _ => skipNumber

/-- Passes over the elements of a list and its closing bracket. -/
def skipElements : Nat → Reader Unit
  | 0 => failure
  | fuel + 1 => do
      skipNested fuel
      if (← ahead) = ',' then
        expect ','
        skipElements fuel
      else expect ']'

/-- Passes over the members of an object and its closing brace. -/
def skipMembers : Nat → Reader Unit
  | 0 => failure
  | fuel + 1 => do
      skipString
      expect ':'
      skipNested fuel
      if (← ahead) = ',' then
        expect ','
        skipMembers fuel
      else expect '\x7d'

end

/-- Passes over a value. Each step into a value or on to the next one takes a character, so twice
as many steps as there are characters suffice. -/
def skipValue : Reader Unit := do
  skipNested (2 * (← get).length + 2)

end SearchSql.Json
