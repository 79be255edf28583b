import TeachingCpu.Text.Basic
import TeachingCpu.Text.Numeral
/-!
# TeachingCpu.Json

**JSON** documents, read into a tree.

Design points:

* Numbers keep their spelling, because whether a number is written as an integer matters to
  those who read one.
* A string may spell half of a surrogate pair, which is no character. Such a string is
  well-formed as a part of the document but has **no text**.
* An object keeps all its members in order, repeated names included.
* Reading recurses to a bounded depth. Every level of nesting and every further element takes
  at least one character, so a bound of twice the length of the document is never reached
  (`Json.read?`).
-/

set_option autoImplicit false

namespace TeachingCpu

/-- A JSON value. -/
inductive Json
  | null
  | bool (b : Bool)
  /-- A number as it is spelled. -/
  | number (spelling : Text)
  /-- A string, with its text if it has one. -/
  | string (text : Option Text)
  | array (items : List Json)
  | object (members : List (Option Text × Json))

namespace Json

/-- Whether a character may stand between the parts of a document. -/
def isSpace (c : Char) : Bool := c == ' ' || c == '\n' || c == '\t' || c == '\r'

/-- The text from the next part of the document on. -/
def skip (t : Text) : Text := t.dropWhile isSpace

/-! ### Strings -/

/-- A part of a string: a character, or a unit of UTF-16 spelled by its number. -/
inductive Piece
  | char (c : Char)
  | unit (n : Nat)

/-- The character that a one-letter escape stands for. -/
def escape? : Char → Option Char
  | '"' => some '"'
  | '\\' => some '\\'
  | '/' => some '/'
  | 'b' => some '\x08'
  | 'f' => some '\x0c'
  | 'n' => some '\n'
  | 'r' => some '\r'
  | 't' => some '\t'
  | _ => none

/-- The pieces of a string up to its closing quote, and the text after it. -/
def pieces : Text → Option (List Piece × Text)
  | '"' :: rest => some ([], rest)
  | '\\' :: 'u' :: a :: b :: c :: d :: rest => do
    let n ← Numeral.read? 16 [a, b, c, d]
    let (ps, rest) ← pieces rest
    return (.unit n :: ps, rest)
  | '\\' :: e :: rest => do
    let c ← escape? e
    let (ps, rest) ← pieces rest
    return (.char c :: ps, rest)
  | c :: rest =>
    if c < ' ' then none
    else do
      let (ps, rest) ← pieces rest
      return (.char c :: ps, rest)
  | [] => none

/-- The text of pieces, if every surrogate among them is part of a pair. -/
def textOf? : List Piece → Option Text
  | [] => some []
  | .char c :: rest => (textOf? rest).map (c :: ·)
  | .unit high :: rest =>
    if high < 0xD800 ∨ 0xDFFF < high then (textOf? rest).map (Char.ofNat high :: ·)
    else if 0xDBFF < high then none
    else match rest with
      | .unit low :: rest =>
        if 0xDC00 ≤ low ∧ low ≤ 0xDFFF then
          let c := Char.ofNat ((high - 0xD800) * 0x400 + (low - 0xDC00) + 0x10000)
          (textOf? rest).map (c :: ·)
        else none
      | _ => none

/-- A string after its opening quote, and the text after it. -/
def string? (t : Text) : Option (Option Text × Text) :=
  (pieces t).map fun (ps, rest) => (textOf? ps, rest)

/-! ### Numbers -/

/-- One or more digits, and the text after them. -/
def digits? (t : Text) : Option (Text × Text) :=
  let digits := t.takeWhile Char.isDigit
  if digits.isEmpty then none else some (digits, t.dropWhile Char.isDigit)

/-- The digits of a number before any point. A zero stands alone. -/
def whole? : Text → Option (Text × Text)
  | '0' :: rest => some (['0'], rest)
  | t => digits? t

/-- The part of a number from a point on, if it has one. -/
def fraction? : Text → Option (Text × Text)
  | '.' :: rest => (digits? rest).map fun (digits, rest) => ('.' :: digits, rest)
  | t => some ([], t)

/-- The sign of an exponent, if it has one. -/
def sign : Text → Text × Text
  | '+' :: rest => (['+'], rest)
  | '-' :: rest => (['-'], rest)
  | t => ([], t)

/-- The part of a number from its exponent on, if it has one. -/
def exponent? (t : Text) : Option (Text × Text) :=
  match t with
  | e :: rest =>
    if e = 'e' ∨ e = 'E' then
      let (sign, rest) := sign rest
      (digits? rest).map fun (digits, rest) => (e :: sign ++ digits, rest)
    else some ([], t)
  | [] => some ([], [])

/-- A number, and the text after it. -/
def number? (t : Text) : Option (Text × Text) := do
  let (minus, t) := match t with
    | '-' :: rest => (['-'], rest)
    | _ => ([], t)
  let (whole, t) ← whole? t
  let (fraction, t) ← fraction? t
  let (exponent, t) ← exponent? t
  return (minus ++ whole ++ fraction ++ exponent, t)

/-! ### Values -/

mutual

/-- A value, and the text after it. -/
def value? : (bound : Nat) → Text → Option (Json × Text)
  | 0, _ => none
  | bound + 1, t =>
    match skip t with
    | '"' :: rest => (string? rest).map fun (text, rest) => (.string text, rest)
    | '[' :: rest =>
      match skip rest with
      | ']' :: rest => some (.array [], rest)
      | _ => (items? bound rest).map fun (items, rest) => (.array items, rest)
    | '\x7b' :: rest =>
      match skip rest with
      | '\x7d' :: rest => some (.object [], rest)
      | _ => (members? bound rest).map fun (members, rest) => (.object members, rest)
    | 'n' :: rest => (Text.afterHead? "ull".toList rest).map fun rest => (.null, rest)
    | 't' :: rest => (Text.afterHead? "rue".toList rest).map fun rest => (.bool true, rest)
    | 'f' :: rest => (Text.afterHead? "alse".toList rest).map fun rest => (.bool false, rest)
    | t => (number? t).map fun (spelling, rest) => (.number spelling, rest)

/-- The items of an array from the next one on, and the text after the array. -/
def items? : (bound : Nat) → Text → Option (List Json × Text)
  | 0, _ => none
  | bound + 1, t => do
    let (item, t) ← value? bound t
    match skip t with
    | ',' :: rest => (items? bound rest).map fun (items, rest) => (item :: items, rest)
    | ']' :: rest => some ([item], rest)
    | _ => none

/-- The members of an object from the next one on, and the text after the object. -/
def members? : (bound : Nat) → Text → Option (List (Option Text × Json) × Text)
  | 0, _ => none
  | bound + 1, t =>
    match skip t with
    | '"' :: rest => do
      let (name, rest) ← string? rest
      match skip rest with
      | ':' :: rest =>
        let (value, rest) ← value? bound rest
        match skip rest with
        | ',' :: rest =>
          (members? bound rest).map fun (members, rest) => ((name, value) :: members, rest)
        | '\x7d' :: rest => some ([(name, value)], rest)
        | _ => none
      | _ => none
    | _ => none

end

/-- The value that a document holds. -/
def read? (t : Text) : Option Json :=
  match value? (2 * t.length + 1) t with
  | some (value, rest) => if (skip rest).isEmpty then some value else none
  | none => none

/-- The values of named fields of a record. A record is an object in which every field occurs
once, other members being passed over, or an array of just the fields in order. -/
def fields? (names : List String) : Json → Option (List Json)
  | .array items => if items.length = names.length then some items else none
  | .object members => do
    let texts ← members.mapM Prod.fst
    let named := texts.zip (members.map Prod.snd)
    names.mapM fun name =>
      match named.filter fun member => member.1 == name.toList with
      | [member] => some member.2
      | _ => none
  | _ => none

end Json

end TeachingCpu
