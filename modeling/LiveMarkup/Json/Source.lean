import LiveMarkup.Json.Basic

/-!
# JSON as it is written

Reading has two steps.  `Json.Source.read?` recognises the grammar and keeps what was written:
repeated members, numbers of any size, and quoted texts that name half of a surrogate pair.
`Json.Source.value?` then finds the value that is meant, if there is one.
-/

namespace LiveMarkup

namespace Json

/-- A number literal. -/
structure NumberLiteral where
  /-- Whether a minus sign stands before it. -/
  negative : Bool
  /-- The digits before the point. -/
  whole : List Char
  /-- The digits after the point, if there is one. -/
  fraction : Option (List Char)
  /-- The exponent, if there is one. -/
  exponent : Option Int
  deriving DecidableEq, Repr

/-- A JSON text in its grammatical structure. -/
inductive Source where
  | null
  | bool (value : Bool)
  | number (literal : NumberLiteral)
  /-- A quoted text; `none` if an escape names half of a surrogate pair. -/
  | string (text : Option String)
  | array (items : List Source)
  | object (members : List (Option String × Source))

namespace NumberLiteral

/-- The number as an integer without point and exponent. -/
def natural? (literal : NumberLiteral) : Option Nat :=
  if literal.fraction.isNone && literal.exponent.isNone
  then some (Decimal.digitsValue literal.whole) else none

/-- The double nearest to the literal, unless that is an infinity. -/
def float? (literal : NumberLiteral) : Option Float :=
  let fraction := literal.fraction.getD []
  let magnitude := Decimal.toFloat
    ⟨Decimal.digitsValue (literal.whole ++ fraction), literal.exponent.getD 0 - fraction.length⟩
  if magnitude.isFinite then some (if literal.negative then -magnitude else magnitude) else none

/-- An integer literal that fits 64 bits is an integer, with the exception of a negative zero. -/
def value? (literal : NumberLiteral) : Option Json :=
  match literal.natural?, literal.negative with
  | some n, false => if n < Nat.pow 2 64 then some (.integer n) else literal.float?.map .float
  | some n, true => if 0 < n ∧ n ≤ Nat.pow 2 63 then some (.integer (-n)) else literal.float?.map .float
  | none, _ => literal.float?.map .float

end NumberLiteral

/-! ## Recognising the grammar -/

/-- The blanks between the tokens of JSON. -/
def isSpace (c : Char) : Bool := c == ' ' || c == '\t' || c == '\n' || c == '\r'

/-- Drops blanks. -/
def skipSpace (text : List Char) : List Char := text.dropWhile isSpace

/-- The value of a hexadecimal digit. -/
def hexValue? (c : Char) : Option Nat :=
  if c.isDigit then some (c.toNat - '0'.toNat)
  else if 'a' ≤ c ∧ c ≤ 'f' then some (c.toNat - 'a'.toNat + 10)
  else if 'A' ≤ c ∧ c ≤ 'F' then some (c.toNat - 'A'.toNat + 10)
  else none

/-- The value of four hexadecimal digits. -/
def hexCode? (a b c d : Char) : Option Nat := do
  return (((← hexValue? a) * 16 + (← hexValue? b)) * 16 + (← hexValue? c)) * 16 + (← hexValue? d)

/-- The character that an escape of one letter stands for. -/
def escaped? : Char → Option Char
  | '"' => some '"'
  | '\\' => some '\\'
  | '/' => some '/'
  | 'b' => some '\x08'
  | 'f' => some '\x0c'
  | 'n' => some '\n'
  | 'r' => some '\r'
  | 't' => some '\t'
  | _ => none

/-- What has been read of a quoted text. -/
structure Quoting where
  /-- The characters so far in reverse; `none` once half of a surrogate pair stood alone. -/
  read : Option (List Char)
  /-- The first half of a surrogate pair, if it was read last. -/
  pending : Option Nat

namespace Quoting

/-- Appends a character; a pending half of a pair stays alone then. -/
def push (state : Quoting) (c : Char) : Quoting :=
  ⟨if state.pending.isSome then none else state.read.map (c :: ·), none⟩

/-- Appends a code unit written in hexadecimal. -/
def pushCode (state : Quoting) (code : Nat) : Quoting :=
  if 0xd800 ≤ code ∧ code < 0xdc00 then
    ⟨if state.pending.isSome then none else state.read, some code⟩
  else if 0xdc00 ≤ code ∧ code < 0xe000 then
    match state.pending with
    | some high =>
        let c := Char.ofNat (0x10000 + (high - 0xd800) * 0x400 + (code - 0xdc00))
        ⟨state.read.map (c :: ·), none⟩
    | none => ⟨none, none⟩
  else state.push (Char.ofNat code)

/-- The text that was read. -/
def text (state : Quoting) : Option String :=
  if state.pending.isSome then none
  else state.read.map fun reversed => String.ofList reversed.reverse

end Quoting

/-- Reads a quoted text behind its opening quote and returns what follows the closing one. -/
def readQuoted (state : Quoting) : List Char → Option (Option String × List Char)
  | [] => none
  | '"' :: rest => some (state.text, rest)
  | '\\' :: 'u' :: a :: b :: c :: d :: rest =>
      match hexCode? a b c d with
      | some code => readQuoted (state.pushCode code) rest
      | none => none
  | '\\' :: letter :: rest =>
      match escaped? letter with
      | some c => readQuoted (state.push c) rest
      | none => none
  | c :: rest => if c.toNat < 0x20 then none else readQuoted (state.push c) rest

/-- Reads the exponent of a number, if one follows. -/
def readExponent : List Char → Option (Option Int × List Char)
  | [] => some (none, [])
  | mark :: rest =>
      if mark = 'e' ∨ mark = 'E' then
        let (negative, digits) := match rest with
          | '-' :: digits => (true, digits)
          | '+' :: digits => (false, digits)
          | digits => (false, digits)
        let value := Decimal.digitsValue (digits.takeWhile Char.isDigit)
        if (digits.takeWhile Char.isDigit).isEmpty then none
        else some (some (if negative then -(value : Int) else value), digits.dropWhile Char.isDigit)
      else some (none, mark :: rest)

/-- Reads a number literal: no leading zeros, and digits after a point. -/
def readNumber (text : List Char) : Option (NumberLiteral × List Char) :=
  let (negative, unsigned) := match text with
    | '-' :: rest => (true, rest)
    | rest => (false, rest)
  let whole := unsigned.takeWhile Char.isDigit
  let afterWhole := unsigned.dropWhile Char.isDigit
  if whole = [] ∨ (whole.length > 1 ∧ whole.head? = some '0') then none
  else
    let fraction := match afterWhole with
      | '.' :: rest =>
          if (rest.takeWhile Char.isDigit).isEmpty then none
          else some (some (rest.takeWhile Char.isDigit), rest.dropWhile Char.isDigit)
      | rest => some (none, rest)
    match fraction with
    | none => none
    | some (fraction, afterFraction) =>
        (readExponent afterFraction).map fun (exponent, rest) =>
          (⟨negative, whole, fraction, exponent⟩, rest)

/-- Reads a fixed word. -/
def readWord (word : String) (value : Source) (text : List Char) : Option (Source × List Char) :=
  if word.toList.isPrefixOf text then some (value, text.drop word.length) else none

mutual

/-- Reads one value.  Every call is preceded by a character, so the fuel lasts if there is twice as
much as text. -/
def readValue : Nat → List Char → Option (Source × List Char)
  | 0, _ => none
  | fuel + 1, text =>
      match skipSpace text with
      | [] => none
      | '"' :: rest =>
          (readQuoted ⟨some [], none⟩ rest).map fun (quoted, rest) => (.string quoted, rest)
      | '[' :: rest =>
          match skipSpace rest with
          | ']' :: rest => some (.array [], rest)
          | rest => (readItems fuel rest).map fun (items, rest) => (.array items, rest)
      | '\x7b' :: rest =>
          match skipSpace rest with
          | '\x7d' :: rest => some (.object [], rest)
          | rest => (readMembers fuel rest).map fun (members, rest) => (.object members, rest)
      | 'n' :: rest => readWord "null" .null ('n' :: rest)
      | 't' :: rest => readWord "true" (.bool true) ('t' :: rest)
      | 'f' :: rest => readWord "false" (.bool false) ('f' :: rest)
      | c :: rest => (readNumber (c :: rest)).map fun (literal, rest) => (.number literal, rest)

/-- Reads the items of an array up to its closing bracket. -/
def readItems : Nat → List Char → Option (List Source × List Char)
  | 0, _ => none
  | fuel + 1, text =>
      match readValue fuel text with
      | none => none
      | some (item, rest) =>
          match skipSpace rest with
          | ']' :: rest => some ([item], rest)
          | ',' :: rest => (readItems fuel rest).map fun (items, rest) => (item :: items, rest)
          | _ => none

/-- Reads the members of an object up to its closing brace. -/
def readMembers : Nat → List Char → Option (List (Option String × Source) × List Char)
  | 0, _ => none
  | fuel + 1, text =>
      match skipSpace text with
      | '"' :: rest =>
          match readQuoted ⟨some [], none⟩ rest with
          | none => none
          | some (name, rest) =>
              match skipSpace rest with
              | ':' :: rest =>
                  match readValue fuel rest with
                  | none => none
                  | some (value, rest) =>
                      match skipSpace rest with
                      | '\x7d' :: rest => some ([(name, value)], rest)
                      | ',' :: rest =>
                          (readMembers fuel rest).map fun (members, rest) =>
                            ((name, value) :: members, rest)
                      | _ => none
              | _ => none
      | _ => none

end

/-- Reads a text that holds one value and nothing else but blanks. -/
def Source.read? (text : List Char) : Option Source :=
  match readValue (2 * text.length + 2) text with
  | some (source, rest) => if (skipSpace rest).isEmpty then some source else none
  | none => none

/-! ## The value meant -/

mutual

/-- The value that a text stands for, unless a number is too large for a double or a text is broken.
Of repeated members the last one counts. -/
def Source.value? : Source → Option Json
  | .null => some .null
  | .bool value => some (.bool value)
  | .number literal => literal.value?
  | .string text => text.map .string
  | .array items => (Source.values? items).map .array
  | .object members => (Source.memberValues? members).map ofMembers

/-- The values of a list of items. -/
def Source.values? : List Source → Option (List Json)
  | [] => some []
  | item :: rest =>
      match item.value?, Source.values? rest with
      | some value, some values => some (value :: values)
      | _, _ => none

/-- The values of a list of members. -/
def Source.memberValues? : List (Option String × Source) → Option (List (String × Json))
  | [] => some []
  | (name, item) :: rest =>
      match name, item.value?, Source.memberValues? rest with
      | some name, some value, some values => some ((name, value) :: values)
      | _, _, _ => none

end

/-- Reads a text into the value it stands for. -/
def read? (text : String) : Option Json := (Source.read? text.toList).bind Source.value?

end Json

end LiveMarkup
