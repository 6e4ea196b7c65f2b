import LeastContext.Decimal
import LeastContext.Toml.Basic
import LeastContext.Toml.DateTime

namespace LeastContext.Toml

namespace Reader

def isBlank (c : Char) : Bool :=
  c == ' ' || c == '\t'

def skipBlanks (cs : List Char) : List Char :=
  cs.dropWhile isBlank

/-- Line ends are a line feed, or a carriage return and a line feed. -/
def lineEnd? : List Char → Option (List Char)
  | '\n' :: rest => some rest
  | '\r' :: '\n' :: rest => some rest
  | _ => none

/-- Characters that may stand in a comment or a string as they are. -/
def isPlain (c : Char) : Bool :=
  c == '\t' || (c.toNat ≥ 0x20 && c.toNat != 0x7F)

/-- The rest after a comment, if there is one. -/
def skipComment : List Char → List Char
  | '#' :: rest => rest.dropWhile isPlain
  | rest => rest

/-- The rest of a line that holds nothing more but a comment. -/
def finishLine? (cs : List Char) : Option (List Char) :=
  match skipComment (skipBlanks cs) with
  | [] => some []
  | rest => lineEnd? rest

/-- Skips blanks, comments and line ends, as between the items of an array. -/
def skipLines : Nat → List Char → List Char
  | 0, cs => cs
  | fuel + 1, cs =>
    match skipComment (skipBlanks cs) with
    | rest =>
      match lineEnd? rest with
      | some rest => skipLines fuel rest
      | none => rest

def isBareKey (c : Char) : Bool :=
  c.isAlphanum || c == '_' || c == '-'

def hexDigit? (c : Char) : Option Nat :=
  if '0' ≤ c ∧ c ≤ '9' then some (c.toNat - '0'.toNat)
  else if 'a' ≤ c ∧ c ≤ 'f' then some (c.toNat - 'a'.toNat + 10)
  else if 'A' ≤ c ∧ c ≤ 'F' then some (c.toNat - 'A'.toNat + 10)
  else none

def hexDigits? (digits : List Char) : Option Nat :=
  digits.foldlM (fun n c => (hexDigit? c).map (n * 16 + ·)) 0

/-- A character by its code point, which may not be a surrogate. -/
def charOf? (n : Nat) : Option Char :=
  if n.isValidChar then some (Char.ofNat n) else none

def shortEscape? : Char → Option Char
  | 'b' => some '\x08'
  | 't' => some '\t'
  | 'n' => some '\n'
  | 'f' => some '\x0c'
  | 'r' => some '\r'
  | '"' => some '"'
  | '\\' => some '\\'
  | _ => none

/-- The character of an escape, after its backslash. -/
def escape? : List Char → Option (Char × List Char)
  | 'u' :: a :: b :: c :: d :: rest =>
    ((hexDigits? [a, b, c, d]).bind charOf?).map (·, rest)
  | 'U' :: a :: b :: c :: d :: e :: f :: g :: h :: rest =>
    ((hexDigits? [a, b, c, d, e, f, g, h]).bind charOf?).map (·, rest)
  | c :: rest => (shortEscape? c).map (·, rest)
  | [] => none

/-- The rest of a basic string after its opening quote. -/
def basic? (read : List Char) : Nat → List Char → Option (String × List Char)
  | 0, _ => none
  | fuel + 1, cs =>
    match cs with
    | '"' :: rest => some (String.ofList read.reverse, rest)
    | '\\' :: rest =>
      match escape? rest with
      | some (c, rest) => basic? (c :: read) fuel rest
      | none => none
    | c :: rest => if isPlain c then basic? (c :: read) fuel rest else none
    | [] => none

/-- The rest of a literal string after its opening apostrophe. -/
def literal? (read : List Char) : List Char → Option (String × List Char)
  | '\'' :: rest => some (String.ofList read.reverse, rest)
  | c :: rest => if isPlain c then literal? (c :: read) rest else none
  | [] => none

/-- The end of a string over several lines: three quotes, before which one or two more may stand. -/
def longEnd? (quote : Char) (read : List Char) (cs : List Char) : Option (String × List Char) :=
  match cs.span (· == quote) with
  | (quotes, rest) =>
    if 3 ≤ quotes.length ∧ quotes.length ≤ 5 then
      some (String.ofList (read.reverse ++ quotes.drop 3), rest)
    else none

/-- Whether a backslash stands at the end of its line, so that blanks and lines after it count for
nothing. -/
def lineContinues (cs : List Char) : Bool :=
  (lineEnd? (skipBlanks cs)).isSome

/-- Skips blanks and line ends. -/
def skipGap : Nat → List Char → List Char
  | 0, cs => cs
  | fuel + 1, cs =>
    match lineEnd? (skipBlanks cs) with
    | some rest => skipGap fuel rest
    | none => skipBlanks cs

/-- The rest of a basic string over several lines. -/
def longBasic? (read : List Char) : Nat → List Char → Option (String × List Char)
  | 0, _ => none
  | fuel + 1, cs =>
    match cs with
    | '"' :: '"' :: '"' :: _ => longEnd? '"' read cs
    | '\\' :: rest =>
      if lineContinues rest then longBasic? read fuel (skipGap (rest.length + 1) rest)
      else
        match escape? rest with
        | some (c, rest) => longBasic? (c :: read) fuel rest
        | none => none
    | '\r' :: '\n' :: rest => longBasic? ('\n' :: read) fuel rest
    | '\n' :: rest => longBasic? ('\n' :: read) fuel rest
    | c :: rest => if isPlain c then longBasic? (c :: read) fuel rest else none
    | [] => none

/-- The rest of a literal string over several lines. -/
def longLiteral? (read : List Char) : Nat → List Char → Option (String × List Char)
  | 0, _ => none
  | fuel + 1, cs =>
    match cs with
    | '\'' :: '\'' :: '\'' :: _ => longEnd? '\'' read cs
    | '\r' :: '\n' :: rest => longLiteral? ('\n' :: read) fuel rest
    | '\n' :: rest => longLiteral? ('\n' :: read) fuel rest
    | c :: rest => if isPlain c then longLiteral? (c :: read) fuel rest else none
    | [] => none

/-- A line end right after the opening quotes does not belong to the string. -/
def skipFirstLineEnd (cs : List Char) : List Char :=
  (lineEnd? cs).getD cs

def string? (cs : List Char) : Option (String × List Char) :=
  match cs with
  | '"' :: '"' :: '"' :: rest => longBasic? [] (rest.length + 1) (skipFirstLineEnd rest)
  | '"' :: rest => basic? [] (rest.length + 1) rest
  | '\'' :: '\'' :: '\'' :: rest => longLiteral? [] (rest.length + 1) (skipFirstLineEnd rest)
  | '\'' :: rest => literal? [] rest
  | _ => none

/-- One part of a key, bare or in quotes on one line. -/
def simpleKey? (cs : List Char) : Option (String × List Char) :=
  match cs with
  | '"' :: rest => basic? [] (rest.length + 1) rest
  | '\'' :: rest => literal? [] rest
  | cs =>
    match cs.span isBareKey with
    | ([], _) => none
    | (key, rest) => some (String.ofList key, rest)

/-- How many parts a dotted key may have, and how deep values may be nested. -/
def nestingLimit : Nat := 79

/-- The parts of a dotted key, at most so many; blanks may stand around the dots. -/
def parts? : Nat → List Char → Option (List String × List Char)
  | 0, _ => none
  | count + 1, cs =>
    match simpleKey? (skipBlanks cs) with
    | none => none
    | some (part, rest) =>
      match skipBlanks rest with
      | '.' :: rest => (parts? count rest).map fun (parts, rest) => (part :: parts, rest)
      | rest => some ([part], rest)

def key? (cs : List Char) : Option (List String × List Char) :=
  parts? nestingLimit cs

/-- Digits with single underscores between them. -/
def wellFormedDigits (isDigit : Char → Bool) : List Char → Bool
  | [] => false
  | [c] => isDigit c
  | c :: '_' :: rest => isDigit c && wellFormedDigits isDigit rest
  | c :: rest => isDigit c && wellFormedDigits isDigit rest

/-- Digits of a decimal number, without a leading zero. -/
def wellFormedDecimal (digits : List Char) : Bool :=
  wellFormedDigits Char.isDigit digits &&
    match digits with
    | '0' :: _ :: _ => false
    | _ => true

def isExponentMark (c : Char) : Bool :=
  c == 'e' || c == 'E'

/-- Whether a number that is no integer is well formed: a fraction, an exponent, or both. -/
def wellFormedFloat (cs : List Char) : Bool :=
  let (mantissa, exponent) := cs.span (!isExponentMark ·)
  let (whole, fraction) := mantissa.span (· != '.')
  let exponentOk :=
    match exponent with
    | [] => true
    | _ :: rest => wellFormedDigits Char.isDigit (Decimal.dropSign rest)
  let fractionOk :=
    match fraction with
    | [] => !exponent.isEmpty
    | _ :: rest => wellFormedDigits Char.isDigit rest
  wellFormedDecimal whole && fractionOk && exponentOk

/-- The value of digits in a base, with underscores between them. -/
def valueIn? (base : Nat) (digits : List Char) : Option Nat :=
  let isDigit (c : Char) := (hexDigit? c).any (· < base)
  if wellFormedDigits isDigit digits then
    some ((digits.filterMap hexDigit?).foldl (fun n digit => n * base + digit) 0)
  else none

/-- The value of an integer: decimal with or without a sign, or hexadecimal, octal or binary. -/
def integer? (cs : List Char) : Option Int :=
  match cs with
  | '0' :: 'x' :: digits => (valueIn? 16 digits).map Int.ofNat
  | '0' :: 'o' :: digits => (valueIn? 8 digits).map Int.ofNat
  | '0' :: 'b' :: digits => (valueIn? 2 digits).map Int.ofNat
  | cs =>
    let digits := Decimal.dropSign cs
    if wellFormedDecimal digits then
      (valueIn? 10 digits).map fun n => if cs.head? == some '-' then -(n : Int) else n
    else none

/-- Integers are below this bound, and not below its negative. -/
def integerBound : Int :=
  Nat.pow 2 63

/-- Whether a number is well formed and in range. An integer must fit in 64 bits; a positive number
that is none must not round to infinity. -/
def isNumber (cs : List Char) : Bool :=
  match integer? cs with
  | some n => -integerBound ≤ n && n < integerBound
  | none =>
    let unsigned := Decimal.dropSign cs
    unsigned == ['i', 'n', 'f'] || unsigned == ['n', 'a', 'n'] ||
      (wellFormedFloat unsigned &&
        (cs.head? == some '-' || !(Decimal.ofLiteral (unsigned.filter (· != '_'))).isBeyondDouble))

def isNumberChar (c : Char) : Bool :=
  c.isAlphanum || c == '_' || c == '+' || c == '-' || c == '.'

/-- A boolean or a number. -/
def word? (cs : List Char) : Option (Value × List Char) :=
  match cs.span isNumberChar with
  | (word, rest) =>
    if word == ['t', 'r', 'u', 'e'] then some (.boolean true, rest)
    else if word == ['f', 'a', 'l', 's', 'e'] then some (.boolean false, rest)
    else if isNumber word then some (.number (String.ofList word), rest)
    else none

/-- A date, a boolean or a number. -/
def plain? (cs : List Char) : Option (Value × List Char) :=
  match DateTime.skip? cs with
  | some rest => some (.dateTime (String.ofList (cs.take (cs.length - rest.length))), rest)
  | none => word? cs

mutual
/-- Reads a value in which arrays and inline tables are nested at most `levels` deep. -/
def value? (levels : Nat) : Nat → List Char → Option (Value × List Char)
  | 0, _ => none
  | fuel + 1, cs =>
    match cs, levels with
    | '"' :: _, _ | '\'' :: _, _ => (string? cs).map fun (value, rest) => (.text value, rest)
    | '[' :: rest, levels + 1 => items? levels [] fuel rest
    | '{' :: rest, levels + 1 =>
      match skipBlanks rest with
      | '}' :: rest => some (.table .inline [], rest)
      | rest => inlineFields? levels [] fuel rest
    | cs, _ => plain? cs

/-- The items of an array, up to its closing bracket; a comma may stand after the last. -/
def items? (levels : Nat) (read : List Value) : Nat → List Char → Option (Value × List Char)
  | 0, _ => none
  | fuel + 1, cs =>
    match skipLines (cs.length + 1) cs with
    | ']' :: rest => some (.array read.reverse, rest)
    | cs =>
      match value? levels fuel cs with
      | none => none
      | some (item, rest) =>
        match skipLines (rest.length + 1) rest with
        | ',' :: rest => items? levels (item :: read) fuel rest
        | ']' :: rest => some (.array (item :: read).reverse, rest)
        | _ => none

/-- The fields of an inline table that has at least one more. -/
def inlineFields? (levels : Nat) (read : Fields) : Nat → List Char → Option (Value × List Char)
  | 0, _ => none
  | fuel + 1, cs =>
    match key? cs with
    | some (key, '=' :: rest) =>
      match value? levels fuel (skipBlanks rest) with
      | none => none
      | some (value, rest) =>
        match assign? value key read, skipBlanks rest with
        | some fields, ',' :: rest => inlineFields? levels fields fuel rest
        | some fields, '}' :: rest => some (.table .inline fields, rest)
        | _, _ => none
    | _ => none
end

/-- Reads one key with its value into the table at a path. -/
def pair? (path : List String) (document : Fields) (cs : List Char) :
    Option (Fields × List Char) := do
  match ← key? cs with
  | (key, '=' :: rest) =>
    let (value, rest) ← value? nestingLimit (2 * rest.length + 2) (skipBlanks rest)
    let rest ← finishLine? rest
    return (← within? (assign? value key) path document, rest)
  | _ => none

/-- Opens the table at a path by a step that takes the last part of the path. -/
def openAt? (open? : String → Fields → Option Fields) (path : List String) (document : Fields) :
    Option Fields := do
  let last ← path.getLast?
  within? (open? last) path.dropLast document

/-- The lines of a document; `path` is the table that keys go into. -/
def lines? (path : List String) (document : Fields) : Nat → List Char → Option Fields
  | 0, _ => none
  | fuel + 1, cs =>
    match skipLines (cs.length + 1) cs with
    | [] => some document
    | '[' :: '[' :: rest =>
      match key? rest with
      | some (path, ']' :: ']' :: rest) =>
        match openAt? openNext? path document, finishLine? rest with
        | some document, some rest => lines? path document fuel rest
        | _, _ => none
      | _ => none
    | '[' :: rest =>
      match key? rest with
      | some (path, ']' :: rest) =>
        match openAt? openTable? path document, finishLine? rest with
        | some document, some rest => lines? path document fuel rest
        | _, _ => none
      | _ => none
    | cs =>
      match pair? path document cs with
      | some (document, rest) => lines? path document fuel rest
      | none => none

end Reader

/-- A byte order mark may stand in front of a document. -/
def Reader.skipMark : List Char → List Char
  | '\uFEFF' :: rest => rest
  | cs => cs

/-- The top-level fields of a document, if it is one. -/
def parse? (text : String) : Option Fields :=
  let cs := Reader.skipMark text.toList
  Reader.lines? [] [] (cs.length + 1) cs

end LeastContext.Toml
