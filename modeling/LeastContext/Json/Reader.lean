import LeastContext.Json.Basic

namespace LeastContext.Json.Reader

def isBlank (c : Char) : Bool :=
  c == ' ' || c == '\t' || c == '\n' || c == '\r'

def skipBlanks (cs : List Char) : List Char :=
  cs.dropWhile isBlank

def hexValue? (c : Char) : Option Nat :=
  if '0' ≤ c ∧ c ≤ '9' then some (c.toNat - '0'.toNat)
  else if 'a' ≤ c ∧ c ≤ 'f' then some (c.toNat - 'a'.toNat + 10)
  else if 'A' ≤ c ∧ c ≤ 'F' then some (c.toNat - 'A'.toNat + 10)
  else none

def hex4? (a b c d : Char) : Option Nat := do
  let a ← hexValue? a
  let b ← hexValue? b
  let c ← hexValue? c
  let d ← hexValue? d
  return ((a * 16 + b) * 16 + c) * 16 + d

def isHighSurrogate (n : Nat) : Bool :=
  0xD800 ≤ n && n < 0xDC00

def isLowSurrogate (n : Nat) : Bool :=
  0xDC00 ≤ n && n < 0xE000

/-- The character that a pair of surrogates stands for. -/
def pairedChar (high low : Nat) : Char :=
  Char.ofNat (0x10000 + (high - 0xD800) * 0x400 + (low - 0xDC00))

def shortEscape? : Char → Option Char
  | '"' => some '"'
  | '\\' => some '\\'
  | '/' => some '/'
  | 'b' => some '\x08'
  | 'f' => some '\x0c'
  | 'n' => some '\n'
  | 'r' => some '\r'
  | 't' => some '\t'
  | _ => none

/-- Reads the rest of a text after its opening quote; `read` holds what came before, reversed. -/
def text? (read : List Char) : List Char → Option (String × List Char)
  | [] => none
  | '"' :: rest => some (String.ofList read.reverse, rest)
  | '\\' :: 'u' :: a :: b :: c :: d :: rest =>
    match hex4? a b c d with
    | none => none
    | some high =>
      if isHighSurrogate high then
        match rest with
        | '\\' :: 'u' :: a :: b :: c :: d :: rest =>
          match hex4? a b c d with
          | none => none
          | some low =>
            if isLowSurrogate low then text? (pairedChar high low :: read) rest else none
        | _ => none
      else if isLowSurrogate high then none
      else text? (Char.ofNat high :: read) rest
  | '\\' :: c :: rest =>
    match shortEscape? c with
    | none => none
    | some escaped => text? (escaped :: read) rest
  | c :: rest => if c.toNat < 0x20 then none else text? (c :: read) rest

/-- The rest after a string whose escapes need not spell characters. -/
def skipText? : List Char → Option (List Char)
  | [] => none
  | '"' :: rest => some rest
  | '\\' :: 'u' :: a :: b :: c :: d :: rest =>
    if (hex4? a b c d).isSome then skipText? rest else none
  | '\\' :: c :: rest => if (shortEscape? c).isSome then skipText? rest else none
  | c :: rest => if c.toNat < 0x20 then none else skipText? rest

/-- Reads a string after its opening quote; it has no text if it is garbled. -/
def string? (cs : List Char) : Option (Option String × List Char) :=
  match text? [] cs with
  | some (content, rest) => some (some content, rest)
  | none => (skipText? cs).map (none, ·)

/-- The fraction of a number, point included; empty if there is none. -/
def fraction? : List Char → Option (List Char × List Char)
  | '.' :: rest =>
    let (digits, rest) := rest.span Char.isDigit
    if digits.isEmpty then none else some ('.' :: digits, rest)
  | rest => some ([], rest)

def exponentSign : List Char → List Char × List Char
  | '+' :: rest => (['+'], rest)
  | '-' :: rest => (['-'], rest)
  | rest => ([], rest)

/-- The exponent of a number, mark included; empty if there is none. -/
def exponent? : List Char → Option (List Char × List Char)
  | [] => some ([], [])
  | mark :: rest =>
    if mark == 'e' || mark == 'E' then
      let (sign, rest) := exponentSign rest
      let (digits, rest) := rest.span Char.isDigit
      if digits.isEmpty then none else some (mark :: sign ++ digits, rest)
    else some ([], mark :: rest)

def minusSign : List Char → List Char × List Char
  | '-' :: rest => (['-'], rest)
  | rest => ([], rest)

/-- Digits with no leading zero, as the whole part of a number must be. -/
def wellFormedWhole : List Char → Bool
  | [] => false
  | '0' :: _ :: _ => false
  | _ => true

def number? (cs : List Char) : Option (Json × List Char) := do
  let (sign, rest) := minusSign cs
  let (whole, rest) := rest.span Char.isDigit
  if !wellFormedWhole whole then none
  else
    let (fraction, rest) ← fraction? rest
    let (exponent, rest) ← exponent? rest
    if sign.isEmpty && fraction.isEmpty && exponent.isEmpty then
      return (.natural (Decimal.digitsValue whole), rest)
    else
      return (.number (String.ofList (sign ++ whole ++ fraction ++ exponent)), rest)

mutual
/-- Reads one value. Every call passes on less fuel than it got and takes at least one character,
so fuel of twice the length of the text is never used up. -/
def value? (fuel : Nat) (cs : List Char) : Option (Json × List Char) :=
  match fuel with
  | 0 => none
  | fuel + 1 =>
    match skipBlanks cs with
    | 'n' :: 'u' :: 'l' :: 'l' :: rest => some (.null, rest)
    | 't' :: 'r' :: 'u' :: 'e' :: rest => some (.bool true, rest)
    | 'f' :: 'a' :: 'l' :: 's' :: 'e' :: rest => some (.bool false, rest)
    | '"' :: rest =>
      (string? rest).map fun (content, rest) => ((content.map .text).getD .garbled, rest)
    | '[' :: rest =>
      match skipBlanks rest with
      | ']' :: rest => some (.list [], rest)
      | rest => items? fuel [] rest
    | '{' :: rest =>
      match skipBlanks rest with
      | '}' :: rest => some (.record [], rest)
      | rest => fields? fuel (some []) rest
    | rest => number? rest

/-- Reads the items of a list that has at least one more. -/
def items? (fuel : Nat) (read : List Json) (cs : List Char) : Option (Json × List Char) :=
  match fuel with
  | 0 => none
  | fuel + 1 =>
    match value? fuel cs with
    | none => none
    | some (item, rest) =>
      match skipBlanks rest with
      | ',' :: rest => items? fuel (item :: read) rest
      | ']' :: rest => some (.list (item :: read).reverse, rest)
      | _ => none

/-- Reads the fields of a record that has at least one more. What was read is lost once a key is
garbled. -/
def fields? (fuel : Nat) (read : Option (List (String × Json))) (cs : List Char) :
    Option (Json × List Char) :=
  match fuel with
  | 0 => none
  | fuel + 1 =>
    match skipBlanks cs with
    | '"' :: rest =>
      match string? rest with
      | none => none
      | some (key, rest) =>
        match skipBlanks rest with
        | ':' :: rest =>
          match value? fuel rest with
          | none => none
          | some (value, rest) =>
            let read := key.bind fun key => read.map ((key, value) :: ·)
            match skipBlanks rest with
            | ',' :: rest => fields? fuel read rest
            | '}' :: rest => some ((read.map (.record ·.reverse)).getD .garbled, rest)
            | _ => none
        | _ => none
    | _ => none
end

end Reader

/-- The value written in a text. -/
def parse? (text : String) : Option Json :=
  let cs := text.toList
  match Reader.value? (2 * cs.length + 2) cs with
  | some (value, rest) => if (Reader.skipBlanks rest).isEmpty then some value else none
  | none => none

end LeastContext.Json
