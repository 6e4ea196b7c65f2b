import LeastContext.Pattern.Scanner
import LeastContext.Text.Whitespace

namespace LeastContext

namespace Pattern.Parser

def escapedLetter? : Char → Option Char
  | 'n' => some '\n'
  | 't' => some '\t'
  | 'r' => some '\r'
  | 'f' => some '\x0c'
  | 'v' => some '\x0b'
  | 'a' => some '\x07'
  | _ => none

/-- The character that an escape stands for: punctuation for itself, a few letters for controls. -/
def escaped? (c : Char) : Option Char :=
  if c.toNat < 128 && !c.isAlphanum && c != '<' && c != '>' then some c else escapedLetter? c

/-- One character of a set, escaped or not. -/
def setChar? : List Char → Option (Char × List Char)
  | '\\' :: c :: rest => (escaped? c).map (·, rest)
  | '\\' :: [] => none
  | c :: rest => some (c, rest)
  | [] => none

/-- A character of a set or a range of them. A hyphen makes a range unless the set ends after it or
another hyphen follows. -/
def setRange? (cs : List Char) : Option (CharSet × List Char) := do
  let (low, rest) ← setChar? cs
  match rest with
  | '-' :: ']' :: _ | '-' :: '-' :: _ => some (.single low, rest)
  | '-' :: rest =>
    let (high, rest) ← setChar? rest
    if low ≤ high then some (.ranges [(low, high)] false, rest) else none
  | rest => some (.single low, rest)

/-- A named set, after its opening bracket. -/
def namedSet? (cs : List Char) : Option (CharSet × List Char) := do
  let (negated, cs) ←
    match cs with
    | ':' :: '^' :: rest => some (true, rest)
    | ':' :: rest => some (false, rest)
    | _ => none
  match cs.span (· != ':') with
  | (name, ':' :: ']' :: rest) =>
    (CharSet.named? (String.ofList name)).map fun runs => (.ranges runs negated, rest)
  | _ => none

def operation? : List Char → Option (CharSet.Operation × List Char)
  | '&' :: '&' :: rest => some (.intersection, rest)
  | '-' :: '-' :: rest => some (.difference, rest)
  | '~' :: '~' :: rest => some (.symmetricDifference, rest)
  | _ => none

/-- The items read since the last operation, which takes them as its right side. -/
def closeItems (left : Option (CharSet.Operation × CharSet)) (read : List CharSet) : CharSet :=
  match left with
  | none => .unions read.reverse
  | some (operation, left) => .combine operation left (.unions read.reverse)

/-- What a set starts with: hyphens that stand for themselves, or else a closing bracket that
does. -/
def leadingItems (cs : List Char) : List CharSet × List Char :=
  match cs.span (· == '-') with
  | ([], ']' :: rest) => ([.single ']'], rest)
  | (hyphens, rest) => (hyphens.map .single, rest)

mutual
/-- A set, after its opening bracket. -/
def set? : Nat → List Char → Option (CharSet × List Char)
  | 0, _ => none
  | fuel + 1, cs =>
    let (negated, cs) :=
      match cs with
      | '^' :: rest => (true, rest)
      | cs => (false, cs)
    let (leading, cs) := leadingItems cs
    (setItems? none leading.reverse fuel cs).map fun (body, rest) => (.bracket negated body, rest)

/-- The items of a set up to its closing bracket. Operations are taken from left to right. -/
def setItems? (left : Option (CharSet.Operation × CharSet)) (read : List CharSet) :
    Nat → List Char → Option (CharSet × List Char)
  | 0, _ => none
  | fuel + 1, cs =>
    match cs with
    | ']' :: rest => some (closeItems left read, rest)
    | '[' :: rest =>
      match namedSet? rest with
      | some (item, rest) => setItems? left (item :: read) fuel rest
      | none =>
        match set? fuel rest with
        | some (item, rest) => setItems? left (item :: read) fuel rest
        | none => none
    | cs =>
      match operation? cs with
      | some (operation, rest) => setItems? (some (operation, closeItems left read)) [] fuel rest
      | none =>
        match setRange? cs with
        | some (item, rest) => setItems? left (item :: read) fuel rest
        | none => none
end

/-- A count of at most 32 bits; white space may stand on both sides. -/
def count? (cs : List Char) : Option (Nat × List Char) :=
  match (cs.dropWhile Text.isWhitespace).span Char.isDigit with
  | ([], _) => none
  | (digits, rest) =>
    let count := digits.foldl (fun n c => n * 10 + (c.toNat - '0'.toNat)) 0
    if count < UInt32.size then some (count, rest.dropWhile Text.isWhitespace) else none

/-- The bounds of a counted repetition, after its opening brace. -/
def bounds? (cs : List Char) : Option ((Nat × Option Nat) × List Char) := do
  let (least, rest) ← count? cs
  match rest with
  | '}' :: rest => some ((least, some least), rest)
  | ',' :: '}' :: rest => some ((least, none), rest)
  | ',' :: rest =>
    let (most, rest) ← count? rest
    match rest with
    | '}' :: rest => if least ≤ most then some ((least, some most), rest) else none
    | _ => none
  | _ => none

/-- Whether a match is to be short or long makes no difference to whether there is one. -/
def skipLazy : List Char → List Char
  | '?' :: rest => rest
  | rest => rest

/-- The repetitions that follow an item. -/
def repetitions? (item : Pattern) : Nat → List Char → Option (Pattern × List Char)
  | 0, _ => none
  | fuel + 1, cs =>
    match cs with
    | '*' :: rest => repetitions? (.repeated item 0 none) fuel (skipLazy rest)
    | '+' :: rest => repetitions? (.repeated item 1 none) fuel (skipLazy rest)
    | '?' :: rest => repetitions? (.repeated item 0 (some 1)) fuel (skipLazy rest)
    | '{' :: rest =>
      match bounds? rest with
      | none => none
      | some ((least, most), rest) =>
        repetitions? (.repeated item least most) fuel (skipLazy rest)
    | rest => some (item, rest)

/-- A mark that turns case off or on for the rest of its group. -/
def caseMark? : List Char → Option (Bool × List Char)
  | '(' :: '?' :: 'i' :: ')' :: rest => some (true, rest)
  | '(' :: '?' :: '-' :: 'i' :: ')' :: rest => some (false, rest)
  | _ => none

/-- The name of a group, up to the bracket that closes it. -/
def groupName? (cs : List Char) : Option (String × List Char) :=
  match cs.span (· != '>') with
  | (first :: others, '>' :: rest) =>
    let isLetter (c : Char) := c == '_' || (Text.isWordCharacter c && !c.isDigit)
    let isOther (c : Char) := c == '.' || c == '[' || c == ']' || Text.isWordCharacter c
    if isLetter first && others.all isOther then
      some (String.ofList (first :: others), rest)
    else none
  | _ => none

/-- The opening of a group, and whether case is ignored inside. -/
def groupOpening? (ignoreCase : Bool) : List Char → Option (Group × Bool × List Char)
  | '(' :: '?' :: ':' :: rest => some (.bare, ignoreCase, rest)
  | '(' :: '?' :: 'i' :: ':' :: rest => some (.bare, true, rest)
  | '(' :: '?' :: '-' :: 'i' :: ':' :: rest => some (.bare, false, rest)
  | '(' :: '?' :: 'P' :: '<' :: rest | '(' :: '?' :: '<' :: rest =>
    (groupName? rest).map fun (name, rest) => (.named name, ignoreCase, rest)
  | '(' :: '?' :: _ => none
  | '(' :: rest => some (.numbered, ignoreCase, rest)
  | _ => none

/-- An item of one or two characters, or a set. -/
def single? (ignoreCase : Bool) (cs : List Char) : Option (Pattern × List Char) :=
  match cs with
  | '[' :: rest =>
    (set? (2 * rest.length + 2) rest).map fun (set, rest) => (.one set ignoreCase, rest)
  | '.' :: rest => some (.one .dot ignoreCase, rest)
  | '^' :: rest => some (.boundary .textStart, rest)
  | '$' :: rest => some (.boundary .textEnd, rest)
  | '\\' :: '<' :: rest => some (.boundary .wordStart, rest)
  | '\\' :: '>' :: rest => some (.boundary .wordEnd, rest)
  | '\\' :: c :: rest => (escaped? c).map fun c => (.one (.single c) ignoreCase, rest)
  | '\\' :: [] | '*' :: _ | '+' :: _ | '?' :: _ | '{' :: _ | [] => none
  | c :: rest => some (.one (.single c) ignoreCase, rest)

mutual
/-- Alternatives, up to the end of the text or of the group. -/
def alternatives? (ignoreCase : Bool) (read : List Pattern) :
    Nat → List Char → Option (Pattern × List Char)
  | 0, _ => none
  | fuel + 1, cs =>
    match sequence? ignoreCase [] fuel cs with
    | none => none
    | some (last, ignoreCase, '|' :: rest) => alternatives? ignoreCase (last :: read) fuel rest
    | some (last, _, rest) => some (.alts (last :: read).reverse, rest)

/-- Items one after the other, up to a bar or the end. -/
def sequence? (ignoreCase : Bool) (read : List Pattern) :
    Nat → List Char → Option (Pattern × Bool × List Char)
  | 0, _ => none
  | fuel + 1, cs =>
    match cs with
    | [] => some (.seqs read.reverse, ignoreCase, [])
    | '|' :: rest => some (.seqs read.reverse, ignoreCase, '|' :: rest)
    | ')' :: rest => some (.seqs read.reverse, ignoreCase, ')' :: rest)
    | cs =>
      match caseMark? cs with
      | some (ignoreCase, rest) => sequence? ignoreCase (.empty :: read) fuel rest
      | none =>
        match item? ignoreCase fuel cs with
        | none => none
        | some (item, rest) =>
          match repetitions? item fuel rest with
          | none => none
          | some (item, rest) => sequence? ignoreCase (item :: read) fuel rest

def item? (ignoreCase : Bool) : Nat → List Char → Option (Pattern × List Char)
  | 0, _ => none
  | fuel + 1, cs =>
    match cs with
    | '(' :: rest =>
      match groupOpening? ignoreCase ('(' :: rest) with
      | none => none
      | some (kind, ignoreCase, rest) =>
        match alternatives? ignoreCase [] fuel rest with
        | some (body, ')' :: rest) => some (.group kind body, rest)
        | _ => none
    | cs => single? ignoreCase cs
end

/-- How deep a pattern may be nested. -/
def depthLimit : Nat :=
  250

/-- How large a pattern may get: ten mebibytes. -/
def sizeLimit : Nat :=
  10 * 1024 * 1024

def whole? (cs : List Char) : Option Pattern :=
  match alternatives? false [] (4 * cs.length + 4) cs with
  | some (pattern, []) =>
    if pattern.depth ≤ depthLimit && pattern.size ≤ sizeLimit && pattern.groupNames.Nodup then
      some pattern
    else none
  | _ => none

end Pattern.Parser

/-- The texts that the pattern written in a text is found in, if it is one. -/
def Pattern.read? (source : String) : Option (String → Bool) :=
  (Parser.whole? source.toList).map isFoundIn

end LeastContext
