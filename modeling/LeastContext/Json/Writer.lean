import LeastContext.Json.Basic

namespace LeastContext.Json

namespace Writer

def hexDigit (n : Nat) : Char :=
  if n < 10 then Char.ofNat ('0'.toNat + n) else Char.ofNat ('a'.toNat + (n - 10))

def escape (c : Char) : List Char :=
  match c with
  | '"' => ['\\', '"']
  | '\\' => ['\\', '\\']
  | '\x08' => ['\\', 'b']
  | '\x0c' => ['\\', 'f']
  | '\n' => ['\\', 'n']
  | '\r' => ['\\', 'r']
  | '\t' => ['\\', 't']
  | c =>
    if c.toNat < 0x20 then ['\\', 'u', '0', '0', hexDigit (c.toNat / 16), hexDigit (c.toNat % 16)]
    else [c]

def quoted (text : String) : String :=
  String.ofList ('"' :: text.toList.flatMap escape ++ ['"'])

/-- Brackets around parts that each stand on a line of their own, one level deeper. -/
def block (opening closing : String) (indent : Nat) (parts : List String) : String :=
  match parts with
  | [] => opening ++ closing
  | parts =>
    let margin := String.ofList (List.replicate (2 * indent) ' ')
    let lines := parts.map fun part => "\n" ++ margin ++ "  " ++ part
    opening ++ ",".intercalate lines ++ "\n" ++ margin ++ closing

end Writer

open Writer

mutual
/-- A value on one line, without blanks. -/
def compact : Json → String
  | .null => "null"
  | .bool value => if value then "true" else "false"
  | .natural value => toString value
  | .number literal => literal
  | .text value => quoted value
  | .garbled => "null"
  | .list items => "[" ++ ",".intercalate (compactItems items) ++ "]"
  | .record fields => "\x7b" ++ ",".intercalate (compactFields fields) ++ "\x7d"

def compactItems : List Json → List String
  | [] => []
  | item :: items => compact item :: compactItems items

def compactFields : List (String × Json) → List String
  | [] => []
  | (key, value) :: fields => (quoted key ++ ":" ++ compact value) :: compactFields fields
end

mutual
/-- A value over several lines, at a given level of indentation. -/
def indented (indent : Nat) : Json → String
  | .list items => block "[" "]" indent (indentedItems (indent + 1) items)
  | .record fields => block "\x7b" "\x7d" indent (indentedFields (indent + 1) fields)
  | value => value.compact

def indentedItems (indent : Nat) : List Json → List String
  | [] => []
  | item :: items => indented indent item :: indentedItems indent items

def indentedFields (indent : Nat) : List (String × Json) → List String
  | [] => []
  | (key, value) :: fields =>
    (quoted key ++ ": " ++ indented indent value) :: indentedFields indent fields
end

end LeastContext.Json
