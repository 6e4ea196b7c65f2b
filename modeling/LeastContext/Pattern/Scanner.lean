import LeastContext.Pattern.Basic

namespace LeastContext.Pattern

/-- A pattern with its repetitions written out. The mark of a set of characters says whether the
last character read can have been matched there. -/
inductive Scanner where
  | empty
  | one (set : CharSet) (ignoreCase : Bool) (marked : Bool)
  | boundary (edge : Edge)
  | seq (first second : Scanner)
  | alt (left right : Scanner)
  /-- Any number of times; whether that may be none is said apart. -/
  | loop (body : Scanner) (optional : Bool)
  deriving Inhabited, Repr

namespace Scanner

def orNothing (body : Scanner) : Scanner :=
  .alt body .empty

/-- So many copies one after the other, halved again and again so that they are not nested deep. -/
def power (body : Scanner) (count : Nat) : Scanner :=
  if count = 0 then .empty
  else if count = 1 then body
  else .seq (power body (count / 2)) (power body (count - count / 2))
termination_by count

/-- The scanner for texts with so many places. A text that is matched by more copies than it has
places is matched by one copy more or less as well, since some copy matches the empty text. -/
def ofPattern (places : Nat) : Pattern → Scanner
  | .empty => .empty
  | .one set ignoreCase => .one set ignoreCase false
  | .boundary edge => .boundary edge
  | .seq first others => .seq (ofPattern places first) (ofPattern places others)
  | .alt left others => .alt (ofPattern places left) (ofPattern places others)
  | .group _ body => ofPattern places body
  | .repeated body least most =>
    let inner := ofPattern places body
    match body.bounds least most with
    | (0, none) => .loop inner true
    | (least + 1, none) => .seq (inner.power (min least places)) (.loop inner false)
    | (least, some most) =>
      .seq (inner.power (min least places)) (inner.orNothing.power (min (most - least) places))

/-- Whether nothing needs to be read at a place. -/
def canSkip (place : Place) : Scanner → Bool
  | .empty => true
  | .one _ _ _ => false
  | .boundary edge => edge.holds place
  | .seq first second => first.canSkip place && second.canSkip place
  | .alt left right => left.canSkip place || right.canSkip place
  | .loop body optional => optional || body.canSkip place

/-- Whether a match that has read up to a place can end there. -/
def canEnd (place : Place) : Scanner → Bool
  | .empty | .boundary _ => false
  | .one _ _ marked => marked
  | .seq first second => (first.canEnd place && second.canSkip place) || second.canEnd place
  | .alt left right => left.canEnd place || right.canEnd place
  | .loop body _ => body.canEnd place

/-- Reads the character after a place; `entered` says whether a match can begin there. -/
def advance (place : Place) (c : Char) (entered : Bool) : Scanner → Scanner
  | .empty => .empty
  | .one set ignoreCase _ => .one set ignoreCase (entered && set.contains ignoreCase c)
  | .boundary edge => .boundary edge
  | .seq first second =>
    .seq (first.advance place c entered)
      (second.advance place c (first.canEnd place || (entered && first.canSkip place)))
  | .alt left right => .alt (left.advance place c entered) (right.advance place c entered)
  | .loop body optional =>
    .loop (body.advance place c (entered || body.canEnd place)) optional

/-- Whether a match is found in the rest of a text, or ends where that starts. -/
def isFoundAfter (before : Option Char) (scanner : Scanner) : List Char → Bool
  | [] => scanner.canEnd ⟨before, none⟩ || scanner.canSkip ⟨before, none⟩
  | c :: cs =>
    let place : Place := ⟨before, some c⟩
    scanner.canEnd place || scanner.canSkip place ||
      isFoundAfter (some c) (scanner.advance place c true) cs

end Scanner

/-- Whether some part of a text matches. -/
def isFoundIn (pattern : Pattern) (text : String) : Bool :=
  (Scanner.ofPattern (text.length + 1) pattern).isFoundAfter none text.toList

end LeastContext.Pattern
