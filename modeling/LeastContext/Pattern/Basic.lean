import LeastContext.Pattern.CharSet
import LeastContext.Text.WordCharacter

namespace LeastContext

namespace Pattern

/-- What a place between two characters can be required to be. -/
inductive Edge where
  | textStart
  | textEnd
  | wordStart
  | wordEnd
  deriving DecidableEq, Inhabited, Repr

/-- A place in a text: the characters before and after it. -/
structure Place where
  before : Option Char
  after : Option Char
  deriving DecidableEq, Inhabited, Repr

def Edge.holds (place : Place) : Edge → Bool
  | .textStart => place.before.isNone
  | .textEnd => place.after.isNone
  | .wordStart =>
    !place.before.any Text.isWordCharacter && place.after.any Text.isWordCharacter
  | .wordEnd =>
    place.before.any Text.isWordCharacter && !place.after.any Text.isWordCharacter

/-- Whether what a group matches can be asked for, and by which name. -/
inductive Group where
  | bare
  | numbered
  | named (name : String)
  deriving DecidableEq, Inhabited, Repr

end Pattern

inductive Pattern where
  | empty
  | one (set : CharSet) (ignoreCase : Bool)
  | boundary (edge : Pattern.Edge)
  | seq (first others : Pattern)
  | alt (left others : Pattern)
  | group (kind : Pattern.Group) (body : Pattern)
  /-- At least so many times, and at most so many if there is a bound. -/
  | repeated (body : Pattern) (least : Nat) (most : Option Nat)
  deriving Inhabited, Repr

namespace Pattern

def seqs : List Pattern → Pattern
  | [] => .empty
  | [only] => only
  | first :: others => .seq first (seqs others)

def alts : List Pattern → Pattern
  | [] => .empty
  | [only] => only
  | left :: others => .alt left (alts others)

/-- How deep a pattern is nested. A sequence counts as one level, however many items it has, and so
do alternatives. -/
def depth : Pattern → Nat
  | .empty | .boundary _ => 0
  | .one set _ => set.depth
  | .seq first (.seq second others) => max (first.depth + 1) (depth (.seq second others))
  | .seq first others => max first.depth others.depth + 1
  | .alt left (.alt second others) => max (left.depth + 1) (depth (.alt second others))
  | .alt left others => max left.depth others.depth + 1
  | .group _ body => body.depth + 1
  | .repeated body _ _ => body.depth + 1

/-- The names of the named groups, in order. -/
def groupNames : Pattern → List String
  | .empty | .boundary _ | .one _ _ => []
  | .seq first others => first.groupNames ++ others.groupNames
  | .alt left others => left.groupNames ++ others.groupNames
  | .group (.named name) body => name :: body.groupNames
  | .group _ body => body.groupNames
  | .repeated body _ _ => body.groupNames

/-- Whether a pattern can match only the empty text. -/
def isHollow : Pattern → Bool
  | .empty | .boundary _ => true
  | .one _ _ => false
  | .seq first others => first.isHollow && others.isHollow
  | .alt left others => left.isHollow && others.isHollow
  | .group _ body => body.isHollow
  | .repeated body _ most => most == some 0 || body.isHollow

/-- The bounds of a repetition as far as they matter: what matches only the empty text need not be
repeated. -/
def bounds (body : Pattern) (least : Nat) (most : Option Nat) : Nat × Option Nat :=
  if body.isHollow then (min least 1, some (min (most.getD 1) 1)) else (least, most)

/-- The room that a pattern takes once its repetitions are written out, at 32 bytes for a state. -/
def size : Pattern → Nat
  | .empty | .boundary _ => 32
  | .one (.ranges [(c, _)] false) false => 32 * c.utf8Size
  | .one set _ => if set.isAscii then 64 else 1000
  | .seq first others => first.size + others.size
  | .alt left others => left.size + others.size + 40
  | .group .bare body => body.size
  | .group _ body => body.size + 64
  | .repeated body least most =>
    let inner := body.size
    match body.bounds least most with
    | (least, none) => max least 1 * inner + 40
    | (least, some most) => least * inner + (most - least) * (inner + 40) + 32

end Pattern

end LeastContext
