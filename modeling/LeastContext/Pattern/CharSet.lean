import LeastContext.Text.CaseFold

namespace LeastContext

namespace CharSet

/-- How two sets make a third one. -/
inductive Operation where
  | intersection
  | difference
  | symmetricDifference
  deriving DecidableEq, Inhabited, Repr

def Operation.apply : Operation → Bool → Bool → Bool
  | .intersection, left, right => left && right
  | .difference, left, right => left && !right
  | .symmetricDifference, left, right => left != right

end CharSet

inductive CharSet where
  /-- The characters of some ranges, or all others. -/
  | ranges (runs : List (Char × Char)) (negated : Bool)
  | union (first others : CharSet)
  | combine (operation : CharSet.Operation) (left right : CharSet)
  /-- A set in brackets of its own. -/
  | bracket (negated : Bool) (body : CharSet)
  deriving Inhabited, Repr

namespace CharSet

def single (c : Char) : CharSet :=
  .ranges [(c, c)] false

/-- Every character but the line feed. -/
def dot : CharSet :=
  .ranges [('\n', '\n')] true

def unions : List CharSet → CharSet
  | [] => .ranges [] false
  | [only] => only
  | first :: others => .union first (unions others)

/-- Whether a character is in a set. Ignoring case, it is in a range if any of its case variants
is; everything else is made up of ranges. -/
def contains (ignoreCase : Bool) (c : Char) : CharSet → Bool
  | .ranges runs negated =>
    let inRuns (d : Char) := runs.any fun (low, high) => low ≤ d && d ≤ high
    (if ignoreCase then (Text.caseVariants c).any inRuns else inRuns c) != negated
  | .union first others => contains ignoreCase c first || contains ignoreCase c others
  | .combine operation left right =>
    operation.apply (contains ignoreCase c left) (contains ignoreCase c right)
  | .bracket negated body => contains ignoreCase c body != negated

/-- How deep the brackets and operations of a set are nested; the items of one list of items count
as one level together. -/
def depth : CharSet → Nat
  | .ranges _ _ => 0
  | .union first (.union second others) => max (first.depth + 1) (depth (.union second others))
  | .union first others => max first.depth others.depth + 1
  | .combine _ left right => max left.depth right.depth + 1
  | .bracket _ body => body.depth + 1

/-- Whether only characters below 128 are written in a set, and none of its parts is negated. -/
def isAscii : CharSet → Bool
  | .ranges runs negated => !negated && runs.all fun (_, high) => high.toNat < 128
  | .union first others => first.isAscii && others.isAscii
  | .combine _ left right => left.isAscii && right.isAscii
  | .bracket negated body => !negated && body.isAscii

/-- The sets that have a name of their own. -/
def named? : String → Option (List (Char × Char))
  | "alnum" => some [('0', '9'), ('A', 'Z'), ('a', 'z')]
  | "alpha" => some [('A', 'Z'), ('a', 'z')]
  | "ascii" => some [('\x00', '\x7f')]
  | "blank" => some [('\t', '\t'), (' ', ' ')]
  | "cntrl" => some [('\x00', '\x1f'), ('\x7f', '\x7f')]
  | "digit" => some [('0', '9')]
  | "graph" => some [('!', '~')]
  | "lower" => some [('a', 'z')]
  | "print" => some [(' ', '~')]
  | "punct" => some [('!', '/'), (':', '@'), ('[', '\x60'), ('\x7b', '~')]
  | "space" => some [('\t', '\r'), (' ', ' ')]
  | "upper" => some [('A', 'Z')]
  | "word" => some [('0', '9'), ('A', 'Z'), ('_', '_'), ('a', 'z')]
  | "xdigit" => some [('0', '9'), ('A', 'F'), ('a', 'f')]
  | _ => none

end CharSet

end LeastContext
