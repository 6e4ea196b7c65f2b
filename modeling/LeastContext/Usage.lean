import LeastContext.Program.Handle

namespace LeastContext

/-- Puts an element into an ascending list, unless it is there. -/
def insertAscending [DecidableEq α] (before : α → α → Bool) (x : α) : List α → List α
  | [] => [x]
  | y :: ys =>
    if x = y then y :: ys
    else if before x y then x :: y :: ys
    else y :: insertAscending before x ys

/-- What a variable was seen being used as, each kind ascending and without repetition. -/
structure Usage where
  /-- The types the variable was used as. -/
  interfaces : List TypeId
  /-- The methods called on the variable. -/
  methods : List String
  /-- Whether the variable is the context of a memoized function. -/
  cached : Bool
  deriving DecidableEq, Inhabited, Repr

namespace Usage

def empty : Usage :=
  ⟨[], [], false⟩

/-- Whether no use is recorded; being cached is not a use. -/
def isEmpty (usage : Usage) : Bool :=
  usage.interfaces.isEmpty && usage.methods.isEmpty

def addInterface (id : TypeId) (usage : Usage) : Usage :=
  { usage with interfaces := insertAscending (·.index < ·.index) id usage.interfaces }

def addMethod (name : String) (usage : Usage) : Usage :=
  { usage with methods := insertAscending (· < ·) name usage.methods }

def setCached (cached : Bool) (usage : Usage) : Usage :=
  { usage with cached }

/-- All that either record holds. -/
def merge (a b : Usage) : Usage :=
  let both := b.methods.foldl (fun u name => u.addMethod name)
    (b.interfaces.foldl (fun u id => u.addInterface id) a)
  { both with cached := a.cached || b.cached }

end Usage

end LeastContext
