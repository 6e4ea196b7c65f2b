namespace LeastContext

/-- The position of a type in its table; likewise for the other handles. -/
structure TypeId where
  index : Nat
  deriving DecidableEq, Inhabited, Repr

structure ObjectId where
  index : Nat
  deriving DecidableEq, Inhabited, Repr

structure PackageId where
  index : Nat
  deriving DecidableEq, Inhabited, Repr

/-- A file is named by a number of its own, not by its place in the list of files. -/
structure FileId where
  number : UInt32
  deriving DecidableEq, Inhabited, Repr

def TypeId.label (id : TypeId) : String :=
  s!"TypeId({id.index})"

def ObjectId.label (id : ObjectId) : String :=
  s!"ObjectId({id.index})"

def PackageId.label (id : PackageId) : String :=
  s!"PackageId({id.index})"

/-- A place in a file; lines and columns count from one. -/
structure Position where
  file : FileId
  line : UInt32
  column : UInt32
  deriving DecidableEq, Inhabited, Repr

end LeastContext
