namespace LeastContext.Toml.DateTime

/-- A number of exactly so many digits, between two bounds. -/
def digits? (count least most : Nat) (cs : List Char) : Option (Nat × List Char) :=
  let digits := cs.take count
  let value := digits.foldl (fun n c => n * 10 + (c.toNat - '0'.toNat)) 0
  if digits.length = count && digits.all Char.isDigit && least ≤ value && value ≤ most then
    some (value, cs.drop count)
  else none

def char? (expected : Char) : List Char → Option (List Char)
  | c :: rest => if c = expected then some rest else none
  | [] => none

def isLeapYear (year : Nat) : Bool :=
  year % 4 == 0 && (year % 100 != 0 || year % 400 == 0)

def daysIn (year month : Nat) : Nat :=
  if month = 2 then if isLeapYear year then 29 else 28
  else if month ∈ [4, 6, 9, 11] then 30
  else 31

/-- The rest after a date. -/
def skipDate? (cs : List Char) : Option (List Char) := do
  let (year, rest) ← digits? 4 0 9999 cs
  let (month, rest) ← digits? 2 1 12 (← char? '-' rest)
  let (_, rest) ← digits? 2 1 (daysIn year month) (← char? '-' rest)
  return rest

/-- The rest after the fraction of a second, if there is one. -/
def skipFraction : List Char → List Char
  | '.' :: rest =>
    match rest.span Char.isDigit with
    | ([], _) => '.' :: rest
    | (_, rest) => rest
  | rest => rest

/-- The rest after a time of day. A minute can have a leap second. -/
def skipTime? (cs : List Char) : Option (List Char) := do
  let (_, rest) ← digits? 2 0 23 cs
  let (_, rest) ← digits? 2 0 59 (← char? ':' rest)
  let (_, rest) ← digits? 2 0 60 (← char? ':' rest)
  return skipFraction rest

/-- The rest after an offset, which is `none` only if one is begun and not ended. -/
def skipOffset? : List Char → Option (List Char)
  | 'Z' :: rest | 'z' :: rest => some rest
  | '+' :: rest | '-' :: rest => do
    let (_, rest) ← digits? 2 0 23 rest
    let (_, rest) ← digits? 2 0 59 (← char? ':' rest)
    return rest
  | rest => some rest

/-- The rest after a time with its offset. -/
def skipFullTime? (cs : List Char) : Option (List Char) :=
  skipTime? cs >>= skipOffset?

/-- The rest after a date, a time, or a date with a time behind it. -/
def skip? (cs : List Char) : Option (List Char) :=
  match skipDate? cs with
  | none => skipTime? cs
  | some (mark :: rest) =>
    if mark == 'T' || mark == 't' || mark == ' ' then
      match skipTime? rest with
      | some _ => skipFullTime? rest
      | none => some (mark :: rest)
    else some (mark :: rest)
  | some [] => some []

end LeastContext.Toml.DateTime
