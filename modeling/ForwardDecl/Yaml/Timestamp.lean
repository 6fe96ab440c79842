/-! # Timestamps

A plain scalar that is a date, alone or with a time of day, is a timestamp.
The year has four digits and every other number one or two.  After a `T` or
`t` the time needs an offset, `Z` or `±hh:mm`; after spaces it has none.
-/
namespace ForwardDecl
namespace Yaml
namespace Timestamp

/-- The value of a decimal digit. -/
def digit? (c : Char) : Option Nat :=
  if c.isDigit then some (c.toNat - '0'.toNat) else none

/-- A number of one or two digits. -/
def number? : List Char → Option (Nat × List Char)
  | [] => none
  | a :: rest => do
    let x ← digit? a
    match rest with
    | [] => some (x, [])
    | b :: rest' =>
      match digit? b with
      | some y => some (10 * x + y, rest')
      | none => some (x, b :: rest')

/-- What is after the character `c`, which has to come first. -/
def after? (c : Char) : List Char → Option (List Char)
  | [] => none
  | d :: rest => if d = c then some rest else none

/-- The number of days of a month. -/
def daysIn (year month : Nat) : Nat :=
  if month = 2 then
    if year % 4 = 0 ∧ (year % 100 ≠ 0 ∨ year % 400 = 0) then 29 else 28
  else if month = 4 ∨ month = 6 ∨ month = 9 ∨ month = 11 then 30
  else 31

/-- What is after a date. -/
def date? (cs : List Char) : Option (List Char) := do
  let digits := cs.takeWhile Char.isDigit
  guard (digits.length = 4)
  let year := digits.foldl (fun n c => 10 * n + (c.toNat - '0'.toNat)) 0
  let rest ← after? '-' (cs.drop 4)
  let (month, rest) ← number? rest
  let rest ← after? '-' rest
  let (day, rest) ← number? rest
  guard (1 ≤ month ∧ month ≤ 12 ∧ 1 ≤ day ∧ day ≤ daysIn year month)
  return rest

/-- What is after an optional fraction of a second. -/
def afterFraction : List Char → List Char
  | p :: d :: rest =>
    if (p = '.' ∨ p = ',') ∧ d.isDigit then rest.dropWhile Char.isDigit else p :: d :: rest
  | cs => cs

/-- What is after a time of day. -/
def timeOfDay? (cs : List Char) : Option (List Char) := do
  let (hour, rest) ← number? cs
  let rest ← after? ':' rest
  let (minute, rest) ← number? rest
  let rest ← after? ':' rest
  let (second, rest) ← number? rest
  guard (hour < 24 ∧ minute < 60 ∧ second < 60)
  return afterFraction rest

/-- Whether the characters are an offset from universal time. -/
def isOffset : List Char → Bool
  | ['Z'] => true
  | [sign, h, i, ':', m, n] =>
    match digit? h, digit? i, digit? m, digit? n with
    | some h, some i, some m, some n =>
      (sign = '+' || sign = '-') && 10 * h + i ≤ 24 && 10 * m + n ≤ 60
    | _, _, _, _ => false
  | _ => false

/-- Whether the characters are a timestamp. -/
def isTimestamp (cs : List Char) : Bool :=
  match date? cs with
  | none => false
  | some [] => true
  | some (c :: rest) =>
    if c = 'T' || c = 't' then
      match timeOfDay? rest with
      | some offset => isOffset offset
      | none => false
    else if c = ' ' then timeOfDay? (rest.dropWhile (· = ' ')) == some []
    else false

example : isTimestamp "2001-01-01".toList = true ∧ isTimestamp "2001-02-29".toList = false := by
  decide +kernel

example : isTimestamp "2001-12-14t21:59:43.10-05:00".toList = true ∧
    isTimestamp "2001-12-14 21:59:43".toList = true ∧ isTimestamp "2001-12".toList = false := by
  decide +kernel

end Timestamp
end Yaml
end ForwardDecl
