import QuadAsm.Text.Bytes

/-!
# The values that plain scalars spell

A plain scalar is null, a boolean, a number or a timestamp if its text looks like one, and a string
otherwise. Integers take a sign, the bases `0x`, `0o`, `0b` and a leading zero for octal, and
underscores anywhere. Of a floating-point number only the part before the point is ever used, so a
`Real` is that part of the nearest double.
-/

namespace QuadAsm.Yaml

/-- A double-precision number, cut to its integral part. -/
inductive Real where
  | nan
  | infinite (negative : Bool)
  | finite (whole : Int)
  deriving DecidableEq, Repr

/-- The value of a digit up to base 36. -/
def digitValue? (c : Char) : Option Nat :=
  if '0' ≤ c && c ≤ '9' then some (c.toNat - '0'.toNat)
  else if 'a' ≤ c && c ≤ 'z' then some (c.toNat - 'a'.toNat + 10)
  else if 'A' ≤ c && c ≤ 'Z' then some (c.toNat - 'A'.toNat + 10)
  else none

/-- The value of a row of digits in a base. -/
def number? (base : Nat) (cs : List Char) : Option Nat :=
  cs.foldlM
    (fun n c => (digitValue? c).bind fun d => if d < base then some (n * base + d) else none)
    0

/-- A sign, if one stands in front: whether it is a minus, and the rest. -/
def splitSign : List Char → Option Bool × List Char
  | '-' :: cs => (some true, cs)
  | '+' :: cs => (some false, cs)
  | cs => (none, cs)

/-- A row of digits whose base is told by its start. -/
def basedNumber? : List Char → Option Nat
  | [] => none
  | '0' :: x :: d :: cs =>
    if x == 'x' || x == 'X' then number? 16 (d :: cs)
    else if x == 'o' || x == 'O' then number? 8 (d :: cs)
    else if x == 'b' || x == 'B' then number? 2 (d :: cs)
    else number? 8 (x :: d :: cs)
  | '0' :: cs => number? 8 cs
  | cs => number? 10 cs

/-- Where the words with a sign end: `2 ^ 63`. -/
def signedLimit : Nat := 0x8000000000000000

/-- Puts a sign in front and refuses what does not fit a 64-bit word. Without a sign, numbers up to
`2 ^ 64` fit. -/
def signedWord? (sign : Option Bool) (n : Nat) : Option Int :=
  match sign with
  | some true => if n ≤ signedLimit then some (-n) else none
  | some false => if n < signedLimit then some n else none
  | none => if n < 2 * signedLimit then some n else none

/-- An integer whose base is told by its start. -/
def basedInt? (cs : List Char) : Option Int :=
  let (sign, cs) := splitSign cs
  (basedNumber? cs).bind (signedWord? sign)

/-- An integer in a given base. -/
def intIn? (base : Nat) (cs : List Char) : Option Int :=
  let (sign, cs) := splitSign cs
  if cs.isEmpty then none else (number? base cs).bind (signedWord? sign)

/-- An integer behind `0b` or `0o`, where the sign may also stand behind those letters. -/
def markedInt? : List Char → Option Int
  | '0' :: 'b' :: cs => intIn? 2 cs
  | '0' :: 'o' :: cs => intIn? 8 cs
  | '-' :: '0' :: 'b' :: cs => intIn? 2 ('-' :: cs)
  | '-' :: '0' :: 'o' :: cs => intIn? 8 ('-' :: cs)
  | _ => none

/-- A decimal fraction: sign, digits without the point, and the power of ten they are scaled by. -/
structure Decimal where
  negative : Bool
  digits : Nat
  exponent : Int

/-- An exponent: `e`, a sign, digits. -/
def exponent? : List Char → Option Int
  | [] => some 0
  | e :: cs =>
    if e == 'e' || e == 'E' then
      let (sign, cs) := splitSign cs
      if cs.isEmpty then none
      else (number? 10 cs).map fun n => if sign == some true then -(n : Int) else n
    else none

/-- A decimal fraction with a digit before or behind the point. -/
def decimal? (cs : List Char) : Option Decimal :=
  let (sign, cs) := splitSign cs
  let before := cs.takeWhile Char.isDigit
  let cs := cs.drop before.length
  let (behind, cs) := match cs with
    | '.' :: cs => (cs.takeWhile Char.isDigit, cs.dropWhile Char.isDigit)
    | cs => ([], cs)
  if before.isEmpty && behind.isEmpty then none
  else do
    let digits ← number? 10 (before ++ behind)
    let e ← exponent? cs
    pure ⟨sign == some true, digits, e - behind.length⟩

/-- Underscores may stand between two digits. -/
def underscoresFit : (digitBefore : Bool) → List Char → Bool
  | _, [] => true
  | before, '_' :: cs => before && cs.head?.any Char.isDigit && underscoresFit false cs
  | _, c :: cs => underscoresFit c.isDigit cs

/-- The quotient of two naturals to the nearest integer, a half to the even neighbour. -/
def roundDiv (a b : Nat) : Nat :=
  let q := a / b
  let r := 2 * (a % b)
  if r < b then q else if r > b then q + 1 else q + q % 2

/-- The integral part of the double nearest to `a / b`. A double has 53 significant bits, so between
`2 ^ n` and `2 ^ (n + 1)` the doubles are the multiples of `2 ^ (n - 52)`. -/
def nearestWhole (a b : Nat) : Nat :=
  let n := (a / b).log2
  if n ≤ 52 then
    let scale := if a < b then Nat.pow 2 53 else Nat.pow 2 (52 - n)
    roundDiv (a * scale) b / scale
  else
    let step := Nat.pow 2 (n - 52)
    roundDiv a (b * step) * step

/-- The double nearest to a decimal fraction, or nothing if it is too large for one. -/
def Decimal.nearest? (d : Decimal) : Option Real :=
  let digits := (Nat.toDigits 10 d.digits).length
  if d.digits = 0 || digits + d.exponent < -1 then some (.finite 0)
  else if digits + d.exponent > 400 then none
  else
    let whole := match d.exponent with
      | .ofNat e => nearestWhole (d.digits * Nat.pow 10 e) 1
      | .negSucc e => nearestWhole d.digits (Nat.pow 10 (e + 1))
    if whole ≥ Nat.pow 2 1024 then none
    else some (.finite (if d.negative then -whole else whole))

/-- The days of a month. -/
def daysIn (year month : Nat) : Nat :=
  if month == 2 then
    if year % 4 == 0 && (year % 100 != 0 || year % 400 == 0) then 29 else 28
  else if [4, 6, 9, 11].contains month then 30
  else 31

/-- A number of one or two digits. -/
def shortNumber? (cs : List Char) : Option (Nat × List Char) :=
  let ds := (cs.take 2).takeWhile Char.isDigit
  if ds.isEmpty then none else (number? 10 ds).map (·, cs.drop ds.length)

/-- Passes over a given character. -/
def expect? (c : Char) : List Char → Option (List Char)
  | x :: cs => if x == c then some cs else none
  | [] => none

/-- A date `2006-1-2` and what follows it. -/
def date? (cs : List Char) : Option (List Char) := do
  let digits := cs.takeWhile Char.isDigit
  guard (digits.length == 4)
  let year ← number? 10 digits
  let (month, cs) ← (expect? '-' (cs.drop 4)).bind shortNumber?
  let (day, cs) ← (expect? '-' cs).bind shortNumber?
  guard (1 ≤ month && month ≤ 12 && 1 ≤ day && day ≤ daysIn year month)
  pure cs

/-- A time `15:4:5`, with a fraction behind a point or comma, and what follows it. -/
def time? (cs : List Char) : Option (List Char) := do
  let (hour, cs) ← shortNumber? cs
  let (minute, cs) ← (expect? ':' cs).bind shortNumber?
  let (second, cs) ← (expect? ':' cs).bind shortNumber?
  guard (hour < 24 && minute < 60 && second < 60)
  match cs with
  | p :: d :: rest =>
    if (p == '.' || p == ',') && d.isDigit then pure (rest.dropWhile Char.isDigit) else pure cs
  | _ => pure cs

/-- A zone: `Z`, or a sign with hours and minutes of two digits each. -/
def isZone : List Char → Bool
  | ['Z'] => true
  | [sign, h1, h0, ':', m1, m0] =>
    (sign == '+' || sign == '-') &&
      (number? 10 [h1, h0]).any (· ≤ 24) && (number? 10 [m1, m0]).any (· ≤ 60)
  | _ => false

/-- Whether a text is a date, or a date and a time of day. -/
def isTimestamp (cs : List Char) : Bool :=
  match date? cs with
  | none => false
  | some [] => true
  | some (sep :: rest) =>
    if sep == 'T' || sep == 't' then (time? rest).any isZone
    else sep == ' ' && (time? (rest.dropWhile (· == ' '))).any List.isEmpty

/-- What a scalar means. A number that exceeds a signed word is kept as it is. -/
inductive Value where
  | null
  | bool (b : Bool)
  | int (n : Int)
  | real (r : Real)
  | time
  | text (s : Bytes)
  deriving DecidableEq, Repr

/-- The words with a meaning of their own. -/
def word? : String → Option Value
  | "" | "~" | "null" | "Null" | "NULL" => some .null
  | "true" | "True" | "TRUE" => some (.bool true)
  | "false" | "False" | "FALSE" => some (.bool false)
  | ".nan" | ".NaN" | ".NAN" => some (.real .nan)
  | ".inf" | ".Inf" | ".INF" | "+.inf" | "+.Inf" | "+.INF" => some (.real (.infinite false))
  | "-.inf" | "-.Inf" | "-.INF" => some (.real (.infinite true))
  | _ => none

/-- The number a text spells that starts with a digit or a sign. -/
def numeral? (text : List Char) : Option Value :=
  let cs := text.filter (· != '_')
  match basedInt? cs with
  | some n => some (.int n)
  | none =>
    match (decimal? cs).bind Decimal.nearest? with
    | some r => some (.real r)
    | none => (markedInt? cs).map .int

/-- The number a text spells that starts with a point. -/
def fraction? (text : List Char) : Option Value :=
  if underscoresFit false text then
    ((decimal? (text.filter (· != '_'))).bind Decimal.nearest?).map .real
  else none

/-- What a plain scalar means. Timestamps are recognised only if `times` is set. -/
def plainValue (times : Bool) (text : String) : Value :=
  match word? text with
  | some v => v
  | none =>
    let cs := text.toList
    let found :=
      match cs.head? with
      | none => none
      | some c =>
        if c == '.' then fraction? cs
        else if c.isDigit || c == '+' || c == '-' then
          if times && isTimestamp cs then some .time else numeral? cs
        else none
    found.getD (.text text)

end QuadAsm.Yaml
