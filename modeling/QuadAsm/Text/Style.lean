import QuadAsm.Text.Bytes
import QuadAsm.Text.Split

/-!
# Terminal styles

A terminal takes some characters as orders: a sequence that starts with the escape character. After
`[` it is a style and ends with `m`; after `]` it is a command and ends with a backslash; a command
that starts with `8;` is a link, which ends with the bell or with an escape character and a
backslash. `StyleReader` reads a text character by character and knows which style codes are in
force.
-/

namespace QuadAsm.Text

/-- What a sequence is, as far as it has been read. -/
inductive SequenceKind where
  /-- Neither bracket has been met. -/
  | undecided
  | style
  | command
  | link
  deriving DecidableEq, Repr

/-- The escape character. -/
def escapeChar : Char := '\x1b'

/-- The sequence that ends all styles. -/
def styleOff : List Char := [escapeChar, '[', '0', 'm']

/-- A sequence that is not over. -/
structure OpenSequence where
  kind : SequenceKind
  /-- Its characters, the last one first. -/
  reversed : List Char
  deriving DecidableEq, Repr

/-- Reads texts with sequences in them. -/
structure StyleReader where
  /-- The sequence that is being read. -/
  current : Option OpenSequence := none
  /-- The codes in force, in increasing order. -/
  codes : List Int := []
  deriving DecidableEq, Repr, Inhabited

/-- The list without the first place where `part` stands in it. -/
def dropFirst (part : List Char) : List Char → List Char
  | [] => []
  | c :: rest =>
    if part.isPrefixOf (c :: rest) then (c :: rest).drop part.length else c :: dropFirst part rest

/-- The number that decimal digits denote. -/
def digitsValue? (digits : List Char) : Option Int :=
  if digits.isEmpty || digits.any (!·.isDigit) then none
  else some (digits.foldl (fun n d => n * 10 + (d.toNat - 48)) 0 : Nat)

/-- The machine word that a text denotes: decimal digits, possibly behind a sign. -/
def signedNumber? (text : List Char) : Option Int := do
  let n ←
    match text with
    | '+' :: digits => digitsValue? digits
    | '-' :: digits => (digitsValue? digits).map (- ·)
    | digits => digitsValue? digits
  if Int64.minValue.toInt ≤ n ∧ n ≤ Int64.maxValue.toInt then some n else none

/-- An integer in decimal. -/
def decimal (n : Int) : List Char :=
  (if n < 0 then ['-'] else []) ++ Nat.toDigits 10 n.natAbs

/-- The codes that a code switches off, if it is one for that. -/
def switchedOff? : Int → Option (List Int)
  | 22 => some [1, 2]
  | 23 => some [3]
  | 24 => some [4]
  | 25 => some [5, 6]
  | 27 => some [7]
  | 29 => some [9]
  | _ => none

/-- Adds a number to an increasing list. -/
def insertCode (n : Int) : List Int → List Int
  | [] => [n]
  | m :: rest =>
    if n < m then n :: m :: rest
    else if n = m then m :: rest
    else m :: insertCode n rest

/-- What a code does to the codes in force. Code 0 ends them all. -/
def applyCode (codes : List Int) (n : Int) : List Int :=
  if n = 0 then []
  else
    match switchedOff? n with
    | some off => codes.filter (!off.contains ·)
    | none => insertCode n codes

namespace OpenSequence

/-- The sequence with one more character. -/
def push (s : OpenSequence) (c : Char) : OpenSequence :=
  let reversed := c :: s.reversed
  let kind : SequenceKind :=
    match s.kind with
    | .undecided => if c == '[' then .style else if c == ']' then .command else .undecided
    | .command => if reversed = [';', '8', ']', escapeChar] then .link else .command
    | kind => kind
  ⟨kind, reversed⟩

/-- Whether the last character ends the sequence. -/
def isOver (s : OpenSequence) : Bool :=
  match s.kind, s.reversed with
  | .style, 'm' :: _ => true
  | .command, '\\' :: _ => true
  | .link, '\x07' :: _ => true
  | .link, '\\' :: '\x1b' :: _ => true
  | _, _ => false

/-- The codes that the sequence holds, between semicolons. -/
def codes (s : OpenSequence) : List Int :=
  let text := s.reversed.reverse
  let inner :=
    if s.kind = .style then dropFirst ['m'] (dropFirst [escapeChar, '['] text)
    else dropFirst ['\\'] (dropFirst [escapeChar, ']'] text)
  (splitAll (· == ';') inner).filterMap signedNumber?

end OpenSequence

namespace StyleReader

/-- Whether the next character belongs to a sequence. -/
def isInside (r : StyleReader) : Bool := r.current.isSome

/-- Reads a character. -/
def next (r : StyleReader) (c : Char) : StyleReader :=
  match r.current with
  | none => if c == escapeChar then { r with current := some ⟨.undecided, [c]⟩ } else r
  | some s =>
    let s := s.push c
    if s.isOver then ⟨none, s.codes.foldl applyCode r.codes⟩ else { r with current := some s }

/-- Reads a text of its own: a sequence left open before it is forgotten, the codes are not. -/
def readWord (r : StyleReader) (text : List Char) : StyleReader :=
  text.foldl next { r with current := none }

/-- The sequence that brings the codes in force about; empty if there are none. -/
def sequence (r : StyleReader) : List Char :=
  if r.codes.isEmpty then []
  else
    [escapeChar, '['] ++ ((r.codes.map decimal).intersperse [';']).flatten ++ ['m']

end StyleReader

end QuadAsm.Text
