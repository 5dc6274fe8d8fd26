import QuadAsm.Text.Utf8

/-!
# Directives in titles

A title is a template: `%` starts a directive, which asks for a value. No values are ever given, so
every directive is set as a complaint about what is missing, and only `%%` has a plain meaning. A
directive is, in this order: flags, the index of a value in brackets, a width, a point with a
precision, an index, and a letter.
-/

namespace QuadAsm.Text

/-- What has been read of a directive. -/
structure Directive where
  /-- What the directive has been set as so far. -/
  shown : Bytes := []
  /-- Whether no index was given; any index is wrong where there are no values. -/
  goodIndex : Bool := true
  /-- Whether a well-formed index stands directly before. -/
  afterIndex : Bool := false
  /-- What follows. -/
  rest : Bytes
  deriving DecidableEq, Repr

/-- Whether a byte is a decimal digit. -/
def isDigitByte (b : UInt8) : Bool := 0x30 ≤ b && b ≤ 0x39

/-- The largest number that may get one more digit. -/
def numberBound : Nat := 1000000

/-- Whether a number starts the text, and what follows it; behind a number that grows too large
nothing is left. -/
def readNumber (n : Nat) (found : Bool) : Bytes → Bool × Bytes
  | [] => (found, [])
  | b :: rest =>
    if isDigitByte b then
      if n > numberBound then (false, []) else readNumber (n * 10 + (b.toNat - 0x30)) true rest
    else (found, b :: rest)

namespace Directive

/-- Reads an index in brackets, if there is one. -/
def index (d : Directive) : Directive :=
  match d.rest with
  | 0x5B :: inner =>
    let close := inner.findIdx (· == Bytes.code ']')
    if inner.length < 2 ∨ inner.length ≤ close then
      { d with goodIndex := false, afterIndex := false, rest := inner }
    else
      let (found, left) := readNumber 0 false (inner.take close)
      { d with
        goodIndex := false
        afterIndex := found && left.isEmpty
        rest := inner.drop (close + 1) }
  | _ => { d with afterIndex := false }

/-- Reads a width. A star asks for a value that gives it. -/
def width (d : Directive) : Directive :=
  match d.rest with
  | 0x2A :: rest => { d with shown := d.shown ++ "%!(BADWIDTH)", afterIndex := false, rest }
  | _ =>
    let (found, rest) := readNumber 0 false d.rest
    { d with goodIndex := d.goodIndex && !(d.afterIndex && found), rest }

/-- Reads a precision behind a point. A point at the very end is no such point. -/
def precision (d : Directive) : Directive :=
  match d.rest with
  | 0x2E :: b :: rest =>
    let d := index { d with goodIndex := d.goodIndex && !d.afterIndex, rest := b :: rest }
    match d.rest with
    | 0x2A :: rest => { d with shown := d.shown ++ "%!(BADPREC)", afterIndex := false, rest }
    | _ => { d with rest := (readNumber 0 false d.rest).2 }
  | _ => d

/-- Reads the letter: what the directive is set as, and what follows it. -/
def letter (d : Directive) : Bytes × Bytes :=
  match d.rest with
  | [] => (d.shown ++ "%!(NOVERB)", [])
  | b :: rest =>
    let (c, size) := (Utf8.next? (b :: rest)).getD (Char.ofNat 0xFFFD, 1)
    let complaint : Bytes := if d.goodIndex then "(MISSING)" else "(BADINDEX)"
    let text : Bytes := if c == '%' then "%" else "%!" ++ Bytes.ofChars [c] ++ complaint
    (d.shown ++ text, rest.drop (size - 1))

/-- Reads the directive behind a `%`. -/
def read (text : Bytes) : Bytes × Bytes :=
  let isFlag (b : UInt8) := [0x23, 0x30, 0x2B, 0x2D, 0x20].contains b
  let d := index { rest := text.dropWhile isFlag }
  let d := d.width.precision
  letter (if d.afterIndex then d else d.index)

end Directive

/-- A title as it is set, where `fuel` is at least its length. -/
def fillTemplate : Nat → Bytes → Bytes
  | 0, _ | _, [] => []
  | fuel + 1, b :: rest =>
    if b = Bytes.code '%' then
      let (shown, rest) := Directive.read rest
      shown ++ fillTemplate fuel rest
    else b :: fillTemplate fuel rest

/-- A title as it is set when no values are given. -/
def fill (template : Bytes) : Bytes := fillTemplate template.length template

end QuadAsm.Text
