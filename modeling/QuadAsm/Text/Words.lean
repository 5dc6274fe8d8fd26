import QuadAsm.Text.Split
import QuadAsm.Text.Width

/-!
# Lines and words

Texts cut at line ends and at spaces, and set into lines of a given width.
-/

namespace QuadAsm.Text

open Utf8 (Piece)

/-- The space characters of Unicode. -/
def spaceRanges : List (Nat × Nat) := [
  (0x9, 0xD), (0x20, 0x20), (0x85, 0x85), (0xA0, 0xA0), (0x1680, 0x1680), (0x2000, 0x200A),
  (0x2028, 0x2029), (0x202F, 0x202F), (0x205F, 0x205F), (0x3000, 0x3000)]

/-- Whether a piece of text is a space. -/
def isSpace (p : Piece) : Bool := inRanges p.shown.toNat spaceRanges

/-- A blank. -/
def blankPiece : Piece := .char ' '

/-- The lines of a text. -/
def lines (text : List Piece) : List (List Piece) := splitAll (· == .char '\n') text

/-- The words of a text. -/
def words (text : List Piece) : List (List Piece) :=
  (splitAll isSpace text).filter (!·.isEmpty)

/-- The text without spaces at its ends. -/
def trim (text : List Piece) : List Piece :=
  ((text.dropWhile isSpace).reverse.dropWhile isSpace).reverse

/-- The bytes of a text. -/
def bytesOf (text : List Piece) : Bytes := text.flatMap Piece.bytes

/-- Lines that are being filled. -/
structure Filling where
  done : List (List Piece) := []
  line : List Piece := []
  /-- The columns of the line that are used. -/
  used : Nat := 0

namespace Filling

/-- Starts a new line. A style in force ends with the old line and starts again on the new one. -/
def newLine (f : Filling) (style : List Char) : Filling :=
  let off := if style.isEmpty then [] else styleOff
  ⟨f.done ++ [f.line ++ off.map .char], style.map .char, 0⟩

/-- Adds a text that takes `columns` columns. -/
def add (f : Filling) (text : List Piece) (columns : Nat) : Filling :=
  { f with line := f.line ++ text, used := f.used + columns }

/-- Adds a text character by character. A line is broken where it is exactly full: a wide character
may step over the end, and the line then goes on. Here every sequence is taken to end with `m`, and
`style` is the last one met. -/
def addBroken (width : Nat) : Filling → Bool → List Char → List Piece → Filling
  | f, _, _, [] => f
  | f, inside, style, p :: rest =>
    let c := p.shown
    let inside := inside || c == escapeChar
    let style := if c == escapeChar then [c] else if inside then style ++ [c] else style
    let f := if f.used = width ∧ !inside then f.newLine style else f
    let f := f.add [.char c] (if inside then 0 else charWidth c)
    addBroken width f (inside && c != 'm') (if style = styleOff then [] else style) rest

/-- Adds a word, after a blank unless the line is empty. -/
def addWord (width : Nat) (style : List Char) (f : Filling) (word : List Piece) : Filling :=
  let f := if f.used = 0 then f else f.add [blankPiece] 1
  let columns := displayWidth word
  if f.used + columns ≤ width then f.add word columns else addBroken width f false style word

/-- Adds words; a full line ends before the next word. `style` is the last style that was in force,
and is switched off at the end. -/
def addWords (width : Nat) : Filling → StyleReader → List Char → List (List Piece) → Filling
  | f, _, style, [] =>
    let off := styleOff.map Piece.char
    if style.isEmpty || off.isSuffixOf f.line then f else f.add off 0
  | f, reader, style, word :: rest =>
    let reader := reader.readWord (word.map Piece.shown)
    let style := if reader.sequence.isEmpty then style else reader.sequence
    let f := f.addWord width style word
    addWords width (if f.used = width ∧ !rest.isEmpty then f.newLine style else f) reader style rest

end Filling

/-- Sets one line into lines of a width. -/
def wrapLine (width : Nat) (line : List Piece) : List (List Piece) :=
  let f := Filling.addWords width {} {} [] (words line)
  f.done ++ [f.line]

/-- The lines of a text. If the text is wider than `width`, its words are set anew. -/
def wrap (width : Nat) (text : List Piece) : List (List Piece) :=
  if displayWidth text ≤ width then lines text else (lines text).flatMap (wrapLine width)

/-- Tabs as four blanks. -/
def expandTabs (text : List Piece) : List Piece :=
  text.flatMap fun p => if p = .char '\t' then List.replicate 4 blankPiece else [p]

/-- Writes `new` over the start of `old`. -/
def overwrite (old new : List Piece) : List Piece := new ++ old.drop new.length

/-- Where a line returns to its start, what follows is written over what was there. -/
def applyReturns (line : List Piece) : List Piece :=
  if line.contains (.char '\r') then
    (splitAll (· == .char '\r') (line.map fun p => .char p.shown)).foldl overwrite []
  else line

/-- Line ends of two characters become one, and other returns take effect. -/
def dropReturns : List Piece → List Piece
  | .char '\r' :: .char '\n' :: rest => .char '\n' :: dropReturns rest
  | p :: rest => p :: dropReturns rest
  | [] => []

/-- A text as it is shown in a cell: without tabs and returns. -/
def cellText (text : Bytes) : List Piece :=
  let whole := dropReturns (expandTabs (Utf8.pieces text))
  ((lines whole).map applyReturns).intersperse [.char '\n'] |>.flatten

end QuadAsm.Text
