import QuadAsm.Yaml.Token

/-!
# Scalars

Plain, quoted and block scalars. Inside the first two, a run of blanks within a line is kept as it
is, one line break reads as a blank, and further breaks are kept (`Gap.text`). Texts are put
together backwards.
-/

namespace QuadAsm.Yaml

open Read

/-- Blanks and line breaks between two words of a scalar. -/
structure Gap where
  /-- Blanks of a gap without breaks, backwards. -/
  blanks : List Char := []
  /-- The first break, once one was passed. `some []` is a break that was escaped. -/
  first : Option (List Char) := none
  /-- The breaks after the first, backwards. -/
  more : List Char := []

/-- What a gap contributes to the scalar, backwards. -/
def Gap.text (g : Gap) : List Char :=
  match g.first with
  | none => g.blanks
  | some ['\n'] => if g.more.isEmpty then [' '] else g.more
  | some first => g.more ++ first.reverse

/-- Passes over a gap. With `indent` set, a tab left of that column on a fresh line is an error. -/
def readGap (indent : Option Int) (start : Nat) : (fuel : Nat) → Gap → Read Gap
  | 0, g => pure g
  | fuel + 1, g => do
    let b ← look 0
    if isBlank b then
      if g.first.isSome && b == '\t' && indent.any (((← column) : Int) < ·) then
        fail start .tabInIndentation
      else
        skip
        need 1
        readGap indent start fuel
          (if g.first.isSome then g else { g with blanks := b :: g.blanks })
    else if isBreak b then
      need 2
      let text ← takeBreak
      need 1
      readGap indent start fuel
        (if g.first.isSome then { g with more := text.reverse ++ g.more }
          else { g with first := some text })
    else pure g

/-- The characters of a plain scalar up to a gap or its end, in front of those of `done`. A colon
before a word's end ends it, and so do the flow indicators inside a flow collection. -/
def plainRun (flow : Bool) : (fuel : Nat) → (done : List Char) → Read (List Char)
  | 0, done => pure done
  | fuel + 1, done => do
    let c ← look 0
    if endsWord c || (c == ':' && endsWord (← look 1))
        || (flow && [',', '?', '[', ']', '\x7b', '\x7d'].contains c) then pure done
    else
      skip
      need 2
      plainRun flow fuel (c :: done)

/-- Words and gaps of a plain scalar; `gap` is what stands before the cursor. The flag says that
the scalar was followed by a line break. -/
def plainWords (flow : Bool) (indent : Int) (start : Nat) :
    (fuel : Nat) → (done : List Char) → Gap → Read (List Char × Bool)
  | 0, done, gap => pure (done, gap.first.isSome)
  | fuel + 1, done, gap => do
    need 4
    if (← atDocumentMark) || (← look 0) == '#' then pure (done, gap.first.isSome)
    else
      let word ← plainRun flow (← size) []
      if word.isEmpty then pure (done, gap.first.isSome)
      else
        let done := word ++ gap.text ++ done
        let c ← look 0
        if isBlank c || isBreak c then
          need 1
          let gap ← readGap (some indent) start (← size) {}
          if !flow && ((← column) : Int) < indent then pure (done, gap.first.isSome)
          else plainWords flow indent start fuel done gap
        else pure (done, false)

/-- A plain scalar whose continuation lines are indented by `indent` at least, and whether a line
break followed it. -/
def readPlain (flow : Bool) (indent : Int) : Read (String × Bool) := do
  let (text, broken) ← plainWords flow indent (← line) (← size) [] {}
  pure (String.ofList text.reverse, broken)

/-- The value of a hexadecimal digit. -/
def hexValue? (c : Char) : Option Nat :=
  if '0' ≤ c && c ≤ '9' then some (c.toNat - '0'.toNat)
  else if 'a' ≤ c && c ≤ 'f' then some (c.toNat - 'a'.toNat + 10)
  else if 'A' ≤ c && c ≤ 'F' then some (c.toNat - 'A'.toNat + 10)
  else none

/-- The value of a row of hexadecimal digits. -/
def hexNumber? (cs : List Char) : Option Nat :=
  cs.foldlM (fun n c => (hexValue? c).map (n * 16 + ·)) 0

/-- What follows a backslash: a character of its own, or so many hexadecimal digits. -/
def escapeOf : Char → Option (Char ⊕ Nat)
  | '0' => some (.inl '\x00')
  | 'a' => some (.inl '\x07')
  | 'b' => some (.inl '\x08')
  | 't' | '\t' => some (.inl '\t')
  | 'n' => some (.inl '\n')
  | 'v' => some (.inl '\x0b')
  | 'f' => some (.inl '\x0c')
  | 'r' => some (.inl '\r')
  | 'e' => some (.inl '\x1b')
  | ' ' => some (.inl ' ')
  | '"' => some (.inl '"')
  | '\'' => some (.inl '\'')
  | '\\' => some (.inl '\\')
  | 'N' => some (.inl '\u0085')
  | '_' => some (.inl '\u00a0')
  | 'L' => some (.inl '\u2028')
  | 'P' => some (.inl '\u2029')
  | 'x' => some (.inr 2)
  | 'u' => some (.inr 4)
  | 'U' => some (.inr 8)
  | _ => none

/-- The character that an escape of `n` hexadecimal digits stands for. -/
def readCode (start n : Nat) : Read Char := do
  need n
  let digits ← (List.range n).mapM look
  match hexNumber? digits with
  | none => fail start .badEscapeDigit
  | some v =>
    match Utf8.char? v with
    | none => fail start .badEscapeValue
    | some c =>
      skips n
      pure c

/-- The characters up to the next gap or the closing quote, in front of those of `done`. The flag
says that the run ended with an escaped line break. -/
def quotedRun (single : Bool) (start : Nat) :
    (fuel : Nat) → (done : List Char) → Read (List Char × Bool)
  | 0, done => pure (done, false)
  | fuel + 1, done => do
    let a ← look 0
    if endsWord a then pure (done, false)
    else if single && a == '\'' then
      if (← look 1) == '\'' then
        skips 2
        need 2
        quotedRun single start fuel ('\'' :: done)
      else pure (done, false)
    else if !single && a == '"' then pure (done, false)
    else if !single && a == '\\' then
      let b ← look 1
      if isBreak b then
        need 3
        skip
        skipBreak
        pure (done, true)
      else
        match escapeOf b with
        | none => fail start .unknownEscape
        | some (.inl x) =>
          skips 2
          need 2
          quotedRun single start fuel (x :: done)
        | some (.inr n) =>
          skips 2
          let x ← readCode start n
          need 2
          quotedRun single start fuel (x :: done)
    else
      skip
      need 2
      quotedRun single start fuel (a :: done)

/-- Runs and gaps of a quoted scalar up to the closing quote. -/
def quotedWords (single : Bool) (start : Nat) :
    (fuel : Nat) → (done : List Char) → Read (List Char)
  | 0, _ => fail start .unclosedScalar
  | fuel + 1, done => do
    need 4
    if ← atDocumentMark then fail start .documentMarkInScalar
    else if (← look 0) == endOfText then fail start .unclosedScalar
    else
      let (done, escaped) ← quotedRun single start (← size) done
      need 1
      if (← look 0) == (if single then '\'' else '"') then pure done
      else
        let gap ← readGap none start (← size) (if escaped then { first := some [] } else {})
        quotedWords single start fuel (gap.text ++ done)

/-- A quoted scalar, from its opening quote. -/
def readQuoted (single : Bool) : Read String := do
  let start ← line
  skip
  let text ← quotedWords single start (2 * (← size)) []
  skip
  pure (String.ofList text.reverse)

/-- What becomes of the line breaks at the end of a block scalar. -/
inductive Chomping where
  | strip
  | clip
  | keep
  deriving DecidableEq, Repr

/-- The chomping indicator, if one stands here. -/
def Chomping.ofChar? : Char → Option Chomping
  | '-' => some .strip
  | '+' => some .keep
  | _ => none

/-- The indentation indicator, or zero if no digit stands here. -/
def readIncrement (start : Nat) : Read Nat := do
  let d ← look 0
  if d == '0' then fail start .zeroIndentation
  else if d.isDigit then
    skip
    need 1
    pure (d.toNat - '0'.toNat)
  else pure 0

/-- The chomping indicator, if one stands here. -/
def readChomping : Read (Option Chomping) := do
  match Chomping.ofChar? (← look 0) with
  | some chomping =>
    skip
    need 1
    pure (some chomping)
  | none => pure none

/-- The indicators after `|` or `>`, in either order. -/
def readHeader (start : Nat) : Read (Chomping × Nat) := do
  need 1
  match ← readChomping with
  | some chomping => pure (chomping, ← readIncrement start)
  | none =>
    let increment ← readIncrement start
    let chomping ← if increment = 0 then pure none else readChomping
    pure (chomping.getD .clip, increment)

/-- Passes over the blanks and the comment at the end of a line, and over its break. -/
def finishLine (start : Nat) : Read Unit := do
  skipBlanks
  if (← look 0) == '#' then skipLine
  if !endsLine (← look 0) then fail start .lineEndExpected
  nextLine

/-- Passes over blanks up to the column `indent`, or over all if it is zero. -/
def skipIndentation (indent : Nat) : (fuel : Nat) → Read Unit
  | 0 => pure ()
  | fuel + 1 => do
    if (indent = 0 ∨ (← column) < indent) && (← look 0) == ' ' then
      skip
      need 1
      skipIndentation indent fuel

/-- Passes over indentation and empty lines. `indent` is zero as long as it is not known. Gives the
breaks, backwards, and the widest indentation seen. -/
def blockBreaks (indent start : Nat) :
    (fuel : Nat) → (breaks : List Char) → (widest : Nat) → Read (List Char × Nat)
  | 0, breaks, widest => pure (breaks, widest)
  | fuel + 1, breaks, widest => do
    need 1
    skipIndentation indent (← size)
    let here ← column
    let widest := max widest here
    let b ← look 0
    if b == '\t' && (indent = 0 || here < indent) then fail start .tabInBlockScalar
    else if isBreak b then
      need 2
      let text ← takeBreak
      blockBreaks indent start fuel (text.reverse ++ breaks) widest
    else pure (breaks, widest)

/-- The text of a block scalar and the breaks at its end, all of them backwards. -/
structure BlockText where
  text : List Char := []
  /-- The break that ended the last line. -/
  lead : List Char := []
  /-- The empty lines behind it. -/
  breaks : List Char := []

/-- The lines of a block scalar; `blank` says that the line before started with a blank. -/
def blockLines (literal : Bool) (indent start : Nat) :
    (fuel : Nat) → BlockText → (blank : Bool) → Read BlockText
  | 0, t, _ => pure t
  | fuel + 1, t, blank => do
    let b ← look 0
    if (← column) = indent ∧ b ≠ endOfText then
      let folds := !literal && !blank && !isBlank b && t.lead == ['\n']
      let joint := if folds then (if t.breaks.isEmpty then [' '] else []) else t.lead
      let words ← takeWhile (!endsLine ·)
      need 2
      let lead ← takeBreak
      let (breaks, _) ← blockBreaks indent start (← size) [] 0
      blockLines literal indent start fuel
        ⟨words.reverse ++ t.breaks ++ joint ++ t.text, lead.reverse, breaks⟩ (isBlank b)
    else pure t

/-- A block scalar, from its indicator, inside a collection indented by `outer`. -/
def readBlock (literal : Bool) (outer : Int) : Read String := do
  let start ← line
  skip
  let (chomping, increment) ← readHeader start
  finishLine start
  let known := if increment = 0 then 0 else (max outer 0).toNat + increment
  let (breaks, widest) ← blockBreaks known start (← size) [] 0
  let indent := if known = 0 then max (max widest (outer + 1).toNat) 1 else known
  need 1
  let t ← blockLines literal indent start (← size) { breaks } false
  let tail := match chomping with
    | .strip => []
    | .clip => t.lead
    | .keep => t.breaks ++ t.lead
  pure (String.ofList (tail ++ t.text).reverse)

end QuadAsm.Yaml
