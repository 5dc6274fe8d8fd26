import QuadAsm.Emit.Program
import QuadAsm.Text.Words

/-!
# Logs

What a verbose compilation tells about its progress, one line per event. The events of a compilation
that fails end where it fails.
-/

namespace QuadAsm.Cli

open Layout

/-- A step of a compilation. -/
inductive Event where
  | loaded (procedures globals strings : Nat)
  | laidOutGlobals (globals strings : Nat)
  | laidOutFrame (procedure : Bytes) (slots : Nat) (size : Int)
  | generating (procedure : Bytes) (size : Int)
  | generatingQuad (procedure : Bytes) (index : Nat) (quad : Bytes)
  deriving DecidableEq, Repr

/-- Whether a piece of a value can stand without quotes. -/
def isPlainPiece (p : Utf8.Piece) : Bool :=
  let c := p.shown
  if c.toNat < 0x80 then 0x20 < c.toNat && c != '"' && c != '='
  else c.toNat != 0xFFFD && !Text.isSpace p && Text.isPrintable c

/-- A value in a log line, in quotes unless it is plain. -/
def logValue (text : Bytes) : Bytes :=
  let ps := Utf8.pieces text
  if !ps.isEmpty && ps.all isPlainPiece then text else Text.quote text

/-- A number in a log line. -/
def logPair (key value : Bytes) : Bytes := " " ++ key ++ "=" ++ value

/-- A log line: its level, its message and its values. -/
def logLine (level message : Bytes) (values : List (Bytes × Bytes)) : Bytes :=
  "level=" ++ level ++ logPair "msg" (logValue message)
    ++ values.flatMap (fun (key, value) => logPair key value) ++ "\n"

/-- The line of an event. -/
def Event.line : Event → Bytes
  | loaded procedures globals strings =>
    logLine "DEBUG" "loaded IR" [("procedures", Bytes.ofNat procedures),
      ("globals", Bytes.ofNat globals), ("strings", Bytes.ofNat strings)]
  | laidOutGlobals globals strings =>
    logLine "DEBUG" "laid out globals" [("globals", Bytes.ofNat globals),
      ("strings", Bytes.ofNat strings)]
  | laidOutFrame procedure slots size =>
    logLine "DEBUG" "laid out frame" [("procedure", logValue procedure),
      ("slots", Bytes.ofNat slots), ("size", Bytes.ofInt size)]
  | generating procedure size =>
    logLine "DEBUG" "generating procedure" [("name", logValue procedure),
      ("frame", Bytes.ofInt size)]
  | generatingQuad procedure index quad =>
    logLine "DEBUG-4" "translating quad" [("procedure", logValue procedure),
      ("index", Bytes.ofNat index), ("quad", logValue quad)]

/-- Events, and whether the work went on to its end. -/
abbrev Progress := List Event × Bool

/-- The events of one thing after another, up to the first that fails. -/
def inTurn {α : Type} (events : α → Progress) : List α → Progress
  | [] => ([], true)
  | a :: rest =>
    let (first, finished) := events a
    if finished then
      let (others, finished) := inTurn events rest
      (first ++ others, finished)
    else (first, false)

/-- The event of a program that was loaded. -/
def loadedEvent (p : Program) : Event :=
  .loaded p.procedures.length p.globals.length p.strings.length

/-- The event of a frame. -/
def frameEvent (f : Frame) : Event := .laidOutFrame f.procedure f.slots.length f.size

/-- The event of a data section. -/
def globalsEvent (g : Globals) : Event := .laidOutGlobals g.vars.length g.strings.length

/-- The events of a layout. -/
def layoutEvents (p : Program) : List Event :=
  match Globals.assign p with
  | .error _ => []
  | .ok g =>
    globalsEvent g :: (inTurn (fun q =>
      match Frame.assign q with
      | .ok f => ([frameEvent f], true)
      | .error _ => ([], false)) p.procedures).1

/-- The events of compiling a procedure. -/
def procedureEvents (g : Globals) (p : Procedure) : Progress :=
  match Frame.assign p with
  | .error _ => ([], false)
  | .ok f =>
    let ctx : Emit.Context := ⟨g, f, p.formals.length⟩
    let (steps, finished) := inTurn (fun ((q, i) : Quad × Nat) =>
      ([.generatingQuad p.name i q.text], (ctx.codeOf q.op).isOk)) p.quads.zipIdx
    (frameEvent f :: .generating p.name f.size :: steps, finished)

/-- The events of a compilation. -/
def compileEvents (p : Program) : List Event :=
  match Globals.assign p with
  | .error _ => []
  | .ok g => globalsEvent g :: (inTurn (procedureEvents g) p.procedures).1

end QuadAsm.Cli
