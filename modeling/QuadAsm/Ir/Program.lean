import QuadAsm.Ir.Quad

/-!
# Programs

A program has global variables, string constants and procedures. A procedure owns its temporaries,
locals, formals and pointers, and its body stands between an entering and a leaving quad.
-/

namespace QuadAsm

/-- A procedure. -/
structure Procedure where
  name : Bytes
  temps : List Variable := []
  locals : List Variable := []
  formals : List Variable := []
  addrs : List Variable := []
  /-- Labels on the entering quad. -/
  enterLabels : List Bytes := []
  body : List Quad := []
  /-- Labels on the leaving quad. -/
  leaveLabels : List Bytes := []
  deriving DecidableEq, Repr, Inhabited

namespace Procedure

/-- What callers need to know. -/
def signature (p : Procedure) : Signature := ⟨p.name, p.formals⟩

/-- The quad that sets up the frame. -/
def enter (p : Procedure) : Quad := ⟨p.enterLabels, .enter p.signature⟩

/-- The quad that gives the frame up and returns. -/
def leave (p : Procedure) : Quad := ⟨p.leaveLabels, .leave p.signature⟩

/-- All quads, in order. -/
def quads (p : Procedure) : List Quad := p.enter :: p.body ++ [p.leave]

end Procedure

/-- A program. -/
structure Program where
  globals : List Variable := []
  strings : List Bytes := []
  procedures : List Procedure := []
  deriving DecidableEq, Repr, Inhabited

/-- One line of a listing. -/
def listingLine (text : Bytes) : Bytes := text ++ "\n"

/-- Quads with their labels and numbers. -/
def quadListing (quads : List Quad) : Bytes :=
  quads.zipIdx.flatMap fun (q, i) =>
    q.labels.flatMap (fun l => listingLine (l ++ ":"))
      ++ listingLine (Bytes.padLeft 4 (Bytes.ofNat i) ++ "  " ++ q.text)

/-- The listing of a procedure. -/
def Procedure.listing (p : Procedure) : Bytes :=
  listingLine ("Procedure " ++ p.name ++ ":") ++ quadListing p.quads

/-- The listing of a program. -/
def Program.listing (p : Program) : Bytes :=
  p.globals.flatMap (fun g => listingLine ("Global " ++ declarationText g.name g.width))
    ++ p.strings.zipIdx.flatMap (fun (s, i) =>
      listingLine ("String " ++ Bytes.ofNat i ++ ": " ++ (Literal.string s).shown))
    ++ p.procedures.flatMap (fun q => listingLine [] ++ q.listing)

end QuadAsm
