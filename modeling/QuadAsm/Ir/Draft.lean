import QuadAsm.Ir.Label
import QuadAsm.Ir.Program

/-!
# Programs under construction

A `Draft` is a program that is put together step by step. Procedures, quads and labels are known by
their numbers, so a quad may stand in several places, a call may name a procedure whose formals are
not complete, and a label may be made before the quad it marks. `Draft.program` is the program as it
is at the moment.
-/

namespace QuadAsm

/-- A procedure under construction. Quads are given by their numbers. -/
structure DraftProcedure where
  name : Bytes
  enter : Nat
  leave : Nat
  body : List Nat := []
  temps : List Variable := []
  locals : List Variable := []
  formals : List Variable := []
  addrs : List Variable := []
  deriving DecidableEq, Repr, Inhabited

/-- A program under construction. -/
structure Draft where
  globals : List Variable := []
  strings : List Bytes := []
  procedures : List DraftProcedure := []
  /-- The quads by their numbers; they refer to procedures by number. -/
  quads : List (Op Nat) := []
  /-- The names of the labels by their numbers. -/
  labels : List Bytes := []
  labelling : Labelling Nat Nat := {}
  /-- How many variables were made. -/
  made : Nat := 0

/-- The lists that a variable can be put on. -/
inductive Shelf where
  | globals
  | temps (procedure : Nat)
  | locals (procedure : Nat)
  | formals (procedure : Nat)
  | addrs (procedure : Nat)
  deriving DecidableEq, Repr

/-- What the variables on a list are for. -/
def Shelf.form : Shelf → Form
  | globals | locals _ | formals _ => .symbol
  | temps _ => .temporary
  | addrs _ => .pointer

namespace Draft

variable (d : Draft)

/-! ## Variables and strings -/

/-- A new variable that is on no list. -/
def newVariable (form : Form) (name : Bytes) (width : Int) (kind : Kind) : Variable × Draft :=
  (⟨d.made, form, name, width, kind⟩, { d with made := d.made + 1 })

/-- Changes a procedure. -/
def modifyProcedure (p : Nat) (f : DraftProcedure → DraftProcedure) : Draft :=
  { d with procedures := d.procedures.modify p f }

/-- The variables on a list. -/
def shelf : Shelf → List Variable
  | .globals => d.globals
  | .temps p => (d.procedures[p]?.map (·.temps)).getD []
  | .locals p => (d.procedures[p]?.map (·.locals)).getD []
  | .formals p => (d.procedures[p]?.map (·.formals)).getD []
  | .addrs p => (d.procedures[p]?.map (·.addrs)).getD []

/-- Puts a variable at the end of a list. -/
def put (s : Shelf) (v : Variable) : Draft :=
  match s with
  | .globals => { d with globals := d.globals ++ [v] }
  | .temps p => d.modifyProcedure p fun q => { q with temps := q.temps ++ [v] }
  | .locals p => d.modifyProcedure p fun q => { q with locals := q.locals ++ [v] }
  | .formals p => d.modifyProcedure p fun q => { q with formals := q.formals ++ [v] }
  | .addrs p => d.modifyProcedure p fun q => { q with addrs := q.addrs ++ [v] }

/-- A new variable on a list. -/
def declare (s : Shelf) (name : Bytes) (width : Int) (kind : Kind) : Variable × Draft :=
  let (v, d) := d.newVariable s.form name width kind
  (v, d.put s v)

/-- A new temporary or pointer, which is named by how many there are. -/
def declareNext (s : Shelf) (width : Int) (kind : Kind) : Variable × Draft :=
  let stem : Bytes := if s.form = .pointer then "addr" else "tmp"
  d.declare s (stem ++ Bytes.ofNat (d.shelf s).length) width kind

/-- Adds a string constant. -/
def addString (text : Bytes) : Draft := { d with strings := d.strings ++ [text] }

/-! ## Quads and procedures -/

/-- A new quad, and its number. -/
def newQuad (op : Op Nat) : Nat × Draft :=
  (d.quads.length, { d with quads := d.quads ++ [op] })

/-- A new procedure, and its number. It has no body yet. -/
def addProcedure (name : Bytes) : Nat × Draft :=
  let p := d.procedures.length
  let (enter, d) := d.newQuad (.enter p)
  let (leave, d) := d.newQuad (.leave p)
  (p, { d with procedures := d.procedures ++ [{ name, enter, leave }] })

/-- Puts a quad at the end of a procedure's body. -/
def append (p quad : Nat) : Draft :=
  d.modifyProcedure p fun q => { q with body := q.body ++ [quad] }

/-- The number of the first procedure with this name. -/
def procedure? (name : Bytes) : Option Nat := d.procedures.findIdx? (·.name == name)

/-! ## Labels -/

/-- A new label, and its number. -/
def newLabel (name : Bytes) : Nat × Draft :=
  (d.labels.length, { d with labels := d.labels ++ [name] })

/-- The name of a label. -/
def labelName (l : Nat) : Bytes := d.labels.getD l []

/-- The names of the labels of a quad. -/
def quadLabels (quad : Nat) : List Bytes := (d.labelling.labels quad).map d.labelName

/-! ## The program -/

/-- A procedure as its callers see it at the moment. -/
def signature (p : Nat) : Signature :=
  match d.procedures[p]? with
  | some q => ⟨q.name, q.formals⟩
  | none => ⟨[], []⟩

/-- What a quad does at the moment. -/
def op (o : Op Nat) : Op Signature := o.map d.signature

/-- A quad with its labels. -/
def quad (q : Nat) : Quad := ⟨d.quadLabels q, d.op (d.quads.getD q .nop)⟩

/-- A procedure at the moment. -/
def procedure (q : DraftProcedure) : Procedure where
  name := q.name
  temps := q.temps
  locals := q.locals
  formals := q.formals
  addrs := q.addrs
  enterLabels := d.quadLabels q.enter
  body := q.body.map d.quad
  leaveLabels := d.quadLabels q.leave

/-- The program at the moment. -/
def program : Program := ⟨d.globals, d.strings, d.procedures.map d.procedure⟩

/-- Lets a label mark a quad, unless it marks one already: then the answer is that quad. -/
def attach (label quad : Nat) : Except Nat Draft :=
  match d.labelling.attach label quad with
  | .ok labelling => .ok { d with labelling }
  | .error owner => .error owner

/-- The wording when a label marks a quad already. -/
def takenMessage (label owner : Nat) : Bytes :=
  "label " ++ d.labelName label ++ " is already attached to " ++ (d.quad owner).text

end Draft

end QuadAsm
