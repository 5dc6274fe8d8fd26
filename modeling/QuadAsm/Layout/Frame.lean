import QuadAsm.Layout.Align
import QuadAsm.Layout.Globals

/-!
# Frames

Every variable of a procedure gets a slot of one word in its frame: temporaries first, then locals,
formals and pointers, at falling offsets from the frame pointer. The two words above the first slot
hold the saved frame pointer and the return address. Main definition: `Frame.assign`.
-/

namespace QuadAsm.Layout

/-- The offset of the first slot. -/
def frameBase : Int := -16

/-- Every slot is one word; narrower values use its low bytes. -/
def slotSize : Int := 8

/-- Frame sizes are multiples of this. -/
def frameAlignment : Int64 := 16

/-- A variable with its place in the frame. -/
structure Slot where
  var : Variable
  role : Role
  offset : Int
  deriving DecidableEq, Repr

/-- The frame of a procedure. -/
structure Frame where
  procedure : Bytes
  slots : List Slot := []
  /-- The bytes below the saved frame pointer. -/
  size : Int := 0
  deriving DecidableEq, Repr, Inhabited

/-- The size of a frame by its number of slots, in machine words. -/
def frameSize (slots : Nat) : Int64 :=
  if slots = 0 then 0
  else
    let lowest := Int64.ofInt frameBase - (Int64.ofNat slots - 1) * Int64.ofInt slotSize
    align (-lowest) frameAlignment

/-- The variables of a procedure with their roles, in the order of their slots. -/
def ownedVariables (p : Procedure) : List (Variable × Role) :=
  p.temps.map (·, .temp) ++ p.locals.map (·, .local) ++ p.formals.map (·, .formal)
    ++ p.addrs.map (·, .addr)

namespace Frame

/-- Gives slots to the variables, the first at `offset`; `taken` have one already. -/
def assignSlots (procedure : Bytes) :
    (taken : List Variable) → (offset : Int) → List (Variable × Role) →
      Except Rejection (List Slot)
  | _, _, [] => .ok []
  | taken, offset, (v, role) :: rest =>
    if !isSupportedWidth v.width then .error (.slotWidth role v procedure)
    else if v ∈ taken then .error (.slotTaken role v procedure)
    else do
      let slots ← assignSlots procedure (v :: taken) (offset - slotSize) rest
      pure (⟨v, role, offset⟩ :: slots)

/-- Lays out the frame of a procedure. -/
def assign (p : Procedure) : Except Rejection Frame := do
  let slots ← assignSlots p.name [] frameBase (ownedVariables p)
  pure ⟨p.name, slots, (frameSize slots.length).toInt⟩

/-- The offset of a variable's slot. -/
def offset? (f : Frame) (v : Variable) : Option Int :=
  (f.slots.find? (·.var = v)).map (·.offset)

end Frame

/-- The place of an operand: in the frame, or else in the data section. -/
def locate (globals : Option Globals) (frame : Option Frame) (opd : Operand) :
    Except Rejection Location :=
  match opd with
  | .var v =>
    match frame.bind (·.offset? v) with
    | some offset => .ok (.frame offset)
    | none =>
      match globals.bind (·.location? v) with
      | some place => .ok place
      | none => .error (.unplaced opd)
  | _ => .error (.unplaced opd)

end QuadAsm.Layout
