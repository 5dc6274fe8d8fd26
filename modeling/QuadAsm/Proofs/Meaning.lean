import QuadAsm.Ir.Program
import QuadAsm.Proofs.Machine.Process

/-!
# What quads mean

The meaning of the quads that stay inside of a procedure, without any machine. A `Store` gives every
variable its value and every pointer that was set what it points to. Values are words of 64 bits;
arithmetic wraps, comparisons are signed and give 0 or 1, a byte is filled with zeros when it is
read and cut off when it is written. A pointer as an operand is what it points to, which must be a
variable of the width that the pointer was declared for.

Some quads have no meaning in some states: a division without a quotient of 64 bits, a logical `not`
of anything else than 0 and 1, an operand behind a pointer that was not set. `Procedure.step?` has
no result there, nor for the quads that leave the procedure. What a string constant is worth as a
value is its address, so meanings depend on where the constants are.
-/

namespace QuadAsm

open Machine

/-! ## Operators -/

/-- A truth value as a word. -/
def truth (b : Bool) : Word := if b then 1 else 0

/-- What an operator makes of two words. -/
def BinOp.compute? : BinOp → Word → Word → Option Word
  | add, a, b => some (a + b)
  | sub, a, b => some (a - b)
  | mult, a, b => some (a * b)
  | div, a, b =>
    if b = 0 ∨ a.toInt.tdiv b.toInt = 2 ^ 63 then none
    else some (BitVec.ofInt 64 (a.toInt.tdiv b.toInt))
  | and, a, b => some (a &&& b)
  | or, a, b => some (a ||| b)
  | eq, a, b => some (truth (a == b))
  | neq, a, b => some (truth (a != b))
  | lt, a, b => some (truth (a.slt b))
  | gt, a, b => some (truth (b.slt a))
  | lte, a, b => some (truth (a.sle b))
  | gte, a, b => some (truth (b.sle a))
  | unknown _, _, _ => none

/-- What an operator makes of a word. -/
def UnOp.compute? : UnOp → Word → Option Word
  | copy, a => some a
  | neg, a => some (-a)
  | not, a => if a = 0 ∨ a = 1 then some (1 - a) else none
  | unknown _, _ => none

/-- The size of the value that a variable stands for as an operand. -/
def Variable.size (v : Variable) : Size := Size.ofWidth v.width

/-- What an operand is printed or read as: strings by their kind, the rest by their width. -/
def Operand.channel (opd : Operand) : Channel :=
  if opd.kind? = some .string then .string
  else if opd.width? = some wordWidth then .int
  else if opd.width? = some byteWidth then .byte
  else .string

/-- The routine of the runtime that a quad calls, if it prints or reads. -/
def Op.service? : Op Signature → Option Service
  | .output opd => some (.print opd.channel)
  | .input opd => some (.read opd.channel)
  | _ => none

/-! ## Stores -/

/-- The state of the variables. -/
structure Store where
  value : Variable → Word
  /-- What a pointer points to, if it was set to a variable. -/
  pointee : Variable → Option Variable

namespace Store

variable (σ : Store)

/-- The value of a variable, as far as it fits. -/
def read (v : Variable) : Word := v.size.clip (σ.value v)

/-- The variable that an operand stands for. -/
def referent? : Operand → Option Variable
  | .var v =>
    match v.form with
    | .symbol | .temporary => some v
    | .pointer => (σ.pointee v).filter (·.width = v.width)
  | .lit _ | .absent => none

/-- The value of an operand, given the addresses of string constants. -/
def eval? (texts : Bytes → Word) : Operand → Option Word
  | .var v => (σ.referent? v).map σ.read
  | .lit (.string text) => some (texts text)
  | .lit l => some l.number.toBitVec
  | .absent => none

/-- Gives a variable as much of a value as fits. -/
def put (v : Variable) (w : Word) : Store :=
  { σ with value := Function.update σ.value v (v.size.clip w) }

/-- Gives an operand a value. -/
def assign? (opd : Operand) (w : Word) : Option Store := (σ.referent? opd).map (σ.put · w)

/-- Lets a pointer point to something, or to nothing that can be reached through it. -/
def point (v : Variable) (referent : Option Variable) : Store :=
  { σ with pointee := Function.update σ.pointee v referent }

/-- Lets a pointer point to an operand: to a variable, to what another pointer points to, or to a
string constant, which is not a variable. -/
def pointTo? (src dst : Operand) : Option Store :=
  match dst with
  | .var p =>
    match p.form, src with
    | .pointer, .var v =>
      match v.form with
      | .symbol | .temporary => some (σ.point p (some v))
      | .pointer => some (σ.point p (σ.pointee v))
    | .pointer, .lit (.string _) => some (σ.point p none)
    | _, _ => none
  | .lit _ | .absent => none

variable {σ}

@[simp] theorem read_put_self (v : Variable) (w : Word) : (σ.put v w).read v = v.size.clip w := by
  simp [read, put]

@[simp] theorem read_put_of_ne {u v : Variable} (h : u ≠ v) (w : Word) :
    (σ.put v w).read u = σ.read u := by
  simp [read, put, h]

@[simp] theorem pointee_put (v : Variable) (w : Word) : (σ.put v w).pointee = σ.pointee := rfl

@[simp] theorem read_point (v : Variable) (referent : Option Variable) :
    (σ.point v referent).read = σ.read := rfl

@[simp] theorem pointee_point_self (v : Variable) (referent : Option Variable) :
    (σ.point v referent).pointee v = referent :=
  Function.update_self ..

@[simp] theorem pointee_point_of_ne {u v : Variable} (h : u ≠ v) (referent : Option Variable) :
    (σ.point v referent).pointee u = σ.pointee u :=
  Function.update_of_ne h ..

end Store

/-! ## Procedures -/

/-- A procedure at some moment. -/
structure Config where
  /-- The number of the next quad; the one that enters is number 0. -/
  position : Nat
  store : Store
  /-- What was printed and read so far, the last first. -/
  trace : List Event

namespace Config

/-- Goes on with the next quad. -/
def next (c : Config) (σ : Store) : Config := { c with position := c.position + 1, store := σ }

/-- Notes what was printed or read. -/
def note (c : Config) (v : Service) (w : Word) : Config := { c with trace := ⟨v, w⟩ :: c.trace }

end Config

namespace Procedure

variable (q : Procedure)

/-- The quads of a procedure are those of its body, the one that enters and the one that leaves. -/
theorem mem_quads {q : Procedure} {quad : Quad} :
    quad ∈ q.quads ↔ quad = q.enter ∨ quad ∈ q.body ∨ quad = q.leave := by
  simp [quads]

/-- A quad enters, leaves or belongs to the body. -/
theorem quads_cases {q : Procedure} {k : Nat} {quad : Quad} (h : q.quads[k]? = some quad) :
    (k = 0 ∧ quad = q.enter) ∨ (k = q.body.length + 1 ∧ quad = q.leave) ∨
      ∃ j, k = j + 1 ∧ q.body[j]? = some quad := by
  cases k with
  | zero =>
    cases h
    exact .inl ⟨rfl, rfl⟩
  | succ k =>
    rw [quads, List.cons_append, List.getElem?_cons_succ] at h
    rcases Nat.lt_or_ge k q.body.length with hk | hk
    · rw [List.getElem?_append_left hk] at h
      exact .inr (.inr ⟨k, rfl, h⟩)
    · rw [List.getElem?_append_right hk, List.getElem?_singleton] at h
      split at h
      · next hzero =>
        cases h
        exact .inr (.inl ⟨by omega, rfl⟩)
      · cases h

/-- The routines of the runtime that a procedure calls. -/
def services : List Service := q.body.filterMap (·.op.service?)

variable {q} in
/-- A quad that calls a routine of the runtime is one of the body. -/
theorem mem_services {quad : Quad} (hquad : quad ∈ q.quads) {v : Service}
    (hv : quad.op.service? = some v) : v ∈ q.services := by
  rcases mem_quads.1 hquad with rfl | hbody | rfl
  · cases hv
  · exact List.mem_filterMap.2 ⟨quad, hbody, hv⟩
  · cases hv

/-- The number of the quad under a label. -/
def labelled? (label : Bytes) : Option Nat := q.quads.findIdx? (label ∈ ·.labels)

/-- Goes on under a label. -/
def jump? (target : Option Bytes) (c : Config) : Option Config := do
  let n ← q.labelled? (← target)
  some { c with position := n }

/-- What one quad does, given the addresses of string constants and the values to be read. -/
def quadStep? (texts : Bytes → Word) (inputs : Nat → Word) (c : Config) :
    Op Signature → Option Config
  | .binary op src1 src2 dst => do
    let a ← c.store.eval? texts src1
    let b ← c.store.eval? texts src2
    let σ ← c.store.assign? dst (← op.compute? a b)
    some (c.next σ)
  | .unary op src dst => do
    let a ← c.store.eval? texts src
    let σ ← c.store.assign? dst (← op.compute? a)
    some (c.next σ)
  | .assign src dst => do
    let a ← c.store.eval? texts src
    let σ ← c.store.assign? dst a
    some (c.next σ)
  | .addrOf src dst => do
    let σ ← c.store.pointTo? src dst
    some (c.next σ)
  | .goto target => q.jump? target c
  | .ifZero cond target => do
    let a ← c.store.eval? texts cond
    if a = 0 then q.jump? target c else some (c.next c.store)
  | .nop => some (c.next c.store)
  | .output opd => do
    let a ← c.store.eval? texts opd
    some ((c.next c.store).note (.print opd.channel) a)
  | .input opd => do
    let a := inputs (readCount c.trace)
    let σ ← c.store.assign? opd a
    some ((c.next σ).note (.read opd.channel) a)
  | .call _ | .enter _ | .leave _ | .setArg _ _ | .getArg _ _ | .setRet _ | .getRet _
  | .mayhem _ => none

/-- One step of a procedure. -/
def step? (texts : Bytes → Word) (inputs : Nat → Word) (c : Config) : Option Config :=
  (q.quads[c.position]?).bind fun quad => q.quadStep? texts inputs c quad.op

/-- Several steps of a procedure. -/
def run? (texts : Bytes → Word) (inputs : Nat → Word) : Nat → Config → Option Config
  | 0, c => some c
  | n + 1, c => (q.step? texts inputs c).bind (run? texts inputs n)

/-- A run by its last step. -/
theorem run?_succ (texts : Bytes → Word) (inputs : Nat → Word) (n : Nat) (c : Config) :
    q.run? texts inputs (n + 1) c = (q.run? texts inputs n c).bind (q.step? texts inputs) := by
  induction n generalizing c with
  | zero =>
    simp only [run?, Option.bind_some]
    cases q.step? texts inputs c <;> rfl
  | succ n ih =>
    rw [run?, run?]
    cases q.step? texts inputs c with
    | none => rfl
    | some c₁ => exact ih c₁

end Procedure

end QuadAsm
