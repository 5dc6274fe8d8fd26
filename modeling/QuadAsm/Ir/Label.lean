/-!
# Labels on quads

A label marks one quad, and a quad may carry several labels. Both sides are kept: a label knows the
quad it marks, and a quad knows its labels. `Labelling.attach` writes one side after the other.
-/

namespace QuadAsm

/-- Which label marks which quad, from both sides. -/
@[ext]
structure Labelling (Label Quad : Type) where
  /-- The quad that a label marks. -/
  quad? : Label → Option Quad := fun _ => none
  /-- The labels of a quad, in the order they were attached. -/
  labels : Quad → List Label := fun _ => []

namespace Labelling

variable {Label Quad : Type} [DecidableEq Label] [DecidableEq Quad]

/-- The label's side: it marks a quad now. -/
def setQuad (s : Labelling Label Quad) (l : Label) (q : Quad) : Labelling Label Quad :=
  { s with quad? := fun l' => if l' = l then some q else s.quad? l' }

/-- The quad's side: it has one more label, the last. -/
def addLabel (s : Labelling Label Quad) (q : Quad) (l : Label) : Labelling Label Quad :=
  { s with labels := fun q' => if q' = q then s.labels q ++ [l] else s.labels q' }

/-- Lets a label mark a quad. A label that marks a quad already keeps it: the answer is that
quad. -/
def attach (s : Labelling Label Quad) (l : Label) (q : Quad) :
    Except Quad (Labelling Label Quad) :=
  match s.quad? l with
  | some owner => .error owner
  | none => .ok ((s.setQuad l q).addLabel q l)

end Labelling

end QuadAsm
