import QuadAsm.Layout.Frame
import QuadAsm.Text.Table

/-!
# Layout reports

The data section and the frames of a program as tables.
-/

namespace QuadAsm.Layout

open Text (Cell Table)

/-- A cell that is set as a text. -/
def textCell (text : Bytes) : Cell := ⟨text, false⟩

/-- A cell that is set as a number. Kinds and roles are set so too. -/
def numberCell (text : Bytes) : Cell := ⟨text, true⟩

/-- The table of the data section: strings first, each with the zero byte that ends it. -/
def Globals.table (g : Globals) : Table where
  title := "Data section"
  header := ["Label", "Kind", "Width", "Value"]
  rows :=
    g.labelledStrings.map (fun (label, text) =>
      [textCell label, textCell "string", numberCell (Bytes.ofNat (text.length + 1)),
        textCell (Text.quote text)])
    ++ g.vars.map fun v =>
      [textCell (globalLabel v.name), numberCell v.kind.name, numberCell (Bytes.ofInt v.width),
        textCell []]

/-- The table of a frame. -/
def Frame.table (f : Frame) : Table where
  title := "Frame " ++ f.procedure
  header := ["Operand", "Role", "Width", "Offset"]
  rows := f.slots.map fun s =>
    [textCell s.var.text, numberCell s.role.name, numberCell (Bytes.ofInt s.var.width),
      numberCell (Bytes.ofInt s.offset)]
  footer := [[], [], "size", Bytes.ofInt f.size]

/-- The report on a data section and frames. -/
def report (g : Globals) (frames : List Frame) : Bytes :=
  g.table.text ++ frames.flatMap fun f => f.table.text

end QuadAsm.Layout

namespace QuadAsm

/-- The layout report of a program. -/
def Program.layoutReport (p : Program) : Except Rejection Bytes := do
  let globals ← Layout.Globals.assign p
  let frames ← p.procedures.mapM Layout.Frame.assign
  pure (Layout.report globals frames)

end QuadAsm
