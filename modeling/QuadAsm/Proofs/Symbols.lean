import QuadAsm.Proofs.Emit.Assembly
import QuadAsm.Proofs.Emit.Lines

/-!
# Symbols that an assembly defines

An assembly defines symbols of four kinds: labels of strings, labels of globals, names of functions,
and labels on lines. Within a kind a program from a file never defines a symbol twice, and labels of
strings and of globals start differently. But names of procedures and labels on quads are taken from
the file as they are, and nothing keeps them apart from each other, nor from the labels in the data
section. Main result: `symbols_distinct_iff`.
-/

namespace QuadAsm

open Emit Layout Machine

namespace Asm

/-- The labels on the lines of a function. An empty label is not written. -/
def Function.labels (fn : Function) : List Bytes := (fn.lines.map (·.label)).filter (· ≠ [])

/-- The symbols that an assembly defines, in the order of its text. -/
def Assembly.symbols (a : Assembly) : List Bytes :=
  a.strings.map (·.label) ++ a.globals.map (·.label)
    ++ a.functions.flatMap fun fn => fn.name :: fn.labels

end Asm

namespace Program

/-- The labels on the quads of a program. -/
def labels (p : Program) : List Bytes :=
  p.procedures.flatMap fun q => (q.quads.flatMap (·.labels)).filter (· ≠ [])

/-- Names of procedures and labels that differ from each other and from the labels in the data
section. -/
structure SymbolsApart (p : Program) : Prop where
  names : ∀ q ∈ p.procedures, q.name ∉ p.labels
  strings : ∀ i : Nat, i < p.strings.length →
    stringLabel i ∉ p.procedures.map (·.name) ++ p.labels
  globals : ∀ v ∈ p.globals, globalLabel v.name ∉ p.procedures.map (·.name) ++ p.labels

end Program

/-! ## Labels on lines -/

namespace Machine

/-- The label on a line, if there is one. -/
def Item.label? : Item → Option Bytes
  | label name => some name
  | comment _ | instr _ => none

/-- The labels among lines. -/
def lineLabels (items : List Item) : List Bytes := items.filterMap Item.label?

/-- The line of an instruction has no label. -/
theorem Instr.label_line (i : Instr) : i.line.label = [] := by
  cases i with
  | load size | store size => cases size <;> rfl
  | _ => rfl

/-- The labels that are written are those on lines. -/
theorem Routine.labels_function (r : Routine) :
    r.function.labels = (lineLabels r.items).filter (· ≠ []) := by
  show ((r.items.map Item.line).map (·.label)).filter (· ≠ []) = _
  induction r.items with
  | nil => rfl
  | cons item rest ih =>
    cases item with
    | label name =>
      show (name :: (rest.map Item.line).map (·.label)).filter _
        = (name :: lineLabels rest).filter _
      rw [List.filter_cons, List.filter_cons, ih]
    | comment text => exact ih
    | instr i =>
      rw [List.map_cons, List.map_cons, Item.line, i.label_line]
      exact ih

end Machine

/-- The lines of a procedure have the labels of its quads. -/
theorem Procedure.lineLabels_of_itemsIn {q : Procedure} {ctx : Context} {items : List Item}
    (h : q.itemsIn ctx = .ok items) : lineLabels items = q.quads.flatMap (·.labels) := by
  obtain ⟨blocks, hblocks, rfl⟩ := Procedure.items_of_itemsIn h
  have hlabels (quad : Quad) (block : List Instr) :
      (quad.labels.map .label).filterMap Item.label? ++ (block.map .instr).filterMap Item.label?
        = quad.labels := by
    rw [List.filterMap_map, List.filterMap_map]
    simp [Function.comp_def, Item.label?]
  rw [lineLabels, Procedure.filterMap_items fun _ => rfl]
  conv_rhs => rw [← List.map_fst_zip (Nat.le_of_eq hblocks.length_eq), List.flatMap_map]
  exact List.flatMap_congr fun x _ => hlabels x.1 x.2

/-! ## Symbols -/

namespace Program.Assembled

variable {p : Program} {options : Options} {a : Asm.Assembly}

/-- The labels of the strings. -/
theorem map_label_strings (ha : p.Assembled options a) :
    a.strings.map (·.label) = (List.range p.strings.length).map fun i : Nat => stringLabel i := by
  rw [ha.strings, List.map_map, List.range_eq_range', ← List.zipIdx_map_snd 0 p.strings,
    List.map_map]
  rfl

/-- The labels of the globals. -/
theorem map_label_globals (ha : p.Assembled options a) :
    a.globals.map (·.label) = p.globals.map fun v => globalLabel v.name := by
  rw [ha.globals, List.map_map]
  rfl

/-- What functions have in common with their procedures. -/
theorem map_functions (ha : p.Assembled options a) {β : Type} {g : Asm.Function → β}
    {g' : Procedure → β} (h : ∀ q ctx r, Compiled p q ctx r → g r.function = g' q) :
    a.functions.map g = p.procedures.map g' := by
  rw [eq_comm, ← List.forall₂_eq_eq_eq, List.forall₂_map_left_iff, List.forall₂_map_right_iff]
  refine ha.functions.imp ?_
  rintro q _ ⟨ctx, r, hc, rfl⟩
  exact (h q ctx r hc).symm

/-- The names of the functions. -/
theorem map_name_functions (ha : p.Assembled options a) :
    a.functions.map (·.name) = p.procedures.map (·.name) :=
  ha.map_functions fun _ _ _ hc => hc.name

/-- The labels in the functions are those of the program. -/
theorem flatMap_labels_functions (ha : p.Assembled options a) :
    a.functions.flatMap (·.labels) = p.labels := by
  rw [Program.labels, List.flatMap_def, List.flatMap_def, ha.map_functions]
  intro q ctx r hc
  rw [r.labels_function, Procedure.lineLabels_of_itemsIn hc.items]

/-- The symbols of an assembly, sorted by their kinds. -/
theorem perm_symbols (ha : p.Assembled options a) :
    a.symbols.Perm (a.strings.map (·.label) ++ a.globals.map (·.label)
      ++ (p.procedures.map (·.name) ++ p.labels)) := by
  rw [← ha.map_name_functions, ← ha.flatMap_labels_functions]
  exact (List.map_append_flatMap_perm a.functions (·.name) (·.labels)).symm.append_left _

end Program.Assembled

/-- In the assembly of a program from a file, symbols of one kind are distinct. All symbols are, if
and only if names of procedures and labels are kept apart. -/
theorem symbols_distinct_iff {f : Source.File} {p : Program} (h : f.build = .ok p)
    {options : Options} {a : Asm.Assembly} (ha : p.assembly options = .ok a) :
    (a.strings.map (·.label) ++ a.globals.map (·.label)).Nodup ∧
      (a.functions.map (·.name)).Nodup ∧ (a.functions.flatMap (·.labels)).Nodup ∧
      (a.symbols.Nodup ↔ p.SymbolsApart) := by
  have ha := Source.File.assembled_of_assemblyBy h (fun _ hi => Group.finish_mem_inOrder hi) ha
  have hdata : (a.strings.map (·.label) ++ a.globals.map (·.label)).Nodup := by
    rw [ha.map_label_strings, ha.map_label_globals, List.nodup_append']
    refine ⟨List.nodup_range.map fun _ _ => stringLabel_inj.1, ?_, ?_⟩
    · rw [← Function.comp_def globalLabel, ← List.map_map]
      exact (Source.File.nodup_globals h).map fun _ _ => globalLabel_inj.1
    · intro l hstring hglobal
      obtain ⟨i, -, rfl⟩ := List.mem_map.1 hstring
      obtain ⟨v, -, hv⟩ := List.mem_map.1 hglobal
      exact stringLabel_ne_globalLabel i v.name hv.symm
  have hnames := Source.File.nodup_names h
  have hlabels : p.labels.Nodup := by
    rw [Program.labels, ← List.filter_flatMap]
    exact (Source.File.nodup_labels h).filter _
  refine ⟨hdata, by rwa [ha.map_name_functions], by rwa [ha.flatMap_labels_functions], ?_⟩
  rw [ha.perm_symbols.nodup_iff, List.nodup_append']
  constructor
  · rintro ⟨-, hcode, hdisjoint⟩
    rw [ha.map_label_strings, ha.map_label_globals] at hdisjoint
    refine ⟨fun q hq => ?_, fun i hi => ?_, fun v hv => ?_⟩
    · exact (List.nodup_append'.1 hcode).2.2 (List.mem_map_of_mem hq)
    · exact hdisjoint (List.mem_append_left _ (List.mem_map.2 ⟨i, List.mem_range.2 hi, rfl⟩))
    · exact hdisjoint (List.mem_append_right _ (List.mem_map.2 ⟨v, hv, rfl⟩))
  · intro hapart
    refine ⟨hdata, List.nodup_append'.2 ⟨hnames, hlabels, fun s hname hlabel => ?_⟩, ?_⟩
    · obtain ⟨q, hq, rfl⟩ := List.mem_map.1 hname
      exact hapart.names q hq hlabel
    · rw [ha.map_label_strings, ha.map_label_globals]
      intro s hdata hcode
      rcases List.mem_append.1 hdata with hstring | hglobal
      · obtain ⟨i, hi, rfl⟩ := List.mem_map.1 hstring
        exact hapart.strings i (List.mem_range.1 hi) hcode
      · obtain ⟨v, hv, rfl⟩ := List.mem_map.1 hglobal
        exact hapart.globals v hv hcode

namespace LabelledMain

/-- A program with a label that is also the name of the procedure. -/
def file : Source.File where
  procedures := [{ name := "main", body := [{ op := "nop", labels := ["main"] }] }]

def main : Procedure where
  name := "main"
  body := [⟨["main"], .nop⟩]

/-- The program. -/
def program : Program := ⟨[], [], [main]⟩

end LabelledMain

open LabelledMain in
/-- The symbol `main` is defined twice. -/
theorem labelledMain_twice : file.build = .ok program ∧
    ∃ a, program.assembly {} = .ok a ∧ ¬ a.symbols.Nodup := by
  have hbuild : file.build = .ok program := by rfl
  obtain ⟨a, ha⟩ : ∃ a, program.assembly {} = .ok a := ⟨_, rfl⟩
  refine ⟨hbuild, a, ha, fun hnodup => ?_⟩
  have hapart := (symbols_distinct_iff hbuild ha).2.2.2.1 hnodup
  exact hapart.names main (List.mem_singleton.2 rfl) (by decide)

end QuadAsm
