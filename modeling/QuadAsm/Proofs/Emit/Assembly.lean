import QuadAsm.Proofs.Emit.Destinations
import QuadAsm.Proofs.Emit.Refusal

/-!
# What is in an assembly

The assembly of a program has a label for each string and each global, and a function for each
procedure, in the order of the program (`Program.Assembled`). There is a text for it unless a call
names a procedure without a name (`Assembled.text_eq_error`).
-/

namespace QuadAsm

open Emit Layout Machine

/-- The parts of a program in its assembly. -/
structure Program.Assembled (p : Program) (options : Options) (a : Asm.Assembly) : Prop where
  entry : a.entry = options.symbol
  strings : a.strings = p.strings.zipIdx.map fun (text, i) => ⟨stringLabel i, text⟩
  globals : a.globals = p.globals.map fun v => ⟨globalLabel v.name, v.width⟩
  functions : List.Forall₂ (fun q fn => ∃ ctx r, Compiled p q ctx r ∧ fn = r.function)
    p.procedures a.functions

/-- What becomes of a program from a file, whatever the schedule is. -/
theorem Source.File.assembled_of_assemblyBy {f : Source.File} {p : Program} (h : f.build = .ok p)
    {options : Options} {schedule : List TaskEvent}
    (hall : ∀ i < p.procedures.length, .finish i ∈ schedule) {a : Asm.Assembly}
    (ha : p.assemblyBy options schedule = .ok a) : p.Assembled options a := by
  obtain ⟨g, rs, hg, rfl, hrs⟩ := Program.parts_of_assemblyBy hall ha
  obtain rfl : _ = g := Except.ok.inj ((assign_globals h).symm.trans hg)
  refine ⟨rfl, ?_, rfl, ?_⟩
  · have hstrings : (Globals.ofProgram p).strings = p.strings := distinct_of_nodup (nodup_strings h)
    show (Globals.labelledStrings _).map _ = _
    rw [Globals.labelledStrings, List.map_map, hstrings]
    rfl
  · refine List.forall₂_map_right_iff.2 (hrs.imp ?_)
    rintro q r ⟨ctx, -, hc⟩
    exact ⟨ctx, r, hc, rfl⟩

/-! ## Text -/

/-- A computation over a list whose parts fail in one way only fails when a part does. -/
theorem mapM_eq_error_of_forall {ε α β : Type} {f : α → Except ε β} {l : List α} {e : ε}
    {P : α → Prop} (h : ∀ a ∈ l, ∀ c, f a = .error c ↔ c = e ∧ P a) {c : ε} :
    l.mapM f = .error c ↔ c = e ∧ ∃ a ∈ l, P a := by
  have hsound : ∀ c, l.mapM f = .error c → c = e ∧ ∃ a ∈ l, P a := by
    intro c hc
    rw [← error?_eq_some, error?_mapM] at hc
    obtain ⟨a, ha, hac⟩ := List.exists_of_findSome?_eq_some hc
    obtain ⟨rfl, hP⟩ := (h a ha c).1 (error?_eq_some.1 hac)
    exact ⟨rfl, a, ha, hP⟩
  refine ⟨hsound c, ?_⟩
  rintro ⟨rfl, a, ha, hP⟩
  cases hr : l.mapM f with
  | error c' => rw [(hsound c' hr).1]
  | ok r =>
    obtain ⟨b, -, hb⟩ := exists_of_forall₂ (mapM_eq_ok.1 hr) ha
    rw [(h a ha c).2 ⟨rfl, hP⟩] at hb
    cases hb

namespace Machine

/-- A line has a text unless it leads to a symbol without a name. -/
theorem Item.text_eq_error (item : Item) (c : Crash) :
    item.line.text = .error c ↔
      c = .emptyArgument ∧ item.instr?.bind Instr.destination? = some [] := by
  rw [← error?_eq_some]
  cases item with
  | label name => cases name <;> simp [Item.line, Item.instr?, Asm.Line.text]
  | comment text => cases text <;> simp [Item.line, Item.instr?, Asm.Line.text]
  | instr i =>
    rw [Item.line, i.error?_text, Item.instr?, Option.bind_some]
    split_ifs with h <;> simp [h, eq_comm]

/-- A function has a text unless its code leads to a symbol without a name. -/
theorem Routine.text_eq_error (r : Routine) (c : Crash) :
    r.function.text = .error c ↔
      c = .emptyArgument ∧ [] ∈ destinations (instructions r.items) := by
  have hlines : (r.items.map Item.line).mapM Asm.Line.text = .error c ↔
      c = .emptyArgument ∧ [] ∈ destinations (instructions r.items) := by
    rw [List.mapM_map, mapM_eq_error_of_forall fun item _ => item.text_eq_error, destinations,
      instructions, List.filterMap_filterMap, List.mem_filterMap]
  rw [← hlines, ← error?_eq_some, ← error?_eq_some, Asm.Function.text, error?_bind_pure]
  rfl

end Machine

/-- A procedure that calls one without a name. -/
def Procedure.CallsNameless (q : Procedure) : Prop :=
  ∃ quad ∈ q.body, ∃ callee, quad.op = .call callee ∧ callee.name = []

/-- Of the declared quads, only calls can lead to a symbol without a name. -/
theorem Op.nil_mem_destinations {op : Op Signature} {vars : List Variable} {texts : List Bytes}
    (h : op.Declared vars texts) :
    [] ∈ op.destinations ↔ ∃ callee, op = .call callee ∧ callee.name = [] := by
  have hservice : ∀ s : Service, [] ≠ s.name := by
    rintro (channel | channel) <;> cases channel <;> decide
  cases op with
  | goto target =>
    obtain ⟨l, rfl, hl⟩ := h
    simp [Op.destinations, hl.symm]
  | ifZero cond target =>
    obtain ⟨-, l, rfl, hl⟩ := h
    simp [Op.destinations, hl.symm]
  | call callee => simp [Op.destinations, eq_comm]
  | output | input => simp [Op.destinations, hservice]
  | binary | unary | assign | nop | enter | leave | setArg | getArg | setRet | getRet | mayhem
    | addrOf => simp [Op.destinations]

/-- In a program from a file, a function has a text unless its procedure calls one without a
name. -/
theorem Emit.Compiled.text_eq_error {f : Source.File} {p : Program} {q : Procedure} {ctx : Context}
    {r : Routine} (hc : Compiled p q ctx r) (h : f.build = .ok p) (hq : q ∈ p.procedures)
    (c : Crash) : r.function.text = .error c ↔ c = .emptyArgument ∧ q.CallsNameless := by
  rw [r.text_eq_error, hc.destinations h, List.mem_flatMap]
  refine and_congr_right fun _ => ?_
  have hbody : ∀ quad ∈ q.body, [] ∈ quad.op.destinations ↔ _ := fun quad hquad =>
    Op.nil_mem_destinations (Source.File.declared_of_mem_body h hq hquad)
  constructor
  · rintro ⟨quad, hquad, hnil⟩
    rcases Procedure.mem_quads.1 hquad with rfl | hquad | rfl
    · exact (List.not_mem_nil hnil).elim
    · exact ⟨quad, hquad, (hbody quad hquad).1 hnil⟩
    · exact (List.not_mem_nil hnil).elim
  · rintro ⟨quad, hquad, hcall⟩
    exact ⟨quad, Procedure.mem_quads.2 (.inr (.inl hquad)), (hbody quad hquad).2 hcall⟩

/-- In a program from a file, the assembly has a text unless a procedure without a name is
called. -/
theorem Program.Assembled.text_eq_error {f : Source.File} {p : Program} {options : Options}
    {a : Asm.Assembly} (ha : p.Assembled options a) (h : f.build = .ok p) (c : Crash) :
    a.text = .error c ↔ c = .emptyArgument ∧ ∃ q ∈ p.procedures, q.CallsNameless := by
  have hfunction : ∀ fn ∈ a.functions, ∀ c, fn.text = .error c ↔ c = .emptyArgument ∧
      ∃ q ∈ p.procedures, q.CallsNameless ∧ ∃ ctx r, Compiled p q ctx r ∧ fn = r.function := by
    intro fn hfn c
    constructor
    · intro hc
      obtain ⟨q, hq, ctx, r, hr, rfl⟩ := exists_of_forall₂ ha.functions.flip hfn
      obtain ⟨hempty, hcalls⟩ := (hr.text_eq_error h hq c).1 hc
      exact ⟨hempty, q, hq, hcalls, ctx, r, hr, rfl⟩
    · rintro ⟨hempty, q, hq, hcalls, ctx, r, hr, rfl⟩
      exact (hr.text_eq_error h hq c).2 ⟨hempty, hcalls⟩
  rw [← error?_eq_some, Asm.Assembly.text, error?_bind_pure, error?_eq_some,
    mapM_eq_error_of_forall hfunction]
  refine and_congr_right fun _ => ⟨fun ⟨_, _, q, hq, hcalls, _⟩ => ⟨q, hq, hcalls⟩, ?_⟩
  rintro ⟨q, hq, hcalls⟩
  obtain ⟨fn, hfn, hr⟩ := exists_of_forall₂ ha.functions hq
  exact ⟨fn, hfn, q, hq, hcalls, hr⟩

end QuadAsm
