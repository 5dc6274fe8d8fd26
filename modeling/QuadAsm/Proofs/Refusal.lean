import QuadAsm.Proofs.Emit.Refusal

/-!
# Why programs from files are refused

A program from a file always has a data section and a frame for each procedure, and everything in
its quads has a place. What is left are the faults of single quads, and a program without them has
assembly. With faults it is refused for the first one, in the order in which procedures and quads
were declared. Main result: `refused_for_first_fault`.
-/

namespace QuadAsm

open Emit Layout

/-! ## Faults of procedures -/

namespace Procedure

variable {q : Procedure}

/-- A procedure with a quad that there is no code for. -/
def Faulty (q : Procedure) : Prop := ∃ quad ∈ q.body, quad.op.fault? ≠ none

/-- The quads around the body have no faults. -/
theorem faulty_iff : q.Faulty ↔ ∃ quad ∈ q.quads, quad.op.fault? ≠ none := by
  have henter : q.enter.op.fault? = none := rfl
  have hleave : q.leave.op.fault? = none := rfl
  simp [Faulty, mem_quads, henter, hleave]

/-- The quad at `index` of a procedure is the first one that has a fault. -/
structure FirstFault (q : Procedure) (index : Nat) (quad : Quad) (fault : Fault) : Prop where
  fault : quad.op.fault? = some fault
  position : ∃ before after, q.quads = before ++ quad :: after ∧ before.length = index ∧
    ∀ quad' ∈ before, quad'.op.fault? = none

/-- A procedure is refused unless it has no faults. -/
theorem refusal?_eq_none : q.refusal? = none ↔ ¬ q.Faulty := by
  rw [refusal?, List.findSome?_eq_none_iff, faulty_iff]
  constructor
  · rintro h ⟨quad, hquad, hfault⟩
    obtain ⟨j, hj⟩ := List.mem_iff_getElem?.1 hquad
    have hnone := h (quad, j) (List.mk_mem_zipIdx_iff_getElem?.2 hj)
    exact hfault (Option.map_eq_none_iff.1 hnone)
  · rintro h ⟨quad, j⟩ hmem
    have hnone : quad.op.fault? = none :=
      by_contra fun hfault => h ⟨quad, List.fst_mem_of_mem_zipIdx hmem, hfault⟩
    simp only [hnone, Option.map_none]

/-- It is refused for its first fault. -/
theorem refusal?_eq_some {r : Rejection} :
    q.refusal? = some r ↔
      ∃ index quad fault, q.FirstFault index quad fault ∧ r = q.refusal index quad fault := by
  rw [refusal?, List.findSome?_eq_some_iff]
  constructor
  · rintro ⟨front, ⟨quad, index⟩, back, hquads, hquad, hfront⟩
    obtain ⟨fault, hfault, rfl⟩ := Option.map_eq_some_iff.1 hquad
    -- the position of the quad is the number of quads before it
    obtain ⟨before, rest, hsplit, rfl, hrest⟩ := List.zipIdx_eq_append_iff.1 hquads
    obtain ⟨_, after, rfl, he, -⟩ := List.zipIdx_eq_cons_iff.1 hrest.symm
    cases he
    refine ⟨_, quad, fault, ⟨hfault, before, after, hsplit, (Nat.zero_add _).symm, ?_⟩, rfl⟩
    intro quad' hquad'
    obtain ⟨j, hj⟩ := List.mem_iff_getElem?.1 hquad'
    have hnone := hfront (quad', j) (List.mk_mem_zipIdx_iff_getElem?.2 hj)
    exact Option.map_eq_none_iff.1 hnone
  · rintro ⟨_, quad, fault, ⟨hfault, before, after, hsplit, rfl, hbefore⟩, rfl⟩
    refine ⟨before.zipIdx, (quad, before.length), after.zipIdx (before.length + 1), ?_, ?_, ?_⟩
    · rw [hsplit, List.zipIdx_append, List.zipIdx_cons, Nat.zero_add]
    · exact Option.map_eq_some_iff.2 ⟨fault, hfault, rfl⟩
    · rintro ⟨quad', j⟩ hmem
      exact Option.map_eq_none_iff.2 (hbefore quad' (List.fst_mem_of_mem_zipIdx hmem))

end Procedure

/-! ## Faults of programs -/

/-- The quad at `index` of a procedure is the first one in the program that has a fault. -/
structure Program.FirstFault (p : Program) (q : Procedure) (index : Nat) (quad : Quad)
    (fault : Fault) : Prop extends q.FirstFault index quad fault where
  earlier : ∃ before after, p.procedures = before ++ q :: after ∧ ∀ q' ∈ before, ¬ q'.Faulty

/-- A program is refused for the first fault of the first procedure with one. -/
theorem Program.findSome?_refusal? {p : Program} {r : Rejection} :
    p.procedures.findSome? Procedure.refusal? = some r ↔
      ∃ q index quad fault, p.FirstFault q index quad fault ∧ r = q.refusal index quad fault := by
  simp only [List.findSome?_eq_some_iff, Procedure.refusal?_eq_some, Procedure.refusal?_eq_none]
  constructor
  · rintro ⟨before, q, after, hps, ⟨index, quad, fault, hfirst, rfl⟩, hbefore⟩
    exact ⟨q, index, quad, fault, ⟨hfirst, before, after, hps, hbefore⟩, rfl⟩
  · rintro ⟨q, index, quad, fault, ⟨hfirst, before, after, hps, hbefore⟩, rfl⟩
    exact ⟨before, q, after, hps, ⟨index, quad, fault, hfirst, rfl⟩, hbefore⟩

/-- A program is refused just if some procedure has a fault. -/
theorem Program.exists_refusal {p : Program} :
    (∃ r, p.procedures.findSome? Procedure.refusal? = some r) ↔ ∃ q ∈ p.procedures, q.Faulty := by
  rw [← Option.isSome_iff_exists, List.findSome?_isSome_iff]
  refine exists_congr fun q => and_congr_right fun _ => ?_
  rw [Option.isSome_iff_ne_none, Ne, Procedure.refusal?_eq_none, not_not]

/-- One procedure after the other, a program from a file is refused for the first refusal among
them. -/
theorem Source.File.assembly_eq_error {f : Source.File} {p : Program} (h : f.build = .ok p)
    {options : Options} (hseq : options.parallel = false) {e : Failure} :
    p.assembly options = .error e ↔
      ∃ r, p.procedures.findSome? Procedure.refusal? = some r ∧ e = .rejected r := by
  rw [← error?_eq_some, Program.assembly, error?_assemblyBy h, Program.routinesBy,
    if_neg (by simp [hseq]), error?_routines h, Option.map_eq_some_iff]
  exact exists_congr fun r => and_congr_right fun _ => eq_comm

/-- A program from a file has a data section and frames. Compiled one procedure after the other, it
is refused if and only if some quad has a fault, and then for the first one. -/
theorem refused_for_first_fault {f : Source.File} {p : Program} (h : f.build = .ok p) :
    (∃ globals, Globals.assign p = .ok globals) ∧
      (∀ q ∈ p.procedures, ∃ frame, Frame.assign q = .ok frame) ∧
      ∀ options : Options, options.parallel = false →
        ((∃ e, p.assembly options = .error e) ↔ ∃ q ∈ p.procedures, q.Faulty) ∧
        (∀ e, p.assembly options = .error e ↔
          ∃ q index quad fault r, p.FirstFault q index quad fault ∧
            r = q.refusal index quad fault ∧ r.category = fault.category ∧ e = .rejected r) ∧
        ∀ r, p.assembly options = .error (.rejected r) →
          r.category ≠ .unresolvedLocation ∧ r.category ≠ .duplicateSymbol := by
  refine ⟨⟨_, Source.File.assign_globals h⟩, fun q hq => Source.File.exists_frame h hq,
    fun options hseq => ?_⟩
  have herror : ∀ e, p.assembly options = .error e ↔
      ∃ q index quad fault r, p.FirstFault q index quad fault ∧
        r = q.refusal index quad fault ∧ r.category = fault.category ∧ e = .rejected r := by
    intro e
    rw [Source.File.assembly_eq_error h hseq]
    constructor
    · rintro ⟨r, hr, rfl⟩
      obtain ⟨q, index, quad, fault, hfirst, rfl⟩ := Program.findSome?_refusal?.1 hr
      exact ⟨q, index, quad, fault, _, hfirst, rfl, (Op.sorted_of_fault? hfirst.fault).1, rfl⟩
    · rintro ⟨q, index, quad, fault, r, hfirst, hr, -, rfl⟩
      exact ⟨r, Program.findSome?_refusal?.2 ⟨q, index, quad, fault, hfirst, hr⟩, rfl⟩
  refine ⟨?_, herror, fun r hr => ?_⟩
  · simp only [Source.File.assembly_eq_error h hseq, ← Program.exists_refusal]
    exact ⟨fun ⟨_, r, hr, _⟩ => ⟨r, hr⟩, fun ⟨r, hr⟩ => ⟨_, r, hr, rfl⟩⟩
  · obtain ⟨q, index, quad, fault, _, hfirst, -, hcategory, he⟩ := (herror _).1 hr
    cases he
    rw [hcategory]
    rcases (Op.sorted_of_fault? hfirst.fault).2 with hsorted | hsorted <;> simp [hsorted]

namespace TwoFaults

/-- A program that lets a local point to a string, and asks for a runtime service after that. -/
def file : Source.File where
  procedures := [
    { name := "greet"
      body := [{ op := "output", src := some { str := some "hello" } }] },
    { name := "main"
      locals := [{ name := "x" }]
      addrs := [{ name := "a" }]
      body := [
        { op := "addrof", src := some { str := some "hello" }, dst := some { name := "a" } },
        { op := "addrof", src := some { str := some "hello" }, dst := some { name := "x" } }] },
    { name := "last"
      body := [{ op := "mayhem", src := some { int := some 1 } }] }]

def hello : Operand := .lit (.string "hello")

def a : Variable := ⟨0, .pointer, "a", 8, .int⟩

def x : Variable := ⟨1, .symbol, "x", 8, .int⟩

def greet : Procedure where
  name := "greet"
  body := [⟨[], .output hello⟩]

def main : Procedure where
  name := "main"
  locals := [x]
  addrs := [a]
  body := [⟨[], .addrOf hello a⟩, ⟨[], .addrOf hello x⟩]

def last : Procedure where
  name := "last"
  body := [⟨[], .mayhem (.lit (.int 1))⟩]

/-- The program. -/
def program : Program := ⟨[], ["hello"], [greet, main, last]⟩

/-- The first fault is that something points that is no pointer. -/
theorem firstFault : program.FirstFault main 2 ⟨[], .addrOf hello x⟩
    ⟨.unimplemented, .notAPointer x⟩ where
  fault := rfl
  position := ⟨[main.enter, ⟨[], .addrOf hello a⟩], [main.leave], rfl, rfl, by decide⟩
  earlier := ⟨[greet], [last], rfl, by simp [Procedure.Faulty, greet, Op.fault?]⟩

end TwoFaults

open TwoFaults in
/-- The program is refused for the second quad of `main`, and not for the one of `last`. -/
theorem twoFaults_refused :
    file.build = .ok program ∧ last.Faulty ∧ program.assembly {} = .error (.rejected
      (.inProcedure "main" (.inQuad 2 "x := &\"hello\"" (.notAPointer x)))) := by
  have hbuild : file.build = .ok program := by rfl
  refine ⟨hbuild, ⟨_, List.mem_singleton.2 rfl, nofun⟩, ?_⟩
  exact (((refused_for_first_fault hbuild).2.2 {} rfl).2.1 _).2
    ⟨main, 2, _, _, _, firstFault, rfl, rfl, rfl⟩

end QuadAsm
