import QuadAsm.Emit.Target
import QuadAsm.Proofs.Asm.Write
import QuadAsm.Proofs.Emit.Assembly
import QuadAsm.Proofs.Parallel
import QuadAsm.Proofs.Refusal

/-!
# What compiling writes

Compiling a program from a file writes nothing if the program is refused, and otherwise all of its
assembly, with one exception. A procedure may be declared without a name, and code that calls it
cannot be written: the work ends at the call, when the data section and the code before the call
are in the output. Main result: `output_whole_unless_nameless_call`.
-/

namespace QuadAsm

open Emit Layout Machine

namespace Source.File

variable {f : File} {p : Program} {options : Options} {schedule : List TaskEvent}

/-- One after the other or side by side, a program is refused as some procedure is. -/
theorem refusal_of_assemblyBy (h : f.build = .ok p) {e : Failure}
    (he : p.assemblyBy options schedule = .error e) :
    ∃ q ∈ p.procedures, ∃ r, q.refusal? = some r ∧ .rejected r = e := by
  have hfail : ∃ q ∈ p.procedures, q.routineIn (.ofProgram p) = .error e := by
    rw [← error?_eq_some, error?_assemblyBy h, error?_eq_some, Program.routinesBy] at he
    split at he
    · obtain ⟨te, hrun, rfl⟩ := mapError_eq_error.1 he
      obtain ⟨cause, hmem, rfl⟩ := Group.failed_of_run hrun
      exact List.mem_map.1 hmem
    · rw [← error?_eq_some, routines, error?_mapM] at he
      obtain ⟨q, hq, hfail⟩ := List.exists_of_findSome?_eq_some he
      exact ⟨q, hq, error?_eq_some.1 hfail⟩
  obtain ⟨q, hq, hfail⟩ := hfail
  rw [← error?_eq_some, error?_routineIn h hq, Option.map_eq_some_iff] at hfail
  exact ⟨q, hq, hfail⟩

/-- Procedures that have code have no faults. -/
theorem not_faulty_of_assemblyBy (h : f.build = .ok p)
    (hall : ∀ i < p.procedures.length, .finish i ∈ schedule) {a : Asm.Assembly}
    (ha : p.assemblyBy options schedule = .ok a) {q : Procedure} (hq : q ∈ p.procedures) :
    ¬ q.Faulty := by
  obtain ⟨rs, hrs⟩ := error?_eq_none.1 ((error?_assemblyBy h options schedule).symm.trans
    (error?_eq_none.2 ⟨a, ha⟩))
  obtain ⟨r, -, hr⟩ := exists_of_forall₂ (Program.forall₂_of_routinesBy hall hrs) hq
  have hnone := (error?_routineIn h hq).symm.trans (error?_eq_none.2 ⟨r, hr⟩)
  exact Procedure.refusal?_eq_none.1 (Option.map_eq_none_iff.1 hnone)

end Source.File

/-- How compiling a program ends, and what is in the output after that. -/
inductive Program.Output (p : Program) (options : Options) (out : Bytes) :
    Except Failure Unit × Bytes → Prop where
  /-- There is no code for some quad, and nothing is written. -/
  | refused {q : Procedure} {index : Nat} {quad : Quad} {fault : Fault}
    (mem : q ∈ p.procedures) (first : q.FirstFault index quad fault) :
    Output p options out (.error (.rejected (q.refusal index quad fault)), out)
  /-- The data section and the functions are written. -/
  | whole {a : Asm.Assembly} {text : Bytes} (faultless : ∀ q ∈ p.procedures, ¬ q.Faulty)
    (named : ∀ q ∈ p.procedures, ¬ q.CallsNameless) (assembled : p.Assembled options a)
    (written : a.text = .ok text) : Output p options out (.ok (), out ++ text)
  /-- The work ends in the middle of the functions. -/
  | cut {a : Asm.Assembly} {part : Bytes} (faultless : ∀ q ∈ p.procedures, ¬ q.Faulty)
    (nameless : ∃ q ∈ p.procedures, q.CallsNameless) (assembled : p.Assembled options a) :
    Output p options out
      (.error (.crashed .emptyArgument), out ++ a.dataSection ++ ".text\n" ++ part)

/-- A program from a file is refused before anything is written, or else all of it is written,
unless a procedure without a name is called. -/
theorem output_whole_unless_nameless_call {f : Source.File} {p : Program} (h : f.build = .ok p)
    (options : Options) {schedule : List TaskEvent}
    (hschedule : Group.Complete p.procedures.length schedule) (out : Bytes) :
    p.Output options out ((Target.x86Linux.generate options schedule p).on out) := by
  show p.Output options out ((p.generate options schedule).on out)
  cases ha : p.assemblyBy options schedule with
  | error e =>
    obtain ⟨q, hq, r, hr, rfl⟩ := Source.File.refusal_of_assemblyBy h ha
    obtain ⟨index, quad, fault, hfirst, rfl⟩ := Procedure.refusal?_eq_some.1 hr
    rw [Program.generate, ha]
    exact .refused hq hfirst
  | ok a =>
    have hall : ∀ i < p.procedures.length, _ := fun i hi => hschedule.finish_mem hi
    have hfaultless : ∀ q ∈ p.procedures, ¬ q.Faulty := fun q hq =>
      Source.File.not_faulty_of_assemblyBy h hall ha hq
    have hassembled := Source.File.assembled_of_assemblyBy h hall ha
    rw [Program.on_generate_of_assemblyBy ha]
    cases htext : a.text with
    | ok text =>
      rw [Asm.Assembly.on_write_of_ok htext]
      refine .whole hfaultless (fun q hq hnameless => ?_) hassembled htext
      rw [(hassembled.text_eq_error h _).2 ⟨rfl, q, hq, hnameless⟩] at htext
      cases htext
    | error c =>
      obtain ⟨rfl, hnameless⟩ := (hassembled.text_eq_error h c).1 htext
      obtain ⟨part, hpart⟩ := Asm.Assembly.on_write_of_error htext out
      rw [hpart]
      exact .cut hfaultless hnameless hassembled

namespace NamelessCall

/-- A procedure without a name that calls itself. -/
def file : Source.File where
  procedures := [{ body := [{ op := "call" }] }]

def nameless : Procedure where
  name := []
  body := [⟨[], .call ⟨[], []⟩⟩]

/-- The program. -/
def program : Program := ⟨[], [], [nameless]⟩

end NamelessCall

open NamelessCall in
/-- The work ends after the data section is written. -/
theorem namelessCall_cut : file.build = .ok program ∧ Group.Complete 1 (Group.inOrder 1) ∧
    ∃ part, (Target.x86Linux.generate {} (Group.inOrder 1) program).on []
      = (.error (.crashed .emptyArgument),
        (".data\n.globl main\n.align 8\n.text\n" : Bytes) ++ part) := by
  have hbuild : file.build = .ok program := by rfl
  have hcomplete := Group.complete_inOrder 1
  refine ⟨hbuild, hcomplete, ?_⟩
  have houtput := output_whole_unless_nameless_call hbuild {} hcomplete []
  generalize (Target.x86Linux.generate {} (Group.inOrder 1) program).on [] = result at houtput ⊢
  have hcalls : nameless.CallsNameless := ⟨_, List.mem_singleton.2 rfl, _, rfl, rfl⟩
  cases houtput with
  | @refused q _ quad _ hq hfirst =>
    have hnone : ∀ quad ∈ nameless.quads, quad.op.fault? = none := by decide
    obtain ⟨hfault, before, after, hquads, -⟩ := hfirst
    obtain rfl := List.mem_singleton.1 hq
    rw [hnone quad (by rw [hquads]; simp)] at hfault
    cases hfault
  | whole _ hnamed => exact (hnamed nameless (List.mem_singleton.2 rfl) hcalls).elim
  | @cut a part _ _ hassembled =>
    have hdata : a.dataSection = ".data\n.globl main\n.align 8\n" := by
      rw [Asm.Assembly.dataSection, hassembled.entry, hassembled.strings, hassembled.globals]
      rfl
    exact ⟨part, by rw [hdata]; rfl⟩

end QuadAsm
