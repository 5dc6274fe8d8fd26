import QuadAsm.Proofs.Asm.Write
import QuadAsm.Proofs.Emit.Program

/-!
# Procedures side by side

Procedures that are compiled side by side give the same functions as one after the other, by
whatever schedule they run: each result goes to the place of its procedure. When some procedure has
no code, the group fails as well, but which failure it keeps depends on the schedule. It is always
one that a procedure has on its own: a task gives up only when another one has failed, so the kept
failure is never that a task gave up (`Group.Honest`). Main result: `every_schedule_agrees`.
-/

namespace QuadAsm

open Emit Layout Machine

namespace Emit.Group

variable {ε α : Type}

/-- An order in which tasks can run: each of them starts once, and later it finishes once. -/
structure Complete (count : Nat) (schedule : List TaskEvent) : Prop where
  perm : schedule.Perm (inOrder count)
  ordered : ∀ i < count, [.start i, .finish i].Sublist schedule

/-- Every task of a complete schedule finishes. -/
theorem Complete.finish_mem {count : Nat} {schedule : List TaskEvent}
    (h : Complete count schedule) {i : Nat} (hi : i < count) : .finish i ∈ schedule :=
  (h.ordered i hi).subset (by simp)

/-- One task after the other is a complete schedule. -/
theorem complete_inOrder (count : Nat) : Complete count (inOrder count) where
  perm := .refl _
  ordered := by
    intro i hi
    obtain ⟨before, after, hsplit⟩ := List.append_of_mem (List.mem_range.2 hi)
    unfold inOrder
    rw [hsplit, List.flatMap_append, List.flatMap_cons]
    exact (List.sublist_append_left _ _).trans (List.sublist_append_right _ _)

/-- A group that keeps only failures of its tasks, and in which a task gave up only after one. -/
structure Honest (tasks : List (Except ε α)) (g : Group ε α) : Prop where
  gaveUp : g.gaveUp ≠ [] → g.failure ≠ none
  failure : ∀ e, g.failure = some e → ∃ cause, .error cause ∈ tasks ∧ e = .failed cause

namespace Honest

variable {tasks : List (Except ε α)} {g : Group ε α}

/-- To begin with nothing is recorded. -/
theorem fresh [Inhabited α] : Honest tasks (fresh tasks.length) := ⟨nofun, nofun⟩

/-- The failure of a task may be kept. -/
theorem keep (h : Honest tasks g) {cause : ε} (hmem : .error cause ∈ tasks) :
    Honest tasks (g.keep (.failed cause)) where
  gaveUp := by simp [Group.keep]
  failure := by
    intro e he
    cases hf : g.failure with
    | some first =>
      rw [Group.keep, hf, Option.some_or] at he
      exact h.failure e (hf.trans he)
    | none =>
      rw [Group.keep, hf, Option.none_or, Option.some.injEq] at he
      exact ⟨cause, hmem, he.symm⟩

/-- That a task gave up is never the first failure. -/
theorem keep_cancelled (h : Honest tasks g) (hgave : g.gaveUp ≠ []) : g.keep .cancelled = g := by
  obtain ⟨first, hf⟩ := Option.ne_none_iff_exists'.1 (h.gaveUp hgave)
  rw [Group.keep, hf, Option.some_or, ← hf]

/-- An event does not change what failures a group keeps. -/
theorem step (h : Honest tasks g) (event : TaskEvent) : Honest tasks (g.step tasks event) := by
  cases event with
  | start i =>
    rw [Group.step]
    split
    · next hf => exact ⟨fun _ => Option.isSome_iff_ne_none.1 hf, h.failure⟩
    · exact h
  | finish i =>
    rw [Group.step]
    split
    · next hi =>
      -- there was a failure before the task gave up, and that one stays
      rw [h.keep_cancelled (List.ne_nil_of_mem hi)]
      exact h
    · split
      · exact ⟨h.gaveUp, h.failure⟩
      · next cause htask => exact h.keep (List.mem_of_getElem? htask)
      · exact h

/-- What a schedule leads to. -/
theorem run (h : Honest tasks g) (schedule : List TaskEvent) :
    Honest tasks (schedule.foldl (Group.step tasks) g) := by
  induction schedule generalizing g with
  | nil => exact h
  | cons event rest ih => exact ih (h.step event)

end Honest

/-- A group fails with the failure of one of its tasks. -/
theorem failed_of_run [Inhabited α] {tasks : List (Except ε α)} {schedule : List TaskEvent}
    {e : TaskError ε} (h : run tasks schedule = .error e) :
    ∃ cause, .error cause ∈ tasks ∧ e = .failed cause := by
  unfold run answer at h
  split at h
  · next e' hf =>
    cases h
    exact (Honest.fresh.run schedule).failure e hf
  · cases h

/-- A group in which every task finishes answers with the results of its tasks, if all of them have
one. -/
theorem run_eq_ok [Inhabited α] {tasks : List (Except ε α)} {schedule : List TaskEvent}
    (hall : ∀ i < tasks.length, .finish i ∈ schedule) {results : List α} :
    run tasks schedule = .ok results ↔ List.Forall₂ (fun t a => t = .ok a) tasks results := by
  refine ⟨fun h => results_of_run h hall, fun h => ?_⟩
  cases hrun : run tasks schedule with
  | error e =>
    obtain ⟨cause, hmem, -⟩ := failed_of_run hrun
    obtain ⟨a, -, ha⟩ := exists_of_forall₂ h hmem
    cases ha
  | ok results' =>
    have hunique : Relator.RightUnique fun (t : Except ε α) a => t = .ok a :=
      fun _ _ _ hb hc => Except.ok.inj (hb.symm.trans hc)
    rw [hunique.forall₂ (results_of_run hrun hall) h]

end Emit.Group

namespace Program

variable {p : Program} {options options' : Options} {schedule : List TaskEvent}

/-- If every task is finished, the routines are those of the procedures, in their order. -/
theorem routinesBy_eq_ok (hall : ∀ i < p.procedures.length, .finish i ∈ schedule)
    {g : Globals} {rs : List Routine} :
    p.routinesBy options schedule g = .ok rs ↔
      List.Forall₂ (fun q r => q.routineIn g = .ok r) p.procedures rs := by
  refine ⟨fun h => forall₂_of_routinesBy hall h, fun h => ?_⟩
  unfold routinesBy
  split
  · rw [mapError_eq_ok, routinesBySchedule, Group.run_eq_ok fun i hi => hall i (by simpa using hi),
      List.forall₂_map_left_iff]
    exact h
  · exact mapM_eq_ok.2 h

/-- A program with assembly has the same one by every schedule in which all procedures finish. -/
theorem assemblyBy_of_assembly {a : Asm.Assembly} (h : p.assembly options = .ok a)
    (hsymbol : options'.symbol = options.symbol)
    (hall : ∀ i < p.procedures.length, .finish i ∈ schedule) :
    p.assemblyBy options' schedule = .ok a := by
  obtain ⟨g, hg, h⟩ := bind_eq_ok.1 h
  obtain ⟨rs, hrs, h⟩ := bind_eq_ok.1 h
  cases pure_eq_ok.1 h
  have hrs' : p.routinesBy options' schedule g = .ok rs :=
    (routinesBy_eq_ok hall).2 ((routinesBy_eq_ok fun _ hi => Group.finish_mem_inOrder hi).1 hrs)
  rw [assemblyBy, hg, ok_bind, hrs', ok_bind, hsymbol]
  rfl

/-- The text of a program does not depend on whether its procedures are compiled side by side. -/
theorem compile_of_compile {text : Bytes} (h : p.compile options = .ok text)
    (hsymbol : options'.symbol = options.symbol) : p.compile options' = .ok text := by
  obtain ⟨a, ha, h⟩ := bind_eq_ok.1 h
  have ha' : p.assembly options' = .ok a :=
    assemblyBy_of_assembly ha hsymbol fun _ hi => Group.finish_mem_inOrder hi
  rw [compile, ha', ok_bind, h]

/-- What is written is the assembly, if there is one. -/
theorem on_generate_of_assemblyBy {a : Asm.Assembly} (h : p.assemblyBy options schedule = .ok a)
    (out : Bytes) : (p.generate options schedule).on out
      = ((a.write.on out).1.mapError .crashed, (a.write.on out).2) := by
  rw [generate, h]
  rfl

/-- What is written without a failure, one procedure after the other, is the text. -/
theorem compile_of_on_generate {text : Bytes}
    (h : (p.generate options (Group.inOrder p.procedures.length)).on [] = (.ok (), text)) :
    p.compile options = .ok text := by
  cases ha : p.assembly options with
  | error e =>
    have hgenerate : (p.generate options (Group.inOrder p.procedures.length)).on []
        = (.error e, []) := by
      have hassembly : p.assemblyBy options (Group.inOrder p.procedures.length) = .error e := ha
      rw [generate, hassembly]
      rfl
    cases hgenerate.symm.trans h
  | ok a =>
    rw [on_generate_of_assemblyBy ha] at h
    rw [compile, ha, ok_bind]
    cases htext : a.text with
    | ok text' =>
      rw [Asm.Assembly.on_write_of_ok htext] at h
      cases h
      rfl
    | error c =>
      obtain ⟨part, hpart⟩ := Asm.Assembly.on_write_of_error htext []
      rw [hpart] at h
      cases h

/-- The text is what is written, by every complete schedule. -/
theorem on_generate_of_compile {text : Bytes} (h : p.compile options = .ok text)
    (hsymbol : options'.symbol = options.symbol)
    (hschedule : Group.Complete p.procedures.length schedule) (out : Bytes) :
    (p.generate options' schedule).on out = (.ok (), out ++ text) := by
  obtain ⟨a, ha, h⟩ := bind_eq_ok.1 h
  have ha' := assemblyBy_of_assembly ha hsymbol fun _ hi => hschedule.finish_mem hi
  have hwrite := Asm.Assembly.on_write_of_ok (liftM_crash_eq_ok.1 h) out
  rw [on_generate_of_assemblyBy ha', hwrite]
  rfl

end Program

/-- By every complete schedule, a group of procedures answers with the functions that they have one
after the other, if all of them have code. Otherwise it fails, with what some procedure that has no
code fails with on its own.

A crash is one of these failures. It is the answer of the group here; a process in which a task
crashes dies at that point, and there is no answer, of the group or of any other task. -/
theorem every_schedule_agrees (globals : Globals) (ps : List Procedure)
    {schedule : List TaskEvent} (hschedule : Group.Complete ps.length schedule) :
    (∀ rs, routinesBySchedule globals ps schedule = .ok rs ↔ routines globals ps = .ok rs) ∧
      ∀ e, routines globals ps = .error e →
        ∃ q ∈ ps, ∃ cause, q.routine globals = .error cause ∧
          routinesBySchedule globals ps schedule
            = .error (.failed (cause.within (.inProcedure q.name))) := by
  have hok : ∀ rs,
      routinesBySchedule globals ps schedule = .ok rs ↔ routines globals ps = .ok rs := by
    intro rs
    rw [routines, mapM_eq_ok, routinesBySchedule,
      Group.run_eq_ok fun i hi => hschedule.finish_mem (by simpa using hi),
      List.forall₂_map_left_iff]
  refine ⟨hok, fun e he => ?_⟩
  cases hrun : routinesBySchedule globals ps schedule with
  | ok rs =>
    rw [(hok rs).1 hrun] at he
    cases he
  | error e' =>
    obtain ⟨cause', hmem, rfl⟩ := Group.failed_of_run hrun
    obtain ⟨q, hq, hfail⟩ := List.mem_map.1 hmem
    obtain ⟨cause, hcause, rfl⟩ := mapError_eq_error.1 hfail
    exact ⟨q, hq, cause, hcause, rfl⟩

namespace Rivals

def fine : Procedure where
  name := "fine"

def early : Procedure where
  name := "early"
  body := [⟨[], .mayhem (.lit (.int 1))⟩]

def late : Procedure where
  name := "late"
  body := [⟨[], .getRet (.lit (.int 1))⟩]

/-- The last procedure fails first, while one is at work and one has not started. -/
def schedule : List TaskEvent :=
  [.start 2, .start 0, .finish 2, .start 1, .finish 0, .finish 1]

end Rivals

open Rivals in
/-- Side by side, another failure may be kept than one after the other. -/
theorem rivals_fail : Group.Complete 3 schedule ∧
    ∃ e, routines {} [fine, early, late] = .error e ∧
      ∃ q ∈ [fine, early, late], ∃ cause, q.routine {} = .error cause ∧
        routinesBySchedule {} [fine, early, late] schedule
          = .error (.failed (cause.within (.inProcedure q.name))) ∧
        cause.within (.inProcedure q.name) ≠ e := by
  have hcomplete : Group.Complete 3 schedule := ⟨by decide, by decide⟩
  refine ⟨hcomplete, _, rfl, ?_⟩
  obtain ⟨q, hq, cause, hcause, hrun⟩ :=
    (every_schedule_agrees {} [fine, early, late] hcomplete).2 _ rfl
  refine ⟨q, hq, cause, hcause, hrun, fun he => ?_⟩
  rw [he] at hrun
  cases hrun

end QuadAsm
