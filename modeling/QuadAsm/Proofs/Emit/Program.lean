import QuadAsm.Emit.Program
import QuadAsm.Proofs.Layout
import QuadAsm.Proofs.Machine.Process
import QuadAsm.Proofs.Meaning
import QuadAsm.Proofs.Outcome
import QuadAsm.Proofs.Source.Build

/-!
# Where the code of quads stands

A program that has assembly has code for each of its procedures (`Program.compiled_of_assembly`),
whether they were compiled one after the other or side by side. The code of a procedure is the code
of its quads without gaps, and a label stands in front of the code of the quad it marks
(`Emit.Laid.placed_ofItems`).
-/

namespace QuadAsm

open Layout Machine

/-! ## Groups of tasks -/

namespace Emit.Group

variable {ε α : Type}

/-- A failure is not forgotten. -/
theorem failure_of_step {tasks : List (Except ε α)} {g : Group ε α} {event : TaskEvent}
    (h : (g.step tasks event).failure = none) : g.failure = none := by
  cases event with
  | start i =>
    rw [step] at h
    split at h
    · exact h
    · exact h
  | finish i =>
    rw [step] at h
    split at h
    · simp [keep] at h
    · split at h
      · exact h
      · simp [keep] at h
      · exact h

/-- A group in which nothing has failed, after some events: no task has given up, and the results of
the tasks that finished are in their places. -/
structure Collected (tasks : List (Except ε α)) (events : List TaskEvent) (g : Group ε α) :
    Prop where
  gaveUp : g.gaveUp = []
  length : g.results.length = tasks.length
  result : ∀ i t, .finish i ∈ events → tasks[i]? = some t →
    ∃ a, t = .ok a ∧ g.results[i]? = some a

namespace Collected

variable {tasks : List (Except ε α)} {events : List TaskEvent} {g : Group ε α}

/-- To begin with no task is done. -/
theorem fresh [Inhabited α] (tasks : List (Except ε α)) :
    Collected tasks [] (fresh tasks.length) := ⟨rfl, List.length_replicate, nofun⟩

/-- A task that finishes brings its result, unless it is the one that fails. -/
theorem step (h : Collected tasks events g) {event : TaskEvent}
    (hnone : (g.step tasks event).failure = none) :
    Collected tasks (events ++ [event]) (g.step tasks event) := by
  have hg := failure_of_step hnone
  cases event with
  | start i =>
    rw [Group.step, if_neg (by simp [hg])]
    exact ⟨h.gaveUp, h.length, fun j t hj => h.result j t (by simpa using hj)⟩
  | finish i =>
    rw [Group.step, if_neg (by simp [h.gaveUp])] at hnone ⊢
    cases htask : tasks[i]? with
    | none =>
      refine ⟨h.gaveUp, h.length, fun j t hj ht => h.result j t ?_ ht⟩
      rcases List.mem_append.1 hj with hj | hj
      · exact hj
      · cases List.mem_singleton.1 hj
        rw [htask] at ht
        cases ht
    | some task =>
      rw [htask] at hnone
      cases task with
      | error cause => simp [keep] at hnone
      | ok a =>
        refine ⟨h.gaveUp, (List.length_set ..).trans h.length, fun j t hj ht => ?_⟩
        by_cases hji : j = i
        · subst hji
          have hlt : j < g.results.length := h.length ▸ (List.getElem?_eq_some_iff.1 htask).1
          rw [htask] at ht
          exact ⟨a, (Option.some.inj ht).symm, List.getElem?_set_self hlt⟩
        · have hbefore : .finish j ∈ events := by simpa [hji] using hj
          obtain ⟨b, hb, hr⟩ := h.result j t hbefore ht
          exact ⟨b, hb, (List.getElem?_set_ne (Ne.symm hji)).trans hr⟩

/-- What a schedule leads to, if nothing fails. -/
theorem run [Inhabited α] (schedule : List TaskEvent)
    (hnone : (schedule.foldl (Group.step tasks) (Group.fresh tasks.length)).failure = none) :
    Collected tasks schedule (schedule.foldl (Group.step tasks) (Group.fresh tasks.length)) := by
  induction schedule using List.reverseRecOn with
  | nil => exact .fresh tasks
  | append_singleton before event ih =>
    rw [List.foldl_concat] at hnone ⊢
    exact (ih (failure_of_step hnone)).step hnone

end Collected

/-- A group that answers with results has those of all its tasks, if all of them finish. -/
theorem results_of_run [Inhabited α] {tasks : List (Except ε α)} {schedule : List TaskEvent}
    {results : List α} (h : run tasks schedule = .ok results)
    (hall : ∀ i < tasks.length, .finish i ∈ schedule) :
    List.Forall₂ (fun t a => t = .ok a) tasks results := by
  unfold run answer at h
  split at h
  · cases h
  · next hnone =>
    cases h
    obtain ⟨-, hlen, hres⟩ := Collected.run schedule hnone
    refine List.forall₂_iff_get.2 ⟨hlen.symm, fun i hi hi' => ?_⟩
    obtain ⟨a, ha, hr⟩ := hres i _ (hall i hi) (List.getElem?_eq_getElem hi)
    simp only [List.get_eq_getElem]
    rw [ha, ← Option.some.inj ((List.getElem?_eq_getElem hi').symm.trans hr)]

/-- In the plain order every task is finished. -/
theorem finish_mem_inOrder {n i : Nat} (hi : i < n) : .finish i ∈ inOrder n := by
  unfold inOrder
  rw [List.mem_flatMap]
  exact ⟨i, List.mem_range.2 hi, by simp⟩

end Emit.Group

/-! ## Procedures of a program -/

/-- A procedure of a program and its code. -/
structure Emit.Compiled (p : Program) (q : Procedure) (ctx : Context) (r : Routine) : Prop where
  globals : Globals.assign p = .ok ctx.globals
  frame : Frame.assign q = .ok ctx.frame
  arity : ctx.arity = q.formals.length
  name : r.name = q.name
  items : q.itemsIn ctx = .ok r.items

/-- In a program from a file, no global is a pointer. -/
theorem Emit.Compiled.form_ne_pointer {f : Source.File} {p : Program} {q : Procedure}
    {ctx : Context} {r : Routine} (hc : Compiled p q ctx r) (hbuild : f.build = .ok p) :
    ∀ v ∈ ctx.globals.vars, v.form ≠ .pointer := by
  intro v hv
  rw [(Globals.of_assign hc.globals).1] at hv
  simp [Source.File.form_of_mem_globals hbuild hv]

/-- What was compiled as a part of a program. -/
theorem Procedure.compiled_of_routineIn {p : Program} {g : Globals} {q : Procedure} {r : Routine}
    (hg : Globals.assign p = .ok g) (h : q.routineIn g = .ok r) :
    ∃ ctx, ctx.globals = g ∧ Emit.Compiled p q ctx r := by
  obtain ⟨frame, hf, h⟩ := bind_eq_ok.1 (mapError_eq_ok.1 h)
  obtain ⟨items, hi, h⟩ := bind_eq_ok.1 h
  cases pure_eq_ok.1 h
  exact ⟨⟨g, frame, q.formals.length⟩, rfl,
    ⟨hg, Emit.liftM_rejection_eq_ok.1 hf, rfl, rfl, hi⟩⟩

/-- Procedures that were compiled one by one or side by side. -/
theorem Program.forall₂_of_routinesBy {p : Program} {options : Emit.Options}
    {schedule : List Emit.TaskEvent} {g : Globals} {rs : List Routine}
    (hall : ∀ i < p.procedures.length, .finish i ∈ schedule)
    (h : p.routinesBy options schedule g = .ok rs) :
    List.Forall₂ (fun q r => q.routineIn g = .ok r) p.procedures rs := by
  unfold Program.routinesBy at h
  split at h
  · have h := Emit.Group.results_of_run (mapError_eq_ok.1 h) fun i hi => hall i (by simpa using hi)
    exact List.forall₂_map_left_iff.1 h
  · exact mapM_eq_ok.1 h

/-- Procedures that were compiled in their order. -/
theorem Program.forall₂_of_routines {p : Program} {options : Emit.Options} {g : Globals}
    {rs : List Routine} (h : p.routines options g = .ok rs) :
    List.Forall₂ (fun q r => q.routineIn g = .ok r) p.procedures rs :=
  Program.forall₂_of_routinesBy (fun _ hi => Emit.Group.finish_mem_inOrder hi) h

/-- What an assembly consists of, whatever the schedule is. -/
theorem Program.parts_of_assemblyBy {p : Program} {options : Emit.Options}
    {schedule : List Emit.TaskEvent} (hall : ∀ i < p.procedures.length, .finish i ∈ schedule)
    {a : Asm.Assembly} (h : p.assemblyBy options schedule = .ok a) :
    ∃ g rs, Globals.assign p = .ok g ∧
      a = { entry := options.symbol
            strings := g.labelledStrings.map fun (label, text) => ⟨label, text⟩
            globals := g.vars.map fun v => ⟨globalLabel v.name, v.width⟩
            functions := rs.map Routine.function } ∧
      List.Forall₂ (fun q r => ∃ ctx : Emit.Context, ctx.globals = g ∧ Emit.Compiled p q ctx r)
        p.procedures rs := by
  obtain ⟨g, hg, h⟩ := bind_eq_ok.1 h
  obtain ⟨rs, hrs, h⟩ := bind_eq_ok.1 h
  cases pure_eq_ok.1 h
  have hg := Emit.liftM_rejection_eq_ok.1 hg
  refine ⟨g, rs, hg, rfl, ?_⟩
  exact (Program.forall₂_of_routinesBy hall hrs).imp fun q r hr =>
    Procedure.compiled_of_routineIn hg hr

/-- In a program that has assembly, every procedure has code. -/
theorem Program.compiled_of_assembly {p : Program} {options : Emit.Options} {a : Asm.Assembly}
    (h : p.assembly options = .ok a) :
    ∃ g rs, Globals.assign p = .ok g ∧ a.functions = rs.map Routine.function ∧
      List.Forall₂ (fun q r => ∃ ctx : Emit.Context, ctx.globals = g ∧ Emit.Compiled p q ctx r)
        p.procedures rs := by
  obtain ⟨g, rs, hg, rfl, hall⟩ :=
    Program.parts_of_assemblyBy (fun _ hi => Emit.Group.finish_mem_inOrder hi) h
  exact ⟨g, rs, hg, rfl, hall⟩

/-! ## Positions -/

namespace Machine

@[simp] theorem instructions_append (a b : List Item) :
    instructions (a ++ b) = instructions a ++ instructions b :=
  List.filterMap_append

@[simp] theorem instructions_comment (text : Bytes) (items : List Item) :
    instructions (.comment text :: items) = instructions items := rfl

@[simp] theorem labelPosition_comment (l text : Bytes) (items : List Item) :
    labelPosition l (.comment text :: items) = labelPosition l items := rfl

/-- A label is found in the first part, or else in the second. -/
theorem labelPosition_append (l : Bytes) (a b : List Item) :
    labelPosition l (a ++ b)
      = (labelPosition l a).or ((labelPosition l b).map ((instructions a).length + ·)) := by
  induction a with
  | nil => simp [labelPosition, instructions]
  | cons item rest ih =>
    cases item with
    | label name =>
      simp only [List.cons_append, labelPosition]
      split
      · rfl
      · exact ih
    | comment text => exact ih
    | instr i =>
      simp only [List.cons_append, labelPosition, ih]
      cases labelPosition l rest with
      | some n => rfl
      | none =>
        cases labelPosition l b with
        | none => rfl
        | some n =>
          simp only [Option.none_or, Option.map_some, Option.some.injEq, Option.map_none]
          exact Nat.add_right_comm _ n 1

/-- Labels are no instructions. -/
theorem instructions_labels (names : List Bytes) : instructions (names.map .label) = [] := by
  induction names with
  | nil => rfl
  | cons l rest ih => exact ih

/-- The instructions of code without labels. -/
theorem instructions_code (code : List Instr) : instructions (code.map .instr) = code := by
  induction code with
  | nil => rfl
  | cons i rest ih => exact congrArg (i :: ·) ih

/-- A label in a row of labels is at the start. -/
theorem labelPosition_labels (l : Bytes) (names : List Bytes) :
    labelPosition l (names.map .label) = if l ∈ names then some 0 else none := by
  induction names with
  | nil => rfl
  | cons name rest ih =>
    simp only [List.map_cons, labelPosition, ih, List.mem_cons, eq_comm (a := l)]
    by_cases h : name = l <;> simp [h]

/-- There are no labels between instructions. -/
theorem labelPosition_code (l : Bytes) (code : List Instr) :
    labelPosition l (code.map .instr) = none := by
  induction code with
  | nil => rfl
  | cons i rest ih => simp [labelPosition, ih]

/-- How many instructions stand before block number `k`. -/
def start (blocks : List (List Instr)) (k : Nat) : Nat := (blocks.take k).flatten.length

/-- A block starts within the code. -/
theorem start_le (blocks : List (List Instr)) (k : Nat) :
    start blocks k ≤ blocks.flatten.length := by
  conv => rhs; rw [← List.take_append_drop k blocks, List.flatten_append, List.length_append]
  exact Nat.le_add_right _ _

/-- Behind the last block the code ends. -/
theorem start_length (blocks : List (List Instr)) :
    start blocks blocks.length = blocks.flatten.length := by
  rw [start, List.take_length]

/-- A block of the first part starts where it does there. -/
theorem start_append_left {a b : List (List Instr)} {k : Nat} (h : k ≤ a.length) :
    start (a ++ b) k = start a k := by
  rw [start, List.take_append_of_le_length h, start]

/-- Blocks after block number `k` are counted from there. -/
theorem start_add (blocks : List (List Instr)) (k n : Nat) :
    start blocks (k + n) = start blocks k + start (blocks.drop k) n := by
  rw [start, List.take_add, List.flatten_append, List.length_append, start, start]

/-- A block of the second part starts behind the first part. -/
theorem start_append_right (a b : List (List Instr)) (k : Nat) :
    start (a ++ b) (k + a.length) = a.flatten.length + start b k := by
  rw [Nat.add_comm, start_add, start_append_left (Nat.le_refl _), start_length, List.drop_left]

/-- The next block stands where a block ends. -/
theorem start_succ {blocks : List (List Instr)} {k : Nat} {block : List Instr}
    (h : blocks[k]? = some block) : start blocks (k + 1) = start blocks k + block.length := by
  simp [start, List.take_add_one, h]

/-- Blocks in a row stand where they start. -/
theorem Image.Holds.drop {img : Image} {n : Nat} {blocks : List (List Instr)}
    (h : img.Holds n blocks.flatten) (k : Nat) :
    img.Holds (n + start blocks k) (blocks.drop k).flatten := by
  rw [← List.take_append_drop k blocks, List.flatten_append] at h
  exact h.right

/-- A block stands where it starts. -/
theorem Image.Holds.block {img : Image} {n : Nat} {blocks : List (List Instr)}
    (h : img.Holds n blocks.flatten) {k : Nat} {block : List Instr}
    (hk : blocks[k]? = some block) : img.Holds (n + start blocks k) block := by
  obtain ⟨hlt, rfl⟩ := List.getElem?_eq_some_iff.1 hk
  have hdrop := h.drop k
  rw [List.drop_eq_getElem_cons hlt, List.flatten_cons] at hdrop
  exact hdrop.left

end Machine

namespace Emit

/-- Lines that hold one block of code for each quad, with labels in front of the blocks of the quads
that they mark. -/
structure Laid (ctx : Context) (items : List Item) (quads : List Quad)
    (blocks : List (List Instr)) : Prop where
  code : List.Forall₂ (fun quad block => ctx.codeOf quad.op = .ok block) quads blocks
  instructions : instructions items = blocks.flatten
  label : ∀ l, labelPosition l items = (quads.findIdx? (l ∈ ·.labels)).map (start blocks)

namespace Laid

variable {ctx : Context} {a b : List Item} {qs qs' : List Quad} {bs bs' : List (List Instr)}

theorem nil (ctx : Context) : Laid ctx [] [] [] := ⟨.nil, rfl, fun _ => rfl⟩

/-- Comments may stand anywhere. -/
theorem comment (text : Bytes) (h : Laid ctx a qs bs) : Laid ctx (.comment text :: a) qs bs :=
  ⟨h.code, h.instructions, h.label⟩

/-- Code of two parts is laid out part by part. -/
theorem append (h : Laid ctx a qs bs) (h' : Laid ctx b qs' bs') :
    Laid ctx (a ++ b) (qs ++ qs') (bs ++ bs') := by
  have hlen : qs.length = bs.length := h.code.length_eq
  refine ⟨List.rel_append h.code h'.code, ?_, fun l => ?_⟩
  · rw [instructions_append, h.instructions, h'.instructions, List.flatten_append]
  · rw [labelPosition_append, h.label, h'.label, h.instructions, List.findIdx?_append]
    cases hk : qs.findIdx? (l ∈ ·.labels) with
    | some k =>
      have hlt : k < qs.length := (List.findIdx?_eq_some_iff_getElem.1 hk).1
      simp [start_append_left (Nat.le_of_lt (hlen ▸ hlt))]
    | none =>
      cases qs'.findIdx? (l ∈ ·.labels) with
      | none => rfl
      | some k => simp [hlen, start_append_right]

end Laid

end Emit

/-! ## Lines -/

/-- The lines of a quad, given its instructions. -/
def Quad.items (quad : Quad) (block : List Instr) : List Item :=
  quad.labels.map .label ++ .comment quad.text :: block.map .instr

namespace Emit.Context

variable {ctx : Context}

/-- The lines of a quad are its labels and its code. -/
theorem items_of_quadItems {i : Nat} {quad : Quad} {items : List Item}
    (h : ctx.quadItems i quad = .ok items) :
    ∃ block, ctx.codeOf quad.op = .ok block ∧ items = quad.items block := by
  unfold quadItems at h
  split at h
  · next block hblock =>
    cases h
    exact ⟨block, hblock, rfl⟩
  · cases h

/-- The lines of a body are those of its quads in order. -/
theorem items_of_bodyItems {i : Nat} {quads : List Quad} {items : List Item}
    (h : ctx.bodyItems i quads = .ok items) :
    ∃ blocks, List.Forall₂ (fun quad block => ctx.codeOf quad.op = .ok block) quads blocks ∧
      items = (quads.zip blocks).flatMap fun (quad, block) => quad.items block := by
  induction quads generalizing i items with
  | nil =>
    cases h
    exact ⟨[], .nil, rfl⟩
  | cons quad rest ih =>
    obtain ⟨first, hfirst, h⟩ := bind_eq_ok.1 h
    obtain ⟨others, hothers, h⟩ := bind_eq_ok.1 h
    cases pure_eq_ok.1 h
    obtain ⟨block, hblock, rfl⟩ := items_of_quadItems hfirst
    obtain ⟨blocks, hblocks, rfl⟩ := ih hothers
    exact ⟨block :: blocks, .cons hblock hblocks, rfl⟩

/-- The lines of a quad lay out its code. -/
theorem laid_quad {quad : Quad} {block : List Instr} (h : ctx.codeOf quad.op = .ok block) :
    Laid ctx (quad.items block) [quad] [block] := by
  refine ⟨.cons h .nil, ?_, fun l => ?_⟩
  · rw [Quad.items, instructions_append, instructions_labels, instructions_comment,
      instructions_code]
    simp
  · rw [Quad.items, labelPosition_append, labelPosition_labels, labelPosition_comment,
      labelPosition_code]
    by_cases hl : l ∈ quad.labels <;> simp [hl, start, List.findIdx?_cons]

/-- So do the lines of a body. -/
theorem laid_body {quads : List Quad} {blocks : List (List Instr)}
    (h : List.Forall₂ (fun quad block => ctx.codeOf quad.op = .ok block) quads blocks) :
    Laid ctx ((quads.zip blocks).flatMap fun (quad, block) => quad.items block) quads blocks := by
  induction h with
  | nil => exact .nil ctx
  | cons hblock _ ih => exact (laid_quad hblock).append ih

end Emit.Context

/-- The lines of a procedure: those of the quad that enters, of the body and of the quad that
leaves, each behind a remark. -/
theorem Procedure.exists_of_itemsIn {q : Procedure} {ctx : Emit.Context} {items : List Item}
    (h : q.itemsIn ctx = .ok items) :
    ∃ enter blocks leave, ctx.codeOf q.enter.op = .ok enter ∧
      List.Forall₂ (fun quad block => ctx.codeOf quad.op = .ok block) q.body blocks ∧
      ctx.codeOf q.leave.op = .ok leave ∧
      items = .comment ("frame size: " ++ Bytes.ofInt ctx.frame.size ++ " bytes") ::
          q.enter.items enter
        ++ .comment ("Fn body " ++ q.name) ::
          ((q.body.zip blocks).flatMap fun (quad, block) => quad.items block)
        ++ .comment ("Fn epilogue " ++ q.name) :: q.leave.items leave := by
  obtain ⟨first, hfirst, h⟩ := bind_eq_ok.1 h
  obtain ⟨body, hbody, h⟩ := bind_eq_ok.1 h
  obtain ⟨last, hlast, h⟩ := bind_eq_ok.1 h
  cases pure_eq_ok.1 h
  obtain ⟨enter, henter, rfl⟩ := Emit.Context.items_of_quadItems hfirst
  obtain ⟨blocks, hblocks, rfl⟩ := Emit.Context.items_of_bodyItems hbody
  obtain ⟨leave, hleave, rfl⟩ := Emit.Context.items_of_quadItems hlast
  exact ⟨enter, blocks, leave, henter, hblocks, hleave, rfl⟩

/-- The lines of a procedure hold the blocks of its quads. -/
theorem Procedure.laid_of_itemsIn {q : Procedure} {ctx : Emit.Context} {items : List Item}
    (h : q.itemsIn ctx = .ok items) : ∃ blocks, Emit.Laid ctx items q.quads blocks := by
  obtain ⟨enter, blocks, leave, henter, hblocks, hleave, rfl⟩ := q.exists_of_itemsIn h
  have hstart := (Emit.Context.laid_quad henter).comment
    ("frame size: " ++ Bytes.ofInt ctx.frame.size ++ " bytes")
  have hbody := (Emit.Context.laid_body hblocks).comment ("Fn body " ++ q.name)
  have hfinish := (Emit.Context.laid_quad hleave).comment ("Fn epilogue " ++ q.name)
  exact ⟨_, (hstart.append hbody).append hfinish⟩

/-! ## Procedures in an image -/

/-- A procedure whose code stands in an image from position `n` on, one block for each quad. -/
structure Procedure.Placed (q : Procedure) (ctx : Emit.Context) (img : Image) (n : Nat)
    (blocks : List (List Instr)) : Prop where
  code : List.Forall₂ (fun quad block => ctx.codeOf quad.op = .ok block) q.quads blocks
  holds : img.Holds n blocks.flatten
  label : ∀ l k, q.labelled? l = some k → img.label l = some (n + start blocks k)

section
variable {q : Procedure} {ctx : Emit.Context} {items : List Item} {blocks : List (List Instr)}

/-- In the lines of a procedure alone, the symbols are its labels. -/
theorem Emit.Laid.symbol_ofItems (h : Emit.Laid ctx items q.quads blocks) (l : Bytes) :
    (Image.ofItems items).symbol l = (q.labelled? l).map (start blocks) :=
  h.label l

/-- The lines of a procedure alone. -/
theorem Emit.Laid.placed_ofItems (h : Emit.Laid ctx items q.quads blocks) :
    q.Placed ctx (Image.ofItems items) 0 blocks := by
  refine ⟨h.code, ?_, fun l k hk => ?_⟩
  · show blocks.flatten <+: Machine.instructions items
    rw [h.instructions]
  · have hlabel := h.label l
    rw [← Procedure.labelled?, hk] at hlabel
    rw [Nat.zero_add]
    exact hlabel

end

namespace Procedure.Placed

variable {q : Procedure} {ctx : Emit.Context} {img : Image} {n : Nat} {blocks : List (List Instr)}

/-- The block of a quad. -/
theorem block (h : q.Placed ctx img n blocks) {k : Nat} {quad : Quad}
    (hk : q.quads[k]? = some quad) :
    ∃ block, blocks[k]? = some block ∧ ctx.codeOf quad.op = .ok block ∧
      img.Holds (n + start blocks k) block := by
  obtain ⟨hlt, rfl⟩ := List.getElem?_eq_some_iff.1 hk
  have hlt' : k < blocks.length := h.code.length_eq ▸ hlt
  have hblock := List.getElem?_eq_getElem hlt'
  exact ⟨blocks[k], hblock, (List.forall₂_iff_get.1 h.code).2 k hlt hlt', h.holds.block hblock⟩

end Procedure.Placed

end QuadAsm
