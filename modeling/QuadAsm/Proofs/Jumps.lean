import QuadAsm.Proofs.Parallel
import QuadAsm.Proofs.Symbols

/-!
# Where jumps land

Every label of a file is attached to the quad it is listed at, and to no other. In the assembly, a
jump names a label that stands on one line of one function, and the lines from there to the comment
of the quad are the labels that are listed behind it (`jumps_land`).
-/

namespace QuadAsm

open Emit Layout Machine

/-! ## Errors -/

section
variable {ε α β : Type}

/-- A sequence of two computations fails when the first does, or else the second. -/
theorem bind_eq_error {x : Except ε α} {f : α → Except ε β} {e : ε} :
    x >>= f = .error e ↔ x = .error e ∨ ∃ a, x = .ok a ∧ f a = .error e := by
  cases x <;> simp

/-- A traversal fails where one of its steps does. -/
theorem exists_of_mapM_eq_error {f : α → Except ε β} {l : List α} {e : ε}
    (h : l.mapM f = .error e) : ∃ a ∈ l, f a = .error e := by
  rw [← error?_eq_some, error?_mapM] at h
  obtain ⟨a, ha, he⟩ := List.exists_of_findSome?_eq_some h
  exact ⟨a, ha, error?_eq_some.1 he⟩

end

namespace Source

/-- An error that says where it is. -/
def BuildError.IsPlaced (e : BuildError) : Prop := ∃ spot cause, e = .within spot cause

/-- A failure that was given a place has one. -/
theorem isPlaced_of_placing {α : Type} {spot : Spot} {r : Except BuildError α} {e : BuildError}
    (h : placing spot r = .error e) : e.IsPlaced := by
  obtain ⟨cause, -, rfl⟩ := mapError_eq_error.1 h
  exact ⟨spot, cause, rfl⟩

/-- The check of the globals says where it fails. -/
theorem isPlaced_of_checkGlobals {seen : List Bytes} {ds : List SymbolDecl} {e : BuildError}
    (h : checkGlobals seen ds = .error e) : e.IsPlaced := by
  induction ds generalizing seen with
  | nil => cases h
  | cons d rest ih =>
    rcases bind_eq_error.1 h with h | ⟨_, -, h⟩
    · exact isPlaced_of_placing h
    · split at h
      · cases h
        exact ⟨_, _, rfl⟩
      · exact ih h

/-- So does the check of the procedures. -/
theorem isPlaced_of_checkProcedures {seen : List Bytes} {ds : List ProcedureDecl} {e : BuildError}
    (h : checkProcedures seen ds = .error e) : e.IsPlaced := by
  induction ds generalizing seen with
  | nil => cases h
  | cons d rest ih =>
    rw [checkProcedures] at h
    split at h
    · cases h
      exact ⟨_, _, rfl⟩
    · exact ih h

/-- So does the check of the labels. -/
theorem isPlaced_of_checkLabels {seen : List Bytes} {ls : List (Bytes × Bytes)} {e : BuildError}
    (h : checkLabels seen ls = .error e) : e.IsPlaced := by
  induction ls generalizing seen with
  | nil => cases h
  | cons l rest ih =>
    rw [checkLabels] at h
    split at h
    · cases h
      exact ⟨_, _, rfl⟩
    · exact ih h

/-- Whatever is wrong with a file, the error says where. Attaching labels never fails: it would say
which quad has the label. -/
theorem File.isPlaced_of_build {f : File} {e : BuildError} (h : f.build = .error e) :
    e.IsPlaced := by
  rcases bind_eq_error.1 h with h | ⟨_, -, h⟩
  · exact isPlaced_of_checkGlobals h
  rcases bind_eq_error.1 h with h | ⟨_, -, h⟩
  · exact isPlaced_of_checkProcedures h
  rcases bind_eq_error.1 h with h | ⟨⟨⟩, hlabels, h⟩
  · exact isPlaced_of_checkLabels h
  rcases bind_eq_error.1 h with h | ⟨ps, -, h⟩
  · obtain ⟨x, -, h⟩ := exists_of_mapM_eq_error h
    exact isPlaced_of_placing h
  · rw [attachAll_labelled hlabels] at h
    cases h

/-- The target of a jump is a label of the file. -/
theorem File.target_of_mem_body {f : File} {p : Program} (h : f.build = .ok p) {q : Procedure}
    (hq : q ∈ p.procedures) {quad : Quad} (hquad : quad ∈ q.body) {l : Bytes}
    (hop : quad.op = .goto (some l) ∨ ∃ cond, quad.op = .ifZero cond (some l)) :
    l ≠ [] ∧ l ∈ f.procedures.flatMap (·.labels) := by
  obtain ⟨i, hi⟩ := List.mem_iff_getElem?.1 hq
  obtain ⟨d, start, -, hbody⟩ := body_steps h hi
  obtain ⟨decl, -, hdecl⟩ := exists_of_forall₂ hbody.flip hquad
  obtain ⟨code, -, hmakes⟩ := QuadDecl.makes_of_meaning hdecl
  have hlabel : (f.scope (d.owned start)).reading.label l := by
    rcases hop with hop | ⟨cond, hop⟩ <;> rw [hop] at hmakes <;> cases hmakes <;> assumption
  exact ⟨hlabel.1, f.map_snd_labels ▸ hlabel.2⟩

end Source

/-! ## Jumps -/

/-- Only jumps are written as jumps. -/
theorem Machine.Item.jump_of_line {item : Item}
    (h : item.line.op = "jmp" ∨ item.line.op = "je") :
    ∃ l, item = .instr (.jump l) ∨ item = .instr (.jumpIfEqual l) := by
  cases item with
  | label | comment => simp +decide [Item.line] at h
  | instr i =>
    cases i with
    | jump l => exact ⟨l, .inl rfl⟩
    | jumpIfEqual l => exact ⟨l, .inr rfl⟩
    | load size | store size =>
      cases size <;> simp +decide [Item.line, Instr.line, binaryLine] at h
    | arith op | arithConst op =>
      cases op <;> simp +decide [Item.line, Instr.line, binaryLine, Arith.mnemonic] at h
    | set cond =>
      cases cond <;> simp +decide [Item.line, Instr.line, unaryLine, Condition.mnemonic] at h
    | move | constant | address | widen =>
      simp +decide [Item.line, Instr.line, binaryLine] at h
    | negate | divide | push | pop | call => simp +decide [Item.line, Instr.line, unaryLine] at h
    | extendSign | ret | nop => exact absurd h (by decide)

/-- Where a label stands: on one line of the whole assembly, in front of the comment of the quad
that it is listed at, with nothing between but the labels that are listed behind it. -/
structure Asm.Assembly.Places (a : Asm.Assembly) (f : Source.File) (p : Program) (l : Bytes) :
    Prop where
  named : l ≠ []
  once : (a.functions.flatMap (·.labels)).count l = 1
  placed : ∃ (i : Nat) (d : Source.ProcedureDecl) (q : Procedure) (size : Int)
    (blocks : List (List Instr)), f.procedures[i]? = some d ∧ p.procedures[i]? = some q ∧
    blocks.length = q.quads.length ∧
    a.functions[i]? = some (Routine.function ⟨q.name, q.items size blocks⟩) ∧
    ∃ (j : Nat) (quad : Quad) (before after : List Bytes) (rest : List Item),
      q.quads[j]? = some quad ∧ quad.labels = before ++ l :: after ∧
      d.quadLabels[j]? = some quad.labels ∧
      q.items size blocks = q.items size (blocks.take j) ++ (q.remarks size j).map .comment
        ++ before.map .label ++ .label l :: after.map .label ++ .comment quad.text :: rest

/-- Every label of a file has its place. -/
theorem Program.Assembled.places {f : Source.File} {p : Program} (h : f.build = .ok p)
    {options : Options} {a : Asm.Assembly} (ha : p.Assembled options a) {l : Bytes} (hl : l ≠ [])
    (hmem : l ∈ f.procedures.flatMap (·.labels)) : a.Places f p l := by
  have hlabels := (Source.File.perm_labels h).mem_iff.2 hmem
  obtain ⟨q, hq, hquads⟩ := List.mem_flatMap.1 hlabels
  obtain ⟨quad, hquad, hlabel⟩ := List.mem_flatMap.1 hquads
  obtain ⟨before, after, hsplit⟩ := List.append_of_mem hlabel
  refine ⟨hl, ?_, ?_⟩
  · have honce : (a.functions.flatMap (·.labels)).Nodup := by
      rw [ha.flatMap_labels_functions, Program.labels, ← List.filter_flatMap]
      exact (Source.File.nodup_labels h).filter _
    refine List.count_eq_one_of_mem honce ?_
    rw [ha.flatMap_labels_functions, Program.labels, ← List.filter_flatMap]
    exact List.mem_filter.2 ⟨hlabels, by simpa using hl⟩
  · obtain ⟨i, hi⟩ := List.mem_iff_getElem?.1 hq
    obtain ⟨j, hj⟩ := List.mem_iff_getElem?.1 hquad
    obtain ⟨d, hd, hlisted⟩ := getElem?_of_forall₂ (Source.File.forall₂_labels h) hi
    obtain ⟨fn, hfn, ctx, r, hc, rfl⟩ := getElem?_of_forall₂ ha.functions.flip hi
    obtain ⟨blocks, hblocks, hitems⟩ := Procedure.items_of_itemsIn hc.items
    obtain ⟨block, hblock, -⟩ := getElem?_of_forall₂ hblocks.flip hj
    obtain ⟨rest, hrest⟩ := Procedure.items_split ctx.frame.size hj hblock
    have hr : r = ⟨q.name, q.items ctx.frame.size blocks⟩ := by
      rw [← hitems, ← hc.name]
    refine ⟨i, d, q, ctx.frame.size, blocks, hd, hi, hblocks.length_eq.symm, hr ▸ hfn,
      j, quad, before, after, block.map .instr ++ rest, hj, hsplit, ?_, ?_⟩
    · rw [hlisted, List.getElem?_map, hj]
      rfl
    · rw [hrest, Quad.items, hsplit]
      simp

/-- No label of a file is taken when it is attached, and each of them marks one quad, the one that
it is listed at. Every jump in the assembly names a label, and lands at the quad that the label is
listed at. -/
theorem jumps_land (f : Source.File) :
    (∀ label quad, f.build ≠ .error (.labelTaken label quad)) ∧
      ∀ p, f.build = .ok p →
        List.Forall₂ (fun d q => d.quadLabels = q.quads.map (·.labels))
          f.procedures p.procedures ∧
        (∀ l ∈ f.procedures.flatMap (·.labels),
          (p.procedures.flatMap fun q => q.quads.flatMap (·.labels)).count l = 1) ∧
        ∀ options schedule a, Group.Complete p.procedures.length schedule →
          p.assemblyBy options schedule = .ok a → ∀ fn ∈ a.functions, ∀ line ∈ fn.lines,
            line.op = "jmp" ∨ line.op = "je" →
              line.arity = 1 ∧ ∃ l, line.arg1 = .ofLabel l ∧ a.Places f p l := by
  refine ⟨fun label quad herror => ?_, fun p h => ⟨Source.File.forall₂_labels h, ?_, ?_⟩⟩
  · obtain ⟨spot, cause, he⟩ := Source.File.isPlaced_of_build herror
    cases he
  · intro l hl
    exact List.count_eq_one_of_mem (Source.File.nodup_labels h)
      ((Source.File.perm_labels h).mem_iff.2 hl)
  · intro options schedule a hschedule ha fn hfn line hline hop
    have ha := Source.File.assembled_of_assemblyBy h (fun i hi => hschedule.finish_mem hi) ha
    obtain ⟨q, hq, ctx, r, hc, rfl⟩ := exists_of_forall₂ ha.functions.flip hfn
    obtain ⟨item, hitem, rfl⟩ := List.mem_map.1 hline
    obtain ⟨l, hjump⟩ := Item.jump_of_line hop
    have htarget : ∃ quad ∈ q.quads,
        quad.op = .goto (some l) ∨ ∃ cond, quad.op = .ifZero cond (some l) := by
      rcases hjump with rfl | rfl
      · obtain ⟨quad, hquad, hop⟩ := hc.emits hitem
        exact ⟨quad, hquad, .inl hop⟩
      · obtain ⟨quad, hquad, hop⟩ := hc.emits hitem
        exact ⟨quad, hquad, .inr hop⟩
    obtain ⟨quad, hquad, hop⟩ := htarget
    have hbody : quad ∈ q.body := by
      rcases Procedure.mem_quads.1 hquad with rfl | hbody | rfl
      · simp [Procedure.enter] at hop
      · exact hbody
      · simp [Procedure.leave] at hop
    obtain ⟨hl, hlabel⟩ := Source.File.target_of_mem_body h hq hbody hop
    have hplaces := ha.places h hl hlabel
    rcases hjump with rfl | rfl
    · exact ⟨rfl, l, rfl, hplaces⟩
    · exact ⟨rfl, l, rfl, hplaces⟩

namespace Loop

/-- A program that jumps back to its start and forward to its end. -/
def file : Source.File where
  procedures := [
    { name := "main"
      exit := "end"
      body := [
        { op := "ifz", src := some { int := some 0 }, target := "end", labels := ["again"] },
        { op := "goto", target := "again", labels := ["back", "last"] }] }]

def main : Procedure where
  name := "main"
  body := [⟨["again"], .ifZero (.lit (.int 0)) (some "end")⟩,
    ⟨["back", "last"], .goto (some "again")⟩]
  leaveLabels := ["end"]

/-- The program. -/
def program : Program := ⟨[], [], [main]⟩

/-- The instructions of the quads of `main`. -/
def blocks : List (List Instr) := [
  [.push .rbp, .move .rsp .rbp, .arithConst .add 8 .rbp],
  [.constant 0 .rax, .arithConst .cmp 0 .rax, .jumpIfEqual "end"],
  [.jump "again"],
  [.pop .rbp, .ret]]

/-- The assembly. -/
def assembly : Asm.Assembly where
  entry := "main"
  functions := [Routine.function ⟨"main", main.items 0 blocks⟩]

end Loop

open Loop in
/-- The condition leads to the end of the loop, and the jump to its start. -/
theorem loop_lands : file.build = .ok program ∧ program.assembly {} = .ok assembly ∧
    assembly.Places file program "end" ∧ assembly.Places file program "again" := by
  have hbuild : file.build = .ok program := by rfl
  have hassembly : program.assembly {} = .ok assembly := by rfl
  have hlands := ((jumps_land file).2 program hbuild).2.2 {} _ assembly (Group.complete_inOrder _)
    hassembly _ (List.mem_singleton_self _)
  refine ⟨hbuild, hassembly, ?_, ?_⟩
  · obtain ⟨-, l, hl, hplaces⟩ := hlands (Instr.jumpIfEqual "end").line
      (List.mem_map.2 ⟨.instr (.jumpIfEqual "end"), by decide, rfl⟩) (.inr rfl)
    cases hl
    exact hplaces
  · obtain ⟨-, l, hl, hplaces⟩ := hlands (Instr.jump "again").line
      (List.mem_map.2 ⟨.instr (.jump "again"), by decide, rfl⟩) (.inl rfl)
    cases hl
    exact hplaces

end QuadAsm
