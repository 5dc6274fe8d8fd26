import QuadAsm.Proofs.Emit.Program

/-!
# Where procedures stand in a program

The code of a program is the code of its procedures one after the other. In a program that was built
from a file, a call by the name of a procedure goes to the start of its code, and a jump to a label
of a procedure stays in the procedure. Main result: `Source.File.placed_linked`.
-/

namespace QuadAsm

open Layout Machine

namespace Emit

/-- A procedure of a program together with its code, one block for each quad. -/
structure Piece (p : Program) where
  procedure : Procedure
  ctx : Context
  routine : Routine
  blocks : List (List Instr)
  compiled : Compiled p procedure ctx routine
  laid : Laid ctx routine.items procedure.quads blocks

variable {p : Program}

namespace Piece

/-- The layout of the globals and of a procedure is all that its code depends on. -/
theorem ctx_eq_mk {x : Piece p} {q : Procedure} {g : Globals} {frame : Frame}
    (hq : x.procedure = q) (hg : Globals.assign p = .ok g) (hf : Frame.assign q = .ok frame) :
    x.ctx = ⟨g, frame, q.formals.length⟩ := by
  obtain ⟨hglobals, hframe, harity, -, -⟩ := x.compiled
  subst hq
  obtain rfl : x.ctx.globals = g := Except.ok.inj (hglobals.symm.trans hg)
  obtain rfl : x.ctx.frame = frame := Except.ok.inj (hframe.symm.trans hf)
  rw [← harity]

/-- The code of a procedure, quad by quad. -/
theorem blocks_eq_map (x : Piece p) :
    x.blocks = x.procedure.quads.map fun quad => (x.ctx.codeOf quad.op).toOption.getD [] := by
  have hcode := x.laid.code
  generalize x.procedure.quads = quads, x.blocks = blocks at hcode ⊢
  induction hcode with
  | nil => rfl
  | cons hblock _ ih =>
    rw [List.map_cons, hblock, ← ih]
    rfl

end Piece

/-- The code of several procedures, one after the other. -/
def linked (pieces : List (Piece p)) : Image := Image.link (pieces.map (·.routine))

/-- How many instructions several procedures have. -/
def extent (pieces : List (Piece p)) : Nat := (pieces.flatMap (·.blocks)).flatten.length

@[simp] theorem extent_nil : extent ([] : List (Piece p)) = 0 := rfl

@[simp] theorem extent_cons (x : Piece p) (rest : List (Piece p)) :
    extent (x :: rest) = x.blocks.flatten.length + extent rest := by
  simp [extent]

/-- Procedures that have code are pieces of the program. -/
theorem pieces_of_forall₂ {g : Globals} {qs : List Procedure} {rs : List Routine}
    (h : List.Forall₂ (fun q r => ∃ ctx : Context, ctx.globals = g ∧ Compiled p q ctx r) qs rs) :
    ∃ pieces : List (Piece p), pieces.map (·.procedure) = qs ∧ pieces.map (·.routine) = rs ∧
      ∀ x ∈ pieces, x.ctx.globals = g := by
  induction h with
  | nil => exact ⟨[], rfl, rfl, nofun⟩
  | cons hqr _ ih =>
    obtain ⟨ctx, hg, hc⟩ := hqr
    obtain ⟨blocks, hl⟩ := Procedure.laid_of_itemsIn hc.items
    obtain ⟨rest, rfl, rfl, hrest⟩ := ih
    exact ⟨⟨_, ctx, _, blocks, hc, hl⟩ :: rest, rfl, rfl, List.forall_mem_cons.2 ⟨hg, hrest⟩⟩

/-- The lines of the pieces hold the instructions of their quads. -/
theorem instructions_pieces (pieces : List (Piece p)) :
    instructions ((pieces.map (·.routine)).flatMap (·.items))
      = (pieces.flatMap (·.blocks)).flatten := by
  induction pieces with
  | nil => rfl
  | cons x rest ih =>
    rw [List.map_cons, List.flatMap_cons, instructions_append, ih, x.laid.instructions,
      List.flatMap_cons, List.flatten_append]

/-- The code of a program is the code of its quads. -/
theorem code_linked (pieces : List (Piece p)) :
    (linked pieces).code = (pieces.flatMap (·.blocks)).flatten :=
  instructions_pieces pieces

/-- The first procedure of a name starts where the code before it ends. -/
theorem entry_linked {pre : List (Piece p)} (x : Piece p) (post : List (Piece p))
    (h : ∀ y ∈ pre, y.routine.name ≠ x.routine.name) :
    (linked (pre ++ x :: post)).entry x.routine.name = some (extent pre) := by
  show entryPosition x.routine.name ((pre ++ x :: post).map (·.routine)) = _
  induction pre with
  | nil => simp [entryPosition]
  | cons y rest ih =>
    obtain ⟨hy, hrest⟩ := List.forall_mem_cons.1 h
    simp only [List.cons_append, List.map_cons, entryPosition, if_neg hy, ih hrest]
    rw [y.laid.instructions, extent_cons]
    rfl

/-- A call that goes somewhere goes to the start of a procedure of that name. -/
theorem exists_of_entry {pieces : List (Piece p)} {name : Bytes} {n : Nat}
    (h : (linked pieces).entry name = some n) :
    ∃ pre x post, pieces = pre ++ x :: post ∧ x.routine.name = name ∧ n = extent pre := by
  change entryPosition name (pieces.map (·.routine)) = some n at h
  induction pieces generalizing n with
  | nil => cases h
  | cons y rest ih =>
    rw [List.map_cons, entryPosition] at h
    split at h
    · next hy =>
      cases h
      exact ⟨[], y, rest, rfl, hy, rfl⟩
    · obtain ⟨m, hm, rfl⟩ := Option.map_eq_some_iff.1 h
      obtain ⟨pre, x, post, rfl, hx, rfl⟩ := ih hm
      refine ⟨y :: pre, x, post, rfl, hx, ?_⟩
      rw [y.laid.instructions, extent_cons]

/-- A label that marks nothing in several procedures is not found there. -/
theorem labelPosition_pieces {pieces : List (Piece p)} {l : Bytes}
    (h : ∀ y ∈ pieces, y.procedure.labelled? l = none) :
    labelPosition l ((pieces.map (·.routine)).flatMap (·.items)) = none := by
  induction pieces with
  | nil => rfl
  | cons y rest ih =>
    obtain ⟨hy, hrest⟩ := List.forall_mem_cons.1 h
    have hlabel := y.laid.label l
    rw [← Procedure.labelled?, hy] at hlabel
    rw [List.map_cons, List.flatMap_cons, labelPosition_append, hlabel, ih hrest]
    rfl

/-- A procedure stands where the code before it ends, and jumps to its labels stay in it, when no
procedure before it has one of them. -/
theorem placed_of_labels {pre : List (Piece p)} (x : Piece p) (post : List (Piece p))
    (h : ∀ y ∈ pre, ∀ l k, x.procedure.labelled? l = some k → y.procedure.labelled? l = none) :
    x.procedure.Placed x.ctx (linked (pre ++ x :: post)) (extent pre) x.blocks := by
  refine ⟨x.laid.code, ?_, fun l k hk => ?_⟩
  · have hcode : (linked (pre ++ x :: post)).Holds 0
        ((pre.flatMap (·.blocks)).flatten ++ (x.blocks.flatten
          ++ (post.flatMap (·.blocks)).flatten)) := by
      show _ <+: (linked (pre ++ x :: post)).code
      rw [code_linked, List.flatMap_append, List.flatMap_cons, List.flatten_append,
        List.flatten_append]
    have hright := hcode.right.left
    rw [Nat.zero_add] at hright
    exact hright
  · show labelPosition l (((pre ++ x :: post).map (·.routine)).flatMap (·.items)) = _
    have hlabel := x.laid.label l
    rw [← Procedure.labelled?, hk] at hlabel
    rw [List.map_append, List.flatMap_append, labelPosition_append,
      labelPosition_pieces fun y hy => h y hy l k hk, List.map_cons, List.flatMap_cons,
      labelPosition_append, hlabel, instructions_pieces]
    rfl

end Emit

open Emit

/-- In a program that has assembly, the functions are the procedures with their code. -/
theorem Program.pieces_of_assembly {p : Program} {options : Options} {a : Asm.Assembly}
    (h : p.assembly options = .ok a) :
    ∃ (g : Globals) (pieces : List (Piece p)), Globals.assign p = .ok g ∧
      pieces.map (·.procedure) = p.procedures ∧
      p.routines options g = .ok (pieces.map (·.routine)) ∧
      a.functions = pieces.map (·.routine.function) ∧ ∀ x ∈ pieces, x.ctx.globals = g := by
  obtain ⟨g, hg, h⟩ := bind_eq_ok.1 h
  obtain ⟨rs, hrs, h⟩ := bind_eq_ok.1 h
  cases pure_eq_ok.1 h
  have hg := liftM_rejection_eq_ok.1 hg
  obtain ⟨pieces, hqs, rfl, hglobals⟩ := pieces_of_forall₂ <|
    (Program.forall₂_of_routines hrs).imp fun q r hr => Procedure.compiled_of_routineIn hg hr
  exact ⟨g, pieces, hg, hqs, hrs, List.map_map, hglobals⟩

namespace Source.File

variable {f : File} {p : Program}

/-- No label marks quads of two procedures. -/
theorem labelled?_eq_none (h : f.build = .ok p) {i j : Nat} {q q' : Procedure}
    (hq : p.procedures[i]? = some q) (hq' : p.procedures[j]? = some q') (hij : i ≠ j) {l : Bytes}
    {k : Nat} (hl : q.labelled? l = some k) : q'.labelled? l = none := by
  have hdisjoint : (q.quads.flatMap (·.labels)).Disjoint (q'.quads.flatMap (·.labels)) := by
    obtain ⟨hi, rfl⟩ := List.getElem?_eq_some_iff.1 hq
    obtain ⟨hj, rfl⟩ := List.getElem?_eq_some_iff.1 hq'
    have hpairs := List.pairwise_iff_getElem.1 (List.nodup_flatMap.1 (nodup_labels h)).2
    rcases Nat.lt_or_gt_of_ne hij with hlt | hgt
    · exact hpairs i j hi hj hlt
    · exact (hpairs j i hj hi hgt).symm
  have hmem : ∀ {q : Procedure} {k : Nat}, q.labelled? l = some k →
      l ∈ q.quads.flatMap (·.labels) := by
    intro q k hl
    obtain ⟨hk, hmem, -⟩ := List.findIdx?_eq_some_iff_getElem.1 hl
    exact List.mem_flatMap.2 ⟨_, List.getElem_mem hk, by simpa using hmem⟩
  by_contra hne
  obtain ⟨k', hl'⟩ := Option.ne_none_iff_exists'.1 hne
  exact hdisjoint (hmem hl) (hmem hl')

/-- In a program from a file, a label never marks the quad that enters. -/
theorem labelled?_ne_zero (h : f.build = .ok p) {q : Procedure} (hq : q ∈ p.procedures) {l : Bytes}
    {k : Nat} (hl : q.labelled? l = some k) : k ≠ 0 := by
  rintro rfl
  obtain ⟨d, -, hlabels⟩ := exists_of_forall₂ (forall₂_labels h).flip hq
  obtain ⟨hk, hmem, -⟩ := List.findIdx?_eq_some_iff_getElem.1 hl
  have henter : q.enterLabels = [] := (List.cons.inj hlabels).1.symm
  simp [Procedure.quads, Procedure.enter, henter] at hmem

/-- In a program from a file, every procedure stands where calls of it go, and its jumps stay in
it. -/
theorem placed_linked (h : f.build = .ok p) {pre post : List (Piece p)} {x : Piece p}
    (hp : (pre ++ x :: post).map (·.procedure) = p.procedures) :
    x.procedure.Placed x.ctx (linked (pre ++ x :: post)) (extent pre) x.blocks ∧
      (linked (pre ++ x :: post)).entry x.procedure.name = some (extent pre) := by
  have hx : p.procedures[pre.length]? = some x.procedure := by
    rw [← hp, List.map_append, List.getElem?_append_right (by simp)]
    simp
  have hpre : ∀ y ∈ pre, ∃ j < pre.length, p.procedures[j]? = some y.procedure := by
    intro y hy
    obtain ⟨j, hj, rfl⟩ := List.getElem_of_mem hy
    refine ⟨j, hj, ?_⟩
    rw [← hp, List.map_append, List.getElem?_append_left (by simpa using hj)]
    simp [hj]
  constructor
  · refine placed_of_labels x post fun y hy l k hl => ?_
    obtain ⟨j, hj, hjy⟩ := hpre y hy
    exact labelled?_eq_none h hx hjy (Nat.ne_of_gt hj) hl
  · rw [← x.compiled.name]
    refine entry_linked x post fun y hy hname => ?_
    have hnodup := nodup_names h
    rw [← hp, List.map_map, List.map_append, List.nodup_append] at hnodup
    refine hnodup.2.2 _ (List.mem_map_of_mem hy) _ (List.mem_map_of_mem (List.mem_cons_self ..)) ?_
    rw [y.compiled.name, x.compiled.name] at hname
    exact hname

/-- The same for any of the procedures. -/
theorem placed_of_mem (h : f.build = .ok p) {pieces : List (Piece p)}
    (hp : pieces.map (·.procedure) = p.procedures) {x : Piece p} (hx : x ∈ pieces) :
    ∃ e, (linked pieces).entry x.procedure.name = some e ∧
      x.procedure.Placed x.ctx (linked pieces) e x.blocks := by
  obtain ⟨pre, post, rfl⟩ := List.append_of_mem hx
  obtain ⟨hplaced, hentry⟩ := placed_linked h hp
  exact ⟨_, hentry, hplaced⟩

/-- In a program from a file, a procedure has one piece. -/
theorem piece_inj (h : f.build = .ok p) {pieces : List (Piece p)}
    (hp : pieces.map (·.procedure) = p.procedures) {x y : Piece p} (hx : x ∈ pieces)
    (hy : y ∈ pieces) (hxy : x.procedure = y.procedure) : x = y := by
  have hnodup : p.procedures.Nodup := (nodup_names h).of_map _
  rw [← hp] at hnodup
  exact List.inj_on_of_nodup_map hnodup hx hy hxy

end Source.File

/-! ## Trying programs out -/

/-- A program without globals and strings, loaded with addresses from 1 on and a runtime that does
nothing. -/
def Program.trial (p : Program) : Process where
  image := Image.link ((p.routines {} ⟨[], []⟩).toOption.getD [])
  data _ := 0
  place n := BitVec.ofNat 64 (n + 1)
  serve _ _ c := c

/-- A machine that comes to the first line of a program, with nothing in its memory. -/
def Machine.State.fresh (rsp : Word) : State where
  cpu := {
    regs := fun r => if r = .rsp then rsp else 0
    kept := fun _ => 0
    ram := fun _ => 0
    compared := none }
  pc := 0
  trace := []

/-- The layout of a procedure in a program without globals and strings. -/
def Procedure.bareContext (q : Procedure) : Context :=
  ⟨⟨[], []⟩, (Frame.assign q).toOption.getD default, q.formals.length⟩

/-- Seven formals as they are declared, so that one is passed on the stack. -/
def Source.sevenFormals : List SymbolDecl :=
  [{ name := "a" }, { name := "b" }, { name := "c" }, { name := "d" }, { name := "e" },
    { name := "g" }, { name := "h" }]

/-- These formals, the first of them with a number. -/
def sevenFormals (n : Nat) : List Variable :=
  Source.sevenFormals.zipIdx.map fun (d, i) => ⟨n + i, .symbol, d.name, 8, .int⟩

section
variable {p : Program} {pieces : List (Piece p)}

/-- What is tried out is the code of the procedures. -/
theorem Program.image_trial (h : p.routines {} ⟨[], []⟩ = .ok (pieces.map (·.routine))) :
    p.trial.image = linked pieces := by
  show Image.link ((p.routines {} ⟨[], []⟩).toOption.getD []) = _
  rw [h]
  rfl

/-- Instructions have different addresses. -/
theorem Program.place_trial (h : p.trial.image.code.length < 2 ^ 64) (i j : Nat)
    (hi : i < p.trial.image.code.length) (hj : j < p.trial.image.code.length)
    (hplace : p.trial.place i = p.trial.place j) : i = j := by
  have hnat : (BitVec.ofNat 64 (i + 1)).toNat = (BitVec.ofNat 64 (j + 1)).toNat :=
    congrArg _ hplace
  rw [BitVec.toNat_ofNat, BitVec.toNat_ofNat] at hnat
  omega

/-- A piece has the layout of its procedure. -/
theorem Emit.Piece.ctx_eq_bareContext {x : Piece p} {q : Procedure} (hq : x.procedure = q)
    (hg : Globals.assign p = .ok ⟨[], []⟩) : x.ctx = q.bareContext := by
  subst hq
  have hframe := x.compiled.frame
  rw [ctx_eq_mk rfl hg hframe, Procedure.bareContext, hframe]
  rfl

end

end QuadAsm
