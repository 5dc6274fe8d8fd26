import QuadAsm.Proofs.Arguments
import QuadAsm.Proofs.Storage

/-!
# Where incoming arguments are found

A quad that asks for an incoming argument has no code: entering the procedure has moved every
argument into the slot of its formal, and the quad relies on being asked for that formal. Nothing
makes sure of this. So the operand of the quad decides alone what it reads after the quad, and the
position does not matter: a formal has the argument that came for it, and any other variable has
what its memory held before the procedure was entered. Main result: `getArg_reads_operand`.
-/

namespace QuadAsm

open Emit Layout Machine

/-- Quad number `k` asks for the argument at position `i`, before anything else of the body is
done: there are only such quads between entering and it. -/
structure Procedure.AsksFirst (q : Procedure) (k : Nat) (i : Int) (x : Operand) : Prop where
  quad : ∃ labels, q.quads[k]? = some ⟨labels, .getArg i x⟩
  before : ∀ j quad, 0 < j → j < k → q.quads[j]? = some quad → ∃ i' x', quad.op = .getArg i' x'

/-- A machine that is about to enter a procedure, whose code stands at `e`: there is room for the
frame from `lo` on, the data section lies elsewhere, and the arguments on the stack end before the
memory does. -/
structure Procedure.EntryReady (q : Procedure) (ctx : Context) (P : Process) (s : State)
    (e lo : Nat) : Prop where
  pc : s.pc = e
  room : lo + reach ctx.frame.slots.length ≤ (s.cpu.regs .rsp).toNat
  loaded : ctx.globals.Loaded P.data lo (s.cpu.regs .rsp).toNat
  top : (s.cpu.regs .rsp).toNat + 8 * stackArguments q.formals.length + 8 ≤ 2 ^ 64

namespace Procedure

variable {p : Program} {q : Procedure} {ctx : Context} {r : Routine} {img : Image} {e k : Nat}
  {blocks : List (List Instr)} {i : Int} {x : Operand}

/-- A quad that asks for an argument belongs to the body. -/
theorem AsksFirst.mem_body (h : q.AsksFirst k i x) : ∃ labels, ⟨labels, .getArg i x⟩ ∈ q.body := by
  obtain ⟨labels, hquad⟩ := h.quad
  rcases quads_cases hquad with ⟨-, he⟩ | ⟨-, he⟩ | ⟨j, -, hj⟩
  · cases he
  · cases he
  · exact ⟨labels, List.mem_of_getElem? hj⟩

/-- Quads that ask for arguments take no place. -/
theorem Placed.start_of_asksFirst (hp : q.Placed ctx img e blocks) (h : q.AsksFirst k i x) {j : Nat}
    (hj : j ≤ k) : start blocks (j + 1) = start blocks 1 := by
  induction j with
  | zero => rfl
  | succ j ih =>
    have hasks : ∃ quad i' x', q.quads[j + 1]? = some quad ∧ quad.op = .getArg i' x' := by
      obtain ⟨labels, hquad⟩ := h.quad
      rcases Nat.lt_or_eq_of_le hj with hlt | rfl
      · have hlen : j + 1 < q.quads.length := Nat.lt_trans hlt (List.getElem?_eq_some_iff.1 hquad).1
        obtain ⟨i', x', hop⟩ := h.before (j + 1) _ (Nat.succ_pos j) hlt
          (List.getElem?_eq_getElem hlen)
        exact ⟨_, i', x', List.getElem?_eq_getElem hlen, hop⟩
      · exact ⟨_, i, x, hquad, rfl⟩
    obtain ⟨quad, i', x', hquad, hop⟩ := hasks
    obtain ⟨block, hblock, hcode, -⟩ := hp.block hquad
    rw [hop] at hcode
    cases hcode
    rw [start_succ hblock, List.length_nil, Nat.add_zero, ih (Nat.le_of_succ_le hj)]

/-- A variable that is no formal keeps its memory when the procedure is entered. -/
theorem EntryReady.not_written {P : Process} {s : State} {lo : Nat}
    (h : q.EntryReady ctx P s e lo) (hc : Compiled p q ctx r)
    (hsym : ∀ v ∈ ctx.globals.vars, v.form ≠ .pointer)
    (hformals : ∀ v ∈ q.formals, v.form ≠ .pointer) {v : Variable} (hv : ctx.Knows v)
    (hnot : v ∉ q.formals) {y : Word}
    (hy : Within y (ctx.address P.data (s.cpu.regs .rsp) v) v.holds.bytes) :
    ¬ Within y (s.cpu.regs .rsp - 8) 8 ∧
      ∀ u ∈ q.formals, ¬ Within y (ctx.address P.data (s.cpu.regs .rsp) u) u.size.bytes := by
  have hroom := h.room
  unfold reach at hroom
  refine ⟨fun hin => ?_, fun u hu hin => ?_⟩
  · have hsaved := within_saved (by omega) hin
    rcases Context.Knows.cases hc.frame hv with ⟨j, hj, -, ha⟩ | ⟨hvg, ha⟩
    · rw [ha] at hy
      have hslot := Context.within_slot (by omega) v.holds.bytes_le_eight hy
      omega
    · rw [ha, Context.holds_of_ne (hsym v hvg)] at hy
      exact h.loaded.stack v hvg y hy ⟨by omega, hsaved.2⟩
  · have hvu : v ≠ u := fun he => hnot (he ▸ hu)
    have hku : ctx.Knows u := (Context.covers hc.globals hc.frame).knows u
      (List.mem_append_left _ ((Frame.formals_of_assign hc.frame).2 u hu))
    have hapart := Context.Knows.apart hc.frame hc.globals hsym h.loaded h.room
      (Nat.le_add_right _ 8) hv hku hvu
    rw [Context.holds_of_ne (hformals u hu)] at hapart
    exact hapart y hy hin

end Procedure

/-- What a quad that asks for an incoming argument gives. Take a procedure of a program that was
built from a file and compiled, wherever its code stands, and a quad that asks for an argument
before anything else of the body is done. Let the machine enter the procedure and come to the end of
that quad. If the operand of the quad is a formal, it has the argument that came for this formal, as
far as it fits: that is the argument that was asked for, if the formal is the one at that position.
If the operand is another variable, its memory is what it was before the procedure was entered. -/
theorem getArg_reads_operand {f : Source.File} {p : Program} {options : Options}
    {a : Asm.Assembly} (hbuild : f.build = .ok p) (hasm : p.assembly options = .ok a)
    {q : Procedure} (hq : q ∈ p.procedures) :
    ∃ ctx r, Compiled p q ctx r ∧ r.function ∈ a.functions ∧
      ∀ (P : Process) (e lo : Nat) (blocks : List (List Instr)) (s : State) (k : Nat) (i : Int)
        (x : Operand), q.Placed ctx P.image e blocks → q.EntryReady ctx P s e lo →
        q.AsksFirst k i x →
        ∃ s', P.run (start blocks (k + 1)) s = some s' ∧ s'.pc = e + start blocks (k + 1) ∧
          s'.cpu.regs .rbp = s.cpu.regs .rsp ∧
          (∀ j v, q.formals[j]? = some v → x = .var v →
            ctx.valueOf P.data (s'.cpu.regs .rbp) s'.cpu.ram x
              = v.size.clip
                (Context.arrived q.formals.length (s.cpu.regs .rsp) s.cpu (j + 1))) ∧
          ∀ v, x = .var v → v ∉ q.formals → ∀ y,
            Within y (ctx.address P.data (s'.cpu.regs .rbp) v) v.holds.bytes →
            s'.cpu.ram y = s.cpu.ram y := by
  obtain ⟨g, rs, -, hfuns, hall⟩ := Program.compiled_of_assembly hasm
  obtain ⟨r, hr, ctx, -, hc⟩ := exists_of_forall₂ hall hq
  have hsym := hc.form_ne_pointer hbuild
  have hformals : ∀ v ∈ q.formals, v.form ≠ .pointer := fun v hv => by
    simp [Source.File.form_of_mem_formals hbuild hq hv]
  refine ⟨ctx, r, hc, hfuns ▸ List.mem_map_of_mem hr,
    fun P e lo blocks s k i x hplaced hready hasks => ?_⟩
  -- the code up to the end of the quad is the code that enters
  have hfirst : q.quads[0]? = some q.enter := rfl
  obtain ⟨enter, hblock, henter, hholds⟩ := hplaced.block hfirst
  have hstart : start blocks (k + 1) = enter.length := by
    rw [hplaced.start_of_asksFirst hasks (Nat.le_refl k), start_succ hblock]
    exact Nat.zero_add _
  obtain ⟨c', he, hrbp, hrest, hvalues⟩ := hc.enters hsym hformals henter hready.loaded hready.room
    (Nat.le_add_right _ 8) hready.top
  have hrun : P.run enter.length s = some ⟨c', s.pc + enter.length, s.trace⟩ :=
    Process.run_block (hready.pc ▸ hholds) he
  refine ⟨_, hstart ▸ hrun, by rw [hstart, hready.pc], hrbp, ?_, ?_⟩
  · rintro j v hj rfl
    have hplain := hformals v (List.mem_of_getElem? hj)
    show ctx.valueOf P.data (c'.regs .rbp) c'.ram v = _
    rw [Context.valueOf, Context.target_of_ne hplain, hrbp, hvalues j v hj, Nat.add_comm]
  · rintro v rfl hnot y hy
    have hknows : ctx.Knows v := by
      obtain ⟨labels, hmem⟩ := hasks.mem_body
      exact (Context.covers hc.globals hc.frame).knows v
        (Source.File.declared_of_mem_body hbuild hq hmem).2
    rw [hrbp] at hy
    obtain ⟨hsaved, hslots⟩ := hready.not_written hc hsym hformals hknows hnot hy
    exact hrest y hsaved hslots

namespace ForgottenArgument

/-- A procedure that asks for its argument in a local and returns that. -/
def file : Source.File where
  procedures := [{
    name := "f"
    locals := [{ name := "r" }]
    formals := [{ name := "a" }]
    body := [
      { op := "getarg", index := 1, dst := some { name := "r" } },
      { op := "setret", src := some { name := "r" } }] }]

def r : Variable := ⟨0, .symbol, "r", 8, .int⟩
def a : Variable := ⟨1, .symbol, "a", 8, .int⟩

/-- The procedure. -/
def f : Procedure where
  name := "f"
  locals := [r]
  formals := [a]
  body := [⟨[], .getArg 1 r⟩, ⟨[], .setRet r⟩]

/-- The program. -/
def program : Program := ⟨[], [], [f]⟩

def process (items : List Item) : Process where
  image := Image.ofItems items
  data _ := 0
  place _ := 0
  serve _ _ c := c

/-- A machine with empty memory on which the argument is 5. -/
def state : State where
  cpu := {
    regs := fun r => if r = .rsp then 8192 else 5
    kept := fun _ => 0
    ram := fun _ => 0
    compared := none }
  pc := 0
  trace := []

end ForgottenArgument

open ForgottenArgument in
/-- The procedure is entered with the argument 5, asks for it, and reads 0. -/
theorem forgottenArgument_reads_zero : ∃ ctx routine s' n,
    file.build = .ok program ∧ Compiled program f ctx routine ∧
      Context.arrived 1 (state.cpu.regs .rsp) state.cpu 1 = 5 ∧
      (process routine.items).run n state = some s' ∧
      ctx.valueOf (fun _ => 0) (s'.cpu.regs .rbp) s'.cpu.ram r = 0 := by
  have hbuild : file.build = .ok program := by rfl
  obtain ⟨asm, hasm⟩ : ∃ asm, program.assembly {} = .ok asm := ⟨_, rfl⟩
  obtain ⟨ctx, routine, hc, -, hreads⟩ := getArg_reads_operand hbuild hasm
    (List.mem_singleton_self f)
  obtain ⟨blocks, hlaid⟩ := Procedure.laid_of_itemsIn hc.items
  have hplaced := hlaid.placed_ofItems
  have hglobals : ctx.globals = ⟨[], []⟩ :=
    Except.ok.inj (hc.globals.symm.trans (by decide +kernel))
  have hslots : ctx.frame.slots.length = 2 := Frame.length_slots hc.frame
  have hready : f.EntryReady ctx (process routine.items) state 0 4096 := by
    refine ⟨rfl, ?_, ?_, by decide⟩
    · rw [hslots]
      decide
    · rw [hglobals]
      exact ⟨fun v hv => absurd hv List.not_mem_nil, fun v hv => absurd hv List.not_mem_nil⟩
  have hasks : f.AsksFirst 1 1 r :=
    ⟨⟨[], rfl⟩, fun j quad hpos hlt => absurd hlt (Nat.not_lt.2 hpos)⟩
  obtain ⟨s', hrun, -, -, -, hrest⟩ := hreads _ 0 4096 blocks state 1 1 r hplaced hready hasks
  refine ⟨ctx, routine, s', _, hbuild, hc, rfl, hrun, ?_⟩
  have hread : s'.cpu.ram.read (ctx.address (fun _ => 0) (s'.cpu.regs .rbp) r) .word
      = state.cpu.ram.read (ctx.address (fun _ => 0) (s'.cpu.regs .rbp) r) .word :=
    Ram.read_congr fun y hy => hrest r rfl (by decide) y hy
  exact hread.trans (by simp [state, Ram.read, Ram.nth])

end QuadAsm
