import QuadAsm.Ir.Draft
import QuadAsm.Proofs.Parallel

/-!
# What the code of a procedure depends on

The code of a procedure depends on its own variables, labels and quads, on the labels of the globals
and strings that it uses, and on the names of the procedures it calls and how many formals they
have. A data section that grows at its end keeps the labels it had (`Globals.Extends`), so the code
that there is stays the same (`Procedure.keeps_routine`), and so do the parts of an assembly that
belong to what was there before. Main result: `code_depends_on_what_it_uses`.
-/

namespace QuadAsm

open Emit Layout Machine

/-! ## Results that stay -/

section
variable {ε ε' α β : Type}

/-- The second computation has the result of the first, if there is one. -/
def Keeps (x y : Except ε α) : Prop := ∀ a, x = .ok a → y = .ok a

namespace Keeps

/-- A computation keeps its own result. -/
theorem refl (x : Except ε α) : Keeps x x := fun _ h => h

/-- A sequence of two computations keeps its result when both parts do. -/
theorem bind {x y : Except ε α} {f g : α → Except ε β} (h : Keeps x y)
    (hnext : ∀ a, Keeps (f a) (g a)) : Keeps (x >>= f) (y >>= g) := by
  intro b hb
  obtain ⟨a, ha, hb⟩ := bind_eq_ok.1 hb
  exact bind_eq_ok.2 ⟨a, h a ha, hnext a b hb⟩

/-- Errors may be worded anew. -/
theorem mapError {x y : Except ε α} (h : Keeps x y) (f : ε → ε') :
    Keeps (x.mapError f) (y.mapError f) := by
  intro a ha
  exact mapError_eq_ok.2 (h a (mapError_eq_ok.1 ha))

/-- Rejections may be counted among other failures. -/
theorem lift {x y : Except Rejection α} (h : Keeps x y) :
    Keeps (liftM x : Except Failure α) (liftM y) :=
  h.mapError _

end Keeps

end

/-! ## Data sections that grow -/

/-- A data section with everything that another one has, under the same labels. -/
structure Layout.Globals.Extends (g g' : Globals) : Prop where
  vars : ∀ v ∈ g.vars, v ∈ g'.vars
  strings : ∀ text, Keeps (g.stringLabel text) (g'.stringLabel text)

/-- What is added at the end of a data section leaves the labels as they are. -/
theorem Layout.Globals.extends_of_prefix {g g' : Globals} (hvars : g.vars <+: g'.vars)
    (hstrings : g.strings <+: g'.strings) : g.Extends g' where
  vars := fun _ hv => hvars.subset hv
  strings := by
    obtain ⟨more, hmore⟩ := hstrings
    intro text l hl
    cases hi : g.strings.idxOf? text with
    | none =>
      rw [stringLabel, hi] at hl
      cases hl
    | some i =>
      have hi' : g'.strings.idxOf? text = some i := by
        unfold List.idxOf? at hi ⊢
        rw [← hmore, List.findIdx?_append, hi]
        rfl
      rw [stringLabel, hi] at hl
      rw [stringLabel, hi']
      exact hl

namespace Emit.Context

variable {ctx : Context} {g' : Globals}

section
variable (h : ctx.globals.Extends g')
include h

/-- An operand that has a place keeps it. -/
theorem keeps_locate (opd : Operand) :
    Keeps (locate (some ctx.globals) (some ctx.frame) opd)
      (locate (some g') (some ctx.frame) opd) := by
  intro place hplace
  cases opd with
  | var v =>
    rcases locate_var_cases hplace with ⟨o, ho, rfl⟩ | ⟨hnone, hv, rfl⟩
    · simp only [locate, Option.bind_some, ho]
    · simp only [locate, Option.bind_some, hnone, Globals.location?, if_pos (h.vars v hv)]
  | lit l => cases hplace
  | absent => cases hplace

/-- Its storage stays where it was. -/
theorem keeps_storage (opd : Operand) :
    Keeps (ctx.storage opd) ({ ctx with globals := g' }.storage opd) :=
  (keeps_locate h opd).bind fun _ => .refl _

/-- A string that has a label keeps it. -/
theorem keeps_stringAddress (text : Bytes) (reg : Register) :
    Keeps (ctx.stringAddress text reg) ({ ctx with globals := g' }.stringAddress text reg) :=
  (h.strings text).bind fun _ => .refl _

/-- Values are loaded as before. -/
theorem keeps_loadValue (opd : Operand) (reg : Register) :
    Keeps (ctx.loadValue opd reg) ({ ctx with globals := g' }.loadValue opd reg) := by
  cases opd with
  | var v => exact (keeps_storage h v).bind fun _ => .refl _
  | lit l =>
    cases l with
    | string text => exact keeps_stringAddress h text reg
    | _ => exact .refl _
  | absent => exact .refl _

/-- Values are stored as before. -/
theorem keeps_storeValue (opd : Operand) (reg : Register) :
    Keeps (ctx.storeValue opd reg) ({ ctx with globals := g' }.storeValue opd reg) := by
  cases opd with
  | var v =>
    simp only [storeValue]
    split
    · exact (keeps_storage h v).bind fun _ => .refl _
    · exact (keeps_storage h v).bind fun _ => .refl _
    · split
      · exact .refl _
      · exact (keeps_storage h v).bind fun _ => .refl _
  | lit l => exact .refl _
  | absent => exact .refl _

/-- Addresses are loaded as before. -/
theorem keeps_loadAddress (opd : Operand) (reg : Register) :
    Keeps (ctx.loadAddress opd reg) ({ ctx with globals := g' }.loadAddress opd reg) := by
  cases opd with
  | var v => exact (keeps_storage h v).bind fun _ => .refl _
  | lit l =>
    cases l with
    | string text => exact keeps_stringAddress h text reg
    | _ => exact .refl _
  | absent => exact .refl _

/-- Pointers are set as before. -/
theorem keeps_storeAddress (opd : Operand) (reg : Register) :
    Keeps (ctx.storeAddress opd reg) ({ ctx with globals := g' }.storeAddress opd reg) := by
  cases opd with
  | var v =>
    simp only [storeAddress]
    split
    · exact (keeps_storage h v).bind fun _ => .refl _
    · exact .refl _
    · exact .refl _
  | lit l => exact .refl _
  | absent => exact .refl _

/-- Arguments are received as before. -/
theorem keeps_receive (count position : Nat) (vs : List Variable) :
    Keeps (ctx.receive count position vs)
      ({ ctx with globals := g' }.receive count position vs) := by
  induction vs generalizing position with
  | nil => exact .refl _
  | cons v rest ih =>
    exact ((keeps_storeValue h v _).mapError _).bind fun _ =>
      (ih (position + 1)).bind fun _ => .refl _

/-- Arguments are passed as before. -/
theorem keeps_passArgument (index : Int) (opd : Operand) :
    Keeps (ctx.passArgument index opd) ({ ctx with globals := g' }.passArgument index opd) := by
  unfold passArgument
  split
  · exact .refl _
  · split
    · exact keeps_loadValue h opd _
    · exact (keeps_loadValue h opd _).bind fun _ => .refl _

/-- The code of a quad stays the same in a larger data section. -/
theorem keeps_codeOf (op : Op Signature) :
    Keeps (ctx.codeOf op) ({ ctx with globals := g' }.codeOf op) := by
  cases op with
  | binary op src1 src2 dst =>
    refine Keeps.lift ((keeps_loadValue h src1 _).bind fun _ => ?_)
    refine (keeps_loadValue h src2 _).bind fun _ => (Keeps.refl _).bind fun _ => ?_
    exact (keeps_storeValue h dst _).bind fun _ => .refl _
  | unary op src dst =>
    refine Keeps.lift ((keeps_loadValue h src _).bind fun _ => (Keeps.refl _).bind fun _ => ?_)
    exact (keeps_storeValue h dst _).bind fun _ => .refl _
  | assign src dst =>
    refine Keeps.lift ((keeps_loadValue h src _).bind fun _ => ?_)
    exact (keeps_storeValue h dst _).bind fun _ => .refl _
  | addrOf src dst =>
    refine Keeps.lift ((keeps_loadAddress h src _).bind fun _ => ?_)
    exact (keeps_storeAddress h dst _).bind fun _ => .refl _
  | ifZero cond target => exact (keeps_loadValue h cond _).lift.bind fun _ => .refl _
  | enter proc => exact Keeps.lift ((keeps_receive h _ _ _).bind fun _ => .refl _)
  | setArg index opd => exact (keeps_passArgument h index opd).lift
  | setRet opd => exact (keeps_loadValue h opd _).lift
  | getRet opd => exact (keeps_storeValue h opd _).lift
  | output opd => exact (keeps_loadValue h opd _).lift.bind fun _ => .refl _
  | input opd =>
    exact (Keeps.refl _).bind fun _ => (keeps_storeValue h opd _).lift.bind fun _ => .refl _
  | goto | nop | call | leave | getArg | mayhem => exact .refl _

end

end Emit.Context

/-! ## Procedures that are alike -/

/-- Quads that do the same, except that calls may go to procedures that differ in everything but
their names and how many formals they have. -/
inductive Op.Alike : Op Signature → Op Signature → Prop where
  | same (op : Op Signature) : Alike op op
  | call {callee callee' : Signature} (name : callee'.name = callee.name)
    (formals : callee'.formals.length = callee.formals.length) :
    Alike (.call callee) (.call callee')

/-- Quads that are alike are shown alike. -/
theorem Op.Alike.text_eq {op op' : Op Signature} (h : op.Alike op') :
    op'.text Signature.name = op.text Signature.name := by
  cases h with
  | same => rfl
  | call name formals => rw [Op.text, Op.text, name]

/-- They have the same code: of a callee it shows only the name and the number of formals. -/
theorem Op.Alike.codeOf_eq {op op' : Op Signature} (h : op.Alike op') (ctx : Context) :
    ctx.codeOf op' = ctx.codeOf op := by
  cases h with
  | same => rfl
  | call name formals =>
    simp only [Context.codeOf, callCode]
    rw [name, formals]

/-- Quads that are alike and have the same labels. -/
structure Quad.Alike (q q' : Quad) : Prop where
  labels : q'.labels = q.labels
  op : q.op.Alike q'.op

/-- Procedures with the same name, variables and labels, and with quads that are alike. -/
structure Procedure.Alike (q q' : Procedure) : Prop where
  name : q'.name = q.name
  temps : q'.temps = q.temps
  locals : q'.locals = q.locals
  formals : q'.formals = q.formals
  addrs : q'.addrs = q.addrs
  enterLabels : q'.enterLabels = q.enterLabels
  leaveLabels : q'.leaveLabels = q.leaveLabels
  body : List.Forall₂ Quad.Alike q.body q'.body

/-- A quad is like itself. -/
theorem Quad.Alike.refl (q : Quad) : q.Alike q := ⟨rfl, .same q.op⟩

/-- A procedure is like itself. -/
theorem Procedure.Alike.refl (q : Procedure) : q.Alike q where
  name := rfl
  temps := rfl
  locals := rfl
  formals := rfl
  addrs := rfl
  enterLabels := rfl
  leaveLabels := rfl
  body := List.forall₂_same.2 fun quad _ => .refl quad

namespace Emit.Context

variable {ctx : Context} {g' : Globals} (h : ctx.globals.Extends g')
include h

/-- The lines of a quad stay, also for one that is alike. -/
theorem keeps_quadItems (index : Nat) {q q' : Quad} (hq : q.Alike q') :
    Keeps (ctx.quadItems index q) ({ ctx with globals := g' }.quadItems index q') := by
  intro items hitems
  have htext : q'.text = q.text := hq.op.text_eq
  unfold quadItems at hitems ⊢
  split at hitems
  · next code hcode =>
    rw [hq.op.codeOf_eq, keeps_codeOf h q.op code hcode, hq.labels, htext]
    exact hitems
  · cases hitems

/-- So do the lines of a body. -/
theorem keeps_bodyItems (index : Nat) {quads quads' : List Quad}
    (hquads : List.Forall₂ Quad.Alike quads quads') :
    Keeps (ctx.bodyItems index quads) ({ ctx with globals := g' }.bodyItems index quads') := by
  induction hquads generalizing index with
  | nil => exact .refl _
  | cons hq _ ih =>
    exact (keeps_quadItems h index hq).bind fun _ => (ih (index + 1)).bind fun _ => .refl _

end Emit.Context

namespace Procedure

variable {q q' : Procedure}

/-- Procedures that are alike are entered alike. -/
theorem Alike.enter (h : q.Alike q') : q'.enter = q.enter := by
  rw [Procedure.enter, Procedure.enter, signature, signature, h.name, h.formals, h.enterLabels]

/-- And they are left alike. -/
theorem Alike.leave (h : q.Alike q') : q'.leave = q.leave := by
  rw [Procedure.leave, Procedure.leave, signature, signature, h.name, h.formals, h.leaveLabels]

/-- They have the same frame. -/
theorem Alike.frame (h : q.Alike q') : Frame.assign q' = Frame.assign q := by
  rw [Frame.assign, Frame.assign, ownedVariables, ownedVariables, h.name, h.temps, h.locals,
    h.formals, h.addrs]

/-- The lines of a procedure stay when the data section grows and callees change inside. -/
theorem keeps_itemsIn (ctx : Context) {g' : Globals} (h : ctx.globals.Extends g')
    (hq : q.Alike q') : Keeps (q.itemsIn ctx) (q'.itemsIn { ctx with globals := g' }) := by
  unfold itemsIn
  rw [hq.enter, hq.leave, hq.name, hq.body.length_eq]
  refine (Context.keeps_quadItems h 0 (.refl _)).bind fun _ => ?_
  refine (Context.keeps_bodyItems h 1 hq.body).bind fun _ => ?_
  exact (Context.keeps_quadItems h _ (.refl _)).bind fun _ => .refl _

/-- The code of a procedure stays the same in a larger data section, and when the procedures that it
calls change behind their names and the number of their formals. -/
theorem keeps_routine {g g' : Globals} (h : g.Extends g') (hq : q.Alike q') :
    Keeps (q.routine g) (q'.routine g') := by
  unfold routine
  rw [hq.frame, hq.formals, hq.name]
  refine (Keeps.refl _).bind fun frame => ?_
  exact (keeps_itemsIn ⟨g, frame, q.formals.length⟩ h hq).bind fun _ => .refl _

end Procedure

/-! ## Programs -/

/-- What was compiled as a part of a program is the code of the procedure. -/
theorem Emit.Compiled.routine_eq {p : Program} {q : Procedure} {ctx : Context} {r : Routine}
    (hc : Compiled p q ctx r) : q.routine ctx.globals = .ok r := by
  obtain ⟨globals, frame, arity⟩ := ctx
  obtain ⟨name, items⟩ := r
  obtain ⟨-, hframe, rfl, rfl, hitems⟩ := hc
  exact bind_eq_ok.2 ⟨frame, liftM_rejection_eq_ok.2 hframe, bind_eq_ok.2 ⟨items, hitems, rfl⟩⟩

namespace Program

variable {p p' : Program} {g g' : Globals}

/-- An assembly consists of the data section and the code of the procedures, whatever the schedule
is. -/
theorem of_assemblyBy {options : Options} {schedule : List TaskEvent} {a : Asm.Assembly}
    (hg : Globals.assign p = .ok g) (hschedule : Group.Complete p.procedures.length schedule)
    (h : p.assemblyBy options schedule = .ok a) :
    a.strings = g.labelledStrings.map (fun x => ⟨x.1, x.2⟩) ∧
      a.globals = g.vars.map (fun v => ⟨globalLabel v.name, v.width⟩) ∧
      List.Forall₂ (fun q fn => ∃ r, q.routine g = .ok r ∧ fn = Routine.function r)
        p.procedures a.functions := by
  obtain ⟨g₀, rs, hg₀, rfl, hall⟩ := parts_of_assemblyBy (fun i hi => hschedule.finish_mem hi) h
  cases hg.symm.trans hg₀
  refine ⟨rfl, rfl, List.forall₂_map_right_iff.2 (hall.imp fun q r hr => ?_)⟩
  obtain ⟨ctx, rfl, hc⟩ := hr
  exact ⟨r, hc.routine_eq, rfl⟩

/-- Programs with more globals and strings at the end have a larger data section. -/
theorem extends_of_assign (hglobals : p.globals <+: p'.globals)
    (hstrings : p.strings <+: p'.strings) (hg : Globals.assign p = .ok g)
    (hg' : Globals.assign p' = .ok g') :
    g.vars <+: g'.vars ∧ g.strings <+: g'.strings := by
  obtain ⟨hvars, htexts, -⟩ := Globals.of_assign hg
  obtain ⟨hvars', htexts', -⟩ := Globals.of_assign hg'
  rw [hvars, hvars', htexts, htexts']
  obtain ⟨more, hmore⟩ := hstrings
  exact ⟨hglobals, hmore ▸ distinct_prefix_append p.strings more⟩

end Program

/-- What is labelled in a data section is labelled in the same way in a larger one. -/
theorem Layout.Globals.labelledStrings_prefix_of {g g' : Globals} (h : g.strings <+: g'.strings) :
    g.labelledStrings <+: g'.labelledStrings := by
  obtain ⟨more, hmore⟩ := h
  rw [labelledStrings, labelledStrings, ← hmore, List.zipIdx_append, List.map_append]
  exact List.prefix_append ..

namespace Draft

/-- A draft in which someone worked on the procedure `k` and kept its name and its formals: the
other procedures have the quads and the labels that they had. -/
structure EditedAt (d : Draft) (k : Nat) (d' : Draft) : Prop where
  signature : d'.signature k = d.signature k
  others : ∀ j, j ≠ k → d'.procedures[j]? = d.procedures[j]?
  ops : ∀ j q, j ≠ k → d.procedures[j]? = some q → ∀ n ∈ q.body,
    d'.quads.getD n .nop = d.quads.getD n .nop
  labels : ∀ j q, j ≠ k → d.procedures[j]? = some q → ∀ n ∈ q.enter :: q.leave :: q.body,
    d'.quadLabels n = d.quadLabels n

/-- Work on one procedure changes no other. -/
theorem EditedAt.procedure_eq {d d' : Draft} {k : Nat} (h : d.EditedAt k d') {j : Nat}
    (hj : j ≠ k) :
    d'.program.procedures[j]? = d.program.procedures[j]? := by
  have hsignature : d'.signature = d.signature := by
    funext i
    by_cases hi : i = k
    · rw [hi, h.signature]
    · rw [Draft.signature, Draft.signature, h.others i hi]
  rw [program, program, List.getElem?_map, List.getElem?_map, h.others j hj]
  cases hq : d.procedures[j]? with
  | none => rfl
  | some q =>
    have hlabels := h.labels j q hj hq
    have hbody : q.body.map d'.quad = q.body.map d.quad := by
      refine List.map_congr_left fun n hn => ?_
      rw [quad, quad, op, op, hsignature, h.ops j q hj hq n hn,
        hlabels n (List.mem_cons_of_mem _ (List.mem_cons_of_mem _ hn))]
    rw [Option.map_some, Option.map_some, procedure, procedure, hbody, hlabels q.enter (by simp),
      hlabels q.leave (by simp)]

end Draft

/-- The code of a procedure depends only on what it uses. Let a program get more globals and strings
at the end. A procedure that has code keeps it, also when the procedures that it calls change in
everything but their names and how many formals they have. So when there is assembly before and
after, the strings and globals stand first that were there before, procedures that are alike have
the same functions, and procedures that are added at the end leave the functions before them as they
are. Work on one procedure that keeps its name and its formals changes no other function. -/
theorem code_depends_on_what_it_uses {p p' : Program} (hglobals : p.globals <+: p'.globals)
    (hstrings : p.strings <+: p'.strings) {g g' : Globals} (hg : Globals.assign p = .ok g)
    (hg' : Globals.assign p' = .ok g') :
    (∀ (q q' : Procedure) r, q.Alike q' → q.routine g = .ok r → q'.routine g' = .ok r) ∧
    ∀ (o o' : Options) s s' a a', Group.Complete p.procedures.length s →
      Group.Complete p'.procedures.length s' →
      p.assemblyBy o s = .ok a → p'.assemblyBy o' s' = .ok a' →
      a.strings <+: a'.strings ∧ a.globals <+: a'.globals ∧
      (∀ (i : Nat) q q', p.procedures[i]? = some q → p'.procedures[i]? = some q' → q.Alike q' →
        a'.functions[i]? = a.functions[i]?) ∧
      (∀ ps more, List.Forall₂ Procedure.Alike p.procedures ps → p'.procedures = ps ++ more →
        a.functions <+: a'.functions) ∧
      ∀ (d d' : Draft) k, d.program = p → d'.program = p' → d.EditedAt k d' →
        ∀ j, j ≠ k → a'.functions[j]? = a.functions[j]? := by
  obtain ⟨hvars, htexts⟩ := Program.extends_of_assign hglobals hstrings hg hg'
  have hkeeps : ∀ (q q' : Procedure) r, q.Alike q' → q.routine g = .ok r → q'.routine g' = .ok r :=
    fun q q' r hq => Procedure.keeps_routine (Globals.extends_of_prefix hvars htexts) hq r
  refine ⟨hkeeps, fun o o' s s' a a' hs hs' ha ha' => ?_⟩
  obtain ⟨hliterals, hsymbols, hfunctions⟩ := Program.of_assemblyBy hg hs ha
  obtain ⟨hliterals', hsymbols', hfunctions'⟩ := Program.of_assemblyBy hg' hs' ha'
  have hsame : ∀ (i : Nat) q q', p.procedures[i]? = some q → p'.procedures[i]? = some q' →
      q.Alike q' → a'.functions[i]? = a.functions[i]? := by
    intro i q q' hq hq' halike
    obtain ⟨fn, hfn, r, hr, rfl⟩ := getElem?_of_forall₂ hfunctions.flip hq
    obtain ⟨fn', hfn', r', hr', rfl⟩ := getElem?_of_forall₂ hfunctions'.flip hq'
    cases (hkeeps q q' r halike hr).symm.trans hr'
    rw [hfn, hfn']
  refine ⟨?_, ?_, hsame, fun ps more hps hmore => ?_, fun d d' k hd hd' hedit j hj => ?_⟩
  · rw [hliterals, hliterals']
    exact (Globals.labelledStrings_prefix_of htexts).map _
  · rw [hsymbols, hsymbols']
    exact hvars.map _
  · rw [List.prefix_iff_getElem?]
    intro i hi
    have hlt : i < p.procedures.length := hfunctions.length_eq ▸ hi
    obtain ⟨q', hq', halike⟩ :=
      getElem?_of_forall₂ hps.flip (List.getElem?_eq_getElem hlt)
    have happend : p'.procedures[i]? = some q' := by
      rw [hmore, List.getElem?_append_left (hps.length_eq ▸ hlt), hq']
    rw [hsame i _ q' (List.getElem?_eq_getElem hlt) happend halike, List.getElem?_eq_getElem hi]
  · have hprocedures := hedit.procedure_eq hj
    rw [hd, hd'] at hprocedures
    cases hq : p.procedures[j]? with
    | some q => exact hsame j q q hq (hprocedures.trans hq) (.refl q)
    | none =>
      have hq' := hprocedures.trans hq
      rw [List.getElem?_eq_none_iff] at hq hq'
      rw [List.getElem?_eq_none (hfunctions'.length_eq ▸ hq'),
        List.getElem?_eq_none (hfunctions.length_eq ▸ hq)]

namespace Widened

def total : Variable := ⟨0, .symbol, "total", 8, .int⟩
def step : Variable := ⟨1, .symbol, "step", 8, .int⟩
def flag : Variable := ⟨2, .symbol, "flag", 1, .bool⟩

/-- Prints a string and calls. -/
def main (callee : Signature) : Procedure where
  name := "main"
  body := [⟨["again"], .output (.lit (.string "done"))⟩, ⟨[], .call callee⟩,
    ⟨[], .getRet (.var total)⟩, ⟨[], .ifZero (.var total) (some "again")⟩]

def before : Procedure where
  name := "f"
  formals := [step]
  body := [⟨[], .setRet (.var step)⟩]

/-- Another procedure with the same name and as many formals. -/
def after : Procedure where
  name := "f"
  formals := [flag]
  body := [⟨["out"], .output (.lit (.string "new"))⟩, ⟨[], .setRet (.var flag)⟩]

/-- The program at first. -/
def program : Program := ⟨[total], ["done"], [main before.signature, before]⟩

/-- The program with more of everything. -/
def wider : Program :=
  ⟨[total, ⟨3, .symbol, "spare", 1, .char⟩], ["done", "done", "new"],
    [main after.signature, after, { name := "g" }]⟩

/-- The two callers differ in what they call only. -/
theorem alike : (main before.signature).Alike (main after.signature) where
  name := rfl
  temps := rfl
  locals := rfl
  formals := rfl
  addrs := rfl
  enterLabels := rfl
  leaveLabels := rfl
  body := .cons (.refl _) (.cons ⟨rfl, .call rfl rfl⟩ (.cons (.refl _) (.cons (.refl _) .nil)))

end Widened

open Widened in
/-- The caller keeps its function when the procedure that it calls is replaced and more globals,
strings and procedures come. -/
theorem widened_keeps_main : main before.signature ≠ main after.signature ∧
    ∃ a a', program.assemblyBy {} (Group.inOrder 2) = .ok a ∧
      wider.assemblyBy { parallel := true } (Group.inOrder 3) = .ok a' ∧
      a.strings <+: a'.strings ∧ a.globals <+: a'.globals ∧
      a'.functions[0]? = a.functions[0]? := by
  obtain ⟨a, ha⟩ : ∃ a, program.assemblyBy {} (Group.inOrder 2) = .ok a := ⟨_, rfl⟩
  obtain ⟨a', ha'⟩ : ∃ a', wider.assemblyBy { parallel := true } (Group.inOrder 3) = .ok a' :=
    ⟨_, rfl⟩
  have hglobals : program.globals <+: wider.globals := by decide
  have hstrings : program.strings <+: wider.strings := by decide
  obtain ⟨hstrings, hglobals, hfunctions, -⟩ :=
    (code_depends_on_what_it_uses hglobals hstrings rfl rfl).2 _ _ _ _ a a'
      (Group.complete_inOrder 2) (Group.complete_inOrder 3) ha ha'
  exact ⟨by decide, a, a', ha, ha', hstrings, hglobals, hfunctions 0 _ _ rfl rfl alike⟩

end QuadAsm
