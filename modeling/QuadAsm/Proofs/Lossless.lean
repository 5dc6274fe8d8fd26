import QuadAsm.Proofs.Asm.Reading
import QuadAsm.Proofs.Asm.Write
import QuadAsm.Proofs.Emit.Lines
import QuadAsm.Proofs.Parallel

/-!
# Nothing is lost in the text

If the names in a program are words, and other operands have no line break in theirs, then every
line of its code can be read off the text (`Compiled.exists_written`). So programs with the same
text have the same assembly, up to where functions end (`text_loses_nothing`).
-/

namespace QuadAsm

open Bytes Emit Layout Machine

/-! ## Names -/

/-- A variable has no line break in its name. -/
def Operand.Legible : Operand → Prop
  | .var v => IsLine v.name
  | .lit _ | .absent => True

/-- The symbols that a quad names are words, and its operands are legible. -/
def Op.WellNamed : Op Signature → Prop
  | .binary _ src1 src2 dst => src1.Legible ∧ src2.Legible ∧ dst.Legible
  | .unary _ src dst | .assign src dst | .addrOf src dst => src.Legible ∧ dst.Legible
  | .goto target => ∀ l ∈ target, IsWord l
  | .ifZero cond target => cond.Legible ∧ ∀ l ∈ target, IsWord l
  | .nop => True
  | .call proc | .enter proc | .leave proc => IsWord proc.name
  | .setArg _ opd | .getArg _ opd | .setRet opd | .getRet opd | .output opd | .input opd
    | .mayhem opd => opd.Legible

/-- The names in a procedure are words, and its operands are legible. -/
structure Procedure.WellNamed (q : Procedure) : Prop where
  name : IsWord q.name
  labels : ∀ quad ∈ q.quads, ∀ l ∈ quad.labels, IsWord l
  body : ∀ quad ∈ q.body, quad.op.WellNamed

/-- The names in a program are words, and its operands are legible. -/
structure Program.WellNamed (p : Program) : Prop where
  globals : ∀ v ∈ p.globals, IsWord v.name
  procedures : ∀ q ∈ p.procedures, q.WellNamed

/-- All quads of such a procedure are well named, those that enter and leave too. -/
theorem Procedure.WellNamed.op {q : Procedure} (h : q.WellNamed) :
    ∀ quad ∈ q.quads, quad.op.WellNamed := by
  intro quad hquad
  rcases Procedure.mem_quads.1 hquad with rfl | hbody | rfl
  · exact h.name
  · exact h.body quad hbody
  · exact h.name

/-! ## Comments -/

/-- A literal is shown on one line. -/
theorem Literal.isLine_shown (l : Literal) : IsLine l.shown := by
  have hbool (b : Bool) : IsLine (boolText b) := by cases b <;> decide
  have hdigits (n : Nat) : IsLine (digits 16 1 n) := isLine_digits (by decide) (by decide) 1 n
  cases l with
  | int n => exact isLine_ofWord n
  | bool b => exact hbool b
  | char c => simp +decide [shown, text, Except.toOption]
  | string s => simp +decide [shown, text, Except.toOption]
  | malformed code stored => simp +decide [shown, dump, hbool, hdigits]

/-- A legible operand is shown on one line. -/
theorem Operand.Legible.isLine_text {opd : Operand} (h : opd.Legible) : IsLine opd.text := by
  cases opd with
  | var v =>
    have h : IsLine v.name := h
    cases hf : v.form <;> simp +decide [Operand.text, Variable.text, hf, h]
  | lit l => exact l.isLine_shown
  | absent => decide

/-- The names of operators with two operands have no line break. -/
theorem BinOp.isLine_name (op : BinOp) : IsLine op.name := by
  cases op with
  | unknown n => simp +decide [name]
  | _ => decide

/-- The names of operators with one operand have no line break. -/
theorem UnOp.isLine_name (op : UnOp) : IsLine op.name := by
  cases op with
  | unknown n => simp +decide [name]
  | _ => decide

/-- A jump target that is a word is shown on one line. -/
theorem Op.isLine_targetText {target : Option Bytes} (h : ∀ l ∈ target, IsWord l) :
    IsLine (targetText target) := by
  cases target with
  | none => decide
  | some l => exact (h l rfl).isLine

/-- A quad is shown on one line. -/
theorem Op.isLine_text {op : Op Signature} (h : op.WellNamed) :
    IsLine (op.text Signature.name) := by
  cases op with
  | binary op src1 src2 dst =>
    simp +decide [text, h.1.isLine_text, h.2.1.isLine_text, h.2.2.isLine_text, op.isLine_name]
  | unary op src dst => simp +decide [text, h.1.isLine_text, h.2.isLine_text, op.isLine_name]
  | assign src dst | addrOf src dst => simp +decide [text, h.1.isLine_text, h.2.isLine_text]
  | goto target => simp +decide [text, isLine_targetText h]
  | ifZero cond target => simp +decide [text, h.1.isLine_text, isLine_targetText h.2]
  | nop => decide
  | call proc | enter proc | leave proc => simp +decide [text, h.isLine]
  | setArg | getArg | setRet | getRet | output | input | mayhem =>
    simp +decide [text, h.isLine_text]

/-- Every quad is shown as something. -/
theorem Op.text_ne_nil (op : Op Signature) : op.text Signature.name ≠ [] := by
  cases op <;> simp +decide [text]

/-- The comments in the code of a procedure can be told from its other lines. -/
theorem Procedure.WellNamed.isLine_of_mem_remarks {q : Procedure} (h : q.WellNamed) {size : Int}
    {j : Nat} {text : Bytes} (htext : text ∈ q.remarks size j) : text ≠ [] ∧ IsLine text := by
  have hname := h.name.isLine
  simp only [remarks, List.mem_append, List.mem_ite_nil_right, List.mem_singleton] at htext
  rcases htext with (⟨-, rfl⟩ | ⟨-, rfl⟩) | ⟨-, rfl⟩
  · exact ⟨by simp +decide, by simp +decide⟩
  · exact ⟨by simp +decide, by simp +decide [hname]⟩
  · exact ⟨by simp +decide, by simp +decide [hname]⟩

/-! ## Instructions -/

namespace Layout

/-- The label of a global is a word if its name is. -/
theorem isWord_globalLabel {name : Bytes} (h : IsWord name) : IsWord (globalLabel name) :=
  IsWord.append (by decide) h.all

/-- The label of a string is a word. -/
theorem isWord_stringLabel (i : Nat) : IsWord (stringLabel i) := by
  have hdigits : ∀ b ∈ ofNat i, isWordByte b = true := by
    intro b hb
    simp [isWordByte, isDigit_of_mem_ofNat hb]
  exact IsWord.append (by decide) hdigits

end Layout

namespace Machine

/-- The name of a register is a word. -/
theorem Register.isWord_fullName (r : Register) : IsWord r.fullName := by
  cases r <;> decide

/-- The name of its low byte is a word. -/
theorem Register.isWord_lowName (r : Register) : IsWord r.lowName := by
  cases r <;> decide

/-- The name of a routine is a word. -/
theorem Service.isWord_name (service : Service) : IsWord service.name := by
  rcases service with channel | channel <;> cases channel <;> decide

/-- A label in memory is a word. -/
def Memory.WellNamed : Memory → Prop
  | .base _ _ => True
  | .data label => IsWord label

/-- The symbols that an instruction names are words, and it does not ask for the address that a
register holds already: that would be written as the register. -/
def Instr.WellNamed : Instr → Prop
  | .load _ src _ => src.WellNamed
  | .store _ _ dst => dst.WellNamed
  | .address src _ => src.WellNamed ∧ ∀ reg, src ≠ .base reg 0
  | .jump l | .jumpIfEqual l | .call l => IsWord l
  | _ => True

/-- Memory whose label is a word can be read off an argument. -/
theorem Memory.exists_written {m : Memory} (h : m.WellNamed) : ∃ ts, m.arg.Written false ts := by
  cases m with
  | base reg offset =>
    by_cases ho : offset = 0
    · subst ho
      exact ⟨_, .base reg.isWord_fullName rfl⟩
    · exact ⟨_, .offset reg.isWord_fullName ho⟩
  | data label => exact ⟨_, .data h⟩

/-- So can its address, unless it is only in a register. -/
theorem Memory.exists_written_asAddress {m : Memory} (h : m.WellNamed)
    (hbase : ∀ reg, m ≠ .base reg 0) : ∃ ts, m.arg.asAddress.Written true ts := by
  cases m with
  | base reg offset =>
    refine ⟨_, .offset reg.isWord_fullName ?_⟩
    rintro rfl
    exact hbase reg rfl
  | data label => exact ⟨_, .data h⟩

/-- The name of an arithmetic instruction is a word. -/
theorem Arith.isWord_mnemonic (op : Arith) : IsWord op.mnemonic := by
  cases op <;> decide

/-- The name of an instruction that takes the result of a comparison is a word. -/
theorem Condition.isWord_mnemonic (cond : Condition) : IsWord cond.mnemonic := by
  cases cond <;> decide

/-- The name of every instruction is a word. -/
theorem Instr.isWord_op (i : Instr) : IsWord i.line.op := by
  cases i with
  | load size | store size => cases size <;> dsimp only [line, binaryLine] <;> decide
  | arith op | arithConst op => exact op.isWord_mnemonic
  | set cond => exact cond.isWord_mnemonic
  | _ =>
    dsimp only [line, plainLine, unaryLine, binaryLine]
    decide

/-- An instruction can be read off its text. -/
theorem Instr.exists_written {i : Instr} (h : i.WellNamed) : ∃ ts, i.line.Written ts := by
  have hop := i.isWord_op
  have hreg (r : Register) : r.arg.Written false _ := .reg r.isWord_fullName
  have hlow (r : Register) : r.lowArg.Written false _ := .reg r.isWord_lowName
  cases i with
  | load size src dst =>
    obtain ⟨ts, hts⟩ := Memory.exists_written h
    cases size <;> exact ⟨_, .binary hop hts (hreg dst)⟩
  | store size src dst =>
    obtain ⟨ts, hts⟩ := Memory.exists_written h
    cases size with
    | byte => exact ⟨_, .binary hop (hlow src) hts⟩
    | word => exact ⟨_, .binary hop (hreg src) hts⟩
  | move src dst => exact ⟨_, .binary hop (hreg src) (hreg dst)⟩
  | constant value dst => exact ⟨_, .binary hop (.imm value) (hreg dst)⟩
  | address src dst =>
    obtain ⟨ts, hts⟩ := Memory.exists_written_asAddress h.1 h.2
    exact ⟨_, .binary hop hts (hreg dst)⟩
  | widen reg => exact ⟨_, .binary hop (hlow reg) (hreg reg)⟩
  | arith op src dst => cases op <;> exact ⟨_, .binary hop (hreg src) (hreg dst)⟩
  | arithConst op value dst => cases op <;> exact ⟨_, .binary hop (.imm value) (hreg dst)⟩
  | set cond reg => exact ⟨_, .unary hop (hlow reg)⟩
  | negate reg | divide reg | push reg | pop reg => exact ⟨_, .unary hop (hreg reg)⟩
  | jump target | jumpIfEqual target | call target => exact ⟨_, .unary hop (.label h)⟩
  | extendSign | ret | nop => exact ⟨_, .plain hop⟩

end Machine

namespace Emit.Compiled

variable {p : Program} {q : Procedure} {ctx : Context} {r : Routine}

/-- What the code of a procedure addresses lies at a label or below the frame pointer. -/
theorem wellNamed_of_addresses (hc : Compiled p q ctx r) (hp : p.WellNamed) {m : Memory}
    (h : ctx.Addresses m) : m.WellNamed ∧ ∀ reg, m ≠ .base reg 0 := by
  rcases h with ⟨v, hv⟩ | ⟨text, label, hlabel, rfl⟩
  · rcases Context.storage_cases hv with ⟨o, ho, rfl⟩ | ⟨hglobal, rfl⟩
    · obtain ⟨i, -, -, rfl⟩ := Frame.offset?_eq_some hc.frame ho
      refine ⟨trivial, fun reg he => ?_⟩
      have hoffset := (Memory.base.inj he).2
      omega
    · rw [(Globals.of_assign hc.globals).1] at hglobal
      exact ⟨isWord_globalLabel (hp.globals v hglobal), by rintro reg ⟨⟩⟩
  · obtain ⟨i, -, rfl⟩ := Globals.exists_of_stringLabel hlabel
    exact ⟨isWord_stringLabel i, by rintro reg ⟨⟩⟩

/-- The memory that code reaches has words for labels. -/
theorem wellNamed_of_reaches (hc : Compiled p q ctx r) (hp : p.WellNamed) {m : Memory}
    (h : ctx.Reaches m) : m.WellNamed := by
  rcases h with haddress | ⟨reg, -, rfl⟩
  · exact (hc.wellNamed_of_addresses hp haddress).1
  · trivial

/-- The instructions for a well-named quad have words for labels. -/
theorem wellNamed_of_emits (hc : Compiled p q ctx r) (hp : p.WellNamed) {op : Op Signature}
    (hop : op.WellNamed) {i : Instr} (h : ctx.Emits op i) : i.WellNamed := by
  cases i with
  | load size src dst =>
    rcases h with hreach | ⟨-, -, proc, position, -, -, -, rfl⟩
    · exact hc.wellNamed_of_reaches hp hreach
    · trivial
  | store size src dst => exact hc.wellNamed_of_reaches hp h
  | address src dst => exact hc.wellNamed_of_addresses hp h
  | jump l =>
    cases (h : op = _)
    exact hop l rfl
  | jumpIfEqual l =>
    obtain ⟨cond, rfl⟩ := h
    exact hop.2 l rfl
  | call l =>
    rcases h with ⟨callee, rfl, rfl⟩ | ⟨service, -, rfl⟩
    · exact hop
    · exact service.isWord_name
  | move | constant | widen | arith | arithConst | negate | extendSign | divide | set | push | pop
    | ret | nop => trivial

/-- A line of a function can be read off its text. -/
theorem exists_written (hc : Compiled p q ctx r) (hp : p.WellNamed) (hq : q.WellNamed) {item : Item}
    (h : item ∈ r.items) : ∃ ts, item.line.Written ts := by
  obtain ⟨blocks, -, hitems⟩ := Procedure.items_of_itemsIn hc.items
  have hlines := h
  rw [hitems] at hlines
  rcases Procedure.mem_items hlines with ⟨j, text, htext, rfl⟩ | ⟨quad, hquad, block, hitem⟩
  · obtain ⟨hne, hline⟩ := hq.isLine_of_mem_remarks htext
    exact ⟨_, .comment hne hline⟩
  · rcases List.mem_append.1 hitem with hlabel | hcode
    · obtain ⟨l, hl, rfl⟩ := List.mem_map.1 hlabel
      exact ⟨_, .label (hq.labels quad hquad l hl)⟩
    · rcases List.mem_cons.1 hcode with rfl | hcode
      · exact ⟨_, .comment (Op.text_ne_nil _) (Op.isLine_text (hq.op quad hquad))⟩
      · obtain ⟨i, -, rfl⟩ := List.mem_map.1 hcode
        obtain ⟨quad, hquad, hemits⟩ := hc.emits h
        exact Instr.exists_written (hc.wellNamed_of_emits hp (hq.op quad hquad) hemits)

end Emit.Compiled

/-! ## Programs -/

/-- An assembly for a program whose names are words. -/
def Asm.Assembly.Generated (a : Asm.Assembly) : Prop :=
  ∃ (p : Program) (options : Options) (schedule : List TaskEvent), p.WellNamed ∧
    IsWord options.symbol ∧ Group.Complete p.procedures.length schedule ∧
    p.assemblyBy options schedule = .ok a

/-- An assembly that was generated can be read off its text. -/
theorem Asm.Assembly.Generated.exists_written {a : Asm.Assembly} (h : a.Generated) :
    ∃ rows, a.Written rows := by
  obtain ⟨p, options, schedule, hp, hentry, hs, ha⟩ := h
  obtain ⟨g, hg, ha⟩ := bind_eq_ok.1 ha
  obtain ⟨rs, hrs, ha⟩ := bind_eq_ok.1 ha
  cases pure_eq_ok.1 ha
  have hg := liftM_rejection_eq_ok.1 hg
  have hroutines := Program.forall₂_of_routinesBy (fun i hi => hs.finish_mem hi) hrs
  -- every line has a row, since it belongs to the code of a procedure
  have hlines : ∀ l ∈ (rs.map Routine.function).flatMap fun f => { label := f.name } :: f.lines,
      ∃ ts, Asm.Line.Written l ts := by
    intro l hl
    rw [List.flatMap_map] at hl
    obtain ⟨r, hr, hl⟩ := List.mem_flatMap.1 hl
    obtain ⟨q, hq, hroutine⟩ := exists_of_forall₂ hroutines.flip hr
    obtain ⟨ctx, -, hc⟩ := Procedure.compiled_of_routineIn hg hroutine
    rcases List.mem_cons.1 hl with rfl | hl
    · have hname : IsWord r.name := hc.name ▸ (hp.procedures q hq).name
      exact ⟨_, .label hname⟩
    · obtain ⟨item, hitem, rfl⟩ := List.mem_map.1 hl
      exact hc.exists_written hp (hp.procedures q hq) hitem
  obtain ⟨rows, hrows⟩ := exists_forall₂ hlines
  refine ⟨rows, hentry, ?_, ?_, hrows⟩
  · simp only [Globals.labelledStrings, List.map_map, List.forall_mem_map]
    exact fun s _ => isWord_stringLabel s.2
  · rw [(Globals.of_assign hg).1]
    exact List.forall_mem_map.2 fun v hv => isWord_globalLabel (hp.globals v hv)

/-- Whoever has the text has the assembly: the entry, the strings and the globals with their labels,
and the lines of the code. They show also which arguments are dereferenced, although the text of an
argument does not. -/
theorem text_loses_nothing {a a' : Asm.Assembly} (h : a.Generated) (h' : a'.Generated)
    (out : Bytes) :
    ∃ t t', a.write.on out = (.ok (), out ++ t) ∧ a'.write.on out = (.ok (), out ++ t') ∧
      (t = t' ↔ a.entry = a'.entry ∧ a.strings = a'.strings ∧ a.globals = a'.globals ∧
        a.lines = a'.lines) := by
  obtain ⟨rows, hrows⟩ := h.exists_written
  obtain ⟨rows', hrows'⟩ := h'.exists_written
  refine ⟨_, _, Asm.Assembly.on_write_of_ok hrows.text out,
    Asm.Assembly.on_write_of_ok hrows'.text out, ?_⟩
  rw [← hrows.text_eq_iff hrows', hrows.text, hrows'.text, Except.ok.injEq]

namespace Twins

/-- Prints a text. -/
def main (text : Bytes) : Procedure where
  name := "main"
  body := [⟨["here"], .output (.lit (.string text))⟩]

/-- A program that prints a text. -/
def program (text : Bytes) : Program := ⟨[], [text], [main text]⟩

/-- The instructions of the quads of `main`. -/
def blocks : List (List Instr) := [
  [.push .rbp, .move .rsp .rbp, .arithConst .add 8 .rbp],
  [.address (.data "str_0") .rdi, .call "printString"],
  [.pop .rbp, .ret]]

/-- The assembly. -/
def assembly (text : Bytes) : Asm.Assembly where
  entry := "main"
  strings := [⟨"str_0", text⟩]
  functions := [Routine.function ⟨"main", (main text).items 0 blocks⟩]

/-- The names in the program are words, whatever the text is. -/
theorem wellNamed (text : Bytes) : (program text).WellNamed where
  globals := List.forall_mem_nil _
  procedures := List.forall_mem_singleton.2 {
    name := show IsWord "main" by decide +kernel
    labels := by
      have hhere : IsWord "here" := by decide +kernel
      simp [Procedure.quads, main, Procedure.enter, Procedure.leave, hhere]
    body := List.forall_mem_singleton.2 trivial }

/-- Its assembly is one that a program has. -/
theorem generated {text : Bytes} (h : (program text).assembly {} = .ok (assembly text)) :
    (assembly text).Generated :=
  ⟨program text, {}, _, wellNamed text, by decide +kernel, Group.complete_inOrder _, h⟩

end Twins

open Twins in
/-- A line break and the two characters that stand for it are told apart. -/
theorem twins_differ : (assembly "\n").Generated ∧ (assembly "\\n").Generated ∧
    ∃ t t', (assembly "\n").write.on [] = (.ok (), t) ∧
      (assembly "\\n").write.on [] = (.ok (), t') ∧ t ≠ t' := by
  have h : (assembly "\n").Generated := generated rfl
  have h' : (assembly "\\n").Generated := generated rfl
  obtain ⟨t, t', ht, ht', hiff⟩ := text_loses_nothing h h' []
  refine ⟨h, h', t, t', ht, ht', fun he => ?_⟩
  exact absurd (hiff.1 he).2.1 (by decide)

end QuadAsm
