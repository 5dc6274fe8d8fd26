import QuadAsm.Proofs.Source.Accept

/-!
# Programs say what their files say

A program that was built from a file declares what the file declares, in the same order, and its
quads stand for the declared ones: a bare name is the variable of the procedure with that name, or
else the global, a call goes to the procedure that it names, and the strings are those of the file
and of its quads, each where it first occurs (`built_program_is_faithful`).
-/

namespace QuadAsm

/-- Where names are unique, the element that a search by name finds is the only one. -/
theorem filter_eq_of_find? {α : Type} {l : List α} {name : α → Bytes} {n : Bytes} {a : α}
    (hnodup : (l.map name).Nodup) (h : l.find? (name · == n) = some a) :
    l.filter (name · = n) = [a] := by
  induction l with
  | nil => cases h
  | cons b rest ih =>
    obtain ⟨hb, hrest⟩ := List.nodup_cons.1 hnodup
    rw [List.find?_cons] at h
    cases hbn : name b == n with
    | true =>
      rw [hbn] at h
      cases h
      obtain rfl := eq_of_beq hbn
      rw [List.filter_cons_of_pos (by simp), List.filter_eq_nil_iff.2]
      intro c hc he
      exact hb (List.mem_map.2 ⟨c, hc, by simpa using he⟩)
    | false =>
      rw [hbn] at h
      rw [List.filter_cons_of_neg (by simpa using hbn), ih hrest h]

/-- The variables of a procedure, in the order in which a name is looked up. -/
def Procedure.owned (q : Procedure) : List Variable := q.temps ++ q.addrs ++ q.locals ++ q.formals

/-- All variables of a program. -/
def Program.declared (p : Program) : List Variable :=
  p.globals ++ p.procedures.flatMap (·.owned)

namespace Source

/-! ## What files say -/

/-- The variable that a symbol declares: a word if no width is given, and an integer if no kind
is. -/
structure SymbolDecl.Declares (form : Form) (d : SymbolDecl) (v : Variable) : Prop where
  form : v.form = form
  name : v.name = d.name
  width : v.width = if d.width = 0 then 8 else d.width
  kind : if d.kind = [] then v.kind = .int else v.kind ∈ Kind.all ∧ v.kind.name = d.kind

/-- The operand that a reference means. Of several literals the first counts; a bare name is that of
a variable of the procedure if there is one, and otherwise that of a global. -/
inductive OperandRef.Refers (own globals : List Variable) (r : OperandRef) : Operand → Prop where
  | int {n : Int64} (int : r.int = some n) : Refers own globals r (.lit (.int n))
  | bool {b : Bool} (int : r.int = none) (bool : r.bool = some b) :
    Refers own globals r (.lit (.bool b))
  | char {c : UInt8} (int : r.int = none) (bool : r.bool = none) (char : r.char = some c) :
    Refers own globals r (.lit (.char c))
  | string {text : Bytes} (int : r.int = none) (bool : r.bool = none) (char : r.char = none)
    (str : r.str = some text) : Refers own globals r (.lit (.string text))
  | own {v : Variable} (bare : ¬ r.IsLiteral) (named : own.filter (·.name = r.name) = [v]) :
    Refers own globals r (.var v)
  | global {v : Variable} (bare : ¬ r.IsLiteral) (free : r.name ∉ own.map (·.name))
    (named : globals.filter (·.name = r.name) = [v]) : Refers own globals r (.var v)

/-- The text that a reference gives, if it gives no other literal. -/
def OperandRef.texts : Option OperandRef → List Bytes
  | some { int := none, bool := none, char := none, str := some text, .. } => [text]
  | _ => []

/-- The texts among the operands of a quad. -/
def QuadDecl.texts (q : QuadDecl) : List Bytes :=
  match Opcode.ofName? q.op with
  | some code => (code.operands q).flatMap OperandRef.texts
  | none => []

/-- What names in a procedure of a program mean. -/
def File.reading (f : File) (p : Program) (q : Procedure) : Reading where
  operand ref opd := ∃ r, ref = some r ∧ r.Refers q.owned p.globals opd
  label l := l ≠ [] ∧ l ∈ f.procedures.flatMap (·.labels)
  callee name proc :=
    ∃ callee, p.procedures.filter (·.name = name) = [callee] ∧ proc = callee.signature

/-- The procedure of a program that a declaration stands for. -/
structure File.Says (f : File) (p : Program) (d : ProcedureDecl) (q : Procedure) : Prop where
  name : q.name = d.name
  temps : List.Forall₂ (SymbolDecl.Declares .temporary) d.temps q.temps
  locals : List.Forall₂ (SymbolDecl.Declares .symbol) d.locals q.locals
  formals : List.Forall₂ (SymbolDecl.Declares .symbol) d.formals q.formals
  addrs : List.Forall₂ (SymbolDecl.Declares .pointer) d.addrs q.addrs
  body : List.Forall₂ (fun decl quad =>
    ∃ code : Opcode, decl.op = code.name ∧ code.Makes (f.reading p q) decl quad.op) d.body q.body

/-- A program that says what a file says. -/
structure File.Faithful (f : File) (p : Program) : Prop where
  globals : List.Forall₂ (SymbolDecl.Declares .symbol) f.globals p.globals
  procedures : List.Forall₂ (f.Says p) f.procedures p.procedures
  /-- No variable stands for two declarations. -/
  identities : (p.declared.map (·.id)).Nodup
  strings : p.strings =
    (f.strings ++ f.procedures.flatMap fun d => d.body.flatMap (·.texts)).eraseDups
  distinct : p.strings.Nodup

/-! ## Variables -/

/-- Declarations that were accepted declare their variables, in order. -/
theorem declares_variablesFrom {start : Nat} {form : Form} {ds : List SymbolDecl}
    (h : ∀ d ∈ ds, d.check = .ok ()) :
    List.Forall₂ (SymbolDecl.Declares form) ds (variablesFrom start form ds) := by
  refine forall₂_of_getElem? (by simp [variablesFrom]) fun i d v hd hv => ?_
  simp only [variablesFrom, List.getElem?_map, List.getElem?_zipIdx, hd, Option.map_some,
    Option.some.injEq] at hv
  subst hv
  refine ⟨rfl, rfl, rfl, ?_⟩
  have hkind := (SymbolDecl.check_eq_ok.1 (h d (List.mem_of_getElem? hd))).kind
  split
  · next he =>
    rw [SymbolDecl.toVariable, SymbolDecl.kind?, he]
    rfl
  · next hne =>
    obtain ⟨kind, hfind⟩ : ∃ kind, Kind.ofName? d.kind = some kind := by
      rw [Kind.ofName?, exists_find?_name]
      exact (List.mem_cons.1 hkind).resolve_left hne
    have hkind? : d.kind?.getD .int = kind := by
      rw [SymbolDecl.kind?, if_neg (by simpa using hne), hfind]
      rfl
    simp only [SymbolDecl.toVariable, hkind?]
    exact ⟨List.mem_of_find?_eq_some hfind,
      eq_of_beq (List.find?_some (p := fun kind : Kind => kind.name == d.kind) hfind)⟩

/-- The variables of procedures are numbered one by one. -/
theorem map_id_ownedFrom (start : Nat) (ds : List ProcedureDecl) :
    ((ownedFrom start ds).flatMap (·.2.all)).map (·.id) =
      List.range' start (ds.flatMap (·.symbols)).length := by
  induction ds generalizing start with
  | nil => rfl
  | cons d rest ih =>
    rw [ownedFrom, List.flatMap_cons, List.map_append, ih, ProcedureDecl.map_id_owned,
      List.range'_append_1, List.flatMap_cons, List.length_append]

/-! ## Quads -/

/-- What a quad stands for, when names can mean more. -/
theorem Opcode.Makes.mono {m m' : Reading} {q : QuadDecl} {code : Opcode} {op : Op Signature}
    (h : code.Makes m q op) (hoperand : ∀ ref opd, m.operand ref opd → m'.operand ref opd)
    (hlabel : ∀ l, m.label l → m'.label l)
    (hcallee : ∀ name proc, m.callee name proc → m'.callee name proc) : code.Makes m' q op := by
  cases h with
  | binop hknown hname hsrc hdst hsrc2 =>
    exact .binop hknown hname (hoperand _ _ hsrc) (hoperand _ _ hdst) (hoperand _ _ hsrc2)
  | unop hknown hname hsrc hdst =>
    exact .unop hknown hname (hoperand _ _ hsrc) (hoperand _ _ hdst)
  | assign hsrc hdst => exact .assign (hoperand _ _ hsrc) (hoperand _ _ hdst)
  | addrof hsrc hdst => exact .addrof (hoperand _ _ hsrc) (hoperand _ _ hdst)
  | goto htarget => exact .goto (hlabel _ htarget)
  | ifz hsrc htarget => exact .ifz (hoperand _ _ hsrc) (hlabel _ htarget)
  | nop => exact .nop
  | call hproc => exact .call (hcallee _ _ hproc)
  | setarg hle hsrc => exact .setarg hle (hoperand _ _ hsrc)
  | getarg hle hdst => exact .getarg hle (hoperand _ _ hdst)
  | setret hsrc => exact .setret (hoperand _ _ hsrc)
  | output hsrc => exact .output (hoperand _ _ hsrc)
  | mayhem hsrc => exact .mayhem (hoperand _ _ hsrc)
  | getret hdst => exact .getret (hoperand _ _ hdst)
  | input hdst => exact .input (hoperand _ _ hdst)

/-- The texts in a quad are those that its declaration gives. -/
theorem Opcode.Makes.stringsOf_eq {m : Reading} {q : QuadDecl} {code : Opcode}
    {op : Op Signature} (h : code.Makes m q op)
    (htexts : ∀ ref opd, m.operand ref opd → stringOf opd = OperandRef.texts ref) :
    stringsOf op = (code.operands q).flatMap OperandRef.texts := by
  cases h with
  | binop _ _ hsrc hdst hsrc2 =>
    simp [stringsOf, operands, htexts _ _ hsrc, htexts _ _ hdst, htexts _ _ hsrc2]
  | unop _ _ hsrc hdst | assign hsrc hdst | addrof hsrc hdst =>
    simp [stringsOf, operands, htexts _ _ hsrc, htexts _ _ hdst]
  | ifz hsrc | setarg _ hsrc | setret hsrc | output hsrc | mayhem hsrc =>
    simp [stringsOf, operands, htexts _ _ hsrc]
  | getarg _ hdst | getret hdst | input hdst => simp [stringsOf, operands, htexts _ _ hdst]
  | goto | nop | call => rfl

/-- A reference that means a text gives it. -/
theorem OperandRef.Refers.texts_eq {own globals : List Variable} {r : OperandRef} {opd : Operand}
    (h : r.Refers own globals opd) : stringOf opd = OperandRef.texts (some r) := by
  obtain ⟨name, int, bool, char, str⟩ := r
  cases h with
  | int hint =>
    cases hint
    rfl
  | bool hint hbool =>
    cases hint
    cases hbool
    rfl
  | char hint hbool hchar =>
    cases hint
    cases hbool
    cases hchar
    rfl
  | string hint hbool hchar hstr =>
    cases hint
    cases hbool
    cases hchar
    cases hstr
    rfl
  | own hbare | global hbare =>
    have hnone : int = none ∧ bool = none ∧ char = none ∧ str = none := by
      simpa [IsLiteral] using hbare
    obtain ⟨rfl, rfl, rfl, rfl⟩ := hnone
    rfl

/-- A literal is the first that a reference gives. -/
theorem OperandRef.refers_of_literal? {own globals : List Variable} {r : OperandRef} {l : Literal}
    (h : r.literal? = some l) : r.Refers own globals (.lit l) := by
  obtain ⟨name, int, bool, char, str⟩ := r
  cases int with
  | some n =>
    cases h
    exact .int rfl
  | none =>
    cases bool with
    | some b =>
      cases h
      exact .bool rfl rfl
    | none =>
      cases char with
      | some c =>
        cases h
        exact .char rfl rfl rfl
      | none =>
        cases str with
        | some text =>
          cases h
          exact .string rfl rfl rfl rfl
        | none => cases h

/-- A lookup finds what the reference means, where names are unique. -/
theorem Scope.refers_of_operand {s : Scope} {own globals : List Variable}
    (hknown : s.known = own ++ globals) (hown : (own.map (·.name)).Nodup)
    (hglobals : (globals.map (·.name)).Nodup) {field : Bytes} {ref : Option OperandRef}
    {opd : Operand} (h : s.operand field ref = .ok opd) :
    ∃ r, ref = some r ∧ r.Refers own globals opd := by
  cases ref with
  | none => cases h
  | some r =>
    refine ⟨r, rfl, ?_⟩
    simp only [operand] at h
    cases hl : r.literal? with
    | some l =>
      rw [hl] at h
      cases h
      exact OperandRef.refers_of_literal? hl
    | none =>
      have hbare : ¬ r.IsLiteral := by
        rw [← OperandRef.isSome_literal?, hl]
        simp
      rw [hl, hknown, List.find?_append] at h
      cases hfind : own.find? (·.name == r.name) with
      | some v =>
        rw [hfind] at h
        cases h
        exact .own hbare (filter_eq_of_find? hown hfind)
      | none =>
        have hfree : r.name ∉ own.map (·.name) := by
          rw [← exists_find?_name, hfind]
          simp
        rw [hfind, Option.none_or] at h
        cases hglobal : globals.find? (·.name == r.name) with
        | some v =>
          rw [hglobal] at h
          cases h
          exact .global hbare hfree (filter_eq_of_find? hglobals hglobal)
        | none =>
          rw [hglobal] at h
          cases h

/-! ## Programs -/

namespace File

variable {f : File} {p : Program}

/-- A name that can be called is that of one procedure of the program. -/
theorem callee_of_scope (h : f.build = .ok p) {o : Owned} {name : Bytes} {proc : Signature}
    (hcallee : (f.scope o).callee name = .ok proc) :
    ∃ callee, p.procedures.filter (·.name = name) = [callee] ∧ proc = callee.signature := by
  have hsig : (f.scope o).procedures = p.procedures.map (·.signature) := (map_signature h).symm
  rw [Scope.callee, hsig, List.find?_map] at hcallee
  cases hfind : p.procedures.find? (·.name == name) with
  | none =>
    rw [show p.procedures.find? ((·.name == name) ∘ Procedure.signature) = none from hfind]
      at hcallee
    cases hcallee
  | some callee =>
    rw [show p.procedures.find? ((·.name == name) ∘ Procedure.signature) = some callee from hfind]
      at hcallee
    cases hcallee
    exact ⟨callee, filter_eq_of_find? (nodup_names h) hfind, rfl⟩

/-- The variables of a procedure are those that its names were looked up among. -/
theorem owned_of_procedure (h : f.build = .ok p) :
    p.procedures.map (·.owned) = f.owned.map (·.2.all) := by
  refine (map_eq_map_of_forall₂ (forall₂_of_getElem? (length_owned h) ?_)).symm
  intro i x q hx hq
  obtain ⟨d, start, body, hi, -, -, rfl⟩ := procedure_steps h hq
  cases hi.symm.trans hx
  rfl

/-- Every variable has a number of its own. -/
theorem nodup_declared (h : f.build = .ok p) : (p.declared.map (·.id)).Nodup := by
  obtain ⟨ps, -, -, -, -, hglobals, -, -⟩ := build_steps h
  have howned : p.procedures.flatMap (·.owned) = f.owned.flatMap (·.2.all) := by
    rw [List.flatMap_def, List.flatMap_def, owned_of_procedure h]
  rw [Program.declared, List.map_append, howned, owned, map_id_ownedFrom, hglobals,
    globalVariables, map_id_variablesFrom]
  have hrange := List.range'_append_1 (s := 0) (m := f.globals.length)
    (n := (f.procedures.flatMap (·.symbols)).length)
  rw [Nat.zero_add] at hrange
  rw [hrange]
  exact List.nodup_range'

/-- A bare name, a label or a callee means in the program what it means in the scope that it was
looked up in. -/
theorem makes_of_build (h : f.build = .ok p) {d : ProcedureDecl} {start : Nat} {q : Procedure}
    (howned : q.owned = (d.owned start).all) (hnames : (q.owned.map (·.name)).Nodup)
    {decl : QuadDecl} {op : Op Signature}
    (hop : decl.meaning (f.scope (d.owned start)) = .ok op) :
    ∃ code : Opcode, decl.op = code.name ∧ code.Makes (f.reading p q) decl op := by
  obtain ⟨ps, -, -, -, -, hglobals, -, -⟩ := build_steps h
  obtain ⟨code, hcode, hmakes⟩ := QuadDecl.makes_of_meaning hop
  refine ⟨code, hcode, hmakes.mono ?_ ?_ ?_⟩
  · rintro ref opd ⟨field, hopd⟩
    refine Scope.refers_of_operand ?_ hnames (nodup_globals h) hopd
    rw [howned, hglobals]
    rfl
  · rintro l ⟨hne, hmem⟩
    exact ⟨hne, f.map_snd_labels ▸ hmem⟩
  · intro name proc hproc
    exact callee_of_scope h hproc

/-- Each procedure says what its declaration says. -/
theorem says_of_build (h : f.build = .ok p) {i : Nat} {d : ProcedureDecl} {q : Procedure}
    (hd : f.procedures[i]? = some d) (hq : p.procedures[i]? = some q) : f.Says p d q := by
  obtain ⟨d', start, hi, hbody⟩ := body_steps h hq
  obtain ⟨d'', start', body, hi', hsymbols, -, hmarked⟩ := procedure_steps h hq
  obtain ⟨rfl, hsame⟩ := Prod.mk.inj (Option.some.inj (hi'.symm.trans hi))
  obtain rfl : d'' = d := Option.some.inj ((getElem?_of_owned hi).symm.trans hd)
  obtain ⟨hchecks, hnames, -⟩ := checkSymbols_eq_ok.1 hsymbols
  have hdeclares : ∀ {ds : List SymbolDecl} (start : Nat) (form : Form), ds ⊆ d''.symbols →
      List.Forall₂ (SymbolDecl.Declares form) ds (variablesFrom start form ds) :=
    fun start form hsub => declares_variablesFrom fun s hs => hchecks s (hsub hs)
  have howned : q.owned = (d''.owned start).all := by
    rw [hmarked, ← hsame]
    rfl
  have hunique : (q.owned.map (·.name)).Nodup := by
    rwa [howned, d''.map_name_owned]
  have hmakes := hbody.imp fun decl quad hop => makes_of_build h howned hunique hop
  subst hmarked
  refine ⟨rfl, hdeclares _ _ ?_, hdeclares _ _ ?_, hdeclares _ _ ?_, hdeclares _ _ ?_, hmakes⟩ <;>
  · intro s hs
    simp [ProcedureDecl.symbols, hs]

/-- The texts in the quads of a procedure are those in their declarations. -/
theorem Says.texts_eq {d : ProcedureDecl} {q : Procedure} (h : f.Says p d q) :
    d.body.flatMap (·.texts) = q.body.flatMap (stringsOf ·.op) := by
  rw [List.flatMap_def, List.flatMap_def]
  refine congrArg List.flatten (map_eq_map_of_forall₂ (h.body.imp ?_))
  rintro decl quad ⟨code, hcode, hmakes⟩
  rw [QuadDecl.texts, hcode, Opcode.ofName?_name, hmakes.stringsOf_eq]
  rintro _ opd ⟨r, rfl, hrefers⟩
  exact hrefers.texts_eq

end File

/-- A program that was built from a file says what the file says. -/
theorem built_program_is_faithful {f : File} {p : Program} (h : f.build = .ok p) :
    f.Faithful p := by
  obtain ⟨ps, hchecks, -, -, -, hglobals, -, -⟩ := File.build_steps h
  have hprocedures : List.Forall₂ (f.Says p) f.procedures p.procedures :=
    forall₂_of_getElem? (File.length_procedures h) fun i d q => File.says_of_build h
  refine ⟨?_, hprocedures, File.nodup_declared h, ?_, File.nodup_strings h⟩
  · rw [hglobals]
    exact declares_variablesFrom (checkGlobals_eq_ok.1 hchecks).1
  · rw [File.strings_steps h, distinct_eq_eraseDups, List.flatMap_def, List.flatMap_def]
    rw [map_eq_map_of_forall₂ (hprocedures.imp fun _ _ h => h.texts_eq)]

namespace Shadowing

/-- A program with a local that hides a global, a string that is written twice and a call of a
procedure that is declared later. -/
def file : File where
  strings := ["b", "b"]
  globals := [{ name := "x" }, { name := "y", width := 1, kind := "bool" }]
  procedures := [
    { name := "main"
      locals := [{ name := "x", width := 1, kind := "char" }]
      addrs := [{ name := "a" }]
      body := [
        { op := "assign", src := some { name := "y" }, dst := some { name := "x" } },
        { op := "assign", src := some { str := some "a" }, dst := some { name := "a" } },
        { op := "output", src := some { name := "x", str := some "b" } },
        { op := "call", callee := "f" }] },
    { name := "f"
      formals := [{ name := "y" }]
      body := [{ op := "getarg", index := 1, dst := some { name := "y" } },
        { op := "assign", src := some { name := "y" }, dst := some { name := "x" } }] }]

def x : Variable := ⟨0, .symbol, "x", 8, .int⟩

def y : Variable := ⟨1, .symbol, "y", 1, .bool⟩

def a : Variable := ⟨2, .pointer, "a", 8, .int⟩

def localX : Variable := ⟨3, .symbol, "x", 1, .char⟩

def formalY : Variable := ⟨4, .symbol, "y", 8, .int⟩

def f : Procedure where
  name := "f"
  formals := [formalY]
  body := [⟨[], .getArg 1 formalY⟩, ⟨[], .assign formalY x⟩]

def main : Procedure where
  name := "main"
  locals := [localX]
  addrs := [a]
  body := [⟨[], .assign y localX⟩, ⟨[], .assign (.lit (.string "a")) a⟩,
    ⟨[], .output (.lit (.string "b"))⟩, ⟨[], .call f.signature⟩]

/-- The program. -/
def program : Program := ⟨[x, y], ["b", "a"], [main, f]⟩

end Shadowing

open Shadowing in
/-- The name of the local means the local in its own procedure and the global in the other. -/
theorem shadowing_faithful : file.build = .ok program ∧ file.Faithful program := by
  have hbuild : file.build = .ok program := by rfl
  exact ⟨hbuild, built_program_is_faithful hbuild⟩

end Source

end QuadAsm
