import QuadAsm.Proofs.Layout
import QuadAsm.Proofs.Source.Build

/-!
# What programs from files refer to

In a program that was built from a file nothing is missing. The quads of a body use only variables
of their procedure, globals and strings of the program, with operators and positions that exist, and
they jump only to labels with a name (`File.declared_of_mem_body`). Variables are distinct, because
each of them got a number of its own, and they have widths that there is code for.
-/

namespace QuadAsm

open Layout

/-! ## References -/

/-- An operand that is one of the variables, one of the texts or a constant of another type. -/
def Operand.Declared (vars : List Variable) (texts : List Bytes) : Operand → Prop
  | .var v => v ∈ vars
  | .lit (.string text) => text ∈ texts
  | .lit _ => True
  | .absent => False

/-- More may be declared. -/
theorem Operand.Declared.mono {vars vars' : List Variable} {texts texts' : List Bytes}
    {opd : Operand} (h : opd.Declared vars texts) (hvars : vars ⊆ vars') (htexts : texts ⊆ texts') :
    opd.Declared vars' texts' := by
  cases opd with
  | var v => exact hvars h
  | lit l =>
    cases l with
    | string text => exact htexts h
    | int | bool | char | malformed => trivial
  | absent => exact h

/-- A quad of a body with everything that it needs: operands, an operator that exists, a position
that can be passed, a label with a name. -/
def Op.Declared (vars : List Variable) (texts : List Bytes) : Op Signature → Prop
  | .binary op src1 src2 dst =>
    op ∈ BinOp.all ∧ src1.Declared vars texts ∧ src2.Declared vars texts ∧ dst.Declared vars texts
  | .unary op src dst => op ∈ UnOp.all ∧ src.Declared vars texts ∧ dst.Declared vars texts
  | .assign src dst | .addrOf src dst => src.Declared vars texts ∧ dst.Declared vars texts
  | .goto target => ∃ l, target = some l ∧ l ≠ []
  | .ifZero cond target => cond.Declared vars texts ∧ ∃ l, target = some l ∧ l ≠ []
  | .setArg index opd | .getArg index opd => 1 ≤ index ∧ opd.Declared vars texts
  | .setRet opd | .getRet opd | .output opd | .input opd | .mayhem opd => opd.Declared vars texts
  | .nop | .call _ => True
  | .enter _ | .leave _ => False

/-- More may be declared. -/
theorem Op.Declared.mono {vars vars' : List Variable} {texts texts' : List Bytes}
    {op : Op Signature} (h : op.Declared vars texts) (hvars : vars ⊆ vars')
    (htexts : texts ⊆ texts') : op.Declared vars' texts' := by
  have hopd : ∀ {opd : Operand}, opd.Declared vars texts → opd.Declared vars' texts' :=
    fun h => h.mono hvars htexts
  cases op with
  | binary op src1 src2 dst => exact ⟨h.1, hopd h.2.1, hopd h.2.2.1, hopd h.2.2.2⟩
  | unary op src dst => exact ⟨h.1, hopd h.2.1, hopd h.2.2⟩
  | assign src dst | addrOf src dst => exact ⟨hopd h.1, hopd h.2⟩
  | ifZero cond target => exact ⟨hopd h.1, h.2⟩
  | setArg index opd | getArg index opd => exact ⟨h.1, hopd h.2⟩
  | setRet opd | getRet opd | output opd | input opd | mayhem opd => exact hopd h
  | goto | nop | call | enter | leave => exact h

namespace Source

/-- An operand that was found is declared. -/
theorem Scope.declared_of_operand {s : Scope} {field : Bytes} {ref : Option OperandRef}
    {opd : Operand} (h : s.operand field ref = .ok opd) {texts : List Bytes}
    (htexts : stringOf opd ⊆ texts) : opd.Declared s.known texts := by
  cases ref with
  | none => cases h
  | some r =>
    simp only [Scope.operand] at h
    split at h
    · next l hl =>
      cases h
      cases l with
      | string text => exact htexts (List.mem_singleton_self text)
      | int | bool | char | malformed => trivial
    · split at h
      · next v hv =>
        cases h
        exact List.mem_of_find?_eq_some hv
      · cases h

/-- What a quad of a file means refers only to what its scope knows and to its own texts. -/
theorem QuadDecl.declared_of_meaning {d : QuadDecl} {s : Scope} {op : Op Signature}
    (h : d.meaning s = .ok op) : op.Declared s.known (stringsOf op) := by
  have hopd : ∀ {ref : Option OperandRef} {opd : Operand}, s.reading.operand ref opd →
      stringOf opd ⊆ stringsOf op → opd.Declared s.known (stringsOf op) :=
    fun ⟨_, h⟩ htexts => Scope.declared_of_operand h htexts
  obtain ⟨code, -, hmakes⟩ := makes_of_meaning h
  cases hmakes with
  | binop hknown _ hsrc hdst hsrc2 =>
    exact ⟨hknown, hopd hsrc (by simp [stringsOf]), hopd hsrc2 (by simp [stringsOf]),
      hopd hdst (by simp [stringsOf])⟩
  | unop hknown _ hsrc hdst =>
    exact ⟨hknown, hopd hsrc (by simp [stringsOf]), hopd hdst (by simp [stringsOf])⟩
  | assign hsrc hdst | addrof hsrc hdst =>
    exact ⟨hopd hsrc (by simp [stringsOf]), hopd hdst (by simp [stringsOf])⟩
  | goto htarget => exact ⟨d.target, rfl, htarget.1⟩
  | ifz hcond htarget => exact ⟨hopd hcond (List.Subset.refl _), d.target, rfl, htarget.1⟩
  | nop | call => trivial
  | setarg hindex hopd' | getarg hindex hopd' => exact ⟨hindex, hopd hopd' (List.Subset.refl _)⟩
  | setret hopd' | output hopd' | mayhem hopd' | getret hopd' | input hopd' =>
    exact hopd hopd' (List.Subset.refl _)

/-! ## Declarations -/

/-- Variables are numbered one by one. -/
theorem map_id_variablesFrom (start : Nat) (form : Form) (ds : List SymbolDecl) :
    (variablesFrom start form ds).map (·.id) = List.range' start ds.length := by
  rw [variablesFrom, List.map_map, ← List.zipIdx_map_snd start ds]
  rfl

/-- A variable has the width that was declared, or the usual one. -/
theorem width_of_mem_variablesFrom {start : Nat} {form : Form} {ds : List SymbolDecl} {v : Variable}
    (h : v ∈ variablesFrom start form ds) : ∃ d ∈ ds, v.width = d.fullWidth := by
  obtain ⟨⟨d, i⟩, hmem, rfl⟩ := List.mem_map.1 h
  exact ⟨d, List.fst_mem_of_mem_zipIdx hmem, rfl⟩

/-- A declaration that was accepted has a width that there is code for. -/
theorem SymbolDecl.isSupportedWidth_of_check {d : SymbolDecl} (h : d.check = .ok ()) :
    isSupportedWidth d.fullWidth := by
  rw [SymbolDecl.check] at h
  split at h
  · cases h
  · split at h
    · cases h
    · next hwidth => simpa using hwidth

namespace ProcedureDecl

/-- The variables of a procedure are numbered one by one. -/
theorem map_id_owned (d : ProcedureDecl) (start : Nat) :
    (d.owned start).all.map (·.id) = List.range' start d.symbols.length := by
  simp only [Owned.all, owned, List.map_append, map_id_variablesFrom, symbols, List.length_append,
    ← List.range'_append_1, Nat.add_assoc, List.append_assoc]

/-- The variables of a procedure are all different. -/
theorem nodup_owned (d : ProcedureDecl) (start : Nat) : (d.owned start).all.Nodup := by
  apply List.Nodup.of_map (·.id)
  rw [map_id_owned]
  exact List.nodup_range'

/-- The variables of a procedure have widths there is code for, if their declarations were
accepted. -/
theorem width_of_mem_owned {d : ProcedureDecl} {start : Nat}
    (h : checkSymbols [] d.symbols = .ok ()) {v : Variable} (hv : v ∈ (d.owned start).all) :
    isSupportedWidth v.width := by
  have hmem : ∃ s ∈ d.symbols, v.width = s.fullWidth := by
    simp only [Owned.all, owned, List.mem_append] at hv
    rcases hv with ((hv | hv) | hv) | hv <;>
    · obtain ⟨s, hs, hwidth⟩ := width_of_mem_variablesFrom hv
      exact ⟨s, by simp [symbols, hs], hwidth⟩
  obtain ⟨s, hs, hwidth⟩ := hmem
  rw [hwidth]
  exact SymbolDecl.isSupportedWidth_of_check ((checkSymbols_eq_ok.1 h).1 s hs)

end ProcedureDecl

/-! ## Programs -/

namespace File

variable {f : File} {p : Program} {q : Procedure}

/-- Globals have different names. -/
theorem nodup_globals (h : f.build = .ok p) : (p.globals.map (·.name)).Nodup := by
  obtain ⟨ps, hcheck, -, -, -, hglobals, -, -⟩ := build_steps h
  rw [hglobals, globalVariables, map_name_variablesFrom]
  exact (checkGlobals_eq_ok.1 hcheck).2.1

/-- Globals have widths there is code for. -/
theorem width_of_mem_globals (h : f.build = .ok p) {v : Variable} (hv : v ∈ p.globals) :
    isSupportedWidth v.width := by
  obtain ⟨ps, hcheck, -, -, -, hglobals, -, -⟩ := build_steps h
  rw [hglobals] at hv
  obtain ⟨d, hd, hwidth⟩ := width_of_mem_variablesFrom hv
  rw [hwidth]
  exact SymbolDecl.isSupportedWidth_of_check ((checkGlobals_eq_ok.1 hcheck).1 d hd)

/-- The strings of a program are distinct. -/
theorem nodup_strings (h : f.build = .ok p) : p.strings.Nodup := by
  rw [strings_steps h]
  exact nodup_distinct _

/-- The texts in a quad are strings of the program. -/
theorem stringsOf_subset (h : f.build = .ok p) (hq : q ∈ p.procedures) {quad : Quad}
    (hquad : quad ∈ q.body) : stringsOf quad.op ⊆ p.strings := by
  intro text htext
  rw [strings_steps h, mem_distinct]
  refine List.mem_append_right _ (List.mem_flatMap.2 ⟨q, hq, ?_⟩)
  exact List.mem_flatMap.2 ⟨quad, hquad, htext⟩

/-- The variables of a procedure are those that its names were looked up among, in another order,
and their declarations were accepted. -/
theorem exists_declaration (h : f.build = .ok p) (hq : q ∈ p.procedures) :
    ∃ d start, checkSymbols [] d.symbols = .ok () ∧
      ((ownedVariables q).map (·.1)).Perm (ProcedureDecl.owned d start).all ∧
      List.Forall₂ (fun decl quad => decl.meaning (f.scope (d.owned start)) = .ok quad.op)
        d.body q.body := by
  obtain ⟨i, hi⟩ := List.mem_iff_getElem?.1 hq
  obtain ⟨d, start, hd, hbody⟩ := body_steps h hi
  obtain ⟨d', start', body, hd', hsymbols, -, rfl⟩ := procedure_steps h hi
  obtain ⟨rfl, howned⟩ := Prod.mk.inj (Option.some.inj (hd'.symm.trans hd))
  refine ⟨d', start, hsymbols, ?_, hbody⟩
  rw [map_fst_ownedVariables, Owned.all, ← howned]
  show (((d'.owned start').temps ++ (d'.owned start').locals) ++ (d'.owned start').formals
    ++ (d'.owned start').addrs).Perm _
  simp only [List.append_assoc]
  refine .append_left _ ?_
  rw [← List.append_assoc]
  exact List.perm_append_comm

/-- The variables of a procedure are distinct. -/
theorem nodup_ownedVariables (h : f.build = .ok p) (hq : q ∈ p.procedures) :
    ((ownedVariables q).map (·.1)).Nodup := by
  obtain ⟨d, start, -, hperm, -⟩ := exists_declaration h hq
  exact hperm.nodup_iff.2 (d.nodup_owned start)

/-- The variables of a procedure have widths there is code for. -/
theorem width_of_mem_ownedVariables (h : f.build = .ok p) (hq : q ∈ p.procedures) {v : Variable}
    (hv : v ∈ (ownedVariables q).map (·.1)) : isSupportedWidth v.width := by
  obtain ⟨d, start, hsymbols, hperm, -⟩ := exists_declaration h hq
  exact ProcedureDecl.width_of_mem_owned hsymbols (hperm.mem_iff.1 hv)

/-- The quads of a body refer only to what their procedure and the program declare. -/
theorem declared_of_mem_body (h : f.build = .ok p) (hq : q ∈ p.procedures) {quad : Quad}
    (hquad : quad ∈ q.body) :
    quad.op.Declared ((ownedVariables q).map (·.1) ++ p.globals) p.strings := by
  obtain ⟨d, start, -, hperm, hbody⟩ := exists_declaration h hq
  obtain ⟨ps, -, -, -, -, hglobals, -, -⟩ := build_steps h
  obtain ⟨decl, -, hdecl⟩ := exists_of_forall₂ hbody.flip hquad
  refine (QuadDecl.declared_of_meaning hdecl).mono ?_ (stringsOf_subset h hq hquad)
  rw [hglobals]
  exact List.append_subset.2 ⟨fun v hv => List.mem_append_left _ (hperm.mem_iff.2 hv),
    List.subset_append_right _ _⟩

end File

end Source

end QuadAsm
