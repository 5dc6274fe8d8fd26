import QuadAsm.Proofs.Source.Declared

/-!
# The files that are accepted

A file is accepted when its declarations are well formed, its names are unique where they have to
be, and its quads use only names that are declared somewhere, before or after; and no other file is
accepted (`accepted_iff_wellFormed`). Each check of the loader comes with the exact condition under
which it succeeds.
-/

namespace QuadAsm

section
variable {ε α β : Type}

/-- A sequence of two computations succeeds when the first does and the second does after it, if
that depends on nothing that the first one finds. -/
theorem exists_bind_eq_ok {x : Except ε α} {f : α → Except ε β} {P : Prop}
    (h : ∀ a, x = .ok a → ((∃ b, f a = .ok b) ↔ P)) :
    (∃ b, x >>= f = .ok b) ↔ (∃ a, x = .ok a) ∧ P := by
  cases x with
  | error e => simp
  | ok a => simpa using h a rfl

theorem exists_pure_eq_ok (a : α) : (∃ b, (pure a : Except ε α) = .ok b) ↔ True :=
  iff_true_intro ⟨a, rfl⟩

/-- A computation over a list succeeds when it does on every element. -/
theorem exists_mapM_eq_ok {f : α → Except ε β} {l : List α} :
    (∃ r, l.mapM f = .ok r) ↔ ∀ a ∈ l, ∃ b, f a = .ok b := by
  simp only [← error?_eq_none, error?_mapM, List.findSome?_eq_none_iff]

end

namespace Source

/-! ## Well-formed files -/

/-- A symbol with a name, a width there is code for or none, and a kind that exists or none. -/
structure SymbolDecl.WellFormed (d : SymbolDecl) : Prop where
  name : d.name ≠ []
  width : d.width = 0 ∨ d.width = 1 ∨ d.width = 8
  kind : d.kind ∈ ([[], "int", "bool", "char", "string", "ptr"] : List Bytes)

/-- A reference that gives a literal, in one way or in several. -/
def OperandRef.IsLiteral (r : OperandRef) : Prop :=
  r.int.isSome ∨ r.bool.isSome ∨ r.char.isSome ∨ r.str.isSome

/-- The operands that a quad of this name has, in the order in which they are looked up. -/
def Opcode.operands (q : QuadDecl) : Opcode → List (Option OperandRef)
  | .binop => [q.src, q.dst, q.src2]
  | .unop | .assign | .addrof => [q.src, q.dst]
  | .ifz | .setarg | .setret | .output | .mayhem => [q.src]
  | .getarg | .getret | .input => [q.dst]
  | .goto | .nop | .call => []

/-- The names that a quad can use. -/
structure Names where
  operands : List Bytes
  labels : List Bytes
  procedures : List Bytes

/-- A reference that is there and gives a literal or a name that is known. -/
def Names.Find (names : Names) (ref : Option OperandRef) : Prop :=
  ∃ r, ref = some r ∧ (r.IsLiteral ∨ r.name ∈ names.operands)

/-- What a quad of this name must give. -/
@[mk_iff]
structure Opcode.Admits (names : Names) (q : QuadDecl) (code : Opcode) : Prop where
  binary : code = .binop → q.operator ∈ BinOp.all.map (·.name)
  unary : code = .unop → q.operator ∈ UnOp.all.map (·.name)
  position : code = .setarg ∨ code = .getarg → 1 ≤ q.index
  target : code = .goto ∨ code = .ifz → q.target ≠ [] ∧ q.target ∈ names.labels
  callee : code = .call → q.callee ∈ names.procedures
  operands : ∀ ref ∈ code.operands q, names.Find ref

/-- A quad with a name that exists and with all that a quad of this name must give. -/
def QuadDecl.WellFormed (names : Names) (q : QuadDecl) : Prop :=
  ∃ code : Opcode, q.op = code.name ∧ code.Admits names q

/-- The names that the quads of a procedure can use. -/
def File.names (f : File) (d : ProcedureDecl) : Names where
  operands := (d.symbols ++ f.globals).map (·.name)
  labels := f.procedures.flatMap (·.labels)
  procedures := f.procedures.map (·.name)

/-- A file whose declarations are well formed, whose names are unique where they have to be, and
whose quads use only names that are declared. -/
structure File.WellFormed (f : File) : Prop where
  globals : ∀ d ∈ f.globals, d.WellFormed
  globalNames : (f.globals.map (·.name)).Nodup
  procedureNames : (f.procedures.map (·.name)).Nodup
  labels : (f.procedures.flatMap (·.labels)).Nodup
  symbols : ∀ d ∈ f.procedures, ∀ s ∈ d.symbols, s.WellFormed
  symbolNames : ∀ d ∈ f.procedures, (d.symbols.map (·.name)).Nodup
  quads : ∀ d ∈ f.procedures, ∀ q ∈ d.body, q.WellFormed (f.names d)

/-! ## Declarations -/

/-- A search by name finds something when the name is there. -/
theorem exists_find?_name {α : Type} {l : List α} {name : α → Bytes} {n : Bytes} :
    (∃ a, l.find? (name · == n) = some a) ↔ n ∈ l.map name := by
  rw [← Option.isSome_iff_exists, List.find?_isSome, List.mem_map]
  simp only [beq_iff_eq]

/-- The check of a symbol accepts the well-formed ones. -/
theorem SymbolDecl.check_eq_ok {d : SymbolDecl} : d.check = .ok () ↔ d.WellFormed := by
  have hwidth : isSupportedWidth d.fullWidth ↔ d.width = 0 ∨ d.width = 1 ∨ d.width = 8 := by
    simp only [isSupportedWidth, fullWidth, byteWidth, wordWidth, Bool.or_eq_true, beq_iff_eq]
    split_ifs <;> omega
  have hkind : d.kind?.isSome ↔
      d.kind ∈ ([[], "int", "bool", "char", "string", "ptr"] : List Bytes) := by
    rw [kind?]
    split_ifs with h
    · simp [List.isEmpty_iff.1 h]
    · rw [Option.isSome_iff_exists, Kind.ofName?, exists_find?_name, List.mem_cons,
        or_iff_right (by simpa using h)]
      rfl
  unfold check
  constructor
  · intro h
    split at h
    · cases h
    · next hname =>
      split at h
      · cases h
      · next hw =>
        split at h
        · cases h
        · next hk =>
          refine ⟨by simpa using hname, hwidth.1 (by simpa using hw), hkind.1 ?_⟩
          simpa [Option.isSome_iff_ne_none] using hk
  · intro h
    rw [if_neg (by simpa using h.name), if_neg (by simpa using hwidth.2 h.width), if_neg]
    simpa [Option.isSome_iff_ne_none] using hkind.2 h.kind

/-! ## Quads -/

/-- Opcodes are found by their names. -/
theorem Opcode.ofName?_name (code : Opcode) : ofName? code.name = some code := by
  cases code <;> rfl

/-- The names of operators on two values. -/
theorem exists_binaryOperator {name : Bytes} :
    (∃ op, binaryOperator name = .ok op) ↔ name ∈ BinOp.all.map (·.name) := by
  rw [← exists_find?_name, binaryOperator, ← BinOp.ofName?]
  cases BinOp.ofName? name <;> simp

/-- The names of operators on one value. -/
theorem exists_unaryOperator {name : Bytes} :
    (∃ op, unaryOperator name = .ok op) ↔ name ∈ UnOp.all.map (·.name) := by
  rw [← exists_find?_name, unaryOperator, ← UnOp.ofName?]
  cases UnOp.ofName? name <;> simp

/-- The operands that are read as literals. -/
theorem OperandRef.isSome_literal? {r : OperandRef} : r.literal?.isSome ↔ r.IsLiteral := by
  simp [literal?, IsLiteral]

/-- The names that a scope knows. -/
def Scope.names (s : Scope) : Names := ⟨s.known.map (·.name), s.labels, s.procedures.map (·.name)⟩

/-- A reference means something when it gives a literal or a name that is known. -/
theorem Scope.exists_operand {s : Scope} {field : Bytes} {ref : Option OperandRef} :
    (∃ opd, s.operand field ref = .ok opd) ↔ s.names.Find ref := by
  cases ref with
  | none => simp [operand, Names.Find]
  | some r =>
    simp only [Names.Find, Option.some.injEq, exists_eq_left', operand]
    rw [← OperandRef.isSome_literal?, names, ← exists_find?_name]
    cases r.literal? with
    | some l => simp
    | none => cases s.known.find? (·.name == r.name) <;> simp

/-- A jump needs a label of its procedure. -/
theorem Scope.exists_label {s : Scope} {name : Bytes} :
    (∃ l, s.label name = .ok l) ↔ name ≠ [] ∧ name ∈ s.labels := by
  rw [label]
  by_cases hname : name = []
  · simp [hname]
  · by_cases hmem : name ∈ s.labels <;> simp [hname, hmem]

/-- A call needs a procedure of that name. -/
theorem Scope.exists_callee {s : Scope} {name : Bytes} :
    (∃ p, s.callee name = .ok p) ↔ name ∈ s.procedures.map (·.name) := by
  rw [← exists_find?_name, callee]
  cases s.procedures.find? (·.name == name) <;> simp

/-- Arguments are counted from one. -/
theorem QuadDecl.exists_position {q : QuadDecl} : (∃ i, q.position = .ok i) ↔ 1 ≤ q.index := by
  rw [position]
  split_ifs with h <;> simp <;> omega

/-- A quad means something exactly when it is well formed. -/
theorem QuadDecl.exists_meaning {q : QuadDecl} {s : Scope} :
    (∃ op, q.meaning s = .ok op) ↔ q.WellFormed s.names := by
  have hwell : q.WellFormed s.names ↔
      ∃ code, Opcode.ofName? q.op = some code ∧ code.Admits s.names q := by
    refine exists_congr fun code => and_congr_left fun _ => ⟨?_, Opcode.name_of_ofName?⟩
    intro h
    rw [h, Opcode.ofName?_name]
  have hsrc : (∃ opd, q.source s = .ok opd) ↔ s.names.Find q.src := Scope.exists_operand
  have hdst : (∃ opd, q.destination s = .ok opd) ↔ s.names.Find q.dst := Scope.exists_operand
  have hsrc2 : (∃ opd, q.source2 s = .ok opd) ↔ s.names.Find q.src2 := Scope.exists_operand
  rw [hwell, meaning]
  cases hcode : Opcode.ofName? q.op with
  | none => simp
  | some code =>
    simp only [Option.some.injEq, exists_eq_left', Opcode.admits_iff]
    cases code with
    | binop =>
      refine (exists_bind_eq_ok fun op _ => exists_bind_eq_ok fun src _ =>
        exists_bind_eq_ok fun dst _ => exists_bind_eq_ok fun src2 _ => exists_pure_eq_ok _).trans ?_
      simp [Opcode.operands, exists_binaryOperator, hsrc, hdst, hsrc2]
    | unop =>
      refine (exists_bind_eq_ok fun op _ => exists_bind_eq_ok fun src _ =>
        exists_bind_eq_ok fun dst _ => exists_pure_eq_ok _).trans ?_
      simp [Opcode.operands, exists_unaryOperator, hsrc, hdst]
    | assign | addrof =>
      refine (exists_bind_eq_ok fun src _ => exists_bind_eq_ok fun dst _ =>
        exists_pure_eq_ok _).trans ?_
      simp [Opcode.operands, hsrc, hdst]
    | goto =>
      refine (exists_bind_eq_ok fun target _ => exists_pure_eq_ok _).trans ?_
      simp [Opcode.operands, Scope.exists_label, Scope.names]
    | ifz =>
      refine (exists_bind_eq_ok fun cond _ => exists_bind_eq_ok fun target _ =>
        exists_pure_eq_ok _).trans ?_
      simp [Opcode.operands, Scope.exists_label, Scope.names, hsrc, and_comm]
    | nop => simp [Opcode.operands]
    | call =>
      refine (exists_bind_eq_ok fun callee _ => exists_pure_eq_ok _).trans ?_
      simp [Opcode.operands, Scope.exists_callee, Scope.names]
    | setarg =>
      refine (exists_bind_eq_ok fun index _ => exists_bind_eq_ok fun src _ =>
        exists_pure_eq_ok _).trans ?_
      simp [Opcode.operands, exists_position, hsrc]
    | getarg =>
      refine (exists_bind_eq_ok fun index _ => exists_bind_eq_ok fun dst _ =>
        exists_pure_eq_ok _).trans ?_
      simp [Opcode.operands, exists_position, hdst]
    | setret | output | mayhem =>
      refine (exists_bind_eq_ok fun src _ => exists_pure_eq_ok _).trans ?_
      simp [Opcode.operands, hsrc]
    | getret | input =>
      refine (exists_bind_eq_ok fun dst _ => exists_pure_eq_ok _).trans ?_
      simp [Opcode.operands, hdst]

/-- A body is accepted when all of its quads are well formed. -/
theorem exists_buildBody {s : Scope} {n : Nat} {qs : List QuadDecl} :
    (∃ ops, buildBody s n qs = .ok ops) ↔ ∀ q ∈ qs, q.WellFormed s.names := by
  induction qs generalizing n with
  | nil => simp [buildBody]
  | cons q rest ih =>
    rw [List.forall_mem_cons, ← QuadDecl.exists_meaning, ← ih (n := n + 1)]
    refine (exists_bind_eq_ok fun op _ => exists_bind_eq_ok fun others _ =>
      exists_pure_eq_ok _).trans ?_
    simp only [placing, mapError_eq_ok, and_true]

/-! ## Files -/

namespace File

variable {f : File}

/-- What a procedure can name does not depend on the numbers of its variables. -/
theorem names_scope (f : File) (d : ProcedureDecl) (start : Nat) :
    (f.scope (d.owned start)).names = f.names d := by
  simp only [Scope.names, scope, names, List.map_append, d.map_name_owned, map_name_signatures,
    map_snd_labels, globalVariables, map_name_variablesFrom]

/-- A procedure is accepted when its symbols and its quads are well formed. -/
theorem exists_buildProcedure {d : ProcedureDecl} {start : Nat} :
    (∃ q, f.buildProcedure d (d.owned start) = .ok q) ↔
      (∀ s ∈ d.symbols, s.WellFormed) ∧ (d.symbols.map (·.name)).Nodup ∧
        ∀ q ∈ d.body, q.WellFormed (f.names d) := by
  have hsymbols : checkSymbols [] d.symbols = .ok () ↔
      (∀ s ∈ d.symbols, s.WellFormed) ∧ (d.symbols.map (·.name)).Nodup := by
    simp [checkSymbols_eq_ok, SymbolDecl.check_eq_ok]
  simp only [buildProcedure, placing, mapError_eq_ok]
  refine (exists_bind_eq_ok fun _ _ => exists_bind_eq_ok fun body _ =>
    exists_pure_eq_ok _).trans ?_
  rw [Unique.exists_iff, exists_buildBody, names_scope, and_true, hsymbols, and_assoc]

/-- The procedures are accepted when each of them is. -/
theorem exists_procedures :
    (∃ ps, f.owned.mapM (fun (d, o) => f.buildProcedure d o) = .ok ps) ↔
      ∀ d ∈ f.procedures, (∀ s ∈ d.symbols, s.WellFormed) ∧ (d.symbols.map (·.name)).Nodup ∧
        ∀ q ∈ d.body, q.WellFormed (f.names d) := by
  rw [exists_mapM_eq_ok, ← map_fst_ownedFrom f.globals.length f.procedures, List.forall_mem_map]
  refine forall₂_congr ?_
  rintro ⟨d, o⟩ hmem
  obtain ⟨start, rfl⟩ := owned_of_mem_ownedFrom hmem
  exact exists_buildProcedure

/-- A file is accepted when every check succeeds. That all labels can be attached needs no check of
its own. -/
theorem exists_build :
    (∃ p, f.build = .ok p) ↔ checkGlobals [] f.globals = .ok () ∧
      checkProcedures [] f.procedures = .ok () ∧ checkLabels [] f.labels = .ok () ∧
      ∃ ps, f.owned.mapM (fun (d, o) => f.buildProcedure d o) = .ok ps := by
  refine (exists_bind_eq_ok fun _ _ => exists_bind_eq_ok fun _ _ =>
    exists_bind_eq_ok fun _ hlabels => exists_bind_eq_ok (P := True) fun ps _ => ?_).trans ?_
  · exact iff_true_intro ⟨_, bind_eq_ok.2 ⟨_, attachAll_labelled hlabels _, rfl⟩⟩
  · simp only [Unique.exists_iff, and_true]

end File

/-- A file is accepted exactly when it is well formed. -/
theorem accepted_iff_wellFormed (f : File) : (∃ p, f.build = .ok p) ↔ f.WellFormed := by
  have hglobals : checkGlobals [] f.globals = .ok () ↔
      (∀ d ∈ f.globals, d.WellFormed) ∧ (f.globals.map (·.name)).Nodup := by
    simp [checkGlobals_eq_ok, SymbolDecl.check_eq_ok]
  have hnames : checkProcedures [] f.procedures = .ok () ↔
      (f.procedures.map (·.name)).Nodup := by
    simp [checkProcedures_eq_ok]
  rw [File.exists_build, hglobals, hnames, File.checkLabels_labels, File.exists_procedures]
  constructor
  · rintro ⟨⟨hglobals, hglobalNames⟩, hnames, hlabels, hprocedures⟩
    exact ⟨hglobals, hglobalNames, hnames, hlabels, fun d hd => (hprocedures d hd).1,
      fun d hd => (hprocedures d hd).2.1, fun d hd => (hprocedures d hd).2.2⟩
  · intro h
    exact ⟨⟨h.globals, h.globalNames⟩, h.procedureNames, h.labels, fun d hd =>
      ⟨h.symbols d hd, h.symbolNames d hd, h.quads d hd⟩⟩

end Source

end QuadAsm
