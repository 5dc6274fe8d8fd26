import QuadAsm.Proofs.Ir.Label
import QuadAsm.Proofs.Meaning
import QuadAsm.Proofs.Outcome
import QuadAsm.Source.Build

/-!
# Programs that were built from files

What the parts of a program have in common with the file it was built from. Variables have the form
of the list they are on, procedures can be told apart by their names, calls go to procedures of the
program, and a label marks one quad of one procedure, never the one that enters.
-/

namespace QuadAsm

namespace Source

/-- A variable has the form of its list. -/
theorem form_of_mem_variablesFrom {n : Nat} {form : Form} {ds : List SymbolDecl} {v : Variable}
    (h : v ∈ variablesFrom n form ds) : v.form = form := by
  obtain ⟨⟨d, i⟩, -, rfl⟩ := List.mem_map.1 h
  rfl

/-- The variables of a procedure are numbered from some number on. -/
theorem owned_of_mem_ownedFrom {n : Nat} {ds : List ProcedureDecl} {d : ProcedureDecl} {o : Owned}
    (h : (d, o) ∈ ownedFrom n ds) : ∃ start, o = d.owned start := by
  induction ds generalizing n with
  | nil => cases h
  | cons d' rest ih =>
    rcases List.mem_cons.1 h with h | h
    · cases h
      exact ⟨n, rfl⟩
    · exact ih h

/-- Procedures keep their declarations. -/
theorem map_fst_ownedFrom (n : Nat) (ds : List ProcedureDecl) :
    (ownedFrom n ds).map (·.1) = ds := by
  induction ds generalizing n with
  | nil => rfl
  | cons d rest ih => exact congrArg (d :: ·) (ih _)

/-- Variables keep the names they were declared with. -/
theorem map_name_variablesFrom (start : Nat) (form : Form) (ds : List SymbolDecl) :
    (variablesFrom start form ds).map (·.name) = ds.map (·.name) := by
  conv_rhs => rw [← List.zipIdx_map_fst start ds, List.map_map]
  rw [variablesFrom, List.map_map]
  rfl

/-- Variables keep the names they were declared with. -/
theorem ProcedureDecl.map_name_owned (d : ProcedureDecl) (start : Nat) :
    (d.owned start).all.map (·.name) = d.symbols.map (·.name) := by
  simp [Owned.all, owned, symbols, map_name_variablesFrom]

/-! ## Checks -/

/-- Elements that are accepted one by one, each with a name that was not seen before. -/
theorem accepts_iff {α : Type} (name : α → Bytes) (Good : α → Prop)
    (Accepts : List Bytes → List α → Prop) (hnil : ∀ seen, Accepts seen [])
    (hcons : ∀ seen a rest, Accepts seen (a :: rest) ↔
      Good a ∧ name a ∉ seen ∧ Accepts (name a :: seen) rest)
    {seen : List Bytes} {l : List α} :
    Accepts seen l ↔ (∀ a ∈ l, Good a) ∧ (l.map name).Nodup ∧ ∀ a ∈ l, name a ∉ seen := by
  induction l generalizing seen with
  | nil => simp [hnil]
  | cons a rest ih =>
    rw [hcons, ih, List.forall_mem_cons, List.forall_mem_cons, List.map_cons, List.nodup_cons]
    constructor
    · rintro ⟨ha, hseen, hgood, hnodup, hrest⟩
      refine ⟨⟨ha, hgood⟩, ⟨fun hmem => ?_, hnodup⟩, hseen, fun b hb hmem => ?_⟩
      · obtain ⟨b, hb, he⟩ := List.mem_map.1 hmem
        exact hrest b hb (he ▸ List.mem_cons_self ..)
      · exact hrest b hb (List.mem_cons_of_mem _ hmem)
    · rintro ⟨⟨ha, hgood⟩, ⟨hnot, hnodup⟩, hseen, hrest⟩
      refine ⟨ha, hseen, hgood, hnodup, fun b hb hmem => ?_⟩
      rcases List.mem_cons.1 hmem with he | hmem
      · exact hnot (he ▸ List.mem_map_of_mem hb)
      · exact hrest b hb hmem

/-- What it takes for globals to be accepted. -/
theorem checkGlobals_eq_ok {seen : List Bytes} {ds : List SymbolDecl} :
    checkGlobals seen ds = .ok () ↔
      (∀ d ∈ ds, d.check = .ok ()) ∧ (ds.map (·.name)).Nodup ∧ ∀ d ∈ ds, d.name ∉ seen := by
  refine accepts_iff (·.name) _ (checkGlobals · · = .ok ()) (fun _ => rfl) fun seen d rest => ?_
  rw [checkGlobals, bind_eq_ok, Unique.exists_iff, placing, mapError_eq_ok]
  by_cases hseen : d.name ∈ seen <;> simp [hseen]

/-- What it takes for the symbols of a procedure to be accepted. -/
theorem checkSymbols_eq_ok {seen : List Bytes} {ds : List SymbolDecl} :
    checkSymbols seen ds = .ok () ↔
      (∀ d ∈ ds, d.check = .ok ()) ∧ (ds.map (·.name)).Nodup ∧ ∀ d ∈ ds, d.name ∉ seen := by
  refine accepts_iff (·.name) _ (checkSymbols · · = .ok ()) (fun _ => rfl) fun seen d rest => ?_
  rw [checkSymbols, bind_eq_ok, Unique.exists_iff]
  by_cases hseen : d.name ∈ seen <;> simp [hseen]

/-- What it takes for the names of procedures to be accepted. -/
theorem checkProcedures_eq_ok {seen : List Bytes} {ds : List ProcedureDecl} :
    checkProcedures seen ds = .ok () ↔ (ds.map (·.name)).Nodup ∧ ∀ d ∈ ds, d.name ∉ seen := by
  rw [accepts_iff (·.name) (fun _ => True) (checkProcedures · · = .ok ()) fun _ => rfl]
  · simp
  · intro seen d rest
    rw [checkProcedures]
    by_cases hseen : d.name ∈ seen <;> simp [hseen]

/-- What it takes for labels to be accepted. -/
theorem checkLabels_eq_ok {seen : List Bytes} {ls : List (Bytes × Bytes)} :
    checkLabels seen ls = .ok () ↔ (ls.map (·.2)).Nodup ∧ ∀ l ∈ ls, l.2 ∉ seen := by
  rw [accepts_iff (·.2) (fun _ => True) (checkLabels · · = .ok ()) fun _ => rfl]
  · simp
  · intro seen l rest
    rw [checkLabels]
    by_cases hseen : l.2 ∈ seen <;> simp [hseen]

/-! ## Quads -/

/-- What the names in a quad can stand for. -/
structure Reading where
  operand : Option OperandRef → Operand → Prop
  label : Bytes → Prop
  callee : Bytes → Signature → Prop

/-- What a quad with this name stands for. -/
inductive Opcode.Makes (m : Reading) (q : QuadDecl) : Opcode → Op Signature → Prop where
  | binop {op : BinOp} {src dst src2 : Operand} (known : op ∈ BinOp.all)
    (operator : op.name = q.operator) (source : m.operand q.src src)
    (destination : m.operand q.dst dst) (source2 : m.operand q.src2 src2) :
    Makes m q .binop (.binary op src src2 dst)
  | unop {op : UnOp} {src dst : Operand} (known : op ∈ UnOp.all) (operator : op.name = q.operator)
    (source : m.operand q.src src) (destination : m.operand q.dst dst) :
    Makes m q .unop (.unary op src dst)
  | assign {src dst : Operand} (source : m.operand q.src src)
    (destination : m.operand q.dst dst) : Makes m q .assign (.assign src dst)
  | addrof {src dst : Operand} (source : m.operand q.src src)
    (destination : m.operand q.dst dst) : Makes m q .addrof (.addrOf src dst)
  | goto (target : m.label q.target) : Makes m q .goto (.goto (some q.target))
  | ifz {cond : Operand} (source : m.operand q.src cond) (target : m.label q.target) :
    Makes m q .ifz (.ifZero cond (some q.target))
  | nop : Makes m q .nop .nop
  | call {proc : Signature} (callee : m.callee q.callee proc) : Makes m q .call (.call proc)
  | setarg {opd : Operand} (position : 1 ≤ q.index) (source : m.operand q.src opd) :
    Makes m q .setarg (.setArg q.index opd)
  | getarg {opd : Operand} (position : 1 ≤ q.index) (destination : m.operand q.dst opd) :
    Makes m q .getarg (.getArg q.index opd)
  | setret {opd : Operand} (source : m.operand q.src opd) : Makes m q .setret (.setRet opd)
  | output {opd : Operand} (source : m.operand q.src opd) : Makes m q .output (.output opd)
  | mayhem {opd : Operand} (source : m.operand q.src opd) : Makes m q .mayhem (.mayhem opd)
  | getret {opd : Operand} (destination : m.operand q.dst opd) : Makes m q .getret (.getRet opd)
  | input {opd : Operand} (destination : m.operand q.dst opd) : Makes m q .input (.input opd)

/-- What names stand for in a scope. -/
def Scope.reading (s : Scope) : Reading where
  operand ref opd := ∃ field, s.operand field ref = .ok opd
  label l := l ≠ [] ∧ l ∈ s.labels
  callee name proc := s.callee name = .ok proc

/-- An opcode is found by no other name than its own. -/
theorem Opcode.name_of_ofName? {name : Bytes} {code : Opcode} (h : ofName? name = some code) :
    name = code.name :=
  (eq_of_beq (List.find?_some (p := fun code : Opcode => code.name == name) h)).symm

/-- So is an operator on two values. -/
theorem binaryOperator_eq_ok {name : Bytes} {op : BinOp} (h : binaryOperator name = .ok op) :
    op ∈ BinOp.all ∧ op.name = name := by
  rw [binaryOperator] at h
  cases hop : BinOp.ofName? name with
  | none =>
    rw [hop] at h
    cases h
  | some op' =>
    rw [hop] at h
    cases h
    exact ⟨List.mem_of_find?_eq_some hop,
      eq_of_beq (List.find?_some (p := fun op : BinOp => op.name == name) hop)⟩

/-- So is an operator on one value. -/
theorem unaryOperator_eq_ok {name : Bytes} {op : UnOp} (h : unaryOperator name = .ok op) :
    op ∈ UnOp.all ∧ op.name = name := by
  rw [unaryOperator] at h
  cases hop : UnOp.ofName? name with
  | none =>
    rw [hop] at h
    cases h
  | some op' =>
    rw [hop] at h
    cases h
    exact ⟨List.mem_of_find?_eq_some hop,
      eq_of_beq (List.find?_some (p := fun op : UnOp => op.name == name) hop)⟩

/-- A jump goes to the label that it names. -/
theorem Scope.of_label {s : Scope} {name l : Bytes} (h : s.label name = .ok l) :
    l = name ∧ s.reading.label name := by
  rw [label] at h
  split at h
  · cases h
  · next hname =>
    split at h
    · next hmem =>
      cases h
      exact ⟨rfl, by simpa using hname, hmem⟩
    · cases h

/-- The position of an argument is the one that was given, and not below one. -/
theorem QuadDecl.of_position {q : QuadDecl} {index : Int} (h : q.position = .ok index) :
    index = q.index ∧ 1 ≤ q.index := by
  rw [position] at h
  split at h
  · cases h
  · cases h
    exact ⟨rfl, by omega⟩

/-- Everything that a quad of a file can mean. -/
theorem QuadDecl.makes_of_meaning {q : QuadDecl} {s : Scope} {op : Op Signature}
    (h : q.meaning s = .ok op) : ∃ code : Opcode, q.op = code.name ∧ code.Makes s.reading q op := by
  unfold meaning at h
  cases hcode : Opcode.ofName? q.op with
  | none =>
    rw [hcode] at h
    cases h
  | some code =>
    rw [hcode] at h
    refine ⟨code, Opcode.name_of_ofName? hcode, ?_⟩
    cases code with
    | binop =>
      obtain ⟨op', hop, h⟩ := bind_eq_ok.1 h
      obtain ⟨src, hsrc, h⟩ := bind_eq_ok.1 h
      obtain ⟨dst, hdst, h⟩ := bind_eq_ok.1 h
      obtain ⟨src2, hsrc2, h⟩ := bind_eq_ok.1 h
      cases pure_eq_ok.1 h
      obtain ⟨hknown, hname⟩ := binaryOperator_eq_ok hop
      exact .binop hknown hname ⟨_, hsrc⟩ ⟨_, hdst⟩ ⟨_, hsrc2⟩
    | unop =>
      obtain ⟨op', hop, h⟩ := bind_eq_ok.1 h
      obtain ⟨src, hsrc, h⟩ := bind_eq_ok.1 h
      obtain ⟨dst, hdst, h⟩ := bind_eq_ok.1 h
      cases pure_eq_ok.1 h
      obtain ⟨hknown, hname⟩ := unaryOperator_eq_ok hop
      exact .unop hknown hname ⟨_, hsrc⟩ ⟨_, hdst⟩
    | assign =>
      obtain ⟨src, hsrc, h⟩ := bind_eq_ok.1 h
      obtain ⟨dst, hdst, h⟩ := bind_eq_ok.1 h
      cases pure_eq_ok.1 h
      exact .assign ⟨_, hsrc⟩ ⟨_, hdst⟩
    | addrof =>
      obtain ⟨src, hsrc, h⟩ := bind_eq_ok.1 h
      obtain ⟨dst, hdst, h⟩ := bind_eq_ok.1 h
      cases pure_eq_ok.1 h
      exact .addrof ⟨_, hsrc⟩ ⟨_, hdst⟩
    | goto =>
      obtain ⟨target, htarget, h⟩ := bind_eq_ok.1 h
      cases pure_eq_ok.1 h
      obtain ⟨rfl, hlabel⟩ := Scope.of_label htarget
      exact .goto hlabel
    | ifz =>
      obtain ⟨cond, hcond, h⟩ := bind_eq_ok.1 h
      obtain ⟨target, htarget, h⟩ := bind_eq_ok.1 h
      cases pure_eq_ok.1 h
      obtain ⟨rfl, hlabel⟩ := Scope.of_label htarget
      exact .ifz ⟨_, hcond⟩ hlabel
    | nop =>
      cases h
      exact .nop
    | call =>
      obtain ⟨callee, hcallee, h⟩ := bind_eq_ok.1 h
      cases pure_eq_ok.1 h
      exact .call hcallee
    | setarg =>
      obtain ⟨index, hindex, h⟩ := bind_eq_ok.1 h
      obtain ⟨src, hsrc, h⟩ := bind_eq_ok.1 h
      cases pure_eq_ok.1 h
      obtain ⟨rfl, hle⟩ := of_position hindex
      exact .setarg hle ⟨_, hsrc⟩
    | getarg =>
      obtain ⟨index, hindex, h⟩ := bind_eq_ok.1 h
      obtain ⟨dst, hdst, h⟩ := bind_eq_ok.1 h
      cases pure_eq_ok.1 h
      obtain ⟨rfl, hle⟩ := of_position hindex
      exact .getarg hle ⟨_, hdst⟩
    | setret =>
      obtain ⟨src, hsrc, h⟩ := bind_eq_ok.1 h
      cases pure_eq_ok.1 h
      exact .setret ⟨_, hsrc⟩
    | output =>
      obtain ⟨src, hsrc, h⟩ := bind_eq_ok.1 h
      cases pure_eq_ok.1 h
      exact .output ⟨_, hsrc⟩
    | mayhem =>
      obtain ⟨src, hsrc, h⟩ := bind_eq_ok.1 h
      cases pure_eq_ok.1 h
      exact .mayhem ⟨_, hsrc⟩
    | getret =>
      obtain ⟨dst, hdst, h⟩ := bind_eq_ok.1 h
      cases pure_eq_ok.1 h
      exact .getret ⟨_, hdst⟩
    | input =>
      obtain ⟨dst, hdst, h⟩ := bind_eq_ok.1 h
      cases pure_eq_ok.1 h
      exact .input ⟨_, hdst⟩

/-- A body has one quad for each that was declared, in their order. -/
theorem forall₂_of_buildBody {s : Scope} {n : Nat} {ds : List QuadDecl}
    {ops : List (Op Signature)} (h : buildBody s n ds = .ok ops) :
    List.Forall₂ (fun d op => d.meaning s = .ok op) ds ops := by
  induction ds generalizing n ops with
  | nil =>
    cases h
    exact .nil
  | cons d rest ih =>
    obtain ⟨first, hfirst, h⟩ := bind_eq_ok.1 h
    obtain ⟨others, hothers, h⟩ := bind_eq_ok.1 h
    cases pure_eq_ok.1 h
    exact .cons (mapError_eq_ok.1 hfirst) (ih hothers)

/-! ## Labels -/

/-- Labels are attached in their order, if they differ from each other and from those that mark
quads already. -/
theorem attachAll_eq_ok {text : QuadAt → Bytes} {pairs ls : List (Bytes × QuadAt)}
    {s : Labelling Bytes QuadAt} :
    attachAll text (.ofPairs pairs) ls = .ok s ↔ s = .ofPairs (pairs ++ ls) ∧
      (ls.map (·.1)).Nodup ∧ ∀ x ∈ ls, x.1 ∉ pairs.map (·.1) := by
  induction ls generalizing pairs with
  | nil =>
    rw [attachAll, List.append_nil]
    simp [eq_comm]
  | cons x rest ih =>
    obtain ⟨l, q⟩ := x
    rw [attachAll]
    by_cases hl : l ∈ pairs.map (·.1)
    · obtain ⟨owner, herror⟩ := Labelling.attach_ofPairs_of_mem hl q
      rw [herror]
      constructor
      · intro h
        cases h
      · rintro ⟨-, -, hfree⟩
        exact (hfree _ (List.mem_cons_self ..) hl).elim
    · rw [Labelling.attach_ofPairs_of_not_mem hl q]
      show attachAll text (.ofPairs (pairs ++ [(l, q)])) rest = .ok s ↔ _
      rw [ih, List.append_assoc, List.singleton_append, List.map_cons, List.nodup_cons,
        List.forall_mem_cons]
      refine and_congr_right fun _ => ?_
      simp only [List.map_append, List.map_cons, List.map_nil, List.mem_append,
        List.mem_singleton, not_or]
      constructor
      · rintro ⟨hnodup, hfree⟩
        refine ⟨⟨fun hmem => ?_, hnodup⟩, hl, fun x hx => (hfree x hx).1⟩
        obtain ⟨x, hx, he⟩ := List.mem_map.1 hmem
        exact (hfree x hx).2 he
      · rintro ⟨⟨hrest, hnodup⟩, -, hfree⟩
        exact ⟨hnodup, fun x hx => ⟨hfree x hx, fun he => hrest (he ▸ List.mem_map_of_mem hx)⟩⟩

/-- The labels of a procedure, in the order in which they are attached. -/
theorem ProcedureDecl.perm_labelled (d : ProcedureDecl) (i : Nat) :
    ((d.labelled i).map (·.1)).Perm d.labels := by
  have hbody : ((d.body.zipIdx 1).flatMap fun x => x.1.labels.map (·, (⟨i, x.2⟩ : QuadAt))).map
      (·.1) = d.body.flatMap (·.labels) := by
    conv_rhs => rw [← List.zipIdx_map_fst 1 d.body, List.flatMap_map]
    simp [List.map_flatMap, Function.comp_def]
  have hexit : (if d.exit.isEmpty then []
      else [(d.exit, (⟨i, d.body.length + 1⟩ : QuadAt))]).map (·.1)
        = if d.exit.isEmpty then [] else [d.exit] := by
    split <;> rfl
  rw [labelled, List.map_append, hexit, labels, ← hbody]
  exact List.perm_append_comm

namespace File

/-- The labels of a file, in the order in which they are attached. -/
theorem perm_labelled (f : File) :
    (f.labelled.map (·.1)).Perm (f.procedures.flatMap (·.labels)) := by
  rw [labelled, List.map_flatMap]
  conv_rhs => rw [← List.zipIdx_map_fst 0 f.procedures, List.flatMap_map]
  exact List.Perm.flatMap_left _ fun x _ => x.1.perm_labelled x.2

/-- The labels of a file are those of its procedures in order. -/
theorem map_snd_labels (f : File) : f.labels.map (·.2) = f.procedures.flatMap (·.labels) := by
  simp [labels, List.map_flatMap, Function.comp_def]

/-- They are accepted just if all are different. -/
theorem checkLabels_labels {f : File} :
    checkLabels [] f.labels = .ok () ↔ (f.procedures.flatMap (·.labels)).Nodup := by
  simp [checkLabels_eq_ok, map_snd_labels]

/-- Labels that passed the check can all be attached. -/
theorem attachAll_labelled {f : File} (h : checkLabels [] f.labels = .ok ())
    (text : QuadAt → Bytes) : attachAll text {} f.labelled = .ok (.ofPairs f.labelled) := by
  show attachAll text (.ofPairs []) f.labelled = _
  rw [attachAll_eq_ok]
  exact ⟨rfl, f.perm_labelled.nodup_iff.2 (checkLabels_labels.1 h), fun _ _ => List.not_mem_nil⟩

end File

/-- The labels of the quads of a procedure, one list for each: the one that enters has none, and the
one that leaves has the label of the end. -/
def ProcedureDecl.quadLabels (d : ProcedureDecl) : List (List Bytes) :=
  [] :: d.body.map (·.labels) ++ [if d.exit.isEmpty then [] else [d.exit]]

/-- Every label of a procedure is on one of its quads. -/
theorem ProcedureDecl.perm_flatten_quadLabels (d : ProcedureDecl) :
    d.quadLabels.flatten.Perm d.labels := by
  rw [quadLabels, List.flatten_append, List.flatten_cons, List.nil_append, List.flatten_singleton,
    ← List.flatMap_def]
  exact List.perm_append_comm

/-- Of numbered parts, a choice by number takes from one part only. -/
theorem filter_flatMap_zipIdx {α β : Type} {g : α → Nat → List β} {P : β → Bool} {k : Nat}
    (hother : ∀ a j, j ≠ k → ∀ x ∈ g a j, ¬ P x) (l : List α) (n : Nat) :
    ((l.zipIdx n).flatMap fun (a, j) => g a j).filter P =
      (if n ≤ k then (l[k - n]?).elim [] (g · k) else []).filter P := by
  induction l generalizing n with
  | nil => simp
  | cons a rest ih =>
    rw [List.zipIdx_cons, List.flatMap_cons, List.filter_append, ih]
    rcases Nat.lt_trichotomy n k with hlt | rfl | hgt
    · obtain ⟨m, rfl⟩ := Nat.exists_eq_add_of_lt hlt
      rw [List.filter_eq_nil_iff.2 (hother a n (Nat.ne_of_lt hlt)), if_pos (by omega),
        if_pos (by omega), show n + m + 1 - n = m + 1 by omega,
        show n + m + 1 - (n + 1) = m by omega, List.getElem?_cons_succ, List.nil_append]
    · simp
    · rw [List.filter_eq_nil_iff.2 (hother a n (Nat.ne_of_gt hgt)), if_neg (by omega),
        if_neg (by omega)]
      rfl

/-- A procedure attaches the labels of a quad in the order in which they are listed. -/
theorem ProcedureDecl.labels_labelled (d : ProcedureDecl) (i j : Nat) :
    ((d.labelled i).filter (·.2 = ⟨i, j⟩)).map (·.1) = d.quadLabels[j]?.getD [] := by
  have hbody := filter_flatMap_zipIdx (P := fun x => x.2 = (⟨i, j⟩ : QuadAt))
    (g := fun q j => q.labels.map fun l => (l, (⟨i, j⟩ : QuadAt))) (k := j)
    (by simp +contextual) d.body 1
  have hsame (place : QuadAt) (ls : List Bytes) :
      ((ls.map (·, place)).filter (·.2 = place)).map (·.1) = ls := by
    rw [List.filter_eq_self.2 (by simp), List.map_map]
    exact List.map_id' ls
  rw [labelled, List.filter_append, hbody, quadLabels, List.map_append]
  cases j with
  | zero =>
    rw [if_neg (by decide)]
    split <;> simp
  | succ k =>
    rw [if_pos (Nat.le_add_left 1 k), Nat.add_sub_cancel, List.cons_append, List.getElem?_cons_succ]
    rcases Nat.lt_trichotomy k d.body.length with hlt | rfl | hgt
    · rw [List.getElem?_append_left (by simpa using hlt), List.getElem?_eq_getElem hlt,
        Option.elim_some, hsame]
      split <;> simp [hlt, Nat.ne_of_gt hlt]
    · split <;> simp
    · rw [List.getElem?_eq_none (Nat.le_of_lt hgt), List.getElem?_eq_none (by simpa using hgt)]
      split <;> simp [Nat.ne_of_lt hgt]

/-- The labels of a procedure are on its own quads. -/
theorem ProcedureDecl.procedure_of_mem_labelled {d : ProcedureDecl} {i : Nat}
    {x : Bytes × QuadAt} (h : x ∈ d.labelled i) : x.2.procedure = i := by
  rcases List.mem_append.1 h with h | h
  · obtain ⟨⟨quad, j⟩, -, h⟩ := List.mem_flatMap.1 h
    obtain ⟨l, -, rfl⟩ := List.mem_map.1 h
    rfl
  · split at h
    · cases h
    · cases List.mem_singleton.1 h
      rfl

/-- A file attaches the labels of a quad in the order in which they are listed. -/
theorem File.labels_labelled {f : File} {i : Nat} {d : ProcedureDecl}
    (hd : f.procedures[i]? = some d) (j : Nat) :
    (Labelling.ofPairs f.labelled).labels ⟨i, j⟩ = d.quadLabels[j]?.getD [] := by
  rw [← d.labels_labelled i j, Labelling.labels_ofPairs, labelled, filter_flatMap_zipIdx (k := i),
    if_pos (Nat.zero_le i), Nat.sub_zero, hd]
  · rfl
  · intro d' i' hne x hx he
    rw [← d'.procedure_of_mem_labelled hx, of_decide_eq_true he] at hne
    exact hne rfl

/-- Every quad carries the labels that mark it. -/
theorem labels_of_markQuads {s : Labelling Bytes QuadAt} {i j : Nat} {q : Procedure}
    {quad : Quad} (hj : (markQuads s i q).quads[j]? = some quad) :
    quad.labels = s.labels ⟨i, j⟩ := by
  rcases Procedure.quads_cases hj with ⟨rfl, rfl⟩ | ⟨rfl, rfl⟩ | ⟨k, rfl, hk⟩
  · rfl
  · have hlen : (markQuads s i q).body.length = q.body.length := by simp [markQuads]
    rw [hlen]
    rfl
  · simp only [markQuads, List.getElem?_map, List.getElem?_zipIdx, Option.map_map,
      Option.map_eq_some_iff] at hk
    obtain ⟨quad₀, -, rfl⟩ := hk
    rw [Nat.add_comm]
    rfl

/-- Marking quads changes their labels only. -/
theorem map_op_markQuads (s : Labelling Bytes QuadAt) (i : Nat) (q : Procedure) :
    (markQuads s i q).body.map (·.op) = q.body.map (·.op) := by
  conv_rhs => rw [← List.zipIdx_map_fst 1 q.body, List.map_map]
  rw [markQuads, List.map_map]
  rfl

namespace File

variable {f : File} {p : Program}

/-- The steps by which a program was built. -/
theorem build_steps (h : f.build = .ok p) :
    ∃ ps,
      checkGlobals [] f.globals = .ok () ∧
      checkProcedures [] f.procedures = .ok () ∧
      checkLabels [] f.labels = .ok () ∧
      List.Forall₂ (fun (d, o) q => f.buildProcedure d o = .ok q) f.owned ps ∧
      p.globals = f.globalVariables ∧
      p.strings = f.stringTable ps ∧
      p.procedures = ps.zipIdx.map fun (q, i) => markQuads (.ofPairs f.labelled) i q := by
  obtain ⟨⟨⟩, hglobals, h⟩ := bind_eq_ok.1 h
  obtain ⟨⟨⟩, hprocs, h⟩ := bind_eq_ok.1 h
  obtain ⟨⟨⟩, hlabels, h⟩ := bind_eq_ok.1 h
  obtain ⟨ps, hps, h⟩ := bind_eq_ok.1 h
  rw [attachAll_labelled hlabels] at h
  cases h
  exact ⟨ps, hglobals, hprocs, hlabels, mapM_eq_ok.1 hps, rfl, rfl, rfl⟩

/-- Globals are symbols. -/
theorem form_of_mem_globals (h : f.build = .ok p) {v : Variable} (hv : v ∈ p.globals) :
    v.form = .symbol := by
  obtain ⟨ps, -, -, -, -, hg, -, -⟩ := build_steps h
  rw [hg] at hv
  exact form_of_mem_variablesFrom hv

/-- The steps by which a procedure was built. -/
theorem procedure_steps (h : f.build = .ok p) {i : Nat} {q : Procedure}
    (hq : p.procedures[i]? = some q) :
    ∃ d start body, f.owned[i]? = some (d, d.owned start) ∧
      checkSymbols [] d.symbols = .ok () ∧
      buildBody (f.scope (d.owned start)) 1 d.body = .ok body ∧
      q = markQuads (.ofPairs f.labelled) i {
        name := d.name
        temps := (d.owned start).temps
        locals := (d.owned start).locals
        formals := (d.owned start).formals
        addrs := (d.owned start).addrs
        body := body.map fun op => ⟨[], op⟩ } := by
  obtain ⟨ps, -, -, -, hps, -, -, hprocs⟩ := build_steps h
  rw [hprocs, List.getElem?_map, Option.map_eq_some_iff] at hq
  obtain ⟨⟨q₀, j⟩, hj, rfl⟩ := hq
  rw [List.getElem?_zipIdx, Option.map_eq_some_iff] at hj
  obtain ⟨q₁, hq₁, he⟩ := hj
  cases he
  obtain ⟨⟨d, o⟩, hi, hd⟩ := getElem?_of_forall₂ hps hq₁
  obtain ⟨start, rfl⟩ := owned_of_mem_ownedFrom (List.mem_of_getElem? hi)
  obtain ⟨⟨⟩, hsymbols, hd⟩ := bind_eq_ok.1 (mapError_eq_ok.1 hd)
  obtain ⟨body, hbody, hd⟩ := bind_eq_ok.1 hd
  cases pure_eq_ok.1 hd
  exact ⟨d, start, body, hi, hsymbols, hbody, by rw [Nat.zero_add]⟩

/-- The quads of a body mean what was declared, one by one. -/
theorem body_steps (h : f.build = .ok p) {i : Nat} {q : Procedure}
    (hq : p.procedures[i]? = some q) :
    ∃ d start, f.owned[i]? = some (d, d.owned start) ∧
      List.Forall₂ (fun decl quad => decl.meaning (f.scope (d.owned start)) = .ok quad.op)
        d.body q.body := by
  obtain ⟨d, start, body, hi, -, hbody, hmarked⟩ := procedure_steps h hq
  have hops : q.body.map (·.op) = body := by
    rw [hmarked, map_op_markQuads, List.map_map]
    exact List.map_id' body
  have hmeaning := forall₂_of_buildBody hbody
  rw [← hops, List.forall₂_map_right_iff] at hmeaning
  exact ⟨d, start, hi, hmeaning⟩

/-- The strings of a program are those that were declared and those in its quads. -/
theorem strings_steps (h : f.build = .ok p) :
    p.strings =
      distinct (f.strings ++ p.procedures.flatMap fun q => q.body.flatMap (stringsOf ·.op)) := by
  have hops (q : Procedure) :
      q.body.flatMap (stringsOf ·.op) = (q.body.map (·.op)).flatMap stringsOf :=
    (List.flatMap_map ..).symm
  obtain ⟨ps, -, -, -, -, -, hstrings, hprocs⟩ := build_steps h
  rw [hstrings, stringTable, hprocs, List.flatMap_map]
  simp only [hops, map_op_markQuads]
  conv_lhs => rw [← List.zipIdx_map_fst 0 ps, List.flatMap_map]

/-- Formals are symbols. -/
theorem form_of_mem_formals (h : f.build = .ok p) {q : Procedure} (hq : q ∈ p.procedures)
    {v : Variable} (hv : v ∈ q.formals) : v.form = .symbol := by
  obtain ⟨i, hi⟩ := List.mem_iff_getElem?.1 hq
  obtain ⟨d, start, body, -, -, -, rfl⟩ := procedure_steps h hi
  exact form_of_mem_variablesFrom hv

/-- Each procedure has its variables. -/
theorem length_owned (h : f.build = .ok p) : f.owned.length = p.procedures.length := by
  obtain ⟨ps, -, -, -, hps, -, -, hprocs⟩ := build_steps h
  rw [hprocs, List.length_map, List.length_zipIdx, hps.length_eq]

/-- A procedure is made of each declaration. -/
theorem length_procedures (h : f.build = .ok p) : f.procedures.length = p.procedures.length := by
  rw [← map_fst_ownedFrom f.globals.length f.procedures, List.length_map]
  exact length_owned h

/-- The variables stand with the declaration they were made of. -/
theorem getElem?_of_owned {i : Nat} {d : ProcedureDecl} {o : Owned}
    (h : f.owned[i]? = some (d, o)) : f.procedures[i]? = some d := by
  rw [← map_fst_ownedFrom f.globals.length f.procedures, List.getElem?_map, ← owned, h]
  rfl

/-- Callers see the procedures as they were declared. -/
theorem map_signature (h : f.build = .ok p) : p.procedures.map (·.signature) = f.signatures := by
  refine (map_eq_map_of_forall₂ (forall₂_of_getElem? (length_owned h) ?_)).symm
  intro i x q hx hq
  obtain ⟨d, start, body, hi, -, -, rfl⟩ := procedure_steps h hq
  cases hi.symm.trans hx
  rfl

/-- Signatures have the names of the procedures. -/
theorem map_name_signatures (f : File) :
    f.signatures.map (·.name) = f.procedures.map (·.name) := by
  conv_rhs => rw [← map_fst_ownedFrom f.globals.length f.procedures, List.map_map]
  rw [signatures, List.map_map]
  rfl

/-- No two procedures have the same name. -/
theorem nodup_names (h : f.build = .ok p) : (p.procedures.map (·.name)).Nodup := by
  obtain ⟨ps, -, hcheck, -, -, -, -, -⟩ := build_steps h
  have hnames : p.procedures.map (·.name) = f.procedures.map (·.name) := by
    rw [← map_name_signatures, ← map_signature h, List.map_map]
    rfl
  rw [hnames]
  exact (checkProcedures_eq_ok.1 hcheck).1

/-- The quads of a body do not set up or give up frames. -/
theorem op_of_mem_body (h : f.build = .ok p) {q : Procedure} (hq : q ∈ p.procedures) {quad : Quad}
    (hquad : quad ∈ q.body) (s : Signature) : quad.op ≠ .enter s ∧ quad.op ≠ .leave s := by
  obtain ⟨i, hi⟩ := List.mem_iff_getElem?.1 hq
  obtain ⟨d, start, -, hbody⟩ := body_steps h hi
  obtain ⟨decl, -, hdecl⟩ := exists_of_forall₂ hbody.flip hquad
  obtain ⟨code, -, hmakes⟩ := QuadDecl.makes_of_meaning hdecl
  generalize quad.op = op at hmakes
  cases hmakes <;> exact ⟨by rintro ⟨⟩, by rintro ⟨⟩⟩

/-- The quads of a program carry the labels that the file lists, in the same order. -/
theorem forall₂_labels (h : f.build = .ok p) :
    List.Forall₂ (fun d q => d.quadLabels = q.quads.map (·.labels)) f.procedures p.procedures := by
  refine forall₂_of_getElem? (length_procedures h) fun i d q hd hq => List.ext_getElem? fun j => ?_
  obtain ⟨d', start, hi, hbody⟩ := body_steps h hq
  obtain rfl : d' = d := Option.some.inj ((getElem?_of_owned hi).symm.trans hd)
  have hlen : d'.quadLabels.length = q.quads.length := by
    simp [ProcedureDecl.quadLabels, Procedure.quads, hbody.length_eq]
  rw [List.getElem?_map]
  cases hj : q.quads[j]? with
  | none => exact List.getElem?_eq_none (hlen ▸ List.getElem?_eq_none_iff.1 hj)
  | some quad =>
    obtain ⟨hlt, -⟩ := List.getElem?_eq_some_iff.1 hj
    have hlabels := labels_labelled hd j
    rw [List.getElem?_eq_getElem (hlen ▸ hlt)] at hlabels ⊢
    obtain ⟨d'', start', body, -, -, -, rfl⟩ := procedure_steps h hq
    rw [Option.map_some, labels_of_markQuads hj, hlabels]
    rfl

/-- Every label of a file marks one quad. -/
theorem perm_labels (h : f.build = .ok p) :
    (p.procedures.flatMap fun q => q.quads.flatMap (·.labels)).Perm
      (f.procedures.flatMap (·.labels)) := by
  have heq := map_eq_map_of_forall₂ ((forall₂_labels h).imp fun d q => congrArg List.flatten)
  simp only [← List.flatMap_def] at heq
  rw [List.flatMap_def, ← heq, ← List.flatMap_def]
  exact List.Perm.flatMap_left _ fun d _ => d.perm_flatten_quadLabels

/-- No label occurs twice. -/
theorem nodup_labels (h : f.build = .ok p) :
    (p.procedures.flatMap fun q => q.quads.flatMap (·.labels)).Nodup := by
  obtain ⟨ps, -, -, hcheck, -, -, -, -⟩ := build_steps h
  exact (perm_labels h).nodup_iff.2 (checkLabels_labels.1 hcheck)

end File

end Source

end QuadAsm
