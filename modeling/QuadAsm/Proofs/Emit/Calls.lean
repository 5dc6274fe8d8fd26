import QuadAsm.Proofs.Emit.Link
import QuadAsm.Proofs.Emit.Repertoire
import QuadAsm.Proofs.Source.Faithful

/-!
# Where calls go

A call in the code of a program belongs to a quad: to one that calls a procedure of the program, or
to one that prints or reads and calls a routine of the runtime. Procedures, labels and routines have
their names in common, so a routine is reached only if no procedure and no label has its name. Main
results: calls of procedures and of routines are all there are (`Source.File.exists_of_call`), and
if the names are free they go there (`Source.File.symbol_eq_entry`,
`Source.File.symbol_service_eq_none`).
-/

namespace QuadAsm

open Emit Layout Machine

/-! ## Positions -/

/-- An element of several lists in a row. -/
theorem exists_of_getElem?_flatten {α : Type} {ls : List (List α)} {n : Nat} {a : α}
    (h : ls.flatten[n]? = some a) :
    ∃ pre l post m, ls = pre ++ l :: post ∧ n = pre.flatten.length + m ∧ l[m]? = some a := by
  induction ls generalizing n with
  | nil => simp at h
  | cons l rest ih =>
    rw [List.flatten_cons] at h
    rcases Nat.lt_or_ge n l.length with hn | hn
    · rw [List.getElem?_append_left hn] at h
      exact ⟨[], l, rest, n, rfl, (Nat.zero_add n).symm, h⟩
    · rw [List.getElem?_append_right hn] at h
      obtain ⟨pre, l', post, m, rfl, hm, ha⟩ := ih h
      refine ⟨l :: pre, l', post, m, rfl, ?_, ha⟩
      rw [List.flatten_cons, List.length_append]
      omega

namespace Emit

variable {p : Program}

/-- The code of pieces in a row is the code of each piece in a row. -/
theorem flatten_flatMap_blocks (pieces : List (Piece p)) :
    (pieces.flatMap (·.blocks)).flatten = (pieces.map (·.blocks.flatten)).flatten := by
  rw [List.flatMap_def, List.flatten_flatten, List.map_map]
  rfl

/-- An instruction of a program belongs to one of its procedures. -/
theorem exists_piece_of_code {pieces : List (Piece p)} {n : Nat} {i : Instr}
    (h : (linked pieces).code[n]? = some i) :
    ∃ pre x post m, pieces = pre ++ x :: post ∧ n = extent pre + m ∧
      x.blocks.flatten[m]? = some i := by
  rw [code_linked, flatten_flatMap_blocks] at h
  obtain ⟨pre, code, post, m, hsplit, hn, hi⟩ := exists_of_getElem?_flatten h
  obtain ⟨before, rest, rfl, rfl, hrest⟩ := List.map_eq_append_iff.1 hsplit
  obtain ⟨x, after, rfl, rfl, rfl⟩ := List.map_eq_cons_iff.1 hrest
  exact ⟨before, x, after, m, rfl, by rw [hn, extent, flatten_flatMap_blocks], hi⟩

namespace Piece

variable (x : Piece p)

/-- The last thing a procedure does is to leave. -/
theorem blocks_eq : ∃ before, x.blocks = before ++ [x.ctx.leaveCode] := by
  have hcode : List.Forall₂ (fun quad block => x.ctx.codeOf quad.op = .ok block)
      (x.procedure.enter :: x.procedure.body ++ [x.procedure.leave]) x.blocks := x.laid.code
  obtain ⟨before, after, hblocks, -, hafter⟩ := append_of_forall₂ hcode
  cases hafter with
  | cons hleave hnil =>
    cases hnil
    cases hleave
    exact ⟨before, hblocks⟩

/-- The last instruction of a procedure is its return. -/
theorem flatten_blocks_eq : ∃ before, x.blocks.flatten = before ++ [.ret] := by
  obtain ⟨before, hblocks⟩ := x.blocks_eq
  refine ⟨before.flatten ++ x.ctx.adjustStack .add ++ [.pop .rbp], ?_⟩
  simp [hblocks, Context.leaveCode]

variable {x}

/-- Every quad starts inside of its procedure. -/
theorem start_lt {k : Nat} (hk : k < x.blocks.length) :
    start x.blocks k < x.blocks.flatten.length := by
  obtain ⟨before, hblocks⟩ := x.blocks_eq
  have hle : k ≤ before.length := by
    rw [hblocks, List.length_append, List.length_singleton] at hk
    exact Nat.le_of_lt_succ hk
  have hlast : 0 < x.ctx.leaveCode.length := by simp [Context.leaveCode]
  have hstart := start_le before k
  rw [hblocks, start_append_left hle, List.flatten_append, List.length_append,
    List.flatten_singleton]
  omega

/-- An instruction of a procedure belongs to one of its quads. -/
theorem exists_quad {m : Nat} {i : Instr} (h : x.blocks.flatten[m]? = some i) :
    ∃ k quad block j, x.procedure.quads[k]? = some quad ∧ x.blocks[k]? = some block ∧
      x.ctx.codeOf quad.op = .ok block ∧ block[j]? = some i ∧ m = start x.blocks k + j := by
  obtain ⟨pre, block, post, j, hblocks, hm, hi⟩ := exists_of_getElem?_flatten h
  have hblock : x.blocks[pre.length]? = some block := by simp [hblocks]
  obtain ⟨quad, hquad, hcode⟩ := getElem?_of_forall₂ x.laid.code hblock
  refine ⟨pre.length, quad, block, j, hquad, hblock, hcode, hi, ?_⟩
  rw [hm, hblocks, start_append_left (Nat.le_refl _), start_length]

/-- The instruction after one that does not return belongs to the same procedure. -/
theorem succ_lt {m : Nat} {i : Instr} (h : x.blocks.flatten[m]? = some i) (hret : i ≠ .ret) :
    m + 1 < x.blocks.flatten.length := by
  obtain ⟨before, hcode⟩ := x.flatten_blocks_eq
  obtain ⟨hm, -⟩ := List.getElem?_eq_some_iff.1 h
  refine Nat.lt_of_le_of_ne hm fun hlast => hret ?_
  have hlen : m = before.length := by
    rw [hcode, List.length_append, List.length_singleton] at hlast
    exact Nat.succ.inj hlast
  rw [hcode, hlen, List.getElem?_concat_length] at h
  exact (Option.some.inj h).symm

end Piece

end Emit

/-! ## Calls -/

/-- No label has the name of a routine of the runtime that the program calls. -/
def Program.LabelsSpareRuntime (p : Program) : Prop :=
  ∀ q ∈ p.procedures, ∀ v ∈ q.services, ∀ q' ∈ p.procedures, q'.labelled? v.name = none

/-- No procedure has the name of a routine of the runtime that the program calls. -/
def Program.ProceduresSpareRuntime (p : Program) : Prop :=
  ∀ q ∈ p.procedures, ∀ v ∈ q.services, ∀ q' ∈ p.procedures, q'.name ≠ v.name

instance (p : Program) : Decidable p.LabelsSpareRuntime :=
  inferInstanceAs (Decidable (∀ q ∈ p.procedures, ∀ v ∈ q.services, ∀ q' ∈ p.procedures,
    q'.labelled? v.name = none))

instance (p : Program) : Decidable p.ProceduresSpareRuntime :=
  inferInstanceAs (Decidable (∀ q ∈ p.procedures, ∀ v ∈ q.services, ∀ q' ∈ p.procedures,
    q'.name ≠ v.name))

namespace Source.File

variable {f : Source.File} {p : Program}

/-- A call in a program from a file is of one of its procedures. -/
theorem callee_of_mem_quads (h : f.build = .ok p) {q : Procedure} (hq : q ∈ p.procedures)
    {quad : Quad} (hquad : quad ∈ q.quads) {callee : Signature} (hop : quad.op = .call callee) :
    ∃ q' ∈ p.procedures, callee = q'.signature := by
  have hquad : quad ∈ q.body := by
    rcases Procedure.mem_quads.1 hquad with rfl | hbody | rfl
    · cases hop
    · exact hbody
    · cases hop
  obtain ⟨i, hi⟩ := List.mem_iff_getElem?.1 hq
  obtain ⟨d, start, -, hbody⟩ := body_steps h hi
  obtain ⟨decl, -, hdecl⟩ := exists_of_forall₂ hbody.flip hquad
  obtain ⟨code, -, hmakes⟩ := QuadDecl.makes_of_meaning hdecl
  rw [hop] at hmakes
  cases hmakes with
  | call hcallee =>
    obtain ⟨q', hfilter, hsig⟩ := callee_of_scope h hcallee
    exact ⟨q', List.mem_of_mem_filter (hfilter ▸ List.mem_singleton_self q'), hsig⟩

section
variable {pieces : List (Piece p)} (hpieces : pieces.map (·.procedure) = p.procedures)
include hpieces

/-- A call in the code of a program is of one of its procedures, or of a routine of the runtime that
one of them calls. -/
theorem exists_of_call (h : f.build = .ok p) {n : Nat} {l : Bytes}
    (hcall : (linked pieces).code[n]? = some (.call l)) :
    (∃ q ∈ p.procedures, l = q.name) ∨ ∃ q ∈ p.procedures, ∃ v ∈ q.services, l = v.name := by
  obtain ⟨pre, x, post, m, rfl, -, hm⟩ := exists_piece_of_code hcall
  have hx : x.procedure ∈ p.procedures := by simp [← hpieces]
  obtain ⟨k, quad, block, j, hk, -, hcode, hj, -⟩ := Piece.exists_quad hm
  have hquad := List.mem_of_getElem? hk
  rcases Context.emits_of_codeOf hcode _ (List.mem_of_getElem? hj) with
    ⟨callee, hop, rfl⟩ | ⟨v, hv, rfl⟩
  · obtain ⟨q, hq, rfl⟩ := callee_of_mem_quads h hx hquad hop
    exact .inl ⟨q, hq, rfl⟩
  · exact .inr ⟨x.procedure, hx, v, Procedure.mem_services hquad hv, rfl⟩

/-- A name that no procedure has as a label is no label of the code. -/
theorem label_linked_eq_none {l : Bytes} (h : ∀ q ∈ p.procedures, q.labelled? l = none) :
    (linked pieces).label l = none :=
  labelPosition_pieces fun _ hy => h _ (hpieces ▸ List.mem_map_of_mem hy)

/-- A name that no procedure has is no function of the code. -/
theorem entry_linked_eq_none {l : Bytes} (h : ∀ q ∈ p.procedures, q.name ≠ l) :
    (linked pieces).entry l = none := by
  by_contra hne
  obtain ⟨n, hn⟩ := Option.ne_none_iff_exists'.1 hne
  obtain ⟨pre, x, post, rfl, hname, -⟩ := exists_of_entry hn
  rw [x.compiled.name] at hname
  exact h x.procedure (by simp [← hpieces]) hname

/-- If labels leave the names of routines alone, calls never go to labels. -/
theorem symbol_eq_entry (h : f.build = .ok p) (hlabels : p.LabelsSpareRuntime) {n : Nat} {l : Bytes}
    (hcall : (linked pieces).code[n]? = some (.call l)) :
    (linked pieces).symbol l = (linked pieces).entry l := by
  rcases exists_of_call hpieces h hcall with ⟨q, hq, rfl⟩ | ⟨q, hq, v, hv, rfl⟩
  · obtain ⟨x, hx, rfl⟩ := List.mem_map.1 (hpieces ▸ hq)
    obtain ⟨e, hentry, -⟩ := placed_of_mem h hpieces hx
    rw [Image.symbol_of_entry hentry, hentry]
  · exact Image.symbol_of_label_eq_none (label_linked_eq_none hpieces (hlabels q hq v hv))

/-- If procedures and labels leave the names of routines alone, calls of routines go to the
runtime. -/
theorem symbol_service_eq_none (hlabels : p.LabelsSpareRuntime)
    (hnames : p.ProceduresSpareRuntime) {q : Procedure} (hq : q ∈ p.procedures) {v : Service}
    (hv : v ∈ q.services) : (linked pieces).symbol v.name = none := by
  rw [Image.symbol_of_label_eq_none (label_linked_eq_none hpieces (hlabels q hq v hv))]
  exact entry_linked_eq_none hpieces (hnames q hq v hv)

/-- So do all calls in the code of a quad that calls no procedure. -/
theorem symbol_of_codeOf (hlabels : p.LabelsSpareRuntime) (hnames : p.ProceduresSpareRuntime)
    {x : Piece p} (hx : x ∈ pieces) {quad : Quad} (hquad : quad ∈ x.procedure.quads)
    (hop : ∀ callee, quad.op ≠ .call callee) {block : List Instr}
    (hcode : x.ctx.codeOf quad.op = .ok block) {l : Bytes} (hl : .call l ∈ block) :
    (linked pieces).symbol l = none := by
  rcases Context.emits_of_codeOf hcode _ hl with ⟨callee, hcall, -⟩ | ⟨v, hv, rfl⟩
  · exact absurd hcall (hop callee)
  · exact symbol_service_eq_none hpieces hlabels hnames (hpieces ▸ List.mem_map_of_mem hx)
      (Procedure.mem_services hquad hv)

end

end Source.File

end QuadAsm
