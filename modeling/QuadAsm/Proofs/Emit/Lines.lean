import QuadAsm.Proofs.Emit.Program
import QuadAsm.Proofs.Emit.Repertoire

/-!
# The lines of a procedure

A function is the lines of the quads of its procedure, in their order: for each quad its labels, a
comment that shows it and its instructions, with remarks between some of them. Main result:
`Procedure.items_of_itemsIn`.
-/

namespace QuadAsm

open Emit Machine

namespace Procedure

/-- The remarks in front of the quad at position `j`. -/
def remarks (q : Procedure) (size : Int) (j : Nat) : List Bytes :=
  (if j = 0 then ["frame size: " ++ Bytes.ofInt size ++ " bytes"] else [])
    ++ (if j = 1 then ["Fn body " ++ q.name] else [])
    ++ if j = q.body.length + 1 then ["Fn epilogue " ++ q.name] else []

/-- The lines of a procedure, given the size of its frame and the instructions of its quads. -/
def items (q : Procedure) (size : Int) (blocks : List (List Instr)) : List Item :=
  (q.quads.zip blocks).zipIdx.flatMap fun ((quad, block), j) =>
    (q.remarks size j).map .comment ++ quad.items block

/-- Between the first quad of a body and the one that leaves there are no remarks. -/
theorem flatMap_remarks {q : Procedure} {size : Int} {n : Nat} {l : List (Quad × List Instr)}
    (hn : 2 ≤ n) (hl : n + l.length ≤ q.body.length + 1) :
    ((l.zipIdx n).flatMap fun ((quad, block), j) =>
      (q.remarks size j).map .comment ++ quad.items block)
        = l.flatMap fun (quad, block) => quad.items block := by
  conv_rhs => rw [← List.zipIdx_map_fst n l, List.flatMap_map]
  refine List.flatMap_congr fun ⟨x, j⟩ hx => ?_
  have hj := List.le_snd_of_mem_zipIdx hx
  have hj' := List.snd_lt_add_of_mem_zipIdx hx
  have hnone : q.remarks size j = [] := by
    rw [remarks, if_neg (by omega), if_neg (by omega), if_neg (by omega)]
    rfl
  simp [hnone]

/-- The remarks stand at the start, behind the quad that enters and in front of the one that
leaves. -/
theorem items_eq (q : Procedure) (size : Int) (enter leave : List Instr)
    {blocks : List (List Instr)} (hlen : q.body.length = blocks.length) :
    q.items size (enter :: blocks ++ [leave]) =
      .comment ("frame size: " ++ Bytes.ofInt size ++ " bytes") :: q.enter.items enter
        ++ .comment ("Fn body " ++ q.name) ::
          ((q.body.zip blocks).flatMap fun (quad, block) => quad.items block)
        ++ .comment ("Fn epilogue " ++ q.name) :: q.leave.items leave := by
  have hzip : q.quads.zip (enter :: blocks ++ [leave]) =
      (q.enter, enter) :: (q.body.zip blocks ++ [(q.leave, leave)]) := by
    rw [quads, List.cons_append, List.cons_append, List.zip_cons_cons, List.zip_append hlen]
    rfl
  have hpairs : (q.body.zip blocks).length = q.body.length := by
    rw [List.length_zip, ← hlen, Nat.min_self]
  rw [items, hzip, List.zipIdx_cons, List.flatMap_cons, List.zipIdx_append, List.flatMap_append]
  -- the first quad of the body has a remark, if there is one
  cases hbody : q.body.zip blocks with
  | nil =>
    rw [hbody] at hpairs
    simp [remarks, ← hpairs]
  | cons pair rest =>
    rw [hbody, List.length_cons] at hpairs
    rw [List.zipIdx_cons, List.flatMap_cons, flatMap_remarks (Nat.le_refl 2) (by omega)]
    simp [remarks, ← hpairs, Nat.add_comm 1]

/-- A procedure that has code is written quad by quad. -/
theorem items_of_itemsIn {q : Procedure} {ctx : Context} {items : List Item}
    (h : q.itemsIn ctx = .ok items) :
    ∃ blocks, List.Forall₂ (fun quad block => ctx.codeOf quad.op = .ok block) q.quads blocks ∧
      items = q.items ctx.frame.size blocks := by
  obtain ⟨enter, blocks, leave, henter, hblocks, hleave, rfl⟩ := q.exists_of_itemsIn h
  exact ⟨enter :: blocks ++ [leave], .cons henter (List.rel_append hblocks (.cons hleave .nil)),
    (q.items_eq _ _ _ hblocks.length_eq).symm⟩

/-- What is not in comments is in the lines of quads. -/
theorem filterMap_items {q : Procedure} {size : Int} {blocks : List (List Instr)} {β : Type}
    {f : Item → Option β} (hcomment : ∀ text, f (.comment text) = none) :
    (q.items size blocks).filterMap f =
      (q.quads.zip blocks).flatMap fun (quad, block) =>
        (quad.labels.map .label).filterMap f ++ (block.map .instr).filterMap f := by
  have hremarks (texts : List Bytes) : (texts.map .comment).filterMap f = [] :=
    List.filterMap_eq_nil_iff.2 (List.forall_mem_map.2 fun text _ => hcomment text)
  conv_rhs => rw [← List.zipIdx_map_fst 0 (q.quads.zip blocks), List.flatMap_map]
  rw [items, List.filterMap_flatMap]
  refine List.flatMap_congr fun ⟨⟨quad, block⟩, j⟩ _ => ?_
  simp [Quad.items, hremarks, hcomment]

/-- The lines before a quad are those of the quads before it, with its remarks. -/
theorem items_split {q : Procedure} (size : Int) {blocks : List (List Instr)} {j : Nat}
    {quad : Quad} {block : List Instr} (hquad : q.quads[j]? = some quad)
    (hblock : blocks[j]? = some block) :
    ∃ rest, q.items size blocks = q.items size (blocks.take j)
      ++ (q.remarks size j).map .comment ++ quad.items block ++ rest := by
  have hpair : (q.quads.zip blocks)[j]? = some (quad, block) :=
    List.getElem?_zip_eq_some.2 ⟨hquad, hblock⟩
  obtain ⟨hj, hpair⟩ := List.getElem?_eq_some_iff.1 hpair
  have hbefore : q.quads.zip (blocks.take j) = (q.quads.zip blocks).take j := by
    rw [← List.take_of_length_le (l := q.quads.zip (blocks.take j)) (i := j) (by simp)]
    simp only [List.zip_eq_zipWith, List.take_zipWith, List.take_take, Nat.min_self]
  refine ⟨(((q.quads.zip blocks).drop (j + 1)).zipIdx (j + 1)).flatMap fun ((quad, block), j) =>
    (q.remarks size j).map .comment ++ quad.items block, ?_⟩
  rw [items, items, hbefore]
  conv_lhs => rw [← List.take_append_drop j (q.quads.zip blocks), List.drop_eq_getElem_cons hj]
  rw [List.zipIdx_append, List.flatMap_append, List.zipIdx_cons, List.flatMap_cons, hpair,
    List.length_take_of_le (Nat.le_of_lt hj), Nat.zero_add]
  simp

/-- A line is a remark or belongs to a quad. -/
theorem mem_items {q : Procedure} {size : Int} {blocks : List (List Instr)} {item : Item}
    (h : item ∈ q.items size blocks) :
    (∃ j, ∃ text ∈ q.remarks size j, item = .comment text) ∨
      ∃ quad ∈ q.quads, ∃ block, item ∈ quad.items block := by
  obtain ⟨⟨⟨quad, block⟩, j⟩, hpair, hitem⟩ := List.mem_flatMap.1 h
  rcases List.mem_append.1 hitem with hremark | hitem
  · obtain ⟨text, htext, rfl⟩ := List.mem_map.1 hremark
    exact .inl ⟨j, text, htext, rfl⟩
  · have hquad := (List.of_mem_zip (List.fst_mem_of_mem_zipIdx hpair)).1
    exact .inr ⟨quad, hquad, block, hitem⟩

end Procedure

/-- Every instruction belongs to a quad. -/
theorem Emit.Laid.emits {ctx : Context} {items : List Item} {quads : List Quad}
    {blocks : List (List Instr)} (h : Laid ctx items quads blocks) {i : Instr}
    (hi : i ∈ Machine.instructions items) : ∃ quad ∈ quads, ctx.Emits quad.op i := by
  rw [h.instructions] at hi
  obtain ⟨block, hblock, hi⟩ := List.mem_flatten.1 hi
  obtain ⟨quad, hquad, hcode⟩ := exists_of_forall₂ h.code.flip hblock
  exact ⟨quad, hquad, Context.emits_of_codeOf hcode i hi⟩

/-- Every instruction of a function belongs to a quad. -/
theorem Emit.Compiled.emits {p : Program} {q : Procedure} {ctx : Context} {r : Routine}
    (hc : Compiled p q ctx r) {i : Instr} (hi : .instr i ∈ r.items) :
    ∃ quad ∈ q.quads, ctx.Emits quad.op i := by
  obtain ⟨blocks, hlaid⟩ := Procedure.laid_of_itemsIn hc.items
  exact hlaid.emits (List.mem_filterMap.2 ⟨_, hi, rfl⟩)

end QuadAsm
