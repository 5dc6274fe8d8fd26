import QuadAsm.Asm.Write
import QuadAsm.Proofs.Outcome

/-!
# What writing leaves in the output

Writing an assembly puts its text into the output, if there is one (`Assembly.on_write_of_ok`).
Otherwise it fails as the text does, and the output has grown by the data section and some part of
the code (`Assembly.on_write_of_error`).
-/

namespace QuadAsm.Asm

namespace Writing

variable {ε α β : Type}

/-- Work that has come to a result goes on with the output it left. -/
theorem on_bind_ok {w : Writing ε α} {f : α → Writing ε β} {a : α} {out out' : Bytes}
    (h : w.on out = (.ok a, out')) : (w >>= f).on out = (f a).on out' := by
  have h : w out = (.ok a, out') := h
  show ExceptT.bindCont f (w out).1 (w out).2 = _
  rw [h]
  rfl

/-- Work that has failed ends there. -/
theorem on_bind_error {w : Writing ε α} {f : α → Writing ε β} {e : ε} {out out' : Bytes}
    (h : w.on out = (.error e, out')) : (w >>= f).on out = (.error e, out') := by
  have h : w out = (.error e, out') := h
  show ExceptT.bindCont f (w out).1 (w out).2 = _
  rw [h]
  rfl

/-- Work that appends a text to every output, or fails as the text does. -/
def Writes (w : Writing ε Unit) : Except ε Bytes → Prop
  | .ok text => ∀ out, w.on out = (.ok (), out ++ text)
  | .error e => ∀ out, ∃ part, w.on out = (.error e, out ++ part)

namespace Writes

variable {w w' : Writing ε Unit} {x y : Except ε Bytes}

theorem put (text : Bytes) : Writes (Writing.put text : Writing ε Unit) (.ok text) := fun _ => rfl

theorem nothing : Writes (pure () : Writing ε Unit) (.ok []) := by
  intro out
  rw [List.append_nil]
  rfl

theorem of_eq (h : Writes w x) (he : x = y) : Writes w y := he ▸ h

/-- One text after the other. -/
theorem seq (h : Writes w x) (h' : Writes w' y) :
    Writes (w >>= fun _ => w') (x >>= fun a => y >>= fun b => pure (a ++ b)) := by
  cases x with
  | error e =>
    intro out
    obtain ⟨part, hpart⟩ := h out
    exact ⟨part, on_bind_error hpart⟩
  | ok a =>
    cases y with
    | ok b =>
      intro out
      rw [on_bind_ok (h out), h' (out ++ a), List.append_assoc]
    | error e =>
      intro out
      obtain ⟨part, hpart⟩ := h' (out ++ a)
      exact ⟨a ++ part, by rw [on_bind_ok (h out), hpart, List.append_assoc]⟩

/-- A text that is written as soon as it is known. -/
theorem lift (x : Except ε Bytes) (f : Bytes → Bytes) :
    Writes (liftM x >>= fun text => Writing.put (f text)) (f <$> x) := by
  cases x with
  | ok text => exact fun _ => rfl
  | error e => exact fun out => ⟨[], by rw [List.append_nil]; rfl⟩

/-- The texts of a list. -/
theorem forM {f : α → Writing ε Unit} {g : α → Except ε Bytes} (h : ∀ a, Writes (f a) (g a))
    (l : List α) : Writes (l.forM f) (List.flatten <$> l.mapM g) := by
  induction l with
  | nil => exact nothing
  | cons a rest ih =>
    have hcons : List.flatten <$> (a :: rest).mapM g
        = g a >>= fun b => List.flatten <$> rest.mapM g >>= fun bs => pure (b ++ bs) := by
      rw [List.mapM_cons]
      cases g a with
      | error e => rfl
      | ok b => cases rest.mapM g <;> rfl
    rw [hcons]
    exact (h a).seq ih

end Writes

end Writing

open Writing

/-- An argument that is present is written behind its separator. -/
theorem Arg.writes (present : Prop) [Decidable present] (separator : Bytes) (a : Arg) :
    Writes (a.writeIf present separator)
      (if present then (separator ++ ·) <$> a.text else .ok []) := by
  unfold Arg.writeIf
  split
  · exact Writes.lift ..
  · exact Writes.nothing

/-- An instruction is written as its text, up to the argument that has none. -/
theorem Line.writes_instruction (l : Line) : Writes l.writeInstruction l.instructionText := by
  have h : Writes l.writeInstruction _ := (Writes.put ("  " ++ l.op)).seq
    ((Arg.writes (1 ≤ l.arity) " " l.arg1).seq (Arg.writes (2 ≤ l.arity) ", " l.arg2))
  refine h.of_eq ?_
  unfold Line.instructionText
  split_ifs <;> simp

/-- A line is written as its text. -/
theorem Line.writes (l : Line) : Writes l.write l.text := by
  have hbody : Writes l.writeBody (if !l.label.isEmpty then .ok (l.label ++ ":")
      else if !l.op.isEmpty then l.instructionText else .ok []) := by
    unfold Line.writeBody
    split_ifs
    · exact .put _
    · exact l.writes_instruction
    · exact .nothing
  have h : Writes l.write _ := hbody.seq
    ((Writes.put (if l.comment.isEmpty then [] else "  # " ++ l.comment)).seq (.put "\n"))
  refine h.of_eq ?_
  unfold Line.text
  split_ifs <;> simp
  all_goals cases l.instructionText <;> rfl

/-- A function is written as its text. -/
theorem Function.writes (f : Function) : Writes f.write f.text := by
  have h : Writes f.write _ := (Writes.put (f.name ++ ":\n")).seq (.forM Line.writes f.lines)
  refine h.of_eq ?_
  unfold Function.text
  simp

/-- Writing an assembly that has a text puts it into the output. -/
theorem Assembly.on_write_of_ok {u : Assembly} {text : Bytes} (h : u.text = .ok text)
    (out : Bytes) : u.write.on out = (.ok (), out ++ text) := by
  obtain ⟨functions, hfunctions, h⟩ := bind_eq_ok.1 h
  cases pure_eq_ok.1 h
  have hw := Writes.forM Function.writes u.functions
  rw [hfunctions] at hw
  -- the functions are written behind what stands there already
  show (u.functions.forM Function.write).on (out ++ u.dataSection ++ ".text\n") = _
  rw [hw]
  simp

/-- Writing an assembly that has no text fails behind the data section. -/
theorem Assembly.on_write_of_error {u : Assembly} {c : Crash} (h : u.text = .error c)
    (out : Bytes) :
    ∃ part, u.write.on out = (.error c, out ++ u.dataSection ++ ".text\n" ++ part) := by
  rw [← error?_eq_some, Assembly.text, error?_bind_pure, error?_eq_some] at h
  have hw := Writes.forM Function.writes u.functions
  rw [h] at hw
  exact hw (out ++ u.dataSection ++ ".text\n")

end QuadAsm.Asm
