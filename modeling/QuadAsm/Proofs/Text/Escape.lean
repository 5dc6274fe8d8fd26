import Mathlib
import QuadAsm.Text.Escape

/-!
# Reading escaped strings

An assembler reads a string constant byte by byte: a backslash starts an escape, which is a letter,
a quote, a backslash, or as many octal digits as there are, up to three. Reading gives back what was
escaped (`unescape_escape`), because an octal escape always has its three digits. What the assembler
is in the middle of can be told from the text: it is behind a backslash that escapes if the text
ends in an odd number of them (`Reader.eq_escaped_iff`). Main result: `escape_is_lossless`.
-/

namespace QuadAsm.Text

/-- What an assembler is in the middle of. -/
inductive Reader where
  | plain
  /-- Behind a backslash. -/
  | escaped
  /-- Behind one or two octal digits. -/
  | octal (count value : Nat)
  deriving DecidableEq, Repr

namespace Reader

/-- The byte of an escape of two characters. -/
def simple? (b : UInt8) : Option UInt8 :=
  if b = Bytes.code '"' ∨ b = Bytes.code '\\' then some b
  else if b = Bytes.code 'n' then some (Bytes.code '\n')
  else if b = Bytes.code 't' then some (Bytes.code '\t')
  else if b = Bytes.code 'r' then some (Bytes.code '\r')
  else none

/-- The value of an octal digit. -/
def octal? (b : UInt8) : Option Nat :=
  if Bytes.code '0' ≤ b ∧ b ≤ Bytes.code '7' then some (b.toNat - 48) else none

/-- One more byte outside of an escape. A bare quote would end the string. -/
def plainStep (b : UInt8) : Option (Bytes × Reader) :=
  if b = Bytes.code '\\' then some ([], escaped)
  else if b = Bytes.code '"' then none
  else some ([b], plain)

/-- One more octal digit. The third is the last. -/
def octalStep (count value digit : Nat) : Bytes × Reader :=
  if count < 2 then ([], octal (count + 1) (8 * value + digit))
  else ([UInt8.ofNat (8 * value + digit)], plain)

/-- One more byte: what has been read with it, and what comes next. -/
def step : Reader → UInt8 → Option (Bytes × Reader)
  | plain, b => plainStep b
  | escaped, b =>
    match simple? b with
    | some c => some ([c], plain)
    | none => (octal? b).map (octalStep 0 0)
  | octal count value, b =>
    match octal? b with
    | some digit => some (octalStep count value digit)
    | none => (plainStep b).map fun (out, r) => (UInt8.ofNat value :: out, r)

/-- Several more bytes. -/
def run : Reader → Bytes → Option (Bytes × Reader)
  | r, [] => some ([], r)
  | r, b :: rest =>
    match r.step b with
    | some (out, r) => (run r rest).map fun (others, r) => (out ++ others, r)
    | none => none

/-- What is left at the end of the string. A backslash must not be the last byte. -/
def finish : Reader → Option Bytes
  | plain => some []
  | escaped => none
  | octal _ value => some [UInt8.ofNat value]

end Reader

/-- The string that an assembler reads between two quotes. -/
def unescape (text : Bytes) : Option Bytes :=
  (Reader.run .plain text).bind fun (out, r) => r.finish.map (out ++ ·)

/-- Bytes are read one after the other. -/
theorem Reader.run_append {r r' : Reader} {a out : Bytes} (h : r.run a = some (out, r'))
    (b : Bytes) : r.run (a ++ b) = (r'.run b).map fun (others, r'') => (out ++ others, r'') := by
  induction a generalizing r out with
  | nil =>
    cases h
    cases hb : r'.run b <;> simp [hb]
  | cons c rest ih =>
    rw [run] at h
    rw [List.cons_append, run]
    cases hc : r.step c with
    | none =>
      rw [hc] at h
      cases h
    | some next =>
      obtain ⟨first, r₁⟩ := next
      rw [hc] at h
      obtain ⟨⟨others, r₂⟩, hrest, he⟩ := Option.map_eq_some_iff.1 h
      cases he
      simp only [ih hrest, Option.map_map]
      congr 1
      funext ⟨more, r''⟩
      simp

/-- An escaped byte is read as that byte. -/
theorem Reader.run_escapeByte (b : UInt8) :
    Reader.plain.run (escapeByte b) = some ([b], .plain) := by
  have hall : ∀ n : Fin 256,
      Reader.plain.run (escapeByte (.ofFin n)) = some ([.ofFin n], .plain) := by
    decide +kernel
  exact hall b.toFin

/-- What was escaped is read back, and the reader ends outside of an escape. -/
theorem Reader.run_escape (text : Bytes) :
    Reader.plain.run (escape text) = some (text, .plain) := by
  induction text with
  | nil => rfl
  | cons b rest ih =>
    rw [escape, List.flatMap_cons, run_append (run_escapeByte b), ← escape, ih]
    rfl

/-- Reading gives back what was escaped. -/
theorem unescape_escape (text : Bytes) : unescape (escape text) = some text := by
  rw [unescape, Reader.run_escape]
  exact congrArg some (List.append_nil text)

/-- Different texts are escaped differently. -/
theorem escape_injective {s t : Bytes} (h : escape s = escape t) : s = t := by
  have hread := unescape_escape s
  rw [h, unescape_escape] at hread
  exact (Option.some.inj hread).symm

/-- Escaped strings are printable. -/
theorem printable_of_mem_escape {text : Bytes} {b : UInt8} (h : b ∈ escape text) :
    0x20 ≤ b ∧ b ≤ 0x7E := by
  have hall : ∀ n : Fin 256,
      (escapeByte (.ofFin n)).all (fun b => 0x20 ≤ b && b ≤ 0x7E) = true := by
    decide +kernel
  obtain ⟨c, -, hb⟩ := List.mem_flatMap.1 h
  simpa using List.all_eq_true.1 (hall c.toFin) b hb

/-! ## Quotes and backslashes -/

/-- How many backslashes stand at the end of a text. The last one escapes what follows if their
number is odd. -/
def trailingBackslashes (text : Bytes) : Nat :=
  (text.reverse.takeWhile (· = Bytes.code '\\')).length

/-- Backslashes at the end, byte by byte. -/
theorem trailingBackslashes_concat (text : Bytes) (b : UInt8) :
    trailingBackslashes (text ++ [b]) =
      if b = Bytes.code '\\' then trailingBackslashes text + 1 else 0 := by
  rw [trailingBackslashes, List.reverse_append, List.reverse_singleton, List.singleton_append,
    List.takeWhile_cons]
  split <;> simp_all [trailingBackslashes]

namespace Reader

variable {r r' : Reader} {out : Bytes} {b : UInt8}

/-- A number is not followed by an open escape. -/
theorem octalStep_ne_escaped (count value digit : Nat) :
    (octalStep count value digit).2 ≠ .escaped := by
  rw [octalStep]
  split <;> simp

/-- An escape is opened by a backslash only. -/
theorem eq_escaped_of_plainStep (h : plainStep b = some (out, r')) :
    r' = .escaped ↔ b = Bytes.code '\\' := by
  rw [plainStep] at h
  split at h
  · next hb =>
    cases h
    simp [hb]
  · next hb =>
    split at h <;> cases h
    simp [hb]

theorem octal?_backslash : octal? (Bytes.code '\\') = none := by decide

/-- A backslash escapes what follows unless it is escaped itself. -/
theorem eq_escaped_of_step (h : r.step b = some (out, r')) :
    r' = .escaped ↔ r ≠ .escaped ∧ b = Bytes.code '\\' := by
  cases r with
  | plain => simpa using eq_escaped_of_plainStep h
  | escaped =>
    rw [step] at h
    split at h
    · cases h
      simp
    · obtain ⟨digit, -, hnext⟩ := Option.map_eq_some_iff.1 h
      have hne := octalStep_ne_escaped 0 0 digit
      rw [hnext] at hne
      simpa using hne
  | octal count value =>
    rw [step] at h
    split at h
    · next digit hdigit =>
      have hne := octalStep_ne_escaped count value digit
      rw [Option.some.inj h] at hne
      have hb : b ≠ Bytes.code '\\' := by
        rintro rfl
        rw [octal?_backslash] at hdigit
        cases hdigit
      simp [hb, hne]
    · obtain ⟨⟨first, next⟩, hplain, he⟩ := Option.map_eq_some_iff.1 h
      cases he
      simpa using eq_escaped_of_plainStep hplain

/-- What was read of a text was read of its beginning first. -/
theorem exists_run_of_append {a rest : Bytes} (h : r.run (a ++ rest) = some (out, r')) :
    ∃ first middle others,
      r.run a = some (first, middle) ∧ middle.run rest = some (others, r') := by
  induction a generalizing r out with
  | nil => exact ⟨[], r, out, rfl, h⟩
  | cons c a ih =>
    rw [List.cons_append, run] at h
    rw [run]
    cases hc : r.step c with
    | none =>
      rw [hc] at h
      cases h
    | some next =>
      rw [hc] at h
      obtain ⟨⟨others, last⟩, hrest, he⟩ := Option.map_eq_some_iff.1 h
      cases he
      obtain ⟨first, middle, others, hfirst, hmiddle⟩ := ih hrest
      exact ⟨next.1 ++ first, middle, others, by simp [hfirst], hmiddle⟩

/-- The assembler is behind a backslash that escapes if it has read an odd number of backslashes in
the end. -/
theorem eq_escaped_iff {text : Bytes} (h : plain.run text = some (out, r)) :
    r = .escaped ↔ Odd (trailingBackslashes text) := by
  induction text using List.reverseRecOn generalizing r out with
  | nil =>
    cases h
    simp [trailingBackslashes]
  | append_singleton text b ih =>
    obtain ⟨first, middle, others, hfirst, hlast⟩ := exists_run_of_append h
    rw [run] at hlast
    cases hb : middle.step b with
    | none =>
      rw [hb] at hlast
      cases hlast
    | some next =>
      rw [hb] at hlast
      cases hlast
      rw [eq_escaped_of_step hb, Ne, ih hfirst, trailingBackslashes_concat]
      split
      · next hslash => simp [hslash, Nat.odd_add_one]
      · next hslash => simp [hslash]

/-- A quote is only read when it is escaped. -/
theorem eq_escaped_of_quote {rest : Bytes} (h : r.run (Bytes.code '"' :: rest) = some (out, r')) :
    r = .escaped := by
  have hplain : plainStep (Bytes.code '"') = none := by decide
  have hoctal : octal? (Bytes.code '"') = none := by decide
  cases r with
  | plain =>
    rw [run, step, hplain] at h
    cases h
  | escaped => rfl
  | octal count value =>
    rw [run, step, hoctal, hplain] at h
    cases h

/-- In a text that is read to its end, every quote stands behind an odd number of backslashes. -/
theorem odd_of_quote {before after : Bytes}
    (h : plain.run (before ++ Bytes.code '"' :: after) = some (out, r)) :
    Odd (trailingBackslashes before) := by
  obtain ⟨first, middle, others, hbefore, hquote⟩ := exists_run_of_append h
  exact (eq_escaped_iff hbefore).1 (eq_escaped_of_quote hquote)

end Reader

/-- What follows an escaped string is read as if it stood alone. -/
theorem unescape_escape_append (text rest : Bytes) :
    unescape (escape text ++ rest) = (unescape rest).map (text ++ ·) := by
  rw [unescape, Reader.run_append (Reader.run_escape text), unescape]
  cases Reader.plain.run rest with
  | none => rfl
  | some read =>
    obtain ⟨out, r⟩ := read
    cases hr : r.finish <;> simp [hr]

/-- Escaping loses nothing. An escaped string is printable ASCII. Every quote in it is escaped: it
stands behind an odd number of backslashes, so that the string does not end there. An assembler
reads all of it, is not in the middle of an escape at its end, and has then read the string that was
escaped; whatever follows is read as if it stood alone. Strings are escaped piece by piece. -/
theorem escape_is_lossless (s t : Bytes) :
    (∀ b ∈ escape s, 0x20 ≤ b ∧ b ≤ 0x7E) ∧
    (∀ before after, escape s = before ++ Bytes.code '"' :: after →
      Odd (trailingBackslashes before)) ∧
    ¬ Odd (trailingBackslashes (escape s)) ∧
    Reader.plain.run (escape s) = some (s, .plain) ∧
    unescape (escape s) = some s ∧
    (∀ rest, unescape (escape s ++ rest) = (unescape rest).map (s ++ ·)) ∧
    escape (s ++ t) = escape s ++ escape t := by
  have hread := Reader.run_escape s
  refine ⟨fun b => printable_of_mem_escape, fun before after he => ?_, ?_, hread,
    unescape_escape s, unescape_escape_append s, escape_append s t⟩
  · rw [he] at hread
    exact Reader.odd_of_quote hread
  · rw [← Reader.eq_escaped_iff hread]
    decide

/-- A digit behind an octal escape is read as a digit, and a quote behind a backslash as both. -/
theorem controlAndQuote_escaped :
    escape [0x01, 0x37, 0x5C, 0x22] = "\\0017\\\\\\\"" ∧
      Odd (trailingBackslashes "\\0017\\\\\\") ∧
      unescape "\\0017\\\\\\\"" = some [0x01, 0x37, 0x5C, 0x22] := by
  have htext : escape [0x01, 0x37, 0x5C, 0x22] = "\\0017\\\\\\\"" := by decide +kernel
  obtain ⟨-, hquote, -, -, hread, -, -⟩ := escape_is_lossless [0x01, 0x37, 0x5C, 0x22] []
  exact ⟨htext, hquote "\\0017\\\\\\" [] (by decide +kernel), htext ▸ hread⟩

end QuadAsm.Text
