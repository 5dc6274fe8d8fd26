import QuadAsm.Proofs.Text.Word

/-!
# Rows of tokens

A row of assembly is a list of tokens. Words and numbers never stand side by side, and a comment or
a quoted text ends its row, so a row can be read in one way only (`IsRow.text_injective`), and so
can a text that consists of rows (`rowsText_injective`).
-/

namespace QuadAsm

/-- A list is cut in one way only in front of the first element that lacks a property. -/
theorem append_inj_of_stop {α : Type} {p : α → Bool} {l l' r r' : List α}
    (hl : ∀ x ∈ l, p x = true) (hl' : ∀ x ∈ l', p x = true) (hr : ∀ x ∈ r.head?, p x = false)
    (hr' : ∀ x ∈ r'.head?, p x = false) (h : l ++ r = l' ++ r') : l = l' ∧ r = r' := by
  have hcut {l r : List α} (hl : ∀ x ∈ l, p x = true) (hr : ∀ x ∈ r.head?, p x = false) :
      (l ++ r).takeWhile p = l := by
    rw [List.takeWhile_append_of_pos hl]
    cases r with
    | nil => simp
    | cons x r => simp [hr x rfl]
  obtain rfl : l = l' := by rw [← hcut hl hr, h, hcut hl' hr']
  exact ⟨rfl, List.append_cancel_left h⟩

namespace Asm

open Bytes

/-- Punctuation. -/
inductive Mark where
  | blank
  | colon
  | comma
  | percent
  | dollar
  | opening
  | closing
  deriving DecidableEq, Repr

/-- How punctuation is written. -/
def Mark.byte : Mark → UInt8
  | blank => code ' '
  | colon => code ':'
  | comma => code ','
  | percent => code '%'
  | dollar => code '$'
  | opening => code '('
  | closing => code ')'

/-- The pieces of a row. -/
inductive Token where
  | mark (m : Mark)
  | word (w : Bytes)
  | number (n : Int)
  /-- A remark, up to the end of the row. -/
  | comment (t : Bytes)
  /-- A string constant at the end of the row. -/
  | quoted (t : Bytes)
  deriving DecidableEq, Repr

/-- The ways in which a token can start. -/
inductive Start where
  | mark
  /-- As words and numbers do. -/
  | chunk
  | comment
  | quoted
  deriving DecidableEq, Repr

/-- How a token starts that has this first byte. -/
def Start.ofByte (b : UInt8) : Start :=
  if isWordByte b || b == code '-' then chunk
  else if b == code '#' then comment
  else if b == code '"' then quoted
  else mark

/-- A mark is recognised by its byte. -/
theorem Mark.start_byte (m : Mark) : Start.ofByte m.byte = .mark := by
  cases m <;> decide

/-- Each mark has its own byte. -/
theorem Mark.byte_injective {m m' : Mark} (h : m.byte = m'.byte) : m = m' := by
  revert h
  cases m <;> cases m' <;> decide

namespace Token

/-- How a token starts. -/
def start : Token → Start
  | mark _ => .mark
  | word _ | number _ => .chunk
  | comment _ => .comment
  | quoted _ => .quoted

/-- How a token is written. -/
def text : Token → Bytes
  | mark m => [m.byte]
  | word w => w
  | number n => ofInt n
  | comment t => "# " ++ t
  | quoted t => "\"" ++ Text.escape t ++ "\""

/-- Whether a token is what it claims to be. -/
def Proper : Token → Prop
  | word w => IsWord w
  | comment t => IsLine t
  | mark _ | number _ | quoted _ => True

/-- Whether another token may follow in the row. -/
def Before (t t' : Token) : Prop :=
  match t.start with
  | .mark => True
  | .chunk => t'.start ≠ .chunk
  | .comment | .quoted => False

/-- Punctuation may follow everything that does not end the row. -/
theorem before_mark {t : Token} (h : t.start = .mark ∨ t.start = .chunk) (m : Mark) :
    t.Before (mark m) := by
  rcases h with h | h
  · rw [Before, h]
    trivial
  · rw [Before, h]
    exact Start.noConfusion

/-! ## Single tokens -/

/-- What can stand in a word starts a word or a number. -/
theorem chunk_of_isWordByte {b : UInt8} (h : isWordByte b = true) : Start.ofByte b = .chunk := by
  rw [Start.ofByte, h, Bool.true_or, if_pos rfl]

/-- So does what can stand in a number. -/
theorem chunk_of_mem_ofInt {n : Int} {b : UInt8} (h : b ∈ ofInt n) : Start.ofByte b = .chunk := by
  rcases mem_ofInt h with rfl | h
  · decide
  · exact chunk_of_isWordByte (by simp [isWordByte, h])

variable {t t' : Token}

/-- Words and numbers consist of bytes that they could start with. -/
theorem chunk_of_mem_text (h : t.Proper) (hchunk : t.start = .chunk) {b : UInt8}
    (hb : b ∈ t.text) : Start.ofByte b = .chunk := by
  cases t with
  | word w => exact chunk_of_isWordByte (h.all b hb)
  | number n => exact chunk_of_mem_ofInt hb
  | mark | comment | quoted => cases hchunk

/-- The first byte shows how a token starts. -/
theorem exists_text_eq_cons (h : t.Proper) :
    ∃ b rest, t.text = b :: rest ∧ Start.ofByte b = t.start := by
  cases t with
  | mark m => exact ⟨m.byte, [], rfl, m.start_byte⟩
  | word w =>
    obtain ⟨b, rest, rfl, -⟩ := h.first
    exact ⟨b, rest, rfl, chunk_of_isWordByte (h.all b (List.mem_cons_self ..))⟩
  | number n =>
    obtain ⟨b, rest, hn⟩ := List.exists_cons_of_ne_nil (ofInt_ne_nil n)
    exact ⟨b, rest, hn, chunk_of_mem_ofInt (hn ▸ List.mem_cons_self ..)⟩
  | comment t => exact ⟨code '#', code ' ' :: t, rfl, rfl⟩
  | quoted t => exact ⟨code '"', Text.escape t ++ "\"", rfl, rfl⟩

/-- No number is a word. -/
theorem ofInt_ne_word {n : Int} {w : Bytes} (h : IsWord w) : ofInt n ≠ w := by
  rintro rfl
  obtain ⟨b, rest, hn, hb⟩ := h.first
  rcases mem_ofInt (hn ▸ List.mem_cons_self .. : b ∈ ofInt n) with rfl | hdigit
  · exact h.notMem (by decide) (hn ▸ List.mem_cons_self ..)
  · rw [hdigit] at hb
    cases hb

/-- A word or a number can be told by its text. -/
theorem eq_of_text_of_chunk (h : t.Proper) (h' : t'.Proper) (hchunk : t.start = .chunk)
    (hchunk' : t'.start = .chunk) (he : t.text = t'.text) : t = t' := by
  cases t with
  | word w =>
    cases t' with
    | word w' => exact congrArg word he
    | number n => exact (ofInt_ne_word h he.symm).elim
    | mark | comment | quoted => cases hchunk'
  | number n =>
    cases t' with
    | word w => exact (ofInt_ne_word h' he).elim
    | number m => exact congrArg number (ofInt_injective he)
    | mark | comment | quoted => cases hchunk'
  | mark | comment | quoted => cases hchunk

theorem isLine_text (h : t.Proper) : IsLine t.text := by
  cases t with
  | mark m => cases m <;> decide
  | word w => exact h.isLine
  | number n => exact isLine_ofInt n
  | comment t => exact isLine_append.2 ⟨by decide, h⟩
  | quoted t => exact isLine_append.2 ⟨isLine_append.2 ⟨by decide, Text.isLine_escape t⟩, by decide⟩

end Token

/-! ## Rows -/

/-- How a list of tokens is written. -/
def rowText (ts : List Token) : Bytes := ts.flatMap Token.text

theorem rowText_cons (t : Token) (ts : List Token) : rowText (t :: ts) = t.text ++ rowText ts :=
  List.flatMap_cons

theorem rowText_append (ts ts' : List Token) : rowText (ts ++ ts') = rowText ts ++ rowText ts' :=
  List.flatMap_append

theorem rowText_singleton (t : Token) : rowText [t] = t.text := List.append_nil _

/-- Tokens that make up a row. -/
structure IsRow (ts : List Token) : Prop where
  proper : ∀ t ∈ ts, t.Proper
  apart : ts.IsChain Token.Before

namespace IsRow

variable {t t' : Token} {ts ts' : List Token}

theorem nil : IsRow [] := ⟨List.forall_mem_nil _, .nil⟩

/-- A token can be put before a row if the first token there can follow it. -/
theorem cons (ht : t.Proper) (hbefore : ∀ t' ∈ ts.head?, t.Before t') (h : IsRow ts) :
    IsRow (t :: ts) :=
  ⟨List.forall_mem_cons.2 ⟨ht, h.proper⟩, List.isChain_cons.2 ⟨hbefore, h.apart⟩⟩

theorem singleton (ht : t.Proper) : IsRow [t] :=
  ⟨List.forall_mem_singleton.2 ht, .singleton t⟩

/-- Two rows are one if the tokens at the seam can stand together. -/
theorem append (h : IsRow ts) (h' : IsRow ts')
    (hbefore : ∀ t ∈ ts.getLast?, ∀ t' ∈ ts'.head?, t.Before t') : IsRow (ts ++ ts') :=
  ⟨List.forall_mem_append.2 ⟨h.proper, h'.proper⟩,
    List.isChain_append.2 ⟨h.apart, h'.apart, hbefore⟩⟩

/-- A mark can be put before any row. -/
theorem mark (m : Mark) (h : IsRow ts) : IsRow (.mark m :: ts) :=
  .cons trivial (fun _ _ => trivial) h

/-- A word or a number can be put before a mark. -/
theorem chunk_mark {m : Mark} (ht : t.Proper) (hchunk : t.start = .chunk)
    (h : IsRow (.mark m :: ts)) : IsRow (t :: .mark m :: ts) := by
  refine .cons ht (fun t' ht' => ?_) h
  cases ht'
  exact Token.before_mark (.inr hchunk) m

theorem word_mark {w : Bytes} {m : Mark} (hw : IsWord w) (h : IsRow (.mark m :: ts)) :
    IsRow (.word w :: .mark m :: ts) :=
  chunk_mark hw rfl h

theorem number_mark (n : Int) {m : Mark} (h : IsRow (.mark m :: ts)) :
    IsRow (.number n :: .mark m :: ts) :=
  chunk_mark trivial rfl h

theorem tail (h : IsRow (t :: ts)) : IsRow ts :=
  ⟨fun t ht => h.proper t (List.mem_cons_of_mem _ ht), h.apart.tail⟩

theorem proper_head (h : IsRow (t :: ts)) : t.Proper := h.proper t (List.mem_cons_self ..)

/-- The first byte of a row belongs to its first token. -/
theorem start_of_head (h : IsRow ts) {b : UInt8} (hb : b ∈ (rowText ts).head?) :
    ∃ t ∈ ts.head?, Start.ofByte b = t.start := by
  cases ts with
  | nil => cases hb
  | cons t ts =>
    obtain ⟨c, rest, htext, hc⟩ := Token.exists_text_eq_cons h.proper_head
    rw [rowText_cons, htext] at hb
    cases hb
    exact ⟨t, rfl, hc⟩

/-- Behind a word or a number the row ends or goes on with something else. -/
theorem start_ne_chunk (h : IsRow (t :: ts)) (hchunk : t.start = .chunk) {b : UInt8}
    (hb : b ∈ (rowText ts).head?) : Start.ofByte b ≠ .chunk := by
  obtain ⟨t', ht', hstart⟩ := h.tail.start_of_head hb
  have hbefore : t.Before t' := (List.isChain_cons.1 h.apart).1 t' ht'
  rw [Token.Before, hchunk] at hbefore
  exact hstart ▸ hbefore

/-- Behind a comment or a quoted text nothing follows. -/
theorem eq_nil_of_last (h : IsRow (t :: ts)) (hlast : ∀ t', ¬ t.Before t') : ts = [] := by
  cases ts with
  | nil => rfl
  | cons t' ts => exact (hlast t' ((List.isChain_cons.1 h.apart).1 t' rfl)).elim

/-- The first token of a row can be told by the text. -/
theorem head_unique (h : IsRow (t :: ts)) (h' : IsRow (t' :: ts'))
    (he : t.text ++ rowText ts = t'.text ++ rowText ts') :
    t = t' ∧ rowText ts = rowText ts' := by
  have hstart : t.start = t'.start := by
    obtain ⟨b, rest, hb, hs⟩ := Token.exists_text_eq_cons h.proper_head
    obtain ⟨b', rest', hb', hs'⟩ := Token.exists_text_eq_cons h'.proper_head
    rw [hb, hb', List.cons_append, List.cons_append] at he
    rw [← hs, ← hs', (List.cons.inj he).1]
  cases hs : t.start with
  | chunk =>
    have hs' := hstart.symm.trans hs
    obtain ⟨htext, hrest⟩ := append_inj_of_stop (p := fun b => Start.ofByte b == .chunk)
      (fun b hb => beq_iff_eq.2 (Token.chunk_of_mem_text h.proper_head hs hb))
      (fun b hb => beq_iff_eq.2 (Token.chunk_of_mem_text h'.proper_head hs' hb))
      (fun b hb => beq_eq_false_iff_ne.2 (h.start_ne_chunk hs hb))
      (fun b hb => beq_eq_false_iff_ne.2 (h'.start_ne_chunk hs' hb)) he
    exact ⟨Token.eq_of_text_of_chunk h.proper_head h'.proper_head hs hs' htext, hrest⟩
  | mark =>
    cases t <;> cases hs
    cases t' <;> cases hstart
    obtain ⟨hbyte, hrest⟩ := List.cons.inj he
    exact ⟨congrArg Token.mark (Mark.byte_injective hbyte), hrest⟩
  | comment =>
    cases t <;> cases hs
    cases t' <;> cases hstart
    obtain rfl := h.eq_nil_of_last fun _ => id
    obtain rfl := h'.eq_nil_of_last fun _ => id
    exact ⟨congrArg Token.comment (List.append_cancel_left (List.append_cancel_right he)), rfl⟩
  | quoted =>
    cases t <;> cases hs
    cases t' <;> cases hstart
    obtain rfl := h.eq_nil_of_last fun _ => id
    obtain rfl := h'.eq_nil_of_last fun _ => id
    have hescape := List.append_cancel_left (List.append_cancel_right (List.append_cancel_right he))
    exact ⟨congrArg Token.quoted (Text.escape_injective hescape), rfl⟩

/-- A row can be read in one way only. -/
theorem text_injective (h : IsRow ts) (h' : IsRow ts') (he : rowText ts = rowText ts') :
    ts = ts' := by
  have hcons {t : Token} {ts : List Token} (h : IsRow (t :: ts)) : rowText (t :: ts) ≠ [] := by
    obtain ⟨b, rest, htext, -⟩ := Token.exists_text_eq_cons h.proper_head
    rw [rowText_cons, htext]
    exact List.cons_ne_nil _ _
  induction ts generalizing ts' with
  | nil =>
    cases ts' with
    | nil => rfl
    | cons t' ts' => exact (hcons h' he.symm).elim
  | cons t ts ih =>
    cases ts' with
    | nil => exact (hcons h he).elim
    | cons t' ts' =>
      obtain ⟨rfl, hrest⟩ := h.head_unique h' he
      rw [ih h.tail h'.tail hrest]

theorem isLine_text (h : IsRow ts) : IsLine (rowText ts) :=
  isLine_flatMap fun t ht => Token.isLine_text (h.proper t ht)

end IsRow

/-- How rows are written. -/
def rowsText (rows : List (List Token)) : Bytes := rows.flatMap fun ts => rowText ts ++ "\n"

theorem rowsText_cons (ts : List Token) (rows : List (List Token)) :
    rowsText (ts :: rows) = rowText ts ++ code '\n' :: rowsText rows := by
  rw [rowsText, List.flatMap_cons, List.append_assoc]
  rfl

theorem rowsText_append (rows rows' : List (List Token)) :
    rowsText (rows ++ rows') = rowsText rows ++ rowsText rows' :=
  List.flatMap_append

/-- A text that consists of rows can be read in one way only. -/
theorem rowsText_injective {rows rows' : List (List Token)} (h : ∀ ts ∈ rows, IsRow ts)
    (h' : ∀ ts ∈ rows', IsRow ts) (he : rowsText rows = rowsText rows') : rows = rows' := by
  have hne (ts : List Token) (rows : List (List Token)) : rowsText (ts :: rows) ≠ [] := by
    rw [rowsText_cons]
    exact List.append_ne_nil_of_right_ne_nil _ (List.cons_ne_nil _ _)
  have hstop {ts : List Token} (h : IsRow ts) : ∀ b ∈ rowText ts, (b != code '\n') = true := by
    intro b hb
    exact bne_iff_ne.2 (ne_of_mem_of_not_mem hb h.isLine_text)
  induction rows generalizing rows' with
  | nil =>
    cases rows' with
    | nil => rfl
    | cons ts' rows' => exact (hne ts' rows' he.symm).elim
  | cons ts rows ih =>
    cases rows' with
    | nil => exact (hne ts rows he).elim
    | cons ts' rows' =>
      obtain ⟨hrow, h⟩ := List.forall_mem_cons.1 h
      obtain ⟨hrow', h'⟩ := List.forall_mem_cons.1 h'
      rw [rowsText_cons, rowsText_cons] at he
      obtain ⟨htext, hrest⟩ := append_inj_of_stop (hstop hrow) (hstop hrow')
        (fun b hb => by cases hb; decide) (fun b hb => by cases hb; decide) he
      rw [hrow.text_injective hrow' htext, ih h h' (List.cons.inj hrest).2]

end Asm

end QuadAsm
