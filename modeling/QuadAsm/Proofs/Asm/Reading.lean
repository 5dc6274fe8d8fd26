import QuadAsm.Machine.Instruction
import QuadAsm.Proofs.Asm.Token
import QuadAsm.Proofs.Outcome

/-!
# Reading assembly

Which rows of tokens the parts of an assembly become, as relations (`Arg.Written`, `Line.Written`,
`Assembly.Written`). The rows show all of it but where functions end, so an assembly can be read off
its text (`Assembly.Written.text_eq_iff`). Whether an argument stands for memory or for the address
is not in its own row: it is the operation that tells.
-/

namespace QuadAsm.Asm

open Bytes Machine

/-! ## Arguments -/

/-- A register in brackets. -/
def baseTokens (reg : Bytes) : List Token :=
  [.mark .opening, .mark .percent, .word reg, .mark .closing]

/-- The tokens of an argument. Where addresses are asked for, memory is not dereferenced. -/
inductive Arg.Written (address : Bool) : Arg → List Token → Prop
  | reg {reg : Bytes} (hreg : IsWord reg) :
    Written address (.ofReg reg) [.mark .percent, .word reg]
  | imm (value : Int64) : Written address (.ofImm value) [.mark .dollar, .number value.toInt]
  | label {label : Bytes} (hlabel : IsWord label) :
    Written address (.ofLabel label) [.word label]
  | base {reg : Bytes} (hreg : IsWord reg) (hmemory : address = false) :
    Written address (.memory reg 0) (baseTokens reg)
  | offset {reg : Bytes} {offset : Int} (hreg : IsWord reg) (hoffset : offset ≠ 0) :
    Written address { reg, offset, deref := !address } (.number offset :: baseTokens reg)
  | data {label : Bytes} (hlabel : IsWord label) :
    Written address { label, reg := "rip", deref := !address } (.word label :: baseTokens "rip")

/-- The text of a register in brackets. -/
theorem rowText_baseTokens (reg : Bytes) : rowText (baseTokens reg) = "(%" ++ reg ++ ")" := rfl

/-- A register in brackets can be told apart into its tokens. -/
theorem isRow_baseTokens {reg : Bytes} (hreg : IsWord reg) : IsRow (baseTokens reg) :=
  .mark _ (.mark _ (.word_mark hreg (.mark _ .nil)))

namespace Arg.Written

variable {address : Bool} {a a' : Arg} {ts ts' : List Token}

/-- An argument has the text of its tokens. -/
theorem text (h : Written address a ts) : a.text = .ok (rowText ts) := by
  cases h with
  | @reg reg hreg =>
    have htext : (ofReg reg).text = .ok ("%" ++ reg) := by simp [Arg.text, ofReg, hreg.ne_nil]
    rw [htext, rowText_cons, rowText_singleton]
    rfl
  | imm value =>
    rw [rowText_cons, rowText_singleton]
    rfl
  | @label label hlabel =>
    rw [rowText_singleton]
    simp [Arg.text, ofLabel, Token.text, hlabel.ne_nil]
  | @base reg hreg =>
    have htext : (memory reg 0).text = .ok ("(%" ++ reg ++ ")") := by
      simp [Arg.text, memory, hreg.ne_nil]
    rw [htext, ← rowText_baseTokens]
  | @offset reg offset hreg hoffset =>
    have htext : Arg.text { reg, offset, deref := !address }
        = .ok (ofInt offset ++ ("(%" ++ reg ++ ")")) := by
      simp [Arg.text, hreg.ne_nil, hoffset]
    rw [htext, rowText_cons, ← rowText_baseTokens]
    rfl
  | @data label hlabel =>
    have htext : Arg.text { label, reg := "rip", deref := !address }
        = .ok (label ++ ("(%" ++ "rip" ++ ")")) := by
      simp +decide [Arg.text, hlabel.ne_nil]
    rw [htext, rowText_cons, rowText_baseTokens]
    rfl

/-- The tokens of an argument can be told apart. -/
theorem isRow (h : Written address a ts) : IsRow ts := by
  have hrip : IsWord "rip" := by decide +kernel
  cases h with
  | reg hreg => exact .mark _ (.singleton hreg)
  | imm value => exact .mark _ (.singleton trivial)
  | label hlabel => exact .singleton hlabel
  | base hreg => exact isRow_baseTokens hreg
  | offset hreg => exact .number_mark _ (isRow_baseTokens hreg)
  | data hlabel => exact .word_mark hlabel (isRow_baseTokens hrip)

/-- The row of an argument can go on behind it. -/
theorem start_of_mem (h : Written address a ts) :
    ∀ t ∈ ts, t.start = .mark ∨ t.start = .chunk := by
  cases h <;> simp [baseTokens, Token.start]

/-- There is no comma in an argument, so it ends at the first one. -/
theorem comma_notMem (h : Written address a ts) : .mark .comma ∉ ts := by
  cases h <;> simp [baseTokens]

/-- An argument can be read off its tokens. -/
theorem unique (h : Written address a ts) (h' : Written address a' ts') (he : ts = ts') :
    a = a' := by
  -- the first token tells the form, and with a label the one behind it
  cases h <;> cases h' <;> simp_all [baseTokens, Int64.toInt_inj]

end Arg.Written

/-! ## Lines -/

/-- Tokens behind the indentation of code. -/
def indented (ts : List Token) : List Token := .mark .blank :: .mark .blank :: ts

/-- Two blanks stand before code. -/
theorem rowText_indented (ts : List Token) : rowText (indented ts) = "  " ++ rowText ts := rfl

/-- The tokens of a line. Only one operation has an address as its first argument. -/
inductive Line.Written : Line → List Token → Prop
  | label {label : Bytes} (hlabel : IsWord label) :
    Written { label } [.word label, .mark .colon]
  | comment {comment : Bytes} (hne : comment ≠ []) (hcomment : IsLine comment) :
    Written { comment } (indented [.comment comment])
  | plain {op : Bytes} (hop : IsWord op) : Written (plainLine op) (indented [.word op])
  | unary {op : Bytes} {a : Arg} {ts : List Token} (hop : IsWord op) (ha : a.Written false ts) :
    Written (unaryLine op a) (indented (.word op :: .mark .blank :: ts))
  | binary {op : Bytes} {a b : Arg} {ts us : List Token} (hop : IsWord op)
    (ha : a.Written (op == "leaq") ts) (hb : b.Written false us) :
    Written (binaryLine op a b) (indented (.word op :: .mark .blank ::
      (ts ++ .mark .comma :: .mark .blank :: us)))

namespace Line.Written

variable {l l' : Line} {ts ts' : List Token}

/-- A line has the text of its tokens. -/
theorem text (h : Written l ts) : l.text = .ok (rowText ts ++ "\n") := by
  cases h with
  | @label label hlabel =>
    have htext : Line.text { label } = .ok (label ++ ":" ++ "\n") := by
      simp [Line.text, hlabel.ne_nil]
    rw [htext]
    rfl
  | @comment comment hne =>
    have htext : Line.text { comment } = .ok ("  # " ++ comment ++ "\n") := by
      simp [Line.text, hne]
    rw [htext, rowText_indented, rowText_singleton]
    rfl
  | @plain op hop =>
    have htext : (plainLine op).text = .ok ("  " ++ op ++ "\n") := by
      simp [Line.text, plainLine, instructionText, hop.ne_nil]
    rw [htext, rowText_indented, rowText_singleton]
    rfl
  | @unary op a ts hop ha =>
    have htext : (unaryLine op a).text = .ok ("  " ++ (op ++ (" " ++ rowText ts)) ++ "\n") := by
      simp [Line.text, unaryLine, instructionText, hop.ne_nil, ha.text]
    rw [htext, rowText_indented, rowText_cons, rowText_cons]
    rfl
  | @binary op a b ts us hop ha hb =>
    have htext : (binaryLine op a b).text =
        .ok ("  " ++ (op ++ (" " ++ (rowText ts ++ (", " ++ rowText us)))) ++ "\n") := by
      simp [Line.text, binaryLine, instructionText, hop.ne_nil, ha.text, hb.text]
    rw [htext, rowText_indented, rowText_cons, rowText_cons, rowText_append, rowText_cons,
      rowText_cons]
    rfl

/-- A label line has a label. -/
theorem label_ne_nil {label : Bytes} (h : Written { label } ts) : label ≠ [] := by
  rintro rfl
  generalize hl : ({ label := [] } : Line) = l at h
  cases h with
  | label hlabel =>
    cases hl
    exact hlabel.ne_nil rfl
  | comment hne =>
    cases hl
    exact hne rfl
  | plain hop =>
    cases hl
    exact hop.ne_nil rfl
  | unary | binary => cases hl

/-- The tokens of a line can be told apart. -/
theorem isRow (h : Written l ts) : IsRow ts := by
  have hindented {ts : List Token} (h : IsRow ts) : IsRow (indented ts) := .mark _ (.mark _ h)
  cases h with
  | label hlabel => exact .word_mark hlabel (.mark _ .nil)
  | comment _ hcomment => exact hindented (.singleton hcomment)
  | plain hop => exact hindented (.singleton hop)
  | unary hop ha => exact hindented (.word_mark hop (.mark _ ha.isRow))
  | binary hop ha hb =>
    have hsecond := IsRow.mark .comma (.mark .blank hb.isRow)
    refine hindented (.word_mark hop (.mark _ (.append ha.isRow hsecond ?_)))
    intro t ht t' ht'
    cases ht'
    exact Token.before_mark (ha.start_of_mem t (List.mem_of_getLast? ht)) _

/-- A line can be read off its tokens. -/
theorem unique (h : Written l ts) (h' : Written l' ts') (he : ts = ts') : l = l' := by
  cases h with
  | label | comment | plain => cases h' <;> simp_all [indented]
  | @unary op a ts hop ha =>
    cases h' with
    | label | comment | plain => simp [indented] at he
    | @unary op' a' ts' hop' ha' =>
      obtain ⟨rfl, hts⟩ : op = op' ∧ ts = ts' := by simpa [indented] using he
      rw [ha.unique ha' hts]
    | @binary op' a' b' ts' us' hop' ha' hb' =>
      -- there is no comma in the row of one argument
      obtain ⟨rfl, rfl⟩ : op = op' ∧ ts = _ := by simpa [indented] using he
      exact (ha.comma_notMem (List.mem_append_right _ (List.mem_cons_self ..))).elim
  | @binary op a b ts us hop ha hb =>
    cases h' with
    | label | comment | plain => simp [indented] at he
    | @unary op' a' ts' hop' ha' =>
      obtain ⟨rfl, rfl⟩ : op = op' ∧ _ = ts' := by simpa [indented] using he
      exact (ha'.comma_notMem (List.mem_append_right _ (List.mem_cons_self ..))).elim
    | @binary op' a' b' ts' us' hop' ha' hb' =>
      obtain ⟨rfl, hargs⟩ : op = op' ∧ ts ++ Token.mark .comma :: .mark .blank :: us
          = ts' ++ .mark .comma :: .mark .blank :: us' := by simpa [indented] using he
      obtain ⟨hts, hus⟩ := append_inj_of_stop (p := (· != .mark .comma))
        (fun t ht => bne_iff_ne.2 (ne_of_mem_of_not_mem ht ha.comma_notMem))
        (fun t ht => bne_iff_ne.2 (ne_of_mem_of_not_mem ht ha'.comma_notMem))
        (fun t ht => by cases ht; exact bne_self_eq_false _)
        (fun t ht => by cases ht; exact bne_self_eq_false _) hargs
      rw [ha.unique ha' hts, hb.unique hb' (List.cons.inj (List.cons.inj hus).2).2]

end Line.Written

/-! ## Assemblies -/

/-- The tokens of a string constant. -/
def StringLiteral.tokens (s : StringLiteral) : List Token :=
  [.word s.label, .mark .colon, .mark .blank, .word ".asciz", .mark .blank, .quoted s.text]

/-- The tokens of a global variable. -/
def GlobalVariable.tokens (g : GlobalVariable) : List Token :=
  [.word g.label, .mark .colon, .mark .blank] ++
    if g.size = 8 then [.word ".quad", .mark .blank, .number 0]
    else [.word ".space", .mark .blank, .number g.size]

/-- A string in the data section has the text of its tokens. -/
theorem StringLiteral.text_tokens (s : StringLiteral) : s.line = rowText s.tokens ++ "\n" := by
  simp only [line, tokens, rowText_cons, Token.text, List.append_assoc]
  rfl

/-- So has a global. -/
theorem GlobalVariable.text_tokens (g : GlobalVariable) : g.line = rowText g.tokens ++ "\n" := by
  unfold line tokens
  split_ifs <;> simp only [rowText_append, rowText_cons, Token.text, List.append_assoc] <;> rfl

/-- The tokens of a string can be told apart if its label is a word. -/
theorem StringLiteral.isRow_tokens {s : StringLiteral} (h : IsWord s.label) : IsRow s.tokens :=
  .word_mark h (.mark _ (.mark _ (.word_mark (show IsWord ".asciz" by decide +kernel)
    (.mark _ (.singleton trivial)))))

/-- So can those of a global. -/
theorem GlobalVariable.isRow_tokens {g : GlobalVariable} (h : IsWord g.label) : IsRow g.tokens := by
  have hsize {w : Bytes} {n : Int} (hw : IsWord w) :
      IsRow ([.word g.label, .mark .colon, .mark .blank] ++ [.word w, .mark .blank, .number n]) :=
    .word_mark h (.mark _ (.mark _ (.word_mark hw (.mark _ (.singleton trivial)))))
  unfold tokens
  split_ifs <;> exact hsize (by decide +kernel)

/-- A string can be read off its tokens. -/
theorem StringLiteral.tokens_injective : Function.Injective StringLiteral.tokens := by
  rintro ⟨label, text⟩ ⟨label', text'⟩ he
  simpa [tokens] using he

/-- A global can be read off its tokens, with its size. -/
theorem GlobalVariable.tokens_injective : Function.Injective GlobalVariable.tokens := by
  have hdirectives : (".quad" : Bytes) ≠ ".space" := by decide
  rintro ⟨label, size⟩ ⟨label', size'⟩ he
  simp only [tokens] at he
  split_ifs at he <;> simp_all

/-- Rows that have a label end where one comes that has none. -/
theorem cut_labelled {α : Type} {f : α → List Token} (hf : Function.Injective f)
    (hlabel : ∀ x, (f x)[1]? = some (.mark .colon)) {l l' : List α} {row row' : List Token}
    {rest rest' : List (List Token)} (hrow : row[1]? ≠ some (.mark .colon))
    (hrow' : row'[1]? ≠ some (.mark .colon))
    (he : l.map f ++ row :: rest = l'.map f ++ row' :: rest') :
    l = l' ∧ row = row' ∧ rest = rest' := by
  obtain ⟨hl, hrest⟩ := append_inj_of_stop (p := fun row => row[1]? == some (.mark .colon))
    (List.forall_mem_map.2 fun x _ => beq_iff_eq.2 (hlabel x))
    (List.forall_mem_map.2 fun x _ => beq_iff_eq.2 (hlabel x))
    (fun x hx => by cases hx; exact beq_eq_false_iff_ne.2 hrow)
    (fun x hx => by cases hx; exact beq_eq_false_iff_ne.2 hrow') he
  exact ⟨List.map_injective_iff.2 hf hl, List.cons.inj hrest⟩

/-- A function with a name is written line by line, its name as a label. -/
theorem Function.text_eq_lines {f : Function} (h : f.name ≠ []) :
    f.text = List.flatten <$> ({ label := f.name } :: f.lines).mapM Line.text := by
  have hname : Line.text { label := f.name } = .ok (f.name ++ ":\n") := by
    simp +decide [Line.text, h]
  rw [List.mapM_cons, hname, Function.text]
  cases f.lines.mapM Line.text <;> rfl

/-- Parts that are written line by line are written so all together. -/
theorem flatten_mapM_flatMap {ε α β : Type} {part : α → Except ε Bytes} {f : α → List β}
    {text : β → Except ε Bytes} {l : List α}
    (h : ∀ x ∈ l, part x = List.flatten <$> (f x).mapM text) :
    List.flatten <$> l.mapM part = List.flatten <$> (l.flatMap f).mapM text := by
  induction l with
  | nil => rfl
  | cons x l ih =>
    obtain ⟨hx, hl⟩ := List.forall_mem_cons.1 h
    rw [List.flatMap_cons, List.mapM_append, List.mapM_cons, hx]
    cases (f x).mapM text with
    | error e => rfl
    | ok texts =>
      calc _ = (texts.flatten ++ ·) <$> List.flatten <$> l.mapM part := by simp
        _ = (texts.flatten ++ ·) <$> List.flatten <$> (l.flatMap f).mapM text := by rw [ih hl]
        _ = _ := by simp

namespace Assembly

/-- The code as one sequence of lines. The name of a function is a label like others. -/
def lines (a : Assembly) : List Line :=
  a.functions.flatMap fun f => { label := f.name } :: f.lines

/-- The rows of the data section. -/
def dataRows (a : Assembly) : List (List Token) :=
  [.word ".data"] :: a.strings.map StringLiteral.tokens
    ++ [.word ".globl", .mark .blank, .word a.entry] :: a.globals.map GlobalVariable.tokens
    ++ [[.word ".align", .mark .blank, .number 8]]

/-- All rows, given those of the code. -/
def allRows (a : Assembly) (rows : List (List Token)) : List (List Token) :=
  a.dataRows ++ [.word ".text"] :: rows

/-- The rows of the code of an assembly whose symbols are words. -/
structure Written (a : Assembly) (rows : List (List Token)) : Prop where
  entry : IsWord a.entry
  strings : ∀ s ∈ a.strings, IsWord s.label
  globals : ∀ g ∈ a.globals, IsWord g.label
  lines : List.Forall₂ Line.Written a.lines rows

/-- The data section has the text of its rows. -/
theorem rowsText_dataRows (a : Assembly) : rowsText a.dataRows = a.dataSection := by
  have hstrings : rowsText (a.strings.map StringLiteral.tokens)
      = a.strings.flatMap StringLiteral.line := by
    rw [rowsText, List.flatMap_map]
    exact List.flatMap_congr fun s _ => s.text_tokens.symm
  have hglobals : rowsText (a.globals.map GlobalVariable.tokens)
      = a.globals.flatMap GlobalVariable.line := by
    rw [rowsText, List.flatMap_map]
    exact List.flatMap_congr fun g _ => g.text_tokens.symm
  simp only [dataRows, rowsText_append, rowsText_cons, hstrings, hglobals, dataSection,
    List.append_assoc, List.cons_append]
  have hentry : rowText [.word ".globl", .mark .blank, .word a.entry] = ".globl " ++ a.entry := by
    rw [rowText_cons, rowText_cons, rowText_singleton]
    rfl
  rw [hentry]
  rfl

/-- The code is written line by line, if the functions have names. -/
theorem text_eq_lines {a : Assembly} (h : ∀ f ∈ a.functions, f.name ≠ []) :
    a.text = (a.dataSection ++ ".text\n" ++ ·) <$> List.flatten <$> a.lines.mapM Line.text := by
  rw [lines, ← flatten_mapM_flatMap fun f hf => Function.text_eq_lines (h f hf), Assembly.text]
  simp

namespace Written

variable {a a' : Assembly} {rows rows' : List (List Token)}

/-- Functions have names. -/
theorem name_ne_nil (h : a.Written rows) {f : Function} (hf : f ∈ a.functions) : f.name ≠ [] := by
  have hmem : { label := f.name } ∈ a.lines :=
    List.mem_flatMap.2 ⟨f, hf, List.mem_cons_self ..⟩
  obtain ⟨ts, -, hts⟩ := exists_of_forall₂ h.lines hmem
  exact hts.label_ne_nil

/-- An assembly has the text of its rows. -/
theorem text (h : a.Written rows) : a.text = .ok (rowsText (a.allRows rows)) := by
  have hlines : a.lines.mapM Line.text = .ok (rows.map fun ts => rowText ts ++ "\n") :=
    mapM_eq_ok.2 (List.forall₂_map_right_iff.2 (h.lines.imp fun _ _ => Line.Written.text))
  rw [text_eq_lines fun f hf => h.name_ne_nil hf, hlines, allRows, rowsText_append,
    rowsText_dataRows, rowsText_cons, rowText_singleton, rowsText, List.flatMap_def,
    Except.map_ok, Except.map_ok, List.append_assoc]
  rfl

/-- The tokens of every row can be told apart. -/
theorem isRow (h : a.Written rows) : ∀ ts ∈ a.allRows rows, IsRow ts := by
  simp only [allRows, dataRows, List.forall_mem_append, List.forall_mem_cons, List.forall_mem_map]
  have hdata : IsWord ".data" := by decide +kernel
  have hglobl : IsWord ".globl" := by decide +kernel
  have halign : IsWord ".align" := by decide +kernel
  have htext : IsWord ".text" := by decide +kernel
  have hlines : ∀ ts ∈ rows, IsRow ts := by
    intro ts hts
    obtain ⟨l, -, hl⟩ := exists_of_forall₂ h.lines.flip hts
    exact hl.isRow
  exact ⟨⟨⟨⟨.singleton hdata, fun s hs => StringLiteral.isRow_tokens (h.strings s hs)⟩,
    .word_mark hglobl (.mark _ (.singleton h.entry)),
    fun g hg => GlobalVariable.isRow_tokens (h.globals g hg)⟩,
    .word_mark halign (.mark _ (.singleton trivial)), List.forall_mem_nil _⟩,
    .singleton htext, hlines⟩

/-- An assembly can be read off its rows. -/
theorem unique (h : a.Written rows) (h' : a'.Written rows')
    (he : a.allRows rows = a'.allRows rows') :
    a.entry = a'.entry ∧ a.strings = a'.strings ∧ a.globals = a'.globals ∧ a.lines = a'.lines := by
  simp only [allRows, dataRows, List.cons_append, List.append_assoc] at he
  obtain ⟨hstrings, hentry, he⟩ := cut_labelled StringLiteral.tokens_injective (fun _ => rfl)
    (by simp) (by simp) (List.cons.inj he).2
  obtain ⟨hglobals, -, he⟩ := cut_labelled GlobalVariable.tokens_injective (fun _ => rfl)
    (by simp) (by simp) he
  obtain ⟨-, rfl⟩ := List.cons.inj he
  have hlines : a.lines = a'.lines :=
    List.left_unique_forall₂' (fun _ _ _ hl hl' => hl.unique hl' rfl) h.lines h'.lines
  exact ⟨by simpa using hentry, hstrings, hglobals, hlines⟩

/-- Assemblies have the same text if and only if they are the same, up to where functions end. -/
theorem text_eq_iff (h : a.Written rows) (h' : a'.Written rows') :
    a.text = a'.text ↔ a.entry = a'.entry ∧ a.strings = a'.strings ∧ a.globals = a'.globals ∧
      a.lines = a'.lines := by
  constructor
  · intro he
    rw [h.text, h'.text] at he
    exact h.unique h' (rowsText_injective h.isRow h'.isRow (Except.ok.inj he))
  · rintro ⟨hentry, hstrings, hglobals, hlines⟩
    rw [text_eq_lines fun f hf => h.name_ne_nil hf, text_eq_lines fun f hf => h'.name_ne_nil hf,
      dataSection, dataSection, hentry, hstrings, hglobals, hlines]

end Written

end Assembly

end QuadAsm.Asm
