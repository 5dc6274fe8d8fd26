import Mathlib
import QuadAsm.Cli.Path

/-!
# Path names and their parts

Cutting a path at its slashes and joining the parts undo each other (`join_parts`, `parts_join`), so
a path is what stands before its last part, followed by that part, and the last part can be replaced
by another name (`parts_beforeLastPart_append`). The last part falls into a stem and the extension
(`exists_stem`). Cleaning a path goes from part to part (`Pushed`). Clean parts stay when they are
cleaned again (`Settled`), so a name can be put after a clean folder or after the folder itself
(`join_folder`), and cleaning makes no path longer (`length_clean_le`).
-/

namespace QuadAsm.Cli.Path

/-! ## Parts -/

/-- Texts are cut as lists are. -/
theorem splitAll_eq_splitOnP {α : Type} (sep : α → Bool) (l : List α) :
    Text.splitAll sep l = l.splitOnP sep := by
  induction l with
  | nil => rfl
  | cons a rest ih =>
    rw [Text.splitAll, ih, List.splitOnP_cons_eq_if_modifyHead]
    cases h : rest.splitOnP sep with
    | nil => exact absurd h (List.splitOnP_ne_nil sep rest)
    | cons part parts => rfl

/-- The parts of a path are what stands between its slashes. -/
theorem parts_eq_splitOn (path : Bytes) : parts path = path.splitOn slash :=
  splitAll_eq_splitOnP _ path

/-- Every path has a part, if only an empty one. -/
theorem parts_ne_nil (path : Bytes) : parts path ≠ [] := by
  rw [parts_eq_splitOn]
  exact List.splitOnP_ne_nil _ path

/-- There are no slashes in parts. -/
theorem slash_notMem_of_mem_parts {path part : Bytes} (h : part ∈ parts path) : slash ∉ part := by
  rw [parts_eq_splitOn, List.splitOn] at h
  induction path generalizing part with
  | nil =>
    rw [List.splitOnP_nil, List.mem_singleton] at h
    simp [h]
  | cons b rest ih =>
    rw [List.splitOnP_cons_eq_if_modifyHead] at h
    split at h
    · rcases List.mem_cons.1 h with rfl | h
      · exact List.not_mem_nil
      · exact ih h
    · next hb =>
      cases hsplit : rest.splitOnP (· == slash) with
      | nil => exact absurd hsplit (List.splitOnP_ne_nil _ rest)
      | cons first others =>
        rw [hsplit, List.modifyHead_cons] at h
        rcases List.mem_cons.1 h with rfl | h
        · have hfirst : slash ∉ first := ih (hsplit ▸ List.mem_cons_self ..)
          rw [List.mem_cons, not_or]
          exact ⟨fun he => hb (beq_iff_eq.2 he.symm), hfirst⟩
        · exact ih (hsplit ▸ List.mem_cons_of_mem _ h)

/-- A path is its parts with slashes between them. -/
theorem join_parts (path : Bytes) : Bytes.join "/" (parts path) = path := by
  rw [parts_eq_splitOn]
  exact List.intercalate_splitOn slash

/-- Parts that are joined can be told apart again. -/
theorem parts_join {ps : List Bytes} (hne : ps ≠ []) (h : ∀ part ∈ ps, slash ∉ part) :
    parts (Bytes.join "/" ps) = ps := by
  rw [parts_eq_splitOn]
  exact List.splitOn_intercalate slash h hne

/-- The last of the parts that are joined stands at the end. -/
theorem join_append_singleton (ps : List Bytes) (name : Bytes) :
    Bytes.join "/" (ps ++ [name]) = ps.flatMap (· ++ [slash]) ++ name := by
  induction ps with
  | nil => simp [Bytes.join]
  | cons part rest ih =>
    have hcons : Bytes.join "/" (part :: (rest ++ [name]))
        = part ++ [slash] ++ Bytes.join "/" (rest ++ [name]) :=
      List.intercalate_cons_of_ne_nil (by simp)
    rw [List.cons_append, hcons, ih, List.flatMap_cons, ← List.append_assoc]

/-- Parts with their slashes, and a name behind them. -/
theorem parts_flatMap_append {ps : List Bytes} {name : Bytes} (hps : ∀ part ∈ ps, slash ∉ part)
    (hname : slash ∉ name) : parts (ps.flatMap (· ++ [slash]) ++ name) = ps ++ [name] := by
  rw [← join_append_singleton]
  refine parts_join (by simp) fun part hpart => ?_
  rcases List.mem_append.1 hpart with hpart | hpart
  · exact hps part hpart
  · rwa [List.mem_singleton.1 hpart]

/-- The last part comes last. -/
theorem parts_eq (path : Bytes) : parts path = (parts path).dropLast ++ [lastPart path] := by
  obtain ⟨last, hlast⟩ := Option.ne_none_iff_exists'.1
    (mt List.getLast?_eq_none_iff.1 (parts_ne_nil path))
  rw [lastPart, hlast, Option.getD_some, List.dropLast_append_getLast? last hlast]

/-- There is no slash in the last part. -/
theorem slash_notMem_lastPart (path : Bytes) : slash ∉ lastPart path := by
  have hmem : lastPart path ∈ parts path := by
    rw [parts_eq path]
    exact List.mem_append_right _ (List.mem_singleton_self _)
  exact slash_notMem_of_mem_parts hmem

/-- Before the last part stand the others, each with its slash. -/
theorem beforeLastPart_eq (path : Bytes) :
    beforeLastPart path = (parts path).dropLast.flatMap (· ++ [slash]) := by
  have hpath : (parts path).dropLast.flatMap (· ++ [slash]) ++ lastPart path = path := by
    rw [← join_append_singleton, ← parts_eq, join_parts]
  have hprefix : (parts path).dropLast.flatMap (· ++ [slash]) <+: path := ⟨_, hpath⟩
  have hlength : path.length - (lastPart path).length
      = ((parts path).dropLast.flatMap (· ++ [slash])).length := by
    have hsum := congrArg List.length hpath
    rw [List.length_append] at hsum
    omega
  rw [beforeLastPart, hlength, ← List.prefix_iff_eq_take.1 hprefix]

/-- A path is what stands before the last part, and that part. -/
theorem beforeLastPart_append_lastPart (path : Bytes) :
    beforeLastPart path ++ lastPart path = path := by
  rw [beforeLastPart_eq, ← join_append_singleton, ← parts_eq, join_parts]

/-- A path with another last part. -/
theorem parts_beforeLastPart_append (path : Bytes) {name : Bytes} (h : slash ∉ name) :
    parts (beforeLastPart path ++ name) = (parts path).dropLast ++ [name] := by
  rw [beforeLastPart_eq]
  refine parts_flatMap_append (fun part hpart => ?_) h
  exact slash_notMem_of_mem_parts (List.mem_of_mem_dropLast hpart)

/-- What is added at the end of a path is added to its last part. -/
theorem append_eq_beforeLastPart_append (path more : Bytes) :
    path ++ more = beforeLastPart path ++ (lastPart path ++ more) := by
  rw [← List.append_assoc, beforeLastPart_append_lastPart]

section
variable (path : Bytes) {name : Bytes} (h : slash ∉ name)
include h

/-- Without a slash it makes no new part. -/
theorem slash_notMem_lastPart_append : slash ∉ lastPart path ++ name := by
  rw [List.mem_append, not_or]
  exact ⟨slash_notMem_lastPart path, h⟩

/-- The name that replaces the last part is the last part. -/
theorem lastPart_beforeLastPart_append : lastPart (beforeLastPart path ++ name) = name := by
  rw [lastPart, parts_beforeLastPart_append path h, List.getLast?_concat, Option.getD_some]

/-- What stands before it stays. -/
theorem beforeLastPart_beforeLastPart_append :
    beforeLastPart (beforeLastPart path ++ name) = beforeLastPart path := by
  rw [beforeLastPart_eq, parts_beforeLastPart_append path h, List.dropLast_concat,
    beforeLastPart_eq]

/-- A path with something at its end. -/
theorem parts_append :
    parts (path ++ name) = (parts path).dropLast ++ [lastPart path ++ name] := by
  rw [append_eq_beforeLastPart_append,
    parts_beforeLastPart_append path (slash_notMem_lastPart_append path h)]

/-- Another last part does not change where a path starts. -/
theorem isRooted_beforeLastPart_append :
    isRooted (beforeLastPart path ++ name) = isRooted path := by
  have hany {name : Bytes} (h : slash ∉ name) :
      isRooted (beforeLastPart path ++ name) = isRooted (beforeLastPart path) := by
    by_cases hnil : beforeLastPart path = []
    · rw [hnil, List.nil_append]
      exact beq_eq_false_iff_ne.2 fun hhead => h (List.mem_of_head? hhead)
    · rw [isRooted, isRooted, List.head?_append_of_ne_nil _ hnil]
  rw [hany h, ← hany (slash_notMem_lastPart path), beforeLastPart_append_lastPart]

/-- Neither does something at its end. -/
theorem isRooted_append : isRooted (path ++ name) = isRooted path := by
  rw [append_eq_beforeLastPart_append,
    isRooted_beforeLastPart_append path (slash_notMem_lastPart_append path h)]

end

/-! ## Extensions -/

/-- The extension starts at the last dot of the last part. -/
theorem extension_of_lastPart {path stem tail : Bytes} (h : lastPart path = stem ++ dot :: tail)
    (htail : dot ∉ tail) : extension path = dot :: tail := by
  have hmem : dot ∈ lastPart path := by simp [h]
  have hreverse : (lastPart path).reverse = tail.reverse ++ dot :: stem.reverse := by simp [h]
  have htake : (lastPart path).reverse.takeWhile (· != dot) = tail.reverse := by
    rw [hreverse, List.takeWhile_append_of_pos, List.takeWhile_cons_of_neg, List.append_nil]
    · simp
    · intro b hb
      rw [List.mem_reverse] at hb
      exact bne_iff_ne.2 fun he => htail (he ▸ hb)
  rw [extension, if_pos hmem, htake, List.reverse_reverse]

/-- The last part of a path falls into a stem and the extension, which starts at the last dot. -/
theorem exists_stem_of_dot {path : Bytes} (h : dot ∈ lastPart path) :
    ∃ stem tail, lastPart path = stem ++ dot :: tail ∧ dot ∉ tail ∧
      extension path = dot :: tail := by
  obtain ⟨tail, stem, hsplit, htail⟩ := List.eq_append_cons_of_mem (List.mem_reverse.2 h)
  have hname : lastPart path = stem.reverse ++ dot :: tail.reverse := by
    rw [← List.reverse_reverse (lastPart path), hsplit]
    simp
  have htail : dot ∉ tail.reverse := by simpa using htail
  exact ⟨stem.reverse, tail.reverse, hname, htail, extension_of_lastPart hname htail⟩

/-- Without a dot there is no extension. -/
theorem extension_of_notMem {path : Bytes} (h : dot ∉ lastPart path) : extension path = [] :=
  if_neg h

/-- A path without its extension has the stem of the last part as its last part. -/
theorem exists_stem (path : Bytes) :
    ∃ stem, slash ∉ stem ∧ lastPart path = stem ++ extension path ∧
      withoutExtension path = beforeLastPart path ++ stem := by
  have hstem : ∃ stem, lastPart path = stem ++ extension path := by
    by_cases h : dot ∈ lastPart path
    · obtain ⟨stem, tail, hname, -, hextension⟩ := exists_stem_of_dot h
      exact ⟨stem, by rw [hname, hextension]⟩
    · exact ⟨lastPart path, by rw [extension_of_notMem h, List.append_nil]⟩
  obtain ⟨stem, hstem⟩ := hstem
  refine ⟨stem, fun h => slash_notMem_lastPart path (hstem ▸ List.mem_append_left _ h), hstem, ?_⟩
  have hpath : path = (beforeLastPart path ++ stem) ++ extension path := by
    rw [List.append_assoc, ← hstem, beforeLastPart_append_lastPart]
  have hlength := congrArg List.length hpath
  rw [List.length_append] at hlength
  rw [withoutExtension, List.prefix_iff_eq_take.1 ⟨_, hpath.symm⟩]
  congr 1
  omega

/-- An ending that was added can be dropped. -/
theorem dropEnding_append (stem ending : Bytes) : dropEnding ending (stem ++ ending) = stem := by
  simp [dropEnding]

/-! ## Bases -/

/-- A path with an empty last part is empty or ends in a slash. -/
theorem getLast?_of_lastPart_eq_nil {path : Bytes} (h : lastPart path = []) (hne : path ≠ []) :
    path.getLast? = some slash := by
  have hpath := beforeLastPart_append_lastPart path
  rw [h, List.append_nil, beforeLastPart_eq] at hpath
  rcases List.eq_nil_or_concat' (parts path).dropLast with hnil | ⟨before, last, hlast⟩
  · rw [hnil] at hpath
    exact absurd hpath.symm hne
  · rw [← hpath, hlast]
    simp

/-- A path ends as its last part does. -/
theorem getLast?_of_lastPart_ne_nil {path : Bytes} (h : lastPart path ≠ []) :
    path.getLast? = (lastPart path).getLast? := by
  conv_lhs => rw [← beforeLastPart_append_lastPart path]
  exact List.getLast?_append_of_ne_nil _ h

/-- The base of a path that does not end in a slash is its last part. -/
theorem base_of_lastPart_ne_nil {path : Bytes} (h : lastPart path ≠ []) :
    base path = lastPart path := by
  have hne : path ≠ [] := by
    rintro rfl
    exact h rfl
  have hkept : withoutSlashes path = path := by
    refine List.rdropWhile_eq_self_iff.2 fun hne' hslash => slash_notMem_lastPart path ?_
    have hlast := getLast?_of_lastPart_ne_nil h
    rw [List.getLast?_eq_some_getLast hne', beq_iff_eq.1 hslash] at hlast
    exact List.mem_of_getLast? hlast.symm
  rw [base, if_neg (by simpa using hne), hkept]
  exact if_neg (by simpa using hne)

/-- The base of a path is a text without slashes, unless the path has nothing else. -/
theorem base_cases (path : Bytes) :
    (base path ≠ [] ∧ slash ∉ base path ∧ (path ≠ [] → ∃ b ∈ path, b ≠ slash)) ∨
      (base path = "/" ∧ path ≠ [] ∧ ∀ b ∈ path, b = slash) := by
  unfold base
  split
  · next hempty =>
    exact .inl ⟨by decide, by decide, fun hne => absurd (List.isEmpty_iff.1 hempty) hne⟩
  · next hne =>
    have hne : path ≠ [] := by simpa using hne
    simp only
    split
    · next hempty =>
      have hall := List.rdropWhile_eq_nil_iff.1 (List.isEmpty_iff.1 hempty)
      exact .inr ⟨rfl, hne, fun b hb => beq_iff_eq.1 (hall b hb)⟩
    · next hkept =>
      have hkept : withoutSlashes path ≠ [] := by simpa using hkept
      have hnot := List.rdropWhile_last_not (· == slash) path hkept
      refine .inl ⟨fun hnil => ?_, slash_notMem_lastPart _, fun _ => ?_⟩
      · have hlast := getLast?_of_lastPart_eq_nil hnil hkept
        rw [List.getLast?_eq_some_getLast hkept, Option.some.injEq] at hlast
        exact hnot (beq_iff_eq.2 hlast)
      · by_contra hall
        push Not at hall
        exact hkept (List.rdropWhile_eq_nil_iff.2 fun b hb => beq_iff_eq.2 (hall b hb))

/-! ## Clean paths -/

/-- What a file or a folder can be called. -/
structure IsName (name : Bytes) : Prop where
  ne_nil : name ≠ []
  ne_dot : name ≠ "."
  ne_dots : name ≠ ".."
  slash_notMem : slash ∉ name

/-- A text without slashes that does not end in a dot is a name. -/
theorem isName_of_getLast? {name : Bytes} {b : UInt8} (h : slash ∉ name)
    (hlast : name.getLast? = some b) (hb : b ≠ dot) : IsName name where
  ne_nil := by
    rintro rfl
    cases hlast
  ne_dot := by
    rintro rfl
    cases hlast
    exact hb rfl
  ne_dots := by
    rintro rfl
    cases hlast
    exact hb rfl
  slash_notMem := h

/-- A name can be made with an ending that does not end in a dot. -/
theorem isName_append {stem ending : Bytes} {b : UInt8} (hstem : slash ∉ stem)
    (hending : slash ∉ ending) (hlast : ending.getLast? = some b) (hb : b ≠ dot) :
    IsName (stem ++ ending) := by
  refine isName_of_getLast? ?_ ?_ hb
  · rw [List.mem_append, not_or]
    exact ⟨hstem, hending⟩
  · rw [List.getLast?_append, hlast]
    rfl

/-- What a part does to the clean parts before it, which are given backwards. -/
inductive Pushed (rooted : Bool) : List Bytes → Bytes → List Bytes → Prop where
  | stay {done : List Bytes} {part : Bytes} (empty : part = [] ∨ part = ".") :
      Pushed rooted done part done
  /-- Above the root there is the root. -/
  | top (root : rooted = true) : Pushed rooted [] ".." []
  /-- There is no name to go back over. -/
  | above {done : List Bytes} (nameless : ∀ last ∈ done.head?, last = "..") :
      Pushed rooted done ".." (".." :: done)
  | back {last : Bytes} {done : List Bytes} (named : last ≠ "..") :
      Pushed rooted (last :: done) ".." done
  | down {done : List Bytes} {part : Bytes} (nonempty : part ≠ []) (not_dot : part ≠ ".")
      (not_dots : part ≠ "..") : Pushed rooted done part (part :: done)

/-- These are all cases. -/
theorem pushed (rooted : Bool) (done : List Bytes) (part : Bytes) :
    Pushed rooted done part (push rooted done part) := by
  unfold push
  split
  · next hstay => exact .stay (by simpa using hstay)
  · next hstay =>
    have hpart : part ≠ [] ∧ part ≠ "." := by simpa using hstay
    split
    · next hup =>
      obtain rfl : part = ".." := by simpa using hup
      cases done with
      | nil =>
        cases rooted with
        | true => exact .top rfl
        | false => exact .above (by simp)
      | cons last rest =>
        simp only
        split
        · next hlast => exact .above (by simpa using hlast)
        · next hlast => exact .back (by simpa using hlast)
    · next hup => exact .down hpart.1 hpart.2 (by simpa using hup)

section
variable {rooted : Bool} {done : List Bytes} {part : Bytes}

/-- An empty part does nothing. -/
theorem push_stay (h : part = [] ∨ part = ".") : push rooted done part = done := by
  unfold push
  exact if_pos (by simpa using h)

/-- A name follows the parts before it. -/
theorem push_name (h : IsName part) : push rooted done part = part :: done := by
  unfold push
  rw [if_neg (by simp [h.ne_nil, h.ne_dot]), if_neg (by simpa using h.ne_dots)]

/-- Clean parts, which are given backwards: none of them is empty, and cleaning them again gives
them back. -/
structure Settled (rooted : Bool) (done : List Bytes) : Prop where
  parts : ∀ part ∈ done, part ≠ [] ∧ part ≠ "."
  again : done.reverse.foldl (push rooted) [] = done

/-- One more part. -/
theorem Settled.push (h : Settled rooted done) (part : Bytes) :
    Settled rooted (push rooted done part) := by
  have hnext : (part :: done).reverse.foldl (Path.push rooted) [] = Path.push rooted done part := by
    rw [List.reverse_cons, List.foldl_concat, h.again]
  generalize hdone : Path.push rooted done part = done' at hnext ⊢
  cases hdone ▸ pushed rooted done part with
  | stay => exact h
  | top => exact h
  | above nameless =>
    exact ⟨List.forall_mem_cons.2 ⟨by decide, h.parts⟩, hnext⟩
  | @back last _ named =>
    obtain ⟨hlast, hrest⟩ := List.forall_mem_cons.1 h.parts
    refine ⟨hrest, ?_⟩
    -- the part that is taken away was a name, so it came last
    have hagain := h.again
    rw [List.reverse_cons, List.foldl_concat] at hagain
    generalize done'.reverse.foldl (Path.push rooted) [] = before at hagain
    generalize hpush : Path.push rooted before last = all at hagain
    cases hpush ▸ pushed rooted before last with
    | stay empty => exact absurd empty (not_or.2 hlast)
    | top | above | back => exact absurd rfl named
    | down => exact (List.cons.inj hagain).2
  | down nonempty not_dot =>
    exact ⟨List.forall_mem_cons.2 ⟨⟨nonempty, not_dot⟩, h.parts⟩, hnext⟩

/-- Any number of parts more. -/
theorem Settled.foldl (h : Settled rooted done) (ps : List Bytes) :
    Settled rooted (ps.foldl (Path.push rooted) done) := by
  induction ps generalizing done with
  | nil => exact h
  | cons part rest ih => exact ih (h.push part)

/-- To begin with there are no parts. -/
theorem settled_nil (rooted : Bool) : Settled rooted [] := ⟨by simp, rfl⟩

/-- Clean parts are some of the parts. -/
theorem foldl_push_sublist (rooted : Bool) (done ps : List Bytes) :
    (ps.foldl (push rooted) done).reverse.Sublist (done.reverse ++ ps) := by
  induction ps generalizing done with
  | nil => simp
  | cons part rest ih =>
    have hpush : (push rooted done part).reverse.Sublist (done.reverse ++ [part]) := by
      rw [← List.reverse_cons, List.reverse_sublist]
      generalize hdone : push rooted done part = done'
      cases hdone ▸ pushed rooted done part with
      | stay | top => exact List.sublist_cons_self ..
      | above | down => exact .refl _
      | back => exact (List.sublist_cons_self ..).trans (List.sublist_cons_self ..)
    have hall := (ih (push rooted done part)).trans (hpush.append_right rest)
    rwa [List.append_assoc] at hall

end

/-- The clean parts of a path are settled. -/
theorem settled_cleanParts (path : Bytes) : Settled (isRooted path) (cleanParts path).reverse := by
  rw [cleanParts, List.reverse_reverse]
  exact (settled_nil _).foldl _

/-- The clean parts of a path are some of its parts. -/
theorem cleanParts_sublist (path : Bytes) : (cleanParts path).Sublist (parts path) :=
  foldl_push_sublist _ [] _

/-- Clean parts are not empty and have no slashes. -/
theorem of_mem_cleanParts {path part : Bytes} (h : part ∈ cleanParts path) :
    part ≠ [] ∧ slash ∉ part :=
  ⟨((settled_cleanParts path).parts part (by simpa using h)).1,
    slash_notMem_of_mem_parts ((cleanParts_sublist path).subset h)⟩

/-- Parts that are not empty make a path that is not empty. -/
theorem join_ne_nil {ps : List Bytes} (hne : ps ≠ []) (h : ∀ part ∈ ps, part ≠ []) :
    Bytes.join "/" ps ≠ [] := by
  obtain ⟨before, last, rfl⟩ := (List.eq_nil_or_concat' ps).resolve_left hne
  rw [join_append_singleton]
  exact List.append_ne_nil_of_right_ne_nil _ (h last (by simp))

/-- Of fewer parts a shorter path is made. -/
theorem length_join_le {ps qs : List Bytes} (h : ps.Sublist qs) (hne : ps ≠ []) :
    (Bytes.join "/" ps).length ≤ (Bytes.join "/" qs).length := by
  have hlength {ps : List Bytes} (hne : ps ≠ []) :
      (Bytes.join "/" ps).length + 1 = (ps.flatMap (· ++ [slash])).length := by
    obtain ⟨before, last, rfl⟩ := (List.eq_nil_or_concat' ps).resolve_left hne
    rw [join_append_singleton, List.flatMap_append]
    simp [Nat.add_assoc]
  have hqs : qs ≠ [] := fun hnil => hne (List.sublist_nil.1 (hnil ▸ h))
  have hle := (h.flatMap (· ++ [slash])).length_le
  rw [← hlength hne, ← hlength hqs] at hle
  exact Nat.le_of_succ_le_succ hle

/-- The first byte of joined parts is no slash. -/
theorem isRooted_join {ps : List Bytes} (h : ∀ part ∈ ps, part ≠ [] ∧ slash ∉ part) :
    isRooted (Bytes.join "/" ps) = false := by
  refine beq_eq_false_iff_ne.2 ?_
  cases ps with
  | nil => exact (Option.some_ne_none _).symm
  | cons first rest =>
    obtain ⟨⟨hne, hslash⟩, -⟩ := List.forall_mem_cons.1 h
    obtain ⟨more, hmore⟩ : ∃ more, Bytes.join "/" (first :: rest) = first ++ more := by
      cases rest with
      | nil => exact ⟨[], by simp [Bytes.join]⟩
      | cons next others =>
        exact ⟨_, (List.intercalate_cons_of_ne_nil (by simp)).trans (List.append_assoc ..)⟩
    rw [hmore, List.head?_append_of_ne_nil _ hne]
    exact fun hhead => hslash (List.mem_of_head? hhead)

/-- Before the first slash there is an empty part. -/
theorem parts_slash_cons (path : Bytes) : parts (slash :: path) = [] :: parts path := by
  rw [parts_eq_splitOn, List.splitOn, List.splitOnP_cons_eq_if_modifyHead, if_pos (by simp),
    parts_eq_splitOn]
  rfl

section
variable (path : Bytes)

/-- A clean path that leads away from where it starts. -/
theorem clean_of_ne_nil (h : cleanParts path ≠ []) :
    clean path = (if isRooted path then [slash] else []) ++ Bytes.join "/" (cleanParts path) := by
  have hkept := join_ne_nil h fun part hpart => (of_mem_cleanParts hpart).1
  unfold clean
  split
  · rfl
  · simp [hkept]

/-- The parts of such a path are its clean parts, behind an empty one if it starts at the root. -/
theorem parts_clean_of_ne_nil (h : cleanParts path ≠ []) :
    parts (clean path) = (if isRooted path then [[]] else []) ++ cleanParts path := by
  have hjoin := parts_join h fun part hpart => (of_mem_cleanParts hpart).2
  rw [clean_of_ne_nil path h]
  split
  · rw [List.singleton_append, parts_slash_cons, hjoin, List.singleton_append]
  · rw [List.nil_append, hjoin, List.nil_append]

/-- A clean path that leads to where it starts. -/
theorem clean_of_nil (h : cleanParts path = []) :
    clean path = if isRooted path then [slash] else "." := by
  unfold clean
  rw [h]
  rfl

/-- A clean path is not empty. -/
theorem clean_ne_nil : clean path ≠ [] := by
  by_cases h : cleanParts path = []
  · rw [clean_of_nil path h]
    split <;> decide
  · rw [clean_of_ne_nil path h]
    exact List.append_ne_nil_of_right_ne_nil _
      (join_ne_nil h fun part hpart => (of_mem_cleanParts hpart).1)

/-- Cleaning does not change where a path starts. -/
theorem isRooted_clean : isRooted (clean path) = isRooted path := by
  by_cases h : cleanParts path = []
  · rw [clean_of_nil path h]
    cases isRooted path <;> rfl
  · rw [clean_of_ne_nil path h]
    cases isRooted path with
    | true => rfl
    | false => exact isRooted_join fun _ => of_mem_cleanParts

/-- Clean parts are those of the clean path. -/
theorem cleanParts_clean : cleanParts (clean path) = cleanParts path := by
  have hagain := (settled_cleanParts path).again
  rw [List.reverse_reverse] at hagain
  refine List.reverse_injective ?_
  rw [cleanParts, List.reverse_reverse, isRooted_clean]
  by_cases h : cleanParts path = []
  · rw [clean_of_nil path h, h]
    split <;> simp [parts_slash_cons, push_stay, show parts "." = ["."] from rfl,
      show parts [] = [[]] from rfl]
  · rw [parts_clean_of_ne_nil path h]
    split <;> simp [push_stay, hagain]

/-- A clean path is not longer. -/
theorem length_clean_le (hne : path ≠ []) : (clean path).length ≤ path.length := by
  by_cases h : cleanParts path = []
  · have hlength := List.length_pos_iff.2 hne
    rw [clean_of_nil path h]
    split <;> exact hlength
  · rw [clean_of_ne_nil path h, List.length_append]
    split
    · next hrooted =>
      -- the first part is empty, and the slash stands behind it
      obtain ⟨rest, rfl⟩ : ∃ rest, path = slash :: rest :=
        List.head?_eq_some_iff.1 (beq_iff_eq.1 hrooted)
      have hsublist : (cleanParts (slash :: rest)).Sublist (parts rest) := by
        rw [cleanParts, parts_slash_cons, List.foldl_cons, push_stay (.inl rfl)]
        exact foldl_push_sublist _ [] _
      have hjoin := length_join_le hsublist h
      rw [join_parts] at hjoin
      simp only [List.length_cons, List.length_nil]
      omega
    · have hjoin := length_join_le (cleanParts_sublist path) h
      rw [join_parts] at hjoin
      simpa using hjoin

end

/-! ## Names in folders -/

/-- A clean path depends on where the path starts and on its clean parts. -/
theorem clean_congr {path path' : Bytes} (hrooted : isRooted path = isRooted path')
    (hparts : cleanParts path = cleanParts path') : clean path = clean path' := by
  rw [clean, clean, hrooted, hparts]

section
variable {path name : Bytes} {ps : List Bytes}

/-- A name at the end of a path is kept when the path is cleaned. -/
theorem cleanParts_of_parts (hparts : parts path = ps ++ [name]) (hname : IsName name) :
    cleanParts path = (ps.foldl (push (isRooted path)) []).reverse ++ [name] := by
  rw [cleanParts, hparts, List.foldl_concat, push_name hname, List.reverse_cons]

/-- A clean path ends in the name that the path ends in. -/
theorem exists_clean_eq_append (hparts : parts path = ps ++ [name]) (hname : IsName name) :
    ∃ start, clean path = start ++ name := by
  have hclean := cleanParts_of_parts hparts hname
  rw [clean_of_ne_nil path (by simp [hclean]), hclean, join_append_singleton]
  exact ⟨_, (List.append_assoc ..).symm⟩

end

section
variable (path : Bytes) {name : Bytes} (h : slash ∉ name)
include h

/-- A name behind a slash is a part. -/
theorem parts_append_slash : parts (path ++ "/" ++ name) = parts path ++ [name] := by
  have hpath : (parts path).flatMap (· ++ [slash]) = path ++ "/" := by
    rw [parts_eq path, List.flatMap_append, ← beforeLastPart_eq, List.flatMap_singleton,
      ← List.append_assoc, beforeLastPart_append_lastPart]
    rfl
  rw [← hpath]
  exact parts_flatMap_append (fun _ => slash_notMem_of_mem_parts) h

/-- A name that is put behind the clean folder of a path. -/
theorem join_folder : join (folder path) name = clean (beforeLastPart path ++ name) := by
  have hne : folder path ≠ [] := clean_ne_nil _
  rw [join, if_neg (by simpa using hne)]
  have hrooted : isRooted (folder path ++ "/" ++ name) = isRooted (beforeLastPart path) := by
    rw [← isRooted_clean (beforeLastPart path), isRooted, List.append_assoc,
      List.head?_append_of_ne_nil _ hne]
    rfl
  have hrooted' : isRooted (beforeLastPart path ++ name) = isRooted (beforeLastPart path) := by
    rw [isRooted_beforeLastPart_append path h,
      ← isRooted_beforeLastPart_append path List.not_mem_nil, List.append_nil]
  refine clean_congr (hrooted.trans hrooted'.symm) ?_
  have hfolder : (parts (folder path)).foldl (push (isRooted (beforeLastPart path))) []
      = (parts (beforeLastPart path)).foldl (push (isRooted (beforeLastPart path))) [] := by
    have hclean := congrArg List.reverse (cleanParts_clean (beforeLastPart path))
    rwa [cleanParts, cleanParts, isRooted_clean, List.reverse_reverse, List.reverse_reverse]
      at hclean
  have hbefore : parts (beforeLastPart path) = (parts path).dropLast ++ [[]] := by
    have hparts := parts_beforeLastPart_append path List.not_mem_nil
    rwa [List.append_nil] at hparts
  rw [cleanParts, cleanParts, hrooted, hrooted', parts_append_slash _ h,
    parts_beforeLastPart_append path h, List.foldl_concat, List.foldl_concat, hfolder, hbefore,
    List.foldl_concat, push_stay (.inl rfl)]

/-- One slash more makes no difference. -/
theorem join_slash_append (hne : path ≠ []) : join path ("/" ++ name) = join path name := by
  have hjoin : path ++ "/" ++ ("/" ++ name) = path ++ "/" ++ ([] : Bytes) ++ "/" ++ name := by simp
  rw [join, join, if_neg (by simpa using hne), if_neg (by simpa using hne), hjoin]
  have hrooted :
      isRooted (path ++ "/" ++ ([] : Bytes) ++ "/" ++ name) = isRooted (path ++ "/" ++ name) := by
    simp only [isRooted, List.append_assoc, List.head?_append_of_ne_nil _ hne]
  refine clean_congr hrooted ?_
  rw [cleanParts, cleanParts, hrooted, parts_append_slash _ h, parts_append_slash _ h,
    parts_append_slash _ List.not_mem_nil, List.foldl_concat, List.foldl_concat,
    List.foldl_concat, push_stay (.inl rfl)]

end

/-- Names that are put behind a folder end the clean path. -/
theorem exists_join_eq_append {path name : Bytes} (hne : path ≠ []) (more : List Bytes)
    (hname : IsName name) :
    ∃ start, join path (Bytes.join "/" (more ++ [name])) = start ++ name := by
  rw [join, if_neg (by simpa using hne), join_append_singleton]
  rcases List.eq_nil_or_concat' more with rfl | ⟨before, last, rfl⟩
  · exact exists_clean_eq_append (parts_append_slash path hname.slash_notMem) hname
  · have hlast : path ++ "/" ++ ((before ++ [last]).flatMap (· ++ [slash]) ++ name)
        = path ++ "/" ++ before.flatMap (· ++ [slash]) ++ last ++ [slash] ++ name := by
      simp
    rw [hlast]
    exact exists_clean_eq_append (parts_append_slash _ hname.slash_notMem) hname

end QuadAsm.Cli.Path
