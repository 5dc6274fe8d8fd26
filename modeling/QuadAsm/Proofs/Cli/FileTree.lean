import QuadAsm.Cli.Load
import QuadAsm.Proofs.Cli.Path
import QuadAsm.Proofs.Outcome

/-!
# Places in file trees, and what changes there

A path is walked part by part: a part stays, goes up, or goes down to a name (`Step`). Cleaning a
path does the same to its parts, so a clean path leads where the path leads (`resolve_clean`).
Writing and removing a file changes nothing but what is at its place (`SameBut`), and leaves the
folders as they are, so every path leads to the same place afterwards. Files that are looked for are
found as before, if none of them was written (`SameBut.filesBelow`).
-/

namespace QuadAsm.Cli

open QuadAsm.Cli.Path (IsName Pushed Settled slash parts lastPart push clean cleanParts isRooted)

namespace FileTree

/-- Where a part of a path leads from a folder. -/
inductive Step (here : Place) : Bytes → Place → Prop where
  | stay {part : Bytes} : part = [] ∨ part = "." → Step here part here
  | up : Step here ".." here.dropLast
  | down {part : Bytes} : part ≠ [] → part ≠ "." → part ≠ ".." → part.length ≤ longestName →
      Step here part (here ++ [part])

section
variable {t t' : FileTree} {here d p q : Place} {part path : Bytes} {ps qs : List Bytes}

/-! ## Walking -/

/-- A walk goes on from folders only, by one step for each part. -/
theorem walk_cons_eq_ok : t.walk here (part :: ps) = .ok d ↔
    t.isFolder here = true ∧ ∃ next, Step here part next ∧ t.walk next ps = .ok d := by
  rw [walk]
  by_cases hfolder : t.isFolder here = true
  · rw [if_neg (by simp [hfolder])]
    simp only [hfolder, true_and]
    constructor
    · intro h
      split at h
      · next hstay => exact ⟨here, .stay (by simpa using hstay), h⟩
      · next hstay =>
        have hpart : part ≠ [] ∧ part ≠ "." := by simpa using hstay
        split at h
        · next hup =>
          obtain rfl : part = ".." := by simpa using hup
          exact ⟨here.dropLast, .up, h⟩
        · next hup =>
          split at h
          · cases h
          · next hlong =>
            exact ⟨here ++ [part], .down hpart.1 hpart.2 (by simpa using hup) (by omega), h⟩
    · rintro ⟨next, hstep, h⟩
      cases hstep with
      | stay hstay => rwa [if_pos (by simpa using hstay)]
      | up =>
        rw [if_neg (by decide), if_pos (by decide)]
        exact h
      | down hnil hdot hdots hlong =>
        rw [if_neg (by simp [hnil, hdot]), if_neg (by simpa using hdots), if_neg (by omega)]
        exact h
  · rw [if_pos (by simpa using hfolder)]
    constructor
    · intro h
      cases h
    · rintro ⟨hfolder', -⟩
      exact absurd hfolder' hfolder

/-- Without parts a walk stays where it is. -/
theorem walk_nil_eq_ok : t.walk here [] = .ok d ↔ here = d := by
  rw [walk, Except.ok.injEq]

/-- A walk along two lists of parts stops in between. -/
theorem walk_append_eq_ok : t.walk here (ps ++ qs) = .ok d ↔
    ∃ m, t.walk here ps = .ok m ∧ t.walk m qs = .ok d := by
  induction ps generalizing here with
  | nil => simp [walk_nil_eq_ok]
  | cons part rest ih =>
    simp only [List.cons_append, walk_cons_eq_ok, ih]
    constructor
    · rintro ⟨hfolder, next, hstep, m, hm, hd⟩
      exact ⟨m, ⟨hfolder, next, hstep, hm⟩, hd⟩
    · rintro ⟨m, ⟨hfolder, next, hstep, hm⟩, hd⟩
      exact ⟨hfolder, next, hstep, m, hm, hd⟩

/-- A walk depends on the folders only. -/
theorem walk_congr (h : t'.folders = t.folders) :
    t'.walk here ps = .ok d ↔ t.walk here ps = .ok d := by
  induction ps generalizing here with
  | nil => rw [walk_nil_eq_ok, walk_nil_eq_ok]
  | cons part rest ih => simp only [walk_cons_eq_ok, ih, isFolder, h]

/-- A step to a name goes down to it. -/
theorem Step.eq_append {name : Bytes} (h : Step here name p) (hname : IsName name) :
    p = here ++ [name] := by
  cases h with
  | stay hstay => exact absurd hstay (not_or.2 ⟨hname.ne_nil, hname.ne_dot⟩)
  | up => exact absurd rfl hname.ne_dots
  | down => rfl

/-- Only a step to a name goes down to it. -/
theorem Step.eq_of_append {name : Bytes} (h : Step here part (here ++ [name])) : part = name := by
  generalize hnext : here ++ [name] = next at h
  cases h with
  | stay => simp at hnext
  | up =>
    have hlength := congrArg List.length hnext
    simp at hlength
    omega
  | down => simpa using hnext.symm

/-- Parts that are empty lead nowhere. -/
theorem walk_stay (hfolder : t.isFolder here = true) (hpart : part = [] ∨ part = ".") :
    t.walk here (part :: ps) = .ok d ↔ t.walk here ps = .ok d := by
  rw [walk_cons_eq_ok]
  constructor
  · rintro ⟨-, next, hstep, hwalk⟩
    cases hstep with
    | stay => exact hwalk
    | up => exact absurd hpart (by decide)
    | down hnil hdot => exact absurd hpart (not_or.2 ⟨hnil, hdot⟩)
  · exact fun hwalk => ⟨hfolder, here, .stay hpart, hwalk⟩

/-- A step from where clean parts lead to leads where the parts lead after it was added to them. -/
theorem Step.walk_push {rooted : Bool} {origin next : Place} {done : List Bytes}
    (hroot : rooted = true → origin = []) (hsettled : Settled rooted done)
    (hdone : t.walk origin done.reverse = .ok here) (hfolder : t.isFolder here = true)
    (hstep : Step here part next) : t.walk origin (push rooted done part).reverse = .ok next := by
  have hnext : t.walk origin (part :: done).reverse = .ok next := by
    rw [List.reverse_cons]
    exact walk_append_eq_ok.2 ⟨here, hdone, walk_cons_eq_ok.2 ⟨hfolder, next, hstep, rfl⟩⟩
  generalize hpushed : push rooted done part = done'
  cases hpushed ▸ Path.pushed rooted done part with
  | stay empty =>
    cases hstep with
    | stay => exact hdone
    | up => exact absurd empty (by decide)
    | down hnil hdot => exact absurd empty (not_or.2 ⟨hnil, hdot⟩)
  | top root =>
    obtain rfl : origin = here := walk_nil_eq_ok.1 hdone
    cases hroot root
    cases hstep with
    | stay | up => rfl
    | down _ _ hdots => exact absurd rfl hdots
  | above => exact hnext
  | @back last _ named =>
    -- the walk came here over the name that is taken away
    obtain ⟨hlast, -⟩ := List.forall_mem_cons.1 hsettled.parts
    rw [List.reverse_cons] at hdone
    obtain ⟨m, hm, hlastStep⟩ := walk_append_eq_ok.1 hdone
    obtain ⟨-, m', hlastStep, hm'⟩ := walk_cons_eq_ok.1 hlastStep
    cases walk_nil_eq_ok.1 hm'
    cases hlastStep with
    | stay empty => exact absurd empty (not_or.2 hlast)
    | up => exact absurd rfl named
    | down =>
      cases hstep with
      | stay empty => exact absurd empty (by decide)
      | up => rwa [List.dropLast_concat]
      | down _ _ hdots => exact absurd rfl hdots
  | down => exact hnext

/-- A walk cleans the parts as it goes. -/
theorem walk_foldl_push {rooted : Bool} {origin : Place} {done : List Bytes}
    (hroot : rooted = true → origin = []) (hsettled : Settled rooted done)
    (hdone : t.walk origin done.reverse = .ok here) (h : t.walk here ps = .ok d) :
    t.walk origin (ps.foldl (push rooted) done).reverse = .ok d := by
  induction ps generalizing here done with
  | nil => rwa [← walk_nil_eq_ok.1 h]
  | cons part rest ih =>
    obtain ⟨hfolder, next, hstep, h⟩ := walk_cons_eq_ok.1 h
    exact ih (hsettled.push part) (hstep.walk_push hroot hsettled hdone hfolder) h

/-! ## Resolving -/

/-- A path that starts with a slash starts at the root. -/
theorem start_of_isRooted (h : isRooted path = true) : t.start path = [] := by
  rw [start, h]
  rfl

/-- Where a path starts depends on nothing else. -/
theorem start_eq {path' : Bytes} (h : isRooted path' = isRooted path) :
    t.start path' = t.start path := by
  rw [start, start, h]

/-- What it takes for a path to lead to a place. -/
theorem resolve_eq_ok : t.resolve path = .ok p ↔
    path.length ≤ longestPath ∧ path ≠ [] ∧ t.walk (t.start path) (parts path) = .ok p := by
  unfold resolve
  split
  · next hlong =>
    constructor
    · intro h
      cases h
    · rintro ⟨hshort, -⟩
      omega
  · next hshort =>
    split
    · next hempty =>
      constructor
      · intro h
        cases h
      · rintro ⟨-, hne, -⟩
        simp [hne] at hempty
    · next hempty => exact ⟨fun h => ⟨by omega, by simpa using hempty, h⟩, fun h => h.2.2⟩

/-- A path leads to the same place in all trees with the same folders. -/
theorem resolve_congr (h : t'.folders = t.folders) (hhome : t'.home = t.home) :
    t'.resolve path = .ok p ↔ t.resolve path = .ok p := by
  rw [resolve_eq_ok, resolve_eq_ok, walk_congr h, start, start, hhome]

/-- The last step on the way to a place. -/
theorem step_of_resolve (h : t.resolve path = .ok p) :
    ∃ d, t.walk (t.start path) (parts path).dropLast = .ok d ∧ t.isFolder d = true ∧
      Step d (lastPart path) p := by
  obtain ⟨-, -, hwalk⟩ := resolve_eq_ok.1 h
  rw [Path.parts_eq, walk_append_eq_ok] at hwalk
  obtain ⟨d, hd, hwalk⟩ := hwalk
  obtain ⟨hfolder, next, hstep, hnext⟩ := walk_cons_eq_ok.1 hwalk
  exact ⟨d, hd, hfolder, walk_nil_eq_ok.1 hnext ▸ hstep⟩

/-- A path that ends in a name leads to that name in a folder. -/
theorem resolve_name {name : Bytes} (h : t.resolve path = .ok p) (hname : IsName name)
    (hparts : parts path = ps ++ [name]) :
    ∃ d, t.walk (t.start path) ps = .ok d ∧ p = d ++ [name] := by
  obtain ⟨d, hd, -, hstep⟩ := step_of_resolve h
  have hlast : lastPart path = name := by simp [Path.lastPart, hparts]
  rw [hparts, List.dropLast_concat] at hd
  exact ⟨d, hd, (hlast ▸ hstep).eq_append hname⟩

/-! ## Clean paths -/

/-- Clean parts lead where the parts lead. -/
theorem walk_clean_of_walk (h : t.walk (t.start path) ps = .ok d) :
    t.walk (t.start path) (ps.foldl (push (isRooted path)) []).reverse = .ok d :=
  walk_foldl_push start_of_isRooted (Path.settled_nil _) rfl h

/-- A clean path leads where the path leads. -/
theorem resolve_clean (h : t.resolve path = .ok p) : t.resolve (clean path) = .ok p := by
  obtain ⟨hlength, hne, hwalk⟩ := resolve_eq_ok.1 h
  refine resolve_eq_ok.2 ⟨(Path.length_clean_le path hne).trans hlength, Path.clean_ne_nil path, ?_⟩
  have hclean : t.walk (t.start path) (cleanParts path) = .ok p := walk_clean_of_walk hwalk
  rw [start_eq (Path.isRooted_clean path)]
  by_cases hnil : cleanParts path = []
  · rw [Path.clean_of_nil path hnil]
    rw [hnil] at hclean
    split
    · next hrooted =>
      rw [start_of_isRooted hrooted] at hclean ⊢
      rw [Path.parts_slash_cons, walk_stay rfl (.inl rfl)]
      exact (walk_stay rfl (.inl rfl)).2 hclean
    · -- the path has parts, so it starts in a folder
      obtain ⟨first, rest, hparts⟩ := List.exists_cons_of_ne_nil (Path.parts_ne_nil path)
      obtain ⟨hfolder, -⟩ := walk_cons_eq_ok.1 (hparts ▸ hwalk)
      exact (walk_stay hfolder (.inr rfl)).2 hclean
  · rw [Path.parts_clean_of_ne_nil path hnil]
    split
    · next hrooted =>
      rw [start_of_isRooted hrooted] at hclean ⊢
      exact (walk_stay rfl (.inl rfl)).2 hclean
    · exact hclean

/-- A clean path that ends in a name leads to that name in the folder of the path. -/
theorem resolve_clean_name {name : Bytes} (hparts : parts path = ps ++ [name])
    (hname : IsName name) (hd : t.walk (t.start path) ps = .ok d)
    (h : t.resolve (clean path) = .ok q) : q = d ++ [name] := by
  have hclean := Path.cleanParts_of_parts hparts hname
  have hcleanParts := Path.parts_clean_of_ne_nil path (by simp [hclean])
  rw [hclean, ← List.append_assoc] at hcleanParts
  obtain ⟨d', hd', rfl⟩ := resolve_name h hname hcleanParts
  rw [start_eq (Path.isRooted_clean path)] at hd'
  have hd := walk_clean_of_walk hd
  suffices hsame : t.walk (t.start path) (ps.foldl (push (isRooted path)) []).reverse = .ok d' by
    cases hd.symm.trans hsame
    rfl
  split at hd'
  · next hrooted =>
    rw [start_of_isRooted hrooted] at hd' ⊢
    exact (walk_stay rfl (.inl rfl)).1 hd'
  · exact hd'

end

/-! ## Files -/

/-- Looking a file up in a list of files. -/
theorem lookup_cons_eq (k q : Place) (old : Bytes) (rest : List (Place × Bytes)) :
    ((k, old) :: rest).lookup q = if q = k then some old else rest.lookup q := by
  rw [List.lookup_cons]
  by_cases hq : q = k
  · rw [if_pos hq, beq_iff_eq.2 hq]
  · rw [if_neg hq, beq_eq_false_iff_ne.2 hq]

/-- After a file was put at a place, it is found there, and all others as before. -/
theorem lookup_put (files : List (Place × Bytes)) (p q : Place) (bytes : Bytes) :
    (put files p bytes).lookup q = if q = p then some bytes else files.lookup q := by
  induction files with
  | nil => rw [put, lookup_cons_eq]
  | cons head rest ih =>
    obtain ⟨k, old⟩ := head
    rw [put]
    by_cases hk : k = p
    · rw [if_pos hk, lookup_cons_eq, lookup_cons_eq, hk]
      by_cases hq : q = p <;> simp [hq]
    · rw [if_neg hk, lookup_cons_eq, lookup_cons_eq, ih]
      by_cases hq : q = k <;> simp [hq, hk]

/-- After a file was dropped, it is not found, and all others are as before. -/
theorem lookup_filter_ne (files : List (Place × Bytes)) (p q : Place) :
    (files.filter (·.1 != p)).lookup q = if q = p then none else files.lookup q := by
  induction files with
  | nil => simp
  | cons head rest ih =>
    obtain ⟨k, old⟩ := head
    rw [List.filter_cons, lookup_cons_eq]
    by_cases hk : k = p
    · rw [if_neg (by simp [hk]), ih, hk]
      by_cases hq : q = p <;> simp [hq]
    · rw [if_pos (by simp [hk]), lookup_cons_eq, ih]
      by_cases hq : q = k <;> simp [hq, hk]

/-- A file that was put at a place is there. -/
theorem file?_put (t : FileTree) (p : Place) (bytes : Bytes) :
    ({ t with files := put t.files p bytes } : FileTree).file? p = some bytes := by
  rw [file?, lookup_put, if_pos rfl]

/-- A tree that differs from another one at some places only. -/
structure SameBut (changed : Place → Prop) (t t' : FileTree) : Prop where
  folders : t'.folders = t.folders
  home : t'.home = t.home
  files : ∀ p, ¬ changed p → t'.file? p = t.file? p
  /-- Files at other places are listed in the same order. -/
  listed : ∀ keep : Place → Bool, (∀ p, changed p → keep p = false) →
    (t'.files.map (·.1)).filter keep = (t.files.map (·.1)).filter keep

section
variable {t t' t'' : FileTree} {p q : Place} {path bytes : Bytes} {changed : Place → Prop}

namespace SameBut

/-- Nothing has changed. -/
theorem refl (changed : Place → Prop) (t : FileTree) : SameBut changed t t :=
  ⟨rfl, rfl, fun _ _ => rfl, fun _ _ => rfl⟩

/-- One change after the other. -/
theorem trans (h : SameBut changed t t') (h' : SameBut changed t' t'') : SameBut changed t t'' where
  folders := h'.folders.trans h.folders
  home := h'.home.trans h.home
  files := fun p hp => (h'.files p hp).trans (h.files p hp)
  listed := fun keep hkeep => (h'.listed keep hkeep).trans (h.listed keep hkeep)

/-- More places may have changed. -/
theorem mono {changed' : Place → Prop} (h : SameBut changed t t')
    (hmono : ∀ p, changed p → changed' p) : SameBut changed' t t' where
  folders := h.folders
  home := h.home
  files := fun p hp => h.files p (mt (hmono p) hp)
  listed := fun keep hkeep => h.listed keep fun p hp => hkeep p (hmono p hp)

/-- Folders stay. -/
theorem isFolder (h : SameBut changed t t') (p : Place) : t'.isFolder p = t.isFolder p := by
  rw [FileTree.isFolder, FileTree.isFolder, h.folders]

/-- Paths lead where they did. -/
theorem resolve (h : SameBut changed t t') : t'.resolve path = .ok p ↔ t.resolve path = .ok p :=
  resolve_congr h.folders h.home

/-- What putting a file at a place changes. -/
theorem put (t : FileTree) (p : Place) (bytes : Bytes) :
    SameBut (· = p) t { t with files := put t.files p bytes } where
  folders := rfl
  home := rfl
  files := by
    intro q hq
    rw [file?, lookup_put, if_neg hq]
    rfl
  listed := by
    intro keep hkeep
    show ((FileTree.put t.files p bytes).map (·.1)).filter keep = _
    induction t.files with
    | nil => simp [FileTree.put, hkeep p rfl]
    | cons head rest ih =>
      rw [FileTree.put]
      split
      · rfl
      · rw [List.map_cons, List.filter_cons, ih, List.map_cons, List.filter_cons]

/-- What taking a file away changes. -/
theorem drop (t : FileTree) (p : Place) :
    SameBut (· = p) t { t with files := t.files.filter (·.1 != p) } where
  folders := rfl
  home := rfl
  files := by
    intro q hq
    rw [file?, lookup_filter_ne, if_neg hq]
    rfl
  listed := by
    intro keep hkeep
    show ((t.files.filter (·.1 != p)).map (·.1)).filter keep = _
    rw [← Function.comp_def (· != p), ← List.filter_map, List.filter_filter]
    refine List.filter_congr fun q _ => ?_
    by_cases hq : q = p <;> simp [hq, hkeep]

end SameBut

/-! ## Reading and writing -/

/-- What it takes to read a file. -/
theorem read_eq_ok : t.read path = .ok bytes ↔
    ∃ p, t.resolve path = .ok p ∧ t.file? p = some bytes := by
  unfold read find
  cases t.resolve path with
  | error cause => simp
  | ok p =>
    simp only [Except.ok.injEq, exists_eq_left']
    cases hfile : t.file? p with
    | none =>
      by_cases hfolder : t.isFolder p = true <;> simp [hfolder, hfile]
    | some old => simp [hfile]

/-- Loading succeeds where the bytes of the file are a program. -/
theorem loadProgram_eq_ok {host : Host} {program : Program} :
    host.loadProgram t path = .ok program ↔
      ∃ bytes, t.read path = .ok bytes ∧ Source.loadBy host.read bytes = .ok program := by
  unfold Host.loadProgram
  cases t.read path with
  | error e => simp
  | ok bytes =>
    simp only [Except.ok.injEq, exists_eq_left']
    cases Source.loadBy host.read bytes <;> simp

/-- A file that was taken away is not found, unless there is a folder. -/
theorem read_of_none (h : t.resolve path = .ok p) (hfile : t.file? p = none)
    (hfolder : t.isFolder p = false) : t.read path = .error ⟨"open", path, .notFound⟩ := by
  simp [read, find, h, hfile, hfolder]

/-- A file can be written where there is no folder. -/
theorem write_of_resolve (hpath : path.getLast? ≠ some slash) (h : t.resolve path = .ok p)
    (hfolder : t.isFolder p = false) (bytes : Bytes) :
    t.write path bytes = .ok { t with files := put t.files p bytes } := by
  have htarget : t.target path = .ok p := by
    rw [target, if_neg (by simp [hpath]), h]
    simp [bind, Except.bind, hfolder]
  rw [write, htarget]

/-- A file can be written where there is no folder, by a path without a slash at the end. -/
theorem of_target (h : t.target path = .ok p) :
    path.getLast? ≠ some slash ∧ t.resolve path = .ok p ∧ t.isFolder p = false := by
  unfold target at h
  split at h
  · obtain ⟨_, -, h⟩ := bind_eq_ok.1 h
    cases h
  · next hslash =>
    obtain ⟨q, hq, h⟩ := bind_eq_ok.1 h
    split at h
    · cases h
    · next hfolder =>
      cases h
      have hlength := (resolve_eq_ok.1 hq).1
      exact ⟨fun hlast => hslash (by simp [hlast, hlength]), hq, by simpa using hfolder⟩

/-- What it takes to write a file, and what it does. -/
theorem of_write (h : t.write path bytes = .ok t') :
    path.getLast? ≠ some slash ∧ ∃ p, t.resolve path = .ok p ∧ t.isFolder p = false ∧
      t' = { t with files := put t.files p bytes } := by
  unfold write at h
  split at h
  · cases h
  · next p hp =>
    cases h
    obtain ⟨hlast, hresolve, hfolder⟩ := of_target hp
    exact ⟨hlast, p, hresolve, hfolder, rfl⟩

end

/-! ## Listing -/

/-- Texts are compared byte by byte. -/
theorem bytesLe_iff {a b : Bytes} : bytesLe a b = true ↔ a ≤ b := by
  induction a generalizing b with
  | nil => simp [bytesLe]
  | cons x xs ih =>
    cases b with
    | nil => simp [bytesLe]
    | cons y ys => simp [bytesLe, List.cons_le_cons_iff, ih]

/-- Folders are searched in the order of the lists of names. -/
theorem placeLe_iff {p q : Place} : placeLe p q = true ↔ p ≤ q := by
  induction p generalizing q with
  | nil => simp [placeLe]
  | cons a as ih =>
    cases q with
    | nil => simp [placeLe]
    | cons b bs =>
      rw [placeLe, List.cons_le_cons_iff]
      split
      · next hab => simp [hab, ih]
      · next hab => simp [hab, bytesLe_iff, List.le_iff_lt_or_eq]

/-- The order in which some places are listed depends on nothing but these places. -/
theorem filter_mergeSort_congr {l l' : List Place} {keep : Place → Bool}
    (h : l'.filter keep = l.filter keep) :
    (l'.mergeSort placeLe).filter keep = (l.mergeSort placeLe).filter keep := by
  have hsorted (l : List Place) :
      ((l.mergeSort placeLe).filter keep).Pairwise fun p q => placeLe p q = true := by
    refine List.Pairwise.filter _ (List.pairwise_mergeSort ?_ ?_ l)
    · intro p q r hpq hqr
      exact placeLe_iff.2 (List.le_trans (placeLe_iff.1 hpq) (placeLe_iff.1 hqr))
    · intro p q
      rw [Bool.or_eq_true, placeLe_iff, placeLe_iff]
      exact List.le_total p q
  refine List.Perm.eq_of_pairwise ?_ (hsorted l') (hsorted l) ?_
  · intro p q _ _ hpq hqp
    exact List.le_antisymm (placeLe_iff.1 hpq) (placeLe_iff.1 hqp)
  · have hperm (l : List Place) : ((l.mergeSort placeLe).filter keep).Perm (l.filter keep) :=
      (List.mergeSort_perm ..).filter keep
    exact (hperm l').trans (h ▸ (hperm l).symm)

section
variable {t t' : FileTree} {p q : Place} {path : Bytes} {changed : Place → Prop}

/-- What it takes to find something. -/
theorem find_eq_ok : t.find path = .ok p ↔
    t.resolve path = .ok p ∧ (t.isFolder p = true ∨ (t.file? p).isSome = true) := by
  unfold find
  cases t.resolve path with
  | error cause => simp
  | ok q =>
    simp only [Except.ok.injEq, ← Bool.or_eq_true]
    split
    · next hq =>
      rw [Except.ok.injEq]
      exact ⟨fun he => ⟨he, he ▸ hq⟩, And.left⟩
    · next hq =>
      constructor
      · intro h
        cases h
      · rintro ⟨rfl, h⟩
        exact absurd h hq

/-- Files that are written at places that are not looked for do not change what is found. -/
theorem SameBut.filesBelow {keep : Bytes → Bool} {paths : List Bytes} (h : SameBut changed t t')
    (hchanged : ∀ q, changed q → t.isFolder q = false ∧ (t'.file? q).isSome = true ∧
      ∃ d name, q = d ++ [name] ∧ IsName name ∧ ∀ start, keep (start ++ name) = false)
    (hpaths : t.filesBelow path = .ok paths) :
    ∃ paths', t'.filesBelow path = .ok paths' ∧ paths'.filter keep = paths.filter keep := by
  unfold FileTree.filesBelow at hpaths
  split at hpaths
  · cases hpaths
  · next p hfind =>
    obtain ⟨hresolve, hexists⟩ := find_eq_ok.1 hfind
    have hfile : (t'.file? p).isSome = (t.file? p).isSome := by
      by_cases hp : changed p
      · obtain ⟨hfolder, hsome, -⟩ := hchanged p hp
        rw [hsome, hexists.resolve_left (by simp [hfolder])]
      · rw [h.files p hp]
    have hfind' : t'.find path = .ok p :=
      find_eq_ok.2 ⟨h.resolve.2 hresolve, by rwa [h.isFolder, hfile]⟩
    rw [FileTree.filesBelow, hfind']
    simp only [hfile]
    split at hpaths
    · next hsome =>
      cases hpaths
      exact ⟨[path], if_pos hsome, rfl⟩
    · next hnone =>
      cases hpaths
      have hfolder : t.isFolder p = true := hexists.resolve_right hnone
      refine ⟨_, if_neg hnone, ?_⟩
      let pathOf (q : Place) : Bytes := Path.join path (Bytes.join "/" (q.drop p.length))
      have hfilter (l : List Place) :
          (l.map pathOf).filter keep = (l.filter (keep ∘ pathOf)).map pathOf := List.filter_map
      refine (hfilter _).trans (Eq.trans ?_ (hfilter _).symm)
      refine congrArg _ (filter_mergeSort_congr ?_)
      rw [List.filter_filter, List.filter_filter]
      refine h.listed _ fun q hq => ?_
      obtain ⟨hplain, -, d, name, hname, hisName, hkeep⟩ := hchanged q hq
      by_cases hbelow : p.isPrefixOf q = true
      · obtain ⟨names, rfl⟩ := List.isPrefixOf_iff_prefix.1 hbelow
        have hne : names ≠ [] := by
          rintro rfl
          rw [List.append_nil, hfolder] at hplain
          cases hplain
        obtain ⟨more, last, rfl⟩ := (List.eq_nil_or_concat' names).resolve_left hne
        rw [← List.append_assoc] at hname
        obtain ⟨-, hlast⟩ := List.append_inj' hname rfl
        obtain rfl := List.singleton_inj.1 hlast
        obtain ⟨start, hstart⟩ :=
          Path.exists_join_eq_append (resolve_eq_ok.1 hresolve).2.1 more hisName
        simp [pathOf, hstart, hkeep]
      · simp [hbelow]

end

end FileTree

end QuadAsm.Cli
