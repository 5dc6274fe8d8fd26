import QuadAsm.Cli.Check
import QuadAsm.Proofs.Cli.FileTree
import QuadAsm.Proofs.Parallel
import QuadAsm.Proofs.Quicksort

/-!
# Expected assembly that was updated

A test has its program and its expected assembly in one folder, under one stem (`TestCase.Paired`).
So no assembly is written where a program is, and two tests write to one place only if they have one
program. A run that updates all tests it selects therefore leaves every program as it was, and the
code of each in its expected assembly (`Updated`); it is found and selected as before, and passes.
Main result: `updated_tests_pass`.
-/

namespace QuadAsm.Cli.Check

open Emit
open QuadAsm.Cli.Path (IsName slash dot parts lastPart)
open QuadAsm.Cli.FileTree (SameBut)

/-! ## Tests and their files -/

/-- The expected assembly is beside the program, under the same name. -/
def TestCase.Paired (t : TestCase) : Prop :=
  ∃ stem, t.source = stem ++ sourceEnding ∧ t.expected = stem ++ ".s"

/-- The test of a program file has its assembly beside the program. -/
theorem paired_ofPath {path : Bytes} (h : sourceEnding.isSuffixOf path = true) :
    (TestCase.ofPath path).Paired := by
  obtain ⟨stem, rfl⟩ := List.isSuffixOf_iff_suffix.1 h
  refine ⟨stem, rfl, ?_⟩
  rw [TestCase.ofPath, Path.dropEnding_append]

section
variable {tree : FileTree} {folder : Bytes} {args : List Bytes} {tests selected : List TestCase}

/-- So have all tests that are found. -/
theorem paired_of_discover (h : discover tree folder = .ok tests) : ∀ t ∈ tests, t.Paired := by
  obtain ⟨paths, -, h⟩ := bind_eq_ok.1 h
  cases pure_eq_ok.1 h
  intro t ht
  obtain ⟨path, hpath, rfl⟩ := List.mem_map.1 ((Quicksort.sort_perm _ _).mem_iff.1 ht)
  exact paired_ofPath (List.mem_filter.1 hpath).2

/-- An argument means one of the tests that were found. -/
theorem mem_of_findTest {argument : Bytes} {t : TestCase} (h : findTest tests argument = .ok t) :
    t ∈ tests := by
  simp only [findTest] at h
  split at h
  · next hsome =>
    cases h
    exact List.mem_of_find?_eq_some hsome
  · cases h

/-- Only tests that were found are selected. -/
theorem mem_of_selectTests (h : selectTests tests args = .ok selected) :
    ∀ t ∈ selected, t ∈ tests := by
  intro t ht
  unfold selectTests at h
  split at h
  · cases h
    exact ht
  · obtain ⟨argument, -, hfind⟩ := exists_of_forall₂ (mapM_eq_ok.1 h).flip ht
    exact mem_of_findTest hfind

end

section
variable {tree : FileTree} {t u : TestCase} {p p' q : Place}

/-- A path with an ending leads to a name with that ending. -/
theorem place_of_ending {stem ending : Bytes} {b : UInt8} (hslash : slash ∉ ending)
    (hlast : ending.getLast? = some b) (hb : b ≠ dot) (h : tree.resolve (stem ++ ending) = .ok p) :
    ∃ d, tree.walk (tree.start stem) (parts stem).dropLast = .ok d ∧
      p = d ++ [lastPart stem ++ ending] := by
  have hname : IsName (lastPart stem ++ ending) :=
    Path.isName_append (Path.slash_notMem_lastPart stem) hslash hlast hb
  rw [← FileTree.start_eq (Path.isRooted_append stem hslash)]
  exact FileTree.resolve_name h hname (Path.parts_append stem hslash)

/-- A program is at a name with its ending. -/
theorem place_of_source {stem : Bytes} (h : tree.resolve (stem ++ sourceEnding) = .ok p) :
    ∃ d, tree.walk (tree.start stem) (parts stem).dropLast = .ok d ∧
      p = d ++ [lastPart stem ++ sourceEnding] :=
  place_of_ending (by decide) rfl (by decide) h

/-- Expected assembly is at a name with its ending. -/
theorem place_of_expected {stem : Bytes} (h : tree.resolve (stem ++ ".s") = .ok p) :
    ∃ d, tree.walk (tree.start stem) (parts stem).dropLast = .ok d ∧
      p = d ++ [lastPart stem ++ ".s"] :=
  place_of_ending (by decide) rfl (by decide) h

/-- The endings of programs and of assembly differ in the last byte. -/
theorem source_ne_append_s {start start' : Bytes} : start ++ sourceEnding ≠ start' ++ ".s" := by
  intro h
  have hbyte := congrArg List.getLast? h
  rw [List.getLast?_append_of_ne_nil _ (by decide), List.getLast?_append_of_ne_nil _ (by decide)]
    at hbyte
  exact absurd hbyte (by decide)

/-- No program is where the assembly of a test is expected. -/
theorem TestCase.Paired.source_ne_expected (ht : t.Paired) (hu : u.Paired)
    (hsource : tree.resolve t.source = .ok p) : tree.resolve u.expected ≠ .ok p := by
  intro hexpected
  obtain ⟨stem, hs, -⟩ := ht
  obtain ⟨stem', -, he⟩ := hu
  obtain ⟨d, -, hp⟩ := place_of_source (hs ▸ hsource)
  obtain ⟨d', -, hp'⟩ := place_of_expected (he ▸ hexpected)
  have hlast := congrArg List.getLast? (hp.symm.trans hp')
  rw [List.getLast?_concat, List.getLast?_concat, Option.some.injEq] at hlast
  exact source_ne_append_s hlast

/-- Expected assembly has a name that is not taken for a program. -/
theorem TestCase.Paired.expected_name (ht : t.Paired)
    (hexpected : tree.resolve t.expected = .ok q) :
    ∃ d name, q = d ++ [name] ∧ IsName name ∧
      ∀ start, sourceEnding.isSuffixOf (start ++ name) = false := by
  obtain ⟨stem, -, he⟩ := ht
  obtain ⟨d, -, rfl⟩ := place_of_expected (he ▸ hexpected)
  refine ⟨d, lastPart stem ++ ".s", rfl,
    Path.isName_append (Path.slash_notMem_lastPart stem) (by decide) rfl (by decide),
    fun start => ?_⟩
  rw [← List.append_assoc, ← Bool.not_eq_true, List.isSuffixOf_iff_suffix]
  rintro ⟨start', hpath⟩
  exact source_ne_append_s hpath

/-- Tests that expect their assembly at one place have their programs at one place. -/
theorem TestCase.Paired.source_eq (ht : t.Paired) (hu : u.Paired)
    (hexpected : tree.resolve t.expected = .ok q) (hexpected' : tree.resolve u.expected = .ok q)
    (hsource : tree.resolve t.source = .ok p) (hsource' : tree.resolve u.source = .ok p') :
    p = p' := by
  obtain ⟨stem, hs, he⟩ := ht
  obtain ⟨stem', hs', he'⟩ := hu
  obtain ⟨d, hd, rfl⟩ := place_of_source (hs ▸ hsource)
  obtain ⟨d₂, hd₂, rfl⟩ := place_of_source (hs' ▸ hsource')
  obtain ⟨d₃, hd₃, hq⟩ := place_of_expected (he ▸ hexpected)
  obtain ⟨d₄, hd₄, hq'⟩ := place_of_expected (he' ▸ hexpected')
  cases hd.symm.trans hd₃
  cases hd₂.symm.trans hd₄
  obtain ⟨rfl, hname⟩ := List.append_inj' (hq.symm.trans hq') rfl
  rw [List.append_cancel_right (List.singleton_inj.1 hname)]

end

/-! ## Code of tests -/

section
variable (host : Host)

/-- The code of the program of a test, whose file is at a place. -/
def HasCode (tree : FileTree) (t : TestCase) (place : Place) (code : Bytes) : Prop :=
  tree.resolve t.source = .ok place ∧ ∃ bytes p, tree.file? place = some bytes ∧
    Source.loadBy host.read bytes = .ok p ∧ p.compile {} = .ok code

end

/-- What is made of a program without a stop is its code. -/
theorem assembly_eq_iff {options : Options} (words : Bytes) {text : Bytes} {p : Program} :
    (Made.assembly .x86Linux options words p).stop = none ∧
      (Made.assembly .x86Linux options words p).text = text ↔ p.compile options = .ok text := by
  constructor
  · rintro ⟨hstop, rfl⟩
    refine Program.compile_of_on_generate ?_
    unfold Made.assembly at hstop ⊢
    split at hstop
    · next hgenerate => exact hgenerate
    · cases hstop
    · cases hstop
  · intro h
    have hgenerate : (Target.x86Linux.generate options
        (Group.inOrder p.procedures.length) p).on [] = (.ok (), [] ++ text) :=
      Program.on_generate_of_compile h rfl (Group.complete_inOrder _) []
    rw [Made.assembly, hgenerate]
    exact ⟨rfl, rfl⟩

section
variable {host : Host} {tree tree' : FileTree} {t u : TestCase} {place : Place}
  {code code' : Bytes}

/-- A test is compiled to the code of its program, side by side or not. -/
theorem TestCase.compile_eq_ok (j : Bool) :
    t.compile host { parallel := j } tree = .ok code ↔ ∃ place, HasCode host tree t place code := by
  constructor
  · intro h
    unfold TestCase.compile at h
    split at h
    · cases h
    · next p hprogram =>
      obtain ⟨bytes, hread, hload⟩ := FileTree.loadProgram_eq_ok.1 hprogram
      obtain ⟨place, hplace, hfile⟩ := FileTree.read_eq_ok.1 hread
      have hcode : p.compile { parallel := j } = .ok code := by
        refine (assembly_eq_iff []).1 ?_
        simp only at h
        split at h
        · next hstop => exact ⟨hstop, Except.ok.inj h⟩
        · cases h
      exact ⟨place, hplace, bytes, p, hfile, hload, Program.compile_of_compile hcode rfl⟩
  · rintro ⟨place, hplace, bytes, p, hfile, hload, hcode⟩
    have hread := FileTree.read_eq_ok.2 ⟨place, hplace, hfile⟩
    have hcode : p.compile { parallel := j } = .ok code := Program.compile_of_compile hcode rfl
    obtain ⟨hstop, htext⟩ := (assembly_eq_iff []).2 hcode
    rw [TestCase.compile, FileTree.loadProgram_eq_ok.2 ⟨bytes, hread, hload⟩]
    simp only [hstop, htext]

/-- Tests with one program have one code. -/
theorem HasCode.unique (h : HasCode host tree t place code)
    (h' : HasCode host tree u place code') : code = code' := by
  obtain ⟨-, bytes, p, hfile, hload, hcode⟩ := h
  obtain ⟨-, bytes', p', hfile', hload', hcode'⟩ := h'
  cases hfile.symm.trans hfile'
  cases hload.symm.trans hload'
  exact Except.ok.inj (hcode.symm.trans hcode')

/-- The code of a test stays when other files are written. -/
theorem HasCode.of_sameBut {changed : Place → Prop} (h : SameBut changed tree tree')
    (hplace : ¬ changed place) :
    HasCode host tree' t place code ↔ HasCode host tree t place code := by
  rw [HasCode, HasCode, h.resolve, h.files place hplace]

end

/-! ## Runs -/

/-- Keeps the assembly. -/
def updating (j : Bool) : Mode := ⟨true, false, { parallel := j }⟩

/-- Compares the assembly. -/
def checking (j : Bool) : Mode := ⟨false, false, { parallel := j }⟩

section
variable {host : Host} {mode : Mode} {tree after : FileTree} {t : TestCase} {place : Place}
  {code : Bytes} {j : Bool} {tests : List TestCase} {results : List (TestCase × Verdict)}

/-- An update writes the code of the program to the expected assembly. -/
theorem of_run_updating (h : t.run host (updating j) tree = .ok (.updated, after)) :
    ∃ place q code, HasCode host tree t place code ∧ tree.resolve t.expected = .ok q ∧
      tree.isFolder q = false ∧ SameBut (· = q) tree after ∧ after.file? q = some code := by
  unfold TestCase.run at h
  split at h
  · cases h
  · cases h
  · next code hcode =>
    obtain ⟨place, hcode⟩ := (TestCase.compile_eq_ok j).1 hcode
    have h : t.judge true code tree = (.updated, after) := Except.ok.inj h
    rw [TestCase.judge, if_pos rfl] at h
    split at h
    · cases h
    · next written hwrite =>
      cases h
      obtain ⟨-, q, hq, hfolder, rfl⟩ := FileTree.of_write hwrite
      exact ⟨place, q, code, hcode, hq, hfolder, SameBut.put tree q code,
        FileTree.file?_put ..⟩

/-- A test whose expected assembly is the code of its program passes. -/
theorem run_checking (hcode : HasCode host tree t place code)
    (hread : tree.read t.expected = .ok code) (j : Bool) :
    t.run host (checking j) tree = .ok (.passed, tree) := by
  have hcompile := (TestCase.compile_eq_ok j).2 ⟨place, hcode⟩
  simp [TestCase.run, checking, hcompile, TestCase.judge, hread]

/-- A run of tests that comes to its end comes to the end of the first test. -/
theorem of_runAll_cons {rest : List TestCase}
    (h : runAll host mode tree (t :: rest) = { results, tree := after }) :
    ∃ verdict next others, t.run host mode tree = .ok (verdict, next) ∧
      runAll host mode next rest = { results := others, tree := after } ∧
      results = (t, verdict) :: others := by
  rw [runAll] at h
  split at h
  · cases h
  · next verdict next hrun =>
    rcases hothers : runAll host mode next rest with ⟨others, crash, last⟩
    rw [hothers] at h
    cases h
    exact ⟨verdict, next, others, hrun, hothers, rfl⟩

/-- There is a verdict on each test, in their order. -/
theorem map_fst_of_runAll (h : runAll host mode tree tests = { results, tree := after }) :
    results.map (·.1) = tests := by
  induction tests generalizing tree results with
  | nil =>
    cases h
    rfl
  | cons t rest ih =>
    obtain ⟨verdict, next, others, -, hrest, rfl⟩ := of_runAll_cons h
    rw [List.map_cons, ih hrest]

end

/-- A tree in which the expected assembly of some tests was written. -/
structure Updated (host : Host) (tree after : FileTree) (tests : List TestCase) : Prop where
  same : SameBut (fun q => ∃ t ∈ tests, tree.resolve t.expected = .ok q) tree after
  written : ∀ t ∈ tests, ∃ place q code, HasCode host tree t place code ∧
    tree.resolve t.expected = .ok q ∧ tree.isFolder q = false ∧ after.file? q = some code

section
variable {host : Host} {tree after : FileTree} {tests : List TestCase}
  {results : List (TestCase × Verdict)} {j : Bool}

/-- One more test. What was written for it is not written over, unless for a test with the same
program. -/
theorem Updated.cons {next : FileTree} {t : TestCase} {rest : List TestCase}
    (hpaired : ∀ u ∈ t :: rest, u.Paired)
    (hrun : t.run host (updating j) tree = .ok (.updated, next))
    (hrest : Updated host next after rest) : Updated host tree after (t :: rest) := by
  obtain ⟨place, q, code, hcode, hq, hfolder, hput, hfile⟩ := of_run_updating hrun
  obtain ⟨ht, hpaired⟩ := List.forall_mem_cons.1 hpaired
  have hbefore {u : TestCase} {place' : Place} {code' : Bytes} (hu : u ∈ rest)
      (hcode' : HasCode host next u place' code') : HasCode host tree u place' code' := by
    refine (HasCode.of_sameBut hput fun he => ?_).1 hcode'
    exact (hpaired u hu).source_ne_expected ht (hput.resolve.1 hcode'.1) (he ▸ hq)
  refine ⟨(hput.mono ?_).trans (hrest.same.mono ?_), List.forall_mem_cons.2 ⟨?_, ?_⟩⟩
  · rintro p rfl
    exact ⟨t, List.mem_cons_self, hq⟩
  · rintro p ⟨u, hu, hp⟩
    exact ⟨u, List.mem_cons_of_mem t hu, hput.resolve.1 hp⟩
  · refine ⟨place, q, code, hcode, hq, hfolder, ?_⟩
    by_cases hlater : ∃ u ∈ rest, next.resolve u.expected = .ok q
    · obtain ⟨u, hu, hq'⟩ := hlater
      obtain ⟨place', _, code', hcode', hq'', -, hfile'⟩ := hrest.written u hu
      cases hq'.symm.trans hq''
      have hcode' := hbefore hu hcode'
      obtain rfl := ht.source_eq (hpaired u hu) hq (hput.resolve.1 hq') hcode.1 hcode'.1
      rw [hfile', hcode.unique hcode']
    · rw [hrest.same.files q hlater, hfile]
  · intro u hu
    obtain ⟨place', q', code', hcode', hq', hfolder', hfile'⟩ := hrest.written u hu
    exact ⟨place', q', code', hbefore hu hcode', hput.resolve.1 hq',
      (hput.isFolder q').symm.trans hfolder', hfile'⟩

/-- A run in which all tests are updated writes the expected assembly of these tests, and nothing
else. -/
theorem updated_of_runAll (hpaired : ∀ t ∈ tests, t.Paired)
    (h : runAll host (updating j) tree tests = { results, tree := after })
    (hupdated : ∀ r ∈ results, r.2 = .updated) : Updated host tree after tests := by
  induction tests generalizing tree results with
  | nil =>
    cases h
    exact ⟨SameBut.refl _ _, by simp⟩
  | cons t rest ih =>
    obtain ⟨verdict, next, others, hrun, hrest, rfl⟩ := of_runAll_cons h
    obtain ⟨rfl, hothers⟩ := List.forall_mem_cons.1 hupdated
    obtain ⟨-, hrpaired⟩ := List.forall_mem_cons.1 hpaired
    exact .cons hpaired hrun (ih hrpaired hrest hothers)

namespace Updated

variable (h : Updated host tree after tests) (hpaired : ∀ t ∈ tests, t.Paired)
include h hpaired

/-- The tests have their code after an update as before. -/
theorem hasCode {t : TestCase} (ht : t ∈ tests) :
    ∃ place code, HasCode host tree t place code ∧ HasCode host after t place code ∧
      after.read t.expected = .ok code := by
  obtain ⟨place, q, code, hcode, hq, -, hfile⟩ := h.written t ht
  refine ⟨place, code, hcode, (HasCode.of_sameBut h.same ?_).2 hcode,
    FileTree.read_eq_ok.2 ⟨q, h.same.resolve.2 hq, hfile⟩⟩
  rintro ⟨u, hu, hplace⟩
  exact (hpaired t ht).source_ne_expected (hpaired u hu) hcode.1 hplace

/-- All tests pass after an update. -/
theorem runAll_checking (j : Bool) {chosen : List TestCase}
    (hchosen : chosen ⊆ tests) :
    runAll host (checking j) after chosen
      = { results := chosen.map fun t => (t, .passed), tree := after } := by
  induction chosen with
  | nil => rfl
  | cons t rest ih =>
    obtain ⟨ht, hrest⟩ := List.cons_subset.1 hchosen
    obtain ⟨place, code, -, hcode, hread⟩ := h.hasCode hpaired ht
    simp only [runAll, run_checking hcode hread j, ih hrest, List.map_cons]

/-- The tests that are found after an update are those that were found before. -/
theorem discover_eq {folder : Bytes} {found : List TestCase}
    (hfound : discover tree folder = .ok found) : discover after folder = .ok found := by
  obtain ⟨paths, hpaths, hfound⟩ := bind_eq_ok.1 hfound
  cases pure_eq_ok.1 hfound
  obtain ⟨paths', hpaths', hsame⟩ :
      ∃ paths', after.filesBelow folder = .ok paths' ∧
        paths'.filter (fun p => sourceEnding.isSuffixOf p)
          = paths.filter (fun p => sourceEnding.isSuffixOf p) := by
    refine h.same.filesBelow (fun q hq => ?_) hpaths
    obtain ⟨t, ht, hq⟩ := hq
    obtain ⟨_, _, _, -, hq', hfolder, hfile⟩ := h.written t ht
    cases hq.symm.trans hq'
    exact ⟨hfolder, by rw [hfile]; rfl, (hpaired t ht).expected_name hq⟩
  rw [discover, hpaths', ok_bind, hsame]
  rfl

end Updated

end

/-! ## Reports -/

/-- The verdicts of a run that comes to its end, and the files after it. -/
inductive Reports (host : Host) (mode : Mode) (folder : Bytes) (args : List Bytes)
    (tree : FileTree) : List (TestCase × Verdict) → FileTree → Prop where
  | nothing : discover tree folder = .ok [] → Reports host mode folder args tree [] tree
  | ran {tests selected : List TestCase} {results : List (TestCase × Verdict)} {after : FileTree} :
      discover tree folder = .ok tests → tests ≠ [] → selectTests tests args = .ok selected →
      runAll host mode tree selected = { results, tree := after } →
      Reports host mode folder args tree results after

/-- What a run that comes to its end leaves behind. -/
def reported (host : Host) (folder : Bytes) (results : List (TestCase × Verdict))
    (tree : FileTree) : Outcome :=
  if results.isEmpty then { stdout := "No tests found in " ++ folder ++ "\n", tree }
  else Report.outcome { results, tree } host

section
variable (host : Host) (folder : Bytes) (tree : FileTree)

/-- The report changes no files. -/
theorem tree_reported (results : List (TestCase × Verdict)) :
    (reported host folder results tree).tree = tree := by
  unfold reported
  split <;> rfl

/-- A run in which no test fails ends well. -/
theorem exit_reported {results : List (TestCase × Verdict)}
    (h : ∀ r ∈ results, r.2.isPass = true) : (reported host folder results tree).exit = 0 := by
  unfold reported
  split
  · rfl
  · exact if_pos (List.all_eq_true.2 h)

end

section
variable {host : Host} {mode : Mode} {folder : Bytes} {args : List Bytes} {tree after : FileTree}
  {tests selected : List TestCase} {results : List (TestCase × Verdict)}

/-- If there are tests, some are selected. -/
theorem selected_ne_nil (hne : tests ≠ []) (h : selectTests tests args = .ok selected) :
    selected ≠ [] := by
  unfold selectTests at h
  split at h
  · cases h
    exact hne
  · next hargs =>
    rintro rfl
    cases args with
    | nil => exact hargs rfl
    | cons => cases mapM_eq_ok.1 h

/-- A run shows what it reports. -/
theorem Reports.run_eq (h : Reports host mode folder args tree results after) :
    run host mode folder args tree = reported host folder results after := by
  cases h with
  | nothing hfound => simp [run, hfound, reported]
  | @ran tests selected _ _ hfound hne hselected hrun =>
    have hresults : results ≠ [] := by
      rintro rfl
      exact selected_ne_nil hne hselected (map_fst_of_runAll hrun).symm
    have hsome : results.isEmpty = false := by simpa using hresults
    cases tests with
    | nil => exact absurd rfl hne
    | cons first others =>
      rw [run, hfound]
      simp only [hselected, hrun, reported, hsome]
      rfl

/-- The tests of a run in which all tests were updated. -/
theorem Reports.updated {j : Bool} (h : Reports host (updating j) folder args tree results after)
    (hupdated : ∀ r ∈ results, r.2 = .updated) :
    (∀ t ∈ results.map (·.1), t.Paired) ∧ Updated host tree after (results.map (·.1)) := by
  cases h with
  | nothing => exact ⟨by simp, SameBut.refl _ _, by simp⟩
  | ran hfound _ hselected hrun =>
    have hpaired := fun t ht => paired_of_discover hfound t (mem_of_selectTests hselected t ht)
    rw [map_fst_of_runAll hrun]
    exact ⟨hpaired, updated_of_runAll hpaired hrun hupdated⟩

/-- The same tests run after an update, and all of them pass. -/
theorem Reports.checked {j : Bool} (h : Reports host (updating j) folder args tree results after)
    (hupdated : ∀ r ∈ results, r.2 = .updated) (j' : Bool) :
    Reports host (checking j') folder args after (results.map fun r => (r.1, .passed)) after := by
  obtain ⟨hpaired, hafter⟩ := h.updated hupdated
  cases h with
  | nothing hfound => exact .nothing (hafter.discover_eq hpaired hfound)
  | ran hfound hne hselected hrun =>
    have hpassed := hafter.runAll_checking hpaired j' (List.Subset.refl _)
    rw [List.map_map] at hpassed
    rw [← map_fst_of_runAll hrun] at hselected
    exact .ran (hafter.discover_eq hpaired hfound) hne hselected hpassed

end

/-- A command that comes to the end of its tests shows what they report. -/
theorem Reports.command_eq {host : Host} {argv args : List Bytes} {settings : Settings}
    {mode : Mode} {tree after : FileTree} {results : List (TestCase × Verdict)} {folder : Bytes}
    (hparse : Flag.parse flags [] argv = .ok (settings, args))
    (hfolder : settings.text "dir" standardFolder = folder)
    (hmode : ⟨settings.isOn "update", settings.isOn "assemble",
      { parallel := settings.isOn "j" }⟩ = mode)
    (h : Reports host mode folder args tree results after) :
    commandOn host argv tree = reported host folder results after := by
  rw [← h.run_eq, commandOn, hparse, ← hmode, ← hfolder]

/-- After a run in which all selected tests were updated, no file has changed but the expected
assembly of these tests, which is what is written for their programs by every schedule. A run with
the same selection then reports that all of them pass. -/
theorem updated_tests_pass (host : Host) {argv args : List Bytes} {settings : Settings}
    {folder : Bytes} {tree after : FileTree} {results : List (TestCase × Verdict)}
    (hparse : Flag.parse flags [] argv = .ok (settings, args))
    (hfolder : settings.text "dir" standardFolder = folder)
    (hupdate : settings.isOn "update" = true) (hassemble : settings.isOn "assemble" = false)
    (hreports : Reports host (updating (settings.isOn "j")) folder args tree results after)
    (hupdated : ∀ r ∈ results, r.2 = .updated) :
    (commandOn host argv tree).exit = 0 ∧ (commandOn host argv tree).tree = after ∧
      after.folders = tree.folders ∧
      (∀ q, after.file? q ≠ tree.file? q → ∃ r ∈ results, tree.resolve r.1.expected = .ok q) ∧
      (∀ r ∈ results, ∃ stem p code,
        r.1.source = stem ++ ".yaml" ∧ r.1.expected = stem ++ ".s" ∧
        host.loadProgram tree r.1.source = .ok p ∧ after.read r.1.expected = .ok code ∧
        ∀ j schedule, Group.Complete p.procedures.length schedule →
          (Target.x86Linux.generate { parallel := j } schedule p).on [] = (.ok (), code)) ∧
      ∀ argv' settings', Flag.parse flags [] argv' = .ok (settings', args) →
        settings'.text "dir" standardFolder = folder →
        settings'.isOn "update" = false → settings'.isOn "assemble" = false →
        Reports host (checking (settings'.isOn "j")) folder args after
            (results.map fun r => (r.1, .passed)) after ∧
          commandOn host argv' after
            = reported host folder (results.map fun r => (r.1, .passed)) after ∧
          (commandOn host argv' after).exit = 0 ∧ (commandOn host argv' after).tree = after := by
  obtain ⟨hpaired, hafter⟩ := hreports.updated hupdated
  have hcommand : commandOn host argv tree = reported host folder results after :=
    hreports.command_eq hparse hfolder (by rw [hupdate, hassemble]; rfl)
  refine ⟨?_, ?_, hafter.same.folders, ?_, ?_, ?_⟩
  · rw [hcommand]
    exact exit_reported host folder after fun r hr => by rw [hupdated r hr]; rfl
  · rw [hcommand, tree_reported]
  · intro q hq
    by_contra hnone
    refine hq (hafter.same.files q ?_)
    rintro ⟨t, ht, hresolve⟩
    obtain ⟨r, hr, rfl⟩ := List.mem_map.1 ht
    exact hnone ⟨r, hr, hresolve⟩
  · intro r hr
    have ht : r.1 ∈ results.map (·.1) := List.mem_map_of_mem hr
    obtain ⟨stem, hsource, hexpected⟩ := hpaired _ ht
    obtain ⟨place, code, ⟨hplace, bytes, p, hfile, hload, hcode⟩, -, hread⟩ :=
      hafter.hasCode hpaired ht
    have hprogram := FileTree.loadProgram_eq_ok.2
      ⟨bytes, FileTree.read_eq_ok.2 ⟨place, hplace, hfile⟩, hload⟩
    refine ⟨stem, p, code, hsource, hexpected, hprogram, hread, fun j schedule hschedule => ?_⟩
    exact Program.on_generate_of_compile hcode (by rfl) hschedule []
  · intro argv' settings' hparse' hfolder' hupdate' hassemble'
    have hchecked := hreports.checked hupdated (settings'.isOn "j")
    have hcommand' := hchecked.command_eq hparse' hfolder' (by rw [hupdate', hassemble']; rfl)
    refine ⟨hchecked, hcommand', ?_, ?_⟩
    · rw [hcommand']
      refine exit_reported host folder after fun r hr => ?_
      obtain ⟨r', -, rfl⟩ := List.mem_map.1 hr
      rfl
    · rw [hcommand', tree_reported]

/-- Two programs, one of them with assembly that is no longer right. -/
def twoPrograms : FileTree :=
  .ofFiles [("tests/f.yaml", "procedures:\n- name: f\n"), ("tests/f.s", "f:\n"),
    ("tests/more/empty.yaml", [])]

/-- The tests of the two programs. -/
def twoTests : List TestCase :=
  [⟨"empty", "tests/more/empty.yaml", "tests/more/empty.s"⟩, ⟨"f", "tests/f.yaml", "tests/f.s"⟩]

/-- The two tests pass after an update. -/
theorem twoTests_pass :
    discover twoPrograms "tests" = .ok twoTests ∧
      (∀ r ∈ (runAll {} (updating true) twoPrograms twoTests).results, r.2 = .updated) ∧
      let after := (commandOn {} ["-update", "-j", "-dir", "tests"] twoPrograms).tree
      commandOn {} ["-dir", "tests"] after =
        reported {} "tests" (twoTests.map fun t => (t, .passed)) after := by
  have hfound : discover twoPrograms "tests" = .ok twoTests := by cbv
  have hupdated : ∀ r ∈ (runAll {} (updating true) twoPrograms twoTests).results,
      r.2 = .updated := by
    decide +kernel
  refine ⟨hfound, hupdated, ?_⟩
  have hcrash : (runAll {} (updating true) twoPrograms twoTests).crash = none := by decide +kernel
  rcases hrun : runAll {} (updating true) twoPrograms twoTests with ⟨results, crash, after⟩
  rw [hrun] at hupdated hcrash
  cases hcrash
  have hparse : Flag.parse flags [] ["-update", "-j", "-dir", "tests"] =
    .ok ([("dir", "tests"), ("j", "true"), ("update", "true")], []) := by decide
  obtain ⟨-, htree, -, -, -, hpass⟩ := updated_tests_pass {} hparse (by decide) (by decide)
    (by decide) (.ran hfound (by decide) rfl hrun) hupdated
  have hparse' : Flag.parse flags [] ["-dir", "tests"] = .ok ([("dir", "tests")], []) := by decide
  obtain ⟨-, hcommand, -⟩ := hpass _ _ hparse' (by decide) (by decide) (by decide)
  rw [htree]
  show commandOn {} ["-dir", "tests"] after
    = reported {} "tests" (twoTests.map fun t => (t, .passed)) after
  rw [hcommand, ← map_fst_of_runAll hrun, List.map_map]
  rfl

end QuadAsm.Cli.Check
