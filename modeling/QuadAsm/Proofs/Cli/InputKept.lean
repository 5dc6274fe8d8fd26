import QuadAsm.Cli.Build
import QuadAsm.Cli.Compile
import QuadAsm.Proofs.Cli.FileTree

/-!
# What becomes of the input file

Without a name for the output, the compiler command and the first step of a build derive one from
the input: the assembly goes to a name in the folder of the input (`Beside`). That file is emptied,
then filled or taken away, and nothing else changes (`Delivered`). So the input is kept as it was,
unless the derived name is its own. The compiler command replaces the extension of the input, which
gives its own name back if that is `.s` already. A build drops two extensions and cleans the path,
so it writes onto the input if the rest of the name has no further dot (`Build.OntoItself`). Main
result: `input_kept_unless_output_has_its_name`.
-/

namespace QuadAsm.Cli

open QuadAsm.Cli.Path (IsName slash dot parts lastPart beforeLastPart extension)

/-! ## Files that are written -/

namespace FileTree

/-- No file is where a folder is. -/
def Sound (t : FileTree) : Prop := ∀ p, t.isFolder p = true → t.file? p = none

/-- A tree after an output was written to a path: unless the path cannot be written, the file there
has the contents, or there is none if the output was taken back. -/
inductive Delivered (t : FileTree) (out : Bytes) (contents : Option Bytes) : FileTree → Prop where
  | refused {e : PathError} : t.write out [] = .error e → Delivered t out contents t
  | written {p : Place} {t' : FileTree} : t.resolve out = .ok p → SameBut (· = p) t t' →
      t'.file? p = contents → Delivered t out contents t'

/-- What is read at a path where a file was written or taken away. -/
def readBack (path : Bytes) : Option Bytes → Except PathError Bytes
  | some bytes => .ok bytes
  | none => .error ⟨"open", path, .notFound⟩

section
variable {t t' emptied : FileTree} {out input bytes : Bytes} {contents : Option Bytes}

/-- What was made goes to the file that was emptied for it. -/
theorem delivered_of_write (h : t.write out [] = .ok emptied) (made : Made) :
    t.Delivered out made.contents (made.deliver out emptied) := by
  obtain ⟨-, p, hresolve, -, rfl⟩ := of_write h
  have hemptied := SameBut.put t p []
  have hresolve' := hemptied.resolve.2 hresolve
  unfold Made.deliver
  cases hcontents : made.contents with
  | some text =>
    simp only [fill, hresolve']
    exact .written hresolve (hemptied.trans (SameBut.put _ p text))
      (file?_put { t with files := put t.files p [] } p text)
  | none =>
    simp only [remove, hresolve']
    refine .written hresolve (hemptied.trans (SameBut.drop _ p)) ?_
    rw [file?, lookup_filter_ne, if_pos rfl]

/-- A file at another place is kept. -/
theorem Delivered.kept (h : t.Delivered out contents t') (hread : t.read input = .ok bytes)
    (hplaces : ∀ p, t.resolve input = .ok p → t.resolve out ≠ .ok p) :
    t'.read input = .ok bytes := by
  cases h with
  | refused => exact hread
  | @written p _ hout hsame _ =>
    obtain ⟨q, hinput, hfile⟩ := read_eq_ok.1 hread
    have hne : q ≠ p := fun he => hplaces q hinput (he ▸ hout)
    exact read_eq_ok.2 ⟨q, hsame.resolve.2 hinput, (hsame.files q hne).trans hfile⟩

/-- A file at the same place is lost. -/
theorem Delivered.lost (h : t.Delivered out contents t') (hread : t.read input = .ok bytes)
    (hsound : t.Sound) (hplaces : ∀ p, t.resolve input = .ok p → t.resolve out = .ok p)
    (hlast : out.getLast? ≠ some slash) : t'.read input = readBack input contents := by
  obtain ⟨p, hinput, hfile⟩ := read_eq_ok.1 hread
  have hout := hplaces p hinput
  have hfolder : t.isFolder p = false := by
    rw [← Bool.not_eq_true]
    intro hfolder
    rw [hsound p hfolder] at hfile
    cases hfile
  cases h with
  | refused hrefused =>
    rw [write_of_resolve hlast hout hfolder] at hrefused
    cases hrefused
  | written hout' hsame hcontents =>
    cases hout.symm.trans hout'
    have hinput' := hsame.resolve.2 hinput
    cases contents with
    | some text => exact read_eq_ok.2 ⟨p, hinput', hcontents⟩
    | none => exact read_of_none hinput' hcontents ((hsame.isFolder p).trans hfolder)

/-- A path to a name in the folder where the input is. -/
def Beside (t : FileTree) (input out name : Bytes) : Prop :=
  ∀ q, t.resolve out = .ok q →
    ∃ d, t.walk (t.start input) (parts input).dropLast = .ok d ∧ q = d ++ [name]

/-- A path to another name in the folder of the input leads to another place. -/
theorem Beside.resolve_ne {name : Bytes} (h : t.Beside input out name)
    (hname : name ≠ lastPart input) (p : Place) (hinput : t.resolve input = .ok p) :
    t.resolve out ≠ .ok p := by
  intro hout
  obtain ⟨d, hd, rfl⟩ := h p hout
  obtain ⟨d', hd', -, hstep⟩ := step_of_resolve hinput
  cases hd.symm.trans hd'
  exact hname hstep.eq_of_append.symm

end

end FileTree

/-- A name that is made with the ending of assembly files. -/
theorem isName_assembly {stem : Bytes} (h : slash ∉ stem) : IsName (stem ++ ".s") :=
  Path.isName_append h (by decide) rfl (by decide)

/-! ## The compiler command -/

namespace Compile

section
variable {r : Request} {host : Host} {tree : FileTree} {p : Program}

/-- The end of the command changes no files. -/
theorem tree_ended (made : Made) (stdout log : Bytes) (tree : FileTree) :
    (ended made stdout log tree).tree = tree := by
  unfold ended
  split <;> rfl

/-- What is made goes to the output file. -/
theorem delivered_run {product : Product} (hout : r.output = [])
    (hload : host.loadProgram tree r.input = .ok p)
    (hproduct : Product.ofName r.product = .ok product) :
    tree.Delivered r.outputFile (product.make r.options p).contents (r.run host tree).tree := by
  have hterminal : (r.output == "-") = false := by rw [hout]; rfl
  simp only [Request.run, hload, hproduct, hterminal]
  cases hwrite : tree.write r.outputFile [] with
  | error e => exact .refused hwrite
  | ok emptied =>
    have hdelivered := FileTree.delivered_of_write hwrite (product.make r.options p)
    simpa [tree_ended] using hdelivered

/-- Without a name for the output, the extension of the input is replaced. -/
theorem outputFile_eq (hout : r.output = []) :
    r.outputFile = Path.withoutExtension r.input ++ ".s" := by
  rw [Request.outputFile, hout]
  rfl

/-- Without a product nothing is written. -/
theorem tree_run_of_error {e : Emit.TargetError} (hload : host.loadProgram tree r.input = .ok p)
    (hproduct : Product.ofName r.product = .error e) : (r.run host tree).tree = tree := by
  simp only [Request.run, hload, hproduct]
  rfl

end

/-- The assembly goes beside the input, to its name with another extension. -/
theorem beside_withoutExtension (t : FileTree) (input : Bytes) :
    ∃ name, t.Beside input (Path.withoutExtension input ++ ".s") name ∧
      (name = lastPart input ↔ extension input = ".s") := by
  obtain ⟨stem, hstem, hlast, hwithout⟩ := Path.exists_stem input
  have hname := isName_assembly hstem
  refine ⟨stem ++ ".s", fun q hq => ?_, ?_⟩
  · rw [hwithout, List.append_assoc] at hq
    rw [← FileTree.start_eq (Path.isRooted_beforeLastPart_append input hname.slash_notMem)]
    exact FileTree.resolve_name hq hname
      (Path.parts_beforeLastPart_append input hname.slash_notMem)
  · rw [hlast, List.append_cancel_left_eq, eq_comm]

/-- An input with the extension of assembly files gives its own name. -/
theorem withoutExtension_append {input : Bytes} (h : extension input = ".s") :
    Path.withoutExtension input ++ ".s" = input := by
  obtain ⟨stem, -, hlast, hwithout⟩ := Path.exists_stem input
  rw [hwithout, List.append_assoc, ← h, ← hlast, Path.beforeLastPart_append_lastPart]

section
variable {r : Request} {host : Host} {tree : FileTree} {p : Program} {bytes : Bytes}
  (hout : r.output = []) (hread : tree.read r.input = .ok bytes)
  (hload : host.loadProgram tree r.input = .ok p)
include hout hread hload

/-- An input with another extension is kept. -/
theorem read_run_of_extension_ne (h : extension r.input ≠ ".s") :
    (r.run host tree).tree.read r.input = .ok bytes := by
  cases hproduct : Product.ofName r.product with
  | error e => rwa [tree_run_of_error hload hproduct]
  | ok product =>
    obtain ⟨name, hbeside, hname⟩ := beside_withoutExtension tree r.input
    have hdelivered := delivered_run hout hload hproduct
    rw [outputFile_eq hout] at hdelivered
    exact hdelivered.kept hread (hbeside.resolve_ne (mt hname.1 h))

/-- An input with the extension of assembly files is written over or taken away. -/
theorem read_run_of_extension_eq {product : Product} (h : extension r.input = ".s")
    (hsound : tree.Sound) (hproduct : Product.ofName r.product = .ok product) :
    (r.run host tree).tree.read r.input =
      FileTree.readBack r.input (product.make r.options p).contents := by
  have hdelivered := delivered_run hout hload hproduct
  rw [outputFile_eq hout] at hdelivered
  refine hdelivered.lost hread hsound (fun q hq => ?_) ?_
  · rwa [withoutExtension_append h]
  · rw [List.getLast?_append_of_ne_nil _ (by decide)]
    decide

end

end Compile

/-! ## The build tool -/

namespace Build

/-- What the first step of a build makes goes to the assembly file. -/
theorem delivered_compileStep {host : Host} {tree : FileTree} {p : Program} {input : Bytes}
    (hload : host.loadProgram tree input = .ok p) (output : Bytes) (options : Emit.Options) :
    tree.Delivered (assemblyFile input output)
      (Made.assembly .x86Linux options "code generation failed: " p).contents
      (compileStep host input output options tree).2 := by
  simp only [compileStep, hload]
  cases hwrite : tree.write (assemblyFile input output) [] with
  | error e => exact .refused hwrite
  | ok emptied => exact FileTree.delivered_of_write hwrite _

/-- A path that a build writes its assembly to: the name is a stem without dots and the ending of
assembly files, and the stem is empty in the root only. -/
def OntoItself (input : Bytes) : Prop :=
  ∃ stem, lastPart input = stem ++ ".s" ∧ dot ∉ stem ∧
    (stem = [] → beforeLastPart input ≠ [] ∧ ∀ b ∈ beforeLastPart input, b = slash)

/-- The assembly file for a binary is in its folder, under a name that is the last part of the
binary without its extension. If there is no last part, it is the name of the folder, and nothing in
the root. -/
theorem exists_intermediateFile (binary : Bytes) :
    ∃ kept, slash ∉ kept ∧
      intermediateFile binary ".s" = Path.clean (beforeLastPart binary ++ (kept ++ ".s")) ∧
      (lastPart binary ≠ [] → lastPart binary = kept ++ extension binary) ∧
      (lastPart binary = [] → (kept = [] ↔ binary ≠ [] ∧ ∀ b ∈ binary, b = slash)) := by
  by_cases hlast : lastPart binary = []
  · have hdrop := Path.dropEnding_append (Path.base binary) []
    rw [List.append_nil] at hdrop
    have hfile : intermediateFile binary ".s"
        = Path.join (Path.folder binary) (Path.base binary ++ ".s") := by
      rw [intermediateFile, Path.extension_of_notMem (by simp [hlast]), hdrop]
    rcases Path.base_cases binary with ⟨hne, hslash, hother⟩ | ⟨hbase, hbinary⟩
    · refine ⟨Path.base binary, hslash, ?_, absurd hlast, fun _ => ?_⟩
      · rw [hfile, Path.join_folder binary (isName_assembly hslash).slash_notMem]
      · refine iff_of_false hne fun ⟨hbinary, hall⟩ => ?_
        obtain ⟨b, hb, hb'⟩ := hother hbinary
        exact hb' (hall b hb)
    · have hslash : slash ∉ (".s" : Bytes) := by decide
      refine ⟨[], List.not_mem_nil, ?_, absurd hlast, fun _ => iff_of_true rfl hbinary⟩
      rw [hfile, hbase, Path.join_slash_append (Path.folder binary) hslash (Path.clean_ne_nil _),
        Path.join_folder binary hslash]
      rfl
  · obtain ⟨stem, hslash, hstem, -⟩ := Path.exists_stem binary
    refine ⟨stem, hslash, ?_, fun _ => hstem, fun hlast' => absurd hlast' hlast⟩
    rw [intermediateFile, Path.base_of_lastPart_ne_nil hlast, hstem, Path.dropEnding_append,
      Path.join_folder binary (isName_assembly hslash).slash_notMem]

/-- The assembly of a build goes to a name in the folder of the input. -/
theorem exists_assemblyFile (input : Bytes) :
    ∃ name, IsName name ∧ assemblyFile input [] = Path.clean (beforeLastPart input ++ name) ∧
      (name = lastPart input ↔ OntoItself input) := by
  obtain ⟨stem, hstem, hlast, hbinary⟩ := Path.exists_stem input
  generalize hb : beforeLastPart input ++ stem = binary at hbinary
  have hlastBinary : lastPart binary = stem := hb ▸ Path.lastPart_beforeLastPart_append input hstem
  have hfolder : beforeLastPart binary = beforeLastPart input :=
    hb ▸ Path.beforeLastPart_beforeLastPart_append input hstem
  obtain ⟨kept, hslash, hfile, hsome, hnone⟩ := exists_intermediateFile binary
  rw [hlastBinary] at hsome hnone
  rw [hfolder] at hfile
  refine ⟨kept ++ ".s", isName_assembly hslash, ?_, ?_⟩
  · rw [← hfile, assemblyFile, binaryFile, hbinary]
    rfl
  -- The name of the input ends as the derived one does if that is its extension.
  have hends : ∀ {s : Bytes}, lastPart input = s ++ ".s" → stem = s := by
    intro s hs
    rw [Path.extension_of_lastPart hs (by decide), hs] at hlast
    exact (List.append_cancel_right hlast).symm
  -- Without a stem, the binary is the folder of the input.
  have hroot : stem = [] → (kept = [] ↔
      beforeLastPart input ≠ [] ∧ ∀ b ∈ beforeLastPart input, b = slash) := by
    intro hnil
    rw [hnil, List.append_nil] at hb
    rw [hb]
    exact hnone hnil
  constructor
  · intro hname
    obtain rfl := hends hname.symm
    refine ⟨stem, hname.symm, fun hdot => ?_, fun hnil => (hroot hnil).1 hnil⟩
    have hne : stem ≠ [] := List.ne_nil_of_mem hdot
    obtain ⟨_, tail, -, -, hextension⟩ := Path.exists_stem_of_dot (hlastBinary.symm ▸ hdot)
    have hnil := List.self_eq_append_right.1 (hsome hne)
    rw [hextension] at hnil
    cases hnil
  · rintro ⟨s, hs, hdot, honly⟩
    obtain rfl := hends hs
    by_cases hnil : stem = []
    · rw [hs, (hroot hnil).2 (honly hnil), hnil]
    · have hkept := hsome hnil
      rw [Path.extension_of_notMem (hlastBinary.symm ▸ hdot), List.append_nil] at hkept
      rw [hs, hkept]

/-- The assembly file of a build is beside the input, or it is the input. -/
theorem beside_assemblyFile {t : FileTree} {input : Bytes} {p : Place}
    (h : t.resolve input = .ok p) :
    ∃ name, t.Beside input (assemblyFile input []) name ∧
      (name = lastPart input ↔ OntoItself input) ∧
      (name = lastPart input → t.resolve (assemblyFile input []) = .ok p) ∧
      (assemblyFile input []).getLast? ≠ some slash := by
  obtain ⟨d, hd, -, -⟩ := FileTree.step_of_resolve h
  obtain ⟨name, hname, hfile, honto⟩ := exists_assemblyFile input
  have hparts := Path.parts_beforeLastPart_append input hname.slash_notMem
  rw [hfile]
  refine ⟨name, fun q hq => ⟨d, hd, ?_⟩, honto, ?_, ?_⟩
  · refine FileTree.resolve_clean_name hparts hname ?_ hq
    rwa [FileTree.start_eq (Path.isRooted_beforeLastPart_append input hname.slash_notMem)]
  · rintro rfl
    rw [Path.beforeLastPart_append_lastPart]
    exact FileTree.resolve_clean h
  · obtain ⟨start, hstart⟩ := Path.exists_clean_eq_append hparts hname
    rw [hstart, List.getLast?_append_of_ne_nil _ hname.ne_nil]
    exact fun hlast => hname.slash_notMem (List.mem_of_getLast? hlast)

end Build

/-! ## Both commands -/

/-- Compiling a file without a name for the output keeps the file, unless the derived name is its
own. Then the file has what was made, or is gone when there was no code. That is so for the compiler
command and for the first step of a build, on every host, and for every path by which the file can
be read. -/
theorem input_kept_unless_output_has_its_name (host : Host) {tree : FileTree}
    {input bytes : Bytes} {p : Program} (hread : tree.read input = .ok bytes)
    (hload : Source.loadBy host.read bytes = .ok p) :
    (∀ args settings, Flag.parse Compile.flags [] args = .ok (settings, [input]) →
      settings.text "o" [] = [] →
      (extension input ≠ ".s" →
        (Compile.commandOn host args tree).tree.read input = .ok bytes) ∧
      (extension input = ".s" → tree.Sound → ∀ product,
        Compile.Product.ofName (settings.text "t" Emit.Target.x86Linux.name) = .ok product →
        (Compile.commandOn host args tree).tree.read input =
          FileTree.readBack input (product.make
            { entry := settings.text "entry" Emit.defaultEntry, parallel := settings.isOn "j" }
            p).contents)) ∧
    ∀ options,
      (¬ Build.OntoItself input →
        (Build.compileStep host input [] options tree).2.read input = .ok bytes) ∧
      (Build.OntoItself input → tree.Sound →
        (Build.compileStep host input [] options tree).2.read input =
          FileTree.readBack input
            (Made.assembly .x86Linux options "code generation failed: " p).contents) := by
  have hprogram := FileTree.loadProgram_eq_ok.2 ⟨bytes, hread, hload⟩
  obtain ⟨place, hplace, hfile⟩ := FileTree.read_eq_ok.1 hread
  constructor
  · intro args settings hparse hout
    let r : Compile.Request := {
      input
      output := settings.text "o" []
      product := settings.text "t" Emit.Target.x86Linux.name
      options :=
        { entry := settings.text "entry" Emit.defaultEntry, parallel := settings.isOn "j" }
      verbose := settings.isOn "v" }
    have hrun : Compile.commandOn host args tree = r.run host tree := by
      rw [Compile.commandOn, hparse]
    rw [hrun]
    exact ⟨Compile.read_run_of_extension_ne (r := r) hout hread hprogram,
      fun hown hsound _ hproduct =>
        Compile.read_run_of_extension_eq (r := r) hout hread hprogram hown hsound hproduct⟩
  · intro options
    have hdelivered := Build.delivered_compileStep hprogram [] options
    obtain ⟨name, hbeside, honto, hsame, hlast⟩ := Build.beside_assemblyFile hplace
    constructor
    · intro hother
      exact hdelivered.kept hread (hbeside.resolve_ne (mt honto.1 hother))
    · intro hown hsound
      refine hdelivered.lost hread hsound (fun q hq => ?_) hlast
      cases hplace.symm.trans hq
      exact hsame (honto.2 hown)

namespace WithoutCode

/-- A procedure that wants a service there is none for. -/
def source : Bytes :=
  "procedures:\n- name: f\n  locals: [\x7bname: x\x7d]\n  body: [\x7bop: mayhem, src: x\x7d]\n"

/-- The file is in the working directory, with the extension of assembly files. -/
def tree : FileTree := .ofFiles [("prog.s", source)]

/-- There is no file where a folder is. -/
theorem sound : tree.Sound := by
  intro p hp
  have hfolders : tree.folders = [FileTree.workFolder] := by decide
  have hp : p = [] ∨ p = FileTree.workFolder := by simpa [FileTree.isFolder, hfolders] using hp
  rcases hp with rfl | rfl <;> decide

end WithoutCode

open WithoutCode in
/-- There is no code for the program, so the compiler command and the build take its file away,
whether it is named from the working directory or from the root on. -/
theorem source_taken_away :
    tree.read "prog.s" = .ok source ∧ tree.read "/work/prog.s" = .ok source ∧
      (Compile.commandOn {} ["prog.s"] tree).tree.read "prog.s" =
        .error ⟨"open", "prog.s", .notFound⟩ ∧
      (Build.compileStep {} "/work/prog.s" [] {} tree).2.read "/work/prog.s" =
        .error ⟨"open", "/work/prog.s", .notFound⟩ := by
  have hread : tree.read "prog.s" = .ok source := by decide
  have hread' : tree.read "/work/prog.s" = .ok source := by decide
  have hnone : (Source.load source).toOption.map (fun p =>
      (((Compile.Product.code .x86Linux).make {} p).contents,
        (Made.assembly .x86Linux {} "code generation failed: " p).contents))
      = some (none, none) := by
    decide +kernel
  cases hload : Source.load source with
  | error e =>
    rw [hload] at hnone
    cases hnone
  | ok p =>
    rw [hload] at hnone
    obtain ⟨hcompiled, hbuilt⟩ := Prod.mk.inj (Option.some.inj hnone)
    obtain ⟨hcompile, -⟩ := input_kept_unless_output_has_its_name {} hread hload
    obtain ⟨-, hbuild⟩ := input_kept_unless_output_has_its_name {} hread' hload
    have hlost := (hcompile ["prog.s"] [] rfl rfl).2 (by decide) sound (.code .x86Linux) rfl
    have hlost' := (hbuild {}).2 ⟨"prog", by decide, by decide, by decide⟩ sound
    exact ⟨hread, hread', hlost.trans (congrArg _ hcompiled), hlost'.trans (congrArg _ hbuilt)⟩

end QuadAsm.Cli
