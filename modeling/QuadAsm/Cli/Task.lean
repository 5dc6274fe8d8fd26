import QuadAsm.Cli.Command
import QuadAsm.Emit.Program

/-!
# The tasks of the build tool

The tool has subcommands, and one of them has subcommands of its own. `Task.find` tells from the
words among the arguments which of them is meant. One more task is called by shells only, and only
when it is called it is there at all.
-/

namespace QuadAsm.Cli

/-- The shells that completion scripts are written for. -/
inductive Shell where
  | bash
  | fish
  | powershell
  | zsh
  deriving DecidableEq, Repr

namespace Shell

/-- The shells by name. -/
def all : List Shell := [bash, fish, powershell, zsh]

/-- The name of a shell. -/
def name : Shell → Bytes
  | bash => "bash"
  | fish => "fish"
  | powershell => "powershell"
  | zsh => "zsh"

/-- How the completion script of a shell is put to use. -/
def manual : Shell → Bytes
  | bash =>
    "Generate the autocompletion script for the bash shell.\n\n"
      ++ "This script depends on the 'bash-completion' package.\n"
      ++ "If it is not installed already, you can install it via your OS's package manager.\n\n"
      ++ "To load completions in your current shell session:\n\n"
      ++ "\tsource <(quad completion bash)\n\n"
      ++ "To load completions for every new session, execute once:\n\n"
      ++ "#### Linux:\n\n"
      ++ "\tquad completion bash > /etc/bash_completion.d/quad\n\n"
      ++ "#### macOS:\n\n"
      ++ "\tquad completion bash > $(brew --prefix)/etc/bash_completion.d/quad\n\n"
      ++ "You will need to start a new shell for this setup to take effect."
  | fish =>
    "Generate the autocompletion script for the fish shell.\n\n"
      ++ "To load completions in your current shell session:\n\n"
      ++ "\tquad completion fish | source\n\n"
      ++ "To load completions for every new session, execute once:\n\n"
      ++ "\tquad completion fish > ~/.config/fish/completions/quad.fish\n\n"
      ++ "You will need to start a new shell for this setup to take effect."
  | powershell =>
    "Generate the autocompletion script for powershell.\n\n"
      ++ "To load completions in your current shell session:\n\n"
      ++ "\tquad completion powershell | Out-String | Invoke-Expression\n\n"
      ++ "To load completions for every new session, add the output of the above command\n"
      ++ "to your powershell profile."
  | zsh =>
    "Generate the autocompletion script for the zsh shell.\n\n"
      ++ "If shell completion is not already enabled in your environment you will need\n"
      ++ "to enable it.  You can execute the following once:\n\n"
      ++ "\techo \"autoload -U compinit; compinit\" >> ~/.zshrc\n\n"
      ++ "To load completions in your current shell session:\n\n"
      ++ "\tsource <(quad completion zsh)\n\n"
      ++ "To load completions for every new session, execute once:\n\n"
      ++ "#### Linux:\n\n"
      ++ "\tquad completion zsh > \"$\x7bfpath[1]\x7d/_quad\"\n\n"
      ++ "#### macOS:\n\n"
      ++ "\tquad completion zsh > $(brew --prefix)/share/zsh/site-functions/_quad\n\n"
      ++ "You will need to start a new shell for this setup to take effect."

/-- How the script of a shell is asked for. -/
def useLine (s : Shell) : Bytes :=
  let options : Bytes := match s with
    | bash => []
    | _ => " [flags]"
  "quad completion " ++ s.name ++ options

end Shell

/-- What the tool can be asked to do. -/
inductive Task where
  /-- The tool without a subcommand. -/
  | root
  | build
  | completion
  | script (shell : Shell)
  | help
  /-- Tells a shell how a command line may go on. A terse answer has no descriptions. -/
  | suggest (terse : Bool)
  deriving DecidableEq, Repr

/-- The option that asks for help. -/
def helpSwitch (command : Bytes) : Switch :=
  { name := "help", short := some (Bytes.code 'h'), about := "help for " ++ command }

namespace Task

/-- The name of a task; the one of the tool itself is that of the tool. -/
def name : Task → Bytes
  | root => "quad"
  | build => "build"
  | completion => "completion"
  | script shell => shell.name
  | help => "help"
  | suggest _ => "__complete"

/-- A task in a few words. -/
def about : Task → Bytes
  | root => "Quad IR build system"
  | build => "Build a quad IR program"
  | completion => "Generate the autocompletion script for the specified shell"
  | script shell => "Generate the autocompletion script for " ++ shell.name
  | help => "Help about any command"
  | suggest _ => "Request shell completion choices for the specified command-line"

/-- The subcommands of a task, by name. -/
def subtasks : Task → List Task
  | root => [build, completion, help]
  | completion => Shell.all.map script
  | _ => []

/-- The names and descriptions of the subcommands. -/
def menu (t : Task) : List (Bytes × Bytes) := t.subtasks.map fun s => (s.name, s.about)

/-- A task as a command. -/
def command : Task → Command
  | root =>
    { name := root.name
      path := "quad"
      about := root.about
      details := "Builds executables from quad IR programs."
      switches := [helpSwitch root.name]
      subcommands := root.menu }
  | build =>
    { name := build.name
      path := "quad build"
      useLine := some "quad build <file.yaml> [flags]"
      about := build.about
      details := "Compile a quad IR program to assembly, assemble it and link it against the "
        ++ "runtime library."
      switches := [
        { name := "entry", about := "entry point symbol", kind := .text Emit.defaultEntry },
        helpSwitch build.name,
        { name := "keep", short := some (Bytes.code 'k')
          about := "Keep intermediate files (.s, .o)" },
        { name := "o", short := some (Bytes.code 'o'), about := "output file name"
          kind := .text [] },
        { name := "parallel", short := some (Bytes.code 'j')
          about := "generate procedures in parallel" }] }
  | completion =>
    { name := completion.name
      path := "quad completion"
      about := completion.about
      details := "Generate the autocompletion script for quad for the specified shell.\n"
        ++ "See each sub-command's help for details on how to use the generated script."
      switches := [helpSwitch completion.name]
      subcommands := completion.menu }
  | script shell =>
    { name := shell.name
      path := "quad completion " ++ shell.name
      useLine := some shell.useLine
      about := (script shell).about
      details := shell.manual
      switches := [
        helpSwitch shell.name,
        { name := "no-descriptions", about := "disable completion descriptions" }] }
  | help =>
    { name := help.name
      path := "quad help"
      useLine := some "quad help [command] [flags]"
      about := help.about
      details := "Help provides help for any command in the application.\n"
        ++ "Simply type quad help [path to command] for full details."
      switches := [helpSwitch help.name] }
  | suggest terse =>
    { name := (suggest terse).name
      path := "quad __complete"
      otherNames := ["__completeNoDesc"]
      useLine := some "quad __complete [command-line]"
      about := (suggest terse).about
      details := "__complete is a special command that is used by the shell completion logic\n"
        ++ "to request completion choices for the specified command-line."
      switches := [helpSwitch (suggest terse).name] }

/-! ## Finding the task -/

/-- Whether an argument before the subcommand is an option that takes the next argument. -/
def takesNext (argument : Bytes) : Bool :=
  match argument with
  | a :: b :: rest => a == Flag.dash && (b == Flag.dash || rest.isEmpty) && Flag.equals ∉ argument
  | _ => false

/-- The first argument that is not an option. -/
def firstWord : List Bytes → Option Bytes
  | [] => none
  | argument :: rest =>
    if argument == "--" then none
    else if takesNext argument then
      match rest with
      | _ :: second :: rest => firstWord (second :: rest)
      | _ => none
    else if argument.isEmpty || argument.head? == some Flag.dash then firstWord rest
    else some argument

/-- The arguments without the first one that is the word. -/
def withoutWord (word : Bytes) : List Bytes → List Bytes
  | [] => []
  | argument :: rest =>
    if argument == "--" then argument :: rest
    else if takesNext argument then
      match rest with
      | value :: rest => argument :: value :: withoutWord word rest
      | [] => [argument]
    else if argument == word then rest
    else argument :: withoutWord word rest

/-- The subcommand with a name. Those for shells are there only if `shells` is set. -/
def subtask? (shells : Bool) (t : Task) (word : Bytes) : Option Task :=
  match t.subtasks.find? (·.name == word) with
  | some s => some s
  | none =>
    if shells && t = root then
      if word == "__complete" then some (suggest false)
      else if word == "__completeNoDesc" then some (suggest true)
      else none
    else none

/-- Follows the words among the arguments from one task to the next. Gives the last one and the
arguments without these words, at most `fuel` of them. -/
def follow (shells : Bool) : (fuel : Nat) → Task → List Bytes → Task × List Bytes
  | 0, t, args => (t, args)
  | fuel + 1, t, args =>
    match firstWord args with
    | none => (t, args)
    | some word =>
      match t.subtask? shells word with
      | some s => follow shells fuel s (withoutWord word args)
      | none => (t, args)

/-- The task that the arguments name, with the arguments for it. The tool itself has no use for a
word, so that is then unknown. -/
def find (shells : Bool) (args : List Bytes) : Except Bytes (Task × List Bytes) :=
  match follow shells args.length root args with
  | (root, rest) =>
    match firstWord rest with
    | some word => .error word
    | none => .ok (root, rest)
  | found => .ok found

end Task

end QuadAsm.Cli
