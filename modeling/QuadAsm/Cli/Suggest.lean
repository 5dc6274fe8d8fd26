import QuadAsm.Cli.Task

/-!
# How a command line may go on

A shell hands over the words of a command line, the last of which is being typed. It is told the
subcommands or options that this one may become, and whether it may become the name of a file.
-/

namespace QuadAsm.Cli

/-- What a shell may suggest on its own. -/
inductive Directive where
  | files
  | noFiles
  deriving DecidableEq, Repr

/-- The number of a directive. -/
def Directive.code : Directive → Nat
  | files => 0
  | noFiles => 4

/-- The name of a directive. -/
def Directive.name : Directive → Bytes
  | files => "ShellCompDirectiveDefault"
  | noFiles => "ShellCompDirectiveNoFileComp"

/-- The suggestions for a command line. -/
structure Suggestions where
  /-- Words, each with a description. -/
  words : List (Bytes × Bytes) := []
  directive : Directive := .files
  /-- Why there are none. -/
  problem : Option Bytes := none
  /-- Whether the descriptions are left out. -/
  terse : Bool
  deriving DecidableEq, Repr

namespace Suggestions

/-- The line of a suggestion. -/
def line (terse : Bool) (word about : Bytes) : Bytes :=
  if terse then word ++ "\n" else word ++ "\t" ++ about ++ "\n"

/-- The suggestions as a shell reads them. -/
def text (s : Suggestions) : Bytes :=
  (s.words.flatMap fun (word, about) => line s.terse word about)
    ++ ":" ++ Bytes.ofNat s.directive.code ++ "\n"

/-- The suggestions as a user reads them who looks for a fault. -/
def note (s : Suggestions) : Bytes :=
  let problem : Bytes := match s.problem with
    | some p => "[Debug] [Error] " ++ p ++ "\n"
    | none => []
  problem ++ "Completion ended with directive: " ++ s.directive.name ++ "\n"

end Suggestions

/-- The word being typed, when it may be the value of an option. -/
structure Typed where
  /-- The option it is a value of. -/
  switch : Option Switch := none
  /-- The arguments before it, without that option. -/
  args : List Bytes
  word : Bytes
  /-- The name of an option that there is not. -/
  unknown : Option Bytes := none
  deriving DecidableEq, Repr

namespace Typed

/-- The option that a name of one letter or more stands for. -/
def switch? (switches : List Switch) (name : Bytes) : Option Switch :=
  match name with
  | [letter] => switches.find? (·.short == some letter)
  | name => switches.find? (·.name == name)

/-- The last option that an argument names: all of it behind two dashes, its last letter behind
one. -/
def nameIn (argument : Bytes) : Bytes :=
  match argument with
  | a :: b :: rest =>
    if a == Flag.dash && b == Flag.dash then rest else ((b :: rest).getLast?).toList
  | argument => argument

/-- Whether an argument is an option, as far as its dashes tell. -/
def isOption : Bytes → Bool
  | a :: b :: rest => a == Flag.dash && (b != Flag.dash || !rest.isEmpty)
  | _ => false

/-- Looks for an option whose value is being typed: behind its `=`, or after an option that needs a
value. -/
def ofArguments (switches : List Switch) (args : List Bytes) (word : Bytes) : Typed :=
  let dashed := word.head? == some Flag.dash
  let (head, value?) := Flag.splitValue word
  match dashed, value? with
  | true, none => { args, word }
  | _, _ =>
    let inner := if dashed then value? else none
    let word' := inner.getD word
    let own := if inner.isSome then nameIn head else []
    let previous := match args.getLast? with
      | some last => if isOption last && Flag.equals ∉ last then nameIn last else []
      | none => []
    let (name, before) := if own.isEmpty && !previous.isEmpty then (previous, args.dropLast)
      else (own, args)
    if name.isEmpty then { args, word := word' }
    else
      match switch? switches name with
      | none => { args, word, unknown := some name }
      | some s =>
        if inner.isNone && s.kind = .switch then { args, word := word' }
        else { switch := some s, args := before, word := word' }

end Typed

namespace Task

/-- The words of a menu that a word may become. -/
def menuFor (t : Task) (word : Bytes) : List (Bytes × Bytes) :=
  t.menu.filter fun (name, _) => word.isPrefixOf name

/-- The forms of an option that a word may become. -/
def formsFor (word : Bytes) (s : Switch) : List (Bytes × Bytes) :=
  let long : Bytes := "--" ++ s.name
  let short : List Bytes := s.short.toList.map fun letter => [Flag.dash, letter]
  ((long :: short).filter (word.isPrefixOf ·)).map fun form => (form, s.about)

/-- What a task suggests for an argument of its own, apart from subcommands. -/
def argumentsFor (t : Task) (args : List Bytes) (word : Bytes) :
    Option (List (Bytes × Bytes)) :=
  match t with
  | completion | script _ => some []
  | help =>
    match find true args with
    | .error _ => some []
    | .ok (topic, _) => some (topic.menuFor word)
  | _ => none

/-- Suggests what an argument may become that is no option and no value of one. -/
def suggestArgument (t : Task) (terse : Bool) (settings : Settings) (args : List Bytes)
    (word : Bytes) : Suggestions :=
  let menu := if args.isEmpty && settings.isEmpty then t.menu else []
  let words := menu.filter fun (name, _) => word.isPrefixOf name
  match t.argumentsFor args word with
  | some more => { words := words ++ more, directive := .noFiles, terse }
  | none => { words, directive := if menu.isEmpty then .files else .noFiles, terse }

/-- Suggests options. -/
def suggestOption (t : Task) (terse : Bool) (settings : Settings) (word : Bytes) : Suggestions :=
  let free := t.command.switches.filter fun s => !settings.isSet s.name
  { words := free.flatMap (formsFor word), directive := .noFiles, terse }

/-- Suggests how the arguments of a task that reads options may go on with `word`. Behind two dashes
there are no options. -/
def suggestFor (t : Task) (terse : Bool) (args : List Bytes) (word : Bytes) : Suggestions :=
  let switches := t.command.switches
  let typed := Typed.ofArguments switches args word
  match Switch.parse switches [] [] typed.args with
  | .error e =>
    { problem := some ("Error while parsing flags from args [" ++ Bytes.join " " typed.args ++ "]: "
        ++ e.message)
      terse }
  | .ok (settings, others) =>
    let ended : Bool := match Switch.parse switches [] [] (typed.args ++ [Switch.endMark]) with
      | .ok (_, more) => others.length < more.length
      | .error _ => false
    match typed.unknown, ended with
    | some name, false =>
      { problem := some ("Subcommand '" ++ t.name ++ "' does not support flag '" ++ name ++ "'")
        terse }
    | _, _ =>
      if settings.isSet "help" then { directive := .noFiles, terse }
      else
        match typed.switch with
        | some _ =>
          if ended then
            match t.argumentsFor others typed.word with
            | some words => { words, directive := .noFiles, terse }
            | none => { terse }
          else { terse }
        | none =>
          if typed.word.head? == some Flag.dash && Flag.equals ∉ typed.word && !ended then
            t.suggestOption terse settings typed.word
          else t.suggestArgument terse settings others typed.word

/-- Suggests how a command line may go on whose words before the last are `args`. A task for shells
takes its arguments as they are, and if it is asked for suggestions itself, the name it is asked by
tells whether they have descriptions. -/
def suggestions (terse : Bool) (args : List Bytes) (word : Bytes) : Suggestions :=
  match find true args with
  | .error _ =>
    { problem := some ("unable to find a command for arguments: [" ++ Bytes.join " " args ++ "]")
      terse }
  | .ok (suggest terse, _) =>
    if word.head? == some Flag.dash && Flag.equals ∉ word then
      (suggest terse).suggestOption terse [] word
    else { terse }
  | .ok (t, rest) => t.suggestFor terse rest word

end Task

end QuadAsm.Cli
