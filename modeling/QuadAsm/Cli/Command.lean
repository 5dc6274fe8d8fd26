import QuadAsm.Cli.Flag

/-!
# Commands with subcommands

Options in long (`--keep`) and short (`-k`) form, which may stand anywhere among the arguments, and
the help texts of a command with subcommands. Short switches can be joined (`-kj`).
-/

namespace QuadAsm.Cli

/-- An option of a command. -/
structure Switch where
  name : Bytes
  short : Option UInt8 := none
  about : Bytes
  kind : FlagKind := .switch
  deriving DecidableEq, Repr

/-- Why arguments are refused. -/
inductive SwitchError where
  | badForm (argument : Bytes)
  | unknown (name : Bytes)
  | unknownShort (letter : UInt8) (group : Bytes)
  | missingValue (argument : Bytes)
  | missingShortValue (letter : UInt8) (group : Bytes)
  | badValue (value : Bytes) (switch : Switch)
  deriving DecidableEq, Repr

/-- A letter in single quotes. -/
def quoteLetter (b : UInt8) : Bytes := Text.quoteChar (Char.ofNat b.toNat)

/-- How an option is named in messages. -/
def Switch.label (s : Switch) : Bytes :=
  match s.short with
  | some letter => "-" ++ [letter] ++ ", --" ++ s.name
  | none => "--" ++ s.name

/-- The wording of a refusal. -/
def SwitchError.message : SwitchError → Bytes
  | badForm argument => "bad flag syntax: " ++ argument
  | unknown name => "unknown flag: --" ++ name
  | unknownShort letter group =>
    "unknown shorthand flag: " ++ quoteLetter letter ++ " in -" ++ group
  | missingValue argument => "flag needs an argument: " ++ argument
  | missingShortValue letter group =>
    "flag needs an argument: " ++ quoteLetter letter ++ " in -" ++ group
  | badValue value switch =>
    "invalid argument " ++ Text.quote value ++ " for " ++ Text.quote switch.label
      ++ " flag: strconv.ParseBool: parsing " ++ Text.quote value ++ ": invalid syntax"

namespace Switch

/-- Sets an option to a value. -/
def set (s : Switch) (value : Bytes) : Except SwitchError (Bytes × Bytes) :=
  match s.kind with
  | .text _ => .ok (s.name, value)
  | .switch =>
    match switchValue? value with
    | some v => .ok (s.name, v)
    | none => .error (.badValue value s)

/-- The settings that an argument makes, and whether it took the next argument as a value. -/
abbrev Made := Except SwitchError (Settings × Bool)

/-- Reads an option in long form, given without its dashes. -/
def readLong (switches : List Switch) (next : Option Bytes) (argument text : Bytes) : Made := do
  if text.isEmpty || text.head? == some Flag.dash || text.head? == some Flag.equals then
    throw (.badForm argument)
  let (name, value?) := Flag.splitValue text
  match switches.find? (·.name == name) with
  | none => throw (.unknown name)
  | some s =>
    match value?, s.kind, next with
    | some value, _, _ => return ([← s.set value], false)
    | none, .switch, _ => return ([← s.set "true"], false)
    | none, .text _, some value => return ([← s.set value], true)
    | none, .text _, none => throw (.missingValue argument)

/-- What a group of short options may end with to no effect: the options of test programs start so.
-/
def testMark : Bytes := "test."

/-- Reads a group of options in short form, given without its dash. -/
def readShort (switches : List Switch) (next : Option Bytes) : Bytes → Made
  | [] => .ok ([], false)
  | letter :: rest => do
    if testMark.isPrefixOf (letter :: rest) then return ([], false)
    match switches.find? (·.short == some letter) with
    | none => throw (.unknownShort letter (letter :: rest))
    | some s =>
      if rest.length > 1 && rest.head? == some Flag.equals then
        return ([← s.set (rest.drop 1)], false)
      match s.kind with
      | .switch =>
        let first ← s.set "true"
        let (others, took) ← readShort switches next rest
        return (others ++ [first], took)
      | .text _ =>
        if !rest.isEmpty then return ([← s.set rest], false)
        match next with
        | some value => return ([← s.set value], true)
        | none => throw (.missingShortValue letter [letter])

/-- Reads an argument; `none` if it is not an option. -/
def readArgument (switches : List Switch) (next : Option Bytes) (argument : Bytes) :
    Option Made :=
  match argument with
  | a :: b :: rest =>
    if a != Flag.dash then none
    else if b == Flag.dash then some (readLong switches next argument rest)
    else some (readShort switches next (b :: rest))
  | _ => none

/-- Ends the options: what follows is none. -/
def endMark : Bytes := "--"

/-- Reads all arguments: settings, the last first, and what is not an option, in order. -/
def parse (switches : List Switch) (settings : Settings) (others : List Bytes) :
    List Bytes → Except SwitchError (Settings × List Bytes)
  | [] => .ok (settings, others)
  | argument :: rest =>
    if argument == endMark then .ok (settings, others ++ rest)
    else
      match readArgument switches rest.head? argument with
      | none => parse switches settings (others ++ [argument]) rest
      | some (.error e) => .error e
      | some (.ok (made, took)) =>
        match took, rest with
        | true, _ :: rest => parse switches (made ++ settings) others rest
        | _, rest => parse switches (made ++ settings) others rest

/-- The left half of an option's line in a help text. -/
def head (s : Switch) : Bytes :=
  let short : Bytes := match s.short with
    | some letter => "  -" ++ [letter] ++ ", --"
    | none => "      --"
  let value : Bytes := match s.kind with
    | .switch => []
    | .text _ => " string"
  short ++ s.name ++ value

/-- The right half of an option's line. -/
def explanation (s : Switch) : Bytes :=
  match s.kind with
  | .switch => s.about
  | .text standard =>
    if standard.isEmpty then s.about else s.about ++ " (default " ++ Text.quote standard ++ ")"

/-- An option's line, with the right halves at the same column. -/
def line (width : Nat) (s : Switch) : Bytes :=
  s.head ++ Bytes.blanks (width + 3 - s.head.length) ++ s.explanation ++ "\n"

/-- The lines of the options. -/
def lines (switches : List Switch) : Bytes :=
  let width := (switches.map (·.head.length)).foldl max 0
  switches.flatMap (line width)

end Switch

/-- A command. -/
structure Command where
  name : Bytes
  /-- The names that lead to it. -/
  path : Bytes
  /-- Other names of it. -/
  otherNames : List Bytes := []
  /-- How it is called, if it does something by itself. -/
  useLine : Option Bytes := none
  about : Bytes
  details : Bytes
  /-- The options by name, with the one for help. -/
  switches : List Switch
  /-- The names and descriptions of its subcommands. -/
  subcommands : List (Bytes × Bytes) := []
  deriving DecidableEq, Repr

namespace Command

variable (c : Command)

/-- A subcommand's line in a help text. -/
def subcommandLine (name about : Bytes) : Bytes :=
  "\n  " ++ name ++ Bytes.blanks (11 - name.length) ++ " " ++ about

/-- How the command is used. -/
def usageText : Bytes :=
  let call : Bytes := match c.useLine with
    | some text => "\n  " ++ text
    | none => []
  let group : Bytes := if c.subcommands.isEmpty then [] else "\n  " ++ c.path ++ " [command]"
  let names : Bytes :=
    if c.otherNames.isEmpty then []
    else "\n\nAliases:\n  " ++ Bytes.join ", " (c.name :: c.otherNames)
  let list : Bytes :=
    if c.subcommands.isEmpty then []
    else
      "\n\nAvailable Commands:"
        ++ c.subcommands.flatMap fun (name, about) => subcommandLine name about
  let hint : Bytes :=
    if c.subcommands.isEmpty then []
    else "\nUse \"" ++ c.path ++ " [command] --help\" for more information about a command.\n"
  let options : Bytes :=
    if c.switches.isEmpty then "\n" else "\n\nFlags:\n" ++ Switch.lines c.switches
  "Usage:" ++ call ++ group ++ names ++ list ++ options ++ hint

/-- The help text of the command. -/
def helpText : Bytes := c.details ++ "\n\n" ++ c.usageText

end Command

end QuadAsm.Cli
