import QuadAsm.Text.Quote

/-!
# Flags

Options that start with one or two dashes and stand before all other arguments. A flag for a text
takes its value after `=` or from the next argument; a switch takes a value only after `=`. Main
definition: `Flag.parse`.
-/

namespace QuadAsm.Cli

/-- What a flag sets. -/
inductive FlagKind where
  /-- Something that is on or off, and off unless it is set. -/
  | switch
  | text (standard : Bytes)
  deriving DecidableEq, Repr

/-- A flag. -/
structure Flag where
  name : Bytes
  about : Bytes
  kind : FlagKind
  deriving DecidableEq, Repr

/-- The values that were set, the last first. Switches are set to `true` or `false`. -/
abbrev Settings := List (Bytes × Bytes)

/-- Whether something was set, to whatever value. -/
def Settings.isSet (s : Settings) (name : Bytes) : Bool := (s.lookup name).isSome

/-- Whether a switch is on. -/
def Settings.isOn (s : Settings) (name : Bytes) : Bool := s.lookup name == some "true"

/-- The text that was set, or the given one. -/
def Settings.text (s : Settings) (name standard : Bytes) : Bytes := (s.lookup name).getD standard

/-- Why arguments are refused. -/
inductive FlagError where
  /-- The user asks for help. -/
  | help
  | badForm (argument : Bytes)
  | undefined (name : Bytes)
  | missingValue (name : Bytes)
  | badSwitch (name value : Bytes)
  deriving DecidableEq, Repr

/-- The wording of a refusal. Asking for help is none. -/
def FlagError.message : FlagError → Bytes
  | help => []
  | badForm argument => "bad flag syntax: " ++ argument ++ "\n"
  | undefined name => "flag provided but not defined: -" ++ name ++ "\n"
  | missingValue name => "flag needs an argument: -" ++ name ++ "\n"
  | badSwitch name value =>
    "invalid boolean value " ++ Text.quote value ++ " for -" ++ name ++ ": parse error\n"

/-- The texts that stand for on and off. -/
def switchValue? (value : Bytes) : Option Bytes :=
  if ["1", "t", "T", "TRUE", "true", "True"].any (value == Bytes.ofString ·) then some "true"
  else if ["0", "f", "F", "FALSE", "false", "False"].any (value == Bytes.ofString ·) then
    some "false"
  else none

namespace Flag

/-- A dash. -/
def dash : UInt8 := Bytes.code '-'

/-- Separates a name from its value. -/
def equals : UInt8 := Bytes.code '='

/-- What an argument turns out to be. -/
inductive Reading where
  /-- Not a flag: it and all that follows are for the command. -/
  | stop
  /-- Two dashes: only what follows is for the command. -/
  | stopAfter
  | failed (e : FlagError)
  | set (name value : Bytes)
  /-- The value is the next argument. -/
  | needsNext (name : Bytes)

/-- A name and, after `=`, its value. -/
def splitValue (text : Bytes) : Bytes × Option Bytes :=
  match text.dropWhile (· != equals) with
  | _ :: value => (text.takeWhile (· != equals), some value)
  | [] => (text, none)

/-- Reads a flag without its dashes. -/
def readNamed (flags : List Flag) (text : Bytes) : Reading :=
  let (name, value?) := splitValue text
  match flags.find? (·.name == name) with
  | none => .failed (if name == "help" || name == "h" then .help else .undefined name)
  | some flag =>
    match flag.kind, value? with
    | .switch, none => .set name "true"
    | .switch, some value =>
      match switchValue? value with
      | some v => .set name v
      | none => .failed (.badSwitch name value)
    | .text _, some value => .set name value
    | .text _, none => .needsNext name

/-- Reads an argument. -/
def readArgument (flags : List Flag) (argument : Bytes) : Reading :=
  let bare : Bytes → Reading := fun text =>
    match text with
    | [] => .failed (.badForm argument)
    | b :: _ =>
      if b == dash || b == equals then .failed (.badForm argument) else readNamed flags text
  match argument with
  | a :: b :: rest =>
    if a != dash then .stop
    else if b != dash then bare (b :: rest)
    else if rest.isEmpty then .stopAfter
    else bare rest
  | _ => .stop

/-- Reads the flags from the front of the arguments. The rest is for the command. -/
def parse (flags : List Flag) (settings : Settings) :
    List Bytes → Except FlagError (Settings × List Bytes)
  | [] => .ok (settings, [])
  | argument :: rest =>
    match readArgument flags argument with
    | .stop => .ok (settings, argument :: rest)
    | .stopAfter => .ok (settings, rest)
    | .failed e => .error e
    | .set name value => parse flags ((name, value) :: settings) rest
    | .needsNext name =>
      match rest with
      | [] => .error (.missingValue name)
      | value :: rest => parse flags ((name, value) :: settings) rest

/-- A flag in a list of flags. A switch with a name of one letter is explained on its line. -/
def line (f : Flag) : Bytes :=
  match f.kind with
  | .switch =>
    let gap : Bytes := if f.name.length ≤ 1 then "\t" else "\n    \t"
    "  -" ++ f.name ++ gap ++ f.about ++ "\n"
  | .text standard =>
    let note : Bytes := if standard.isEmpty then [] else " (default " ++ Text.quote standard ++ ")"
    "  -" ++ f.name ++ " string\n    \t" ++ f.about ++ note ++ "\n"

/-- A list of flags. -/
def lines (flags : List Flag) : Bytes := flags.flatMap line

/-- What a command prints when its flags are wrong. -/
def usage (command : Bytes) (flags : List Flag) : Bytes :=
  "Usage of " ++ command ++ ":\n" ++ lines flags

end Flag

end QuadAsm.Cli
