import QuadAsm.Yaml.Cursor

/-!
# Tokens

The text of a document is read as a row of tokens, each with the line it starts on. Indentation has
become brackets: a block collection opens with a start token and closes with `blockEnd`. Tags are
byte strings: they may spell bytes that are no characters.
-/

namespace QuadAsm.Yaml

/-- What a token is. -/
inductive Lexeme where
  | streamEnd
  | versionDirective (major minor : Nat)
  | tagDirective (handle : String) (lead : Bytes)
  | documentStart
  | documentEnd
  | blockSequenceStart
  | blockMappingStart
  | blockEnd
  | flowSequenceStart
  | flowSequenceEnd
  | flowMappingStart
  | flowMappingEnd
  | blockEntry
  | flowEntry
  | key
  | value
  | reference (name : String)
  | anchor (name : String)
  | tag (handle : String) (suffix : Bytes)
  | scalar (plain : Bool) (text : String)
  deriving DecidableEq, Repr

/-- A lexeme and the line it starts on, counted from zero. -/
structure Token where
  line : Nat
  lexeme : Lexeme
  deriving DecidableEq, Repr

end QuadAsm.Yaml
