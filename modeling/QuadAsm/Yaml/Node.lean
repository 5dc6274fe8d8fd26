import QuadAsm.Yaml.Token

/-!
# Document trees

A node keeps the line it starts on and its tag in short form (`!!str`, `!foo`). A tag is a row of
bytes, since its escapes can spell anything. An alias names the anchor it refers to and holds the
number of that anchor's definition, so a document is a tree even when a node refers to itself.
-/

namespace QuadAsm.Yaml

namespace Tag

/-- What `!!` stands for. -/
def standard : Bytes := "tag:yaml.org,2002:"

def null : Bytes := "!!null"
def bool : Bytes := "!!bool"
def int : Bytes := "!!int"
def float : Bytes := "!!float"
def str : Bytes := "!!str"
def timestamp : Bytes := "!!timestamp"
def binary : Bytes := "!!binary"
def merge : Bytes := "!!merge"
def seq : Bytes := "!!seq"
def map : Bytes := "!!map"

/-- Writes the standard tags with `!!`. -/
def short (tag : Bytes) : Bytes :=
  if standard.isPrefixOf tag then "!!" ++ tag.drop standard.length else tag

end Tag

/-- A node of a document. Lines count from one. -/
inductive Node where
  | scalar (line : Nat) (tag : Bytes) (text : String)
  | sequence (line : Nat) (tag : Bytes) (items : List Node)
  | mapping (line : Nat) (tag : Bytes) (entries : List (Node × Node))
  /-- Alias `number` of the document. -/
  | reference (line : Nat) (name : String) (definition number : Nat)
  deriving Inhabited

namespace Node

/-- The line a node starts on. -/
def line : Node → Nat
  | scalar l .. | sequence l .. | mapping l .. | reference l .. => l

/-- The tag of a node. An alias has none of its own. -/
def tag : Node → Bytes
  | scalar _ t _ | sequence _ t _ | mapping _ t _ => t
  | reference .. => []

/-- The text of a scalar or the name of an alias; collections have none. -/
def text : Node → String
  | scalar _ _ t => t
  | reference _ n _ _ => n
  | _ => ""

/-- Whether two nodes are of the same kind: two scalars, two sequences, and so on. -/
def sameKind : Node → Node → Bool
  | scalar .., scalar .. | sequence .., sequence .. | mapping .., mapping .. => true
  | reference .., reference .. => true
  | _, _ => false

/-- Whether a mapping may not hold both of these as keys. -/
def clashes (a b : Node) : Bool := a.sameKind b && a.text == b.text

/-- Whether a key merges another mapping in. -/
def isMerge : Node → Bool
  | scalar _ tag text => text == "<<" && tag == Tag.merge
  | _ => false

end Node

/-- A document with the nodes that its anchors define. -/
structure Document where
  root : Node
  /-- Definition `n` of an anchor is at position `n`. -/
  anchors : Array Node
  /-- How many aliases the document holds. -/
  aliases : Nat
  /-- A bound on the number of nodes on a path from the root. -/
  depth : Nat

/-- What an alias refers to; other nodes stand for themselves. -/
def Document.resolve (d : Document) : Node → Node
  | .reference line name n number => d.anchors.getD n (.reference line name n number)
  | node => node

end QuadAsm.Yaml
