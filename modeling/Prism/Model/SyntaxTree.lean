import Prism.Foundation.Worklist

/-! Syntax trees as the analyzer reads them. A named node has children, a token has
none; every node knows the fields of its parent it stands in. -/

namespace Prism.Analyzer

/-- What is read of one node besides its children. -/
structure Info where
  type : String
  fields : List String
  startRow : ℕ
  endRow : ℕ
  endColumn : ℕ
  text : List Char
  deriving DecidableEq, Repr

inductive Node where
  | token (info : Info)
  | named (info : Info) (children : List Node)

namespace Node

def info : Node → Info
  | token info => info
  | named info _ => info

def children : Node → List Node
  | token _ => []
  | named _ children => children

def isNamed : Node → Bool
  | token _ => false
  | named _ _ => true

def type (n : Node) : String :=
  n.info.type

/-- `named_children`. -/
def namedChildren (n : Node) : List Node :=
  n.children.filter isNamed

/-- The index of the first child that stands in a field. -/
def fieldIndex (n : Node) (field : String) : Option ℕ :=
  n.children.findIdx? fun c => field ∈ c.info.fields

/-- `child_by_field_name`. -/
def childByFieldName (n : Node) (field : String) : Option Node :=
  n.children.find? fun c => field ∈ c.info.fields

/-- The text of a node that may be missing. -/
def textOf (n : Option Node) : List Char :=
  (n.map fun n => n.info.text).getD []

mutual

/-- The number of nodes of a tree. -/
def size : Node → ℕ
  | token _ => 1
  | named _ children => sizes children + 1

def sizes : List Node → ℕ
  | [] => 0
  | c :: cs => size c + sizes cs

end

end Node

/-- A parent and the index of one of its children. -/
structure Frame where
  parent : Node
  index : ℕ

/-- A node in its place: the frames above it, the innermost first. -/
structure Cursor where
  above : List Frame
  node : Node

namespace Cursor

def root (n : Node) : Cursor :=
  ⟨[], n⟩

def type (c : Cursor) : String :=
  c.node.type

def text (c : Cursor) : List Char :=
  c.node.info.text

/-- `node.parent`, with the place of the node in it. -/
def parent (c : Cursor) : Option Frame :=
  c.above.head?

def child (c : Cursor) (n : Node) (index : ℕ) : Cursor :=
  ⟨⟨c.node, index⟩ :: c.above, n⟩

/-- The named children in their places. -/
def next (c : Cursor) : List Cursor :=
  c.node.children.zipIdx.filterMap fun e => if e.1.isNamed then some (c.child e.1 e.2) else none

/-- Whether the node is the child its parent has in a field. -/
def standsIn (c : Cursor) (field : String) : Bool :=
  c.parent.any fun f => f.parent.fieldIndex field = some f.index

def size (c : Cursor) : ℕ :=
  c.node.size

/-- The named nodes of a tree in the order of the source. -/
def nodes (c : Cursor) : List Cursor :=
  Worklist.preorder next size c

/-- A cursor and the cursors of its ancestors, the innermost first. -/
def lineage (c : Cursor) : List Cursor :=
  c :: above c.above
where
  above : List Frame → List Cursor
    | [] => []
    | f :: fs => ⟨fs, f.parent⟩ :: above fs

end Cursor

end Prism.Analyzer
