import SafeCalls.Yaml.Token

namespace SafeCalls.Yaml

/-!
# Nodes

The nodes of a document form a tree. Where the text is at fault the tree has a broken node or a
mapping that is cut off, so that whoever decodes it in reading order meets the fault in its place.
-/

structure Scalar where
  text : String
  style : ScalarStyle
  tag : Option Tag
  deriving DecidableEq, Repr

namespace Scalar

/-- What stands for a node that is left out. -/
def empty : Scalar := ⟨"", .plain, none⟩

end Scalar

inductive Node where
  | scalar (scalar : Scalar)
  | list (tag : Option Tag) (items : List Node)
  /-- A mapping with its keys and values, perhaps cut off by a fault. -/
  | mapping (tag : Option Tag) (entries : List (Node × Node)) (isCut : Bool)
  /-- The node with the given anchor. -/
  | alias (anchor : Nat)
  /-- A node with an anchor. -/
  | anchored (anchor : Nat) (node : Node)
  /-- There should be a node, and there is a fault. -/
  | broken
  deriving Repr

namespace Node

def empty : Node := scalar .empty

mutual

/-- The last node, in the order of their starts, that has the given anchor. -/
def target? (anchor : Nat) : Node → Option Node
  | anchored a node => (target? anchor node).or (if a = anchor then some node else none)
  | list _ items => itemTarget? anchor items
  | mapping _ entries _ => entryTarget? anchor entries
  | _ => none

def itemTarget? (anchor : Nat) : List Node → Option Node
  | [] => none
  | item :: more => (itemTarget? anchor more).or (target? anchor item)

def entryTarget? (anchor : Nat) : List (Node × Node) → Option Node
  | [] => none
  | (key, value) :: more =>
      ((entryTarget? anchor more).or (target? anchor value)).or (target? anchor key)

end

end Node

end SafeCalls.Yaml
