import PathQuery.Error
import PathQuery.Graph.Basic

/-!
# Pending accesses

Accessing a property does nothing by itself: it leaves the node reached pending, and the next
operation on a node takes it from here. An access that starts at the node pending last continues
that chain and takes its place.

Main statement: `record_continued`.
-/

namespace PathQuery

/-- What a program holds of a node: its number and the kind it had when it was handed out. -/
structure Placeholder where
  node : Nat
  kind : NodeKind
deriving DecidableEq, Repr

/-- Whether the placeholder stands for a plain value. -/
def Placeholder.isScalar (p : Placeholder) : Bool := !p.kind.hasProperties

/-- The nodes reached by accesses not yet consumed, oldest first. -/
structure Pending where
  nodes : List Nat
deriving DecidableEq, Repr

namespace Pending

def none : Pending := ⟨[]⟩

def isEmpty (p : Pending) : Bool := p.nodes.isEmpty

def size (p : Pending) : Nat := p.nodes.length

/-- Records that a child was reached from a parent. -/
def record (p : Pending) (parent child : Nat) : Pending :=
  if p.nodes.getLast? = some parent then ⟨p.nodes.dropLast ++ [child]⟩
  else ⟨p.nodes ++ [child]⟩

/-- The one pending node. -/
def single (p : Pending) (operation : String) : Except Error Nat :=
  match p.nodes with
  | [node] => .ok node
  | nodes => .error (.pendingAccess operation nodes.length)

theorem record_continued (nodes : List Nat) (parent child : Nat) :
    (Pending.mk (nodes ++ [parent])).record parent child = ⟨nodes ++ [child]⟩ := by
  simp [record]

end Pending

end PathQuery
