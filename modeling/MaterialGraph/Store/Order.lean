import MaterialGraph.Store.Basic

/-!
# Comparing objects of a store

The order is that of the unfolded trees.  Identical objects are equal without
a look at what they hold, so that objects that own themselves can be compared
with themselves.
-/

namespace MaterialGraph

namespace Store

/-- Entry by entry, as far as both lists have entries. -/
def compareEntries? (compareNodes? : NodeId → NodeId → Option Ordering) :
    List (String × NodeId) → List (String × NodeId) → Option Ordering
  | (name, child) :: rest, (name', child') :: rest' =>
      match compare name name' with
      | .eq => do
          match ← compareNodes? child child' with
          | .eq => compareEntries? compareNodes? rest rest'
          | decided => return decided
      | decided => some decided
  | _, _ => some .eq

/-- Two lists, given the order of their expressions. -/
def compareLists? (store : Store)
    (compareNodes? : NodeId → NodeId → Option Ordering)
    (left right : ListId) : Option Ordering :=
  if left = right then
    some .eq
  else do
    let list ← store.list? left
    let list' ← store.list? right
    match compare list.size list'.size with
    | .eq => compareEntries? compareNodes? list.toList list'.toList
    | decided => return decided

/-- What two expressions of one kind carry, given the order of lists. -/
def comparePayloads? (compareLists? : ListId → ListId → Option Ordering) :
    Node → Node → Option Ordering
  | .constant _ value, .constant _ value' => some (compare value value')
  | .call _ tag, .call _ tag' => some (compare tag tag')
  | .parameter _ index, .parameter _ index' => some (compare index index')
  | .directCall _ tag list, .directCall _ tag' list' =>
      match compare tag tag' with
      | .eq => compareLists? list list'
      | decided => some decided
  | .temporary _ index, .temporary _ index' => some (compare index index')
  | _, _ => some .eq

/-- Two expressions, if no path from the first that has to be followed has
more than `length` expressions. -/
def compareNodesWithin? (store : Store) : (length : Nat) → NodeId → NodeId →
    Option Ordering
  | 0, left, right => if left = right then some .eq else none
  | length + 1, left, right =>
      if left = right then
        some .eq
      else do
        let node ← store.node? left
        let node' ← store.node? right
        match (compare node.kind node'.kind).then
            (compare node.type node'.type) with
        | .eq =>
            comparePayloads?
              (store.compareLists? (store.compareNodesWithin? length))
              node node'
        | decided => return decided

/-- The order of two expressions or two lists. -/
def compareNodes? (store : Store) (left right : NodeId) : Option Ordering :=
  store.compareNodesWithin? store.nodes.size left right

/-- The order of two lists of arguments. -/
def compareArguments? (store : Store) (left right : ListId) : Option Ordering :=
  store.compareLists? store.compareNodes? left right

end Store

end MaterialGraph
