import MaterialGraph.Store.Basic

/-!
# Placing trees in a store

A tree is placed by making a new object for each of its nodes and lists.  A
placed tree therefore shares nothing, neither within itself nor with what was
in the store before.
-/

namespace MaterialGraph

open Store

namespace Expression

mutual

def place : Expression → StateM Store NodeId
  | constant type value => newNode (.constant type value)
  | call type tag => newNode (.call type tag)
  | parameter type index => newNode (.parameter type index)
  | directCall type tag arguments => do
      let entries ← placeEntries arguments
      let list ← newList (.ofList entries)
      newNode (.directCall type tag list)
  | temporary type index => newNode (.temporary type index)

def placeEntries : Arguments → StateM Store (List (String × NodeId))
  | [] => return []
  | (name, expression) :: rest => do
      let child ← expression.place
      let others ← placeEntries rest
      return (name, child) :: others

end

end Expression

namespace Arguments

def place (arguments : Arguments) : StateM Store ListId := do
  let entries ← Expression.placeEntries arguments
  newList (.ofList entries)

end Arguments

namespace AnnotationCall

def place (call : AnnotationCall) : StateM Store NoteId := do
  let arguments ← Arguments.place call.arguments
  newNote ⟨call.name, arguments⟩

end AnnotationCall

namespace AnnotationBlock

def placeCalls : AnnotationBlock → StateM Store (List NoteId)
  | [] => return []
  | call :: rest => do
      let note ← call.place
      let others ← placeCalls rest
      return note :: others

def place (block : AnnotationBlock) : StateM Store BlockId := do
  let notes ← placeCalls block
  newBlock notes.toArray

end AnnotationBlock

namespace AnnotationTable

def placeEntries : AnnotationTable → StateM Store (List (String × BlockId))
  | [] => return []
  | (name, block) :: rest => do
      let child ← AnnotationBlock.place block
      let others ← placeEntries rest
      return (name, child) :: others

def place (table : AnnotationTable) : StateM Store TableId := do
  let entries ← placeEntries table
  newTable (.ofList entries)

end AnnotationTable

namespace Tree

def place : Tree → StateM Store Handle
  | expression root => Handle.node <$> root.place
  | arguments entries => Handle.list <$> Arguments.place entries
  | annotationCall call => Handle.note <$> call.place
  | annotationBlock calls => Handle.block <$> AnnotationBlock.place calls
  | annotationTable entries => Handle.table <$> AnnotationTable.place entries

end Tree

end MaterialGraph
