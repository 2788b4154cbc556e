import MaterialGraph.Proofs.Expression.Layout
import MaterialGraph.Proofs.Store.Ownership

/-!
# What is seen of shared objects

A dump goes down from an object along all ways through its named parts.  On
each way it counts the direct calls that it has come through; lists,
annotations and blocks do not count.  Below the limit of depth nothing is seen.
-/

namespace MaterialGraph

namespace Object

def isDirectCall : Object → Bool
  | node (.directCall ..) => true
  | _ => false

end Object

/-- An object that a dump comes to, under a name and below direct calls. -/
structure Visit where
  name : String
  calls : Nat
  handle : Handle

namespace Store

def isDirectCall (store : Store) (handle : Handle) : Bool :=
  (store.object? handle).any Object.isDirectCall

def namedArguments (store : Store) (id : ListId) : List (String × Handle) :=
  match store.list? id with
  | some list => list.toList.map fun entry => (entry.1, .node entry.2)
  | none => []

/-- What is shown in an object, with the names under which it is shown.  The
annotations of a block are named by their positions. -/
def namedParts (store : Store) (handle : Handle) : List (String × Handle) :=
  match store.object? handle with
  | some (.node (.directCall _ _ list)) => store.namedArguments list
  | some (.list list) =>
      list.toList.map fun entry => (entry.1, .node entry.2)
  | some (.note note) => store.namedArguments note.arguments
  | some (.block notes) =>
      notes.toList.zipIdx.map fun entry => (toString entry.2, .note entry.1)
  | some (.table table) =>
      table.toList.map fun entry => (entry.1, .block entry.2)
  | _ => []

/-- The objects that are come to next. -/
def below (store : Store) (visit : Visit) : List Visit :=
  (store.namedParts visit.handle).map fun part =>
    ⟨part.1, visit.calls + if store.isDirectCall visit.handle then 1 else 0,
      part.2⟩

/-- The object at the end of a way on which a position is chosen at every
step. -/
def visit? (store : Store) : Visit → List Nat → Option Visit
  | visit, [] => some visit
  | visit, position :: rest =>
      (store.below visit)[position]?.bind (store.visit? · rest)

end Store

/-- What is seen of an object without its name and its parts. -/
inductive Look
  | leaf (kind : ExpressionKind) (type payload : String)
  | directCall (type target : String)
  | list
  | note (name : String)
  | block
  | table

/-- What is seen of an object.  The names of its parts are hidden for a direct
call that is not expanded. -/
structure Sight where
  name : String
  look : Look
  entries : Option (List String)

namespace Look

/-- The line of an object up to its parts. -/
def title (showTypes : Bool) (name : String) : Look → String
  | leaf kind type payload =>
      kind.text ++ " " ++ name ++ (if showTypes then ": " ++ type else "") ++
        " = " ++ payload
  | directCall type target =>
      ExpressionKind.directCall.text ++ " " ++ name ++
        (if showTypes then ": " ++ type else "") ++ " = " ++ target
  | list => "expression_list " ++ name ++ " = "
  | note annotation => "annotation " ++ name ++ " = " ++ annotation
  | block => "annotation_block " ++ name ++ " = "
  | table => "annotation_list " ++ name ++ " = "

/-- What stands before the parts and after them. -/
def brackets : Look → String × String
  | leaf .. => ("", "")
  | directCall .. | note _ => ("(", ")")
  | list | block | table => ("[", "]")

/-- What stands in place of parts if there are none. -/
def empty : Look → String
  | leaf .. => ""
  | directCall .. | note _ => "()"
  | list | block | table => "[ ]"

end Look

/-- The lines that show what is seen of an object. -/
def Sight.frame (showTypes : Bool) (sight : Sight) : Frame :=
  let title := sight.look.title showTypes sight.name
  match sight.entries with
  | none => ⟨title ++ "(...)", 0, ""⟩
  | some [] => ⟨title ++ sight.look.empty, 0, ""⟩
  | some names =>
      ⟨title ++ sight.look.brackets.1, names.length, sight.look.brackets.2⟩

namespace Object

/-- The look of an object in a dump of a style. -/
def look (style : DumpStyle) : Object → Look
  | node (.constant type value) => .leaf .constant type.text value.text
  | node (.call type tag) => .leaf .call type.text (style.target tag)
  | node (.parameter type index) =>
      .leaf .parameter type.text ("index " ++ toString index.toNat)
  | node (.directCall type tag _) =>
      .directCall type.text (style.target tag)
  | node (.temporary type index) =>
      .leaf .temporary type.text ("index " ++ toString index.toNat)
  | list _ => .list
  | note held => .note held.name
  | block _ => .block
  | table _ => .table

end Object

namespace Store

/-- What is seen of an object below no more direct calls than the limit.  The
names of its arguments are not seen of a direct call below as many. -/
def sight? (store : Store) (style : DumpStyle) (visit : Visit) : Option Sight :=
  if style.depth < visit.calls then
    none
  else
    (store.object? visit.handle).map fun object =>
      ⟨visit.name, object.look style,
        if object.isDirectCall && visit.calls == style.depth then none
        else some ((store.namedParts visit.handle).map Prod.fst)⟩

/-- What is seen at the end of a way. -/
def sightAt? (store : Store) (style : DumpStyle) (visit : Visit)
    (way : List Nat) : Option Sight :=
  (store.visit? visit way).bind (store.sight? style)

variable {store : Store} {style : DumpStyle} {visit : Visit}

theorem sightAt?_nil :
    store.sightAt? style visit [] = store.sight? style visit :=
  rfl

theorem sightAt?_cons (position : Nat) (rest : List Nat) :
    store.sightAt? style visit (position :: rest) =
      (store.below visit)[position]?.bind
        (store.sightAt? style · rest) := by
  simp only [sightAt?, visit?, Option.bind_assoc]

/-- Direct calls are counted on the way, and nothing else is. -/
theorem calls_of_getElem?_below {position : Nat} {child : Visit}
    (taken : (store.below visit)[position]? = some child) :
    child.calls =
      visit.calls + if store.isDirectCall visit.handle then 1 else 0 := by
  obtain ⟨part, -, rfl⟩ := List.mem_map.mp (List.mem_of_getElem? taken)
  rfl

/-- Nothing is seen below the limit. -/
theorem sightAt?_eq_none (deep : style.depth < visit.calls) (way : List Nat) :
    store.sightAt? style visit way = none := by
  induction way generalizing visit with
  | nil => rw [sightAt?_nil, sight?, if_pos deep]
  | cons position rest induction =>
      rw [sightAt?_cons]
      cases taken : (store.below visit)[position]? with
      | none => rfl
      | some child =>
          have counted := calls_of_getElem?_below taken
          exact induction (counted ▸ Nat.lt_add_right _ deep)

section Sight

variable {handle : Handle} {object : Object} {calls : Nat}

/-- All is seen of an object that is not cut off. -/
theorem sight?_eq_some (there : store.object? handle = some object)
    (inLimit : calls ≤ style.depth)
    (whole : object.isDirectCall = true → calls ≠ style.depth) (name : String) :
    store.sight? style ⟨name, calls, handle⟩ =
      some ⟨name, object.look style,
        some ((store.namedParts handle).map Prod.fst)⟩ := by
  have noDeeper : ¬style.depth < calls := Nat.not_lt_of_le inLimit
  simpa [sight?, noDeeper, there] using whole

/-- The names of the arguments of a direct call at the limit are not seen. -/
theorem sight?_eq_some_of_cut (there : store.object? handle = some object)
    (isCall : object.isDirectCall = true) (name : String) :
    store.sight? style ⟨name, style.depth, handle⟩ =
      some ⟨name, object.look style, none⟩ := by
  simp [sight?, there, isCall]

end Sight

end Store

end MaterialGraph
