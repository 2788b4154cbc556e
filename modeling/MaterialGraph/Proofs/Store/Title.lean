import MaterialGraph.Proofs.Expression.Rows
import MaterialGraph.Proofs.Store.Sight

/-!
# The opening lines of objects

The line that opens an object has its name in it, and a few texts that come
from elsewhere and are shown as they are: those of types and values of other
systems, the names of annotations and the names that tags resolve to.  All
other text in the line is without newlines.
-/

namespace MaterialGraph

namespace ValueType

/-- The text of a type of another system. -/
def rawTexts : ValueType → List String
  | basic _ => []
  | foreign shown => [shown]

theorem oneLine_text {type : ValueType}
    (plain : ∀ raw ∈ type.rawTexts, OneLine raw) : OneLine type.text := by
  cases type with
  | basic type => exact type.oneLine_text
  | foreign shown => exact plain shown (List.mem_singleton_self shown)

end ValueType

namespace Value

/-- The text of a value of another system. -/
def rawTexts : Value → List String
  | basic _ => []
  | foreign shown => [shown]

theorem oneLine_text {value : Value}
    (plain : ∀ raw ∈ value.rawTexts, OneLine raw) : OneLine value.text := by
  cases value with
  | basic value => exact value.oneLine_text
  | foreign shown => exact plain shown (List.mem_singleton_self shown)

end Value

namespace DumpStyle

/-- The name of a tag, if one is known. -/
def resolved (style : DumpStyle) (tag : Tag) : List String :=
  (style.names.bind (·.resolve? tag)).toList

theorem oneLine_target {style : DumpStyle} {tag : Tag}
    (plain : ∀ raw ∈ style.resolved tag, OneLine raw) :
    OneLine (style.target tag) := by
  unfold target
  split
  · rename_i name known
    exact plain name (Option.mem_toList.mpr known)
  · exact tag.oneLine_text

end DumpStyle

/-- The texts from elsewhere in what an expression shows after its type. -/
def Node.rawPayload (style : DumpStyle) : Node → List String
  | constant _ value => value.rawTexts
  | call _ tag => style.resolved tag
  | directCall _ tag _ => style.resolved tag
  | parameter .. => []
  | temporary .. => []

/-- The texts from elsewhere in what is shown of an object itself. -/
def Object.rawTexts (style : DumpStyle) : Object → List String
  | node inner =>
      (if style.showTypes then inner.type.rawTexts else []) ++
        inner.rawPayload style
  | note held => [held.name]
  | list _ => []
  | block _ => []
  | table _ => []

section OneLine

variable {name : String}

theorem oneLine_expression {type payload : String} (kind : ExpressionKind)
    (showTypes : Bool) (plainName : OneLine name)
    (plainType : showTypes = true → OneLine type)
    (plainPayload : OneLine payload) :
    OneLine (kind.text ++ " " ++ name ++
      (if showTypes then ": " ++ type else "") ++ " = " ++ payload) := by
  have blank : OneLine " " := by decide
  have equals : OneLine " = " := by decide
  have typed : OneLine (if showTypes then ": " ++ type else "") := by
    have colon : OneLine ": " := by decide
    split
    · exact colon.append (plainType ‹_›)
    · decide
  exact ((((kind.oneLine_text.append blank).append plainName).append typed).append
    equals).append plainPayload

/-- An object is shown in one line up to its parts, if its name and the texts
from elsewhere are. -/
theorem Object.oneLine_title {style : DumpStyle} {object : Object}
    (plainName : OneLine name)
    (plain : ∀ raw ∈ object.rawTexts style, OneLine raw) :
    OneLine ((object.look style).title style.showTypes name) := by
  have equals : OneLine " = " := by decide
  cases object with
  | node node =>
      rw [rawTexts, List.forall_mem_append] at plain
      have plainType (shown : style.showTypes = true) :
          OneLine node.type.text := by
        have plain := plain.1
        rw [if_pos shown] at plain
        exact ValueType.oneLine_text plain
      have plainIndex (index : UInt64) :
          OneLine ("index " ++ toString index.toNat) := by
        have word : OneLine "index " := by decide
        exact word.append (oneLine_toString index.toNat)
      cases node with
      | constant type value =>
          exact oneLine_expression .constant _ plainName plainType
            (Value.oneLine_text plain.2)
      | call type tag =>
          exact oneLine_expression .call _ plainName plainType
            (DumpStyle.oneLine_target plain.2)
      | parameter type index =>
          exact oneLine_expression .parameter _ plainName plainType
            (plainIndex index)
      | directCall type tag list =>
          exact oneLine_expression .directCall _ plainName plainType
            (DumpStyle.oneLine_target plain.2)
      | temporary type index =>
          exact oneLine_expression .temporary _ plainName plainType
            (plainIndex index)
  | note held =>
      have word : OneLine "annotation " := by decide
      exact ((word.append plainName).append equals).append
        (plain held.name (List.mem_singleton_self held.name))
  | list entries =>
      have word : OneLine "expression_list " := by decide
      exact (word.append plainName).append equals
  | block notes =>
      have word : OneLine "annotation_block " := by decide
      exact (word.append plainName).append equals
  | table entries =>
      have word : OneLine "annotation_list " := by decide
      exact (word.append plainName).append equals

end OneLine

section Opening

theorem ExpressionKind.startsFlush_text (kind : ExpressionKind) :
    StartsFlush kind.text := by
  cases kind <;> exact ⟨_, _, rfl, by decide⟩

/-- An object begins with a word. -/
theorem Look.startsFlush_title (showTypes : Bool) (name : String) (look : Look) :
    StartsFlush (look.title showTypes name) := by
  cases look with
  | leaf kind type payload =>
      exact ((((kind.startsFlush_text.append _).append _).append _).append
        _).append _
  | directCall type target =>
      exact ((((ExpressionKind.directCall.startsFlush_text.append _).append
        _).append _).append _).append _
  | list => exact (StartsFlush.append ⟨_, _, rfl, by decide⟩ _).append _
  | block => exact (StartsFlush.append ⟨_, _, rfl, by decide⟩ _).append _
  | table => exact (StartsFlush.append ⟨_, _, rfl, by decide⟩ _).append _
  | note annotation =>
      exact ((StartsFlush.append ⟨_, _, rfl, by decide⟩ _).append _).append _

/-- What stands in the opening line after the title is in that line. -/
theorem Sight.exists_opening (showTypes : Bool) (sight : Sight) :
    ∃ rest, OneLine rest ∧ (sight.frame showTypes).opening =
      sight.look.title showTypes sight.name ++ rest := by
  obtain ⟨name, look, entries⟩ := sight
  cases entries with
  | none => exact ⟨"(...)", by decide, rfl⟩
  | some names =>
      cases names with
      | nil =>
          refine ⟨look.empty, ?_, rfl⟩
          cases look <;> simp only [Look.empty] <;> decide
      | cons first rest =>
          refine ⟨look.brackets.1, ?_, rfl⟩
          cases look <;> simp only [Look.brackets] <;> decide

end Opening

end MaterialGraph
