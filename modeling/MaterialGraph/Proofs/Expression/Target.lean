import MaterialGraph.Expression.Dump
import MaterialGraph.Proofs.Expression.Parts

/-!
# How a dump shows tags

A dump looks up the tags of an expression and no others.  Tables that give
these tags the same names therefore lead to the same dump, and if all of them
have names it does not matter what would be shown for a tag without a name.
-/

namespace MaterialGraph

/-- The name of a tag, or else what is shown for tags without a name. -/
def TagNames.shown (names : TagNames) (unnamed : Tag → String) (tag : Tag) :
    String :=
  (names.resolve? tag).getD (unnamed tag)

namespace DumpStyle

/-- The style with another table of names. -/
def withNames (style : DumpStyle) (names : TagNames) : DumpStyle :=
  { style with names := some names }

theorem target_withNames (style : DumpStyle) (names : TagNames) (tag : Tag) :
    (style.withNames names).target tag = names.shown Tag.text tag := by
  unfold target withNames TagNames.shown
  dsimp only [Option.bind_some]
  cases names.resolve? tag <;> rfl

end DumpStyle

namespace Expression

mutual

/-- The lines of an expression whose tags are shown in a given way. -/
def linesShowing (style : DumpStyle) (shown : Tag → String) (name : String)
    (level calls : Nat) (expression : Expression) : List Line :=
  let head := style.head name expression
  match expression with
  | constant _ value => [⟨level, head ++ value.text⟩]
  | call _ tag => [⟨level, head ++ shown tag⟩]
  | parameter _ index => [⟨level, head ++ "index " ++ toString index.toNat⟩]
  | temporary _ index => [⟨level, head ++ "index " ++ toString index.toNat⟩]
  | directCall _ tag arguments =>
      if style.cuts calls then
        [⟨level, head ++ shown tag ++ "(...)"⟩]
      else
        bracketed level (head ++ shown tag) "(" ")" "()"
          (entryLinesShowing style shown (level + 1) (calls + 1) arguments)

def entryLinesShowing (style : DumpStyle) (shown : Tag → String)
    (level calls : Nat) : Arguments → List Line
  | [] => []
  | (name, expression) :: rest =>
      linesShowing style shown name level calls expression ++
        entryLinesShowing style shown level calls rest

end

section Lines

variable {style : DumpStyle} {names : TagNames} {shown other : Tag → String}

mutual

theorem lines_withNames (name : String) (level calls : Nat)
    (expression : Expression) :
    lines (style.withNames names) name level calls expression =
      linesShowing style (names.shown Tag.text) name level calls
        expression := by
  match expression with
  | constant .. | parameter .. | temporary .. => rfl
  | call type tag =>
      rw [lines, linesShowing, DumpStyle.target_withNames]
      rfl
  | directCall type tag arguments =>
      rw [lines, linesShowing, DumpStyle.target_withNames,
        entryLines_withNames]
      rfl

theorem entryLines_withNames (level calls : Nat) (arguments : Arguments) :
    entryLines (style.withNames names) level calls arguments =
      entryLinesShowing style (names.shown Tag.text) level calls
        arguments := by
  match arguments with
  | [] => rfl
  | (name, expression) :: rest =>
      rw [entryLines, entryLinesShowing, lines_withNames, entryLines_withNames]

end

mutual

/-- Only the tags that are parts of the expression are shown. -/
theorem linesShowing_congr {name : String} {level calls : Nat}
    {expression : Expression}
    (agree : ∀ tag, .tag tag ∈ expression.parts calls →
      shown tag = other tag) :
    linesShowing style shown name level calls expression =
      linesShowing style other name level calls expression := by
  match expression with
  | constant .. | parameter .. | temporary .. => rfl
  | call type tag =>
      have same : shown tag = other tag := agree tag (by simp [parts])
      rw [linesShowing, linesShowing, same]
  | directCall type tag arguments =>
      have same : shown tag = other tag := agree tag (by simp [parts])
      have inside : ∀ inner, .tag inner ∈ entryParts (calls + 1) arguments →
          shown inner = other inner :=
        fun inner member => agree inner (by simp [parts, member])
      rw [linesShowing, linesShowing, same, entryLinesShowing_congr inside]

theorem entryLinesShowing_congr {level calls : Nat} {arguments : Arguments}
    (agree : ∀ tag, .tag tag ∈ entryParts calls arguments →
      shown tag = other tag) :
    entryLinesShowing style shown level calls arguments =
      entryLinesShowing style other level calls arguments := by
  match arguments with
  | [] => rfl
  | (name, expression) :: rest =>
      have first : ∀ tag, .tag tag ∈ expression.parts calls →
          shown tag = other tag :=
        fun tag member => agree tag (by simp [entryParts, member])
      have others : ∀ tag, .tag tag ∈ entryParts calls rest →
          shown tag = other tag :=
        fun tag member => agree tag (by simp [entryParts, member])
      rw [entryLinesShowing, entryLinesShowing, linesShowing_congr first,
        entryLinesShowing_congr others]

end

end Lines

/-- All tags of an expression have names. -/
def IsNamedBy (names : TagNames) (expression : Expression) : Prop :=
  ∀ calls tag, .tag tag ∈ expression.parts calls →
    (names.resolve? tag).isSome

/-- Where all tags have names, any table that agrees on them will do, and
nothing is shown that stands for a missing name. -/
theorem IsNamedBy.dump_eq {names other : TagNames} {expression : Expression}
    (named : expression.IsNamedBy names)
    (agree : ∀ tag, (names.resolve? tag).isSome →
      other.resolve? tag = names.resolve? tag)
    (style : DumpStyle) (name : String) (unnamed : Tag → String) :
    (Tree.expression expression).dump (style.withNames other) name =
      Line.renderAll style.indentWidth
        (expression.linesShowing style (names.shown unnamed) name 0 0) := by
  have lines : expression.lines (style.withNames other) name 0 0 =
      expression.linesShowing style (names.shown unnamed) name 0 0 := by
    rw [lines_withNames]
    apply linesShowing_congr
    intro tag member
    have isSome := named 0 tag member
    obtain ⟨shown, found⟩ := Option.isSome_iff_exists.mp isSome
    rw [TagNames.shown, TagNames.shown, agree tag isSome, found]
    rfl
  exact congrArg (Line.renderAll style.indentWidth) lines

end Expression

end MaterialGraph
