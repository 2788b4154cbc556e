import MaterialGraph.Proofs.Expression.Encoding
import MaterialGraph.Proofs.Expression.Injective
import MaterialGraph.Proofs.Expression.Reading
import MaterialGraph.Proofs.Expression.Refusal
import MaterialGraph.Proofs.Expression.Spelling
import MaterialGraph.Proofs.Store.Order
import MaterialGraph.Proofs.Store.Outline

/-!
# Writing and reading objects of a store

What is written for an object without cycles can be read again whatever follows
it, unless a reader refuses a part of the object.  Readers accept the words of
the grammar and nothing else.  Two expressions or two lists with basic types and
values have the same bytes only if they compare as equal.
-/

namespace MaterialGraph

open ByteStream

namespace Store

/-- Bytes that can be read make an object with the tree that they denote. -/
theorem apply_decode {store : Store} {form : Form} {bytes : List UInt8}
    {tree : Tree} {left : Reader}
    (read : form.decode (.ofList bytes) = .ok tree left) :
    store.apply (.decode form bytes) = .ok (tree.place.run store) := by
  simp [apply, decodeTree, read, create, bind, Except.bind]

/-- An object is read back from its bytes, whatever follows them. -/
theorem decode_encode_append (operations : List Operation) {handle : Handle}
    {tree : Tree} (unfolds : (run {} operations).unfolding? handle = some tree)
    (storable : tree.IsStorable) (following : List UInt8) :
    ∃ bytes left copy changed,
      (run {} operations).encode handle = .ok bytes ∧
      tree.form.decode (.ofList (bytes ++ following)) = .ok tree left ∧
      left.position = bytes.length ∧
      (run {} operations).apply (.decode tree.form (bytes ++ following)) =
        .ok (copy, changed) ∧
      changed.unfolding? handle = some tree ∧
      changed.unfolding? copy = some tree ∧
      changed.encode copy = .ok bytes ∧
      (tree.form.IsOrdered → changed.compare handle copy = .ok .eq) := by
  have read := (accepts_decode tree.form).ofList_append
    ⟨rfl, denotes_encode storable⟩ following
  have added := tree.addsTo_place (run {} operations)
  have consistent := added.consistent (consistent_run operations)
  have unfoldsLater := added.grows.unfolding? unfolds
  have unfoldsCopy :=
    tree.unfolding?_place (run {} operations) storable.distinct
  refine ⟨tree.encode, _, _, _,
    encode_eq_ok (consistent_run operations) unfolds, read, by simp,
    apply_decode read, unfoldsLater, unfoldsCopy,
    encode_eq_ok consistent unfoldsCopy, fun ordered => ?_⟩
  exact compare_eq_ok consistent unfoldsLater unfoldsCopy
    (tree.compare?_self ordered)

/-- A call within a call, and a constant whose value is not of its type. -/
def layeredMaterial : Tree :=
  .expression (.directCall (.basic .material) ⟨100⟩
    [("tint", .constant (.basic .color) (.basic (.float ⟨0x7fc00001⟩))),
      ("base", .directCall (.basic .bsdf) ⟨7⟩
        [("roughness", .parameter (.basic .float) 3)])])

theorem isStorable_layeredMaterial : layeredMaterial.IsStorable := by
  rw [Tree.isStorable_iff]
  simp only [layeredMaterial, Tree.parts, Expression.parts,
    Expression.entryParts, List.map_cons, List.map_nil, List.cons_append,
    List.nil_append, List.append_nil, List.forall_mem_cons]
  exact ⟨.expression (by decide), .type trivial, .tag (by decide),
    .names (by decide) (by decide), .name (by decide),
    .expression (by decide), .type trivial, .value trivial (by decide),
    .name (by decide), .expression (by decide), .type trivial,
    .tag (by decide), .names (by decide) (by decide), .name (by decide),
    .expression (by decide), .type trivial, by simp⟩

theorem decode_encode_append_layeredMaterial :
    ∃ handle bytes left copy changed,
      (run {} [.place layeredMaterial]).unfolding? handle =
        some layeredMaterial ∧
      (run {} [.place layeredMaterial]).encode handle = .ok bytes ∧
      Form.expression.decode (.ofList (bytes ++ [0xff])) =
        .ok layeredMaterial left ∧
      left.position = bytes.length ∧
      (run {} [.place layeredMaterial]).apply
        (.decode .expression (bytes ++ [0xff])) = .ok (copy, changed) ∧
      changed.compare handle copy = .ok .eq := by
  have unfolds : (run {} [.place layeredMaterial]).unfolding?
      (layeredMaterial.place.run {}).1 = some layeredMaterial :=
    layeredMaterial.unfolding?_place {} isStorable_layeredMaterial.distinct
  obtain ⟨bytes, left, copy, changed, encoded, decoded, position, applied,
    -, -, -, compared⟩ :=
    decode_encode_append _ unfolds isStorable_layeredMaterial [0xff]
  exact ⟨_, bytes, left, copy, changed, unfolds, encoded, decoded, position,
    applied, compared trivial⟩

/-- Bytes that are refused make no object. -/
theorem apply_decode_error {store : Store} {form : Form} {bytes : List UInt8}
    {reason : DecodeError} {left : Reader}
    (refused : form.decode (.ofList bytes) = .error reason left) :
    store.apply (.decode form bytes) = .error (.decode reason) := by
  simp [apply, decodeTree, refused, bind, Except.bind]

/-- An object with a part of another system, or with an expression that is
nested too deeply, is not read back from its bytes, whatever follows them.  The
first such part in the order of writing gives the reason, unless there is a
length before it that does not fit 64 bits. -/
theorem decode_encode_append_refused (operations : List Operation)
    {handle : Handle} {tree : Tree}
    (unfolds : (run {} operations).unfolding? handle = some tree)
    (tagged : tree.IsTagged) (distinct : tree.IsDistinct)
    (unreadable : ¬tree.IsBasic ∨ ¬tree.IsNested) (following : List UInt8) :
    ∃ bytes before part after reason left,
      (run {} operations).encode handle = .ok bytes ∧
      tree.parts = before ++ part :: after ∧
      (∀ earlier ∈ before, earlier.IsStorable) ∧
      (part.Unreadable reason ∨ ¬part.IsSized ∧ reason = .overflow) ∧
      tree.form.decode (.ofList (bytes ++ following)) = .error reason left ∧
      (run {} operations).apply (.decode tree.form (bytes ++ following)) =
        .error (.decode reason) := by
  have answers := answers_decode tagged distinct
  cases first : refusalIn? tree.parts with
  | none =>
      have accepted : ∀ part ∈ tree.parts, part.refusal? = none :=
        List.findSome?_eq_none_iff.mp first
      have storable : ∀ part ∈ tree.parts, part.IsStorable := by
        intro part member
        exact Part.isStorable_of_refusal?_eq_none (tagged part member)
          (distinct part member) (accepted part member)
      rcases unreadable with foreignPart | tooDeep
      · exact (foreignPart fun part member => (storable part member).basic).elim
      · exact (tooDeep fun part member => (storable part member).nested).elim
  | some reason =>
      rw [first] at answers
      obtain ⟨before, part, after, split, earlier, cause⟩ :=
        exists_part_of_refusalIn?_eq_some tagged distinct first
      obtain ⟨left, refused⟩ := answers.refusal_of_ofList_append following
      exact ⟨tree.encode, before, part, after, reason, left,
        encode_eq_ok (consistent_run operations) unfolds, split, earlier, cause,
        refused, apply_decode_error refused⟩

/-- A value and a type of other systems in one list. -/
def foreignArguments : Tree :=
  .arguments [("tint", .constant (.basic .color) (.foreign "red")),
    ("normal", .parameter (.foreign "vector") 0)]

theorem decode_encode_append_refused_foreignArguments :
    ∃ handle bytes before part after reason left,
      (run {} [.place foreignArguments]).encode handle = .ok bytes ∧
      foreignArguments.parts = before ++ part :: after ∧
      (∀ earlier ∈ before, earlier.IsStorable) ∧
      (part.Unreadable reason ∨ ¬part.IsSized ∧ reason = .overflow) ∧
      Form.arguments.decode (.ofList (bytes ++ [0x80])) =
        .error reason left := by
  have tagged : foreignArguments.IsTagged := by
    simp [Tree.IsTagged, foreignArguments, Tree.parts, Arguments.parts,
      Expression.entryParts, Expression.parts, Part.IsTagged]
  have distinct : foreignArguments.IsDistinct := by
    simp [Tree.IsDistinct, foreignArguments, Tree.parts, Arguments.parts,
      Expression.entryParts, Expression.parts, Part.IsDistinct]
  have foreignPart : ¬foreignArguments.IsBasic := by
    simp [Tree.IsBasic, foreignArguments, Tree.parts, Arguments.parts,
      Expression.entryParts, Expression.parts, Part.IsBasic, Value.IsBasic]
  have unfolds : (run {} [.place foreignArguments]).unfolding?
      (foreignArguments.place.run {}).1 = some foreignArguments :=
    foreignArguments.unfolding?_place {} distinct
  obtain ⟨bytes, before, part, after, reason, left, encoded, split, earlier,
    cause, refused, -⟩ :=
    decode_encode_append_refused _ unfolds tagged distinct (.inl foreignPart)
      [0x80]
  exact ⟨_, bytes, before, part, after, reason, left, encoded, split, earlier,
    cause, refused⟩

/-- A reader accepts the words for the objects of its form and no other bytes.
What it accepts has no part that could not be stored again. -/
theorem decode_iff_denotes (form : Form) (bytes : List UInt8) :
    (∀ tree position,
      (∃ left, form.decode (.ofList bytes) = .ok tree left ∧
        left.position = position) ↔
        position ≤ bytes.length ∧ tree.form = form ∧
          Denotes (bytes.take position) tree) ∧
    (∀ tree tree' position position',
      position ≤ bytes.length → position' ≤ bytes.length →
      tree.form = form → tree'.form = form →
      Denotes (bytes.take position) tree →
        Denotes (bytes.take position') tree' →
        position = position' ∧ tree = tree') ∧
    (∀ tree left, form.decode (.ofList bytes) = .ok tree left →
      tree.IsStorable ∧
      ∀ operations, ∃ handle changed,
        (run {} operations).apply (.decode form bytes) = .ok (handle, changed) ∧
        changed.unfolding? handle = some tree ∧ changed.Consistent) := by
  refine ⟨(accepts_decode form).ofList bytes, ?_, ?_⟩
  · intro tree tree' position position' inside inside' sameForm sameForm'
      denotes denotes'
    exact (accepts_decode form).unique inside inside' ⟨sameForm, denotes⟩
      ⟨sameForm', denotes'⟩
  · intro tree left read
    obtain ⟨-, -, denotes⟩ :=
      ((accepts_decode form).ofList bytes tree left.position).mp
        ⟨left, read, rfl⟩
    have storable := denotes.isStorable
    refine ⟨storable, fun operations => ?_⟩
    have added := tree.addsTo_place (run {} operations)
    exact ⟨_, _, apply_decode read,
      tree.unfolding?_place (run {} operations) storable.distinct,
      added.consistent (consistent_run operations)⟩

/-- What is written for an object that was read is at most as long as the word
that it was read from, and is read as the same object.  It is the word itself
if and only if the word spells all numbers in the shortest way. -/
theorem encode_shortest (form : Form) {bytes : List UInt8} {tree : Tree}
    {left : Reader} (read : form.decode (.ofList bytes) = .ok tree left) :
    tree.encode.length ≤ left.position ∧
    (∃ left', form.decode (.ofList tree.encode) = .ok tree left' ∧
      left'.position = tree.encode.length) ∧
    (∃ numbers, Spells tree.pieces (bytes.take left.position) numbers ∧
      (∀ others, Spells tree.pieces (bytes.take left.position) others →
        others = numbers) ∧
      (tree.encode = bytes.take left.position ↔
        ∀ numberWord ∈ numbers, IsShortest numberWord)) ∧
    ∀ operations, ∃ handle changed,
      (run {} operations).apply (.decode form bytes) = .ok (handle, changed) ∧
      changed.encode handle = .ok tree.encode := by
  obtain ⟨inside, sameForm, denotes⟩ :=
    ((accepts_decode form).ofList bytes tree left.position).mp ⟨left, read, rfl⟩
  have storable := denotes.isStorable
  obtain ⟨numbers, spells⟩ := denotes.isSpelling
  refine ⟨?_, ?_, ⟨numbers, spells, ?_, ?_⟩, ?_⟩
  · have shorter := spells.length_encode_le
    rwa [← tree.encode_eq_pieces, List.length_take_of_le inside] at shorter
  · have again := (accepts_decode form).ofList_append
      ⟨sameForm, denotes_encode storable⟩ []
    rw [List.append_nil] at again
    exact ⟨_, again, by simp⟩
  · intro others spells'
    exact spells'.unique spells
  · rw [tree.encode_eq_pieces]
    exact spells.encode_eq_iff
  · intro operations
    have added := tree.addsTo_place (run {} operations)
    exact ⟨_, _, apply_decode read,
      encode_eq_ok (added.consistent (consistent_run operations))
        (tree.unfolding?_place (run {} operations) storable.distinct)⟩

/-- A tag may be followed by groups that are zero. -/
theorem encode_shortest_longTag :
    ∃ tree left, Form.expression.decode (.ofList [1, 5, 0x87, 0x80, 0]) =
      .ok tree left ∧ left.position = 5 ∧ tree.encode.length ≤ 5 ∧
      (∃ left', Form.expression.decode (.ofList tree.encode) =
        .ok tree left' ∧ left'.position = tree.encode.length) ∧
      tree.encode ≠ [1, 5, 0x87, 0x80, 0] := by
  have read : Form.expression.decode (.ofList [1, 5, 0x87, 0x80, 0]) =
      .ok (.expression (.call (.basic .bsdf) ⟨7⟩))
        ⟨#[1, 5, 0x87, 0x80, 0], 5⟩ := rfl
  obtain ⟨shorter, again, ⟨numbers, spells, unique, same⟩, -⟩ :=
    encode_shortest .expression read
  refine ⟨_, _, read, rfl, shorter, again, ?_⟩
  intro unchanged
  have groups : DenotesGroups [0x87, 0x80, 0]
      ((0x87 : UInt8).toNat % 128 + 128 *
        ((0x80 : UInt8).toNat % 128 + 128 * (0 : UInt8).toNat)) :=
    .more (by decide) (.more (by decide) (.last (by decide)))
  have seven : DenotesNumber [0x87, 0x80, 0] 7 :=
    ⟨groups, by decide, by decide⟩
  have words : Spells (Tree.expression (.call (.basic .bsdf) ⟨7⟩)).pieces
      [1, 5, 0x87, 0x80, 0] [[0x87, 0x80, 0]] :=
    .fixed (.fixed (.number seven .nil))
  have shortest := same.mp unchanged [0x87, 0x80, 0]
    (by rw [← unique _ words]; simp)
  rcases shortest with single | notZero
  · cases single
  · exact notZero rfl

/-- Two objects of a form that is ordered compare as equal exactly if they have
the same bytes, which is if they are the same trees. -/
theorem compare_eq_iff_encode_eq (operations : List Operation)
    {left right : Handle} {leftTree rightTree : Tree}
    (unfolds : (run {} operations).unfolding? left = some leftTree)
    (unfolds' : (run {} operations).unfolding? right = some rightTree)
    (ordered : leftTree.form.IsOrdered)
    (sameForm : leftTree.form = rightTree.form)
    (known : leftTree.IsBasic) (known' : rightTree.IsBasic) :
    ∃ bytes bytes',
      (run {} operations).encode left = .ok bytes ∧
      (run {} operations).encode right = .ok bytes' ∧
      ((run {} operations).compare left right = .ok .eq ↔ bytes = bytes') ∧
      (bytes = bytes' ↔ leftTree = rightTree) := by
  have consistent := consistent_run operations
  obtain ⟨order, compared⟩ := Tree.exists_compare? ordered sameForm
  have result := compare_eq_ok consistent unfolds unfolds' compared
  have sameBytes : leftTree.encode = rightTree.encode ↔ leftTree = rightTree :=
    ⟨Tree.encode_injective known known' compared, congrArg Tree.encode⟩
  refine ⟨_, _, encode_eq_ok consistent unfolds,
    encode_eq_ok consistent unfolds', ?_, sameBytes⟩
  rw [sameBytes, result, Except.ok.injEq]
  constructor
  · intro same
    subst same
    exact Tree.eq_of_compare? known known' compared
  · intro same
    subst same
    rw [Tree.compare?_self leftTree ordered] at compared
    exact (Option.some.inj compared).symm

/-- Two calls of one target that hold different lists. -/
def twoCalls : List Operation :=
  [.newList, .newDirectCall (.basic .material) ⟨7⟩ (.list ⟨0⟩),
    .newList, .newDirectCall (.basic .material) ⟨7⟩ (.list ⟨1⟩)]

theorem compare_eq_iff_encode_eq_twoCalls :
    ∃ bytes,
      (run {} twoCalls).encode (.node ⟨0⟩) = .ok bytes ∧
      (run {} twoCalls).encode (.node ⟨1⟩) = .ok bytes ∧
      (run {} twoCalls).compare (.node ⟨0⟩) (.node ⟨1⟩) = .ok .eq := by
  have unfolds : (run {} twoCalls).unfolding? (.node ⟨0⟩) =
      some (.expression (.directCall (.basic .material) ⟨7⟩ [])) := rfl
  have unfolds' : (run {} twoCalls).unfolding? (.node ⟨1⟩) =
      some (.expression (.directCall (.basic .material) ⟨7⟩ [])) := rfl
  have known :
      (Tree.expression (.directCall (.basic .material) ⟨7⟩ [])).IsBasic := by
    simp [Tree.IsBasic, Tree.parts, Expression.parts, Expression.entryParts,
      Part.IsBasic, ValueType.IsBasic]
  obtain ⟨bytes, bytes', encoded, encoded', compares, same⟩ :=
    compare_eq_iff_encode_eq twoCalls unfolds unfolds' trivial rfl known known
  cases same.mpr rfl
  exact ⟨bytes, encoded, encoded', compares.mpr rfl⟩

end Store

end MaterialGraph
