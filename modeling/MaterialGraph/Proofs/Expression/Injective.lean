import MaterialGraph.Proofs.Expression.Order

/-!
# What is written tells trees apart

No two expressions that hold basic types and values only have bytes of which
one continues the other, so that what follows an expression can be told from
it.  Nothing bounds how deep the expressions are, so that this also holds for
those that are refused when they are read.
-/

namespace MaterialGraph

open ByteStream

theorem encodeTag_append_inj {tag tag' : Tag}
    {following following' : List UInt8}
    (same : tag.encode ++ following = tag'.encode ++ following') :
    tag = tag' ∧ following = following' := by
  obtain ⟨sameNumber, sameFollowing⟩ := encodeVarint_append_inj same
  cases tag
  cases tag'
  cases UInt64.toNat_inj.mp sameNumber
  exact ⟨rfl, sameFollowing⟩

theorem encodeIndex_append_inj {index index' : UInt64}
    {following following' : List UInt8}
    (same : encodeVarint index.toNat ++ following =
      encodeVarint index'.toNat ++ following') :
    index = index' ∧ following = following' := by
  obtain ⟨sameNumber, sameFollowing⟩ := encodeVarint_append_inj same
  exact ⟨UInt64.toNat_inj.mp sameNumber, sameFollowing⟩

namespace Expression

/-- What follows the kind and the type. -/
def encodePayload : Expression → List UInt8
  | constant _ value => value.encode
  | call _ tag => tag.encode
  | parameter _ index => encodeVarint index.toNat
  | directCall _ tag arguments => tag.encode ++ Arguments.encode arguments
  | temporary _ index => encodeVarint index.toNat

theorem encode_eq_cons (expression : Expression) :
    expression.encode =
      expression.kind.code ::
        (expression.type.encode ++ expression.encodePayload) := by
  cases expression <;>
    simp only [encode, encodePayload, Arguments.encode, kind, type,
      List.append_assoc]

mutual

theorem encode_append_inj (left right : Expression) (calls calls' : Nat)
    (known : ∀ part ∈ left.parts calls, part.IsBasic)
    (known' : ∀ part ∈ right.parts calls', part.IsBasic)
    {following following' : List UInt8}
    (same : left.encode ++ following = right.encode ++ following') :
    left = right ∧ following = following' := by
  simp only [encode_eq_cons, List.cons_append, List.append_assoc,
    List.cons.injEq] at same
  obtain ⟨sameCode, sameRest⟩ := same
  have sameKind := ExpressionKind.code_injective sameCode
  obtain ⟨sameType, samePayload⟩ :=
    encodeType_append_inj (known _ (left.type_mem_parts calls))
      (known' _ (right.type_mem_parts calls')) sameRest
  -- what follows the type has one form for each kind
  cases left with
  | constant type value =>
      cases right with
      | constant type' value' =>
          cases sameType
          obtain ⟨rfl, sameFollowing⟩ :=
            encodeValue_append_inj (known (.value value) (by simp [parts]))
              (known' (.value value') (by simp [parts])) samePayload
          exact ⟨rfl, sameFollowing⟩
      | call | parameter | directCall | temporary => cases sameKind
  | call type tag =>
      cases right with
      | call type' tag' =>
          cases sameType
          obtain ⟨rfl, sameFollowing⟩ := encodeTag_append_inj samePayload
          exact ⟨rfl, sameFollowing⟩
      | constant | parameter | directCall | temporary => cases sameKind
  | parameter type index =>
      cases right with
      | parameter type' index' =>
          cases sameType
          obtain ⟨rfl, sameFollowing⟩ := encodeIndex_append_inj samePayload
          exact ⟨rfl, sameFollowing⟩
      | constant | call | directCall | temporary => cases sameKind
  | directCall type tag arguments =>
      cases right with
      | directCall type' tag' arguments' =>
          cases sameType
          simp only [encodePayload, Arguments.encode,
            List.append_assoc] at samePayload
          obtain ⟨rfl, sameArguments⟩ := encodeTag_append_inj samePayload
          obtain ⟨sameLength, sameEntries⟩ :=
            encodeVarint_append_inj sameArguments
          simp only [parts, List.forall_mem_cons] at known known'
          obtain ⟨rfl, sameFollowing⟩ :=
            encodeEntries_append_inj arguments arguments' _ _ known.2.2.2.2
              known'.2.2.2.2 sameLength sameEntries
          exact ⟨rfl, sameFollowing⟩
      | constant | call | parameter | temporary => cases sameKind
  | temporary type index =>
      cases right with
      | temporary type' index' =>
          cases sameType
          obtain ⟨rfl, sameFollowing⟩ := encodeIndex_append_inj samePayload
          exact ⟨rfl, sameFollowing⟩
      | constant | call | parameter | directCall => cases sameKind

theorem encodeEntries_append_inj (left right : Arguments) (calls calls' : Nat)
    (known : ∀ part ∈ entryParts calls left, part.IsBasic)
    (known' : ∀ part ∈ entryParts calls' right, part.IsBasic)
    (sameLength : left.length = right.length)
    {following following' : List UInt8}
    (same :
      encodeEntries left ++ following = encodeEntries right ++ following') :
    left = right ∧ following = following' := by
  cases left with
  | nil =>
      cases right with
      | nil => exact ⟨rfl, same⟩
      | cons => cases sameLength
  | cons entry rest =>
      cases right with
      | nil => cases sameLength
      | cons entry' rest' =>
          obtain ⟨name, expression⟩ := entry
          obtain ⟨name', expression'⟩ := entry'
          simp only [entryParts, List.forall_mem_cons, List.forall_mem_append]
            at known known'
          simp only [encodeEntries, List.append_assoc] at same
          obtain ⟨rfl, sameHead⟩ := encodeText_append_inj same
          obtain ⟨rfl, sameRest⟩ :=
            encode_append_inj expression expression' _ _ known.2.1 known'.2.1
              sameHead
          obtain ⟨rfl, sameFollowing⟩ :=
            encodeEntries_append_inj rest rest' _ _ known.2.2 known'.2.2
              (Nat.succ_inj.mp sameLength) sameRest
          exact ⟨rfl, sameFollowing⟩

end

end Expression

theorem Arguments.encode_injective {left right : Arguments}
    (known : ∀ part ∈ Arguments.parts left, part.IsBasic)
    (known' : ∀ part ∈ Arguments.parts right, part.IsBasic)
    (same : Arguments.encode left = Arguments.encode right) : left = right := by
  obtain ⟨sameLength, sameEntries⟩ := encodeVarint_append_inj same
  simp only [Arguments.parts, List.forall_mem_cons] at known known'
  have sameWhole : Expression.encodeEntries left ++ [] =
      Expression.encodeEntries right ++ [] := by rw [sameEntries]
  exact (Expression.encodeEntries_append_inj left right 0 0 known.2 known'.2
    sameLength sameWhole).1

/-- Trees of one form that is ordered have different bytes unless they are
equal. -/
theorem Tree.encode_injective {left right : Tree} {order : Ordering}
    (known : left.IsBasic) (known' : right.IsBasic)
    (comparable : left.compare? right = some order)
    (same : left.encode = right.encode) : left = right := by
  unfold Tree.compare? at comparable
  split at comparable
  · rename_i root root'
    have sameWhole : root.encode ++ [] = root'.encode ++ [] := by
      rw [List.append_nil, List.append_nil]
      exact same
    exact congrArg Tree.expression
      (Expression.encode_append_inj root root' 0 0 known known' sameWhole).1
  · exact congrArg Tree.arguments (Arguments.encode_injective known known' same)
  · cases comparable

end MaterialGraph
