import MaterialGraph.Json.Value

/-!
# Which tokens build a value

A value is built from its tokens and from no others.  Before all tokens are
read, what has been built and what is still open stands for the tokens that have
been read.
-/

namespace MaterialGraph

namespace Json

/-- What holds of the parts of a value holds of the value. -/
@[elab_as_elim]
theorem Value.induct {motive : Value → Prop} (null : motive .null)
    (bool : ∀ truth, motive (.bool truth))
    (number : ∀ literal, motive (.number literal))
    (string : ∀ literal, motive (.string literal))
    (array : ∀ elements, (∀ element ∈ elements, motive element) →
      motive (.array elements))
    (object : ∀ members : List (List Char × Value),
      (∀ member ∈ members, motive member.2) → motive (.object members))
    (value : Value) : motive value :=
  @Value.rec motive (fun elements => ∀ element ∈ elements, motive element)
    (fun members => ∀ member ∈ members, motive member.2)
    (fun member => motive member.2) null bool number string array object
    (List.forall_mem_nil _)
    (fun _ _ first others => List.forall_mem_cons.mpr ⟨first, others⟩)
    (List.forall_mem_nil _)
    (fun _ _ first others => List.forall_mem_cons.mpr ⟨first, others⟩)
    (fun _ _ value => value) value

section Commas

variable {α : Type}

/-- All items but the first one have a separator in front of them. -/
theorem intercalate_map_cons {β : Type} (separator : List β)
    (textOf : α → List β) (item : α) (items : List α) :
    separator.intercalate ((item :: items).map textOf) =
      textOf item ++ items.flatMap fun next => separator ++ textOf next := by
  induction items generalizing item with
  | nil => simp
  | cons next items induction =>
      have others := induction next
      simp only [List.map_cons, List.intercalate_cons_cons,
        List.flatMap_cons] at others ⊢
      rw [others, List.append_assoc, List.append_assoc]

/-- The tokens of some items with commas between them. -/
def listTokens (tokensOf : α → List Token) (items : List α) : List Token :=
  [Token.comma].intercalate (items.map tokensOf)

/-- The tokens of items that have been read, last one first, each with a comma
behind it. -/
def leadingTokens (tokensOf : α → List Token) (before : List α) : List Token :=
  before.reverse.flatMap fun item => tokensOf item ++ [.comma]

/-- The tokens of items that follow, each with a comma in front of it. -/
def furtherTokens (tokensOf : α → List Token) (items : List α) : List Token :=
  items.flatMap fun item => .comma :: tokensOf item

variable {tokensOf : α → List Token} {item : α} {items before : List α}

@[simp] theorem listTokens_nil : listTokens tokensOf [] = [] :=
  rfl

theorem listTokens_cons :
    listTokens tokensOf (item :: items) =
      tokensOf item ++ furtherTokens tokensOf items :=
  intercalate_map_cons [Token.comma] tokensOf item items

theorem leadingTokens_cons :
    leadingTokens tokensOf (item :: before) =
      leadingTokens tokensOf before ++ (tokensOf item ++ [.comma]) := by
  simp [leadingTokens]

/-- A list is what has been read of it and what follows. -/
theorem listTokens_reverse_append :
    listTokens tokensOf (before.reverse ++ item :: items) =
      leadingTokens tokensOf before ++
        (tokensOf item ++ furtherTokens tokensOf items) := by
  induction before generalizing item items with
  | nil => exact listTokens_cons
  | cons last before induction =>
      have others := @induction last (item :: items)
      simp only [List.reverse_cons, List.append_assoc, List.cons_append,
        List.nil_append, others, leadingTokens_cons, furtherTokens,
        List.flatMap_cons]

end Commas

mutual

/-- The tokens of a value.  They determine it. -/
def Value.tokens : Value → List Token
  | .null => [.null]
  | .bool truth => [.bool truth]
  | .number literal => [.number literal]
  | .string literal => [.string literal]
  | .array elements =>
      .openBracket ::
        ([.comma].intercalate (elementsTokens elements) ++ [.closeBracket])
  | .object members =>
      .openBrace ::
        ([.comma].intercalate (membersTokens members) ++ [.closeBrace])

def Value.elementsTokens : List Value → List (List Token)
  | [] => []
  | element :: elements => element.tokens :: elementsTokens elements

def Value.membersTokens : List (List Char × Value) → List (List Token)
  | [] => []
  | (key, value) :: members =>
      (.string key :: .colon :: value.tokens) :: membersTokens members

end

/-- The tokens of a key, a colon and a value. -/
def entryTokens (member : List Char × Value) : List Token :=
  .string member.1 :: .colon :: member.2.tokens

namespace Value

theorem elementsTokens_eq_map (elements : List Value) :
    elementsTokens elements = elements.map tokens := by
  induction elements with
  | nil => rfl
  | cons element elements induction =>
      rw [elementsTokens, induction, List.map_cons]

theorem membersTokens_eq_map (members : List (List Char × Value)) :
    membersTokens members = members.map entryTokens := by
  induction members with
  | nil => rfl
  | cons member members induction =>
      rw [membersTokens, induction, List.map_cons]
      rfl

theorem tokens_array (elements : List Value) :
    (array elements).tokens =
      .openBracket :: (listTokens tokens elements ++ [.closeBracket]) := by
  rw [tokens, elementsTokens_eq_map]
  rfl

theorem tokens_object (members : List (List Char × Value)) :
    (object members).tokens =
      .openBrace :: (listTokens entryTokens members ++ [.closeBrace]) := by
  rw [tokens, membersTokens_eq_map]
  rfl

end Value

/-- The tokens that have been read of a container that is still open. -/
def Frame.tokens : Frame → List Token
  | .element before => .openBracket :: leadingTokens Value.tokens before
  | .member before key =>
      .openBrace :: (leadingTokens entryTokens before ++ [.string key, .colon])

namespace Build

section Complete

variable {frames : List Frame}

/-- Only the end of a list is read differently after its beginning. -/
theorem step_firstElement {token : Token} (inside : token ≠ .closeBracket) :
    step (.firstElement frames) token =
      start token (.element [] :: frames) := by
  cases token with
  | closeBracket => exact (inside rfl).elim
  | _ => rfl

/-- No value begins with the end of a list. -/
theorem foldlM_firstElement (element : Value) (tokens : List Token) :
    (element.tokens ++ tokens).foldlM step (.firstElement frames) =
      (element.tokens ++ tokens).foldlM step
        (.value (.element [] :: frames)) := by
  cases element <;> rfl

/-- Elements that follow are taken up one by one. -/
theorem foldlM_furtherElements {elements : List Value}
    (each : ∀ element ∈ elements, ∀ frames,
      element.tokens.foldlM step (.value frames) =
        some (receive element frames))
    (before : List Value) :
    (furtherTokens Value.tokens elements).foldlM step
        (.afterElement before frames) =
      some (.afterElement (elements.reverse ++ before) frames) := by
  induction elements generalizing before with
  | nil => rfl
  | cons element elements induction =>
      rw [List.forall_mem_cons] at each
      have comma : step (.afterElement before frames) .comma =
          some (.value (.element before :: frames)) := rfl
      have others := induction each.2 (element :: before)
      simp only [furtherTokens, List.flatMap_cons, List.foldlM_append,
        List.foldlM_cons, comma, Option.bind_eq_bind, Option.bind_some,
        each.1] at others ⊢
      rw [receive, others, List.reverse_cons, List.append_assoc,
        List.singleton_append]

theorem foldlM_furtherMembers {members : List (List Char × Value)}
    (each : ∀ member ∈ members, ∀ frames,
      member.2.tokens.foldlM step (.value frames) =
        some (receive member.2 frames))
    (before : List (List Char × Value)) :
    (furtherTokens entryTokens members).foldlM step
        (.afterMember before frames) =
      some (.afterMember (members.reverse ++ before) frames) := by
  induction members generalizing before with
  | nil => rfl
  | cons member members induction =>
      rw [List.forall_mem_cons] at each
      have comma : step (.afterMember before frames) .comma =
          some (.nextMember before frames) := rfl
      have key : step (.nextMember before frames) (.string member.1) =
          some (.colon before member.1 frames) := rfl
      have colon : step (.colon before member.1 frames) .colon =
          some (.value (.member before member.1 :: frames)) := rfl
      have others := induction each.2 (member :: before)
      simp only [furtherTokens, List.flatMap_cons, List.foldlM_append,
        entryTokens, List.foldlM_cons, comma, key, colon, Option.bind_eq_bind,
        Option.bind_some, each.1] at others ⊢
      rw [receive, others, List.reverse_cons, List.append_assoc,
        List.singleton_append]

/-- The tokens of a value build the value. -/
theorem foldlM_tokens (value : Value) : ∀ frames,
    value.tokens.foldlM step (.value frames) = some (receive value frames) := by
  induction value using Value.induct with
  | null | bool | number | string => exact fun frames => rfl
  | array elements each =>
      intro frames
      rw [Value.tokens_array]
      cases elements with
      | nil => rfl
      | cons element elements =>
          rw [List.forall_mem_cons] at each
          have opened : step (.value frames) .openBracket =
              some (.firstElement frames) := rfl
          rw [listTokens_cons, List.append_assoc, List.foldlM_cons, opened,
            Option.bind_eq_bind, Option.bind_some, foldlM_firstElement,
            List.foldlM_append, each.1, Option.bind_eq_bind, Option.bind_some,
            receive, List.foldlM_append, foldlM_furtherElements each.2]
          simp [step]
  | object members each =>
      intro frames
      rw [Value.tokens_object]
      cases members with
      | nil => rfl
      | cons member members =>
          rw [List.forall_mem_cons] at each
          have opened : step (.value frames) .openBrace =
              some (.firstMember frames) := rfl
          have key : step (.firstMember frames) (.string member.1) =
              some (.colon [] member.1 frames) := rfl
          have colon : step (.colon [] member.1 frames) .colon =
              some (.value (.member [] member.1 :: frames)) := rfl
          rw [listTokens_cons, List.append_assoc, List.foldlM_cons, opened,
            entryTokens]
          simp only [Option.bind_eq_bind, Option.bind_some, List.cons_append,
            List.foldlM_cons, key, colon, List.foldlM_append, each.1, receive,
            foldlM_furtherMembers each.2]
          simp [step, receive]

end Complete

section Sound

/-- The tokens that have been read before the innermost container is open. -/
def framesTokens : List Frame → List Token
  | [] => []
  | frame :: frames => framesTokens frames ++ frame.tokens

/-- The tokens that have been read. -/
def tokens : Build → List Token
  | .value frames => framesTokens frames
  | .firstElement frames => framesTokens frames ++ [.openBracket]
  | .afterElement elements frames =>
      framesTokens frames ++
        .openBracket :: listTokens Value.tokens elements.reverse
  | .firstMember frames => framesTokens frames ++ [.openBrace]
  | .nextMember members frames =>
      framesTokens frames ++ .openBrace :: leadingTokens entryTokens members
  | .colon members key frames =>
      framesTokens frames ++
        .openBrace :: (leadingTokens entryTokens members ++ [.string key])
  | .afterMember members frames =>
      framesTokens frames ++
        .openBrace :: listTokens entryTokens members.reverse
  | .complete finished => finished.tokens

/-- Something has been read of a list after which a comma may follow. -/
def IsBegun : Build → Prop
  | .afterElement elements _ => elements ≠ []
  | .afterMember members _ => members ≠ []
  | _ => True

variable {build later : Build} {token : Token} {frames : List Frame}

theorem isBegun_receive (value : Value) : (receive value frames).IsBegun := by
  rcases frames with _ | ⟨_ | _, frames⟩
  · trivial
  · exact List.cons_ne_nil _ _
  · exact List.cons_ne_nil _ _

theorem tokens_receive (value : Value) :
    (receive value frames).tokens = framesTokens frames ++ value.tokens := by
  rcases frames with _ | ⟨_ | _, frames⟩
  · rfl
  · simp [receive, tokens, framesTokens, Frame.tokens,
      listTokens_reverse_append, furtherTokens]
  · simp [receive, tokens, framesTokens, Frame.tokens,
      listTokens_reverse_append, furtherTokens, entryTokens]

/-- A comma after the last item makes it one of those in front. -/
theorem leadingTokens_of_ne_nil {α : Type} {tokensOf : α → List Token}
    {items : List α} (begun : items ≠ []) :
    leadingTokens tokensOf items =
      listTokens tokensOf items.reverse ++ [.comma] := by
  obtain ⟨last, before, rfl⟩ := List.exists_cons_of_ne_nil begun
  rw [List.reverse_cons, listTokens_reverse_append, leadingTokens_cons]
  simp [furtherTokens]

/-- A finished value adds its tokens to those of the open containers. -/
theorem receive_spec {value : Value} {read : List Token}
    (whole : framesTokens frames ++ value.tokens = read) :
    (receive value frames).IsBegun ∧ (receive value frames).tokens = read :=
  ⟨isBegun_receive value, (tokens_receive value).trans whole⟩

theorem start_spec (started : start token frames = some later) :
    later.IsBegun ∧ later.tokens = framesTokens frames ++ [token] := by
  cases token <;> cases started
  case openBrace | openBracket => exact ⟨trivial, rfl⟩
  all_goals exact receive_spec rfl

/-- Reading a token adds it to those that have been read. -/
theorem step_spec (begun : build.IsBegun)
    (stepped : build.step token = some later) :
    later.IsBegun ∧ later.tokens = build.tokens ++ [token] := by
  cases build with
  | value frames => exact start_spec stepped
  | firstElement frames =>
      by_cases closed : token = .closeBracket
      · subst closed
        cases stepped
        exact receive_spec (by simp [Value.tokens_array, tokens])
      · rw [step_firstElement closed] at stepped
        have first := start_spec stepped
        simpa [framesTokens, Frame.tokens, leadingTokens, tokens] using first
  | afterElement elements frames =>
      cases token with
      | comma =>
          cases stepped
          exact ⟨trivial, by
            simp [tokens, framesTokens, Frame.tokens,
              leadingTokens_of_ne_nil begun]⟩
      | closeBracket =>
          cases stepped
          exact receive_spec (by simp [Value.tokens_array, tokens])
      | _ => cases stepped
  | firstMember frames =>
      cases token with
      | string key =>
          cases stepped
          exact ⟨trivial, by simp [tokens, leadingTokens]⟩
      | closeBrace =>
          cases stepped
          exact receive_spec (by simp [Value.tokens_object, tokens])
      | _ => cases stepped
  | nextMember members frames =>
      cases token with
      | string key =>
          cases stepped
          exact ⟨trivial, by simp [tokens]⟩
      | _ => cases stepped
  | colon members key frames =>
      cases token with
      | colon =>
          cases stepped
          exact ⟨trivial, by simp [tokens, framesTokens, Frame.tokens]⟩
      | _ => cases stepped
  | afterMember members frames =>
      cases token with
      | comma =>
          cases stepped
          exact ⟨trivial, by simp [tokens, leadingTokens_of_ne_nil begun]⟩
      | closeBrace =>
          cases stepped
          exact receive_spec (by simp [Value.tokens_object, tokens])
      | _ => cases stepped
  | complete finished => cases stepped

theorem foldlM_step_spec {tokens : List Token} (begun : build.IsBegun)
    (run : tokens.foldlM step build = some later) :
    later.tokens = build.tokens ++ tokens := by
  induction tokens generalizing build with
  | nil =>
      cases run
      exact (List.append_nil _).symm
  | cons token tokens induction =>
      rw [List.foldlM_cons, Option.bind_eq_bind,
        Option.bind_eq_some_iff] at run
      obtain ⟨next, stepped, run⟩ := run
      obtain ⟨nextBegun, same⟩ := step_spec begun stepped
      rw [induction nextBegun run, same, List.append_assoc,
        List.singleton_append]

end Sound

end Build

/-- A value is built from its tokens and from no others. -/
theorem Value.ofTokens?_eq_some_iff {tokens : List Token} {value : Value} :
    ofTokens? tokens = some value ↔ tokens = value.tokens := by
  unfold ofTokens?
  constructor
  · intro built
    split at built
    · rename_i run
      cases built
      have begun : (Build.value []).IsBegun := trivial
      exact (Build.foldlM_step_spec begun run).symm
    · cases built
  · rintro rfl
    rw [Build.foldlM_tokens]
    rfl

end Json

end MaterialGraph
