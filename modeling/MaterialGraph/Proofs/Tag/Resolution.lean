import MaterialGraph.Proofs.Tag

/-!
# Which tags have names

Inserting names a tag unless it is the null tag.  Reading a table is not so
careful: the members of an object are put into it whatever tags they name.  So
a table names the null tag exactly if it was read from a text with a member for
the number zero, and no insertion changes that name or takes it away.
-/

namespace MaterialGraph

namespace TagNames

private theorem lookup_cons_eq_ite (entry : UInt64 × String)
    (rest : List (UInt64 × String)) (number : UInt64) :
    (entry :: rest).lookup number =
      if number = entry.1 then some entry.2 else rest.lookup number := by
  obtain ⟨present, held⟩ := entry
  by_cases same : number = present
  · rw [if_pos same, List.lookup_cons, beq_iff_eq.mpr same]
  · rw [if_neg same, List.lookup_cons, beq_eq_false_iff_ne.mpr same]

theorem lookup_putEntry (number other : UInt64) (name : String)
    (entries : List (UInt64 × String)) :
    (putEntry number name entries).lookup other =
      if other = number then some name else entries.lookup other := by
  induction entries with
  | nil => rw [putEntry, lookup_cons_eq_ite]
  | cons head rest induction =>
      unfold putEntry
      split
      · rw [lookup_cons_eq_ite]
      · split
        · rename_i same
          rw [lookup_cons_eq_ite, lookup_cons_eq_ite, same]
          split <;> rfl
        · rename_i different
          rw [lookup_cons_eq_ite, lookup_cons_eq_ite, induction]
          by_cases asked : other = number
          · rw [asked, if_neg different, if_pos rfl, if_pos rfl]
          · rw [if_neg asked, if_neg asked]

private theorem findSome?_reverse_cons {α β : Type} (find : α → Option β)
    (first : α) (rest : List α) :
    (first :: rest).reverse.findSome? find =
      (rest.reverse.findSome? find).or (find first) := by
  rw [List.reverse_cons, List.findSome?_append, List.findSome?_singleton]

theorem mem_of_resolve?_eq_some {names : TagNames} {tag : Tag} {shown : String}
    (named : names.resolve? tag = some shown) :
    (tag.number, shown) ∈ names.entries := by
  obtain ⟨before, after, same, -⟩ := List.lookup_eq_some_iff.mp named
  rw [same]
  exact List.mem_append_right before List.mem_cons_self

section Tables

variable (names : TagNames) (tag : Tag)

theorem resolve?_eq_none_iff :
    names.resolve? tag = none ↔
      ∀ entry ∈ names.entries, entry.1 ≠ tag.number := by
  rw [resolve?, List.lookup_eq_none_iff]
  refine forall₂_congr fun entry _ => ?_
  rw [bne_iff_ne, ne_comm]

theorem isSome_resolve?_iff :
    (names.resolve? tag).isSome ↔
      tag.number ∈ names.entries.map Prod.fst := by
  rw [← Option.ne_none_iff_isSome, ne_eq, resolve?_eq_none_iff]
  simp

/-- A name that is put replaces the one that the tag had. -/
theorem resolve?_put (given : Tag) (name : String) :
    (names.put given name).resolve? tag =
      if tag = given then some name else names.resolve? tag := by
  have sameNumber : tag.number = given.number ↔ tag = given := by
    rw [Tag.mk.injEq]
  simp only [resolve?, put, lookup_putEntry, sameNumber]

/-- The name that a pair gives to a tag.  The null tag is given no names. -/
def given? (pair : Tag × String) : Option String :=
  if tag = pair.1 ∧ tag ≠ .null then some pair.2 else none

theorem resolve?_insert (pair : Tag × String) :
    (names.insert pair.1 pair.2).resolve? tag =
      (given? tag pair).or (names.resolve? tag) := by
  unfold insert given?
  by_cases null : pair.1 = .null
  · have noName : ¬(tag = pair.1 ∧ tag ≠ .null) := by
      rintro ⟨same, notNull⟩
      exact notNull (same.trans null)
    rw [if_pos (by simpa [Tag.isNull] using null), if_neg noName,
      Option.none_or]
  · rw [if_neg (by simpa [Tag.isNull] using null), resolve?_put]
    by_cases asked : tag = pair.1
    · rw [if_pos asked, if_pos ⟨asked, asked ▸ null⟩, Option.some_or]
    · rw [if_neg asked, if_neg fun both => asked both.1, Option.none_or]

/-- The pairs are inserted one after the other. -/
def insertAll (pairs : List (Tag × String)) : TagNames :=
  pairs.foldl (fun names pair => names.insert pair.1 pair.2) names

/-- After insertions a tag has the last name that they give it, or else the
name that it had before. -/
theorem resolve?_insertAll (pairs : List (Tag × String)) :
    (names.insertAll pairs).resolve? tag =
      (pairs.reverse.findSome? (given? tag)).or (names.resolve? tag) := by
  induction pairs generalizing names with
  | nil => rfl
  | cons pair rest induction =>
      have others := induction (names.insert pair.1 pair.2)
      rw [resolve?_insert] at others
      rw [findSome?_reverse_cons, Option.or_assoc]
      exact others

theorem findSome?_given?_null (pairs : List (Tag × String)) :
    pairs.findSome? (given? .null) = none := by
  simp [List.findSome?_eq_none_iff, given?]

/-- The name that a member of an object has for a tag.  The null tag is a tag
like any other. -/
def listed? (member : List Char × Json.Value) : Option String :=
  if Json.long? member.1 = some tag.number then member.2.toText? else none

/-- Of the members for a tag the last one counts. -/
theorem resolve?_of_ofMembers? {table : TagNames}
    {members : List (List Char × Json.Value)}
    (read : ofMembers? members names = some table) :
    table.resolve? tag =
      (members.reverse.findSome? (listed? tag)).or (names.resolve? tag) := by
  induction members generalizing names with
  | nil =>
      cases read
      rfl
  | cons member rest induction =>
      obtain ⟨key, value⟩ := member
      obtain ⟨number, spelled, found⟩ := Option.bind_eq_some_iff.mp read
      obtain ⟨name, shown, others⟩ := Option.bind_eq_some_iff.mp found
      rw [induction _ others, resolve?_put, findSome?_reverse_cons,
        Option.or_assoc, listed?, shown]
      by_cases asked : tag = ⟨number⟩
      · have sameNumber : Json.long? key = some tag.number := by
          rw [spelled, asked]
        rw [if_pos asked, if_pos sameNumber, Option.some_or]
      · have otherNumber : Json.long? key ≠ some tag.number := by
          intro same
          rw [spelled] at same
          exact asked (congrArg Tag.mk (Option.some.inj same).symm)
        rw [if_neg asked, if_neg otherNumber, Option.none_or]

theorem isSome_toText?_of_ofMembers? {names table : TagNames}
    {members : List (List Char × Json.Value)}
    (read : ofMembers? members names = some table) :
    ∀ member ∈ members, member.2.toText?.isSome := by
  induction members generalizing names with
  | nil => exact nofun
  | cons member rest induction =>
      obtain ⟨number, -, found⟩ := Option.bind_eq_some_iff.mp read
      obtain ⟨name, shown, others⟩ := Option.bind_eq_some_iff.mp found
      exact List.forall_mem_cons.mpr
        ⟨Option.isSome_of_eq_some shown, induction others⟩

end Tables

theorem members_of_ofJson? {text : String} {names : TagNames}
    (read : ofJson? text = some names) :
    ∃ members, Json.Value.ofText? text = some (.object members) ∧
      ofMembers? members {} = some names := by
  unfold ofJson? at read
  split at read
  · rename_i members spelled
    exact ⟨members, spelled, read⟩
  · cases read

/-- A table that is made of nothing but insertions does not name the null tag.
In a table that was read, every tag has the name that insertions have given it
since, or else that of the last member for its number; so the null tag is named
if and only if the text has a member for the number zero. -/
theorem null_named_by_text (pairs : List (Tag × String)) :
    (∀ entry ∈ (insertAll {} pairs).entries, entry.1 ≠ Tag.null.number) ∧
    (insertAll {} pairs).resolve? .null = none ∧
    ∀ text names, ofJson? text = some names →
      ∃ members, Json.Value.ofText? text = some (.object members) ∧
        (∀ tag, (names.insertAll pairs).resolve? tag =
          (pairs.reverse.findSome? (given? tag)).or
            (members.reverse.findSome? (listed? tag))) ∧
        ((∀ entry ∈ (names.insertAll pairs).entries,
            entry.1 ≠ Tag.null.number) ↔
          ∀ member ∈ members, Json.long? member.1 ≠ some Tag.null.number) := by
  have unnamed : (insertAll {} pairs).resolve? .null = none := by
    rw [resolve?_insertAll, findSome?_given?_null]
    rfl
  refine ⟨(resolve?_eq_none_iff _ _).mp unnamed, unnamed, ?_⟩
  intro text names read
  obtain ⟨members, spelled, listed⟩ := members_of_ofJson? read
  have resolved (tag : Tag) : (names.insertAll pairs).resolve? tag =
      (pairs.reverse.findSome? (given? tag)).or
        (members.reverse.findSome? (listed? tag)) := by
    have nothing : resolve? {} tag = none := rfl
    rw [resolve?_insertAll, resolve?_of_ofMembers? _ _ listed, nothing,
      Option.or_none]
  refine ⟨members, spelled, resolved, ?_⟩
  rw [← resolve?_eq_none_iff, resolved, findSome?_given?_null, Option.none_or,
    List.findSome?_eq_none_iff]
  have texts := isSome_toText?_of_ofMembers? listed
  constructor
  · intro none member held number
    have silent := none member (List.mem_reverse.mpr held)
    rw [listed?, if_pos number] at silent
    have shown := texts member held
    rw [silent] at shown
    cases shown
  · intro other member held
    rw [listed?, if_neg (other member (List.mem_reverse.mp held))]

/-- A text that names the null tag, and its table. -/
def namedNull : String × TagNames :=
  ("\x7b\"0\": \"root\", \"7\": \"bsdf\"\x7d", ⟨[(0, "root"), (7, "bsdf")]⟩)

theorem not_null_unnamed_of_read :
    ofJson? namedNull.1 = some namedNull.2 ∧
      (Tag.null.number, "root") ∈ (namedNull.2.insertAll []).entries ∧
      (namedNull.2.insertAll []).resolve? .null ≠ none := by
  refine ⟨?_, ?_, ?_⟩
  · rfl
  · decide
  · decide

theorem null_named_by_text_namedNull :
    ofJson? namedNull.1 = some namedNull.2 ∧
      ∃ members, Json.Value.ofText? namedNull.1 = some (.object members) ∧
        ∃ member ∈ members, Json.long? member.1 = some Tag.null.number := by
  have read : ofJson? namedNull.1 = some namedNull.2 := rfl
  obtain ⟨-, -, tables⟩ := null_named_by_text [(.null, "ignored")]
  obtain ⟨members, spelled, -, unnamed⟩ := tables _ _ read
  have named : (Tag.null.number, "root") ∈
      (namedNull.2.insertAll [(.null, "ignored")]).entries := by decide
  refine ⟨read, members, spelled, ?_⟩
  apply Classical.byContradiction
  intro none
  exact unnamed.mpr (fun member held number => none ⟨member, held, number⟩) _
    named rfl

end TagNames

end MaterialGraph
