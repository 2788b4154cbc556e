import MaterialGraph.Proofs.Json.Printing
import MaterialGraph.Tag.Json

/-!
# Tables of names

A table that is built by giving tags names is in increasing order of the tags'
numbers, and a table in that order is read back from its text.
-/

namespace MaterialGraph

open Json

namespace TagNames

/-- Numbers increase from entry to entry. -/
def IsSorted (names : TagNames) : Prop :=
  names.entries.Pairwise fun left right => left.1 < right.1

theorem isSorted_empty : ({} : TagNames).IsSorted :=
  .nil

theorem mem_putEntry {number : UInt64} {name : String}
    {entries : List (UInt64 × String)} {entry : UInt64 × String}
    (member : entry ∈ putEntry number name entries) :
    entry = (number, name) ∨ entry ∈ entries := by
  induction entries with
  | nil => exact .inl (List.mem_singleton.mp member)
  | cons head rest induction =>
      obtain ⟨other, held⟩ := head
      unfold putEntry at member
      split at member
      · exact List.mem_cons.mp member
      · split at member
        · rcases List.mem_cons.mp member with new | old
          · exact .inl new
          · exact .inr (List.mem_cons_of_mem _ old)
        · rcases List.mem_cons.mp member with same | later
          · exact .inr (List.mem_cons.mpr (.inl same))
          · rcases induction later with new | old
            · exact .inl new
            · exact .inr (List.mem_cons_of_mem _ old)

theorem pairwise_putEntry {number : UInt64} {name : String}
    {entries : List (UInt64 × String)}
    (sorted : entries.Pairwise fun left right => left.1 < right.1) :
    (putEntry number name entries).Pairwise
      fun left right => left.1 < right.1 := by
  induction sorted with
  | nil => exact List.pairwise_singleton _ _
  | @cons head rest above sorted induction =>
      obtain ⟨other, held⟩ := head
      unfold putEntry
      by_cases before : number < other
      · rw [if_pos before]
        refine .cons ?_ (.cons above sorted)
        intro entry member
        rcases List.mem_cons.mp member with same | later
        · rw [same]
          exact before
        · exact UInt64.lt_trans before (above entry later)
      · rw [if_neg before]
        by_cases same : number = other
        · rw [if_pos same]
          refine .cons ?_ sorted
          intro entry member
          rw [same]
          exact above entry member
        · rw [if_neg same]
          refine .cons ?_ induction
          intro entry member
          rcases mem_putEntry member with new | old
          · rw [new]
            have order : other.toNat < number.toNat := by
              have notBefore : ¬number.toNat < other.toNat := before
              have different : number.toNat ≠ other.toNat :=
                fun equal => same (UInt64.toNat_inj.mp equal)
              omega
            exact order
          · exact above entry old

theorem IsSorted.insert {names : TagNames} (sorted : names.IsSorted) (tag : Tag)
    (name : String) : (names.insert tag name).IsSorted := by
  unfold TagNames.insert
  split
  · exact sorted
  · exact pairwise_putEntry sorted

theorem isSorted_ofList (pairs : List (Tag × String)) :
    (ofList pairs).IsSorted := by
  suffices all : ∀ names : TagNames, names.IsSorted →
      (pairs.foldl (fun names pair => names.insert pair.1 pair.2)
        names).IsSorted from all {} isSorted_empty
  induction pairs with
  | nil => exact fun names sorted => sorted
  | cons pair pairs induction =>
      exact fun names sorted => induction _ (sorted.insert pair.1 pair.2)

/-- A number is put where it belongs. -/
theorem putEntry_between {number : UInt64} {name : String}
    {low high : List (UInt64 × String)}
    (below : ∀ entry ∈ low, entry.1 < number)
    (above : ∀ entry ∈ high, number < entry.1) :
    putEntry number name (low ++ high) = low ++ (number, name) :: high := by
  induction low with
  | nil =>
      cases high with
      | nil => rfl
      | cons entry rest =>
          rw [List.forall_mem_cons] at above
          exact if_pos above.1
  | cons entry rest induction =>
      obtain ⟨other, held⟩ := entry
      rw [List.forall_mem_cons] at below
      have order : other.toNat < number.toNat := below.1
      have notBefore : ¬number < other := by
        intro before
        have reverse : number.toNat < other.toNat := before
        omega
      have different : number ≠ other := by
        intro same
        rw [same] at order
        exact Nat.lt_irrefl _ order
      rw [List.cons_append, putEntry, if_neg notBefore, if_neg different,
        induction below.2]
      rfl

theorem putEntry_of_forall_lt {number : UInt64} {name : String}
    {entries : List (UInt64 × String)}
    (below : ∀ entry ∈ entries, entry.1 < number) :
    putEntry number name entries = entries ++ [(number, name)] := by
  have last : putEntry number name (entries ++ []) =
      entries ++ [(number, name)] :=
    putEntry_between below (List.forall_mem_nil _)
  rwa [List.append_nil] at last

/-- An entry as a member of the text. -/
def textEntry (entry : UInt64 × String) : String × String :=
  (toString entry.1.toNat, entry.2)

theorem ofMembers?_written {done rest : List (UInt64 × String)}
    (sorted : (done ++ rest).Pairwise fun left right => left.1 < right.1) :
    ofMembers? ((rest.map textEntry).map writtenMember) ⟨done⟩ =
      some ⟨done ++ rest⟩ := by
  induction rest generalizing done with
  | nil => simp [ofMembers?]
  | cons entry rest induction =>
      have above : ∀ earlier ∈ done, earlier.1 < entry.1 := by
        intro earlier member
        exact (List.pairwise_append.mp sorted).2.2 earlier member entry
          List.mem_cons_self
      have added : putEntry entry.1 entry.2 done = done ++ [entry] :=
        putEntry_of_forall_lt above
      have key : long? (written (toString entry.1.toNat)) = some entry.1 := by
        rw [written, Nat.toString_eq_repr, Nat.toList_repr,
          flatMap_escapeChar_toDigits, long?_toDigits]
      have value : (Value.string (written entry.2)).toText? =
          some entry.2 := by
        simp [Value.toText?, written, unescape?_flatMap_escapeChar]
      have moved : ((done ++ [entry]) ++ rest).Pairwise
          fun left right => left.1 < right.1 := by
        simpa using sorted
      have others := induction moved
      simp only [List.map_cons, writtenMember, textEntry, ofMembers?, key,
        value, put, added, Option.bind_eq_bind, Option.bind_some]
      simpa using others

/-- A table in increasing order is read back from its text. -/
theorem IsSorted.read_toJson {names : TagNames} (sorted : names.IsSorted) :
    TagNames.read names.toJson = .ok names := by
  have text : names.toJson = stringObject (names.entries.map textEntry) := by
    simp [toJson, stringObject, textEntry, Function.comp_def]
  have members : ofMembers? ((names.entries.map textEntry).map writtenMember)
      {} = some names := by
    have all : IsSorted ⟨[] ++ names.entries⟩ := sorted
    exact ofMembers?_written all
  have known : ofJson? names.toJson = some names := by
    rw [ofJson?, text, ofText?_stringObject]
    exact members
  rw [TagNames.read, known]

end TagNames

end MaterialGraph
