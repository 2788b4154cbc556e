import MaterialGraph.ByteStream.Item
import MaterialGraph.Proofs.ByteStream.Refusal

/-!
# Items one after the other

Every item ends where its own bytes say so, so that any items may follow each
other.  Who asks for the shapes of the items that were written finds these
items, and stands after each of them where the writer stood.

What is read is followed from the start of the items.  A reader in front of
the bytes of an item steps right behind them, and the bytes of the next item
lie ahead.
-/

namespace MaterialGraph

namespace ByteStream

namespace Shape

/-- Read an item of each shape, one after the other. -/
def readAll : List Shape → Read (List Item)
  | [] => return []
  | shape :: rest => do
      let item ← shape.read
      let others ← readAll rest
      return item :: others

end Shape

namespace Item

/-- The lengths of texts and of blocks are 64-bit numbers, as are all lengths on
the machine that writes them. -/
def Fits : Item → Prop
  | text content => content.utf8ByteSize < UInt64.size
  | block content => content.length < UInt64.size
  | byte _ | long _ | size _ | flag _ => True

instance : DecidablePred Fits
  | text content =>
      inferInstanceAs (Decidable (content.utf8ByteSize < UInt64.size))
  | block content =>
      inferInstanceAs (Decidable (content.length < UInt64.size))
  | byte _ | long _ | size _ | flag _ => inferInstanceAs (Decidable True)

@[simp] theorem encodeAll_nil : encodeAll [] = [] :=
  rfl

@[simp] theorem encodeAll_cons (item : Item) (items : List Item) :
    encodeAll (item :: items) = item.encode ++ encodeAll items :=
  rfl

theorem encodeAll_append (items items' : List Item) :
    encodeAll (items ++ items') = encodeAll items ++ encodeAll items' :=
  List.flatMap_append

/-- The writer has written `written` bytes before the items. -/
theorem getElem?_lengths_go (items : List Item) {written done : Nat}
    (some : done ≤ items.length) :
    (written :: lengths.go written items)[done]? =
      Option.some (written + (encodeAll (items.take done)).length) := by
  induction items generalizing written done with
  | nil =>
      obtain rfl : done = 0 := Nat.le_zero.mp some
      rfl
  | cons item items induction =>
      cases done with
      | zero => rfl
      | succ done =>
          have fewer : done ≤ items.length := Nat.le_of_succ_le_succ some
          have others := @induction (written + item.encode.length) done fewer
          rw [List.take_succ_cons, encodeAll_cons, List.length_append,
            ← Nat.add_assoc]
          exact others

section Answers

/-- A 64-bit number is read back as it is. -/
theorem answers_readVarint_toNat (number : UInt64) :
    Answers readVarint (encodeVarint number.toNat) number none := by
  have answers := answers_readVarint number.toNat
  rw [UInt64.ofNat_toNat, oversize?_eq_none_iff.mpr number.toNat_lt] at answers
  exact answers

theorem answers_readFlag (answer : Bool) :
    Answers readFlag (encodeFlag answer) answer none :=
  .ofAccepts accepts_readFlag (denotesFlag_encodeFlag answer)

theorem answers_readBlock (content : List UInt8) :
    Answers (readBlock content.length) content content.toArray none :=
  .ofAccepts (accepts_readBlock content.length) ⟨rfl, rfl⟩

/-- An item is read back wherever its bytes lie ahead, whatever follows. -/
theorem answers_read {item : Item} (fits : item.Fits) :
    Answers item.shape.read item.encode item none := by
  cases item with
  | byte octet => exact (answers_readByte octet).map Item.byte
  | long number => exact (answers_readVarint_toNat number).map Item.long
  | size number => exact (answers_readVarint_toNat number).map Item.size
  | flag answer => exact (answers_readFlag answer).map Item.flag
  | text content =>
      have answers := answers_readText content
      rw [oversize?_eq_none_iff.mpr fits] at answers
      exact answers.map Item.text
  | block content =>
      have count : (UInt64.ofNat content.length).toNat = content.length :=
        UInt64.toNat_ofNat_of_lt' fits
      have answers := (answers_readBlock content).map fun found =>
        Item.block found.toList
      rw [← count] at answers
      exact answers

/-- The first item leaves the bytes of the others ahead. -/
theorem answers_readAll {items : List Item}
    (fits : ∀ item ∈ items, item.Fits) :
    Answers (Shape.readAll (items.map shape)) (encodeAll items) items
      none := by
  induction items with
  | nil => exact Answers.pure []
  | cons item items induction =>
      rw [List.forall_mem_cons] at fits
      have first : Answers item.shape.read item.encode item none :=
        answers_read fits.1
      have others := (induction fits.2).map (item :: ·)
      exact first.acceptBind others

end Answers

/-- Items of any shapes are read back in the order in which they were written.
After so many reads exactly the items so far have been found.  The position is
the length that the writer had after as many items, and it is the end if and
only if no byte of the buffer is left. -/
theorem items_read_back_in_step {items : List Item}
    (fits : ∀ item ∈ items, item.Fits) :
    ∀ done ≤ items.length, ∃ reader : Reader,
      Shape.readAll ((items.take done).map shape)
          (.ofList (encodeAll items)) =
        .ok (items.take done) reader ∧
      (0 :: lengths items)[done]? = some reader.position ∧
      reader.position = (encodeAll (items.take done)).length ∧
      reader.rest = encodeAll (items.drop done) ∧
      (reader.atEnd ↔ reader.position = (encodeAll items).length) := by
  intro done enough
  have split : encodeAll items =
      encodeAll (items.take done) ++ encodeAll (items.drop done) := by
    rw [← encodeAll_append, List.take_append_drop]
  have fitsSoFar : ∀ item ∈ items.take done, item.Fits :=
    fun item member => fits item (List.mem_of_mem_take member)
  have ahead : encodeAll (items.take done) <+:
      (Reader.ofList (encodeAll items)).rest := by
    rw [Reader.rest_ofList, split]
    exact List.prefix_append _ _
  refine ⟨_, answers_readAll fitsSoFar _ ahead, ?_, ?_, ?_, ?_⟩
  · rw [lengths, getElem?_lengths_go items enough]
    rfl
  · exact Nat.zero_add _
  · rw [Reader.rest_advance, Reader.rest_ofList, split, List.drop_left]
  · have within : (encodeAll (items.take done)).length ≤
        (encodeAll items).length := by
      rw [split, List.length_append]
      exact Nat.le_add_right _ _
    simp only [Reader.atEnd, Reader.advance, Reader.ofList,
      List.size_toArray, decide_eq_true_eq]
    omega

/-- Numbers at the edges of their groups, a text of several alphabets, an empty
text, and bytes that are neither a number nor a text. -/
theorem items_read_back_mixed :
    ∃ reader : Reader,
      Shape.readAll
          [.byte, .long, .size, .flag, .text, .block 3, .text]
          (.ofList (encodeAll
            [.byte 255, .long 18446744073709551615, .size 128, .flag true,
              .text "aé€😀", .block [0x80, 0, 255], .text ""])) =
        .ok
          [.byte 255, .long 18446744073709551615, .size 128, .flag true,
            .text "aé€😀", .block [0x80, 0, 255], .text ""]
          reader ∧
      reader.position = 29 ∧ reader.rest = [] := by
  obtain ⟨reader, found, -, position, rest, -⟩ :=
    @items_read_back_in_step
      [.byte 255, .long 18446744073709551615, .size 128, .flag true,
        .text "aé€😀", .block [0x80, 0, 255], .text ""]
      (by decide) 7 (by decide)
  refine ⟨reader, found, ?_, rest⟩
  rw [position]
  decide +kernel

end Item

end ByteStream

end MaterialGraph
