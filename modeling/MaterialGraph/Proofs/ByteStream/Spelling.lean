import MaterialGraph.Proofs.ByteStream.Text

/-!
# Spellings

What is written for an object is a sequence of pieces.  Most pieces have one
form only.  A number is an exception, because readers accept it with zeros at
its top: the words for a sequence of pieces differ in how they spell its
numbers, and the one that is written spells each of them as short as possible.
-/

namespace MaterialGraph

namespace ByteStream

/-- One byte, or a last byte that is not zero. -/
def IsShortest (word : List UInt8) : Prop :=
  word.length = 1 ∨ word.getLast? ≠ some 0

theorem DenotesGroups.getLast?_of_eq_zero {word : List UInt8} {number : Nat}
    (groups : DenotesGroups word number) (zero : number = 0) :
    word.getLast? = some 0 := by
  induction groups with
  | @last byte final =>
      have same : byte = 0 := UInt8.toNat_inj.mp zero
      rw [same]
      rfl
  | @more byte rest higher announces groups induction =>
      have lastZero : rest.getLast? = some 0 := induction (by omega)
      obtain ⟨head, tail, rfl⟩ := List.exists_cons_of_ne_nil groups.ne_nil
      rw [List.getLast?_cons_cons, lastZero]

theorem DenotesGroups.length_encodeVarint_le {word : List UInt8} {number : Nat}
    (groups : DenotesGroups word number) :
    (encodeVarint number).length ≤ word.length := by
  induction groups with
  | @last byte final =>
      rw [encodeVarint, if_pos final]
      simp
  | @more byte rest higher announces groups induction =>
      rw [encodeVarint]
      split
      · simp
      · have quotient : (byte.toNat % 128 + 128 * higher) / 128 = higher := by
          omega
        rw [quotient]
        simpa using induction

/-- Of all words for a number the writer takes the one that is shortest. -/
theorem DenotesGroups.encodeVarint_eq_iff {word : List UInt8} {number : Nat}
    (groups : DenotesGroups word number) :
    encodeVarint number = word ↔ IsShortest word := by
  induction groups with
  | @last byte final =>
      rw [encodeVarint, if_pos final]
      simp [IsShortest]
  | @more byte rest higher announces groups induction =>
      have small : byte.toNat < 256 := byte.toNat_lt
      obtain ⟨head, tail, rfl⟩ := List.exists_cons_of_ne_nil groups.ne_nil
      have longer : IsShortest (byte :: head :: tail) ↔
          (head :: tail).getLast? ≠ some 0 := by
        simp [IsShortest]
      rw [longer]
      by_cases zero : higher = 0
      · -- without higher groups the number has a shorter word of one byte
        have lastZero := groups.getLast?_of_eq_zero zero
        have fits : byte.toNat % 128 + 128 * higher < 128 := by omega
        rw [encodeVarint, if_pos fits]
        simp [lastZero]
      · have large : ¬byte.toNat % 128 + 128 * higher < 128 := by omega
        have low : UInt8.ofNat
            ((byte.toNat % 128 + 128 * higher) % 128 + 128) = byte := by
          have whole : (byte.toNat % 128 + 128 * higher) % 128 + 128 =
              byte.toNat := by
            omega
          rw [whole, UInt8.ofNat_toNat]
        have quotient : (byte.toNat % 128 + 128 * higher) / 128 = higher := by
          omega
        rw [encodeVarint, if_neg large, low, quotient, List.cons.injEq,
          eq_self, true_and, induction]
        constructor
        · intro shortest
          rcases shortest with single | notZero
          · have alone : tail = [] := by simpa using single
            subst alone
            cases groups with
            | last final =>
                intro lastZero
                have same : head = 0 := by simpa using lastZero
                rw [same] at zero
                exact zero rfl
            | more announces' groups' => exact (groups'.ne_nil rfl).elim
          · exact notZero
        · intro notZero
          exact .inr notZero

/-- A piece of what is written. -/
inductive Piece
  | fixed (bytes : List UInt8)
  | number (value : Nat)

/-- The bytes that are written for a piece. -/
def Piece.encode : Piece → List UInt8
  | .fixed bytes => bytes
  | .number value => encodeVarint value

/-- The pieces of a text. -/
def textPieces (text : String) : List Piece :=
  [.number text.utf8ByteSize, .fixed (textBytes text)]

/-- A word that spells some pieces one after the other, and the words in it
that stand for the numbers among the pieces. -/
inductive Spells : List Piece → (word : List UInt8) →
    (numbers : List (List UInt8)) → Prop
  | nil : Spells [] [] []
  | fixed {bytes word : List UInt8} {pieces : List Piece}
      {numbers : List (List UInt8)} (others : Spells pieces word numbers) :
      Spells (.fixed bytes :: pieces) (bytes ++ word) numbers
  | number {numberWord word : List UInt8} {number : Nat} {pieces : List Piece}
      {numbers : List (List UInt8)} (denotes : DenotesNumber numberWord number)
      (others : Spells pieces word numbers) :
      Spells (.number number :: pieces) (numberWord ++ word)
        (numberWord :: numbers)

namespace Spells

variable {pieces : List Piece} {word : List UInt8} {numbers : List (List UInt8)}

theorem append (spells : Spells pieces word numbers) {pieces' : List Piece}
    {word' : List UInt8} {numbers' : List (List UInt8)}
    (spells' : Spells pieces' word' numbers') :
    Spells (pieces ++ pieces') (word ++ word') (numbers ++ numbers') := by
  induction spells with
  | nil => exact spells'
  | fixed others induction =>
      rw [List.cons_append, List.append_assoc]
      exact .fixed induction
  | number denotes others induction =>
      rw [List.cons_append, List.cons_append, List.append_assoc]
      exact .number denotes induction

/-- How the numbers are spelled can be told from the word. -/
theorem unique (spells : Spells pieces word numbers)
    {numbers' : List (List UInt8)} (spells' : Spells pieces word numbers') :
    numbers = numbers' := by
  -- the word is compared up to equality, since its parts are cut differently
  suffices all : ∀ word', word = word' → Spells pieces word' numbers' →
      numbers = numbers' from all word rfl spells'
  clear spells'
  induction spells generalizing numbers' with
  | nil =>
      intro word' same spells'
      cases spells'
      rfl
  | fixed others induction =>
      intro word' same spells'
      cases spells' with
      | fixed others' =>
          exact induction _ (List.append_cancel_left same) others'
  | number denotes others induction =>
      intro word' same spells'
      cases spells' with
      | number denotes' others' =>
          obtain ⟨-, sameRest⟩ := denotes.groups.append_inj denotes'.groups same
          rw [sameRest] at same
          rw [List.append_cancel_right same, induction _ sameRest others']

theorem length_encode_le (spells : Spells pieces word numbers) :
    (pieces.flatMap Piece.encode).length ≤ word.length := by
  induction spells with
  | nil => simp
  | fixed others induction =>
      simp only [List.flatMap_cons, Piece.encode, List.length_append]
      omega
  | number denotes others induction =>
      have shorter := denotes.groups.length_encodeVarint_le
      simp only [List.flatMap_cons, Piece.encode, List.length_append]
      omega

/-- The word is what is written if and only if it spells each number in the
shortest way. -/
theorem encode_eq_iff (spells : Spells pieces word numbers) :
    pieces.flatMap Piece.encode = word ↔
      ∀ numberWord ∈ numbers, IsShortest numberWord := by
  induction spells with
  | nil => simp
  | @fixed bytes word pieces numbers others induction =>
      rw [List.flatMap_cons, Piece.encode, ← induction]
      exact List.append_right_inj bytes
  | @number numberWord word number pieces numbers denotes others induction =>
      rw [List.flatMap_cons, Piece.encode, List.forall_mem_cons, ← induction,
        ← denotes.groups.encodeVarint_eq_iff]
      constructor
      · intro same
        obtain ⟨-, sameRest⟩ := (denotesGroups_encodeVarint number).append_inj
          denotes.groups same
        rw [sameRest] at same
        exact ⟨List.append_cancel_right same, sameRest⟩
      · intro same
        obtain ⟨sameNumber, sameRest⟩ := same
        rw [sameNumber, sameRest]

end Spells

/-- A word spells the pieces in some way. -/
def IsSpelling (pieces : List Piece) (word : List UInt8) : Prop :=
  ∃ numbers, Spells pieces word numbers

namespace IsSpelling

variable {pieces : List Piece} {word : List UInt8}

theorem nil : IsSpelling [] [] :=
  ⟨[], .nil⟩

theorem ofFixed (bytes : List UInt8) : IsSpelling [.fixed bytes] bytes := by
  have spells : Spells [.fixed bytes] (bytes ++ []) [] := .fixed .nil
  rw [List.append_nil] at spells
  exact ⟨[], spells⟩

theorem ofNumber {number : Nat} (denotes : DenotesNumber word number) :
    IsSpelling [.number number] word := by
  have spells := Spells.number denotes Spells.nil
  rw [List.append_nil] at spells
  exact ⟨[word], spells⟩

theorem append (spelling : IsSpelling pieces word) {pieces' : List Piece}
    {word' : List UInt8} (spelling' : IsSpelling pieces' word') :
    IsSpelling (pieces ++ pieces') (word ++ word') := by
  obtain ⟨numbers, spells⟩ := spelling
  obtain ⟨numbers', spells'⟩ := spelling'
  exact ⟨numbers ++ numbers', spells.append spells'⟩

theorem ofText {text : String} (denotes : DenotesText word text) :
    IsSpelling (textPieces text) word := by
  cases denotes with
  | counted size => exact (ofNumber size).append (ofFixed (textBytes text))

theorem ofFlag {flag : Bool} (denotes : DenotesFlag word flag) :
    IsSpelling [.fixed (encodeFlag flag)] word := by
  cases denotes with
  | no => exact ofFixed [0]
  | yes => exact ofFixed [1]

end IsSpelling

end ByteStream

end MaterialGraph
