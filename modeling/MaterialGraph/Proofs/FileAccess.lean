import MaterialGraph.FileAccess
import MaterialGraph.Path
import MaterialGraph.Proofs.ByteStream.Text

/-!
# What a file system keeps

The program only asks a file system to read and to write.  What it relies on
is stated for any file system whose states are the values of some type:
reading changes nothing, and two paths lead to different regular files if what
is written to either is read back, the first one even after the second has been
written.  A device that swallows what is written to it is no regular file.
-/

namespace MaterialGraph

namespace FileAccess

section Text

theorem toList_loop_eq (bytes : ByteArray) (position : Nat)
    (done : List UInt8) :
    ByteArray.toList.loop bytes position done =
      done.reverse ++ bytes.data.toList.drop position := by
  induction position, done using ByteArray.toList.loop.induct bytes with
  | case1 position done inside induction =>
      have next : bytes.data.toList.drop position =
          bytes.get! position :: bytes.data.toList.drop (position + 1) := by
        rw [List.drop_eq_getElem_cons (Array.length_toList.symm ▸ inside)]
        have byte : bytes.get! position = bytes.data[position] :=
          getElem!_pos bytes.data position inside
        rw [byte, Array.getElem_toList]
      rw [ByteArray.toList.loop, if_pos inside, induction, next,
        List.reverse_cons, List.append_assoc, List.singleton_append]
  | case2 position done outside =>
      rw [ByteArray.toList.loop, if_neg outside, List.drop_eq_nil_of_le,
        List.append_nil]
      exact Nat.le_of_not_lt outside

theorem toList_eq_data (bytes : ByteArray) :
    bytes.toList = bytes.data.toList := by
  rw [ByteArray.toList, toList_loop_eq, List.reverse_nil, List.nil_append,
    List.drop_zero]

/-- The bytes of a text encode the text. -/
theorem textOf_toUTF8 (text : String) :
    textOf text.toUTF8.toList = .ok text := by
  have encoded : String.fromUTF8? ⟨text.toUTF8.toList.toArray⟩ = some text := by
    apply ByteStream.fromUTF8?_eq_some_iff.mpr
    rw [toList_eq_data]
    rfl
  rw [textOf, encoded]

end Text

section Contents

variable {World : Type}

/-- What is read from a path in a state of the file system. -/
def contentIn (files : FileAccess (StateM World)) (world : World)
    (path : String) : Except FileError (List UInt8) :=
  (files.read path world).1

/-- Files are looked at and named as the program expects it. -/
structure IsFileSystem (files : FileAccess (StateM World)) : Prop where
  /-- Reading leaves everything as it is. -/
  readKeeps : ∀ path world, (files.read path world).2 = world
  /-- A path without the name of a file leads to a folder, which cannot be
  written. -/
  writeNamed : ∀ path bytes world changed,
    files.write path bytes world = (.ok (), changed) →
      ∃ name, Path.fileName? path = some name

/-- A path leads to a regular file, or to where one can be: what is written to
it is read back. -/
def IsRegular (files : FileAccess (StateM World)) (world : World)
    (path : String) : Prop :=
  ∀ bytes changed, files.write path bytes world = (.ok (), changed) →
    files.contentIn changed path = .ok bytes

/-- Two paths lead to different regular files, also once the first one has been
written. -/
structure AreDifferentFiles (files : FileAccess (StateM World)) (world : World)
    (first second : String) : Prop where
  firstRegular : files.IsRegular world first
  secondRegular : ∀ bytes written,
    files.write first bytes world = (.ok (), written) →
      files.IsRegular written second
  /-- Writing the second file keeps what the first one holds. -/
  firstKept : ∀ bytes written,
    files.write first bytes world = (.ok (), written) →
      ∀ others changed, files.write second others written = (.ok (), changed) →
        files.contentIn changed first = files.contentIn written first

variable {files : FileAccess (StateM World)}

theorem IsFileSystem.read_eq (isFileSystem : files.IsFileSystem)
    (path : String) (world : World) :
    files.read path world = (files.contentIn world path, world) :=
  Prod.ext rfl (isFileSystem.readKeeps path world)

theorem IsFileSystem.readText_eq (isFileSystem : files.IsFileSystem)
    (path : String) (world : World) :
    files.readText path world =
      ((files.contentIn world path).bind textOf, world) := by
  simp only [readText, Bind.bind, StateT.bind, isFileSystem.read_eq]
  cases files.contentIn world path <;> rfl

end Contents

end FileAccess

end MaterialGraph
