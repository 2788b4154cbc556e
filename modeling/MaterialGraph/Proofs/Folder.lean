import MaterialGraph.Folder
import MaterialGraph.Proofs.FileAccess

/-!
# Reading back what is written

A path can be written if it leads to a place for a file: the place is in a
folder that exists and is not that of a folder.  Putting a file at such a place
neither makes nor removes a folder, so that every path leads where it led
before.  What is written is therefore read back until something else is
written to the same place: all that a path can lead to in a folder is a regular
file.
-/

namespace MaterialGraph

namespace Folder

/-- A file is at the place or can be put there. -/
structure HasRoom (folder : Folder) (place : List String) : Prop where
  inFolder : folder.hasFolder place.dropLast = true
  noFolder : folder.hasFolder place = false

/-- What a path leads to if it leads to a place for a file. -/
def targetAt (folder : Folder) (place : List String) : Target :=
  if (folder.content? place).isSome then .file place else .vacancy place

/-- The place for a file that following a path has led to. -/
def filePlace? : Except FileError Target → Option (List String)
  | .ok (.file place) => some place
  | .ok (.vacancy place) => some place
  | _ => none

/-- The place for a file where a path leads. -/
def place? (folder : Folder) (path : String) : Option (List String) :=
  filePlace? (folder.locate path)

section Put

variable {folder : Folder} {place : List String}

theorem hasFolder_iff :
    folder.hasFolder place = true ↔
      place = [] ∨ ∃ file ∈ folder.files, ∃ name rest,
        file.1 = place ++ name :: rest := by
  simp only [hasFolder, Bool.or_eq_true, List.isEmpty_iff, List.any_eq_true,
    Bool.and_eq_true, decide_eq_true_eq, List.isPrefixOf_iff_prefix]
  refine or_congr_right (exists_congr fun file => and_congr_right fun _ => ?_)
  constructor
  · rintro ⟨shorter, rest, same⟩
    cases rest with
    | nil =>
        rw [List.append_nil] at same
        rw [same] at shorter
        exact (Nat.lt_irrefl _ shorter).elim
    | cons name rest => exact ⟨name, rest, same.symm⟩
  · rintro ⟨name, rest, same⟩
    rw [same]
    exact ⟨by simp, List.prefix_append place (name :: rest)⟩

/-- What is on the way to a folder is a folder. -/
theorem hasFolder_of_append {more : List String}
    (present : folder.hasFolder (place ++ more) = true) :
    folder.hasFolder place = true := by
  rw [hasFolder_iff] at present ⊢
  rcases present with whole | ⟨file, member, name, rest, same⟩
  · exact .inl (List.append_eq_nil_iff.mp whole).1
  · right
    rw [List.append_assoc] at same
    cases more with
    | nil => exact ⟨file, member, name, rest, same⟩
    | cons step more =>
        exact ⟨file, member, step, more ++ name :: rest, same⟩

theorem hasFolder_dropLast (present : folder.hasFolder place = true) :
    folder.hasFolder place.dropLast = true := by
  obtain ⟨last, same⟩ := List.dropLast_prefix place
  rw [← same] at present
  exact hasFolder_of_append present

theorem mem_files_put {bytes : List UInt8} {file : List String × List UInt8} :
    file ∈ (folder.put place bytes).files ↔
      file = (place, bytes) ∨ file ∈ folder.files ∧ file.1 ≠ place := by
  simp [put]

/-- Putting a file where there is room changes no folder. -/
theorem HasRoom.hasFolder_put (room : folder.HasRoom place)
    (bytes : List UInt8) (other : List String) :
    (folder.put place bytes).hasFolder other = folder.hasFolder other := by
  apply Bool.eq_iff_iff.mpr
  constructor
  · intro present
    rcases hasFolder_iff.mp present with
      whole | ⟨file, member, name, rest, same⟩
    · exact hasFolder_iff.mpr (.inl whole)
    · rcases mem_files_put.mp member with new | old
      · -- The folder is on the way to the one in which the new file is.
        have parent : place.dropLast = other ++ (name :: rest).dropLast := by
          have itself : place = other ++ name :: rest := by
            rw [new] at same
            exact same
          rw [itself, List.dropLast_append_of_ne_nil (List.cons_ne_nil _ _)]
        have inFolder := room.inFolder
        rw [parent] at inFolder
        exact hasFolder_of_append inFolder
      · exact hasFolder_iff.mpr (.inr ⟨file, old.1, name, rest, same⟩)
  · intro present
    rcases hasFolder_iff.mp present with
      whole | ⟨file, member, name, rest, same⟩
    · exact hasFolder_iff.mpr (.inl whole)
    · apply hasFolder_iff.mpr
      right
      by_cases replaced : file.1 = place
      · exact ⟨(place, bytes), mem_files_put.mpr (.inl rfl), name, rest,
          replaced.symm.trans same⟩
      · exact ⟨file, mem_files_put.mpr (.inr ⟨member, replaced⟩), name, rest,
          same⟩

theorem content?_put_self (bytes : List UInt8) :
    (folder.put place bytes).content? place = some bytes := by
  simp [content?, put]

theorem content?_put_of_ne (bytes : List UInt8) {other : List String}
    (different : other ≠ place) :
    (folder.put place bytes).content? other = folder.content? other := by
  have kept : ∀ files : List (List String × List UInt8),
      (files.filter fun file => file.1 != place).lookup other =
        files.lookup other := by
    intro files
    induction files with
    | nil => rfl
    | cons file files induction =>
        obtain ⟨spot, content⟩ := file
        by_cases here : spot = place
        · subst here
          simp [List.lookup_cons, induction, beq_eq_false_iff_ne.mpr different]
        · simp [List.lookup_cons, induction, here]
  have notHere : (other == place) = false := beq_eq_false_iff_ne.mpr different
  simp only [content?, put, List.lookup_cons, notHere]
  exact kept folder.files

end Put

section Follow

variable {folder : Folder}

@[simp] theorem filePlace?_stop (reason : FileError) (rest : List String) :
    filePlace? (stop reason rest) = none := by
  unfold stop
  split <;> rfl

/-- Steps lead to a place for a file that has the name of the last step. -/
structure LeadsTo (folder : Folder) (steps : List String)
    (result : Except FileError Target) (place : List String) : Prop where
  room : folder.HasRoom place
  target : result = .ok (folder.targetAt place)
  name : ∃ name, place.getLast? = some name ∧ steps.getLast? = some name ∧
    Path.isIdle name = false ∧ name ≠ ".."

theorem LeadsTo.cons {steps : List String} {result : Except FileError Target}
    {place : List String} (leads : folder.LeadsTo steps result place)
    (step : String) : folder.LeadsTo (step :: steps) result place := by
  obtain ⟨name, ofPlace, ofSteps, proper⟩ := leads.name
  refine ⟨leads.room, leads.target, name, ofPlace, ?_, proper⟩
  rw [List.getLast?_cons, ofSteps]
  rfl

/-- The last step names a file in the folder to which the others have led. -/
theorem LeadsTo.last {names : List String} {step : String}
    (inFolder : folder.hasFolder names = true)
    (noFolder : ¬folder.hasFolder (names ++ [step]) = true)
    (notIdle : ¬Path.isIdle step = true) (notUp : step ≠ "..") :
    folder.LeadsTo [step] (.ok (folder.targetAt (names ++ [step])))
      (names ++ [step]) where
  room := by
    constructor
    · rw [List.dropLast_concat]
      exact inFolder
    · exact Bool.eq_false_iff.mpr noFolder
  target := rfl
  name := ⟨step, List.getLast?_concat, rfl, Bool.eq_false_iff.mpr notIdle,
    notUp⟩

theorem leadsTo_of_filePlace?_follow {steps : List String}
    {start : Option (List String)} {place : List String}
    (inside : ∀ names, start = some names → folder.hasFolder names = true)
    (found : filePlace? (folder.follow start steps) = some place) :
    folder.LeadsTo steps (folder.follow start steps) place := by
  induction steps generalizing start with
  | nil => cases found
  | cons step rest induction =>
      unfold follow at found ⊢
      dsimp only at found ⊢
      by_cases idle : Path.isIdle step = true
      · rw [if_pos idle] at found ⊢
        exact (induction inside found).cons step
      rw [if_neg idle] at found ⊢
      by_cases up : step = ".."
      · rw [if_pos up] at found ⊢
        refine (induction ?_ found).cons step
        intro names above
        obtain ⟨below, startBelow, outside⟩ := Option.bind_eq_some_iff.mp above
        split at outside
        · cases outside
        · cases outside
          exact hasFolder_dropLast (inside below startBelow)
      rw [if_neg up] at found ⊢
      by_cases long : maxNameBytes < step.utf8ByteSize
      · rw [if_pos long, filePlace?_stop] at found
        cases found
      rw [if_neg long] at found ⊢
      cases start with
      | none =>
          rw [filePlace?_stop] at found
          cases found
      | some names =>
          dsimp only at found ⊢
          by_cases isFolder : folder.hasFolder (names ++ [step]) = true
          · rw [if_pos isFolder] at found ⊢
            refine (induction ?_ found).cons step
            intro next same
            cases same
            exact isFolder
          · rw [if_neg isFolder] at found ⊢
            cases rest with
            | cons next rest =>
                cases occupied : (folder.content? (names ++ [step])).isSome <;>
                  simp [occupied] at found
            | nil =>
                have last := LeadsTo.last (inside names rfl) isFolder idle up
                rw [targetAt] at last
                cases content : folder.content? (names ++ [step]) with
                | none =>
                    simp only [content, Option.isSome_none] at found last ⊢
                    cases found
                    exact last
                | some bytes =>
                    simp only [content, Option.isSome_some] at found last ⊢
                    cases found
                    exact last

theorem HasRoom.filePlace?_follow_put {place : List String}
    (room : folder.HasRoom place) (bytes : List UInt8)
    (start : Option (List String)) (steps : List String) :
    filePlace? ((folder.put place bytes).follow start steps) =
      filePlace? (folder.follow start steps) := by
  induction steps generalizing start with
  | nil => rfl
  | cons step rest induction =>
      unfold follow
      simp only [room.hasFolder_put]
      split
      · exact induction start
      · split
        · exact induction _
        · split
          · rw [filePlace?_stop]
          · split
            · rw [filePlace?_stop]
            · split
              · exact induction _
              · -- Only whether there is a file may have changed.
                cases rest with
                | nil =>
                    cases ((folder.put place bytes).content? _).isSome <;>
                      cases (folder.content? _).isSome <;> rfl
                | cons next rest =>
                    cases ((folder.put place bytes).content? _).isSome <;>
                      cases (folder.content? _).isSome <;>
                      simp only [filePlace?_stop]

end Follow

variable {folder : Folder} {path : String} {place : List String}

theorem leadsTo_of_place? (found : folder.place? path = some place) :
    folder.LeadsTo (Path.steps path) (folder.locate path) place := by
  rw [place?, locate] at found
  rw [locate]
  split at found
  · cases found
  · split at found
    · cases found
    · rename_i notEmpty notLong
      rw [if_neg notEmpty, if_neg notLong]
      apply leadsTo_of_filePlace?_follow _ found
      intro names start
      split at start
      · cases start
      · cases start
        rfl

theorem HasRoom.place?_put (room : folder.HasRoom place) (bytes : List UInt8)
    (path : String) :
    (folder.put place bytes).place? path = folder.place? path := by
  rw [place?, place?, locate, locate]
  split
  · rfl
  · split
    · rfl
    · exact room.filePlace?_follow_put bytes _ _

theorem read_eq_ok_iff {bytes : List UInt8} :
    folder.read path = .ok bytes ↔
      ∃ place, folder.place? path = some place ∧
        folder.content? place = some bytes := by
  constructor
  · intro found
    unfold read at found
    split at found
    · rename_i place located
      split at found
      · rename_i content
        cases found
        exact ⟨place, by rw [place?, located]; rfl, content⟩
      · cases found
    all_goals cases found
  · rintro ⟨place, found, content⟩
    have located := (leadsTo_of_place? found).target
    rw [targetAt, content, Option.isSome_some, if_pos rfl] at located
    simp only [read, located, content]

theorem write_eq_ok_iff {bytes : List UInt8} {changed : Folder} :
    folder.write path bytes = .ok changed ↔
      ∃ place, folder.place? path = some place ∧
        changed = folder.put place bytes := by
  constructor
  · intro written
    unfold write at written
    split at written
    case h_1 place located =>
      cases written
      exact ⟨place, by rw [place?, located]; rfl, rfl⟩
    case h_2 place located =>
      cases written
      exact ⟨place, by rw [place?, located]; rfl, rfl⟩
    all_goals cases written
  · rintro ⟨place, found, rfl⟩
    have located := (leadsTo_of_place? found).target
    rw [targetAt] at located
    split at located <;> simp only [write, located]

section Written

variable {bytes : List UInt8} {changed : Folder}

/-- What is written is read back by every path that leads to the same
place. -/
theorem read_of_write {other : String}
    (written : folder.write path bytes = .ok changed)
    (same : folder.place? path = folder.place? other) :
    changed.read other = .ok bytes := by
  obtain ⟨place, found, rfl⟩ := write_eq_ok_iff.mp written
  have room := (leadsTo_of_place? found).room
  apply read_eq_ok_iff.mpr
  refine ⟨place, ?_, content?_put_self bytes⟩
  rw [room.place?_put, ← same, found]

/-- Writing one file keeps what is read from another one. -/
theorem read_of_write_of_ne {other : String} {content : List UInt8}
    (written : folder.write path bytes = .ok changed)
    (apart : folder.place? path ≠ folder.place? other)
    (known : folder.read other = .ok content) :
    changed.read other = .ok content := by
  obtain ⟨place, found, rfl⟩ := write_eq_ok_iff.mp written
  obtain ⟨elsewhere, foundOther, kept⟩ := read_eq_ok_iff.mp known
  have room := (leadsTo_of_place? found).room
  have different : elsewhere ≠ place := by
    intro same
    rw [found, foundOther, same] at apart
    exact apart rfl
  apply read_eq_ok_iff.mpr
  refine ⟨elsewhere, (room.place?_put bytes other).trans foundOther, ?_⟩
  rw [content?_put_of_ne bytes different, kept]

/-- Writing a file changes for no path where it leads. -/
theorem place?_of_write (written : folder.write path bytes = .ok changed)
    (other : String) : changed.place? other = folder.place? other := by
  obtain ⟨place, found, rfl⟩ := write_eq_ok_iff.mp written
  exact (leadsTo_of_place? found).room.place?_put bytes other

end Written

/-- A path that leads to a place for a file ends with the file's name. -/
theorem fileName?_of_place? (found : folder.place? path = some place) :
    Path.fileName? path = place.getLast? := by
  obtain ⟨name, ofPlace, ofSteps, notIdle, notUp⟩ :=
    (leadsTo_of_place? found).name
  obtain ⟨before, steps⟩ := List.getLast?_eq_some_iff.mp ofSteps
  have named : ((Path.steps path).filter fun step =>
      !Path.isIdle step).getLast? = some name := by
    simp [steps, notIdle]
  simp only [Path.fileName?, named, if_neg notUp, ofPlace]

section Access

theorem access_write_eq_ok_iff {bytes : List UInt8} {changed : Folder} :
    access.write path bytes folder = (.ok (), changed) ↔
      folder.write path bytes = .ok changed := by
  simp only [access]
  cases folder.write path bytes with
  | ok written =>
      constructor
      · intro same
        cases same
        rfl
      · intro same
        cases same
        rfl
  | error reason =>
      constructor <;> (intro same; cases same)

theorem contentIn_access : access.contentIn folder path = folder.read path :=
  rfl

theorem isFileSystem_access : access.IsFileSystem where
  readKeeps _ _ := rfl
  writeNamed path bytes folder changed written := by
    obtain ⟨place, found, -⟩ :=
      write_eq_ok_iff.mp (access_write_eq_ok_iff.mp written)
    obtain ⟨name, ofPlace, -⟩ := (leadsTo_of_place? found).name
    exact ⟨name, (fileName?_of_place? found).trans ofPlace⟩

theorem isFileSystem_accessWithDevice : accessWithDevice.IsFileSystem where
  readKeeps path folder := by
    simp only [accessWithDevice]
    split <;> rfl
  writeNamed path bytes folder changed written := by
    simp only [accessWithDevice] at written
    split at written
    · rename_i device
      rw [device]
      exact ⟨"null", by decide⟩
    · exact isFileSystem_access.writeNamed path bytes folder changed written

theorem access_write_of_place? (found : folder.place? path = some place)
    (bytes : List UInt8) :
    access.write path bytes folder = (.ok (), folder.put place bytes) :=
  access_write_eq_ok_iff.mpr (write_eq_ok_iff.mpr ⟨place, found, rfl⟩)

/-- One file can be written after the other where paths lead to places for
files. -/
theorem access_write_both {other : String} {elsewhere : List String}
    (found : folder.place? path = some place)
    (foundOther : folder.place? other = some elsewhere)
    (bytes : List UInt8) : ∃ written,
      access.write path bytes folder = (.ok (), written) ∧
        ∀ others, ∃ changed,
          access.write other others written = (.ok (), changed) := by
  have stored := access_write_of_place? found bytes
  have next : (folder.put place bytes).place? other = some elsewhere :=
    (place?_of_write (access_write_eq_ok_iff.mp stored) other).trans foundOther
  exact ⟨_, stored, fun others => ⟨_, access_write_of_place? next others⟩⟩

theorem isRegular_access (folder : Folder) (path : String) :
    access.IsRegular folder path := by
  intro bytes changed written
  rw [access_write_eq_ok_iff] at written
  exact read_of_write written rfl

/-- Paths that lead to different places of a folder lead to different files. -/
theorem areDifferentFiles_access {other : String}
    (apart : folder.place? path ≠ folder.place? other) :
    access.AreDifferentFiles folder path other where
  firstRegular := isRegular_access folder path
  secondRegular _ written _ := isRegular_access written other
  firstKept bytes written stored others changed replaced := by
    rw [access_write_eq_ok_iff] at stored replaced
    have elsewhere : written.place? other ≠ written.place? path := by
      rw [place?_of_write stored, place?_of_write stored]
      exact apart.symm
    have held : written.read path = .ok bytes := read_of_write stored rfl
    rw [contentIn_access, contentIn_access, held]
    exact read_of_write_of_ne replaced elsewhere held

end Access

end Folder

end MaterialGraph
