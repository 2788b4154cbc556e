import MaterialGraph.Proofs.CommandLine
import MaterialGraph.Proofs.Folder
import MaterialGraph.Proofs.GraphFile
import MaterialGraph.Proofs.SampleMaterial
import MaterialGraph.Tool

/-!
# Dumping what the program has written

A command has a result and leaves a state of the file system behind.  The
program runs on any file system whose regular files keep what is written to
them, and only the files that a command names matter to its result: the sample
material and the names of its tags are read back from where they were written.

A sample with too many layers is written nevertheless.  So is one that does not
stay where it was written: a device may swallow it, or the names replace it if
two paths lead to one file.
-/

namespace MaterialGraph

open CommandLine

namespace Tool

/-- A computation that can fail in a state of the file system. -/
abbrev InWorld (World : Type) := ExceptT ToolError (StateM World)

section Steps

variable {World α β ε : Type} {world : World}

theorem bind_eq (first : InWorld World α) (next : α → InWorld World β) :
    (first >>= next) world =
      match first world with
      | (.ok found, changed) => next found changed
      | (.error reason, changed) => (.error reason, changed) := by
  simp only [Bind.bind, ExceptT.bind, ExceptT.mk, StateT.bind]
  rcases first world with ⟨result | found, changed⟩ <;> rfl

theorem mapError_ok (explain : ε → ToolError) (found : α) :
    (Except.ok found).mapError explain = .ok found :=
  rfl

theorem mapError_error (explain : ε → ToolError) (reason : ε) :
    (Except.error reason : Except ε α).mapError explain =
      .error (explain reason) :=
  rfl

/-- An attempt explains the failure of its step and changes nothing else. -/
theorem attempt_of_eq (explain : ε → ToolError)
    {step : StateM World (Except ε α)} {result : Except ε α}
    {changed : World} (ran : step world = (result, changed)) :
    (attempt explain step : InWorld World α) world =
      (result.mapError explain, changed) := by
  simp only [attempt, ExceptT.mk, Bind.bind, StateT.bind]
  rw [ran]
  cases result <;> rfl

theorem attempt_pure (explain : ε → ToolError) (result : Except ε α) :
    (attempt explain (pure result) : InWorld World α) world =
      (result.mapError explain, world) :=
  attempt_of_eq explain rfl

end Steps

section Commands

variable {World : Type} {files : FileAccess (StateM World)} {world : World}

/-- The expression in a graph file. -/
def graphIn (files : FileAccess (StateM World)) (world : World)
    (path : String) : Except ToolError Expression := do
  let bytes ← (files.contentIn world path).mapError (.graphFile path)
  (GraphFile.decode bytes).mapError (.graph path)

/-- The names in a file. -/
def namesIn (files : FileAccess (StateM World)) (world : World)
    (path : String) : Except ToolError TagNames := do
  let text ←
    ((files.contentIn world path).bind FileAccess.textOf).mapError .namesFile
  (TagNames.read text).mapError .names

theorem readGraph_eq (isFileSystem : files.IsFileSystem) (path : String) :
    readGraph files path world = (graphIn files world path, world) := by
  rw [readGraph, bind_eq, attempt_of_eq _ (isFileSystem.read_eq path world),
    graphIn]
  cases files.contentIn world path with
  | error reason => rfl
  | ok bytes => exact attempt_pure _ _

theorem readNames_eq (isFileSystem : files.IsFileSystem) (path : String) :
    readNames files (some path) world =
      ((namesIn files world path).map some, world) := by
  rw [readNames, bind_eq,
    attempt_of_eq _ (isFileSystem.readText_eq path world), namesIn]
  cases (files.contentIn world path).bind FileAccess.textOf with
  | error reason => rfl
  | ok text =>
      simp only [mapError_ok, Bind.bind, Except.bind]
      cases TagNames.read text <;> rfl

/-- What a dump with the standard settings prints. -/
def dumpIn (files : FileAccess (StateM World)) (world : World)
    (graphPath namesPath : String) (depth : UInt64) :
    Except ToolError String := do
  let expression ← graphIn files world graphPath
  let names ← namesIn files world namesPath
  return (Tree.expression expression).dump
    (({} : Settings).style (some names) depth) (title graphPath) ++ "\n"

/-- A dump changes nothing.  The graph is read before the names. -/
theorem dump_eq (isFileSystem : files.IsFileSystem)
    (graphPath namesPath : String) (depth : UInt64) :
    dump files graphPath (some namesPath) (some depth) none world =
      (dumpIn files world graphPath namesPath depth, world) := by
  have settings : readSettings files none world = (.ok {}, world) := rfl
  simp only [dump, bind_eq, settings, readGraph_eq isFileSystem, dumpIn]
  cases graphIn files world graphPath with
  | error reason => rfl
  | ok expression =>
      simp only [readNames_eq isFileSystem]
      cases namesIn files world namesPath <;> rfl

theorem demo_eq_ok_iff {graphPath namesPath text : String} {layers : UInt64}
    {changed : World} :
    demo files graphPath layers (some namesPath) world =
        (.ok text, changed) ↔
      text = "" ∧ ∃ material names written,
        SampleMaterial.build layers.toNat = .ok (material, names) ∧
        files.write graphPath (GraphFile.encode material) world =
          (.ok (), written) ∧
        files.write namesPath names.toJson.toUTF8.toList written =
          (.ok (), changed) := by
  constructor
  · intro ran
    simp only [demo, bind_eq, attempt_pure] at ran
    cases built : SampleMaterial.build layers.toNat with
    | error reason =>
        rw [built] at ran
        cases ran
    | ok sample =>
        obtain ⟨material, names⟩ := sample
        simp only [built, mapError_ok] at ran
        rcases stored : files.write graphPath (GraphFile.encode material)
          world with ⟨reason | ⟨⟩, written⟩
        · rw [attempt_of_eq _ stored] at ran
          cases ran
        simp only [attempt_of_eq _ stored, mapError_ok,
          FileAccess.writeText] at ran
        rcases named : files.write namesPath names.toJson.toUTF8.toList
          written with ⟨reason | ⟨⟩, last⟩
        · rw [attempt_of_eq _ named] at ran
          cases ran
        rw [attempt_of_eq _ named] at ran
        cases ran
        exact ⟨rfl, material, names, written, rfl, stored, named⟩
  · rintro ⟨rfl, material, names, written, built, stored, named⟩
    simp only [demo, bind_eq, attempt_pure, built, mapError_ok,
      attempt_of_eq _ stored, FileAccess.writeText, attempt_of_eq _ named]
    rfl

end Commands

/-- A table of names does not begin as a graph file does. -/
theorem not_magic_prefix_toJson (names : TagNames) :
    ¬GraphFile.magic <+: names.toJson.toUTF8.toList := by
  have line : "\x7b\n" = "\x7b" ++ "\n" := rfl
  have opened : ∃ rest, names.toJson = "\x7b" ++ rest := by
    unfold TagNames.toJson Json.prettyObject
    split
    · exact ⟨"\x7d", rfl⟩
    · rw [line, String.append_assoc, String.append_assoc]
      exact ⟨_, rfl⟩
  obtain ⟨rest, text⟩ := opened
  have bytes : names.toJson.toUTF8.toList =
      0x7b :: rest.toByteArray.data.toList := by
    rw [FileAccess.toList_eq_data, text, String.toUTF8,
      String.toByteArray_append, ByteArray.data_append, Array.toList_append]
    rfl
  rw [bytes, GraphFile.magic, List.cons_prefix_cons]
  rintro ⟨same, -⟩
  cases same

section Runs

variable {World : Type} {files : FileAccess (StateM World)}
  {world changed : World} {graphPath namesPath : String} {layers : UInt64}
  {material : Expression} {names : TagNames}

/-- The program has written a sample material and the names of its tags, one
file after the other. -/
structure HasWritten (files : FileAccess (StateM World)) (world : World)
    (graphPath namesPath : String) (layers : UInt64) (material : Expression)
    (names : TagNames) (changed : World) : Prop where
  graphIsPath : IsPath graphPath
  namesIsPath : IsPath namesPath
  built : SampleMaterial.build layers.toNat = .ok (material, names)
  stored : ∃ written,
    files.write graphPath (GraphFile.encode material) world =
        (.ok (), written) ∧
      files.write namesPath names.toJson.toUTF8.toList written =
        (.ok (), changed)

theorem run_of_parse {arguments : List String} {command : Command}
    (parsed : parse arguments = .ok (.perform command)) :
    run files arguments world =
      match perform files command world with
      | (.ok output, changed) => (⟨0, output, ""⟩, changed)
      | (.error reason, changed) =>
          (⟨1, "", "Error: " ++ reason.message ++ "\n"⟩, changed) := by
  rw [run, parsed]
  dsimp only [ExceptT.run, Bind.bind, StateT.bind]
  rcases perform files command world with ⟨result | found, changed⟩ <;> rfl

theorem run_dump (isFileSystem : files.IsFileSystem) (depth : UInt64)
    (graphIsPath : IsPath graphPath) (namesIsPath : IsPath namesPath) :
    run files (dumpArguments graphPath namesPath depth) world =
      match dumpIn files world graphPath namesPath depth with
      | .ok text => (⟨0, text, ""⟩, world)
      | .error reason =>
          (⟨1, "", "Error: " ++ reason.message ++ "\n"⟩, world) := by
  have parsed : parse (dumpArguments graphPath namesPath depth) =
      .ok (.perform (.dump graphPath (some namesPath) (some depth) none)) :=
    parse_dump depth graphIsPath namesIsPath
  rw [run_of_parse parsed, perform, dump_eq isFileSystem]
  cases dumpIn files world graphPath namesPath depth <;> rfl

/-- The sample can be written wherever one file can be written after the
other. -/
theorem exists_hasWritten (graphIsPath : IsPath graphPath)
    (namesIsPath : IsPath namesPath)
    (fits : 100 + layers.toNat ≤ UInt64.size)
    (writable : ∀ bytes, ∃ written,
      files.write graphPath bytes world = (.ok (), written) ∧
        ∀ others, ∃ changed,
          files.write namesPath others written = (.ok (), changed)) :
    ∃ material names changed, HasWritten files world graphPath namesPath layers
      material names changed := by
  obtain ⟨material, names, built⟩ := SampleMaterial.exists_build_eq_ok fits
  obtain ⟨written, stored, next⟩ := writable (GraphFile.encode material)
  obtain ⟨changed, named⟩ := next names.toJson.toUTF8.toList
  exact ⟨material, names, changed, graphIsPath, namesIsPath, built, written,
    stored, named⟩

/-- The program succeeds only by writing both files. -/
theorem hasWritten_of_run_demo
    (succeeded : (run files (demoArguments graphPath layers namesPath)
      world).1.code = 0) :
    ∃ material names changed, HasWritten files world graphPath namesPath layers
      material names changed := by
  cases result : parse (demoArguments graphPath layers namesPath) with
  | error reason =>
      rw [run, result] at succeeded
      cases succeeded
  | ok request =>
      obtain ⟨paths, rfl⟩ := parse_demo_eq_ok_iff.mp result
      rw [run_of_parse result, perform] at succeeded
      rcases ran : demo files graphPath layers (some namesPath) world with
        ⟨reason | text, changed⟩
      · rw [ran] at succeeded
        cases succeeded
      · obtain ⟨-, material, names, written, built, stored, named⟩ :=
          demo_eq_ok_iff.mp ran
        exact ⟨material, names, changed, paths.1, paths.2, built, written,
          stored, named⟩

theorem graphIn_of_foreign {path : String} {bytes : List UInt8}
    (held : files.contentIn world path = .ok bytes)
    (foreign : ¬GraphFile.magic <+: bytes) :
    graphIn files world path = .error (.graph path .badHeader) := by
  rw [graphIn, held]
  simp only [mapError_ok, mapError_error, Bind.bind, Except.bind,
    GraphFile.decode_of_not_prefix foreign]

theorem message_graph (path : String) (reason : DecodeError) :
    (ToolError.graph path reason).message =
      "'" ++ path ++ "': " ++ reason.message :=
  rfl

/-- What is printed for a graph file whose bytes are refused. -/
theorem report_graph (path : String) (reason : DecodeError) :
    "Error: " ++ (ToolError.graph path reason).message ++ "\n" =
      "Error: '" ++ path ++ ("': " ++ reason.message ++ "\n") := by
  have opening : "Error: '" = "Error: " ++ "'" := by
    decide
  rw [opening, message_graph]
  simp only [String.append_assoc]

theorem run_dump_of_graphIn_eq_error (isFileSystem : files.IsFileSystem)
    {reason : DecodeError} (depth : UInt64) (graphIsPath : IsPath graphPath)
    (namesIsPath : IsPath namesPath)
    (refused : graphIn files world graphPath =
      .error (.graph graphPath reason)) :
    run files (dumpArguments graphPath namesPath depth) world =
      (⟨1, "", "Error: '" ++ graphPath ++ ("': " ++ reason.message ++ "\n")⟩,
        world) := by
  have failed : dumpIn files world graphPath namesPath depth =
      .error (.graph graphPath reason) := by
    rw [dumpIn, refused]
    rfl
  rw [run_dump isFileSystem depth graphIsPath namesIsPath, failed,
    ← report_graph]

namespace HasWritten

variable
  (done : HasWritten files world graphPath namesPath layers material names
    changed)
include done

theorem run_demo :
    run files (demoArguments graphPath layers namesPath) world =
      (⟨0, "", ""⟩, changed) := by
  have parsed : parse (demoArguments graphPath layers namesPath) =
      .ok (.perform (.demo graphPath layers (some namesPath))) :=
    parse_demo_eq_ok_iff.mpr ⟨⟨done.graphIsPath, done.namesIsPath⟩, rfl⟩
  obtain ⟨written, stored, named⟩ := done.stored
  have ran : demo files graphPath layers (some namesPath) world =
      (.ok "", changed) :=
    demo_eq_ok_iff.mpr ⟨rfl, material, names, written, done.built, stored,
      named⟩
  rw [run_of_parse parsed, perform, ran]

theorem exists_stem? (isFileSystem : files.IsFileSystem) :
    ∃ stem, Path.stem? graphPath = some stem := by
  obtain ⟨written, stored, -⟩ := done.stored
  obtain ⟨name, named⟩ := isFileSystem.writeNamed _ _ _ _ stored
  exact ⟨Path.withoutExtension name, by rw [Path.stem?, named]; rfl⟩

theorem namesIn_eq
    (different : files.AreDifferentFiles world graphPath namesPath) :
    namesIn files changed namesPath = .ok names := by
  obtain ⟨written, stored, named⟩ := done.stored
  have held : files.contentIn changed namesPath =
      .ok names.toJson.toUTF8.toList :=
    different.secondRegular _ _ stored _ _ named
  have sorted := (SampleMaterial.build_eq_ok done.built).2.2
  rw [namesIn, held]
  simp only [Except.bind, FileAccess.textOf_toUTF8, mapError_ok, Bind.bind,
    sorted.read_toJson]

/-- The graph that is read is the one that was written, unless it is nested too
deep. -/
theorem graphIn_eq
    (different : files.AreDifferentFiles world graphPath namesPath) :
    graphIn files changed graphPath =
      if layers.toNat < maxNesting then .ok material
      else .error (.graph graphPath (.nestingTooDeep maxNesting)) := by
  obtain ⟨written, stored, named⟩ := done.stored
  obtain ⟨sound, high, -⟩ := SampleMaterial.build_eq_ok done.built
  have held : files.contentIn changed graphPath =
      .ok (GraphFile.encode material) :=
    (different.firstKept _ _ stored _ _ named).trans
      (different.firstRegular _ _ stored)
  have fits : material.height ≤ maxNesting ↔ layers.toNat < maxNesting := by
    rw [high]
    exact Iff.rfl
  rw [graphIn, held]
  simp only [mapError_ok, Bind.bind, Except.bind,
    GraphFile.decode_encode sound, fits]
  by_cases shallow : layers.toNat < maxNesting
  · simp only [if_pos shallow, mapError_ok]
  · simp only [if_neg shallow, mapError_error]

theorem run_dump_of_shallow (isFileSystem : files.IsFileSystem)
    (different : files.AreDifferentFiles world graphPath namesPath)
    (shallow : layers.toNat < maxNesting) (depth : UInt64) :
    run files (dumpArguments graphPath namesPath depth) changed =
      (⟨0, (Tree.expression material).dump
        (({} : Settings).style (some names) depth) (title graphPath) ++ "\n",
          ""⟩, changed) := by
  have printed : dumpIn files changed graphPath namesPath depth =
      .ok ((Tree.expression material).dump
        (({} : Settings).style (some names) depth) (title graphPath) ++
          "\n") := by
    rw [dumpIn, done.graphIn_eq different, if_pos shallow,
      done.namesIn_eq different]
    rfl
  rw [run_dump isFileSystem depth done.graphIsPath done.namesIsPath, printed]

theorem run_dump_of_deep (isFileSystem : files.IsFileSystem)
    (different : files.AreDifferentFiles world graphPath namesPath)
    (deep : ¬layers.toNat < maxNesting) (depth : UInt64) :
    run files (dumpArguments graphPath namesPath depth) changed =
      (⟨1, "", "Error: '" ++ graphPath ++
        "': expressions nested deeper than 256 levels\n"⟩, changed) := by
  have refused := done.graphIn_eq different
  rw [if_neg deep] at refused
  rw [run_dump_of_graphIn_eq_error isFileSystem depth done.graphIsPath
    done.namesIsPath refused]
  rfl

/-- A file that does not hold the sample is refused for its first bytes. -/
theorem run_dump_of_foreign (isFileSystem : files.IsFileSystem)
    {bytes : List UInt8}
    (held : files.contentIn changed graphPath = .ok bytes)
    (foreign : ¬GraphFile.magic <+: bytes) (depth : UInt64) :
    run files (dumpArguments graphPath namesPath depth) changed =
      (⟨1, "", "Error: '" ++ graphPath ++
        "': missing or corrupt file header\n"⟩, changed) :=
  run_dump_of_graphIn_eq_error isFileSystem depth done.graphIsPath
    done.namesIsPath (graphIn_of_foreign held foreign)

end HasWritten

/-- A sample that the program has written is dumped under the names that it
has written for it, unless it has too many layers for a reader.  Both must be
regular files, and the names must not have replaced the sample. -/
theorem run_dump_after_demo (depth : UInt64)
    (isFileSystem : files.IsFileSystem)
    (different : files.AreDifferentFiles world graphPath namesPath)
    (succeeded : (run files (demoArguments graphPath layers namesPath)
      world).1.code = 0) :
    ∃ material names stem changed,
      SampleMaterial.build layers.toNat = .ok (material, names) ∧
        Path.stem? graphPath = some stem ∧
        run files (demoArguments graphPath layers namesPath) world =
          (⟨0, "", ""⟩, changed) ∧
        run files (dumpArguments graphPath namesPath depth) changed =
          (if layers.toNat < maxNesting then
            ⟨0, (Tree.expression material).dump
              (({} : Settings).style (some names) depth) stem ++ "\n", ""⟩
          else
            ⟨1, "", "Error: '" ++ graphPath ++
              "': expressions nested deeper than 256 levels\n"⟩,
          changed) := by
  obtain ⟨material, names, changed, done⟩ := hasWritten_of_run_demo succeeded
  obtain ⟨stem, named⟩ := done.exists_stem? isFileSystem
  have titled : title graphPath = stem := by
    rw [title, named]
    rfl
  refine ⟨material, names, stem, changed, done.built, named, done.run_demo, ?_⟩
  by_cases shallow : layers.toNat < maxNesting
  · rw [if_pos shallow, done.run_dump_of_shallow isFileSystem different shallow,
      titled]
  · rw [if_neg shallow, done.run_dump_of_deep isFileSystem different shallow]

theorem run_dump_after_demo_twoLayers :
    Folder.access.IsFileSystem ∧
    Folder.access.AreDifferentFiles {} "graph.mdlx" "names.json" ∧
    (run Folder.access (demoArguments "graph.mdlx" 2 "names.json")
      {}).1.code = 0 ∧
    ∃ material names stem changed,
      SampleMaterial.build 2 = .ok (material, names) ∧
        Path.stem? "graph.mdlx" = some stem ∧
        run Folder.access (demoArguments "graph.mdlx" 2 "names.json") {} =
          (⟨0, "", ""⟩, changed) ∧
        run Folder.access (dumpArguments "graph.mdlx" "names.json" 1) changed =
          (⟨0, (Tree.expression material).dump
            (({} : Settings).style (some names) 1) stem ++ "\n", ""⟩,
          changed) := by
  have different : Folder.access.AreDifferentFiles {} "graph.mdlx"
      "names.json" :=
    Folder.areDifferentFiles_access (by decide)
  have succeeded : (run Folder.access
      (demoArguments "graph.mdlx" 2 "names.json") {}).1.code = 0 := by
    decide +kernel
  exact ⟨Folder.isFileSystem_access, different, succeeded,
    run_dump_after_demo 1 Folder.isFileSystem_access different succeeded⟩

/-- A graph with 256 layers is written but not read.  Neither is one that is
written to the file of the names or to a device that keeps nothing. -/
theorem run_dump_after_demo_refused :
    (∃ changed,
      run Folder.access (demoArguments "graph.mdlx" 256 "names.json") {} =
          (⟨0, "", ""⟩, changed) ∧
        run Folder.access (dumpArguments "graph.mdlx" "names.json" 1) changed =
          (⟨1, "", "Error: 'graph.mdlx': expressions nested deeper than " ++
            "256 levels\n"⟩, changed)) ∧
    (∃ changed,
      run Folder.access (demoArguments "graph.mdlx" 2 "./graph.mdlx") {} =
          (⟨0, "", ""⟩, changed) ∧
        run Folder.access (dumpArguments "graph.mdlx" "./graph.mdlx" 1)
            changed =
          (⟨1, "", "Error: 'graph.mdlx': missing or corrupt file header\n"⟩,
          changed)) ∧
    ∃ changed,
      run Folder.accessWithDevice (demoArguments "/dev/null" 2 "names.json")
          {} = (⟨0, "", ""⟩, changed) ∧
        run Folder.accessWithDevice (dumpArguments "/dev/null" "names.json" 1)
            changed =
          (⟨1, "", "Error: '/dev/null': missing or corrupt file header\n"⟩,
          changed) := by
  have graphPlace : Folder.place? {} "graph.mdlx" = some ["graph.mdlx"] := by
    decide
  have namesPlace : Folder.place? {} "names.json" = some ["names.json"] := by
    decide
  have few : 100 + (2 : UInt64).toNat ≤ UInt64.size := by
    decide
  refine ⟨?_, ?_, ?_⟩
  · have many : 100 + (256 : UInt64).toNat ≤ UInt64.size := by
      decide
    obtain ⟨material, names, changed, done⟩ := exists_hasWritten (by decide)
      (by decide) many (Folder.access_write_both graphPlace namesPlace)
    have different : Folder.access.AreDifferentFiles {} "graph.mdlx"
        "names.json" :=
      Folder.areDifferentFiles_access (by decide)
    have deep : ¬(256 : UInt64).toNat < maxNesting := by
      decide
    have refused := done.run_dump_of_deep Folder.isFileSystem_access different
      deep 1
    exact ⟨changed, done.run_demo, by rw [refused]; simp⟩
  · have samePlace : Folder.place? {} "./graph.mdlx" =
        some ["graph.mdlx"] := by
      decide
    obtain ⟨material, names, changed, done⟩ := exists_hasWritten (by decide)
      (by decide) few (Folder.access_write_both graphPlace samePlace)
    obtain ⟨written, stored, named⟩ := done.stored
    have replaced : changed.read "graph.mdlx" =
        .ok names.toJson.toUTF8.toList := by
      rw [Folder.access_write_eq_ok_iff] at stored named
      apply Folder.read_of_write named
      rw [Folder.place?_of_write stored, Folder.place?_of_write stored,
        samePlace, graphPlace]
    have refused := done.run_dump_of_foreign Folder.isFileSystem_access
      replaced (not_magic_prefix_toJson names) 1
    exact ⟨changed, done.run_demo, by rw [refused]; simp⟩
  · have writable : ∀ bytes, ∃ written : Folder,
        Folder.accessWithDevice.write "/dev/null" bytes {} =
            (.ok (), written) ∧
          ∀ others, ∃ changed, Folder.accessWithDevice.write "names.json"
            others written = (.ok (), changed) :=
      fun bytes => ⟨{}, rfl, fun others =>
        ⟨_, Folder.access_write_of_place? namesPlace others⟩⟩
    obtain ⟨material, names, changed, done⟩ :=
      exists_hasWritten (by decide) (by decide) few writable
    have empty : ¬GraphFile.magic <+: [] := by
      decide
    have refused := done.run_dump_of_foreign
      Folder.isFileSystem_accessWithDevice rfl empty 1
    exact ⟨changed, done.run_demo, by rw [refused]; simp⟩

end Runs

end Tool

end MaterialGraph
