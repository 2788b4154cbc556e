import MaterialGraph.CommandLine
import MaterialGraph.Proofs.Json.Literal

/-!
# Command lines that are written out

Options whose values are in the following arguments are read as they are meant
if every value can be told from an option and is admitted.  Otherwise the
command line is refused.
-/

namespace MaterialGraph

namespace CommandLine

/-- Options, each followed by its value. -/
def spell (settings : List (OptionName × String)) : List String :=
  settings.flatMap fun setting => ["--" ++ setting.1.text, setting.2]

/-- A text that is read as an operand or as the value of an option. -/
def IsOperand (text : String) : Prop :=
  classify text = .operand text

instance (text : String) : Decidable (IsOperand text) :=
  inferInstanceAs (Decidable (classify text = .operand text))

/-- A text that can be given as the path of a file. -/
def IsPath (text : String) : Prop :=
  IsOperand text ∧ text ≠ ""

instance (text : String) : Decidable (IsPath text) :=
  inferInstanceAs (Decidable (_ ∧ _))

theorem classify_eq_operand {text found : String}
    (operand : classify text = .operand found) : found = text := by
  unfold classify at operand
  split at operand <;> cases operand
  rfl

section Options

variable {usage : Usage} {name : OptionName} {parts : Parts}

theorem classify_option (name : OptionName) :
    classify ("--" ++ name.text) = .long name.text.toList none := by
  cases name <;> decide

theorem asksHelp_option (name : OptionName) :
    asksHelp (.long name.text.toList none) = false := by
  cases name <;> decide

theorem OptionName.text_inj {name other : OptionName}
    (same : other.text.toList = name.text.toList) : other = name := by
  revert same
  cases name <;> cases other <;> decide

theorem findLong?_text (known : name ∈ usage.options) :
    usage.findLong? name.text.toList = some name := by
  have found : (usage.findLong? name.text.toList).isSome = true := by
    apply List.find?_isSome.mpr
    exact ⟨name, known, beq_self_eq_true _⟩
  obtain ⟨other, isOther⟩ := Option.isSome_iff_exists.mp found
  have same := List.find?_some isOther
  rw [isOther, OptionName.text_inj (beq_iff_eq.mp same)]

theorem addOption_of_option?_eq_none (fresh : parts.option? name = none)
    (value : String) :
    parts.addOption name value =
      if name.admits value then
        .ok { parts with options := (name, value) :: parts.options }
      else .error (.badValue name.text value) := by
  rw [Parts.addOption, fresh]
  rfl

theorem collect_option_eq_ok_iff (known : name ∈ usage.options)
    (fresh : parts.option? name = none) {value : String} {rest : List String}
    {found : Option Parts} :
    collect usage parts (("--" ++ name.text) :: value :: rest) = .ok found ↔
      (IsOperand value ∧ name.admits value = true) ∧
        collect usage
          { parts with options := (name, value) :: parts.options } rest =
            .ok found := by
  rw [collect]
  simp only [classify_option, asksHelp_option, Bool.false_eq_true, if_false,
    optionOf?, findLong?_text known, Option.map_some, Option.map_none]
  cases form : classify value with
  | operand text =>
      obtain rfl := classify_eq_operand form
      simp only [addOption_of_option?_eq_none fresh, IsOperand, form, true_and]
      cases admitted : name.admits text with
      | true =>
          simp only [if_true, true_and]
          rfl
      | false =>
          simp only [Bool.false_eq_true, if_false, false_and, iff_false]
          intro result
          cases result
  | long | short | separator =>
      simp [IsOperand, form]

/-- Options are collected if and only if all their values are in order. -/
theorem collect_spell_eq_ok_iff {settings : List (OptionName × String)}
    (known : ∀ setting ∈ settings, setting.1 ∈ usage.options)
    (distinct : (settings.map Prod.fst).Nodup)
    (fresh : ∀ setting ∈ settings, parts.option? setting.1 = none)
    {found : Option Parts} :
    collect usage parts (spell settings) = .ok found ↔
      (∀ setting ∈ settings,
        IsOperand setting.2 ∧ setting.1.admits setting.2 = true) ∧
        found = some
          { parts with options := settings.reverse ++ parts.options } := by
  induction settings generalizing parts with
  | nil =>
      rw [spell, List.flatMap_nil, collect]
      constructor
      · intro result
        cases result
        exact ⟨List.forall_mem_nil _, rfl⟩
      · rintro ⟨-, rfl⟩
        rfl
  | cons setting settings induction =>
      obtain ⟨name, value⟩ := setting
      rw [List.forall_mem_cons] at known fresh
      rw [List.map_cons, List.nodup_cons] at distinct
      have freshAfter : ∀ other ∈ settings, Parts.option?
          { parts with options := (name, value) :: parts.options }
          other.1 = none := by
        intro other member
        have different : (other.1 == name) = false := by
          apply beq_eq_false_iff_ne.mpr
          intro same
          rw [← same] at distinct
          exact distinct.1 (List.mem_map.mpr ⟨other, member, rfl⟩)
        simp only [Parts.option?, List.lookup_cons, different]
        exact fresh.2 other member
      have opened : spell ((name, value) :: settings) =
          ("--" ++ name.text) :: value :: spell settings := rfl
      rw [opened, collect_option_eq_ok_iff known.1 fresh.1,
        induction known.2 distinct.2 freshAfter]
      simp only [List.forall_mem_cons, and_assoc, List.reverse_cons,
        List.append_assoc, List.singleton_append]

/-- The first operand, if operands are expected. -/
theorem collect_operand {text : String} (path : IsPath text)
    (expected : 0 < usage.operands) (rest : List String) :
    collect usage {} (text :: rest) =
      collect usage { operands := [text] } rest := by
  have room : ¬usage.operands ≤ ({} : Parts).operands.length :=
    Nat.not_le_of_lt expected
  have added : Parts.addOperand usage {} text = .ok { operands := [text] } := by
    rw [Parts.addOperand, if_neg room, if_neg path.2]
    rfl
  rw [collect, path.1]
  dsimp only
  rw [added]
  rfl

end Options

section Numbers

/-- A number starts with a digit, and so with neither a dash nor a plus. -/
theorem exists_digit (number : Nat) : ∃ first others,
    Nat.toDigits 10 number = first :: others ∧ first ≠ '-' ∧ first ≠ '+' := by
  obtain ⟨first, others, digits⟩ :=
    List.exists_cons_of_ne_nil (Nat.toDigits_ne_nil : Nat.toDigits 10
      number ≠ [])
  have all := Json.all_isDigit_toDigits number
  rw [digits, List.all_cons, Bool.and_eq_true] at all
  have isDigit := all.1
  refine ⟨first, others, digits, ?_, ?_⟩
  · rintro rfl
    cases isDigit
  · rintro rfl
    cases isDigit

theorem toList_toString (number : Nat) :
    (toString number).toList = Nat.toDigits 10 number := by
  rw [Nat.toString_eq_repr, Nat.toList_repr]

theorem isOperand_toString (number : Nat) : IsOperand (toString number) := by
  obtain ⟨first, others, digits, notDash, -⟩ := exists_digit number
  unfold IsOperand classify
  rw [toList_toString, digits]
  split
  case h_4 => rfl
  all_goals
    rename_i same
    exact (notDash (List.cons.inj same).1).elim

theorem number?_toString (number : UInt64) :
    number? (toString number.toNat) = some number := by
  obtain ⟨first, others, digits, -, notPlus⟩ := exists_digit number.toNat
  have all := Json.all_isDigit_toDigits number.toNat
  have value := Json.digitsValue_toDigits number.toNat
  have fits : number.toNat < UInt64.size := number.toNat_lt_size
  unfold number?
  rw [toList_toString]
  rw [digits] at all value ⊢
  split
  · rename_i same
    exact (notPlus (List.cons.inj same).1).elim
  · simp only [List.isEmpty_cons, Bool.false_or, all, Bool.not_true,
      Bool.false_eq_true, if_false]
    rw [Json.digitsValue] at value
    rw [value, if_pos fits, UInt64.ofNat_toNat]

end Numbers

/-- The arguments that write a sample graph and the names of its tags. -/
def demoArguments (output : String) (layers : UInt64) (names : String) :
    List String :=
  ["demo", "--output", output, "--chain", toString layers.toNat, "--names",
    names]

/-- The arguments that dump a graph to some depth, with names for its tags. -/
def dumpArguments (input names : String) (depth : UInt64) : List String :=
  ["dump", input, "--names", names, "--depth", toString depth.toNat]

theorem command_of_collect {usage : Usage} {arguments : List String}
    {parts : Parts} (make : Parts → Except UsageError Command)
    (collected : collect usage {} arguments = .ok (some parts)) :
    command usage make arguments = (make parts).map .perform := by
  rw [command, collected]
  cases made : make parts <;> simp [Bind.bind, Except.bind, made] <;> rfl

/-- The command `demo` with all its options is carried out if and only if the
paths can be told from options. -/
theorem parse_demo_eq_ok_iff {output names : String} {layers : UInt64}
    {request : Request} :
    parse (demoArguments output layers names) = .ok request ↔
      (IsPath output ∧ IsPath names) ∧
        request = .perform (.demo output layers (some names)) := by
  have operand := isOperand_toString layers.toNat
  have number := number?_toString layers
  unfold demoArguments
  generalize toString layers.toNat = text at operand number ⊢
  have collected {found : Option Parts} : collect Usage.demo {} (spell
      [(.output, output), (.chain, text), (.names, names)]) = .ok found ↔ _ :=
    collect_spell_eq_ok_iff (by simp [Usage.demo]) (by simp) fun _ _ => rfl
  have inOrder : (∀ setting ∈ [(OptionName.output, output), (.chain, text),
      (.names, names)],
        IsOperand setting.2 ∧ setting.1.admits setting.2 = true) ↔
      IsPath output ∧ IsPath names := by
    simp [IsPath, OptionName.admits, operand, number]
  have made : demoOf ⟨[(.names, names), (.chain, text), (.output, output)],
      []⟩ = .ok (.demo output layers (some names)) := by
    change Except.ok (Command.demo output
      (((some text).bind number?).getD 2) (some names)) = _
    rw [Option.bind_some, number]
    rfl
  have opened : parse ["demo", "--output", output, "--chain", text, "--names",
      names] = command .demo demoOf (spell
        [(.output, output), (.chain, text), (.names, names)]) := rfl
  rw [inOrder] at collected
  rw [opened]
  constructor
  · intro parsed
    cases result : collect Usage.demo {} (spell
        [(.output, output), (.chain, text), (.names, names)]) with
    | error reason =>
        rw [command, result] at parsed
        cases parsed
    | ok found =>
        obtain ⟨paths, rfl⟩ := collected.mp result
        rw [command_of_collect demoOf result] at parsed
        have request := congrArg (Except.map Request.perform) made
        exact ⟨paths, Except.ok.inj (parsed.symm.trans request)⟩
  · rintro ⟨paths, rfl⟩
    rw [command_of_collect demoOf (collected.mpr ⟨paths, rfl⟩)]
    exact congrArg (Except.map Request.perform) made

/-- The command `dump` with names and a depth. -/
theorem parse_dump {input names : String} (depth : UInt64)
    (inputPath : IsPath input) (namesPath : IsPath names) :
    parse (dumpArguments input names depth) =
      .ok (.perform (.dump input (some names) (some depth) none)) := by
  have operand := isOperand_toString depth.toNat
  have number := number?_toString depth
  unfold dumpArguments
  generalize toString depth.toNat = text at operand number ⊢
  have inOrder : ∀ setting ∈ [(OptionName.names, names), (.depth, text)],
      IsOperand setting.2 ∧ setting.1.admits setting.2 = true := by
    simp [OptionName.admits, operand, number, namesPath.1, namesPath.2]
  have collected : collect Usage.dump {} (input :: spell
      [(.names, names), (.depth, text)]) =
        .ok (some ⟨[(.depth, text), (.names, names)], [input]⟩) := by
    rw [collect_operand inputPath (by decide)]
    exact (collect_spell_eq_ok_iff (by simp [Usage.dump]) (by simp)
      fun _ _ => rfl).mpr ⟨inOrder, rfl⟩
  have made : dumpOf ⟨[(.depth, text), (.names, names)], [input]⟩ =
      .ok (.dump input (some names) (some depth) none) := by
    change Except.ok (Command.dump input (some names)
      ((some text).bind number?) none) = _
    rw [Option.bind_some, number]
  have opened : parse ["dump", input, "--names", names, "--depth", text] =
      command .dump dumpOf
        (input :: spell [(.names, names), (.depth, text)]) := rfl
  rw [opened, command_of_collect dumpOf collected, made]
  rfl

end CommandLine

end MaterialGraph
