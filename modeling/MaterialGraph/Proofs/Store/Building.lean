import MaterialGraph.Expression.Wire
import MaterialGraph.Proofs.Store.Placement

/-!
# Making objects while they are read

A reader that works on a store makes each object as soon as its parts have been
read.  If it is refused further on, the objects made so far stay where they are.
What it makes of bytes that it accepts is the tree that they denote, placed, and
of bytes that it refuses a part of such a tree: objects are added, and those that
were there before are left alone.
-/

namespace MaterialGraph

open ByteStream Store

/-- Reading that makes objects; what was made before a refusal is kept. -/
abbrev Build := EStateM DecodeError (Reader × Store)

namespace Build

variable {α : Type}

def read (reading : Read α) : Build α := fun (reader, store) =>
  match reading reader with
  | .ok found left => .ok found (left, store)
  | .error reason left => .error reason (left, store)

def make (construction : StateM Store α) : Build α := fun (reader, store) =>
  .ok (construction.run store).1 (reader, (construction.run store).2)

instance : MonadRead Build where
  nextByte := read readByte
  nextBlock count := read (readBlock count)
  note _ := pure ()

end Build

/-- Make objects in the store. -/
def Maker.objects : Maker Build NodeId ListId NoteId BlockId TableId where
  constant type value := Build.make (newNode (.constant type value))
  call type tag := Build.make (newNode (.call type tag))
  parameter type index := Build.make (newNode (.parameter type index))
  directCall type tag list := Build.make (newNode (.directCall type tag list))
  temporary type index := Build.make (newNode (.temporary type index))
  arguments entries := Build.make (newList entries)
  annotationCall name list := Build.make (newNote ⟨name, list⟩)
  annotationBlock notes := Build.make (newBlock notes)
  annotationTable table := Build.make (newTable table)

/-- An object of a given form. -/
def Form.build : Form → Build Handle
  | expression => Handle.node <$> Expression.scan .objects
  | arguments => Handle.list <$> Arguments.scan .objects
  | annotationCall => Handle.note <$> AnnotationCall.scan .objects
  | annotationBlock => Handle.block <$> AnnotationBlock.scan .objects
  | annotationTable => Handle.table <$> AnnotationTable.scan .objects

/-- What is made while reading is what is read, placed.  If the reader is
refused, a part of it may have been made, and nothing else is changed. -/
structure Makes {α β : Type} (build : Build β) (reading : Read α)
    (place : α → StateM Store β) : Prop where
  made : ∀ {reader left : Reader} {found : α}, reading reader = .ok found left →
    ∀ store, build (reader, store) =
      .ok ((place found).run store).1 (left, ((place found).run store).2)
  refused : ∀ {reader left : Reader} {reason : DecodeError},
    reading reader = .error reason left →
    ∀ store, ∃ after, build (reader, store) = .error reason (left, after) ∧
      store.AddsTo after

namespace Makes

variable {α β γ δ : Type} {build : Build β} {reading : Read α}
  {place : α → StateM Store β}

theorem throw (reason : DecodeError) :
    Makes (throw reason : Build β) (throw reason : Read α) place where
  made := nofun
  refused := by
    rintro reader left _ ⟨⟩ store
    exact ⟨store, rfl, .refl⟩

theorem make {found : α} {construction : StateM Store β}
    (placed : place found = construction) :
    Makes (Build.make construction) (pure found) place where
  made := by
    rintro reader left _ ⟨⟩ store
    rw [placed]
    rfl
  refused := nofun

/-- What is noted is not kept. -/
theorem note {event : Reader → Event} (makes : Makes build reading place) :
    Makes (MonadRead.note event >>= fun _ => build)
      (MonadRead.note event >>= fun _ => reading) place :=
  makes

/-- Nothing is made while a datum is read. -/
theorem read (datum : Read α) : Makes (Build.read datum) datum pure where
  made := by
    intro reader left found result store
    simp only [Build.read, result]
    rfl
  refused := by
    intro reader left reason result store
    exact ⟨store, by simp only [Build.read, result], .refl⟩

protected theorem pure (found : α) :
    Makes (pure found : Build α) (pure found) pure where
  made := by
    rintro reader left _ ⟨⟩ store
    rfl
  refused := nofun

/-- The store stays as it is when a datum is read. -/
theorem found {data : Build γ} {datum : Read γ} (reads : Makes data datum pure)
    {reader left : Reader} {value : γ} (read : datum reader = .ok value left)
    (store : Store) : data (reader, store) = .ok value (left, store) :=
  reads.made read store

/-- A datum is read before anything is made. -/
theorem bind {data : Build γ} {datum : Read γ}
    (reads : Makes data datum pure)
    {next : γ → Build β} {nextRead : γ → Read α}
    (later : ∀ found, Makes (next found) (nextRead found) place) :
    Makes (data >>= next) (datum >>= nextRead) place where
  made := by
    intro reader left found result store
    cases first : datum reader with
    | ok value middle =>
        simp only [Bind.bind, EStateM.bind, first, reads.found first]
          at result ⊢
        exact (later value).made result store
    | error reason middle =>
        simp only [Bind.bind, EStateM.bind, first] at result
        cases result
  refused := by
    intro reader left reason result store
    cases first : datum reader with
    | ok value middle =>
        simp only [Bind.bind, EStateM.bind, first, reads.found first]
          at result ⊢
        exact (later value).refused result store
    | error reason middle =>
        obtain ⟨after, refused, adds⟩ := reads.refused first store
        simp only [Bind.bind, EStateM.bind, first, refused] at result ⊢
        cases result
        exact ⟨after, rfl, adds⟩

/-- One more object is made of what has been read. -/
theorem finish (makes : Makes build reading place) {wrap : α → γ}
    {last : β → StateM Store δ} {placeWhole : γ → StateM Store δ}
    (whole : ∀ found store, (placeWhole (wrap found)).run store =
      (last ((place found).run store).1).run ((place found).run store).2) :
    Makes (build >>= fun made => Build.make (last made))
      (reading >>= fun found => pure (wrap found)) placeWhole where
  made := by
    intro reader left found result store
    cases first : reading reader with
    | ok value middle =>
        simp only [Bind.bind, EStateM.bind, first, makes.made first,
          Build.make] at result ⊢
        cases result
        rw [whole]
    | error reason middle =>
        simp only [Bind.bind, EStateM.bind, first] at result
        cases result
  refused := by
    intro reader left reason result store
    cases first : reading reader with
    | ok value middle =>
        simp only [Bind.bind, EStateM.bind, first] at result
        cases result
    | error reason middle =>
        obtain ⟨after, refused, adds⟩ := makes.refused first store
        simp only [Bind.bind, EStateM.bind, first, refused] at result ⊢
        cases result
        exact ⟨after, rfl, adds⟩

theorem map (makes : Makes build reading place) {wrap : α → γ}
    {wrapMade : β → δ} {placeWhole : γ → StateM Store δ}
    (whole : ∀ found, placeWhole (wrap found) = wrapMade <$> place found) :
    Makes (wrapMade <$> build) (wrap <$> reading) placeWhole where
  made := by
    intro reader left found result store
    cases first : reading reader with
    | ok value middle =>
        simp only [Functor.map, EStateM.map, first, makes.made first]
          at result ⊢
        cases result
        rw [whole]
        rfl
    | error reason middle =>
        simp only [Functor.map, EStateM.map, first] at result
        cases result
  refused := by
    intro reader left reason result store
    cases first : reading reader with
    | ok value middle =>
        simp only [Functor.map, EStateM.map, first] at result
        cases result
    | error reason middle =>
        obtain ⟨after, refused, adds⟩ := makes.refused first store
        simp only [Functor.map, EStateM.map, first, refused] at result ⊢
        cases result
        exact ⟨after, rfl, adds⟩

end Makes

section Data

theorem makes_groups (groups : Nat) :
    Makes (scanGroups groups) (readGroups groups) pure := by
  induction groups with
  | zero => exact .throw .overflow
  | succ groups induction =>
      apply Makes.note
      apply (Makes.read readByte).bind
      intro byte
      dsimp only
      split
      · exact .throw .overflow
      · split
        · exact .pure _
        · exact induction.bind fun higher => .pure _

theorem makes_varint : Makes scanVarint readVarint pure :=
  (makes_groups maxGroups).bind fun number => .pure (UInt64.ofNat number)

theorem makes_word : Makes scanWord readWord pure := by
  apply makes_varint.bind
  intro number
  split
  · exact .pure _
  · exact .throw .overflow

theorem makes_flag : Makes scanFlag readFlag pure := by
  apply (Makes.read readByte).bind
  intro byte
  split
  · exact .pure false
  · split
    · exact .pure true
    · exact .throw (.badFlag byte)

theorem makes_text : Makes scanText readText pure := by
  apply makes_varint.bind
  intro count
  apply Makes.note
  apply (Makes.read (readBlock count.toNat)).bind
  intro block
  cases String.fromUTF8? ⟨block⟩ with
  | some text => exact .pure text
  | none => exact .throw .invalidText

theorem makes_type : Makes ValueType.scan ValueType.decode pure := by
  apply (Makes.read readByte).bind
  intro code
  cases BasicType.ofCode? code with
  | some type => exact .pure _
  | none => exact .throw (.unknownType code)

theorem makes_binary32 : Makes Binary32.scan Binary32.decode pure :=
  makes_word.bind fun bits => .pure (Binary32.mk bits)

theorem makes_content (type : BasicType) :
    Makes (BasicValue.scanContent type) (BasicValue.decodeContent type)
      pure := by
  cases type with
  | bool => exact makes_flag.bind fun truth => .pure _
  | int => exact makes_word.bind fun word => .pure _
  | float => exact makes_binary32.bind fun number => .pure _
  | color =>
      exact makes_binary32.bind fun red =>
        makes_binary32.bind fun green =>
          makes_binary32.bind fun blue => .pure _
  | string => exact makes_text.bind fun text => .pure _
  | bsdf => exact .throw _
  | material => exact .throw _

theorem makes_value : Makes Value.scan Value.decode pure := by
  apply (Makes.read readByte).bind
  intro code
  cases BasicType.ofCode? code with
  | some type => exact (makes_content type).bind fun value => .pure _
  | none => exact .throw (.noValues code)

theorem makes_tag : Makes Tag.scan Tag.decode pure := by
  apply makes_varint.bind
  intro number
  split
  · exact .throw .invalidTag
  · exact .pure _

end Data

section Containers

/-- A round of the loop, without the note. -/
theorem Build.scanEntries_succ {α : Type} (one : Build α) (count : Nat)
    (done : Named α) :
    Named.scanEntries one (count + 1) done = (do
      let name ← scanText
      let child ← one
      match done.add name child with
      | .ok extended => Named.scanEntries one count extended
      | .error _ => throw (.duplicateName name)) :=
  rfl

variable {α β : Type} {one : Build β} {reading : Read α}
  {place : α → StateM Store β}

/-- Place children one after the other, under their names. -/
def Named.placeEntries (place : α → StateM Store β) :
    List (String × α) → StateM Store (List (String × β))
  | [] => return []
  | (name, item) :: rest => do
      let child ← place item
      let others ← placeEntries place rest
      return (name, child) :: others

theorem Expression.placeEntries_eq :
    Expression.placeEntries = Named.placeEntries Expression.place := by
  funext arguments
  induction arguments with
  | nil => rfl
  | cons entry rest induction =>
      rw [Expression.placeEntries, induction]
      rfl

theorem AnnotationTable.placeEntries_eq :
    AnnotationTable.placeEntries =
      Named.placeEntries AnnotationBlock.place := by
  funext table
  induction table with
  | nil => rfl
  | cons entry rest induction =>
      rw [AnnotationTable.placeEntries, induction]
      rfl

/-- Two containers have the same names at the same places. -/
structure Named.SameNames (named : Named α) (named' : Named β) : Prop where
  positions : named.positions = named'.positions
  size : named.children.size = named'.children.size

namespace Named.SameNames

variable {named : Named α} {named' : Named β} {name : String}

theorem add_eq_ok (same : named.SameNames named') {extended : Named α}
    {child : α} (added : named.add name child = .ok extended) (child' : β) :
    ∃ extended', named'.add name child' = .ok extended' ∧
      extended.SameNames extended' := by
  unfold Named.add at added ⊢
  rw [same.positions] at added
  split at added
  · cases added
  · rename_i absent
    cases added
    refine ⟨_, if_neg absent, ?_, ?_⟩
    · rw [same.size]
    · simp [same.size]

theorem add_eq_error (same : named.SameNames named') {reason : EditError}
    {child : α} (refused : named.add name child = .error reason) (child' : β) :
    named'.add name child' = .error reason := by
  unfold Named.add at refused ⊢
  rw [same.positions] at refused
  split at refused
  · rename_i present
    rw [if_pos present]
    cases refused
    rfl
  · cases refused

end Named.SameNames

/-- The entries that are read come to be placed under the names that they are
read with. -/
theorem Makes.entries_made (makes : Makes one reading place) {count : Nat}
    {done named : Named α} {done' : Named β} (consistent : done.Consistent)
    (same : done.SameNames done') {reader left : Reader}
    (result : Named.decodeEntries reading count done reader = .ok named left)
    (store : Store) :
    ∃ rest, named.toList = done.toList ++ rest ∧
      Named.scanEntries one count done' (reader, store) =
        .ok (done'.addAll ((Named.placeEntries place rest).run store).1)
          (left, ((Named.placeEntries place rest).run store).2) := by
  induction count generalizing done done' reader store with
  | zero =>
      cases result
      exact ⟨[], by simp, rfl⟩
  | succ count induction =>
      simp only [Named.decodeEntries_succ, Bind.bind, EStateM.bind] at result
      cases first : readText reader with
      | error reason middle =>
          rw [first] at result
          cases result
      | ok name middle =>
          rw [first] at result
          cases second : reading middle with
          | error reason last =>
              simp only [second] at result
              cases result
          | ok child last =>
              simp only [second] at result
              cases added : done.add name child with
              | error reason =>
                  rw [added] at result
                  cases result
              | ok extended =>
                  rw [added] at result
                  obtain ⟨extended', added', sameNext⟩ :=
                    same.add_eq_ok added ((place child).run store).1
                  obtain ⟨rest, entries, built⟩ :=
                    induction (consistent.add added) sameNext result
                      ((place child).run store).2
                  refine ⟨(name, child) :: rest, ?_, ?_⟩
                  · rw [entries, consistent.toList_add added]
                    simp
                  · simp only [Build.scanEntries_succ, Bind.bind, EStateM.bind,
                      makes_text.found first, makes.made second, added', built]
                    rw [← Named.addAll_cons added']
                    rfl

theorem Makes.entries_refused (makes : Makes one reading place)
    (adds : ∀ item (store : Store), store.AddsTo ((place item).run store).2)
    {count : Nat}
    {done : Named α} {done' : Named β} (same : done.SameNames done')
    {reader left : Reader} {reason : DecodeError}
    (result : Named.decodeEntries reading count done reader =
      .error reason left) (store : Store) :
    ∃ after, Named.scanEntries one count done' (reader, store) =
        .error reason (left, after) ∧ store.AddsTo after := by
  induction count generalizing done done' reader store with
  | zero => cases result
  | succ count induction =>
      simp only [Named.decodeEntries_succ, Build.scanEntries_succ, Bind.bind,
        EStateM.bind] at result ⊢
      cases first : readText reader with
      | error reason middle =>
          obtain ⟨after, refused, added⟩ := makes_text.refused first store
          rw [first] at result
          rw [refused]
          cases result
          exact ⟨after, rfl, added⟩
      | ok name middle =>
          rw [first] at result
          rw [makes_text.found first]
          cases second : reading middle with
          | error reason last =>
              obtain ⟨after, refused, added⟩ := makes.refused second store
              simp only [second] at result
              simp only [refused]
              cases result
              exact ⟨after, rfl, added⟩
          | ok child last =>
              simp only [second] at result
              simp only [makes.made second]
              cases added : done.add name child with
              | error reason' =>
                  rw [added] at result
                  rw [same.add_eq_error added]
                  cases result
                  exact ⟨_, rfl, adds child store⟩
              | ok extended =>
                  rw [added] at result
                  obtain ⟨extended', added', sameNext⟩ :=
                    same.add_eq_ok added ((place child).run store).1
                  obtain ⟨after, refused, addsLater⟩ :=
                    induction sameNext result ((place child).run store).2
                  rw [added']
                  exact ⟨after, refused, (adds child store).trans addsLater⟩

/-- The entries of a container are made in the order of reading. -/
theorem Makes.entries (makes : Makes one reading place)
    (adds : ∀ item (store : Store), store.AddsTo ((place item).run store).2)
    (count : Nat) :
    Makes (Named.scanEntries one count {}) (Named.decodeEntries reading count {})
      (fun named =>
        Named.ofList <$> Named.placeEntries place named.toList) where
  made := by
    intro reader left named result store
    have sameEmpty : ({} : Named α).SameNames ({} : Named β) := ⟨rfl, rfl⟩
    obtain ⟨rest, entries, built⟩ :=
      makes.entries_made Named.consistent_empty sameEmpty result store
    have whole : named.toList = rest := entries
    rw [built, whole]
    rfl
  refused result store := makes.entries_refused adds ⟨rfl, rfl⟩ result store

/-- A container is made of its entries when the last one has been read. -/
theorem Makes.named {γ : Type} (makes : Makes one reading place)
    (adds : ∀ item (store : Store), store.AddsTo ((place item).run store).2)
    {last : Named β → StateM Store γ}
    {placeWhole : List (String × α) → StateM Store γ}
    (whole : ∀ entries, placeWhole entries = (do
      let placed ← Named.placeEntries place entries
      last (.ofList placed))) :
    Makes (Named.scan one fun named => Build.make (last named))
      (Named.decode reading) placeWhole := by
  apply makes_varint.bind
  intro count
  apply Makes.note
  apply (makes.entries adds count.toNat).finish
  intro named store
  rw [whole]
  rfl

end Containers

section Calls

/-- A round of the loop, without the note. -/
theorem Build.scanMany_succ {α : Type} (one : Build α) (count : Nat)
    (done : Array α) :
    scanMany one (count + 1) done = (do
      let next ← one
      scanMany one count (done.push next)) :=
  rfl

variable {one : Build NoteId}

theorem Makes.many_made
    (makes : Makes one AnnotationCall.decode AnnotationCall.place) {count : Nat}
    {done items : Array AnnotationCall} {done' : Array NoteId}
    {reader left : Reader}
    (result : readMany AnnotationCall.decode count done reader =
      .ok items left) (store : Store) :
    ∃ rest, items.toList = done.toList ++ rest ∧
      scanMany one count done' (reader, store) =
        .ok (done' ++ ((AnnotationBlock.placeCalls rest).run store).1.toArray)
          (left, ((AnnotationBlock.placeCalls rest).run store).2) := by
  induction count generalizing done done' reader store with
  | zero =>
      cases result
      refine ⟨[], by simp, ?_⟩
      have nothing : done' ++ ([] : List NoteId).toArray = done' := by simp
      exact congrArg (EStateM.Result.ok · (_, store)) nothing.symm
  | succ count induction =>
      simp only [readMany_succ, Bind.bind, EStateM.bind] at result
      cases first : AnnotationCall.decode reader with
      | error reason middle =>
          rw [first] at result
          cases result
      | ok call middle =>
          rw [first] at result
          obtain ⟨rest, calls, built⟩ : ∃ rest,
              items.toList = (done.push call).toList ++ rest ∧
                scanMany one count (done'.push (call.place.run store).1)
                  (middle, (call.place.run store).2) = _ :=
            induction result (call.place.run store).2
          refine ⟨call :: rest, by simp [calls], ?_⟩
          simp only [Build.scanMany_succ, Bind.bind, EStateM.bind,
            makes.made first, built]
          have pushed : ∀ (note : NoteId) (others : List NoteId),
              done'.push note ++ others.toArray =
                done' ++ (note :: others).toArray := by
            intro note others
            apply Array.toList_inj.mp
            simp
          rw [pushed]
          rfl

theorem Makes.many_refused
    (makes : Makes one AnnotationCall.decode AnnotationCall.place) {count : Nat}
    {done : Array AnnotationCall} {done' : Array NoteId}
    {reader left : Reader} {reason : DecodeError}
    (result : readMany AnnotationCall.decode count done reader =
      .error reason left) (store : Store) :
    ∃ after, scanMany one count done' (reader, store) =
        .error reason (left, after) ∧ store.AddsTo after := by
  induction count generalizing done done' reader store with
  | zero => cases result
  | succ count induction =>
      simp only [readMany_succ, Build.scanMany_succ, Bind.bind,
        EStateM.bind] at result ⊢
      cases first : AnnotationCall.decode reader with
      | error reason' middle =>
          rw [first] at result
          obtain ⟨after, refused, adds⟩ := makes.refused first store
          rw [refused]
          cases result
          exact ⟨after, rfl, adds⟩
      | ok call middle =>
          rw [first] at result
          rw [makes.made first]
          obtain ⟨after, refused, adds⟩ :=
            induction result (call.place.run store).2
          exact ⟨after, refused, (call.addsTo_place store).trans adds⟩

/-- Annotations are made one after the other. -/
theorem Makes.many (makes : Makes one AnnotationCall.decode AnnotationCall.place)
    (count : Nat) :
    Makes (scanMany one count #[]) (readMany AnnotationCall.decode count #[])
      (fun items =>
        List.toArray <$> AnnotationBlock.placeCalls items.toList) where
  made := by
    intro reader left items result store
    obtain ⟨rest, calls, built⟩ : ∃ rest,
        items.toList = (#[] : Array AnnotationCall).toList ++ rest ∧
          scanMany one count #[] (reader, store) = _ :=
      makes.many_made result store
    have whole : items.toList = rest := calls
    rw [built, whole, Array.empty_append]
    rfl
  refused result store := makes.many_refused result store

end Calls

theorem Expression.makes_scanWithin (levels : Nat) :
    Makes (scanWithin .objects levels) (decodeWithin levels) place := by
  induction levels with
  | zero => exact .note (.throw _)
  | succ levels induction =>
      apply Makes.note
      apply (Makes.read readByte).bind
      intro byte
      cases ExpressionKind.ofCode? byte with
      | none => exact .throw _
      | some kind =>
          apply makes_type.bind
          intro type
          cases kind with
          | constant => exact makes_value.bind fun value => .make rfl
          | call => exact makes_tag.bind fun tag => .make rfl
          | parameter => exact makes_varint.bind fun index => .make rfl
          | directCall =>
              apply makes_tag.bind
              intro tag
              have arguments : Makes _ (Named.decode (decodeWithin levels))
                  Arguments.place :=
                induction.named addsTo_place fun entries => by
                  rw [Arguments.place, placeEntries_eq]
              apply arguments.finish
              intro entries store
              rw [place]
              rfl
          | temporary => exact makes_varint.bind fun index => .make rfl

theorem Arguments.makes_scan :
    Makes (scan .objects) Arguments.decode Arguments.place := by
  apply (Expression.makes_scanWithin (maxNesting + 1)).named
    Expression.addsTo_place
  intro entries
  rw [Arguments.place, Expression.placeEntries_eq]

theorem AnnotationCall.makes_scan :
    Makes (scan .objects) AnnotationCall.decode AnnotationCall.place := by
  apply makes_text.bind
  intro name
  apply Arguments.makes_scan.finish
  intro arguments store
  rfl

theorem AnnotationBlock.makes_scan :
    Makes (scan .objects) AnnotationBlock.decode AnnotationBlock.place := by
  apply makes_varint.bind
  intro count
  apply Makes.note
  apply (AnnotationCall.makes_scan.many count.toNat).finish
  intro calls store
  rfl

theorem AnnotationTable.makes_scan :
    Makes (scan .objects) AnnotationTable.decode AnnotationTable.place := by
  apply AnnotationBlock.makes_scan.named AnnotationBlock.addsTo_place
  intro entries
  rw [AnnotationTable.place, AnnotationTable.placeEntries_eq]

/-- Reading and making at once gives the object that placing what was read
would give, and refuses the same bytes for the same reason. -/
theorem Form.makes_build (form : Form) :
    Makes form.build form.decode Tree.place := by
  cases form with
  | expression =>
      apply (Expression.makes_scanWithin (maxNesting + 1)).map
      intro root
      rfl
  | arguments =>
      apply Arguments.makes_scan.map
      intro entries
      rfl
  | annotationCall =>
      apply AnnotationCall.makes_scan.map
      intro call
      rfl
  | annotationBlock =>
      apply AnnotationBlock.makes_scan.map
      intro calls
      rfl
  | annotationTable =>
      apply AnnotationTable.makes_scan.map
      intro entries
      rfl

end MaterialGraph
