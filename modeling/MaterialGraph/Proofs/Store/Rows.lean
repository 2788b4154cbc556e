import MaterialGraph.Proofs.Store.Depth
import MaterialGraph.Proofs.Store.Display

/-!
# What a dump shows

A dump without a limit of depth shows all objects on all ways, one with a limit
those below no more direct calls than the limit.  The frames of what is shown
make up the layout of the dump, which does not depend on the width of the
indentation.
-/

namespace MaterialGraph

namespace Store

variable {store : Store} {style : DumpStyle} {visit last : Visit}
  {way : List Nat} {handle : Handle} {name : String}

section Shown

/-- The object at the end of a way, if a dump shows it. -/
def shown? (store : Store) (style : DumpStyle) (visit : Visit)
    (way : List Nat) : Option Visit :=
  (store.visit? visit way).filter fun last =>
    style.depth = 0 ∨ last.calls ≤ style.depth

/-- What a dump shows in place of the object has its parts in it. -/
def Opens (store : Store) (style : DumpStyle) (last : Visit) : Prop :=
  store.namedParts last.handle ≠ [] ∧
    ¬(store.isDirectCall last.handle = true ∧ style.cuts last.calls = true)

/-- The lines of an object without what is in them. -/
def frame? (store : Store) (style : DumpStyle) (last : Visit) : Option Frame :=
  (store.object? last.handle).map fun object =>
    Sight.frame style.showTypes ⟨last.name, object.look style,
      if object.isDirectCall && style.cuts last.calls then none
      else some ((store.namedParts last.handle).map Prod.fst)⟩

/-- A layout has at the end of every way what is shown there, with a limit of
depth or without one. -/
def Shows (store : Store) (style : DumpStyle) (visit : Visit)
    (layout : Layout) : Prop :=
  ∀ way, (layout.at? way).map Layout.frame =
    (store.shown? style visit way).bind (store.frame? style)

theorem shown?_eq_some_iff : store.shown? style visit way = some last ↔
    store.visit? visit way = some last ∧
      (style.depth = 0 ∨ last.calls ≤ style.depth) := by
  rw [shown?, Option.filter_eq_some_iff, decide_eq_true_iff]

theorem map_frame_sight? (limited : style.depth ≠ 0) (last : Visit) :
    (store.sight? style last).map (Sight.frame style.showTypes) =
      if last.calls ≤ style.depth then store.frame? style last else none := by
  by_cases inLimit : last.calls ≤ style.depth
  · have cut : style.cuts last.calls = (last.calls == style.depth) := by
      rw [Bool.eq_iff_iff, beq_iff_eq]
      simp [DumpStyle.cuts, limited]
      omega
    rw [sight?, if_neg (Nat.not_lt_of_le inLimit), if_pos inLimit, frame?, cut,
      Option.map_map]
    rfl
  · rw [sight?, if_pos (Nat.lt_of_not_le inLimit), if_neg inLimit]
    rfl

theorem Displays.shows (limited : style.depth ≠ 0) {layout : Layout}
    (displays : store.Displays style visit layout) :
    store.Shows style visit layout := by
  intro way
  rw [displays way, sightAt?, shown?, Option.map_bind]
  cases store.visit? visit way with
  | none => rfl
  | some last =>
      have seen := store.map_frame_sight? limited last
      simp only [Option.bind_some, Function.comp_apply, seen, limited, false_or,
        Option.filter_some, decide_eq_true_eq]
      split <;> rfl

/-- A limit that no way reaches is none. -/
theorem Shows.unlimited {limit : Nat} {layout : Layout}
    (unlimited : style.depth = 0)
    (low : ∀ {way last}, store.visit? visit way = some last →
      last.calls < limit)
    (shows : store.Shows { style with depth := limit } visit layout) :
    store.Shows style visit layout := by
  intro way
  rw [shows way, shown?, shown?]
  cases arrived : store.visit? visit way with
  | none => rfl
  | some last =>
      have below := low arrived
      have whole : { style with depth := limit }.cuts last.calls = false :=
        DumpStyle.cuts_eq_false_of_lt below
      have whole' : style.cuts last.calls = false := by
        simp [DumpStyle.cuts, unlimited]
      have sameFrame : store.frame? { style with depth := limit } last =
          store.frame? style last := by
        rw [frame?, frame?, whole, whole']
        rfl
      simp only [Option.filter_some, unlimited, Nat.le_of_lt below, or_true,
        true_or, decide_true, if_true, Option.bind_some, sameFrame]

end Shown

section Unlimited

theorem owns_of_mem_children {part : Handle} {object : Object}
    (there : store.object? handle = some object)
    (member : part ∈ object.children) : store.Owns handle part := by
  rwa [Owns, children_of_object?_eq_some there]

theorem owns_of_mem_namedArguments {list : ListId} {part : String × Handle}
    (member : part ∈ store.namedArguments list) :
    store.Owns (.list list) part.2 := by
  cases found : store.list? list with
  | none =>
      rw [namedArguments, found] at member
      cases member
  | some named =>
      rw [namedArguments, found] at member
      obtain ⟨entry, inside, rfl⟩ := List.mem_map.mp member
      exact owns_of_mem_children (object?_list_eq_some_iff.mpr found)
        (List.mem_map_of_mem (List.of_mem_zip inside).2)

/-- Between an object and what it shows in itself there is a list at most. -/
theorem owns_of_mem_namedParts {part : String × Handle}
    (member : part ∈ store.namedParts handle) :
    store.Owns handle part.2 ∨
      ∃ list, store.Owns handle (.list list) ∧
        store.Owns (.list list) part.2 := by
  unfold namedParts at member
  split at member
  · rename_i list there
    refine .inr ⟨list, owns_of_mem_children there ?_,
      owns_of_mem_namedArguments member⟩
    exact List.mem_singleton_self _
  · rename_i named there
    obtain ⟨entry, inside, rfl⟩ := List.mem_map.mp member
    exact .inl (owns_of_mem_children there
      (List.mem_map_of_mem (List.of_mem_zip inside).2))
  · rename_i note there
    refine .inr ⟨note.arguments, owns_of_mem_children there ?_,
      owns_of_mem_namedArguments member⟩
    exact List.mem_singleton_self _
  · rename_i notes there
    obtain ⟨entry, inside, rfl⟩ := List.mem_map.mp member
    exact .inl (owns_of_mem_children there
      (List.mem_map_of_mem (List.fst_mem_of_mem_zipIdx inside)))
  · rename_i table there
    obtain ⟨entry, inside, rfl⟩ := List.mem_map.mp member
    exact .inl (owns_of_mem_children there
      (List.mem_map_of_mem (List.of_mem_zip inside).2))
  · cases member

theorem hasWay_of_owns {part : Handle} {calls : Nat}
    (owns : store.Owns handle part) (hasWay : store.HasWay part calls) :
    store.HasWay handle
      (calls + if store.isDirectCall handle then 1 else 0) := by
  obtain ⟨path, chain, rfl⟩ := hasWay
  exact ⟨part :: path, chain.cons_cons owns, List.countP_cons⟩

theorem isDirectCall_list (list : ListId) :
    store.isDirectCall (.list list) = false := by
  rw [isDirectCall, object?]
  cases store.list? list <;> rfl

theorem hasWay_of_mem_namedParts {part : String × Handle} {calls : Nat}
    (member : part ∈ store.namedParts handle)
    (hasWay : store.HasWay part.2 calls) :
    store.HasWay handle
      (calls + if store.isDirectCall handle then 1 else 0) := by
  rcases owns_of_mem_namedParts member with owns | ⟨list, owns, listOwns⟩
  · exact hasWay_of_owns owns hasWay
  · have fromList := hasWay_of_owns listOwns hasWay
    rw [isDirectCall_list] at fromList
    exact hasWay_of_owns owns fromList

/-- The direct calls on a way through named parts are on a way of ownership. -/
theorem exists_hasWay_of_visit? (arrived : store.visit? visit way = some last) :
    ∃ calls, store.HasWay visit.handle calls ∧
      last.calls ≤ visit.calls + calls := by
  induction way generalizing visit with
  | nil =>
      cases arrived
      exact ⟨_, ⟨[], .singleton _, rfl⟩, Nat.le_add_right _ _⟩
  | cons position rest induction =>
      obtain ⟨child, taken, arrivedLater⟩ := Option.bind_eq_some_iff.mp arrived
      obtain ⟨calls, hasWay, bound⟩ := induction arrivedLater
      have counted := calls_of_getElem?_below taken
      obtain ⟨part, member, rfl⟩ := List.mem_map.mp (List.mem_of_getElem? taken)
      refine ⟨_, hasWay_of_mem_namedParts member hasWay, ?_⟩
      dsimp only at bound counted
      omega

end Unlimited

section Dumps

theorem exists_dump_shows_of_limited (closed : store.Closed)
    (has : store.Has handle) (limited : style.depth ≠ 0) (name : String) :
    ∃ layout : Layout,
      (∀ width, store.dump { style with indentWidth := width } name handle =
        .ok (layout.render width)) ∧
      store.Shows style ⟨name, 0, handle⟩ layout := by
  obtain ⟨layout, -, displays⟩ := exists_dump_displays closed has limited name
  refine ⟨layout, fun width => ?_, displays.shows limited⟩
  have limited' : { style with indentWidth := width }.depth ≠ 0 := limited
  obtain ⟨layout', dumped, displays'⟩ :=
    exists_dump_displays closed has limited' name
  have sameLayout : layout = layout' := Layout.eq_of_frames fun way => by
    rw [displays way, displays' way]
    rfl
  rw [dumped, sameLayout]

/-- The dumps with all widths have one layout, which shows the object. -/
theorem exists_dump_shows (consistent : store.Consistent)
    (closed : store.Closed) (has : store.Has handle)
    (ends : style.depth = 0 → store.AcyclicFrom handle) (name : String) :
    ∃ layout : Layout,
      (∀ width, store.dump { style with indentWidth := width } name handle =
        .ok (layout.render width)) ∧
      store.Shows style ⟨name, 0, handle⟩ layout := by
  by_cases unlimited : style.depth = 0
  · obtain ⟨tree, unfolds⟩ := (exists_unfolding?_iff consistent closed).mpr
      ⟨has, ends unlimited⟩
    -- a limit above the height of the tree makes no difference
    have limited : { style with depth := tree.callDepth + 1 }.depth ≠ 0 :=
      Nat.succ_ne_zero _
    obtain ⟨layout, dumps, shows⟩ :=
      exists_dump_shows_of_limited closed has limited name
    refine ⟨layout, fun width => ?_, shows.unlimited unlimited ?_⟩
    · have sameDump := (tree.dump_eq_dump_unlimited_iff
        { style with indentWidth := width } name).mpr
          (.inr (Nat.le_succ tree.callDepth))
      rw [← dumps width, dump_eq_ok_dump unfolds, dump_eq_ok_dump unfolds,
        sameDump, ← unlimited]
    · intro way last arrived
      obtain ⟨calls, hasWay, bound⟩ := exists_hasWay_of_visit? arrived
      have height := (isGreatest_callDepth consistent unfolds).2 hasWay
      dsimp only at bound
      omega
  · exact exists_dump_shows_of_limited closed has unlimited name

end Dumps

end Store

end MaterialGraph
