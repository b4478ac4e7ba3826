import BoxScript.Proofs.Running.Assignments

/-!
# The binding that a name selects

A name that means a declaration is looked for from a frame outwards. Frames that do not bind it, or
bind it for another declaration, are passed over, and the first one that is left is selected
(`Heap.Selects`). If the name has a value there, then this is what is read and what an assignment
replaces. So a name can be assigned exactly where it can be read, and fails for the same reason
where it cannot (`Heap.assign_where_get`).

Frames share the frames around them, so an assignment is seen from all over the heap: by those names
and frames that select the same binding, and by no others.
-/

set_option autoImplicit false

namespace BoxScript

namespace Heap

variable {heap : Heap} {frame home : FrameId} {stored : Frame} {name : String}
  {decl : Option NodeId} {value : Value}

/-! ## Frames inside frames -/

theorem nested_empty : empty.Nested := by
  intro index frame parent present
  cases present

/-- A frame is made inside one that is there already. -/
theorem Nested.newFrame (nested : heap.Nested)
    (within : ∀ outer ∈ stored.parent, outer < heap.frames.size) :
    (heap.newFrame stored).2.Nested := by
  intro index found parent present around
  rcases SymbolTable.getElem?_push_cases present with old | ⟨rfl, rfl⟩
  · exact nested old around
  · exact within parent around

theorem Nested.modifyNames (nested : heap.Nested) (index : FrameId)
    (change : List (String × Binding) → List (String × Binding)) :
    (heap.modifyNames index change).Nested := by
  intro other found parent present around
  simp only [Heap.modifyNames, Array.getElem?_modify] at present
  split at present
  · obtain ⟨before, old, rfl⟩ := Option.map_eq_some_iff.mp present
    exact nested old around
  · exact nested present around

/-! ## Selection -/

/-- The frame that a name selects from a frame, if it means a given declaration: the innermost one
that binds the name for this declaration. -/
inductive Selects (heap : Heap) (name : String) (decl : Option NodeId) :
    FrameId → FrameId → Prop
  | here {frame : FrameId} (binds : heap.binds name decl frame = true) :
      Selects heap name decl frame frame
  | outside {frame outer home : FrameId} {stored : Frame}
      (present : heap.frames[frame]? = some stored) (passes : heap.binds name decl frame = false)
      (around : stored.parent = some outer) (selects : Selects heap name decl outer home) :
      Selects heap name decl frame home

theorem exists_frame_of_binds (binds : heap.binds name decl frame = true) :
    ∃ stored, heap.frames[frame]? = some stored := by
  cases present : heap.frames[frame]? with
  | some stored => exact ⟨stored, rfl⟩
  | none =>
    rw [Heap.binds, present] at binds
    cases binds

theorem select?_eq (nested : heap.Nested) (present : heap.frames[frame]? = some stored) :
    heap.select? frame name decl =
      if heap.binds name decl frame then some frame
      else stored.parent.bind fun outer => heap.select? outer name decl := by
  rw [select?, chain_eq nested present, List.find?_cons]
  cases heap.binds name decl frame with
  | true => rfl
  | false => cases stored.parent <;> rfl

theorem select?_eq_none (absent : heap.frames[frame]? = none) :
    heap.select? frame name decl = none := by
  simp only [select?, chain, chainFrom, absent, List.find?_nil]

theorem Selects.select?_eq_some (nested : heap.Nested)
    (selects : heap.Selects name decl frame home) :
    heap.select? frame name decl = some home := by
  induction selects with
  | here binds =>
    obtain ⟨stored, present⟩ := exists_frame_of_binds binds
    rw [select?_eq nested present, if_pos binds]
  | outside present passes around _ ih =>
    rw [select?_eq nested present, passes, if_neg Bool.false_ne_true, around, Option.bind_some, ih]

/-- The search along the chain finds the frame that is selected. -/
theorem selects_iff (nested : heap.Nested) :
    heap.Selects name decl frame home ↔ heap.select? frame name decl = some home := by
  refine ⟨Selects.select?_eq_some nested, fun found => ?_⟩
  induction frame using Nat.strongRecOn with
  | ind frame ih =>
    cases present : heap.frames[frame]? with
    | none =>
      rw [select?_eq_none present] at found
      cases found
    | some stored =>
      rw [select?_eq nested present] at found
      split at found
      · rename_i binds
        cases found
        exact .here binds
      · rename_i passes
        obtain ⟨outer, around, foundOutside⟩ := Option.bind_eq_some_iff.mp found
        exact .outside present (Bool.eq_false_iff.mpr passes) around
          (ih outer (nested present around) foundOutside)

/-! ## Reading and assigning -/

theorem get_eq_of_select? (selected : heap.select? frame name decl = some home) :
    heap.get frame name decl = (heap.getLocal? home name).elim (.error .uninitialised) .ok := by
  simp only [get_eq, selected]
  cases heap.getLocal? home name <;> rfl

/-- What is read after a value has been put into a binding: this value where the binding is
selected, and elsewhere the same as before. -/
theorem get_put (held : (heap.getLocal? home name).isSome = true) (other : FrameId) (word : String)
    (meant : Option NodeId) :
    (heap.put value (.name home name)).get other word meant =
      if heap.select? other word meant = some home ∧ word = name then .ok value
      else heap.get other word meant := by
  have same : (heap.put value (.name home name)).select? other word meant =
      heap.select? other word meant :=
    select?_of_outlines (heap.outline_put value _) other word meant
  cases selected : heap.select? other word meant with
  | none =>
    rw [if_neg fun absurdly => nomatch absurdly.1]
    rw [selected] at same
    simp only [get_eq, same, selected]
  | some target =>
    rw [get_eq_of_select? (same.trans selected), get_eq_of_select? selected]
    by_cases here : target = home ∧ word = name
    · obtain ⟨rfl, rfl⟩ := here
      have holds : (heap.put value (.name target word)).getLocal? target word = some value :=
        @cell?_put_self heap value (.name target word) held
      rw [if_pos ⟨rfl, rfl⟩, holds, Option.elim_some]
    · have elsewhere : Cell.name target word ≠ .name home name :=
        fun same => here (Cell.name.inj same)
      have kept : (heap.put value (.name home name)).getLocal? target word =
          heap.getLocal? target word := cell?_put_other elsewhere
      rw [if_neg (by simpa using here), kept]

/-- A name is read from the binding that it selects, and an assignment writes to this binding. If no
frame is selected, or the name has no value yet in the frame that is, then reading and assigning
fail alike, and the heap stays as it is. Otherwise the value is replaced: it is read from then on by
every name that selects the same binding from whatever frame, and nothing else that is read
changes. -/
theorem assign_where_get (nested : heap.Nested) (frame : FrameId) (name : String)
    (decl : Option NodeId) (value : Value) :
    match heap.get frame name decl with
    | .error .unbound =>
      (∀ home, ¬ heap.Selects name decl frame home) ∧
        heap.assign frame name decl value = (.error .unbound, heap)
    | .error .uninitialised =>
      (∃ home, heap.Selects name decl frame home ∧ heap.getLocal? home name = none) ∧
        heap.assign frame name decl value = (.error .uninitialised, heap)
    | .ok old =>
      ∃ home later, heap.Selects name decl frame home ∧ heap.getLocal? home name = some old ∧
        heap.assign frame name decl value = (.ok (), later) ∧ later.Nested ∧
        later.get frame name decl = .ok value ∧
        ∀ other word meant,
          (heap.Selects word meant other home ∧ word = name →
            later.get other word meant = .ok value) ∧
          (¬ (heap.Selects word meant other home ∧ word = name) →
            later.get other word meant = heap.get other word meant) := by
  cases selected : heap.select? frame name decl with
  | none =>
    simp only [get_eq, assign_eq, selected, and_true]
    intro home selects
    rw [selects.select?_eq_some nested] at selected
    cases selected
  | some home =>
    have selects := (selects_iff nested).mpr selected
    cases held : heap.getLocal? home name with
    | none =>
      simp only [get_eq, assign_eq, assignLocal, selected, held, and_true]
      exact ⟨home, selects, held⟩
    | some old =>
      have isHeld : (heap.getLocal? home name).isSome = true := by rw [held, Option.isSome_some]
      simp only [get_eq_of_select? selected, held, Option.elim_some]
      refine ⟨home, heap.put value (.name home name), selects, held, ?_,
        nested.modifyNames home _, ?_, fun other word meant => ?_⟩
      · simp only [assign_eq, assignLocal, selected, held, put]
      · rw [get_put isHeld, if_pos ⟨selected, rfl⟩]
      · rw [get_put isHeld, selects_iff nested]
        exact ⟨fun same => if_pos same, fun differs => if_neg differs⟩

/-- A variable is assigned from a block that keeps a place for another one of the same name. It is
read from a second block next to this one. -/
theorem assign_where_get_behind_reserved : ∃ heap : Heap, heap.Nested ∧
    heap.get 1 "x" (some 1) = .ok (.int 1) ∧
    heap.get 1 "x" (some 2) = .error .uninitialised ∧
    ∃ later, heap.assign 1 "x" (some 1) (.int 5) = (.ok (), later) ∧
      later.get 2 "x" (some 1) = .ok (.int 5) ∧
      later.get 1 "x" (some 2) = .error .uninitialised := by
  let outer : Frame := ⟨[("x", ⟨some 1, some (.int 1)⟩)], none, none⟩
  let inner : Frame := ⟨[("x", ⟨some 2, none⟩)], some 0, none⟩
  let next : Frame := ⟨[], some 0, none⟩
  let first := (empty.newFrame outer).2
  let second := (first.newFrame inner).2
  let heap := (second.newFrame next).2
  have nestedFirst : first.Nested := nested_empty.newFrame (by decide)
  have nestedSecond : second.Nested := nestedFirst.newFrame (by decide)
  have nested : heap.Nested := nestedSecond.newFrame (by decide)
  obtain ⟨home, later, selects, _, assigned, _, _, observed⟩ :=
    heap.assign_where_get nested 1 "x" (some 1) (.int 5)
  have home : home = 0 := Option.some.inj ((selects.select?_eq_some nested).symm.trans rfl)
  subst home
  refine ⟨heap, nested, rfl, rfl, later, assigned, ?_, ?_⟩
  · exact (observed 2 "x" (some 1)).1 ⟨(selects_iff nested).mpr rfl, rfl⟩
  · have other : ¬ (heap.Selects "x" (some 2) 1 0 ∧ "x" = "x") := by
      rw [selects_iff nested]
      exact fun absurdly => nomatch absurdly.1
    exact (observed 1 "x" (some 2)).2 other

end Heap

end BoxScript
