import BoxScript.Heap.Text
import BoxScript.Proofs.Recasting.Values
import BoxScript.Proofs.Running.Selection
import Mathlib.Data.Option.Basic

/-!
# Heaps of a tree cast anew

The heap of a run of a tree, and that of a run of the tree cast anew: as many frames, which lie
inside one another alike and bind the same, the same rows, and the same numbers (`Heap.Recasts`).
Each step on the heap keeps this, and comes to the same.
-/

set_option autoImplicit false

namespace BoxScript

variable {r : Recast}

/-! ## Frames -/

/-- A frame, and the one for the tree cast anew. The names of an instance stay as they are. -/
structure Frame.Recasts (r : Recast) (frame image : Frame) : Prop where
  names : r.Names frame.names image.names
  parent : image.parent = frame.parent
  boxClass : image.boxClass = frame.boxClass.map (BoxClass.recast r)
  plain : frame.boxClass.isSome = true → ∀ name binding,
    frame.names.lookup name = some binding → r.bound binding.decl name = name

namespace Frame.Recasts

variable {frame image : Frame}

theorem binds (recasts : frame.Recasts r image) (injective : r.Injective) (name : String)
    (decl : Option NodeId) : image.binds (r.bound decl name) decl = frame.binds name decl := by
  have same : ∀ (frame : Frame) (name : String), frame.binds name decl = true ↔
      ∃ binding, frame.names.lookup name = some binding ∧ binding.decl = decl := by
    intro frame name
    unfold Frame.binds
    cases frame.names.lookup name <;> simp
  rw [Bool.eq_iff_iff, same, same]
  exact recasts.names.binds injective name decl

/-- The value of a name that is bound for a declaration. -/
theorem value?_of_binds (recasts : frame.Recasts r image) {name : String} {decl : Option NodeId}
    (binds : frame.binds name decl = true) :
    image.value? (r.bound decl name) = (frame.value? name).map (Value.recast r) := by
  unfold Frame.binds at binds
  split at binds
  · rename_i binding looked
    cases eq_of_beq binds
    simp only [Frame.value?, looked, recasts.names.bound looked, Option.bind_some, Binding.recast]
  · cases binds

/-- The value of a name in an instance. -/
theorem value?_of_class (recasts : frame.Recasts r image) (isSome : frame.boxClass.isSome = true)
    (name : String) : image.value? name = (frame.value? name).map (Value.recast r) := by
  simp only [Frame.value?, recasts.names.lookup_of_plain (recasts.plain isSome) name]
  cases frame.names.lookup name <;> rfl

/-- Writing a value to a name that is bound. -/
theorem write (recasts : frame.Recasts r image) (injective : r.Injective) {name : String}
    {held : Binding} (present : frame.names.lookup name = some held) (value : Value) :
    Frame.Recasts r { frame with names := Frame.write name value frame.names }
      { image with
        names := Frame.write (r.bound held.decl name) (value.recast r) image.names } where
  names := recasts.names.write injective present value
  parent := recasts.parent
  boxClass := recasts.boxClass
  plain := by
    intro isSome other binding found
    rw [Frame.lookup_write] at found
    split at found
    · obtain ⟨before, looked, rfl⟩ := Option.map_eq_some_iff.mp found
      exact recasts.plain isSome other before looked
    · exact recasts.plain isSome other binding found

end Frame.Recasts

/-! ## Heaps -/

/-- A heap, and the one for the tree cast anew. -/
structure Heap.Recasts (r : Recast) (heap image : Heap) : Prop where
  count : image.frames.size = heap.frames.size
  frames : ∀ index : FrameId,
    Option.Rel (Frame.Recasts r) heap.frames[index]? image.frames[index]?
  rows : image.rows = heap.rows.map (·.map (Value.recast r))
  nextId : image.nextId = heap.nextId

namespace Heap.Recasts

variable {heap image : Heap}

theorem empty : Heap.empty.Recasts r .empty where
  count := rfl
  frames _ := by simp [Heap.empty]
  rows := by simp [Heap.empty]
  nextId := rfl

theorem frame (recasts : heap.Recasts r image) {index : FrameId} {stored : Frame}
    (present : heap.frames[index]? = some stored) :
    ∃ other, image.frames[index]? = some other ∧ stored.Recasts r other := by
  have related := recasts.frames index
  rw [present] at related
  generalize image.frames[index]? = found at related
  cases related with
  | some related => exact ⟨_, rfl, related⟩

theorem absent (recasts : heap.Recasts r image) {index : FrameId}
    (none : heap.frames[index]? = none) : image.frames[index]? = Option.none := by
  have related := recasts.frames index
  rw [none] at related
  generalize image.frames[index]? = found at related
  cases related
  rfl

/-! ## Questions -/

theorem row (recasts : heap.Recasts r image) (index : RowId) :
    image.row index = (heap.row index).map (Value.recast r) := by
  simp only [Heap.row, recasts.rows, Array.getElem?_map]
  cases heap.rows[index]? <;> simp

theorem class? (recasts : heap.Recasts r image) (index : FrameId) :
    image.class? index = (heap.class? index).map (BoxClass.recast r) := by
  simp only [Heap.class?]
  cases present : heap.frames[index]? with
  | none => rw [recasts.absent present]; rfl
  | some stored =>
    obtain ⟨other, there, related⟩ := recasts.frame present
    rw [there]
    exact related.boxClass

theorem chain (recasts : heap.Recasts r image) (index : FrameId) :
    image.chain index = heap.chain index := by
  unfold Heap.chain
  generalize index + 1 = fuel
  induction fuel generalizing index with
  | zero => rfl
  | succ fuel ih =>
    simp only [Heap.chainFrom]
    cases present : heap.frames[index]? with
    | none => rw [recasts.absent present]
    | some stored =>
      obtain ⟨other, there, related⟩ := recasts.frame present
      rw [there]
      simp only [related.parent]
      cases stored.parent with
      | none => rfl
      | some parent => simp only [ih parent]

theorem receiver? (recasts : heap.Recasts r image) (index : FrameId) :
    image.receiver? index = heap.receiver? index := by
  simp only [Heap.receiver?, recasts.chain, recasts.class?, Option.isSome_map]

theorem select? (recasts : heap.Recasts r image) (injective : r.Injective) (index : FrameId)
    (name : String) (decl : Option NodeId) :
    image.select? index (r.bound decl name) decl = heap.select? index name decl := by
  simp only [Heap.select?, recasts.chain]
  congr 1
  funext home
  simp only [Heap.binds]
  cases present : heap.frames[home]? with
  | none => rw [recasts.absent present]
  | some stored =>
    obtain ⟨other, there, related⟩ := recasts.frame present
    rw [there]
    exact related.binds injective name decl

/-- A frame that is selected binds the name. -/
theorem stored_of_select? {heap : Heap} {index home : FrameId} {name : String}
    {decl : Option NodeId} (selects : heap.select? index name decl = some home) :
    ∃ stored, heap.frames[home]? = some stored ∧ stored.binds name decl = true := by
  have binds := List.find?_some selects
  unfold Heap.binds at binds
  split at binds
  · rename_i stored present
    exact ⟨stored, present, binds⟩
  · cases binds

theorem get (recasts : heap.Recasts r image) (injective : r.Injective) (index : FrameId)
    (name : String) (decl : Option NodeId) :
    image.get index (r.bound decl name) decl =
      (heap.get index name decl).map (Value.recast r) := by
  simp only [Heap.get_eq, recasts.select? injective]
  cases selects : heap.select? index name decl with
  | none => rfl
  | some home =>
    obtain ⟨stored, present, binds⟩ := stored_of_select? selects
    obtain ⟨other, there, related⟩ := recasts.frame present
    simp only [Heap.getLocal?, present, there, Option.bind_some, related.value?_of_binds binds]
    cases stored.value? name <;> rfl

/-- The value of a name in an instance. -/
theorem getLocal? (recasts : heap.Recasts r image) {index : FrameId}
    (isSome : (heap.class? index).isSome = true) (name : String) :
    image.getLocal? index name = (heap.getLocal? index name).map (Value.recast r) := by
  simp only [Heap.class?] at isSome
  cases present : heap.frames[index]? with
  | none =>
    rw [present] at isSome
    cases isSome
  | some stored =>
    rw [present] at isSome
    obtain ⟨other, there, related⟩ := recasts.frame present
    simp only [Heap.getLocal?, present, there, Option.bind_some,
      related.value?_of_class isSome name]

/-! ## Steps -/

theorem withNextId (recasts : heap.Recasts r image) (id : Nat) :
    Heap.Recasts r { heap with nextId := id } { image with nextId := id } :=
  ⟨recasts.count, recasts.frames, recasts.rows, rfl⟩

theorem newFrame (recasts : heap.Recasts r image) {frame other : Frame}
    (related : frame.Recasts r other) :
    (image.newFrame other).1 = (heap.newFrame frame).1 ∧
      (heap.newFrame frame).2.Recasts r (image.newFrame other).2 := by
  refine ⟨recasts.count, ?_, ?_, recasts.rows, recasts.nextId⟩
  · simp [Heap.newFrame, recasts.count]
  · intro index
    simp only [Heap.newFrame, Array.getElem?_push, recasts.count]
    split
    · exact .some related
    · exact recasts.frames index

theorem newRow (recasts : heap.Recasts r image) (values : Array Value) :
    (image.newRow (values.map (Value.recast r))).1 = (heap.newRow values).1 ∧
      (heap.newRow values).2.Recasts r (image.newRow (values.map (Value.recast r))).2 := by
  refine ⟨?_, recasts.count, recasts.frames, ?_, recasts.nextId⟩
  · simp [Heap.newRow, recasts.rows]
  · simp [Heap.newRow, recasts.rows]

theorem setItem (recasts : heap.Recasts r image) (index : RowId) (place : Nat) (value : Value) :
    (heap.setItem index place value).Recasts r (image.setItem index place (value.recast r)) := by
  refine ⟨recasts.count, recasts.frames, ?_, recasts.nextId⟩
  apply Array.ext_getElem?
  intro other
  simp only [Heap.setItem, recasts.rows, Array.getElem?_modify, Array.getElem?_map]
  split
  · cases heap.rows[other]? with
    | none => rfl
    | some values =>
      simp only [Option.map_some, Option.some.injEq]
      apply Array.ext_getElem?
      intro position
      simp only [Array.getElem?_setIfInBounds, Array.getElem?_map, Array.size_map]
      split
      · split <;> rfl
      · rfl
  · rfl

/-- Changing the names of a frame. -/
theorem modifyNames (recasts : heap.Recasts r image) (index : FrameId)
    {change other : List (String × Binding) → List (String × Binding)}
    (keeps : ∀ frame stored, heap.frames[index]? = some frame → frame.Recasts r stored →
      Frame.Recasts r { frame with names := change frame.names }
        { stored with names := other stored.names }) :
    (heap.modifyNames index change).Recasts r (image.modifyNames index other) := by
  refine ⟨?_, ?_, recasts.rows, recasts.nextId⟩
  · simp [Heap.modifyNames, recasts.count]
  · intro place
    simp only [Heap.modifyNames, Array.getElem?_modify]
    split
    · rename_i same
      subst same
      cases present : heap.frames[index]? with
      | none =>
        rw [recasts.absent present]
        exact .none
      | some frame =>
        obtain ⟨stored, there, related⟩ := recasts.frame present
        rw [there]
        exact .some (keeps frame stored present related)
    · exact recasts.frames place

theorem assignLocal (recasts : heap.Recasts r image) (injective : r.Injective) {index : FrameId}
    {name : String} {held : Binding} {stored : Frame}
    (present : heap.frames[index]? = some stored)
    (looked : stored.names.lookup name = some held) (value : Value) :
    (image.assignLocal index (r.bound held.decl name) (value.recast r)).1 =
        (heap.assignLocal index name value).1 ∧
      (heap.assignLocal index name value).2.Recasts r
        (image.assignLocal index (r.bound held.decl name) (value.recast r)).2 := by
  obtain ⟨other, there, related⟩ := recasts.frame present
  have here := related.names.bound looked
  simp only [Heap.assignLocal, Heap.getLocal?, present, there, Option.bind_some, Frame.value?,
    looked, here, Binding.recast]
  cases held.value with
  | none => exact ⟨rfl, recasts⟩
  | some old =>
    refine ⟨rfl, recasts.modifyNames index fun frame stored found relates => ?_⟩
    rw [present] at found
    cases found
    exact relates.write injective looked value

theorem assign (recasts : heap.Recasts r image) (injective : r.Injective) (index : FrameId)
    (name : String) (decl : Option NodeId) (value : Value) :
    (image.assign index (r.bound decl name) decl (value.recast r)).1 =
        (heap.assign index name decl value).1 ∧
      (heap.assign index name decl value).2.Recasts r
        (image.assign index (r.bound decl name) decl (value.recast r)).2 := by
  simp only [Heap.assign_eq, recasts.select? injective]
  cases selects : heap.select? index name decl with
  | none => exact ⟨rfl, recasts⟩
  | some home =>
    obtain ⟨stored, present, binds⟩ := stored_of_select? selects
    unfold Frame.binds at binds
    split at binds
    · rename_i held looked
      cases eq_of_beq binds
      obtain ⟨same, after⟩ := recasts.assignLocal injective present looked value
      simp only
      generalize heap.assignLocal home name value = result at same after
      generalize image.assignLocal home (r.bound held.decl name) (value.recast r) = other
        at same after
      obtain ⟨done, heap⟩ := result
      obtain ⟨doneToo, image⟩ := other
      cases same
      cases done with
      | false => exact ⟨rfl, after⟩
      | true => exact ⟨rfl, after⟩
    · cases binds

/-- Replacing the value of an attribute. -/
theorem assignAttribute (recasts : heap.Recasts r image) (injective : r.Injective)
    {index : FrameId} (isSome : (heap.class? index).isSome = true) (name : String)
    (value : Value) :
    (image.assignLocal index name (value.recast r)).1 = (heap.assignLocal index name value).1 ∧
      (heap.assignLocal index name value).2.Recasts r
        (image.assignLocal index name (value.recast r)).2 := by
  cases present : heap.frames[index]? with
  | none =>
    rw [Heap.class?, present] at isSome
    cases isSome
  | some stored =>
    cases looked : stored.names.lookup name with
    | some held =>
      obtain ⟨other, there, related⟩ := recasts.frame present
      rw [Heap.class?, present] at isSome
      have assigned := recasts.assignLocal injective present looked value
      rwa [related.plain isSome name held looked] at assigned
    | none =>
      have unheld : heap.getLocal? index name = Option.none := by
        simp only [Heap.getLocal?, present, Option.bind_some, Frame.value?, looked,
          Option.bind_none]
      have unheldToo : image.getLocal? index name = Option.none := by
        rw [recasts.getLocal? isSome, unheld]
        rfl
      simp only [Heap.assignLocal, unheld, unheldToo, true_and]
      exact recasts

/-! ## Making things -/

theorem default (recasts : heap.Recasts r image) (ty : Ty) :
    (image.default ty).1 = ((heap.default ty).1).recast r ∧
      (heap.default ty).2.Recasts r (image.default ty).2 := by
  cases ty with
  | array component =>
    obtain ⟨same, after⟩ := recasts.newRow #[]
    rw [Array.map_empty] at same after
    exact ⟨congrArg Value.array same, after⟩
  | _ => exact ⟨rfl, recasts⟩

/-- The names of an instance, whose attributes are called as they are. -/
theorem defaults (recasts : heap.Recasts r image) (attributes : List Attribute)
    (called : ∀ attr ∈ attributes, r.bound (some attr.decl) attr.name = attr.name)
    {names others : List (String × Binding)} (same : r.Names names others)
    (plain : ∀ name binding, names.lookup name = some binding →
      r.bound binding.decl name = name) :
    r.Names (heap.defaults attributes names).1 (image.defaults attributes others).1 ∧
      (∀ name binding, (heap.defaults attributes names).1.lookup name = some binding →
        r.bound binding.decl name = name) ∧
      (heap.defaults attributes names).2.Recasts r (image.defaults attributes others).2 := by
  induction attributes generalizing heap image names others with
  | nil => exact ⟨same, plain, recasts⟩
  | cons attr rest ih =>
    obtain ⟨value, after⟩ := recasts.default attr.type
    obtain ⟨here, later⟩ := List.forall_mem_cons.mp called
    have apart : ∀ other old, names.lookup other = some old →
        (r.bound old.decl other = r.bound (some attr.decl) attr.name ↔ other = attr.name) := by
      intro other old found
      rw [here, plain other old found]
    have stored : Binding.recast r ⟨some attr.decl, some (heap.default attr.type).1⟩ =
        ⟨some attr.decl, some (image.default attr.type).1⟩ := by
      rw [value]
      rfl
    have bound : r.Names
        (Frame.bind attr.name ⟨some attr.decl, some (heap.default attr.type).1⟩ names)
        (Frame.bind (r.bound (some attr.decl) attr.name) (Binding.recast r _) others) :=
      same.bind apart
    rw [here, stored] at bound
    refine ih after later bound ?_
    intro name binding found
    rw [Frame.lookup_bind] at found
    split at found
    · rename_i is
      cases found
      rw [is]
      exact here
    · exact plain name binding found

theorem newInstance (recasts : heap.Recasts r image) (cls : BoxClass)
    (called : ∀ attr ∈ cls.attributes, r.bound (some attr.decl) attr.name = attr.name) :
    (image.newInstance (cls.recast r)).1 = (heap.newInstance cls).1 ∧
      (heap.newInstance cls).2.Recasts r (image.newInstance (cls.recast r)).2 := by
  obtain ⟨names, plain, after⟩ :=
    recasts.defaults cls.attributes called (.nil : r.Names [] []) (by simp)
  exact after.newFrame ⟨names, rfl, rfl, fun _ => plain⟩

/-! ## Texts -/

theorem methodText (recasts : heap.Recasts r image) (receiver : FrameId) (decl : FunctionDecl) :
    image.methodText receiver (decl.recast r) = heap.methodText receiver decl := by
  simp only [Heap.methodText, recasts.class?, FunctionDecl.name_recast]
  cases heap.class? receiver <;> rfl

theorem textWithin? (recasts : heap.Recasts r image) (fuel : Nat) (value : Value) :
    image.textWithin? fuel (value.recast r) = heap.textWithin? fuel value := by
  induction fuel generalizing value with
  | zero => cases value <;> simp [Value.recast, Heap.textWithin?, recasts.methodText]
  | succ fuel ih =>
    have all : ∀ values : List Value, (values.map (Value.recast r)).mapM
        (image.textWithin? fuel) = values.mapM (heap.textWithin? fuel) := by
      intro values
      rw [List.mapM_map]
      exact congrArg (values.mapM ·) (funext ih)
    cases value with
    | array row | struct cls row =>
      simp only [Value.recast, Heap.textWithin?, recasts.row, Array.toList_map, all]
    | box frame =>
      simp only [Value.recast, Heap.textWithin?, recasts.class?]
      cases made : heap.class? frame with
      | none => rfl
      | some cls =>
        simp only [Option.map_some, BoxClass.recast]
        have values : ∀ attr : Attribute,
            image.textWithin? fuel ((image.getLocal? frame attr.name).getD .null) =
              heap.textWithin? fuel ((heap.getLocal? frame attr.name).getD .null) := by
          intro attr
          rw [recasts.getLocal? (by rw [made]; rfl), ← ih]
          cases heap.getLocal? frame attr.name <;> rfl
        simp only [values]
    | _ => simp [Value.recast, Heap.textWithin?, recasts.methodText]

/-- Values have the same texts. -/
theorem text? (recasts : heap.Recasts r image) (value : Value) :
    image.text? (value.recast r) = heap.text? value := by
  simp only [Heap.text?, recasts.textWithin?, recasts.count, recasts.rows, Array.size_map]

end Heap.Recasts

end BoxScript
