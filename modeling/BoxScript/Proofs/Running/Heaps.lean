import BoxScript.Proofs.Running.Conformance

/-!
# Steps on a conforming heap

What is made while a program runs makes the world grow: a new row, a new frame whose names are those
of a scope. What is changed in a frame or a row leaves the world as it is, if it is replaced by
something of the same shape. There is one lemma for each of these steps.
-/

set_option autoImplicit false

namespace BoxScript

/-! ## Binding names one after another -/

namespace Frame

/-- Binds names in their order. -/
def bindAll (entries names : List (String × Binding)) : List (String × Binding) :=
  entries.foldl (fun names (name, binding) => bind name binding names) names

theorem bindAll_append (first second names : List (String × Binding)) :
    bindAll (first ++ second) names = bindAll second (bindAll first names) :=
  List.foldl_append

theorem lookup_bindAll {entries names : List (String × Binding)} {name : String}
    {binding : Binding} (found : (bindAll entries names).lookup name = some binding) :
    (name, binding) ∈ entries ∨ names.lookup name = some binding := by
  induction entries generalizing names with
  | nil => exact .inr found
  | cons entry rest ih =>
    rcases ih found with later | here
    · exact .inl (List.mem_cons_of_mem _ later)
    · rw [lookup_bind] at here
      split at here
      · rename_i same
        cases here
        subst same
        exact .inl List.mem_cons_self
      · exact .inr here

theorem exists_lookup_bindAll {entries names : List (String × Binding)} {name : String}
    (bound : (∃ binding, (name, binding) ∈ entries) ∨
      ∃ binding, names.lookup name = some binding) :
    ∃ binding, (bindAll entries names).lookup name = some binding := by
  induction entries generalizing names with
  | nil => exact bound.resolve_left (by simp)
  | cons entry rest ih =>
    refine ih ?_
    rw [lookup_bind]
    rcases bound with ⟨binding, member⟩ | before
    · rcases List.mem_cons.mp member with rfl | later
      · exact .inr ⟨binding, if_pos rfl⟩
      · exact .inl ⟨binding, later⟩
    · right
      split
      · exact ⟨_, rfl⟩
      · exact before

end Frame

namespace World

variable {known : Analysis} {w : World} {heap : Heap}

/-- Names that are bound for the declarations of a scope, the methods apart. -/
theorem names_bindAll {scope : ScopeId} {entries : List (String × Binding)}
    (means : ∀ entry ∈ entries, ∃ decl ∈ Step.contents scope known.steps, decl.name = entry.1 ∧
      decl.kind ≠ .method ∧ w.Binds known decl entry.2)
    (bound : ∀ decl ∈ Step.contents scope known.steps, decl.kind ≠ .method →
      ∃ binding, (decl.name, binding) ∈ entries) :
    w.Names known scope (Frame.bindAll entries []) where
  bound := fun decl member value => Frame.exists_lookup_bindAll (.inl (bound decl member value))
  means := by
    intro name binding found
    rcases Frame.lookup_bindAll found with member | absent
    · exact means _ member
    · cases absent

/-! ## Rows -/

/-- A world with one more row. -/
def withRow (w : World) (shape : RowShape) : World := { w with rows := w.rows ++ [shape] }

theorem le_withRow (w : World) (shape : RowShape) : w ≤ w.withRow shape where
  frames := id
  parents := id
  rows := fun found => by
    rw [withRow, List.getElem?_append_left (List.getElem?_eq_some_iff.mp found).1, found]

theorem Types.newRow (types : w.Types known heap) {shape : RowShape} {values : Array Value}
    (holds : w.Holds known shape values) :
    (w.withRow shape).Types known (heap.newRow values).2 ∧
      (w.withRow shape).rows[(heap.newRow values).1]? = some shape := by
  have grown := le_withRow w shape
  have last : (w.rows ++ [shape])[heap.rows.size]? = some shape := by
    rw [← types.rowCount, List.getElem?_concat_length]
  refine ⟨⟨types.frameCount, types.parents, ?_, ?_, ?_⟩, last⟩
  · simp [withRow, Heap.newRow, types.rowCount]
  · intro index frame found present stands
    exact (types.frames present stands).mono grown
  · intro row found stored present shaped
    rw [Heap.newRow, Array.getElem?_push] at present
    change (w.rows ++ [shape])[row]? = _ at shaped
    split at present
    · rename_i here
      subst here
      cases present
      rw [last] at shaped
      cases shaped
      exact holds.mono grown
    · have bound : row < w.rows.length :=
        types.rowCount ▸ (Array.getElem?_eq_some_iff.mp present).1
      rw [List.getElem?_append_left bound] at shaped
      exact (types.rows present shaped).mono grown

theorem Types.setItem (types : w.Types known heap) {row : RowId} {place : Nat} {value : Value}
    (keeps : ∀ {shape : RowShape} {values : Array Value}, w.rows[row]? = some shape →
      w.Holds known shape values → w.Holds known shape (values.setIfInBounds place value)) :
    w.Types known (heap.setItem row place value) where
  frameCount := types.frameCount
  parents := types.parents
  rowCount := by simp [Heap.setItem, types.rowCount]
  frames := types.frames
  rows := by
    intro index values shape present shaped
    simp only [Heap.setItem, Array.getElem?_modify] at present
    split at present
    · rename_i same
      subst same
      obtain ⟨old, before, rfl⟩ := Option.map_eq_some_iff.mp present
      exact keeps shaped (types.rows before shaped)
    · exact types.rows present shaped

/-! ## Frames -/

/-- A world with one more frame, which lies inside another one if it is not the outermost. -/
def withFrame (w : World) (shape : ScopeId × Option BoxClass) (parent : Option FrameId) : World :=
  { w with frames := w.frames ++ [shape], parents := w.parents ++ [parent] }

theorem le_withFrame (w : World) (shape : ScopeId × Option BoxClass) (parent : Option FrameId) :
    w ≤ w.withFrame shape parent where
  frames := fun found => by
    rw [withFrame, List.getElem?_append_left (List.getElem?_eq_some_iff.mp found).1, found]
  parents := fun found => by
    rw [withFrame, List.getElem?_append_left (List.getElem?_eq_some_iff.mp found).1, found]
  rows := id

/-- The frame that comes next. -/
theorem Types.frames_withFrame (types : w.Types known heap) (shape : ScopeId × Option BoxClass)
    (parent : Option FrameId) :
    (w.withFrame shape parent).frames[heap.frames.size]? = some shape := by
  rw [withFrame, ← types.frameCount, List.getElem?_concat_length]

theorem Types.newFrame (types : w.Types known heap) {shape : ScopeId × Option BoxClass}
    {parent : Option FrameId} {frame : Frame}
    (stands : (w.withFrame shape parent).Stands known heap.frames.size shape frame)
    (inside : frame.parent = parent) :
    (w.withFrame shape parent).Types known (heap.newFrame frame).2 where
  frameCount := by simp [withFrame, Heap.newFrame, types.frameCount]
  parents := by simp [withFrame, Heap.newFrame, types.parents, inside]
  rowCount := types.rowCount
  frames := by
    intro index found other present shaped
    rw [Heap.newFrame, Array.getElem?_push] at present
    split at present
    · rename_i here
      subst here
      cases present
      rw [types.frames_withFrame] at shaped
      cases shaped
      exact stands
    · have bound : index < w.frames.length :=
        types.frameCount ▸ (Array.getElem?_eq_some_iff.mp present).1
      rw [withFrame, List.getElem?_append_left bound] at shaped
      exact (types.frames present shaped).mono (le_withFrame w shape parent)
  rows := fun present shaped =>
    (types.rows present shaped).mono (le_withFrame w shape parent)

theorem Types.modifyNames (types : w.Types known heap) {index : FrameId}
    {change : List (String × Binding) → List (String × Binding)}
    (keeps : ∀ {scope : ScopeId} {names : List (String × Binding)}, w.scope? index = some scope →
      w.Names known scope names → w.Names known scope (change names)) :
    w.Types known (heap.modifyNames index change) where
  frameCount := by simp [Heap.modifyNames, types.frameCount]
  parents := by
    rw [types.parents]
    apply List.ext_getElem?
    intro other
    simp only [Heap.modifyNames, List.getElem?_map, Array.getElem?_toList, Array.getElem?_modify]
    split
    · rw [Option.map_map]
      rfl
    · rfl
  rowCount := types.rowCount
  frames := by
    intro other frame shape present shaped
    simp only [Heap.modifyNames, Array.getElem?_modify] at present
    split at present
    · rename_i same
      subst same
      obtain ⟨old, before, rfl⟩ := Option.map_eq_some_iff.mp present
      have stands := types.frames before shaped
      exact { stands with names := keeps (scope?_of_frames shaped) stands.names }
    · exact types.frames present shaped
  rows := types.rows

/-- The numbers of functions and classes do not matter. -/
theorem Types.withNextId (types : w.Types known heap) (id : Nat) :
    w.Types known { heap with nextId := id } :=
  ⟨types.frameCount, types.parents, types.rowCount, types.frames, types.rows⟩

end World

namespace Heap

variable {heap : Heap} {index : FrameId}

theorem modifyNames_modifyNames (first second : List (String × Binding) → List (String × Binding)) :
    (heap.modifyNames index first).modifyNames index second =
      heap.modifyNames index (second ∘ first) := by
  simp only [modifyNames]
  congr 1
  apply Array.ext_getElem?
  intro i
  simp only [Array.getElem?_modify]
  split
  · rw [Option.map_map]
    rfl
  · rfl

theorem modifyNames_id : heap.modifyNames index id = heap := by
  have same : heap.frames.modify index (fun frame => frame) = heap.frames := by
    apply Array.ext_getElem?
    intro i
    rw [Array.getElem?_modify]
    split <;> simp
  exact congrArg (fun frames => { heap with frames := frames }) same

/-- Changing the names of a frame that was just made. -/
theorem modifyNames_newFrame (frame : Frame)
    (change : List (String × Binding) → List (String × Binding)) :
    (heap.newFrame frame).2.modifyNames heap.frames.size change =
      (heap.newFrame { frame with names := change frame.names }).2 := by
  simp only [modifyNames, newFrame]
  congr 1
  apply Array.ext_getElem?
  intro i
  simp only [Array.getElem?_modify, Array.getElem?_push]
  split
  · rename_i same
    subst same
    simp
  · rename_i other
    simp [Ne.symm other]

end Heap

end BoxScript
