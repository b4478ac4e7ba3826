import BoxScript.Proofs.Running.Shapes

/-!
# Heaps that conform to a world

A heap conforms to a world if each frame binds the names of the scope that it stands for to values
of their types, lies inside a frame for the scope around that one, and if each row holds values of
the shapes that the world says (`World.Types`). Of a variable whose declaration has not run there is
no value; everything else that a frame binds has one. The methods of a box are not bound in its
instances.
-/

set_option autoImplicit false

namespace BoxScript

namespace World

/-! ## Bindings -/

/-- Whether a value may be what a name means that is declared so. -/
def Fits (known : Analysis) (w : World) (decl : Declaration) (value : Value) : Prop :=
  match decl.kind with
  | .struct => ∃ cls, value = .type (.struct cls) ∧ cls.Made known ∧ decl.node = some cls.decl
  | .box => ∃ cls inner, value = .type (.box cls) ∧ cls.Made known w inner ∧
      decl.node = some cls.decl
  | .builtinType ty => value = .type (.builtin ty)
  | .builtinFunction function => value = .builtin function
  | _ => ∃ ty, decl.node.bind known.notes.declType? = some ty ∧ w.HasShape known ty value

/-- Whether a binding may be made for a declaration. -/
structure Binds (known : Analysis) (w : World) (decl : Declaration) (binding : Binding) :
    Prop where
  node : binding.decl = decl.node
  fits : ∀ value, binding.value = some value → w.Fits known decl value
  ready : binding.value = none → decl.kind = .var

/-- Whether names are those of a scope: each declaration but the methods has a binding, and there
are no other bindings. -/
structure Names (known : Analysis) (w : World) (scope : ScopeId)
    (names : List (String × Binding)) : Prop where
  bound : ∀ decl ∈ Step.contents scope known.steps, decl.kind ≠ .method →
    ∃ binding, names.lookup decl.name = some binding
  means : ∀ {name : String} {binding : Binding}, names.lookup name = some binding →
    ∃ decl ∈ Step.contents scope known.steps, decl.name = name ∧ decl.kind ≠ .method ∧
      w.Binds known decl binding

/-! ## Frames and rows -/

/-- Where a frame lies: it is outermost and stands for the builtin scope, or it lies inside an older
frame, which stands for the scope around its own. Frames of box scopes are those of instances. -/
def Lies (known : Analysis) (w : World) (index : FrameId) (scope : ScopeId) (isInstance : Bool)
    (parent : Option FrameId) : Prop :=
  (parent = none ∧ scope = SymbolTable.builtinScope ∧ isInstance = false) ∨
    ∃ outer kind around, parent = some outer ∧ outer < index ∧ w.scope? outer = some around ∧
      .openScope scope kind around ∈ known.steps ∧ isInstance = (kind == .box)

/-- Whether a frame may stand for a scope, as an instance of a class if there is one. -/
structure Stands (known : Analysis) (w : World) (index : FrameId)
    (shape : ScopeId × Option BoxClass) (frame : Frame) : Prop where
  instanceOf : frame.boxClass = shape.2
  lies : w.Lies known index shape.1 shape.2.isSome frame.parent
  made : ∀ cls, shape.2 = some cls → cls.Made known w shape.1
  plain : shape.2 = none → ∀ decl ∈ Step.contents shape.1 known.steps, decl.kind ≠ .method
  names : w.Names known shape.1 frame.names

/-- Whether the values of a row are what they should be. -/
def Holds (known : Analysis) (w : World) : RowShape → Array Value → Prop
  | .elements component, values => ∀ value ∈ values, w.HasShape known component value
  | .fields types, values => List.Forall₂ (w.HasShape known) types values.toList

/-- Whether a heap has the frames and rows of a world. -/
structure Types (known : Analysis) (w : World) (heap : Heap) : Prop where
  frameCount : w.frames.length = heap.frames.size
  parents : w.parents = heap.frames.toList.map (·.parent)
  rowCount : w.rows.length = heap.rows.size
  frames : ∀ {index : FrameId} {frame : Frame} {shape : ScopeId × Option BoxClass},
    heap.frames[index]? = some frame → w.frames[index]? = some shape →
    w.Stands known index shape frame
  rows : ∀ {row : RowId} {values : Array Value} {shape : RowShape},
    heap.rows[row]? = some values → w.rows[row]? = some shape → w.Holds known shape values

variable {known : Analysis} {w later : World} {heap : Heap}

/-! ## Growth -/

theorem Fits.mono {decl : Declaration} {value : Value} (fits : w.Fits known decl value)
    (grown : w ≤ later) : later.Fits known decl value := by
  unfold Fits at fits ⊢
  split at fits
  · exact fits
  · obtain ⟨cls, inner, is, made, node⟩ := fits
    exact ⟨cls, inner, is, made.mono grown, node⟩
  · exact fits
  · exact fits
  · obtain ⟨ty, typed, shape⟩ := fits
    exact ⟨ty, typed, shape.mono grown⟩

theorem Binds.mono {decl : Declaration} {binding : Binding} (binds : w.Binds known decl binding)
    (grown : w ≤ later) : later.Binds known decl binding :=
  ⟨binds.node, fun value is => (binds.fits value is).mono grown, binds.ready⟩

theorem Names.mono {scope : ScopeId} {names : List (String × Binding)}
    (conform : w.Names known scope names) (grown : w ≤ later) : later.Names known scope names where
  bound := conform.bound
  means := by
    intro name binding found
    obtain ⟨decl, member, same, value, binds⟩ := conform.means found
    exact ⟨decl, member, same, value, binds.mono grown⟩

theorem Lies.mono {index : FrameId} {scope : ScopeId} {isInstance : Bool} {parent : Option FrameId}
    (lies : w.Lies known index scope isInstance parent) (grown : w ≤ later) :
    later.Lies known index scope isInstance parent := by
  rcases lies with outermost | ⟨outer, kind, around, is, older, home, opened, same⟩
  · exact .inl outermost
  · exact .inr ⟨outer, kind, around, is, older, scope?_mono grown home, opened, same⟩

theorem Stands.mono {index : FrameId} {shape : ScopeId × Option BoxClass} {frame : Frame}
    (stands : w.Stands known index shape frame) (grown : w ≤ later) :
    later.Stands known index shape frame where
  instanceOf := stands.instanceOf
  lies := stands.lies.mono grown
  made := fun cls is => (stands.made cls is).mono grown
  plain := stands.plain
  names := stands.names.mono grown

theorem Holds.mono {shape : RowShape} {values : Array Value} (holds : w.Holds known shape values)
    (grown : w ≤ later) : later.Holds known shape values := by
  cases shape with
  | elements component => exact fun value member => (holds value member).mono grown
  | fields types => exact holds.imp fun _ _ shape => shape.mono grown

/-! ## What a conforming heap has -/

theorem Types.frame (types : w.Types known heap) {index : FrameId}
    {shape : ScopeId × Option BoxClass} (found : w.frames[index]? = some shape) :
    ∃ frame, heap.frames[index]? = some frame ∧ w.Stands known index shape frame := by
  have bound : index < heap.frames.size :=
    types.frameCount ▸ (List.getElem?_eq_some_iff.mp found).1
  exact ⟨heap.frames[index], Array.getElem?_eq_getElem bound,
    types.frames (Array.getElem?_eq_getElem bound) found⟩

theorem Types.shape (types : w.Types known heap) {index : FrameId} {frame : Frame}
    (present : heap.frames[index]? = some frame) :
    ∃ shape, w.frames[index]? = some shape ∧ w.Stands known index shape frame := by
  have bound : index < w.frames.length :=
    types.frameCount ▸ (Array.getElem?_eq_some_iff.mp present).1
  exact ⟨w.frames[index], List.getElem?_eq_getElem bound,
    types.frames present (List.getElem?_eq_getElem bound)⟩

/-- A frame that stands for a scope is one of the heap. -/
theorem Types.lt_size (types : w.Types known heap) {index : FrameId} {scope : ScopeId}
    (home : w.scope? index = some scope) : index < heap.frames.size := by
  obtain ⟨shape, found, _⟩ := Option.map_eq_some_iff.mp home
  rw [← types.frameCount]
  exact (List.getElem?_eq_some_iff.mp found).1

theorem Types.row (types : w.Types known heap) {row : RowId} {shape : RowShape}
    (found : w.rows[row]? = some shape) : w.Holds known shape (heap.row row) := by
  have bound : row < heap.rows.size := types.rowCount ▸ (List.getElem?_eq_some_iff.mp found).1
  have present : heap.rows[row]? = some (heap.row row) := by
    rw [Heap.row, Array.getElem?_eq_getElem bound]
    rfl
  exact types.rows present found

/-! ## Names -/

section Names

variable {scope : ScopeId} {names : List (String × Binding)} {decl : Declaration}

/-- The binding of a declaration of the scope. -/
theorem Names.binding (conform : w.Names known scope names) (accepted : known.Accepted)
    {found : Scope} (present : known.notes.symbols.scopes[scope]? = some found)
    (member : decl ∈ Step.contents scope known.steps) (value : decl.kind ≠ .method) :
    ∃ binding, names.lookup decl.name = some binding ∧ w.Binds known decl binding := by
  obtain ⟨binding, looked⟩ := conform.bound decl member value
  obtain ⟨meant, other, same, _, binds⟩ := conform.means looked
  cases accepted.reflects.eq_of_name present other member same
  exact ⟨binding, looked, binds⟩

/-- Binding a name of the scope anew. -/
theorem Names.bind (conform : w.Names known scope names)
    (member : decl ∈ Step.contents scope known.steps) (value : decl.kind ≠ .method)
    {binding : Binding} (binds : w.Binds known decl binding) :
    w.Names known scope (Frame.bind decl.name binding names) where
  bound := by
    intro other otherMember otherValue
    rw [Frame.lookup_bind]
    split
    · exact ⟨binding, rfl⟩
    · exact conform.bound other otherMember otherValue
  means := by
    intro name other found
    rw [Frame.lookup_bind] at found
    split at found
    · rename_i same
      cases found
      exact ⟨decl, member, same.symm, value, binds⟩
    · exact conform.means found

/-- Writing a value to a name of the scope. -/
theorem Names.write (conform : w.Names known scope names) {name : String} {value : Value}
    (fits : ∀ decl ∈ Step.contents scope known.steps, decl.name = name → decl.kind ≠ .method →
      w.Fits known decl value) :
    w.Names known scope (Frame.write name value names) where
  bound := by
    intro other member isValue
    obtain ⟨binding, found⟩ := conform.bound other member isValue
    rw [Frame.lookup_write, found]
    split
    · exact ⟨_, rfl⟩
    · exact ⟨binding, rfl⟩
  means := by
    intro other binding found
    rw [Frame.lookup_write] at found
    split at found
    · rename_i same
      obtain ⟨old, before, rfl⟩ := Option.map_eq_some_iff.mp found
      obtain ⟨decl, member, means, isValue, binds⟩ := conform.means before
      refine ⟨decl, member, means, isValue, binds.node, ?_, by simp⟩
      intro stored is
      cases is
      exact fits decl member (means.trans same) isValue
    · exact conform.means found

end Names

end World

end BoxScript
