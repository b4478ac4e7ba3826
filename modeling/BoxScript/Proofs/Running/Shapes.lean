import BoxScript.Proofs.Types.Assignability
import BoxScript.Proofs.Walking.Accepted
import Mathlib.Order.Defs.PartialOrder

/-!
# The shapes of values

Whether a value has the shape of a type (`World.HasShape`) depends on what the frames and rows are
that it refers to. A world says which scope each frame stands for, of which class it is an instance,
and what the values of each row are. Frames and rows keep what they are for as long as a run goes
on, so a world only grows, and shapes are kept (`World.HasShape.mono`). A world says nothing of the
values that are stored, which may refer to one another in circles.
-/

set_option autoImplicit false

namespace BoxScript

/-- What the values of a row are. -/
inductive RowShape
  | elements (component : Ty)
  | fields (types : List Ty)

/-- What the frames and rows of a heap are: the scope that a frame stands for, the class of which it
is an instance, and the frame it lies in. -/
structure World where
  frames : List (ScopeId × Option BoxClass)
  parents : List (Option FrameId)
  rows : List RowShape

namespace World

/-- Whether a world has all frames and rows of another one. -/
structure Extends (w later : World) : Prop where
  frames : ∀ {frame : FrameId} {shape : ScopeId × Option BoxClass},
    w.frames[frame]? = some shape → later.frames[frame]? = some shape
  parents : ∀ {frame : FrameId} {parent : Option FrameId},
    w.parents[frame]? = some parent → later.parents[frame]? = some parent
  rows : ∀ {row : RowId} {shape : RowShape},
    w.rows[row]? = some shape → later.rows[row]? = some shape

instance : Preorder World where
  le := Extends
  le_refl _ := ⟨id, id, id⟩
  le_trans _ _ _ first second :=
    ⟨fun found => second.frames (first.frames found),
      fun found => second.parents (first.parents found),
      fun found => second.rows (first.rows found)⟩

/-- The scope that a frame stands for. -/
def scope? (w : World) (frame : FrameId) : Option ScopeId := w.frames[frame]?.map Prod.fst

variable {w later : World} {frame : FrameId} {scope : ScopeId}

theorem scope?_of_frames {cls : Option BoxClass} (found : w.frames[frame]? = some (scope, cls)) :
    w.scope? frame = some scope := by
  rw [scope?, found]
  rfl

theorem scope?_mono (grown : w ≤ later) (stands : w.scope? frame = some scope) :
    later.scope? frame = some scope := by
  obtain ⟨shape, found, rfl⟩ := Option.map_eq_some_iff.mp stands
  rw [scope?, grown.frames found]
  rfl

/-- A world that has grown has no fewer frames. -/
theorem length_le (grown : w ≤ later) : w.frames.length ≤ later.frames.length := by
  by_contra fewer
  have bound : later.frames.length < w.frames.length := Nat.lt_of_not_le fewer
  have present := grown.frames (List.getElem?_eq_getElem bound)
  exact absurd (List.getElem?_eq_some_iff.mp present).1 (Nat.lt_irrefl _)

end World

/-! ## Classes -/

/-- A struct that was made by running a declaration. -/
def StructClass.Made (known : Analysis) (cls : StructClass) : Prop :=
  ∃ around inner decl, Walk.StructWalked known.steps around inner decl ∧ cls.decl = decl.mark.id ∧
    cls.fields = decl.fields.map fun field =>
      (field.name, Eval.declaredType known.notes field.mark.id)

/-- A box that was made by running a declaration with a given member scope, in a frame for the scope
around the declaration. -/
def BoxClass.Made (known : Analysis) (w : World) (inner : ScopeId) (cls : BoxClass) : Prop :=
  ∃ around decl, Walk.BoxWalked known.steps around inner decl ∧ cls.decl = decl.mark.id ∧
    cls.attributes = decl.attributes.map (fun attr =>
      ⟨attr.name, attr.mark.id, Eval.declaredType known.notes attr.mark.id⟩) ∧
    cls.methods = decl.methods ∧ w.scope? cls.frame = some around

theorem BoxClass.Made.mono {known : Analysis} {w later : World} {inner : ScopeId} {cls : BoxClass}
    (made : cls.Made known w inner) (grown : w ≤ later) : cls.Made known later inner := by
  obtain ⟨around, decl, walked, node, attributes, methods, home⟩ := made
  exact ⟨around, decl, walked, node, attributes, methods, World.scope?_mono grown home⟩

namespace World

/-! ## Functions -/

/-- A function whose calls lie inside a frame for the scope around it, with its declared type. -/
def Callable (known : Analysis) (w : World) (decl : FunctionDecl) (outer : FrameId) (ty : Ty) :
    Prop :=
  ∃ around inner, Walk.FunctionWalked known.steps around inner decl ∧
    w.scope? outer = some around ∧ known.notes.declType? decl.mark.id = some ty

/-- The type that a callable value was declared with. -/
inductive Signature (known : Analysis) (w : World) : Value → Ty → Prop
  | function {closure : Closure} {ty : Ty}
      (callable : w.Callable known closure.decl closure.frame ty) :
      Signature known w (.function closure) ty
  | method {receiver : FrameId} {decl : FunctionDecl} {ty : Ty} {scope : ScopeId} {cls : BoxClass}
      (callable : w.Callable known decl receiver ty)
      (instanceOf : w.frames[receiver]? = some (scope, some cls)) (has : decl ∈ cls.methods) :
      Signature known w (.method receiver decl) ty
  | constructor {cls : StructClass} (made : cls.Made known) :
      Signature known w (.constructor cls)
        (.function (cls.fields.map (·.2)) (.struct ⟨cls.name, cls.decl⟩))
  | builtin {function : Builtin} : Signature known w (.builtin function) function.signature

/-! ## Values -/

/-- Whether a value has the shape of a type. Slots of references and of Void start as `null`. -/
inductive HasShape (known : Analysis) (w : World) : Ty → Value → Prop
  | int {value : Int64} : HasShape known w .int (.int value)
  | float {value : Float} : HasShape known w .float (.float value)
  | bool {value : Bool} : HasShape known w .bool (.bool value)
  | string {value : String} : HasShape known w .string (.string value)
  | void : HasShape known w .void .void
  | type {value : TypeValue} : HasShape known w .type (.type value)
  | null {ty : Ty} (nullable : ty.isReference = true ∨ ty = .void) : HasShape known w ty .null
  | array {component ty : Ty} {row : RowId} (elements : w.rows[row]? = some (.elements ty))
      (same : ty.same component = true) : HasShape known w (.array component) (.array row)
  | struct {named : NamedType} {cls : StructClass} {row : RowId} (made : cls.Made known)
      (node : cls.decl = named.decl)
      (fields : w.rows[row]? = some (.fields (cls.fields.map (·.2)))) :
      HasShape known w (.struct named) (.struct cls row)
  | box {named : NamedType} {frame : FrameId} {scope : ScopeId} {cls : BoxClass}
      (instanceOf : w.frames[frame]? = some (scope, some cls)) (node : cls.decl = named.decl) :
      HasShape known w (.box named) (.box frame)
  | function {params : List Ty} {result ty : Ty} {value : Value}
      (signature : Signature known w value ty) (same : ty.same (.function params result) = true) :
      HasShape known w (.function params result) value

variable {known : Analysis} {w later : World} {ty : Ty} {value : Value}

theorem Callable.mono {decl : FunctionDecl} {outer : FrameId}
    (callable : w.Callable known decl outer ty) (grown : w ≤ later) :
    later.Callable known decl outer ty := by
  obtain ⟨around, inner, walked, home, typed⟩ := callable
  exact ⟨around, inner, walked, scope?_mono grown home, typed⟩

theorem Signature.mono (signature : w.Signature known value ty) (grown : w ≤ later) :
    later.Signature known value ty := by
  cases signature with
  | function callable => exact .function (callable.mono grown)
  | method callable instanceOf has =>
    exact .method (callable.mono grown) (grown.frames instanceOf) has
  | constructor made => exact .constructor made
  | builtin => exact .builtin

/-- Values keep their shapes. -/
theorem HasShape.mono (shape : w.HasShape known ty value) (grown : w ≤ later) :
    later.HasShape known ty value := by
  cases shape with
  | int => exact .int
  | float => exact .float
  | bool => exact .bool
  | string => exact .string
  | void => exact .void
  | type => exact .type
  | null nullable => exact .null nullable
  | array elements same => exact .array (grown.rows elements) same
  | struct made node fields => exact .struct made node (grown.rows fields)
  | box instanceOf node => exact .box (grown.frames instanceOf) node
  | function signature same => exact .function (signature.mono grown) same

/-- A value that has the shape of a type has that of the same type under other names. -/
theorem HasShape.of_same {other : Ty} (shape : w.HasShape known ty value)
    (same : ty.same other = true) : w.HasShape known other value := by
  cases shape with
  | int | float | bool | string | void | type =>
    cases other <;> cases same
    constructor
  | null nullable =>
    rcases nullable with reference | rfl
    · exact .null (.inl (Ty.isReference_of_same same ▸ reference))
    · cases other <;> cases same
      exact .null (.inr rfl)
  | array elements inner =>
    cases other with
    | array component => exact .array elements (Ty.same_trans inner same)
    | _ => cases same
  | struct made node fields =>
    cases other with
    | struct named => exact .struct made (node.trans (eq_of_beq same)) fields
    | _ => cases same
  | box instanceOf node =>
    cases other with
    | box named => exact .box instanceOf (node.trans (eq_of_beq same))
    | _ => cases same
  | function signature inner =>
    cases other with
    | function params result => exact .function signature (Ty.same_trans inner same)
    | _ => cases same

/-- What a value becomes that is stored in a slot to whose type its own is assignable. -/
theorem HasShape.coerce {expected : Ty} (shape : w.HasShape known ty value)
    (fits : ty.isAssignableTo expected = true) :
    w.HasShape known expected (value.coerce (some expected)) := by
  rcases Ty.isAssignableTo_iff.mp fits with same | ⟨rfl, rfl⟩ | ⟨rfl, reference⟩
  · have unchanged : value.coerce (some expected) = value := by
      unfold Value.coerce
      split
      · rename_i float
        cases float
        cases shape.of_same same
      · rfl
    rw [unchanged]
    exact shape.of_same same
  · cases shape with
    | int => exact .float
    | null nullable => simp [Ty.isReference] at nullable
  · cases shape
    exact .null (.inl reference)

end World

end BoxScript
