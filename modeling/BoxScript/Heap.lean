import BoxScript.Value

/-!
# The heap

All that values share while a program runs: frames of variables, and rows of array elements or
struct fields. Frames and rows are numbered in the order of their making and are never removed.

A frame binds names, and has a frame around it unless it is the outermost one. Each binding is made
for a declaration, and a name is looked up together with the declaration it means: a frame that
binds the name for another declaration is passed over. So a variable of a block that is not declared
yet never hides an outer one. Reads (`Heap.get`) and writes (`Heap.assign`) each go along the frames
from the inside out.
-/

set_option autoImplicit false

namespace BoxScript

/-- What a name is bound to in a frame: the declaration it is bound for, of which builtins have
none, and its value once the declaration has run. -/
structure Binding where
  decl : Option NodeId
  value : Option Value

/-- A frame of variables. The frame of a box instance holds its attributes and knows its class. -/
structure Frame where
  names : List (String × Binding)
  parent : Option FrameId
  boxClass : Option BoxClass

namespace Frame

/-- Binds a name, in place of what it was bound to before. -/
def bind (name : String) (binding : Binding) :
    List (String × Binding) → List (String × Binding)
  | [] => [(name, binding)]
  | (other, old) :: rest =>
    if other = name then (name, binding) :: rest else (other, old) :: bind name binding rest

/-- Replaces the value of a bound name. -/
def write (name : String) (value : Value) :
    List (String × Binding) → List (String × Binding)
  | [] => []
  | (other, old) :: rest =>
    if other = name then (name, { old with value := some value }) :: rest
    else (other, old) :: write name value rest

/-- The value of a name, whatever declares it. -/
def value? (frame : Frame) (name : String) : Option Value :=
  (frame.names.lookup name).bind (·.value)

/-- Whether a name is bound for a declaration. -/
def binds (frame : Frame) (name : String) (decl : Option NodeId) : Bool :=
  match frame.names.lookup name with
  | some binding => binding.decl == decl
  | none => false

theorem lookup_bind (names : List (String × Binding)) (name other : String) (binding : Binding) :
    (bind name binding names).lookup other =
      if other = name then some binding else names.lookup other := by
  induction names with
  | nil => by_cases same : other = name <;> simp [bind, List.lookup_cons, same, beq_false_of_ne]
  | cons entry rest ih =>
    obtain ⟨first, old⟩ := entry
    by_cases here : first = name
    · subst here
      by_cases same : other = first <;> simp [bind, List.lookup_cons, same, beq_false_of_ne]
    · by_cases there : other = first
      · subst there
        simp [bind, here]
      · simp [bind, List.lookup_cons, here, beq_false_of_ne there, ih]

theorem lookup_write (names : List (String × Binding)) (name other : String) (value : Value) :
    (write name value names).lookup other =
      if other = name then (names.lookup other).map ({ · with value := some value })
      else names.lookup other := by
  induction names with
  | nil => simp [write]
  | cons entry rest ih =>
    obtain ⟨first, old⟩ := entry
    by_cases here : first = name
    · subst here
      by_cases same : other = first <;> simp [write, List.lookup_cons, same, beq_false_of_ne]
    · by_cases there : other = first
      · subst there
        simp [write, here]
      · simp [write, List.lookup_cons, here, beq_false_of_ne there, ih]

end Frame

/-- The frames and rows of a run. `nextId` numbers what has an identity but no contents that change:
functions, structs and boxes. -/
structure Heap where
  frames : Array Frame
  rows : Array (Array Value)
  nextId : Nat

/-- Why a name has no value to read or replace. -/
inductive SlotError
  | unbound
  | uninitialised
  deriving Repr, DecidableEq

namespace Heap

def empty : Heap := ⟨#[], #[], 0⟩

/-! ## Making things -/

def newFrame (heap : Heap) (frame : Frame) : FrameId × Heap :=
  (heap.frames.size, { heap with frames := heap.frames.push frame })

/-- Makes a frame without names inside another one. -/
def newChild (heap : Heap) (parent : FrameId) : FrameId × Heap :=
  heap.newFrame ⟨[], some parent, none⟩

def newRow (heap : Heap) (values : Array Value) : RowId × Heap :=
  (heap.rows.size, { heap with rows := heap.rows.push values })

def freshId (heap : Heap) : Nat × Heap :=
  (heap.nextId, { heap with nextId := heap.nextId + 1 })

/-- The value that a slot of a type starts with. -/
def default (heap : Heap) : Ty → Value × Heap
  | .int => (.int 0, heap)
  | .float => (.float 0.0, heap)
  | .bool => (.bool false, heap)
  | .string => (.string "", heap)
  | .array _ =>
    let (row, heap) := heap.newRow #[]
    (.array row, heap)
  | _ => (.null, heap)

/-- The names of a new instance: each attribute with the value its type starts with. -/
def defaults (heap : Heap) : List Attribute → List (String × Binding) →
    List (String × Binding) × Heap
  | [], names => (names, heap)
  | attr :: rest, names =>
    let (value, heap) := heap.default attr.type
    heap.defaults rest (Frame.bind attr.name ⟨some attr.decl, some value⟩ names)

/-- Makes an instance of a box, whose frame lies inside the frame the box was declared in. -/
def newInstance (heap : Heap) (cls : BoxClass) : FrameId × Heap :=
  let (names, heap) := heap.defaults cls.attributes []
  heap.newFrame ⟨names, some cls.frame, some cls⟩

/-! ## Frames -/

/-- Changes the names of a frame. -/
def modifyNames (heap : Heap) (frame : FrameId)
    (change : List (String × Binding) → List (String × Binding)) : Heap :=
  { heap with frames := heap.frames.modify frame fun f => { f with names := change f.names } }

/-- Keeps a place in a frame for a variable whose declaration has not run. -/
def reserve (heap : Heap) (frame : FrameId) (name : String) (decl : NodeId) : Heap :=
  heap.modifyNames frame (Frame.bind name ⟨some decl, none⟩)

/-- Binds a name in a frame to a value. -/
def define (heap : Heap) (frame : FrameId) (name : String) (decl : Option NodeId)
    (value : Value) : Heap :=
  heap.modifyNames frame (Frame.bind name ⟨decl, some value⟩)

/-- A frame and those around it, from the inside out. The frame around another one is older, so its
number bounds the length of the chain. -/
def chainFrom (heap : Heap) : Nat → FrameId → List FrameId
  | 0, _ => []
  | fuel + 1, frame =>
    match heap.frames[frame]? with
    | none => []
    | some f =>
      frame :: match f.parent with
        | none => []
        | some parent => chainFrom heap fuel parent

def chain (heap : Heap) (frame : FrameId) : List FrameId := heap.chainFrom (frame + 1) frame

/-- Whether a frame binds a name for a declaration. -/
def binds (heap : Heap) (name : String) (decl : Option NodeId) (frame : FrameId) : Bool :=
  match heap.frames[frame]? with
  | some f => f.binds name decl
  | none => false

/-- The value of a name in a frame itself, whatever declares it. -/
def getLocal? (heap : Heap) (frame : FrameId) (name : String) : Option Value :=
  heap.frames[frame]?.bind (·.value? name)

/-- The value of a name in the first of some frames that binds it for a declaration. -/
def getAlong (heap : Heap) (name : String) (decl : Option NodeId) :
    List FrameId → Except SlotError Value
  | [] => .error .unbound
  | frame :: outer =>
    if heap.binds name decl frame then
      match heap.getLocal? frame name with
      | some value => .ok value
      | none => .error .uninitialised
    else heap.getAlong name decl outer

/-- The value of a name that means a declaration. -/
def get (heap : Heap) (frame : FrameId) (name : String) (decl : Option NodeId) :
    Except SlotError Value :=
  heap.getAlong name decl (heap.chain frame)

/-- Replaces the value of a name in a frame itself, if it has one. The answer tells whether it
had. -/
def assignLocal (heap : Heap) (frame : FrameId) (name : String) (value : Value) : Bool × Heap :=
  match heap.getLocal? frame name with
  | none => (false, heap)
  | some _ => (true, heap.modifyNames frame (Frame.write name value))

/-- Replaces the value of a name in the first of some frames that binds it for a declaration. -/
def assignAlong (heap : Heap) (name : String) (decl : Option NodeId) (value : Value) :
    List FrameId → Except SlotError Unit × Heap
  | [] => (.error .unbound, heap)
  | frame :: outer =>
    if heap.binds name decl frame then
      match heap.assignLocal frame name value with
      | (true, heap) => (.ok (), heap)
      | (false, heap) => (.error .uninitialised, heap)
    else heap.assignAlong name decl value outer

/-- Replaces the value of a name that means a declaration. -/
def assign (heap : Heap) (frame : FrameId) (name : String) (decl : Option NodeId)
    (value : Value) : Except SlotError Unit × Heap :=
  heap.assignAlong name decl value (heap.chain frame)

/-- The class of a frame that is an instance of a box. -/
def class? (heap : Heap) (frame : FrameId) : Option BoxClass :=
  heap.frames[frame]?.bind (·.boxClass)

/-- The innermost instance along the chain: the receiver of the method that is running. -/
def receiver? (heap : Heap) (frame : FrameId) : Option FrameId :=
  (heap.chain frame).find? fun f => (heap.class? f).isSome

/-! ## Rows -/

/-- The values of a row. -/
def row (heap : Heap) (row : RowId) : Array Value := heap.rows[row]?.getD #[]

/-- Replaces a value of a row. -/
def setItem (heap : Heap) (row : RowId) (index : Nat) (value : Value) : Heap :=
  { heap with rows := heap.rows.modify row (·.setIfInBounds index value) }

end Heap

end BoxScript
