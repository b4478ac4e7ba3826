import BoxScript.Heap

/-!
# Selecting a frame

Reads and writes each go along the frames around a frame (`Heap.getAlong`, `Heap.assignAlong`), and
each stops at the first one that binds the name for the declaration. So both have the same frame in
hand, the one that `Heap.select?` names: a read gives what the name has there (`Heap.get_eq`), and a
write replaces that (`Heap.assign_eq`).
-/

set_option autoImplicit false

namespace BoxScript

namespace Heap

/-- The first frame along the chain that binds a name for a declaration. -/
def select? (heap : Heap) (frame : FrameId) (name : String) (decl : Option NodeId) :
    Option FrameId :=
  (heap.chain frame).find? (heap.binds name decl)

variable (heap : Heap) (name : String) (decl : Option NodeId)

/-- A read stops at the first frame that binds the name. -/
theorem getAlong_eq (frames : List FrameId) :
    heap.getAlong name decl frames =
      match frames.find? (heap.binds name decl) with
      | none => .error .unbound
      | some home =>
        match heap.getLocal? home name with
        | some value => .ok value
        | none => .error .uninitialised := by
  induction frames with
  | nil => rfl
  | cons frame outer ih =>
    rw [getAlong, List.find?_cons]
    cases heap.binds name decl frame with
    | true => rfl
    | false => exact ih

/-- A write stops at the first frame that binds the name. -/
theorem assignAlong_eq (value : Value) (frames : List FrameId) :
    heap.assignAlong name decl value frames =
      match frames.find? (heap.binds name decl) with
      | none => (.error .unbound, heap)
      | some home =>
        match heap.assignLocal home name value with
        | (true, heap) => (.ok (), heap)
        | (false, heap) => (.error .uninitialised, heap) := by
  induction frames with
  | nil => rfl
  | cons frame outer ih =>
    rw [assignAlong, List.find?_cons]
    cases heap.binds name decl frame with
    | true => rfl
    | false => exact ih

theorem get_eq (frame : FrameId) :
    heap.get frame name decl =
      match heap.select? frame name decl with
      | none => .error .unbound
      | some home =>
        match heap.getLocal? home name with
        | some value => .ok value
        | none => .error .uninitialised :=
  heap.getAlong_eq name decl (heap.chain frame)

theorem assign_eq (frame : FrameId) (value : Value) :
    heap.assign frame name decl value =
      match heap.select? frame name decl with
      | none => (.error .unbound, heap)
      | some home =>
        match heap.assignLocal home name value with
        | (true, heap) => (.ok (), heap)
        | (false, heap) => (.error .uninitialised, heap) :=
  heap.assignAlong_eq name decl value (heap.chain frame)

end Heap

end BoxScript
