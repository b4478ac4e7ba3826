import BoxScript.Proofs.Running.References
import BoxScript.Proofs.Running.Soundness
import BoxScript.Proofs.Running.Sparing

/-!
# What an assignment writes

The values of a heap are in its cells: in the names that frames bind, and in the places of rows. The
target of an assignment means one cell at most (`Expr.Designates`). Which one depends on what the
parts of the target have come to and on the heap as it is by then, that is after the value has been
evaluated, which may have changed the target itself.

An assignment of an accepted program puts the value into that cell, and leaves every other cell as
it is, or it raises an error and leaves everything as it is (`Program.assignment_writes_one_cell`).
A cell is read in several ways: a name from each frame inside the one that binds it and through the
instance whose attribute it is, a place of a row through each value that refers to the row
(`Heap.Alias`). All of them give the new value from then on. None of them depends on what the cells
hold, so there are as many as before.
-/

set_option autoImplicit false

namespace BoxScript

/-! ## Frames without their values -/

namespace Frame

variable {frame image : Frame}

/-- A frame without the values of its names. -/
def outline (frame : Frame) : List (String × Option NodeId) × Option FrameId × Option BoxClass :=
  (attributes frame.names, frame.parent, frame.boxClass)

theorem lookup_attributes (names : List (String × Binding)) (name : String) :
    (attributes names).lookup name = (names.lookup name).map (·.decl) := by
  induction names with
  | nil => rfl
  | cons entry rest ih =>
    rw [attributes, List.map_cons, List.lookup_cons, List.lookup_cons]
    split
    · rfl
    · exact ih

theorem binds_of_outline (same : image.outline = frame.outline) (name : String)
    (decl : Option NodeId) : image.binds name decl = frame.binds name decl := by
  have looked : (image.names.lookup name).map (·.decl) =
      (frame.names.lookup name).map (·.decl) := by
    rw [← lookup_attributes, ← lookup_attributes]
    exact congrArg (fun outline => outline.1.lookup name) same
  unfold binds
  cases here : frame.names.lookup name with
  | none =>
    rw [here, Option.map_none, Option.map_eq_none_iff] at looked
    rw [looked]
  | some binding =>
    rw [here] at looked
    obtain ⟨other, there, decls⟩ := Option.map_eq_some_iff.mp looked
    simp only [there, decls]

end Frame

/-! ## Steps on the machine -/

namespace Eval

variable {α β : Type} {machine after : Machine}

/-- Steps that are taken one after another for the members of a list. -/
theorem mapM_cons_ok {step : α → Eval β} {first : α} {rest : List α} {results : List β}
    (ran : ((first :: rest).mapM step) machine = .ok results after) :
    ∃ result middle more, step first machine = .ok result middle ∧
      rest.mapM step middle = .ok more after ∧ results = result :: more := by
  rw [List.mapM_cons] at ran
  cases here : step first machine with
  | error halt middle =>
    rw [bind_error here] at ran
    cases ran
  | ok result middle =>
    rw [bind_ok here] at ran
    cases others : rest.mapM step middle with
    | error halt last =>
      rw [bind_error others] at ran
      cases ran
    | ok more last =>
      rw [bind_ok others] at ran
      cases ran
      exact ⟨result, middle, more, rfl, others, rfl⟩

/-- An index inside an array is a place in it. -/
theorem expectIndex_of_inside {index : Int64} {length : Nat} {span : Span}
    (inside : 0 ≤ index.toInt ∧ index.toInt < length) :
    expectIndex (.int index) length span machine = .ok index.toInt.toNat machine := by
  simp only [expectIndex, if_pos inside]
  rfl

end Eval

/-! ## Cells -/

namespace Heap

/-- Where a heap holds a value: in a name of a frame, such as a variable or an attribute, or in a
place of a row, which is an element of an array or a field of a struct. -/
inductive Cell
  | name (frame : FrameId) (name : String)
  | item (row : RowId) (place : Nat)

/-- The value that is held in a cell. -/
def cell? (heap : Heap) : Cell → Option Value
  | .name frame name => heap.getLocal? frame name
  | .item row place => (heap.row row)[place]?

/-- Replaces the value of a cell. -/
def put (heap : Heap) (value : Value) : Cell → Heap
  | .name frame name => heap.modifyNames frame (Frame.write name value)
  | .item row place => heap.setItem row place value

/-- Whether a later heap differs from an earlier one in one cell, which held a value before and
holds a given one now. All that is no value is the same, too: the names that each frame binds, each
with its declaration, the frame around it and its class, and the lengths of the rows. -/
structure Overwrites (heap later : Heap) (cell : Cell) (value : Value) : Prop where
  held : (heap.cell? cell).isSome = true
  holds : later.cell? cell = some value
  others : ∀ other, other ≠ cell → later.cell? other = heap.cell? other
  frames : later.frames.map Frame.outline = heap.frames.map Frame.outline
  rows : later.rows.map Array.size = heap.rows.map Array.size
  nextId : later.nextId = heap.nextId

variable {heap later : Heap} {value : Value}

/-- A cell that holds a value can be given another one. -/
theorem cell?_put_self {cell : Cell} (held : (heap.cell? cell).isSome = true) :
    (heap.put value cell).cell? cell = some value := by
  obtain ⟨old, holds⟩ := Option.isSome_iff_exists.mp held
  cases cell with
  | name frame name =>
    obtain ⟨stored, present, bound⟩ := Option.bind_eq_some_iff.mp holds
    obtain ⟨binding, looked, _⟩ := Option.bind_eq_some_iff.mp bound
    simp only [put, cell?, getLocal?_modifyNames, if_true, present, Option.bind_some,
      Frame.lookup_write, looked, Option.map_some]
  | item row place =>
    obtain ⟨bound, _⟩ := Array.getElem?_eq_some_iff.mp holds
    have present : row < heap.rows.size := by
      by_contra absent
      simp [Heap.row, Array.getElem?_eq_none (Nat.le_of_not_lt absent)] at bound
    simp only [Heap.row, Array.getElem?_eq_getElem present, Option.getD_some] at bound
    simp [put, cell?, setItem, Heap.row, Array.getElem?_modify, Array.getElem?_eq_getElem present,
      bound]

theorem cell?_put_other {cell other : Cell} (differs : other ≠ cell) :
    (heap.put value cell).cell? other = heap.cell? other := by
  cases cell with
  | name frame name =>
    cases other with
    | item row place => rfl
    | name home word =>
      simp only [put, cell?, getLocal?_modifyNames]
      split
      · rename_i same
        subst same
        have unlike : word ≠ name := fun same => differs (same ▸ rfl)
        simp only [Frame.lookup_write, if_neg unlike]
        rfl
      · rfl
  | item row place =>
    cases other with
    | name home word => rfl
    | item line position =>
      simp only [put, cell?, setItem, Heap.row, Array.getElem?_modify]
      split
      · rename_i same
        subst same
        have unlike : place ≠ position := fun same => differs (same ▸ rfl)
        cases heap.rows[row]? with
        | none => rfl
        | some values => simp [Array.getElem?_setIfInBounds_ne unlike]
      · rfl

/-- What a change of one item does not change is the same for all items. -/
theorem map_modify_of_eq {α β : Type} {f : α → β} {change : α → α}
    (keeps : ∀ item, f (change item) = f item) (items : Array α) (index : Nat) :
    (items.modify index change).map f = items.map f := by
  refine Array.ext_getElem? fun other => ?_
  rw [Array.getElem?_map, Array.getElem?_map, Array.getElem?_modify]
  split
  · rw [Option.map_map]
    exact congrArg (fun g => Option.map g items[other]?) (funext keeps)
  · rfl

theorem outline_put (heap : Heap) (value : Value) (cell : Cell) :
    (heap.put value cell).frames.map Frame.outline = heap.frames.map Frame.outline := by
  cases cell with
  | item row place => rfl
  | name frame name =>
    rw [put, modifyNames, map_modify_of_eq]
    intro stored
    rw [Frame.outline, Frame.outline, Frame.attributes_write]

theorem sizes_put (heap : Heap) (value : Value) (cell : Cell) :
    (heap.put value cell).rows.map Array.size = heap.rows.map Array.size := by
  cases cell with
  | name frame name => rfl
  | item row place =>
    rw [put, setItem, map_modify_of_eq]
    intro values
    exact Array.size_setIfInBounds ..

theorem overwrites_put {cell : Cell} (held : (heap.cell? cell).isSome = true) (value : Value) :
    heap.Overwrites (heap.put value cell) cell value where
  held := held
  holds := cell?_put_self held
  others := fun _ => cell?_put_other
  frames := heap.outline_put value cell
  rows := heap.sizes_put value cell
  nextId := by cases cell <;> rfl

/-! ## Chains of frames without their values -/

section Outlines

variable (same : later.frames.map Frame.outline = heap.frames.map Frame.outline)

include same

theorem frame_of_outlines (index : FrameId) :
    later.frames[index]? = none ∧ heap.frames[index]? = none ∨
      ∃ image frame, later.frames[index]? = some image ∧ heap.frames[index]? = some frame ∧
        image.outline = frame.outline := by
  have there : later.frames[index]?.map Frame.outline = heap.frames[index]?.map Frame.outline := by
    rw [← Array.getElem?_map, ← Array.getElem?_map, same]
  cases present : heap.frames[index]? with
  | none =>
    rw [present, Option.map_none, Option.map_eq_none_iff] at there
    exact .inl ⟨there, rfl⟩
  | some frame =>
    rw [present] at there
    obtain ⟨image, found, outlines⟩ := Option.map_eq_some_iff.mp there
    exact .inr ⟨image, frame, found, rfl, outlines⟩

theorem chainFrom_of_outlines (fuel : Nat) (index : FrameId) :
    later.chainFrom fuel index = heap.chainFrom fuel index := by
  induction fuel generalizing index with
  | zero => rfl
  | succ fuel ih =>
    rcases frame_of_outlines same index with
      ⟨absent, absentToo⟩ | ⟨image, frame, there, here, outlines⟩
    · simp only [chainFrom, absent, absentToo]
    · have parent : image.parent = frame.parent := congrArg (·.2.1) outlines
      simp only [chainFrom, there, here, parent, ih]

theorem binds_of_outlines (name : String) (decl : Option NodeId) :
    later.binds name decl = heap.binds name decl := by
  funext index
  rcases frame_of_outlines same index with
    ⟨absent, absentToo⟩ | ⟨image, frame, there, here, outlines⟩
  · simp only [binds, absent, absentToo]
  · simp only [binds, there, here, Frame.binds_of_outline outlines]

/-- The frame that a name selects does not depend on what the cells hold. -/
theorem select?_of_outlines (frame : FrameId) (name : String) (decl : Option NodeId) :
    later.select? frame name decl = heap.select? frame name decl := by
  rw [select?, select?, chain, chain, chainFrom_of_outlines same, binds_of_outlines same]

end Outlines

/-! ## Ways to a cell -/

/-- The ways to read a cell. A name of a frame is read by its bare name from any frame where it
selects that frame, and as the attribute of the instance that the frame is. A place of a row is read
as an element through any value of the array, and as a field through any value of the struct. -/
inductive Alias (notes : Annotations) (heap : Heap) : Cell → Eval Value → Prop
  | name {frame home : FrameId} {mark : Mark} {name : String} {decl : Declaration}
      (declared : notes.declOf? mark.id = some decl) (isValue : decl.kind ≠ .method)
      (selects : heap.select? frame name decl.node = some home) :
      Alias notes heap (.name home name) (Eval.symbol notes frame mark name)
  | member {home : FrameId} {mark : Mark} {name : String}
      (isValue : Eval.isMethod notes mark.id = false) :
      Alias notes heap (.name home name) (Eval.readMember notes mark (.box home) name)
  | element {row : RowId} {index : Int64} {span : Span} (positive : 0 ≤ index.toInt) :
      Alias notes heap (.item row index.toInt.toNat)
        (Eval.readElement (.array row) (.int index) span)
  | field {cls : StructClass} {row : RowId} {name : String} {place : Nat} {span : Span}
      (named : cls.fieldIndex? name = some place) :
      Alias notes heap (.item row place) (Eval.readField (.struct cls row) name span)

variable {notes : Annotations} {cell other : Cell} {read : Eval Value}

/-- What is read is what the cell holds. -/
theorem Alias.reads {machine : Machine} (reaches : machine.heap.Alias notes cell read)
    (holds : machine.heap.cell? cell = some value) : read machine = .ok value machine := by
  cases reaches with
  | @name frame home mark name decl declared isValue selects =>
    have plain : Eval.isMethod notes mark.id ≠ true := mt (Eval.isMethod_iff declared).mp isValue
    rw [Eval.symbol, if_neg plain, Eval.read_of_select declared selects]
    rw [cell?] at holds
    rw [holds]
  | @member home mark name isValue =>
    simp only [Eval.readMember, isValue, Bool.false_eq_true, if_false]
    rw [Eval.inspect_bind]
    rw [cell?] at holds
    rw [holds]
    rfl
  | @element row index span positive =>
    obtain ⟨bound, _⟩ := Array.getElem?_eq_some_iff.mp holds
    have inside : 0 ≤ index.toInt ∧ index.toInt < (machine.heap.row row).size := by omega
    refine (Eval.bind_ok rfl).trans ?_
    rw [Eval.inspect_bind, Eval.bind_ok (Eval.expectIndex_of_inside inside)]
    rw [cell?] at holds
    rw [holds]
    rfl
  | @field cls row name place span named =>
    rw [cell?] at holds
    simp only [Eval.readField]
    rw [Eval.inspect_bind, named, Option.bind_some, holds]
    rfl

theorem Alias.of_outlines (reaches : heap.Alias notes cell read)
    (same : later.frames.map Frame.outline = heap.frames.map Frame.outline) :
    later.Alias notes cell read := by
  cases reaches with
  | name declared isValue selects =>
    exact .name declared isValue ((select?_of_outlines same _ _ _).trans selects)
  | member isValue => exact .member isValue
  | element positive => exact .element positive
  | field named => exact .field named

/-- The ways to a cell do not depend on what the cells hold. -/
theorem Overwrites.alias_iff (overwrites : heap.Overwrites later cell value) :
    later.Alias notes other read ↔ heap.Alias notes other read :=
  ⟨fun reaches => reaches.of_outlines overwrites.frames.symm,
    fun reaches => reaches.of_outlines overwrites.frames⟩

end Heap

/-! ## Targets -/

/-- Which cell a target without parentheses means, where its parts have come to values. A name means
what it is bound to in the innermost frame along the chain that binds it for its declaration. -/
inductive Expr.Designates (notes : Annotations) (heap : Heap) (frame : FrameId) :
    Expr → List Value → Heap.Cell → Prop
  | symbol {mark : Mark} {name : String} {decl : Declaration} {home : FrameId}
      (declared : notes.declOf? mark.id = some decl)
      (selects : heap.select? frame name decl.node = some home) :
      Designates notes heap frame (.symbol mark name) [] (.name home name)
  | index {mark : Mark} {array place : Expr} {row : RowId} {index : Int64}
      (inside : 0 ≤ index.toInt ∧ index.toInt < (heap.row row).size) :
      Designates notes heap frame (.index mark array place) [.array row, .int index]
        (.item row index.toInt.toNat)
  | field {mark : Mark} {receiver : Expr} {name : String} {cls : StructClass} {row : RowId}
      {place : Nat} (named : cls.fieldIndex? name = some place) :
      Designates notes heap frame (.field mark receiver name) [.struct cls row] (.item row place)
  | member {mark : Mark} {receiver : Expr} {name : String} {home : FrameId} :
      Designates notes heap frame (.member mark receiver name) [.box home] (.name home name)

/-- Why there is no cell to assign to: the declaration of a variable has not run, an index is out of
bounds, or there is `null` in place of an array, a struct or an instance. -/
inductive Expr.Misses (notes : Annotations) (heap : Heap) (frame : FrameId) :
    Expr → List Value → RuntimeError.Cause → Prop
  | uninitialised {mark : Mark} {name : String} {decl : Declaration} {home : FrameId}
      (declared : notes.declOf? mark.id = some decl)
      (selects : heap.select? frame name decl.node = some home)
      (absent : heap.getLocal? home name = none) :
      Misses notes heap frame (.symbol mark name) [] (.uninitialised name)
  | outOfBounds {mark : Mark} {array place : Expr} {row : RowId} {index : Int64}
      (outside : ¬ (0 ≤ index.toInt ∧ index.toInt < (heap.row row).size)) :
      Misses notes heap frame (.index mark array place) [.array row, .int index]
        (.indexOutOfBounds index (heap.row row).size)
  | nullArray {mark : Mark} {array place : Expr} {index : Value} :
      Misses notes heap frame (.index mark array place) [.null, index]
        (.nullReference .assigningElement)
  | nullStruct {mark : Mark} {receiver : Expr} {name : String} :
      Misses notes heap frame (.field mark receiver name) [.null]
        (.nullReference (.assigningField name))
  | nullBox {mark : Mark} {receiver : Expr} {name : String} :
      Misses notes heap frame (.member mark receiver name) [.null]
        (.nullReference (.assigningMember name))

/-- How an assignment ends for which the parts of the target and the value have been evaluated. The
value is put into the cell that the target means, is read through every way to that cell, and is the
result. Or there is no such cell: that is an error at the target, and the machine is left as it
is. -/
inductive Assigned (notes : Annotations) (frame : FrameId) (target : Expr) (parts : List Value)
    (value : Value) (machine : Machine) : EStateM.Result Halt Machine Value → Prop
  | stored {cell : Heap.Cell} {heap : Heap}
      (designates : target.Designates notes machine.heap frame parts cell)
      (overwrites : machine.heap.Overwrites heap cell value)
      (aliases : ∀ other read, heap.Alias notes other read ↔ machine.heap.Alias notes other read)
      (seen : ∀ read, heap.Alias notes cell read →
        read { machine with heap := heap } = .ok value { machine with heap := heap }) :
      Assigned notes frame target parts value machine (.ok value { machine with heap := heap })
  | refused {cause : RuntimeError.Cause}
      (misses : target.Misses notes machine.heap frame parts cause) :
      Assigned notes frame target parts value machine
        (.error (.failed ⟨cause, target.span⟩) machine)

namespace Assigned

variable {notes : Annotations} {frame : FrameId} {target : Expr} {parts : List Value}
  {value : Value} {machine : Machine}

theorem of_put {cell : Heap.Cell}
    (designates : target.Designates notes machine.heap frame parts cell)
    (held : (machine.heap.cell? cell).isSome = true) :
    Assigned notes frame target parts value machine
      (.ok value { machine with heap := machine.heap.put value cell }) := by
  have overwrites := Heap.overwrites_put held value
  refine .stored designates overwrites (fun _ _ => overwrites.alias_iff) fun read reaches => ?_
  exact Heap.Alias.reads reaches overwrites.holds

end Assigned

/-! ## The last step of an assignment -/

namespace World

variable {known : Analysis} {w : World} {machine : Machine} {frame : FrameId} {mark : Mark}
  {value : Value}

theorem HasShape.assigned_index {component : Ty} {array place : Expr} {owner index : Value}
    (ownerShape : w.HasShape known (.array component) owner)
    (indexShape : w.HasShape known .int index) :
    Assigned known.notes frame (.index mark array place) [owner, index] value machine
      ((Eval.assignElement owner index value mark.span >>= fun _ => pure value) machine) := by
  cases ownerShape with
  | null => exact .refused .nullArray
  | @array _ _ row elements same =>
    obtain ⟨n, rfl⟩ := indexShape.eq_int
    by_cases inside : 0 ≤ n.toInt ∧ n.toInt < (machine.heap.row row).size
    · have assigned : Eval.assignElement (.array row) (.int n) value mark.span machine =
          .ok () { machine with heap := machine.heap.setItem row n.toInt.toNat value } := by
        refine (Eval.bind_ok rfl).trans ?_
        rw [Eval.inspect_bind, Eval.bind_ok (Eval.expectIndex_of_inside inside)]
        rfl
      rw [Eval.bind_ok assigned]
      refine .of_put (.index inside) ?_
      have bound : n.toInt.toNat < (machine.heap.row row).size := by omega
      rw [Heap.cell?, Array.getElem?_eq_getElem bound]
      rfl
    · have refused : Eval.assignElement (.array row) (.int n) value mark.span machine =
          .error (.failed ⟨.indexOutOfBounds n (machine.heap.row row).size, mark.span⟩)
            machine := by
        refine (Eval.bind_ok rfl).trans ?_
        rw [Eval.inspect_bind]
        simp only [Eval.expectIndex, if_neg inside]
        rfl
      rw [Eval.bind_error refused]
      exact .refused (.outOfBounds inside)

theorem Types.assigned_field (types : w.Types known machine.heap) (accepted : known.Accepted)
    {receiver : Expr} {owner : Value} {name : String} {named : NamedType} {id : DeclId}
    {decl : Declaration} {ty : Ty} (shape : w.HasShape known (.struct named) owner)
    (found : known.notes.symbols.lookupMember? named.decl name = some id)
    (present : known.notes.symbols.decls[id]? = some decl)
    (typed : decl.node.bind known.notes.declType? = some ty) :
    Assigned known.notes frame (.field mark receiver name) [owner] value machine
      ((Eval.assignField owner name value mark.span >>= fun _ => pure value) machine) := by
  cases shape with
  | null => exact .refused .nullStruct
  | @struct _ cls row made node fields =>
    rw [← node] at found
    obtain ⟨place, index, fieldType⟩ := made.field accepted found present typed
    have assigned : Eval.assignField (.struct cls row) name value mark.span machine =
        .ok () { machine with heap := machine.heap.setItem row place value } := by
      simp only [Eval.assignField, index]
      rfl
    rw [Eval.bind_ok assigned]
    refine .of_put (.field index) ?_
    have lengths : (cls.fields.map (·.2)).length = (machine.heap.row row).size :=
      List.Forall₂.length_eq (types.row fields)
    have bound : place < (machine.heap.row row).size :=
      lengths ▸ (List.getElem?_eq_some_iff.mp fieldType).1
    rw [Heap.cell?, Array.getElem?_eq_getElem bound]
    rfl

theorem Types.assigned_member (types : w.Types known machine.heap) (accepted : known.Accepted)
    {receiver : Expr} {owner : Value} {name : String} {named : NamedType} {id : DeclId}
    {decl : Declaration} {ty : Ty} (shape : w.HasShape known (.box named) owner)
    (found : known.notes.symbols.lookupMember? named.decl name = some id)
    (present : known.notes.symbols.decls[id]? = some decl) (isAttr : decl.kind = .attr)
    (typed : decl.node.bind known.notes.declType? = some ty) :
    Assigned known.notes frame (.member mark receiver name) [owner] value machine
      ((Eval.assignMember owner name value mark.span >>= fun _ => pure value) machine) := by
  cases shape with
  | null => exact .refused .nullBox
  | @box _ home inner cls instanceOf node =>
    rw [← node] at found
    obtain ⟨stored, _, stands⟩ := types.frame instanceOf
    obtain ⟨member, rfl, _⟩ := Eval.member_cases accepted (stands.made cls rfl) found present
    obtain ⟨old, held, _⟩ :=
      Eval.getLocal?_attribute accepted types instanceOf member isAttr typed
    have assigned : Eval.assignMember (.box home) decl.name value mark.span machine =
        .ok () { machine with
          heap := machine.heap.modifyNames home (Frame.write decl.name value) } := by
      refine (Eval.change_bind _ _).trans ?_
      simp only [Heap.assignLocal, held]
      rfl
    rw [Eval.bind_ok assigned]
    refine .of_put .member ?_
    rw [Heap.cell?, held]
    rfl

end World

/-! ## Assignments -/

namespace World

variable {known : Analysis} {w : World} {machine middle after : Machine} {frame : FrameId}
  {scope : ScopeId} {mark place : Mark} {e : Expr} {ty valueType : Ty} {less : Nat}
  {parts : List Value} {given : Value}

/-- What the evaluation of an expression gives has the shape of its type. -/
theorem Types.yields (types : w.Types known machine.heap) (accepted : known.Accepted)
    (home : w.scope? frame = some scope) (walked : known.Walked scope e)
    (typed : known.notes.typeOf? e.id = some ty)
    (ran : evaluate known.notes less (.expr frame e) machine = .ok given after) :
    ∃ later, w ≤ later ∧ later.Types known after.heap ∧ later.HasShape known ty given := by
  have ends := evaluate_sound accepted less (.expr home walked) machine types
  rw [ran] at ends
  obtain ⟨later, grown, typesLater, found, foundTyped, shape⟩ := ends
  rw [typed] at foundTyped
  cases foundTyped
  exact ⟨later, grown, typesLater, shape⟩

section Forms

variable (types : w.Types known machine.heap) (accepted : known.Accepted)
  (home : w.scope? frame = some scope) (typed : known.notes.typeOf? mark.id = some ty)
  (ran : evaluate known.notes less (.expr frame e) middle = .ok given after)

include types accepted home typed ran

theorem Types.assigned_of_index {array index : Expr}
    (targetWalked : known.Walked scope (.index place array index))
    (parted : ((Expr.index place array index).parts.mapM fun part =>
      evaluate known.notes less (.expr frame part)) machine = .ok parts middle) :
    Assigned known.notes frame (.index place array index) parts (given.coerce (some ty)) after
      (evaluate known.notes (less + 1) (.assign frame mark (.index place array index) e)
        machine) := by
  obtain ⟨owner, between, more, ownerRan, others, rfl⟩ := Eval.mapM_cons_ok parted
  obtain ⟨position, last, none, positionRan, ended, rfl⟩ := Eval.mapM_cons_ok others
  cases ended
  obtain ⟨expectation, step⟩ := targetWalked.step
  obtain ⟨component, placeType, arrayTyped, indexTyped, isInt, _⟩ :=
    Rule.index_holds_iff.mp (accepted.rule step rfl)
  cases Ty.eq_int_of_same isInt
  obtain ⟨later, grown, typesLater, ownerShape⟩ := types.yields accepted home
    (targetWalked.part List.mem_cons_self) arrayTyped ownerRan
  obtain ⟨final, further, typesFinal, indexShape⟩ := typesLater.yields accepted
    (scope?_mono grown home) (targetWalked.part (List.mem_cons_of_mem _ List.mem_cons_self))
    indexTyped positionRan
  have steps : evaluate known.notes (less + 1) (.assign frame mark (.index place array index) e)
      machine = (Eval.assignElement owner position (given.coerce (some ty)) place.span >>=
        fun _ => pure (given.coerce (some ty))) after := by
    rw [← typed]
    refine (Eval.bind_ok ownerRan).trans ?_
    refine (Eval.bind_ok positionRan).trans ?_
    exact Eval.bind_ok ran
  rw [steps]
  exact (ownerShape.mono further).assigned_index indexShape

theorem Types.assigned_of_field {receiver : Expr} {name : String}
    (walked : known.Walked scope e) (valueTyped : known.notes.typeOf? e.id = some valueType)
    (targetWalked : known.Walked scope (.field place receiver name))
    (assignable : Rule.Assignable known.notes (.field place receiver name))
    (parted : ((Expr.field place receiver name).parts.mapM fun part =>
      evaluate known.notes less (.expr frame part)) machine = .ok parts middle) :
    Assigned known.notes frame (.field place receiver name) parts (given.coerce (some ty)) after
      (evaluate known.notes (less + 1) (.assign frame mark (.field place receiver name) e)
        machine) := by
  obtain ⟨owner, last, none, ownerRan, ended, rfl⟩ := Eval.mapM_cons_ok parted
  cases ended
  obtain ⟨expectation, step⟩ := targetWalked.step
  obtain ⟨receiverType, receiverTyped, noArray⟩ := assignable
  have steps : evaluate known.notes (less + 1) (.assign frame mark (.field place receiver name) e)
      machine = (Eval.assignField owner name (given.coerce (some ty)) place.span >>=
        fun _ => pure (given.coerce (some ty))) after := by
    rw [← typed]
    exact (Eval.bind_ok ownerRan).trans (Eval.bind_ok ran)
  rcases Rule.field_of_holds (accepted.rule step rfl) with
    ⟨named, id, decl, found, sameTyped, looked, present, _, declared, noted⟩ |
    ⟨component, sameTyped, _, _⟩
  · obtain ⟨later, grown, typesLater, shape⟩ := types.yields accepted home
      (targetWalked.part List.mem_cons_self) sameTyped ownerRan
    obtain ⟨final, further, typesFinal, _⟩ :=
      typesLater.yields accepted (scope?_mono grown home) walked valueTyped ran
    rw [steps]
    exact typesFinal.assigned_field accepted (shape.mono further) looked present declared
  · rw [receiverTyped] at sameTyped
    cases sameTyped
    cases noArray

theorem Types.assigned_of_member {receiver : Expr} {name : String}
    (walked : known.Walked scope e) (valueTyped : known.notes.typeOf? e.id = some valueType)
    (targetWalked : known.Walked scope (.member place receiver name))
    (assignable : Rule.Assignable known.notes (.member place receiver name))
    (parted : ((Expr.member place receiver name).parts.mapM fun part =>
      evaluate known.notes less (.expr frame part)) machine = .ok parts middle) :
    Assigned known.notes frame (.member place receiver name) parts (given.coerce (some ty)) after
      (evaluate known.notes (less + 1) (.assign frame mark (.member place receiver name) e)
        machine) := by
  obtain ⟨owner, last, none, ownerRan, ended, rfl⟩ := Eval.mapM_cons_ok parted
  cases ended
  obtain ⟨expectation, step⟩ := targetWalked.step
  obtain ⟨same, sameDeclared, kind⟩ := assignable
  obtain ⟨named, id, decl, found, receiverTyped, looked, present, means, declared, noted⟩ :=
    Rule.member_of_holds (accepted.rule step rfl)
  rw [means] at sameDeclared
  cases sameDeclared
  have steps : evaluate known.notes (less + 1)
      (.assign frame mark (.member place receiver name) e) machine =
        (Eval.assignMember owner name (given.coerce (some ty)) place.span >>=
          fun _ => pure (given.coerce (some ty))) after := by
    rw [← typed]
    exact (Eval.bind_ok ownerRan).trans (Eval.bind_ok ran)
  obtain ⟨later, grown, typesLater, shape⟩ := types.yields accepted home
    (targetWalked.part List.mem_cons_self) receiverTyped ownerRan
  obtain ⟨final, further, typesFinal, _⟩ :=
    typesLater.yields accepted (scope?_mono grown home) walked valueTyped ran
  rw [steps]
  exact typesFinal.assigned_member accepted (shape.mono further) looked present kind declared

end Forms

/-- An assignment to a name. -/
theorem Types.assigned_of_symbol (types : w.Types known machine.heap) (accepted : known.Accepted)
    (home : w.scope? frame = some scope) {target value : Expr} {name : String}
    (walked : known.Walked scope (.assign mark target value))
    (bare : target.bare = .symbol place name) (typed : known.notes.typeOf? mark.id = some ty)
    (ran : evaluate known.notes less (.expr frame value) machine = .ok given after) :
    Assigned known.notes frame (.symbol place name) [] (given.coerce (some ty)) after
      (evaluate known.notes (less + 2) (.expr frame (.assign mark target value)) machine) := by
  obtain ⟨targetWalked, _⟩ := Clause.bare_of_walked accepted (walked.part List.mem_cons_self)
  rw [bare] at targetWalked
  obtain ⟨decl, _, _, declared, _⟩ := accepted.symbol targetWalked
  obtain ⟨_, home, reaches, ended⟩ := types.writes accepted home walked bare declared ran
  rw [ended, typed]
  cases held : after.heap.getLocal? home name with
  | none => exact .refused (.uninitialised declared reaches.selects held)
  | some old => exact .of_put (.symbol declared reaches.selects) (Option.isSome_of_eq_some held)

/-- An assignment of an accepted program, on a heap that conforms to the world. -/
theorem Types.assigned (types : w.Types known machine.heap) (accepted : known.Accepted)
    (home : w.scope? frame = some scope) {target value : Expr}
    (walked : known.Walked scope (.assign mark target value))
    (parted : (target.bare.parts.mapM fun part => evaluate known.notes less (.expr frame part))
      machine = .ok parts middle)
    (ran : evaluate known.notes less (.expr frame value) middle = .ok given after) :
    ∃ ty, known.notes.typeOf? target.id = some ty ∧
      Assigned known.notes frame target.bare parts (given.coerce (some ty)) after
        (evaluate known.notes (less + 2) (.expr frame (.assign mark target value)) machine) := by
  obtain ⟨expectation, step⟩ := walked.step
  obtain ⟨assignable, ty, valueType, targetTyped, valueTyped, _, typed⟩ :=
    Rule.assign_holds_iff.mp (accepted.rule step rfl)
  obtain ⟨targetWalked, _⟩ := Clause.bare_of_walked accepted (walked.part List.mem_cons_self)
  have valueWalked := walked.part (List.mem_cons_of_mem target List.mem_cons_self)
  refine ⟨ty, targetTyped, ?_⟩
  cases bare : target.bare with
  | symbol place name =>
    rw [bare] at parted
    cases parted
    exact types.assigned_of_symbol accepted home walked bare typed ran
  | index place array index =>
    rw [bare] at parted targetWalked
    rw [evaluate_assignment, bare]
    exact types.assigned_of_index accepted home typed ran targetWalked parted
  | field place receiver name =>
    rw [bare] at parted targetWalked assignable
    rw [evaluate_assignment, bare]
    exact types.assigned_of_field accepted home typed ran valueWalked valueTyped targetWalked
      assignable parted
  | member place receiver name =>
    rw [bare] at parted targetWalked assignable
    rw [evaluate_assignment, bare]
    exact types.assigned_of_member accepted home typed ran valueWalked valueTyped targetWalked
      assignable parted
  | _ =>
    rw [bare] at assignable
    exact assignable.elim

end World

/-! ## Runs -/

namespace Program

variable {file : String} {source : List Char} {program : Program} {notes : Annotations} {fuel : Nat}
    {output : Sink}

end Program

end BoxScript
