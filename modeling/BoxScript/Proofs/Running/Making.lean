import BoxScript.Proofs.Running.Names

/-!
# What is made while a program runs

Slots start with a value of their type, and a new instance has such a value for each attribute of
its box. A frame that is entered for statements has a binding for everything that they declare, and
that of a call one for each parameter. So what is made conforms to a world that has grown by it.
-/

set_option autoImplicit false

namespace BoxScript

open Walk Step

/-- The type of an annotated name. -/
theorem Analysis.Accepted.annotated {known : Analysis} (accepted : known.Accepted)
    {name : TypedName} {what : String} (step : Walk.annotated name what ∈ known.steps) :
    ∃ ty, known.notes.typeOf? name.type.id = some ty ∧
      known.notes.declType? name.mark.id = some ty :=
  Rule.annotated_holds_iff.mp (accepted.holds _ step _ List.mem_cons_self)

/-- A scope that the walk opens is not that of the builtins. -/
theorem Analysis.Accepted.ne_builtin {known : Analysis} (accepted : known.Accepted)
    {scope around : ScopeId} {kind : ScopeKind}
    (opened : .openScope scope kind around ∈ known.steps) : scope ≠ SymbolTable.builtinScope := by
  rintro rfl
  exact absurd (accepted.ordered.of_openScope opened).1 (Nat.not_lt_zero _)

/-- What a scope holds that the walk opens. -/
theorem Analysis.Accepted.contents_eq {known : Analysis} (accepted : known.Accepted)
    {scope around : ScopeId} {kind : ScopeKind}
    (opened : .openScope scope kind around ∈ known.steps) :
    contents scope known.steps = declared scope known.steps := by
  rw [contents, if_neg (accepted.ne_builtin opened), List.nil_append]

namespace World

variable {known : Analysis} {w : World} {heap : Heap}

/-! ## Default values -/

theorem Types.default (types : w.Types known heap) (ty : Ty) :
    ∃ later, w ≤ later ∧ later.Types known (heap.default ty).2 ∧
      later.HasShape known ty (heap.default ty).1 := by
  cases ty with
  | int => exact ⟨w, le_refl w, types, .int⟩
  | float => exact ⟨w, le_refl w, types, .float⟩
  | bool => exact ⟨w, le_refl w, types, .bool⟩
  | string => exact ⟨w, le_refl w, types, .string⟩
  | void => exact ⟨w, le_refl w, types, .null (.inr rfl)⟩
  | array component =>
    have empty : w.Holds known (.elements component) #[] := by simp [Holds]
    obtain ⟨typesLater, shape⟩ := types.newRow empty
    exact ⟨_, le_withRow w _, typesLater, .array shape (Ty.same_refl component)⟩
  | null | type | struct named | box named | function params result =>
    exact ⟨w, le_refl w, types, .null (.inl rfl)⟩

/-- An entry for an attribute with a value of its type. -/
def Initial (known : Analysis) (w : World) (attr : Attribute) (entry : String × Binding) : Prop :=
  ∃ value, entry = (attr.name, ⟨some attr.decl, some value⟩) ∧ w.HasShape known attr.type value

theorem Types.defaults (types : w.Types known heap) (attributes : List Attribute)
    (names : List (String × Binding)) :
    ∃ later entries, w ≤ later ∧ later.Types known (heap.defaults attributes names).2 ∧
      (heap.defaults attributes names).1 = Frame.bindAll entries names ∧
      List.Forall₂ (later.Initial known) attributes entries := by
  induction attributes generalizing w heap names with
  | nil => exact ⟨w, [], le_refl w, types, rfl, .nil⟩
  | cons attr rest ih =>
    obtain ⟨middle, grown, typesMiddle, shape⟩ := types.default attr.type
    obtain ⟨later, entries, further, typesLater, bound, initial⟩ := ih typesMiddle
      (Frame.bind attr.name ⟨some attr.decl, some (heap.default attr.type).1⟩ names)
    exact ⟨later, (attr.name, ⟨some attr.decl, some (heap.default attr.type).1⟩) :: entries,
      le_trans grown further, typesLater, bound, .cons ⟨_, rfl, shape.mono further⟩ initial⟩

/-! ## Instances -/

/-- The attributes of a box are bound in its instances. -/
theorem names_of_initial (accepted : known.Accepted) {inner : ScopeId} {cls : BoxClass}
    (made : cls.Made known w inner) {entries : List (String × Binding)}
    (initial : List.Forall₂ (w.Initial known) cls.attributes entries) :
    w.Names known inner (Frame.bindAll entries []) := by
  obtain ⟨around, decl, walked, _, attributes, _, _⟩ := made
  have contents := (accepted.contents_eq walked.opened).trans walked.declared
  rw [attributes] at initial
  refine names_bindAll ?_ ?_
  · intro entry member
    obtain ⟨attr, attrMember, value, is, shape⟩ := exists_of_forall₂_right initial member
    obtain ⟨name, nameMember, rfl⟩ := List.mem_map.mp attrMember
    obtain ⟨what, step⟩ := walked.annotated name nameMember
    obtain ⟨ty, _, typed⟩ := accepted.annotated step
    obtain ⟨found, present, same⟩ := List.mem_filterMap.mp nameMember
    subst is
    cases found with
    | meth method => cases same
    | attr attr =>
      cases same
      refine ⟨membership inner (.attr name), ?_, rfl, by simp [membership, named], rfl, ?_, by simp⟩
      · rw [contents]
        exact List.mem_map.mpr ⟨_, present, rfl⟩
      · intro stored same
        cases same
        refine ⟨ty, typed, ?_⟩
        simpa only [Eval.declaredType, typed, Option.getD_some] using shape
  · intro declaration member value
    rw [contents] at member
    obtain ⟨found, present, rfl⟩ := List.mem_map.mp member
    cases found with
    | meth method => exact absurd rfl value
    | attr name =>
      have nameMember : name ∈ decl.attributes := List.mem_filterMap.mpr ⟨_, present, rfl⟩
      obtain ⟨entry, entryMember, stored, is, _⟩ :=
        exists_of_forall₂_left initial (List.mem_map.mpr ⟨name, nameMember, rfl⟩)
      subst is
      exact ⟨_, entryMember⟩

theorem Types.newInstance (types : w.Types known heap) (accepted : known.Accepted)
    {inner : ScopeId} {cls : BoxClass} (made : cls.Made known w inner) :
    ∃ later, w ≤ later ∧ later.Types known (heap.newInstance cls).2 ∧
      later.frames[(heap.newInstance cls).1]? = some (inner, some cls) := by
  obtain ⟨middle, entries, grown, typesMiddle, bound, initial⟩ := types.defaults cls.attributes []
  have further := le_withFrame middle (inner, some cls) (some cls.frame)
  have madeLater := made.mono (le_trans grown further)
  obtain ⟨around, decl, walked, _, _, _, home⟩ := made
  have homeMiddle := scope?_mono grown home
  have older := typesMiddle.lt_size homeMiddle
  refine ⟨middle.withFrame (inner, some cls) (some cls.frame), le_trans grown further, ?_,
    typesMiddle.frames_withFrame _ _⟩
  refine typesMiddle.newFrame ⟨rfl, ?_, ?_, by simp, ?_⟩ rfl
  · exact .inr ⟨cls.frame, .box, around, rfl, older, scope?_mono further homeMiddle,
      walked.opened, rfl⟩
  · intro other same
    cases same
    exact madeLater
  · change Names known _ inner (heap.defaults cls.attributes []).1
    rw [bound]
    exact names_of_initial accepted madeLater
      (initial.imp fun _ _ ⟨value, is, shape⟩ => ⟨value, is, shape.mono further⟩)

end World

/-- A new instance has the type of its box. -/
theorem Eval.safe_create {known : Analysis} {w : World} {excuse : Halt → Prop}
    {frame : FrameId} {scope : ScopeId} {mark : Mark} {name : String} (accepted : known.Accepted)
    (home : w.scope? frame = some scope) (walked : known.Walked scope (.create mark name)) :
    Safe known excuse w (create known.notes frame mark name) fun later value =>
      later.Yields known (.create mark name) value := by
  obtain ⟨expectation, step⟩ := walked.step
  obtain ⟨decl, named, resolves, declared, isNamed, typed⟩ :=
    Rule.create_of_holds (accepted.rule step rfl)
  obtain ⟨kind, node⟩ := Declaration.namedType?_box isNamed
  refine safe_bind (safe_typeNamed accepted home resolves declared (.inr kind)) ?_
  intro later value grown fits
  simp only [World.Fits, kind] at fits
  obtain ⟨cls, inner, is, made, same⟩ := fits
  cases is
  rw [node] at same
  have isInstance : Safe known excuse later (change (·.newInstance cls)) fun last frame =>
      last.frames[frame]? = some (inner, some cls) :=
    safe_change fun heap types => types.newInstance accepted made
  refine safe_bind isInstance fun last frame further found => ?_
  exact safe_pure ⟨_, typed, .box found (Option.some.inj same).symm⟩

end BoxScript
