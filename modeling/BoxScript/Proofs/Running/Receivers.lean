import BoxScript.Proofs.Running.Chains

/-!
# Receivers

A name that means a method is bound to the innermost instance along the chain of frames. That
instance is of the innermost box around the name. If the method is a member of that box, it is found
in the class of the instance; if it is one of a box further out, the class has no method of that
name, since the name would have been found to mean that one (`World.Types.receiver`).
-/

set_option autoImplicit false

namespace BoxScript

/-! ## Box scopes -/

namespace SymbolTable

/-- Whether a scope holds the members of a box. -/
def isBox (symbols : SymbolTable) (scope : ScopeId) : Bool :=
  symbols.scopes[scope]?.any (·.kind == .box)

/-- The innermost box scope among those around a scope, itself included. -/
def innermostBox? (symbols : SymbolTable) (scope : ScopeId) : Option ScopeId :=
  (symbols.chain scope).find? symbols.isBox

theorem Reflects.isBox_opened {symbols : SymbolTable} {steps : List Step}
    (reflects : symbols.Reflects steps) {scope around : ScopeId} {kind : ScopeKind}
    (opened : .openScope scope kind around ∈ steps) : symbols.isBox scope = (kind == .box) := by
  obtain ⟨names, order, present⟩ := reflects.opened opened
  simp only [isBox, present, Option.any_some]

theorem Reflects.isBox_builtin {symbols : SymbolTable} {steps : List Step}
    (reflects : symbols.Reflects steps) : symbols.isBox builtinScope = false := by
  obtain ⟨names, order, present⟩ := reflects.builtin
  simp only [isBox, builtinScope, present, Option.any_some]
  rfl

/-- A name of a box scope is always visible. -/
theorem isVisible_box {symbols : SymbolTable} {scope : ScopeId} {id : DeclId} {decl : Declaration}
    (box : symbols.isBox scope = true) (present : symbols.decls[id]? = some decl)
    (position : Nat) : symbols.isVisible scope id position = true := by
  unfold isBox at box
  cases here : symbols.scopes[scope]? with
  | none =>
    rw [here] at box
    cases box
  | some found =>
    rw [here, Option.any_some] at box
    simp only [isVisible, here, present, eq_of_beq box, ScopeKind.isSequential, Bool.not_false,
      Bool.true_or]

end SymbolTable

/-- The first elements of two lists that pass tests which agree. -/
theorem find?_of_forall₂ {α β : Type} {R : α → β → Prop} {p : α → Bool} {q : β → Bool}
    {as : List α} {bs : List β} (all : List.Forall₂ R as bs) (agree : ∀ a b, R a b → p a = q b)
    {b : β} (found : bs.find? q = some b) : ∃ a, as.find? p = some a ∧ R a b := by
  induction all with
  | nil => cases found
  | cons first rest ih =>
    rename_i a c _ _
    rw [List.find?_cons] at found ⊢
    rw [agree a c first]
    split at found
    · cases found
      exact ⟨a, rfl, first⟩
    · exact ih found

namespace World

variable {known : Analysis} {w : World} {heap : Heap}

/-- The frames that stand for box scopes are the instances. -/
theorem Types.isSome_class (types : w.Types known heap) (accepted : known.Accepted)
    {frame : FrameId} {scope : ScopeId} (home : w.scope? frame = some scope) :
    (heap.class? frame).isSome = known.notes.symbols.isBox scope := by
  obtain ⟨shape, found, rfl⟩ := Option.map_eq_some_iff.mp home
  obtain ⟨stored, present, stands⟩ := types.frame found
  simp only [Heap.class?, present, Option.bind_some, stands.instanceOf]
  rcases stands.lies with ⟨_, builtin, plain⟩ | ⟨_, kind, _, _, _, _, opened, same⟩
  · rw [builtin, accepted.reflects.isBox_builtin, plain]
  · rw [accepted.reflects.isBox_opened opened, same]

/-- The receiver is the innermost instance. -/
theorem Types.receiver_of_box (types : w.Types known heap) (accepted : known.Accepted)
    {frame : FrameId} {scope inner : ScopeId} (home : w.scope? frame = some scope)
    (innermost : known.notes.symbols.innermostBox? scope = some inner) :
    ∃ receiver cls, heap.receiver? frame = some receiver ∧
      w.frames[receiver]? = some (inner, some cls) := by
  obtain ⟨receiver, found, stands⟩ := find?_of_forall₂ (types.mirrors accepted home)
    (fun _ _ stands => types.isSome_class accepted stands) innermost
  obtain ⟨⟨_, cls⟩, shaped, rfl⟩ := Option.map_eq_some_iff.mp stands
  have isInstance := List.find?_some found
  obtain ⟨stored, present, conforms⟩ := types.frame shaped
  simp only [Heap.class?, present, Option.bind_some, conforms.instanceOf] at isInstance
  obtain ⟨cls, rfl⟩ := Option.isSome_iff_exists.mp isInstance
  exact ⟨receiver, cls, found, shaped⟩

/-- A method belongs to a box scope. -/
theorem Types.isBox_of_method (types : w.Types known heap) (accepted : known.Accepted)
    {frame : FrameId} {decl : Declaration} (home : w.scope? frame = some decl.scope)
    (member : decl ∈ Step.contents decl.scope known.steps) (method : decl.kind = .method) :
    known.notes.symbols.isBox decl.scope = true := by
  rw [← types.isSome_class accepted home]
  obtain ⟨⟨scope, cls⟩, shaped, same⟩ := Option.map_eq_some_iff.mp home
  obtain ⟨stored, present, conforms⟩ := types.frame shaped
  simp only at same
  subst same
  simp only [Heap.class?, present, Option.bind_some, conforms.instanceOf]
  cases cls with
  | some cls => rfl
  | none => exact absurd method (conforms.plain rfl decl member)

end World

/-! ## Methods of a class -/

namespace BoxClass

variable {known : Analysis} {w : World} {inner : ScopeId} {cls : BoxClass}

/-- A method of a class is a member of its box. -/
theorem Made.mem_contents (made : cls.Made known w inner) {method : FunctionDecl}
    (member : method ∈ cls.methods) :
    Walk.membership inner (.meth method) ∈ Step.contents inner known.steps := by
  obtain ⟨around, decl, walked, _, _, methods, _⟩ := made
  rw [methods] at member
  obtain ⟨found, present, same⟩ := List.mem_filterMap.mp member
  refine List.mem_append_right _ ?_
  rw [walked.declared]
  cases found with
  | attr attr => cases same
  | meth found =>
    cases same
    exact List.mem_map.mpr ⟨_, present, rfl⟩

theorem method?_some {name : String} {method : FunctionDecl}
    (found : cls.method? name = some method) : method ∈ cls.methods ∧ method.name = name := by
  have named := List.find?_some found
  exact ⟨List.mem_reverse.mp (List.mem_of_find?_eq_some found), by simpa using named⟩

/-- A method that is declared in the box is found in its class. -/
theorem Made.method? (made : cls.Made known w inner) (accepted : known.Accepted)
    {decl : Declaration} (member : decl ∈ Step.contents inner known.steps)
    (kind : decl.kind = .method) :
    ∃ method, cls.method? decl.name = some method ∧ method ∈ cls.methods ∧
      decl = Walk.membership inner (.meth method) := by
  have whole := made
  obtain ⟨around, box, walked, _, _, methods, _⟩ := made
  obtain ⟨names, order, present⟩ := accepted.reflects.opened walked.opened
  have declared : decl ∈ Step.declared inner known.steps := by
    rcases Step.mem_contents_cases member with ⟨builtin, _⟩ | declared
    · have inside := (accepted.ordered.of_openScope walked.opened).1
      rw [builtin] at inside
      exact absurd inside (Nat.not_lt_zero _)
    · exact declared
  rw [walked.declared] at declared
  obtain ⟨found, foundMember, rfl⟩ := List.mem_map.mp declared
  cases found with
  | attr attr => cases kind
  | meth method =>
    have inMethods : method ∈ cls.methods := by
      rw [methods]
      exact List.mem_filterMap.mpr ⟨_, foundMember, rfl⟩
    cases looked : cls.method? method.name with
    | none =>
      have absent := List.find?_eq_none.mp looked method (List.mem_reverse.mpr inMethods)
      simp at absent
    | some other =>
      obtain ⟨otherMember, named⟩ := method?_some looked
      have same := accepted.reflects.eq_of_name present member (whole.mem_contents otherMember)
        named.symm
      exact ⟨other, looked, otherMember, same⟩

end BoxClass

namespace World

variable {known : Analysis} {w : World} {heap : Heap}

/-- What the receiver has to do with a name that means a method. -/
theorem Types.receiver (types : w.Types known heap) (accepted : known.Accepted) {frame : FrameId}
    {scope : ScopeId} {name : String} {position : Nat} {decl : Declaration}
    (home : w.scope? frame = some scope) (resolves : known.notes.Resolves scope name position decl)
    (method : decl.kind = .method) :
    ∃ inner receiver cls, known.notes.symbols.innermostBox? scope = some inner ∧
      heap.receiver? frame = some receiver ∧ w.frames[receiver]? = some (inner, some cls) ∧
      heap.class? receiver = some cls ∧
      (inner = decl.scope → ∃ found ∈ cls.methods, cls.method? name = some found ∧
        decl = Walk.membership inner (.meth found)) ∧
      (inner ≠ decl.scope → cls.method? name = none) := by
  obtain ⟨member, rfl, before, after, chain, hidden⟩ := resolves.place accepted
  have inChain : decl.scope ∈ known.notes.symbols.chain scope := by simp [chain]
  obtain ⟨target, _, stands⟩ := (types.mirrors accepted home).frame_of_mem inChain
  have box := types.isBox_of_method accepted stands member method
  obtain ⟨inner, innermost⟩ : ∃ inner, known.notes.symbols.innermostBox? scope = some inner := by
    cases found : known.notes.symbols.innermostBox? scope with
    | some inner => exact ⟨inner, rfl⟩
    | none => exact absurd box (List.find?_eq_none.mp found _ inChain)
  obtain ⟨receiver, cls, received, shaped⟩ := types.receiver_of_box accepted home innermost
  obtain ⟨stored, present, conforms⟩ := types.frame shaped
  have made := conforms.made cls rfl
  refine ⟨inner, receiver, cls, innermost, received, shaped, ?_, ?_, ?_⟩
  · simp only [Heap.class?, present, Option.bind_some, conforms.instanceOf]
  · rintro rfl
    obtain ⟨found, looked, inMethods, same⟩ := made.method? accepted member method
    exact ⟨found, inMethods, looked, same⟩
  · intro other
    -- The innermost box lies inside that of the method, so its names come first.
    have isInner : inner ∈ before := by
      rw [SymbolTable.innermostBox?, chain, List.find?_append] at innermost
      rcases Option.or_eq_some_iff.mp innermost with first | ⟨_, second⟩
      · exact List.mem_of_find?_eq_some first
      · rw [List.find?_cons, box] at second
        cases second
        exact absurd rfl other
    have innerBox : known.notes.symbols.isBox inner = true := List.find?_some innermost
    cases looked : cls.method? decl.name with
    | none => rfl
    | some found =>
      obtain ⟨inMethods, named⟩ := BoxClass.method?_some looked
      obtain ⟨scopeFound, scopePresent⟩ := types.scope_present accepted (scope?_of_frames shaped)
      obtain ⟨id, declared, declPresent⟩ :=
        accepted.reflects.declaredIn_of_mem scopePresent (made.mem_contents inMethods)
      have invisible := hidden inner isInner id (by rw [← named]; exact declared)
      rw [SymbolTable.isVisible_box innerBox declPresent] at invisible
      cases invisible

end World

end BoxScript
