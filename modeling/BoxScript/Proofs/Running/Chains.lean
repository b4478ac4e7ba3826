import BoxScript.Proofs.Running.Conformance
import BoxScript.Proofs.Running.Selection

/-!
# Chains of frames and scopes

In a conforming heap the frames around a frame stand, one by one and in their order, for the scopes
around its own scope (`World.Types.mirrors`). So what a name was found to mean is what the frames
along the chain bind it for: the first frame that binds the name for the declaration stands for the
scope of the declaration (`World.Types.select`).
-/

set_option autoImplicit false

namespace BoxScript

/-! ## Chains of frames -/

namespace Heap

variable {heap : Heap} {index : FrameId} {frame : Frame}

/-- Every frame lies inside an older one. -/
def Nested (heap : Heap) : Prop :=
  ∀ {index : FrameId} {frame : Frame} {parent : FrameId}, heap.frames[index]? = some frame →
    frame.parent = some parent → parent < index

theorem chainFrom_eq (nested : heap.Nested) {fuel more : Nat} (enough : index < fuel)
    (enoughToo : index < more) : heap.chainFrom fuel index = heap.chainFrom more index := by
  induction fuel generalizing index more with
  | zero => exact absurd enough (Nat.not_lt_zero _)
  | succ fuel ih =>
    obtain _ | more := more
    · exact absurd enoughToo (Nat.not_lt_zero _)
    · simp only [chainFrom]
      cases present : heap.frames[index]? with
      | none => rfl
      | some frame =>
        cases around : frame.parent with
        | none => simp only [around]
        | some parent =>
          have older := nested present around
          simp only [around]
          rw [ih (Nat.lt_of_lt_of_le older (Nat.le_of_lt_succ enough))
            (Nat.lt_of_lt_of_le older (Nat.le_of_lt_succ enoughToo))]

/-- The chain of a frame: itself, and that of the frame it lies in. -/
theorem chain_eq (nested : heap.Nested) (present : heap.frames[index]? = some frame) :
    heap.chain index = index :: (frame.parent.map heap.chain).getD [] := by
  simp only [chain, chainFrom, present]
  cases around : frame.parent with
  | none => rfl
  | some parent =>
    have older := nested present around
    simp only [Option.map_some, Option.getD_some, chain]
    rw [chainFrom_eq nested older (Nat.lt_succ_self parent)]

end Heap

namespace World

variable {known : Analysis} {w : World} {heap : Heap}

theorem Types.nested (types : w.Types known heap) : heap.Nested := by
  intro index frame parent present around
  obtain ⟨shape, _, stands⟩ := types.shape present
  rcases stands.lies with ⟨outermost, _⟩ | ⟨outer, _, _, is, older, _⟩
  · rw [around] at outermost
    cases outermost
  · rw [around] at is
    cases is
    exact older

/-- Whether frames stand for scopes, one by one. -/
def Mirrors (w : World) : List FrameId → List ScopeId → Prop :=
  List.Forall₂ fun frame scope => w.scope? frame = some scope

/-- The frames around a frame stand for the scopes around its scope. -/
theorem Types.mirrors (types : w.Types known heap) (accepted : known.Accepted) {frame : FrameId}
    {scope : ScopeId} (home : w.scope? frame = some scope) :
    w.Mirrors (heap.chain frame) (known.notes.symbols.chain scope) := by
  induction frame using Nat.strongRecOn generalizing scope with
  | ind frame ih =>
    obtain ⟨shape, found, rfl⟩ := Option.map_eq_some_iff.mp home
    obtain ⟨stored, present, stands⟩ := types.frame found
    rw [Heap.chain_eq types.nested present]
    rcases stands.lies with
      ⟨outermost, builtin, _⟩ | ⟨outer, kind, around, is, older, outside, opened, _⟩
    · rw [outermost, builtin, accepted.reflects.chain_builtin]
      rw [builtin] at home
      exact .cons home .nil
    · rw [is, accepted.reflects.chain_openScope accepted.ordered opened]
      exact .cons home (ih outer older outside)

/-- A frame along a chain has the place that its scope has in the chain of scopes. -/
theorem Mirrors.place {frames : List FrameId} {scopes : List ScopeId}
    (mirrors : w.Mirrors frames scopes) (distinct : scopes.Nodup) {frame : FrameId}
    {scope : ScopeId} (member : frame ∈ frames) (home : w.scope? frame = some scope) :
    frames[scopes.idxOf scope]? = some frame := by
  obtain ⟨place, bound, rfl⟩ := List.mem_iff_getElem.mp member
  have boundToo : place < scopes.length := mirrors.length_eq ▸ bound
  have same : w.scope? frames[place] = some scopes[place] := mirrors.get bound boundToo
  rw [home] at same
  cases same
  rw [distinct.idxOf_getElem, List.getElem?_eq_getElem bound]

/-- A frame keeps its place among the frames around it. -/
theorem Types.chain_eq {later : World} {after : Heap} (types : w.Types known heap)
    (typesLater : later.Types known after) (grown : w ≤ later) {frame : FrameId} {scope : ScopeId}
    (home : w.scope? frame = some scope) : after.chain frame = heap.chain frame := by
  induction frame using Nat.strongRecOn generalizing scope with
  | ind frame ih =>
    obtain ⟨shape, found, _⟩ := Option.map_eq_some_iff.mp home
    obtain ⟨stored, present, stands⟩ := types.frame found
    obtain ⟨storedLater, presentLater, _⟩ := typesLater.frame (grown.frames found)
    have parent : w.parents[frame]? = some stored.parent := by
      simp [types.parents, present]
    have parentLater : later.parents[frame]? = some storedLater.parent := by
      simp [typesLater.parents, presentLater]
    rw [grown.parents parent] at parentLater
    have same : stored.parent = storedLater.parent := Option.some.inj parentLater
    rw [Heap.chain_eq types.nested present, Heap.chain_eq typesLater.nested presentLater, ← same]
    rcases stands.lies with ⟨outermost, _⟩ | ⟨outer, _, around, is, older, outside, _⟩
    · rw [outermost]
      rfl
    · rw [is, Option.map_some, Option.map_some, ih outer older outside]

theorem Mirrors.frame_of_mem {frames : List FrameId} {scopes : List ScopeId}
    (mirrors : w.Mirrors frames scopes) {scope : ScopeId} (member : scope ∈ scopes) :
    ∃ frame ∈ frames, w.scope? frame = some scope :=
  exists_of_forall₂_right mirrors member

end World

/-! ## The place of a declaration -/

namespace Annotations

variable {known : Analysis} {scope : ScopeId} {name : String} {position : Nat} {decl : Declaration}

/-- Where a declaration is that a name was found to mean: in the first scope along the chain that
has the name, but for scopes whose declaration of it is not visible. -/
theorem Resolves.place (resolves : known.notes.Resolves scope name position decl)
    (accepted : known.Accepted) :
    decl ∈ Step.contents decl.scope known.steps ∧ decl.name = name ∧
      ∃ before after, known.notes.symbols.chain scope = before ++ decl.scope :: after ∧
        ∀ inner ∈ before, ∀ other, known.notes.symbols.declaredIn? inner name = some other →
          known.notes.symbols.isVisible inner other position = false := by
  obtain ⟨id, found, present⟩ := resolves.found
  obtain ⟨before, home, after, chain, declared, _, hidden⟩ := SymbolTable.lookupAlong_eq_ok found
  obtain ⟨meant, member, meantPresent, same⟩ := accepted.reflects.declaredIn declared
  rw [present] at meantPresent
  cases meantPresent
  have scope := Step.scope_of_mem_contents member
  subst scope
  exact ⟨member, same, before, after, chain, hidden⟩

end Annotations

namespace World

variable {known : Analysis} {w : World} {heap : Heap}

/-- The scope of a frame is one of the symbol table. -/
theorem Types.scope_present (types : w.Types known heap) (accepted : known.Accepted)
    {frame : FrameId} {scope : ScopeId} (home : w.scope? frame = some scope) :
    ∃ found, known.notes.symbols.scopes[scope]? = some found := by
  obtain ⟨shape, found, rfl⟩ := Option.map_eq_some_iff.mp home
  obtain ⟨stored, _, stands⟩ := types.frame found
  rcases stands.lies with ⟨_, builtin, _⟩ | ⟨_, _, _, _, _, _, opened, _⟩
  · obtain ⟨names, order, present⟩ := accepted.reflects.builtin
    rw [builtin]
    exact ⟨_, present⟩
  · obtain ⟨names, order, present⟩ := accepted.reflects.opened opened
    exact ⟨_, present⟩

/-- A declaration with the node and name of another one is the same one. -/
theorem eq_of_binding (accepted : known.Accepted) {found : Scope} {decl other : Declaration}
    (present : known.notes.symbols.scopes[decl.scope]? = some found)
    (here : decl ∈ Step.contents decl.scope known.steps) {scope : ScopeId}
    (there : other ∈ Step.contents scope known.steps) (name : other.name = decl.name)
    (node : other.node = decl.node) : other = decl := by
  cases declares : decl.node with
  | some id =>
    rw [declares] at node
    exact SymbolTable.Reflects.eq_of_node accepted.distinct there here (by rw [node]; rfl)
      (node.trans declares.symm)
  | none =>
    have builtin : ∀ {scope : ScopeId} {decl : Declaration},
        decl ∈ Step.contents scope known.steps → decl.node = none → scope = 0 := by
      intro scope decl member nodeless
      rcases Step.mem_contents_cases member with ⟨is, _⟩ | declared
      · exact is
      · have isSome := Step.isSome_node_of_mem_declared declared
        rw [nodeless] at isSome
        cases isSome
    have same : scope = decl.scope :=
      (builtin there (node.trans declares)).trans (builtin here declares).symm
    subst same
    exact accepted.reflects.eq_of_name present there here name

/-- The frame that a resolved name selects stands for the scope of its declaration, and binds the
name for it. -/
theorem Types.select (types : w.Types known heap) (accepted : known.Accepted) {frame : FrameId}
    {scope : ScopeId} {name : String} {position : Nat} {decl : Declaration}
    (home : w.scope? frame = some scope) (resolves : known.notes.Resolves scope name position decl)
    (value : decl.kind ≠ .method) :
    ∃ selected stored binding, heap.select? frame name decl.node = some selected ∧
      w.scope? selected = some decl.scope ∧ heap.frames[selected]? = some stored ∧
      stored.names.lookup name = some binding ∧ w.Binds known decl binding := by
  obtain ⟨member, rfl, before, after, chain, _⟩ := resolves.place accepted
  have mirrors := types.mirrors accepted home
  have inChain : decl.scope ∈ known.notes.symbols.chain scope := by simp [chain]
  obtain ⟨target, reached, stands⟩ := mirrors.frame_of_mem inChain
  obtain ⟨found, present⟩ := types.scope_present accepted stands
  -- The frame for the scope of the declaration binds it.
  obtain ⟨shape, shaped, same⟩ := Option.map_eq_some_iff.mp stands
  obtain ⟨stored, storedPresent, conforms⟩ := types.frame shaped
  have names := conforms.names
  rw [same] at names
  obtain ⟨binding, looked, binds⟩ := names.binding accepted present member value
  have bound : heap.binds decl.name decl.node target = true := by
    simp only [Heap.binds, storedPresent, Frame.binds, looked, binds.node, beq_self_eq_true]
  -- Whichever frame binds it first, it is for this declaration.
  obtain ⟨selected, selects⟩ :
      ∃ selected, heap.select? frame decl.name decl.node = some selected := by
    cases selects : heap.select? frame decl.name decl.node with
    | some selected => exact ⟨selected, rfl⟩
    | none => exact absurd bound (List.find?_eq_none.mp selects target reached)
  have bindsHere := List.find?_some selects
  simp only [Heap.binds] at bindsHere
  split at bindsHere
  · rename_i other otherPresent
    simp only [Frame.binds] at bindsHere
    split at bindsHere
    · rename_i otherBinding otherLooked
      obtain ⟨otherShape, otherShaped, otherConforms⟩ := types.shape otherPresent
      obtain ⟨meant, meantMember, meantName, _, meantBinds⟩ :=
        otherConforms.names.means otherLooked
      have node : meant.node = decl.node := meantBinds.node.symm.trans (eq_of_beq bindsHere)
      have is := eq_of_binding accepted present member meantMember meantName node
      subst is
      refine ⟨selected, other, otherBinding, selects, ?_, otherPresent, otherLooked, meantBinds⟩
      rw [Step.scope_of_mem_contents meantMember]
      exact scope?_of_frames otherShaped
    · cases bindsHere
  · cases bindsHere

end World

end BoxScript
