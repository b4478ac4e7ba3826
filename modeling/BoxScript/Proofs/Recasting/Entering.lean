import BoxScript.Proofs.Recasting.Parts
import BoxScript.Proofs.Running.Entering

/-!
# Frames are entered alike

What statements declare ahead of running is bound under the names that the declarations have in the
tree cast anew, and so are parameters. The declarations of one scope are told apart in both trees,
so the frame that is entered for statements, or for a call, goes with the one that is entered in the
other run.
-/

set_option autoImplicit false

namespace BoxScript

variable {r : Recast}

/-- Binding names one after another that are told apart alike. -/
theorem Recast.Names.bindAll {names image entries : List (String × Binding)}
    (declared : Option NodeId → String → Prop)
    (apart : ∀ {decl other name called}, declared decl name → declared other called →
      (r.bound decl name = r.bound other called ↔ name = called))
    (same : r.Names names image)
    (held : ∀ name binding, names.lookup name = some binding → declared binding.decl name)
    (all : ∀ entry ∈ entries, declared entry.2.decl entry.1) :
    r.Names (Frame.bindAll entries names) (Frame.bindAll (entries.map r.entry) image) := by
  induction entries generalizing names image with
  | nil => exact same
  | cons entry rest ih =>
    obtain ⟨name, binding⟩ := entry
    obtain ⟨here, later⟩ := List.forall_mem_cons.mp all
    refine ih (same.bind fun other old found => apart (held _ _ found) here) ?_ later
    intro other old found
    rw [Frame.lookup_bind] at found
    split at found
    · rename_i is
      cases found
      rw [is]
      exact here
    · exact held _ _ found

/-! ## Members of boxes -/

theorem Member.filterMap_recastAll {α β : Type} {pick : Member → Option α}
    {other : Member → Option β} {change : α → β}
    (attr : ∀ decl, other (.attr (TypedName.recast r decl)) = (pick (.attr decl)).map change)
    (meth : ∀ decl, other (.meth (FunctionDecl.recast r decl)) = (pick (.meth decl)).map change)
    (members : List Member) :
    (Member.recastAll r members).filterMap other = (members.filterMap pick).map change := by
  induction members with
  | nil => rfl
  | cons member rest ih =>
    cases member with
    | attr decl =>
      rw [Member.recastAll, List.filterMap_cons, List.filterMap_cons, attr, ih]
      cases pick (.attr decl) <;> rfl
    | meth decl =>
      rw [Member.recastAll, List.filterMap_cons, List.filterMap_cons, meth, ih]
      cases pick (.meth decl) <;> rfl

theorem BoxDecl.attributes_recast (decl : BoxDecl) :
    (decl.recast r).attributes = decl.attributes.map (TypedName.recast r) := by
  rw [attributes, members_recast]
  exact Member.filterMap_recastAll (fun _ => rfl) (fun _ => rfl) decl.members

theorem BoxDecl.methods_recast (decl : BoxDecl) :
    (decl.recast r).methods = decl.methods.map (FunctionDecl.recast r) := by
  rw [methods, members_recast]
  exact Member.filterMap_recastAll (fun _ => rfl) (fun _ => rfl) decl.members

namespace Rerun

variable {rerun : Rerun} {w : World}

/-! ## Statements -/

/-- Whether a statement declares ahead of running what is called and typed alike in both runs. -/
def Hoists (rerun : Rerun) : Stmt → Prop
  | .function decl => rerun.recast.name decl.mark.id decl.name = decl.name
  | .struct decl => rerun.recast.name decl.mark.id decl.name = decl.name ∧
    ∀ field ∈ decl.fields,
      rerun.image.declType? field.mark.id = rerun.known.notes.declType? field.mark.id
  | .box decl => rerun.recast.name decl.mark.id decl.name = decl.name ∧
    ∀ attr ∈ decl.attributes,
      rerun.image.declType? attr.mark.id = rerun.known.notes.declType? attr.mark.id
  | _ => True

/-! ### What declarations bind -/

theorem entry_function {decl : FunctionDecl} (hoists : rerun.Hoists (.function decl)) (id : Nat)
    (frame : FrameId) :
    rerun.recast.entry (decl.name, ⟨some decl.mark.id, some (.function ⟨id, decl, frame⟩)⟩) =
      ((decl.recast rerun.recast).name, ⟨some (decl.recast rerun.recast).mark.id,
        some (.function ⟨id, decl.recast rerun.recast, frame⟩)⟩) := by
  rw [FunctionDecl.name_recast, FunctionDecl.mark_recast]
  exact Prod.ext hoists rfl

theorem entry_struct {decl : StructDecl} (hoists : rerun.Hoists (.struct decl)) (id : Nat) :
    rerun.recast.entry (decl.name, ⟨some decl.mark.id, some (.type (.struct ⟨id, decl.mark.id,
      decl.name, decl.fields.map
        fun field => (field.name, Eval.declaredType rerun.known.notes field.mark.id)⟩))⟩) =
    (decl.name, ⟨some decl.mark.id, some (.type (.struct ⟨id, decl.mark.id, decl.name,
      (decl.recast rerun.recast).fields.map
        fun field => (field.name, Eval.declaredType rerun.image field.mark.id)⟩))⟩) := by
  have fields : (decl.recast rerun.recast).fields.map
        (fun field => (field.name, Eval.declaredType rerun.image field.mark.id)) =
      decl.fields.map
        (fun field => (field.name, Eval.declaredType rerun.known.notes field.mark.id)) := by
    simp only [StructDecl.recast, List.map_map]
    refine List.map_congr_left fun field member => ?_
    simp only [Function.comp_apply, TypedName.recast, Recast.mark_id, Eval.declaredType,
      hoists.2 field member]
  rw [fields]
  exact Prod.ext hoists.1 rfl

theorem entry_box {decl : BoxDecl} (hoists : rerun.Hoists (.box decl)) (id : Nat)
    (frame : FrameId) :
    rerun.recast.entry (decl.name, ⟨some decl.mark.id, some (.type (.box ⟨id, decl.mark.id,
      decl.name, decl.attributes.map (fun attr =>
        ⟨attr.name, attr.mark.id, Eval.declaredType rerun.known.notes attr.mark.id⟩),
      decl.methods, frame⟩))⟩) =
    ((decl.recast rerun.recast).name, ⟨some (decl.recast rerun.recast).mark.id,
      some (.type (.box ⟨id, (decl.recast rerun.recast).mark.id, (decl.recast rerun.recast).name,
        (decl.recast rerun.recast).attributes.map (fun attr =>
          ⟨attr.name, attr.mark.id, Eval.declaredType rerun.image attr.mark.id⟩),
        (decl.recast rerun.recast).methods, frame⟩))⟩) := by
  have attributes : (decl.recast rerun.recast).attributes.map (fun attr =>
        (⟨attr.name, attr.mark.id, Eval.declaredType rerun.image attr.mark.id⟩ : Attribute)) =
      decl.attributes.map fun attr =>
        ⟨attr.name, attr.mark.id, Eval.declaredType rerun.known.notes attr.mark.id⟩ := by
    rw [BoxDecl.attributes_recast, List.map_map]
    refine List.map_congr_left fun attr member => ?_
    simp only [Function.comp_apply, TypedName.recast, Recast.mark_id, Eval.declaredType,
      hoists.2 attr member]
  rw [attributes, BoxDecl.methods_recast, BoxDecl.name_recast, BoxDecl.mark_recast]
  exact Prod.ext hoists.1 rfl

/-- What the first of some statements binds, if it binds anything, is bound in both runs before the
others are gone through. -/
theorem declareFirst_recast (frame : FrameId) {s : Stmt} (rest : List Stmt)
    (hoists : rerun.Hoists s) {machine image : Machine}
    (ids : image.heap.nextId = machine.heap.nextId) :
    ∃ own id,
      Eval.declareAll rerun.known.notes frame (s :: rest) machine =
        Eval.declareAll rerun.known.notes frame rest (Eval.bound machine frame own id) ∧
      Eval.declareAll rerun.image frame (Stmt.recastAll rerun.recast (s :: rest)) image =
        Eval.declareAll rerun.image frame (Stmt.recastAll rerun.recast rest)
          (Eval.bound image frame (own.map rerun.recast.entry) id) ∧
      ∀ entry ∈ own, Eval.Declares rerun.known.notes frame s entry := by
  cases s with
  | function decl =>
    refine ⟨[(decl.name, ⟨some decl.mark.id, some (.function ⟨_, decl, frame⟩)⟩)],
      machine.heap.nextId + 1, Eval.bind_ok rfl, ?_, by simpa using .function⟩
    rw [List.map_singleton, entry_function hoists, ← ids]
    exact Eval.bind_ok rfl
  | struct decl =>
    refine ⟨[(decl.name, _)], machine.heap.nextId + 1, Eval.bind_ok rfl, ?_,
      by simpa using .struct⟩
    rw [List.map_singleton, entry_struct hoists, ← ids]
    exact Eval.bind_ok rfl
  | box decl =>
    refine ⟨[(decl.name, _)], machine.heap.nextId + 1, Eval.bind_ok rfl, ?_, by simpa using .box⟩
    rw [List.map_singleton, entry_box hoists, ← ids]
    exact Eval.bind_ok rfl
  | var decl =>
    refine ⟨[(decl.name, ⟨some decl.mark.id, none⟩)], machine.heap.nextId, Eval.bind_ok rfl, ?_,
      by simpa using .var⟩
    rw [← ids]
    exact Eval.bind_ok rfl
  | ifElse mark condition thenBody elseBody =>
    refine ⟨[], machine.heap.nextId, by rw [Eval.bound_nil]; rfl, ?_, by simp⟩
    rw [← ids, List.map_nil, Eval.bound_nil]
    cases elseBody <;> rfl
  | _ =>
    refine ⟨[], machine.heap.nextId, by rw [Eval.bound_nil]; rfl, ?_, by simp⟩
    rw [← ids, List.map_nil, Eval.bound_nil]
    rfl

theorem declareAll_recast (frame : FrameId) {body : List Stmt}
    (hoists : ∀ s ∈ body, rerun.Hoists s) {machine image : Machine}
    (ids : image.heap.nextId = machine.heap.nextId) :
    ∃ entries id,
      Eval.declareAll rerun.known.notes frame body machine =
        .ok () (Eval.bound machine frame entries id) ∧
      Eval.declareAll rerun.image frame (Stmt.recastAll rerun.recast body) image =
        .ok () (Eval.bound image frame (entries.map rerun.recast.entry) id) ∧
      ∀ entry ∈ entries, ∃ s ∈ body, Eval.Declares rerun.known.notes frame s entry := by
  induction body generalizing machine image with
  | nil =>
    refine ⟨[], machine.heap.nextId, by rw [Eval.bound_nil]; rfl, ?_, by simp⟩
    rw [← ids, List.map_nil, Eval.bound_nil]
    rfl
  | cons s rest ih =>
    obtain ⟨here, later⟩ := List.forall_mem_cons.mp hoists
    obtain ⟨own, id, ran, ranToo, declares⟩ := declareFirst_recast frame rest here ids
    have idsLater : (Eval.bound image frame (own.map rerun.recast.entry) id).heap.nextId =
        (Eval.bound machine frame own id).heap.nextId := rfl
    obtain ⟨entries, last, ranRest, ranRestToo, declaresRest⟩ := ih later idsLater
    refine ⟨own ++ entries, last, ?_, ?_, ?_⟩
    · rw [ran, ranRest, Eval.bound_bound]
    · rw [ranToo, ranRestToo, Eval.bound_bound, List.map_append]
    · intro entry member
      rcases List.mem_append.mp member with here | later
      · exact ⟨s, List.mem_cons_self, declares entry here⟩
      · obtain ⟨other, otherMember, otherDeclares⟩ := declaresRest entry later
        exact ⟨other, List.mem_cons_of_mem _ otherMember, otherDeclares⟩

/-! ### Frames of statements -/

section Bodies

variable (faithful : rerun.Faithful) {scope inner : ScopeId} {kind : ScopeKind}
  {enclosing : Option FunctionDecl} {body : List Stmt}

include faithful

/-- What statements declare in their scope is called and typed alike. -/
theorem hoists_of_body (walked : Walk.Body rerun.known.steps inner kind scope enclosing body) :
    ∀ s ∈ body, rerun.Hoists s := by
  intro s member
  have positive : 0 < inner :=
    Nat.lt_of_le_of_lt (Nat.zero_le _) (faithful.accepted.ordered.of_openScope walked.opened).1
  obtain ⟨later, inside, owned⟩ :=
    Walk.owned_of_mem positive (Nat.lt_succ_self inner) walked.owned member
  have hoistedHere : ∀ decl, decl ∈ Walk.hoisted inner s →
      decl ∈ Step.contents inner rerun.known.steps := by
    intro decl here
    rw [faithful.accepted.contents_eq walked.opened, walked.declared]
    exact List.mem_append_left _ (List.mem_flatMap.mpr ⟨s, member, here⟩)
  cases s with
  | function decl =>
    exact faithful.bound_of_mem (hoistedHere _ List.mem_cons_self) (by simp) (by simp)
  | struct decl =>
    refine ⟨faithful.bound_of_mem (hoistedHere _ List.mem_cons_self) (by simp) (by simp), ?_⟩
    intro field fieldMember
    rw [Walk.stmt] at owned
    obtain ⟨what, step⟩ := (Walk.structWalked_of_owned owned).annotated field fieldMember
    exact faithful.declType? step
  | box decl =>
    refine ⟨faithful.bound_of_mem (hoistedHere _ List.mem_cons_self) (by simp) (by simp), ?_⟩
    intro attr attrMember
    rw [Walk.stmt] at owned
    obtain ⟨what, step⟩ := (Walk.boxWalked_of_owned inside owned).annotated attr attrMember
    exact faithful.declType? step
  | _ => trivial

/-- Frames with names that are declared in one scope. -/
theorem recasts_entered {entries : List (String × Binding)} {machine image : Machine}
    (opened : .openScope inner kind scope ∈ rerun.known.steps)
    (declared : ∀ entry ∈ entries, ∃ decl ∈ Step.contents inner rerun.known.steps,
      decl.node = entry.2.decl ∧ decl.name = entry.1)
    (machines : machine.Recasts rerun.recast image) (outer : FrameId) (id : Nat) :
    (Eval.entered machine (some outer) entries id).Recasts rerun.recast
      (Eval.entered image (some outer) (entries.map rerun.recast.entry) id) := by
  have names : rerun.recast.Names (Frame.bindAll entries [])
      (Frame.bindAll (entries.map rerun.recast.entry) []) := by
    refine Recast.Names.bindAll (fun node name =>
      ∃ decl ∈ Step.contents inner rerun.known.steps, decl.node = node ∧ decl.name = name) ?_
      .nil (by simp) declared
    rintro _ _ _ _ ⟨decl, member, rfl, rfl⟩ ⟨other, memberToo, rfl, rfl⟩
    rw [faithful.accepted.contents_eq opened] at member memberToo
    exact faithful.apart opened member memberToo
  have frames : Frame.Recasts rerun.recast ⟨Frame.bindAll entries [], some outer, none⟩
      ⟨Frame.bindAll (entries.map rerun.recast.entry) [], some outer, none⟩ :=
    ⟨names, rfl, rfl, by simp⟩
  exact ⟨(machines.heap.newFrame frames).2.withNextId id, machines.output⟩

/-- The frame of statements. -/
theorem steps_enter (outer : FrameId)
    (walked : Walk.Body rerun.known.steps inner kind scope enclosing body) :
    rerun.StepsIn w (Eval.enter rerun.known.notes outer body)
      (Eval.enter rerun.image outer (Stmt.recastAll rerun.recast body))
      fun frame answer => answer = frame := by
  intro machine image types machines
  have ids : { image with heap := (image.heap.newChild outer).2 }.heap.nextId =
      { machine with heap := (machine.heap.newChild outer).2 }.heap.nextId := machines.heap.nextId
  obtain ⟨entries, id, ran, ranToo, declares⟩ := declareAll_recast machine.heap.frames.size
    (hoists_of_body faithful walked) ids
  have stands := World.scope?_of_frames (types.frames_withFrame (inner, none) (some outer))
  have recasts : (Eval.entered machine (some outer) entries id).Recasts rerun.recast
      (Eval.entered image (some outer) (entries.map rerun.recast.entry) id) := by
    refine recasts_entered faithful walked.opened ?_ machines outer id
    intro entry member
    obtain ⟨s, present, declared⟩ := declares entry member
    obtain ⟨decl, declMember, name, _, binds⟩ :=
      World.binds_of_declares faithful.accepted walked stands present declared
    exact ⟨decl, declMember, binds.node.symm, name⟩
  rw [Heap.newChild, Eval.bound_newFrame] at ran
  rw [← machines.heap.count, Heap.newChild, Eval.bound_newFrame] at ranToo
  have left : Eval.enter rerun.known.notes outer body machine =
      .ok machine.heap.frames.size (Eval.entered machine (some outer) entries id) := by
    rw [Eval.enter, Eval.change_bind]
    exact Eval.bind_ok ran
  have right : Eval.enter rerun.image outer (Stmt.recastAll rerun.recast body) image =
      .ok image.heap.frames.size
        (Eval.entered image (some outer) (entries.map rerun.recast.entry) id) := by
    rw [Eval.enter, Eval.change_bind]
    exact Eval.bind_ok ranToo
  rw [left, right]
  exact .ok machines.heap.count recasts

/-! ## Calls -/

/-- The frame of a call. -/
theorem steps_enterCall (outer : FrameId) {decl : FunctionDecl} (arguments : List Value)
    (walked : Walk.FunctionWalked rerun.known.steps scope inner decl) :
    rerun.Steps (Eval.enterCall rerun.known.notes outer decl.parameters arguments)
      (Eval.enterCall rerun.image outer (decl.recast rerun.recast).parameters
        (arguments.map (Value.recast rerun.recast))) fun frame answer => answer = frame := by
  intro machine image machines
  have entries : ((decl.recast rerun.recast).parameters.zip
        (arguments.map (Value.recast rerun.recast))).map (Eval.parameterEntry rerun.image) =
      ((decl.parameters.zip arguments).map (Eval.parameterEntry rerun.known.notes)).map
        rerun.recast.entry := by
    rw [FunctionDecl.parameters_recast, List.zip_map, List.map_map, List.map_map]
    refine List.map_congr_left fun given member => ?_
    obtain ⟨what, step⟩ := walked.annotated given.1 (List.of_mem_zip member).1
    have typed := faithful.declType? step
    simp only [Function.comp_apply, Prod.map_fst, Prod.map_snd, Eval.parameterEntry,
      TypedName.recastParameter, Recast.mark_id, Recast.entry, Recast.bound, Binding.recast,
      Option.map_some, Value.coerce_recast, typed]
  rw [Eval.enterCall_eq, Eval.enterCall_eq, entries, machines.heap.nextId]
  refine .ok machines.heap.count (recasts_entered faithful walked.opened ?_ machines outer _)
  intro entry member
  obtain ⟨given, givenMember, rfl⟩ := List.mem_map.mp member
  refine ⟨Walk.named inner .param given.1, ?_, rfl, rfl⟩
  rw [faithful.accepted.contents_eq walked.opened, walked.declared]
  exact List.mem_map.mpr ⟨_, (List.of_mem_zip givenMember).1, rfl⟩

end Bodies

end Rerun

end BoxScript
