import BoxScript.Proofs.Rules.Lockstep
import BoxScript.Proofs.Syntax.Nodes
import BoxScript.Proofs.Typing.Progress

/-!
# What an analysis finds

The analysis of a program finds facts and errors, and accepts the program if there are no errors.
Two analyses whose stores mirror one another say the same of the nodes (`Mirror.Stores.agreeOn`).
-/

set_option autoImplicit false

namespace BoxScript

/-- Whether an analysis says of the nodes of statements what another one says of them. -/
def Annotations.AgreeOn (body : List Stmt) (notes other : Annotations) : Prop :=
  ∀ node ∈ Stmt.nodesOfAll body, other.typeOf? node.id = notes.typeOf? node.id ∧
    other.declType? node.id = notes.declType? node.id ∧
    other.returns? node.id = notes.returns? node.id

namespace Mirror

variable {mirror : Mirror} {key : FactKey}

/-- Slots that mirror one another hold the same type, if they hold one. -/
theorem Slots.typeFact? {notes other : Annotations}
    (slots : mirror.Slots (notes.facts.get? key) (other.facts.get? key)) :
    other.typeFact? key.node key.kind = notes.typeFact? key.node key.kind := by
  unfold Annotations.typeFact? FactStore.known?
  generalize notes.facts.get? _ = value at slots
  generalize other.facts.get? _ = image at slots
  rcases slots with _ | ⟨_ | _ | _⟩ | _ <;> rfl

/-- Slots that mirror one another say the same of whether a statement always returns. -/
theorem Slots.returns? {notes other : Annotations} {node : NodeId}
    (slots : mirror.Slots (notes.facts.get? ⟨node, .returns⟩) (other.facts.get? ⟨node, .returns⟩)) :
    other.returns? node = notes.returns? node := by
  unfold Annotations.returns? FactStore.known?
  generalize notes.facts.get? _ = value at slots
  generalize other.facts.get? _ = image at slots
  rcases slots with _ | ⟨_ | _ | _⟩ | _ <;> rfl

/-- Stores that mirror one another at the nodes of statements say the same of them. -/
theorem Stores.agreeOn {body : List Stmt} {notes other : Annotations}
    (stores : mirror.Stores notes.facts other.facts)
    (reads : ∀ node ∈ Stmt.nodesOfAll body, ∀ kind, mirror.reads ⟨node.id, kind⟩ ⟨node.id, kind⟩) :
    notes.AgreeOn body other := by
  intro node inside
  have slots := fun kind => stores _ _ (reads node inside kind)
  exact ⟨(slots .type).typeFact?, (slots .declType).typeFact?, (slots .returns).returns?⟩

end Mirror

/-- The nodes that the steps of the walk over a program answer for are those of the program. -/
theorem Walk.node_of_program {body : List Stmt} {step : Step} (walked : step ∈ program body)
    {node : NodeId} {role : Role} (used : (node, role) ∈ step.uses) :
    ∃ own ∈ Stmt.nodesOfAll body, own.id = node := by
  have counted : Step.tally node role (hoist 1 body) + Step.tally node role (stmts 1 2 none body) ≤
      (Stmt.idsOfAll body).count node :=
    tally_stmts_le 1 2 1 none body
  have positive : 0 < Step.tally node role (program body) :=
    List.count_pos_iff.mpr (List.mem_flatMap.mpr ⟨step, walked, used⟩)
  rw [program, Step.tally_cons, Step.tally_openScope, Nat.zero_add, Step.tally_append] at positive
  have inside := List.count_pos_iff.mp (Nat.lt_of_lt_of_le positive counted)
  rw [← Stmt.map_id_nodesOfAll] at inside
  exact List.mem_map.mp inside

namespace Program

/-- The symbols that the annotations of an accepted program refer to. -/
theorem symbols_of_analyze {program : Program} {notes : Annotations}
    (analyzed : analyze program = .ok notes) : notes.symbols = program.symbols := by
  obtain ⟨_, _, _, rfl⟩ := analyze_eq_ok_iff.mp analyzed
  rfl

/-- What the analysis of a program finds, with the errors as they are found. -/
def found (program : Program) : Findings :=
  ⟨(Findings.solve program.symbols program.rules program.start).facts,
    (survey program.steps).errors.toList ++
      (Findings.solve program.symbols program.rules program.start).errors⟩

/-- The errors that the analysis of a program gives. -/
def errors (program : Program) : List SemanticError :=
  match analyze program with
  | .ok _ => []
  | .error errors => errors

theorem analyze_eq (program : Program) :
    analyze program = if program.found.errors.isEmpty then
        .ok ⟨program.found.facts, program.symbols⟩
      else .error
        (program.found.errors.mergeSort fun a b => a.span.start.offset ≤ b.span.start.offset) :=
  rfl

theorem facts_of_analyze {program : Program} {notes : Annotations}
    (analyzed : analyze program = .ok notes) : notes.facts = program.found.facts := by
  rw [analyze_eq] at analyzed
  split at analyzed
  · rw [← Except.ok.inj analyzed]
  · cases analyzed

theorem errors_eq (program : Program) :
    program.errors =
      program.found.errors.mergeSort fun a b => a.span.start.offset ≤ b.span.start.offset := by
  rw [errors, analyze_eq]
  by_cases none : program.found.errors.isEmpty = true
  · rw [if_pos none, List.isEmpty_iff.mp none, List.mergeSort_nil]
  · rw [if_neg none]

theorem isOk_iff (program : Program) : (analyze program).isOk = true ↔ program.errors = [] := by
  rw [errors_eq, analyze_eq]
  by_cases none : program.found.errors.isEmpty = true
  · rw [if_pos none, List.isEmpty_iff.mp none, List.mergeSort_nil]
    simp [Except.isOk, Except.toBool]
  · rw [if_neg none, ← List.length_eq_zero_iff, List.length_mergeSort, List.length_eq_zero_iff,
      ← List.isEmpty_iff]
    simp [Except.isOk, Except.toBool, none]

end Program

end BoxScript
