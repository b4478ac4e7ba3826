import BoxScript.Proofs.Walking.Lookup

/-!
# Tables of programs with duplicate names

A declaration whose name its scope has already is refused, and the table stays as it was. So the
table of any walk reflects the walk without the declarations that were refused
(`reflects_thinned_survey`), and what is known of the tables of walks without duplicate names holds
of all tables.
-/

set_option autoImplicit false

namespace BoxScript

namespace Step

/-- Whether a step declares a name in a scope. -/
def isDeclaration : Step → Bool
  | declare _ _ _ _ _ => true
  | _ => false

/-- Steps of which some declarations are left out. -/
structure Thinned (kept steps : List Step) : Prop where
  sublist : kept.Sublist steps
  others : ∀ step ∈ steps, step.isDeclaration = false → step ∈ kept

theorem Thinned.cons {kept steps : List Step} (thinned : Thinned kept steps) (step : Step) :
    Thinned (step :: kept) (step :: steps) where
  sublist := thinned.sublist.cons_cons step
  others := by
    intro other member plain
    rcases List.mem_cons.mp member with rfl | member
    · exact List.mem_cons_self
    · exact List.mem_cons_of_mem step (thinned.others other member plain)

theorem Thinned.drop {kept steps : List Step} (thinned : Thinned kept steps) {step : Step}
    (declares : step.isDeclaration = true) : Thinned kept (step :: steps) where
  sublist := thinned.sublist.cons step
  others := by
    intro other member plain
    rcases List.mem_cons.mp member with rfl | member
    · rw [declares] at plain
      cases plain
    · exact thinned.others other member plain

theorem Thinned.distinct {kept steps : List Step} (thinned : Thinned kept steps)
    (distinct : Distinct steps) : Distinct kept :=
  List.Nodup.sublist (thinned.sublist.flatMap Step.uses) distinct

theorem Thinned.subset {kept steps : List Step} (thinned : Thinned kept steps) : kept ⊆ steps :=
  thinned.sublist.subset

/-- Leaving out a declaration keeps the order of scopes. -/
theorem Ordered.drop {next : ScopeId} {step : Step} {steps : List Step}
    (ordered : Ordered next (step :: steps)) (declares : step.isDeclaration = true) :
    Ordered next steps := by
  cases step with
  | declare scope name kind mark position => exact ordered.2.2
  | _ => cases declares

end Step

namespace Survey

open SymbolTable

variable {survey : Survey} {before : List Step}

/-- A step is followed, or it is a declaration that is refused. -/
theorem reflects_take_or {step : Step} (reflects : survey.symbols.Reflects before)
    (ordered : Step.Ordered 1 (before ++ [step])) :
    (survey.take step).symbols.Reflects (before ++ [step]) ∨
      step.isDeclaration = true ∧ (survey.take step).symbols = survey.symbols := by
  cases step with
  | declare scope name kind mark position =>
    simp only [Survey.take, declare]
    by_cases taken : (survey.symbols.declaredIn? scope name).isSome = true
    · right
      rw [if_pos taken]
      exact ⟨rfl, rfl⟩
    · left
      rw [if_neg taken]
      exact reflects.declare (by simpa using taken)
  | openScope scope kind parent => exact .inl (reflects_openScope reflects ordered)
  | setMembers owner scope => exact .inl (reflects.keep rfl (fun _ => rfl) rfl)
  | typeExpr _ _ | expr _ _ _ | rule _ | returns _ _ => exact .inl (reflects_plain reflects rfl)

theorem reflects_thinned {steps : List Step} (reflects : survey.symbols.Reflects before)
    (ordered : Step.Ordered 1 (before ++ steps)) :
    ∃ kept, Step.Thinned kept steps ∧ Step.Ordered 1 (before ++ kept) ∧
      (steps.foldl take survey).symbols.Reflects (before ++ kept) := by
  induction steps generalizing survey before with
  | nil => exact ⟨[], ⟨.refl [], by simp⟩, ordered, by rwa [List.append_nil]⟩
  | cons step rest ih =>
    obtain ⟨older, later⟩ := Step.ordered_append.mp ordered
    rw [List.append_cons] at ordered
    rcases reflects_take_or reflects (Step.ordered_append.mp ordered).1 with
      followed | ⟨declares, same⟩
    · obtain ⟨kept, thinned, keptOrdered, keptReflects⟩ := ih followed ordered
      rw [List.append_assoc] at keptOrdered keptReflects
      exact ⟨step :: kept, thinned.cons step, keptOrdered, keptReflects⟩
    · have unchanged : (survey.take step).symbols.Reflects before := by
        rw [same]
        exact reflects
      obtain ⟨kept, thinned, keptOrdered, keptReflects⟩ :=
        ih unchanged (Step.ordered_append.mpr ⟨older, later.drop declares⟩)
      exact ⟨kept, thinned.drop declares, keptOrdered, keptReflects⟩

end Survey

/-- The table of a walk reflects the walk without the declarations that were refused. -/
theorem reflects_thinned_survey (body : List Stmt) :
    ∃ kept, Step.Thinned kept (Walk.program body) ∧ Step.Ordered 1 kept ∧
      (survey (Walk.program body)).symbols.Reflects kept :=
  have ordered : Step.Ordered 1 ([] ++ Walk.program body) := Walk.ordered_program body
  Survey.reflects_thinned SymbolTable.reflects_initial ordered

end BoxScript
