import BoxScript.Solver
import BoxScript.Typing.Annotations
import BoxScript.Typing.Walk

/-!
# Type checking

The steps of the walk over a program are read in three ways. The scopes that open and the names
that are declared make the symbol table (`survey`), what is known at once makes the first facts, and
the rules are then solved (`analyze`).
-/

set_option autoImplicit false

namespace BoxScript

/-- The symbol table that steps make, and the duplicate names among them. -/
structure Survey where
  symbols : SymbolTable
  errors : Array SemanticError

namespace Survey

def start : Survey := ⟨.initial, #[]⟩

/-- Follows a step. A name that its scope has already is reported. -/
def take (survey : Survey) : Step → Survey
  | .openScope _ kind parent =>
    { survey with symbols := (survey.symbols.pushScope kind (some parent)).2 }
  | .declare scope name kind mark visibleFrom =>
    match survey.symbols.declare scope name kind (some mark.id) visibleFrom mark.span with
    | .ok (_, symbols) => { survey with symbols := symbols }
    | .error cause => { survey with errors := survey.errors.push ⟨cause, mark.span⟩ }
  | .setMembers owner scope => { survey with symbols := survey.symbols.setMembers owner scope }
  | .typeExpr _ _ | .expr _ _ _ | .rule _ | .returns _ _ => survey

end Survey

/-- Follows steps from the start on. -/
def survey (steps : List Step) : Survey := steps.foldl Survey.take .start

/-- Resolves every name and checks every type of a program. The errors come in the order of their
positions; of those at one position, duplicate names come first, then the others as they were
found. -/
def analyze (program : Program) : Except (List SemanticError) Annotations :=
  let steps := Walk.program program.body
  let surveyed := survey steps
  let known := FactStore.empty.setAll (steps.flatMap Step.facts)
  let found := Findings.solve surveyed.symbols (steps.flatMap Step.rules) ⟨known, []⟩
  let errors := surveyed.errors.toList ++ found.errors
  if errors.isEmpty then .ok ⟨found.facts, surveyed.symbols⟩
  else .error (errors.mergeSort fun a b => a.span.start.offset ≤ b.span.start.offset)

end BoxScript
