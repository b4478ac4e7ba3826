import BoxScript.Rule

/-!
# Solving rules

Rules are attempted in passes. A pass goes through the rules that are left: those that complete
write their answers, or report their errors and poison what they were to answer, those that read a
poisoned slot only poison, and those that wait stay for the next pass. The passes end when no rule
is left, or when a pass settles none; the rules left then are stuck, and each is reported.

Each pass but the last one leaves fewer rules than it found, so there are no more passes than rules.
-/

set_option autoImplicit false

namespace BoxScript

/-- What solving has come to: the fact store and the errors in the order they were found. -/
structure Findings where
  facts : FactStore
  errors : List SemanticError

namespace Findings

def empty : Findings := ⟨.empty, []⟩

/-- Attempts a rule. The answer tells whether the rule is settled. -/
def attempt (symbols : SymbolTable) (rule : Rule) (found : Findings) : Bool × Findings :=
  match rule.attempt symbols found.facts with
  | .completed writes [] => (true, { found with facts := found.facts.setAll writes })
  | .completed _ errors =>
    (true, ⟨found.facts.poisonAll rule.produces, found.errors ++ errors⟩)
  | .poisoned => (true, { found with facts := found.facts.poisonAll rule.produces })
  | .missing _ => (false, found)

/-- One pass through the rules: the rules that still wait after it, and the findings. -/
def pass (symbols : SymbolTable) : List Rule → Findings → List Rule × Findings
  | [], found => ([], found)
  | rule :: rules, found =>
    let (settled, found) := found.attempt symbols rule
    let (waiting, found) := pass symbols rules found
    (if settled then waiting else rule :: waiting, found)

/-- Reports rules that wait for what never comes, and poisons what they were to answer. -/
def giveUp (rules : List Rule) (found : Findings) : Findings :=
  ⟨found.facts.poisonAll (rules.flatMap (·.produces)),
   found.errors ++ rules.map fun rule => ⟨.unresolved (.stuck rule.what), rule.span⟩⟩

/-- Goes on with passes, at most `fuel` of them, while each settles a rule. -/
def solveWithin (symbols : SymbolTable) : Nat → List Rule → Findings → Findings
  | 0, _, found => found
  | fuel + 1, rules, found =>
    if rules.isEmpty then found
    else
      let (waiting, found) := pass symbols rules found
      if waiting.length = rules.length then found.giveUp waiting
      else solveWithin symbols fuel waiting found

/-- Settles rules until none is left or those left are stuck. -/
def solve (symbols : SymbolTable) (rules : List Rule) (found : Findings) : Findings :=
  found.solveWithin symbols rules.length rules

end Findings

/-- A pass leaves at most the rules it found. -/
theorem Findings.length_pass_le (symbols : SymbolTable) (rules : List Rule) (found : Findings) :
    (Findings.pass symbols rules found).1.length ≤ rules.length := by
  induction rules generalizing found with
  | nil => simp [pass]
  | cons rule rules ih =>
    have rest := ih (found.attempt symbols rule).2
    simp only [pass]
    split
    · simp only [List.length_cons]
      omega
    · simp only [List.length_cons]
      omega

end BoxScript
