import BoxScript.Proofs.Rules.Confluence

/-!
# The course of solving

The solver attempts a rule as often as there are passes until it is settled. The attempts are listed
with the stores that they are made under (`Findings.course`), and made one after the other they lead
to what the solver settles on (`Findings.replays_course`). All these stores lie between the one that
solving starts from and the one that settling ends with (`Findings.course_within`), so what is known
about the last one tells about each attempt.
-/

set_option autoImplicit false

namespace BoxScript

namespace Findings

variable {symbols : SymbolTable} {rules : List Rule} {found : Findings}

/-- The attempts of a pass, each with the store that it is made under. -/
def passAttempts (symbols : SymbolTable) : List Rule → Findings → List (Rule × FactStore)
  | [], _ => []
  | rule :: rules, found =>
    (rule, found.facts) :: passAttempts symbols rules (found.attempt symbols rule).2

/-- The attempts of passes, at most `fuel` of them, that go on while each settles a rule. -/
def courseWithin (symbols : SymbolTable) : Nat → List Rule → Findings → List (Rule × FactStore)
  | 0, _, _ => []
  | fuel + 1, rules, found =>
    if rules.isEmpty then []
    else
      passAttempts symbols rules found ++
        if (pass symbols rules found).1.length = rules.length then []
        else courseWithin symbols fuel (pass symbols rules found).1 (pass symbols rules found).2

/-- The attempts that the solver makes. -/
def course (symbols : SymbolTable) (rules : List Rule) (found : Findings) :
    List (Rule × FactStore) :=
  courseWithin symbols rules.length rules found

/-- Attempts that lead from some findings to others, each made under the store that the ones before
it have come to. -/
def Replays (symbols : SymbolTable) : Findings → List (Rule × FactStore) → Findings → Prop
  | found, [], after => after = found
  | found, (rule, facts) :: trials, after =>
    facts = found.facts ∧ Replays symbols (found.attempt symbols rule).2 trials after

theorem replays_append {trials more : List (Rule × FactStore)} {middle after : Findings}
    (first : Replays symbols found trials middle) (second : Replays symbols middle more after) :
    Replays symbols found (trials ++ more) after := by
  induction trials generalizing found with
  | nil =>
    cases first
    exact second
  | cons trial trials ih => exact ⟨first.1, ih first.2⟩

theorem replays_passAttempts :
    Replays symbols found (passAttempts symbols rules found) (pass symbols rules found).2 := by
  induction rules generalizing found with
  | nil => rfl
  | cons rule rules ih => exact ⟨rfl, ih⟩

theorem replays_courseWithin (fuel : Nat) : Replays symbols found
    (courseWithin symbols fuel rules found) (settleWithin symbols fuel rules found).2 := by
  induction fuel generalizing rules found with
  | zero => rfl
  | succ fuel ih =>
    rw [courseWithin, settleWithin]
    by_cases noRule : rules.isEmpty
    · rw [if_pos noRule, if_pos noRule]
      rfl
    · rw [if_neg noRule, if_neg noRule]
      dsimp only
      apply replays_append replays_passAttempts
      by_cases idle : (pass symbols rules found).1.length = rules.length
      · rw [if_pos idle, if_pos idle]
        rfl
      · rw [if_neg idle, if_neg idle]
        exact ih

/-- The attempts that the solver makes lead to what it settles on. -/
theorem replays_course (symbols : SymbolTable) (rules : List Rule) (found : Findings) :
    Replays symbols found (course symbols rules found) (settle symbols rules found).2 :=
  replays_courseWithin rules.length

theorem passAttempts_within (pending : Rule.Open symbols rules found.facts) :
    ∀ trial ∈ passAttempts symbols rules found,
      trial.1 ∈ rules ∧ found.facts.Within trial.2 ∧
        trial.2.Within (pass symbols rules found).2.facts := by
  induction rules generalizing found with
  | nil => simp [passAttempts]
  | cons rule rules ih =>
    obtain ⟨_, whole⟩ := pass_advance pending
    intro trial member
    rcases List.mem_cons.mp member with rfl | member
    · exact ⟨List.mem_cons_self, .refl _, whole.within⟩
    · by_cases waits : rule.Waits symbols found.facts
      · simp only [attempt_waits waits] at member
        simp only [pass, attempt_waits waits]
        obtain ⟨here, before, later⟩ := ih pending.tail trial member
        exact ⟨List.mem_cons_of_mem rule here, before, later⟩
      · have settled := Advance.settle pending waits
        obtain ⟨here, before, later⟩ := ih (settled.isOpen pending) trial member
        exact ⟨List.mem_cons_of_mem rule here, settled.within.trans before, later⟩

theorem courseWithin_within {fuel : Nat} (enough : rules.length ≤ fuel)
    (pending : Rule.Open symbols rules found.facts) :
    ∀ trial ∈ courseWithin symbols fuel rules found,
      trial.1 ∈ rules ∧ found.facts.Within trial.2 ∧
        trial.2.Within (settleWithin symbols fuel rules found).2.facts := by
  induction fuel generalizing rules found with
  | zero => simp [courseWithin]
  | succ fuel ih =>
    rw [courseWithin, settleWithin]
    by_cases noRule : rules.isEmpty
    · simp [noRule]
    · rw [if_neg noRule, if_neg noRule]
      dsimp only
      obtain ⟨done, first⟩ := pass_advance pending
      have bound := length_pass_le symbols rules found
      by_cases idle : (pass symbols rules found).1.length = rules.length
      · rw [if_pos idle, if_pos idle, List.append_nil]
        exact passAttempts_within pending
      · rw [if_neg idle, if_neg idle]
        have shorter : (pass symbols rules found).1.length ≤ fuel := by omega
        obtain ⟨_, second, _⟩ := settleWithin_advance shorter (first.isOpen pending)
        intro trial member
        rcases List.mem_append.mp member with earlier | later
        · obtain ⟨here, before, after⟩ := passAttempts_within pending trial earlier
          exact ⟨here, before, after.trans second.within⟩
        · obtain ⟨here, before, after⟩ := ih shorter (first.isOpen pending) trial later
          exact ⟨first.mem_of_left here, first.within.trans before, after⟩

theorem course_within (pending : Rule.Open symbols rules found.facts) :
    ∀ trial ∈ course symbols rules found,
      trial.1 ∈ rules ∧ found.facts.Within trial.2 ∧
        trial.2.Within (settle symbols rules found).2.facts :=
  courseWithin_within (Nat.le_refl _) pending

end Findings

end BoxScript
