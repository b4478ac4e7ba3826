import BoxScript.Proofs.Rules.Confluence
import BoxScript.Proofs.Rules.Mirroring

/-!
# Solving in lockstep

Solving goes on for as many passes as settle a rule, and a pass that settles none changes nothing.
So what the solver comes to is told by any number of passes that is large enough
(`Findings.solve_eq_passes`), whichever of them are idle.

If the rules of one analysis mirror those of another one in their order, and ask the same questions,
then each pass leaves rules that mirror one another and findings that go together
(`Findings.pass_mirrors`), and so does the whole of solving (`Findings.solve_mirrors`).
-/

set_option autoImplicit false

namespace BoxScript

namespace Findings

variable {symbols : SymbolTable} {rule : Rule} {rules others : List Rule} {found other : Findings}

/-! ## Numbers of passes -/

/-- Goes through the rules that are left a number of times. -/
def passes (symbols : SymbolTable) : Nat → List Rule → Findings → List Rule × Findings
  | 0, rules, found => (rules, found)
  | more + 1, rules, found =>
    passes symbols more (pass symbols rules found).1 (pass symbols rules found).2

/-- An attempt that does not settle its rule changes nothing. -/
theorem attempt_unsettled (waits : (found.attempt symbols rule).1 = false) :
    (found.attempt symbols rule).2 = found := by
  unfold attempt at waits ⊢
  cases attempted : rule.attempt symbols found.facts with
  | completed writes errors =>
    rw [attempted] at waits
    cases errors <;> cases waits
  | missing key => rfl
  | poisoned =>
    rw [attempted] at waits
    cases waits

/-- A pass that settles no rule changes nothing. -/
theorem pass_of_length (idle : (pass symbols rules found).1.length = rules.length) :
    pass symbols rules found = (rules, found) := by
  induction rules generalizing found with
  | nil => rfl
  | cons rule rules ih =>
    have bound := length_pass_le symbols rules (found.attempt symbols rule).2
    simp only [pass] at idle ⊢
    cases settled : (found.attempt symbols rule).1 with
    | true =>
      rw [settled, if_pos rfl, List.length_cons] at idle
      omega
    | false =>
      have same := attempt_unsettled settled
      simp only [settled, same, Bool.false_eq_true, if_false, List.length_cons,
        Nat.add_right_cancel_iff] at idle ⊢
      rw [ih idle]

theorem passes_of_length (idle : (pass symbols rules found).1.length = rules.length)
    (number : Nat) : passes symbols number rules found = (rules, found) := by
  induction number with
  | zero => rfl
  | succ number ih => rw [passes, pass_of_length idle, ih]

theorem passes_nil (number : Nat) : passes symbols number [] found = ([], found) :=
  passes_of_length rfl number

/-- What is solved within some fuel is told by any number of passes that is large enough. -/
theorem solveWithin_eq_passes {fuel number : Nat} (enough : rules.length ≤ fuel)
    (large : rules.length ≤ number) :
    solveWithin symbols fuel rules found =
      (passes symbols number rules found).2.giveUp (passes symbols number rules found).1 := by
  induction fuel generalizing rules found number with
  | zero =>
    obtain rfl : rules = [] := List.eq_nil_of_length_eq_zero (Nat.le_zero.mp enough)
    rw [passes_nil, giveUp_nil]
    rfl
  | succ fuel ih =>
    rw [solveWithin]
    split
    · rename_i noRule
      obtain rfl : rules = [] := List.isEmpty_iff.mp noRule
      rw [passes_nil, giveUp_nil]
    · rename_i someRule
      dsimp only
      by_cases idle : (pass symbols rules found).1.length = rules.length
      · rw [if_pos idle, passes_of_length idle, pass_of_length idle]
      · rw [if_neg idle]
        have bound := length_pass_le symbols rules found
        obtain _ | number := number
        · exact absurd (Nat.le_zero.mp (Nat.le_trans bound large)) (by omega)
        · exact ih (by omega) (by omega)

theorem solve_eq_passes {number : Nat} (large : rules.length ≤ number) :
    solve symbols rules found =
      (passes symbols number rules found).2.giveUp (passes symbols number rules found).1 :=
  solveWithin_eq_passes (Nat.le_refl _) large

/-! ## Findings that go together -/

/-- Findings whose stores and errors go with each other. -/
structure Mirrors (mirror : Mirror) (found other : Findings) : Prop where
  stores : mirror.Stores found.facts other.facts
  errors : List.Forall₂ mirror.Errors found.errors other.errors

end Findings

/-- A mirror in which each question is mirrored by itself. -/
def Mirror.Same (mirror : Mirror) : Prop :=
  ∀ ⦃key image : FactKey⦄, mirror.reads key image → image = key

namespace Mirror

variable {mirror : Mirror} {facts found : FactStore}

theorem Stores.set (same : mirror.Same) (stores : mirror.Stores facts found) (key : FactKey)
    {value other : FactValue} (goes : mirror.Answers value other) :
    mirror.Stores (facts.set key value) (found.set key other) := by
  intro asked image reads
  cases same reads
  rw [FactStore.get?_set, FactStore.get?_set]
  split
  · exact .known goes
  · exact stores asked asked reads

theorem Stores.setAll (same : mirror.Same) (stores : mirror.Stores facts found)
    {writes others : List (FactKey × FactValue)} (written : mirror.Writes writes others) :
    mirror.Stores (facts.setAll writes) (found.setAll others) := by
  induction written generalizing facts found with
  | nil => exact stores
  | @cons write other _ _ first _ ih =>
    obtain ⟨key, value⟩ := write
    obtain ⟨image, answer⟩ := other
    obtain ⟨rfl, goes⟩ := first
    exact ih (stores.set same image goes)

theorem Stores.poisonAll (same : mirror.Same) (stores : mirror.Stores facts found)
    (keys : List FactKey) : mirror.Stores (facts.poisonAll keys) (found.poisonAll keys) := by
  intro key image reads
  have slots := stores key image reads
  cases same reads
  rw [FactStore.get?_poisonAll, FactStore.get?_poisonAll]
  split
  · generalize facts.get? key = slot at slots
    generalize found.get? key = other at slots
    cases slots with
    | none => exact .poisoned
    | known goes => exact .known goes
    | poisoned => exact .poisoned
  · exact slots

end Mirror

namespace Findings

variable {mirror : Mirror} {rule image : Rule} {rules images : List Rule} {found other : Findings}

theorem attempt_mirrors (same : mirror.Same) (goes : rule.Mirrors mirror image)
    (mirrors : found.Mirrors mirror other) :
    (other.attempt mirror.right image).1 = (found.attempt mirror.left rule).1 ∧
      (found.attempt mirror.left rule).2.Mirrors mirror (other.attempt mirror.right image).2 := by
  have attempts := goes.attempt _ _ mirrors.stores
  unfold attempt
  generalize rule.attempt mirror.left found.facts = attempted at attempts
  generalize image.attempt mirror.right other.facts = tried at attempts
  cases attempts with
  | completed written reported =>
    cases reported with
    | nil => exact ⟨rfl, mirrors.stores.setAll same written, mirrors.errors⟩
    | cons first rest =>
      refine ⟨rfl, ?_, List.rel_append mirrors.errors (.cons first rest)⟩
      rw [goes.produces]
      exact mirrors.stores.poisonAll same rule.produces
  | missing reads => exact ⟨rfl, mirrors⟩
  | poisoned =>
    refine ⟨rfl, ?_, mirrors.errors⟩
    rw [goes.produces]
    exact mirrors.stores.poisonAll same rule.produces

/-- A pass leaves rules that mirror one another, and findings that go together. -/
theorem pass_mirrors (same : mirror.Same)
    (goes : List.Forall₂ (Rule.Mirrors mirror) rules images)
    (mirrors : found.Mirrors mirror other) :
    List.Forall₂ (Rule.Mirrors mirror) (pass mirror.left rules found).1
        (pass mirror.right images other).1 ∧
      (pass mirror.left rules found).2.Mirrors mirror (pass mirror.right images other).2 := by
  induction goes generalizing found other with
  | nil => exact ⟨.nil, mirrors⟩
  | cons first _ ih =>
    obtain ⟨settled, after⟩ := attempt_mirrors same first mirrors
    obtain ⟨waiting, last⟩ := ih after
    simp only [pass, settled]
    refine ⟨?_, last⟩
    split
    · exact waiting
    · exact .cons first waiting

theorem passes_mirrors (same : mirror.Same) (number : Nat)
    (goes : List.Forall₂ (Rule.Mirrors mirror) rules images)
    (mirrors : found.Mirrors mirror other) :
    List.Forall₂ (Rule.Mirrors mirror) (passes mirror.left number rules found).1
        (passes mirror.right number images other).1 ∧
      (passes mirror.left number rules found).2.Mirrors mirror
        (passes mirror.right number images other).2 := by
  induction number generalizing rules images found other with
  | zero => exact ⟨goes, mirrors⟩
  | succ number ih =>
    obtain ⟨waiting, after⟩ := pass_mirrors same goes mirrors
    exact ih waiting after

theorem giveUp_mirrors (same : mirror.Same)
    (goes : List.Forall₂ (Rule.Mirrors mirror) rules images)
    (mirrors : found.Mirrors mirror other) :
    (found.giveUp rules).Mirrors mirror (other.giveUp images) := by
  have produced : images.flatMap (·.produces) = rules.flatMap (·.produces) := by
    clear mirrors
    induction goes with
    | nil => rfl
    | cons first _ ih => rw [List.flatMap_cons, List.flatMap_cons, first.produces, ih]
  constructor
  · simp only [giveUp, produced]
    exact mirrors.stores.poisonAll same _
  · refine List.rel_append mirrors.errors ?_
    rw [List.forall₂_map_left_iff, List.forall₂_map_right_iff]
    exact goes.imp fun _ _ mirrors => mirrors.stuck

/-- Solving rules that mirror one another comes to findings that go together. -/
theorem solve_mirrors (same : mirror.Same)
    (goes : List.Forall₂ (Rule.Mirrors mirror) rules images)
    (mirrors : found.Mirrors mirror other) :
    (solve mirror.left rules found).Mirrors mirror (solve mirror.right images other) := by
  rw [solve_eq_passes (Nat.le_refl rules.length),
    solve_eq_passes (Nat.le_of_eq goes.length_eq.symm)]
  obtain ⟨waiting, after⟩ := passes_mirrors same rules.length goes mirrors
  exact giveUp_mirrors same waiting after

end Findings

end BoxScript
