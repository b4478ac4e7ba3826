import BoxScript.Proofs.Rules.Effects
import Mathlib.Data.List.Perm.Basic
import Mathlib.Data.List.Pairwise

/-!
# The order of rules

Rules are independent when no two of them are to answer the same question, none is to answer what is
known beforehand, and each is a script that writes answers to its own questions only. Solving
independent rules comes to the same in every order.

The reason is that the end of a run can be told without its course. Let a store be closed when it
has the effects of all rules that do not wait under it. The slots that a run fills are in every
closed store that has the slots from before (`Advance.least`), because a rule that is settled under
few slots comes to the same under more. When no pass gets any further, the store is closed itself.
So it is the least closed store, and a least one is the only one (`Findings.Settled.same`). The
rules that are left are those that wait under it, and the errors are those of the others.
-/

set_option autoImplicit false

namespace BoxScript

/-! ## Independent rules -/

/-- No two of the rules are to answer the same question. -/
def Rule.Apart (rules : List Rule) : Prop :=
  rules.Pairwise fun rule other => rule.produces.Disjoint other.produces

/-- Scripts that answer their own questions only, each other ones. -/
structure Rule.Separate (symbols : SymbolTable) (rules : List Rule) : Prop where
  scripted : ∀ rule ∈ rules, rule.IsScripted symbols
  answers : ∀ rule ∈ rules, ∀ facts writes errors,
    rule.attempt symbols facts = .completed writes errors →
      ∀ write ∈ writes, write.1 ∈ rule.produces
  apart : Rule.Apart rules

/-- Rules of which none is in the way of another one, or of what is known beforehand. -/
structure Rule.Independent (symbols : SymbolTable) (rules : List Rule)
    (seeds : List (FactKey × FactValue)) : Prop extends Rule.Separate symbols rules where
  unseeded : ∀ rule ∈ rules, ∀ key ∈ rule.produces, key ∉ seeds.map (·.1)

/-- Rules that are still to be settled: their questions have no slots yet. -/
structure Rule.Open (symbols : SymbolTable) (rules : List Rule) (facts : FactStore) : Prop
    extends Rule.Separate symbols rules where
  vacant : ∀ rule ∈ rules, ∀ key ∈ rule.produces, facts.get? key = none

namespace Rule

variable {symbols : SymbolTable} {rule : Rule} {rules others : List Rule} {facts : FactStore}
  {seeds : List (FactKey × FactValue)}

theorem Apart.perm (apart : Apart rules) (permuted : rules.Perm others) : Apart others := by
  apply (permuted.pairwise_iff ?_).mp apart
  intro rule other disjoint
  exact List.disjoint_comm.mp disjoint

theorem Separate.perm (separate : Separate symbols rules) (permuted : rules.Perm others) :
    Separate symbols others where
  scripted := fun rule member => separate.scripted rule (permuted.mem_iff.mpr member)
  answers := fun rule member => separate.answers rule (permuted.mem_iff.mpr member)
  apart := separate.apart.perm permuted

theorem Separate.sublist (separate : Separate symbols rules) (kept : others.Sublist rules) :
    Separate symbols others where
  scripted := fun rule member => separate.scripted rule (kept.subset member)
  answers := fun rule member => separate.answers rule (kept.subset member)
  apart := separate.apart.sublist kept

theorem Independent.perm (independent : Independent symbols rules seeds)
    (permuted : rules.Perm others) : Independent symbols others seeds where
  toSeparate := independent.toSeparate.perm permuted
  unseeded := fun rule member => independent.unseeded rule (permuted.mem_iff.mpr member)

theorem Independent.isOpen (independent : Independent symbols rules seeds) :
    Open symbols rules (FactStore.empty.setAll seeds) where
  toSeparate := independent.toSeparate
  vacant := by
    intro rule member key produced
    rw [FactStore.get?_setAll_of_notMem, FactStore.get?_empty]
    intro seed seeded same
    apply independent.unseeded rule member key produced
    exact List.mem_map.mpr ⟨seed, seeded, same⟩

theorem Open.tail (pending : Open symbols (rule :: rules) facts) : Open symbols rules facts where
  toSeparate := pending.toSeparate.sublist (List.sublist_cons_self rule rules)
  vacant := fun other member => pending.vacant other (List.mem_cons_of_mem rule member)

end Rule

namespace Findings

variable {symbols : SymbolTable} {rule : Rule} {rules left done : List Rule}
  {found after : Findings}

/-! ## One attempt -/

/-- An attempt that does not wait leaves its slots and its errors. -/
theorem attempt_settled (pending : Rule.Open symbols (rule :: rules) found.facts)
    (ends : ¬ rule.Waits symbols found.facts) :
    (found.attempt symbols rule).1 = true ∧
      (found.attempt symbols rule).2.errors =
        found.errors ++ (rule.attempt symbols found.facts).errors ∧
      ∀ key, (found.attempt symbols rule).2.facts.get? key =
        ((rule.attempt symbols found.facts).slot? rule.produces key).or
          (found.facts.get? key) := by
  have vacant := pending.vacant rule List.mem_cons_self
  have poisons : ∀ key, (found.facts.poisonAll rule.produces).get? key =
      (if key ∈ rule.produces then some .poisoned else none).or (found.facts.get? key) := by
    intro key
    rw [FactStore.get?_poisonAll]
    by_cases produced : key ∈ rule.produces
    · simp [produced, vacant key produced]
    · simp [produced]
  unfold Rule.Waits at ends
  unfold attempt
  cases attempted : rule.attempt symbols found.facts with
  | completed writes errors =>
    cases errors with
    | nil =>
      refine ⟨rfl, (List.append_nil found.errors).symm, fun key => ?_⟩
      dsimp only [Attempt.slot?]
      rw [FactStore.get?_setAll]
      cases FactStore.lastWrite? key writes <;> rfl
    | cons error others => exact ⟨rfl, rfl, poisons⟩
  | missing key =>
    rw [attempted] at ends
    exact absurd rfl ends
  | poisoned => exact ⟨rfl, (List.append_nil found.errors).symm, poisons⟩

/-- An attempt that waits leaves everything as it was. -/
theorem attempt_waits (waits : rule.Waits symbols found.facts) :
    found.attempt symbols rule = (false, found) := by
  unfold Rule.Waits at waits
  unfold attempt
  cases attempted : rule.attempt symbols found.facts with
  | missing key => rfl
  | completed writes errors =>
    rw [attempted] at waits
    cases waits
  | poisoned =>
    rw [attempted] at waits
    cases waits

/-- An attempt that does not wait settles the rule. -/
theorem attempt_ends (ends : ¬ rule.Waits symbols found.facts) :
    (found.attempt symbols rule).1 = true := by
  unfold Rule.Waits at ends
  unfold attempt
  cases attempted : rule.attempt symbols found.facts with
  | completed writes errors => cases errors <;> rfl
  | missing key =>
    rw [attempted] at ends
    exact absurd rfl ends
  | poisoned => rfl

/-! ## What attempts come to -/

/-- What attempts have come to that settled some of the rules and left the others. -/
structure Advance (symbols : SymbolTable) (rules : List Rule) (found : Findings)
    (done left : List Rule) (after : Findings) : Prop where
  split : rules.Perm (done ++ left)
  within : found.facts.Within after.facts
  ended : ∀ rule ∈ done, ¬ rule.Waits symbols after.facts ∧ rule.Closed symbols after.facts
  errors : after.errors =
    found.errors ++ done.flatMap fun rule => (rule.attempt symbols after.facts).errors
  frame : ∀ key, (∀ rule ∈ done, key ∉ rule.produces) →
    after.facts.get? key = found.facts.get? key
  least : ∀ bound : FactStore, found.facts.Within bound →
    (∀ rule ∈ rules, rule.Closed symbols bound) → after.facts.Within bound

namespace Advance

theorem refl (symbols : SymbolTable) (rules : List Rule) (found : Findings) :
    Advance symbols rules found [] rules found where
  split := .refl _
  within := .refl _
  ended := by simp
  errors := by simp
  frame := fun _ _ => rfl
  least := fun _ before _ => before

theorem mem_of_done (advance : Advance symbols rules found done left after) {rule : Rule}
    (member : rule ∈ done) : rule ∈ rules :=
  advance.split.mem_iff.mpr (List.mem_append_left left member)

theorem mem_of_left (advance : Advance symbols rules found done left after) {rule : Rule}
    (member : rule ∈ left) : rule ∈ rules :=
  advance.split.mem_iff.mpr (List.mem_append_right done member)

/-- The rules that are left are still to be settled: what the others filled is not theirs. -/
theorem isOpen (advance : Advance symbols rules found done left after)
    (pending : Rule.Open symbols rules found.facts) : Rule.Open symbols left after.facts where
  toSeparate := (pending.toSeparate.perm advance.split).sublist
    (List.sublist_append_right done left)
  vacant := by
    intro rule member key produced
    have apart := pending.apart.perm advance.split
    rw [advance.frame key]
    · exact pending.vacant rule (advance.mem_of_left member) key produced
    · intro other settled answered
      exact (List.pairwise_append.mp apart).2.2 other settled rule member answered produced

/-- Attempts at the rules that were left come after those before. -/
theorem trans {more last : List Rule} {final : Findings}
    (first : Advance symbols rules found done left after)
    (second : Advance symbols left after more last final)
    (pending : Rule.Open symbols rules found.facts) :
    Advance symbols rules found (done ++ more) last final where
  split := by
    rw [List.append_assoc]
    exact first.split.trans (second.split.append_left done)
  within := first.within.trans second.within
  ended := by
    intro rule member
    rcases List.mem_append.mp member with earlier | later
    · obtain ⟨ends, closed⟩ := first.ended rule earlier
      have scripted := pending.scripted rule (first.mem_of_done earlier)
      refine ⟨scripted.not_waits second.within ends, ?_⟩
      intro key slot there
      rw [scripted.attempt_eq second.within ends] at there
      exact second.within key slot (closed key slot there)
    · exact second.ended rule later
  errors := by
    have same : (done.flatMap fun rule => (rule.attempt symbols after.facts).errors) =
        done.flatMap fun rule => (rule.attempt symbols final.facts).errors := by
      apply List.flatMap_congr
      intro rule member
      rw [(pending.scripted rule (first.mem_of_done member)).attempt_eq second.within
        (first.ended rule member).1]
    rw [second.errors, first.errors, same, List.flatMap_append, List.append_assoc]
  frame := by
    intro key outside
    rw [second.frame key fun rule member => outside rule (List.mem_append_right done member)]
    exact first.frame key fun rule member => outside rule (List.mem_append_left more member)
  least := by
    intro bound before closed
    apply second.least bound (first.least bound before closed)
    intro rule member
    exact closed rule (first.mem_of_left member)

/-- A rule that waits is passed by. -/
theorem passBy (advance : Advance symbols rules found done left after) (rule : Rule) :
    Advance symbols (rule :: rules) found done (rule :: left) after where
  split := (advance.split.cons rule).trans List.perm_middle.symm
  within := advance.within
  ended := advance.ended
  errors := advance.errors
  frame := advance.frame
  least := by
    intro bound before closed
    apply advance.least bound before
    intro other member
    exact closed other (List.mem_cons_of_mem rule member)

/-- A rule that does not wait is settled. -/
theorem settle (pending : Rule.Open symbols (rule :: rules) found.facts)
    (ends : ¬ rule.Waits symbols found.facts) :
    Advance symbols (rule :: rules) found [rule] rules (found.attempt symbols rule).2 := by
  obtain ⟨_, errors, slots⟩ := attempt_settled pending ends
  have scripted := pending.scripted rule List.mem_cons_self
  have answered : ∀ key slot,
      (rule.attempt symbols found.facts).slot? rule.produces key = some slot →
        key ∈ rule.produces := by
    intro key slot filled
    exact Attempt.mem_of_slot?
      (fun writes errors => pending.answers rule List.mem_cons_self _ writes errors) filled
  have within : found.facts.Within (found.attempt symbols rule).2.facts := by
    intro key slot here
    rw [slots]
    cases filled : (rule.attempt symbols found.facts).slot? rule.produces key with
    | none => exact here
    | some new =>
      have vacant := pending.vacant rule List.mem_cons_self key (answered key new filled)
      rw [here] at vacant
      cases vacant
  refine ⟨.refl _, within, ?_, ?_, ?_, ?_⟩
  · intro other member
    rw [List.mem_singleton] at member
    subst member
    refine ⟨scripted.not_waits within ends, ?_⟩
    intro key slot filled
    rw [scripted.attempt_eq within ends] at filled
    rw [slots, filled, Option.some_or]
  · rw [errors, List.flatMap_singleton, scripted.attempt_eq within ends]
  · intro key outside
    rw [slots]
    cases filled : (rule.attempt symbols found.facts).slot? rule.produces key with
    | none => rfl
    | some new => exact absurd (answered key new filled) (outside rule List.mem_cons_self)
  · intro bound before closed key slot here
    rw [slots, Option.or_eq_some_iff] at here
    rcases here with filled | ⟨_, old⟩
    · apply closed rule List.mem_cons_self key slot
      rw [scripted.attempt_eq before ends]
      exact filled
    · exact before key slot old

end Advance

/-! ## Passes -/

theorem pass_advance (pending : Rule.Open symbols rules found.facts) :
    ∃ done, Advance symbols rules found done (pass symbols rules found).1
      (pass symbols rules found).2 := by
  induction rules generalizing found with
  | nil => exact ⟨[], .refl symbols [] found⟩
  | cons rule rules ih =>
    by_cases waits : rule.Waits symbols found.facts
    · obtain ⟨done, advance⟩ := ih pending.tail
      simp only [pass, attempt_waits waits]
      exact ⟨done, advance.passBy rule⟩
    · have settled := Advance.settle pending waits
      obtain ⟨done, advance⟩ := ih (settled.isOpen pending)
      simp only [pass, (attempt_settled pending waits).1, if_true]
      exact ⟨rule :: done, settled.trans advance pending⟩

/-- A pass that settles no rule changes nothing, and all rules wait. -/
theorem pass_idle (idle : (pass symbols rules found).1.length = rules.length) :
    pass symbols rules found = (rules, found) ∧ ∀ rule ∈ rules, rule.Waits symbols found.facts := by
  induction rules with
  | nil => exact ⟨rfl, by simp⟩
  | cons rule rules ih =>
    by_cases waits : rule.Waits symbols found.facts
    · simp only [pass, attempt_waits waits] at idle ⊢
      obtain ⟨same, others⟩ := ih (Nat.succ.inj idle)
      rw [same]
      exact ⟨rfl, List.forall_mem_cons.mpr ⟨waits, others⟩⟩
    · simp only [pass, attempt_ends waits, if_true] at idle
      have bound := length_pass_le symbols rules (found.attempt symbols rule).2
      simp only [List.length_cons] at idle
      omega

/-! ## Settling -/

/-- Goes on with passes, at most `fuel` of them, while each settles a rule. The answer are the rules
that are left then, and the findings. -/
def settleWithin (symbols : SymbolTable) : Nat → List Rule → Findings → List Rule × Findings
  | 0, rules, found => (rules, found)
  | fuel + 1, rules, found =>
    if rules.isEmpty then (rules, found)
    else
      let (waiting, found) := pass symbols rules found
      if waiting.length = rules.length then (waiting, found)
      else settleWithin symbols fuel waiting found

/-- What the solver has come to when no pass settles a further rule. -/
def settle (symbols : SymbolTable) (rules : List Rule) (found : Findings) : List Rule × Findings :=
  settleWithin symbols rules.length rules found

theorem giveUp_nil (found : Findings) : found.giveUp [] = found := by
  simp [giveUp, FactStore.poisonAll]

theorem solveWithin_eq {fuel : Nat} (enough : rules.length ≤ fuel) :
    solveWithin symbols fuel rules found =
      (settleWithin symbols fuel rules found).2.giveUp
        (settleWithin symbols fuel rules found).1 := by
  induction fuel generalizing rules found with
  | zero =>
    obtain rfl : rules = [] := List.eq_nil_of_length_eq_zero (Nat.le_zero.mp enough)
    exact (giveUp_nil found).symm
  | succ fuel ih =>
    rw [solveWithin, settleWithin]
    by_cases noRule : rules.isEmpty
    · obtain rfl : rules = [] := List.isEmpty_iff.mp noRule
      exact (giveUp_nil found).symm
    · rw [if_neg noRule, if_neg noRule]
      dsimp only
      by_cases idle : (pass symbols rules found).1.length = rules.length
      · rw [if_pos idle, if_pos idle]
      · rw [if_neg idle, if_neg idle]
        apply ih
        have bound := length_pass_le symbols rules found
        omega

/-- The solver settles what it can, and gives up on what is left. -/
theorem solve_eq (symbols : SymbolTable) (rules : List Rule) (found : Findings) :
    solve symbols rules found =
      (settle symbols rules found).2.giveUp (settle symbols rules found).1 :=
  solveWithin_eq (Nat.le_refl _)

theorem settleWithin_advance {fuel : Nat} (enough : rules.length ≤ fuel)
    (pending : Rule.Open symbols rules found.facts) :
    ∃ done, Advance symbols rules found done (settleWithin symbols fuel rules found).1
        (settleWithin symbols fuel rules found).2 ∧
      ∀ rule ∈ (settleWithin symbols fuel rules found).1,
        rule.Waits symbols (settleWithin symbols fuel rules found).2.facts := by
  induction fuel generalizing rules found with
  | zero =>
    obtain rfl : rules = [] := List.eq_nil_of_length_eq_zero (Nat.le_zero.mp enough)
    exact ⟨[], .refl symbols [] found, by simp [settleWithin]⟩
  | succ fuel ih =>
    rw [settleWithin]
    by_cases noRule : rules.isEmpty
    · obtain rfl : rules = [] := List.isEmpty_iff.mp noRule
      exact ⟨[], .refl symbols [] found, by simp⟩
    · rw [if_neg noRule]
      dsimp only
      by_cases idle : (pass symbols rules found).1.length = rules.length
      · obtain ⟨same, waits⟩ := pass_idle idle
        rw [if_pos idle, same]
        exact ⟨[], .refl symbols rules found, waits⟩
      · rw [if_neg idle]
        obtain ⟨done, first⟩ := pass_advance pending
        have bound := length_pass_le symbols rules found
        obtain ⟨more, second, waits⟩ := ih (by omega) (first.isOpen pending)
        exact ⟨done ++ more, first.trans second pending, waits⟩

/-- What settling comes to: the least closed store, the rules that wait under it, and the errors of
the others. -/
structure Settled (symbols : SymbolTable) (rules : List Rule) (found : Findings)
    (left : List Rule) (after : Findings) : Prop where
  within : found.facts.Within after.facts
  closed : ∀ rule ∈ rules, rule.Closed symbols after.facts
  least : ∀ bound : FactStore, found.facts.Within bound →
    (∀ rule ∈ rules, rule.Closed symbols bound) → after.facts.Within bound
  left : left.Perm (rules.filter fun rule => (rule.attempt symbols after.facts).isWaiting)
  errors : after.errors.Perm
    (found.errors ++ rules.flatMap fun rule => (rule.attempt symbols after.facts).errors)

/-- When none of the rules that are left gets any further, the others have come to the least closed
store. -/
theorem Advance.settled (advance : Advance symbols rules found done left after)
    (waits : ∀ rule ∈ left, rule.Waits symbols after.facts) :
    Settled symbols rules found left after where
  within := advance.within
  closed := by
    intro rule member
    rcases List.mem_append.mp (advance.split.mem_iff.mp member) with ended | remains
    · exact (advance.ended rule ended).2
    · exact Rule.closed_of_waits (waits rule remains)
  least := advance.least
  left := by
    have dropped : (done.filter fun rule => (rule.attempt symbols after.facts).isWaiting) = [] := by
      rw [List.filter_eq_nil_iff]
      intro rule member
      exact (advance.ended rule member).1
    have kept : (left.filter fun rule => (rule.attempt symbols after.facts).isWaiting) = left := by
      rw [List.filter_eq_self]
      exact waits
    have split := advance.split.filter fun rule => (rule.attempt symbols after.facts).isWaiting
    rw [List.filter_append, dropped, kept, List.nil_append] at split
    exact split.symm
  errors := by
    have silent : (left.flatMap fun rule => (rule.attempt symbols after.facts).errors) = [] := by
      rw [List.flatMap_eq_nil_iff]
      intro rule member
      exact Attempt.errors_of_isWaiting (waits rule member)
    have split := advance.split.flatMap_right fun rule => (rule.attempt symbols after.facts).errors
    rw [List.flatMap_append, silent, List.append_nil] at split
    rw [advance.errors]
    exact split.symm.append_left found.errors

theorem settle_settled (pending : Rule.Open symbols rules found.facts) :
    Settled symbols rules found (settle symbols rules found).1 (settle symbols rules found).2 := by
  obtain ⟨done, advance, waits⟩ := settleWithin_advance (Nat.le_refl rules.length) pending
  exact advance.settled waits

/-! ## Other orders -/

/-- There is one least closed store. -/
theorem Settled.same {others last : List Rule} {final : Findings}
    (settled : Settled symbols rules found left after)
    (other : Settled symbols others found last final) (permuted : rules.Perm others) :
    after.facts.Same final.facts := by
  apply FactStore.Within.antisymm
  · apply settled.least _ other.within
    intro rule member
    exact other.closed rule (permuted.mem_iff.mp member)
  · apply other.least _ settled.within
    intro rule member
    exact settled.closed rule (permuted.mem_iff.mpr member)

/-- The rules that are left are the same in every order, and so are the errors. -/
theorem Settled.perm {others last : List Rule} {final : Findings}
    (settled : Settled symbols rules found left after)
    (other : Settled symbols others found last final) (permuted : rules.Perm others)
    (scripted : ∀ rule ∈ rules, rule.IsScripted symbols) :
    left.Perm last ∧ after.errors.Perm final.errors := by
  have same := settled.same other permuted
  constructor
  · have kept : (rules.filter fun rule => (rule.attempt symbols after.facts).isWaiting) =
        rules.filter fun rule => (rule.attempt symbols final.facts).isWaiting := by
      apply List.filter_congr
      intro rule member
      exact Bool.eq_iff_iff.mpr ((scripted rule member).waits_iff same)
    have filtered :=
      permuted.filter fun rule => (rule.attempt symbols final.facts).isWaiting
    exact (settled.left.trans (kept ▸ filtered)).trans other.left.symm
  · have kept : (rules.flatMap fun rule => (rule.attempt symbols after.facts).errors) =
        rules.flatMap fun rule => (rule.attempt symbols final.facts).errors := by
      apply List.flatMap_congr
      intro rule member
      exact (scripted rule member).errors_eq same
    have collected :=
      (permuted.flatMap_right fun rule => (rule.attempt symbols final.facts).errors).append_left
        found.errors
    exact (settled.errors.trans (kept ▸ collected)).trans other.errors.symm

/-- Giving up on the same rules comes to the same. -/
theorem giveUp_perm {last : List Rule} {final : Findings} (same : after.facts.Same final.facts)
    (leftPerm : left.Perm last) (errorsPerm : after.errors.Perm final.errors) :
    (after.giveUp left).facts.Same (final.giveUp last).facts ∧
      (after.giveUp left).errors.Perm (final.giveUp last).errors := by
  constructor
  · intro key
    have produced : key ∈ left.flatMap (·.produces) ↔ key ∈ last.flatMap (·.produces) :=
      (leftPerm.flatMap_right (·.produces)).mem_iff
    simp only [giveUp, FactStore.get?_poisonAll, produced, same key]
  · exact errorsPerm.append (leftPerm.map _)

/-- Solving independent rules comes to the same in every order. -/
theorem solve_perm_same {others : List Rule} {seeds : List (FactKey × FactValue)}
    (independent : Rule.Independent symbols rules seeds) (permuted : rules.Perm others) :
    let start : Findings := ⟨FactStore.empty.setAll seeds, []⟩
    (solve symbols rules start).facts.Same (solve symbols others start).facts ∧
      (solve symbols rules start).errors.Perm (solve symbols others start).errors := by
  intro start
  have settled : Settled symbols rules start _ _ := settle_settled independent.isOpen
  have other : Settled symbols others start _ _ :=
    settle_settled (independent.perm permuted).isOpen
  have same := settled.same other permuted
  obtain ⟨leftPerm, errorsPerm⟩ := settled.perm other permuted independent.scripted
  rw [solve_eq, solve_eq]
  exact giveUp_perm same leftPerm errorsPerm

end Findings

end BoxScript
