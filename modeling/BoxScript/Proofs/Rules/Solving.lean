import BoxScript.Proofs.Rules.Discipline
import BoxScript.Proofs.Rules.Holding
import BoxScript.Solver
import Mathlib.Data.List.Flatten

/-!
# Solving without errors

If each question is answered by at most one rule, and none is answered beforehand that a rule is to
answer, then no answer is ever replaced. So the facts only grow, and a rule that has been settled
holds from then on. When the solver reports no error, all rules have been settled, and all hold
under the facts it ends with (`Findings.solve_sound`).
-/

set_option autoImplicit false

namespace BoxScript

namespace FactStore

/-- Whether the answers of a store are all kept by another one. -/
def Kept (facts later : FactStore) : Prop :=
  ∀ key value, facts.get? key = some (.known value) → later.get? key = some (.known value)

theorem Kept.refl (facts : FactStore) : facts.Kept facts := fun _ _ known => known

theorem Kept.trans {facts later last : FactStore} (first : facts.Kept later)
    (second : later.Kept last) : facts.Kept last :=
  fun key value known => second key value (first key value known)

theorem mem_of_lastWrite? {key : FactKey} {value : FactValue}
    {writes : List (FactKey × FactValue)} (written : lastWrite? key writes = some value) :
    (key, value) ∈ writes := by
  induction writes with
  | nil => cases written
  | cons write rest ih =>
    obtain ⟨other, answer⟩ := write
    simp only [lastWrite?, Option.or_eq_some_iff] at written
    rcases written with later | ⟨_, here⟩
    · exact List.mem_cons_of_mem _ (ih later)
    · split at here
      · rename_i same
        cases here
        rw [same]
        exact List.mem_cons_self
      · cases here

/-- What a store holds after writes that answer only some questions. -/
theorem get?_setAll_of_notMem {facts : FactStore} {writes : List (FactKey × FactValue)}
    {key : FactKey} (absent : ∀ write ∈ writes, write.1 ≠ key) :
    (facts.setAll writes).get? key = facts.get? key := by
  rw [get?_setAll]
  cases written : lastWrite? key writes with
  | none => rfl
  | some value => exact absurd rfl (absent _ (mem_of_lastWrite? written))

theorem has_setAll (facts : FactStore) (writes : List (FactKey × FactValue)) :
    (facts.setAll writes).Has writes := by
  intro key value written
  rw [get?_setAll, written]

theorem Has.kept {facts later : FactStore} {writes : List (FactKey × FactValue)}
    (has : facts.Has writes) (kept : facts.Kept later) : later.Has writes :=
  fun key value written => kept key value (has key value written)

end FactStore

/-! ## Rules to be settled -/

/-- Rules that wait, and a store that none of their questions has a slot in. -/
structure Rule.Pending (symbols : SymbolTable) (rules : List Rule) (facts : FactStore) : Prop where
  regular : ∀ rule ∈ rules, rule.IsRegular symbols
  distinct : (rules.flatMap Rule.produces).Nodup
  vacant : ∀ key ∈ rules.flatMap Rule.produces, facts.get? key = none
  sound : facts.Sound symbols

/-- A rule that holds under every store that keeps the answers of a given one. -/
def Rule.Settled (symbols : SymbolTable) (facts : FactStore) (rule : Rule) : Prop :=
  ∀ later, facts.Kept later → rule.Holds ⟨later, symbols⟩

namespace Rule

variable {symbols : SymbolTable} {rule : Rule} {rules : List Rule} {facts : FactStore}

theorem Settled.kept {later : FactStore} (settled : rule.Settled symbols facts)
    (kept : facts.Kept later) : rule.Settled symbols later :=
  fun last further => settled last (kept.trans further)

theorem IsRegular.obeys (regular : rule.IsRegular symbols) (sound : facts.Sound symbols) :
    Script.Obeys symbols rule.produces (rule.attempt symbols facts) := by
  obtain ⟨script, attempt, disciplined⟩ := regular
  rw [attempt]
  exact Script.attempt_of_disciplined disciplined sound

theorem IsRegular.attempt_mono (regular : rule.IsRegular symbols) {later : FactStore}
    {writes : List (FactKey × FactValue)} {errors : List SemanticError}
    (kept : facts.Kept later) (completed : rule.attempt symbols facts = .completed writes errors) :
    rule.attempt symbols later = .completed writes errors := by
  obtain ⟨script, attempt, _⟩ := regular
  rw [attempt] at completed ⊢
  exact Script.attempt_mono kept completed

theorem Pending.head (pending : Pending symbols (rule :: rules) facts) :
    rule.IsRegular symbols :=
  pending.regular rule List.mem_cons_self

theorem Pending.tail (pending : Pending symbols (rule :: rules) facts) :
    Pending symbols rules facts where
  regular := fun other member => pending.regular other (List.mem_cons_of_mem _ member)
  distinct := by
    have distinct := pending.distinct
    rw [List.flatMap_cons, List.nodup_append] at distinct
    exact distinct.2.1
  vacant := fun key member =>
    pending.vacant key (by rw [List.flatMap_cons]; exact List.mem_append_right _ member)
  sound := pending.sound

/-- Answers of the first rule leave the questions of the others alone. -/
theorem Pending.disjoint (pending : Pending symbols (rule :: rules) facts) {key : FactKey}
    (first : key ∈ rule.produces) : key ∉ rules.flatMap Rule.produces := by
  have distinct := pending.distinct
  rw [List.flatMap_cons, List.nodup_append] at distinct
  exact fun later => distinct.2.2 key first key later rfl

theorem Pending.kept_setAll (pending : Pending symbols (rule :: rules) facts)
    {writes : List (FactKey × FactValue)} (answers : ∀ write ∈ writes, write.1 ∈ rule.produces) :
    facts.Kept (facts.setAll writes) := by
  intro key value known
  rw [FactStore.get?_setAll_of_notMem, known]
  rintro write member rfl
  have absent := pending.vacant write.1
    (by rw [List.flatMap_cons]; exact List.mem_append_left _ (answers write member))
  rw [known] at absent
  cases absent

theorem Pending.after (pending : Pending symbols (rule :: rules) facts)
    {writes : List (FactKey × FactValue)}
    (answers : ∀ write ∈ writes, write.1 ∈ rule.produces ∧ write.2.Answers symbols write.1) :
    Pending symbols rules (facts.setAll writes) where
  regular := pending.tail.regular
  distinct := pending.tail.distinct
  vacant := by
    intro key member
    rw [FactStore.get?_setAll_of_notMem]
    · exact pending.tail.vacant key member
    · rintro write written rfl
      exact pending.disjoint (answers write written).1 member
  sound := by
    intro key slot found
    rw [FactStore.get?_setAll] at found
    split at found
    · rename_i value written
      cases found
      exact ⟨value, rfl, (answers _ (FactStore.mem_of_lastWrite? written)).2⟩
    · exact pending.sound key slot found

end Rule

namespace Findings

variable {symbols : SymbolTable} {rule : Rule} {rules : List Rule} {found : Findings}

/-! ## Attempts and passes -/

/-- An attempt that leaves no error settles its rule, or leaves everything as it was. -/
theorem attempt_sound (pending : Rule.Pending symbols (rule :: rules) found.facts)
    (clean : (found.attempt symbols rule).2.errors = []) :
    found.errors = [] ∧
      (found.attempt symbols rule = (false, found) ∨
        ∃ writes, found.attempt symbols rule = (true, ⟨found.facts.setAll writes, []⟩) ∧
          (∀ write ∈ writes, write.1 ∈ rule.produces ∧ write.2.Answers symbols write.1) ∧
          rule.Settled symbols (found.facts.setAll writes)) := by
  have obeys := pending.head.obeys pending.sound
  unfold attempt at clean ⊢
  cases attempted : rule.attempt symbols found.facts with
  | completed writes errors =>
    rw [attempted] at obeys clean
    cases errors with
    | nil =>
      have kept := pending.kept_setAll fun write member => (obeys write member).1
      refine ⟨clean, .inr ⟨writes, ?_, obeys, ?_⟩⟩
      · obtain ⟨facts, errors⟩ := found
        cases clean
        rfl
      · intro later further
        exact ⟨writes, pending.head.attempt_mono (kept.trans further) attempted,
          (FactStore.has_setAll found.facts writes).kept further⟩
    | cons error others => simp at clean
  | missing key =>
    rw [attempted] at clean
    exact ⟨clean, .inl rfl⟩
  | poisoned =>
    rw [attempted] at obeys
    exact obeys.elim

/-- What a pass that leaves no error has done: the rules that still wait are as before, those that
do not hold, and all answers are kept. -/
structure Passed (symbols : SymbolTable) (rules : List Rule) (found : Findings)
    (waiting : List Rule) (after : Findings) : Prop where
  clean : found.errors = []
  kept : found.facts.Kept after.facts
  pending : Rule.Pending symbols waiting after.facts
  waits : waiting.Sublist rules
  settled : ∀ rule ∈ rules, rule ∈ waiting ∨ rule.Settled symbols after.facts
  frame : ∀ key, key ∉ rules.flatMap Rule.produces → after.facts.get? key = found.facts.get? key

theorem errors_of_attempt (clean : (found.attempt symbols rule).2.errors = []) :
    found.errors = [] := by
  unfold attempt at clean
  cases attempted : rule.attempt symbols found.facts with
  | completed writes errors => cases errors <;> simp_all
  | missing key => simpa [attempted] using clean
  | poisoned => simpa [attempted] using clean

theorem errors_of_pass (clean : (pass symbols rules found).2.errors = []) : found.errors = [] := by
  induction rules generalizing found with
  | nil => exact clean
  | cons rule rules ih => exact errors_of_attempt (ih clean)

/-- A first rule that is not settled waits before those that wait of the others. -/
theorem Passed.wait {waiting : List Rule} {after : Findings}
    (passed : Passed symbols rules found waiting after)
    (pending : Rule.Pending symbols (rule :: rules) found.facts) :
    Passed symbols (rule :: rules) found (rule :: waiting) after where
  clean := passed.clean
  kept := passed.kept
  pending :=
    { regular := by
        intro other member
        rcases List.mem_cons.mp member with rfl | member
        · exact pending.head
        · exact passed.pending.regular other member
      distinct := by
        have fewer := (passed.waits.cons_cons rule).flatMap Rule.produces
        exact pending.distinct.sublist fewer
      vacant := by
        intro key member
        rw [List.flatMap_cons, List.mem_append] at member
        rcases member with first | later
        -- no other rule answers the questions of this one, so the pass leaves them open
        · rw [passed.frame key (pending.disjoint first)]
          exact pending.vacant key (by rw [List.flatMap_cons]; exact List.mem_append_left _ first)
        · exact passed.pending.vacant key later
      sound := passed.pending.sound }
  waits := passed.waits.cons_cons rule
  settled := by
    intro other member
    rcases List.mem_cons.mp member with rfl | member
    · exact .inl List.mem_cons_self
    · exact (passed.settled other member).imp_left (List.mem_cons_of_mem rule)
  frame := by
    intro key absent
    rw [List.flatMap_cons, List.mem_append, not_or] at absent
    exact passed.frame key absent.2

/-- A first rule that is settled stays so, since the answers are kept. -/
theorem Passed.settle {waiting : List Rule} {after : Findings}
    {writes : List (FactKey × FactValue)}
    (passed : Passed symbols rules ⟨found.facts.setAll writes, []⟩ waiting after)
    (pending : Rule.Pending symbols (rule :: rules) found.facts) (clean : found.errors = [])
    (answers : ∀ write ∈ writes, write.1 ∈ rule.produces)
    (settled : rule.Settled symbols (found.facts.setAll writes)) :
    Passed symbols (rule :: rules) found waiting after where
  clean := clean
  kept := (pending.kept_setAll answers).trans passed.kept
  pending := passed.pending
  waits := passed.waits.cons rule
  settled := by
    intro other member
    rcases List.mem_cons.mp member with rfl | member
    · exact .inr (settled.kept passed.kept)
    · exact passed.settled other member
  frame := by
    intro key absent
    rw [List.flatMap_cons, List.mem_append, not_or] at absent
    rw [passed.frame key absent.2]
    apply FactStore.get?_setAll_of_notMem
    rintro write member rfl
    exact absent.1 (answers write member)

theorem pass_sound (pending : Rule.Pending symbols rules found.facts)
    (clean : (pass symbols rules found).2.errors = []) :
    Passed symbols rules found (pass symbols rules found).1 (pass symbols rules found).2 := by
  induction rules generalizing found with
  | nil =>
    exact ⟨clean, .refl _, pending, .refl _, by simp, fun _ _ => rfl⟩
  | cons rule rules ih =>
    obtain ⟨before, same | ⟨writes, attempted, answers, settled⟩⟩ :=
      attempt_sound pending (errors_of_pass clean)
    · simp only [pass, same] at clean ⊢
      exact (ih pending.tail clean).wait pending
    · simp only [pass, attempted] at clean ⊢
      have next : Rule.Pending symbols rules (Findings.mk (found.facts.setAll writes) []).facts :=
        pending.after answers
      exact (ih next clean).settle pending before (fun write member => (answers write member).1)
        settled

/-! ## Solving -/

theorem errors_of_solveWithin {fuel : Nat}
    (clean : (solveWithin symbols fuel rules found).errors = []) : found.errors = [] := by
  induction fuel generalizing rules found with
  | zero => exact clean
  | succ fuel ih =>
    rw [solveWithin] at clean
    split at clean
    · exact clean
    · dsimp only at clean
      split at clean
      · exact errors_of_pass (List.append_eq_nil_iff.mp clean).1
      · exact errors_of_pass (ih clean)

/-- Solving that ends without an error has settled every rule. -/
theorem solveWithin_sound {fuel : Nat} (enough : rules.length ≤ fuel)
    (pending : Rule.Pending symbols rules found.facts)
    (clean : (solveWithin symbols fuel rules found).errors = []) :
    found.facts.Kept (solveWithin symbols fuel rules found).facts ∧
      ∀ rule ∈ rules, rule.Settled symbols (solveWithin symbols fuel rules found).facts := by
  induction fuel generalizing rules found with
  | zero =>
    obtain rfl : rules = [] := List.eq_nil_of_length_eq_zero (Nat.le_zero.mp enough)
    exact ⟨.refl _, by simp⟩
  | succ fuel ih =>
    rw [solveWithin] at clean ⊢
    split at clean
    · rename_i noRule
      obtain rfl : rules = [] := List.isEmpty_iff.mp noRule
      exact ⟨.refl _, by simp⟩
    · rename_i someRule
      rw [if_neg someRule]
      dsimp only at clean ⊢
      split at clean
      · rename_i stuck
        have left : (pass symbols rules found).1 ≠ [] := by
          intro empty
          rw [empty] at stuck
          exact someRule (List.isEmpty_iff.mpr (List.eq_nil_of_length_eq_zero stuck.symm))
        simp [giveUp, left] at clean
      · rename_i progress
        rw [if_neg progress]
        have shorter : (pass symbols rules found).1.length ≤ fuel := by
          have bound := length_pass_le symbols rules found
          omega
        have passed := pass_sound pending (errors_of_solveWithin clean)
        obtain ⟨kept, settled⟩ := ih shorter passed.pending clean
        refine ⟨passed.kept.trans kept, fun rule member => ?_⟩
        rcases passed.settled rule member with waits | done
        · exact settled rule waits
        · exact done.kept kept

/-- If the solver reports no error, all rules hold under the facts it ends with, and these keep all
that was known before. -/
theorem solve_sound (pending : Rule.Pending symbols rules found.facts)
    (clean : (solve symbols rules found).errors = []) :
    found.facts.Kept (solve symbols rules found).facts ∧
      ∀ rule ∈ rules, rule.Holds ⟨(solve symbols rules found).facts, symbols⟩ := by
  obtain ⟨kept, settled⟩ := solveWithin_sound (Nat.le_refl _) pending clean
  exact ⟨kept, fun rule member => settled rule member _ (.refl _)⟩

end Findings

end BoxScript
