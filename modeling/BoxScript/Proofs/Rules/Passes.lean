import BoxScript.Proofs.Rules.Course

/-!
# The passes of solving

The solver is given a number of passes that it may use. Here is its loop without such a number: it
goes on for as long as there are rules and each pass settles one (`Pass.Loop`). Nothing is asked of
the rules, which may answer, wait for, and report whatever they like.

A pass that settles a rule leaves a shorter queue (`Pass.length_next_lt`), and one that settles none
is the last. So there are at most as many passes as rules (`Pass.Loop.length_le`), the queues are
summed up by a triangular number (`Pass.Loop.attempts_le`), and the solver is never stopped by the
number that it is given (`Findings.exists_loop`).
-/

set_option autoImplicit false

namespace BoxScript

/-- A pass of the solver: the rules in its queue, and the findings that it starts from. -/
structure Pass where
  queue : List Rule
  found : Findings

namespace Pass

section

variable (symbols : SymbolTable) (pass : Pass)

/-- The attempts of a pass, each with the store that it is made under. -/
def attempts : List (Rule × FactStore) :=
  Findings.passAttempts symbols pass.queue pass.found

/-- The pass after this one. The rules that wait have stayed in the queue. -/
def next : Pass :=
  ⟨(Findings.pass symbols pass.queue pass.found).1,
   (Findings.pass symbols pass.queue pass.found).2⟩

/-- Whether a pass settles none of its rules. -/
def Idle : Prop := (pass.next symbols).queue.length = pass.queue.length

end

/-- The loop of the solver from a pass on: the passes that it makes, and what it stops with. -/
inductive Loop (symbols : SymbolTable) : Pass → List Pass → Pass → Prop
  | finished {pass : Pass} (noRule : pass.queue = []) : Loop symbols pass [] pass
  | stuck {pass : Pass} (someRule : pass.queue ≠ []) (idle : pass.Idle symbols) :
    Loop symbols pass [pass] (pass.next symbols)
  | goesOn {pass stop : Pass} {passes : List Pass} (settles : ¬ pass.Idle symbols)
    (rest : Loop symbols (pass.next symbols) passes stop) :
    Loop symbols pass (pass :: passes) stop

variable {symbols : SymbolTable} {pass stop : Pass} {passes : List Pass}

/-! ## One pass -/

theorem length_attempts : (pass.attempts symbols).length = pass.queue.length := by
  obtain ⟨queue, found⟩ := pass
  change (Findings.passAttempts symbols queue found).length = queue.length
  induction queue generalizing found with
  | nil => rfl
  | cons rule rules ih => exact congrArg (· + 1) (ih _)

/-- A pass that settles a rule leaves a shorter queue. -/
theorem length_next_lt (settles : ¬ pass.Idle symbols) :
    (pass.next symbols).queue.length < pass.queue.length :=
  Nat.lt_of_le_of_ne (Findings.length_pass_le symbols pass.queue pass.found) settles

theorem queue_ne_nil (settles : ¬ pass.Idle symbols) : pass.queue ≠ [] := by
  intro noRule
  have shorter := length_next_lt settles
  rw [noRule] at shorter
  exact Nat.not_lt_zero _ shorter

/-- A pass that settles no rule changes nothing. -/
theorem Idle.next_eq (idle : pass.Idle symbols) : pass.next symbols = pass := by
  have same := (Findings.pass_idle idle).1
  unfold next
  rw [same]

/-- In a pass that settles no rule, all rules wait. -/
theorem Idle.waits (idle : pass.Idle symbols) :
    ∀ rule ∈ pass.queue, rule.Waits symbols pass.found.facts :=
  (Findings.pass_idle idle).2

/-! ## All passes -/

namespace Loop

theorem length_le (loop : Loop symbols pass passes stop) :
    passes.length ≤ pass.queue.length := by
  induction loop with
  | finished noRule => exact Nat.zero_le _
  | stuck someRule idle => exact List.length_pos_iff.mpr someRule
  | goesOn settles rest ih =>
    have shorter := length_next_lt settles
    rw [List.length_cons]
    omega

/-- Twice the number of attempts is at most the product of the number of rules and the next one. -/
theorem attempts_le (loop : Loop symbols pass passes stop) :
    2 * (passes.flatMap (attempts symbols)).length ≤
      pass.queue.length * (pass.queue.length + 1) := by
  induction loop with
  | finished noRule => exact Nat.zero_le _
  | @stuck pass someRule idle =>
    have some : 1 ≤ pass.queue.length := List.length_pos_iff.mpr someRule
    rw [List.flatMap_singleton, length_attempts, Nat.mul_comm]
    exact Nat.mul_le_mul_left _ (by omega)
  | @goesOn pass stop passes settles rest ih =>
    -- The later attempts are no more than those of a loop with one rule less.
    obtain ⟨count, counted⟩ : ∃ count, pass.queue.length = count + 1 :=
      Nat.exists_eq_add_one.mpr (List.length_pos_iff.mpr (queue_ne_nil settles))
    have shorter : (pass.next symbols).queue.length ≤ count := by
      have fewer := length_next_lt settles
      omega
    have later : 2 * (passes.flatMap (attempts symbols)).length ≤ count * (count + 1) :=
      Nat.le_trans ih (Nat.mul_le_mul shorter (by omega))
    rw [List.flatMap_cons, List.length_append, length_attempts, counted]
    calc 2 * (count + 1 + (passes.flatMap (attempts symbols)).length)
        = 2 * (count + 1) + 2 * (passes.flatMap (attempts symbols)).length := Nat.mul_add ..
      _ ≤ 2 * (count + 1) + count * (count + 1) := Nat.add_le_add_left later _
      _ = (count + 1) * (count + 1 + 1) := by
        rw [← Nat.add_mul, Nat.mul_comm, Nat.add_comm 2 count]

/-- The loop can go one way only. -/
theorem unique {others : List Pass} {final : Pass} (loop : Loop symbols pass passes stop)
    (other : Loop symbols pass others final) : others = passes ∧ final = stop := by
  induction loop generalizing others final with
  | finished noRule =>
    cases other with
    | finished => exact ⟨rfl, rfl⟩
    | stuck someRule => exact absurd noRule someRule
    | goesOn settles => exact absurd noRule (queue_ne_nil settles)
  | stuck someRule idle =>
    cases other with
    | finished noRule => exact absurd noRule someRule
    | stuck => exact ⟨rfl, rfl⟩
    | goesOn settles => exact absurd idle settles
  | goesOn settles rest ih =>
    cases other with
    | finished noRule => exact absurd noRule (queue_ne_nil settles)
    | stuck someRule idle => exact absurd idle settles
    | goesOn _ another =>
      obtain ⟨rfl, rfl⟩ := ih another
      exact ⟨rfl, rfl⟩

/-- The loop stops with an empty queue, or after one pass that settled no rule. -/
theorem stops (loop : Loop symbols pass passes stop) :
    (stop.queue = [] ∧ ∀ pass ∈ passes, ¬ pass.Idle symbols) ∨
      ∃ earlier, passes = earlier ++ [stop] ∧ (∀ pass ∈ earlier, ¬ pass.Idle symbols) ∧
        stop.queue ≠ [] ∧ stop.Idle symbols := by
  induction loop with
  | finished noRule => exact .inl ⟨noRule, by simp⟩
  | stuck someRule idle =>
    rw [idle.next_eq]
    exact .inr ⟨[], rfl, by simp, someRule, idle⟩
  | goesOn settles rest ih =>
    rcases ih with ⟨noRule, settle⟩ | ⟨earlier, rfl, settle, someRule, idle⟩
    · exact .inl ⟨noRule, List.forall_mem_cons.mpr ⟨settles, settle⟩⟩
    · exact .inr ⟨_ :: earlier, rfl, List.forall_mem_cons.mpr ⟨settles, settle⟩, someRule, idle⟩

/-- What the loop stops with is left by all its attempts. -/
theorem replays (loop : Loop symbols pass passes stop) :
    Findings.Replays symbols pass.found (passes.flatMap (attempts symbols)) stop.found := by
  induction loop with
  | finished noRule => rfl
  | stuck someRule idle =>
    rw [List.flatMap_singleton]
    exact Findings.replays_passAttempts
  | goesOn settles rest ih =>
    rw [List.flatMap_cons]
    exact Findings.replays_append Findings.replays_passAttempts ih

end Loop

end Pass

namespace Findings

open Pass

/-- With as many passes as rules, the loop gets to its end. -/
theorem loop_settleWithin (symbols : SymbolTable) (first : Pass) {fuel : Nat}
    (enough : first.queue.length ≤ fuel) :
    ∃ passes, Loop symbols first passes ⟨(settleWithin symbols fuel first.queue first.found).1,
      (settleWithin symbols fuel first.queue first.found).2⟩ := by
  obtain ⟨rules, found⟩ := first
  induction fuel generalizing rules found with
  | zero =>
    obtain rfl : rules = [] := List.eq_nil_of_length_eq_zero (Nat.le_zero.mp enough)
    exact ⟨[], .finished rfl⟩
  | succ fuel ih =>
    rw [settleWithin]
    by_cases noRule : rules = []
    · subst noRule
      exact ⟨[], .finished rfl⟩
    · rw [if_neg (by simpa using noRule)]
      dsimp only
      by_cases idle : Idle symbols ⟨rules, found⟩
      · have same : (pass symbols rules found).1.length = rules.length := idle
        rw [if_pos same]
        exact ⟨_, .stuck noRule idle⟩
      · have fewer : ¬ (pass symbols rules found).1.length = rules.length := idle
        rw [if_neg fewer]
        have shorter : (pass symbols rules found).1.length < rules.length := length_next_lt idle
        obtain ⟨passes, rest⟩ := ih (pass symbols rules found).1 (pass symbols rules found).2
          (Nat.le_of_lt_succ (Nat.lt_of_lt_of_le shorter enough))
        exact ⟨_ :: passes, .goesOn idle rest⟩

/-- The solver makes the passes of the loop, and gives up on what they leave. -/
theorem exists_loop (symbols : SymbolTable) (rules : List Rule) (found : Findings) :
    ∃ passes stop, Loop symbols ⟨rules, found⟩ passes stop ∧
      found.solve symbols rules = stop.found.giveUp stop.queue := by
  obtain ⟨passes, loop⟩ :=
    loop_settleWithin symbols ⟨rules, found⟩ (Nat.le_refl rules.length)
  exact ⟨passes, _, loop, solve_eq symbols rules found⟩

/-- **Solving is bounded by the number of rules.** Whatever the rules do, and whatever is known
beforehand, the loop comes to an end, in one way only. It makes no more passes than there are rules,
and no more attempts than the triangular number of the rules. It ends with an empty queue, or else
with the findings of the one pass that settled no rule: all rules in its queue wait. -/
theorem solve_bounded (symbols : SymbolTable) (rules : List Rule) (found : Findings) :
    ∃ passes stop, Loop symbols ⟨rules, found⟩ passes stop ∧
      (∀ others final, Loop symbols ⟨rules, found⟩ others final →
        others = passes ∧ final = stop) ∧
      found.solve symbols rules = stop.found.giveUp stop.queue ∧
      passes.length ≤ rules.length ∧
      (passes.flatMap (attempts symbols)).length ≤ rules.length * (rules.length + 1) / 2 ∧
      ((stop.queue = [] ∧ ∀ pass ∈ passes, ¬ pass.Idle symbols) ∨
        ∃ earlier, passes = earlier ++ [stop] ∧ (∀ pass ∈ earlier, ¬ pass.Idle symbols) ∧
          stop.queue ≠ [] ∧ ∀ rule ∈ stop.queue, rule.Waits symbols stop.found.facts) := by
  obtain ⟨passes, stop, loop, solved⟩ := exists_loop symbols rules found
  refine ⟨passes, stop, loop, fun others final other => loop.unique other, solved,
    loop.length_le, ?_, ?_⟩
  · have twice := loop.attempts_le
    dsimp only at twice
    omega
  · rcases loop.stops with finished | ⟨earlier, split, settle, someRule, idle⟩
    · exact .inl finished
    · exact .inr ⟨earlier, split, settle, someRule, idle.waits⟩

end Findings

end BoxScript
