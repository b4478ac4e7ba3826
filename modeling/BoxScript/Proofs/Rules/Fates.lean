import BoxScript.Proofs.Rules.Passes

/-!
# The fates of rules

A rule may be attempted many times, but only its last attempt counts. It decides on the fate of the
rule (`Attempt.fate`): the rule is committed, failed or dropped, or it is stuck, if it still waits
in the pass that settles no rule. What the solver comes to is what the fates leave one after another
(`Findings.meet`), each rule once and in the order in which the rules were settled.

The attempts are told apart by rule in histories (`History`), one for each rule. A pass puts one
attempt in front of the histories of the rules that go on waiting, and begins and ends the history
of each other rule (`Findings.exists_opening`). From this the account of all passes follows
(`Pass.Loop.exists_account`).
-/

set_option autoImplicit false

namespace BoxScript

/-- What becomes of a rule by its last attempt. -/
inductive Fate
  | committed (writes : List (FactKey × FactValue))
  | failed (errors : List SemanticError)
  | dropped
  | stuck (missing : FactKey)

/-- The fate of a rule whose last attempt came to this. -/
def Attempt.fate : Attempt → Fate
  | completed writes [] => .committed writes
  | completed _ (error :: errors) => .failed (error :: errors)
  | poisoned => .dropped
  | missing key => .stuck key

/-- The fate of a rule whose last attempt is made under a store. -/
def Rule.fate (symbols : SymbolTable) (rule : Rule) (facts : FactStore) : Fate :=
  (rule.attempt symbols facts).fate

namespace Fate

/-- The answers that are stored. -/
def writes : Fate → List (FactKey × FactValue)
  | committed writes => writes
  | failed _ | dropped | stuck _ => []

/-- The errors that are recorded. -/
def errors (rule : Rule) : Fate → List SemanticError
  | failed errors => errors
  | stuck _ => [⟨.unresolved (.stuck rule.what), rule.span⟩]
  | committed _ | dropped => []

/-- The questions that are poisoned, unless they have slots. -/
def spoils (rule : Rule) : Fate → List FactKey
  | failed _ | dropped | stuck _ => rule.produces
  | committed _ => []

end Fate

/-- A rule is stuck if it waits in its last attempt. -/
theorem Rule.waits_iff_stuck {symbols : SymbolTable} {rule : Rule} {facts : FactStore} :
    rule.Waits symbols facts ↔ ∃ key, rule.fate symbols facts = .stuck key := by
  unfold Rule.Waits Rule.fate
  cases rule.attempt symbols facts with
  | completed writes errors => cases errors <;> simp [Attempt.isWaiting, Attempt.fate]
  | missing key => simp [Attempt.isWaiting, Attempt.fate]
  | poisoned => simp [Attempt.isWaiting, Attempt.fate]

/-! ## What a fate leaves -/

namespace FactStore

theorem lastWrite?_append (key : FactKey) (writes more : List (FactKey × FactValue)) :
    lastWrite? key (writes ++ more) = (lastWrite? key more).or (lastWrite? key writes) := by
  induction writes with
  | nil => simp [lastWrite?]
  | cons write rest ih =>
    rw [List.cons_append, lastWrite?, lastWrite?, ih, Option.or_assoc]

/-- The answers that a store lists are those of the questions that are not poisoned. -/
theorem mem_toList {facts : FactStore} {key : FactKey} {value : FactValue} :
    (key, value) ∈ facts.toList ↔ facts.get? key = some (.known value) := by
  simp only [toList, List.mem_filterMap, get?]
  constructor
  · rintro ⟨⟨code, slot⟩, listed, same⟩
    cases slot with
    | poisoned => cases same
    | known other =>
      simp only [Option.some.injEq, Prod.mk.injEq] at same
      obtain ⟨rfl, rfl⟩ := same
      rw [FactKey.code_ofCode]
      exact Std.TreeMap.mem_toList_iff_getElem?_eq_some.mp listed
  · intro here
    refine ⟨(key.code, .known value), Std.TreeMap.mem_toList_iff_getElem?_eq_some.mpr here, ?_⟩
    simp

end FactStore

namespace Findings

variable {symbols : SymbolTable} {rule : Rule} {rules : List Rule} {found after : Findings}
  {trials : List (Rule × FactStore)}

/-- The findings before any rule is attempted. -/
def seeded (seeds : List (FactKey × FactValue)) : Findings := ⟨FactStore.empty.setAll seeds, []⟩

/-- The findings after a rule has met its fate in an attempt under some store. -/
def meet (symbols : SymbolTable) (found : Findings) (trial : Rule × FactStore) : Findings :=
  let fate := trial.1.fate symbols trial.2
  ⟨(found.facts.setAll fate.writes).poisonAll (fate.spoils trial.1),
   found.errors ++ fate.errors trial.1⟩

/-- The answers that fates store, in order. -/
def storedBy (symbols : SymbolTable) (trials : List (Rule × FactStore)) :
    List (FactKey × FactValue) :=
  trials.flatMap fun trial => (trial.1.fate symbols trial.2).writes

/-- The questions that fates poison if they have no slots. -/
def spoiledBy (symbols : SymbolTable) (trials : List (Rule × FactStore)) : List FactKey :=
  trials.flatMap fun trial => (trial.1.fate symbols trial.2).spoils trial.1

/-- An attempt that does not wait has the rule meet its fate. -/
theorem attempt_eq_meet (ends : ¬ rule.Waits symbols found.facts) :
    found.attempt symbols rule = (true, found.meet symbols (rule, found.facts)) := by
  unfold Rule.Waits at ends
  simp only [attempt, meet, Rule.fate]
  cases attempted : rule.attempt symbols found.facts with
  | completed writes errors =>
    cases errors with
    | nil =>
      simp [Attempt.fate, Fate.writes, Fate.spoils, Fate.errors, FactStore.poisonAll]
    | cons error errors =>
      simp [Attempt.fate, Fate.writes, Fate.spoils, Fate.errors, FactStore.setAll]
  | missing key =>
    rw [attempted] at ends
    exact absurd rfl ends
  | poisoned =>
    simp [Attempt.fate, Fate.writes, Fate.spoils, Fate.errors, FactStore.setAll]

/-- Attempts that do not wait have their rules meet their fates one after another. -/
theorem Replays.eq_foldl (replays : Replays symbols found trials after)
    (ended : ∀ trial ∈ trials, ¬ trial.1.Waits symbols trial.2) :
    after = trials.foldl (meet symbols) found := by
  induction trials generalizing found with
  | nil => exact replays
  | cons trial trials ih =>
    obtain ⟨rule, facts⟩ := trial
    obtain ⟨rfl, replays⟩ := replays
    obtain ⟨ends, ended⟩ := List.forall_mem_cons.mp ended
    rw [attempt_eq_meet ends] at replays
    exact ih replays ended

/-- Rules that are given up while they wait meet their fates one after another. -/
theorem giveUp_eq_foldl {facts : FactStore} (waits : ∀ rule ∈ rules, rule.Waits symbols facts) :
    found.giveUp rules = (rules.map (·, facts)).foldl (meet symbols) found := by
  induction rules generalizing found with
  | nil => exact giveUp_nil found
  | cons rule rules ih =>
    obtain ⟨waiting, waits⟩ := List.forall_mem_cons.mp waits
    obtain ⟨key, stuck⟩ := Rule.waits_iff_stuck.mp waiting
    rw [List.map_cons, List.foldl_cons, ← ih waits]
    simp [giveUp, meet, stuck, Fate.writes, Fate.spoils, Fate.errors, FactStore.setAll,
      FactStore.poisonAll, List.foldl_append]

/-- Each error that a fate records stays, and there are no others. -/
theorem errors_foldl_meet : (trials.foldl (meet symbols) found).errors =
    found.errors ++
      trials.flatMap fun trial => (trial.1.fate symbols trial.2).errors trial.1 := by
  induction trials generalizing found with
  | nil => simp
  | cons trial trials ih => simp [ih, meet]

/-- The answer of a question is the last one stored. A question without any has the slot it had
before, or else it is poisoned if a fate spoils it. -/
theorem get?_foldl_meet (key : FactKey) :
    (trials.foldl (meet symbols) found).facts.get? key =
      (((FactStore.lastWrite? key (storedBy symbols trials)).map .known).or
          (found.facts.get? key)).or
        (if key ∈ spoiledBy symbols trials then some .poisoned else none) := by
  induction trials generalizing found with
  | nil => simp [storedBy, spoiledBy, FactStore.lastWrite?]
  | cons trial trials ih =>
    have stored : storedBy symbols (trial :: trials) =
        (trial.1.fate symbols trial.2).writes ++ storedBy symbols trials := rfl
    have spoiled : spoiledBy symbols (trial :: trials) =
        (trial.1.fate symbols trial.2).spoils trial.1 ++ spoiledBy symbols trials := rfl
    rw [List.foldl_cons, ih, stored, spoiled, FactStore.lastWrite?_append]
    simp only [meet, FactStore.get?_poisonAll, FactStore.get?_setAll, List.mem_append]
    -- A later answer replaces what this fate leaves, and what it leaves is not poisoned later.
    cases FactStore.lastWrite? key (storedBy symbols trials) with
    | some value => simp
    | none =>
      cases FactStore.lastWrite? key (trial.1.fate symbols trial.2).writes with
      | some value =>
        by_cases here : key ∈ (trial.1.fate symbols trial.2).spoils trial.1 <;> simp [here]
      | none =>
        by_cases here : key ∈ (trial.1.fate symbols trial.2).spoils trial.1
        · cases found.facts.get? key <;> simp [here]
        · simp [here]

end Findings

/-! ## The attempts at each rule -/

/-- The attempts at one rule: the stores under which it waited for another pass, and the store of
the last attempt. -/
structure History where
  rule : Rule
  waits : List FactStore
  last : FactStore

namespace History

/-- The last attempt. -/
def final (history : History) : Rule × FactStore := (history.rule, history.last)

/-- The attempt in a pass, if there was one. -/
def attempt? (number : Nat) (history : History) : Option (Rule × FactStore) :=
  (history.waits ++ [history.last])[number]?.map (history.rule, ·)

/-- The attempt at a rule that waits comes before its other attempts. -/
def after (facts : FactStore) (history : History) : History :=
  { history with waits := facts :: history.waits }

end History

namespace Findings

variable {symbols : SymbolTable} {rules : List Rule} {found : Findings} {later : List History}

/-- What a pass puts in front of the histories of the rules that wait in it. The rules that it
settles have no other attempts. -/
structure Opening (symbols : SymbolTable) (rules : List Rule) (found : Findings)
    (later histories : List History) (settled : List (Rule × FactStore)) : Prop where
  registered : histories.map History.rule = rules
  first : histories.filterMap (History.attempt? 0) = passAttempts symbols rules found
  others : ∀ number, histories.filterMap (History.attempt? (number + 1)) =
    later.filterMap (History.attempt? number)
  waited : (∀ history ∈ later, ∀ facts ∈ history.waits, history.rule.Waits symbols facts) →
    ∀ history ∈ histories, ∀ facts ∈ history.waits, history.rule.Waits symbols facts
  ended : ∀ trial ∈ settled, ¬ trial.1.Waits symbols trial.2
  order : (histories.map History.final).Perm (settled ++ later.map History.final)
  serial : Replays symbols found settled (pass symbols rules found).2

theorem exists_opening (same : later.map History.rule = (pass symbols rules found).1) :
    ∃ histories settled, Opening symbols rules found later histories settled := by
  induction rules generalizing found later with
  | nil =>
    obtain rfl : later = [] := List.map_eq_nil_iff.mp same
    exact ⟨[], [], rfl, rfl, fun _ => rfl, fun _ => by simp, by simp, .nil, rfl⟩
  | cons rule rules ih =>
    by_cases waits : rule.Waits symbols found.facts
    · -- The rule keeps its later attempts, behind the one of this pass.
      simp only [pass, attempt_waits waits, Bool.false_eq_true, if_false] at same
      obtain ⟨history, rest, rfl, rfl, others⟩ := List.map_eq_cons_iff.mp same
      obtain ⟨histories, settled, opening⟩ := ih others
      refine ⟨history.after found.facts :: histories, settled, ?_, ?_, ?_, ?_, opening.ended,
        ?_, ?_⟩
      · exact congrArg (history.rule :: ·) opening.registered
      · rw [passAttempts, attempt_waits waits]
        exact congrArg ((history.rule, found.facts) :: ·) opening.first
      · intro number
        have shifted : (history.after found.facts).attempt? (number + 1) =
            history.attempt? number := rfl
        rw [List.filterMap_cons, List.filterMap_cons, shifted, opening.others]
      · intro earlier
        obtain ⟨here, earlier⟩ := List.forall_mem_cons.mp earlier
        refine List.forall_mem_cons.mpr ⟨?_, opening.waited earlier⟩
        exact List.forall_mem_cons.mpr ⟨waits, here⟩
      · exact (opening.order.cons history.final).trans List.perm_middle.symm
      · simp only [pass, attempt_waits waits]
        exact opening.serial
    · -- The rule is settled, and this attempt is its only one.
      simp only [pass, attempt_ends waits, if_true] at same
      obtain ⟨histories, settled, opening⟩ := ih same
      refine ⟨⟨rule, [], found.facts⟩ :: histories, (rule, found.facts) :: settled,
        ?_, ?_, ?_, ?_, ?_, ?_, ?_⟩
      · exact congrArg (rule :: ·) opening.registered
      · exact congrArg ((rule, found.facts) :: ·) opening.first
      · exact opening.others
      · intro earlier
        exact List.forall_mem_cons.mpr ⟨by simp, opening.waited earlier⟩
      · exact List.forall_mem_cons.mpr ⟨waits, opening.ended⟩
      · exact opening.order.cons (rule, found.facts)
      · exact ⟨rfl, opening.serial⟩

/-- The attempts of a pass in which all rules wait are made under one store. -/
theorem passAttempts_of_waits (waits : ∀ rule ∈ rules, rule.Waits symbols found.facts) :
    passAttempts symbols rules found = rules.map (·, found.facts) := by
  induction rules with
  | nil => rfl
  | cons rule rules ih =>
    obtain ⟨here, waits⟩ := List.forall_mem_cons.mp waits
    rw [passAttempts, attempt_waits here, ih waits, List.map_cons]

end Findings

namespace Pass

variable {symbols : SymbolTable} {pass stop : Pass} {passes : List Pass}

/-- The account of the passes from one on, by rule. Each rule of the first queue has a history, and
the attempts of each pass are those of the histories. All attempts but the last ones waited. The
last ones are those that settled a rule, in the order in which they did, and those of the pass that
the loop stops with. -/
structure Account (symbols : SymbolTable) (pass : Pass) (passes : List Pass) (stop : Pass)
    (histories : List History) (settled : List (Rule × FactStore)) : Prop where
  registered : histories.map History.rule = pass.queue
  attempts : ∀ number, ((passes.map (attempts symbols))[number]?).getD [] =
    histories.filterMap (History.attempt? number)
  waited : ∀ history ∈ histories, ∀ facts ∈ history.waits, history.rule.Waits symbols facts
  ended : ∀ trial ∈ settled, ¬ trial.1.Waits symbols trial.2
  order : (histories.map History.final).Perm (settled ++ stop.attempts symbols)
  serial : Findings.Replays symbols pass.found settled stop.found

theorem Loop.exists_account (loop : Loop symbols pass passes stop) :
    ∃ histories settled, Account symbols pass passes stop histories settled := by
  induction loop with
  | @finished pass noRule =>
    refine ⟨[], [], noRule.symm, fun _ => rfl, by simp, by simp, ?_, rfl⟩
    have none : pass.attempts symbols = [] := by
      rw [attempts, noRule]
      rfl
    rw [none]
    exact .nil
  | @stuck pass someRule idle =>
    have once : pass.attempts symbols = pass.queue.map (·, pass.found.facts) :=
      Findings.passAttempts_of_waits idle.waits
    rw [idle.next_eq]
    refine ⟨pass.queue.map fun rule => ⟨rule, [], pass.found.facts⟩, [], ?_, ?_, ?_, by simp, ?_,
      rfl⟩
    · simp [Function.comp_def]
    · intro number
      cases number with
      | zero => simp [once, History.attempt?, List.filterMap_map, Function.comp_def]
      | succ number => simp [History.attempt?, List.filterMap_map, Function.comp_def]
    · simp
    · rw [once, List.map_map]
      exact .refl _
  | @goesOn pass stop passes settles rest ih =>
    obtain ⟨later, settled, account⟩ := ih
    obtain ⟨histories, now, opening⟩ := Findings.exists_opening account.registered
    refine ⟨histories, now ++ settled, opening.registered, ?_, opening.waited account.waited,
      ?_, ?_, ?_⟩
    · intro number
      cases number with
      | zero => exact opening.first.symm
      | succ number =>
        rw [opening.others, ← account.attempts]
        rfl
    · exact List.forall_mem_append.mpr ⟨opening.ended, account.ended⟩
    · rw [List.append_assoc]
      exact opening.order.trans (account.order.append_left now)
    · exact Findings.replays_append opening.serial account.serial

end Pass

/-! ## Scripts that read -/

namespace Script

variable {α : Type} {facts : FactStore}

/-- Whether each read that a script comes to returns a value. -/
def Answered (facts : FactStore) : Script α → Prop
  | done _ => True
  | read key next =>
    match facts.get? key with
    | some (.known value) => (next value).Answered facts
    | _ => False
  | write _ _ next | report _ next => next.Answered facts
  | drop => False

/-- The writes of a script up to its end, or to the read that returns no value. -/
def written (facts : FactStore) : Script α → List (FactKey × FactValue)
  | read key next =>
    match facts.get? key with
    | some (.known value) => (next value).written facts
    | _ => []
  | write key value next => (key, value) :: next.written facts
  | report _ next => next.written facts
  | done _ | drop => []

/-- The reports of a script up to its end, or to the read that returns no value. -/
def reported (facts : FactStore) : Script α → List SemanticError
  | read key next =>
    match facts.get? key with
    | some (.known value) => (next value).reported facts
    | _ => []
  | report error next => error :: next.reported facts
  | write _ _ next => next.reported facts
  | done _ | drop => []

/-- A script with all its reads answered completes with what it has written and reported. -/
theorem attempt_of_answered {script : Script Unit} (answered : script.Answered facts) :
    script.attempt facts = .completed (script.written facts) (script.reported facts) := by
  induction script with
  | done result => rfl
  | read key next ih =>
    simp only [Answered] at answered
    simp only [attempt, written, reported]
    cases here : facts.get? key with
    | none =>
      rw [here] at answered
      exact answered.elim
    | some slot =>
      cases slot with
      | poisoned =>
        rw [here] at answered
        exact answered.elim
      | known value =>
        rw [here] at answered
        exact ih value answered
  | write key value next ih =>
    rw [attempt, ih answered]
    rfl
  | report error next ih =>
    rw [attempt, ih answered]
    rfl
  | drop => exact answered.elim

/-- A script with an unanswered read waits or is dropped, whatever it has written and reported. -/
theorem attempt_of_unanswered {script : Script Unit} (unanswered : ¬ script.Answered facts) :
    script.attempt facts = .poisoned ∨ ∃ key, script.attempt facts = .missing key := by
  induction script with
  | done result => exact absurd trivial unanswered
  | read key next ih =>
    simp only [Answered] at unanswered
    simp only [attempt]
    cases here : facts.get? key with
    | none => exact .inr ⟨key, rfl⟩
    | some slot =>
      cases slot with
      | poisoned => exact .inl rfl
      | known value =>
        rw [here] at unanswered
        exact ih value unanswered
  | write key value next ih =>
    rcases ih unanswered with dropped | ⟨missing, waits⟩
    · rw [attempt, dropped]
      exact .inl rfl
    · rw [attempt, waits]
      exact .inr ⟨missing, rfl⟩
  | report error next ih =>
    rcases ih unanswered with dropped | ⟨missing, waits⟩
    · rw [attempt, dropped]
      exact .inl rfl
    · rw [attempt, waits]
      exact .inr ⟨missing, rfl⟩
  | drop => exact .inl rfl

end Script

/-- If the reads of a rule all pass its end up, its own writes and errors count only if each read of
the last attempt returned a value. The attempts before read something that had no value. -/
structure History.AllOrNothing (symbols : SymbolTable) (history : History) (script : Script Unit) :
    Prop where
  waited : ∀ facts ∈ history.waits, ¬ script.Answered facts
  answered : script.Answered history.last → history.rule.attempt symbols history.last =
    .completed (script.written history.last) (script.reported history.last)
  unanswered : ¬ script.Answered history.last →
    history.rule.fate symbols history.last = .dropped ∨
      ∃ key, history.rule.fate symbols history.last = .stuck key

theorem History.allOrNothing {symbols : SymbolTable} {history : History} {script : Script Unit}
    (scripted : ∀ facts, history.rule.attempt symbols facts = script.attempt facts)
    (waited : ∀ facts ∈ history.waits, history.rule.Waits symbols facts) :
    history.AllOrNothing symbols script where
  waited := by
    intro facts member answered
    have waits := waited facts member
    rw [Rule.Waits, scripted, Script.attempt_of_answered answered] at waits
    cases waits
  answered := by
    intro answered
    rw [scripted, Script.attempt_of_answered answered]
  unanswered := by
    intro unanswered
    rw [Rule.fate, scripted]
    rcases Script.attempt_of_unanswered unanswered with dropped | ⟨key, waits⟩
    · rw [dropped]
      exact .inl rfl
    · rw [waits]
      exact .inr ⟨key, rfl⟩

/-! ## What solving comes to -/

namespace Findings

open Pass FactStore

/-- What seeded findings are after rules have met their fates one after another, and nothing else
has happened to them. -/
structure Outcome (symbols : SymbolTable) (seeds : List (FactKey × FactValue))
    (trials : List (Rule × FactStore)) (final : Findings) : Prop where
  /-- Each fate has its effect once. -/
  serial : final = trials.foldl (meet symbols) (seeded seeds)
  /-- The errors are those of the fates. -/
  errors : final.errors =
    trials.flatMap fun trial => (trial.1.fate symbols trial.2).errors trial.1
  /-- The slots are the seeds overwritten by what was committed, and what fates have poisoned. -/
  slots : ∀ key, final.facts.get? key =
    ((lastWrite? key (seeds ++ storedBy symbols trials)).map .known).or
      (if key ∈ spoiledBy symbols trials then some .poisoned else none)
  /-- The answers are the seeds overwritten by what was committed. -/
  answers : ∀ key value, (key, value) ∈ final.facts.toList ↔
    lastWrite? key (seeds ++ storedBy symbols trials) = some value

theorem outcome_foldl (symbols : SymbolTable) (seeds : List (FactKey × FactValue))
    (trials : List (Rule × FactStore)) :
    Outcome symbols seeds trials (trials.foldl (meet symbols) (seeded seeds)) := by
  have slots : ∀ key,
      (trials.foldl (meet symbols) (seeded seeds)).facts.get? key =
        ((lastWrite? key (seeds ++ storedBy symbols trials)).map .known).or
          (if key ∈ spoiledBy symbols trials then some .poisoned else none) := by
    intro key
    have before : (seeded seeds).facts.get? key = (lastWrite? key seeds).map .known := by
      rw [seeded, get?_setAll, get?_empty]
      cases lastWrite? key seeds <;> rfl
    rw [get?_foldl_meet, lastWrite?_append, before, Option.map_or]
  refine ⟨rfl, errors_foldl_meet, slots, fun key value => ?_⟩
  rw [mem_toList, slots]
  cases lastWrite? key (seeds ++ storedBy symbols trials) with
  | some other => simp
  | none =>
    simp only [Option.map_none, Option.none_or, reduceCtorEq, iff_false]
    split <;> simp

/-- **Rules are transactions, and their errors do not cascade.** The passes of the solver give each
rule a history of attempts, of which all but the last one came to nothing. The last one is made
either in the course of the passes, under the store that the rules settled before have left, and
then commits the rule, fails it or drops it; or in the pass that settles no rule, and then the rule
is stuck. What the solver comes to is what these fates leave, one after another, of the seeds. A
rule whose reads all pass its end up counts only if each read of its last attempt was answered. -/
theorem solve_transactional (symbols : SymbolTable) (seeds : List (FactKey × FactValue))
    (rules : List Rule) :
    ∃ passes stop histories settled,
      Loop symbols ⟨rules, seeded seeds⟩ passes stop ∧
      Account symbols ⟨rules, seeded seeds⟩ passes stop histories settled ∧
      (stop.queue ≠ [] → stop.Idle symbols ∧ passes.getLast? = some stop) ∧
      (∀ trial ∈ stop.attempts symbols,
        trial.2 = stop.found.facts ∧ ∃ key, trial.1.fate symbols trial.2 = .stuck key) ∧
      (∀ trial ∈ settled, ∀ key, trial.1.fate symbols trial.2 ≠ .stuck key) ∧
      Outcome symbols seeds (settled ++ stop.attempts symbols)
        ((seeded seeds).solve symbols rules) ∧
      ∀ history ∈ histories, ∀ script : Script Unit,
        (∀ facts, history.rule.attempt symbols facts = script.attempt facts) →
          history.AllOrNothing symbols script := by
  obtain ⟨passes, stop, loop, solved⟩ := exists_loop symbols rules (seeded seeds)
  obtain ⟨histories, settled, account⟩ := loop.exists_account
  have waits : ∀ rule ∈ stop.queue, rule.Waits symbols stop.found.facts := by
    rcases loop.stops with ⟨noRule, _⟩ | ⟨_, _, _, _, idle⟩
    · simp [noRule]
    · exact idle.waits
  have last : stop.attempts symbols = stop.queue.map (·, stop.found.facts) :=
    passAttempts_of_waits waits
  refine ⟨passes, stop, histories, settled, loop, account, ?_, ?_, ?_, ?_, ?_⟩
  · intro someRule
    rcases loop.stops with ⟨noRule, _⟩ | ⟨earlier, split, _, _, idle⟩
    · exact absurd noRule someRule
    · exact ⟨idle, by rw [split, List.getLast?_concat]⟩
  · intro trial member
    rw [last] at member
    obtain ⟨rule, queued, rfl⟩ := List.mem_map.mp member
    exact ⟨rfl, Rule.waits_iff_stuck.mp (waits rule queued)⟩
  · intro trial member key stuck
    exact account.ended trial member (Rule.waits_iff_stuck.mpr ⟨key, stuck⟩)
  · have serial : (seeded seeds).solve symbols rules =
        (settled ++ stop.attempts symbols).foldl (meet symbols) (seeded seeds) := by
      have settling : stop.found = settled.foldl (meet symbols) (seeded seeds) :=
        account.serial.eq_foldl account.ended
      rw [solved, giveUp_eq_foldl waits, ← last, List.foldl_append, ← settling]
    rw [serial]
    exact outcome_foldl symbols seeds _
  · intro history member script scripted
    exact History.allOrNothing scripted (account.waited history member)

end Findings

end BoxScript
