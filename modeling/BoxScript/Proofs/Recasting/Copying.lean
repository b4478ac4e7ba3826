import BoxScript.Proofs.Recasting.Walk

/-!
# Rules that copy answers

The rules of one analysis may mirror those of another one, apart from rules of the other one that
only copy the answer to a question to a further question (`Rule.Copies`). The two do not go in
lockstep, because copying takes its time. But each comes to its least closed store, and where one
reads, these two mirror one another (`Mirror.Copying.stores`).

Either store is found in the other one. What the first store has in common with the second one,
copies included, is closed under the first rules, so the first store has nothing else. What the
second one has in common with the first is then closed under the second rules.
-/

set_option autoImplicit false

namespace BoxScript

namespace FactStore

variable {store : FactStore} {keeps : FactKey → Prop} {key : FactKey}

open scoped Classical in
/-- The slots of a store for some questions only. -/
noncomputable def only (store : FactStore) (keeps : FactKey → Prop) : FactStore :=
  ⟨store.slots.filter fun code _ => decide (keeps (.ofCode code))⟩

theorem get?_only {slot : Slot} : (store.only keeps).get? key = some slot ↔
    store.get? key = some slot ∧ keeps key := by
  rw [get?, get?, only, Std.TreeMap.getElem?_filter']
  simp [Option.filter_eq_some_iff]

theorem get?_only_of (kept : keeps key) : (store.only keeps).get? key = store.get? key := by
  cases here : store.get? key with
  | some slot => exact get?_only.mpr ⟨here, kept⟩
  | none =>
    rw [Option.eq_none_iff_forall_ne_some]
    intro slot found
    cases here.symm.trans (get?_only.mp found).1

theorem get?_only_of_not (dropped : ¬ keeps key) : (store.only keeps).get? key = none := by
  rw [Option.eq_none_iff_forall_ne_some]
  exact fun slot found => dropped (get?_only.mp found).2

theorem only_within : (store.only keeps).Within store :=
  fun _ _ here => (get?_only.mp here).1

end FactStore

/-- Whether a slot holds an answer to a question of a kind, if it holds one. -/
def Slot.IsFor : FactKind → Slot → Prop
  | _, .poisoned => True
  | .type, .known (.type _) | .declType, .known (.type _) => True
  | .decl, .known (.decl _) => True
  | .returns, .known (.flag _) => True
  | _, _ => False

/-- A rule that copies the answer to a question to another question. -/
structure Rule.Copies (symbols : SymbolTable) (key image : FactKey) (rule : Rule) : Prop where
  produces : rule.produces = [image]
  missing : ∀ facts : FactStore, facts.get? key = none →
    rule.attempt symbols facts = .missing key
  poisoned : ∀ facts : FactStore, facts.get? key = some .poisoned →
    rule.attempt symbols facts = .poisoned
  known : ∀ (facts : FactStore) (value : FactValue), facts.get? key = some (.known value) →
    (Slot.known value).IsFor key.kind → rule.attempt symbols facts = .completed [(image, value)] []

namespace Rule

variable {symbols : SymbolTable} {key image : FactKey} {rule : Rule} {facts : FactStore}
  {slot : Slot}

theorem Copies.ends (copies : rule.Copies symbols key image) (held : facts.get? key = some slot)
    (sound : slot.IsFor key.kind) :
    ¬ rule.Waits symbols facts ∧ (rule.attempt symbols facts).errors = [] := by
  unfold Waits
  cases slot with
  | poisoned =>
    rw [copies.poisoned facts held]
    exact ⟨Bool.false_ne_true, rfl⟩
  | known value =>
    rw [copies.known facts value held sound]
    exact ⟨Bool.false_ne_true, rfl⟩

/-- What is left is the slot that is copied. -/
theorem Copies.slot? (copies : rule.Copies symbols key image) (held : facts.get? key = some slot)
    (sound : slot.IsFor key.kind) (asked : FactKey) :
    (rule.attempt symbols facts).slot? rule.produces asked =
      if asked = image then some slot else none := by
  cases slot with
  | poisoned =>
    rw [copies.poisoned facts held, copies.produces]
    simp [Attempt.slot?]
  | known value =>
    rw [copies.known facts value held sound]
    by_cases same : image = asked
    · simp [Attempt.slot?, FactStore.lastWrite?, same]
    · simp [Attempt.slot?, FactStore.lastWrite?, same, Ne.symm same]

/-- Parentheses have the type of what is in them. -/
theorem paren_copies (symbols : SymbolTable) (mark : Mark) (inner : NodeId) :
    (paren mark inner).Copies symbols ⟨inner, .type⟩ ⟨mark.id, .type⟩ where
  produces := rfl
  missing facts absent := by
    change Script.attempt facts (.read ⟨inner, .type⟩ _) = _
    simp only [Script.attempt, absent]
  poisoned facts held := by
    change Script.attempt facts (.read ⟨inner, .type⟩ _) = _
    simp only [Script.attempt, held]
  known facts value held sound := by
    change Script.attempt facts (.read ⟨inner, .type⟩ _) = _
    simp only [Script.attempt, held]
    cases value with
    | type ty => rfl
    | decl | flag => cases sound

/-- Braces return if the statement in them does. -/
theorem blockReturns_copies (symbols : SymbolTable) (mark : Mark) (last : NodeId) :
    (blockReturns mark (some last)).Copies symbols ⟨last, .returns⟩ ⟨mark.id, .returns⟩ where
  produces := rfl
  missing facts absent := by
    change Script.attempt facts (.read ⟨last, .returns⟩ _) = _
    simp only [Script.attempt, absent]
  poisoned facts held := by
    change Script.attempt facts (.read ⟨last, .returns⟩ _) = _
    simp only [Script.attempt, held]
  known facts value held sound := by
    change Script.attempt facts (.read ⟨last, .returns⟩ _) = _
    simp only [Script.attempt, held]
    cases value with
    | flag value => rfl
    | decl | type => cases sound

end Rule

/-- A step that copies an answer gives a question an answer. -/
theorem Step.Copies.answers {step : Step} {key image : FactKey} (copies : step.Copies key image) :
    image ∈ step.answers := by
  cases copies <;> exact List.mem_append_right _ List.mem_cons_self

/-- A step that copies an answer does so by a rule. -/
theorem Step.Copies.rule {step : Step} {key image : FactKey} (copies : step.Copies key image)
    (symbols : SymbolTable) : ∃ rule, step.rules = [rule] ∧ rule.Copies symbols key image := by
  cases copies with
  | paren => exact ⟨_, rfl, Rule.paren_copies symbols _ _⟩
  | block => exact ⟨_, rfl, Rule.blockReturns_copies symbols _ _⟩

/-- A step copies one answer. -/
theorem Step.Copies.eq {step : Step} {key image other target : FactKey}
    (copies : step.Copies key image) (again : step.Copies other target) : other = key := by
  obtain ⟨rule, collected, copiesRule⟩ := copies.rule .empty
  obtain ⟨_, collectedToo, againRule⟩ := again.rule .empty
  rw [collected] at collectedToo
  cases collectedToo
  have missing := copiesRule.missing .empty (FactStore.get?_empty key)
  rw [againRule.missing .empty (FactStore.get?_empty other)] at missing
  cases missing
  rfl

/-- What a rule leaves under a store is in each closed store with more slots. -/
theorem Rule.IsScripted.get?_of_closed {symbols : SymbolTable} {rule : Rule}
    {facts later : FactStore} (scripted : rule.IsScripted symbols) (within : facts.Within later)
    (closed : rule.Closed symbols later) {key : FactKey} {slot : Slot}
    (left : (rule.attempt symbols facts).slot? rule.produces key = some slot) :
    later.get? key = some slot := by
  by_cases waits : rule.Waits symbols facts
  · rw [Attempt.slot?_of_isWaiting waits] at left
    cases left
  · rw [← scripted.attempt_eq within waits] at left
    exact closed key slot left

namespace Mirror

variable {mirror : Mirror}

/-- Answers that go with each other are the same if the declarations are. -/
theorem Answers.eq (decls : ∀ {id image}, mirror.decls id image → image = id)
    {value other : FactValue} (answers : mirror.Answers value other) : other = value := by
  cases answers with
  | decl goes => rw [decls goes]
  | type | flag => rfl

theorem Slots.eq (decls : ∀ {id image}, mirror.decls id image → image = id)
    {slot other : Option Slot} (slots : mirror.Slots slot other) : other = slot := by
  cases slots with
  | known answers => rw [answers.eq decls]
  | none | poisoned => rfl

theorem Writes.eq (decls : ∀ {id image}, mirror.decls id image → image = id)
    {writes others : List (FactKey × FactValue)} (written : mirror.Writes writes others) :
    others = writes ∧ ∀ write ∈ writes, mirror.Answers write.2 write.2 := by
  induction written with
  | nil => exact ⟨rfl, by simp⟩
  | @cons write other _ _ first _ ih =>
    obtain ⟨key, value⟩ := write
    obtain ⟨_, answer⟩ := other
    obtain ⟨rfl, answers⟩ := first
    obtain rfl : answer = value := answers.eq decls
    exact ⟨by rw [ih.1], List.forall_mem_cons.mpr ⟨answers, ih.2⟩⟩

/-- Attempts that come to the same leave the same slots. -/
theorem Attempts.slot? (decls : ∀ {id image}, mirror.decls id image → image = id)
    {attempt image : Attempt} (attempts : mirror.Attempts attempt image)
    (produces : List FactKey) (key : FactKey) :
    image.slot? produces key = attempt.slot? produces key ∧
      ∀ value, attempt.slot? produces key = some (.known value) → mirror.Answers value value := by
  cases attempts with
  | missing | poisoned => simp [Attempt.slot?]
  | completed written reported =>
    cases reported with
    | cons => simp [Attempt.slot?]
    | nil =>
      obtain ⟨rfl, answers⟩ := written.eq decls
      refine ⟨rfl, fun value left => ?_⟩
      obtain ⟨_, last, same⟩ := Option.map_eq_some_iff.mp left
      cases same
      exact answers _ (FactStore.mem_of_lastWrite? last)

theorem Attempts.isWaiting {attempt image : Attempt} (attempts : mirror.Attempts attempt image) :
    image.isWaiting = attempt.isWaiting := by
  cases attempts <;> rfl

theorem Attempts.length_errors {attempt image : Attempt}
    (attempts : mirror.Attempts attempt image) :
    image.errors.length = attempt.errors.length := by
  cases attempts with
  | completed _ reported => exact reported.length_eq.symm
  | missing | poisoned => rfl

/-- A slot with a good answer goes with itself. -/
theorem slots_self {slot : Option Slot}
    (good : ∀ value, slot = some (.known value) → mirror.Answers value value) :
    mirror.Slots slot slot := by
  rcases slot with _ | value | _
  · exact .none
  · exact .known (good value rfl)
  · exact .poisoned

/-- The questions that a question is mirrored by: those that a node of its own asks, and copies. -/
structure Copying (mirror : Mirror) (images : List Rule) : Prop where
  decls : ∀ {id image : DeclId}, mirror.decls id image → image = id
  functional : ∀ {key other image : FactKey}, mirror.reads key image → mirror.reads other image →
    other = key
  own : ∀ {key image : FactKey}, mirror.reads key image → mirror.reads key key
  copied : ∀ {key image : FactKey}, mirror.reads key image →
    image = key ∨ ∃ rule ∈ images, rule.Copies mirror.right key image

/-- A rule that copies an answer where it is read. -/
def Copies (mirror : Mirror) (rule : Rule) : Prop :=
  ∃ key image, mirror.reads key image ∧ image ≠ key ∧ rule.Copies mirror.right key image

section Settled

variable {rules images left last : List Rule} {found other after final : Findings}

/-- A question whose slot in the first store is good, and is that of its copies in the second. -/
def Common (mirror : Mirror) (after final : Findings) (key : FactKey) : Prop :=
  (∀ value, after.facts.get? key = some (.known value) → mirror.Answers value value) ∧
    ∀ image, mirror.reads key image → final.facts.get? image = after.facts.get? key

/-- A slot of the second store that is that of every question which reads it in the first. -/
def Retained (mirror : Mirror) (after final : Findings) (image : FactKey) : Prop :=
  ∀ key, mirror.reads key image → after.facts.get? key = final.facts.get? image

variable (copying : mirror.Copying images)
  (matched : Matched (Rule.Mirrors mirror) mirror.Copies rules images)
  (separate : Rule.Separate mirror.left rules) (separateToo : Rule.Separate mirror.right images)
  (settled : Findings.Settled mirror.left rules found left after)
  (settledToo : Findings.Settled mirror.right images other last final)
  (sorted : ∀ {key image : FactKey}, mirror.reads key image → image ≠ key → ∀ slot,
    after.facts.get? key = some slot → final.facts.get? key = some slot → slot.IsFor key.kind)

include copying settledToo sorted in
/-- A slot that both stores have is copied in the second one. -/
theorem common_of_slots {key : FactKey} {slot : Slot} (here : after.facts.get? key = some slot)
    (there : final.facts.get? key = some slot)
    (good : ∀ value, slot = .known value → mirror.Answers value value) :
    mirror.Common after final key := by
  refine ⟨fun value known => good value ?_, fun image reads => ?_⟩
  · rw [here] at known
    exact Option.some.inj known
  · by_cases same : image = key
    · rw [same, here, there]
    · obtain ⟨rule, member, copies⟩ := (copying.copied reads).resolve_left same
      have left := copies.slot? there (sorted reads same slot here there) image
      rw [if_pos rfl] at left
      rw [here]
      exact settledToo.closed rule member _ _ left

variable (started : other.facts = found.facts)
  (seeds : ∀ {key : FactKey} {slot : Slot}, found.facts.get? key = some slot →
    mirror.reads key key ∧ ∀ value, slot = .known value → mirror.Answers value value)
  (owned : ∀ {rule : Rule} {key : FactKey}, rule ∈ rules → key ∈ rule.produces →
    mirror.reads key key)

include copying matched separate separateToo settled settledToo sorted started seeds

/-- All slots of the first store are slots of the second one, copies included. -/
theorem common_of_settled {key : FactKey} {slot : Slot}
    (here : after.facts.get? key = some slot) : mirror.Common after final key := by
  have stores : mirror.Stores (after.facts.only (mirror.Common after final))
      (final.facts.only fun image => ∃ key, mirror.reads key image ∧
        mirror.Common after final key) := by
    intro key image reads
    by_cases common : mirror.Common after final key
    · rw [FactStore.get?_only_of common, FactStore.get?_only_of ⟨key, reads, common⟩,
        common.2 image reads]
      exact slots_self common.1
    · rw [FactStore.get?_only_of_not common, FactStore.get?_only_of_not]
      · exact .none
      · rintro ⟨other, readsToo, commonToo⟩
        exact common (copying.functional reads readsToo ▸ commonToo)
  have within := settled.least (after.facts.only (mirror.Common after final)) ?_ ?_
  · exact (FactStore.get?_only.mp (within key slot here)).2
  · intro key slot before
    have there := settledToo.within key slot (by rw [started]; exact before)
    have first := settled.within key slot before
    exact FactStore.get?_only.mpr ⟨first,
      common_of_slots copying settledToo sorted first there (seeds before).2⟩
  · intro rule member key slot left
    obtain ⟨image, found, mirrors⟩ := matched.mem_left member
    obtain ⟨same, good⟩ := (mirrors.attempt _ _ stores).slot? copying.decls rule.produces key
    have first := (separate.scripted rule member).get?_of_closed FactStore.only_within
      (settled.closed rule member) left
    rw [left, ← mirrors.produces] at same
    have there := (separateToo.scripted image found).get?_of_closed FactStore.only_within
      (settledToo.closed image found) same
    refine FactStore.get?_only.mpr ⟨first, common_of_slots copying settledToo sorted first there ?_⟩
    rintro value rfl
    exact good value left

/-- What the second store has of the first one mirrors it. -/
theorem stores_retained :
    mirror.Stores after.facts (final.facts.only (mirror.Retained after final)) := by
  intro key image reads
  cases here : after.facts.get? key with
  | none =>
    by_cases kept : mirror.Retained after final image
    · rw [FactStore.get?_only_of kept, ← kept key reads, here]
      exact .none
    · rw [FactStore.get?_only_of_not kept]
      exact .none
  | some slot =>
    have common :=
      common_of_settled copying matched separate separateToo settled settledToo sorted started
        seeds here
    have there := common.2 image reads
    have kept : mirror.Retained after final image := by
      intro other readsToo
      rw [copying.functional reads readsToo, there]
    rw [FactStore.get?_only_of kept, there, here]
    exact slots_self (here ▸ common.1)

include owned

/-- What a rule of the second analysis leaves, it leaves as the first analysis has it. -/
theorem retained_of_attempt {image : Rule} (found : image ∈ images) {key : FactKey} {slot : Slot}
    (left : (image.attempt mirror.right (final.facts.only (mirror.Retained after final))).slot?
      image.produces key = some slot) (other : FactKey) (reads : mirror.reads other key) :
    after.facts.get? other = some slot := by
  rcases matched.mem_right found with
    ⟨rule, member, mirrors⟩ | ⟨source, copy, readsCopy, apart, copies⟩
  · have stores := stores_retained copying matched separate separateToo settled settledToo sorted
      started seeds
    obtain ⟨same, _⟩ := (mirrors.attempt _ _ stores).slot? copying.decls rule.produces key
    rw [mirrors.produces, same] at left
    have produced := Attempt.mem_of_slot?
      (fun writes errors => separate.answers rule member _ writes errors) left
    rw [copying.functional (owned member produced) reads]
    exact settled.closed rule member key slot left
  · cases held : (final.facts.only (mirror.Retained after final)).get? source with
    | none =>
      rw [copies.missing _ held] at left
      cases left
    | some value =>
      obtain ⟨known, kept⟩ := FactStore.get?_only.mp held
      have first := (kept source (copying.own readsCopy)).trans known
      rw [copies.slot? held (sorted readsCopy apart value first known) key] at left
      split at left
      · rename_i same
        subst same
        rw [copying.functional readsCopy reads, first, left]
      · cases left

/-- What both analyses settle on mirrors one another. -/
theorem Copying.stores : mirror.Stores after.facts final.facts := by
  have stores := stores_retained copying matched separate separateToo settled settledToo sorted
    started seeds
  have within := settledToo.least (final.facts.only (mirror.Retained after final)) ?_ ?_
  · intro key image reads
    rw [within.antisymm FactStore.only_within image]
    exact stores key image reads
  · intro key slot before
    have there := settledToo.within key slot before
    rw [started] at before
    have first := settled.within key slot before
    refine FactStore.get?_only.mpr ⟨there, fun other reads => ?_⟩
    rw [copying.functional (seeds before).1 reads, first, there]
  · intro image found key slot left
    have there := (separateToo.scripted image found).get?_of_closed FactStore.only_within
      (settledToo.closed image found) left
    refine FactStore.get?_only.mpr ⟨there, fun other reads => ?_⟩
    rw [there]
    exact retained_of_attempt copying matched separate separateToo settled settledToo sorted started
      seeds owned found left other reads

end Settled

end Mirror

end BoxScript
