import BoxScript.Proofs.Running.Origins

/-!
# Worlds in the course of a run

The worlds that the heap conforms to grow in the course of a run. A moment is a passage with such a
world, and a chronicle has one for each passage, in their order. When something was begun at one
moment, the worlds of all later moments have its frame, and know of which kind its scope is
(`Moment.Since`). So no two passages begin the same activation or instance
(`Chronicle.eq_of_next`). Each run of an accepted program has a chronicle
(`Program.exists_chronicle`).
-/

set_option autoImplicit false

namespace BoxScript

variable {known : Analysis} {w later : World}

/-! ## Tasks that begin something -/

/-- An instance of a box opens the scope of the members. -/
theorem Clause.opens_create (accepted : known.Accepted) {excuse : Halt → Prop} {frame : FrameId}
    {scope : ScopeId} {mark : Mark} {name : String} (home : w.scope? frame = some scope)
    (walked : known.Walked scope (.create mark name)) :
    (expr known.notes frame (.create mark name)).Opens known excuse .box w fun later value =>
      later.Yields known (.create mark name) value := by
  refine ⟨_, Eval.create known.notes frame mark name, Plan.done, rfl, fun machine types => ?_⟩
  have ends : Eval.Ends known excuse w _ _ :=
    Eval.safe_create accepted home walked machine types
  cases ran : Eval.create known.notes frame mark name machine with
  | error halt after =>
    rw [ran] at ends
    exact ends
  | ok value after =>
    rw [ran] at ends
    obtain ⟨last, grown, typesLast, yields⟩ := ends
    refine ⟨last, grown, typesLast, ?_, yields⟩
    obtain ⟨cls, _, rfl, _⟩ := Eval.create_ok ran
    obtain ⟨ty, _, shape⟩ := yields
    cases shape with
    | box instanceOf _ =>
      obtain ⟨stored, _, stands⟩ := typesLast.frame instanceOf
      obtain ⟨around, decl, boxWalked, _⟩ := stands.made _ rfl
      rw [types.frameCount]
      exact World.isOf_of_opened accepted boxWalked.opened (World.scope?_of_frames instanceOf)
    | function signature _ => cases signature

/-- A task that begins something begins with a frame for it. -/
theorem opens_clause (accepted : known.Accepted) {task : Task}
    {promise : World → task.Result → Prop} (admits : Admits known w task promise)
    {kind : ScopeKind} (begins : task.begins? = some kind) :
    (clause known.notes task).Opens known (Excused known.notes task) kind w promise := by
  cases admits with
  | invoke callable suit =>
    cases begins
    exact Clause.opens_invoke accepted callable suit
  | block home body returns =>
    cases begins
    exact Clause.opens_block accepted home body returns
  | @body outer s _ _ _ home inside owned =>
    have noBlock : ∀ b, s ≠ .block b := by
      rintro b rfl
      cases begins
    have isBlock : kind = .block := by
      cases s with
      | block b => exact absurd rfl (noBlock b)
      | _ => exact (Option.some.inj begins).symm
    subst isBlock
    exact Clause.opens_body accepted home noBlock inside owned
  | @expr frame e _ home walked =>
    cases e with
    | create mark name =>
      cases begins
      exact Clause.opens_create accepted home walked
    | _ => cases begins
  | _ => cases begins

/-! ## Chronicles -/

/-- What a passage begins has a frame in a world, for a scope of its kind. -/
def Passage.Begun (known : Analysis) (w : World) (passage : Passage) : Prop :=
  ∀ kind, passage.task.begins? = some kind → w.IsOf known kind passage.next

theorem Passage.Begun.mono {passage : Passage} (begun : passage.Begun known w) (grown : w ≤ later) :
    passage.Begun known later :=
  fun kind begins => (begun kind begins).mono grown

/-- A passage, and a world that the heap conforms to by then. -/
structure Moment where
  passage : Passage
  world : World

namespace Moment

/-- The heap conforms to the world, and the task may be asked for in it. -/
structure Sound (known : Analysis) (moment : Moment) : Prop where
  types : moment.world.Types known moment.passage.machine.heap
  admits : ∃ promise, Admits known moment.world moment.passage.task promise

/-- A world has grown since a moment, and has what was begun then. -/
structure Since (known : Analysis) (w : World) (moment : Moment) : Prop where
  grown : moment.world ≤ w
  begun : moment.passage.Begun known w

theorem Since.mono {moment : Moment} (since : moment.Since known w) (grown : w ≤ later) :
    moment.Since known later :=
  ⟨le_trans since.grown grown, since.begun.mono grown⟩

end Moment

/-- The moments of passages, from a world on. -/
structure Chronicle (known : Analysis) (w : World) (run : List Passage) (moments : List Moment) :
    Prop where
  passages : moments.map Moment.passage = run
  grown : ∀ moment ∈ moments, w ≤ moment.world
  sound : ∀ moment ∈ moments, moment.Sound known
  ordered : moments.Pairwise fun earlier moment => earlier.Since known moment.world

namespace Chronicle

variable {run rest : List Passage} {moments others : List Moment}

theorem nil : Chronicle known w [] [] where
  passages := rfl
  grown := by simp
  sound := by simp
  ordered := .nil

theorem mono (chronicle : Chronicle known later run moments) (grown : w ≤ later) :
    Chronicle known w run moments where
  passages := chronicle.passages
  grown := fun moment member => le_trans grown (chronicle.grown moment member)
  sound := chronicle.sound
  ordered := chronicle.ordered

theorem cons {passage : Passage} (sound : Moment.Sound known ⟨passage, w⟩) (grown : w ≤ later)
    (begun : passage.Begun known later) (chronicle : Chronicle known later run moments) :
    Chronicle known w (passage :: run) (⟨passage, w⟩ :: moments) where
  passages := congrArg (passage :: ·) chronicle.passages
  grown := List.forall_mem_cons.mpr
    ⟨le_refl w, fun moment member => le_trans grown (chronicle.grown moment member)⟩
  sound := List.forall_mem_cons.mpr ⟨sound, chronicle.sound⟩
  ordered := by
    refine List.pairwise_cons.mpr ⟨fun moment member => ?_, chronicle.ordered⟩
    have further := chronicle.grown moment member
    exact ⟨le_trans grown further, begun.mono further⟩

theorem append (first : Chronicle known w run moments) (grown : w ≤ later)
    (since : ∀ moment ∈ moments, moment.Since known later)
    (second : Chronicle known later rest others) :
    Chronicle known w (run ++ rest) (moments ++ others) where
  passages := by rw [List.map_append, first.passages, second.passages]
  grown := List.forall_mem_append.mpr
    ⟨first.grown, fun moment member => le_trans grown (second.grown moment member)⟩
  sound := List.forall_mem_append.mpr ⟨first.sound, second.sound⟩
  ordered := by
    refine List.pairwise_append.mpr ⟨first.ordered, second.ordered, ?_⟩
    exact fun earlier here moment there => (since earlier here).mono (second.grown moment there)

end Chronicle

/-! ## Evaluation -/

section Evaluation

variable {α : Type} {post : World → α → Prop}

/-- Whether passages have a chronicle, and if they come to a result, then one in a world that has
grown since all of them. -/
def Chronicled (known : Analysis) (w : World) (run : List Passage)
    (result : EStateM.Result Halt Machine α) (post : World → α → Prop) : Prop :=
  ∃ moments, Chronicle known w run moments ∧
    ∀ value after, result = .ok value after → ∃ last, w ≤ last ∧ last.Types known after.heap ∧
      post last value ∧ ∀ moment ∈ moments, moment.Since known last

/-- What a safe plan asks for has a chronicle, if each of its tasks does. -/
theorem Plan.Safe.chronicled {plan : Plan α} {excuse : Halt → Prop}
    (safe : plan.Safe known excuse w post) {evaluator : Evaluator} {inside : Visit → List Passage}
    (chronicled : ∀ {w : World} {visit : Visit} {promise : World → visit.task.Result → Prop},
      w.Types known visit.machine.heap → Admits known w visit.task promise →
      Chronicled known w (inside visit) (evaluator visit.task visit.machine) promise)
    {machine : Machine} (types : w.Types known machine.heap) :
    Chronicled known w ((plan.asked evaluator machine).flatMap inside)
      (plan.follow evaluator machine) post := by
  induction plan generalizing w machine with
  | done result =>
    refine ⟨[], .nil, fun value after ran => ?_⟩
    cases ran
    exact ⟨w, le_refl w, types, safe, by simp⟩
  | act step next ih =>
    have ends := safe machine types
    rw [asked]
    cases ran : step machine with
    | error halt after =>
      refine ⟨[], .nil, fun value last whole => ?_⟩
      obtain ⟨_, _, ranFirst, _⟩ := Eval.exists_of_bind_ok whole
      cases ran.symm.trans ranFirst
    | ok result after =>
      rw [ran] at ends
      obtain ⟨later, grown, typesLater, rest⟩ := ends
      obtain ⟨moments, chronicle, ended⟩ := ih result rest typesLater
      refine ⟨moments, chronicle.mono grown, fun value last whole => ?_⟩
      obtain ⟨_, _, ranFirst, ranRest⟩ := Eval.exists_of_bind_ok whole
      cases ran.symm.trans ranFirst
      obtain ⟨final, further, rest⟩ := ended value last ranRest
      exact ⟨final, le_trans grown further, rest⟩
  | ask task next ih =>
    obtain ⟨promise, admits, rest⟩ := safe
    have own : Chronicled known w (inside ⟨task, machine⟩) (evaluator task machine) promise :=
      chronicled types admits
    obtain ⟨moments, chronicle, ended⟩ := own
    rw [asked]
    cases ran : evaluator task machine with
    | error halt after =>
      refine ⟨moments, by simpa using chronicle, fun value last whole => ?_⟩
      obtain ⟨_, _, ranFirst, _⟩ := Eval.exists_of_bind_ok whole
      cases ran.symm.trans ranFirst
    | ok result after =>
      obtain ⟨later, grown, typesLater, kept, since⟩ := ended result after ran
      obtain ⟨others, chronicleLater, endedLater⟩ := ih result (rest later result grown kept)
        typesLater
      refine ⟨moments ++ others, chronicle.append grown since chronicleLater, ?_⟩
      intro value last whole
      obtain ⟨_, _, ranFirst, ranRest⟩ := Eval.exists_of_bind_ok whole
      cases ran.symm.trans ranFirst
      obtain ⟨final, further, typesLast, holds, sinceLater⟩ := endedLater value last ranRest
      refine ⟨final, le_trans grown further, typesLast, holds, List.forall_mem_append.mpr
        ⟨fun moment member => (since moment member).mono further, sinceLater⟩⟩

theorem Chronicled.cons {passage : Passage} {run : List Passage}
    {result : EStateM.Result Halt Machine α} (sound : Moment.Sound known ⟨passage, w⟩)
    (grown : w ≤ later) (begun : passage.Begun known later)
    (chronicled : Chronicled known later run result post) :
    Chronicled known w (passage :: run) result post := by
  obtain ⟨moments, chronicle, ended⟩ := chronicled
  refine ⟨_, chronicle.cons sound grown begun, fun value after ran => ?_⟩
  obtain ⟨last, further, types, holds, since⟩ := ended value after ran
  exact ⟨last, le_trans grown further, types, holds, List.forall_mem_cons.mpr
    ⟨⟨le_trans grown further, begun.mono further⟩, since⟩⟩

/-- A passage that stops at once. -/
theorem chronicled_of_stopped {passage : Passage} (sound : Moment.Sound known ⟨passage, w⟩)
    {halt : Halt} {after : Machine} :
    Chronicled known w [passage] (.error halt after : EStateM.Result Halt Machine α) post := by
  refine ⟨[⟨passage, w⟩], ⟨rfl, ?_, ?_, List.pairwise_singleton _ _⟩, nofun⟩
  · exact List.forall_mem_singleton.mpr (le_refl w)
  · exact List.forall_mem_singleton.mpr sound

end Evaluation

/-- The tasks that come up while a task is evaluated have a chronicle. -/
theorem chronicled_evaluate (accepted : known.Accepted) (fuel : Nat) (passage : Passage)
    {promise : World → passage.task.Result → Prop} (types : w.Types known passage.machine.heap)
    (admits : Admits known w passage.task promise) :
    Chronicled known w (passages known.notes fuel passage)
      (evaluate known.notes fuel passage.task passage.machine) promise := by
  have sound : Moment.Sound known ⟨passage, w⟩ := ⟨types, promise, admits⟩
  induction fuel generalizing passage w with
  | zero => exact chronicled_of_stopped sound
  | succ fuel ih =>
    have inner : ∀ {w : World} {visit : Visit} {promise : World → visit.task.Result → Prop},
        w.Types known visit.machine.heap → Admits known w visit.task promise →
        Chronicled known w (passages known.notes fuel (passage.ask visit))
          (evaluate known.notes fuel visit.task visit.machine) promise :=
      fun types admits => ih _ types admits ⟨types, _, admits⟩
    cases begins : passage.task.begins? with
    | none =>
      refine .cons sound (le_refl w) (fun kind is => ?_)
        ((safe_clause accepted admits).chronicled inner types)
      rw [begins] at is
      cases is
    | some kind =>
      obtain ⟨_, step, next, same, safe⟩ := opens_clause accepted admits begins
      have ends := safe passage.machine types
      rw [passages, evaluate, same, Plan.asked]
      cases ran : step passage.machine with
      | error halt after =>
        have stopped : (Plan.act step next).follow (evaluate known.notes fuel) passage.machine =
            .error halt after := Eval.bind_error ran
        rw [stopped]
        exact chronicled_of_stopped sound
      | ok result after =>
        rw [ran] at ends
        obtain ⟨later, grown, typesLater, isOf, rest⟩ := ends
        have goes : (Plan.act step next).follow (evaluate known.notes fuel) passage.machine =
            (next result).follow (evaluate known.notes fuel) after := Eval.bind_ok ran
        rw [goes]
        refine .cons sound grown (fun other is => ?_) (rest.chronicled inner typesLater)
        cases begins.symm.trans is
        rwa [types.frameCount] at isOf

namespace Chronicle

variable {run : List Passage} {moments : List Moment}

theorem exists_moment (chronicle : Chronicle known w run moments) {passage : Passage}
    (passed : passage ∈ run) : ∃ moment ∈ moments, moment.passage = passage := by
  rw [← chronicle.passages] at passed
  exact List.mem_map.mp passed

/-- Moments are ordered by what has been begun. -/
theorem since_or (chronicle : Chronicle known w run moments) {first second : Moment}
    (member : first ∈ moments) (memberToo : second ∈ moments) :
    first = second ∨ first.Since known second.world ∨ second.Since known first.world := by
  obtain ⟨i, bound, rfl⟩ := List.mem_iff_getElem.mp member
  obtain ⟨j, boundToo, rfl⟩ := List.mem_iff_getElem.mp memberToo
  have ordered := List.pairwise_iff_getElem.mp chronicle.ordered
  rcases Nat.lt_trichotomy i j with before | same | after
  · exact .inr (.inl (ordered i j bound boundToo before))
  · subst same
    exact .inl rfl
  · exact .inr (.inr (ordered j i boundToo bound after))

end Chronicle

namespace Program

variable {program : Program} {notes : Annotations} {fuel : Nat} {output : Sink}

/-- A run of an accepted program has a chronicle, from a world with its first two frames on. -/
theorem exists_chronicle (accepted : (program.analysis notes).Accepted) :
    ∃ w moments, Chronicle (program.analysis notes) w
        (program.passages notes fuel (.fresh output)) moments ∧
      w.IsOf (program.analysis notes) .root 1 ∧ w.frames.length = 2 := by
  obtain ⟨entries, id, started, _⟩ := Eval.start_fresh notes program output
  have ends := ends_of_start accepted output
  rw [started] at ends
  obtain ⟨w, _, types, home⟩ := ends
  have walked := Walk.body_program program.body
  have admits : Admits (program.analysis notes) w (.sequence 1 program.body) _ :=
    .sequence home Nat.zero_lt_one (Nat.lt_succ_self 1) walked.owned
  obtain ⟨moments, chronicle, _⟩ :=
    chronicled_evaluate accepted fuel ⟨1, none, .sequence 1 program.body, _⟩ types admits
  refine ⟨w, moments, ?_, World.isOf_of_opened accepted walked.opened home, types.frameCount⟩
  rw [passages, started]
  exact chronicle

end Program

end BoxScript
