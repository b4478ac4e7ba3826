import BoxScript.Proofs.Recasting.Steps
import BoxScript.Proofs.Running.Sparing

/-!
# Plans of two runs

A plan mirrors another one if both take steps that mirror one another, and ask for tasks of which
the second is the first one cast anew (`Plan.Mirrors`). If such tasks are evaluated alike, then safe
plans that mirror one another are followed alike (`Plan.Mirrors.follow`). One of two runs may want
for fuel while the other one goes on: then what it has printed is a part of what the other one has
(`Rerun.Paced`).
-/

set_option autoImplicit false

namespace BoxScript

/-! ## Tasks -/

/-- The target of an assignment stands without the parentheses around it. -/
def Task.recast (r : Recast) : Task → Task
  | .expr frame e => .expr frame (e.recast r)
  | .exprs frame es => .exprs frame (Expr.recastAll r es)
  | .condition frame e => .condition frame (e.recast r)
  | .assign frame mark target value =>
    .assign frame (r.mark mark) (target.inside r) (value.recast r)
  | .call callee arguments span =>
    .call (callee.recast r) (arguments.map (Value.recast r)) (r.span span)
  | .invoke decl outer arguments span =>
    .invoke (decl.recast r) outer (arguments.map (Value.recast r)) (r.span span)
  | .block outer b => .block outer (b.recast r)
  | .sequence frame statements => .sequence frame (Stmt.recastAll r statements)
  | .stmt frame s => .stmt frame (s.recast r)
  | .loop frame test inner => .loop frame (test.recast r) (r.enclose inner (inner.recast r))
  | .body outer s => .body outer (r.enclose s (s.recast r))

def Completion.recast (r : Recast) : Completion → Completion
  | normal => normal
  | returned value => returned (value.recast r)

/-- The result of a task of any kind. -/
inductive Answer
  | value (value : Value)
  | values (values : List Value)
  | truth (value : Bool)
  | completion (completion : Completion)

def Answer.recast (r : Recast) : Answer → Answer
  | value found => value (found.recast r)
  | values found => values (found.map (Value.recast r))
  | truth found => truth found
  | completion found => completion (found.recast r)

def Task.answer : (task : Task) → task.Result → Answer
  | .expr _ _, found | .assign _ _ _ _, found | .call _ _ _, found | .invoke _ _ _ _, found =>
    .value found
  | .exprs _ _, found => .values found
  | .condition _ _, found => .truth found
  | .block _ _, found | .sequence _ _, found | .stmt _ _, found | .loop _ _ _, found
  | .body _ _, found => .completion found

namespace Rerun

variable {rerun : Rerun}

/-- Whether what a task is about, apart from the parts of the program in it, goes with what the task
cast anew is about: the place of a call, and the type of an assignment. -/
def Places (rerun : Rerun) : Task → Prop
  | .call _ _ span | .invoke _ _ _ span => rerun.spans span (rerun.recast.span span)
  | .assign _ mark _ _ => rerun.image.typeOf? mark.id = rerun.known.notes.typeOf? mark.id
  | _ => True

/-- Results of a task and of another one, which is the first one cast anew. -/
def Answers (rerun : Rerun) (task other : Task) (result : task.Result) (answer : other.Result) :
    Prop :=
  other.answer answer = (task.answer result).recast rerun.recast

/-- Steps that end alike on two machines, or of which one wants for fuel, as the pace has it, and
has printed a part of what the other one has. -/
inductive Paced (rerun : Rerun) {α β : Type} (post : α → β → Prop) (step : Eval α) (other : Eval β)
    (machine image : Machine) : Prop
  | alike (ends : rerun.Ends post (step machine) (other image)) :
      Paced rerun post step other machine image
  | ahead {after : Machine} (pace : rerun.pace = .ahead)
      (stops : step machine = .error .outOfFuel after)
      (printed : after.output.text.toList <+: (other.left image).output.text.toList) :
      Paced rerun post step other machine image
  | behind {after : Machine} (pace : rerun.pace = .behind)
      (stops : other image = .error .outOfFuel after)
      (printed : after.output.text.toList <+: (step.left machine).output.text.toList) :
      Paced rerun post step other machine image

/-- Two steps, where what comes after the first of them spares what it leaves. -/
theorem Paced.bind {α β γ δ : Type} {middle : α → β → Prop} {last : γ → δ → Prop} {step : Eval α}
    {other : Eval β} {next : α → Eval γ} {continued : β → Eval δ} {machine image : Machine}
    (first : rerun.Paced middle step other machine image)
    (spares : ∀ a after, step machine = .ok a after → after.Spares ((next a).left after))
    (sparesToo : ∀ b after, other image = .ok b after → after.Spares ((continued b).left after))
    (further : ∀ a b after afterToo, step machine = .ok a after → other image = .ok b afterToo →
      middle a b → after.Recasts rerun.recast afterToo →
      rerun.Paced last (next a) (continued b) after afterToo) :
    rerun.Paced last (step >>= next) (other >>= continued) machine image := by
  cases first with
  | ahead pace stops printed =>
    exact .ahead pace (Eval.bind_error stops) (printed.trans (Eval.spares_rest sparesToo).output)
  | behind pace stops printed =>
    exact .behind pace (Eval.bind_error stops) (printed.trans (Eval.spares_rest spares).output)
  | alike ends =>
    cases ran : step machine with
    | error halt after =>
      rw [ran] at ends
      cases ranToo : other image with
      | ok b afterToo =>
        rw [ranToo] at ends
        cases ends
      | error halted afterToo =>
        rw [ranToo] at ends
        refine .alike ?_
        rw [Eval.bind_error ran, Eval.bind_error ranToo]
        cases ends with
        | failed causes spans machines => exact .failed causes spans machines
        | outOfFuel machines => exact .outOfFuel machines
    | ok a after =>
      rw [ran] at ends
      cases ranToo : other image with
      | error halted afterToo =>
        rw [ranToo] at ends
        cases ends
      | ok b afterToo =>
        rw [ranToo] at ends
        cases ends with
        | ok holds machines =>
          have whole : (step >>= next) machine = next a after := Eval.bind_ok ran
          have wholeToo : (other >>= continued) image = continued b afterToo := Eval.bind_ok ranToo
          cases further a b after afterToo ran ranToo holds machines with
          | alike ends => exact .alike (by rwa [whole, wholeToo])
          | ahead pace stops printed =>
            refine .ahead pace (whole.trans stops) ?_
            rwa [Eval.left, wholeToo]
          | behind pace stops printed =>
            refine .behind pace (wholeToo.trans stops) ?_
            rwa [Eval.left, whole]

/-- Evaluators that come to the same, on machines where tasks are in frames on the ground. -/
def Evaluates (rerun : Rerun) (evaluator other : Evaluator) : Prop :=
  ∀ ⦃task : Task⦄ ⦃w : World⦄ ⦃promise : World → task.Result → Prop⦄,
    Admits rerun.known w task promise → rerun.Places task → ∀ ⦃machine image : Machine⦄,
    w.Types rerun.known machine.heap → machine.Recasts rerun.recast image →
    task.Grounded machine.heap → (task.recast rerun.recast).Grounded image.heap →
    rerun.Paced (rerun.Answers task (task.recast rerun.recast)) (evaluator task)
      (other (task.recast rerun.recast)) machine image

end Rerun

/-! ## Plans -/

/-- Plans that take steps and ask for tasks that go with each other. -/
inductive Plan.Mirrors (rerun : Rerun) {α β : Type} (post : World → α → β → Prop) :
    World → Plan α → Plan β → Prop
  | done {w : World} {result : α} {answer : β} (holds : post w result answer) :
      Mirrors rerun post w (.done result) (.done answer)
  | act {w : World} {γ δ : Type} {step : Eval γ} {other : Eval δ} {next : γ → Plan α}
      {continued : δ → Plan β} (middle : γ → δ → Prop) (steps : rerun.StepsIn w step other middle)
      (rest : ∀ later a b, w ≤ later → middle a b →
        Mirrors rerun post later (next a) (continued b)) :
      Mirrors rerun post w (.act step next) (.act other continued)
  | ask {w : World} {task : Task} {next : task.Result → Plan α}
      {continued : (task.recast rerun.recast).Result → Plan β} (places : rerun.Places task)
      (rest : ∀ promise later a b, Admits rerun.known w task promise → w ≤ later →
        promise later a → rerun.Answers task (task.recast rerun.recast) a b →
        Mirrors rerun post later (next a) (continued b)) :
      Mirrors rerun post w (.ask task next) (.ask (task.recast rerun.recast) continued)

namespace Plan

variable {rerun : Rerun} {α β γ δ : Type} {w : World} {post : World → α → β → Prop}

/-! ## Putting plans together -/

theorem mirrors_pure {result : α} {answer : β} (holds : post w result answer) :
    Mirrors rerun post w (pure result) (pure answer) :=
  .done holds

theorem Mirrors.bind {plan : Plan γ} {other : Plan δ} {middle : World → γ → δ → Prop}
    {next : γ → Plan α} {continued : δ → Plan β} (first : Mirrors rerun middle w plan other)
    (second : ∀ later a b, w ≤ later → middle later a b →
      Mirrors rerun post later (next a) (continued b)) :
    Mirrors rerun post w (plan >>= next) (other >>= continued) := by
  change Mirrors rerun post w (plan.bind next) (other.bind continued)
  induction first with
  | @done w a b holds => exact second w a b (le_refl w) holds
  | act middle steps _ ih =>
    refine .act middle steps fun later a b grown holds => ih later a b grown holds ?_
    exact fun last a b further => second last a b (le_trans grown further)
  | ask places _ ih =>
    refine .ask places fun promise later a b admits grown kept holds =>
      ih promise later a b admits grown kept holds ?_
    exact fun last a b further => second last a b (le_trans grown further)

theorem Mirrors.mono {plan : Plan α} {other : Plan β} {weaker : World → α → β → Prop}
    (mirrors : Mirrors rerun post w plan other)
    (implies : ∀ later a b, post later a b → weaker later a b) :
    Mirrors rerun weaker w plan other := by
  induction mirrors with
  | done holds => exact .done (implies _ _ _ holds)
  | act middle steps _ ih => exact .act middle steps ih
  | ask places _ ih => exact .ask places ih

/-- Steps on the machine. -/
theorem mirrors_step {step : Eval α} {other : Eval β} {middle : α → β → Prop}
    (steps : rerun.StepsIn w step other middle) :
    Mirrors rerun (fun _ => middle) w (liftM step) (liftM other) :=
  .act middle steps fun _ _ _ _ holds => .done holds

/-! ## Tasks -/

/-- A task that is asked for, and the task cast anew. -/
theorem mirrors_task (rerun : Rerun) (task : Task) (places : rerun.Places task) :
    Mirrors rerun (fun _ => rerun.Answers task (task.recast rerun.recast)) w (run task)
      (run (task.recast rerun.recast)) :=
  .ask places fun _ _ _ _ _ _ _ holds => .done holds

/-- An expression, whose value has the shape of its type. -/
theorem mirrors_expr (rerun : Rerun) (frame : FrameId) (e : Expr) :
    Mirrors rerun (fun later value other =>
        later.Yields rerun.known e value ∧ other = value.recast rerun.recast) w
      (run (.expr frame e)) (run (.expr frame (e.recast rerun.recast))) := by
  have asked : Mirrors rerun (fun later (value other : Value) =>
        later.Yields rerun.known e value ∧ other = value.recast rerun.recast) w
      (.ask (.expr frame e) .done) (.ask (Task.recast rerun.recast (.expr frame e)) .done) := by
    refine .ask trivial fun promise later value other admits _ kept holds => ?_
    cases admits
    exact .done ⟨kept, Answer.value.inj holds⟩
  exact asked

/-! ## Following plans -/

/-- Safe plans that mirror one another are followed alike. -/
theorem Mirrors.follow {plan : Plan α} {other : Plan β} {R : α → β → Prop}
    (mirrors : Mirrors rerun (fun _ => R) w plan other) {excuse : Halt → Prop}
    {kept : World → α → Prop} (safe : plan.Safe rerun.known excuse w kept)
    {evaluator evaluatorToo : Evaluator} (sound : evaluator.Sound rerun.known)
    (evaluates : rerun.Evaluates evaluator evaluatorToo) (spareful : evaluator.Sparing)
    (sparefulToo : evaluatorToo.Sparing) {machine image : Machine}
    (types : w.Types rerun.known machine.heap) (recasts : machine.Recasts rerun.recast image)
    (sparing : plan.Sparing machine) (sparingToo : other.Sparing image) :
    rerun.Paced R (plan.follow evaluator) (other.follow evaluatorToo) machine image := by
  induction mirrors generalizing machine image with
  | done holds => exact .alike (.ok holds recasts)
  | act middle steps _ ih =>
    have ends := safe machine types
    have rest := (sparing machine (.refl machine)).2
    have restToo := (sparingToo image (.refl image)).2
    refine Rerun.Paced.bind (.alike (steps machine image types recasts))
      (fun a after ran => (rest a after ran).follow spareful (.refl after))
      (fun b after ran => (restToo b after ran).follow sparefulToo (.refl after)) ?_
    intro a b after afterToo ran ranToo holds recastsLater
    rw [ran] at ends
    obtain ⟨later, grown, typesLater, safeLater⟩ := ends
    exact ih later a b grown holds safeLater typesLater recastsLater (rest a after ran)
      (restToo b afterToo ranToo)
  | @ask w task next continued places _ ih =>
    obtain ⟨promise, admits, safeLater⟩ := safe
    have ends := sound admits machine types
    have rest : ∀ a after, evaluator task machine = .ok a after → (next a).Sparing after := by
      intro a after ran
      have spares := spareful task machine sparing.1
      rw [Eval.left, ran] at spares
      exact (sparing.2 a).mono spares
    have restToo : ∀ b after, evaluatorToo (task.recast rerun.recast) image = .ok b after →
        (continued b).Sparing after := by
      intro b after ran
      have spares := sparefulToo (task.recast rerun.recast) image sparingToo.1
      rw [Eval.left, ran] at spares
      exact (sparingToo.2 b).mono spares
    refine Rerun.Paced.bind (evaluates admits places types recasts sparing.1 sparingToo.1)
      (fun a after ran => (rest a after ran).follow spareful (.refl after))
      (fun b after ran => (restToo b after ran).follow sparefulToo (.refl after)) ?_
    intro a b after afterToo ran ranToo holds recastsLater
    rw [ran] at ends
    obtain ⟨later, grown, typesLater, keeps⟩ := ends
    exact ih promise later a b admits grown keeps holds (safeLater later a grown keeps) typesLater
      recastsLater (rest a after ran) (restToo b afterToo ranToo)

end Plan

end BoxScript
