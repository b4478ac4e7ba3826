import BoxScript.Proofs.Rules.Effects
import Mathlib.Data.List.Forall2

/-!
# Rules that mirror one another

Two analyses are compared through a mirror. It says which question of the one analysis is which of
the other, which declarations of the two tables go with each other, and which errors do. An answer
is mirrored by one of the same sort: a type by itself, a declaration by the one that goes with it.

A script mirrors another one if both take the same steps, whatever mirrored answers they read. Then
attempts at the two under stores with mirrored slots come to the same (`Script.Mirrors.attempt`).
Nothing is said of the stores otherwise: a question may be read that the other analysis reads under
another name, and either store may hold more.
-/

set_option autoImplicit false

namespace BoxScript

/-! ## Types made of given declarations -/

mutual

/-- Whether all structs and boxes in a type are declared by given nodes. -/
def Ty.Within (owners : NodeId → Prop) : Ty → Prop
  | .int | .float | .bool | .string | .void | .null | .type => True
  | .array component => component.Within owners
  | .struct named | .box named => owners named.decl
  | .function params result => Ty.AllWithin owners params ∧ result.Within owners

def Ty.AllWithin (owners : NodeId → Prop) : List Ty → Prop
  | [] => True
  | ty :: rest => ty.Within owners ∧ Ty.AllWithin owners rest

end

theorem Ty.allWithin_iff {owners : NodeId → Prop} {types : List Ty} :
    Ty.AllWithin owners types ↔ ∀ ty ∈ types, ty.Within owners := by
  induction types with
  | nil => simp [AllWithin]
  | cons ty rest ih => simp [AllWithin, ih]

mutual

theorem Ty.within_of_forall {owners : NodeId → Prop} (all : ∀ node, owners node) :
    ∀ ty : Ty, ty.Within owners
  | .int | .float | .bool | .string | .void | .null | .type => trivial
  | .array component => Ty.within_of_forall all component
  | .struct named | .box named => all named.decl
  | .function params result =>
    ⟨Ty.allWithin_of_forall all params, Ty.within_of_forall all result⟩

theorem Ty.allWithin_of_forall {owners : NodeId → Prop} (all : ∀ node, owners node) :
    ∀ types : List Ty, Ty.AllWithin owners types
  | [] => trivial
  | ty :: rest => ⟨Ty.within_of_forall all ty, Ty.allWithin_of_forall all rest⟩

end

/-! ## Mirrors -/

/-- How two analyses are compared: their symbol tables, the questions that a question is mirrored
by, the declarations and the places in the source that go with each other, and the nodes whose
structs and boxes may come up. A lenient mirror does not look at what errors say. -/
structure Mirror where
  left : SymbolTable
  right : SymbolTable
  reads : FactKey → FactKey → Prop
  decls : DeclId → DeclId → Prop
  spans : Span → Span → Prop
  owners : NodeId → Prop
  lenient : Prop

namespace Mirror

/-- Errors that go with each other. -/
def Errors (mirror : Mirror) (error other : SemanticError) : Prop :=
  mirror.lenient ∨ (other.cause = error.cause ∧ mirror.spans error.span other.span)

/-- Answers that go with each other. -/
inductive Answers (mirror : Mirror) : FactValue → FactValue → Prop
  | type {ty : Ty} (within : ty.Within mirror.owners) : Answers mirror (.type ty) (.type ty)
  | decl {id other : DeclId} (goes : mirror.decls id other) :
      Answers mirror (.decl id) (.decl other)
  | flag {value : Bool} : Answers mirror (.flag value) (.flag value)

/-- Slots that go with each other. -/
inductive Slots (mirror : Mirror) : Option Slot → Option Slot → Prop
  | none : Slots mirror none none
  | known {value other : FactValue} (goes : mirror.Answers value other) :
      Slots mirror (some (.known value)) (some (.known other))
  | poisoned : Slots mirror (some .poisoned) (some .poisoned)

/-- Stores whose slots go with each other, as far as they are read. -/
def Stores (mirror : Mirror) (facts other : FactStore) : Prop :=
  ∀ key image, mirror.reads key image → mirror.Slots (facts.get? key) (other.get? image)

/-- Writes of the same questions, with answers that go with each other. -/
def Writes (mirror : Mirror) : List (FactKey × FactValue) → List (FactKey × FactValue) → Prop :=
  List.Forall₂ fun write other => other.1 = write.1 ∧ mirror.Answers write.2 other.2

/-- Attempts that come to the same. -/
inductive Attempts (mirror : Mirror) : Attempt → Attempt → Prop
  | completed {writes others : List (FactKey × FactValue)} {errors found : List SemanticError}
      (written : mirror.Writes writes others) (reported : List.Forall₂ mirror.Errors errors found) :
      Attempts mirror (.completed writes errors) (.completed others found)
  | missing {key image : FactKey} (goes : mirror.reads key image) :
      Attempts mirror (.missing key) (.missing image)
  | poisoned : Attempts mirror .poisoned .poisoned

variable {mirror : Mirror}

theorem Attempts.addWrite {key : FactKey} {value image : FactValue} {attempt other : Attempt}
    (same : mirror.Attempts attempt other) (goes : mirror.Answers value image) :
    mirror.Attempts (attempt.addWrite key value) (other.addWrite key image) := by
  cases same with
  | completed written reported => exact .completed (.cons ⟨rfl, goes⟩ written) reported
  | missing reads => exact .missing reads
  | poisoned => exact .poisoned

theorem Attempts.addError {error image : SemanticError} {attempt other : Attempt}
    (same : mirror.Attempts attempt other) (goes : mirror.Errors error image) :
    mirror.Attempts (attempt.addError error) (other.addError image) := by
  cases same with
  | completed written reported => exact .completed written (.cons goes reported)
  | missing reads => exact .missing reads
  | poisoned => exact .poisoned

end Mirror

/-! ## Scripts -/

namespace Script

variable {mirror : Mirror}

/-- Scripts that take the same steps, whatever answers they read that go with each other, and whose
results are related. -/
def Mirrors (mirror : Mirror) {α β : Type} : Script α → Script β → (α → β → Prop) → Prop
  | done result, done other, post => post result other
  | read key next, read image other, post =>
    mirror.reads key image ∧
      ∀ value answer, mirror.Answers value answer → (next value).Mirrors mirror (other answer) post
  | write key value next, write image answer other, post =>
    image = key ∧ mirror.Answers value answer ∧ next.Mirrors mirror other post
  | report error next, report found other, post =>
    mirror.Errors error found ∧ next.Mirrors mirror other post
  | drop, drop, _ => True
  | _, _, _ => False

theorem Mirrors.attempt {script other : Script Unit} {post : Unit → Unit → Prop}
    {facts found : FactStore} (mirrors : script.Mirrors mirror other post)
    (stores : mirror.Stores facts found) :
    mirror.Attempts (script.attempt facts) (other.attempt found) := by
  induction script generalizing other with
  | done result =>
    cases other <;> first | exact mirrors.elim | exact .completed .nil .nil
  | read key next ih =>
    cases other with
    | read image rest =>
      obtain ⟨reads, continues⟩ := mirrors
      have slots := stores key image reads
      simp only [Script.attempt]
      generalize facts.get? key = slot at slots
      generalize found.get? image = reflection at slots
      cases slots with
      | none => exact .missing reads
      | known goes => exact ih _ (continues _ _ goes)
      | poisoned => exact .poisoned
    | _ => exact mirrors.elim
  | write key value next ih =>
    cases other with
    | write image answer rest =>
      obtain ⟨rfl, goes, continues⟩ := mirrors
      exact (ih continues).addWrite goes
    | _ => exact mirrors.elim
  | report error next ih =>
    cases other with
    | report found rest => exact (ih mirrors.2).addError mirrors.1
    | _ => exact mirrors.elim
  | drop =>
    cases other <;> first | exact mirrors.elim | exact .poisoned

/-! ## Putting scripts together -/

section Parts

variable {α β γ δ : Type} {post : γ → δ → Prop}

theorem mirrors_pure {result : γ} {other : δ} (holds : post result other) :
    (pure result : Script γ).Mirrors mirror (pure other : Script δ) post :=
  holds

theorem mirrors_bind {script : Script α} {other : Script β} {next : α → Script γ}
    {continued : β → Script δ} {middle : α → β → Prop} (first : script.Mirrors mirror other middle)
    (second : ∀ a b, middle a b → (next a).Mirrors mirror (continued b) post) :
    (script >>= next).Mirrors mirror (other >>= continued) post := by
  change (script.bind next).Mirrors mirror (other.bind continued) post
  induction script generalizing other with
  | done result =>
    cases other with
    | done answer => exact second result answer first
    | _ => exact first.elim
  | read key rest ih =>
    cases other with
    | read image others =>
      exact ⟨first.1, fun value answer goes => ih value (first.2 value answer goes)⟩
    | _ => exact first.elim
  | write key value rest ih =>
    cases other with
    | write image answer others => exact ⟨first.1, first.2.1, ih first.2.2⟩
    | _ => exact first.elim
  | report error rest ih =>
    cases other with
    | report found others => exact ⟨first.1, ih first.2⟩
    | _ => exact first.elim
  | drop =>
    cases other with
    | drop => trivial
    | _ => exact first.elim

theorem mirrors_mapM {script : α → Script γ} {other : β → Script δ} {as : List α} {bs : List β}
    (each : List.Forall₂ (fun a b => (script a).Mirrors mirror (other b) post) as bs) :
    (as.mapM script).Mirrors mirror (bs.mapM other) (List.Forall₂ post) := by
  induction each with
  | nil => exact mirrors_pure .nil
  | cons first _ ih =>
    rw [List.mapM_cons, List.mapM_cons]
    refine mirrors_bind first fun a b here => ?_
    exact mirrors_bind ih fun as bs rest => mirrors_pure (.cons here rest)

end Parts

/-! ## Reading and writing -/

section Steps

variable {node image : NodeId}

theorem mirrors_typeOf (reads : mirror.reads ⟨node, .type⟩ ⟨image, .type⟩) :
    (typeOf node).Mirrors mirror (typeOf image) fun ty other =>
      other = ty ∧ ty.Within mirror.owners := by
  refine ⟨reads, fun value answer goes => ?_⟩
  cases goes with
  | type within => exact ⟨rfl, within⟩
  | _ => trivial

theorem mirrors_declTypeOf (reads : mirror.reads ⟨node, .declType⟩ ⟨image, .declType⟩) :
    (declTypeOf node).Mirrors mirror (declTypeOf image) fun ty other =>
      other = ty ∧ ty.Within mirror.owners := by
  refine ⟨reads, fun value answer goes => ?_⟩
  cases goes with
  | type within => exact ⟨rfl, within⟩
  | _ => trivial

theorem mirrors_declOf (reads : mirror.reads ⟨node, .decl⟩ ⟨image, .decl⟩) :
    (declOf node).Mirrors mirror (declOf image) mirror.decls := by
  refine ⟨reads, fun value answer goes => ?_⟩
  cases goes with
  | decl goes => exact goes
  | _ => trivial

theorem mirrors_returnsOf (reads : mirror.reads ⟨node, .returns⟩ ⟨image, .returns⟩) :
    (returnsOf node).Mirrors mirror (returnsOf image) fun value other => other = value := by
  refine ⟨reads, fun value answer goes => ?_⟩
  cases goes with
  | flag => rfl
  | _ => trivial

theorem mirrors_setType {ty : Ty} (within : ty.Within mirror.owners) :
    (setType node ty).Mirrors mirror (setType node ty) fun _ _ => True :=
  ⟨rfl, .type within, trivial⟩

theorem mirrors_setDeclType {ty : Ty} (within : ty.Within mirror.owners) :
    (setDeclType node ty).Mirrors mirror (setDeclType node ty) fun _ _ => True :=
  ⟨rfl, .type within, trivial⟩

theorem mirrors_setDecl {id other : DeclId} (goes : mirror.decls id other) :
    (setDecl node id).Mirrors mirror (setDecl node other) fun _ _ => True :=
  ⟨rfl, .decl goes, trivial⟩

theorem mirrors_setReturns {value : Bool} :
    (setReturns node value).Mirrors mirror (setReturns node value) fun _ _ => True :=
  ⟨rfl, .flag, trivial⟩

/-- The same error at places that go with each other. -/
theorem mirrors_error {cause : SemanticError.Cause} {span place : Span}
    (spans : mirror.spans span place) :
    (error cause span).Mirrors mirror (error cause place) fun _ _ => True :=
  ⟨.inr ⟨rfl, spans⟩, trivial⟩

/-- The same error but for a name, which a lenient mirror does not look at. -/
theorem mirrors_error_named {name other : String} {span place : Span}
    (cause : String → SemanticError.Cause) (named : mirror.lenient ∨ other = name)
    (spans : mirror.spans span place) :
    (error (cause name) span).Mirrors mirror (error (cause other) place) fun _ _ => True := by
  refine ⟨?_, trivial⟩
  rcases named with lenient | rfl
  · exact .inl lenient
  · exact .inr ⟨rfl, spans⟩

end Steps

end Script

/-! ## Rules -/

namespace Rule

/-- The error that reports a rule stuck. -/
def stuckError (rule : Rule) : SemanticError := ⟨.unresolved (.stuck rule.what), rule.span⟩

/-- Rules that are to answer the same questions, and come to the same under stores that go with each
other. -/
structure Mirrors (mirror : Mirror) (rule other : Rule) : Prop where
  produces : other.produces = rule.produces
  stuck : mirror.Errors rule.stuckError other.stuckError
  attempt : ∀ facts found, mirror.Stores facts found →
    mirror.Attempts (rule.attempt mirror.left facts) (other.attempt mirror.right found)

theorem mirrors_ofScript {mirror : Mirror} {produces : List FactKey} {what called : String}
    {span place : Span} {script other : SymbolTable → Script Unit}
    (named : mirror.lenient ∨ called = what) (spans : mirror.spans span place)
    (scripts : (script mirror.left).Mirrors mirror (other mirror.right) fun _ _ => True) :
    Mirrors mirror (ofScript produces what span script) (ofScript produces called place other) where
  produces := rfl
  stuck := by
    rcases named with lenient | rfl
    · exact .inl lenient
    · exact .inr ⟨rfl, spans⟩
  attempt := fun _ _ stores => scripts.attempt stores

end Rule

end BoxScript
