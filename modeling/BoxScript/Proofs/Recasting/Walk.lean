import BoxScript.Proofs.Recasting.Trees
import BoxScript.Proofs.Rules.Counterparts
import BoxScript.Proofs.Typing.System
import BoxScript.Proofs.Walking.Scopes

/-!
# The walk over a tree cast anew

The walk over a tree cast anew takes the steps of the walk over the tree, in the same order
(`Walk.alike_stmts` and the lemmas before it). The scopes may have other numbers, as they do when
other statements are gone through before. The one thing that is added are the rules of parentheses
and braces, each of which copies an answer about the node inside it.

The rules of the two walks mirror one another as soon as the mirror takes each node of the tree for
itself, and parentheses or braces for what they are put around (`Recast.Fits`). For rules that look
names up this needs to be known of the two symbol tables too, so their steps are only said to have
parts that mirror one another.
-/

set_option autoImplicit false

namespace BoxScript

/-! ## Lists with more in the second one -/

/-- Lists with related items, of which the second may have others of a kind in between. -/
inductive Matched {α β : Type} (R : α → β → Prop) (extra : β → Prop) : List α → List β → Prop
  | nil : Matched R extra [] []
  | cons {a : α} {b : β} {as : List α} {bs : List β} (first : R a b)
      (rest : Matched R extra as bs) : Matched R extra (a :: as) (b :: bs)
  | skip {b : β} {as : List α} {bs : List β} (first : extra b) (rest : Matched R extra as bs) :
      Matched R extra as (b :: bs)

namespace Matched

variable {α β : Type} {R : α → β → Prop} {extra : β → Prop} {as more : List α} {bs others : List β}

theorem append (first : Matched R extra as bs) (second : Matched R extra more others) :
    Matched R extra (as ++ more) (bs ++ others) := by
  induction first with
  | nil => exact second
  | cons here _ ih => exact .cons here ih
  | skip here _ ih => exact .skip here ih

theorem single {a : α} {b : β} (here : R a b) : Matched R extra [a] [b] := .cons here .nil

theorem of_forall₂ (all : List.Forall₂ R as bs) : Matched R extra as bs := by
  induction all with
  | nil => exact .nil
  | cons here _ ih => exact .cons here ih

theorem of_extra (all : ∀ b ∈ bs, extra b) : Matched R extra [] bs := by
  induction bs with
  | nil => exact .nil
  | cons b bs ih =>
    exact .skip (all b List.mem_cons_self)
      (ih fun b member => all b (List.mem_cons_of_mem _ member))

theorem append_extra (matched : Matched R extra as bs) (all : ∀ b ∈ others, extra b) :
    Matched R extra as (bs ++ others) := by
  simpa using matched.append (of_extra all)

theorem extra_append (all : ∀ b ∈ others, extra b) (matched : Matched R extra as bs) :
    Matched R extra as (others ++ bs) := by
  simpa using (of_extra all).append matched

theorem forall₂ (matched : Matched R extra as bs) (none : ∀ b, ¬ extra b) :
    List.Forall₂ R as bs := by
  induction matched with
  | nil => exact .nil
  | cons here _ ih => exact .cons here ih
  | skip here _ _ => exact absurd here (none _)

theorem mem_right (matched : Matched R extra as bs) {b : β} (member : b ∈ bs) :
    (∃ a ∈ as, R a b) ∨ extra b := by
  induction matched with
  | nil => cases member
  | cons here _ ih =>
    rcases List.mem_cons.mp member with rfl | member
    · exact .inl ⟨_, List.mem_cons_self, here⟩
    · rcases ih member with ⟨a, found, related⟩ | added
      · exact .inl ⟨a, List.mem_cons_of_mem _ found, related⟩
      · exact .inr added
  | skip here _ ih =>
    rcases List.mem_cons.mp member with rfl | member
    · exact .inr here
    · exact ih member

theorem mem_left (matched : Matched R extra as bs) {a : α} (member : a ∈ as) :
    ∃ b ∈ bs, R a b := by
  induction matched with
  | nil => cases member
  | cons here _ ih =>
    rcases List.mem_cons.mp member with rfl | member
    · exact ⟨_, List.mem_cons_self, here⟩
    · obtain ⟨b, found, related⟩ := ih member
      exact ⟨b, List.mem_cons_of_mem _ found, related⟩
  | skip here _ ih =>
    obtain ⟨b, found, related⟩ := ih member
    exact ⟨b, List.mem_cons_of_mem _ found, related⟩

theorem imp {S : α → β → Prop} (matched : Matched R extra as bs)
    (implies : ∀ a ∈ as, ∀ b ∈ bs, R a b → S a b) : Matched S extra as bs := by
  induction matched with
  | nil => exact .nil
  | cons here _ ih =>
    refine .cons (implies _ List.mem_cons_self _ List.mem_cons_self here) (ih ?_)
    intro a member b found
    exact implies a (List.mem_cons_of_mem _ member) b (List.mem_cons_of_mem _ found)
  | skip here _ ih =>
    refine .skip here (ih ?_)
    intro a member b found
    exact implies a member b (List.mem_cons_of_mem _ found)

theorem imp_extra {further : β → Prop} (matched : Matched R extra as bs)
    (implies : ∀ b ∈ bs, extra b → further b) : Matched R further as bs := by
  induction matched with
  | nil => exact .nil
  | cons here _ ih => exact .cons here (ih fun b found => implies b (List.mem_cons_of_mem _ found))
  | skip here _ ih =>
    exact .skip (implies _ List.mem_cons_self here)
      (ih fun b found => implies b (List.mem_cons_of_mem _ found))

/-- What is matched is what a test tells apart from the rest. -/
theorem forall₂_filter {test : β → Bool} (matched : Matched R extra as bs)
    (kept : ∀ a b, R a b → test b = true) (dropped : ∀ b, extra b → test b = false) :
    List.Forall₂ R as (bs.filter test) := by
  induction matched with
  | nil => exact .nil
  | cons here _ ih =>
    rw [List.filter_cons_of_pos (kept _ _ here)]
    exact .cons here ih
  | skip here _ ih =>
    rw [List.filter_cons_of_neg (by simp [dropped _ here])]
    exact ih

end Matched

/-! ## Nodes that are taken for one another -/

/-- The name of what a node declares. -/
def Node.declares? : Node → Option String
  | .name typed => some typed.name
  | .stmt s => s.declaredName?
  | .method decl => some decl.name
  | _ => none

/-- A statement that is no block is a node of its own. -/
theorem Stmt.mem_nodes_self (s : Stmt) (noBlock : ∀ b, s ≠ .block b) : .stmt s ∈ s.nodes := by
  cases s with
  | block b => exact absurd rfl (noBlock b)
  | ifElse mark condition thenBody elseBody =>
    cases elseBody <;> exact List.mem_append_right _ List.mem_cons_self
  | «return» mark value =>
    cases value with
    | none => exact List.mem_cons_self
    | some value => exact List.mem_append_right _ List.mem_cons_self
  | _ => exact List.mem_append_right _ List.mem_cons_self

/-- A node is marked as a statement is: the statement, or the block that it is. -/
theorem Stmt.exists_node (s : Stmt) : ∃ node ∈ s.nodes, node.mark = s.mark := by
  by_cases noBlock : ∀ b, s ≠ .block b
  · exact ⟨_, s.mem_nodes_self noBlock, rfl⟩
  · obtain ⟨⟨mark, body⟩, rfl⟩ := not_forall_not.mp noBlock
    exact ⟨_, List.mem_append_right _ List.mem_cons_self, rfl⟩

/-- A step whose rule copies an answer about a node inside parentheses or braces. -/
inductive Step.Copies : Step → FactKey → FactKey → Prop
  | paren {scope : ScopeId} {expectation : Expectation} {mark : Mark} {inner : Expr} :
      Copies (.expr scope expectation (.paren mark inner)) ⟨inner.id, .type⟩ ⟨mark.id, .type⟩
  | block {mark : Mark} {last : NodeId} :
      Copies (.rule (.blockReturns mark (some last))) ⟨last, .returns⟩ ⟨mark.id, .returns⟩

/-- Questions about parentheses or braces that are put around one of some nodes, and about the
node. -/
inductive Recast.Wraps (r : Recast) (nodes : List Node) : FactKey → FactKey → Prop
  | paren {e : Expr} {id : NodeId} (own : .expr e ∈ nodes) (put : r.paren e.id = some id) :
      Wraps r nodes ⟨e.id, .type⟩ ⟨id, .type⟩
  | brace {s : Stmt} {id : NodeId} (own : .stmt s ∈ nodes) (put : r.brace s.id = some id) :
      Wraps r nodes ⟨s.id, .returns⟩ ⟨id, .returns⟩

theorem Recast.Unwrapped.not_wraps {r : Recast} (unwrapped : r.Unwrapped) {nodes : List Node}
    (key image : FactKey) : ¬ r.Wraps nodes key image := by
  rintro (⟨_, put⟩ | ⟨_, put⟩)
  · rw [unwrapped.paren] at put
    cases put
  · rw [unwrapped.brace] at put
    cases put

/-- A step for parentheses or braces that are put around one of some nodes. -/
def Step.Added (r : Recast) (nodes : List Node) (step : Step) : Prop :=
  ∃ key image, step.Copies key image ∧ r.Wraps nodes key image

theorem Recast.Unwrapped.not_added {r : Recast} (unwrapped : r.Unwrapped) {nodes : List Node}
    (step : Step) : ¬ step.Added r nodes := by
  rintro ⟨key, image, _, wraps⟩
  exact unwrapped.not_wraps _ _ wraps

/-- A mirror that takes the nodes of a tree for those of the tree cast anew, and parentheses and
braces that are added for what they are put around. -/
structure Recast.Fits (r : Recast) (mirror : Mirror) (nodes : List Node) (whole : List Step) :
    Prop where
  own : ∀ node ∈ nodes, ∀ kind, mirror.reads ⟨node.id, kind⟩ ⟨node.id, kind⟩
  spans : ∀ node ∈ nodes, mirror.spans node.mark.span (r.span node.mark.span)
  copies : ∀ step ∈ whole, ∀ key image, step.Copies key image →
    r.Wraps nodes key image → mirror.reads key image
  names : mirror.lenient ∨ ∀ id name, r.name id name = name

/-! ## Steps that mirror one another -/

/-- How what a node declares is called. -/
def Recast.called (r : Recast) (kind : DeclKind) (node : NodeId) (name : String) : String :=
  match kind with
  | .var | .param => r.name node name
  | _ => name

/-- The position from which what is declared at a place is visible. -/
def DeclKind.visibleFrom (kind : DeclKind) (span : Span) : Nat :=
  match kind with
  | .var => span.stop.offset
  | _ => 0

/-- An expression whose parts mirror those of the expression cast anew. -/
def Mirror.Covers (mirror : Mirror) (r : Recast) : Expr → Prop
  | .array _ elements => ∀ e ∈ elements, mirror.Parts e (e.recast r)
  | .paren _ inner | .unary _ _ inner | .field _ inner _ | .member _ inner _ =>
    mirror.Parts inner (inner.recast r)
  | .binary _ _ left right | .index _ left right =>
    mirror.Parts left (left.recast r) ∧ mirror.Parts right (right.recast r)
  | .assign _ target value =>
    mirror.Parts target (target.recast r) ∧ mirror.Parts value (value.recast r) ∧
      mirror.Targets target.bare (target.recast r).bare
  | .call _ callee given =>
    mirror.Parts callee (callee.recast r) ∧ ∀ e ∈ given, mirror.Parts e (e.recast r)
  | _ => True

/-- Steps of the walk over a tree and of the walk over the tree cast anew, where scopes have other
numbers. -/
inductive Step.Mirrors (mirror : Mirror) (r : Recast) (nodes : List Node)
    (move : ScopeId → ScopeId) :
    Step → Step → Prop
  | openScope {scope parent : ScopeId} {kind : ScopeKind} :
      Mirrors mirror r nodes move (.openScope scope kind parent)
        (.openScope (move scope) kind (move parent))
  | declare {scope : ScopeId} {name : String} {kind : DeclKind} {mark : Mark}
      (marks : mirror.Marks mark (r.mark mark))
      (typed : mirror.reads ⟨mark.id, .declType⟩ ⟨mark.id, .declType⟩)
      (noBuiltin : ∀ ty, kind ≠ .builtinType ty)
      (named : ∃ node ∈ nodes, node.mark = mark ∧ node.declares? = some name) :
      Mirrors mirror r nodes move (.declare scope name kind mark (kind.visibleFrom mark.span))
        (.declare (move scope) (r.called kind mark.id name) kind (r.mark mark)
          (kind.visibleFrom (r.span mark.span)))
  | setMembers {owner : NodeId} {scope : ScopeId} :
      Mirrors mirror r nodes move (.setMembers owner scope) (.setMembers owner (move scope))
  | typeExpr {scope : ScopeId} {type : TypeExpr} (inside : .type type ∈ nodes)
      (marks : mirror.Marks type.mark (r.mark type.mark))
      (component : ∀ mark inner, type = .array mark inner →
        mirror.reads ⟨inner.id, .type⟩ ⟨inner.id, .type⟩) :
      Mirrors mirror r nodes move (.typeExpr scope type) (.typeExpr (move scope) (type.recast r))
  | expr {scope : ScopeId} {expectation other : Expectation} {e : Expr}
      (inside : .expr e ∈ nodes) (marks : mirror.Marks e.mark (r.mark e.mark))
      (expects : mirror.Expects expectation other)
      (covers : mirror.Covers r e) :
      Mirrors mirror r nodes move (.expr scope expectation e)
        (.expr (move scope) other (e.inside r))
  | rule {rule image : Rule} (mirrors : rule.Mirrors mirror image) :
      Mirrors mirror r nodes move (.rule rule) (.rule image)
  | returns {mark : Mark} {value : Bool} :
      Mirrors mirror r nodes move (.returns mark value) (.returns (r.mark mark) value)

/-- Lists of steps that mirror one another, where the second has steps for what is added. -/
abbrev Step.Alike (mirror : Mirror) (r : Recast) (nodes : List Node)
    (move : ScopeId → ScopeId) :
    List Step → List Step → Prop :=
  Matched (Step.Mirrors mirror r nodes move) (Step.Added r nodes)

/-- Numbers of scopes that from one on go up together. -/
def Shifts (move : ScopeId → ScopeId) (next : ScopeId) : Prop :=
  ∀ more, move (next + more) = move next + more

theorem Shifts.add {move : ScopeId → ScopeId} {next : ScopeId} (shifts : Shifts move next)
    (more : Nat) : Shifts move (next + more) := by
  intro further
  rw [Nat.add_assoc, shifts, shifts, Nat.add_assoc]

namespace Walk

open Step

variable {r : Recast} {mirror : Mirror} {nodes : List Node} {whole : List Step}
  {move : ScopeId → ScopeId} {scope : ScopeId}

theorem opened_eq {steps others : List Step} (alike : Alike mirror r nodes move steps others) :
    opened others = opened steps := by
  induction alike with
  | nil => rfl
  | @cons step image _ _ first _ ih =>
    rw [opened_cons step, opened_cons image, ih]
    cases first <;> rfl
  | skip added _ ih =>
    obtain ⟨key, image, copies, _⟩ := added
    rw [opened_cons, ih]
    cases copies <;> exact Nat.zero_add _

section Fits

variable (fits : r.Fits mirror nodes whole)

include fits

theorem marks_of_mem {node : Node} (member : node ∈ nodes) :
    mirror.Marks node.mark (r.mark node.mark) :=
  ⟨rfl, fits.spans node member⟩

/-! ## Types -/

theorem type_reads {type : TypeExpr} (inside : type.nodes ⊆ nodes) :
    mirror.reads ⟨type.id, .type⟩ ⟨(type.recast r).id, .type⟩ := by
  have self : .type type ∈ type.nodes := by cases type <;> simp [TypeExpr.nodes]
  rw [TypeExpr.id_recast]
  exact fits.own _ (inside self) .type

theorem alike_typeExpr {type : TypeExpr} (inside : type.nodes ⊆ nodes) :
    Alike mirror r nodes move (typeExpr scope type) (typeExpr (move scope) (type.recast r)) := by
  induction type with
  | named mark name =>
    have own := inside List.mem_cons_self
    exact .single (.typeExpr own (marks_of_mem fits own) fun _ _ => by simp)
  | array mark component ih =>
    simp only [TypeExpr.nodes, List.append_subset, List.cons_subset] at inside
    have reads := type_reads fits inside.1
    rw [TypeExpr.id_recast] at reads
    refine (ih inside.1).append (.single (.typeExpr inside.2.1 (marks_of_mem fits inside.2.1) ?_))
    intro _ _ same
    cases same
    exact reads

/-! ## Expressions -/

omit fits in
theorem expr_wrap (scope : ScopeId) (expectation : Expectation) (mark : Mark) (e : Expr) :
    expr scope expectation (r.wrap mark e) = expr scope expectation e ++
      match r.paren mark.id with
      | none => []
      | some id => [.expr scope expectation (.paren ⟨id, r.span mark.span⟩ e)] := by
  unfold Recast.wrap
  cases r.paren mark.id with
  | none => exact (List.append_nil _).symm
  | some id => simp [expr]

omit fits in
theorem subset_of_wrap {expectation : Expectation} {mark : Mark} {e : Expr}
    (walked : expr scope expectation (r.wrap mark e) ⊆ whole) :
    expr scope expectation e ⊆ whole := by
  rw [expr_wrap, List.append_subset] at walked
  exact walked.1

omit fits in
theorem wraps_expr {e : Expr} (own : .expr e ∈ nodes) {id : NodeId}
    (put : r.paren e.id = some id) : r.Wraps nodes ⟨(e.inside r).id, .type⟩ ⟨id, .type⟩ := by
  rw [Expr.id_inside]
  exact .paren own put

/-- An expression is taken for itself in the parentheses that are put around it. -/
theorem parts {expectation : Expectation} {e : Expr} (inside : e.nodes ⊆ nodes)
    (walked : expr (move scope) expectation (e.recast r) ⊆ whole) :
    mirror.Parts e (e.recast r) where
  reads := by
    rw [Expr.recast, expr_wrap, List.append_subset] at walked
    unfold Expr.recast Recast.wrap
    cases put : r.paren e.mark.id with
    | none =>
      dsimp only
      rw [Expr.id_inside]
      exact fits.own _ (inside (Expr.mem_nodes_self e)) .type
    | some id =>
      rw [put] at walked
      have wraps := wraps_expr (inside (Expr.mem_nodes_self e)) put
      have reads := fits.copies _ (walked.2 List.mem_cons_self) _ _ .paren wraps
      rw [Expr.id_inside] at reads
      exact reads
  spans := by
    rw [Expr.span_recast]
    exact fits.spans _ (inside (Expr.mem_nodes_self e))

/-- The target of an assignment, parentheses aside. -/
theorem targets {expectation : Expectation} {e : Expr} (inside : e.nodes ⊆ nodes)
    (walked : expr (move scope) expectation (e.inside r) ⊆ whole) :
    mirror.Targets e.bare (e.recast r).bare := by
  rw [Expr.bare_recast]
  fun_induction Expr.bare e with
  | case1 mark inner ih =>
    simp only [Expr.nodes, List.append_subset] at inside
    simp only [Expr.inside, expr, List.append_subset] at walked
    exact ih inside.1 (subset_of_wrap walked.1)
  | case2 e noParen =>
    have own := fits.own _ (inside (Expr.mem_nodes_self e)) .decl
    cases e with
    | symbol mark name => exact .symbol own
    | index mark owner place => exact .index
    | field mark receiver name =>
      simp only [Expr.nodes, List.append_subset] at inside
      simp only [Expr.inside, expr, List.append_subset] at walked
      exact .field (parts fits inside.1 walked.1).reads
    | member mark receiver name => exact .member own
    | paren mark inner => exact absurd rfl (noParen mark inner)
    | _ => exact .other rfl rfl

/-- Whether the walk over an expression takes the steps of the walk over it cast anew, the
parentheses around it apart. -/
def GoesAlike (mirror : Mirror) (r : Recast) (nodes : List Node) (whole : List Step)
    (move : ScopeId → ScopeId) (scope : ScopeId) (e : Expr) : Prop :=
  ∀ expectation other, mirror.Expects expectation other →
    expr (move scope) other (e.inside r) ⊆ whole →
    Alike mirror r nodes move (expr scope expectation e) (expr (move scope) other (e.inside r))

omit fits in
/-- The parentheses around an expression add one step. -/
theorem GoesAlike.recast {e : Expr} (goes : GoesAlike mirror r nodes whole move scope e)
    (inner : e.nodes ⊆ nodes) {expectation other : Expectation}
    (expects : mirror.Expects expectation other)
    (walked : expr (move scope) other (e.recast r) ⊆ whole) :
    Alike mirror r nodes move (expr scope expectation e)
      (expr (move scope) other (e.recast r)) := by
  rw [Expr.recast] at walked ⊢
  have inside := goes expectation other expects (subset_of_wrap walked)
  rw [expr_wrap, ← List.append_nil (expr scope expectation e)]
  refine inside.append ?_
  split
  · exact .nil
  · rename_i id put
    exact .skip ⟨_, _, .paren, wraps_expr (inner (Expr.mem_nodes_self e)) put⟩ .nil

/-- The last step of an expression, after the steps of its parts. -/
theorem alike_last {expectation other : Expectation} {e : Expr} (inside : e.nodes ⊆ nodes)
    (expects : mirror.Expects expectation other) (covers : mirror.Covers r e)
    {first firstImage : List Step} (before : Alike mirror r nodes move first firstImage) :
    Alike mirror r nodes move (first ++ [.expr scope expectation e])
      (firstImage ++ [.expr (move scope) other (e.inside r)]) :=
  have own := inside (Expr.mem_nodes_self e)
  before.append (.single (.expr own (marks_of_mem fits own) expects covers))

mutual

theorem alike_inside : ∀ e : Expr, e.nodes ⊆ nodes → GoesAlike mirror r nodes whole move scope e
  | .array mark elements, inside, expectation, other, expects, walked => by
    have own := inside
    simp only [Expr.nodes, List.append_subset] at inside
    simp only [Expr.inside, expr, List.append_subset] at walked ⊢
    obtain ⟨alike, parts⟩ := alike_exprs elements inside.1 _ _ (.element expects) walked.1
    exact alike_last fits own expects parts alike
  | .paren mark inner, inside, expectation, other, expects, walked => by
    have own := inside
    simp only [Expr.nodes, List.append_subset] at inside
    simp only [Expr.inside, expr, List.append_subset] at walked ⊢
    exact alike_last fits own expects (parts fits inside.1 walked.1)
      ((alike_inside inner inside.1).recast inside.1 expects walked.1)
  | .unary mark op operand, inside, expectation, other, expects, walked => by
    have own := inside
    simp only [Expr.nodes, List.append_subset] at inside
    simp only [Expr.inside, expr, List.append_subset] at walked ⊢
    exact alike_last fits own expects (parts fits inside.1 walked.1)
      ((alike_inside operand inside.1).recast inside.1 .none walked.1)
  | .binary mark op left right, inside, expectation, other, expects, walked => by
    have own := inside
    simp only [Expr.nodes, List.append_subset] at inside
    simp only [Expr.inside, expr, List.append_subset] at walked ⊢
    exact alike_last fits own expects
      ⟨parts fits inside.1.1 walked.1.1, parts fits inside.1.2 walked.1.2⟩
      (((alike_inside left inside.1.1).recast inside.1.1 .none walked.1.1).append
        ((alike_inside right inside.1.2).recast inside.1.2 .none walked.1.2))
  | .assign mark target value, inside, expectation, other, expects, walked => by
    have own := inside
    simp only [Expr.nodes, List.append_subset] at inside
    simp only [Expr.inside, expr, List.append_subset] at walked ⊢
    have targetParts := parts fits inside.1.1 walked.1.1
    exact alike_last fits own expects
      ⟨targetParts, parts fits inside.1.2 walked.1.2,
        targets fits inside.1.1 (subset_of_wrap walked.1.1)⟩
      (((alike_inside target inside.1.1).recast inside.1.1 .none walked.1.1).append
        ((alike_inside value inside.1.2).recast inside.1.2 (.type targetParts.reads) walked.1.2))
  | .call mark callee given, inside, expectation, other, expects, walked => by
    have own := inside
    simp only [Expr.nodes, List.append_subset] at inside
    simp only [Expr.inside, expr, List.append_subset] at walked ⊢
    have calleeParts := parts fits inside.1.1 walked.1.1
    obtain ⟨alike, givenParts⟩ :=
      alike_arguments given inside.1.2 0 _ _ calleeParts.reads walked.1.2
    exact alike_last fits own expects ⟨calleeParts, givenParts⟩
      (((alike_inside callee inside.1.1).recast inside.1.1 .none walked.1.1).append alike)
  | .index mark owner place, inside, expectation, other, expects, walked => by
    have own := inside
    simp only [Expr.nodes, List.append_subset] at inside
    simp only [Expr.inside, expr, List.append_subset] at walked ⊢
    exact alike_last fits own expects
      ⟨parts fits inside.1.1 walked.1.1, parts fits inside.1.2 walked.1.2⟩
      (((alike_inside owner inside.1.1).recast inside.1.1 .none walked.1.1).append
        ((alike_inside place inside.1.2).recast inside.1.2 .none walked.1.2))
  | .field mark receiver name, inside, expectation, other, expects, walked => by
    have own := inside
    simp only [Expr.nodes, List.append_subset] at inside
    simp only [Expr.inside, expr, List.append_subset] at walked ⊢
    exact alike_last fits own expects (parts fits inside.1 walked.1)
      ((alike_inside receiver inside.1).recast inside.1 .none walked.1)
  | .member mark receiver name, inside, expectation, other, expects, walked => by
    have own := inside
    simp only [Expr.nodes, List.append_subset] at inside
    simp only [Expr.inside, expr, List.append_subset] at walked ⊢
    exact alike_last fits own expects (parts fits inside.1 walked.1)
      ((alike_inside receiver inside.1).recast inside.1 .none walked.1)
  | .int _ _, inside, _, _, expects, _ | .float _ _, inside, _, _, expects, _
  | .string _ _, inside, _, _, expects, _ | .bool _ _, inside, _, _, expects, _
  | .null _, inside, _, _, expects, _ | .symbol _ _, inside, _, _, expects, _
  | .constructor _ _, inside, _, _, expects, _ | .create _ _, inside, _, _, expects, _ =>
    alike_last fits inside expects trivial .nil

theorem alike_exprs : ∀ es : List Expr, Expr.nodesOfAll es ⊆ nodes →
    ∀ expectation other, mirror.Expects expectation other →
    exprs (move scope) other (Expr.recastAll r es) ⊆ whole →
    Alike mirror r nodes move (exprs scope expectation es)
        (exprs (move scope) other (Expr.recastAll r es)) ∧
      ∀ e ∈ es, mirror.Parts e (e.recast r)
  | [], _, _, _, _, _ => ⟨.nil, by simp⟩
  | e :: rest, inside, expectation, other, expects, walked => by
    simp only [Expr.nodesOfAll, List.append_subset] at inside
    simp only [Expr.recastAll, exprs, List.append_subset] at walked ⊢
    obtain ⟨alike, others⟩ := alike_exprs rest inside.2 expectation other expects walked.2
    refine ⟨((alike_inside e inside.1).recast inside.1 expects walked.1).append alike, ?_⟩
    exact List.forall_mem_cons.mpr ⟨parts fits inside.1 walked.1, others⟩

theorem alike_arguments : ∀ es : List Expr, Expr.nodesOfAll es ⊆ nodes →
    ∀ (index : Nat) (callee image : NodeId), mirror.reads ⟨callee, .type⟩ ⟨image, .type⟩ →
    arguments (move scope) image index (Expr.recastAll r es) ⊆ whole →
    Alike mirror r nodes move (arguments scope callee index es)
        (arguments (move scope) image index (Expr.recastAll r es)) ∧
      ∀ e ∈ es, mirror.Parts e (e.recast r)
  | [], _, _, _, _, _, _ => ⟨.nil, by simp⟩
  | e :: rest, inside, index, callee, image, reads, walked => by
    simp only [Expr.nodesOfAll, List.append_subset] at inside
    simp only [Expr.recastAll, arguments, List.append_subset] at walked ⊢
    obtain ⟨alike, others⟩ := alike_arguments rest inside.2 (index + 1) callee image reads walked.2
    refine ⟨((alike_inside e inside.1).recast inside.1 (.param reads) walked.1).append alike, ?_⟩
    exact List.forall_mem_cons.mpr ⟨parts fits inside.1 walked.1, others⟩

end

theorem alike_expr {e : Expr} (inside : e.nodes ⊆ nodes) {expectation other : Expectation}
    (expects : mirror.Expects expectation other)
    (walked : expr (move scope) other (e.recast r) ⊆ whole) :
    Alike mirror r nodes move (expr scope expectation e) (expr (move scope) other (e.recast r)) :=
  (alike_inside fits e inside).recast inside expects walked

/-! ## Declarations -/

/-- A name that a mirror looks at is kept. -/
theorem keeps_name (id : NodeId) (name : String) : mirror.lenient ∨ r.name id name = name :=
  fits.names.imp_right fun same => same id name

theorem declTypes {node : Node} (member : node ∈ nodes) :
    mirror.reads ⟨node.mark.id, .declType⟩ ⟨node.mark.id, .declType⟩ := by
  rw [← Node.id_eq]
  exact fits.own node member .declType

/-- A name with its written type, of whatever kind, declares something of that type. -/
theorem alike_annotated {node : Node} (member : node ∈ nodes) {type : TypeExpr}
    (inside : type.nodes ⊆ nodes) {name called what other : String}
    (same : mirror.lenient ∨ other = what) :
    Step.Mirrors mirror r nodes move (annotated ⟨node.mark, name, type⟩ what)
      (annotated ⟨r.mark node.mark, called, type.recast r⟩ other) :=
  .rule (Rule.annotated_mirrors same (fits.spans node member) (type_reads fits inside))

theorem alike_hoist (body : List Stmt) (inside : Stmt.nodesOfAll body ⊆ nodes) :
    Alike mirror r nodes move (hoist scope body) (hoist (move scope) (Stmt.recastAll r body)) := by
  induction body with
  | nil => exact .nil
  | cons s rest ih =>
    simp only [Stmt.nodesOfAll, List.append_subset] at inside
    have others := ih inside.2
    have marks : ∀ s : Stmt, .stmt s ∈ nodes → mirror.Marks s.mark (r.mark s.mark) := fun s own =>
      (marks_of_mem fits own : mirror.Marks (Node.stmt s).mark _)
    have types : ∀ s : Stmt, .stmt s ∈ nodes →
        mirror.reads ⟨s.mark.id, .declType⟩ ⟨s.mark.id, .declType⟩ := fun s own =>
      (declTypes fits own : mirror.reads ⟨(Node.stmt s).mark.id, .declType⟩ _)
    cases s with
    | function decl =>
      obtain ⟨mark, name, parameters, result, body⟩ := decl
      have own := inside.1 (List.mem_append_right _ List.mem_cons_self)
      exact .cons (.declare (marks _ own) (types _ own) (fun _ is => by cases is)
        ⟨_, own, rfl, rfl⟩) others
    | struct decl =>
      have own := inside.1 (List.mem_append_right _ List.mem_cons_self)
      exact .cons (.declare (marks _ own) (types _ own) (fun _ is => by cases is)
        ⟨_, own, rfl, rfl⟩) others
    | box decl =>
      obtain ⟨mark, name, members⟩ := decl
      have own := inside.1 (List.mem_append_right _ List.mem_cons_self)
      exact .cons (.declare (marks _ own) (types _ own) (fun _ is => by cases is)
        ⟨_, own, rfl, rfl⟩) others
    | ifElse mark condition thenBody elseBody => cases elseBody <;> exact others
    | _ => exact others

theorem alike_varDecl {decl : VariableDecl} (inside : (Stmt.var decl).nodes ⊆ nodes)
    (walked : varDecl (move scope) (decl.recast r) ⊆ whole) :
    Alike mirror r nodes move (varDecl scope decl) (varDecl (move scope) (decl.recast r)) := by
  have own : .stmt (.var decl) ∈ nodes := inside (List.mem_append_right _ List.mem_cons_self)
  have marks := marks_of_mem fits own
  have same := keeps_name fits decl.mark.id decl.name
  have what : mirror.lenient ∨ varDecl.what (decl.recast r) = varDecl.what decl := by
    refine same.imp_right fun same => ?_
    have kept : (decl.recast r).name = decl.name := same
    unfold varDecl.what
    rw [kept]
  have declared : Alike mirror r nodes move
      [.declare scope decl.name .var decl.mark decl.mark.span.stop.offset, .returns decl.mark false]
      [.declare (move scope) (r.name decl.mark.id decl.name) .var (r.mark decl.mark)
        (r.mark decl.mark).span.stop.offset, .returns (r.mark decl.mark) false] :=
    .cons (.declare marks (declTypes fits own) (fun _ is => by cases is) ⟨_, own, rfl, rfl⟩)
      (.single .returns)
  obtain ⟨mark, name, form⟩ := decl
  cases form with
  | typed type value =>
    cases value with
    | none =>
      simp only [Stmt.nodes, VariableForm.nodes, List.append_subset] at inside
      exact ((alike_typeExpr fits inside.1).append declared).append
        (.single (alike_annotated fits own inside.1 what))
    | some value =>
      simp only [Stmt.nodes, VariableForm.nodes, List.append_subset] at inside
      simp only [varDecl, VariableDecl.recast, VariableForm.recast, Option.map_some,
        List.append_subset] at walked
      have reads := type_reads fits inside.1.1
      refine (((alike_typeExpr fits inside.1.1).append
        (alike_expr fits inside.1.2 (.type reads) walked.1.1.2)).append declared).append
        (.cons (alike_annotated fits own inside.1.1 what) (.single ?_))
      exact .rule (Rule.initializer_mirrors same reads (parts fits inside.1.2 walked.1.1.2))
  | inferred value =>
    simp only [Stmt.nodes, VariableForm.nodes, List.append_subset] at inside
    simp only [varDecl, VariableDecl.recast, VariableForm.recast, List.append_subset] at walked
    refine ((alike_expr fits inside.1 .none walked.1.1).append declared).append (.single ?_)
    exact .rule (Rule.inferred_mirrors marks same (parts fits inside.1 walked.1.1).reads)

omit fits in
/-- The parts of a name with its written type. -/
theorem mem_of_name {typed : TypedName} (inside : typed.nodes ⊆ nodes) :
    typed.type.nodes ⊆ nodes ∧ .name typed ∈ nodes := by
  simp only [TypedName.nodes, List.append_subset] at inside
  exact ⟨inside.1, inside.2 List.mem_cons_self⟩

theorem alike_fields {members : ScopeId} (owner : String) : ∀ names : List TypedName,
    names.flatMap TypedName.nodes ⊆ nodes →
    Alike mirror r nodes move (fields scope members owner names)
      (fields (move scope) (move members) owner (names.map (TypedName.recast r)))
  | [], _ => .nil
  | field :: rest, inside => by
    simp only [List.flatMap_cons, List.append_subset] at inside
    obtain ⟨types, own⟩ := mem_of_name inside.1
    refine ((alike_typeExpr fits types).append (.cons ?_ (.single ?_))).append
      (alike_fields owner rest inside.2)
    · exact .declare (marks_of_mem fits own) (declTypes fits own) (fun _ is => by cases is)
        ⟨_, own, rfl, rfl⟩
    · exact alike_annotated fits own types (.inr rfl)

theorem alike_parameterTypes : ∀ names : List TypedName,
    names.flatMap TypedName.nodes ⊆ nodes →
    Alike mirror r nodes move (parameterTypes scope names)
      (parameterTypes (move scope) (names.map (TypedName.recastParameter r)))
  | [], _ => .nil
  | parameter :: rest, inside => by
    simp only [List.flatMap_cons, List.append_subset] at inside
    exact (alike_typeExpr fits (mem_of_name inside.1).1).append
      (alike_parameterTypes rest inside.2)

theorem alike_parameters : ∀ names : List TypedName, names.flatMap TypedName.nodes ⊆ nodes →
    Alike mirror r nodes move (parameters scope names)
      (parameters (move scope) (names.map (TypedName.recastParameter r)))
  | [], _ => .nil
  | parameter :: rest, inside => by
    simp only [List.flatMap_cons, List.append_subset] at inside
    obtain ⟨types, own⟩ := mem_of_name inside.1
    have same := keeps_name fits parameter.mark.id parameter.name
    refine .cons ?_ (.cons ?_ (alike_parameters rest inside.2))
    · exact .declare (marks_of_mem fits own) (declTypes fits own) (fun _ is => by cases is)
        ⟨_, own, rfl, rfl⟩
    · exact alike_annotated fits own types (same.imp_right fun same => by
        simp only [TypedName.recastParameter, same])

theorem alike_declareMembers (members : List Member)
    (inside : Member.nodesOfAll members ⊆ nodes) :
    Alike mirror r nodes move (declareMembers scope members)
      (declareMembers (move scope) (Member.recastAll r members)) := by
  induction members with
  | nil => exact .nil
  | cons member rest ih =>
    cases member with
    | attr decl =>
      simp only [Member.nodesOfAll, List.append_subset] at inside
      have own := (mem_of_name inside.1).2
      exact .cons (.declare (marks_of_mem fits own) (declTypes fits own) (fun _ is => by cases is)
        ⟨_, own, rfl, rfl⟩) (ih inside.2)
    | meth decl =>
      simp only [Member.nodesOfAll, List.append_subset] at inside
      have own : .method decl ∈ nodes := inside.1.2 List.mem_cons_self
      obtain ⟨mark, name, parameters, result, body⟩ := decl
      exact .cons (.declare (marks_of_mem fits own) (declTypes fits own) (fun _ is => by cases is)
        ⟨_, own, rfl, rfl⟩) (ih inside.2)

/-! ## Functions around a statement -/

/-- A function around a statement whose result type is among given nodes. -/
def Encloses (nodes : List Node) (enclosing : Option FunctionDecl) : Prop :=
  ∀ decl, enclosing = some decl → ∀ type, decl.result = some type → type.nodes ⊆ nodes

omit fits in
theorem encloses_none : Encloses nodes none := by simp [Encloses]

theorem results {decl : FunctionDecl} (encloses : Encloses nodes (some decl)) :
    mirror.Results decl (decl.recast r) := by
  have given := encloses decl rfl
  unfold Mirror.Results
  rw [FunctionDecl.result_recast]
  cases result : decl.result with
  | none => exact .none
  | some type => exact .some (type_reads fits (given type result))

theorem expects_return {enclosing : Option FunctionDecl} (encloses : Encloses nodes enclosing) :
    mirror.Expects (returnExpectation enclosing)
      (returnExpectation (enclosing.map (FunctionDecl.recast r))) := by
  cases enclosing with
  | none => exact .none
  | some decl =>
    have given := encloses decl rfl
    simp only [returnExpectation, Option.map_some, Option.bind_some, FunctionDecl.result_recast]
    cases result : decl.result with
    | none => exact .none
    | some type => exact .type (type_reads fits (given type result))

/-! ## Bodies of branches and loops -/

/-- How the walk over a statement and the walk over it cast anew go, wherever they come by it inside
given functions. -/
def StmtGoesAlike (mirror : Mirror) (r : Recast) (nodes : List Node) (whole : List Step)
    (move : ScopeId → ScopeId) (enclosing : Option FunctionDecl) (s : Stmt) : Prop :=
  ∀ scope next, Shifts move next →
    stmt (move scope) (move next) (enclosing.map (FunctionDecl.recast r)) (s.recast r) ⊆ whole →
    Alike mirror r nodes move (stmt scope next enclosing s)
      (stmt (move scope) (move next) (enclosing.map (FunctionDecl.recast r)) (s.recast r))

section Bodies

variable {enclosing : Option FunctionDecl} {s : Stmt} {next : ScopeId}

omit fits in
theorem recast_alone (noBlock : ∀ b, s ≠ .block b) (b : Block) : s.recast r ≠ .block b := by
  cases s with
  | block inner => exact absurd rfl (noBlock inner)
  | ifElse mark condition thenBody elseBody => cases elseBody <;> exact nofun
  | _ => exact nofun

/-- The scope of a body that is no block, and the steps in it. -/
theorem alike_alone (inside : s.nodes ⊆ nodes)
    (goes : StmtGoesAlike mirror r nodes whole move enclosing s) (shifts : Shifts move next)
    (walked : stmts (move next) (move next + 1) (enclosing.map (FunctionDecl.recast r))
      [s.recast r] ⊆ whole) :
    Alike mirror r nodes move
      (.openScope next .block scope :: (hoist next [s] ++ stmts next (next + 1) enclosing [s]))
      (.openScope (move next) .block (move scope) :: (hoist (move next) [s.recast r] ++
        stmts (move next) (move next + 1) (enclosing.map (FunctionDecl.recast r))
          [s.recast r])) := by
  simp only [stmts, List.append_nil] at walked ⊢
  refine .cons .openScope ((alike_hoist fits [s] ?_).append ?_)
  · simpa [Stmt.nodesOfAll] using inside
  · rw [← shifts 1] at walked ⊢
    exact goes next (next + 1) (shifts.add 1) walked

omit fits in
theorem wraps_body (inside : s.nodes ⊆ nodes) (noBlock : ∀ b, s ≠ .block b) {id : NodeId}
    (put : r.brace s.id = some id) :
    r.Wraps nodes ⟨(s.recast r).id, .returns⟩ ⟨id, .returns⟩ := by
  rw [Stmt.id_recast]
  exact .brace (inside (s.mem_nodes_self noBlock)) put

/-- The body of a branch or loop, in the braces that are put around it. -/
theorem alike_branch (inside : s.nodes ⊆ nodes)
    (goes : StmtGoesAlike mirror r nodes whole move enclosing s) (shifts : Shifts move next)
    (walked : branch (move scope) (move next) (enclosing.map (FunctionDecl.recast r))
      (r.enclose s (s.recast r)) ⊆ whole) :
    Alike mirror r nodes move (branch scope next enclosing s)
      (branch (move scope) (move next) (enclosing.map (FunctionDecl.recast r))
        (r.enclose s (s.recast r))) := by
  rcases r.enclose_cases s (s.recast r) with ⟨b, rfl, same⟩ | ⟨noBlock, same | ⟨id, put, same⟩⟩ <;>
    rw [same] at walked ⊢
  · exact goes scope next shifts walked
  · rw [branch_alone _ (recast_alone noBlock)] at walked ⊢
    simp only [List.append_nil, List.cons_subset, List.append_subset] at walked ⊢
    rw [branch_alone _ noBlock, List.append_nil]
    exact alike_alone fits inside goes shifts walked.2.2
  · rw [branch_block, block] at walked ⊢
    simp only [List.cons_subset, List.append_subset] at walked
    rw [branch_alone _ noBlock]
    refine (alike_alone fits inside goes shifts walked.2.1.2).append (.skip ?_ .nil)
    exact ⟨_, _, .block, wraps_body inside noBlock put⟩

/-- The body of a branch or loop is taken for itself in the braces that are put around it. -/
theorem returns_reads (inside : s.nodes ⊆ nodes)
    (walked : branch (move scope) (move next) (enclosing.map (FunctionDecl.recast r))
      (r.enclose s (s.recast r)) ⊆ whole) :
    mirror.reads ⟨s.id, .returns⟩ ⟨(r.enclose s (s.recast r)).id, .returns⟩ := by
  have own : mirror.reads ⟨s.id, .returns⟩ ⟨s.id, .returns⟩ := by
    obtain ⟨node, member, same⟩ := s.exists_node
    rw [Stmt.id, ← same, ← Node.id_eq]
    exact fits.own node (inside member) .returns
  rcases r.enclose_cases s (s.recast r) with ⟨b, _, same⟩ | ⟨noBlock, same | ⟨id, put, same⟩⟩ <;>
    rw [same] at walked ⊢
  · rw [Stmt.id_recast]
    exact own
  · rw [Stmt.id_recast]
    exact own
  · rw [branch_block, block] at walked
    simp only [List.cons_subset, List.append_subset] at walked
    have reads := fits.copies _ walked.2.2.1 _ _ .block (wraps_body inside noBlock put)
    rw [← Stmt.id_recast s]
    exact reads

end Bodies

/-! ## Statements -/

/-- The condition of a statement. -/
theorem alike_test {condition : Expr} (inside : condition.nodes ⊆ nodes)
    {statement : Conditional}
    (walked : expr (move scope) .none (condition.recast r) ⊆ whole) :
    Alike mirror r nodes move (test scope statement condition)
      (test (move scope) statement (condition.recast r)) :=
  (alike_expr fits inside .none walked).append
    (.single (.rule (Rule.condition_mirrors (parts fits inside walked))))

/-- A `return` in functions that go with each other. -/
theorem alike_return {enclosing : Option FunctionDecl} (encloses : Encloses nodes enclosing)
    {mark : Mark} {value : Option Expr} (inside : (Stmt.return mark value).nodes ⊆ nodes) :
    StmtGoesAlike mirror r nodes whole move enclosing (.return mark value) := by
  have own : .stmt (.return mark value) ∈ nodes := by
    cases value with
    | none => exact inside List.mem_cons_self
    | some value => exact inside (List.mem_append_right _ List.mem_cons_self)
  have marks := marks_of_mem fits own
  have expects := expects_return fits encloses
  have returned : ∀ decl, enclosing = some decl → ∀ image, Option.Rel mirror.Parts value image →
      Step.Mirrors mirror r nodes move (.rule (.returned mark value decl))
        (.rule (.returned (r.mark mark) image (decl.recast r))) := by
    rintro decl rfl image given
    exact .rule (Rule.returned_mirrors marks given (results fits encloses))
  intro scope next _ walked
  cases value with
  | none =>
    cases enclosing with
    | none => exact .single .returns
    | some decl => exact .cons .returns (.single (returned decl rfl none .none))
  | some value =>
    simp only [Stmt.nodes, List.append_subset] at inside
    simp only [stmt, Stmt.recast, Option.map_some, List.append_subset] at walked
    refine (alike_expr fits inside.1 expects walked.1).append (.cons .returns ?_)
    have given := parts fits inside.1 walked.1
    cases enclosing with
    | none => exact .nil
    | some decl => exact .single (returned decl rfl _ (.some given))

/-- The rule of a block reads of its last statement. -/
theorem last_reads {body : List Stmt} (inside : Stmt.nodesOfAll body ⊆ nodes) :
    Option.Rel (fun node found => mirror.reads ⟨node, .returns⟩ ⟨found, .returns⟩)
      (body.getLast?.map Stmt.id) ((Stmt.recastAll r body).getLast?.map Stmt.id) := by
  rw [Stmt.recastAll_eq, List.getLast?_map, Option.map_map]
  cases last : body.getLast? with
  | none => exact .none
  | some s =>
    have member := List.mem_of_getLast? last
    obtain ⟨node, found, same⟩ := s.exists_node
    refine .some ?_
    rw [Function.comp_apply, Stmt.id_recast, Stmt.id, ← same, ← Node.id_eq]
    exact fits.own node (inside (Stmt.nodes_subset_nodesOfAll member found)) .returns

/-- The written result type of a function. -/
theorem alike_result (result : Option TypeExpr) :
    (result.map TypeExpr.nodes).getD [] ⊆ nodes →
    Alike mirror r nodes move
      (match result with
        | some type => typeExpr scope type
        | none => [])
      (match result.map (TypeExpr.recast r) with
        | some type => typeExpr (move scope) type
        | none => []) := by
  intro inside
  cases result with
  | none => exact .nil
  | some type => exact alike_typeExpr fits inside

/-- A function, once the walk over its body is known to go on alike. -/
theorem alike_function_of {decl : FunctionDecl} {next : ScopeId} {node : Node}
    (own : node ∈ nodes) (same : node.mark = decl.mark) (inside : decl.nodes ⊆ nodes)
    (body : Encloses nodes (some decl) →
      block (move next) (move next + 1) (some (decl.recast r)) (decl.body.recast r) ⊆ whole →
      Alike mirror r nodes move (block next (next + 1) (some decl) decl.body)
        (block (move next) (move next + 1) (some (decl.recast r)) (decl.body.recast r)))
    (walked : function (move scope) (move next) (decl.recast r) ⊆ whole) :
    Alike mirror r nodes move (function scope next decl)
      (function (move scope) (move next) (decl.recast r)) := by
  have marks : mirror.Marks decl.mark (decl.recast r).mark := by
    rw [FunctionDecl.mark_recast, ← same]
    exact marks_of_mem fits own
  obtain ⟨mark, name, parameters, result, block⟩ := decl
  simp only [FunctionDecl.nodes, List.append_subset] at inside
  obtain ⟨⟨names, given⟩, blocks⟩ := inside
  have encloses : Encloses nodes (some ⟨mark, name, parameters, result, block⟩) := by
    rintro decl ⟨⟩ type rfl
    exact given
  have signature : Rule.Mirrors mirror (.signature ⟨mark, name, parameters, result, block⟩)
      (.signature (FunctionDecl.recast r ⟨mark, name, parameters, result, block⟩)) := by
    refine Rule.signature_mirrors marks rfl ?_ (results fits encloses)
    rw [FunctionDecl.parameters_recast, List.forall₂_map_right_iff, List.forall₂_same]
    intro parameter member
    refine type_reads fits (mem_of_name (fun node found => names ?_)).1
    exact List.mem_flatMap.mpr ⟨parameter, member, found⟩
  have returns : mirror.reads ⟨block.mark.id, .returns⟩ ⟨(block.recast r).mark.id, .returns⟩ := by
    obtain ⟨inner, stmts⟩ := block
    exact fits.own _ (blocks (List.mem_append_right _ List.mem_cons_self)) .returns
  simp only [function, FunctionDecl.recast, List.append_subset, List.cons_subset] at walked ⊢
  refine ((alike_parameterTypes fits parameters names).append
    (alike_result fits result given)).append (.cons .openScope
      ((alike_parameters fits parameters names).append (.cons (.rule signature)
        ((body encloses walked.2.2.2.2.1).append ?_))))
  cases result with
  | none => exact .nil
  | some type =>
    exact .single (.rule (Rule.returnsAlways_mirrors marks rfl (type_reads fits given) returns))

set_option linter.unusedSectionVars false in
mutual

/-- The walk over a statement and the walk over it cast anew. -/
theorem alike_stmt {enclosing : Option FunctionDecl} (encloses : Encloses nodes enclosing) :
    ∀ s : Stmt, s.nodes ⊆ nodes → StmtGoesAlike mirror r nodes whole move enclosing s
  | .block b, inside, scope, next, shifts, walked => alike_block encloses b inside shifts walked
  | .expression mark e, inside, scope, next, shifts, walked => by
    simp only [Stmt.nodes, List.append_subset] at inside
    simp only [stmt, Stmt.recast, List.append_subset] at walked ⊢
    exact (alike_expr fits inside.1 .none walked.1).append (.single .returns)
  | .var decl, inside, scope, next, shifts, walked => alike_varDecl fits inside walked
  | .function decl, inside, scope, next, shifts, walked => by
    have own : .stmt (.function decl) ∈ nodes :=
      inside (List.mem_append_right _ List.mem_cons_self)
    simp only [Stmt.nodes, List.append_subset] at inside
    simp only [stmt, Stmt.recast, List.append_subset, FunctionDecl.mark_recast] at walked ⊢
    exact (alike_function decl own rfl inside.1 shifts walked.1).append (.single .returns)
  | .struct decl, inside, scope, next, shifts, walked => by
    simp only [Stmt.nodes, List.append_subset] at inside
    exact (Matched.append (.cons .returns (.single .openScope))
      (alike_fields fits decl.name decl.fields inside.1)).append (.single .setMembers)
  | .box decl, inside, scope, next, shifts, walked => by
    simp only [Stmt.nodes, List.append_subset] at inside
    exact alike_box decl inside.1 shifts walked
  | .ifElse mark condition thenBody none, inside, scope, next, shifts, walked => by
    have own := inside (List.mem_append_right _ List.mem_cons_self)
    simp only [Stmt.nodes, List.append_subset] at inside
    rw [Stmt.recast, stmt_ifThen] at walked ⊢
    rw [stmt_ifThen]
    simp only [test, List.append_subset] at walked
    refine ((alike_test fits inside.1.1 walked.1.1.1).append (alike_branch fits inside.1.2
      (alike_stmt encloses thenBody inside.1.2) shifts walked.1.2)).append (.single (.rule ?_))
    exact Rule.branchesReturn_mirrors (marks_of_mem fits own)
      (returns_reads fits inside.1.2 walked.1.2) .none
  | .ifElse mark condition thenBody (some elseBody), inside, scope, next, shifts, walked => by
    have own := inside (List.mem_append_right _ List.mem_cons_self)
    simp only [Stmt.nodes, List.append_subset] at inside
    rw [Stmt.recast, stmt_ifElse] at walked ⊢
    rw [stmt_ifElse]
    simp only [test, List.append_subset] at walked
    have first := alike_branch fits inside.1.1.2 (alike_stmt encloses thenBody inside.1.1.2)
      shifts walked.1.2.1
    rw [opened_eq first, ← shifts] at walked ⊢
    have second := alike_branch fits inside.1.2 (alike_stmt encloses elseBody inside.1.2)
      (shifts.add _) walked.1.2.2
    refine ((alike_test fits inside.1.1.1 walked.1.1.1).append (first.append second)).append
      (.single (.rule ?_))
    exact Rule.branchesReturn_mirrors (marks_of_mem fits own)
      (returns_reads fits inside.1.1.2 walked.1.2.1)
      (.some (returns_reads fits inside.1.2 walked.1.2.2))
  | .while mark condition body, inside, scope, next, shifts, walked => by
    simp only [Stmt.nodes, List.append_subset] at inside
    rw [Stmt.recast, stmt_while] at walked ⊢
    rw [stmt_while]
    simp only [test, List.append_subset] at walked
    exact ((alike_test fits inside.1.1 walked.1.1.1).append (alike_branch fits inside.1.2
      (alike_stmt encloses body inside.1.2) shifts walked.1.2)).append (.single .returns)
  | .return mark value, inside, scope, next, shifts, walked =>
    alike_return fits encloses inside scope next shifts walked

theorem alike_block {enclosing : Option FunctionDecl} (encloses : Encloses nodes enclosing) :
    ∀ b : Block, b.nodes ⊆ nodes → ∀ {scope next}, Shifts move next →
    block (move scope) (move next) (enclosing.map (FunctionDecl.recast r)) (b.recast r) ⊆ whole →
    Alike mirror r nodes move (block scope next enclosing b)
      (block (move scope) (move next) (enclosing.map (FunctionDecl.recast r)) (b.recast r))
  | ⟨mark, body⟩, inside, scope, next, shifts, walked => by
    have own : .block ⟨mark, body⟩ ∈ nodes :=
      inside (List.mem_append_right _ List.mem_cons_self)
    simp only [Block.nodes, List.append_subset] at inside
    simp only [block, Block.recast, List.cons_subset, List.append_subset] at walked ⊢
    have up := shifts 1
    rw [← up] at walked ⊢
    refine .cons .openScope (((alike_hoist fits body inside.1).append
      (alike_stmts encloses body inside.1 (shifts.add 1) walked.2.1.2)).append (.single (.rule ?_)))
    exact Rule.blockReturns_mirrors (marks_of_mem fits own) (last_reads fits inside.1)

theorem alike_stmts {enclosing : Option FunctionDecl} (encloses : Encloses nodes enclosing) :
    ∀ body : List Stmt, Stmt.nodesOfAll body ⊆ nodes → ∀ {scope next}, Shifts move next →
    stmts (move scope) (move next) (enclosing.map (FunctionDecl.recast r))
      (Stmt.recastAll r body) ⊆ whole →
    Alike mirror r nodes move (stmts scope next enclosing body)
      (stmts (move scope) (move next) (enclosing.map (FunctionDecl.recast r))
        (Stmt.recastAll r body))
  | [], _, _, _, _, _ => .nil
  | s :: rest, inside, scope, next, shifts, walked => by
    simp only [Stmt.nodesOfAll, List.append_subset] at inside
    simp only [stmts, Stmt.recastAll, List.append_subset] at walked ⊢
    have first := alike_stmt encloses s inside.1 scope next shifts walked.1
    rw [opened_eq first, ← shifts] at walked ⊢
    exact first.append (alike_stmts encloses rest inside.2 (shifts.add _) walked.2)

theorem alike_function : ∀ decl : FunctionDecl, ∀ {node : Node}, node ∈ nodes →
    node.mark = decl.mark → decl.nodes ⊆ nodes → ∀ {scope next}, Shifts move next →
    function (move scope) (move next) (decl.recast r) ⊆ whole →
    Alike mirror r nodes move (function scope next decl)
      (function (move scope) (move next) (decl.recast r))
  | ⟨mark, name, parameters, result, body⟩, node, own, same, inside, scope, next, shifts,
      walked => by
    have blocks : body.nodes ⊆ nodes := by
      simp only [FunctionDecl.nodes, List.append_subset] at inside
      exact inside.2
    refine alike_function_of fits own same inside (fun encloses walked => ?_) walked
    have up := shifts 1
    rw [← up] at walked ⊢
    exact alike_block encloses body blocks (shifts.add 1) walked

theorem alike_box : ∀ decl : BoxDecl, decl.nodes ⊆ nodes → ∀ {scope next}, Shifts move next →
    box (move scope) (move next) (decl.recast r) ⊆ whole →
    Alike mirror r nodes move (box scope next decl) (box (move scope) (move next) (decl.recast r))
  | ⟨mark, name, members⟩, inside, scope, next, shifts, walked => by
    rw [BoxDecl.nodes] at inside
    simp only [box, BoxDecl.recast, List.append_subset] at walked ⊢
    have up := shifts 1
    rw [← up] at walked ⊢
    refine ((Matched.append (.cons .returns (.single .openScope))
      (alike_declareMembers fits members inside)).append (.single .setMembers)).append ?_
    exact alike_boxMembers name members inside (shifts.add 1) walked.2

theorem alike_boxMembers (owner : String) : ∀ members : List Member,
    Member.nodesOfAll members ⊆ nodes → ∀ {scope inner next}, Shifts move next →
    boxMembers (move scope) (move inner) (move next) owner (Member.recastAll r members) ⊆ whole →
    Alike mirror r nodes move (boxMembers scope inner next owner members)
      (boxMembers (move scope) (move inner) (move next) owner (Member.recastAll r members))
  | [], _, _, _, _, _, _ => .nil
  | .attr decl :: rest, inside, scope, inner, next, shifts, walked => by
    simp only [Member.nodesOfAll, List.append_subset] at inside
    simp only [boxMembers, Member.recastAll, List.append_subset] at walked ⊢
    obtain ⟨types, own⟩ := mem_of_name inside.1
    exact ((alike_typeExpr fits types).append (.single (alike_annotated fits own types
      (.inr rfl)))).append (alike_boxMembers owner rest inside.2 shifts walked.2)
  | .meth decl :: rest, inside, scope, inner, next, shifts, walked => by
    simp only [Member.nodesOfAll, List.append_subset] at inside
    simp only [boxMembers, Member.recastAll, List.append_subset] at walked ⊢
    have first := alike_function decl (inside.1.2 List.mem_cons_self) rfl inside.1.1 shifts walked.1
    rw [opened_eq first, ← shifts] at walked ⊢
    exact first.append (alike_boxMembers owner rest inside.2 (shifts.add _) walked.2)

end

/-- The walk over a program and the walk over it cast anew. -/
theorem alike_program {body : List Stmt} (inside : Stmt.nodesOfAll body ⊆ nodes)
    (walked : program (Stmt.recastAll r body) ⊆ whole) :
    Alike mirror r nodes id (program body) (program (Stmt.recastAll r body)) := by
  simp only [program, List.cons_subset, List.append_subset] at walked
  exact .cons .openScope ((alike_hoist fits body inside).append
    (alike_stmts fits encloses_none body inside (fun _ => rfl) walked.2.2))

end Fits

end Walk

end BoxScript
