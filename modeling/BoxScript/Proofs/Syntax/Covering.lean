import BoxScript.Proofs.Syntax.Children
import BoxScript.Proofs.Syntax.Order

/-!
# What nodes cover

Each node of a program takes some tokens that follow one another, and spells itself in them
(`Node.Spelled`). Its children take parts of these, in their order and without overlap
(`Node.Laid`, `Node.Spelled.laid`), and so does all that is below it. A node covers just what it
takes, from the start of the first token to the end of the last (`Node.Spelled.span`).

So every node of a program that is parsed starts with a token of its text and ends with one
(`covers_of_parse`). Neither is the token of the end of the file. So the places of a program come
from its tokens alone, and are known in any other text as soon as the tokens are found there.
-/

set_option autoImplicit false

namespace BoxScript

open Token

/-! ## The tokens of a node -/

namespace Node

/-- A node with the tokens that it takes. Fields, attributes and methods start with a keyword. -/
inductive Spelled : Node → List Token → Prop
  | type {written : TypeExpr} {taken : List Token} (spelled : written.Spelled taken) :
      Spelled (.type written) taken
  | expr {e : Expr} {taken : List Token} (spelled : e.Spelled taken) : Spelled (.expr e) taken
  | parameter {typed : TypedName} {taken : List Token} (spelled : typed.Spelled [] taken) :
      Spelled (.name typed) taken
  | field {typed : TypedName} {keyword : Token} {taken : List Token}
      (tells : keyword.Tells (.sign .var)) (spelled : typed.Spelled [keyword] taken) :
      Spelled (.name typed) (keyword :: taken)
  | attr {typed : TypedName} {keyword : Token} {taken : List Token}
      (tells : keyword.Tells (.sign .attr)) (spelled : typed.Spelled [keyword] taken) :
      Spelled (.name typed) (keyword :: taken)
  | stmt {s : Stmt} {taken : List Token} (spelled : s.Spelled taken) : Spelled (.stmt s) taken
  | block {b : Block} {taken : List Token} (spelled : b.Spelled taken) : Spelled (.block b) taken
  | method {decl : FunctionDecl} {keyword : Token} {taken : List Token}
      (tells : keyword.Tells (.sign .meth)) (spelled : decl.Spelled keyword taken) :
      Spelled (.method decl) (keyword :: taken)

/-- Nodes that are spelled one after another in a list of tokens, with other tokens around them. -/
inductive Laid : List Node → List Token → Prop
  | nil {taken : List Token} : Laid [] taken
  | skip {nodes : List Node} {token : Token} {taken : List Token} (laid : Laid nodes taken) :
      Laid nodes (token :: taken)
  | cons {node : Node} {nodes : List Node} {part taken : List Token} (spelled : node.Spelled part)
      (laid : Laid nodes taken) : Laid (node :: nodes) (part ++ taken)

variable {node lower upper : Node} {nodes more : List Node} {taken part others : List Token}

theorem Laid.single (spelled : node.Spelled taken) : Laid [node] taken := by
  have laid : Laid [node] (taken ++ []) := .cons spelled .nil
  rw [List.append_nil] at laid
  exact laid

theorem Laid.skipAll (laid : Laid nodes taken) (before : List Token) :
    Laid nodes (before ++ taken) := by
  induction before with
  | nil => exact laid
  | cons token rest ih => exact .skip ih

theorem Laid.append (laid : Laid nodes taken) (after : Laid more others) :
    Laid (nodes ++ more) (taken ++ others) := by
  induction laid with
  | @nil before => exact after.skipAll before
  | skip _ ih => exact .skip ih
  | cons spelled _ ih =>
    rw [List.append_assoc]
    exact .cons spelled ih

theorem Laid.before (laid : Laid nodes taken) (after : List Token) :
    Laid nodes (taken ++ after) := by
  have whole : Laid (nodes ++ []) (taken ++ after) := laid.append .nil
  rw [List.append_nil] at whole
  exact whole

/-- Nodes with commas between them. -/
theorem Laid.separated {parts : List (List Token)} (spelled : List.Forall₂ Spelled nodes parts)
    (separated : Separated parts taken) : Laid nodes taken := by
  induction separated generalizing nodes with
  | none =>
    cases spelled
    exact .nil
  | last part =>
    cases spelled with
    | cons first others =>
      cases others
      exact .single first
  | comma _ _ ih =>
    cases spelled with
    | cons first others => exact .cons first (.skip (ih others))

end Node

open Node

/-! ## Children in the tokens of their parent -/

theorem Stmt.Spelled.node {s : Stmt} {taken : List Token} (spelled : s.Spelled taken) :
    s.node.Spelled taken := by
  cases spelled with
  | block spelled => exact .block spelled
  | expression span spelled => exact .stmt (.expression span spelled)
  | var span tells named spelled => exact .stmt (.var span tells named spelled)
  | function tells spelled => exact .stmt (.function tells spelled)
  | struct span tells named opens spelled closes =>
    exact .stmt (.struct span tells named opens spelled closes)
  | box spelled => exact .stmt (.box spelled)
  | ifThen span tells test body ends => exact .stmt (.ifThen span tells test body ends)
  | ifElse span tells test body ends tellsElse other endsElse =>
    exact .stmt (.ifElse span tells test body ends tellsElse other endsElse)
  | «while» span tells test body ends => exact .stmt (.while span tells test body ends)
  | «return» span tells => exact .stmt (.return span tells)
  | returnValue span tells spelled => exact .stmt (.returnValue span tells spelled)

theorem TypeExpr.Spelled.laid {written : TypeExpr} {taken : List Token}
    (spelled : written.Spelled taken) : Laid (Node.type written).children taken := by
  cases spelled with
  | named _ _ => exact .nil
  | array _ spelled _ _ => exact (Laid.single (.type spelled)).before _

theorem TypeExpr.ResultSpelled.laid {result : Option TypeExpr} {taken : List Token}
    (spelled : TypeExpr.ResultSpelled result taken) :
    Laid (result.map Node.type).toList taken := by
  cases spelled with
  | none => exact .nil
  | some _ spelled => exact (Laid.single (.type spelled)).skip

theorem Expr.AllSpelled.each {es : List Expr} {parts : List (List Token)}
    (spelled : Expr.AllSpelled es parts) : List.Forall₂ Node.Spelled (es.map .expr) parts := by
  induction es generalizing parts with
  | nil =>
    cases spelled
    exact .nil
  | cons e rest ih =>
    cases spelled with
    | cons spelled others => exact .cons (.expr spelled) (ih others)

theorem Expr.Spelled.laid {e : Expr} {taken : List Token} (spelled : e.Spelled taken) :
    Laid (Node.expr e).children taken := by
  cases spelled with
  | int _ _ | float _ _ | string _ _ | bool _ _ | null _ _ | symbol _ _ | constructor _ _ _
  | create _ _ _ _ _ => exact .nil
  | array _ _ spelled separated _ => exact ((Laid.separated spelled.each separated).before _).skip
  | paren _ _ inner _ => exact ((Laid.single (.expr inner)).before _).skip
  | unary _ _ _ operand => exact (Laid.single (.expr operand)).skip
  | binary _ _ left _ right => exact .cons (.expr left) (Laid.single (.expr right)).skip
  | assign _ _ target _ value => exact .cons (.expr target) (Laid.single (.expr value)).skip
  | call _ _ callee _ spelled separated _ =>
    exact .cons (.expr callee) ((Laid.separated spelled.each separated).before _).skip
  | index _ _ owner _ place _ =>
    exact .cons (.expr owner) ((Laid.single (.expr place)).before _).skip
  | field _ _ receiver _ _ | member _ _ receiver _ _ =>
    exact (Laid.single (.expr receiver)).before _

theorem TypedName.Spelled.laid {lead taken : List Token} {typed : TypedName}
    (spelled : typed.Spelled lead taken) : Laid (Node.name typed).children taken := by
  cases spelled with
  | mk _ _ _ spelled => exact (Laid.single (.type spelled)).skip.skip

theorem TypedName.AllSpelled.each {names : List TypedName} {parts : List (List Token)}
    (spelled : TypedName.AllSpelled names parts) :
    List.Forall₂ Node.Spelled (names.map .name) parts := by
  induction spelled with
  | nil => exact .nil
  | cons spelled _ ih => exact .cons (.parameter spelled) ih

theorem TypedName.FieldsSpelled.laid {fields : List TypedName} {taken : List Token}
    (spelled : TypedName.FieldsSpelled fields taken) : Laid (fields.map .name) taken := by
  induction spelled with
  | nil => exact .nil
  | cons tells spelled _ _ ih => exact .cons (.field tells spelled) (ih.skipAll _)

theorem VariableForm.Spelled.laid {form : VariableForm} {taken : List Token}
    (spelled : form.Spelled taken) : Laid form.children taken := by
  cases spelled with
  | typed _ spelled => exact (Laid.single (.type spelled)).skip
  | both _ spelled _ value =>
    exact (Laid.cons (.type spelled) (Laid.single (.expr value)).skip).skip
  | inferred _ value => exact (Laid.single (.expr value)).skip

theorem Stmt.AllSpelled.laid {body : List Stmt} {taken : List Token}
    (spelled : Stmt.AllSpelled body taken) : Laid (body.map Stmt.node) taken := by
  induction body generalizing taken with
  | nil => exact .nil
  | cons s rest ih =>
    cases spelled with
    | cons spelled _ others => exact .cons spelled.node ((ih others).skipAll _)

theorem Block.Spelled.laid {b : Block} {taken : List Token} (spelled : b.Spelled taken) :
    Laid (Node.block b).children taken := by
  cases spelled with
  | mk _ _ spelled _ => exact (spelled.laid.before _).skip

theorem FunctionDecl.Spelled.laid {decl : FunctionDecl} {keyword : Token} {taken : List Token}
    (spelled : decl.Spelled keyword taken) : Laid decl.children taken := by
  cases spelled with
  | mk _ _ _ parameters separated _ result body =>
    have given := Laid.separated parameters.each separated
    have after := result.laid.append (Laid.single (.block body))
    rw [FunctionDecl.children, List.append_assoc]
    exact (given.append after.skip).skip.skip

theorem Member.AllSpelled.laid {members : List Member} {taken : List Token}
    (spelled : Member.AllSpelled members taken) : Laid (members.map Member.node) taken := by
  induction members generalizing taken with
  | nil => exact .nil
  | cons member rest ih =>
    cases spelled with
    | attr tells spelled _ others => exact .cons (.attr tells spelled) ((ih others).skipAll _)
    | meth tells spelled _ others => exact .cons (.method tells spelled) ((ih others).skipAll _)

theorem Stmt.Spelled.laid {s : Stmt} {taken : List Token} (spelled : s.Spelled taken) :
    Laid s.children taken := by
  cases spelled with
  | block spelled => exact spelled.laid
  | expression _ spelled => exact .single (.expr spelled)
  | var _ _ _ spelled => exact spelled.laid.skip.skip
  | function _ spelled => exact spelled.laid.skip
  | struct _ _ _ _ spelled _ => exact (spelled.laid.before _).skip.skip.skip
  | box spelled =>
    cases spelled with
    | mk _ _ _ _ spelled _ => exact (spelled.laid.before _).skip.skip.skip
  | ifThen _ _ test body _ =>
    exact (Laid.cons (.expr test) ((Laid.single body.node).before _)).skip
  | ifElse _ _ test body _ _ other _ =>
    exact (Laid.cons (.expr test) (.cons body.node
      (((Laid.single other.node).before _).skip.skipAll _))).skip
  | «while» _ _ test body _ =>
    exact (Laid.cons (.expr test) ((Laid.single body.node).before _)).skip
  | «return» _ _ => exact .nil
  | returnValue _ _ spelled => exact (Laid.single (.expr spelled)).skip

/-- The children of a node take parts of its tokens, one after another. -/
theorem Node.Spelled.laid {node : Node} {taken : List Token} (spelled : node.Spelled taken) :
    Laid node.children taken := by
  cases spelled with
  | type spelled | expr spelled | parameter spelled | stmt spelled | block spelled =>
    exact spelled.laid
  | field _ spelled | attr _ spelled | method _ spelled => exact spelled.laid.skip

/-! ## The spans of nodes -/

theorem Block.Spelled.span {b : Block} {taken : List Token} (spelled : b.Spelled taken) :
    taken ≠ [] ∧ b.mark.span = cover taken := by
  cases spelled with
  | mk span _ _ _ => exact ⟨List.cons_ne_nil _ _, span⟩

theorem FunctionDecl.Spelled.span {decl : FunctionDecl} {keyword : Token} {taken : List Token}
    (spelled : decl.Spelled keyword taken) : decl.mark.span = cover (keyword :: taken) := by
  cases spelled with
  | mk span _ _ _ _ _ _ _ => exact span

theorem Stmt.Spelled.span {s : Stmt} {taken : List Token} (spelled : s.Spelled taken) :
    taken ≠ [] ∧ s.mark.span = cover taken := by
  cases spelled with
  | block spelled => exact spelled.span
  | expression span spelled => exact ⟨spelled.span.1, span⟩
  | function _ spelled => exact ⟨List.cons_ne_nil _ _, spelled.span⟩
  | box spelled =>
    cases spelled with
    | mk span _ _ _ _ _ => exact ⟨List.cons_ne_nil _ _, span⟩
  | var span _ _ _ | struct span _ _ _ _ _ | ifThen span _ _ _ _ | ifElse span _ _ _ _ _ _ _
  | «while» span _ _ _ _ | «return» span _ | returnValue span _ _ =>
    exact ⟨List.cons_ne_nil _ _, span⟩

/-- A node covers just the tokens that it takes. -/
theorem Node.Spelled.span {node : Node} {taken : List Token} (spelled : node.Spelled taken) :
    taken ≠ [] ∧ node.mark.span = cover taken := by
  cases spelled with
  | type spelled | expr spelled | block spelled | stmt spelled => exact spelled.span
  | parameter spelled | field _ spelled | attr _ spelled =>
    cases spelled with
    | mk span _ _ _ => exact ⟨List.cons_ne_nil _ _, span⟩
  | method _ spelled => exact ⟨List.cons_ne_nil _ _, spelled.span⟩

namespace Node

variable {node lower upper : Node} {nodes : List Node} {taken : List Token}

theorem Laid.exists_part (laid : Laid nodes taken) (member : node ∈ nodes) :
    ∃ part, part <:+: taken ∧ node.Spelled part := by
  induction laid with
  | nil => cases member
  | skip _ ih =>
    obtain ⟨part, within, spelled⟩ := ih member
    exact ⟨part, within.trans (List.suffix_cons _ _).isInfix, spelled⟩
  | @cons first nodes part taken spelled _ ih =>
    rcases List.mem_cons.mp member with rfl | later
    · exact ⟨part, (List.prefix_append _ _).isInfix, spelled⟩
    · obtain ⟨part, within, spelled⟩ := ih later
      exact ⟨part, within.trans (List.suffix_append _ _).isInfix, spelled⟩

/-- All that is below a node takes a part of the tokens among which its children are. -/
theorem Laid.exists_part_of_below (laid : Laid upper.children taken) (below : lower.Below upper) :
    ∃ part, part <:+: taken ∧ lower.Spelled part := by
  induction below generalizing taken with
  | child child => exact laid.exists_part child
  | further child _ ih =>
    obtain ⟨part, within, spelled⟩ := laid.exists_part child
    obtain ⟨inner, deeper, spelledToo⟩ := ih spelled.laid
    exact ⟨inner, deeper.trans within, spelledToo⟩

theorem Laid.exists_tokens (laid : Laid nodes taken) (member : node ∈ nodes) :
    (∃ token ∈ taken, node.mark.span.start = token.span.start) ∧
      ∃ token ∈ taken, node.mark.span.stop = token.span.stop := by
  obtain ⟨part, within, spelled⟩ := laid.exists_part member
  obtain ⟨some, span⟩ := spelled.span
  obtain ⟨first, here, starts⟩ := exists_start some
  obtain ⟨last, hereToo, stops⟩ := exists_stop some
  rw [span]
  exact ⟨⟨first, within.subset here, starts⟩, last, within.subset hereToo, stops⟩

end Node

/-! ## The nodes of a program -/

namespace Node

/-- Whether a node starts with one of some tokens and ends with one. -/
def Covers (taken : List Token) (node : Node) : Prop :=
  ∃ first ∈ taken, ∃ last ∈ taken, node.mark.span = first.span.through last.span

/-- Whether nodes each start and end with some tokens. -/
def AllCover (taken : List Token) (nodes : List Node) : Prop := ∀ node ∈ nodes, node.Covers taken

variable {taken first : List Token} {node : Node}

theorem covers_of_span (some : taken ≠ []) (span : node.mark.span = cover taken) :
    node.Covers taken := by
  obtain ⟨first, member, starts⟩ := exists_start some
  obtain ⟨last, memberToo, stops⟩ := exists_stop some
  refine ⟨first, member, last, memberToo, ?_⟩
  rw [span, Span.through, ← starts, ← stops]

theorem Covers.mono (covers : node.Covers first) (part : first ⊆ taken) : node.Covers taken := by
  obtain ⟨token, member, last, memberToo, span⟩ := covers
  exact ⟨token, part member, last, part memberToo, span⟩

end Node

/-- Every node of a program starts and ends with a token before the end of the file. -/
theorem covers_of_parse {file : String} {tokens : List Token} {program : Program}
    (parsed : parse file tokens = .ok program) :
    AllCover (untilEnd tokens) (Stmt.nodesOfAll program.body) := by
  intro node member
  have laid : Laid (Node.block program).children (untilEnd tokens) := (spelled_of_parse parsed).laid
  obtain ⟨taken, within, spelled⟩ := laid.exists_part_of_below (Program.mem_nodes_iff.mp member)
  exact (covers_of_span spelled.span.1 spelled.span.2).mono within.subset

end BoxScript
