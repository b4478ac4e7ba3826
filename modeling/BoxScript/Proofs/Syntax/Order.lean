import BoxScript.Proofs.Syntax.Derivation
import BoxScript.Proofs.Syntax.Places

/-!
# The order of nodes

The nodes of a program are listed in the order in which they are complete, and the tokens that they
cover follow one another. So a name that is listed before a variable stands before the end of its
declaration (`ordered_of_readProgram`). That end is the place from which the variable is visible: a
name can only mean a variable of the statements around it that is listed before the name.
-/

set_option autoImplicit false

namespace BoxScript

/-! ## Tokens one after another -/

namespace Token

/-- Tokens of some text that do not overlap, in their order. -/
structure Lined (taken : List Token) : Prop where
  apart : taken.Pairwise fun first second => first.span.stop.offset ≤ second.span.start.offset
  takes : ∀ token ∈ taken, token.span.start.offset < token.span.stop.offset

theorem Lined.sublist {taken part : List Token} (lined : Lined taken) (kept : part.Sublist taken) :
    Lined part :=
  ⟨lined.apart.sublist kept, fun token member => lined.takes token (kept.subset member)⟩

/-- Each token ends with what all of them cover, or before that. -/
theorem Lined.le_stop {taken : List Token} (lined : Lined taken) {token : Token}
    (member : token ∈ taken) : token.span.stop.offset ≤ (cover taken).stop.offset := by
  rcases List.eq_nil_or_concat taken with rfl | ⟨front, last, rfl⟩
  · cases member
  · rw [List.concat_eq_append] at lined member ⊢
    change token.span.stop.offset ≤ ((front ++ [last]).getLastD default).span.stop.offset
    rw [List.getLastD_concat]
    rcases List.mem_append.mp member with before | here
    · have after := (List.pairwise_append.mp lined.apart).2.2 token before last List.mem_cons_self
      have takesLast := lined.takes last (List.mem_append_right _ List.mem_cons_self)
      omega
    · obtain rfl := List.mem_singleton.mp here
      exact Nat.le_refl _

/-- Each token starts before the end of what all of them cover. -/
theorem Lined.lt_stop {taken : List Token} (lined : Lined taken) {token : Token}
    (member : token ∈ taken) : token.span.start.offset < (cover taken).stop.offset :=
  Nat.lt_of_lt_of_le (lined.takes token member) (lined.le_stop member)

theorem exists_stop {taken : List Token} (some : taken ≠ []) :
    ∃ token ∈ taken, (cover taken).stop = token.span.stop := by
  refine ⟨taken.getLast some, List.getLast_mem some, ?_⟩
  rw [cover, List.getLastD_eq_getLast?, List.getLast?_eq_some_getLast some, Option.getD_some]

theorem exists_start {taken : List Token} (some : taken ≠ []) :
    ∃ token ∈ taken, (cover taken).start = token.span.start := by
  obtain ⟨token, rest, rfl⟩ := List.exists_cons_of_ne_nil some
  exact ⟨token, List.mem_cons_self, rfl⟩

/-- Each token starts with what all of them cover, or after that. -/
theorem Lined.start_le {taken : List Token} (lined : Lined taken) {token : Token}
    (member : token ∈ taken) : (cover taken).start.offset ≤ token.span.start.offset := by
  obtain ⟨first, rest, rfl⟩ := List.exists_cons_of_ne_nil (List.ne_nil_of_mem member)
  change first.span.start.offset ≤ token.span.start.offset
  rcases List.mem_cons.mp member with rfl | later
  · exact Nat.le_refl _
  · have takes := lined.takes first List.mem_cons_self
    have after := List.rel_of_pairwise_cons lined.apart later
    omega

/-- A part covers no more than the whole. -/
theorem Lined.cover_subset {taken part : List Token} (lined : Lined taken) (subset : part ⊆ taken)
    (some : part ≠ []) :
    (cover taken).start.offset ≤ (cover part).start.offset ∧
      (cover part).stop.offset ≤ (cover taken).stop.offset := by
  obtain ⟨first, member, starts⟩ := exists_start some
  obtain ⟨last, memberToo, stops⟩ := exists_stop some
  rw [starts, stops]
  exact ⟨lined.start_le (subset member), lined.le_stop (subset memberToo)⟩

theorem Lined.start_lt_stop {taken : List Token} (lined : Lined taken) (some : taken ≠ []) :
    (cover taken).start.offset < (cover taken).stop.offset := by
  obtain ⟨first, member, starts⟩ := exists_start some
  rw [starts]
  exact lined.lt_stop member

/-- The tokens of a text, up to the end of the file. -/
theorem lined_of_follow {position : Nat} {tokens : List Token} (follow : Follow position tokens) :
    Lined (untilEnd tokens) ∧ ∀ token ∈ untilEnd tokens, position ≤ token.span.start.offset := by
  induction tokens generalizing position with
  | nil => exact ⟨⟨.nil, by simp [untilEnd]⟩, by simp [untilEnd]⟩
  | cons token rest ih =>
    by_cases isEnd : token.kind = .endOfFile
    · have none : untilEnd (token :: rest) = [] := List.takeWhile_cons_of_neg (by simpa using isEnd)
      rw [none]
      exact ⟨⟨.nil, by simp⟩, by simp⟩
    · obtain ⟨after, takes, others⟩ := follow isEnd
      obtain ⟨lined, later⟩ := ih others
      have some : untilEnd (token :: rest) = token :: untilEnd rest :=
        List.takeWhile_cons_of_pos (by simpa using isEnd)
      rw [some]
      refine ⟨⟨.cons later lined.apart, List.forall_mem_cons.mpr ⟨takes, lined.takes⟩⟩, ?_⟩
      refine List.forall_mem_cons.mpr ⟨after, fun other member => ?_⟩
      exact Nat.le_trans (Nat.le_trans after (Nat.le_of_lt takes)) (later other member)

end Token

open Token

/-! ## Nodes one after another -/

namespace Node

/-- Whether a name starts, or a variable ends, with one of some tokens. -/
def From (taken : List Token) : Node → Prop
  | .expr (.symbol mark _) => ∃ token ∈ taken, mark.span.start = token.span.start
  | .stmt (.var decl) => ∃ token ∈ taken, decl.mark.span.stop = token.span.stop
  | _ => True

/-- If one node is a name and the other a variable, then the name stands before the end of the
variable. -/
def Precedes (first second : Node) : Prop :=
  ∀ mark name decl, first = .expr (.symbol mark name) → second = .stmt (.var decl) →
    mark.span.start.offset < decl.mark.span.stop.offset

/-- Nodes that come from some tokens, in their order. -/
structure InOrder (taken : List Token) (nodes : List Node) : Prop where
  stems : ∀ node ∈ nodes, node.From taken
  order : nodes.Pairwise Precedes

variable {taken first second : List Token} {nodes others : List Node} {node : Node}

theorem From.mono (stems : node.From first) (part : first ⊆ taken) : node.From taken := by
  unfold From at stems ⊢
  split at stems
  · obtain ⟨token, member, same⟩ := stems
    exact ⟨token, part member, same⟩
  · obtain ⟨token, member, same⟩ := stems
    exact ⟨token, part member, same⟩
  · trivial

theorem InOrder.mono (inOrder : InOrder first nodes) (part : first ⊆ taken) :
    InOrder taken nodes :=
  ⟨fun node member => (inOrder.stems node member).mono part, inOrder.order⟩

theorem inOrder_nil : InOrder taken [] := ⟨by simp, .nil⟩

theorem InOrder.append (left : InOrder first nodes) (right : InOrder second others)
    (lined : Lined (first ++ second)) : InOrder (first ++ second) (nodes ++ others) where
  stems := by
    intro node member
    rcases List.mem_append.mp member with here | here
    · exact (left.stems node here).mono (List.subset_append_left _ _)
    · exact (right.stems node here).mono (List.subset_append_right _ _)
  order := by
    refine List.pairwise_append.mpr ⟨left.order, right.order, ?_⟩
    rintro x here y there mark name decl rfl rfl
    obtain ⟨token, member, starts⟩ := left.stems _ here
    obtain ⟨later, memberToo, stops⟩ := right.stems _ there
    have after := (List.pairwise_append.mp lined.apart).2.2 token member later memberToo
    have takes := lined.takes token (List.mem_append_left _ member)
    have takesToo := lined.takes later (List.mem_append_right _ memberToo)
    rw [starts, stops]
    omega

/-- A node after those inside it. -/
theorem InOrder.close (inside : InOrder taken nodes) (stems : node.From taken)
    (later : ∀ decl, node = .stmt (.var decl) → ∀ mark name, .expr (.symbol mark name) ∈ nodes →
      mark.span.start.offset < decl.mark.span.stop.offset) : InOrder taken (nodes ++ [node]) where
  stems := by
    intro other member
    rcases List.mem_append.mp member with here | here
    · exact inside.stems other here
    · rw [List.mem_singleton.mp here]
      exact stems
  order := by
    refine List.pairwise_append.mpr ⟨inside.order, List.pairwise_singleton _ _, ?_⟩
    rintro x here y there mark name decl rfl is
    rw [List.mem_singleton.mp there] at is
    exact later decl is mark name here

end Node

/-! ## Types and expressions -/

namespace Node

/-- A node that is neither a name nor a variable. -/
theorem InOrder.with {taken : List Token} {nodes : List Node} {node : Node}
    (inside : InOrder taken nodes) (stems : node.From taken)
    (other : ∀ decl, node ≠ .stmt (.var decl)) : InOrder taken (nodes ++ [node]) :=
  inside.close stems fun decl is => absurd is (other decl)

/-- Expressions, of which the names start with one of some tokens. -/
def Names (taken : List Token) (nodes : List Node) : Prop :=
  ∀ node ∈ nodes, (∃ e, node = .expr e) ∧ node.From taken

variable {taken first : List Token} {nodes others : List Node} {e : Expr}

theorem names_nil : Names taken [] := by simp [Names]

theorem Names.mono (names : Names first nodes) (part : first ⊆ taken) : Names taken nodes :=
  fun node member => ⟨(names node member).1, (names node member).2.mono part⟩

theorem Names.append (left : Names taken nodes) (right : Names taken others) :
    Names taken (nodes ++ others) := fun node member =>
  (List.mem_append.mp member).elim (left node) (right node)

theorem names_single (stems : (Node.expr e).From taken) : Names taken [.expr e] := by
  intro node member
  rw [List.mem_singleton.mp member]
  exact ⟨⟨e, rfl⟩, stems⟩

theorem Names.inOrder (names : Names taken nodes) : InOrder taken nodes where
  stems := fun node member => (names node member).2
  order := by
    refine List.pairwise_of_forall_mem_list fun x here y there => ?_
    rintro mark name decl rfl rfl
    obtain ⟨⟨e, is⟩, _⟩ := names _ there
    cases is

/-- Nodes among which there is no name and no variable. -/
def Quiet (nodes : List Node) : Prop :=
  ∀ node ∈ nodes, (∀ mark name, node ≠ .expr (.symbol mark name)) ∧ ∀ decl, node ≠ .stmt (.var decl)

theorem Quiet.append (left : Quiet nodes) (right : Quiet others) : Quiet (nodes ++ others) :=
  fun node member => (List.mem_append.mp member).elim (left node) (right node)

theorem Quiet.inOrder (quiet : Quiet nodes) : InOrder taken nodes where
  stems := by
    intro node member
    obtain ⟨noName, noVariable⟩ := quiet node member
    unfold From
    split
    · exact absurd rfl (noName _ _)
    · exact absurd rfl (noVariable _)
    · trivial
  order := by
    refine List.pairwise_of_forall_mem_list fun x here y there => ?_
    rintro mark name decl rfl rfl
    exact absurd rfl ((quiet _ here).1 mark name)

theorem Quiet.append_inOrder (quiet : Quiet nodes) (after : InOrder taken others) :
    InOrder taken (nodes ++ others) where
  stems := fun node member =>
    (List.mem_append.mp member).elim (quiet.inOrder.stems node) (after.stems node)
  order := by
    have before : InOrder taken nodes := quiet.inOrder
    refine List.pairwise_append.mpr ⟨before.order, after.order, ?_⟩
    rintro x here y there mark name decl rfl rfl
    exact absurd rfl ((quiet _ here).1 mark name)

theorem quiet_type (type : TypeExpr) : Quiet type.nodes := by
  induction type with
  | named mark name => simp [Quiet, TypeExpr.nodes]
  | array mark component ih => exact ih.append (by simp [Quiet])

theorem quiet_names (names : List TypedName) : Quiet (names.flatMap TypedName.nodes) := by
  intro node member
  obtain ⟨name, _, inside⟩ := List.mem_flatMap.mp member
  exact (quiet_type name.type).append (by simp [Quiet]) node inside

theorem quiet_result (result : Option TypeExpr) :
    Quiet ((result.map TypeExpr.nodes).getD []) := by
  cases result with
  | none => simp [Quiet]
  | some type => exact quiet_type type

end Node

open Node

theorem Token.Separated.subset {parts : List (List Token)} {taken : List Token}
    (separated : Separated parts taken) : parts.flatten ⊆ taken := by
  induction separated with
  | none => simp
  | last part => simp
  | comma _ _ ih => grind

mutual

theorem Expr.Spelled.names : ∀ {e : Expr} {taken : List Token},
    e.Spelled taken → Names taken e.nodes
  | _, _, .int _ _ | _, _, .float _ _ | _, _, .string _ _ | _, _, .bool _ _ | _, _, .null _ _
  | _, _, .constructor _ _ _ | _, _, .create _ _ _ _ _ => names_single trivial
  | .symbol mark _, [token], .symbol span _ =>
    names_single ⟨token, List.mem_cons_self, congrArg Span.start span⟩
  | _, _, .array _ _ spelled separated _ =>
    (spelled.names.mono (List.Subset.trans separated.subset (by grind))).append
      (names_single trivial)
  | _, _, .paren _ _ spelled _ => (spelled.names.mono (by grind)).append (names_single trivial)
  | _, _, .unary _ _ _ spelled => (spelled.names.mono (by grind)).append (names_single trivial)
  | _, _, .binary _ _ left _ right =>
    ((left.names.mono (by simp)).append (right.names.mono (by grind))).append
      (names_single trivial)
  | _, _, .assign _ _ target _ value =>
    ((target.names.mono (by simp)).append (value.names.mono (by grind))).append
      (names_single trivial)
  | _, _, .call _ _ callee _ spelled separated _ =>
    ((callee.names.mono (by simp)).append
      (spelled.names.mono (List.Subset.trans separated.subset (by grind)))).append
        (names_single trivial)
  | _, _, .index _ _ owner _ place _ =>
    ((owner.names.mono (by simp)).append (place.names.mono (by grind))).append
      (names_single trivial)
  | _, _, .field _ _ receiver _ _ => (receiver.names.mono (by simp)).append (names_single trivial)
  | _, _, .member _ _ receiver _ _ => (receiver.names.mono (by simp)).append (names_single trivial)

theorem Expr.AllSpelled.names : ∀ {es : List Expr} {parts : List (List Token)},
    Expr.AllSpelled es parts → Names parts.flatten (Expr.nodesOfAll es)
  | _, _, .nil => names_nil
  | _, _, .cons spelled others =>
    (spelled.names.mono (by simp)).append (others.names.mono (by simp))

end

/-! ## Statements -/

theorem VariableForm.Spelled.inOrder {form : VariableForm} {taken : List Token}
    (spelled : form.Spelled taken) (lined : Lined taken) : InOrder taken form.nodes := by
  cases spelled with
  | typed _ _ => exact (quiet_type _).inOrder
  | both _ _ _ value =>
    exact (quiet_type _).append_inOrder (value.names.inOrder.mono (by grind))
  | inferred _ value => exact value.names.inOrder.mono (by simp)

/-- A variable after its parts. -/
theorem inOrder_var {decl : VariableDecl} {taken part : List Token}
    (inside : InOrder part decl.form.nodes) (subset : part ⊆ taken) (some : taken ≠ [])
    (lined : Lined taken) (span : decl.mark.span = cover taken) :
    InOrder taken (Stmt.nodes (.var decl)) := by
  have whole := inside.mono subset
  refine whole.close ?_ fun other is mark name member => ?_
  · obtain ⟨token, member, stops⟩ := exists_stop some
    exact ⟨token, member, (congrArg Span.stop span).trans stops⟩
  · cases is
    obtain ⟨token, here, starts⟩ := whole.stems _ member
    rw [starts, span]
    exact lined.lt_stop here

mutual

theorem Stmt.Spelled.inOrder : ∀ {s : Stmt} {taken : List Token},
    s.Spelled taken → Lined taken → InOrder taken s.nodes
  | _, _, .block spelled, lined => spelled.inOrder lined
  | _, _, .expression _ spelled, _ => spelled.names.inOrder.with trivial (by simp)
  | _, _, .var span _ _ spelled, lined =>
    inOrder_var (spelled.inOrder (lined.sublist (by grind))) (by simp) (by simp) lined span
  | _, _, .function _ spelled, lined =>
    ((spelled.inOrder (lined.sublist (by grind))).mono (by simp)).with trivial (by simp)
  | _, _, .struct _ _ _ _ _ _, _ => (quiet_names _).inOrder.with trivial (by simp)
  | _, _, .box spelled, lined => (spelled.inOrder lined).with trivial (by simp)
  | _, _, .ifThen _ _ test body _, lined =>
    ((test.names.inOrder.append (body.inOrder (lined.sublist (by grind)))
      (lined.sublist (by grind))).mono (by grind)).with trivial (by simp)
  | _, _, .ifElse _ _ test body _ _ other _, lined =>
    (((test.names.inOrder.append (body.inOrder (lined.sublist (by grind)))
      (lined.sublist (by grind))).append (other.inOrder (lined.sublist (by grind)))
      (lined.sublist (by grind))).mono (by grind)).with trivial (by simp)
  | _, _, .while _ _ test body _, lined =>
    ((test.names.inOrder.append (body.inOrder (lined.sublist (by grind)))
      (lined.sublist (by grind))).mono (by grind)).with trivial (by simp)
  | _, _, .return _ _, _ => inOrder_nil.with trivial (by simp)
  | _, _, .returnValue _ _ spelled, _ =>
    (spelled.names.inOrder.mono (by simp)).with trivial (by simp)

theorem Block.Spelled.inOrder : ∀ {b : Block} {taken : List Token},
    b.Spelled taken → Lined taken → InOrder taken b.nodes
  | _, _, .mk _ _ spelled _, lined =>
    ((spelled.inOrder (lined.sublist (by grind))).mono (by grind)).with trivial (by simp)

theorem Stmt.AllSpelled.inOrder : ∀ {body : List Stmt} {taken : List Token},
    Stmt.AllSpelled body taken → Lined taken → InOrder taken (Stmt.nodesOfAll body)
  | _, _, .nil, _ => inOrder_nil
  | _, _, .cons spelled _ others, lined =>
    ((spelled.inOrder (lined.sublist (by grind))).append
      (others.inOrder (lined.sublist (by grind))) (lined.sublist (by grind))).mono (by grind)

theorem FunctionDecl.Spelled.inOrder : ∀ {decl : FunctionDecl} {keyword : Token}
    {taken : List Token}, decl.Spelled keyword taken → Lined taken → InOrder taken decl.nodes
  | ⟨_, _, parameters, result, body⟩, _, _, .mk _ _ _ _ _ _ _ spelled, lined => by
    have quiet := (quiet_names parameters).append (quiet_result result)
    exact quiet.append_inOrder
      ((spelled.inOrder (lined.sublist (by grind))).mono (by grind))

theorem BoxDecl.Spelled.inOrder : ∀ {decl : BoxDecl} {taken : List Token},
    decl.Spelled taken → Lined taken → InOrder taken decl.nodes
  | _, _, .mk _ _ _ _ spelled _, lined =>
    (spelled.inOrder (lined.sublist (by grind))).mono (by grind)

theorem Member.AllSpelled.inOrder : ∀ {members : List Member} {taken : List Token},
    Member.AllSpelled members taken → Lined taken → InOrder taken (Member.nodesOfAll members)
  | _, _, .nil, _ => inOrder_nil
  | .attr decl :: _, _, .attr _ _ _ others, lined => by
    have quiet := (quiet_type decl.type).append (show Quiet [.name decl] by simp [Quiet])
    exact quiet.append_inOrder
      ((others.inOrder (lined.sublist (by grind))).mono (by grind))
  | .meth decl :: _, _, .meth _ spelled _ others, lined => by
    have own := (spelled.inOrder (lined.sublist (by grind))).with
      (show (Node.method decl).From _ from trivial) (by simp)
    exact (own.append (others.inOrder (lined.sublist (by grind)))
      (lined.sublist (by grind))).mono (by grind)

end

/-- A name that is listed before a variable stands before its end. -/
theorem ordered_of_readProgram {file : String} {source : List Char} {program : Program}
    (read : readProgram file source = .ok program) :
    (Stmt.nodesOfAll program.body).Pairwise Node.Precedes := by
  obtain ⟨tokens, follow, parsed⟩ := parsed_of_readProgram read
  exact ((spelled_of_parse parsed).inOrder (lined_of_follow follow).1).order

end BoxScript
