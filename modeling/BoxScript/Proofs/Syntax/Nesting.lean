import BoxScript.Proofs.Lexing.Reading
import BoxScript.Proofs.Recasting.Relaying
import BoxScript.Proofs.Syntax.Covering

/-!
# Nodes inside each other

A node covers the tokens that it takes, and its children cover parts of these, one after another
(`Node.Spelled.laid`). So children lie inside their parent, and each of them ends before the next
one starts (`Program.nested_in_source`). The root covers all of the source.
-/

set_option autoImplicit false

namespace BoxScript

open Token

/-! ## The order of children -/

namespace Node

variable {nodes : List Node} {taken : List Token}

/-- Siblings are disjoint and in the order of their tokens. -/
theorem Laid.ordered (laid : Laid nodes taken) (lined : Lined taken) :
    nodes.Pairwise fun first second =>
      first.mark.span.stop.offset ≤ second.mark.span.start.offset := by
  induction laid with
  | nil => exact .nil
  | skip _ ih => exact ih (lined.sublist (List.sublist_cons_self _ _))
  | @cons first nodes part taken spelled others ih =>
    refine .cons (fun second member => ?_) (ih (lined.sublist (List.sublist_append_right _ _)))
    obtain ⟨⟨token, here, starts⟩, _⟩ := others.exists_tokens member
    obtain ⟨some, span⟩ := spelled.span
    obtain ⟨last, hereToo, stops⟩ := exists_stop some
    rw [span, starts, stops]
    exact (List.pairwise_append.mp lined.apart).2.2 last hereToo token here

end Node

/-! ## The spans of a program -/

/-- The tokens and spans of the nodes of a program. -/
structure Program.Nested (file : String) (source : List Char) (tokens : List Token)
    (program : Program) : Prop where
  root : program.mark.span = .within file 0 (byteSize source)
  /-- A node starts with the first of its tokens and ends with the last. -/
  spelled : ∀ node : Node, node.Below (.block program) → ∃ taken, taken <:+: tokens ∧
    node.Spelled taken ∧ taken ≠ [] ∧ node.mark.span = cover taken
  takes : ∀ node : Node, node.Below (.block program) →
      node.mark.span.start.offset < node.mark.span.stop.offset
  inside : ∀ node : Node, node = .block program ∨ node.Below (.block program) →
    ∀ child ∈ node.children, node.mark.span.start.offset ≤ child.mark.span.start.offset ∧
      child.mark.span.stop.offset ≤ node.mark.span.stop.offset
  ordered : ∀ node : Node, node = .block program ∨ node.Below (.block program) →
    node.children.Pairwise fun first second =>
      first.mark.span.stop.offset ≤ second.mark.span.start.offset

theorem Token.untilEnd_append {inner : List Token}
    (plain : ∀ token ∈ inner, token.kind ≠ .endOfFile) (position : Position) :
    untilEnd (inner ++ [endOfFile position]) = inner := by
  rw [untilEnd, List.takeWhile_append_of_pos (by simpa using plain),
    List.takeWhile_cons_of_neg (by simp [endOfFile]), List.append_nil]

namespace Program

variable {file : String} {source : List Char} {tokens : List Token} {program : Program}

/-- The root ends where the source does, after all tokens. -/
theorem root_of_source (read : tokenize file source = .ok tokens)
    (parsed : parse file tokens = .ok program) :
    program.mark.span = .within file 0 (byteSize source) ∧
      ∀ token ∈ untilEnd tokens, token.span.stop.offset ≤ byteSize source := by
  obtain ⟨rest, took, _, _, mark⟩ := root_of_parse parsed
  obtain ⟨inner, whole, plain⟩ := (reads_of_tokenize read).exists_inner
  rw [Nat.zero_add] at whole
  subst whole
  rw [untilEnd_append plain] at took ⊢
  have left : [endOfFile ⟨byteSize source, file⟩] = rest.tokens :=
    List.append_cancel_left took.tokens
  have current : rest.current = endOfFile ⟨byteSize source, file⟩ := by
    rw [Stream.current, ← left]
    rfl
  refine ⟨by rw [mark, current]; rfl, fun token member => ?_⟩
  have before := (List.pairwise_append.mp (runs_of_tokenize read).before).2.2
  exact (before token member _ List.mem_cons_self).apart

/-- The spans of a program are well nested. -/
theorem nested_in_source (read : tokenize file source = .ok tokens)
    (parsed : parse file tokens = .ok program) : program.Nested file source tokens := by
  obtain ⟨root, inSource⟩ := root_of_source read parsed
  have lined := (lined_of_follow (follow_of_tokenize read)).1
  have laid : Node.Laid (Node.block program).children (untilEnd tokens) :=
    (spelled_of_parse parsed).laid
  have kept : untilEnd tokens <:+: tokens := (List.takeWhile_prefix _).isInfix
  have spelled {node : Node} (below : node.Below (.block program)) :
      ∃ taken, taken <:+: untilEnd tokens ∧ node.Spelled taken := laid.exists_part_of_below below
  refine ⟨root, fun node below => ?_, fun node below => ?_, fun node here child member => ?_,
    fun node here => ?_⟩
  · obtain ⟨taken, within, spells⟩ := spelled below
    exact ⟨taken, within.trans kept, spells, spells.span⟩
  · obtain ⟨taken, within, spells⟩ := spelled below
    rw [spells.span.2]
    exact (lined.sublist within.sublist).start_lt_stop spells.span.1
  · rcases here with rfl | below
    · obtain ⟨_, last, memberToo, stops⟩ := laid.exists_tokens member
      rw [stops]
      change program.mark.span.start.offset ≤ _ ∧ _ ≤ program.mark.span.stop.offset
      rw [root]
      exact ⟨Nat.zero_le _, inSource last memberToo⟩
    · obtain ⟨taken, within, spells⟩ := spelled below
      obtain ⟨part, inner, spellsToo⟩ := spells.laid.exists_part member
      rw [spells.span.2, spellsToo.span.2]
      exact (lined.sublist within.sublist).cover_subset inner.subset spellsToo.span.1
  · rcases here with rfl | below
    · exact laid.ordered lined
    · obtain ⟨taken, within, spells⟩ := spelled below
      exact spells.laid.ordered (lined.sublist within.sublist)

/-- A branch that ends with the semicolon of the statement in it. The source goes on after that. -/
theorem nested_in_source_of_branch : ∃ tokens program,
    tokenize "main.sigh" "if a b = -c; // é\n".toList = .ok tokens ∧
      parse "main.sigh" tokens = .ok program ∧
      (Stmt.nodesOfAll program.body).map (·.mark.span) =
        [(3, 4), (5, 6), (10, 11), (9, 11), (5, 11), (5, 11), (0, 12)].map
          (fun ends => .within "main.sigh" ends.1 ends.2) ∧
      program.Nested "main.sigh" "if a b = -c; // é\n".toList tokens := by
  have seen : ((tokenize "main.sigh" "if a b = -c; // é\n".toList).toOption.bind fun tokens =>
      (parse "main.sigh" tokens).toOption.map fun program =>
        (Stmt.nodesOfAll program.body).map (·.mark.span)) =
      some ([(3, 4), (5, 6), (10, 11), (9, 11), (5, 11), (5, 11), (0, 12)].map
        fun ends => .within "main.sigh" ends.1 ends.2) := by
    decide +kernel
  obtain ⟨tokens, program, read, parsed, spans⟩ := exists_parsed seen
  exact ⟨tokens, program, read, parsed, spans, nested_in_source read parsed⟩

end Program

end BoxScript
