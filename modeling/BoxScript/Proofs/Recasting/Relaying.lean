import BoxScript.Proofs.Recasting.Layout
import BoxScript.Proofs.Syntax.Covering
import BoxScript.Proofs.Syntax.Lexemes
import Mathlib.Data.List.TakeWhile

/-!
# Two texts of the same lexemes

The tokens of a text follow one another without overlap, up to the one that ends the file
(`runs_of_tokenize`). So a token is told by its start, and one that does not end the file by its
end, and the tokens of another text of the same lexemes are laid out in the same order. This makes
a `Layout` of the two texts (`Layout.between`): a place goes to where the tokens that start and end
there lie in the other text (`Token.relaid`).

A node that starts and ends with tokens keeps its order with others when it comes to lie elsewhere:
whether it starts before another one (`Layout.start_relaid_le_iff`), and whether it ends
before another one starts (`Layout.stop_relaid_le_iff`), is the same in both texts.
-/

set_option autoImplicit false

namespace BoxScript

open Token

/-! ## The tokens of a text -/

namespace Token

/-- Tokens from a position on. They follow one another and take up some text, and the last one ends
the file. -/
inductive Runs : Nat → List Token → Prop
  | ends {position : Nat} {token : Token} (isEnd : token.kind = .endOfFile)
      (after : position ≤ token.span.start.offset) : Runs position [token]
  | cons {position : Nat} {token : Token} {rest : List Token} (inner : token.kind ≠ .endOfFile)
      (after : position ≤ token.span.start.offset)
      (takes : token.span.start.offset < token.span.stop.offset)
      (others : Runs token.span.stop.offset rest) : Runs position (token :: rest)

/-- Whether a token, which does not end the file, ends before another one starts. -/
structure Before (first second : Token) : Prop where
  inner : first.kind ≠ .endOfFile
  takes : first.span.start.offset < first.span.stop.offset
  apart : first.span.stop.offset ≤ second.span.start.offset

variable {position later : Nat} {tokens : List Token} {token first second : Token}

theorem Before.start_lt (before : first.Before second) :
    first.span.start.offset < second.span.start.offset :=
  Nat.lt_of_lt_of_le before.takes before.apart

theorem Runs.mono (runs : Runs later tokens) (le : position ≤ later) : Runs position tokens := by
  cases runs with
  | ends isEnd after => exact .ends isEnd (Nat.le_trans le after)
  | cons inner after takes others => exact .cons inner (Nat.le_trans le after) takes others

theorem Runs.le_start (runs : Runs position tokens) :
    ∀ token ∈ tokens, position ≤ token.span.start.offset := by
  induction runs with
  | ends _ after => exact List.forall_mem_singleton.mpr after
  | cons _ after takes _ ih =>
    refine List.forall_mem_cons.mpr ⟨after, fun token member => ?_⟩
    exact Nat.le_trans (Nat.le_trans after (Nat.le_of_lt takes)) (ih token member)

theorem Runs.before (runs : Runs position tokens) : tokens.Pairwise Before := by
  induction runs with
  | ends _ _ => exact List.pairwise_singleton _ _
  | cons inner _ takes others ih =>
    exact .cons (fun token member => ⟨inner, takes, others.le_start token member⟩) ih

theorem Runs.exists_end (runs : Runs position tokens) :
    ∃ token ∈ tokens, token.kind = .endOfFile := by
  induction runs with
  | @ends _ token isEnd _ => exact ⟨token, List.mem_cons_self, isEnd⟩
  | cons _ _ _ _ ih =>
    obtain ⟨token, member, isEnd⟩ := ih
    exact ⟨token, List.mem_cons_of_mem _ member, isEnd⟩

theorem Runs.takes (runs : Runs position tokens) :
    ∀ token ∈ tokens, token.kind ≠ .endOfFile →
      token.span.start.offset < token.span.stop.offset := by
  induction runs with
  | ends isEnd _ => exact List.forall_mem_singleton.mpr fun inner => absurd isEnd inner
  | cons _ _ takes _ ih => exact List.forall_mem_cons.mpr ⟨fun _ => takes, ih⟩

/-- Up to the end of the file, the tokens are those that do not end it. -/
theorem Runs.getElem?_untilEnd (runs : Runs position tokens) {i : Nat}
    (here : tokens[i]? = some token) (inner : token.kind ≠ .endOfFile) :
    (untilEnd tokens)[i]? = some token := by
  induction runs generalizing i with
  | ends isEnd _ =>
    obtain ⟨_, rfl⟩ := List.getElem?_eq_some_iff.mp here
    rw [List.getElem_singleton] at inner
    exact absurd isEnd inner
  | @cons _ first rest notEnd _ _ _ ih =>
    have kept : untilEnd (first :: rest) = first :: untilEnd rest :=
      List.takeWhile_cons_of_pos (by simpa using notEnd)
    rw [kept]
    cases i with
    | zero => exact here
    | succ i => exact ih here

/-- Tokens before the end of the file are tokens, and none of them ends it. -/
theorem mem_of_untilEnd (member : token ∈ untilEnd tokens) :
    token ∈ tokens ∧ token.kind ≠ .endOfFile :=
  ⟨(List.takeWhile_sublist _).subset member, by simpa using List.mem_takeWhile_imp member⟩

end Token

theorem Lexer.Reads.runs {file : String} {offset : Nat} {text : List Char} {tokens : List Token}
    (reads : Reads file offset text tokens) : Runs offset tokens := by
  induction reads with
  | ends => exact .ends rfl (Nat.le_refl _)
  | skip _ _ ih => exact ih.mono (Nat.le_add_right _ _)
  | token spelled _ ih =>
    obtain ⟨c, rest, rfl, _⟩ := exists_cons_of_spelled spelled
    have takes := byteSize_pos (List.cons_ne_nil c rest)
    exact .cons (kind_ne_endOfFile_of_spelled spelled) (Nat.le_refl _)
      (Nat.lt_add_of_pos_right takes) ih

/-- The tokens of a text follow one another, and the last one ends the file. -/
theorem runs_of_tokenize {file : String} {source : List Char} {tokens : List Token}
    (read : tokenize file source = .ok tokens) : Runs 0 tokens :=
  (reads_of_tokenize read).runs

/-! ## Places in another text -/

namespace Token

/-- Tokens in the same place of two lists. -/
def Paired (tokens others : List Token) (token image : Token) : Prop :=
  ∃ i : Nat, tokens[i]? = some token ∧ others[i]? = some image

/-- Where an edge of a token lies in another text: at the edge of the token in the same place. -/
def relay (edge : Token → Position) (tokens others : List Token) (position : Position) :
    Position :=
  (((tokens.map edge).zip (others.map edge)).lookup position).getD position

/-- Where a span lies in another text: from the start to the end of the tokens that are in the place
of those that start and end it. -/
def relaid (tokens others : List Token) (span : Span) : Span :=
  ⟨relay (·.span.start) tokens others span.start,
    relay (·.span.stop) (untilEnd tokens) (untilEnd others) span.stop⟩

variable {tokens others : List Token} {token image first second : Token} {i j : Nat}

theorem relay_eq (edge : Token → Position)
    (apart : tokens.Pairwise fun first second => edge first ≠ edge second)
    (here : tokens[i]? = some token) (there : others[i]? = some image) :
    relay edge tokens others (edge token) = edge image := by
  unfold relay
  induction tokens generalizing others i with
  | nil => cases here
  | cons first rest ih =>
    cases others with
    | nil => cases there
    | cons other following =>
      obtain ⟨differs, apart⟩ := List.pairwise_cons.mp apart
      cases i with
      | zero =>
        cases here
        cases there
        simp
      | succ i =>
        have later : (edge token == edge first) = false :=
          beq_false_of_ne (differs token (List.mem_of_getElem? here)).symm
        rw [List.map_cons, List.map_cons, List.zip_cons_cons, List.lookup_cons, later]
        exact ih apart here there

/-- A position where no token has its edge stays. -/
theorem relay_of_forall_ne {edge : Token → Position} {position : Position}
    (none : ∀ token ∈ tokens, position ≠ edge token) :
    relay edge tokens others position = position := by
  have missing : ((tokens.map edge).zip (others.map edge)).lookup position = .none := by
    refine List.lookup_eq_none_iff.mpr fun pair member => ?_
    obtain ⟨token, own, same⟩ := List.mem_map.mp (List.of_mem_zip member).1
    rw [← same]
    simpa using none token own
  rw [relay, missing, Option.getD_none]

/-- One token is before another one if it is in an earlier place. -/
theorem Runs.before_of_lt {position : Nat} (runs : Runs position tokens)
    (here : tokens[i]? = some first) (there : tokens[j]? = some second) (lt : i < j) :
    first.Before second := by
  obtain ⟨bound, rfl⟩ := List.getElem?_eq_some_iff.mp here
  obtain ⟨boundToo, rfl⟩ := List.getElem?_eq_some_iff.mp there
  exact List.pairwise_iff_getElem.mp runs.before i j bound boundToo lt

section Lexemes

variable (same : tokens.map Token.lexeme = others.map Token.lexeme)

include same

theorem Paired.lexeme (paired : Paired tokens others token image) :
    image.lexeme = token.lexeme := by
  obtain ⟨i, here, there⟩ := paired
  have equal := congrArg (·[i]?) same
  simpa [here, there] using equal.symm

theorem exists_paired (member : token ∈ tokens) : ∃ image, Paired tokens others token image := by
  obtain ⟨i, bound, rfl⟩ := List.mem_iff_getElem.mp member
  have length : tokens.length = others.length := by simpa using congrArg List.length same
  exact ⟨others[i], i, List.getElem?_eq_getElem bound,
    List.getElem?_eq_getElem (length ▸ bound)⟩

theorem forall₂_paired : List.Forall₂ (Paired tokens others) tokens others := by
  have length : tokens.length = others.length := by simpa using congrArg List.length same
  refine List.forall₂_iff_get.mpr ⟨length, fun i bound boundToo => ⟨i, ?_, ?_⟩⟩
  · exact List.getElem?_eq_getElem bound
  · exact List.getElem?_eq_getElem boundToo

end Lexemes

end Token

/-! ## The layout of two texts -/

namespace Layout

variable {position place : Nat} {tokens others : List Token}
  (runs : Runs position tokens) (runsToo : Runs place others)
  (same : tokens.map Token.lexeme = others.map Token.lexeme)

/-- How a text is laid out as another one of the same lexemes. -/
def between : Layout where
  pairs := Paired tokens others
  start := relay (·.span.start) tokens others
  stop := relay (·.span.stop) (untilEnd tokens) (untilEnd others)
  kind paired := congrArg Prod.fst (paired.lexeme same)
  value paired := congrArg Prod.snd (paired.lexeme same)
  starts := by
    rintro token image ⟨i, here, there⟩
    have apart : tokens.Pairwise fun first second => first.span.start ≠ second.span.start := by
      refine runs.before.imp ?_
      intro first second before same
      exact Nat.ne_of_lt before.start_lt (congrArg Position.offset same)
    exact (relay_eq (·.span.start) apart here there).symm
  stops := by
    rintro token image ⟨i, here, there⟩ inner
    have innerToo : image.kind ≠ .endOfFile := by
      rw [show image.kind = token.kind from
        congrArg Prod.fst (Paired.lexeme same ⟨i, here, there⟩)]
      exact inner
    have apart : (untilEnd tokens).Pairwise fun first second =>
        first.span.stop ≠ second.span.stop := by
      refine (runs.before.sublist (List.takeWhile_sublist _)).imp_of_mem ?_
      intro first second _ member before
      obtain ⟨own, innerSecond⟩ := mem_of_untilEnd member
      have lt := Nat.lt_of_le_of_lt before.apart (runs.takes second own innerSecond)
      exact fun same => Nat.ne_of_lt lt (congrArg Position.offset same)
    exact (relay_eq (·.span.stop) apart (runs.getElem?_untilEnd here inner)
      (runsToo.getElem?_untilEnd there innerToo)).symm

theorem span_between (span : Span) :
    (between runs runsToo same).span span = relaid tokens others span := rfl

/-- No token ends at the start of the text. -/
theorem stop_between_zero (file : String) :
    (between runs runsToo same).stop ⟨0, file⟩ = ⟨0, file⟩ := by
  refine relay_of_forall_ne fun token member => ?_
  obtain ⟨own, inner⟩ := mem_of_untilEnd member
  have later : 0 ≠ token.span.stop.offset :=
    Nat.ne_of_lt (Nat.zero_lt_of_lt (runs.takes token own inner))
  exact fun same => later (congrArg Position.offset same)

/-! ### The order of places -/

include runs runsToo

/-- Tokens are in the same order in both texts. -/
theorem before_cases {token image other reflection : Token}
    (paired : Paired tokens others token image)
    (pairedToo : Paired tokens others other reflection) :
    token.Before other ∧ image.Before reflection ∨ token = other ∧ image = reflection ∨
      other.Before token ∧ reflection.Before image := by
  obtain ⟨i, here, there⟩ := paired
  obtain ⟨j, hereToo, thereToo⟩ := pairedToo
  rcases Nat.lt_trichotomy i j with lt | rfl | lt
  · exact .inl ⟨runs.before_of_lt here hereToo lt, runsToo.before_of_lt there thereToo lt⟩
  · exact .inr (.inl ⟨Option.some.inj (here.symm.trans hereToo),
      Option.some.inj (there.symm.trans thereToo)⟩)
  · exact .inr (.inr ⟨runs.before_of_lt hereToo here lt, runsToo.before_of_lt thereToo there lt⟩)

theorem start_le_iff {token image other reflection : Token}
    (paired : Paired tokens others token image)
    (pairedToo : Paired tokens others other reflection) :
    image.span.start.offset ≤ reflection.span.start.offset ↔
      token.span.start.offset ≤ other.span.start.offset := by
  rcases before_cases runs runsToo paired pairedToo with
    ⟨before, after⟩ | ⟨rfl, rfl⟩ | ⟨before, after⟩
  · exact iff_of_true (Nat.le_of_lt after.start_lt) (Nat.le_of_lt before.start_lt)
  · exact iff_of_true (Nat.le_refl _) (Nat.le_refl _)
  · exact iff_of_false (Nat.not_le_of_lt after.start_lt) (Nat.not_le_of_lt before.start_lt)

theorem stop_le_iff {token image other reflection : Token}
    (paired : Paired tokens others token image)
    (pairedToo : Paired tokens others other reflection)
    (takes : token.span.start.offset < token.span.stop.offset)
    (takesToo : image.span.start.offset < image.span.stop.offset) :
    image.span.stop.offset ≤ reflection.span.start.offset ↔
      token.span.stop.offset ≤ other.span.start.offset := by
  rcases before_cases runs runsToo paired pairedToo with
    ⟨before, after⟩ | ⟨rfl, rfl⟩ | ⟨before, after⟩
  · exact iff_of_true after.apart before.apart
  · exact iff_of_false (Nat.not_le_of_lt takesToo) (Nat.not_le_of_lt takes)
  · exact iff_of_false (Nat.not_le_of_lt (Nat.lt_trans after.start_lt takesToo))
      (Nat.not_le_of_lt (Nat.lt_trans before.start_lt takes))

include same

/-- Where a node starts and ends in both texts. -/
theorem ends_of_covers {node : Node} (covers : node.Covers (untilEnd tokens)) :
    ∃ first image last reflection, Paired tokens others first image ∧
      Paired tokens others last reflection ∧ last.span.start.offset < last.span.stop.offset ∧
      reflection.span.start.offset < reflection.span.stop.offset ∧
      node.mark.span = first.span.through last.span ∧
      relaid tokens others node.mark.span = image.span.through reflection.span := by
  obtain ⟨first, member, last, memberToo, span⟩ := covers
  obtain ⟨own, _⟩ := mem_of_untilEnd member
  obtain ⟨ownToo, inner⟩ := mem_of_untilEnd memberToo
  obtain ⟨image, paired⟩ := exists_paired same own
  obtain ⟨reflection, pairedToo⟩ := exists_paired same ownToo
  have innerToo : reflection.kind ≠ .endOfFile := by
    rw [(between runs runsToo same).kind pairedToo]
    exact inner
  obtain ⟨_, _, there⟩ := id pairedToo
  refine ⟨first, image, last, reflection, paired, pairedToo, runs.takes last ownToo inner,
    runsToo.takes reflection (List.mem_of_getElem? there) innerToo, span, ?_⟩
  rw [← span_between runs runsToo same, span, Span.through, Span.through,
    (between runs runsToo same).starts paired, (between runs runsToo same).stops pairedToo inner]
  rfl

/-- Whether a node starts before another one is the same in both texts. -/
theorem start_relaid_le_iff {node other : Node} (covers : node.Covers (untilEnd tokens))
    (coversToo : other.Covers (untilEnd tokens)) :
    (relaid tokens others node.mark.span).start.offset ≤
        (relaid tokens others other.mark.span).start.offset ↔
      node.mark.span.start.offset ≤ other.mark.span.start.offset := by
  obtain ⟨_, _, _, _, paired, _, _, _, span, lies⟩ := ends_of_covers runs runsToo same covers
  obtain ⟨_, _, _, _, pairedToo, _, _, _, spanToo, liesToo⟩ :=
    ends_of_covers runs runsToo same coversToo
  rw [lies, liesToo, span, spanToo]
  exact start_le_iff runs runsToo paired pairedToo

/-- Whether a node ends before another one starts is the same in both texts. -/
theorem stop_relaid_le_iff {node other : Node} (covers : node.Covers (untilEnd tokens))
    (coversToo : other.Covers (untilEnd tokens)) :
    (relaid tokens others node.mark.span).stop.offset ≤
        (relaid tokens others other.mark.span).start.offset ↔
      node.mark.span.stop.offset ≤ other.mark.span.start.offset := by
  obtain ⟨_, _, _, _, _, paired, takes, takesToo, span, lies⟩ :=
    ends_of_covers runs runsToo same covers
  obtain ⟨_, _, _, _, pairedToo, _, _, _, spanToo, liesToo⟩ :=
    ends_of_covers runs runsToo same coversToo
  rw [lies, liesToo, span, spanToo]
  exact stop_le_iff runs runsToo paired pairedToo takes takesToo

end Layout

end BoxScript
