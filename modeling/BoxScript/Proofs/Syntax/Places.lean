import BoxScript.Proofs.Lexing.Reading
import BoxScript.Proofs.Syntax.Nodes
import BoxScript.Run

/-!
# The places of names

The tokens of a source follow one another: each starts where the one before it has ended or later,
and takes up some text (`Token.Follow`, `follow_of_tokenize`). The end of the token taken last never
falls while the parser goes on, and all that the parser has read lies before it (`Parse.Reads`).

So the names in the initializer of a variable stand before the end of its declaration
(`Node.Placed`, `placed_of_readProgram`). That end is the place from which the variable is visible:
a name in an initializer can only mean a variable that is visible earlier.
-/

set_option autoImplicit false

namespace BoxScript

/-! ## Tokens in their order -/

/-- Tokens that follow one another from a position on, up to the token of the end of the file. -/
def Token.Follow (position : Nat) : List Token → Prop
  | [] => True
  | token :: rest =>
    token.kind ≠ .endOfFile →
      position ≤ token.span.start.offset ∧ token.span.start.offset < token.span.stop.offset ∧
        Token.Follow token.span.stop.offset rest

theorem byteSize_pos {text : List Char} (some : text ≠ []) : 0 < byteSize text := by
  cases text with
  | nil => exact absurd rfl some
  | cons c rest =>
    have positive := c.utf8Size_pos
    simp only [byteSize_cons]
    omega

theorem Token.Follow.mono {position later : Nat} {tokens : List Token}
    (follow : Token.Follow later tokens) (le : position ≤ later) :
    Token.Follow position tokens := by
  cases tokens with
  | nil => trivial
  | cons token rest =>
    intro notEnd
    obtain ⟨after, takes, others⟩ := follow notEnd
    exact ⟨Nat.le_trans le after, takes, others⟩

/-- The tokens of a reading follow one another. -/
theorem Lexer.Reads.follow {file : String} {offset : Nat} {text : List Char} {tokens : List Token}
    (reads : Reads file offset text tokens) : Token.Follow offset tokens := by
  induction reads with
  | ends => exact fun notEnd => absurd rfl notEnd
  | skip _ _ ih => exact ih.mono (Nat.le_add_right _ _)
  | token spelled _ ih =>
    obtain ⟨c, rest, rfl, _⟩ := exists_cons_of_spelled spelled
    have takes := byteSize_pos (List.cons_ne_nil c rest)
    exact fun _ => ⟨Nat.le_refl _, Nat.lt_add_of_pos_right takes, ih⟩

theorem follow_of_tokenize {file : String} {source : List Char} {tokens : List Token}
    (read : tokenize file source = .ok tokens) : Token.Follow 0 tokens :=
  (reads_of_tokenize read).follow

/-! ## What lies before a position -/

/-- A name lies before a position if it starts before it. A variable that takes its type from its
initializer is declared after all names of the initializer; nothing is asked of the other nodes. -/
def Node.Placed (position : Nat) : Node → Prop
  | .expr (.symbol mark _) => mark.span.start.offset < position
  | .stmt (.var ⟨mark, _, .inferred value⟩) =>
    ∀ inner name, .expr (.symbol inner name) ∈ value.nodes →
      inner.span.start.offset < mark.span.stop.offset
  | _ => True

/-- Nodes that all lie before a position. -/
def Node.AllPlaced (position : Nat) (nodes : List Node) : Prop :=
  ∀ node ∈ nodes, node.Placed position

namespace Node

variable {position later : Nat} {first second : List Node}

theorem Placed.mono {node : Node} (placed : node.Placed position) (le : position ≤ later) :
    node.Placed later := by
  unfold Placed at placed ⊢
  split at placed
  · exact Nat.lt_of_lt_of_le placed le
  · exact placed
  · trivial

theorem AllPlaced.mono (placed : AllPlaced position first) (le : position ≤ later) :
    AllPlaced later first := by
  intro node member
  exact (placed node member).mono le

theorem allPlaced_nil : AllPlaced position [] := by simp [AllPlaced]

theorem AllPlaced.append (left : AllPlaced position first) (right : AllPlaced position second) :
    AllPlaced position (first ++ second) :=
  List.forall_mem_append.mpr ⟨left, right⟩

/-- A node of which nothing is asked. -/
theorem allPlaced_single {node : Node} (free : ∀ position, node.Placed position) :
    AllPlaced position [node] := by
  simpa [AllPlaced] using free position

theorem allPlaced_type (position : Nat) (type : TypeExpr) : AllPlaced position type.nodes := by
  induction type with
  | named mark name => exact allPlaced_single fun _ => trivial
  | array mark component ih => exact ih.append (allPlaced_single fun _ => trivial)

theorem allPlaced_name (position : Nat) (name : TypedName) : AllPlaced position name.nodes :=
  (allPlaced_type position name.type).append (allPlaced_single fun _ => trivial)

theorem allPlaced_names (position : Nat) (names : List TypedName) :
    AllPlaced position (names.flatMap TypedName.nodes) := by
  intro node member
  obtain ⟨name, _, inside⟩ := List.mem_flatMap.mp member
  exact allPlaced_name position name node inside

theorem allPlaced_result (position : Nat) (result : Option TypeExpr) :
    AllPlaced position ((result.map TypeExpr.nodes).getD []) := by
  cases result with
  | none => exact allPlaced_nil
  | some type => exact allPlaced_type position type

end Node

/-! ## Parsing functions -/

/-- Whether the tokens that are left follow the one taken last. -/
def Stream.Tidy (stream : Stream) : Prop := Token.Follow stream.previousEnd.offset stream.tokens

namespace Parse

/-- A parsing function that leaves the tokens in their order and goes on to a later position, and
whose result is in a relation with that position, wherever it starts from a given position on. -/
def Reads {α : Type} (start : Nat) (parse : Parse α) (post : α → Nat → Prop) : Prop :=
  ∀ stream a rest, stream.Tidy → start ≤ stream.previousEnd.offset → parse stream = .ok a rest →
    rest.Tidy ∧ stream.previousEnd.offset ≤ rest.previousEnd.offset ∧ post a rest.previousEnd.offset

/-- A parsing function of whose result nothing is said. -/
def Passes {α : Type} (parse : Parse α) : Prop := ∀ start, parse.Reads start fun _ _ => True

variable {α β : Type} {start : Nat} {parse : Parse α} {f : α → Parse β}

theorem Reads.passes {post : α → Nat → Prop} (reads : parse.Reads 0 post) : parse.Passes := by
  intro start stream a rest tidy _ result
  obtain ⟨after, le, _⟩ := reads stream a rest tidy (Nat.zero_le _) result
  exact ⟨after, le, trivial⟩

theorem reads_pure {post : α → Nat → Prop} {a : α}
    (holds : ∀ position, start ≤ position → post a position) :
    (pure a : Parse α).Reads start post := by
  intro stream b rest tidy reached result
  cases result
  exact ⟨tidy, Nat.le_refl _, holds _ reached⟩

theorem passes_pure {a : α} : (pure a : Parse α).Passes := fun _ => reads_pure fun _ _ => trivial

theorem reads_bind {post : α → Nat → Prop} {last : β → Nat → Prop}
    (first : parse.Reads start post)
    (next : ∀ a position, start ≤ position → post a position → (f a).Reads position last) :
    (parse >>= f).Reads start last := by
  intro stream b rest tidy reached result
  change EStateM.bind parse f stream = .ok b rest at result
  unfold EStateM.bind at result
  cases parsed : parse stream with
  | ok a middle =>
    rw [parsed] at result
    obtain ⟨tidyMiddle, le, holds⟩ := first stream a middle tidy reached parsed
    obtain ⟨tidyRest, leToo, done⟩ :=
      next a _ (Nat.le_trans reached le) holds middle b rest tidyMiddle (Nat.le_refl _) result
    exact ⟨tidyRest, Nat.le_trans le leToo, done⟩
  | error stop middle =>
    rw [parsed] at result
    cases result

theorem Reads.later {post : α → Nat → Prop} {after : Nat} (reads : parse.Reads start post)
    (le : start ≤ after) : parse.Reads after post := by
  intro stream a rest tidy reached result
  exact reads stream a rest tidy (Nat.le_trans le reached) result

theorem Passes.bind {last : β → Nat → Prop} (passes : parse.Passes)
    (next : ∀ a, (f a).Reads start last) : (parse >>= f).Reads start last := by
  apply reads_bind (passes start)
  intro a position le _
  exact (next a).later le

theorem Passes.bindPasses (passes : parse.Passes) (next : ∀ a, (f a).Passes) :
    (parse >>= f).Passes :=
  fun start => passes.bind fun a => next a start

theorem reads_map {g : α → β} {post : β → Nat → Prop}
    (reads : parse.Reads start fun a position => post (g a) position) :
    (g <$> parse).Reads start post := by
  intro stream b rest tidy reached result
  change EStateM.map g parse stream = .ok b rest at result
  unfold EStateM.map at result
  cases parsed : parse stream with
  | ok a middle =>
    rw [parsed] at result
    cases result
    exact reads stream a rest tidy reached parsed
  | error stop middle =>
    rw [parsed] at result
    cases result

theorem Reads.mono {post weaker : α → Nat → Prop} (reads : parse.Reads start post)
    (implies : ∀ a position, post a position → weaker a position) :
    parse.Reads start weaker := by
  intro stream a rest tidy reached result
  obtain ⟨after, le, holds⟩ := reads stream a rest tidy reached result
  exact ⟨after, le, implies a _ holds⟩

/-- A part that is there. -/
theorem reads_optional {nodesOf : α → List Node}
    (reads : parse.Reads start fun a position => Node.AllPlaced position (nodesOf a)) :
    (some <$> parse).Reads start fun a position =>
      Node.AllPlaced position ((a.map nodesOf).getD []) :=
  reads_map reads

/-- A part that is not there. -/
theorem reads_absent {nodesOf : α → List Node} :
    (pure none : Parse (Option α)).Reads start fun a position =>
      Node.AllPlaced position ((a.map nodesOf).getD []) :=
  reads_pure fun _ _ => Node.allPlaced_nil

theorem reads_throw {post : α → Nat → Prop} (stop : Stop) :
    (throw stop : Parse α).Reads start post := by
  intro stream a rest _ _ result
  cases result

theorem passes_get : (get : Parse Stream).Passes := by
  intro start stream a rest tidy _ result
  cases result
  exact ⟨tidy, Nat.le_refl _, trivial⟩

theorem passes_current : current.Passes := by
  intro start stream a rest tidy _ result
  cases result
  exact ⟨tidy, Nat.le_refl _, trivial⟩

theorem passes_freshId : freshId.Passes := by
  intro start stream a rest tidy _ result
  cases result
  exact ⟨tidy, Nat.le_refl _, trivial⟩

/-- A token that is taken starts before the position where the parser stands then. -/
theorem reads_advance : advance.Reads start fun token position =>
    token.kind ≠ .endOfFile → token.span.start.offset < position := by
  intro stream token rest tidy _ result
  cases result
  unfold Stream.current Stream.advance
  cases tokens : stream.tokens with
  | nil =>
    refine ⟨?_, Nat.le_refl _, fun notEnd => absurd rfl notEnd⟩
    rw [Stream.Tidy, tokens]
    trivial
  | cons token rest =>
    unfold Stream.Tidy at tidy
    rw [tokens] at tidy
    by_cases atEnd : token.kind = .endOfFile
    · simp only [atEnd, if_true, List.headD_cons]
      refine ⟨?_, Nat.le_refl _, fun notEnd => absurd rfl notEnd⟩
      rw [Stream.Tidy, tokens]
      exact tidy
    · obtain ⟨after, takes, others⟩ := tidy atEnd
      simp only [atEnd, if_false, List.headD_cons]
      exact ⟨others, Nat.le_of_lt (Nat.lt_of_le_of_lt after takes), fun _ => takes⟩

theorem passes_advance : advance.Passes := reads_advance.passes

theorem reads_fail {post : α → Nat → Prop} (cause : String → SyntaxError.Cause) :
    (fail cause : Parse α).Reads start post :=
  passes_current.bind fun _ => reads_throw _

/-- What comes after a failure does not matter. -/
theorem reads_fail_bind {post : β → Nat → Prop} (cause : String → SyntaxError.Cause) :
    ((fail cause : Parse α) >>= f).Reads start post :=
  reads_bind (reads_fail cause : (fail cause : Parse α).Reads start fun _ _ => False)
    fun _ _ _ impossible => impossible.elim

theorem passes_accept (kind : TokenKind) : (accept kind).Passes := by
  refine passes_current.bindPasses fun token => ?_
  split
  · exact passes_advance.bindPasses fun _ => passes_pure
  · exact passes_pure

theorem passes_expectFor (kind : TokenKind) (wanted : Wanted) : (expectFor kind wanted).Passes := by
  refine passes_current.bindPasses fun token => ?_
  split
  · exact passes_advance
  · exact fun _ => reads_fail _

theorem passes_expect (kind : TokenKind) : (expect kind).Passes := passes_expectFor kind _

/-- A node that is complete ends where the parser stands. -/
theorem reads_markFrom (origin : Position) :
    (markFrom origin).Reads start fun mark position => mark.span.stop.offset = position := by
  intro stream mark rest tidy _ result
  cases result
  exact ⟨tidy, Nat.le_refl _, rfl⟩

theorem passes_markFrom (origin : Position) : (markFrom origin).Passes :=
  (reads_markFrom origin).passes

end Parse

namespace Parser

open Parse Node

variable {start : Nat}

/-! ## Types and names -/

theorem passes_typeSuffixes (fuel : Nat) (component : TypeExpr) :
    (typeSuffixes fuel component).Passes := by
  induction fuel generalizing component with
  | zero => exact passes_pure
  | succ fuel ih =>
    refine (passes_accept _).bindPasses fun accepted => ?_
    split
    · exact (passes_expect _).bindPasses fun _ => (passes_markFrom _).bindPasses fun mark => ih _
    · exact passes_pure

theorem passes_typeExpr (power : BindingPower) : (typeExpr power).Passes := by
  refine passes_current.bindPasses fun token => ?_
  dsimp only
  split
  · exact fun _ => reads_fail_bind _
  · refine passes_advance.bindPasses fun _ => passes_freshId.bindPasses fun id => ?_
    split
    · exact passes_pure
    · exact passes_get.bindPasses fun stream => passes_typeSuffixes _ _

theorem passes_typeAnnotation? : typeAnnotation?.Passes := by
  refine (passes_accept _).bindPasses fun accepted => ?_
  split
  · exact (passes_typeExpr _).bindPasses fun type => passes_pure
  · exact passes_pure

theorem passes_typedName (origin : Position) (name : String) : (typedName origin name).Passes :=
  (passes_expect _).bindPasses fun _ => (passes_typeExpr _).bindPasses fun _ =>
    (passes_markFrom _).bindPasses fun _ => passes_pure

/-! ## Expressions -/

/-- Literals are free to stand anywhere. -/
theorem allPlaced_of_numeral? {mark : Mark} {text : String} {e : Expr} {position : Nat}
    (found : numeral? mark text = some e) : AllPlaced position e.nodes := by
  unfold numeral? at found
  split at found
  · obtain ⟨value, _, rfl⟩ := Option.map_eq_some_iff.mp found
    exact allPlaced_single fun _ => trivial
  · obtain ⟨value, _, rfl⟩ := Option.map_eq_some_iff.mp found
    exact allPlaced_single fun _ => trivial

theorem reads_primary : primary.Reads start fun e position => AllPlaced position e.nodes := by
  refine reads_bind reads_advance fun token position _ before => ?_
  refine passes_freshId.bind fun id => ?_
  dsimp only
  split
  · split
    · exact reads_pure fun _ _ => allPlaced_of_numeral? ‹_›
    · exact reads_throw _
  · rename_i isName
    refine reads_pure fun later le => ?_
    have here : token.span.start.offset < later :=
      Nat.lt_of_lt_of_le (before (by rw [isName]; decide)) le
    simpa [AllPlaced, Expr.nodes, Placed] using here
  all_goals first
    | exact reads_throw _
    | exact reads_pure fun _ _ => allPlaced_single fun _ => trivial

theorem reads_constructor :
    Parser.constructor.Reads start fun e position => AllPlaced position e.nodes :=
  passes_advance.bind fun _ => (passes_expectFor _ _).bind fun _ => (passes_markFrom _).bind
    fun _ => reads_pure fun _ _ => allPlaced_single fun _ => trivial

theorem reads_create : create.Reads start fun e position => AllPlaced position e.nodes :=
  passes_advance.bind fun _ => (passes_expectFor _ _).bind fun _ => (passes_expect _).bind
    fun _ => (passes_expect _).bind fun _ => (passes_markFrom _).bind
      fun _ => reads_pure fun _ _ => allPlaced_single fun _ => trivial

/-- A node of which nothing is asked is complete after the nodes inside it. -/
theorem reads_node {make : Mark → Expr} {inside : List Node} {origin : Position}
    (placed : AllPlaced start inside)
    (nodes : ∀ mark, (make mark).nodes = inside ++ [.expr (make mark)])
    (free : ∀ mark position, (Node.expr (make mark)).Placed position) :
    (do return make (← markFrom origin) : Parse Expr).Reads start
      fun e position => AllPlaced position e.nodes := by
  refine (passes_markFrom _).bind fun mark => reads_pure fun later le => ?_
  rw [nodes]
  exact (placed.mono le).append (allPlaced_single (free mark))

mutual

theorem reads_expr : ∀ (fuel : Nat) (power : BindingPower) {start : Nat},
    (expr fuel power).Reads start fun e position => AllPlaced position e.nodes
  | 0, _, _ => by
    unfold expr
    exact reads_throw _
  | fuel + 1, power, _ => by
    unfold expr
    refine reads_bind (reads_operand fuel) fun left position _ placed => ?_
    exact reads_extend fuel power left placed

theorem reads_operand : ∀ (fuel : Nat) {start : Nat},
    (operand fuel).Reads start fun e position => AllPlaced position e.nodes
  | 0, _ => by
    unfold operand
    exact reads_throw _
  | fuel + 1, _ => by
    unfold operand
    refine passes_current.bind fun token => ?_
    split
    iterate 6 exact reads_primary
    · exact reads_unary fuel .negate
    · exact reads_unary fuel .not
    · refine passes_advance.bind fun _ => ?_
      refine reads_bind (reads_expr fuel _) fun inner position _ placed => ?_
      refine (passes_expect _).bind fun _ => ?_
      exact reads_node placed (fun _ => rfl) fun _ _ => trivial
    · refine passes_advance.bind fun _ => ?_
      refine reads_bind (reads_arguments fuel _) fun elements position _ placed => ?_
      exact reads_node placed (fun _ => rfl) fun _ _ => trivial
    · exact reads_constructor
    · exact reads_create
    · exact reads_fail _

theorem reads_unary : ∀ (fuel : Nat) (op : PrefixOp) {start : Nat},
    (unary fuel op).Reads start fun e position => AllPlaced position e.nodes
  | 0, _, _ => by
    unfold unary
    exact reads_throw _
  | fuel + 1, op, _ => by
    unfold unary
    refine passes_advance.bind fun _ => ?_
    refine reads_bind (reads_expr fuel _) fun inner position _ placed => ?_
    exact reads_node placed (fun _ => rfl) fun _ _ => trivial

theorem reads_extend : ∀ (fuel : Nat) (power : BindingPower) (left : Expr) {start : Nat},
    AllPlaced start left.nodes →
    (extend fuel power left).Reads start fun e position => AllPlaced position e.nodes
  | 0, _, _, _, _ => by
    unfold extend
    exact reads_throw _
  | fuel + 1, power, left, _, placed => by
    unfold extend
    refine passes_current.bind fun token => ?_
    split
    · exact reads_pure fun later le => placed.mono le
    · split
      · exact reads_pure fun later le => placed.mono le
      · refine reads_bind (reads_suffix fuel _ left placed) fun longer position _ placedToo => ?_
        exact reads_extend fuel power longer placedToo

theorem reads_suffix : ∀ (fuel : Nat) (power : BindingPower) (left : Expr) {start : Nat},
    AllPlaced start left.nodes →
    (suffix fuel power left).Reads start fun e position => AllPlaced position e.nodes
  | 0, _, _, _, _ => by
    unfold suffix
    exact reads_throw _
  | fuel + 1, power, left, _, placed => by
    unfold suffix
    refine passes_advance.bind fun token => ?_
    split
    · refine reads_bind (reads_expr fuel _) fun value position le placedToo => ?_
      refine passes_freshId.bind fun id => reads_pure fun later further => ?_
      have both := (placed.mono le).append placedToo
      exact (both.mono further).append (allPlaced_single fun _ => trivial)
    · refine reads_bind (reads_arguments fuel _) fun given position le placedToo => ?_
      exact reads_node ((placed.mono le).append placedToo) (fun _ => rfl) fun _ _ => trivial
    · refine reads_bind (reads_expr fuel _) fun place position le placedToo => ?_
      refine (passes_expect _).bind fun _ => ?_
      exact reads_node ((placed.mono le).append placedToo) (fun _ => rfl) fun _ _ => trivial
    · refine (passes_expectFor _ _).bind fun name => ?_
      exact reads_node placed (fun _ => rfl) fun _ _ => trivial
    · refine (passes_expectFor _ _).bind fun name => ?_
      exact reads_node placed (fun _ => rfl) fun _ _ => trivial
    · split
      · exact reads_throw _
      · refine reads_bind (reads_expr fuel _) fun right position le placedToo => ?_
        refine passes_freshId.bind fun id => reads_pure fun later further => ?_
        have both := (placed.mono le).append placedToo
        exact (both.mono further).append (allPlaced_single fun _ => trivial)

theorem reads_arguments : ∀ (fuel : Nat) (close : TokenKind) {start : Nat},
    (arguments fuel close).Reads start
      fun given position => AllPlaced position (Expr.nodesOfAll given)
  | 0, _, _ => by
    unfold arguments
    exact reads_throw _
  | fuel + 1, close, _ => by
    unfold arguments
    refine (passes_accept _).bind fun closed => ?_
    split
    · exact reads_pure fun _ _ => allPlaced_nil
    · refine reads_bind (reads_expr fuel _) fun first position le placed => ?_
      refine (passes_accept _).bind fun comma => ?_
      split
      · refine reads_bind (reads_arguments fuel close) fun others middle between placedToo => ?_
        refine reads_pure fun later further => ?_
        exact ((placed.mono between).append placedToo).mono further
      · refine (passes_expect _).bind fun _ => reads_pure fun later further => ?_
        exact (placed.mono further).append allPlaced_nil

end

/-! ## Declarations -/

theorem passes_parameters (fuel : Nat) : (parameters fuel).Passes := by
  induction fuel with
  | zero => exact fun _ => reads_throw _
  | succ fuel ih =>
    refine (passes_accept _).bindPasses fun closed => ?_
    split
    · exact passes_pure
    · refine (passes_expect _).bindPasses fun token => ?_
      refine (passes_typedName _ _).bindPasses fun first => ?_
      refine (passes_accept _).bindPasses fun comma => ?_
      split
      · exact ih.bindPasses fun others => passes_pure
      · exact (passes_expect _).bindPasses fun _ => passes_pure

theorem passes_fields (fuel : Nat) : (fields fuel).Passes := by
  induction fuel with
  | zero => exact fun _ => reads_throw _
  | succ fuel ih =>
    refine (passes_accept _).bindPasses fun closed => ?_
    split
    · exact passes_pure
    · refine (passes_expect _).bindPasses fun token => (passes_expect _).bindPasses fun name => ?_
      refine (passes_typedName _ _).bindPasses fun first => ?_
      refine (passes_accept _).bindPasses fun _ => ?_
      exact ih.bindPasses fun others => passes_pure

/-! ## Statements -/

mutual

theorem reads_stmt : ∀ (fuel : Nat) {start : Nat},
    (stmt fuel).Reads start fun s position => AllPlaced position s.nodes
  | 0, _ => by
    unfold stmt
    exact reads_throw _
  | fuel + 1, _ => by
    unfold stmt
    refine passes_current.bind fun token => ?_
    have ended : ∀ (s : Stmt) (position : Nat), AllPlaced position s.nodes →
        (do let _ ← accept .semicolon; pure s : Parse Stmt).Reads position
          fun result later => AllPlaced later result.nodes := fun s position placed =>
      (passes_accept _).bind fun _ => reads_pure fun later le => placed.mono le
    dsimp only
    split
    · exact reads_bind (reads_varDecl fuel) fun s position _ => ended s position
    · refine reads_bind (reads_map (reads_function fuel |>.mono fun decl position placed => ?_))
        fun s position _ => ended s position
      exact placed.append (allPlaced_single fun _ => trivial)
    · exact reads_bind (reads_struct fuel) fun s position _ => ended s position
    · exact reads_bind (reads_box fuel) fun s position _ => ended s position
    · exact reads_bind (reads_ifElse fuel) fun s position _ => ended s position
    · exact reads_bind (reads_whileLoop fuel) fun s position _ => ended s position
    · exact reads_bind (reads_returned fuel) fun s position _ => ended s position
    · exact reads_bind (reads_map (reads_block fuel)) fun s position _ => ended s position
    · refine reads_bind (reads_expr fuel _) fun e position _ placed => ?_
      refine passes_freshId.bind fun id => ended _ position ?_
      exact placed.append (allPlaced_single fun _ => trivial)

/-- The names in an initializer stand before the end of the declaration. -/
theorem reads_varDecl : ∀ (fuel : Nat) {start : Nat},
    (varDecl fuel).Reads start fun s position => AllPlaced position s.nodes
  | 0, _ => by
    unfold varDecl
    exact reads_throw _
  | fuel + 1, _ => by
    unfold varDecl
    refine passes_advance.bind fun token => (passes_expectFor _ _).bind fun name => ?_
    refine passes_typeAnnotation?.bind fun type => (passes_accept _).bind fun assigned => ?_
    have typed : ∀ (position : Nat) (origin : Position) (written : TypeExpr) (value : Option Expr),
        AllPlaced position ((value.map Expr.nodes).getD []) →
        (do return .var ⟨← markFrom origin, name.value, .typed written value⟩ : Parse Stmt).Reads
          position fun s later => AllPlaced later s.nodes := by
      intro position origin written value placed
      refine (passes_markFrom _).bind fun mark => reads_pure fun later le => ?_
      refine AllPlaced.append ?_ (allPlaced_single fun _ => trivial)
      cases value with
      | none => exact allPlaced_type later written
      | some e => exact (allPlaced_type later written).append (placed.mono le)
    have inferred : ∀ (position : Nat) (origin : Position) (value : Expr),
        AllPlaced position value.nodes →
        (do return .var ⟨← markFrom origin, name.value, .inferred value⟩ : Parse Stmt).Reads
          position fun s later => AllPlaced later s.nodes := by
      intro position origin value placed
      refine reads_bind (reads_markFrom _) fun mark middle le stops => ?_
      refine reads_pure fun later further => ?_
      refine AllPlaced.append (placed.mono (Nat.le_trans le further)) ?_
      intro node member
      rw [List.mem_singleton] at member
      subst member
      intro inner text inside
      have before : inner.span.start.offset < position := placed _ inside
      rw [stops]
      exact Nat.lt_of_lt_of_le before le
    have formed : ∀ (position : Nat) (value : Option Expr),
        AllPlaced position ((value.map Expr.nodes).getD []) →
        (do
          let form ← match type, value with
            | some type, value => pure (VariableForm.typed type value)
            | none, some value => pure (VariableForm.inferred value)
            | none, none => Parse.fail (.unwanted · .typeOrInitializer)
          return .var ⟨← markFrom token.span.start, name.value, form⟩ : Parse Stmt).Reads position
          fun s later => AllPlaced later s.nodes := by
      intro position value placed
      rcases type with _ | written
      · rcases value with _ | value
        · exact reads_fail_bind _
        · exact inferred position _ value placed
      · exact typed position _ written value placed
    dsimp only
    split
    · exact reads_bind (reads_optional (reads_expr fuel _))
        fun value position _ => formed position value
    · exact reads_bind reads_absent fun value position _ => formed position value

theorem reads_ifElse : ∀ (fuel : Nat) {start : Nat},
    (ifElse fuel).Reads start fun s position => AllPlaced position s.nodes
  | 0, _ => by
    unfold ifElse
    exact reads_throw _
  | fuel + 1, _ => by
    unfold ifElse
    refine passes_advance.bind fun token => ?_
    refine reads_bind (reads_expr fuel _) fun condition first _ placed => ?_
    refine reads_bind (reads_stmt fuel) fun thenBody second le placedThen => ?_
    refine (passes_accept _).bind fun hasElse => ?_
    have both := (placed.mono le).append placedThen
    have marked : ∀ (position : Nat) (elseBody : Option Stmt), second ≤ position →
        AllPlaced position ((elseBody.map Stmt.nodes).getD []) →
        (do return .ifElse (← markFrom token.span.start) condition thenBody elseBody :
          Parse Stmt).Reads position fun s later => AllPlaced later s.nodes := by
      intro position elseBody between placedElse
      refine (passes_markFrom _).bind fun mark => reads_pure fun later further => ?_
      cases elseBody with
      | none =>
        exact (both.mono (Nat.le_trans between further)).append (allPlaced_single fun _ => trivial)
      | some elseBody =>
        have all := (both.mono between).append placedElse
        exact (all.mono further).append (allPlaced_single fun _ => trivial)
    dsimp only
    split
    · exact reads_bind (reads_optional (reads_stmt fuel))
        fun elseBody position between => marked position elseBody between
    · exact reads_bind reads_absent
        fun elseBody position between => marked position elseBody between

theorem reads_whileLoop : ∀ (fuel : Nat) {start : Nat},
    (whileLoop fuel).Reads start fun s position => AllPlaced position s.nodes
  | 0, _ => by
    unfold whileLoop
    exact reads_throw _
  | fuel + 1, _ => by
    unfold whileLoop
    refine passes_advance.bind fun token => ?_
    refine reads_bind (reads_expr fuel _) fun condition first _ placed => ?_
    refine reads_bind (reads_stmt fuel) fun body second le placedBody => ?_
    refine (passes_markFrom _).bind fun mark => reads_pure fun later further => ?_
    have both := (placed.mono le).append placedBody
    exact (both.mono further).append (allPlaced_single fun _ => trivial)

theorem reads_returned : ∀ (fuel : Nat) {start : Nat},
    (returned fuel).Reads start fun s position => AllPlaced position s.nodes
  | 0, _ => by
    unfold returned
    exact reads_throw _
  | fuel + 1, _ => by
    unfold returned
    refine passes_advance.bind fun token => passes_current.bind fun next => ?_
    have marked : ∀ (position : Nat) (value : Option Expr),
        AllPlaced position ((value.map Expr.nodes).getD []) →
        (do return .return (← markFrom token.span.start) value : Parse Stmt).Reads position
          fun s later => AllPlaced later s.nodes := by
      intro position value placed
      refine (passes_markFrom _).bind fun mark => reads_pure fun later le => ?_
      cases value with
      | none => exact allPlaced_single fun _ => trivial
      | some e => exact (placed.mono le).append (allPlaced_single fun _ => trivial)
    dsimp only
    split
    · exact reads_bind (reads_optional (reads_expr fuel _))
        fun value position _ => marked position value
    · exact reads_bind reads_absent fun value position _ => marked position value

theorem reads_block : ∀ (fuel : Nat) {start : Nat},
    (block fuel).Reads start fun b position => AllPlaced position b.nodes
  | 0, _ => by
    unfold block
    exact reads_throw _
  | fuel + 1, _ => by
    unfold block
    refine (passes_expect _).bind fun _ => ?_
    refine reads_bind (reads_statements fuel) fun body position _ placed => ?_
    refine (passes_markFrom _).bind fun mark => reads_pure fun later le => ?_
    exact (placed.mono le).append (allPlaced_single fun _ => trivial)

theorem reads_statements : ∀ (fuel : Nat) {start : Nat},
    (statements fuel).Reads start fun body position => AllPlaced position (Stmt.nodesOfAll body)
  | 0, _ => by
    unfold statements
    exact reads_throw _
  | fuel + 1, _ => by
    unfold statements
    refine (passes_accept _).bind fun closed => ?_
    split
    · exact reads_pure fun _ _ => allPlaced_nil
    · refine passes_current.bind fun token => ?_
      dsimp only
      split
      · exact reads_fail_bind _
      · refine reads_bind (reads_stmt fuel) fun first position _ placed => ?_
        refine reads_bind (reads_statements fuel) fun others later le placedToo => ?_
        exact reads_pure fun last further => ((placed.mono le).append placedToo).mono further

theorem reads_function : ∀ (fuel : Nat) {start : Nat},
    (function fuel).Reads start fun decl position => AllPlaced position decl.nodes
  | 0, _ => by
    unfold function
    exact reads_throw _
  | fuel + 1, _ => by
    unfold function
    refine passes_advance.bind fun _ => (passes_expectFor _ _).bind fun name => ?_
    refine (passes_expect _).bind fun _ => (passes_parameters fuel).bind fun params => ?_
    refine passes_typeAnnotation?.bind fun result => ?_
    refine reads_bind (reads_block fuel) fun body position _ placed => ?_
    refine (passes_markFrom _).bind fun mark => reads_pure fun later le => ?_
    exact ((allPlaced_names later params).append (allPlaced_result later result)).append
      (placed.mono le)

theorem reads_struct : ∀ (fuel : Nat) {start : Nat},
    (struct fuel).Reads start fun s position => AllPlaced position s.nodes
  | 0, _ => by
    unfold struct
    exact reads_throw _
  | fuel + 1, _ => by
    unfold struct
    refine passes_advance.bind fun _ => (passes_expectFor _ _).bind fun name => ?_
    refine (passes_expect _).bind fun _ => (passes_fields fuel).bind fun members => ?_
    refine (passes_markFrom _).bind fun mark => reads_pure fun later _ => ?_
    exact (allPlaced_names later members).append (allPlaced_single fun _ => trivial)

theorem reads_box : ∀ (fuel : Nat) {start : Nat},
    (box fuel).Reads start fun s position => AllPlaced position s.nodes
  | 0, _ => by
    unfold box
    exact reads_throw _
  | fuel + 1, _ => by
    unfold box
    refine passes_advance.bind fun _ => (passes_expectFor _ _).bind fun name => ?_
    refine (passes_expect _).bind fun _ => ?_
    refine reads_bind (reads_members fuel) fun inside position _ placed => ?_
    refine (passes_markFrom _).bind fun mark => reads_pure fun later le => ?_
    exact (placed.mono le).append (allPlaced_single fun _ => trivial)

theorem reads_members : ∀ (fuel : Nat) {start : Nat},
    (members fuel).Reads start fun inside position => AllPlaced position (Member.nodesOfAll inside)
  | 0, _ => by
    unfold members
    exact reads_throw _
  | fuel + 1, _ => by
    unfold members
    refine passes_current.bind fun token => ?_
    split
    · exact passes_advance.bind fun _ => reads_pure fun _ _ => allPlaced_nil
    · refine passes_advance.bind fun _ => (passes_expect _).bind fun name => ?_
      refine (passes_typedName _ _).bind fun first => (passes_accept _).bind fun _ => ?_
      refine reads_bind (reads_members fuel) fun others position _ placed => ?_
      refine reads_pure fun later le => ?_
      exact (allPlaced_name later first).append (placed.mono le)
    · refine reads_bind (reads_function fuel) fun first position _ placed => ?_
      refine (passes_accept _).bind fun _ => ?_
      refine reads_bind (reads_members fuel) fun others later le placedToo => ?_
      refine reads_pure fun last further => ?_
      have method : AllPlaced position [.method first] := allPlaced_single fun _ => trivial
      exact (((placed.append method).mono le).append placedToo).mono further
    · exact reads_fail _

end

/-! ## Programs -/

theorem reads_topLevel : ∀ (fuel : Nat) {start : Nat},
    (topLevel fuel).Reads start fun body position => AllPlaced position (Stmt.nodesOfAll body)
  | 0, _ => by
    unfold topLevel
    exact reads_throw _
  | fuel + 1, _ => by
    unfold topLevel
    refine passes_current.bind fun token => ?_
    split
    · exact reads_pure fun _ _ => allPlaced_nil
    · refine reads_bind (reads_stmt fuel) fun first position _ placed => ?_
      refine reads_bind (reads_topLevel fuel) fun others later le placedToo => ?_
      exact reads_pure fun last further => ((placed.mono le).append placedToo).mono further

theorem reads_program :
    program.Reads start fun p position => AllPlaced position (Stmt.nodesOfAll p.body) := by
  refine passes_get.bind fun stream => ?_
  refine reads_bind (passes_get.bind fun stream => reads_topLevel _)
    fun body position _ placed => ?_
  exact passes_current.bind fun token => reads_pure fun later le => placed.mono le

end Parser

/-- A program that is read from a source has been parsed from tokens that follow one another. -/
theorem parsed_of_readProgram {file : String} {source : List Char} {program : Program}
    (read : readProgram file source = .ok program) :
    ∃ tokens, Token.Follow 0 tokens ∧ parse file tokens = .ok program := by
  unfold readProgram at read
  cases tokenized : tokenize file source with
  | error error =>
    rw [tokenized] at read
    cases read
  | ok tokens =>
    rw [tokenized] at read
    exact ⟨tokens, follow_of_tokenize tokenized, read⟩

/-- The names in the initializer of a variable stand before the place from which it is visible. -/
theorem placed_of_readProgram {file : String} {source : List Char} {program : Program}
    (read : readProgram file source = .ok program) {mark : Mark} {name : String} {value : Expr}
    (member : .stmt (.var ⟨mark, name, .inferred value⟩) ∈ Stmt.nodesOfAll program.body) :
    ∀ inner text, .expr (.symbol inner text) ∈ value.nodes →
      inner.span.start.offset < mark.span.stop.offset := by
  obtain ⟨tokens, follow, parsed⟩ := parsed_of_readProgram read
  unfold parse Parse.run EStateM.run at parsed
  split at parsed
  · rename_i p rest result
    cases parsed
    obtain ⟨_, _, placed⟩ :=
      Parser.reads_program (Stream.ofTokens file tokens) _ rest follow (Nat.zero_le _) result
    exact placed _ member
  · cases parsed

end BoxScript
