import BoxScript.Syntax.Parser

/-!
# Identities of nodes

The identities in a tree are listed in the order in which their nodes are complete. The parser hands
them out one after another: what a parsing function reads carries just the identities that it has
taken from the stream, in their order (`Parse.Numbers`). So no two nodes of a parsed program have
the same identity (`nodup_ids_of_parse`).
-/

set_option autoImplicit false

namespace BoxScript

/-! ## The identities in a tree -/

def TypeExpr.ids : TypeExpr → List NodeId
  | .named mark _ => [mark.id]
  | .array mark component => component.ids ++ [mark.id]

mutual

def Expr.ids : Expr → List NodeId
  | .int mark _ | .float mark _ | .string mark _ | .bool mark _ | .null mark | .symbol mark _
  | .constructor mark _ | .create mark _ => [mark.id]
  | .array mark elements => Expr.idsOfAll elements ++ [mark.id]
  | .paren mark inner => inner.ids ++ [mark.id]
  | .unary mark _ operand => operand.ids ++ [mark.id]
  | .binary mark _ left right => left.ids ++ right.ids ++ [mark.id]
  | .assign mark target value => target.ids ++ value.ids ++ [mark.id]
  | .call mark callee given => callee.ids ++ Expr.idsOfAll given ++ [mark.id]
  | .index mark owner place => owner.ids ++ place.ids ++ [mark.id]
  | .field mark receiver _ => receiver.ids ++ [mark.id]
  | .member mark receiver _ => receiver.ids ++ [mark.id]

def Expr.idsOfAll : List Expr → List NodeId
  | [] => []
  | e :: rest => e.ids ++ Expr.idsOfAll rest

end

def TypedName.ids (name : TypedName) : List NodeId := name.type.ids ++ [name.mark.id]

def VariableForm.ids : VariableForm → List NodeId
  | .typed type none => type.ids
  | .typed type (some value) => type.ids ++ value.ids
  | .inferred value => value.ids

def VariableDecl.ids (decl : VariableDecl) : List NodeId := decl.form.ids ++ [decl.mark.id]

def StructDecl.ids (decl : StructDecl) : List NodeId :=
  decl.fields.flatMap TypedName.ids ++ [decl.mark.id]

mutual

def Stmt.ids : Stmt → List NodeId
  | .block b => b.ids
  | .expression mark e => e.ids ++ [mark.id]
  | .var decl => decl.ids
  | .function decl => decl.ids
  | .struct decl => decl.ids
  | .box decl => decl.ids
  | .ifElse mark condition thenBody none => condition.ids ++ thenBody.ids ++ [mark.id]
  | .ifElse mark condition thenBody (some elseBody) =>
    condition.ids ++ thenBody.ids ++ elseBody.ids ++ [mark.id]
  | .while mark condition body => condition.ids ++ body.ids ++ [mark.id]
  | .return mark none => [mark.id]
  | .return mark (some value) => value.ids ++ [mark.id]

def Block.ids : Block → List NodeId
  | ⟨mark, body⟩ => Stmt.idsOfAll body ++ [mark.id]

def Stmt.idsOfAll : List Stmt → List NodeId
  | [] => []
  | s :: rest => s.ids ++ Stmt.idsOfAll rest

def FunctionDecl.ids : FunctionDecl → List NodeId
  | ⟨mark, _, parameters, result, body⟩ =>
    parameters.flatMap TypedName.ids ++ (result.map TypeExpr.ids).getD [] ++ body.ids ++ [mark.id]

def BoxDecl.ids : BoxDecl → List NodeId
  | ⟨mark, _, members⟩ => Member.idsOfAll members ++ [mark.id]

def Member.idsOfAll : List Member → List NodeId
  | [] => []
  | .attr decl :: rest => decl.ids ++ Member.idsOfAll rest
  | .meth decl :: rest => decl.ids ++ Member.idsOfAll rest

end

namespace Parse

/-! ## Taking identities from the stream -/

/-- A parsing function whose result is in a relation with the identities that it takes. -/
def Numbers {α : Type} (parse : Parse α) (post : α → List NodeId → Prop) : Prop :=
  ∀ stream a rest, parse stream = .ok a rest →
    ∃ count, rest.nextId = stream.nextId + count ∧ post a (List.range' stream.nextId count)

/-- A parsing function that takes no identity. -/
def Silent {α : Type} (parse : Parse α) : Prop := parse.Numbers fun _ ids => ids = []

variable {α β : Type} {parse : Parse α} {f : α → Parse β}

theorem Numbers.mono {post weaker : α → List NodeId → Prop} (numbers : parse.Numbers post)
    (implies : ∀ a ids, post a ids → weaker a ids) : parse.Numbers weaker := by
  intro stream a rest result
  obtain ⟨count, next, holds⟩ := numbers stream a rest result
  exact ⟨count, next, implies a _ holds⟩

theorem numbers_pure {post : α → List NodeId → Prop} {a : α} (holds : post a []) :
    (pure a : Parse α).Numbers post := by
  intro stream b rest result
  cases result
  exact ⟨0, rfl, holds⟩

theorem numbers_pure_self {a : α} : (pure a : Parse α).Numbers fun b ids => b = a ∧ ids = [] :=
  numbers_pure ⟨rfl, rfl⟩

theorem numbers_bind {post : α → List NodeId → Prop} {last : β → List NodeId → Prop}
    (first : parse.Numbers post)
    (next : ∀ a ids, post a ids → (f a).Numbers fun b more => last b (ids ++ more)) :
    (parse >>= f).Numbers last := by
  intro stream b rest result
  change EStateM.bind parse f stream = .ok b rest at result
  unfold EStateM.bind at result
  cases parsed : parse stream with
  | ok a middle =>
    rw [parsed] at result
    obtain ⟨count, middleId, holds⟩ := first stream a middle parsed
    obtain ⟨more, restId, done⟩ := next a _ holds middle b rest result
    refine ⟨count + more, by rw [restId, middleId, Nat.add_assoc], ?_⟩
    rw [← List.range'_append_1, ← middleId]
    exact done
  | error stop middle =>
    rw [parsed] at result
    cases result

theorem Silent.bind {last : β → List NodeId → Prop} (silent : parse.Silent)
    (next : ∀ a, (f a).Numbers last) : (parse >>= f).Numbers last :=
  numbers_bind silent fun a ids none => by
    subst none
    exact next a

theorem numbers_map {g : α → β} {post : β → List NodeId → Prop}
    (numbers : parse.Numbers fun a ids => post (g a) ids) : (g <$> parse).Numbers post := by
  intro stream b rest result
  change EStateM.map g parse stream = .ok b rest at result
  unfold EStateM.map at result
  cases parsed : parse stream with
  | ok a middle =>
    rw [parsed] at result
    cases result
    exact numbers stream a rest parsed
  | error stop middle =>
    rw [parsed] at result
    cases result

/-- A part that is there. -/
theorem numbers_optional {idsOf : α → List NodeId}
    (numbers : parse.Numbers fun a ids => idsOf a = ids) :
    (some <$> parse).Numbers fun a ids => (a.map idsOf).getD [] = ids :=
  numbers_map numbers

theorem numbers_throw {post : α → List NodeId → Prop} (stop : Stop) :
    (throw stop : Parse α).Numbers post := by
  intro stream a rest result
  cases result

theorem silent_current : current.Silent := by
  intro stream a rest result
  cases result
  exact ⟨0, rfl, rfl⟩

theorem silent_get : (get : Parse Stream).Silent := by
  intro stream a rest result
  cases result
  exact ⟨0, rfl, rfl⟩

theorem nextId_advance (stream : Stream) : stream.advance.nextId = stream.nextId := by
  unfold Stream.advance
  split
  · rfl
  · split <;> rfl

theorem silent_advance : advance.Silent := by
  intro stream a rest result
  cases result
  exact ⟨0, nextId_advance stream, rfl⟩

theorem numbers_fail {post : α → List NodeId → Prop} (cause : String → SyntaxError.Cause) :
    (fail cause : Parse α).Numbers post :=
  silent_current.bind fun _ => numbers_throw _

/-- What comes after a failure does not matter. -/
theorem numbers_fail_bind {post : β → List NodeId → Prop} (cause : String → SyntaxError.Cause) :
    ((fail cause : Parse α) >>= f).Numbers post :=
  numbers_bind (numbers_fail cause : (fail cause : Parse α).Numbers fun _ _ => False)
    fun _ _ impossible => impossible.elim

theorem silent_accept (kind : TokenKind) : (accept kind).Silent := by
  refine silent_current.bind fun token => ?_
  split
  · exact silent_advance.bind fun _ => numbers_pure rfl
  · exact numbers_pure rfl

theorem silent_expectFor (kind : TokenKind) (wanted : Wanted) : (expectFor kind wanted).Silent := by
  refine silent_current.bind fun token => ?_
  split
  · exact silent_advance
  · exact numbers_fail _

theorem silent_expect (kind : TokenKind) : (expect kind).Silent := silent_expectFor kind _

theorem numbers_freshId : freshId.Numbers fun id ids => ids = [id] := by
  intro stream a rest result
  cases result
  exact ⟨1, rfl, rfl⟩

theorem numbers_markFrom (start : Position) :
    (markFrom start).Numbers fun mark ids => ids = [mark.id] := by
  refine numbers_bind numbers_freshId fun id ids taken => silent_get.bind fun stream => ?_
  exact numbers_pure (by simpa using taken)

end Parse

namespace Parser

open Parse

/-! ## Types and names -/

theorem numbers_typeSuffixes (fuel : Nat) (component : TypeExpr) :
    (typeSuffixes fuel component).Numbers fun type ids => type.ids = component.ids ++ ids := by
  induction fuel generalizing component with
  | zero => exact numbers_pure (List.append_nil _).symm
  | succ fuel ih =>
    refine (silent_accept _).bind fun accepted => ?_
    split
    · refine (silent_expect _).bind fun _ => ?_
      refine numbers_bind (numbers_markFrom _) fun mark ids taken => ?_
      refine (ih _).mono fun type more read => ?_
      rw [read, taken, TypeExpr.ids, List.append_assoc]
    · exact numbers_pure (List.append_nil _).symm

theorem numbers_typeExpr (power : BindingPower) :
    (typeExpr power).Numbers fun type ids => type.ids = ids := by
  refine silent_current.bind fun token => ?_
  dsimp only
  split
  · exact numbers_fail_bind _
  · refine silent_advance.bind fun _ => numbers_bind numbers_freshId fun id ids taken => ?_
    subst taken
    split
    · exact numbers_pure rfl
    · exact silent_get.bind fun stream => numbers_typeSuffixes _ _

theorem numbers_typeAnnotation? :
    typeAnnotation?.Numbers fun type ids => (type.map TypeExpr.ids).getD [] = ids := by
  refine (silent_accept _).bind fun accepted => ?_
  split
  · refine numbers_bind (numbers_typeExpr _) fun type ids read => numbers_pure ?_
    rw [List.append_nil]
    exact read
  · exact numbers_pure rfl

theorem numbers_typedName (start : Position) (name : String) :
    (typedName start name).Numbers fun typed ids => typed.ids = ids := by
  refine (silent_expect _).bind fun _ => numbers_bind (numbers_typeExpr _) fun type ids read => ?_
  refine numbers_bind (numbers_markFrom _) fun mark more taken => numbers_pure ?_
  rw [TypedName.ids, read, taken, List.append_nil]

/-! ## Expressions -/

theorem ids_of_numeral? {mark : Mark} {text : String} {e : Expr}
    (found : numeral? mark text = some e) : e.ids = [mark.id] := by
  unfold numeral? at found
  split at found
  · obtain ⟨value, _, rfl⟩ := Option.map_eq_some_iff.mp found
    rfl
  · obtain ⟨value, _, rfl⟩ := Option.map_eq_some_iff.mp found
    rfl

theorem numbers_primary : primary.Numbers fun e ids => e.ids = ids := by
  refine silent_advance.bind fun token => numbers_bind numbers_freshId fun id ids taken => ?_
  subst taken
  dsimp only
  split
  · split
    · exact numbers_pure (ids_of_numeral? ‹_›)
    · exact numbers_throw _
  all_goals first | exact numbers_pure rfl | exact numbers_throw _

theorem numbers_constructor : Parser.constructor.Numbers fun e ids => e.ids = ids := by
  refine silent_advance.bind fun token => (silent_expectFor _ _).bind fun name => ?_
  refine numbers_bind (numbers_markFrom _) fun mark ids taken => numbers_pure ?_
  rw [taken, Expr.ids, List.append_nil]

theorem numbers_create : create.Numbers fun e ids => e.ids = ids := by
  refine silent_advance.bind fun token => (silent_expectFor _ _).bind fun name => ?_
  refine (silent_expect _).bind fun _ => (silent_expect _).bind fun _ => ?_
  refine numbers_bind (numbers_markFrom _) fun mark ids taken => numbers_pure ?_
  rw [taken, Expr.ids, List.append_nil]

mutual

theorem numbers_expr : ∀ (fuel : Nat) (power : BindingPower),
    (expr fuel power).Numbers fun e ids => e.ids = ids
  | 0, _ => by
    unfold expr
    exact numbers_throw _
  | fuel + 1, power => by
    unfold expr
    refine numbers_bind (numbers_operand fuel) fun left ids read => ?_
    exact (numbers_extend fuel power left).mono fun e more longer => by rw [longer, read]

theorem numbers_operand : ∀ fuel : Nat, (operand fuel).Numbers fun e ids => e.ids = ids
  | 0 => by
    unfold operand
    exact numbers_throw _
  | fuel + 1 => by
    unfold operand
    refine silent_current.bind fun token => ?_
    split
    iterate 6 exact numbers_primary
    · exact numbers_unary fuel .negate
    · exact numbers_unary fuel .not
    · refine silent_advance.bind fun _ => ?_
      refine numbers_bind (numbers_expr fuel _) fun inner ids read => ?_
      refine (silent_expect _).bind fun _ => ?_
      refine numbers_bind (numbers_markFrom _) fun mark more taken => numbers_pure ?_
      rw [Expr.ids, read, taken, List.append_nil]
    · refine silent_advance.bind fun _ => ?_
      refine numbers_bind (numbers_arguments fuel _) fun elements ids read => ?_
      refine numbers_bind (numbers_markFrom _) fun mark more taken => numbers_pure ?_
      rw [Expr.ids, read, taken, List.append_nil]
    · exact numbers_constructor
    · exact numbers_create
    · exact numbers_fail _

theorem numbers_unary : ∀ (fuel : Nat) (op : PrefixOp),
    (unary fuel op).Numbers fun e ids => e.ids = ids
  | 0, _ => by
    unfold unary
    exact numbers_throw _
  | fuel + 1, op => by
    unfold unary
    refine silent_advance.bind fun _ => ?_
    refine numbers_bind (numbers_expr fuel _) fun inner ids read => ?_
    refine numbers_bind (numbers_markFrom _) fun mark more taken => numbers_pure ?_
    rw [Expr.ids, read, taken, List.append_nil]

theorem numbers_extend : ∀ (fuel : Nat) (power : BindingPower) (left : Expr),
    (extend fuel power left).Numbers fun e ids => e.ids = left.ids ++ ids
  | 0, _, _ => by
    unfold extend
    exact numbers_throw _
  | fuel + 1, power, left => by
    unfold extend
    refine silent_current.bind fun token => ?_
    split
    · exact numbers_pure (List.append_nil _).symm
    · split
      · exact numbers_pure (List.append_nil _).symm
      · refine numbers_bind (numbers_suffix fuel _ left) fun longer ids read => ?_
        refine (numbers_extend fuel power longer).mono fun e more last => ?_
        rw [last, read, List.append_assoc]

theorem numbers_suffix : ∀ (fuel : Nat) (power : BindingPower) (left : Expr),
    (suffix fuel power left).Numbers fun e ids => e.ids = left.ids ++ ids
  | 0, _, _ => by
    unfold suffix
    exact numbers_throw _
  | fuel + 1, power, left => by
    unfold suffix
    refine silent_advance.bind fun token => ?_
    split
    · refine numbers_bind (numbers_expr fuel _) fun value ids read => ?_
      refine numbers_bind numbers_freshId fun id more taken => numbers_pure ?_
      rw [Expr.ids, read, taken, List.append_nil, List.append_assoc]
    · refine numbers_bind (numbers_arguments fuel _) fun given ids read => ?_
      refine numbers_bind (numbers_markFrom _) fun mark more taken => numbers_pure ?_
      rw [Expr.ids, read, taken, List.append_nil, List.append_assoc]
    · refine numbers_bind (numbers_expr fuel _) fun place ids read => ?_
      refine (silent_expect _).bind fun _ => ?_
      refine numbers_bind (numbers_markFrom _) fun mark more taken => numbers_pure ?_
      rw [Expr.ids, read, taken, List.append_nil, List.append_assoc]
    · refine (silent_expectFor _ _).bind fun name => ?_
      refine numbers_bind (numbers_markFrom _) fun mark ids taken => numbers_pure ?_
      rw [Expr.ids, taken, List.append_nil]
    · refine (silent_expectFor _ _).bind fun name => ?_
      refine numbers_bind (numbers_markFrom _) fun mark ids taken => numbers_pure ?_
      rw [Expr.ids, taken, List.append_nil]
    · split
      · exact numbers_throw _
      · refine numbers_bind (numbers_expr fuel _) fun right ids read => ?_
        refine numbers_bind numbers_freshId fun id more taken => numbers_pure ?_
        rw [Expr.ids, read, taken, List.append_nil, List.append_assoc]

theorem numbers_arguments : ∀ (fuel : Nat) (close : TokenKind),
    (arguments fuel close).Numbers fun given ids => Expr.idsOfAll given = ids
  | 0, _ => by
    unfold arguments
    exact numbers_throw _
  | fuel + 1, close => by
    unfold arguments
    refine (silent_accept _).bind fun closed => ?_
    split
    · exact numbers_pure rfl
    · refine numbers_bind (numbers_expr fuel _) fun first ids read => ?_
      refine (silent_accept _).bind fun comma => ?_
      split
      · refine numbers_bind (numbers_arguments fuel close) fun others more readToo => ?_
        exact numbers_pure (by rw [Expr.idsOfAll, read, readToo, List.append_nil])
      · refine (silent_expect _).bind fun _ => numbers_pure ?_
        rw [Expr.idsOfAll, Expr.idsOfAll, read]

end

/-! ## Declarations -/

theorem numbers_parameters (fuel : Nat) :
    (parameters fuel).Numbers fun names ids => names.flatMap TypedName.ids = ids := by
  induction fuel with
  | zero => exact numbers_throw _
  | succ fuel ih =>
    refine (silent_accept _).bind fun closed => ?_
    split
    · exact numbers_pure rfl
    · refine (silent_expect _).bind fun token => ?_
      refine numbers_bind (numbers_typedName _ _) fun first ids read => ?_
      refine (silent_accept _).bind fun comma => ?_
      split
      · refine numbers_bind ih fun others more readToo => numbers_pure ?_
        rw [List.flatMap_cons, read, readToo, List.append_nil]
      · refine (silent_expect _).bind fun _ => numbers_pure ?_
        rw [List.flatMap_cons, read, List.flatMap_nil]

theorem numbers_fields (fuel : Nat) :
    (fields fuel).Numbers fun names ids => names.flatMap TypedName.ids = ids := by
  induction fuel with
  | zero => exact numbers_throw _
  | succ fuel ih =>
    refine (silent_accept _).bind fun closed => ?_
    split
    · exact numbers_pure rfl
    · refine (silent_expect _).bind fun token => (silent_expect _).bind fun name => ?_
      refine numbers_bind (numbers_typedName _ _) fun first ids read => ?_
      refine (silent_accept _).bind fun _ => ?_
      refine numbers_bind ih fun others more readToo => numbers_pure ?_
      rw [List.flatMap_cons, read, readToo, List.append_nil]

/-! ## Statements -/

mutual

theorem numbers_stmt : ∀ fuel : Nat, (stmt fuel).Numbers fun s ids => s.ids = ids
  | 0 => by
    unfold stmt
    exact numbers_throw _
  | fuel + 1 => by
    unfold stmt
    refine silent_current.bind fun token => ?_
    have ended : ∀ (s : Stmt) (ids : List NodeId), s.ids = ids →
        (do let _ ← accept .semicolon; pure s : Parse Stmt).Numbers
          fun result more => result.ids = ids ++ more := fun s ids read =>
      (silent_accept _).bind fun _ => numbers_pure (by rw [read, List.append_nil])
    dsimp only
    split
    · exact numbers_bind (numbers_varDecl fuel) ended
    · exact numbers_bind (numbers_map (numbers_function fuel)) ended
    · exact numbers_bind (numbers_struct fuel) ended
    · exact numbers_bind (numbers_box fuel) ended
    · exact numbers_bind (numbers_ifElse fuel) ended
    · exact numbers_bind (numbers_whileLoop fuel) ended
    · exact numbers_bind (numbers_returned fuel) ended
    · exact numbers_bind (numbers_map (numbers_block fuel)) ended
    · refine numbers_bind (numbers_expr fuel _) fun e ids read => ?_
      refine numbers_bind numbers_freshId fun id more taken => ?_
      refine (silent_accept _).bind fun _ => numbers_pure ?_
      rw [Stmt.ids, read, taken, List.append_nil]

theorem numbers_varDecl : ∀ fuel : Nat, (varDecl fuel).Numbers fun s ids => s.ids = ids
  | 0 => by
    unfold varDecl
    exact numbers_throw _
  | fuel + 1 => by
    unfold varDecl
    refine silent_advance.bind fun _ => (silent_expectFor _ _).bind fun name => ?_
    refine numbers_bind numbers_typeAnnotation? fun type ids read => ?_
    refine (silent_accept _).bind fun assigned => ?_
    have marked : ∀ (start : Position) (form : VariableForm) (taken : List NodeId),
      form.ids = taken →
        (do return .var ⟨← markFrom start, name.value, form⟩ : Parse Stmt).Numbers
          fun s more => s.ids = taken ++ more := fun start form taken read =>
      numbers_bind (numbers_markFrom _) fun mark last taken => numbers_pure (by
        rw [Stmt.ids, VariableDecl.ids, read, taken, List.append_nil])
    dsimp only
    split
    · refine numbers_bind (numbers_optional (numbers_expr fuel _)) fun value more readValue => ?_
      subst read readValue
      rcases type with _ | type <;> rcases value with _ | value
      · exact numbers_fail_bind _
      all_goals exact (marked _ _ _ rfl).mono fun s last equal => by simp_all [VariableForm.ids]
    · refine numbers_bind numbers_pure_self fun value more absent => ?_
      obtain ⟨rfl, rfl⟩ := absent
      subst read
      rcases type with _ | type
      · exact numbers_fail_bind _
      · exact marked _ _ _ rfl

theorem numbers_ifElse : ∀ fuel : Nat, (ifElse fuel).Numbers fun s ids => s.ids = ids
  | 0 => by
    unfold ifElse
    exact numbers_throw _
  | fuel + 1 => by
    unfold ifElse
    refine silent_advance.bind fun _ => ?_
    refine numbers_bind (numbers_expr fuel _) fun condition ids read => ?_
    refine numbers_bind (numbers_stmt fuel) fun thenBody more readThen => ?_
    refine (silent_accept _).bind fun hasElse => ?_
    have marked : ∀ (start : Position) (elseBody : Option Stmt) (last : List NodeId),
        (elseBody.map Stmt.ids).getD [] = last →
        (do return .ifElse (← markFrom start) condition thenBody elseBody : Parse Stmt).Numbers
          fun s final => s.ids = ids ++ (more ++ (last ++ final)) :=
      fun start elseBody last readElse =>
        numbers_bind (numbers_markFrom _) fun mark final taken => numbers_pure (by
          cases elseBody <;> simp_all [Stmt.ids])
    dsimp only
    split
    · exact numbers_bind (numbers_optional (numbers_stmt fuel)) fun elseBody last readElse =>
        marked _ elseBody last readElse
    · exact marked _ none [] rfl

theorem numbers_whileLoop : ∀ fuel : Nat, (whileLoop fuel).Numbers fun s ids => s.ids = ids
  | 0 => by
    unfold whileLoop
    exact numbers_throw _
  | fuel + 1 => by
    unfold whileLoop
    refine silent_advance.bind fun _ => ?_
    refine numbers_bind (numbers_expr fuel _) fun condition ids read => ?_
    refine numbers_bind (numbers_stmt fuel) fun body more readBody => ?_
    refine numbers_bind (numbers_markFrom _) fun mark last taken => numbers_pure ?_
    rw [Stmt.ids, read, readBody, taken, List.append_nil, List.append_assoc]

theorem numbers_returned : ∀ fuel : Nat, (returned fuel).Numbers fun s ids => s.ids = ids
  | 0 => by
    unfold returned
    exact numbers_throw _
  | fuel + 1 => by
    unfold returned
    refine silent_advance.bind fun _ => silent_current.bind fun token => ?_
    have marked : ∀ (start : Position) (value : Option Expr) (ids : List NodeId),
        (value.map Expr.ids).getD [] = ids →
        (do return .return (← markFrom start) value : Parse Stmt).Numbers
          fun s more => s.ids = ids ++ more := fun start value ids read =>
      numbers_bind (numbers_markFrom _) fun mark more taken => numbers_pure (by
        cases value <;> simp_all [Stmt.ids])
    dsimp only
    split
    · exact numbers_bind (numbers_optional (numbers_expr fuel _)) fun value ids read =>
        marked _ value ids read
    · exact marked _ none [] rfl

theorem numbers_block : ∀ fuel : Nat, (block fuel).Numbers fun b ids => b.ids = ids
  | 0 => by
    unfold block
    exact numbers_throw _
  | fuel + 1 => by
    unfold block
    refine (silent_expect _).bind fun _ => ?_
    refine numbers_bind (numbers_statements fuel) fun body ids read => ?_
    refine numbers_bind (numbers_markFrom _) fun mark more taken => numbers_pure ?_
    rw [Block.ids, read, taken, List.append_nil]

theorem numbers_statements : ∀ fuel : Nat,
    (statements fuel).Numbers fun body ids => Stmt.idsOfAll body = ids
  | 0 => by
    unfold statements
    exact numbers_throw _
  | fuel + 1 => by
    unfold statements
    refine (silent_accept _).bind fun closed => ?_
    split
    · exact numbers_pure rfl
    · refine silent_current.bind fun token => ?_
      dsimp only
      split
      · exact numbers_fail_bind _
      · refine numbers_bind (numbers_stmt fuel) fun first ids read => ?_
        refine numbers_bind (numbers_statements fuel) fun others more readToo => numbers_pure ?_
        rw [Stmt.idsOfAll, read, readToo, List.append_nil]

theorem numbers_function : ∀ fuel : Nat, (function fuel).Numbers fun decl ids => decl.ids = ids
  | 0 => by
    unfold function
    exact numbers_throw _
  | fuel + 1 => by
    unfold function
    refine silent_advance.bind fun _ => (silent_expectFor _ _).bind fun name => ?_
    refine (silent_expect _).bind fun _ => ?_
    refine numbers_bind (numbers_parameters fuel) fun params ids read => ?_
    refine numbers_bind numbers_typeAnnotation? fun result more readResult => ?_
    refine numbers_bind (numbers_block fuel) fun body others readBody => ?_
    refine numbers_bind (numbers_markFrom _) fun mark last taken => numbers_pure ?_
    rw [FunctionDecl.ids, read, readResult, readBody, taken]
    simp only [List.append_assoc, List.append_nil]

theorem numbers_struct : ∀ fuel : Nat, (struct fuel).Numbers fun s ids => s.ids = ids
  | 0 => by
    unfold struct
    exact numbers_throw _
  | fuel + 1 => by
    unfold struct
    refine silent_advance.bind fun _ => (silent_expectFor _ _).bind fun name => ?_
    refine (silent_expect _).bind fun _ => ?_
    refine numbers_bind (numbers_fields fuel) fun members ids read => ?_
    refine numbers_bind (numbers_markFrom _) fun mark more taken => numbers_pure ?_
    rw [Stmt.ids, StructDecl.ids, read, taken, List.append_nil]

theorem numbers_box : ∀ fuel : Nat, (box fuel).Numbers fun s ids => s.ids = ids
  | 0 => by
    unfold box
    exact numbers_throw _
  | fuel + 1 => by
    unfold box
    refine silent_advance.bind fun _ => (silent_expectFor _ _).bind fun name => ?_
    refine (silent_expect _).bind fun _ => ?_
    refine numbers_bind (numbers_members fuel) fun inside ids read => ?_
    refine numbers_bind (numbers_markFrom _) fun mark more taken => numbers_pure ?_
    rw [Stmt.ids, BoxDecl.ids, read, taken, List.append_nil]

theorem numbers_members : ∀ fuel : Nat,
    (members fuel).Numbers fun inside ids => Member.idsOfAll inside = ids
  | 0 => by
    unfold members
    exact numbers_throw _
  | fuel + 1 => by
    unfold members
    refine silent_current.bind fun token => ?_
    split
    · exact silent_advance.bind fun _ => numbers_pure rfl
    · refine silent_advance.bind fun _ => (silent_expect _).bind fun name => ?_
      refine numbers_bind (numbers_typedName _ _) fun first ids read => ?_
      refine (silent_accept _).bind fun _ => ?_
      refine numbers_bind (numbers_members fuel) fun others more readToo => numbers_pure ?_
      rw [Member.idsOfAll, read, readToo, List.append_nil]
    · refine numbers_bind (numbers_function fuel) fun first ids read => ?_
      refine (silent_accept _).bind fun _ => ?_
      refine numbers_bind (numbers_members fuel) fun others more readToo => numbers_pure ?_
      rw [Member.idsOfAll, read, readToo, List.append_nil]
    · exact numbers_fail _

end

/-! ## Programs -/

theorem numbers_topLevel : ∀ fuel : Nat,
    (topLevel fuel).Numbers fun body ids => Stmt.idsOfAll body = ids
  | 0 => by
    unfold topLevel
    exact numbers_throw _
  | fuel + 1 => by
    unfold topLevel
    refine silent_current.bind fun token => ?_
    split
    · exact numbers_pure rfl
    · refine numbers_bind (numbers_stmt fuel) fun first ids read => ?_
      refine numbers_bind (numbers_topLevel fuel) fun others more readToo => numbers_pure ?_
      rw [Stmt.idsOfAll, read, readToo, List.append_nil]

theorem numbers_program :
    program.Numbers fun p ids => Stmt.idsOfAll p.body = ids := by
  refine silent_get.bind fun stream => ?_
  refine numbers_bind (silent_get.bind fun stream => numbers_topLevel _) fun body ids read => ?_
  refine silent_current.bind fun token => numbers_pure ?_
  rw [List.append_nil]
  exact read

end Parser

/-- No two nodes of a parsed program have the same identity. -/
theorem nodup_ids_of_parse {file : String} {tokens : List Token} {program : Program}
    (parsed : parse file tokens = .ok program) : (Stmt.idsOfAll program.body).Nodup := by
  unfold parse Parse.run EStateM.run at parsed
  split at parsed
  · rename_i p rest result
    cases parsed
    obtain ⟨count, _, ids⟩ := Parser.numbers_program _ _ _ result
    rw [ids]
    exact List.nodup_range'
  · cases parsed

end BoxScript
