import BoxScript.Proofs.Rules.Mirroring
import BoxScript.Typing.Rules

/-!
# Typing rules that mirror one another

The typing rules of one analysis mirror those of another one if the parts of their constructs do:
their marks, what they ask about, and the names that they look up. There is one lemma for each
typing rule. Of the two symbol tables nothing is used but that the declarations, members and names
that are met go with each other (`Mirror.Faithful`, `Mirror.Looks`).
-/

set_option autoImplicit false

namespace BoxScript

/-- The type of a builtin function is made of no struct and no box. -/
theorem Builtin.signature_within (owners : NodeId → Prop) (function : Builtin) :
    function.signature.Within owners := by
  cases function
  exact ⟨⟨trivial, trivial⟩, trivial⟩

namespace Mirror

/-- Declarations that mean the same to a typing rule. -/
structure Alike (mirror : Mirror) (decl other : Declaration) : Prop where
  kind : other.kind = decl.kind
  node : other.node = decl.node
  named : other.namedType? = decl.namedType?
  builtin : ∀ ty, decl.kind = .builtinType ty → ty.Within mirror.owners
  within : ∀ ty, decl.namedType? = some ty → ty.Within mirror.owners
  typed : ∀ node, decl.node = some node → mirror.reads ⟨node, .declType⟩ ⟨node, .declType⟩

/-- A mirror whose tables agree on the declarations and the members that may be met. -/
structure Faithful (mirror : Mirror) : Prop where
  declared : ∀ {id image : DeclId}, mirror.decls id image → ∃ decl other,
    mirror.left.decls[id]? = some decl ∧ mirror.right.decls[image]? = some other ∧
      mirror.Alike decl other
  members : ∀ {owner : NodeId}, mirror.owners owner →
    List.Forall₂ mirror.Alike (mirror.left.members owner) (mirror.right.members owner)
  member : ∀ {owner : NodeId}, mirror.owners owner → ∀ name : String,
    Option.Rel mirror.decls (mirror.left.lookupMember? owner name)
      (mirror.right.lookupMember? owner name)

/-- Lookups that come to the same. -/
inductive Looks (mirror : Mirror) :
    Except SemanticError.Cause DeclId → Except SemanticError.Cause DeclId → Prop
  | found {id image : DeclId} (goes : mirror.decls id image) : Looks mirror (.ok id) (.ok image)
  | failed {cause other : SemanticError.Cause} (same : mirror.lenient ∨ other = cause) :
      Looks mirror (.error cause) (.error other)

/-- Marks of the same node at places that go with each other. -/
structure Marks (mirror : Mirror) (mark image : Mark) : Prop where
  id : image.id = mark.id
  spans : mirror.spans mark.span image.span

/-- Expressions whose types are asked for, and which are reported, in the same way. -/
structure Parts (mirror : Mirror) (e image : Expr) : Prop where
  reads : mirror.reads ⟨e.id, .type⟩ ⟨image.id, .type⟩
  spans : mirror.spans e.span image.span

/-- Expectations that go with each other. -/
inductive Expects (mirror : Mirror) : Expectation → Expectation → Prop
  | none : Expects mirror .none .none
  | type {node image : NodeId} (reads : mirror.reads ⟨node, .type⟩ ⟨image, .type⟩) :
      Expects mirror (.type node) (.type image)
  | param {node image : NodeId} {index : Nat} (reads : mirror.reads ⟨node, .type⟩ ⟨image, .type⟩) :
      Expects mirror (.param node index) (.param image index)
  | element {outer other : Expectation} (inside : Expects mirror outer other) :
      Expects mirror (.element outer) (.element other)

end Mirror

/-- Whether an expression has the form of one that may be assigned to. -/
def Expr.isPlace : Expr → Bool
  | .symbol _ _ | .index _ _ _ | .field _ _ _ | .member _ _ _ => true
  | _ => false

/-- Targets of assignments that go with each other, parentheses aside. -/
inductive Mirror.Targets (mirror : Mirror) : Expr → Expr → Prop
  | symbol {mark image : Mark} {name other : String}
      (reads : mirror.reads ⟨mark.id, .decl⟩ ⟨image.id, .decl⟩) :
      Targets mirror (.symbol mark name) (.symbol image other)
  | index {mark image : Mark} {array index array' index' : Expr} :
      Targets mirror (.index mark array index) (.index image array' index')
  | field {mark image : Mark} {receiver other : Expr} {name : String}
      (reads : mirror.reads ⟨receiver.id, .type⟩ ⟨other.id, .type⟩) :
      Targets mirror (.field mark receiver name) (.field image other name)
  | member {mark image : Mark} {receiver other : Expr} {name : String}
      (reads : mirror.reads ⟨mark.id, .decl⟩ ⟨image.id, .decl⟩) :
      Targets mirror (.member mark receiver name) (.member image other name)
  | other {e image : Expr} (noPlace : e.isPlace = false) (noImage : image.isPlace = false) :
      Targets mirror e image

/-- Functions whose result types are asked for in the same way. -/
def Mirror.Results (mirror : Mirror) (decl other : FunctionDecl) : Prop :=
  Option.Rel (fun type image => mirror.reads ⟨type.id, .type⟩ ⟨image.id, .type⟩) decl.result
    other.result

namespace Rule

open Script

variable {mirror : Mirror} {mark image : Mark}

/-! ## Parts of rules -/

theorem mirrors_declaration (faithful : mirror.Faithful) {id other : DeclId}
    (goes : mirror.decls id other) :
    (declaration mirror.left id).Mirrors mirror (declaration mirror.right other) mirror.Alike := by
  obtain ⟨decl, found, present, image, alike⟩ := faithful.declared goes
  unfold declaration
  rw [present, image]
  exact mirrors_pure alike

theorem mirrors_declaredType {decl other : Declaration} (alike : mirror.Alike decl other) :
    (declaredType decl).Mirrors mirror (declaredType other) fun ty found =>
      found = ty ∧ ty.Within mirror.owners := by
  unfold declaredType
  rw [alike.node]
  cases node : decl.node with
  | none => trivial
  | some node => exact mirrors_declTypeOf (alike.typed _ node)

theorem mirrors_resolveName (faithful : mirror.Faithful) {scope inner : ScopeId}
    {name called : String} {span place : Span} (spans : mirror.spans span place)
    (looks : mirror.Looks (mirror.left.lookup scope name span.start.offset)
      (mirror.right.lookup inner called place.start.offset)) :
    (resolveName mirror.left scope name span).Mirrors mirror
      (resolveName mirror.right inner called place)
      (Option.Rel fun found other => mirror.decls found.1 other.1 ∧
        mirror.Alike found.2 other.2) := by
  unfold resolveName
  generalize mirror.left.lookup scope name span.start.offset = looked at looks
  generalize mirror.right.lookup inner called place.start.offset = found at looks
  cases looks with
  | found goes =>
    exact mirrors_bind (mirrors_declaration faithful goes) fun decl other alike =>
      mirrors_pure (.some ⟨goes, alike⟩)
  | failed same =>
    have reported : ∀ cause other : SemanticError.Cause, (mirror.lenient ∨ other = cause) →
        mirror.Errors ⟨cause, span⟩ ⟨other, place⟩ := by
      intro cause other same
      exact same.imp_right fun equal => ⟨equal, spans⟩
    exact ⟨reported _ _ same, .none⟩

theorem mirrors_resolve {expectation other : Expectation}
    (expects : mirror.Expects expectation other) :
    expectation.resolve.Mirrors mirror other.resolve fun ty found =>
      found = ty ∧ ∀ asked, ty = some asked → asked.Within mirror.owners := by
  induction expects with
  | none => exact mirrors_pure ⟨rfl, by simp⟩
  | type reads =>
    rw [Expectation.resolve, Expectation.resolve, map_eq_pure_bind, map_eq_pure_bind]
    refine mirrors_bind (mirrors_typeOf reads) ?_
    rintro _ ty ⟨rfl, within⟩
    exact mirrors_pure ⟨rfl, fun asked same => Option.some.inj same ▸ within⟩
  | @param node image index reads =>
    refine mirrors_bind (mirrors_typeOf reads) ?_
    rintro _ ty ⟨rfl, within⟩
    cases ty with
    | function params result =>
      refine mirrors_pure ⟨rfl, fun asked same => ?_⟩
      exact Ty.allWithin_iff.mp within.1 asked (List.mem_of_getElem? same)
    | _ => exact mirrors_pure ⟨rfl, by simp⟩
  | element inside ih =>
    refine mirrors_bind ih ?_
    rintro _ ty ⟨rfl, within⟩
    refine mirrors_pure ⟨rfl, fun asked same => ?_⟩
    obtain ⟨outer, here, component⟩ := Option.bind_eq_some_iff.mp same
    have outerWithin := within outer here
    cases outer with
    | array inner =>
      cases component
      exact outerWithin
    | _ => cases component

/-! ## References -/

section References

variable {name called : String} {scope inner : ScopeId}

theorem symbol_mirrors (faithful : mirror.Faithful) (marks : mirror.Marks mark image)
    (named : mirror.lenient ∨ called = name)
    (looks : mirror.Looks (mirror.left.lookup scope name mark.span.start.offset)
      (mirror.right.lookup inner called image.span.start.offset)) :
    Mirrors mirror (symbol mark name scope) (symbol image called inner) := by
  obtain ⟨node, place⟩ := image
  obtain ⟨rfl, spans⟩ := marks
  refine mirrors_ofScript (named.imp_right fun same => by rw [same]) spans ?_
  refine mirrors_bind (mirrors_resolveName faithful spans looks) ?_
  rintro _ _ (⟨⟨goes, alike⟩⟩ | _)
  · rename_i found other
    obtain ⟨id, decl⟩ := found
    obtain ⟨otherId, otherDecl⟩ := other
    dsimp only at goes alike ⊢
    have finish : ∀ ty : Ty, ty.Within mirror.owners →
        (do setDecl mark.id id; setType mark.id ty : Script Unit).Mirrors mirror
          (do setDecl mark.id otherId; setType mark.id ty) fun _ _ => True := by
      intro ty within
      exact mirrors_bind (mirrors_setDecl goes) fun _ _ _ => mirrors_setType within
    rw [alike.kind]
    split
    · exact finish _ (Builtin.signature_within _ _)
    · split
      · exact finish _ trivial
      · refine mirrors_bind (mirrors_declaredType alike) ?_
        rintro _ ty ⟨rfl, within⟩
        exact finish ty within
  · exact mirrors_pure trivial

theorem constructor_mirrors (faithful : mirror.Faithful) (marks : mirror.Marks mark image)
    (looks : mirror.Looks (mirror.left.lookup scope name mark.span.start.offset)
      (mirror.right.lookup inner name image.span.start.offset)) :
    Mirrors mirror (Rule.constructor mark name scope) (Rule.constructor image name inner) := by
  obtain ⟨node, place⟩ := image
  obtain ⟨rfl, spans⟩ := marks
  refine mirrors_ofScript (.inr rfl) spans ?_
  refine mirrors_bind (mirrors_resolveName faithful spans looks) ?_
  rintro _ _ (⟨⟨goes, alike⟩⟩ | _)
  · rename_i found other
    obtain ⟨id, decl⟩ := found
    obtain ⟨otherId, otherDecl⟩ := other
    dsimp only at goes alike ⊢
    rw [alike.named]
    split
    · rename_i named is
      have within := alike.within _ is
      have fields := mirrors_mapM ((faithful.members within).imp fun _ _ => mirrors_declaredType)
      refine mirrors_bind fields fun types others same => ?_
      have equal : others = types ∧ Ty.AllWithin mirror.owners types := by
        clear fields
        induction same with
        | nil => exact ⟨rfl, trivial⟩
        | cons first _ ih => exact ⟨by rw [first.1, ih.1], first.2, ih.2⟩
      rw [equal.1]
      exact mirrors_bind (mirrors_setDecl goes) fun _ _ _ => mirrors_setType ⟨equal.2, within⟩
    · exact mirrors_error spans
  · exact mirrors_pure trivial

theorem create_mirrors (faithful : mirror.Faithful) (marks : mirror.Marks mark image)
    (looks : mirror.Looks (mirror.left.lookup scope name mark.span.start.offset)
      (mirror.right.lookup inner name image.span.start.offset)) :
    Mirrors mirror (create mark name scope) (create image name inner) := by
  obtain ⟨node, place⟩ := image
  obtain ⟨rfl, spans⟩ := marks
  refine mirrors_ofScript (.inr rfl) spans ?_
  refine mirrors_bind (mirrors_resolveName faithful spans looks) ?_
  rintro _ _ (⟨⟨goes, alike⟩⟩ | _)
  · rename_i found other
    obtain ⟨id, decl⟩ := found
    obtain ⟨otherId, otherDecl⟩ := other
    dsimp only at goes alike ⊢
    rw [alike.named]
    split
    · rename_i named is
      have within := alike.within _ is
      exact mirrors_bind (mirrors_setDecl goes) fun _ _ _ => mirrors_setType within
    · exact mirrors_error spans
  · exact mirrors_pure trivial

theorem typeName_mirrors (faithful : mirror.Faithful) (marks : mirror.Marks mark image)
    (looks : mirror.Looks (mirror.left.lookup scope name mark.span.start.offset)
      (mirror.right.lookup inner name image.span.start.offset)) :
    Mirrors mirror (typeName mark name scope) (typeName image name inner) := by
  obtain ⟨node, place⟩ := image
  obtain ⟨rfl, spans⟩ := marks
  refine mirrors_ofScript (.inr rfl) spans ?_
  refine mirrors_bind (mirrors_resolveName faithful spans looks) ?_
  rintro _ _ (⟨⟨goes, alike⟩⟩ | _)
  · rename_i found other
    obtain ⟨id, decl⟩ := found
    obtain ⟨otherId, otherDecl⟩ := other
    dsimp only at goes alike ⊢
    rw [alike.named, alike.kind]
    split
    · rename_i ty is
      refine mirrors_setType ?_
      split at is
      · rename_i builtin kind
        cases is
        exact alike.builtin _ kind
      · exact alike.within _ is
    · exact mirrors_error spans
  · exact mirrors_pure trivial

end References

/-! ## Annotations and expressions -/

theorem arrayType_mirrors {component other : NodeId} (marks : mirror.Marks mark image)
    (reads : mirror.reads ⟨component, .type⟩ ⟨other, .type⟩) :
    Mirrors mirror (arrayType mark component) (arrayType image other) := by
  obtain ⟨node, place⟩ := image
  obtain ⟨rfl, spans⟩ := marks
  refine mirrors_ofScript (.inr rfl) spans (mirrors_bind (mirrors_typeOf reads) ?_)
  rintro _ ty ⟨rfl, within⟩
  exact mirrors_setType within

theorem paren_mirrors {inner other : NodeId} (marks : mirror.Marks mark image)
    (reads : mirror.reads ⟨inner, .type⟩ ⟨other, .type⟩) :
    Mirrors mirror (paren mark inner) (paren image other) := by
  obtain ⟨node, place⟩ := image
  obtain ⟨rfl, spans⟩ := marks
  refine mirrors_ofScript (.inr rfl) spans (mirrors_bind (mirrors_typeOf reads) ?_)
  rintro _ ty ⟨rfl, within⟩
  exact mirrors_setType within

/-- The common type of two types is one of them. -/
theorem within_of_commonSupertype? {owners : NodeId → Prop} {first second common : Ty}
    (firstWithin : first.Within owners) (secondWithin : second.Within owners)
    (is : first.commonSupertype? second = some common) : common.Within owners := by
  unfold Ty.commonSupertype? at is
  split at is
  · cases is
    exact secondWithin
  · split at is
    · cases is
      exact firstWithin
    · cases is

theorem mirrors_commonType {span place : Span} (spans : mirror.spans span place)
    {elements others : List NodeId}
    (reads : List.Forall₂ (fun element other =>
      mirror.reads ⟨element, .type⟩ ⟨other, .type⟩) elements others)
    {component : Ty} (within : component.Within mirror.owners) :
    (commonType span component elements).Mirrors mirror (commonType place component others)
      fun ty found => found = ty ∧ ∀ common, ty = some common → common.Within mirror.owners := by
  induction reads generalizing component with
  | nil => exact mirrors_pure ⟨rfl, fun common same => Option.some.inj same ▸ within⟩
  | cons first _ ih =>
    refine mirrors_bind (mirrors_typeOf first) ?_
    rintro _ ty ⟨rfl, tyWithin⟩
    split
    · rename_i common is
      exact ih (within_of_commonSupertype? within tyWithin is)
    · exact mirrors_bind (mirrors_error spans) fun _ _ _ => mirrors_pure ⟨rfl, by simp⟩

theorem array_mirrors {elements others : List NodeId} {expectation other : Expectation}
    (marks : mirror.Marks mark image)
    (reads : List.Forall₂ (fun element other =>
      mirror.reads ⟨element, .type⟩ ⟨other, .type⟩) elements others)
    (expects : mirror.Expects expectation other) :
    Mirrors mirror (array mark elements expectation) (array image others other) := by
  obtain ⟨node, place⟩ := image
  obtain ⟨rfl, spans⟩ := marks
  refine mirrors_ofScript (.inr rfl) spans ?_
  cases reads with
  | nil =>
    refine mirrors_bind (mirrors_resolve expects) ?_
    rintro _ ty ⟨rfl, within⟩
    split
    · exact mirrors_setType (within _ rfl)
    · exact mirrors_error spans
    · exact mirrors_error spans
  | cons first rest =>
    refine mirrors_bind (mirrors_typeOf first) ?_
    rintro _ ty ⟨rfl, tyWithin⟩
    refine mirrors_bind (mirrors_commonType spans rest tyWithin) ?_
    rintro _ common ⟨rfl, within⟩
    split
    · have inside := within _ rfl
      exact mirrors_setType inside
    · exact mirrors_pure trivial

theorem unary_mirrors {op : PrefixOp} {operand other : NodeId} (marks : mirror.Marks mark image)
    (reads : mirror.reads ⟨operand, .type⟩ ⟨other, .type⟩) :
    Mirrors mirror (unary mark op operand) (unary image op other) := by
  obtain ⟨node, place⟩ := image
  obtain ⟨rfl, spans⟩ := marks
  refine mirrors_ofScript (.inr rfl) spans (mirrors_bind (mirrors_typeOf reads) ?_)
  rintro _ ty ⟨rfl, within⟩
  cases op with
  | not =>
    dsimp only
    split
    · exact mirrors_setType trivial
    · exact mirrors_error spans
  | negate =>
    dsimp only
    split
    · exact mirrors_setType within
    · exact mirrors_error spans

/-- The type of a binary operation is made of no struct and no box. -/
theorem within_of_binaryType {owners : NodeId → Prop} {op : BinaryOp} {left right ty : Ty}
    (is : binaryType op left right = .ok ty) : ty.Within owners := by
  unfold binaryType at is
  split at is
  · split at is
    · cases is
      trivial
    · split at is
      · cases is
        split <;> trivial
      · cases is
  · split at is
    · cases is
    · cases is
      trivial
  · split at is
    · cases is
    · cases is
      trivial
  · split at is
    · cases is
      trivial
    · cases is

theorem binary_mirrors {op : BinaryOp} {left right leftOther rightOther : NodeId}
    (marks : mirror.Marks mark image)
    (leftReads : mirror.reads ⟨left, .type⟩ ⟨leftOther, .type⟩)
    (rightReads : mirror.reads ⟨right, .type⟩ ⟨rightOther, .type⟩) :
    Mirrors mirror (binary mark op left right) (binary image op leftOther rightOther) := by
  obtain ⟨node, place⟩ := image
  obtain ⟨rfl, spans⟩ := marks
  refine mirrors_ofScript (.inr rfl) spans (mirrors_bind (mirrors_typeOf leftReads) ?_)
  rintro _ leftType ⟨rfl, _⟩
  refine mirrors_bind (mirrors_typeOf rightReads) ?_
  rintro _ rightType ⟨rfl, _⟩
  split
  · rename_i ty is
    exact mirrors_setType (within_of_binaryType is)
  · exact mirrors_error spans

theorem mirrors_isAssignable (faithful : mirror.Faithful) {target other : Expr}
    (targets : mirror.Targets target.bare other.bare) :
    (isAssignable mirror.left target).Mirrors mirror (isAssignable mirror.right other)
      fun value found => found = value := by
  unfold isAssignable
  generalize target.bare = place at targets
  generalize other.bare = image at targets
  cases targets with
  | symbol reads =>
    refine mirrors_bind (mirrors_declOf reads) fun id found goes => ?_
    refine mirrors_bind (mirrors_declaration faithful goes) fun decl found alike => ?_
    rw [alike.kind]
    split <;> exact mirrors_pure rfl
  | index => exact mirrors_pure rfl
  | field reads =>
    refine mirrors_bind (mirrors_typeOf reads) ?_
    rintro _ ty ⟨rfl, _⟩
    split <;> exact mirrors_pure rfl
  | member reads =>
    refine mirrors_bind (mirrors_declOf reads) fun id found goes => ?_
    refine mirrors_bind (mirrors_declaration faithful goes) fun decl found alike => ?_
    rw [alike.kind]
    split <;> exact mirrors_pure rfl
  | other noPlace noImage =>
    cases place <;> simp only [Expr.isPlace, Bool.true_eq_false] at noPlace <;>
      cases image <;> simp only [Expr.isPlace, Bool.true_eq_false] at noImage <;>
        exact mirrors_pure rfl

theorem assign_mirrors (faithful : mirror.Faithful) {target other : Expr} {value found : NodeId}
    (marks : mirror.Marks mark image) (targets : mirror.Targets target.bare other.bare)
    (parts : mirror.Parts target other) (reads : mirror.reads ⟨value, .type⟩ ⟨found, .type⟩) :
    Mirrors mirror (assign mark target value) (assign image other found) := by
  obtain ⟨node, place⟩ := image
  obtain ⟨rfl, spans⟩ := marks
  refine mirrors_ofScript (.inr rfl) spans ?_
  refine mirrors_bind (mirrors_isAssignable faithful targets) ?_
  rintro _ assignable rfl
  split
  · exact mirrors_error parts.spans
  · refine mirrors_bind (mirrors_typeOf parts.reads) ?_
    rintro _ targetType ⟨rfl, within⟩
    refine mirrors_bind (mirrors_typeOf reads) ?_
    rintro _ valueType ⟨rfl, _⟩
    split
    · exact mirrors_setType within
    · exact mirrors_error spans

theorem mirrors_checkArguments {arguments others : List Expr}
    (parts : List.Forall₂ mirror.Parts arguments others) (index : Nat) (params : List Ty) :
    (checkArguments index params arguments).Mirrors mirror (checkArguments index params others)
      fun _ _ => True := by
  induction parts generalizing index params with
  | nil => cases params <;> exact mirrors_pure trivial
  | cons first _ ih =>
    cases params with
    | nil => exact mirrors_pure trivial
    | cons param params =>
      refine mirrors_bind (mirrors_typeOf first.reads) ?_
      rintro _ actual ⟨rfl, _⟩
      split
      · exact mirrors_bind (mirrors_error first.spans) fun _ _ _ => ih (index + 1) params
      · exact ih (index + 1) params

theorem call_mirrors {callee other : Expr} {arguments others : List Expr}
    (marks : mirror.Marks mark image) (parts : mirror.Parts callee other)
    (argumentParts : List.Forall₂ mirror.Parts arguments others) :
    Mirrors mirror (call mark callee arguments) (call image other others) := by
  obtain ⟨node, place⟩ := image
  obtain ⟨rfl, spans⟩ := marks
  refine mirrors_ofScript (.inr rfl) spans (mirrors_bind (mirrors_typeOf parts.reads) ?_)
  rintro _ ty ⟨rfl, within⟩
  rw [← argumentParts.length_eq]
  cases ty with
  | function params result =>
    dsimp only
    split
    · exact mirrors_error spans
    · exact mirrors_bind (mirrors_checkArguments argumentParts 0 params) fun _ _ _ =>
        mirrors_setType within.2
  | _ => exact mirrors_error parts.spans

theorem index_mirrors {owner place ownerImage placeImage : Expr} (marks : mirror.Marks mark image)
    (ownerParts : mirror.Parts owner ownerImage) (placeParts : mirror.Parts place placeImage) :
    Mirrors mirror (index mark owner place) (index image ownerImage placeImage) := by
  obtain ⟨node, place⟩ := image
  obtain ⟨rfl, spans⟩ := marks
  refine mirrors_ofScript (.inr rfl) spans (mirrors_bind (mirrors_typeOf ownerParts.reads) ?_)
  rintro _ ownerType ⟨rfl, within⟩
  refine mirrors_bind (mirrors_typeOf placeParts.reads) ?_
  rintro _ placeType ⟨rfl, _⟩
  cases ownerType with
  | array component =>
    dsimp only
    split
    · exact mirrors_setType within
    · exact mirrors_error placeParts.spans
  | _ => exact mirrors_error ownerParts.spans

theorem mirrors_setMember (faithful : mirror.Faithful) {node : NodeId} {id other : DeclId}
    (goes : mirror.decls id other) :
    (setMember mirror.left node id).Mirrors mirror (setMember mirror.right node other)
      fun _ _ => True := by
  refine mirrors_bind (mirrors_declaration faithful goes) fun decl found alike => ?_
  refine mirrors_bind (mirrors_declaredType alike) ?_
  rintro _ ty ⟨rfl, within⟩
  exact mirrors_bind (mirrors_setDecl goes) fun _ _ _ => mirrors_setType within

theorem field_mirrors (faithful : mirror.Faithful) {receiver other : NodeId} {name : String}
    (marks : mirror.Marks mark image) (reads : mirror.reads ⟨receiver, .type⟩ ⟨other, .type⟩) :
    Mirrors mirror (field mark receiver name) (field image other name) := by
  obtain ⟨node, place⟩ := image
  obtain ⟨rfl, spans⟩ := marks
  refine mirrors_ofScript (.inr rfl) spans (mirrors_bind (mirrors_typeOf reads) ?_)
  rintro _ ty ⟨rfl, within⟩
  cases ty with
  | struct named =>
    have member := faithful.member within name
    dsimp only
    generalize mirror.left.lookupMember? named.decl name = looked at member
    generalize mirror.right.lookupMember? named.decl name = found at member
    cases member with
    | some goes => exact mirrors_setMember faithful goes
    | none => exact mirrors_error spans
  | array component =>
    dsimp only
    split
    · exact mirrors_setType trivial
    · exact mirrors_error spans
  | _ => exact mirrors_error spans

theorem member_mirrors (faithful : mirror.Faithful) {receiver other : NodeId} {name : String}
    (marks : mirror.Marks mark image) (reads : mirror.reads ⟨receiver, .type⟩ ⟨other, .type⟩) :
    Mirrors mirror (member mark receiver name) (member image other name) := by
  obtain ⟨node, place⟩ := image
  obtain ⟨rfl, spans⟩ := marks
  refine mirrors_ofScript (.inr rfl) spans (mirrors_bind (mirrors_typeOf reads) ?_)
  rintro _ ty ⟨rfl, within⟩
  cases ty with
  | box named =>
    have member := faithful.member within name
    dsimp only
    generalize mirror.left.lookupMember? named.decl name = looked at member
    generalize mirror.right.lookupMember? named.decl name = found at member
    cases member with
    | some goes => exact mirrors_setMember faithful goes
    | none => exact mirrors_error spans
  | _ => exact mirrors_error spans

/-! ## Declarations and statements -/

theorem annotated_mirrors {node type other : NodeId} {what called : String} {span place : Span}
    (named : mirror.lenient ∨ called = what) (spans : mirror.spans span place)
    (reads : mirror.reads ⟨type, .type⟩ ⟨other, .type⟩) :
    Mirrors mirror (annotated node type what span) (annotated node other called place) := by
  refine mirrors_ofScript named spans (mirrors_bind (mirrors_typeOf reads) ?_)
  rintro _ ty ⟨rfl, within⟩
  exact mirrors_setDeclType within

theorem initializer_mirrors {name called : String} {type other : NodeId} {value found : Expr}
    (named : mirror.lenient ∨ called = name)
    (reads : mirror.reads ⟨type, .type⟩ ⟨other, .type⟩) (parts : mirror.Parts value found) :
    Mirrors mirror (initializer name type value) (initializer called other found) := by
  refine mirrors_ofScript (named.imp_right fun same => by rw [same]) parts.spans ?_
  refine mirrors_bind (mirrors_typeOf reads) ?_
  rintro _ expected ⟨rfl, _⟩
  refine mirrors_bind (mirrors_typeOf parts.reads) ?_
  rintro _ actual ⟨rfl, _⟩
  split
  · exact mirrors_error_named (fun name => .mismatch (.initializer name _ _)) named parts.spans
  · exact mirrors_pure trivial

theorem inferred_mirrors {name called : String} {value other : NodeId}
    (marks : mirror.Marks mark image) (named : mirror.lenient ∨ called = name)
    (reads : mirror.reads ⟨value, .type⟩ ⟨other, .type⟩) :
    Mirrors mirror (inferred mark name value) (inferred image called other) := by
  obtain ⟨node, place⟩ := image
  obtain ⟨rfl, spans⟩ := marks
  refine mirrors_ofScript (named.imp_right fun same => by rw [same]) spans ?_
  refine mirrors_bind (mirrors_typeOf reads) ?_
  rintro _ ty ⟨rfl, within⟩
  cases ty with
  | null => exact mirrors_error_named (fun name => .mismatch (.cannotInfer name _)) named spans
  | void => exact mirrors_error_named (fun name => .mismatch (.cannotInfer name _)) named spans
  | _ => exact mirrors_setDeclType within

theorem mirrors_resultType {decl other : FunctionDecl} (results : mirror.Results decl other) :
    (resultType decl).Mirrors mirror (resultType other) fun ty found =>
      found = ty ∧ ty.Within mirror.owners := by
  unfold Mirror.Results at results
  unfold resultType
  generalize decl.result = type at results
  generalize other.result = image at results
  cases results with
  | some reads => exact mirrors_typeOf reads
  | none => exact mirrors_pure ⟨rfl, trivial⟩

theorem signature_mirrors {decl other : FunctionDecl} (marks : mirror.Marks decl.mark other.mark)
    (named : other.name = decl.name)
    (parameters : List.Forall₂ (fun parameter found =>
      mirror.reads ⟨parameter.type.id, .type⟩ ⟨found.type.id, .type⟩)
      decl.parameters other.parameters)
    (results : mirror.Results decl other) : Mirrors mirror (signature decl) (signature other) := by
  unfold signature
  rw [marks.id]
  refine mirrors_ofScript (.inr (by rw [named])) marks.spans ?_
  have types : (decl.parameters.mapM fun parameter => typeOf parameter.type.id).Mirrors mirror
      (other.parameters.mapM fun parameter => typeOf parameter.type.id)
      (List.Forall₂ fun ty found => found = ty ∧ ty.Within mirror.owners) :=
    mirrors_mapM (parameters.imp fun _ _ => mirrors_typeOf)
  refine mirrors_bind types fun params others same => ?_
  have equal : others = params ∧ Ty.AllWithin mirror.owners params := by
    clear types
    induction same with
    | nil => exact ⟨rfl, trivial⟩
    | cons first _ ih => exact ⟨by rw [first.1, ih.1], first.2, ih.2⟩
  rw [equal.1]
  refine mirrors_bind (mirrors_resultType results) ?_
  rintro _ result ⟨rfl, within⟩
  exact mirrors_setDeclType ⟨equal.2, within⟩

theorem returnsAlways_mirrors {decl other : FunctionDecl} {result found : NodeId}
    (marks : mirror.Marks decl.mark other.mark) (named : other.name = decl.name)
    (reads : mirror.reads ⟨result, .type⟩ ⟨found, .type⟩)
    (body : mirror.reads ⟨decl.body.mark.id, .returns⟩ ⟨other.body.mark.id, .returns⟩) :
    Mirrors mirror (returnsAlways decl result) (returnsAlways other found) := by
  unfold returnsAlways
  rw [named]
  refine mirrors_ofScript (.inr rfl) marks.spans (mirrors_bind (mirrors_typeOf reads) ?_)
  rintro _ ty ⟨rfl, _⟩
  split
  · refine mirrors_bind (mirrors_returnsOf body) ?_
    rintro _ returns rfl
    split
    · exact mirrors_error marks.spans
    · exact mirrors_pure trivial
  · exact mirrors_pure trivial

theorem blockReturns_mirrors {last other : Option NodeId} (marks : mirror.Marks mark image)
    (reads : Option.Rel (fun node found => mirror.reads ⟨node, .returns⟩ ⟨found, .returns⟩) last
      other) :
    Mirrors mirror (blockReturns mark last) (blockReturns image other) := by
  obtain ⟨node, place⟩ := image
  obtain ⟨rfl, spans⟩ := marks
  refine mirrors_ofScript (.inr rfl) spans ?_
  cases reads with
  | some reads =>
    refine mirrors_bind (mirrors_returnsOf reads) ?_
    rintro _ returns rfl
    exact mirrors_setReturns
  | none => exact mirrors_setReturns

theorem condition_mirrors {statement : Conditional} {e other : Expr}
    (parts : mirror.Parts e other) :
    Mirrors mirror (condition statement e) (condition statement other) := by
  refine mirrors_ofScript (.inr rfl) parts.spans (mirrors_bind (mirrors_typeOf parts.reads) ?_)
  rintro _ ty ⟨rfl, _⟩
  split
  · exact mirrors_error parts.spans
  · exact mirrors_pure trivial

theorem branchesReturn_mirrors {thenBody thenOther : NodeId} {elseBody elseOther : Option NodeId}
    (marks : mirror.Marks mark image)
    (thenReads : mirror.reads ⟨thenBody, .returns⟩ ⟨thenOther, .returns⟩)
    (elseReads : Option.Rel (fun node found => mirror.reads ⟨node, .returns⟩ ⟨found, .returns⟩)
      elseBody elseOther) :
    Mirrors mirror (branchesReturn mark thenBody elseBody)
      (branchesReturn image thenOther elseOther) := by
  obtain ⟨node, place⟩ := image
  obtain ⟨rfl, spans⟩ := marks
  refine mirrors_ofScript (.inr rfl) spans (mirrors_bind (mirrors_returnsOf thenReads) ?_)
  rintro _ returns rfl
  split
  · cases elseReads with
    | some reads =>
      refine mirrors_bind (mirrors_returnsOf reads) ?_
      rintro _ both rfl
      exact mirrors_setReturns
    | none => exact mirrors_setReturns
  · exact mirrors_setReturns

theorem returned_mirrors {value other : Option Expr} {enclosing around : FunctionDecl}
    (marks : mirror.Marks mark image) (parts : Option.Rel mirror.Parts value other)
    (results : mirror.Results enclosing around) :
    Mirrors mirror (returned mark value enclosing) (returned image other around) := by
  refine mirrors_ofScript (.inr rfl) marks.spans (mirrors_bind (mirrors_resultType results) ?_)
  rintro _ expected ⟨rfl, _⟩
  cases parts with
  | some parts =>
    refine mirrors_bind (mirrors_typeOf parts.reads) ?_
    rintro _ actual ⟨rfl, _⟩
    split
    · exact mirrors_error parts.spans
    · exact mirrors_pure trivial
  | none =>
    dsimp only
    split
    · exact mirrors_error marks.spans
    · exact mirrors_pure trivial

end Rule

end BoxScript
