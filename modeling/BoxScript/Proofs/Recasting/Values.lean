import BoxScript.Heap
import BoxScript.Proofs.Recasting.Trees
import BoxScript.Value.Operation

/-!
# Values and names of a tree cast anew

While a tree that is cast anew runs, its functions, methods and boxes are those of the tree cast
anew as well, and otherwise its values are the same ones. The operations on values do not see the
difference (`Value.equals_recast`, `Value.binary_recast`). A frame binds each variable under the
name that its declaration has in the tree cast anew; no name is bound otherwise, as long as names
that are distinct stay so (`Recast.Names`).
-/

set_option autoImplicit false

namespace BoxScript

variable {r : Recast}

/-! ## Values -/

def BoxClass.recast (r : Recast) (cls : BoxClass) : BoxClass :=
  { cls with methods := cls.methods.map (FunctionDecl.recast r) }

def TypeValue.recast (r : Recast) : TypeValue → TypeValue
  | .box cls => .box (cls.recast r)
  | value => value

/-- The value that the tree cast anew has in the place of a value. -/
def Value.recast (r : Recast) : Value → Value
  | .function closure => .function ⟨closure.id, closure.decl.recast r, closure.frame⟩
  | .method receiver decl => .method receiver (decl.recast r)
  | .type value => .type (value.recast r)
  | value => value

theorem BoxClass.method?_recast (cls : BoxClass) (name : String) :
    (cls.recast r).method? name = (cls.method? name).map (FunctionDecl.recast r) := by
  simp only [method?, recast, ← List.map_reverse, List.find?_map]
  congr 2
  funext decl
  simp

@[simp]
theorem TypeValue.name_recast (value : TypeValue) : (value.recast r).name = value.name := by
  cases value <;> rfl

theorem TypeValue.same_recast (a b : TypeValue) : (a.recast r).same (b.recast r) = a.same b := by
  cases a <;> cases b <;> rfl

namespace Value

@[simp]
theorem kind_recast (value : Value) : (value.recast r).kind = value.kind := by
  cases value <;> rfl

theorem coerce_recast (value : Value) (ty : Option Ty) :
    (value.recast r).coerce ty = (value.coerce ty).recast r := by
  cases value with
  | int n =>
    cases ty with
    | none => rfl
    | some ty => cases ty <;> rfl
  | _ => rfl

theorem equals_recast (a b : Value) : (a.recast r).equals (b.recast r) = a.equals b := by
  cases a <;> cases b <;> first
    | rfl
    | exact TypeValue.same_recast _ _
    | simp [recast, equals]

theorem unary_recast (op : PrefixOp) (value : Value) :
    (value.recast r).unary op = (value.unary op).map (recast r) := by
  cases op <;> cases value <;> rfl

theorem intBinary_recast (op : BinaryOp) (a b : Int64) :
    (intBinary op a b).map (recast r) = intBinary op a b := by
  cases op <;> simp only [intBinary] <;> first | rfl | (split <;> rfl)

theorem binary_recast (op : BinaryOp) (a b : Value) :
    (a.recast r).binary op (b.recast r) = (a.binary op b).map (recast r) := by
  cases op with
  | equal => exact congrArg (fun same => Except.ok (bool same)) (equals_recast a b)
  | notEqual => exact congrArg (fun same => Except.ok (bool !same)) (equals_recast a b)
  | _ =>
    cases a <;> cases b <;> first
      | rfl
      | exact (intBinary_recast .divide _ _).symm
      | exact (intBinary_recast .remainder _ _).symm

end Value

/-! ## Names -/

/-- The name under which a variable is bound for a declaration. -/
def Recast.bound (r : Recast) (decl : Option NodeId) (name : String) : String :=
  match decl with
  | some id => r.name id name
  | .none => name

def Binding.recast (r : Recast) (binding : Binding) : Binding :=
  ⟨binding.decl, binding.value.map (Value.recast r)⟩

/-- Whether names of declarations are told apart by those that they have in the tree cast anew. -/
def Recast.Injective (r : Recast) : Prop := ∀ id, Function.Injective (r.name id)

theorem Recast.Injective.bound (injective : r.Injective) (decl : Option NodeId) :
    Function.Injective (r.bound decl) := by
  cases decl with
  | none => exact Function.injective_id
  | some id => exact injective id

/-- An entry of a frame, as it is in the tree cast anew. -/
def Recast.entry (r : Recast) (entry : String × Binding) : String × Binding :=
  (r.bound entry.2.decl entry.1, entry.2.recast r)

/-- Names of a frame, and those of the frame for the tree cast anew: the same bindings, each under
the name that its declaration has. -/
structure Recast.Names (r : Recast) (names image : List (String × Binding)) : Prop where
  bound : ∀ {name : String} {binding : Binding}, names.lookup name = some binding →
    image.lookup (r.bound binding.decl name) = some (binding.recast r)
  found : ∀ {other : String} {binding : Binding}, image.lookup other = some binding →
    ∃ name before, names.lookup name = some before ∧ other = r.bound before.decl name ∧
      binding = before.recast r

namespace Recast.Names

variable {names image : List (String × Binding)} {name : String} {binding : Binding}

theorem nil : r.Names [] [] := ⟨by simp, by simp⟩

/-- Binding a name, if the names that are there are told apart from it alike. -/
theorem bind (same : r.Names names image)
    (apart : ∀ other old, names.lookup other = some old →
      (r.bound old.decl other = r.bound binding.decl name ↔ other = name)) :
    r.Names (Frame.bind name binding names)
      (Frame.bind (r.bound binding.decl name) (binding.recast r) image) where
  bound := by
    intro other old found
    rw [Frame.lookup_bind] at found ⊢
    split at found
    · rename_i here
      cases found
      subst here
      rw [if_pos rfl]
    · rename_i there
      rw [if_neg fun clash => there ((apart other old found).mp clash)]
      exact same.bound found
  found := by
    intro other old found
    rw [Frame.lookup_bind] at found
    split at found
    · rename_i here
      cases found
      exact ⟨name, binding, by rw [Frame.lookup_bind, if_pos rfl], here, rfl⟩
    · rename_i there
      obtain ⟨before, stored, looked, rfl, rfl⟩ := same.found found
      refine ⟨before, stored, ?_, rfl, rfl⟩
      rw [Frame.lookup_bind, if_neg fun clash => there ((apart before stored looked).mpr clash)]
      exact looked

/-- A name that is bound for a declaration already is told apart from all others. -/
theorem apart (injective : r.Injective) (same : r.Names names image) {held : Binding}
    (present : names.lookup name = some held) {other : String} {old : Binding}
    (found : names.lookup other = some old) :
    r.bound old.decl other = r.bound held.decl name ↔ other = name := by
  constructor
  · intro clash
    have here := same.bound found
    rw [clash, same.bound present] at here
    have decl : (held.recast r).decl = (old.recast r).decl :=
      congrArg Binding.decl (Option.some.inj here)
    change held.decl = old.decl at decl
    rw [decl] at clash
    exact injective.bound old.decl clash
  · rintro rfl
    rw [found] at present
    cases present
    rfl

/-- Binding a name for the declaration that it is bound for already. -/
theorem rebind (injective : r.Injective) (same : r.Names names image) {held : Binding}
    (present : names.lookup name = some held) (decl : binding.decl = held.decl) :
    r.Names (Frame.bind name binding names)
      (Frame.bind (r.bound binding.decl name) (binding.recast r) image) := by
  refine same.bind fun other old found => ?_
  rw [decl]
  exact same.apart injective present found

/-- Writing a value to a name. -/
theorem write (injective : r.Injective) (same : r.Names names image) {held : Binding}
    (present : names.lookup name = some held) (value : Value) :
    r.Names (Frame.write name value names)
      (Frame.write (r.bound held.decl name) (value.recast r) image) where
  bound := by
    intro other old found
    rw [Frame.lookup_write] at found ⊢
    split at found
    · rename_i here
      subst here
      rw [present] at found
      cases found
      rw [if_pos rfl, same.bound present]
      rfl
    · rename_i there
      rw [if_neg fun clash => there ((same.apart injective present found).mp clash)]
      exact same.bound found
  found := by
    intro other old found
    rw [Frame.lookup_write] at found
    split at found
    · rename_i here
      obtain ⟨before, looked, rfl⟩ := Option.map_eq_some_iff.mp found
      rw [here, same.bound present] at looked
      cases looked
      refine ⟨name, { held with value := some value }, ?_, here, rfl⟩
      rw [Frame.lookup_write, if_pos rfl, present]
      rfl
    · rename_i there
      obtain ⟨before, stored, looked, rfl, rfl⟩ := same.found found
      refine ⟨before, stored, ?_, rfl, rfl⟩
      rw [Frame.lookup_write, if_neg fun clash =>
        there ((same.apart injective present looked).mpr clash)]
      exact looked

/-- Whether a name is bound for a declaration. -/
theorem binds (injective : r.Injective) (same : r.Names names image) (name : String)
    (decl : Option NodeId) :
    (∃ binding, image.lookup (r.bound decl name) = some binding ∧ binding.decl = decl) ↔
      ∃ binding, names.lookup name = some binding ∧ binding.decl = decl := by
  constructor
  · rintro ⟨_, looked, rfl⟩
    obtain ⟨before, stored, present, clash, rfl⟩ := same.found looked
    cases injective.bound stored.decl clash
    exact ⟨stored, present, rfl⟩
  · rintro ⟨binding, looked, rfl⟩
    exact ⟨binding.recast r, same.bound looked, rfl⟩

/-- Names that are bound as they are. -/
theorem lookup_of_plain (same : r.Names names image)
    (plain : ∀ name binding, names.lookup name = some binding → r.bound binding.decl name = name)
    (name : String) : image.lookup name = (names.lookup name).map (Binding.recast r) := by
  cases looked : names.lookup name with
  | some binding =>
    have here := same.bound looked
    rw [plain name binding looked] at here
    exact here
  | none =>
    cases found : image.lookup name with
    | none => rfl
    | some binding =>
      obtain ⟨before, stored, present, clash, _⟩ := same.found found
      rw [plain before stored present] at clash
      rw [clash, present] at looked
      cases looked

end Recast.Names

end BoxScript
