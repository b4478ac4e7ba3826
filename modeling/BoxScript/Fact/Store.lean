import Std.Data.TreeMap.Lemmas
import BoxScript.Fact

/-!
# Fact stores

A store keeps the slots of the questions that have come up. Writing an answer replaces what was
there; poisoning only marks a question that has no slot yet. `get?_set` and `get?_poison` say so,
and nothing else looks into the store.
-/

set_option autoImplicit false

namespace BoxScript

/-- The number of a kind among the four kinds. -/
def FactKind.code : FactKind → Nat
  | type => 0
  | decl => 1
  | declType => 2
  | returns => 3

def FactKind.ofCode : Nat → FactKind
  | 0 => type
  | 1 => decl
  | 2 => declType
  | _ => returns

/-- The number under which a store keeps a question. -/
def FactKey.code (key : FactKey) : Nat := 4 * key.node + key.kind.code

def FactKey.ofCode (code : Nat) : FactKey := ⟨code / 4, .ofCode (code % 4)⟩

@[simp] theorem FactKey.ofCode_code (key : FactKey) : ofCode key.code = key := by
  obtain ⟨node, kind⟩ := key
  cases kind <;> simp [code, ofCode, FactKind.code, FactKind.ofCode, Nat.mul_add_div]

theorem FactKey.code_inj {a b : FactKey} (h : a.code = b.code) : a = b := by
  rw [← ofCode_code a, h, ofCode_code]

/-- The slots of the questions that have come up. -/
structure FactStore where
  slots : Std.TreeMap Nat Slot

namespace FactStore

def empty : FactStore := ⟨{}⟩

/-- The slot of a question, if it has one. -/
def get? (store : FactStore) (key : FactKey) : Option Slot := store.slots[key.code]?

/-- Writes an answer. -/
def set (store : FactStore) (key : FactKey) (value : FactValue) : FactStore :=
  ⟨store.slots.insert key.code (.known value)⟩

/-- Marks a question as one that will not be answered, unless it has a slot already. -/
def poison (store : FactStore) (key : FactKey) : FactStore :=
  ⟨store.slots.insertIfNew key.code .poisoned⟩

/-- The answer to a question, if it has one. -/
def known? (store : FactStore) (key : FactKey) : Option FactValue :=
  match store.get? key with
  | some (.known value) => some value
  | _ => none

@[simp] theorem get?_empty (key : FactKey) : empty.get? key = none := by
  simp [get?, empty]

theorem get?_set (store : FactStore) (key other : FactKey) (value : FactValue) :
    (store.set key value).get? other =
      if key = other then some (.known value) else store.get? other := by
  simp only [get?, set, Std.TreeMap.getElem?_insert, Std.LawfulEqCmp.compare_eq_iff_eq]
  by_cases same : key = other
  · simp [same]
  · simp [same, mt FactKey.code_inj same]

theorem get?_poison (store : FactStore) (key other : FactKey) :
    (store.poison key).get? other =
      if key = other then some ((store.get? key).getD .poisoned) else store.get? other := by
  simp only [get?, poison, Std.TreeMap.getElem?_insertIfNew, Std.LawfulEqCmp.compare_eq_iff_eq]
  by_cases same : key = other
  · subst same
    by_cases present : key.code ∈ store.slots <;> simp [present]
  · simp [same, mt FactKey.code_inj same]

/-- Writes answers one after another. -/
def setAll (store : FactStore) (writes : List (FactKey × FactValue)) : FactStore :=
  writes.foldl (fun store (key, value) => store.set key value) store

/-- Marks questions one after another. -/
def poisonAll (store : FactStore) (keys : List FactKey) : FactStore :=
  keys.foldl poison store

/-- The answered questions with their answers, by node and then by kind. -/
def toList (store : FactStore) : List (FactKey × FactValue) :=
  store.slots.toList.filterMap fun
    | (code, .known value) => some (.ofCode code, value)
    | (_, .poisoned) => none

end FactStore

end BoxScript
