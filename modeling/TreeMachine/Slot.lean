import TreeMachine.Value

/-!
Slots of a frame. A slot that has held only integers, or only booleans, stores them bare; any other
history widens it for good.
-/
set_option autoImplicit false

namespace TreeMachine

inductive SlotKind where
  | uninitialized
  | int
  | bool
  | generic
  deriving DecidableEq, Repr

/-- The kind after a value is stored; never narrower than before. -/
def SlotKind.widen : SlotKind → Value → SlotKind
  | uninitialized, .int _ | int, .int _ => int
  | uninitialized, .bool _ | bool, .bool _ => bool
  | _, _ => generic

inductive Slot where
  | empty
  | int (n : Int64)
  | bool (b : Bool)
  | generic (v : Value)
  deriving DecidableEq

namespace Slot

instance : Inhabited Slot := ⟨empty⟩

def kind : Slot → SlotKind
  | empty => .uninitialized
  | int _ => .int
  | bool _ => .bool
  | generic _ => .generic

def value? : Slot → Option Value
  | empty => none
  | int n => some (.int n)
  | bool b => some (.bool b)
  | generic v => some v

/-- What a slot of the kind stores for a value. -/
def ofValue : SlotKind → Value → Slot
  | .int, .int n => int n
  | .bool, .bool b => bool b
  | _, v => generic v

@[simp] theorem value?_ofValue (kind : SlotKind) (v : Value) :
    (ofValue kind v).value? = some v := by
  cases kind <;> cases v <;> rfl

@[simp] theorem kind_ofValue_widen (kind : SlotKind) (v : Value) :
    (ofValue (kind.widen v) v).kind = kind.widen v := by
  cases kind <;> cases v <;> rfl

end Slot

end TreeMachine
