import TreeMachine.Slot

set_option autoImplicit false

namespace TreeMachine

/-- A declared slot. Only the index selects storage; the name is for people. -/
structure SlotId where
  index : Nat
  name : String
  deriving DecidableEq, Repr, Inhabited

structure Layout where
  names : Array String := #[]
  deriving DecidableEq, Repr, Inhabited

namespace Layout

def size (l : Layout) : Nat := l.names.size

def declare (l : Layout) (name : String) : SlotId × Layout :=
  (⟨l.names.size, name⟩, ⟨l.names.push name⟩)

def slotIds (l : Layout) : List SlotId := l.names.toList.mapIdx SlotId.mk

end Layout

/-- One activation of a layout: what each slot stores, and beside it the kind of each slot. -/
structure Frame where
  layout : Layout
  parent : Option FrameId
  slots : Array Slot
  kinds : Array SlotKind := slots.map Slot.kind
  size_kinds : kinds.size = slots.size := by simp
  deriving DecidableEq

namespace Frame

def activate (layout : Layout) (parent : Option FrameId) : Frame :=
  { layout, parent
    slots := Array.replicate layout.size .empty
    kinds := Array.replicate layout.size .uninitialized }

instance : Inhabited Frame := ⟨activate {} none⟩

def size (f : Frame) : Nat := f.slots.size

def read (f : Frame) (slot : SlotId) : Except SlotFault Value :=
  match f.slots[slot.index]? with
  | none => .error .outOfRange
  | some s =>
    match s.value? with
    | none => .error .unwritten
    | some v => .ok v

def write (f : Frame) (slot : SlotId) (v : Value) : Except SlotFault Frame :=
  match f.kinds[slot.index]? with
  | none => .error .outOfRange
  | some old =>
    let kind := old.widen v
    .ok { f with
      slots := f.slots.setIfInBounds slot.index (.ofValue kind v)
      kinds := f.kinds.setIfInBounds slot.index kind
      size_kinds := by simp [f.size_kinds] }

def kind? (f : Frame) (slot : SlotId) : Option SlotKind := f.kinds[slot.index]?

/-- Writes arguments to parameters pairwise, in order, up to the first that cannot be written. -/
def bind (f : Frame) : List SlotId → List Value → Except (SlotId × SlotFault) Frame
  | slot :: slots, v :: vs =>
    match f.write slot v with
    | .ok f' => f'.bind slots vs
    | .error fault => .error (slot, fault)
  | _, _ => .ok f

@[simp] theorem size_activate (layout : Layout) (parent : Option FrameId) :
    (activate layout parent).size = layout.size := by simp [activate, size]

theorem write_of_size_le {f : Frame} {slot : SlotId} (v : Value) (h : f.size ≤ slot.index) :
    f.write slot v = .error .outOfRange := by
  have hkinds : f.kinds.size ≤ slot.index := Nat.le_trans (Nat.le_of_eq f.size_kinds) h
  simp [write, Array.getElem?_eq_none hkinds]

theorem write_of_lt {f : Frame} {slot : SlotId} (h : slot.index < f.size) (v : Value) :
    ∃ g, f.write slot v = .ok g := by
  unfold write
  rw [Array.getElem?_eq_getElem (show slot.index < f.kinds.size from f.size_kinds ▸ h)]
  exact ⟨_, rfl⟩

theorem read_of_size_le {f : Frame} {slot : SlotId} (h : f.size ≤ slot.index) :
    f.read slot = .error .outOfRange := by
  simp [read, Array.getElem?_eq_none (show f.slots.size ≤ slot.index from h)]

theorem shape_of_write {f g : Frame} {slot : SlotId} {v : Value} (h : f.write slot v = .ok g) :
    g.layout = f.layout ∧ g.parent = f.parent ∧ g.size = f.size := by
  unfold write at h
  split at h
  · simp at h
  · obtain rfl := Except.ok.inj h
    simp [size]

end Frame

end TreeMachine
