import Mathlib.Data.List.Induction
import TreeMachine.Proofs.StoreChange

set_option autoImplicit false

namespace TreeMachine

namespace Value

def isInt : Value → Bool
  | int _ => true
  | _ => false

def isBool : Value → Bool
  | bool _ => true
  | _ => false

theorem isBool_of_isInt {v : Value} (h : v.isInt = true) : v.isBool = false := by
  cases v with
  | int n => rfl
  | _ => cases h

theorem all_isBool_of_all_isInt {history : List Value} (hne : history ≠ [])
    (h : history.all isInt = true) : history.all isBool = false := by
  cases history with
  | nil => exact absurd rfl hne
  | cons v rest =>
    simp only [List.all_cons, Bool.and_eq_true] at h
    simp [isBool_of_isInt h.1]

end Value

namespace SlotKind

theorem widen_int (v : Value) : int.widen v = if v.isInt then int else generic := by
  cases v <;> rfl

theorem widen_bool (v : Value) : bool.widen v = if v.isBool then bool else generic := by
  cases v <;> rfl

theorem widen_generic (v : Value) : generic.widen v = generic := by
  cases v <;> rfl

def after (history : List Value) : SlotKind := history.foldl widen uninitialized

@[simp] theorem after_concat (history : List Value) (v : Value) :
    after (history ++ [v]) = (after history).widen v := by
  simp [after]

/-- The kind does not depend on the order of the values, only on what they have in common. -/
theorem after_eq (history : List Value) :
    after history =
      if history = [] then uninitialized
      else if history.all Value.isInt then int
      else if history.all Value.isBool then bool
      else generic := by
  induction history using List.reverseRecOn with
  | nil => rfl
  | append_singleton history v ih =>
    rw [after_concat, ih]
    -- The first value decides the kind; from then on it can only stay or become generic.
    by_cases hnil : history = []
    · subst hnil
      cases v <;> rfl
    · cases hint : history.all Value.isInt with
      | true =>
        have hbool := Value.all_isBool_of_all_isInt hnil hint
        simp [hnil, hint, hbool, widen_int]
      | false =>
        cases hbool : history.all Value.isBool with
        | true => simp [hnil, hint, hbool, widen_bool]
        | false => simp [hnil, hint, hbool, widen_generic]

theorem after_eq_uninitialized_iff {history : List Value} :
    after history = uninitialized ↔ history = [] := by
  rw [after_eq]
  split
  · simp [*]
  · split
    · simp [*]
    · split <;> simp [*]

theorem after_eq_int_iff {history : List Value} :
    after history = int ↔ history ≠ [] ∧ ∀ v ∈ history, v.isInt = true := by
  rw [after_eq, ← List.all_eq_true]
  split
  · simp [*]
  · split
    · simp [*]
    · split <;> simp [*]

theorem after_eq_bool_iff {history : List Value} :
    after history = bool ↔ history ≠ [] ∧ ∀ v ∈ history, v.isBool = true := by
  rw [after_eq, ← List.all_eq_true]
  split
  · simp [*]
  · rename_i hne
    split
    · rename_i hint
      simp [Value.all_isBool_of_all_isInt hne hint]
    · split <;> simp [*]

theorem after_eq_generic_iff {history : List Value} :
    after history = generic ↔
      ¬ (∀ v ∈ history, v.isInt = true) ∧ ¬ (∀ v ∈ history, v.isBool = true) := by
  rw [after_eq, ← List.all_eq_true, ← List.all_eq_true]
  split
  · simp [*]
  · split
    · simp [*]
    · split <;> simp [*]

end SlotKind

namespace Slot

def after (history : List Value) : Slot :=
  match history.getLast? with
  | none => empty
  | some v => ofValue (SlotKind.after history) v

@[simp] theorem after_concat (history : List Value) (v : Value) :
    after (history ++ [v]) = ofValue ((SlotKind.after history).widen v) v := by
  simp [after]

theorem kind_after (history : List Value) : (after history).kind = SlotKind.after history := by
  induction history using List.reverseRecOn with
  | nil => rfl
  | append_singleton history v ih => simp

theorem value?_after (history : List Value) : (after history).value? = history.getLast? := by
  unfold after
  split
  · rename_i hlast
    rw [hlast]
    rfl
  · rename_i v hlast
    rw [hlast, value?_ofValue]

end Slot

namespace Frame

/-- The frame has slots up to `size`, and `history i` are the values that were written to slot `i`,
in their order. -/
structure Remembers (f : Frame) (size : Nat) (history : Nat → List Value) : Prop where
  kind : ∀ i, f.kinds[i]? = if i < size then some (SlotKind.after (history i)) else none
  slot : ∀ i, f.slots[i]? = if i < size then some (Slot.after (history i)) else none

/-- What a slot shows of the values that were written to it. -/
structure Shows (f : Frame) (size : Nat) (slot : SlotId) (history : List Value) : Prop where
  outOfRange : f.read slot = .error .outOfRange ↔ size ≤ slot.index
  unwritten : f.read slot = .error .unwritten ↔ slot.index < size ∧ history = []
  value : ∀ v, f.read slot = .ok v ↔ slot.index < size ∧ history.getLast? = some v
  noKind : f.kind? slot = none ↔ size ≤ slot.index
  uninitialized : f.kind? slot = some .uninitialized ↔ slot.index < size ∧ history = []
  int : f.kind? slot = some .int ↔
    slot.index < size ∧ history ≠ [] ∧ ∀ v ∈ history, v.isInt = true
  bool : f.kind? slot = some .bool ↔
    slot.index < size ∧ history ≠ [] ∧ ∀ v ∈ history, v.isBool = true
  generic : f.kind? slot = some .generic ↔
    slot.index < size ∧ ¬ (∀ v ∈ history, v.isInt = true) ∧ ¬ (∀ v ∈ history, v.isBool = true)
  shape : f.slots[slot.index]?.map Slot.kind = f.kind? slot

theorem remembers_activate (layout : Layout) (parent : Option FrameId) :
    (activate layout parent).Remembers layout.size fun _ => [] := by
  constructor
  · intro i
    simp only [activate, Array.getElem?_replicate]
    rfl
  · intro i
    simp only [activate, Array.getElem?_replicate]
    rfl

def tryWrite (f : Frame) (slot : SlotId) (v : Value) : Frame :=
  match f.write slot v with
  | .ok g => g
  | .error _ => f

namespace Remembers

variable {f : Frame} {size : Nat} {history : Nat → List Value}

theorem size_eq (h : f.Remembers size history) : f.size = size := by
  apply Nat.le_antisymm
  · have hnone := h.slot size
    rw [if_neg (Nat.lt_irrefl size)] at hnone
    exact Array.getElem?_eq_none_iff.1 hnone
  · apply Nat.le_of_not_lt
    intro hlt
    have hsome := h.slot f.size
    rw [if_pos hlt, Frame.size, Array.getElem?_size] at hsome
    cases hsome

theorem kind_eq (h : f.Remembers size history) {i : Nat} {kind : SlotKind}
    (hkind : f.kinds[i]? = some kind) : i < size ∧ kind = SlotKind.after (history i) := by
  rw [h.kind i] at hkind
  split at hkind
  · rename_i hlt
    exact ⟨hlt, (Option.some.inj hkind).symm⟩
  · cases hkind

theorem write {g : Frame} {slot : SlotId} {v : Value} (h : f.Remembers size history)
    (hwrite : f.write slot v = .ok g) :
    g.Remembers size fun i => history i ++ if slot.index = i then [v] else [] := by
  obtain ⟨kind, hkind, hkinds, hslots⟩ := slots_of_write hwrite
  obtain ⟨hlt, rfl⟩ := h.kind_eq hkind
  constructor
  · intro i
    rw [hkinds i]
    by_cases hi : i = slot.index
    · subst hi
      simp [hlt]
    · simp [hi, Ne.symm hi, h.kind i]
  · intro i
    rw [hslots i]
    by_cases hi : i = slot.index
    · subst hi
      simp [hlt]
    · simp [hi, Ne.symm hi, h.slot i]

theorem tryWrite (h : f.Remembers size history) (slot : SlotId) (v : Value) :
    (f.tryWrite slot v).Remembers size fun i =>
      history i ++ if slot.index = i then [v] else [] := by
  unfold Frame.tryWrite
  cases hwrite : f.write slot v with
  | ok g => exact h.write hwrite
  | error fault =>
    have hout : size ≤ slot.index := by
      apply Nat.le_of_not_lt
      intro hlt
      obtain ⟨g, hg⟩ := write_of_lt (h.size_eq.symm ▸ hlt) v
      rw [hwrite] at hg
      cases hg
    constructor
    · intro i
      rw [h.kind i]
      split
      · rw [if_neg (by omega), List.append_nil]
      · rfl
    · intro i
      rw [h.slot i]
      split
      · rw [if_neg (by omega), List.append_nil]
      · rfl

theorem read_eq (h : f.Remembers size history) (slot : SlotId) :
    f.read slot =
      if slot.index < size then (history slot.index).getLast?.elim (.error .unwritten) .ok
      else .error .outOfRange := by
  unfold read
  rw [h.slot slot.index]
  by_cases hlt : slot.index < size
  · simp only [if_pos hlt, Slot.value?_after]
    cases (history slot.index).getLast? with
    | none => rfl
    | some v => rfl
  · simp only [if_neg hlt]

theorem shows (h : f.Remembers size history) (slot : SlotId) :
    f.Shows size slot (history slot.index) := by
  have hread := h.read_eq slot
  have hkind : f.kind? slot = _ := h.kind slot.index
  have hslot := h.slot slot.index
  by_cases hlt : slot.index < size
  · rw [if_pos hlt] at hread hkind hslot
    have hout : ¬ size ≤ slot.index := Nat.not_le_of_lt hlt
    constructor
    case outOfRange => cases hlast : (history slot.index).getLast? <;> simp [hread, hlast, hout]
    case unwritten =>
      rw [← List.getLast?_eq_none_iff]
      cases hlast : (history slot.index).getLast? <;> simp [hread, hlast, hlt]
    case value =>
      intro v
      cases hlast : (history slot.index).getLast? <;> simp [hread, hlast, hlt]
    case noKind => simp [hkind, hout]
    case uninitialized => simp [hkind, hlt, SlotKind.after_eq_uninitialized_iff]
    case int => simp [hkind, hlt, SlotKind.after_eq_int_iff]
    case bool => simp [hkind, hlt, SlotKind.after_eq_bool_iff]
    case generic => simp [hkind, hlt, SlotKind.after_eq_generic_iff]
    case shape => simp [hkind, hslot, Slot.kind_after]
  · rw [if_neg hlt] at hread hkind hslot
    have hle := Nat.le_of_not_lt hlt
    constructor <;> simp [hread, hkind, hslot, hlt, hle]

end Remembers

end Frame

structure SlotWrite where
  frame : FrameId
  slot : SlotId
  value : Value

namespace SlotWrite

/-- The values that were written to one slot of one frame, in their order. -/
def history (writes : List SlotWrite) (id : FrameId) (i : Nat) : List Value :=
  (writes.filter fun w => w.frame = id ∧ w.slot.index = i).map value

theorem history_concat (writes : List SlotWrite) (w : SlotWrite) (id : FrameId) (i : Nat) :
    history (writes ++ [w]) id i =
      history writes id i ++ if w.frame = id ∧ w.slot.index = i then [w.value] else [] := by
  by_cases h : w.frame = id ∧ w.slot.index = i
  · simp [history, h]
  · simp only [history, List.filter_append, List.map_append, if_neg h]
    simp [h]

end SlotWrite

namespace Store

def tryWrite (s : Store) (w : SlotWrite) : Store :=
  match s.write w.frame w.slot 0 w.value with
  | .ok t => t
  | .error _ => s

def writeEach (s : Store) (writes : List SlotWrite) : Store := writes.foldl tryWrite s

def activateEach (s : Store) (scopes : List (Layout × Option FrameId)) : Store :=
  scopes.foldl (fun s scope => (s.addFrame (.activate scope.1 scope.2)).2) s

structure SameExcept (s t : Store) (id : FrameId) (i : Nat) : Prop where
  size : t.frames.size = s.frames.size
  frame : ∀ other, other ≠ id → t.frame other = s.frame other
  layout : (t.frame id).layout = (s.frame id).layout
  parent : (t.frame id).parent = (s.frame id).parent
  kind : ∀ j, j ≠ i → (t.frame id).kinds[j]? = (s.frame id).kinds[j]?
  slot : ∀ j, j ≠ i → (t.frame id).slots[j]? = (s.frame id).slots[j]?
  rest : { t with frames := s.frames } = s

theorem lt_of_write {s : Store} {id : FrameId} {slot : SlotId} {v : Value} {f : Frame}
    (h : (s.frame id).write slot v = .ok f) : id.index < s.frames.size := by
  apply Nat.lt_of_not_le
  intro hle
  have hempty : s.frame id = .activate {} none := by
    simp [frame, Array.getD_eq_getD_getElem?, Array.getElem?_eq_none hle]
  rw [hempty, Frame.write_of_size_le v (Nat.zero_le _)] at h
  cases h

theorem write_cases (s : Store) (id : FrameId) (slot : SlotId) (v : Value) :
    (slot.index < (s.frame id).size ∧ ∃ f, (s.frame id).write slot v = .ok f ∧
      s.write id slot 0 v = .ok (s.setFrame id f)) ∨
    ((s.frame id).size ≤ slot.index ∧ (s.frame id).write slot v = .error .outOfRange ∧
      s.write id slot 0 v = .error .outOfRange) := by
  rw [write_eq, ancestor_zero]
  rcases Nat.lt_or_ge slot.index (s.frame id).size with hlt | hle
  · obtain ⟨f, hf⟩ := Frame.write_of_lt hlt v
    exact .inl ⟨hlt, f, hf, by simp [Except.bind, Except.map, hf]⟩
  · have hf := Frame.write_of_size_le v hle
    exact .inr ⟨hle, hf, by simp [Except.bind, Except.map, hf]⟩

theorem sameExcept_setFrame {s : Store} {id : FrameId} {slot : SlotId} {v : Value} {f : Frame}
    (hf : (s.frame id).write slot v = .ok f) : s.SameExcept (s.setFrame id f) id slot.index := by
  obtain ⟨hlayout, hparent, -⟩ := Frame.shape_of_write hf
  obtain ⟨kind, -, hkinds, hslots⟩ := Frame.slots_of_write hf
  have hself : (s.setFrame id f).frame id = f := by
    rw [frame_setFrame, if_pos ⟨rfl, lt_of_write hf⟩]
  constructor
  case size => simp [setFrame]
  case frame =>
    intro other hother
    rw [frame_setFrame, if_neg]
    rintro ⟨hindex, -⟩
    exact hother (congrArg FrameId.mk hindex.symm)
  case layout => rw [hself, hlayout]
  case parent => rw [hself, hparent]
  case kind =>
    intro j hj
    rw [hself, hkinds j, if_neg hj]
  case slot =>
    intro j hj
    rw [hself, hslots j, if_neg hj]
  case rest => rfl

theorem frame_tryWrite (s : Store) (w : SlotWrite) (id : FrameId) :
    (s.tryWrite w).frame id =
      if w.frame = id then (s.frame id).tryWrite w.slot w.value else s.frame id := by
  rcases s.write_cases w.frame w.slot w.value with ⟨-, f, hf, hwrite⟩ | ⟨-, hf, hwrite⟩
  · simp only [tryWrite, hwrite]
    split
    · rename_i hid
      subst hid
      rw [frame_setFrame, if_pos ⟨rfl, lt_of_write hf⟩, Frame.tryWrite, hf]
    · rename_i hid
      exact (sameExcept_setFrame hf).frame id (Ne.symm hid)
  · simp only [tryWrite, hwrite]
    split
    · rename_i hid
      subst hid
      rw [Frame.tryWrite, hf]
    · rfl

theorem size_activateEach (s : Store) (scopes : List (Layout × Option FrameId)) :
    (s.activateEach scopes).frames.size = s.frames.size + scopes.length := by
  induction scopes using List.reverseRecOn with
  | nil => rfl
  | append_singleton scopes scope ih =>
    simp only [activateEach, List.foldl_append, List.foldl_cons, List.foldl_nil, addFrame,
      Array.size_push, List.length_append, List.length_singleton] at ih ⊢
    omega

theorem frame_activateEach (s : Store) (scopes : List (Layout × Option FrameId))
    {k : Nat} {scope : Layout × Option FrameId} (hk : scopes[k]? = some scope) :
    (s.activateEach scopes).frame ⟨s.frames.size + k⟩ = .activate scope.1 scope.2 := by
  induction scopes using List.reverseRecOn with
  | nil => cases hk
  | append_singleton scopes last ih =>
    have hsize := s.size_activateEach scopes
    simp only [activateEach, List.foldl_append, List.foldl_cons, List.foldl_nil] at hsize ih ⊢
    rw [frame_addFrame, hsize]
    -- The last frame is the new one, and those before it are not touched by it.
    by_cases hlast : k = scopes.length
    · subst hlast
      rw [List.getElem?_concat_length] at hk
      rw [if_pos rfl, Option.some.inj hk]
    · have hlt : k < scopes.length := by
        have hle := (List.getElem?_eq_some_iff.1 hk).1
        simp at hle
        omega
      rw [List.getElem?_append_left hlt] at hk
      rw [if_neg (by simpa using hlast), ih hk]

theorem remembers_writeEach {s : Store} {id : FrameId} {size : Nat}
    (h : (s.frame id).Remembers size fun _ => []) (writes : List SlotWrite) :
    ((s.writeEach writes).frame id).Remembers size (SlotWrite.history writes id) := by
  induction writes using List.reverseRecOn with
  | nil => exact h
  | append_singleton writes w ih =>
    have hconcat : s.writeEach (writes ++ [w]) = (s.writeEach writes).tryWrite w := by
      simp [writeEach]
    have hhistory := funext (SlotWrite.history_concat writes w id)
    rw [hconcat, frame_tryWrite, hhistory]
    by_cases hid : w.frame = id
    · simp only [hid, if_true, true_and]
      exact ih.tryWrite w.slot w.value
    · simp only [hid, if_false, false_and, List.append_nil]
      exact ih

end Store

open Machine

/-- A read gives the value that was written last to that slot of that frame, and the kind tells what
the written values have in common. -/
theorem slots_follow_history (s : Store) (scopes : List (Layout × Option FrameId))
    (writes : List SlotWrite) (k : Fin scopes.length) (slot : SlotId) :
    let id : FrameId := ⟨s.frames.size + k⟩
    let size := scopes[k].1.size
    let t := (s.activateEach scopes).writeEach writes
    (t.frame id).size = size ∧
    (t.frame id).Shows size slot (SlotWrite.history writes id slot.index) ∧
    (∀ v, size ≤ slot.index →
      t.write id slot 0 v = .error .outOfRange ∧ t.tryWrite ⟨id, slot, v⟩ = t) ∧
    (∀ v, slot.index < size →
      ∃ u, t.write id slot 0 v = .ok u ∧ t.tryWrite ⟨id, slot, v⟩ = u ∧
        t.SameExcept u id slot.index) ∧
    ∀ (m : Setup) (st : State) (v : Value) (depth : Nat) (frame : FrameId) (rest : List Pending),
      st.control = .yield v → st.pending = .store slot depth frame :: rest →
      st.store.ancestor frame depth = .ok id →
      (step m st).store = st.store.tryWrite ⟨id, slot, v⟩ := by
  intro id size t
  have hactivated : (s.activateEach scopes).frame id = .activate scopes[k].1 scopes[k].2 :=
    s.frame_activateEach scopes (by simp)
  have hremembers : (t.frame id).Remembers size (SlotWrite.history writes id) := by
    apply Store.remembers_writeEach
    rw [hactivated]
    exact Frame.remembers_activate ..
  have hsize := hremembers.size_eq
  refine ⟨hsize, hremembers.shows slot, fun v hle => ?_, fun v hlt => ?_, ?_⟩
  · rcases t.write_cases id slot v with ⟨hlt, -⟩ | ⟨-, -, hwrite⟩
    · omega
    · exact ⟨hwrite, by simp only [Store.tryWrite, hwrite]⟩
  · rcases t.write_cases id slot v with ⟨-, f, hf, hwrite⟩ | ⟨hle, -⟩
    · exact ⟨_, hwrite, by simp only [Store.tryWrite, hwrite], Store.sameExcept_setFrame hf⟩
    · omega
  · intro m st v depth frame rest hcontrol hpending hid
    have hwrite : st.store.write frame slot depth v = st.store.write id slot 0 v := by
      rw [Store.write_eq, Store.write_eq, hid, Store.ancestor_zero]
    simp only [step, hcontrol, yieldStep, hpending, Store.tryWrite, hwrite]
    cases st.store.write id slot 0 v with
    | ok u => rfl
    | error fault => rfl

end TreeMachine
