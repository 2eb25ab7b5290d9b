import TreeMachine.CallSite
import TreeMachine.Sink

/-!
The store: everything that an evaluation can change. Objects are never removed, and an identifier
that was never given out stands for an empty object.
-/
set_option autoImplicit false

namespace TreeMachine

structure Store where
  frames : Array Frame := #[]
  boxes : Array Value := #[]
  cells : Array FunctionCell := #[]
  hosts : Array HostObject := #[]
  sites : Array CallSite := #[]
  sinks : Array Sink := #[]
  deriving Inhabited

namespace Store

def frame (s : Store) (id : FrameId) : Frame := s.frames.getD id.index (.activate {} none)

def box (s : Store) (id : BoxId) : Value := s.boxes.getD id.index .unit

def cell (s : Store) (id : CellId) : FunctionCell := s.cells.getD id.index ⟨"", .unbound, 0⟩

def host (s : Store) (id : HostId) : HostObject := s.hosts.getD id.index ⟨"", .nothing⟩

def site (s : Store) (id : SiteId) : CallSite := s.sites.getD id.index .fresh

def sink (s : Store) (id : SinkId) : Sink := s.sinks.getD id.index .silent

def addFrame (s : Store) (f : Frame) : FrameId × Store :=
  (⟨s.frames.size⟩, { s with frames := s.frames.push f })

def addBox (s : Store) (v : Value) : BoxId × Store :=
  (⟨s.boxes.size⟩, { s with boxes := s.boxes.push v })

def addCell (s : Store) (c : FunctionCell) : CellId × Store :=
  (⟨s.cells.size⟩, { s with cells := s.cells.push c })

def addHost (s : Store) (h : HostObject) : HostId × Store :=
  (⟨s.hosts.size⟩, { s with hosts := s.hosts.push h })

def addSite (s : Store) : SiteId × Store :=
  (⟨s.sites.size⟩, { s with sites := s.sites.push .fresh })

def addSink (s : Store) (k : Sink) : SinkId × Store :=
  (⟨s.sinks.size⟩, { s with sinks := s.sinks.push k })

def setFrame (s : Store) (id : FrameId) (f : Frame) : Store :=
  { s with frames := s.frames.setIfInBounds id.index f }

def setBox (s : Store) (id : BoxId) (v : Value) : Store :=
  { s with boxes := s.boxes.setIfInBounds id.index v }

def setSite (s : Store) (id : SiteId) (site : CallSite) : Store :=
  { s with sites := s.sites.setIfInBounds id.index site }

def bind (s : Store) (id : CellId) (target : Target) : Store :=
  { s with cells := s.cells.modify id.index (·.bind target) }

def println (s : Store) (id : SinkId) (line : String) : Store :=
  { s with sinks := s.sinks.modify id.index (·.println line) }

def clearSink (s : Store) (id : SinkId) : Store :=
  { s with sinks := s.sinks.modify id.index Sink.clear }

/-- The frame `depth` lexical levels out from a frame. -/
def ancestor (s : Store) : FrameId → Nat → Except SlotFault FrameId
  | id, 0 => .ok id
  | id, depth + 1 =>
    match (s.frame id).parent with
    | none => .error .noEnclosingFrame
    | some up => s.ancestor up depth

def read (s : Store) (id : FrameId) (slot : SlotId) (depth : Nat) : Except SlotFault Value :=
  match s.ancestor id depth with
  | .ok target => (s.frame target).read slot
  | .error fault => .error fault

/-- Writes a slot, `depth` lexical levels out. A write that fails changes nothing. -/
@[inline] def write (s : Store) (id : FrameId) (slot : SlotId) (depth : Nat) (v : Value) :
    Except SlotFault Store :=
  match s.ancestor id depth with
  | .error fault => .error fault
  | .ok target =>
    match (s.frame target).write slot v with
    | .error fault => .error fault
    | .ok f => .ok (s.setFrame target f)

@[simp] theorem ancestor_zero (s : Store) (id : FrameId) : s.ancestor id 0 = .ok id := rfl

theorem ancestor_add (s : Store) (id : FrameId) (a b : Nat) :
    s.ancestor id (a + b) = (s.ancestor id a).bind fun up => s.ancestor up b := by
  induction a generalizing id with
  | zero => simp [Except.bind]
  | succ a ih =>
    rw [Nat.succ_add, ancestor, ancestor]
    cases (s.frame id).parent with
    | none => rfl
    | some up => exact ih up

end Store

end TreeMachine
