import TreeMachine.Proofs.Backtraces
import TreeMachine.Proofs.SlotHistory

set_option autoImplicit false

namespace TreeMachine

theorem CallStack.attach_add (s : CallStack) (name : String) (cause : Cause) :
    (s.add name).attach { cause } =
      { cause, trace := some ⟨name :: s.capture.names⟩ } := by
  have hempty : (s.add name).isEmpty = false := by simp [add, isEmpty]
  simp [attach, hempty]

namespace Frame

/-- The arguments that go to the slot of an index, in their order. -/
def boundAt (params : List SlotId) (args : List Value) (i : Nat) : List Value :=
  ((params.zip args).filter fun p => p.1.index = i).map Prod.snd

theorem boundAt_cons (slot : SlotId) (params : List SlotId) (v : Value) (args : List Value)
    (i : Nat) :
    boundAt (slot :: params) (v :: args) i =
      (if slot.index = i then [v] else []) ++ boundAt params args i := by
  by_cases h : slot.index = i
  · simp [boundAt, h]
  · simp [boundAt, h]

theorem Remembers.bind {f g : Frame} {size : Nat} {history : Nat → List Value}
    {params : List SlotId} {args : List Value} (h : f.Remembers size history)
    (hbind : f.bind params args = .ok g) :
    g.Remembers size fun i => history i ++ boundAt params args i := by
  induction params generalizing f history args with
  | nil =>
    obtain rfl := Except.ok.inj hbind
    simpa [boundAt] using h
  | cons slot params ih =>
    cases args with
    | nil =>
      obtain rfl := Except.ok.inj hbind
      simpa [boundAt] using h
    | cons v args =>
      simp only [Frame.bind] at hbind
      cases hwrite : f.write slot v with
      | error fault => simp [hwrite] at hbind
      | ok f' =>
        rw [hwrite] at hbind
        have hrest := ih (h.write hwrite) hbind
        simpa only [boundAt_cons, List.append_assoc] using hrest

theorem bind_of_find? {f : Frame} {params : List SlotId} {args : List Value} {p : SlotId}
    (hlength : args.length = params.length)
    (hp : params.find? (fun p => f.size ≤ p.index) = some p) :
    f.bind params args = .error (p, .outOfRange) := by
  induction params generalizing f args with
  | nil => cases hp
  | cons slot params ih =>
    cases args with
    | nil => simp at hlength
    | cons v args =>
      by_cases hout : f.size ≤ slot.index
      · obtain rfl : slot = p := by simpa [hout] using hp
        simp [Frame.bind, write_of_size_le v hout]
      · -- A write keeps the size, so the parameters after it are judged as they were before.
        obtain ⟨g, hg⟩ := write_of_lt (Nat.lt_of_not_le hout) v
        have hsize := (shape_of_write hg).2.2
        simp only [Frame.bind, hg]
        apply ih (by simpa using hlength)
        rw [hsize]
        simpa [hout] using hp

end Frame

namespace Machine

variable {s : State} {code : Code} {c : Call}

theorem enter_of_fits (hroom : s.stack.full? = none)
    (hfits : ∀ p ∈ code.params, p.index < code.layout.size) :
    ∃ frame,
      enter s code c =
        { s with
          control := .eval code.body ⟨s.store.frames.size⟩
          pending := .leave :: s.pending
          store := (s.store.addFrame frame).2
          stack := s.stack.add (activationName (s.store.cell c.closure.cell) code) } ∧
      frame.layout = code.layout ∧ frame.parent = c.closure.env ∧
      frame.Remembers code.layout.size (Frame.boundAt code.params c.args) := by
  have hsize := Frame.size_activate code.layout c.closure.env
  obtain ⟨frame, hframe⟩ := Frame.bind_of_lt (hsize.symm ▸ hfits) c.args
  have hgrows := Frame.grows_bind hframe
  have hremembers := (Frame.remembers_activate code.layout c.closure.env).bind hframe
  refine ⟨frame, ?_, hgrows.layout, hgrows.parent, by simpa using hremembers⟩
  simp only [enter, CallStack.push_of_room hroom, hframe]
  rfl

theorem step_enter_of_misfit {p : SlotId} (m : Setup) (hroom : s.stack.full? = none)
    (hlength : c.args.length = code.params.length)
    (hp : code.params.find? (fun p => code.layout.size ≤ p.index) = some p) :
    (enter s code c).control = .raise { cause := .invalidSlot p.name 0 .outOfRange } ∧
    step m (enter s code c) =
      { s with
        control := .raise
          { cause := .invalidSlot p.name 0 .outOfRange
            trace := some ⟨activationName (s.store.cell c.closure.cell) code ::
              s.stack.capture.names⟩ } } := by
  have hsize := Frame.size_activate code.layout c.closure.env
  have hbind := Frame.bind_of_find? (f := .activate code.layout c.closure.env) hlength
    (hsize.symm ▸ hp)
  simp only [enter, CallStack.push_of_room hroom, hbind, State.fail, step, raiseStep,
    CallStack.pop_add, true_and]
  rw [CallStack.attach_add]

end Machine

open Machine

/-- A call binds its arguments to the slots of a new frame in their order, or fails before the body
is reached and changes nothing. -/
theorem parameters_bound (m : Setup) (s : State) (c : Call) (id : CodeId) :
    let code := m.library.code id
    let cell := s.store.cell c.closure.cell
    (c.args.length = code.params.length → s.stack.full? = none →
      (∀ p ∈ code.params, p.index < code.layout.size) →
      ∃ frame,
        transfer m s (.lambda id) c =
          { s with
            control := .eval code.body ⟨s.store.frames.size⟩
            pending := .leave :: s.pending
            store := (s.store.addFrame frame).2
            stack := s.stack.add (activationName cell code) } ∧
        frame.layout = code.layout ∧ frame.parent = c.closure.env ∧
        frame.size = code.layout.size ∧
        ∀ slot, frame.Shows code.layout.size slot (Frame.boundAt code.params c.args slot.index)) ∧
    (c.args.length = code.params.length → s.stack.full? = none →
      (¬ ∀ p ∈ code.params, p.index < code.layout.size) →
      ∃ p, code.params.find? (fun p => code.layout.size ≤ p.index) = some p ∧
        (∀ e frame, (transfer m s (.lambda id) c).control ≠ .eval e frame) ∧
        step m (transfer m s (.lambda id) c) =
          { s with
            control := .raise
              { cause := .invalidSlot p.name 0 .outOfRange
                trace := some ⟨activationName cell code :: s.stack.capture.names⟩ } }) ∧
    (c.args.length ≠ code.params.length →
      transfer m s (.lambda id) c =
        { s with
          control := .raise (s.stack.attach
            { cause := .arityMismatch cell.name code.params.length c.args.length }) }) ∧
    (s.control = .dispatch c → cell.target = .lambda id →
      ∃ found site, step m s = transfer m (s.located c found site) (.lambda id) c) := by
  intro code cell
  refine ⟨fun hlength hroom hfits => ?_, fun hlength hroom hmisfit => ?_, fun hlength => ?_,
    step_of_dispatch⟩
  · rw [transfer_of_arity hlength]
    obtain ⟨frame, henter, hlayout, hparent, hremembers⟩ := enter_of_fits hroom hfits
    exact ⟨frame, henter, hlayout, hparent, hremembers.size_eq, hremembers.shows⟩
  · rw [transfer_of_arity hlength]
    obtain ⟨q, hq, hout⟩ : ∃ q ∈ code.params, code.layout.size ≤ q.index := by
      simpa using hmisfit
    have hsome : (code.params.find? fun p => code.layout.size ≤ p.index).isSome = true :=
      List.find?_isSome.2 ⟨q, hq, by simpa using hout⟩
    obtain ⟨p, hp⟩ := Option.isSome_iff_exists.1 hsome
    obtain ⟨hcontrol, hstep⟩ := step_enter_of_misfit m hroom hlength hp
    refine ⟨p, hp, fun e frame heval => ?_, hstep⟩
    rw [hcontrol] at heval
    cases heval
  · simp only [transfer, Target.arity?]
    rw [if_pos (show c.args.length ≠ (m.library.code id).arity from hlength)]
    rfl

def sharingSetup : Setup :=
  { library := ⟨#[{ name := "share", params := [⟨0, "x"⟩, ⟨0, "y"⟩, ⟨1, "z"⟩], body := .begin []
                    layout := ⟨#["x", "z", "w"]⟩ }]⟩
    overflow := .wrapping
    cacheSize := 2
    sink := ⟨0⟩ }

def sharingCall : Call := ⟨⟨0⟩, ⟨⟨0⟩, none⟩, [.int 1, .bool true, .int 7]⟩

def sharingState : State :=
  { control := .dispatch sharingCall
    pending := [.loop]
    store := { cells := #[⟨"", .lambda ⟨0⟩, 0⟩] }
    stack := { limit := some 1 }
    profile := none }

/-- The second argument stays in the shared slot, which is generic now; the callee goes by the name
of its code. -/
theorem parameters_bound_sharing :
    ∃ frame,
      transfer sharingSetup sharingState (.lambda ⟨0⟩) sharingCall =
        { sharingState with
          control := .eval (.begin []) ⟨0⟩
          pending := [.leave, .loop]
          store := { frames := #[frame], cells := #[⟨"", .lambda ⟨0⟩, 0⟩] }
          stack := { active := #["share"], limit := some 1 } } ∧
      frame.read ⟨0, "x"⟩ = .ok (.bool true) ∧ frame.kind? ⟨0, "x"⟩ = some .generic ∧
      frame.read ⟨1, "z"⟩ = .ok (.int 7) ∧ frame.kind? ⟨1, "z"⟩ = some .int ∧
      frame.read ⟨2, "w"⟩ = .error .unwritten := by
  obtain ⟨frame, htransfer, -, -, -, hshows⟩ :=
    (parameters_bound sharingSetup sharingState sharingCall ⟨0⟩).1 rfl rfl (by decide)
  exact ⟨frame, htransfer, ((hshows ⟨0, "x"⟩).value _).2 ⟨by decide, rfl⟩,
    (hshows ⟨0, "x"⟩).generic.2 ⟨by decide, by decide, by decide⟩,
    ((hshows ⟨1, "z"⟩).value _).2 ⟨by decide, rfl⟩,
    (hshows ⟨1, "z"⟩).int.2 ⟨by decide, by decide, by decide⟩,
    (hshows ⟨2, "w"⟩).unwritten.2 ⟨by decide, rfl⟩⟩

end TreeMachine
