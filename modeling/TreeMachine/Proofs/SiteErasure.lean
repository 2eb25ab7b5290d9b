import TreeMachine.Proofs.Session
import TreeMachine.Proofs.StateView
import TreeMachine.Store.Lemmas

/-!
The machine without call sites: its dispatch goes straight to the current entry point of the
callee's cell.
-/
set_option autoImplicit false

namespace TreeMachine

def Store.erase (s : Store) : Store := { s with sites := #[] }

namespace Store

theorem ancestor_erase (s : Store) (id : FrameId) (depth : Nat) :
    s.erase.ancestor id depth = s.ancestor id depth := by
  induction depth generalizing id with
  | zero => rfl
  | succ depth ih =>
    have hframe : s.erase.frame id = s.frame id := rfl
    simp only [ancestor, hframe]
    cases (s.frame id).parent with
    | none => rfl
    | some up => exact ih up

theorem read_erase (s : Store) (id : FrameId) (slot : SlotId) (depth : Nat) :
    s.erase.read id slot depth = s.read id slot depth := by
  rw [read_eq, read_eq, ancestor_erase]
  rfl

theorem write_erase (s : Store) (id : FrameId) (slot : SlotId) (depth : Nat) (v : Value) :
    s.erase.write id slot depth v = (s.write id slot depth v).map erase := by
  have hframe : ∀ j, s.erase.frame j = s.frame j := fun _ => rfl
  simp only [write_eq, ancestor_erase, hframe]
  cases s.ancestor id depth with
  | error fault => rfl
  | ok target =>
    simp only [Except.bind]
    cases (s.frame target).write slot v with
    | error fault => rfl
    | ok f => rfl

theorem text_erase (s : Store) (v : Value) : s.erase.text v = s.text v := by
  have hclosed : ∀ u, s.erase.closedText u = s.closedText u := by
    intro u
    cases u with
    | bool b => cases b <;> rfl
    | _ => rfl
  cases v with
  | box b => exact congrArg (fun inner => "#<box " ++ inner ++ ">") (hclosed (s.box b))
  | _ => simp only [text, hclosed]

end Store

theorem Primitive.apply_erase (op : Primitive) (args : List Value) (policy : Overflow)
    (sink : SinkId) (s : Store) :
    op.apply args policy sink s.erase =
      ((op.apply args policy sink s).1, (op.apply args policy sink s).2.erase) := by
  unfold Primitive.apply
  split
  case h_7 v =>
    cases v.asBox with
    | ok b => rfl
    | error e => rfl
  case h_8 v w =>
    cases v.asBox with
    | ok b => rfl
    | error e => rfl
  case h_9 v =>
    rw [Store.text_erase]
    rfl
  all_goals rfl

namespace Machine

def Setup.erase (m : Setup) : Setup := { m with cacheSize := 0 }

def State.erase (s : State) : State := { s with store := s.store.erase, profile := none }

def View.erase : View :=
  { View.keep with
    store := Store.erase
    profile := fun _ => none
    read := Store.read_erase
    write := Store.write_erase
    cell := fun _ _ => rfl
    addCell := fun _ _ => rfl
    addFrame := fun _ _ => rfl
    apply := Primitive.apply_erase
    count := fun _ _ => rfl }

theorem View.state_erase (s : State) : View.erase.state s = s.erase := by
  simp [View.state, View.erase, View.keep, State.erase]

namespace Siteless

def step (m : Setup) (s : State) : State :=
  match s.control with
  | .dispatch c => transfer m s (s.store.cell c.closure.cell).target c
  | _ => Machine.step m s

def run (m : Setup) : Nat → State → Option (Except Failure Value × State) := runBy (step m)

end Siteless

theorem transfer_erase (m : Setup) (s : State) (target : Target) (c : Call) :
    (transfer m s target c).erase = transfer m.erase s.erase target c := by
  have hview := View.erase.state_transfer m (s := s) target c rfl
  rw [View.state_erase, View.state_erase] at hview
  exact hview

/-- What a call site holds is forgotten with it, so a dispatch is a transfer to the entry point
that the cell has now. -/
theorem dispatchStep_erase (m : Setup) (s : State) (c : Call) :
    (dispatchStep m s c).erase =
      transfer m.erase s.erase (s.store.cell c.closure.cell).target c := by
  rcases dispatchStep_cases m c s.store with ⟨hunbound, hfail⟩ | ⟨-, found, site, hfound⟩
  · rw [hfail s rfl, hunbound]
    rfl
  · rw [hfound s rfl, transfer_erase]
    rfl

theorem step_erase (m : Setup) (s : State) :
    (step m s).erase = Siteless.step m.erase s.erase := by
  have hcontrol : s.erase.control = s.control := rfl
  by_cases hd : ∃ c, s.control = .dispatch c
  · obtain ⟨c, hc⟩ := hd
    simp only [Siteless.step, step, hcontrol, hc]
    exact dispatchStep_erase m s c
  · have hne : ∀ c, s.control ≠ .dispatch c := fun c hc => hd ⟨c, hc⟩
    have hview := View.erase.state_step_of_ne_dispatch m (s := s) (.inr rfl) hne
    rw [View.state_erase, View.state_erase] at hview
    rw [hview]
    unfold Siteless.step step
    rw [hcontrol]
    cases hc : s.control with
    | dispatch c => exact absurd hc (hne c)
    | _ => rfl

theorem run_erase (m : Setup) (n : Nat) (s : State) :
    (run m n s).map (fun (r, t) => (r, t.erase)) = Siteless.run m.erase n s.erase := by
  have hrun : Siteless.run m.erase n s.erase = (run m n s).map (Prod.map id State.erase) :=
    runBy_view State.erase State.erase (I := fun _ => True) (fun _ _ => trivial)
      (fun s _ => (step_erase m s).symm) (fun _ _ => rfl) n trivial
  exact hrun.symm

theorem transfer_relabel (m : Setup) (s : State) (target : Target) (c : Call) (control : Control)
    (site : SiteId) :
    transfer m { s with control } target { c with site } = transfer m s target c := by
  unfold transfer
  dsimp only
  cases target.arity? m.library with
  | none => rfl
  | some arity =>
    dsimp only
    split
    · rfl
    · cases target with
      | primitive op =>
        simp only [operate]
        cases (op.apply c.args m.overflow m.sink s.store).1 with
        | ok v => rfl
        | error cause => rfl
      | lambda code =>
        simp only [enter]
        cases s.stack.push (activationName (s.store.cell c.closure.cell)
            (m.library.code code)) with
        | error cause => rfl
        | ok stack =>
          dsimp only
          cases (Frame.activate (m.library.code code).layout c.closure.env).bind
              (m.library.code code).params c.args with
          | error failed => rfl
          | ok frame => rfl
      | unbound => rfl

theorem Siteless.run_relabel (m : Setup) (n : Nat) (s : State) (c : Call) (site : SiteId) :
    Siteless.run m n { s with control := .dispatch { c with site } } =
      Siteless.run m n { s with control := .dispatch c } := by
  have hresult : ∀ c, ({ s with control := .dispatch c } : State).result? = none := by
    intro c
    simp only [State.result?]
    split <;> simp_all
  cases n with
  | zero => simp only [run, runBy, hresult, Option.map_none]
  | succ n =>
    simp only [run, runBy, hresult]
    have hstep := transfer_relabel m { s with control := .dispatch c }
      (s.store.cell c.closure.cell).target c (.dispatch { c with site }) site
    simp only [step]
    rw [hstep]

end Machine

open Machine

def World.erase (w : World) : World := { w with store := w.store.erase }

namespace Interpreter

def erase (i : Interpreter) : Interpreter := { i with cacheSize := 0, profile := none }

def Outcome.erase (o : Outcome) : Outcome :=
  { o with interpreter := o.interpreter.erase, world := o.world.erase }

end Interpreter

namespace Siteless

def runFrom (fuel : Nat) (i : Interpreter) (library : Library) (s : State) :
    Option Interpreter.Outcome :=
  (Siteless.run (i.setup library) fuel s).map fun (result, t) =>
    { result
      interpreter := { i with stack := t.stack, profile := t.profile }
      world := { library, store := t.store } }

/-- Performs a task with the machine that has no call sites; a call of the host adds none. -/
def perform : Engine := fun fuel i w t =>
  match t with
  | .invoke e =>
    let (root, store) := w.store.addFrame (.activate {} none)
    runFrom fuel i w.library (i.start store (.eval e root) [])
  | .invokeWith e layout =>
    let (root, store) := w.store.addFrame (.activate layout none)
    runFrom fuel i w.library (i.start store (.eval e root) [])
  | .call callee args =>
    match callee.asClosure with
    | .error cause => some { result := .error { cause }, interpreter := i, world := w }
    | .ok closure =>
      runFrom fuel i w.library (i.start w.store (.dispatch ⟨⟨0⟩, closure, args⟩) [.loop])

end Siteless

namespace Interpreter

theorem runFrom_erase (fuel : Nat) (i : Interpreter) (library : Library) (s : State) :
    (i.runFrom fuel library s).map Outcome.erase =
      Siteless.runFrom fuel i.erase library s.erase := by
  have hrun := run_erase (i.setup library) fuel s
  have hsetup : (i.setup library).erase = i.erase.setup library := rfl
  rw [hsetup] at hrun
  simp only [runFrom, Siteless.runFrom, ← hrun]
  cases run (i.setup library) fuel s with
  | none => rfl
  | some rt => rfl

theorem call_erase (fuel : Nat) (i : Interpreter) (library : Library) (store : Store) (c : Call)
    (site : SiteId) :
    (i.runFrom fuel library (i.start store (.dispatch c) [.loop])).map Outcome.erase =
      Siteless.runFrom fuel i.erase library
        (i.erase.start store.erase (.dispatch { c with site }) [.loop]) := by
  rw [runFrom_erase]
  have hrelabel := Siteless.run_relabel (i.erase.setup library) fuel
    (i.start store (.dispatch c) [.loop]).erase c site
  simp only [Siteless.runFrom]
  exact congrArg (Option.map _) hrelabel.symm

theorem perform_erase (fuel : Nat) (i : Interpreter) (w : World) (t : Task) :
    (i.perform fuel w t).map Outcome.erase = Siteless.perform fuel i.erase w.erase t := by
  cases t with
  | invoke e => exact runFrom_erase fuel i w.library _
  | invokeWith e layout => exact runFrom_erase fuel i w.library _
  | call callee args =>
    simp only [perform, call, Siteless.perform]
    cases callee.asClosure with
    | error cause => rfl
    | ok closure => exact call_erase fuel i w.library w.store.addSite.2 _ ⟨0⟩

end Interpreter

namespace Session

def erase (s : Session) : Session :=
  { world := s.world.erase, interpreters := fun k => (s.interpreters k).erase }

theorem resume_erase (s : Session) (on : Nat) (o : Interpreter.Outcome) :
    (s.resume on o).erase = s.erase.resume on o.erase := by
  simp only [resume, erase, Interpreter.Outcome.erase, Session.mk.injEq, true_and]
  funext k
  split <;> rfl

theorem step_erase (fuel : Nat) (s : Session) (a : HostStep) :
    (s.step Interpreter.perform fuel a).map (fun (r, t) => (r, t.erase)) =
      s.erase.step Siteless.perform fuel a := by
  cases a with
  | bind closure target => rfl
  | task on t =>
    have hperform := Interpreter.perform_erase fuel (s.interpreters on) s.world t
    have hinterpreter : s.erase.interpreters on = (s.interpreters on).erase := rfl
    have hworld : s.erase.world = s.world.erase := rfl
    simp only [step, hinterpreter, hworld, ← hperform, Option.map_map]
    congr 1
    funext o
    simp only [Function.comp, resume_erase]
    rfl

/-- The results of a session and what it leaves, as the machine without call sites sees them. -/
def erased (fuel : Nat) (s : Session) (acts : List HostStep) :
    Option (List (Option (Except Failure Value)) × Session) :=
  (s.run Interpreter.perform fuel acts).map fun (rs, t) => (rs, t.erase)

theorem run_erase (fuel : Nat) (s : Session) (acts : List HostStep) :
    s.erased fuel acts = s.erase.run Siteless.perform fuel acts := by
  induction acts generalizing s with
  | nil => rfl
  | cons a as ih =>
    simp only [erased, run, ← step_erase]
    cases s.step Interpreter.perform fuel a with
    | none => rfl
    | some rs =>
      obtain ⟨r, t⟩ := rs
      simp only [Option.bind_some, Option.map_some, ← ih, erased, Option.map_map]
      rfl

end Session

end TreeMachine
