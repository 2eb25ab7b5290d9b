import TreeMachine.Proofs.FailureOrigin
import TreeMachine.Proofs.PendingWork
import TreeMachine.Proofs.Session
import TreeMachine.Store.Lemmas

set_option autoImplicit false

namespace TreeMachine

/-- The cells of one store are there in the other, with what they hold. -/
def Store.Extends (a b : Store) : Prop := a.cells.toList <+: b.cells.toList

namespace Store

theorem extends_of_eq {a b : Store} (h : b.cells = a.cells) : a.Extends b := by
  have hcells : a.cells.toList = b.cells.toList := congrArg Array.toList h.symm
  exact ⟨[], by rw [List.append_nil, hcells]⟩

theorem Extends.trans {a b c : Store} (hab : a.Extends b) (hbc : b.Extends c) : a.Extends c :=
  List.IsPrefix.trans hab hbc

theorem Extends.size_le {a b : Store} (h : a.Extends b) : a.cells.size ≤ b.cells.size := by
  simpa using List.IsPrefix.length_le h

theorem Extends.cell {a b : Store} (h : a.Extends b) {id : CellId}
    (hid : id.index < a.cells.size) : b.cell id = a.cell id := by
  have hsame := List.prefix_iff_getElem?.1 h id.index (by simpa using hid)
  simp only [Array.getElem?_toList, Array.getElem_toList] at hsame
  simp only [Store.cell, Array.getD_eq_getD_getElem?, hsame, Array.getElem?_eq_getElem hid]

theorem extends_addCell (s : Store) (c : FunctionCell) : s.Extends (s.addCell c).2 := by
  simp [Extends, addCell]

theorem extends_write {s t : Store} {frame : FrameId} {slot : SlotId} {depth : Nat} {v : Value}
    (h : s.write frame slot depth v = .ok t) : s.Extends t := by
  rw [write_eq] at h
  cases ha : s.ancestor frame depth with
  | error fault => simp [ha, Except.bind] at h
  | ok target =>
    cases hw : (s.frame target).write slot v with
    | error fault => simp [ha, hw, Except.bind, Except.map] at h
    | ok f =>
      simp only [ha, hw, Except.bind, Except.map, Except.ok.injEq] at h
      subst h
      exact extends_of_eq rfl

theorem extends_apply (op : Primitive) (args : List Value) (policy : Overflow) (sink : SinkId)
    (s : Store) : s.Extends (op.apply args policy sink s).2 := by
  unfold Primitive.apply
  split
  case h_7 v =>
    cases v.asBox with
    | ok b => exact extends_of_eq rfl
    | error e => exact extends_of_eq rfl
  case h_8 v w =>
    cases v.asBox with
    | ok b => exact extends_of_eq rfl
    | error e => exact extends_of_eq rfl
  all_goals exact extends_of_eq rfl

end Store

namespace Machine

open Store

theorem extends_evalStep (m : Setup) (s : State) (e : Expr) (frame : FrameId) :
    s.store.Extends (evalStep m s e frame).store := by
  cases e with
  | read slot depth =>
    simp only [evalStep]
    cases s.store.read frame slot depth with
    | ok v => exact extends_of_eq rfl
    | error fault => exact extends_of_eq rfl
  | begin items =>
    cases items with
    | nil => exact extends_of_eq rfl
    | cons first rest =>
      cases rest with
      | nil => exact extends_of_eq rfl
      | cons second rest => exact extends_of_eq rfl
  | lambda code => exact extends_addCell ..
  | _ => exact extends_of_eq rfl

theorem operands_store (s : State) (site : SiteId) (tail : Bool) (closure : Closure)
    (done : List Value) (args : List Expr) (frame : FrameId) :
    (s.operands site tail closure done args frame).store = s.store := by
  cases args with
  | nil => cases tail <;> rfl
  | cons e es => rfl

theorem extends_yieldStep (s : State) (v : Value) : s.store.Extends (yieldStep s v).store := by
  unfold yieldStep
  split
  · exact extends_of_eq rfl
  · split
    · rename_i hw
      exact extends_write hw
    · exact extends_of_eq rfl
  · split
    · exact extends_of_eq rfl
    · exact extends_of_eq rfl
  · exact extends_of_eq rfl
  · split
    · rw [operands_store]
      exact extends_of_eq rfl
    · exact extends_of_eq rfl
  · rw [operands_store]
    exact extends_of_eq rfl
  · exact extends_of_eq rfl
  · exact extends_of_eq rfl

theorem extends_enter (s : State) (code : Code) (c : Call) :
    s.store.Extends (enter s code c).store := by
  unfold enter
  split
  · exact extends_of_eq rfl
  · dsimp only
    split
    · exact extends_of_eq rfl
    · exact extends_of_eq rfl

theorem extends_transfer (m : Setup) (s : State) (target : Target) (c : Call) :
    s.store.Extends (transfer m s target c).store := by
  unfold transfer
  dsimp only
  split
  · exact extends_of_eq rfl
  · split
    · exact extends_of_eq rfl
    · cases target with
      | primitive op =>
        have happly := extends_apply op c.args m.overflow m.sink s.store
        simp only [operate]
        cases (op.apply c.args m.overflow m.sink s.store).1 with
        | ok v => exact happly
        | error cause => exact happly
      | lambda code => exact extends_enter s (m.library.code code) c
      | unbound => exact extends_of_eq rfl

theorem extends_step (m : Setup) (s : State) : s.store.Extends (step m s).store := by
  unfold step
  split
  · exact extends_evalStep ..
  · exact extends_yieldStep ..
  · unfold tailCallStep
    split <;> exact extends_of_eq rfl
  · rename_i c _
    rcases dispatchStep_cases m c s.store with ⟨-, hfail⟩ | ⟨-, found, site, hfound⟩
    · rw [hfail s rfl]
      exact extends_of_eq rfl
    · rw [hfound s rfl]
      exact (extends_of_eq rfl : s.store.Extends (s.located c found site).store).trans
        (extends_transfer ..)
  · unfold raiseStep
    split <;> exact extends_of_eq rfl

theorem extends_steps (m : Setup) (n : Nat) (s : State) :
    s.store.Extends (steps m n s).store := by
  induction n with
  | zero => exact extends_of_eq rfl
  | succ n ih =>
    rw [steps_succ]
    exact ih.trans (extends_step ..)

end Machine

open Machine

namespace Interpreter

theorem extends_launch {i : Interpreter} {w : World} {t : Task} {s : State}
    (h : i.launch w t = .ok s) : w.store.Extends s.store := by
  cases t with
  | call callee args =>
    cases hc : callee.asClosure with
    | error e => simp [launch, hc, Except.map] at h
    | ok closure =>
      simp only [launch, hc, Except.map, Except.ok.injEq] at h
      subst h
      exact Store.extends_of_eq rfl
  | _ =>
    obtain rfl := Except.ok.inj h
    exact Store.extends_of_eq rfl

theorem extends_perform {fuel : Nat} {i : Interpreter} {w : World} {t : Task} {o : Outcome}
    (h : i.perform fuel w t = some o) : w.store.Extends o.world.store := by
  cases hs : i.launch w t with
  | error cause =>
    rw [perform_of_launch_error hs, Option.some.injEq] at h
    subst h
    exact Store.extends_of_eq rfl
  | ok s =>
    rw [perform_of_launch_ok hs] at h
    obtain ⟨r, u, hrun, rfl⟩ := runFrom_eq_some_iff.1 h
    rw [run_eq] at hrun
    obtain ⟨r', hr, heq⟩ := Option.map_eq_some_iff.1 hrun
    obtain ⟨rfl, rfl⟩ := Prod.mk.inj heq
    exact (extends_launch hs).trans (extends_steps ..)

end Interpreter

namespace Session

def Holds (id : CellId) (c : FunctionCell) (s : Session) : Prop :=
  id.index < s.world.store.cells.size ∧ s.world.store.cell id = c

theorem holds_bind {s : Session} {closure : Closure} (target : Target)
    (h : closure.cell.index < s.world.store.cells.size) :
    (s.bind closure target).Holds closure.cell
      ((s.world.store.cell closure.cell).bind target) := by
  refine ⟨?_, ?_⟩
  · simpa [bind, Store.bind] using h
  · simp [bind, Store.cell_bind, h]

theorem holds_step {id : CellId} {c : FunctionCell} {fuel : Nat} {s s' : Session} {a : HostStep}
    {r : Option (Except Failure Value)} (hs : s.Holds id c)
    (hother : ∀ closure target, a = .bind closure target → closure.cell ≠ id)
    (h : s.step Interpreter.perform fuel a = some (r, s')) : s'.Holds id c := by
  obtain ⟨hid, hc⟩ := hs
  cases a with
  | bind closure target =>
    obtain ⟨-, rfl⟩ := Prod.mk.inj (Option.some.inj h)
    have hne : closure.cell.index ≠ id.index := by
      intro heq
      refine hother closure target rfl ?_
      cases hcell : closure.cell
      cases id
      simp_all
    refine ⟨?_, ?_⟩
    · simpa [bind, Store.bind] using hid
    · simp [bind, Store.cell_bind, hne, hc]
  | task on t =>
    obtain ⟨o, ho, heq⟩ := Option.map_eq_some_iff.1 h
    obtain ⟨-, rfl⟩ := Prod.mk.inj heq
    have hext := Interpreter.extends_perform ho
    exact ⟨Nat.lt_of_lt_of_le hid hext.size_le, (hext.cell hid).trans hc⟩

theorem holds_run {id : CellId} {c : FunctionCell} {fuel : Nat} {s s' : Session}
    {acts : List HostStep} {rs : List (Option (Except Failure Value))} (hs : s.Holds id c)
    (hother : ∀ closure target, .bind closure target ∈ acts → closure.cell ≠ id)
    (h : s.run Interpreter.perform fuel acts = some (rs, s')) : s'.Holds id c := by
  refine run_invariant (P := Holds id c) ?_ hs h
  intro a ha s r s' hs hstep
  exact holds_step hs (fun closure target heq => hother closure target (heq ▸ ha)) hstep

end Session

end TreeMachine
