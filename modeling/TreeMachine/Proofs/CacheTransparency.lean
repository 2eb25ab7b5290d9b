import Mathlib.Control.Monad.Basic
import TreeMachine.Proofs.CallReturn
import TreeMachine.Proofs.CellPersistence
import TreeMachine.Proofs.SiteErasure

set_option autoImplicit false

namespace TreeMachine

namespace Machine

theorem run_relabel {m m' : Setup} {s s' : State} (c c' : Call) (hm : m.erase = m'.erase)
    (hs : s.erase = { s'.erase with control := .dispatch c })
    (hs' : s'.control = .dispatch c') (hclosure : c.closure = c'.closure)
    (hargs : c.args = c'.args) (n : Nat) :
    (run m n s).map (fun (r, t) => (r, t.erase)) =
      (run m' n s').map fun (r, t) => (r, t.erase) := by
  have hrelabel := Siteless.run_relabel m'.erase n s'.erase c' c.site
  have hc : ({ c' with site := c.site } : Call) = c := by rw [← hclosure, ← hargs]
  have hself : ({ s'.erase with control := .dispatch c' } : State) = s'.erase := by
    rw [← hs']
    rfl
  rw [hc, hself, ← hs] at hrelabel
  rw [run_erase, run_erase, hm, hrelabel]

end Machine

open Machine

namespace Interpreter

/-- The machine gives the outcome to the pending work and leaves the store, call sites apart, and
the call stack as the outcome has them. -/
structure Outcome.Seen (o : Outcome) (s : State) : Prop where
  control : s.control = .ofResult o.result
  store : s.store.erase = o.world.store.erase
  stack : s.stack = o.interpreter.stack

structure Mirrors (i : Interpreter) (w : World) (m : Setup) (s : State) : Prop where
  setup : m.erase = (i.setup w.library).erase
  store : s.store.erase = w.store.erase
  stack : s.stack = i.stack

theorem Mirrors.run_eq {i : Interpreter} {w : World} {m : Setup} {c : Call} {s : State}
    (h : i.Mirrors w m s) (hc : s.control = .dispatch c) (n : Nat) :
    (run m n { s with pending := [.loop] }).map (fun (r, t) => (r, t.erase)) =
      (run (i.setup w.library) n (i.start w.store.addSite.2
        (.dispatch ⟨⟨w.store.sites.size⟩, c.closure, c.args⟩) [.loop])).map
          fun (r, t) => (r, t.erase) := by
  refine run_relabel c ⟨⟨w.store.sites.size⟩, c.closure, c.args⟩ h.setup ?_ rfl rfl rfl n
  simp only [State.erase, start, hc, h.store, h.stack]
  rfl

theorem Mirrors.call_agrees {i : Interpreter} {w : World} {m : Setup} {base : List Pending}
    {c : Call} {s : State} (h : i.Mirrors w m s) (hc : s.control = .dispatch c)
    (hpending : s.pending = .loop :: base) :
    (∀ fuel o, i.call fuel w (.closure c.closure) c.args = some o →
      ∃ n, Returns m base s n ∧ o.Seen (steps m n s)) ∧
    (∀ n, Returns m base s n →
      ∃ fuel o, i.call fuel w (.closure c.closure) c.args = some o ∧ o.Seen (steps m n s)) := by
  have hcall : ∀ fuel, i.call fuel w (.closure c.closure) c.args =
      i.runFrom fuel w.library (i.start w.store.addSite.2
        (.dispatch ⟨⟨w.store.sites.size⟩, c.closure, c.args⟩) [.loop]) := fun _ => rfl
  have hs : s = (View.under base).state { s with pending := [.loop] } := by
    simp [View.state, View.under, View.keep, ← hpending]
  have hloop : [.loop] <:+ ({ s with pending := [.loop] } : State).pending := List.suffix_refl _
  have hover : ∀ n, Returns m [] { s with pending := [.loop] } n →
      steps m n s = (View.under base).state (steps m n { s with pending := [.loop] }) := by
    intro n hn
    rw [← steps_under, ← hs]
    intro k hk
    exact ne_nil_of_loop_suffix (hn.busy k hk)
  constructor
  · intro fuel o ho
    rw [hcall] at ho
    obtain ⟨r, t, hrun, rfl⟩ := runFrom_eq_some_iff.1 ho
    have hsame := h.run_eq hc fuel
    rw [hrun] at hsame
    obtain ⟨⟨r', t'⟩, hrun', heq⟩ := Option.map_eq_some_iff.1 hsame
    obtain ⟨rfl, ht⟩ := Prod.mk.inj heq
    obtain ⟨n, hreturns, rfl, hcontrol⟩ := returns_of_run hloop hrun'
    have hstore := congrArg State.store ht
    have hstack := congrArg State.stack ht
    refine ⟨n, by rw [hs]; exact returns_under.2 hreturns, ?_⟩
    rw [hover n hreturns]
    exact ⟨hcontrol, hstore, hstack⟩
  · intro n hn
    rw [hs] at hn
    have hreturns := returns_under.1 hn
    obtain ⟨r, hcontrol⟩ := hreturns.control hloop
    have hsame := h.run_eq hc n
    rw [run_of_returns hreturns hcontrol] at hsame
    obtain ⟨⟨r', t⟩, hrun, heq⟩ := Option.map_eq_some_iff.1 hsame.symm
    obtain ⟨rfl, ht⟩ := Prod.mk.inj heq
    have hstore := congrArg State.store ht
    have hstack := congrArg State.stack ht
    refine ⟨n, _, (hcall n).trans (runFrom_eq_some_iff.2 ⟨r', t, hrun, rfl⟩), ?_⟩
    rw [hover n hreturns]
    exact ⟨hcontrol, hstore.symm, hstack.symm⟩

end Interpreter

namespace Session

theorem dispatch_of_holds {s : Session} {id : CellId} {cell : FunctionCell} (hs : s.Holds id cell)
    {on : Nat} {t : Task} {u : State} {m : Setup} {n : Nat} {c : Call}
    (hu : (s.interpreters on).launch s.world t = .ok u)
    (hc : (steps m n u).control = .dispatch c) (hid : c.closure.cell = id) :
    (Machine.step m (steps m n u)).erase =
      transfer m.erase (steps m n u).erase cell.target c := by
  have hext := (Interpreter.extends_launch hu).trans (extends_steps m n u)
  have hcell : (steps m n u).store.cell c.closure.cell = cell := by
    rw [hid, hext.cell hs.1, hs.2]
  simp only [Machine.step, hc]
  rw [dispatchStep_erase, hcell]

end Session

/-- Inline caches cannot be observed: a session gives and leaves, call sites and counts apart, what
the machine without call sites does. -/
theorem cache_transparency :
    (∀ (fuel : Nat) (s : Session) (acts : List HostStep),
      s.erased fuel acts = s.erase.run Siteless.perform fuel acts) ∧
    (∀ (fuel : Nat) (s s' : Session) (acts : List HostStep), s.erase = s'.erase →
      s.erased fuel acts = s'.erased fuel acts) ∧
    (∀ (i : Interpreter) (w : World) (t : Task) (u : State) (m : Setup) (n : Nat) (c : Call),
      i.launch w t = .ok u → (steps m n u).control = .dispatch c →
      ∃ base, (steps m n u).pending = .loop :: base ∧
        ∀ (j : Interpreter) (v : World), j.Mirrors v m (steps m n u) →
          (∀ fuel o, j.call fuel v (.closure c.closure) c.args = some o →
            ∃ k, Returns m base (steps m n u) k ∧ o.Seen (steps m (n + k) u)) ∧
          (∀ k, Returns m base (steps m n u) k →
            ∃ fuel o, j.call fuel v (.closure c.closure) c.args = some o ∧
              o.Seen (steps m (n + k) u))) ∧
    (∀ (fuel : Nat) (s s' : Session) (closure : Closure) (target : Target) (acts : List HostStep)
      (rs : List (Option (Except Failure Value))),
      closure.cell.index < s.world.store.cells.size →
      (∀ other t, .bind other t ∈ acts → other.cell ≠ closure.cell) →
      (s.bind closure target).run Interpreter.perform fuel acts = some (rs, s') →
      ∀ (on : Nat) (t : Task) (u : State) (m : Setup) (n : Nat) (c : Call),
        (s'.interpreters on).launch s'.world t = .ok u →
        (steps m n u).control = .dispatch c → c.closure.cell = closure.cell →
        (step m (steps m n u)).erase = transfer m.erase (steps m n u).erase target c) := by
  refine ⟨Session.run_erase, ?_, ?_, ?_⟩
  · intro fuel s s' acts heq
    rw [Session.run_erase, Session.run_erase, heq]
  · intro i w t u m n c hu hc
    obtain ⟨base, hbase⟩ := Interpreter.dispatch_of_launch hu hc
    refine ⟨base, hbase, fun j v hmirrors => ?_⟩
    simp only [steps_add]
    exact hmirrors.call_agrees hc hbase
  · intro fuel s s' closure target acts rs hid hother hrun on t u m n c hu hc hcell
    have hholds := Session.holds_run (Session.holds_bind target hid) hother hrun
    exact Session.dispatch_of_holds hholds hu hc hcell

def comparison : Expr :=
  .apply (.literal (.closure ⟨⟨0⟩, none⟩)) [.literal (.int 1), .literal (.int 2)] false ⟨0⟩

def comparisonCall : Call := ⟨⟨0⟩, ⟨⟨0⟩, none⟩, [.int 1, .int 2]⟩

def staleEntry : CacheEntry := ⟨.primitive .eq, ⟨0⟩, 0⟩

/-- The cell was bound to `eq` when the stale entry was recorded, and is bound to `lt` now. -/
def reboundWorld (site : CallSite) : World :=
  { store := { cells := #[⟨"f", .primitive .lt, 1⟩], sites := #[site] } }

/-- The world in which the host makes the call: a task has made its frame. -/
def framedWorld (site : CallSite) : World :=
  { store := ((reboundWorld site).store.addFrame (.activate {} none)).2 }

def comparisonSetup : Setup := plainInterpreter.setup {}

def comparisonStart : State :=
  plainInterpreter.start (framedWorld (.caching [staleEntry])).store (.eval comparison ⟨0⟩) []

def compareOnce : List HostStep := [.task 0 (.invoke comparison)]

/-- A stale entry makes no difference to what the task compares, be it stale at first or by another
bind. -/
theorem cache_transparency_stale :
    staleEntry.isStale (reboundWorld (.caching [staleEntry])).store.cell = true ∧
    ((plainSession (reboundWorld (.caching [staleEntry]))).erased 10 compareOnce).map Prod.fst =
      some [some (.ok (.bool true))] ∧
    (plainSession (reboundWorld .megamorphic)).erased 10 compareOnce =
      (plainSession (reboundWorld (.caching [staleEntry]))).erased 10 compareOnce ∧
    (∃ base k, Returns comparisonSetup base (steps comparisonSetup 7 comparisonStart) k ∧
      (steps comparisonSetup (7 + k) comparisonStart).control = .yield (.bool true)) ∧
    ∃ s u, ((plainSession (reboundWorld (.caching [staleEntry]))).bind ⟨⟨0⟩, none⟩
        (.primitive .eq)).run Interpreter.perform 10 compareOnce =
          some ([some (.ok (.bool false))], s) ∧
      (s.interpreters 0).launch s.world (.invoke comparison) = .ok u ∧
      (step comparisonSetup (steps comparisonSetup 7 u)).erase =
        transfer comparisonSetup.erase (steps comparisonSetup 7 u).erase (.primitive .eq)
          comparisonCall := by
  obtain ⟨-, hsessions, hcalls, hbinds⟩ := cache_transparency
  refine ⟨rfl, by decide +kernel, hsessions 10 _ _ compareOnce rfl, ?_, ?_⟩
  · have hsteps : steps comparisonSetup 7 comparisonStart = plainInterpreter.start
        (framedWorld (.caching [staleEntry])).store (.dispatch comparisonCall) [.loop] := rfl
    have hmirrors : plainInterpreter.Mirrors (framedWorld .fresh) comparisonSetup
        (steps comparisonSetup 7 comparisonStart) := by
      rw [hsteps]
      exact ⟨rfl, rfl, rfl⟩
    obtain ⟨base, -, hagree⟩ := hcalls plainInterpreter (reboundWorld (.caching [staleEntry]))
      (.invoke comparison) comparisonStart comparisonSetup 7 comparisonCall rfl
        (congrArg State.control hsteps)
    obtain ⟨k, hreturns, hseen⟩ := (hagree _ _ hmirrors).1 10 _ rfl
    exact ⟨base, k, hreturns, hseen.control⟩
  · have hresults : (((plainSession (reboundWorld (.caching [staleEntry]))).bind ⟨⟨0⟩, none⟩
        (.primitive .eq)).run Interpreter.perform 10 compareOnce).map Prod.fst =
          some [some (.ok (.bool false))] := by decide +kernel
    obtain ⟨⟨rs, s⟩, hrun, rfl⟩ := Option.map_eq_some_iff.1 hresults
    refine ⟨s, _, hrun, rfl, ?_⟩
    exact hbinds 10 _ s ⟨⟨0⟩, none⟩ (.primitive .eq) compareOnce _ (by decide)
      (by simp [compareOnce]) hrun 0 (.invoke comparison) _ comparisonSetup 7 comparisonCall rfl rfl
        rfl

end TreeMachine
