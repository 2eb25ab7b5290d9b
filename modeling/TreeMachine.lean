import TreeMachine.Inspect
import TreeMachine.Interpreter
import TreeMachine.Store.Lemmas
import TreeMachine.Symbol.Interner
import TreeMachine.Proofs.FirstOccurrences
import TreeMachine.Proofs.PendingWork
import TreeMachine.Proofs.Session
import TreeMachine.Proofs.CallStackDiscipline
import TreeMachine.Proofs.RecursionLimit
import TreeMachine.Proofs.CacheTransparency
import TreeMachine.Proofs.TailFlags
import TreeMachine.Proofs.TailSimulation
import TreeMachine.Proofs.TailCalls
import TreeMachine.Proofs.IntegerOverflow
import TreeMachine.Proofs.Backtraces
import TreeMachine.Proofs.StoreChange
import TreeMachine.Proofs.Typing
import TreeMachine.Proofs.LexicalScope
import TreeMachine.Proofs.Isolation
import TreeMachine.Proofs.InternerSoundness
import TreeMachine.Proofs.CacheValidity
import TreeMachine.Proofs.Growth
import TreeMachine.Proofs.Correspondence
import TreeMachine.Proofs.Lockstep
import TreeMachine.Proofs.HistoryIndependence
import TreeMachine.Proofs.FailureCauses
import TreeMachine.Proofs.SiteHistory
import TreeMachine.Proofs.EntryPoints
import TreeMachine.Proofs.Loops
import TreeMachine.Proofs.DispatchCounts
import TreeMachine.Proofs.SlotHistory
import TreeMachine.Proofs.ParameterBinding
import TreeMachine.Proofs.PrimitiveResults
import TreeMachine.Proofs.InternerNumbering
import TreeMachine.Proofs.FrameChains
import TreeMachine.Proofs.WrittenData
import TreeMachine.Proofs.TreeData
import TreeMachine.Proofs.PrintedForm
