import TreeMachine.FunctionCell

/-!
Call sites and their inline caches. An entry goes stale when its cell is rebound, and a site that
meets one entry point too many gives up caching for good.
-/
set_option autoImplicit false

namespace TreeMachine

structure CacheEntry where
  target : Target
  cell : CellId
  generation : UInt64
  deriving DecidableEq, Repr

/-- Whether the cell was rebound after the entry was recorded. -/
def CacheEntry.isStale (cells : CellId → FunctionCell) (e : CacheEntry) : Bool :=
  (cells e.cell).generation != e.generation

/-- The cache of a call site, with its entries in the order in which they were recorded. A site
that gives up caching drops them. -/
structure CallSite where
  entries : List CacheEntry := []
  isMegamorphic : Bool := false
  dropped : isMegamorphic = true → entries = [] := by nofun
  deriving DecidableEq, Repr

inductive CacheState where
  | uninitialized
  | monomorphic
  | polymorphic
  | megamorphic
  deriving DecidableEq, Repr

/-- How a call reaches its entry point: through the cache or through the function cell. -/
inductive Transfer where
  | direct
  | indirect
  deriving DecidableEq, Repr

inductive CacheEvent where
  | hit
  | recorded
  | wentMegamorphic
  | generic
  deriving DecidableEq, Repr

structure Lookup where
  target : Target
  transfer : Transfer
  event : CacheEvent
  evicted : Nat
  deriving DecidableEq, Repr

namespace CallSite

def fresh : CallSite := {}

instance : Inhabited CallSite := ⟨fresh⟩

abbrev caching (entries : List CacheEntry) : CallSite := { entries }

abbrev megamorphic : CallSite :=
  { entries := [], isMegamorphic := true, dropped := fun _ => rfl }

/-- A site still caches or has given it up, and then it remembers nothing. -/
@[elab_as_elim, cases_eliminator]
theorem caching_or_megamorphic {motive : CallSite → Prop} (site : CallSite)
    (caching : ∀ entries, motive (caching entries)) (megamorphic : motive megamorphic) :
    motive site := by
  obtain ⟨entries, isMegamorphic, dropped⟩ := site
  match isMegamorphic with
  | false => exact caching entries
  | true =>
    obtain rfl : entries = [] := dropped rfl
    exact megamorphic

def size (s : CallSite) : Nat := s.entries.length

def state (s : CallSite) : CacheState :=
  if s.isMegamorphic then .megamorphic
  else
    match s.size with
    | 0 => .uninitialized
    | 1 => .monomorphic
    | _ => .polymorphic

def resolve (site : CallSite) (cells : CellId → FunctionCell) (callee : CellId) (limit : Nat) :
    Lookup × CallSite :=
  let cell := cells callee
  if site.isMegamorphic then (⟨cell.target, .indirect, .generic, 0⟩, site)
  else
    let live := site.entries.filter fun e => !e.isStale cells
    let evicted := site.size - live.length
    match live.find? fun e => e.target.sameEntry cell.target with
    | some e => (⟨e.target, .direct, .hit, evicted⟩, caching live)
    | none =>
      if live.length < limit then
        let entry := ⟨cell.target, callee, cell.generation⟩
        (⟨cell.target, .direct, .recorded, evicted⟩, caching (live ++ [entry]))
      else (⟨cell.target, .indirect, .wentMegamorphic, evicted⟩, megamorphic)

/-- Finds the entry point for a call to `callee` and updates the cache. An unbound callee has no
entry point, and then the site stays as it is. -/
def lookup (site : CallSite) (cells : CellId → FunctionCell) (callee : CellId) (limit : Nat) :
    Except Cause (Lookup × CallSite) :=
  if (cells callee).target.isBound then .ok (site.resolve cells callee limit)
  else .error (.unboundFunction (cells callee).name)

theorem target_resolve (site : CallSite) (cells : CellId → FunctionCell) (callee : CellId)
    (limit : Nat) : (site.resolve cells callee limit).1.target = (cells callee).target := by
  unfold resolve
  split
  · rfl
  · dsimp only
    split
    · rename_i e he
      have h := List.find?_some he
      exact (Target.sameEntry_iff.1 h).2
    · split <;> rfl

theorem resolve_megamorphic (cells : CellId → FunctionCell) (callee : CellId) (limit : Nat) :
    megamorphic.resolve cells callee limit =
      (⟨(cells callee).target, .indirect, .generic, 0⟩, megamorphic) := rfl

end CallSite

end TreeMachine
