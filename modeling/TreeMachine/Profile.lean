import TreeMachine.CallSite

set_option autoImplicit false

namespace TreeMachine

structure Profile where
  calls : Nat := 0
  direct : Nat := 0
  indirect : Nat := 0
  hits : Nat := 0
  misses : Nat := 0
  evictions : Nat := 0
  megamorphic : Nat := 0
  tailCalls : Nat := 0
  deriving DecidableEq, Repr, Inhabited

namespace Profile

def call (p : Profile) : Profile := { p with calls := p.calls + 1 }

def tailCall (p : Profile) : Profile := { p with tailCalls := p.tailCalls + 1 }

def found (p : Profile) (l : Lookup) : Profile :=
  { p with
    evictions := p.evictions + l.evicted
    hits := p.hits + if l.event = .hit then 1 else 0
    misses := p.misses + if l.event = .recorded ∨ l.event = .wentMegamorphic then 1 else 0
    megamorphic := p.megamorphic + if l.event = .wentMegamorphic then 1 else 0
    direct := p.direct + if l.transfer = .direct then 1 else 0
    indirect := p.indirect + if l.transfer = .indirect then 1 else 0 }

def report (p : Profile) : String :=
  "Dispatch profile:\n" ++
  s!"  Calls:                   {p.calls}\n" ++
  s!"  Direct transfers:        {p.direct}\n" ++
  s!"  Indirect transfers:      {p.indirect}\n" ++
  s!"  Cache hits:              {p.hits}\n" ++
  s!"  Cache misses:            {p.misses}\n" ++
  s!"  Stale evictions:         {p.evictions}\n" ++
  s!"  Megamorphic transitions: {p.megamorphic}\n" ++
  s!"  Tail calls:              {p.tailCalls}"

end Profile

end TreeMachine
