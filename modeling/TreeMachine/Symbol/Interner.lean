import Std.Data.HashMap
import TreeMachine.Symbol.Handle

/-!
A sharded string interner. Each string lives in the shard that its first eight bytes choose, at
the place at which it was first stored, and is never moved or removed.
-/
set_option autoImplicit false

namespace TreeMachine.Symbol

structure Shard where
  places : Std.HashMap String Nat := {}
  strings : Array String := #[]

namespace Shard

def add (d : Shard) (s : String) : Shard :=
  { places := d.places.insert s d.strings.size, strings := d.strings.push s }

@[simp] theorem strings_add (d : Shard) (s : String) :
    (d.add s).strings = d.strings.push s := rfl

@[simp] theorem places_add (d : Shard) (s : String) :
    (d.add s).places = d.places.insert s d.strings.size := rfl

end Shard

/-- A polynomial hash, modulo 2^32, of the first eight bytes of the text. -/
def hash (s : String) : UInt32 :=
  (s.toUTF8.data.toList.take 8).foldl (fun h b => h * 31 + b.toUInt32) 0

def shardOf (s : String) : Fin shardCount := ⟨(hash s).toNat % shardCount, Nat.mod_lt _ (by decide)⟩

inductive InternError where
  | shardFull (shard count : Nat)
  deriving DecidableEq, Repr

def InternError.message : InternError → String
  | .shardFull shard count =>
    s!"interner shard {shard} exceeded capacity: {count} strings, max is {maxPlace}"

structure Interner where
  shards : Vector Shard shardCount
  size : Nat

namespace Interner

def empty : Interner :=
  { shards := (Vector.replicate shardCount {}).set 0 (Shard.add {} "") (by decide), size := 1 }

/-- The handle of a string, which is stored first if it is new. A full shard takes no new string
and stays as it is. -/
def intern (t : Interner) (s : String) : Except InternError Handle × Interner :=
  let i := shardOf s
  let shard := t.shards.get i
  match shard.places[s]? with
  | some place => (.ok (.pack i place), t)
  | none =>
    let place := shard.strings.size
    if place ≤ maxPlace then
      (.ok (.pack i place), { shards := t.shards.set i (shard.add s) i.isLt, size := t.size + 1 })
    else (.error (.shardFull i place), t)

def lookup? (t : Interner) (h : Handle) : Option String :=
  (t.shards[h.shard]?).bind fun d => d.strings[h.place]?

/-- The names that every interner holds from the start, in the order in which they are stored. -/
def builtins : List String :=
  ["add", "sub", "mul", "lt", "eq", "box", "unbox", "set-box!", "println", "lambda"]

def fresh : Interner := builtins.foldl (fun t s => (t.intern s).2) empty

def isEmpty (t : Interner) : Bool := t.size ≤ 1

end Interner

end TreeMachine.Symbol
