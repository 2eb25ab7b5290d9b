/-!
Handles of interned strings: the shard in the top three bits, the place within the shard in the
other 29.
-/
set_option autoImplicit false

namespace TreeMachine.Symbol

def shardCount : Nat := 8

def maxPlace : Nat := 0x1FFFFFFF

structure Handle where
  raw : UInt32
  deriving DecidableEq, Repr

namespace Handle

def empty : Handle := ⟨0⟩

def pack (shard place : Nat) : Handle := ⟨(shard.toUInt32 <<< 29) ||| place.toUInt32⟩

def shard (h : Handle) : Nat := (h.raw >>> 29).toNat

def place (h : Handle) : Nat := (h.raw &&& 0x1FFFFFFF).toNat

def isEmpty (h : Handle) : Bool := h == empty

def order (a b : Handle) : Ordering := compare a.raw b.raw

theorem toNat_raw_pack {shard place : Nat} (hs : shard < shardCount) (hp : place ≤ maxPlace) :
    (pack shard place).raw.toNat = shard * (maxPlace + 1) + place := by
  have hs' : shard < 8 := hs
  have hp' : place < 2 ^ 29 := by unfold maxPlace at hp; omega
  have h1 : shard * 2 ^ 29 < 2 ^ 32 := by omega
  have h2 : (shard.toUInt32 <<< 29).toNat = shard <<< 29 := by
    simp [UInt32.toNat_shiftLeft, Nat.shiftLeft_eq]
    omega
  have h3 : place.toUInt32.toNat = place := by simp; omega
  rw [pack, UInt32.toNat_or, h2, h3, ← Nat.shiftLeft_add_eq_or_of_lt hp', Nat.shiftLeft_eq]
  rfl

theorem shard_pack {shard place : Nat} (hs : shard < shardCount) (hp : place ≤ maxPlace) :
    (pack shard place).shard = shard := by
  rw [Handle.shard, UInt32.toNat_shiftRight, toNat_raw_pack hs hp]
  unfold maxPlace at hp ⊢
  simp [Nat.shiftRight_eq_div_pow]
  omega

theorem place_pack {shard place : Nat} (hs : shard < shardCount) (hp : place ≤ maxPlace) :
    (pack shard place).place = place := by
  rw [Handle.place, UInt32.toNat_and, toNat_raw_pack hs hp]
  unfold maxPlace at hp ⊢
  have h : (0x1FFFFFFF : UInt32).toNat = 2 ^ 29 - 1 := by decide
  rw [h, Nat.and_two_pow_sub_one_eq_mod]
  omega

end Handle

end TreeMachine.Symbol
