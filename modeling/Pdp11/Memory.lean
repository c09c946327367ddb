import Pdp11.Words

namespace Pdp11

/-- The flat 22-bit backing store: 2^21 words. -/
abbrev Mem := BitVec 21 → Word

abbrev memBytes : PhysAddr := 0x400000

def memIndex (addr : PhysAddr) : BitVec 21 := ((addr &&& (memBytes - 1)) >>> 1).setWidth 21

theorem memIndex_toNat (pa : PhysAddr) : (memIndex pa).toNat = pa.toNat % 2 ^ 22 / 2 := by
  have hmask : (pa &&& (memBytes - 1)).toNat = pa.toNat % 2 ^ 22 := by
    have hlit : (memBytes - 1 : PhysAddr).toNat = 2 ^ 22 - 1 := rfl
    rw [BitVec.toNat_and, hlit, Nat.and_two_pow_sub_one_eq_mod]
  rw [memIndex, BitVec.toNat_setWidth, BitVec.toNat_ushiftRight, hmask, Nat.shiftRight_eq_div_pow]
  omega

def memReadWord (m : Mem) (addr : PhysAddr) : Word := m (memIndex addr)

def memWriteWord (m : Mem) (addr : PhysAddr) (value : Word) : Mem :=
  Function.update m (memIndex addr) value

def memReadByte (m : Mem) (addr : PhysAddr) : Byte :=
  let word := memReadWord m addr
  if addr &&& 1 ≠ 0 then (word >>> 8).setWidth 8 else (word &&& 0xFF).setWidth 8

def memWriteByte (m : Mem) (addr : PhysAddr) (value : Byte) : Mem :=
  let word := m (memIndex addr)
  Function.update m (memIndex addr)
    (if addr &&& 1 ≠ 0 then (word &&& 0x00FF) ||| (value.setWidth 16 <<< 8)
      else (word &&& 0xFF00) ||| value.setWidth 16)

/-- Two-way tag store with a round-robin victim; it holds no data and counts read misses. -/
structure Cache where
  tag : BitVec 8 → BitVec 1 → Word
  valid : BitVec 8 → BitVec 1 → Bool
  victim : BitVec 8 → BitVec 1
  misses : BitVec 64

def cacheReset : Cache :=
  { tag := fun _ _ => 0, valid := fun _ _ => false, victim := fun _ => 0, misses := 0 }

/-- A read of `pa`: whether it hit, and the tag store afterwards. -/
def cacheRead (c : Cache) (pa : PhysAddr) : Bool × Cache :=
  let set : BitVec 8 := pa.extractLsb' 2 8
  let tag : Word := (pa.extractLsb' 10 12).setWidth 16
  if (c.valid set 0 ∧ c.tag set 0 = tag) ∨ (c.valid set 1 ∧ c.tag set 1 = tag) then
    (true, c)
  else
    let w := c.victim set
    (false,
      { tag := Function.update c.tag set (Function.update (c.tag set) w tag)
        valid := Function.update c.valid set (Function.update (c.valid set) w true)
        victim := Function.update c.victim set (w ^^^ 1)
        misses := c.misses + 1 })

end Pdp11
