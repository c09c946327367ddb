import Pdp11.StateHash
import Pdp11.Lib.XorMultiplyHash

namespace Pdp11

open ByteSequence XorMultiplyHash

/-! Machines that differ in one word of memory have different hashes. -/

abbrev fnvPrime : BitVec 64 := 0x100000001b3

theorem fnv1a_steps (h : BitVec 64) (bytes : List Byte) :
    fnv1a h bytes = (bytes.map fun b => b.setWidth 64).foldl (absorb fnvPrime) h := by
  rw [List.foldl_map]
  rfl

theorem fnv1a_append (h : BitVec 64) (xs ys : List Byte) :
    fnv1a h (xs ++ ys) = fnv1a (fnv1a h xs) ys :=
  List.foldl_append

/-- Bytes that two machines share bring their hashes no closer. -/
theorem fnv1a_injective (bytes : List Byte) : Function.Injective fun h => fnv1a h bytes := by
  intro h h' heq
  dsimp only at heq
  rw [fnv1a_steps, fnv1a_steps] at heq
  exact foldl_injective (by decide) _ heq

/-- Both bytes of a word are seen. -/
theorem fnv1a_word_inj {h : BitVec 64} {x y : Word}
    (heq : fnv1a h (littleEndian 2 x) = fnv1a h (littleEndian 2 y)) : x = y := by
  let byte (x : Word) (i : ℕ) : Byte := (x >>> (8 * i)).setWidth 8
  have hfold (x : Word) : fnv1a h (littleEndian 2 x) =
      absorb fnvPrime (absorb fnvPrime h ((byte x 0).setWidth 64)) ((byte x 1).setWidth 64) := rfl
  have hlt (b : Byte) : (b.setWidth 64).toNat < 2 ^ 8 := by
    rw [BitVec.toNat_setWidth]
    exact (Nat.mod_le _ _).trans_lt b.isLt
  rw [hfold, hfold] at heq
  obtain ⟨h0, h1⟩ := absorb_absorb_inj (k := 8) (by decide) (by decide) (by decide)
    (hlt _) (hlt _) (hlt _) (hlt _) heq
  have hbyte {b c : Byte} (h : b.setWidth 64 = c.setWidth 64) : b = c := by
    have hnat := congrArg BitVec.toNat h
    rw [BitVec.toNat_setWidth_of_le (by decide), BitVec.toNat_setWidth_of_le (by decide)] at hnat
    exact BitVec.eq_of_toNat_eq hnat
  refine littleEndian_inj (w := 16) (k := 2) (by decide) ?_
  show [byte x 0, byte x 1] = [byte y 0, byte y 1]
  rw [hbyte h0, hbyte h1]

/-- The bytes hashed before and after a word of memory. -/
theorem hashBytes_word (s : Cpu) (i : BitVec 21) : ∃ before after, ∀ value,
    hashBytes { s with mem := Function.update s.mem i value } =
      before ++ (littleEndian 2 value ++ after) := by
  let below := elements i.toNat fun j => s.mem (.ofNat 21 j)
  let above := elements (2 ^ 21 - i.toNat - 1) fun j => s.mem (.ofNat 21 (i.toNat + 1 + j))
  have hmem (value : Word) :
      (elements (2 ^ 21) fun j => Function.update s.mem i value (.ofNat 21 j)) =
        below ++ value :: above := by
    have hne {j : ℕ} (hj : j < 2 ^ 21) (hij : j ≠ i.toNat) : BitVec.ofNat 21 j ≠ i := by
      rintro rfl
      exact hij (by rw [BitVec.toNat_ofNat, Nat.mod_eq_of_lt hj])
    have hi := i.isLt
    rw [elements_split _ hi]
    congr 1
    · exact elements_congr fun j hj => Function.update_of_ne (hne (by omega) (by omega)) _ _
    · congr 1
      · rw [BitVec.ofNat_toNat, BitVec.setWidth_eq, Function.update_self]
      · exact elements_congr fun j hj => Function.update_of_ne (hne (by omega) (by omega)) _ _
  let front := cpuChunks s ++ (mmuChunks s ++ (fpChunks s ++ (lineChunks s ++ (rkChunks s.dev.rk ++
    (rpChunks s.dev.rp ++ (tmChunks s.dev.tm ++ (rlChunks s.dev.rl ++ (rxChunks s.dev.rx ++
      acctChunks s.acct))))))))
  let media := [diskContents s.dev.rk.disk s.dev.rk.diskWords,
    diskContents s.dev.rp.disk s.dev.rp.diskWords, tapeContents s.dev.tm.tape s.dev.tm.tapeLen]
  refine ⟨front.flatten ++ wordBytes below, wordBytes above ++ media.flatten, fun value => ?_⟩
  have hchunks : hashChunks { s with mem := Function.update s.mem i value } = front ++
      (wordBytes (elements (2 ^ 21) fun j => Function.update s.mem i value (.ofNat 21 j)) ::
        media) := by
    show cpuChunks s ++ (mmuChunks s ++ (fpChunks s ++ (lineChunks s ++ (rkChunks s.dev.rk ++
      (rpChunks s.dev.rp ++ (tmChunks s.dev.tm ++ (rlChunks s.dev.rl ++ (rxChunks s.dev.rx ++
        (acctChunks s.acct ++ _))))))))) = _
    simp only [front, List.append_assoc]
    rfl
  have hword : wordBytes (below ++ value :: above) =
      wordBytes below ++ (littleEndian 2 value ++ wordBytes above) := scalars_append 2 below _
  rw [hashBytes, hchunks, hmem, List.flatten_append, List.flatten_cons, hword]
  simp only [List.append_assoc]

/-- Two machines that differ in one word of memory, and in nothing else, have different hashes. -/
theorem word_difference_seen {s t : Cpu} {i : BitVec 21} (hword : t.mem i ≠ s.mem i)
    (hrest : t = { s with mem := Function.update s.mem i (t.mem i) }) :
    stateHash s ≠ stateHash t := by
  intro heq
  obtain ⟨before, after, hbytes⟩ := hashBytes_word s i
  have hs : s = { s with mem := Function.update s.mem i (s.mem i) } := by
    rw [Function.update_eq_self]
  rw [hs, hrest, stateHash_eq, stateHash_eq, hbytes, hbytes, fnv1a_append, fnv1a_append,
    fnv1a_append, fnv1a_append] at heq
  exact hword (fnv1a_word_inj (fnv1a_injective after heq)).symm

/-- A new machine, and one with a word deposited. -/
theorem deposit_seen : stateHash cpuCreate ≠
    stateHash { cpuCreate with mem := Function.update cpuCreate.mem 5 1 } := by
  refine word_difference_seen (i := 5) ?_ ?_
  · dsimp only
    rw [Function.update_self]
    decide
  · dsimp only
    rw [Function.update_self]

end Pdp11
