import Pdp11.Memory
import Pdp11.Lib.RecentRing
import Mathlib.Algebra.Field.ZMod
import Mathlib.Data.List.Induction

namespace Pdp11

open RecentRing

/-! The cache holds, in each set, the last two blocks that missed. -/

/-! ## Blocks -/

/-- The 4-byte block of an address. -/
def cacheBlock (pa : PhysAddr) : BitVec 20 := pa.extractLsb' 2 20

/-- Bits 9:2 of the address. -/
def blockSet (b : BitVec 20) : BitVec 8 := b.extractLsb' 0 8

def blockTag (b : BitVec 20) : Word := (b.extractLsb' 8 12).setWidth 16

theorem blockSet_cacheBlock (pa : PhysAddr) : blockSet (cacheBlock pa) = pa.extractLsb' 2 8 := by
  apply BitVec.eq_of_getLsbD_eq
  intro i hi
  simp [blockSet, cacheBlock, hi]
  omega

theorem blockTag_cacheBlock (pa : PhysAddr) :
    blockTag (cacheBlock pa) = (pa.extractLsb' 10 12).setWidth 16 := by
  apply BitVec.eq_of_getLsbD_eq
  intro i hi
  have hbit : 2 + (8 + i) = 10 + i := by omega
  by_cases hlow : i < 12
  · simp [blockTag, cacheBlock, hbit, hlow, show 8 + i < 20 by omega]
  · simp [blockTag, cacheBlock, hlow]

/-- Blocks of one set differ in their tags. -/
theorem blockTag_inj {b b' : BitVec 20} (hset : blockSet b = blockSet b')
    (htag : blockTag b = blockTag b') : b = b' := by
  apply BitVec.eq_of_getLsbD_eq
  intro i hi
  by_cases hlow : i < 8
  · have hbit := congrArg (fun x : BitVec 8 => x.getLsbD i) hset
    simpa [blockSet, hlow] using hbit
  · have hbit := congrArg (fun x : Word => x.getLsbD (i - 8)) htag
    simpa [blockTag, show 8 + (i - 8) = i by omega, show i - 8 < 12 by omega,
      show i - 8 < 16 by omega] using hbit

/-! ## A set as a ring -/

def cacheWay (i : ZMod 2) : BitVec 1 := BitVec.ofNat 1 i.val

theorem cacheWay_eq_iff : ∀ (i : ZMod 2) (w : BitVec 1), cacheWay i = w ↔ i = (w.toNat : ZMod 2) := by
  decide

theorem victim_next : ∀ w : BitVec 1, ((w ^^^ 1).toNat : ZMod 2) = (w.toNat : ZMod 2) + 1 := by
  decide

/-- The tags of a set in its two ways. -/
def setRing (c : Cache) (x : BitVec 8) : SlotRing 2 Word where
  slot i := if c.valid x (cacheWay i) then some (c.tag x (cacheWay i)) else none
  next := ((c.victim x).toNat : ZMod 2)

theorem setRing_slot {c : Cache} {x : BitVec 8} {i : ZMod 2} {tag : Word} :
    (setRing c x).slot i = some tag ↔ c.valid x (cacheWay i) = true ∧ c.tag x (cacheWay i) = tag := by
  show (if c.valid x (cacheWay i) then some (c.tag x (cacheWay i)) else none) = some tag ↔ _
  split <;> simp_all

theorem setRing_congr {c c' : Cache} {x : BitVec 8} (hvalid : c'.valid x = c.valid x)
    (htag : c'.tag x = c.tag x) (hvictim : c'.victim x = c.victim x) :
    setRing c' x = setRing c x := by
  simp only [setRing, hvalid, htag, hvictim]

section
variable {c : Cache} {pa : PhysAddr} {x : BitVec 8}

theorem contains_iff {tag : Word} : (setRing c x).Contains tag ↔
    (c.valid x 0 = true ∧ c.tag x 0 = tag) ∨ (c.valid x 1 = true ∧ c.tag x 1 = tag) := by
  refine Iff.trans ?_ (Fin.exists_fin_two (p := fun i =>
    c.valid x (cacheWay i) = true ∧ c.tag x (cacheWay i) = tag))
  exact exists_congr fun i => setRing_slot

/-- The two ways that a read looks at. -/
theorem cacheRead_hit_iff : (cacheRead c pa).1 = true ↔
    (setRing c (blockSet (cacheBlock pa))).Contains (blockTag (cacheBlock pa)) := by
  rw [contains_iff, blockSet_cacheBlock, blockTag_cacheBlock]
  unfold cacheRead
  dsimp only
  split
  · exact iff_of_true rfl ‹_›
  · exact iff_of_false Bool.false_ne_true ‹_›

theorem cacheRead_of_hit (h : (cacheRead c pa).1 = true) : (cacheRead c pa).2 = c := by
  unfold cacheRead at h ⊢
  dsimp only at h ⊢
  split at h
  · rw [if_pos ‹_›]
  · cases h

/-- A miss changes its own set, by writing the slot that is next. -/
theorem cacheRead_of_miss (h : (cacheRead c pa).1 = false) :
    setRing (cacheRead c pa).2 (blockSet (cacheBlock pa)) =
        (setRing c (blockSet (cacheBlock pa))).push (blockTag (cacheBlock pa)) ∧
      (∀ x ≠ blockSet (cacheBlock pa), setRing (cacheRead c pa).2 x = setRing c x) ∧
      (cacheRead c pa).2.misses = c.misses + 1 := by
  let set : BitVec 8 := pa.extractLsb' 2 8
  let tag : Word := (pa.extractLsb' 10 12).setWidth 16
  have hread : (cacheRead c pa).2 =
      { tag := Function.update c.tag set (Function.update (c.tag set) (c.victim set) tag)
        valid := Function.update c.valid set (Function.update (c.valid set) (c.victim set) true)
        victim := Function.update c.victim set (c.victim set ^^^ 1)
        misses := c.misses + 1 } := by
    unfold cacheRead at h ⊢
    dsimp only at h ⊢
    split at h
    · cases h
    · rw [if_neg ‹_›]
  rw [blockSet_cacheBlock, blockTag_cacheBlock, hread]
  refine ⟨?_, fun x hx => ?_, rfl⟩
  · apply SlotRing.ext
    · funext i
      show (if Function.update c.valid set _ set (cacheWay i) then
          some (Function.update c.tag set _ set (cacheWay i)) else none) =
        Function.update (setRing c set).slot (setRing c set).next (some tag) i
      rw [Function.update_self, Function.update_self]
      -- the victim way takes the block, and the other stays
      by_cases hi : cacheWay i = c.victim set
      · have hnext : i = (setRing c set).next := (cacheWay_eq_iff _ _).1 hi
        rw [hi, Function.update_self, Function.update_self, hnext, Function.update_self]
        rfl
      · have hnext : i ≠ (setRing c set).next := fun h => hi ((cacheWay_eq_iff _ _).2 h)
        rw [Function.update_of_ne hi, Function.update_of_ne hi, Function.update_of_ne hnext]
        rfl
    · show ((Function.update c.victim set _ set).toNat : ZMod 2) = _
      rw [Function.update_self, victim_next]
      rfl
  · exact setRing_congr (Function.update_of_ne hx _ _) (Function.update_of_ne hx _ _)
      (Function.update_of_ne hx _ _)

end

/-! ## Runs -/

/-- A call, and the block it read when it returned false. -/
def cacheCall (ch : Cache × List (BitVec 20)) (pa : PhysAddr) : Cache × List (BitVec 20) :=
  let r := cacheRead ch.1 pa
  (r.2, if r.1 then ch.2 else cacheBlock pa :: ch.2)

/-- The cache after a sequence of calls from reset, and the blocks that missed, newest first. -/
def cacheCalls (pas : List PhysAddr) : Cache × List (BitVec 20) :=
  pas.foldl cacheCall (cacheReset, [])

/-- The blocks of a set that missed, newest first. -/
def missedIn (h : List (BitVec 20)) (x : BitVec 8) : List (BitVec 20) :=
  h.filter fun b => blockSet b = x

theorem cacheCalls_snoc (pas : List PhysAddr) (pa : PhysAddr) :
    cacheCalls (pas ++ [pa]) = cacheCall (cacheCalls pas) pa :=
  List.foldl_concat cacheCall (cacheReset, []) pa pas

/-- Each set holds its last two misses, in different tags, and every miss is counted. -/
structure CacheHolds (c : Cache) (h : List (BitVec 20)) : Prop where
  holds : ∀ x, (setRing c x).Holds ((missedIn h x).map blockTag)
  distinct : ∀ x, (setRing c x).Distinct
  misses : c.misses = BitVec.ofNat 64 h.length

theorem cacheHolds_reset : CacheHolds cacheReset [] :=
  ⟨fun _ => SlotRing.holds_empty, fun _ => SlotRing.distinct_empty, rfl⟩

theorem CacheHolds.call {c : Cache} {h : List (BitVec 20)} (hc : CacheHolds c h) (pa : PhysAddr) :
    CacheHolds (cacheCall (c, h) pa).1 (cacheCall (c, h) pa).2 := by
  unfold cacheCall
  dsimp only
  cases hhit : (cacheRead c pa).1 with
  | true =>
    rw [cacheRead_of_hit hhit]
    exact hc
  | false =>
    obtain ⟨hset, hother, hmisses⟩ := cacheRead_of_miss hhit
    have habsent : ¬(setRing c (blockSet (cacheBlock pa))).Contains (blockTag (cacheBlock pa)) := by
      rw [← cacheRead_hit_iff, hhit]
      exact Bool.false_ne_true
    refine ⟨fun x => ?_, fun x => ?_, ?_⟩
    · by_cases hx : x = blockSet (cacheBlock pa)
      · have hmissed : missedIn (cacheBlock pa :: h) x = cacheBlock pa :: missedIn h x :=
          List.filter_cons_of_pos (decide_eq_true hx.symm)
        rw [if_neg Bool.false_ne_true, hmissed, hx, hset]
        exact (hc.holds _).push _
      · have hmissed : missedIn (cacheBlock pa :: h) x = missedIn h x :=
          List.filter_cons_of_neg (by simp [Ne.symm hx])
        rw [if_neg Bool.false_ne_true, hmissed, hother x hx]
        exact hc.holds x
    · by_cases hx : x = blockSet (cacheBlock pa)
      · rw [hx, hset]
        exact (hc.distinct _).push habsent
      · rw [hother x hx]
        exact hc.distinct x
    · rw [if_neg Bool.false_ne_true, hmisses, hc.misses, List.length_cons, BitVec.ofNat_add]
      rfl

theorem cacheHolds_calls (pas : List PhysAddr) :
    CacheHolds (cacheCalls pas).1 (cacheCalls pas).2 := by
  induction pas using List.reverseRecOn with
  | nil => exact cacheHolds_reset
  | append_singleton pas pa ih =>
    rw [cacheCalls_snoc]
    exact ih.call pa

/-- A set depends on the calls that refer to it. -/
theorem setRing_calls_filter (pas : List PhysAddr) (x : BitVec 8) :
    setRing (cacheCalls (pas.filter fun pa => blockSet (cacheBlock pa) = x)).1 x =
      setRing (cacheCalls pas).1 x := by
  induction pas using List.reverseRecOn with
  | nil => rfl
  | append_singleton pas pa ih =>
    rw [List.filter_append, cacheCalls_snoc]
    generalize (pas.filter fun pa => blockSet (cacheBlock pa) = x) = pas' at ih ⊢
    by_cases hx : blockSet (cacheBlock pa) = x
    · have hone : [pa].filter (fun pa => blockSet (cacheBlock pa) = x) = [pa] :=
        List.filter_cons_of_pos (decide_eq_true hx)
      rw [hone, cacheCalls_snoc]
      show setRing (cacheRead (cacheCalls pas').1 pa).2 x =
        setRing (cacheRead (cacheCalls pas).1 pa).2 x
      have hsame : (cacheRead (cacheCalls pas').1 pa).1 = (cacheRead (cacheCalls pas).1 pa).1 := by
        rw [Bool.eq_iff_iff, cacheRead_hit_iff, cacheRead_hit_iff, hx, ih]
      cases hhit : (cacheRead (cacheCalls pas).1 pa).1 with
      | true =>
        rw [cacheRead_of_hit hhit, cacheRead_of_hit (hsame.trans hhit), ih]
      | false =>
        rw [← hx, (cacheRead_of_miss hhit).1, (cacheRead_of_miss (hsame.trans hhit)).1, hx, ih]
    · have hnone : [pa].filter (fun pa => blockSet (cacheBlock pa) = x) = [] :=
        List.filter_cons_of_neg (by simp [hx])
      rw [hnone, List.append_nil, ih]
      show _ = setRing (cacheRead (cacheCalls pas).1 pa).2 x
      cases hhit : (cacheRead (cacheCalls pas).1 pa).1 with
      | true => rw [cacheRead_of_hit hhit]
      | false => rw [(cacheRead_of_miss hhit).2.1 x (Ne.symm hx)]

/-- After any sequence of calls from reset a call hits exactly when its block is one of the last two
that missed in its set; calls in other sets do not matter; no set holds a block in both its ways;
and the counter, of 64 bits, is the number of calls that returned false. -/
theorem cache_is_fifo (pas : List PhysAddr) :
    (∀ pa, (cacheRead (cacheCalls pas).1 pa).1 = true ↔
      cacheBlock pa ∈ (missedIn (cacheCalls pas).2 (blockSet (cacheBlock pa))).take 2) ∧
    (∀ pa, (cacheRead (cacheCalls pas).1 pa).1 =
      (cacheRead (cacheCalls (pas.filter fun q =>
        blockSet (cacheBlock q) = blockSet (cacheBlock pa))).1 pa).1) ∧
    (∀ x, ¬((cacheCalls pas).1.valid x 0 = true ∧ (cacheCalls pas).1.valid x 1 = true ∧
      (cacheCalls pas).1.tag x 0 = (cacheCalls pas).1.tag x 1)) ∧
    (cacheCalls pas).1.misses = BitVec.ofNat 64 (cacheCalls pas).2.length := by
  have h := cacheHolds_calls pas
  refine ⟨fun pa => ?_, fun pa => ?_, fun x => ?_, h.misses⟩
  · rw [cacheRead_hit_iff, (h.holds _).contains_iff, ← List.map_take]
    constructor
    · intro hmem
      obtain ⟨b, hb, htag⟩ := List.mem_map.1 hmem
      have hset := (List.mem_filter.1 (List.mem_of_mem_take hb)).2
      obtain rfl := blockTag_inj (decide_eq_true_iff.1 hset) htag
      exact hb
    · exact List.mem_map_of_mem
  · rw [Bool.eq_iff_iff, cacheRead_hit_iff, cacheRead_hit_iff, setRing_calls_filter]
  · rintro ⟨h0, h1, htags⟩
    exact absurd (h.distinct x 0 1 _ (setRing_slot.2 ⟨h0, htags⟩) (setRing_slot.2 ⟨h1, rfl⟩))
      (by decide)

end Pdp11
