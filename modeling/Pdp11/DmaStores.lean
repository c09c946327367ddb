import Pdp11.Confinement

namespace Pdp11

open FaultState

/-! The memory addresses each controller stores at. -/

/-! ## Addresses -/

/-- The bus routes addresses alike. -/
structure SameRoute (s t : Cpu) : Prop where
  cfg : t.cfg = s.cfg
  mmr3 : t.mmu.mmr3 = s.mmu.mmr3
  ubMap : t.dev.ubMap = s.dev.ubMap

theorem SameRoute.refl (s : Cpu) : SameRoute s s := ⟨rfl, rfl, rfl⟩

theorem SameRoute.trans {s t u : Cpu} (h : SameRoute s t) (h' : SameRoute t u) : SameRoute s u :=
  ⟨h'.cfg.trans h.cfg, h'.mmr3.trans h.mmr3, h'.ubMap.trans h.ubMap⟩

theorem SameRoute.ite {s t u : Cpu} {c : Prop} [Decidable c] (ht : SameRoute s t)
    (hu : SameRoute s u) : SameRoute s (if c then t else u) := by
  split
  · exact ht
  · exact hu

theorem SameRoute.unibusMap {s t : Cpu} (h : SameRoute s t) (uba : BitVec 32) :
    Pdp11.unibusMap t uba = Pdp11.unibusMap s uba := by
  unfold Pdp11.unibusMap
  rw [h.cfg, h.mmr3, h.ubMap]

/-- The addresses of a transfer of `wc` words from bus address `ma`. -/
def dmaWords (s : Cpu) (ma wc : BitVec 32) : List PhysAddr :=
  (List.range (loopCount wc)).map fun i => unibusMap s (ma + BitVec.ofNat 32 (i * 2))

theorem SameRoute.dmaWords {s t : Cpu} (h : SameRoute s t) (ma wc : BitVec 32) :
    Pdp11.dmaWords t ma wc = Pdp11.dmaWords s ma wc := by
  unfold Pdp11.dmaWords
  simp only [h.unibusMap]

theorem mem_dmaWords {s : Cpu} {ma wc : BitVec 32} {k : ℕ} (hk : k ∈ List.range (loopCount wc)) :
    unibusMap s (ma + BitVec.ofNat 32 (k * 2)) ∈ dmaWords s ma wc :=
  List.mem_map_of_mem (f := fun i => unibusMap s (ma + BitVec.ofNat 32 (i * 2))) hk

/-- The addresses a READ of the RK11 stores at, from the registers as they stand. -/
def rkWords (s : Cpu) : List PhysAddr :=
  let rk := s.dev.rk
  let ma := ((rk.rkcs &&& rkcsMex).setWidth 32 <<< 12) ||| rk.rkba.setWidth 32
  let da := (rkGetTrack rk.rkda * rkNumsc + rkGetSect rk.rkda) * rkNumwd
  let wc := wordCount rk.rkwc
  dmaWords s ma (if rk.diskWords < da + wc then rk.diskWords - da else wc)

/-- The RK11 with the function of a write to RKCS, before it starts. -/
def rkCommand (s : Cpu) (value : Word) : Cpu :=
  { s with dev.rk.rkcs := (s.dev.rk.rkcs &&& rkcsReal &&& ~~~rkcsRw) ||| (value &&& rkcsRw) }

/-- A write of `value` to RKCS starts a command. -/
def rkStarts (s : Cpu) (value : Word) : Prop :=
  (rkCommand s value).dev.rk.rkcs &&& rkcsDone ≠ 0 ∧ value &&& rkcsGo ≠ 0

/-- The command is a READ that passes the checks of the controller. -/
def rkReads (rk : Rk11) : Prop :=
  (rk.rkcs &&& rkcsFunc) >>> 1 = rkFuncRead ∧ rk.disk.isSome ∧ rk.rkda &&& rkdaDrive = 0 ∧
    rkGetSect rk.rkda < rkNumsc ∧ rkGetCyl rk.rkda < rkNumcy

/-- The addresses a READ of the RL11 stores at, from the registers as they stand. -/
def rlWords (s : Cpu) : List PhysAddr :=
  let rl := s.dev.rl
  let ma := ((rl.rlcs &&& rlcsMex).setWidth 32 <<< 12) ||| rl.rlba.setWidth 32
  let da := (rlGetTrack rl.rlda * rlNumsc + rlGetSect rl.rlda) * rlNumwd
  let wc := wordCount rl.rlmp
  let maxwc := (rlNumsc - rlGetSect rl.rlda) * rlNumwd
  let wc := if maxwc < wc then maxwc else wc
  dmaWords s ma (if rl.diskWords < da + wc then
      (if da < rl.diskWords then rl.diskWords - da else 0)
    else wc)

/-- The RL11 with the function of a write to RLCS, before it starts. -/
def rlCommand (s : Cpu) (value : Word) : Cpu :=
  { s with dev.rl.rlcs := (s.dev.rl.rlcs &&& ~~~rlcsRw) ||| (value &&& rlcsRw) }

/-- The command is a READ, with or without the header check, of an attached disk. -/
def rlReads (rl : Rl11) : Prop :=
  rl.disk.isSome ∧ ((rl.rlcs &&& rlcsFunc) >>> 1 = rlFuncRead ∨
    (rl.rlcs &&& rlcsFunc) >>> 1 = rlFuncRnohdr)

/-- The running memory address of the RP04 at the `i`-th word from `ma`. -/
def rpAddress (rp : Rp11) (ma : BitVec 32) (i : ℕ) : BitVec 32 :=
  if rp.cs2 &&& cs2Uai = 0 then ma + BitVec.ofNat 32 (i * 2) else ma

/-- The addresses a READ of the RP04 stores at, from the registers as they stand. -/
def rpWords (s : Cpu) : List PhysAddr :=
  let rp := s.dev.rp
  let ma := ((rp.bae.setWidth 32 &&& 0o77) <<< 16) ||| rp.ba.setWidth 32
  let da := ((rpGetCy rp.dc * rpSurf + rpGetSf rp.da) * rpSect + rpGetSc rp.da) * rpNumwd
  let wc := wordCount rp.wc
  let wc := if rp.diskWords ≤ da then 0
    else if rp.diskWords < da + wc then rp.diskWords - da
    else wc
  (List.range (loopCount wc)).map fun i => rpAddress rp ma i &&& 0o3777777

/-- The RP04 with the function of a write to CS1, before it starts. -/
def rpCommand (s : Cpu) (value : Word) : Cpu :=
  { s with
    dev.rp.cs1 := (s.dev.rp.cs1 &&& ~~~(cs1Rw ||| cs1Ie)) ||| (value &&& (cs1Rw ||| cs1Ie)) }

/-- A write of `value` to CS1 starts a command. -/
def rpStarts (s : Cpu) (value : Word) : Prop :=
  (rpCommand s value).dev.rp.cs1 &&& cs1Done ≠ 0 ∧ value &&& cs1Go ≠ 0

/-- A register write stores at `pa` by DMA: it starts a READ that comes to this address. -/
inductive DmaStore (s : Cpu) (a value : Word) (pa : PhysAddr) : Prop
  | rk (ha : a = 0o177404) (hgo : rkStarts s value) (hread : rkReads (rkCommand s value).dev.rk)
      (hpa : pa ∈ rkWords (rkCommand s value))
  | rl (ha : a = 0o174400) (hgo : value &&& rlcsDone = 0)
      (hread : rlReads (rlCommand s value).dev.rl) (hpa : pa ∈ rlWords (rlCommand s value))
  | rp (ha : rpRegSel a = some (.rh 0)) (hgo : rpStarts s value)
      (hread : rpGetFnc (rpCommand s value).dev.rp.cs1 = rpFncRead)
      (hpa : pa ∈ rpWords (rpCommand s value))

/-- A read of the tape is due, and finds a record. -/
def tapeReads (tm : Tm11) (now : Time) : Prop :=
  tm.busy = true ∧ tm.doneNs ≤ now ∧ tmGetFnc tm.cmd = tmFncRead ∧ tapLenAt tm tm.pos ≠ 0 ∧
    tapLenAt tm tm.pos ≠ 0xFFFFFFFF

/-- The word addresses a READ of the tape stores in. -/
def tapeWords (s : Cpu) : List PhysAddr :=
  let tm := s.dev.tm
  let xma := tmGetEma tm.cmd ||| tm.ca.setWidth 32
  let cbc : BitVec 32 := (0o200000 - tm.bc.setWidth 32) &&& 0o177777
  let rl := tapLenAt tm tm.pos
  (List.range (if rl < cbc then rl else cbc).toNat).map fun i =>
    unibusMap s ((xma + BitVec.ofNat 32 i) &&& 0o777777) &&& ~~~1

/-- The completion of a tape operation that is due stores in the word at `pa`. -/
def TapeStore (s : Cpu) (pa : PhysAddr) : Prop :=
  tapeReads s.dev.tm s.acct.timeNs ∧ pa ∈ tapeWords s

/-! ## Transfers -/

/-- The bus routes addresses alike, and a word of memory is kept. -/
structure WordKept (i : BitVec 21) (s t : Cpu) : Prop extends SameRoute s t where
  word : t.mem i = s.mem i

namespace WordKept

variable {i : BitVec 21} {s t u : Cpu}

theorem of_mem (h : SameRoute s t) (hmem : t.mem = s.mem) : WordKept i s t :=
  ⟨h, congrFun hmem i⟩

theorem refl (s : Cpu) : WordKept i s s := .of_mem (.refl s) rfl

theorem trans (h : WordKept i s t) (h' : WordKept i t u) : WordKept i s u :=
  ⟨h.toSameRoute.trans h'.toSameRoute, h'.word.trans h.word⟩

/-- A store at another word. -/
theorem store (h : WordKept i s t) {pa : PhysAddr} (hpa : memIndex pa ≠ i) (value : Word) :
    WordKept i s { t with mem := memWriteWord t.mem pa value } :=
  ⟨⟨h.cfg, h.mmr3, h.ubMap⟩, (Function.update_of_ne hpa.symm _ _).trans h.word⟩

end WordKept

section
variable {i : BitVec 21}

theorem rkTransferWord_kept {func : Word} {ma da : BitVec 32} {s : Cpu} {k : ℕ}
    (h : func = rkFuncRead → memIndex (unibusMap s (ma + BitVec.ofNat 32 (k * 2))) ≠ i) :
    WordKept i s (rkTransferWord func ma da s k) := by
  unfold rkTransferWord
  dsimp only
  split
  · exact (WordKept.refl s).store (h ‹_›) _
  split
  · exact .of_mem ⟨rfl, rfl, rfl⟩ rfl
  split
  · unfold rkSetError
    dsimp only
    split <;> exact .of_mem ⟨rfl, rfl, rfl⟩ rfl
  · exact .refl s

theorem rkAdvance_mem (ma da wc : BitVec 32) (s : Cpu) : (rkAdvance ma da wc s).mem = s.mem := rfl

theorem rkTransfer_word {func : Word} {s : Cpu}
    (h : func = rkFuncRead → ∀ pa ∈ rkWords s, memIndex pa ≠ i) :
    (rkTransfer s func).mem i = s.mem i := by
  unfold rkTransfer
  extract_lets ma da wc overrun wc' s'
  have hs' : WordKept i s s' := by
    show WordKept i s (if overrun then rkSetError s rkerOvr else s)
    unfold rkSetError
    dsimp only
    split_ifs <;> exact .of_mem ⟨rfl, rfl, rfl⟩ rfl
  have hfold : WordKept i s ((List.range (loopCount wc')).foldl (rkTransferWord func ma da) s') := by
    refine List.foldlRecOn _ _ hs' fun t ht k hk => ht.trans (rkTransferWord_kept fun hf => ?_)
    rw [ht.unibusMap]
    exact h hf _ (mem_dmaWords hk)
  rw [rkAdvance_mem]
  exact hfold.word

/-- The command and status bits of RKCS do not matter to the addresses. -/
theorem rkWords_congr {s t : Cpu} (h : SameRoute s t)
    (hrk : t.dev.rk = { s.dev.rk with rkcs := t.dev.rk.rkcs })
    (hcs : t.dev.rk.rkcs &&& rkcsMex = s.dev.rk.rkcs &&& rkcsMex) : rkWords t = rkWords s := by
  unfold rkWords
  dsimp only
  rw [hcs, hrk]
  dsimp only
  rw [h.dmaWords]

theorem rkSetError_mem (s : Cpu) (err : Word) : (rkSetError s err).mem = s.mem := by
  unfold rkSetError
  dsimp only
  split <;> rfl

theorem rkFinish_mem (s : Cpu) : (rkFinish s).mem = s.mem := by
  unfold rkFinish
  dsimp only
  split <;> rfl

theorem rkGo_word {s : Cpu} (h : rkReads s.dev.rk → ∀ pa ∈ rkWords s, memIndex pa ≠ i) :
    (rkGo s).mem i = s.mem i := by
  unfold rkGo
  extract_lets func _ _ s0 s1 sect cyl func' wc s2
  have hmem : s1.mem = s.mem := rfl
  have hcs : s0.dev.rk.rkcs &&& rkcsMex = s.dev.rk.rkcs &&& rkcsMex :=
    (BitMask.and_not_and_eq _ (by decide)).trans (BitMask.and_not_and_eq _ (by decide))
  have hwords : rkWords s1 = rkWords s := rkWords_congr ⟨rfl, rfl, rfl⟩ rfl hcs
  split
  · rfl
  split
  · rw [rkFinish_mem, rkSetError_mem, hmem]
  rename_i hdrive
  split
  · rw [rkFinish_mem, hmem]
  split
  · rw [rkFinish_mem, rkSetError_mem, hmem]
  rename_i hsect
  split
  · rw [rkFinish_mem, rkSetError_mem, hmem]
  rename_i hcyl
  show s2.mem i = s.mem i
  have hs2 : s2 = if func' = rkFuncRead ∨ func' = rkFuncWrite ∨ func' = rkFuncWchk then
      rkTransfer s1 func' else s1 := rfl
  rw [hs2]
  split
  · rw [← hmem]
    refine rkTransfer_word fun hf => ?_
    -- a drive reset goes on as a seek, never as a transfer
    have hreset : func ≠ rkFuncDreset := by
      intro hr
      have hseek : func' = rkFuncSeek := if_pos hr
      exact absurd (hseek.symm.trans hf) (by decide)
    have hread : func = rkFuncRead := (if_neg hreset).symm.trans hf
    have hsect' : ¬rkNumsc ≤ rkGetSect s.dev.rk.rkda := by
      have heq : sect = rkGetSect s.dev.rk.rkda := if_neg hreset
      rwa [← heq]
    have hcyl' : ¬rkNumcy ≤ rkGetCyl s.dev.rk.rkda := by
      have heq : cyl = rkGetCyl s.dev.rk.rkda := if_neg hreset
      rwa [← heq]
    obtain ⟨hdisk, hda⟩ := not_or.1 hdrive
    rw [hwords]
    refine h ⟨hread, ?_, not_not.1 hda, BitVec.not_le.1 hsect', BitVec.not_le.1 hcyl'⟩
    exact Option.isSome_iff_ne_none.2 (mt Option.isNone_iff_eq_none.2 hdisk)
  · rw [hmem]

theorem rkWrite_word {s : Cpu} {a value : Word}
    (h : ∀ pa, DmaStore s a value pa → memIndex pa ≠ i) :
    (rkWrite s a value).mem i = s.mem i := by
  unfold rkWrite
  by_cases ha : a = 0o177404
  · rw [if_pos ha]
    dsimp only
    obtain ⟨v, hv⟩ := request_ite { s with dev.rk.rkcs := s.dev.rk.rkcs &&& rkcsReal } .rk
      (value &&& rkcsIe = 0)
      ((s.dev.rk.rkcs &&& rkcsReal) &&& (rkcsDone ||| rkcsIe) = rkcsDone)
    dsimp only at hv
    rw [hv]
    have hwords : rkWords { rkCommand s value with dev.intReq := v } =
        rkWords (rkCommand s value) := rkWords_congr ⟨rfl, rfl, rfl⟩ rfl rfl
    split
    · rename_i hgo
      refine rkGo_word (s := { rkCommand s value with dev.intReq := v }) fun hread pa hpa => ?_
      rw [hwords] at hpa
      exact h pa (.rk ha hgo hread hpa)
    · rfl
  · rw [if_neg ha]
    split
    · rfl
    split
    · rfl
    split
    · split <;> rfl
    · rfl

/-! ## RL11 -/

theorem rlTransferWord_kept {func : Word} {ma da : BitVec 32} {ss : Cpu × Word} {k : ℕ}
    (h : func = rlFuncRead ∨ func = rlFuncRnohdr →
      memIndex (unibusMap ss.1 (ma + BitVec.ofNat 32 (k * 2))) ≠ i) :
    WordKept i ss.1 (rlTransferWord func ma da ss k).1 := by
  unfold rlTransferWord
  dsimp only
  split
  · exact (WordKept.refl ss.1).store (h ‹_›) _
  split
  · exact .of_mem ⟨rfl, rfl, rfl⟩ rfl
  split
  · exact .refl ss.1
  · exact .refl ss.1

theorem rlAdvance_mem (rl : Rl11) (ma wc : BitVec 32) (ss : Cpu × Word) :
    (rlAdvance rl ma wc ss).2.mem = ss.1.mem := rfl

theorem rlTransfer_word {func : Word} {s : Cpu}
    (h : func = rlFuncRead ∨ func = rlFuncRnohdr → ∀ pa ∈ rlWords s, memIndex pa ≠ i) :
    (rlTransfer s func).2.mem i = s.mem i := by
  unfold rlTransfer
  extract_lets rl ma da wc maxwc wc1 off wc2 status
  have hfold : WordKept i s
      ((List.range (loopCount wc2)).foldl (rlTransferWord func ma da) (s, status)).1 := by
    refine List.foldlRecOn (motive := fun ss : Cpu × Word => WordKept i s ss.1) _ _ (.refl s)
      fun ss ht k hk => ht.trans (rlTransferWord_kept fun hf => ?_)
    rw [ht.unibusMap]
    exact h hf _ (mem_dmaWords hk)
  rw [rlAdvance_mem]
  exact hfold.word

/-- The command and status bits of RLCS do not matter to the addresses. -/
theorem rlWords_congr {s t : Cpu} (h : SameRoute s t)
    (hrl : t.dev.rl = { s.dev.rl with rlcs := t.dev.rl.rlcs, rlbae := t.dev.rl.rlbae })
    (hcs : t.dev.rl.rlcs &&& rlcsMex = s.dev.rl.rlcs &&& rlcsMex) : rlWords t = rlWords s := by
  unfold rlWords
  dsimp only
  rw [hcs, hrl]
  dsimp only
  rw [h.dmaWords]

theorem rlFinish_mem (s : Cpu) (status : Word) : (rlFinish s status).mem = s.mem := by
  unfold rlFinish
  dsimp only
  split_ifs <;> rfl

theorem rlStart_mem (out : Word × Cpu) : (rlStart out).mem = out.2.mem := rfl

theorem rlGo_word {s : Cpu} (h : rlReads s.dev.rl → ∀ pa ∈ rlWords s, memIndex pa ≠ i) :
    (rlGo s).mem i = s.mem i := by
  unfold rlGo
  extract_lets func _ _ s0 s1
  have hmem : s1.mem = s.mem := rfl
  have hcs : s0.dev.rl.rlcs &&& rlcsMex = s.dev.rl.rlcs &&& rlcsMex :=
    BitMask.and_not_and_eq _ (by decide)
  have hwords : rlWords s1 = rlWords s := rlWords_congr ⟨rfl, rfl, rfl⟩ rfl hcs
  split
  · rw [rlFinish_mem, hmem]
  rename_i hdisk
  split
  · rw [rlFinish_mem, hmem]
  split
  · split <;> rw [rlFinish_mem] <;> rfl
  split
  · rfl
  split
  · rfl
  rw [rlStart_mem, ← hmem]
  refine rlTransfer_word fun hread => ?_
  rw [hwords]
  exact h ⟨Option.isSome_iff_ne_none.2 (mt Option.isNone_iff_eq_none.2 hdisk), hread⟩

theorem rlWriteRlcs_word {s : Cpu} {value : Word}
    (h : value &&& rlcsDone = 0 → rlReads (rlCommand s value).dev.rl →
      ∀ pa ∈ rlWords (rlCommand s value), memIndex pa ≠ i) :
    (rlWriteRlcs s value).mem i = s.mem i := by
  unfold rlWriteRlcs
  extract_lets rlcs _ _ s0 s1
  split
  · split_ifs <;> rfl
  rename_i hgo
  let t : Cpu := { s1 with dev.rl.rlcs := s1.dev.rl.rlcs &&& ~~~rlcsAllerr }
  have hmask {m : Word} (hm : rlcsAllerr &&& m = 0) :
      t.dev.rl.rlcs &&& m = (rlCommand s value).dev.rl.rlcs &&& m := BitMask.and_not_and_eq _ hm
  have hwords : rlWords t = rlWords (rlCommand s value) :=
    rlWords_congr ⟨rfl, rfl, rfl⟩ rfl (hmask (by decide))
  show (rlGo t).mem i = t.mem i
  refine rlGo_word fun ⟨hdisk, hfunc⟩ pa hpa => ?_
  rw [hmask (by decide)] at hfunc
  rw [hwords] at hpa
  exact h (not_not.1 hgo) ⟨hdisk, hfunc⟩ pa hpa

theorem rlWrite_word {s : Cpu} {a value : Word}
    (h : ∀ pa, DmaStore s a value pa → memIndex pa ≠ i) :
    (rlWrite s a value).mem i = s.mem i := by
  unfold rlWrite
  split
  · rename_i ha
    exact rlWriteRlcs_word fun hgo hread pa hpa => h pa (.rl ha hgo hread hpa)
  · split_ifs <;> rfl

/-! ## RH70 and RP04 -/

theorem rpTransferWord_word {func : Word} (da : BitVec 32) {sm : Cpu × BitVec 32} (k : ℕ)
    (h : func = rpFncRead → memIndex (sm.2 &&& 0o3777777) ≠ i) :
    let out := rpTransferWord func da sm k
    out.1.dev.rp.cs2 = sm.1.dev.rp.cs2 ∧ out.1.mem i = sm.1.mem i ∧
      out.2 = if sm.1.dev.rp.cs2 &&& cs2Uai = 0 then sm.2 + 2 else sm.2 := by
  unfold rpTransferWord
  dsimp only
  split
  · exact ⟨rfl, Function.update_of_ne (h ‹_›).symm _ _, rfl⟩
  split
  · exact ⟨rfl, rfl, rfl⟩
  · exact ⟨rfl, rfl, rfl⟩

theorem rpAddress_succ (rp : Rp11) (ma : BitVec 32) (n : ℕ) :
    rpAddress rp ma (n + 1) =
      if rp.cs2 &&& cs2Uai = 0 then rpAddress rp ma n + 2 else rpAddress rp ma n := by
  unfold rpAddress
  split
  · rw [BitVec.add_assoc, Nat.succ_mul, BitVec.ofNat_add]
    rfl
  · rfl

/-- After `n` words of a transfer the running address is that of the next word. -/
theorem rpTransferWords_word (func : Word) (s : Cpu) (ma da : BitVec 32) (n : ℕ)
    (h : func = rpFncRead → ∀ k < n, memIndex (rpAddress s.dev.rp ma k &&& 0o3777777) ≠ i) :
    let out := (List.range n).foldl (rpTransferWord func da) (s, ma)
    out.1.dev.rp.cs2 = s.dev.rp.cs2 ∧ out.1.mem i = s.mem i ∧
      out.2 = rpAddress s.dev.rp ma n := by
  induction n with
  | zero =>
    refine ⟨rfl, rfl, ?_⟩
    unfold rpAddress
    split
    · exact (BitVec.add_zero ma).symm
    · rfl
  | succ n ih =>
    obtain ⟨hcs, hword, hma⟩ := ih fun hf k hk => h hf k (Nat.lt_succ_of_lt hk)
    rw [List.range_succ, List.foldl_append]
    generalize (List.range n).foldl (rpTransferWord func da) (s, ma) = sm at hcs hword hma
    have hne (hf : func = rpFncRead) : memIndex (sm.2 &&& 0o3777777) ≠ i := by
      rw [hma]
      exact h hf n (Nat.lt_succ_self n)
    obtain ⟨hcs', hword', hma'⟩ := rpTransferWord_word da n hne
    refine ⟨hcs'.trans hcs, hword'.trans hword, hma'.trans ?_⟩
    rw [rpAddress_succ, hcs, hma]

theorem rpTransfer_word {func : Word} {s : Cpu}
    (h : func = rpFncRead → ∀ pa ∈ rpWords s, memIndex pa ≠ i) :
    (rpTransfer s func).mem i = s.mem i := by
  unfold rpTransfer
  extract_lets rp ma da wc wc'
  have hfold := rpTransferWords_word func s ma da (loopCount wc')
    fun hf k hk => h hf _ (List.mem_map_of_mem
      (f := fun i => rpAddress rp ma i &&& 0o3777777) (List.mem_range.2 hk))
  dsimp only at hfold ⊢
  generalize (List.range (loopCount wc')).foldl (rpTransferWord func da) (s, ma) = out at hfold ⊢
  obtain ⟨t, ma'⟩ := out
  exact hfold.2.1

theorem rpFinish_mem (s : Cpu) : (rpFinish s).mem = s.mem := by
  unfold rpFinish
  dsimp only
  split <;> rfl

theorem rpGo_word {s : Cpu}
    (h : rpGetFnc s.dev.rp.cs1 = rpFncRead → ∀ pa ∈ rpWords s, memIndex pa ≠ i) :
    (rpGo s).mem i = s.mem i := by
  unfold rpGo
  extract_lets func _ _ s0 s1 _ _ wc s2
  have hmem : s1.mem = s.mem := rfl
  split
  · exact congrFun (rpFinish_mem _) i
  split
  · exact congrFun (rpFinish_mem _) i
  split
  · rfl
  split
  · show s2.mem i = s.mem i
    have hs2 : s2 = if func ≠ rpFncWchk then rpTransfer s1 func else s1 := rfl
    rw [hs2]
    split
    · rw [← hmem]
      exact rpTransfer_word h
    · rw [hmem]
  · rw [rpFinish_mem, hmem]

theorem rpWriteCs1_word {s : Cpu} {value : Word}
    (h : rpStarts s value → rpGetFnc (rpCommand s value).dev.rp.cs1 = rpFncRead →
      ∀ pa ∈ rpWords (rpCommand s value), memIndex pa ≠ i) :
    (rpWriteCs1 s value).mem i = s.mem i := by
  unfold rpWriteCs1
  dsimp only
  obtain ⟨v, hv⟩ := request_ite s .rp (value &&& cs1Ie = 0)
    (s.dev.rp.cs1 &&& (cs1Done ||| cs1Ie) = cs1Done)
  rw [hv]
  split
  · rename_i hgo
    exact rpGo_word (s := { rpCommand s value with dev.intReq := v }) (h hgo)
  · rfl

theorem rpWriteCs2_mem (s : Cpu) (value : Word) : (rpWriteCs2 s value).mem = s.mem := by
  unfold rpWriteCs2
  dsimp only
  split <;> rfl

theorem rpWrite_word {s : Cpu} {a value : Word}
    (h : ∀ pa, DmaStore s a value pa → memIndex pa ≠ i) :
    (rpWrite s a value).mem i = s.mem i := by
  unfold rpWrite
  split
  · rfl
  split
  · rfl
  split
  · rfl
  · rfl
  · rename_i ha
    exact rpWriteCs1_word fun hgo hread pa hpa => h pa (.rp ha hgo hread hpa)
  · rfl
  · rfl
  · rw [rpWriteCs2_mem]
  · rfl
  · rfl

/-! ## Register accesses -/

theorem tmWrite_mem (s : Cpu) (a value : Word) : (tmWrite s a value).mem = s.mem := by
  unfold tmWrite tmWriteMtc tmGo tmSetDone
  dsimp only
  split_ifs <;> rfl

theorem clkWrite_mem (s : Cpu) (value : Word) : (clkWrite s value).mem = s.mem := by
  unfold clkWrite
  dsimp only
  split_ifs <;> rfl

theorem consoleWrite_mem (s : Cpu) (a value : Word) : (consoleWrite s a value).mem = s.mem := by
  unfold consoleWrite dl11CsrInt
  dsimp only
  split_ifs <;> rfl

theorem rxTransfer_mem (s : Cpu) : (rxTransfer s).mem = s.mem := by
  unfold rxTransfer
  dsimp only
  split_ifs <;> exact rxDone_mem _ _ _

theorem rxStep_mem (s : Cpu) : (rxStep s).mem = s.mem := by
  unfold rxStep
  dsimp only
  split
  · split
    · exact rxDone_mem _ _ _
    · rfl
  · split
    · rfl
    · exact rxDone_mem _ _ _
  · rfl
  · exact rxTransfer_mem _
  · exact rxTransfer_mem _
  · split <;> exact rxDone_mem _ _ _
  · rfl

theorem rxGo_mem (s : Cpu) (value : Word) : (rxGo s value).mem = s.mem := by
  unfold rxGo
  dsimp only
  split
  · rfl
  split
  · exact rxStep_mem _
  split
  · rfl
  · exact rxStep_mem _

theorem rxWrite_mem (s : Cpu) (a value : Word) : (rxWrite s a value).mem = s.mem := by
  unfold rxWrite rxWriteRxcs
  dsimp only
  split
  · split
    · rfl
    split
    · exact rxGo_mem s value
    · split_ifs <;> rfl
  split
  · split
    · exact rxStep_mem _
    · rfl
  · rfl

/-- A register write changes no word but those it stores at by DMA. -/
theorem ioWriteReg_word {s t : Cpu} {a value : Word} (ht : ioWriteReg s a value = some t)
    (h : ∀ pa, DmaStore s a value pa → memIndex pa ≠ i) : t.mem i = s.mem i := by
  cases ioWriteReg_regWrite ht with
  | processor _ hdev hmem => rw [hmem]
  | clk ha => rw [clkWrite_mem]
  | console => rw [consoleWrite_mem]
  | rk => exact rkWrite_word h
  | tm => rw [tmWrite_mem]
  | rl => exact rlWrite_word h
  | rx => rw [rxWrite_mem]
  | rp => exact rpWrite_word h

/-! ## TM11 -/

theorem tmMemWriteByte_kept {s : Cpu} {a : BitVec 32} (b : Byte)
    (h : memIndex (unibusMap s a &&& ~~~1) ≠ i) : WordKept i s (tmMemWriteByte s a b) :=
  (WordKept.refl s).store h _

theorem tmSetDone_mem (s : Cpu) : (tmSetDone s).mem = s.mem := by
  unfold tmSetDone
  dsimp only
  split <;> rfl

/-- The record of a READ; `xma` and `cbc` are the address and the count of the registers. -/
theorem tmExecRead_word {s : Cpu} {xma cbc : BitVec 32}
    (h : tapLenAt s.dev.tm s.dev.tm.pos ≠ 0 → tapLenAt s.dev.tm s.dev.tm.pos ≠ 0xFFFFFFFF →
      ∀ k < (if tapLenAt s.dev.tm s.dev.tm.pos < cbc then tapLenAt s.dev.tm s.dev.tm.pos
        else cbc).toNat,
        memIndex (unibusMap s ((xma + BitVec.ofNat 32 k) &&& 0o777777) &&& ~~~1) ≠ i) :
    (tmExecRead s xma cbc).mem i = s.mem i := by
  unfold tmExecRead
  extract_lets tm rl data n _ _ s' s''
  split
  · rfl
  rename_i hmark
  split
  · rfl
  rename_i hend
  have hs' : WordKept i s s' := by
    show WordKept i s (if cbc < rl then _ else s)
    split
    · exact .of_mem ⟨rfl, rfl, rfl⟩ rfl
    · exact .refl s
  have hfold : WordKept i s s'' := by
    refine List.foldlRecOn _ _ hs' fun t ht k hk => ht.trans (tmMemWriteByte_kept _ ?_)
    rw [ht.unibusMap]
    exact h hmark hend k (List.mem_range.1 hk)
  exact hfold.word

theorem tmExecWrite_mem (s : Cpu) (xma cbc : BitVec 32) : (tmExecWrite s xma cbc).mem = s.mem := by
  unfold tmExecWrite
  extract_lets tm need _ _ s1 s2 _ _ s3 trailer
  split
  · rfl
  have hs2 : s2.mem = s.mem :=
    List.foldlRecOn (motive := fun t : Cpu => t.mem = s.mem) _ _ rfl fun t ht k _ => ht
  have hs3 : s3.mem = s2.mem := by
    show Cpu.mem (if cbc &&& 1 ≠ 0 then _ else s2) = s2.mem
    split <;> rfl
  exact hs3.trans hs2

theorem tmExecute_word {s : Cpu} {func : Word}
    (h : func = tmFncRead → tapLenAt s.dev.tm s.dev.tm.pos ≠ 0 →
      tapLenAt s.dev.tm s.dev.tm.pos ≠ 0xFFFFFFFF → ∀ pa ∈ tapeWords s, memIndex pa ≠ i) :
    (tmExecute s func).mem i = s.mem i := by
  unfold tmExecute
  extract_lets xma cbc
  rw [tmSetDone_mem]
  split
  · rename_i hf
    refine tmExecRead_word fun hmark hend k hk => h hf hmark hend _ ?_
    exact List.mem_map_of_mem (f := fun i =>
      unibusMap s ((xma + BitVec.ofNat 32 i) &&& 0o777777) &&& ~~~1) (List.mem_range.2 hk)
  split
  · rw [tmExecWrite_mem]
  unfold tmExecWreof tmExecSpacef tmExecSpacer
  dsimp only
  split_ifs <;> rfl

theorem tmPoll_word {s : Cpu} (h : ∀ pa, TapeStore s pa → memIndex pa ≠ i) :
    (tmPoll s).mem i = s.mem i := by
  unfold tmPoll
  split
  · rfl
  rename_i hdue
  dsimp only
  split
  · rw [tmSetDone_mem]
  refine tmExecute_word fun hf hmark hend pa hpa => h pa ⟨⟨?_, ?_, hf, hmark, hend⟩, hpa⟩
  · simpa using (not_or.1 hdue).1
  · exact BitVec.not_lt.1 (not_or.1 hdue).2

/-! ## Services -/

theorem serviceClock_route (s : Cpu) : SameRoute s (serviceClock s) := by
  unfold serviceClock clkTick
  dsimp only
  split_ifs <;> exact ⟨rfl, rfl, rfl⟩

theorem consoleTxPoll_route (s : Cpu) : SameRoute s (consoleTxPoll s) := by
  unfold consoleTxPoll
  dsimp only
  split_ifs <;> exact ⟨rfl, rfl, rfl⟩

theorem rkPoll_route (s : Cpu) : SameRoute s (rkPoll s) := by
  unfold rkPoll rkFinish
  dsimp only
  split_ifs <;> exact ⟨rfl, rfl, rfl⟩

theorem rpPoll_route (s : Cpu) : SameRoute s (rpPoll s) := by
  unfold rpPoll rpFinish
  dsimp only
  split_ifs <;> exact ⟨rfl, rfl, rfl⟩

/-- The tape controller finds the same registers, clock and routes. -/
theorem tapeStore_congr {s t : Cpu} (h : SameRoute s t) (htm : t.dev.tm = s.dev.tm)
    (hacct : t.acct = s.acct) {pa : PhysAddr} (hpa : TapeStore t pa) : TapeStore s pa := by
  obtain ⟨hread, hmem⟩ := hpa
  unfold tapeWords at hmem
  simp only [htm, h.unibusMap] at hmem
  rw [htm, hacct] at hread
  exact ⟨hread, hmem⟩

/-- The services change no word but those a tape READ stores in. -/
theorem serviceDueEvents_word {s : Cpu} (h : ∀ pa, TapeStore s pa → memIndex pa ≠ i) :
    (serviceDueEvents s).mem i = s.mem i := by
  have hrl (t : Cpu) : (if t.dev.rl.busy then rlPoll t else t).mem = t.mem :=
    (NoTransfer.ite (rlPoll_noTransfer t) (.refl t)).mem
  unfold serviceDueEvents
  extract_lets t1 t2 t3 t4 t5
  have hn1 : NoTransfer s t1 := serviceClock_noTransfer s
  have hn2 : NoTransfer s t2 := hn1.trans (.ite (consoleTxPoll_noTransfer t1) (.refl t1))
  have hn3 : NoTransfer s t3 := hn2.trans (.ite (rkPoll_noTransfer t2) (.refl t2))
  have hn4 : NoTransfer s t4 := hn3.trans (.ite (rpPoll_noTransfer t3) (.refl t3))
  have hr1 : SameRoute s t1 := serviceClock_route s
  have hr2 : SameRoute s t2 := hr1.trans (.ite (consoleTxPoll_route t1) (.refl t1))
  have hr3 : SameRoute s t3 := hr2.trans (.ite (rkPoll_route t2) (.refl t2))
  have hr4 : SameRoute s t4 := hr3.trans (.ite (rpPoll_route t3) (.refl t3))
  have hacct : t4.acct = s.acct := by
    have h2 : DeviceStep t1 t2 := .ite (consoleTxPoll_step (.refl t1)) (.refl t1)
    have h3 : DeviceStep t1 t3 := .ite (rkPoll_step h2) h2
    have h4 : DeviceStep t1 t4 := .ite (rpPoll_step h3) h3
    rw [h4.acct]
    show (serviceClock s).acct = s.acct
    rw [serviceClock_rest s]
  have h5 : t5.mem i = t4.mem i := by
    show Cpu.mem (if t4.dev.tm.busy then tmPoll t4 else t4) i = t4.mem i
    split
    · exact tmPoll_word fun pa hpa => h pa (tapeStore_congr hr4 hn4.tape hacct hpa)
    · rfl
  rw [hrl t5, h5, hn4.mem]

end

end Pdp11
