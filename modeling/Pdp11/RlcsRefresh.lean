import Pdp11.DiskReadiness

namespace Pdp11

/-! RLCS, which a read refreshes: what a store made after the read keeps of the refresh. -/

/-- RLCS as a read returns and leaves it. -/
def rlcsRead (rl : Rl11) : Word :=
  let rlcs := if rl.disk.isSome ∧ !rl.busy then rl.rlcs ||| rlcsDrdy else rl.rlcs &&& ~~~rlcsDrdy
  if rlcs &&& (rlcsDre ||| rlcsNxm ||| rlcsDlt ||| rlcsCrc ||| rlcsIncmp) ≠ 0 then
    rlcs ||| rlcsErr
  else rlcs

theorem rlRead_rlcs (s : Cpu) :
    rlRead s 0o174400 = (rlcsRead s.dev.rl, { s with dev.rl.rlcs := rlcsRead s.dev.rl }) := rfl

/-- A refresh touches the ready bit of the drive and the error summary. -/
theorem rlcsRead_rest (rl : Rl11) :
    rlcsRead rl &&& ~~~(rlcsDrdy ||| rlcsErr) = rl.rlcs &&& ~~~(rlcsDrdy ||| rlcsErr) := by
  have hdrdy (c : Prop) [Decidable c] :
      (if c then rl.rlcs ||| rlcsDrdy else rl.rlcs &&& ~~~rlcsDrdy) &&& ~~~(rlcsDrdy ||| rlcsErr) =
        rl.rlcs &&& ~~~(rlcsDrdy ||| rlcsErr) := by
    split
    · exact BitMask.or_and_not _ (by decide)
    · exact BitMask.and_not_and_not _ (by decide)
  have herr (csr : Word) (c : Prop) [Decidable c] :
      (if c then csr ||| rlcsErr else csr) &&& ~~~(rlcsDrdy ||| rlcsErr) =
        csr &&& ~~~(rlcsDrdy ||| rlcsErr) := by
    split
    · exact BitMask.or_and_not _ (by decide)
    · rfl
  exact (herr _ _).trans (hdrdy _)

/-- A command that is done as soon as it starts: none of the drive, or no motion and no transfer. -/
def RlImmediate (rl : Rl11) (value : Word) : Prop :=
  rl.disk.isNone = true ∨ (value &&& rlcsFunc) >>> 1 = rlFuncNop ∨
    (value &&& rlcsFunc) >>> 1 = rlFuncGsta

instance (rl : Rl11) (value : Word) : Decidable (RlImmediate rl value) :=
  inferInstanceAs (Decidable (_ ∨ _))

/-- A refresh that the word stored next leaves no trace of: it changed nothing, or the store is a
command that sets the ready bit again or finds it unchanged. -/
def RefreshLost (rl : Rl11) (value : Word) : Prop :=
  rlcsRead rl = rl.rlcs ∨ value &&& rlcsDone = 0 ∧
    (rlcsRead rl &&& rlcsDrdy = rl.rlcs &&& rlcsDrdy ∨ RlImmediate rl value)

section
variable {s : Cpu} {x y : Word}

/-- Every completion sets the ready bit of the drive. -/
theorem rlFinish_drdy (h : x &&& ~~~rlcsDrdy = y &&& ~~~rlcsDrdy) (status : Word) :
    rlFinish { s with dev.rl.rlcs := x } status = rlFinish { s with dev.rl.rlcs := y } status := by
  have hset : x ||| status ||| rlcsDone ||| rlcsDrdy = y ||| status ||| rlcsDone ||| rlcsDrdy := by
    apply BitMask.or_eq
    rw [BitVec.or_assoc, BitVec.or_assoc, BitVec.and_or_distrib_right, h,
      ← BitVec.and_or_distrib_right]
  unfold rlFinish
  dsimp only
  rw [hset]

theorem rlGo_immediate (hrest : x &&& ~~~rlcsDrdy = y &&& ~~~rlcsDrdy)
    (h : RlImmediate s.dev.rl x) :
    rlGo { s with dev.rl.rlcs := x } = rlGo { s with dev.rl.rlcs := y } := by
  have hfunc : y &&& rlcsFunc = x &&& rlcsFunc := (BitMask.and_eq hrest (by decide)).symm
  have hfinish (t : Cpu) (status : Word) :
      rlFinish { t with dev.rl.rlcs := x &&& ~~~rlcsDone } status =
        rlFinish { t with dev.rl.rlcs := y &&& ~~~rlcsDone } status :=
    rlFinish_drdy (BitMask.and_and_not_eq hrest _) status
  by_cases hdisk : s.dev.rl.disk.isNone = true
  · have hgo (z : Word) : rlGo { s with dev.rl.rlcs := z } = rlFinish
        { clrInt s .rl with dev.rl.rlcs := z &&& ~~~rlcsDone } (rlcsIncmp ||| rlcsDre) :=
      if_pos hdisk
    rw [hgo, hgo, hfinish]
  have h := h.resolve_left hdisk
  by_cases hnop : (x &&& rlcsFunc) >>> 1 = rlFuncNop
  · have hgo (z : Word) (hz : (z &&& rlcsFunc) >>> 1 = rlFuncNop) :
        rlGo { s with dev.rl.rlcs := z } =
          rlFinish { clrInt s .rl with dev.rl.rlcs := z &&& ~~~rlcsDone } 0 :=
      (if_neg hdisk).trans (if_pos hz)
    rw [hgo x hnop, hgo y (by rw [hfunc, hnop]), hfinish]
  · have hgsta := h.resolve_left hnop
    have hgo (z : Word) (hz : z &&& rlcsFunc = x &&& rlcsFunc) :
        rlGo { s with dev.rl.rlcs := z } =
          if s.dev.rl.rlda &&& rldaGs = 0 then
            rlFinish { clrInt s .rl with dev.rl.rlcs := z &&& ~~~rlcsDone } rlcsIncmp
          else rlFinish { clrInt s .rl with
            dev.rl.rlmp := rlStatus s.dev.rl
            dev.rl.rlcs := z &&& ~~~rlcsDone } 0 :=
      (if_neg hdisk).trans <| (if_neg (by rwa [hz])).trans (if_pos (by rwa [hz]))
    rw [hgo x rfl, hgo y hfunc, hfinish]
    exact ite_congr rfl (fun _ => rfl) fun _ =>
      hfinish { clrInt s .rl with dev.rl.rlmp := rlStatus s.dev.rl } 0

theorem rlTransferWords_drdy (func : Word) (ma da : BitVec 32) (l : List ℕ) (ss : Cpu × Word)
    (hstatus : ss.2 &&& rlcsDrdy = 0) :
    (l.foldl (rlTransferWord func ma da) ss).1.dev.rl.rlcs = ss.1.dev.rl.rlcs ∧
      (l.foldl (rlTransferWord func ma da) ss).2 &&& rlcsDrdy = 0 := by
  induction l generalizing ss with
  | nil => exact ⟨rfl, hstatus⟩
  | cons i l ih =>
    have hword : (rlTransferWord func ma da ss i).1.dev.rl.rlcs = ss.1.dev.rl.rlcs ∧
        (rlTransferWord func ma da ss i).2 &&& rlcsDrdy = 0 := by
      unfold rlTransferWord
      dsimp only
      split_ifs
      · exact ⟨rfl, hstatus⟩
      · exact ⟨rfl, hstatus⟩
      · refine ⟨rfl, ?_⟩
        rw [BitMask.or_and_eq _ (by decide), BitMask.or_and_eq _ (by decide), hstatus]
      · exact ⟨rfl, hstatus⟩
    obtain ⟨hcs, hs⟩ := ih _ hword.2
    exact ⟨hcs.trans hword.1, hs⟩

theorem rlTransfer_drdy (s : Cpu) (func : Word) :
    (rlTransfer s func).2.dev.rl.rlcs &&& rlcsDrdy = s.dev.rl.rlcs &&& rlcsDrdy ∧
      (rlTransfer s func).1 &&& rlcsDrdy = 0 := by
  have hadvance (rl : Rl11) (ma wc : BitVec 32) (ss : Cpu × Word)
      (hcs : ss.1.dev.rl.rlcs = s.dev.rl.rlcs) (hs : ss.2 &&& rlcsDrdy = 0) :
      (rlAdvance rl ma wc ss).2.dev.rl.rlcs &&& rlcsDrdy = s.dev.rl.rlcs &&& rlcsDrdy ∧
        (rlAdvance rl ma wc ss).1 &&& rlcsDrdy = 0 := by
    have hmex : ((((ma + wc * 2) >>> 16 &&& 3) <<< 4).setWidth 16 : Word) &&& rlcsDrdy = 0 :=
      (BitMask.and_twoPow_eq_zero (i := 0) (by decide)).2 (by simp)
    constructor
    · show ((ss.1.dev.rl.rlcs &&& ~~~rlcsMex) ||| _) &&& rlcsDrdy = _
      rw [BitMask.or_and_eq _ hmex, BitMask.and_not_and_eq _ (by decide), hcs]
    · unfold rlAdvance
      dsimp only
      split
      · rw [BitMask.or_and_eq _ (by decide), BitMask.or_and_eq _ (by decide), hs]
      · exact hs
  have hstatus (off : Prop) [Decidable off] :
      (if off then rlcsErr ||| rlcsIncmp else 0 : Word) &&& rlcsDrdy = 0 := by
    split <;> rfl
  have hwords (ma da : BitVec 32) (n : ℕ) (off : Prop) [Decidable off] :=
    rlTransferWords_drdy func ma da (List.range n)
      (s, if off then rlcsErr ||| rlcsIncmp else 0) (hstatus off)
  exact hadvance _ _ _ _ (hwords _ _ _ _).1 (hwords _ _ _ _).2

theorem rlStart_drdy (s : Cpu) (func : Word) :
    (rlStart (rlTransfer s func)).dev.rl.rlcs &&& rlcsDrdy = s.dev.rl.rlcs &&& rlcsDrdy := by
  obtain ⟨hcs, hs⟩ := rlTransfer_drdy s func
  generalize rlTransfer s func = out at hcs hs ⊢
  have hs' : out.1 &&& ~~~rlcsDone &&& rlcsDrdy = 0 := by
    rw [BitMask.and_not_and_eq _ (by decide), hs]
  exact (BitMask.or_and_eq _ hs').trans hcs

/-- Any other command leaves the ready bit of the drive as it finds it. -/
theorem rlGo_drdy (h : ¬RlImmediate s.dev.rl s.dev.rl.rlcs) :
    (rlGo s).dev.rl.rlcs &&& rlcsDrdy = s.dev.rl.rlcs &&& rlcsDrdy := by
  obtain ⟨hdisk, h⟩ := not_or.1 h
  obtain ⟨hnop, hgsta⟩ := not_or.1 h
  have hdone (z : Word) : (z &&& ~~~rlcsDone) &&& rlcsDrdy = z &&& rlcsDrdy :=
    BitMask.and_not_and_eq _ (by decide)
  unfold rlGo
  refine (congrArg (fun t : Cpu => t.dev.rl.rlcs &&& rlcsDrdy) ((if_neg hdisk).trans
    ((if_neg hnop).trans (if_neg hgsta)))).trans ?_
  split
  · exact hdone _
  split
  · exact hdone _
  · exact (rlStart_drdy _ _).trans (hdone _)

/-- RLCS with the writable bits of a word. -/
def rlLoaded (z value : Word) : Word := (z &&& ~~~rlcsRw) ||| (value &&& rlcsRw)

theorem rlLoaded_rest (h : x &&& ~~~(rlcsDrdy ||| rlcsErr) = y &&& ~~~(rlcsDrdy ||| rlcsErr))
    (value : Word) : rlLoaded x value &&& ~~~(rlcsDrdy ||| rlcsErr) =
      rlLoaded y value &&& ~~~(rlcsDrdy ||| rlcsErr) := by
  unfold rlLoaded
  rw [BitVec.and_or_distrib_right, BitVec.and_or_distrib_right, BitMask.and_and_not_eq h]

theorem rlLoaded_bae (h : x &&& ~~~(rlcsDrdy ||| rlcsErr) = y &&& ~~~(rlcsDrdy ||| rlcsErr))
    (value : Word) :
    (rlLoaded x value >>> 4) &&& (3 : Word) = (rlLoaded y value >>> 4) &&& (3 : Word) := by
  have hfield (z : Word) : (z >>> 4) &&& (3 : Word) = (z &&& 0o60) >>> 4 := by
    rw [BitVec.ushiftRight_and_distrib]
    rfl
  rw [hfield, hfield, BitMask.and_eq (rlLoaded_rest h value) (by decide)]

theorem rlWriteRlcs_assign (z : Word) {value : Word} (h : value &&& rlcsDone ≠ 0) :
    (rlWriteRlcs { s with dev.rl.rlcs := z } value).dev.rl.rlcs = rlLoaded z value := by
  unfold rlWriteRlcs
  dsimp only
  rw [if_pos h]
  split_ifs <;> rfl

theorem rlWriteRlcs_go (z : Word) {value : Word} (h : value &&& rlcsDone = 0) :
    rlWriteRlcs { s with dev.rl.rlcs := z } value =
      rlGo { clrInt { s with dev.rl.rlbae := (s.dev.rl.rlbae &&& ~~~(3 : Word)) |||
        ((rlLoaded z value >>> 4) &&& 3) } .rl with
          dev.rl.rlcs := rlLoaded z value &&& ~~~rlcsAllerr } :=
  if_neg (not_not.2 h)

/-- The refresh before a store of RLCS is lost exactly when the store makes it so. -/
theorem rlWriteRlcs_refreshed (s : Cpu) (value : Word) :
    rlWriteRlcs { s with dev.rl.rlcs := rlcsRead s.dev.rl } value = rlWriteRlcs s value ↔
      RefreshLost s.dev.rl value := by
  have hrest := rlcsRead_rest s.dev.rl
  have hbae := rlLoaded_bae hrest value
  unfold RefreshLost
  generalize rlcsRead s.dev.rl = r at *
  have hself : rlWriteRlcs s value = rlWriteRlcs { s with dev.rl.rlcs := s.dev.rl.rlcs } value := rfl
  by_cases hdone : value &&& rlcsDone = 0
  · rw [hself, rlWriteRlcs_go _ hdone, rlWriteRlcs_go _ hdone, hbae]
    generalize hu : clrInt { s with dev.rl.rlbae := (s.dev.rl.rlbae &&& ~~~(3 : Word)) |||
        ((rlLoaded s.dev.rl.rlcs value >>> 4) &&& 3) } .rl = u
    have hdisk : u.dev.rl.disk = s.dev.rl.disk := by
      rw [← hu]
      rfl
    have hfunc (z : Word) : (rlLoaded z value &&& ~~~rlcsAllerr) &&& rlcsFunc =
        value &&& rlcsFunc := by
      have hload : rlLoaded z value &&& rlcsFunc = value &&& rlcsFunc := by
        unfold rlLoaded
        have hout : ~~~rlcsRw &&& rlcsFunc = (0 : Word) := by decide
        have hin : rlcsRw &&& rlcsFunc = rlcsFunc := by decide
        rw [BitVec.and_or_distrib_right, BitVec.and_assoc, BitVec.and_assoc, hout, hin]
        simp
      rw [BitMask.and_not_and_eq _ (by decide), hload]
    -- which function starts is in the stored value alone
    have himm (z : Word) : RlImmediate u.dev.rl (rlLoaded z value &&& ~~~rlcsAllerr) ↔
        RlImmediate s.dev.rl value := by
      unfold RlImmediate
      rw [hdisk, hfunc]
    have hdrdy (z : Word) : (rlLoaded z value &&& ~~~rlcsAllerr) &&& rlcsDrdy = z &&& rlcsDrdy := by
      rw [BitMask.and_not_and_eq _ (by decide)]
      exact BitMask.load_and_eq _ _ (by decide)
    have hagree : (rlLoaded r value &&& ~~~rlcsAllerr) &&& ~~~rlcsDrdy =
        (rlLoaded s.dev.rl.rlcs value &&& ~~~rlcsAllerr) &&& ~~~rlcsDrdy := by
      rw [BitVec.and_assoc, BitVec.and_assoc]
      exact BitMask.and_eq (rlLoaded_rest hrest value) (by decide)
    simp only [hdone, true_and]
    constructor
    · intro h
      by_contra hn
      obtain ⟨-, hn⟩ := not_or.1 hn
      obtain ⟨hne, hmoves⟩ := not_or.1 hn
      -- a command that takes time keeps DRDY, so the two results differ in it
      have hkept (z : Word) := rlGo_drdy
        (s := { u with dev.rl.rlcs := rlLoaded z value &&& ~~~rlcsAllerr }) (mt (himm z).1 hmoves)
      have hbits := (hkept r).symm.trans
        ((congrArg (fun t : Cpu => t.dev.rl.rlcs &&& rlcsDrdy) h).trans (hkept s.dev.rl.rlcs))
      exact hne ((hdrdy r).symm.trans (hbits.trans (hdrdy _)))
    · rintro (hsame | hsame | hmoves)
      · rw [hsame]
      · have hload : rlLoaded r value &&& ~~~rlcsAllerr =
            rlLoaded s.dev.rl.rlcs value &&& ~~~rlcsAllerr := by
          refine BitMask.eq_of_and hagree ?_
          rw [hdrdy, hdrdy, hsame]
        rw [hload]
      · exact rlGo_immediate hagree ((himm r).2 hmoves)
  · -- no command: the read-only bits of the two results are those they started from
    have hstored (z : Word) := rlWriteRlcs_assign (s := s) z hdone
    have hsame : rlWriteRlcs { s with dev.rl.rlcs := r } value = rlWriteRlcs s value ↔
        r = s.dev.rl.rlcs := by
      constructor
      · intro h
        have hloaded : rlLoaded r value = rlLoaded s.dev.rl.rlcs value :=
          (hstored r).symm.trans ((congrArg (fun t : Cpu => t.dev.rl.rlcs) h).trans (hstored _))
        have hpart (z : Word) : rlLoaded z value &&& ~~~rlcsRw = z &&& ~~~rlcsRw := by
          unfold rlLoaded
          rw [BitMask.or_and_not _ (BitMask.within_and _ _), BitMask.and_not_and_not _ (by decide)]
        have hout : rlcsRw &&& (rlcsDrdy ||| rlcsErr) = 0 := by decide
        refine BitMask.eq_of_and ?_ (BitMask.and_eq hrest hout)
        rw [← hpart r, hloaded, hpart]
      · rintro rfl
        rfl
    rw [hsame]
    exact ⟨.inl, fun h => h.resolve_right fun h => hdone h.1⟩
end

end Pdp11
