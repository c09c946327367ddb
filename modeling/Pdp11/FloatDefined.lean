import Pdp11.FloatChecked

/-! No operation of the floating arithmetic on unpacked values is undefined. -/

namespace Pdp11

open CheckedArith

/-! ## Fields and shifts -/

theorem andMaskChecked_eq {n : ℤ} (h0 : 0 ≤ n) (h : n ≤ 32) :
    andMaskChecked n = some (andMask n.toNat) := guarded_eq ⟨h0, h⟩ _

theorem getBitChecked_eq (x : BitVec 32) {n : ℕ} (h : n < 32) :
    getBitChecked x n = some (x.getLsbD n) := by
  have hbit : decide (x >>> n &&& 1 ≠ 0) = x.getLsbD n := by
    rw [BitMask.and_one_ne_zero (by decide), BitVec.getLsbD_ushiftRight, Nat.add_zero]
  unfold getBitChecked
  rw [bind_eq (shr_eq x (Int.natCast_nonneg n) (by exact_mod_cast h)), Int.toNat_natCast, hbit]
  rfl

theorem getSignChecked_eq (h : BitVec 32) : getSignChecked h = some (getSign h) :=
  getBitChecked_eq h (by decide)

theorem getExpChecked_eq (h : BitVec 32) : getExpChecked h = some (getExp h) := by
  have hfield : (h >>> 23 &&& 0o377).toNat = (h.extractLsb' 23 8).toNat := by
    rw [BitVec.toNat_and, BitVec.extractLsb'_toNat, BitVec.toNat_ushiftRight]
    exact Nat.and_two_pow_sub_one_eq_mod _ 8
  unfold getExpChecked getExp
  rw [bind_eq (shr_eq h (n := 23) (by decide) (by decide)), ← hfield]
  rfl

theorem getExp_bounds (h : BitVec 32) : 0 ≤ getExp h ∧ getExp h ≤ 255 := by
  have hlt := (h.extractLsb' 23 8).isLt
  unfold getExp
  omega

namespace Fpac

variable (f : Fpac) {n : ℤ}

theorem rshKChecked_eq (h0 : 1 ≤ n) (h : n ≤ 31) : f.rshKChecked n = some (f.rshK n.toNat) := by
  have hn : (32 - n).toNat = 32 - n.toNat := by omega
  unfold rshKChecked rshK
  rw [bind_eq (shr_eq _ (by omega) (by omega)), bind_eq (andMaskChecked_eq (by omega) (by omega)),
    bind_eq (shl_eq _ (by omega) (by omega)), bind_eq (shr_eq _ (by omega) (by omega)), hn]
  rfl

theorem lshKChecked_eq (h0 : 1 ≤ n) (h : n ≤ 31) : f.lshKChecked n = some (f.lshK n.toNat) := by
  have hn : (32 - n).toNat = 32 - n.toNat := by omega
  unfold lshKChecked lshK
  rw [bind_eq (shl_eq _ (by omega) (by omega)), bind_eq (shr_eq _ (by omega) (by omega)),
    bind_eq (andMaskChecked_eq (by omega) (by omega)), bind_eq (shl_eq _ (by omega) (by omega)), hn]
  rfl

/-- The counts between 1 and 63 divide at 32. -/
theorem rshVChecked_eq (h0 : 1 ≤ n) (h : n ≤ 63) : f.rshVChecked n = some (f.rshV n.toNat) := by
  unfold rshVChecked rshV
  by_cases hn : 32 ≤ n
  · have hcount : (n - 32).toNat = n.toNat - 32 := by omega
    have hmask : (64 - n).toNat = 64 - n.toNat := by omega
    rw [if_pos hn, if_pos (by omega), bind_eq (shr_eq _ (by omega) (by omega)),
      bind_eq (andMaskChecked_eq (by omega) (by omega)), hcount, hmask]
    rfl
  · rw [if_neg hn, if_neg (by omega)]
    exact f.rshKChecked_eq h0 (by omega)

theorem lshVChecked_eq (h0 : 1 ≤ n) (h : n ≤ 63) : f.lshVChecked n = some (f.lshV n.toNat) := by
  unfold lshVChecked lshV
  by_cases hn : 32 ≤ n
  · have hcount : (n - 32).toNat = n.toNat - 32 := by omega
    rw [if_pos hn, if_pos (by omega), bind_eq (shl_eq _ (by omega) (by omega)), hcount]
    rfl
  · rw [if_neg hn, if_neg (by omega)]
    exact f.lshKChecked_eq h0 (by omega)

theorem lsh1Checked_eq : f.lsh1Checked = some f.lsh1 := by
  unfold lsh1Checked
  rw [bind_eq (shl_eq _ (by decide) (by decide)), bind_eq (shr_eq _ (by decide) (by decide)),
    bind_eq (shl_eq _ (by decide) (by decide))]
  rfl

theorem rsh1Checked_eq : f.rsh1Checked = some f.rsh1 := by
  unfold rsh1Checked
  rw [bind_eq (shr_eq _ (by decide) (by decide)), bind_eq (shl_eq _ (by decide) (by decide)),
    bind_eq (shr_eq _ (by decide) (by decide))]
  rfl

end Fpac

theorem toFacChecked_eq (v : BitVec 64) (fps : Word) :
    toFacChecked v fps = some (toFac v fps) := by
  unfold toFacChecked
  rw [bind_eq (shr_eq _ (by decide) (by decide))]
  rfl

theorem fromFacChecked_eq (f : Fpac) : fromFacChecked f = some (fromFac f) := by
  unfold fromFacChecked
  rw [bind_eq (shl_eq _ (by decide) (by decide))]
  rfl

/-! ## Rounding and packing -/

theorem fpNotrapChecked_eq (fps : Word) (code fec : ℕ) :
    fpNotrapChecked fps code fec = some (fpNotrap fps code fec) := by
  unfold fpNotrapChecked fpNotrap
  by_cases h : fecIcvt ≤ code ∧ code ≤ fecUndfv
  · have hindex : ((BitVec.ofNat 32 code).sshiftRight 1).toNat = code / 2 := by
      obtain ⟨-, hcode⟩ := h
      interval_cases code <;> rfl
    rw [if_pos h, bind_eq (sar_eq (n := 1) _ (by decide) (by decide)),
      show (1 : ℤ).toNat = 1 from rfl, hindex]
    by_cases htest : fps &&& fpTestCode code = 0
    · rw [if_pos (show fps &&& [0, 0, 0, fpsIc, fpsIv, fpsIu, fpsIuv].getD (code / 2) 0 = 0
        from htest), if_pos ⟨h.1, h.2, htest⟩]
      rfl
    · rw [if_neg (show ¬fps &&& [0, 0, 0, fpsIc, fpsIv, fpsIu, fpsIuv].getD (code / 2) 0 = 0
        from htest), if_neg fun hc => htest hc.2.2]
      rfl
  · rw [if_neg h, if_neg fun hc => h ⟨hc.1, hc.2.1⟩]
    rfl


/-- An exponent that the arithmetic still adds to, far from the ends of its type. -/
def SmallExp (e : ℤ) : Prop := -1024 ≤ e ∧ e ≤ 1024

theorem signedOf_small {e : ℤ} (hlo : -2048 ≤ e) (hhi : e ≤ 2048) : signedOf 32 e = some e :=
  signedOf_eq (fitsSigned_int (by omega) (by omega))

theorem guardRoundChecked_eq (fps : Word) {exp : ℤ} (frac : Fpac) (he : SmallExp exp)
    (ht : fps &&& fpsT = 0) :
    guardRoundChecked fps exp frac = some (guardRound fps exp frac) := by
  obtain ⟨hlo, hhi⟩ := he
  unfold guardRoundChecked guardRound
  rw [if_pos ht]
  generalize Fpac.add (if fps &&& fpsD ≠ 0 then .droundGuard else .froundGuard) frac = sum
  dsimp only
  rw [bind_eq (getBitChecked_eq _ (by decide))]
  split_ifs
  · rw [bind_eq (Fpac.rsh1Checked_eq _), bind_eq (signedOf_small (by omega) (by omega))]
    rfl
  · rfl

theorem packFieldsChecked_eq (fac : Fpac) (fe : Fpac × ℤ) :
    packFieldsChecked fac fe = some (pack fac fe) := by
  unfold packFieldsChecked
  rw [bind_eq (Fpac.rshKChecked_eq _ (by decide) (by decide)),
    bind_eq (shl_eq _ (by decide) (by decide))]
  rfl

theorem rangeChecked_eq (fac : Fpac) (fe : Fpac × ℤ) (fps : Word) (fec : ℕ) :
    rangeChecked (pack fac fe) fe.2 fps fec = some (packChecked fac fe fps fec) := by
  unfold rangeChecked packChecked
  by_cases hover : fe.2 > 0o377
  · rw [if_pos hover, if_pos hover, bind_eq (fpNotrapChecked_eq _ _ _)]
    rfl
  · rw [if_neg hover, if_neg hover]
    by_cases hunder : fe.2 ≤ 0
    · rw [if_pos hunder, if_pos hunder, bind_eq (fpNotrapChecked_eq _ _ _)]
      rfl
    · rw [if_neg hunder, if_neg hunder]
      rfl

theorem roundAndPackChecked_eq (fac : Fpac) {exp : ℤ} (frac : Fpac) (r : Bool) (fps : Word)
    (fec : ℕ) (he : SmallExp exp) :
    roundAndPackChecked fac exp frac r fps fec = some (roundAndPack fac exp frac r fps fec) := by
  have hpacked (fe : Fpac × ℤ) : (do
      let fac ← packFieldsChecked fac fe
      rangeChecked fac fe.2 fps fec) = some (packChecked fac fe fps fec) := by
    rw [bind_eq (packFieldsChecked_eq fac fe)]
    exact rangeChecked_eq fac fe fps fec
  unfold roundAndPackChecked
  cases r with
  | false =>
    rw [if_neg (fun h => Bool.false_ne_true h.1), roundAndPack_false]
    exact hpacked _
  | true =>
    rw [roundAndPack_true]
    by_cases ht : fps &&& fpsT = 0
    · rw [if_pos ⟨rfl, ht⟩, bind_eq (guardRoundChecked_eq fps frac he ht)]
      exact hpacked _
    · rw [if_neg (fun h => ht h.2), show guardRound fps exp frac = (frac, exp) from if_neg ht]
      exact hpacked _

theorem roundfp11Checked_eq (f : Fpac) (fps : Word) (fec : ℕ) :
    roundfp11Checked f fps fec = some (roundfp11 f fps fec) := by
  unfold roundfp11Checked roundfp11
  dsimp only
  rw [bind_eq (getSignChecked_eq _)]
  by_cases hflip : getSign ((Fpac.add .fround f).h ^^^ f.h) = true
  · rw [if_pos hflip, if_pos hflip, bind_eq (fpNotrapChecked_eq _ _ _)]
    rfl
  · rw [if_neg hflip, if_neg hflip]
    rfl

/-! ## Normalization -/

theorem shortcutChecked_eq (mask : BitVec 32) {n : ℕ} {fe : Fpac × ℤ} (h0 : 1 ≤ n) (h : n ≤ 31)
    (he : SmallExp fe.2) : shortcutChecked mask n fe = some (shortcut mask n fe) := by
  obtain ⟨hlo, hhi⟩ := he
  unfold shortcutChecked shortcut
  rw [bind_eq (shl_eq (n := 3) _ (by decide) (by decide)), show (3 : ℤ).toNat = 3 from rfl]
  split_ifs
  · rw [bind_eq (Fpac.lshKChecked_eq _ (by omega) (by omega)),
      bind_eq (signedOf_small (by omega) (by omega))]
    rfl
  · rfl

/-- A shortcut subtracts its count from the exponent or leaves it. -/
theorem shortcut_exp (mask : BitVec 32) (n : ℕ) (fe : Fpac × ℤ) :
    fe.2 - n ≤ (shortcut mask n fe).2 ∧ (shortcut mask n fe).2 ≤ fe.2 := by
  unfold shortcut
  split_ifs
  · exact ⟨le_rfl, by omega⟩
  · exact ⟨by omega, le_rfl⟩

theorem shortcutsChecked_eq {fe : Fpac × ℤ} (hlo : -900 ≤ fe.2) (hhi : fe.2 ≤ 1024) :
    shortcutsChecked fe = some (shortcuts fe) := by
  have h24 := shortcut_exp 0x00FFFFFF 24 fe
  have h12 := shortcut_exp 0x00FFF000 12 (shortcut 0x00FFFFFF 24 fe)
  unfold shortcutsChecked
  rw [bind_eq (shortcutChecked_eq (n := 24) _ (by decide) (by decide) ⟨by omega, hhi⟩),
    bind_eq (shortcutChecked_eq (n := 12) _ (by decide) (by decide) ⟨by omega, by omega⟩)]
  exact shortcutChecked_eq (n := 6) _ (by decide) (by decide) ⟨by omega, by omega⟩

theorem normalizeChecked_eq {k fuel : ℕ} (hk : k ≤ fuel) {fe : Fpac × ℤ} (h : LoopEnds k fe.1)
    (hlo : -1024 + k ≤ fe.2) (hhi : fe.2 ≤ 1024) :
    normalizeChecked fuel fe = some (normalize fuel fe) := by
  induction k generalizing fuel fe with
  | zero =>
    have hset : fe.1.h.getLsbD hiddenBit = true := h.set
    cases fuel with
    | zero =>
      unfold normalizeChecked normalize
      rw [bind_eq (getBitChecked_eq _ (by decide)), if_pos hset]
      rfl
    | succ fuel =>
      unfold normalizeChecked normalize
      rw [bind_eq (getBitChecked_eq _ (by decide)), if_pos hset, if_pos hset]
      rfl
  | succ k ih =>
    obtain ⟨fuel, rfl⟩ : ∃ n, fuel = n + 1 := ⟨fuel - 1, by omega⟩
    have hclear : ¬fe.1.h.getLsbD hiddenBit = true := by
      rw [Bool.not_eq_true]
      exact h.clear 0 (Nat.succ_pos k)
    have hrest : LoopEnds k fe.1.lsh1 :=
      ⟨fun j hj => h.clear (j + 1) (Nat.succ_lt_succ hj), h.set⟩
    unfold normalizeChecked normalize
    rw [bind_eq (getBitChecked_eq _ (by decide)), if_neg hclear, if_neg hclear,
      bind_eq (Fpac.lsh1Checked_eq _), bind_eq (signedOf_small (by omega) (by omega))]
    push_cast at hlo
    exact ih (by omega) hrest (show -1024 + (k : ℤ) ≤ fe.2 - 1 by omega)
      (show fe.2 - 1 ≤ 1024 by omega)

/-- A normalization ends within the fuel, its exponent still small. -/
theorem normalizedChecked_eq {short : Bool} {fe : Fpac × ℤ} (h : Normalizes short fe)
    (hlo : 0 ≤ fe.2) (hhi : fe.2 ≤ 255) :
    normalizedChecked short fe = some (normalized short fe) ∧
      SmallExp (normalized short fe).2 := by
  have hcut : (if short then shortcutsChecked fe else pure fe) = some (cutShort short fe) := by
    cases short with
    | false => rfl
    | true => exact shortcutsChecked_eq (by omega) (by omega)
  have hexp : fe.2 - 42 ≤ (cutShort short fe).2 ∧ (cutShort short fe).2 ≤ fe.2 := by
    cases short with
    | false => exact ⟨Int.sub_le_self _ (by decide), le_rfl⟩
    | true =>
      have h24 := shortcut_exp 0x00FFFFFF 24 fe
      have h12 := shortcut_exp 0x00FFF000 12 (shortcut 0x00FFFFFF 24 fe)
      have h6 := shortcut_exp 0x00FC0000 6 (shortcut 0x00FFF000 12 (shortcut 0x00FFFFFF 24 fe))
      show fe.2 - 42 ≤ (shortcuts fe).2 ∧ (shortcuts fe).2 ≤ fe.2
      unfold shortcuts
      omega
  obtain ⟨k, hk, hends, hrun⟩ := h.loop
  have hfuel : k ≤ normalizeFuel := le_trans hk (by decide)
  constructor
  · unfold normalizedChecked
    rw [bind_eq hcut]
    exact normalizeChecked_eq hfuel hends (by omega) (by omega)
  · unfold normalized SmallExp
    rw [hrun _ hfuel]
    dsimp only
    omega

/-! ## Operations on unpacked values -/

theorem Fpac.lshGuardChecked_eq (f : Fpac) : f.lshKChecked 3 = some f.lshGuard :=
  f.lshKChecked_eq (n := 3) (by decide) (by decide)

theorem alignedFracChecked_eq (fsrc : Fpac) {ediff : ℤ} (h0 : 0 ≤ ediff) (h : ediff < 60) :
    alignedFracChecked fsrc.getFrac.lshGuard ediff = some (alignedFrac fsrc ediff) := by
  unfold alignedFracChecked alignedFrac
  split_ifs
  · exact Fpac.rshVChecked_eq _ (by omega) (by omega)
  · rfl

theorem subAlignedChecked_eq {fac fsrc : Fpac} (fps : Word) (h : fac.ltAp fsrc = false)
    (hdiff : getExp fac.h - getExp fsrc.h < 60) :
    let ediff := getExp fac.h - getExp fsrc.h
    let facfrac := Fpac.sub (alignedFrac fsrc ediff) fac.getFrac.lshGuard
    subAlignedChecked fac (getExp fac.h) ediff facfrac fps =
      some (subAligned fac ediff facfrac fps) := by
  intro ediff facfrac
  obtain ⟨hlo, hhi⟩ := getExp_bounds fac.h
  unfold subAlignedChecked subAligned
  by_cases hzero : facfrac.isZero = true
  · rw [if_pos hzero, if_pos hzero]
    rfl
  · have hne : alignedFrac fsrc ediff ≠ fac.getFrac.lshGuard := by
      intro heq
      have hsub := Fpac.toNat_sub (aligned_le h hdiff)
      rw [Fpac.isZero_iff] at hzero
      refine hzero (hsub.trans ?_)
      rw [heq, Nat.sub_self]
    have hnorm : Normalizes (ediff ≤ 1) (facfrac, getExp fac.h) :=
      difference_normalizes h hdiff hne _
    obtain ⟨hrun, hsmall⟩ := normalizedChecked_eq hnorm hlo hhi
    have hcut : normalized (ediff ≤ 1) (facfrac, getExp fac.h) = normalize normalizeFuel
        (if ediff ≤ 1 then shortcuts (facfrac, getExp fac.h) else (facfrac, getExp fac.h)) := by
      unfold normalized cutShort
      simp only [decide_eq_true_eq]
    rw [if_neg hzero, if_neg hzero, bind_eq hrun, roundAndPackChecked_eq _ _ _ _ _ hsmall]
    dsimp only
    rw [← hcut]

theorem sumAlignedChecked_eq (fac facfrac : Fpac) (fps : Word) :
    sumAlignedChecked fac (getExp fac.h) facfrac fps = some (sumAligned fac facfrac fps) := by
  obtain ⟨hlo, hhi⟩ := getExp_bounds fac.h
  unfold sumAlignedChecked sumAligned
  rw [bind_eq (getBitChecked_eq _ (by decide))]
  split_ifs
  · rw [bind_eq (Fpac.rsh1Checked_eq _), bind_eq (signedOf_small (by omega) (by omega))]
    exact roundAndPackChecked_eq _ _ _ _ _ ⟨by omega, by omega⟩
  · exact roundAndPackChecked_eq _ _ _ _ _ ⟨by omega, by omega⟩

theorem addOrderedChecked_eq {fac fsrc : Fpac} (fps : Word) (h : fac.ltAp fsrc = false) :
    addOrderedChecked fac fsrc (getExp fac.h) (getExp fsrc.h) fps =
      some (addOrdered fac fsrc fps) := by
  have hfac := getExp_bounds fac.h
  have hfsrc := getExp_bounds fsrc.h
  have hle := (ordered h).1
  rw [← getExp_eq, ← getExp_eq] at hle
  unfold addOrderedChecked addOrdered
  rw [bind_eq (signedOf_small (by omega) (by omega))]
  dsimp only
  by_cases hfar : 60 ≤ getExp fac.h - getExp fsrc.h
  · rw [if_pos hfar, if_pos hfar]
    rfl
  · rw [if_neg hfar, if_neg hfar, bind_eq (Fpac.lshGuardChecked_eq _),
      bind_eq (Fpac.lshGuardChecked_eq _), bind_eq (getSignChecked_eq _),
      bind_eq (getSignChecked_eq _), bind_eq (alignedFracChecked_eq _ (by omega) (by omega))]
    by_cases hsign : getSign fac.h ≠ getSign fsrc.h
    · rw [if_pos hsign, if_pos hsign]
      exact subAlignedChecked_eq fps h (by omega)
    · rw [if_neg hsign, if_neg hsign]
      exact sumAlignedChecked_eq _ _ _

/-- Every shift of an addition is by 1 to 59 places, or by a constant. -/
theorem addfp11Checked_eq (fac fsrc : Fpac) (fps : Word) :
    addfp11Checked fac fsrc fps = some (addfp11 fac fsrc fps) := by
  obtain ⟨big, small, hord⟩ : ∃ big small, byMagnitude fac fsrc = (big, small) := ⟨_, _, rfl⟩
  have hord' : (if fac.ltAp fsrc then (fsrc, fac) else (fac, fsrc)) = (big, small) := hord
  have hstart : addfp11 fac fsrc fps =
      if getExp big.h = 0 then ⟨if getExp small.h ≠ 0 then small else .zero, false, 0⟩
      else if getExp small.h = 0 then ⟨big, false, 0⟩ else addOrdered big small fps := by
    unfold addfp11 addOrdered subAligned sumAligned alignedFrac
    rw [hord']
  unfold addfp11Checked
  rw [hord, hstart]
  dsimp only
  rw [bind_eq (getExpChecked_eq _), bind_eq (getExpChecked_eq _)]
  by_cases hbig : getExp big.h = 0
  · rw [if_pos hbig, if_pos hbig]
    rfl
  · rw [if_neg hbig, if_neg hbig]
    by_cases hsmall : getExp small.h = 0
    · rw [if_pos hsmall, if_pos hsmall]
      rfl
    · rw [if_neg hsmall, if_neg hsmall]
      exact addOrderedChecked_eq fps (byMagnitude_ltAp hord)

/-! ## Multiplication -/

/-- A loop over the bits of a multiplier that is shifted out, as one over their places. -/
theorem foldl_bits (g : Bool → Fpac → Fpac) (x : BitVec 32) (r : Fpac) (n : ℕ) :
    (List.range n).foldl (fun (s : BitVec 32 × Fpac) _ =>
      (s.1 >>> 1, g (s.1.getLsbD 0) s.2)) (x, r) =
      (x >>> n, (List.range n).foldl (fun r i => g (x.getLsbD i) r) r) := by
  induction n with
  | zero => rfl
  | succ n ih =>
    rw [List.range_succ, List.foldl_append, List.foldl_append, ih]
    dsimp only [List.foldl_cons, List.foldl_nil]
    rw [BitVec.getLsbD_ushiftRight, Nat.add_zero, ← BitVec.shiftRight_add]

theorem mulStepChecked_eq (mpc : Fpac) (s : BitVec 32 × Fpac) :
    mulStepChecked mpc s = some (s.1 >>> 1, mulStep mpc (s.1.getLsbD 0) s.2) := by
  unfold mulStepChecked mulStep
  rw [bind_eq (Fpac.rsh1Checked_eq _), bind_eq (shr_eq (n := 1) _ (by decide) (by decide)),
    ← BitMask.and_one_ne_zero (by decide)]
  simp only [decide_eq_true_eq]
  rfl

theorem mulStepHighChecked_eq (mpc : Fpac) (s : BitVec 32 × Fpac) :
    mulStepHighChecked mpc s = some (s.1 >>> 1, mulStepHigh mpc (s.1.getLsbD 0) s.2) := by
  unfold mulStepHighChecked mulStepHigh
  rw [bind_eq (Fpac.rsh1Checked_eq _), bind_eq (shr_eq (n := 1) _ (by decide) (by decide)),
    ← BitMask.and_one_ne_zero (by decide)]
  simp only [decide_eq_true_eq]
  rfl

/-- The passes over `n` bits of a multiplier. -/
theorem mulPasses_eq {step : BitVec 32 × Fpac → Option (BitVec 32 × Fpac)}
    {g : Bool → Fpac → Fpac} (h : ∀ s, step s = some (s.1 >>> 1, g (s.1.getLsbD 0) s.2))
    (x : BitVec 32) (r : Fpac) {n : ℕ} (hn : n ≤ 32) :
    countUp n (fun _ => step) (x, r) =
      some (x >>> n, (List.range n).foldl (fun r i => g (x.getLsbD i) r) r) := by
  rw [countUp_eq (by omega) (fun _ s => h s), foldl_bits]

theorem lowPassChecked_eq (mpc : Fpac) (l : BitVec 32) : ∃ x,
    lowPassChecked mpc l = some (x, if l ≠ 0 then
      (List.range 32).foldl (fun result i => mulStep mpc (l.getLsbD i) result) .zero
      else .zero) := by
  unfold lowPassChecked
  split_ifs
  · exact ⟨_, mulPasses_eq (mulStepChecked_eq mpc) _ _ le_rfl⟩
  · exact ⟨_, rfl⟩

theorem fracMulfp11Checked_eq (f1 f2 : Fpac) :
    fracMulfp11Checked f1 f2 = some (fracMulfp11 f1 f2) := by
  unfold fracMulfp11Checked fracMulfp11
  rw [bind_eq (Fpac.lshGuardChecked_eq _)]
  dsimp only
  by_cases hzero : f1.l ||| f2.lshGuard.l = 0
  · rw [if_pos hzero, if_pos hzero,
      bind_eq (mulPasses_eq (mulStepHighChecked_eq _) _ _ (by decide))]
    rfl
  · obtain ⟨x, hlow⟩ := lowPassChecked_eq f2.lshGuard f1.l
    rw [if_neg hzero, if_neg hzero, bind_eq hlow,
      bind_eq (mulPasses_eq (mulStepChecked_eq _) _ _ (by decide))]
    rfl

theorem normalizeOnceChecked_eq (frac : Fpac) {exp : ℤ} (hlo : -1024 ≤ exp) (hhi : exp ≤ 1024) :
    normalizeOnceChecked frac exp = some (normalizeOnce frac exp) := by
  unfold normalizeOnceChecked normalizeOnce
  rw [bind_eq (getBitChecked_eq _ (by decide))]
  split_ifs
  · rfl
  · rw [bind_eq (Fpac.lsh1Checked_eq _), bind_eq (signedOf_small (by omega) (by omega))]
    rfl

theorem normalizeOnce_exp (frac : Fpac) (exp : ℤ) :
    exp - 1 ≤ (normalizeOnce frac exp).2 ∧ (normalizeOnce frac exp).2 ≤ exp := by
  unfold normalizeOnce
  split_ifs
  · exact ⟨Int.sub_le_self _ (by decide), le_rfl⟩
  · exact ⟨le_rfl, Int.sub_le_self _ (by decide)⟩

theorem mulFracChecked_eq (fac fsrc : Fpac) :
    mulFracChecked fac fsrc (getExp fac.h) (getExp fsrc.h) = some (mulFrac fac fsrc) ∧
      SmallExp (mulFrac fac fsrc).2 := by
  obtain ⟨hlo, hhi⟩ := getExp_bounds fac.h
  obtain ⟨hlo', hhi'⟩ := getExp_bounds fsrc.h
  have hfrac : mulFrac fac fsrc = normalizeOnce (fracMulfp11 fac.getFrac fsrc.getFrac)
    (getExp fac.h + getExp fsrc.h - fpBias) := rfl
  have hexp := normalizeOnce_exp (fracMulfp11 fac.getFrac fsrc.getFrac)
    (getExp fac.h + getExp fsrc.h - fpBias)
  unfold fpBias at hexp
  rw [hfrac]
  constructor
  · unfold mulFracChecked fpBias
    rw [bind_eq (signedOf_small (by omega) (by omega)),
      bind_eq (signedOf_small (by omega) (by omega)), bind_eq (fracMulfp11Checked_eq _ _)]
    exact normalizeOnceChecked_eq _ (by omega) (by omega)
  · unfold SmallExp fpBias
    omega

theorem mulfp11Checked_eq (fac fsrc : Fpac) (fps : Word) :
    mulfp11Checked fac fsrc fps = some (mulfp11 fac fsrc fps) := by
  obtain ⟨hrun, hsmall⟩ := mulFracChecked_eq fac fsrc
  unfold mulfp11Checked mulfp11
  rw [bind_eq (getExpChecked_eq _), bind_eq (getExpChecked_eq _)]
  by_cases hzero : getExp fac.h = 0 ∨ getExp fsrc.h = 0
  · rw [if_pos hzero, if_pos hzero]
    rfl
  · rw [if_neg hzero, if_neg hzero, bind_eq hrun]
    exact roundAndPackChecked_eq _ _ _ _ _ hsmall

/-! ## Division -/

theorem divLoopChecked_eq (qd : Bool) (divisor : Fpac) : ∀ (i : ℕ) (dividend quo : Fpac), i ≤ 59 →
    divLoopChecked qd divisor i dividend quo = some (divLoop qd divisor i dividend quo)
  | 0, _, _, _ => rfl
  | i + 1, dividend, quo, h => by
    unfold divLoopChecked divLoop
    by_cases hzero : dividend.isZero = true
    · rw [if_pos hzero, if_pos hzero]
      rfl
    · rw [if_neg hzero, if_neg hzero, bind_eq (Fpac.lsh1Checked_eq _)]
      dsimp only
      by_cases hfits : (!dividend.lt divisor) = true
      · rw [if_pos hfits, if_pos hfits]
        dsimp only
        rw [bind_eq (Fpac.lsh1Checked_eq _), bind_eq (signedOf_small (by omega) (by omega))]
        exact divLoopChecked_eq qd divisor i _ _ (by omega)
      · rw [if_neg hfits, if_neg hfits]
        dsimp only
        rw [bind_eq (Fpac.lsh1Checked_eq _), bind_eq (signedOf_small (by omega) (by omega))]
        exact divLoopChecked_eq qd divisor i _ _ (by omega)

/-- No more passes are left than there were. -/
theorem divLoop_passes (qd : Bool) (divisor : Fpac) (i : ℕ) (dividend quo : Fpac) :
    (divLoop qd divisor i dividend quo).1 ≤ i := by
  induction i generalizing dividend quo with
  | zero => exact le_rfl
  | succ i ih =>
    unfold divLoop
    dsimp only
    split_ifs <;> first | exact le_rfl | exact Nat.le_succ_of_le (ih _ _)

theorem justifiedChecked_eq {r : ℕ × Fpac} (h : r.1 ≤ 63) :
    justifiedChecked r = some (justified r) := by
  unfold justifiedChecked justified
  split_ifs
  · rw [Fpac.lshVChecked_eq _ (by omega) (by omega), Int.toNat_natCast]
  · rfl

/-- An early exit leaves 1 to 59 passes to shift the quotient by. -/
theorem divfp11Checked_eq (fac fsrc : Fpac) (fps : Word) :
    divfp11Checked fac fsrc fps = some (divfp11 fac fsrc fps) := by
  obtain ⟨hlo, hhi⟩ := getExp_bounds fac.h
  obtain ⟨hlo', hhi'⟩ := getExp_bounds fsrc.h
  unfold divfp11Checked
  rw [bind_eq (getExpChecked_eq _), bind_eq (getExpChecked_eq _)]
  by_cases hzero : getExp fac.h = 0
  · rw [if_pos hzero]
    unfold divfp11
    rw [if_pos hzero]
    rfl
  · let qd : Bool := fps &&& fpsD ≠ 0
    have hcount : quotientPasses qd ≤ 59 := by cases qd <;> decide
    have hloop := divLoopChecked_eq qd fsrc.getFrac.lshGuard _ fac.getFrac.lshGuard .zero hcount
    have hpasses := divLoop_passes qd fsrc.getFrac.lshGuard (quotientPasses qd)
      fac.getFrac.lshGuard .zero
    have hexp := normalizeOnce_exp (justified (divLoop qd fsrc.getFrac.lshGuard
      (quotientPasses qd) fac.getFrac.lshGuard .zero)) (getExp fac.h - getExp fsrc.h + fpBias + 1)
    unfold fpBias at hexp
    rw [if_neg hzero, divfp11_eq _ _ _ hzero, bind_eq (Fpac.lshGuardChecked_eq _),
      bind_eq (Fpac.lshGuardChecked_eq _)]
    unfold fpBias
    rw [bind_eq (signedOf_small (by omega) (by omega)),
      bind_eq (signedOf_small (by omega) (by omega)),
      bind_eq (signedOf_small (by omega) (by omega))]
    refine (bind_eq hloop).trans ?_
    rw [bind_eq (justifiedChecked_eq (by omega)),
      bind_eq (normalizeOnceChecked_eq _ (by omega) (by omega))]
    exact roundAndPackChecked_eq _ _ _ _ _ ⟨by omega, by omega⟩

/-! ## The split -/

/-- The fraction of a product with 1 to 56 integer places. -/
theorem modFractionChecked_eq (sign : Fpac) {fe : Fpac × ℤ} (fps : Word) (hlo : fpBias < fe.2)
    (hhi : fe.2 ≤ fpBias + 56) :
    let frac := fe.1.masked (Fpac.fmask.rshV (fe.2 - fpBias).toNat)
    modFractionChecked sign frac (fe.2 - fpBias) fps =
      some (modFraction sign frac (fe.2 - fpBias).toNat fps) := by
  intro frac
  unfold modFractionChecked modFraction
  by_cases hzero : frac.isZero = true
  · rw [if_pos hzero, if_pos hzero]
    rfl
  · have hnorm : Normalizes true (frac.lshV (fe.2 - fpBias).toNat, fpBias) :=
      fractionBits_normalizes hhi (Bool.eq_false_iff.2 hzero) true
    obtain ⟨hrun, hsmall⟩ :=
      normalizedChecked_eq hnorm (show 0 ≤ fpBias by decide) (show fpBias ≤ 255 by decide)
    rw [if_neg hzero, if_neg hzero, bind_eq (Fpac.lshVChecked_eq _ (by omega) (by omega)),
      bind_eq hrun]
    exact roundAndPackChecked_eq _ _ _ _ _ hsmall

theorem modfp11Checked_eq (fac fsrc : Fpac) (fps : Word) :
    modfp11Checked fac fsrc fps = some (modfp11 fac fsrc fps) := by
  obtain ⟨hrun, hsmall⟩ := mulFracChecked_eq fac fsrc
  have hpacked (frac : Fpac) (r : Bool) (fec : ℕ) := roundAndPackChecked_eq
    { fac with h := fac.h ^^^ fsrc.h } frac r fps fec hsmall
  unfold modfp11Checked modfp11
  rw [bind_eq (getExpChecked_eq _), bind_eq (getExpChecked_eq _)]
  by_cases hzero : getExp fac.h = 0 ∨ getExp fsrc.h = 0
  · rw [if_pos hzero, if_pos hzero]
    rfl
  · rw [if_neg hzero, if_neg hzero, bind_eq hrun]
    dsimp only
    by_cases hbelow : (mulFrac fac fsrc).2 ≤ fpBias
    · rw [if_pos hbelow, if_pos hbelow, bind_eq (hpacked _ _ _)]
      rfl
    · rw [if_neg hbelow, if_neg hbelow]
      by_cases hwhole : (if fps &&& fpsD ≠ 0 then fpBias + 56 else fpBias + 24) <
          (mulFrac fac fsrc).2
      · rw [if_pos hwhole, if_pos hwhole, bind_eq (hpacked _ _ _)]
        rfl
      · have hhi : (mulFrac fac fsrc).2 ≤ fpBias + 56 := by
          split at hwhole <;> omega
        have hshift : 1 ≤ (mulFrac fac fsrc).2 - fpBias ∧ (mulFrac fac fsrc).2 - fpBias ≤ 56 := by
          omega
        rw [if_neg hwhole, if_neg hwhole, bind_eq (signedOf_small (by omega) (by omega)),
          bind_eq (Fpac.rshVChecked_eq _ (by omega) (by omega)),
          bind_eq (modFractionChecked_eq _ _ (by omega) hhi), bind_eq (hpacked _ _ _)]
        rfl

end Pdp11
