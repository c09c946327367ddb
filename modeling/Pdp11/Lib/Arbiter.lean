import Mathlib.Data.List.Induction
import Mathlib.Data.Nat.Basic
import Mathlib.Order.Basic

/-! Requesters of several levels, and the scan that selects one of the highest. -/

namespace Arbiter

variable {ι : Type} (level : ι → ℕ) (req : ι → Bool)

/-- The highest level at which a requester requests, 0 if none does. -/
def highestLevel (ds : List ι) : ℕ := ((ds.filter req).map level).foldr max 0

/-- A later requester replaces the best so far only if it outranks it. -/
def better (best : Option ι × ℕ) (d : ι) : Option ι × ℕ :=
  if req d ∧ best.2 < level d then (some d, level d) else best

def scan (ds : List ι) : Option ι × ℕ := ds.foldl (better level req) (none, 0)

/-- The requester an arbiter serves: it requests at the highest level, and comes first of those
that do. -/
structure Selected (num : ι → ℕ) (ds : List ι) (d : ι) : Prop where
  mem : d ∈ ds
  requests : req d = true
  top : level d = highestLevel level req ds
  first : ∀ e ∈ ds, req e = true → level e = level d → num d ≤ num e

variable {level req} {ds : List ι} {d e : ι}

theorem highestLevel_nil : highestLevel level req [] = 0 := rfl

theorem highestLevel_cons : highestLevel level req (d :: ds) =
    if req d then max (level d) (highestLevel level req ds) else highestLevel level req ds := by
  unfold highestLevel
  by_cases h : req d <;> simp [h]

theorem highestLevel_append : highestLevel level req (ds ++ [d]) =
    if req d then max (highestLevel level req ds) (level d) else highestLevel level req ds := by
  induction ds with
  | nil => simp [highestLevel_cons, highestLevel_nil]
  | cons e ds ih =>
    rw [List.cons_append, highestLevel_cons, highestLevel_cons, ih]
    split_ifs <;> omega

theorem le_highestLevel (he : e ∈ ds) (h : req e = true) : level e ≤ highestLevel level req ds := by
  induction ds with
  | nil => cases he
  | cons d ds ih =>
    rw [highestLevel_cons]
    rcases List.mem_cons.1 he with rfl | he
    · rw [if_pos h]
      exact le_max_left _ _
    · have hle := ih he
      split
      · exact hle.trans (le_max_right _ _)
      · exact hle

theorem scan_append : scan level req (ds ++ [d]) = better level req (scan level req ds) d := by
  rw [scan, List.foldl_append]
  rfl

/-- The level found is the highest. -/
theorem scan_level : (scan level req ds).2 = highestLevel level req ds := by
  induction ds using List.reverseRecOn with
  | nil => rfl
  | append_singleton ds d ih =>
    rw [scan_append, highestLevel_append, better, ih]
    by_cases hd : req d <;> by_cases hl : highestLevel level req ds < level d
    · simp [hd, hl, max_eq_right_of_lt hl]
    · simp [hd, hl, ih, max_eq_left (not_lt.1 hl)]
    · simp [hd, ih]
    · simp [hd, ih]

/-- No requester is found only where no level is requested. -/
theorem scan_none (h : (scan level req ds).1 = none) : highestLevel level req ds = 0 := by
  induction ds using List.reverseRecOn with
  | nil => rfl
  | append_singleton ds d ih =>
    rw [← scan_level, scan_append]
    rw [scan_append] at h
    unfold better at h ⊢
    split at h
    · cases h
    · rw [if_neg ‹_›, scan_level]
      exact ih h

/-- The requester found is the first of the highest level, in a list in order of number. -/
theorem scan_selected (num : ι → ℕ) (hds : ds.Pairwise fun d e => num d ≤ num e)
    (h : (scan level req ds).1 = some d) : Selected level req num ds d := by
  induction ds using List.reverseRecOn with
  | nil => cases h
  | append_singleton ds e ih =>
    obtain ⟨hds, -, hlast⟩ := List.pairwise_append.1 hds
    rw [scan_append] at h
    have hle {c : ι} (hc : c ∈ ds) (hreq : req c = true) : level c ≤ highestLevel level req ds :=
      le_highestLevel hc hreq
    by_cases hb : req e = true ∧ (scan level req ds).2 < level e
    · rw [better, if_pos hb] at h
      obtain rfl := Option.some.inj h
      obtain ⟨hreq, hlt⟩ := hb
      rw [scan_level] at hlt
      refine ⟨by simp, hreq, ?_, fun c hc hcreq hcl => ?_⟩
      · rw [highestLevel_append, if_pos hreq, max_eq_right_of_lt hlt]
      · rcases List.mem_append.1 hc with hc | hc
        · have := hle hc hcreq
          omega
        · rw [List.mem_singleton.1 hc]
    · rw [better, if_neg hb] at h
      obtain ⟨hmem, hreq, htop, hfirst⟩ := ih hds h
      rw [scan_level] at hb
      refine ⟨by simp [hmem], hreq, ?_, fun c hc hcreq hcl => ?_⟩
      · rw [highestLevel_append, htop]
        split_ifs with he
        · have : ¬highestLevel level req ds < level e := fun hlt => hb ⟨he, hlt⟩
          rw [max_eq_left (not_lt.1 this)]
        · rfl
      · rcases List.mem_append.1 hc with hc | hc
        · exact hfirst c hc hcreq hcl
        · exact hlast d hmem c hc

/-- In a list of falling levels the first requester has the highest. -/
theorem find_level (hds : ds.Pairwise fun d e => level e ≤ level d) :
    ((ds.find? req).map level).getD 0 = highestLevel level req ds := by
  induction ds with
  | nil => rfl
  | cons d ds ih =>
    obtain ⟨hd, hds⟩ := List.pairwise_cons.1 hds
    rw [highestLevel_cons]
    by_cases h : req d
    · have hle : highestLevel level req ds ≤ level d := by
        rw [← ih hds]
        cases hf : ds.find? req with
        | none => exact Nat.zero_le _
        | some e => exact hd e (List.mem_of_find?_eq_some hf)
      simp [h, max_eq_left hle]
    · simpa [h] using ih hds

end Arbiter
