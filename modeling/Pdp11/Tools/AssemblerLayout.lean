import Pdp11.Frontend.ImageRuns

namespace Pdp11

open CText

/-! ## Where statements are placed -/

/-- The words a statement takes. -/
def AsmStmt.size (stmt : AsmStmt) : ℕ := (stmt.code.map Prod.fst).getD 0

/-- The address after a statement at `addr`. -/
def advance (addr : ℕ) : AsmStmt → ℕ
  | .org a => a
  | stmt => addr + stmt.size * 2

def addressAfter (org : ℕ) (prog : List AsmStmt) : ℕ := prog.foldl advance org

/-- No `org` goes back. -/
def MovesForward (addr : ℕ) : List AsmStmt → Prop
  | [] => True
  | stmt :: prog => addr ≤ advance addr stmt ∧ MovesForward (advance addr stmt) prog

/-- The items of a program that starts at `addr`. -/
def itemsFrom (addr : ℕ) : List AsmStmt → List AsmItem
  | [] => []
  | stmt :: prog =>
    (stmt.code.map fun c => ⟨addr, c.1, c.2⟩).toList ++ itemsFrom (advance addr stmt) prog

theorem addressAfter_cons (addr : ℕ) (stmt : AsmStmt) (prog : List AsmStmt) :
    addressAfter addr (stmt :: prog) = addressAfter (advance addr stmt) prog := rfl

theorem itemsFrom_append (addr : ℕ) (pre post : List AsmStmt) :
    itemsFrom addr (pre ++ post) = itemsFrom addr pre ++ itemsFrom (addressAfter addr pre) post := by
  induction pre generalizing addr with
  | nil => rfl
  | cons stmt pre ih =>
    rw [List.cons_append, itemsFrom, itemsFrom, ih, List.append_assoc, addressAfter_cons]

theorem add_addr (a : Asm) (stmt : AsmStmt) : (a.add stmt).addr = advance a.addr stmt := by
  cases stmt <;> simp [Asm.add, advance, AsmStmt.size, AsmStmt.code, Asm.emitItem]

theorem add_items (a : Asm) (stmt : AsmStmt) :
    (a.add stmt).items = a.items ++ (stmt.code.map fun c => ⟨a.addr, c.1, c.2⟩).toList := by
  cases stmt <;> simp [Asm.add, AsmStmt.code, Asm.emitItem]

theorem foldl_add_addr (prog : List AsmStmt) (a : Asm) :
    (prog.foldl Asm.add a).addr = addressAfter a.addr prog := by
  induction prog generalizing a with
  | nil => rfl
  | cons stmt prog ih => rw [List.foldl_cons, ih, add_addr, addressAfter_cons]

theorem foldl_add_items (prog : List AsmStmt) (a : Asm) :
    (prog.foldl Asm.add a).items = a.items ++ itemsFrom a.addr prog := by
  induction prog generalizing a with
  | nil => simp [itemsFrom]
  | cons stmt prog ih => rw [List.foldl_cons, ih, add_items, add_addr, itemsFrom, List.append_assoc]

theorem foldl_add_origin (prog : List AsmStmt) (a : Asm) :
    (prog.foldl Asm.add a).origin = a.origin := by
  induction prog generalizing a with
  | nil => rfl
  | cons stmt prog ih =>
    rw [List.foldl_cons, ih]
    cases stmt <;> rfl

/-- Only a label statement changes the address of a label. -/
theorem add_labels (a : Asm) {stmt : AsmStmt} {name : String} (h : stmt ≠ .label name) :
    (a.add stmt).labels name = a.labels name := by
  cases stmt with
  | label n =>
    have hne : name ≠ n := by
      rintro rfl
      exact h rfl
    simp [Asm.add, hne]
  | _ => simp [Asm.add, AsmStmt.code, Asm.emitItem]

theorem foldl_add_labels (prog : List AsmStmt) {name : String}
    (h : ∀ stmt ∈ prog, stmt ≠ .label name) (a : Asm) :
    (prog.foldl Asm.add a).labels name = a.labels name := by
  induction prog generalizing a with
  | nil => rfl
  | cons stmt prog ih =>
    rw [List.foldl_cons, ih (fun s hs => h s (List.mem_cons_of_mem stmt hs)),
      add_labels a (h stmt List.mem_cons_self)]

/-- A label names the address of what follows its last statement. -/
theorem assemble_labels {org : ℕ} {pre post : List AsmStmt} {name : String}
    (h : ∀ stmt ∈ post, stmt ≠ .label name) :
    (assemble org (pre ++ .label name :: post)).labels name = some (addressAfter org pre) := by
  rw [assemble, List.foldl_append, List.foldl_cons, foldl_add_labels post h]
  simp [Asm.add, foldl_add_addr, asmInit]

theorem assemble_items (org : ℕ) (prog : List AsmStmt) :
    (assemble org prog).items = itemsFrom org prog :=
  foldl_add_items prog (asmInit org)

/-- A statement becomes as many words as the first pass counted. -/
theorem code_length {stmt : AsmStmt} {n : ℕ} {fn : Labels → ℕ → Option (List Word)}
    (hcode : stmt.code = some (n, fn)) {labels : Labels} {after : ℕ} {ws : List Word}
    (hfn : fn labels after = some ws) : ws.length = n := by
  cases stmt <;>
    simp only [AsmStmt.code, Option.some.injEq, Prod.mk.injEq, reduceCtorEq] at hcode
  all_goals
    obtain ⟨rfl, rfl⟩ := hcode
    simp only [Option.some.injEq, Option.map_eq_some_iff, Option.bind_eq_some_iff] at hfn
  case branch | sob =>
    obtain ⟨t, -, w, -, rfl⟩ := hfn
    rfl
  case movLabel | jsr | pushLabel =>
    obtain ⟨t, -, rfl⟩ := hfn
    rfl
  all_goals
    subst hfn
    rfl

/-! ## The words of a program -/

/-- The deposits of items, with the labels of the whole program. -/
def depositsOf (labels : Labels) (items : List AsmItem) : Option (List (ℕ × Word)) :=
  (items.mapM (AsmItem.deposits labels)).map List.flatten

variable {labels : Labels}

theorem depositsOf_append {xs ys : List AsmItem} {words : List (ℕ × Word)}
    (h : depositsOf labels (xs ++ ys) = some words) :
    ∃ v w, depositsOf labels xs = some v ∧ depositsOf labels ys = some w ∧ words = v ++ w := by
  simp only [depositsOf, List.mapM_append, Option.map_eq_some_iff, bind, Option.bind_eq_some_iff,
    pure, Option.some.injEq] at h ⊢
  obtain ⟨-, ⟨vs, hvs, ws, hws, rfl⟩, rfl⟩ := h
  exact ⟨vs.flatten, ws.flatten, ⟨vs, hvs, rfl⟩, ⟨ws, hws, rfl⟩, List.flatten_append⟩

theorem depositsOf_singleton {it : AsmItem} {words : List (ℕ × Word)}
    (h : depositsOf labels [it] = some words) :
    ∃ ws, it.fn labels (it.addr + it.nwords * 2) = some ws ∧
      words = ws.mapIdx fun i w => (it.addr + i * 2, w) := by
  simp only [depositsOf, List.mapM_cons, List.mapM_nil, AsmItem.deposits, bind, pure,
    Option.map_eq_some_iff, Option.bind_eq_some_iff, Option.some.injEq] at h
  obtain ⟨-, ⟨-, ⟨ws, hws, rfl⟩, -, rfl, rfl⟩, rfl⟩ := h
  exact ⟨ws, hws, by simp⟩

/-- What one statement deposits lies between its address and the next. -/
structure WithinRange (lo hi : ℕ) (words : List (ℕ × Word)) : Prop where
  bounds : ∀ w ∈ words, lo ≤ w.1 ∧ w.1 + 2 ≤ hi
  apart : words.Pairwise fun v w => v.1 + 2 ≤ w.1

theorem WithinRange.append {lo mid hi : ℕ} {v w : List (ℕ × Word)} (hv : WithinRange lo mid v)
    (hw : WithinRange mid hi w) (hlo : lo ≤ mid) (hhi : mid ≤ hi) : WithinRange lo hi (v ++ w) := by
  refine ⟨?_, ?_⟩
  · intro x hx
    rcases List.mem_append.1 hx with hx | hx
    · have := hv.bounds x hx
      omega
    · have := hw.bounds x hx
      omega
  · refine List.pairwise_append.2 ⟨hv.apart, hw.apart, ?_⟩
    intro x hx y hy
    have hxb := hv.bounds x hx
    have hyb := hw.bounds y hy
    omega

theorem withinRange_mapIdx (addr : ℕ) (ws : List Word) :
    WithinRange addr (addr + ws.length * 2) (ws.mapIdx fun i w => (addr + i * 2, w)) := by
  refine ⟨?_, ?_⟩
  · intro w hw
    obtain ⟨i, hi, rfl⟩ := List.mem_mapIdx.1 hw
    dsimp only
    omega
  · rw [List.pairwise_iff_getElem]
    intro i j hi hj hij
    simp only [List.getElem_mapIdx]
    omega

theorem addressAfter_le {addr : ℕ} {prog : List AsmStmt} (h : MovesForward addr prog) :
    addr ≤ addressAfter addr prog := by
  induction prog generalizing addr with
  | nil => exact le_rfl
  | cons stmt prog ih => exact h.1.trans (ih h.2)

/-- A program that moves forward lays its words out in order, without overlap. -/
theorem depositsOf_withinRange {addr : ℕ} {prog : List AsmStmt} (hforward : MovesForward addr prog)
    {words : List (ℕ × Word)} (h : depositsOf labels (itemsFrom addr prog) = some words) :
    WithinRange addr (addressAfter addr prog) words := by
  induction prog generalizing addr words with
  | nil =>
    have hnil : words = [] := by simpa [itemsFrom, depositsOf] using h.symm
    rw [hnil]
    exact ⟨by simp, by simp⟩
  | cons stmt prog ih =>
    obtain ⟨v, w, hv, hw, rfl⟩ := depositsOf_append h
    suffices hhead : WithinRange addr (advance addr stmt) v from
      hhead.append (ih hforward.2 hw) hforward.1 (addressAfter_le hforward.2)
    rcases hcode : stmt.code with _ | ⟨n, fn⟩
    · have hnil : v = [] := by simpa [hcode, depositsOf] using hv.symm
      rw [hnil]
      exact ⟨by simp, by simp⟩
    · rw [hcode] at hv
      obtain ⟨ws, hws, rfl⟩ := depositsOf_singleton hv
      have hsize : addr + ws.length * 2 = advance addr stmt := by
        rw [code_length hcode hws]
        cases stmt <;> simp_all [advance, AsmStmt.size, AsmStmt.code]
      rw [← hsize]
      exact withinRange_mapIdx addr ws

/-! ## The program in memory -/

theorem depositWords_outside {pa : PhysAddr} (words : List (ℕ × Word))
    (h : ∀ w ∈ words, memIndex pa ≠ memIndex (BitVec.ofNat 32 w.1)) (mem : Mem) :
    memReadWord (depositWords mem words) pa = memReadWord mem pa := by
  induction words generalizing mem with
  | nil => rfl
  | cons w words ih =>
    have hne := h w List.mem_cons_self
    have hrest := ih (fun v hv => h v (List.mem_cons_of_mem w hv))
    rw [depositWords, List.foldl_cons, ← depositWords, hrest]
    simp [memReadWord, memWriteWord, Function.update_of_ne hne]

theorem memIndex_ne_of_apart {a b : ℕ} (hab : a + 2 ≤ b) (hb : b + 2 ≤ 2 ^ 22) :
    memIndex (BitVec.ofNat 32 a) ≠ memIndex (BitVec.ofNat 32 b) := by
  intro h
  have hnat := congrArg BitVec.toNat h
  rw [memIndex_toNat, memIndex_toNat, BitVec.toNat_ofNat, BitVec.toNat_ofNat] at hnat
  omega

/-- Words laid out in order are all found where they were put. -/
theorem depositWords_of_mem {lo hi : ℕ} {words : List (ℕ × Word)} (hrange : WithinRange lo hi words)
    (hhi : hi ≤ 2 ^ 22) {w : ℕ × Word} (hw : w ∈ words) (mem : Mem) :
    memReadWord (depositWords mem words) (BitVec.ofNat 32 w.1) = w.2 := by
  induction words generalizing mem with
  | nil => cases hw
  | cons v words ih =>
    have hbounds := fun x hx => hrange.bounds x (List.mem_cons_of_mem v hx)
    have hapart := List.pairwise_cons.1 hrange.apart
    rw [depositWords, List.foldl_cons, ← depositWords]
    rcases List.mem_cons.1 hw with rfl | hw
    · rw [depositWords_outside]
      · simp [memReadWord, memWriteWord]
      · intro x hx
        have := hbounds x hx
        exact memIndex_ne_of_apart (hapart.1 x hx) (by omega)
    · exact ih ⟨hbounds, hapart.2⟩ hw _

/-- The program `prog`, put at `org` into the memory of `cpu`. -/
structure ProgramLoaded (cpu : Cpu) (org : ℕ) (prog : List AsmStmt) (s : Cpu) : Prop where
  /-- Every statement stands at the address the statements before it lead to. -/
  code : ∀ pre stmt post n fn, prog = pre ++ stmt :: post → stmt.code = some (n, fn) →
    ∃ ws : List Word,
      fn (assemble org prog).labels (addressAfter org pre + n * 2) = some ws ∧ ws.length = n ∧
      ∀ i (h : i < ws.length),
        memReadWord s.mem (BitVec.ofNat 32 (addressAfter org pre + i * 2)) = ws[i]
  /-- A label is the address of what follows it. -/
  label : ∀ pre name post, prog = pre ++ .label name :: post →
    (∀ stmt ∈ post, stmt ≠ .label name) →
      (assemble org prog).labels name = some (addressAfter org pre)
  elsewhere : ∀ pa, (∀ pre stmt post, prog = pre ++ stmt :: post → ∀ i < stmt.size,
      memIndex pa ≠ memIndex (BitVec.ofNat 32 (addressAfter org pre + i * 2))) →
    memReadWord s.mem pa = memReadWord cpu.mem pa
  rest : s = { cpu with
    mem := s.mem
    regs.r := Function.update cpu.regs.r regPc (BitVec.ofNat 16 org) }

theorem item_of_split {org : ℕ} {prog pre post : List AsmStmt} {stmt : AsmStmt} {n : ℕ}
    {fn : Labels → ℕ → Option (List Word)} (hprog : prog = pre ++ stmt :: post)
    (hcode : stmt.code = some (n, fn)) :
    itemsFrom org prog = itemsFrom org pre ++
      (⟨addressAfter org pre, n, fn⟩ :: itemsFrom (advance (addressAfter org pre) stmt) post) := by
  rw [hprog, itemsFrom_append, itemsFrom, hcode]
  rfl

/-- The words that the second pass deposits are those of the statements. -/
theorem mem_deposits {org : ℕ} {prog : List AsmStmt} {words : List (ℕ × Word)}
    (h : depositsOf labels (itemsFrom org prog) = some words) {w : ℕ × Word} (hw : w ∈ words) :
    ∃ pre stmt post, prog = pre ++ stmt :: post ∧ ∃ i < stmt.size,
      w.1 = addressAfter org pre + i * 2 := by
  induction prog generalizing org words with
  | nil =>
    have hnil : words = [] := by simpa [itemsFrom, depositsOf] using h.symm
    rw [hnil] at hw
    cases hw
  | cons stmt prog ih =>
    obtain ⟨v, u, hv, hu, rfl⟩ := depositsOf_append h
    rcases List.mem_append.1 hw with hw | hw
    · rcases hcode : stmt.code with _ | ⟨n, fn⟩
      · have hnil : v = [] := by simpa [hcode, depositsOf] using hv.symm
        rw [hnil] at hw
        cases hw
      · rw [hcode] at hv
        obtain ⟨ws, hws, rfl⟩ := depositsOf_singleton hv
        obtain ⟨i, hi, rfl⟩ := List.mem_mapIdx.1 hw
        refine ⟨[], stmt, prog, rfl, i, ?_, rfl⟩
        rw [AsmStmt.size, hcode, Option.map_some, Option.getD_some]
        rwa [code_length hcode hws] at hi
    · obtain ⟨pre, s, post, rfl, i, hi, haddr⟩ := ih hu hw
      exact ⟨stmt :: pre, s, post, rfl, i, hi, haddr⟩

end Pdp11
