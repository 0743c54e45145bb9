import ProjectMu.Arm64Machine

/-!
# Programs on the AArch64 machine

A program is a list of instructions, and a run of it goes from index to index. Every step of
a run keeps the bytes at the protected addresses `P`. Where the encoding of the program lies
in memory at protected addresses, the machine executes what the program runs.
-/

namespace Arm64

/-- A run of `p` from the index `i` to the index `j`. -/
inductive Runs (p : List Instr) (P : Set Address) : ℕ → Core → ℕ → Core → Prop
  | refl (i : ℕ) (c : Core) : Runs p P i c i c
  | step {i j k : ℕ} {c c' : Core} (instr : Instr) (hfetch : p[i]? = some instr)
      (hkeep : ∀ a ∈ P, (instr.exec c).mem a = c.mem a) (hjump : i + instr.jump c = j)
      (rest : Runs p P j (instr.exec c) k c') : Runs p P i c k c'

variable {p : List Instr} {P : Set Address} {i j k : ℕ} {c c' c'' : Core}

theorem Runs.trans (h : Runs p P i c j c') (h' : Runs p P j c' k c'') : Runs p P i c k c'' := by
  induction h with
  | refl => exact h'
  | step instr hfetch hkeep hjump _ ih => exact .step instr hfetch hkeep hjump (ih h')

theorem Runs.mono {Q : Set Address} (hPQ : P ⊆ Q) (h : Runs p Q i c j c') : Runs p P i c j c' := by
  induction h with
  | refl => exact .refl _ _
  | step instr hfetch hkeep hjump _ ih =>
    exact .step instr hfetch (fun a ha => hkeep a (hPQ ha)) hjump ih

theorem Runs.keeps (h : Runs p P i c j c') : ∀ a ∈ P, c'.mem a = c.mem a := by
  induction h with
  | refl => exact fun _ _ => rfl
  | step _ _ hkeep _ _ ih => exact fun a ha => (ih a ha).trans (hkeep a ha)

/-- A program that starts with another one runs as that one does. -/
theorem Runs.append (h : Runs p P i c j c') (q : List Instr) : Runs (p ++ q) P i c j c' := by
  induction h with
  | refl => exact .refl _ _
  | step instr hfetch hkeep hjump _ ih =>
    obtain ⟨hlt, -⟩ := List.getElem?_eq_some_iff.mp hfetch
    exact .step instr ((List.getElem?_append_left hlt).trans hfetch) hkeep hjump ih

/-- A program that ends with another one runs as that one does, further on. -/
theorem Runs.prepend (h : Runs p P i c j c') (q : List Instr) :
    Runs (q ++ p) P (q.length + i) c (q.length + j) c' := by
  induction h with
  | refl => exact .refl _ _
  | step instr hfetch hkeep hjump _ ih =>
    refine .step instr ?_ hkeep ?_ ih
    · rw [List.getElem?_append_right (Nat.le_add_right _ _), Nat.add_sub_cancel_left, hfetch]
    · rw [Nat.cast_add, Nat.cast_add, add_assoc, hjump]

/-- The registers an instruction can change. -/
def Instr.dests : Instr → List ℕ
  | .movz _ rd _ _ | .movk _ rd _ _ | .orr _ rd _ _ | .add _ rd _ _ | .sub _ rd _ _ => [rd]
  | .addImm _ rd _ _ | .subImm _ rd _ _ | .andImm rd _ _ | .ubfx rd _ _ _ => [rd]
  | .csel _ rd _ _ _ | .ldr _ rd _ _ => [rd]
  | .ldrPre _ rt rn _ => [rt, rn]
  | .cmp .. | .cmpImm .. | .ccmp .. | .str .. | .b _ | .bCond .. | .nop => []

theorem Core.write_x {r r' : ℕ} {v : BitVec 64} (h : r' ≠ r) : (c.write r v).x r' = c.x r' := by
  rw [Core.write]
  split
  · rfl
  · exact Function.update_of_ne h ..

theorem Core.writeSp_x {r r' : ℕ} {v : BitVec 64} (h : r' ≠ r) :
    (c.writeSp r v).x r' = c.x r' := by
  rw [Core.writeSp]
  split
  · rfl
  · exact Function.update_of_ne h ..

theorem Core.read_write {r : ℕ} {v : BitVec 64} (hr : r ≠ 31) : (c.write r v).read r = v := by
  rw [Core.write, if_neg hr, Core.read, if_neg hr]
  exact Function.update_self ..

theorem Core.write_write {r : ℕ} {u v : BitVec 64} : (c.write r u).write r v = c.write r v := by
  rw [Core.write, Core.write, Core.write]
  split
  · rfl
  · simp only [Function.update_idem]

theorem Core.write_sp {r : ℕ} {v : BitVec 64} : (c.write r v).sp = c.sp := by
  rw [Core.write]
  split <;> rfl

theorem Core.writeSp_sp {r : ℕ} {v : BitVec 64} (h : r ≠ 31) : (c.writeSp r v).sp = c.sp := by
  rw [Core.writeSp, if_neg h]

theorem Core.readSp_writeSp_of_ne {r r' : ℕ} {v : BitVec 64} (h : r' ≠ r) :
    (c.writeSp r v).readSp r' = c.readSp r' := by
  rw [Core.readSp, Core.readSp, Core.writeSp_x h]
  by_cases hr : r' = 31
  · rw [if_pos hr, if_pos hr, Core.writeSp_sp (hr ▸ h.symm)]
  · rw [if_neg hr, if_neg hr]

theorem Instr.exec_x {instr : Instr} {r : ℕ} (h : r ∉ instr.dests) :
    (instr.exec c).x r = c.x r := by
  cases instr with
  | ldrPre s rt rn offset =>
    obtain ⟨hrt, hrn⟩ := not_or.mp (fun hr => h (List.mem_pair.mpr hr))
    exact (Core.write_x hrt).trans (Core.writeSp_x hrn)
  | movz s rd => exact Core.write_x (fun hr => h (List.mem_singleton.mpr hr))
  | movk s rd => exact Core.write_x (fun hr => h (List.mem_singleton.mpr hr))
  | orr s rd => exact Core.write_x (fun hr => h (List.mem_singleton.mpr hr))
  | add s rd => exact Core.write_x (fun hr => h (List.mem_singleton.mpr hr))
  | sub s rd => exact Core.write_x (fun hr => h (List.mem_singleton.mpr hr))
  | addImm s rd => exact Core.writeSp_x (fun hr => h (List.mem_singleton.mpr hr))
  | subImm s rd => exact Core.writeSp_x (fun hr => h (List.mem_singleton.mpr hr))
  | andImm rd => exact Core.writeSp_x (fun hr => h (List.mem_singleton.mpr hr))
  | ubfx rd => exact Core.write_x (fun hr => h (List.mem_singleton.mpr hr))
  | csel s rd => exact Core.write_x (fun hr => h (List.mem_singleton.mpr hr))
  | ldr s rt => exact Core.write_x (fun hr => h (List.mem_singleton.mpr hr))
  | cmp | cmpImm | ccmp | str | b | bCond | nop => rfl

theorem Instr.exec_sp {instr : Instr} (h : 31 ∉ instr.dests) : (instr.exec c).sp = c.sp := by
  cases instr with
  | ldrPre s rt rn offset =>
    have hrn : rn ≠ 31 := fun hr => h (List.mem_pair.mpr (.inr hr.symm))
    exact Core.write_sp.trans (Core.writeSp_sp hrn)
  | addImm s rd => exact Core.writeSp_sp (fun hr => h (List.mem_singleton.mpr hr.symm))
  | subImm s rd => exact Core.writeSp_sp (fun hr => h (List.mem_singleton.mpr hr.symm))
  | andImm rd => exact Core.writeSp_sp (fun hr => h (List.mem_singleton.mpr hr.symm))
  | movz | movk | orr | add | sub | ubfx | csel | ldr => exact Core.write_sp
  | cmp | cmpImm | ccmp | str | b | bCond | nop => rfl

/-- A register that no instruction of the program changes is as before. -/
theorem Runs.x_eq {r : ℕ} (h : Runs p P i c j c') (hr : ∀ instr ∈ p, r ∉ instr.dests) :
    c'.x r = c.x r := by
  induction h with
  | refl => rfl
  | step instr hfetch _ _ _ ih =>
    exact ih.trans (Instr.exec_x (hr instr (List.mem_of_getElem? hfetch)))

theorem Runs.sp_eq (h : Runs p P i c j c') (hr : ∀ instr ∈ p, 31 ∉ instr.dests) :
    c'.sp = c.sp := by
  induction h with
  | refl => rfl
  | step instr hfetch _ _ _ ih =>
    exact ih.trans (Instr.exec_sp (hr instr (List.mem_of_getElem? hfetch)))

def execAll (block : List Instr) (c : Core) : Core := block.foldl (fun c instr => instr.exec c) c

def Instr.IsStraight : Instr → Bool
  | .b _ | .bCond .. | .str .. => false
  | _ => true

theorem Instr.jump_of_isStraight {instr : Instr} (h : instr.IsStraight) : instr.jump c = 1 := by
  cases instr <;> first | rfl | cases h

theorem Instr.exec_mem {instr : Instr} (h : instr.IsStraight) : (instr.exec c).mem = c.mem := by
  have hwrite {c : Core} {r : ℕ} {v : BitVec 64} : (c.write r v).mem = c.mem := by
    rw [Core.write]
    split <;> rfl
  have hwriteSp {c : Core} {r : ℕ} {v : BitVec 64} : (c.writeSp r v).mem = c.mem := by
    rw [Core.writeSp]
    split <;> rfl
  cases instr with
  | ldrPre => exact hwrite.trans hwriteSp
  | movz | movk | orr | add | sub | ubfx | csel | ldr => exact hwrite
  | addImm | subImm | andImm => exact hwriteSp
  | cmp | cmpImm | ccmp | nop => rfl
  | str | b | bCond => cases h

@[simp] theorem execAll_append {block block' : List Instr} :
    execAll (block ++ block') c = execAll block' (execAll block c) :=
  List.foldl_append

theorem execAll_x {block : List Instr} {r : ℕ} (h : ∀ instr ∈ block, r ∉ instr.dests) :
    (execAll block c).x r = c.x r := by
  induction block generalizing c with
  | nil => rfl
  | cons instr block ih =>
    obtain ⟨hinstr, hrest⟩ := List.forall_mem_cons.mp h
    exact (ih hrest).trans (Instr.exec_x hinstr)

theorem execAll_mem {block : List Instr} (h : block.all Instr.IsStraight) :
    (execAll block c).mem = c.mem := by
  induction block generalizing c with
  | nil => rfl
  | cons instr block ih =>
    rw [List.all_cons, Bool.and_eq_true] at h
    exact (ih h.2).trans (Instr.exec_mem h.1)

/-- Instructions that neither branch nor store run one after the other. -/
theorem Runs.straight (block : List Instr) (hblock : (p.drop i).take block.length = block)
    (h : block.all Instr.IsStraight) : Runs p P i c (i + block.length) (execAll block c) := by
  induction block generalizing i c with
  | nil => exact .refl _ _
  | cons instr block ih =>
    have hfetch : p[i]? = some instr := by
      have hfirst := congrArg (·[0]?) hblock
      simpa using hfirst
    have hrest : (p.drop (i + 1)).take block.length = block := by
      have htail := congrArg (List.drop 1) hblock
      rwa [List.length_cons, List.drop_take, Nat.add_sub_cancel, List.drop_drop] at htail
    rw [List.all_cons, Bool.and_eq_true] at h
    obtain ⟨hinstr, hall⟩ := h
    refine .step instr hfetch (fun a _ => by rw [Instr.exec_mem hinstr]) ?_ ?_ (j := i + 1)
    · rw [Instr.jump_of_isStraight hinstr]
      rfl
    · rw [List.length_cons, Nat.add_comm block.length, ← Nat.add_assoc]
      exact ih hrest hall

def Core.withMem (c : Core) (m : Memory) : Core := { c with mem := m }

/-- A store runs where it does not touch a protected address. -/
theorem Runs.store (s : Size) (rt rn : ℕ) (offset : BitVec 64) {v : BitVec 64} {a : Address}
    (hfetch : p[i]? = some (.str s rt rn offset)) (haddress : c.readSp rn + offset = a)
    (hvalue : c.read rt = v) (hkeep : ∀ x ∈ P, s.bytes ≤ (x - a).toNat) :
    Runs p P i c (i + 1) (c.withMem (c.mem.write a s.bytes v)) := by
  subst haddress hvalue
  refine .step _ hfetch (fun x hx => ?_) rfl (.refl _ _)
  exact if_neg (Nat.not_lt.mpr (hkeep x hx))

theorem Runs.branch {offset : ℤ} (hfetch : p[i]? = some (.b offset)) (hjump : i + offset = j) :
    Runs p P i c j c :=
  .step _ hfetch (fun _ _ => rfl) hjump (.refl _ _)

theorem Runs.taken {cond : Cond} {offset : ℤ} {f : Flags}
    (hfetch : p[i]? = some (.bCond cond offset)) (hflags : c.flags = f)
    (hcond : cond.holds f) (hjump : i + offset = j) : Runs p P i c j c := by
  subst hflags
  exact .step _ hfetch (fun _ _ => rfl) (by rw [Instr.jump, if_pos hcond, hjump]) (.refl _ _)

theorem Runs.notTaken {cond : Cond} {offset : ℤ} {f : Flags}
    (hfetch : p[i]? = some (.bCond cond offset)) (hflags : c.flags = f)
    (hcond : ¬cond.holds f) : Runs p P i c (i + 1) c := by
  subst hflags
  exact .step _ hfetch (fun _ _ => rfl) (by rw [Instr.jump, if_neg hcond]; rfl) (.refl _ _)

section
variable {w : ℕ} {a b : BitVec w}

theorem Cond.eq_holds : Cond.eq.holds (subFlags a b) ↔ a = b := decide_eq_true_iff

theorem Cond.ne_holds : Cond.ne.holds (subFlags a b) ↔ a ≠ b := by
  change (!decide (a = b)) = true ↔ a ≠ b
  rw [← decide_not, decide_eq_true_iff]

theorem Cond.cs_holds : Cond.cs.holds (subFlags a b) ↔ ¬a < b := by
  change decide (b.toNat ≤ a.toNat) = true ↔ ¬a.toNat < b.toNat
  rw [decide_eq_true_iff, Nat.not_lt]

theorem Cond.cc_holds : Cond.cc.holds (subFlags a b) ↔ a < b := by
  change (!decide (b.toNat ≤ a.toNat)) = true ↔ a.toNat < b.toNat
  rw [← decide_not, decide_eq_true_iff, Nat.not_le]

theorem Cond.hi_holds : Cond.hi.holds (subFlags a b) ↔ b < a := by
  change (decide (b.toNat ≤ a.toNat) && !decide (a = b)) = true ↔ b.toNat < a.toNat
  rw [← decide_not, ← Bool.decide_and, decide_eq_true_iff, ← BitVec.toNat_inj]
  omega

end

/-- The words of a little-endian encoding. -/
def wordsOf : List (BitVec 8) → List (BitVec 32)
  | b₀ :: b₁ :: b₂ :: b₃ :: rest => (b₃ ++ b₂ ++ b₁ ++ b₀) :: wordsOf rest
  | _ => []

def Encodes (code : List (BitVec 8)) (p : List Instr) : Prop :=
  (wordsOf code).map decode = p.map some

instance (code : List (BitVec 8)) (p : List Instr) : Decidable (Encodes code p) :=
  inferInstanceAs (Decidable (_ = _))

def HoldsCode (m : Memory) (pc : Address) (code : List (BitVec 8)) : Prop :=
  ∀ k (h : k < code.length), m (pc + BitVec.ofNat 64 k) = code[k]

theorem holdsCode_getD {pc : Address} {code : List (BitVec 8)} (h : code.length < 2 ^ 64) :
    HoldsCode (fun a => code.getD (a - pc).toNat 0) pc code := by
  intro k hk
  have hoffset : (pc + BitVec.ofNat 64 k - pc).toNat = k := by
    rw [BitVec.add_comm, BitVec.add_sub_cancel, BitVec.toNat_ofNat, Nat.mod_eq_of_lt (by omega)]
  beta_reduce
  rw [hoffset, List.getD, List.getElem?_eq_getElem hk, Option.getD_some]

/-- A store that ends before the code or starts after it. -/
theorem HoldsCode.write {m : Memory} {pc a : Address} {code : List (BitVec 8)} {n : ℕ}
    {v : BitVec 64} (h : HoldsCode m pc code) (hpc : pc.toNat + code.length ≤ 2 ^ 64)
    (ha : a.toNat + n ≤ 2 ^ 64)
    (hapart : a.toNat + n ≤ pc.toNat ∨ pc.toNat + code.length ≤ a.toNat) :
    HoldsCode (m.write a n v) pc code := by
  intro k hk
  have hbyte : (pc + BitVec.ofNat 64 k).toNat = pc.toNat + k := by
    rw [BitVec.toNat_add, BitVec.toNat_ofNat, Nat.mod_eq_of_lt (show k < 2 ^ 64 by omega),
      Nat.mod_eq_of_lt (by omega)]
  have houtside : ¬(pc + BitVec.ofNat 64 k - a).toNat < n := by
    rw [BitVec.toNat_sub, hbyte]
    omega
  exact (if_neg houtside).trans (h k hk)

/-- Stores one after the other, each of them before the code or after it. -/
theorem HoldsCode.foldl_write {m : Memory} {pc : Address} {code : List (BitVec 8)}
    (stores : List (Address × ℕ × BitVec 64)) (h : HoldsCode m pc code)
    (hpc : pc.toNat + code.length ≤ 2 ^ 64)
    (hstores : ∀ store ∈ stores, store.1.toNat + store.2.1 ≤ 2 ^ 64 ∧
      (store.1.toNat + store.2.1 ≤ pc.toNat ∨ pc.toNat + code.length ≤ store.1.toNat)) :
    HoldsCode (stores.foldl (fun m store => m.write store.1 store.2.1 store.2.2) m) pc code := by
  induction stores generalizing m with
  | nil => exact h
  | cons store stores ih =>
    obtain ⟨⟨hfit, hapart⟩, hrest⟩ := List.forall_mem_cons.mp hstores
    exact ih (h.write hpc hfit hapart) hrest

theorem HoldsCode.append_left {m : Memory} {pc : Address} {code code' : List (BitVec 8)}
    (h : HoldsCode m pc (code ++ code')) : HoldsCode m pc code := by
  intro k hk
  have hlt : k < (code ++ code').length := by
    rw [List.length_append]
    omega
  rw [h k hlt, List.getElem_append_left hk]

theorem HoldsCode.append_right {m : Memory} {pc : Address} {code code' : List (BitVec 8)}
    (h : HoldsCode m pc (code ++ code')) :
    HoldsCode m (pc + BitVec.ofNat 64 code.length) code' := by
  intro k hk
  have hlt : code.length + k < (code ++ code').length := by
    rw [List.length_append]
    omega
  have hat := h (code.length + k) hlt
  rwa [List.getElem_append_right (Nat.le_add_right _ _), BitVec.ofNat_add, ← BitVec.add_assoc,
    getElem_congr_idx (Nat.add_sub_cancel_left ..)] at hat

theorem HoldsCode.read32 {m : Memory} {pc : Address} {code : List (BitVec 8)} {w : BitVec 32}
    (h : HoldsCode m pc code) (hw : (wordsOf code)[i]? = some w) :
    m.read32 (pc + BitVec.ofNat 64 (4 * i)) = w := by
  induction code using wordsOf.induct generalizing pc i with
  | case1 b₀ b₁ b₂ b₃ rest ih =>
    cases i with
    | zero =>
      obtain rfl := Option.some_inj.mp hw
      have h0 := h 0 (by simp)
      have h1 := h 1 (by simp)
      have h2 := h 2 (by simp)
      have h3 := h 3 (by simp)
      rw [Memory.read32, Nat.mul_zero, BitVec.add_zero]
      rw [BitVec.add_zero] at h0
      exact congrArg₂ _ (congrArg₂ _ (congrArg₂ _ h3 h2) h1) h0
    | succ i =>
      have hrest : HoldsCode m (pc + 4) rest := by
        intro k hk
        have haddress : pc + 4 + BitVec.ofNat 64 k = pc + BitVec.ofNat 64 (k + 4) := by
          rw [Nat.add_comm k, BitVec.ofNat_add, ← BitVec.add_assoc]
          rfl
        rw [haddress]
        exact h (k + 4) (by simpa using hk)
      have := ih hrest hw
      rwa [BitVec.add_assoc, show (4 : Address) = BitVec.ofNat 64 4 from rfl, ← BitVec.ofNat_add,
        Nat.add_comm 4, ← Nat.mul_succ] at this
  | case2 code hshort =>
    rw [wordsOf] at hw
    · cases hw
    · exact hshort

theorem Encodes.fetch {code : List (BitVec 8)} {instr : Instr} (h : Encodes code p)
    (hfetch : p[i]? = some instr) : ∃ w, (wordsOf code)[i]? = some w ∧ decode w = some instr := by
  have hmap := congrArg (·[i]?) h
  simp only [List.getElem?_map, hfetch, Option.map_some] at hmap
  exact Option.map_eq_some_iff.mp hmap

theorem runUntil_unique {stop : Address} {n m : ℕ} {s s' s'' : State}
    (h : runUntil stop n s = some s') (h' : runUntil stop m s = some s'') : s' = s'' := by
  induction n generalizing m s with
  | zero =>
    rw [runUntil] at h
    split at h
    · next hstop =>
      cases m <;> rw [runUntil, if_pos hstop] at h' <;> exact Option.some_inj.mp (h.symm.trans h')
    · cases h
  | succ n ih =>
    rw [runUntil] at h
    split at h
    · next hstop =>
      cases m <;> rw [runUntil, if_pos hstop] at h' <;> exact Option.some_inj.mp (h.symm.trans h')
    · next hstop =>
      cases m with
      | zero => rw [runUntil, if_neg hstop] at h'; cases h'
      | succ m =>
        rw [runUntil, if_neg hstop] at h'
        obtain ⟨t, ht, hn⟩ := Option.bind_eq_some_iff.mp h
        obtain ⟨t', ht', hm⟩ := Option.bind_eq_some_iff.mp h'
        obtain rfl := Option.some_inj.mp (ht.symm.trans ht')
        exact ih hn hm

theorem Executes.unique {s s' s'' : State} {stop : Address} (h : Executes s stop s')
    (h' : Executes s stop s'') : s' = s'' := by
  obtain ⟨n, hn⟩ := h
  obtain ⟨m, hm⟩ := h'
  exact runUntil_unique hn hm

/-- The machine executes a run to the end of the program, if the program stays in memory. -/
theorem Runs.executes {code : List (BitVec 8)} {pc : Address} (hencodes : Encodes code p)
    (hfit : 4 * p.length < 2 ^ 64) (h : Runs p P i c p.length c') (hcode : HoldsCode c.mem pc code)
    (hP : ∀ k, k < code.length → pc + BitVec.ofNat 64 k ∈ P) :
    Executes ⟨pc + BitVec.ofNat 64 (4 * i), c⟩ (pc + BitVec.ofNat 64 (4 * p.length))
      ⟨pc + BitVec.ofNat 64 (4 * p.length), c'⟩ := by
  generalize hend : p.length = l at h
  induction h with
  | refl => exact ⟨0, if_pos rfl⟩
  | @step i j k c c' instr hfetch hkeep hjump rest ih =>
    have hcode' : HoldsCode (instr.exec c).mem pc code := by
      intro k hk
      rw [hkeep _ (hP k hk)]
      exact hcode k hk
    obtain ⟨n, hn⟩ := ih hcode' hend
    obtain ⟨w, hw, hdecode⟩ := hencodes.fetch hfetch
    obtain ⟨hlt, -⟩ := List.getElem?_eq_some_iff.mp hfetch
    have hpc : pc + BitVec.ofNat 64 (4 * i) ≠ pc + BitVec.ofNat 64 (4 * k) := by
      intro heq
      have := congrArg BitVec.toNat ((BitVec.add_right_inj pc).mp heq)
      rw [BitVec.toNat_ofNat, BitVec.toNat_ofNat, Nat.mod_eq_of_lt (by omega),
        Nat.mod_eq_of_lt (by omega)] at this
      omega
    have hnext : pc + BitVec.ofNat 64 (4 * i) + BitVec.ofInt 64 (4 * instr.jump c) =
        pc + BitVec.ofNat 64 (4 * j) := by
      rw [← BitVec.ofInt_natCast, ← BitVec.ofInt_natCast, BitVec.add_assoc, ← BitVec.ofInt_add,
        Nat.cast_mul, Nat.cast_mul, ← hjump]
      congr 2
      push_cast
      ring
    have hstep : State.step ⟨pc + BitVec.ofNat 64 (4 * i), c⟩ =
        some ⟨pc + BitVec.ofNat 64 (4 * j), instr.exec c⟩ := by
      rw [State.step, hcode.read32 hw, hdecode, Option.map_some, hnext]
    refine ⟨n + 1, ?_⟩
    rw [runUntil, if_neg hpc, hstep]
    exact hn

/-- The machine executes a program in memory from its first instruction to its end. -/
theorem Runs.executes_all {code : List (BitVec 8)} {s : State} (hencodes : Encodes code p)
    (hfit : 4 * p.length < 2 ^ 64) (h : Runs p P 0 s.core p.length c')
    (hcode : HoldsCode s.core.mem s.pc code)
    (hP : ∀ k, k < code.length → s.pc + BitVec.ofNat 64 k ∈ P) :
    Executes s (s.pc + BitVec.ofNat 64 (4 * p.length))
      ⟨s.pc + BitVec.ofNat 64 (4 * p.length), c'⟩ := by
  have hall := h.executes hencodes hfit hcode hP
  rwa [Nat.mul_zero, BitVec.add_zero] at hall

end Arm64
