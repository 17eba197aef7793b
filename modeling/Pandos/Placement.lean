import Pandos.SemaphoreAddresses

/-!
# Where the kernel's words are

The semaphores of the kernel have addresses of their own, and the words of the
processes are none of them.
-/

namespace Pandos

namespace Layout
variable (L : Layout)

theorem toNat_sysiostate (d : Dev) : (L.sysiostate d).toNat = L.gSysiostates.toNat + 12 * d :=
  toNat_record L.sys_fits.le d

theorem toNat_semSync (d : Dev) :
    (L.addr (.semSync d)).toNat = L.gSysiostates.toNat + 12 * d + 4 :=
  toNat_field L.sys_fits.le d (by decide)

theorem kernelData_addr (w : KernelWord) : L.KernelData (L.addr w) := by
  cases w with
  | clock => exact Or.inl ⟨le_refl _, Nat.lt_add_of_pos_right (by decide)⟩
  | semMut d =>
    have hd := d.isLt
    have ht := L.toNat_sysiostate d
    apply Or.inr
    simp only [addr]
    omega
  | semSync d =>
    have hd := d.isLt
    have ht := L.toNat_semSync d
    apply Or.inr
    omega

theorem addr_ne_zero (w : KernelWord) : L.addr w ≠ 0 := by
  have hp := L.sys_pos
  intro h
  have h0 : (L.addr w).toNat = 0 := by rw [h]; rfl
  cases w with
  | clock => exact L.clock_ne h
  | semMut d =>
    rw [addr, L.toNat_sysiostate d] at h0
    omega
  | semSync d =>
    rw [L.toNat_semSync d] at h0
    omega

theorem kernelWord_addr (w : KernelWord) : L.kernelWord (L.addr w) = some w := by
  have hc := L.clock_apart
  cases w with
  | clock => simp [kernelWord, addr]
  | semMut d =>
    have hd := d.isLt
    have ht := L.toNat_sysiostate d
    have hne : L.addr (.semMut d) ≠ L.gPseudoClock := by
      intro h
      have := congrArg BitVec.toNat h
      simp only [addr] at this
      omega
    have hoff : (L.addr (.semMut d)).toNat - L.gSysiostates.toNat = 12 * d := by
      simp only [addr]
      omega
    have hle : L.gSysiostates.toNat ≤ (L.addr (.semMut d)).toNat := by
      simp only [addr]
      omega
    simp [kernelWord, hne, hoff, hle]
  | semSync d =>
    have hd := d.isLt
    have ht := L.toNat_semSync d
    have hne : L.addr (.semSync d) ≠ L.gPseudoClock := by
      intro h
      have := congrArg BitVec.toNat h
      omega
    have hoff : (L.addr (.semSync d)).toNat - L.gSysiostates.toNat = 12 * d + 4 := by omega
    have hle : L.gSysiostates.toNat ≤ (L.addr (.semSync d)).toNat := by omega
    have hdiv : (12 * d.val + 4) / 12 = d := by omega
    have hmod : (12 * d.val + 4) % 12 = 4 := by omega
    simp [kernelWord, hne, hoff, hle, hdiv, hmod]

theorem addr_injective : Function.Injective L.addr := by
  intro v w h
  have := L.kernelWord_addr v
  rw [h, L.kernelWord_addr w] at this
  exact (Option.some.inj this).symm

@[simp] theorem addr_inj {v w : KernelWord} : L.addr v = L.addr w ↔ v = w :=
  L.addr_injective.eq_iff

variable {L} in
/-- The words of a process are not the kernel's. -/
theorem kernelWord_user {a : Word} (ha : ¬L.KernelData a) : L.kernelWord a = none := by
  simp only [KernelData, not_or, not_and, not_lt] at ha
  have hne : a ≠ L.gPseudoClock := by
    rintro rfl
    have := ha.1 (le_refl _)
    omega
  simp only [kernelWord, hne, if_false]
  split
  · next h =>
    have := ha.2 h.1
    have hf := L.sys_fits
    exfalso
    omega
  · rfl

theorem toPcb_pcb (p : Pcb) : L.toPcb (L.pcb p) = some (some p) := by
  rw [toPcb, if_neg (L.pcb_ne p)]
  have hf : (List.finRange maxProc).find? (fun q => L.pcb q = L.pcb p) = some p := by
    apply List.find?_eq_some_iff_getElem.mpr
    refine ⟨by simp, p.val, by simp, by simp, fun j hj => ?_⟩
    have hne : (⟨j, hj.trans p.isLt⟩ : Pcb) ≠ p := fun h => by
      rw [← h] at hj
      exact lt_irrefl _ hj
    simpa using fun h => hne (L.pcb_inj h)
  rw [hf]
  rfl

theorem toPcb_some {a : Word} {p : Pcb} (h : L.toPcb a = some (some p)) : a = L.pcb p := by
  unfold toPcb at h
  split at h
  · cases h
  · obtain ⟨q, hq, hqp⟩ := Option.map_eq_some_iff.mp h
    obtain rfl := Option.some.inj hqp
    have hpcb := List.find?_some hq
    exact (of_decide_eq_true hpcb).symm

theorem user_ne_addr {a : Word} (ha : ¬L.KernelData a) (w : KernelWord) : a ≠ L.addr w := by
  rintro rfl
  exact ha (L.kernelData_addr w)

end Layout

namespace Globals
variable {L : Layout} {g : Globals} {a v : Word} {w w' : KernelWord}

@[simp] theorem load_addr : g.load L (L.addr w) = g.word w := by
  simp [load, L.kernelWord_addr]

@[simp] theorem store_addr : g.store L (L.addr w) v = g.setWord w v := by
  simp [store, L.kernelWord_addr]

theorem load_user (ha : ¬L.KernelData a) : g.load L a = g.mem a := by
  simp [load, Layout.kernelWord_user ha]

theorem store_user (ha : ¬L.KernelData a) : g.store L a v = g.writeMem a v := by
  simp [store, Layout.kernelWord_user ha]

/-- A store to a semaphore changes nothing but the words. -/
theorem store_eq (g : Globals) (a v : Word) : g.store L a v =
    { g with
      gSysiostates := (g.store L a v).gSysiostates
      gPseudoClock := (g.store L a v).gPseudoClock
      mem := (g.store L a v).mem } := by
  unfold store
  split
  · next w _ => cases w <;> rfl
  · rfl

@[simp] theorem store_gCurrentProcess :
    (g.store L a v).gCurrentProcess = g.gCurrentProcess := by rw [store_eq]

@[simp] theorem store_gSoftBlockCount :
    (g.store L a v).gSoftBlockCount = g.gSoftBlockCount := by rw [store_eq]

@[simp] theorem store_gProcessCount :
    (g.store L a v).gProcessCount = g.gProcessCount := by rw [store_eq]

@[simp] theorem store_gOldState : (g.store L a v).gOldState = g.gOldState := by rw [store_eq]

@[simp] theorem store_hw : (g.store L a v).hw = g.hw := by rw [store_eq]

@[simp] theorem store_bus : (g.store L a v).bus = g.bus := by rw [store_eq]

end Globals

/-- Two halves of terminal 0 follow the 32 blocks of the other devices. -/
theorem resolveDeviceAddress_eq (a : Word) : resolveDeviceAddress a =
    if 0x10000054 ≤ a.toNat ∧ a.toNat < 0x10000254 then (((a.toNat - 0x10000054) / 16 : Nat) : Int)
    else if 0x10000254 ≤ a.toNat ∧ a.toNat < 0x10000264 then ((32 + (a.toNat - 0x10000254) / 8 : Nat) : Int)
    else -1 := by
  have hstart : devregStartAddr.toNat = 0x10000054 := rfl
  have hterm : termregStartAddr.toNat = 0x10000254 := rfl
  have hend : termregEndAddr.toNat = 0x10000264 := rfl
  have hdev : 0x10000054 ≤ a.toNat → ((a - devregStartAddr) / devregSize).toNat =
      (a.toNat - 0x10000054) / 16 := by
    intro h
    rw [BitVec.toNat_udiv, BitVec.toNat_sub, hstart]
    show _ / 16 = _
    omega
  have hhalf : 0x10000254 ≤ a.toNat → a.toNat < 0x10000264 →
      ((termregStartAddr - devregStartAddr) / devregSize +
        (a - termregStartAddr) / (devregSize / 2)).toNat = 32 + (a.toNat - 0x10000254) / 8 := by
    intro h h'
    rw [BitVec.toNat_add, BitVec.toNat_udiv, BitVec.toNat_udiv, BitVec.toNat_sub a, hterm]
    show (32 + _ / 8) % 4294967296 = _
    omega
  unfold resolveDeviceAddress
  simp only [BitVec.lt_def, ge_iff_le, BitVec.le_def, hstart, hterm, hend]
  by_cases hd : 0x10000054 ≤ a.toNat ∧ a.toNat < 0x10000254
  · rw [if_neg (by omega), if_pos hd, if_pos hd, hdev hd.1]
  · by_cases ht : 0x10000254 ≤ a.toNat ∧ a.toNat < 0x10000264
    · rw [if_neg (by omega), if_neg hd, if_pos ht, if_neg hd, if_pos ht, hhalf ht.1 ht.2]
    · rw [if_neg hd, if_neg ht, if_neg hd, if_neg ht]
      split_ifs <;> rfl

/-- No register address resolves outside `g_sysiostates`. -/
theorem resolveDeviceAddress_range (a : Word) (h : resolveDeviceAddress a ≠ -1) :
    0 ≤ resolveDeviceAddress a ∧ resolveDeviceAddress a < deviceNumber := by
  have hdev : deviceNumber = 48 := rfl
  rw [resolveDeviceAddress_eq] at h ⊢
  split_ifs at h ⊢ <;> omega

/-! ## The addresses `terminateProcess` recognises -/

section
variable {L : Layout} {d : Dev} {a : Word}

/-- An address `k` bytes into the record of `d`. -/
theorem resolve_in_record {k : Nat} (hk : k ≤ 8)
    (ha : a.toNat = L.gSysiostates.toNat + 12 * d + k) :
    isDeviceSemaphore L a = true ∧ resolveSemAddr L a = d := by
  have hd := d.isLt
  have hin : InArray L.gSysiostates a := by
    rw [InArray]
    omega
  have hoff : recordOffset L.gSysiostates a = k := by
    rw [recordOffset]
    omega
  have hdiv : (a.toNat - L.gSysiostates.toNat) / 12 = d := by omega
  rw [isDeviceSemaphore_eq, resolveSemAddr_eq, resolveSemAddrAt_eq L.sys_fits hin, hdiv]
  exact ⟨(isDeviceSemaphoreAt_iff L.sys_fits.le).mpr ⟨hin, L.sys_fits, hoff.trans_le hk⟩, rfl⟩

theorem resolve_semMut (L : Layout) (d : Dev) :
    isDeviceSemaphore L (L.addr (.semMut d)) = true ∧
      resolveSemAddr L (L.addr (.semMut d)) = d :=
  resolve_in_record (k := 0) (by omega) (L.toNat_sysiostate d)

theorem resolve_semSync (L : Layout) (d : Dev) :
    isDeviceSemaphore L (L.addr (.semSync d)) = true ∧
      resolveSemAddr L (L.addr (.semSync d)) = d :=
  resolve_in_record (k := 4) (by omega) (L.toNat_semSync d)

theorem isDeviceSemaphore_clock (L : Layout) : isDeviceSemaphore L (L.addr .clock) = false := by
  rw [isDeviceSemaphore_eq, Bool.eq_false_iff, Ne, isDeviceSemaphoreAt_iff L.sys_fits.le]
  rintro ⟨⟨hl, hr⟩, -⟩
  have hc := L.clock_apart
  simp only [Layout.addr] at hl hr
  omega

end

end Pandos
