import Pandos.Placement

/-!
# Device numbers

`DOIO` numbers a device by the address of its registers, an interrupt by its
line and its bit in the bitmap. The two agree but for the terminals after the
first, which `TERMREG_END_ADDR` leaves out.
-/

namespace Pandos

/-- The registers of a device that `DEVADDR` lays out; of a terminal those of
the receiver or of the transmitter. -/
structure RegBlock where
  line : Nat
  dev : Nat
  half : Nat
  line_range : 3 ≤ line ∧ line ≤ 7
  dev_range : dev < 8
  half_range : if line = 7 then half < 2 else half = 0

namespace RegBlock

def base (b : RegBlock) : Word := devAddr b.line b.dev + BitVec.ofNat 32 (8 * b.half)

def size (b : RegBlock) : Nat := if b.line = 7 then 8 else 16

/-- The address is in the block. -/
def Holds (b : RegBlock) (a : Word) : Prop := b.base.toNat ≤ a.toNat ∧ a.toNat < b.base.toNat + b.size

/-- A terminal other than the first. -/
def Later (b : RegBlock) : Prop := b.line = 7 ∧ b.dev ≠ 0

/-- How many registers the block has. -/
def registers (b : RegBlock) : Int := if b.line = 7 then 2 else 4

theorem ext_fields {b c : RegBlock} (hl : b.line = c.line) (hd : b.dev = c.dev)
    (hh : b.half = c.half) : b = c := by
  cases b
  cases c
  simp_all

theorem toNat_devAddr {line dev : Nat} (hl : 3 ≤ line ∧ line ≤ 7) (hd : dev < 8) :
    (devAddr line dev).toNat = 0x10000054 + (line - 3) * 0x80 + dev * 0x10 := by
  have hstart : devregStartAddr.toNat = 0x10000054 := rfl
  simp only [devAddr, BitVec.toNat_add, BitVec.toNat_ofNat, hstart]
  omega

theorem toNat_base (b : RegBlock) :
    b.base.toNat = 0x10000054 + (b.line - 3) * 0x80 + b.dev * 0x10 + 8 * b.half := by
  have hl := b.line_range
  have hd := b.dev_range
  have hh : b.half < 2 := by
    have := b.half_range
    split at this <;> omega
  simp only [base, BitVec.toNat_add, BitVec.toNat_ofNat, toNat_devAddr hl hd]
  omega

/-- The number of the device with these registers. -/
theorem resolve_of_holds {b : RegBlock} {a : Word} (h : b.Holds a) : resolveDeviceAddress a =
    if b.line ≠ 7 then (((b.line - 3) * 8 + b.dev : Nat) : Int)
    else if b.dev = 0 then ((32 + b.half : Nat) : Int) else -1 := by
  have hl := b.line_range
  have hd := b.dev_range
  have hh := b.half_range
  rw [Holds, toNat_base, size] at h
  rw [resolveDeviceAddress_eq]
  by_cases h7 : b.line = 7
  · rw [if_pos h7] at h hh
    rw [if_neg (by omega), if_neg (not_not.mpr h7)]
    split_ifs <;> omega
  · rw [if_neg h7] at h hh
    rw [if_pos (by omega), if_pos h7]
    omega

theorem exists_holds {a : Word} (ha : 0x10000054 ≤ a.toNat) (ha' : a.toNat < 0x100002D4) :
    ∃ b : RegBlock, b.Holds a := by
  obtain ⟨n, hn⟩ : ∃ n, n = a.toNat - 0x10000054 := ⟨_, rfl⟩
  have hline : 3 ≤ 3 + n / 0x80 ∧ 3 + n / 0x80 ≤ 7 := by omega
  have hdev : n % 0x80 / 16 < 8 := by omega
  have half : ∃ half, if 3 + n / 0x80 = 7 then half = n % 16 / 8 else half = 0 := by
    split <;> exact ⟨_, rfl⟩
  obtain ⟨half, hhalf⟩ := half
  have hrange : if 3 + n / 0x80 = 7 then half < 2 else half = 0 := by
    split_ifs at hhalf ⊢ <;> omega
  refine ⟨⟨3 + n / 0x80, n % 0x80 / 16, half, hline, hdev, hrange⟩, ?_⟩
  rw [Holds, toNat_base, size]
  dsimp only
  split_ifs at hhalf ⊢ <;> omega

end RegBlock

/-! ## Addresses of `DOIO` -/

/-- `a` has the number and the registers of its block, and none outside. -/
structure Numbered (a : Word) : Prop where
  accepted : resolveDeviceAddress a ≠ -1 ↔ ∃ b : RegBlock, b.Holds a
  registers : ∀ b : RegBlock, b.Holds a → getNumRegister a = b.registers
  refused : getNumRegister a = -1 ↔ resolveDeviceAddress a = -1

theorem getNumRegister_eq (a : Word) : getNumRegister a =
    if 0x10000054 ≤ a.toNat ∧ a.toNat < 0x10000254 then 4
    else if 0x10000254 ≤ a.toNat ∧ a.toNat < 0x10000264 then 2 else -1 := by
  have hstart : devregStartAddr.toNat = 0x10000054 := rfl
  have hterm : termregStartAddr.toNat = 0x10000254 := rfl
  have hdev : devregEndAddr.toNat = 0x10000254 := rfl
  have hend : termregEndAddr.toNat = 0x10000264 := rfl
  simp only [getNumRegister, BitVec.lt_def, ge_iff_le, BitVec.le_def, hstart, hterm, hdev, hend]

theorem numbered_iff (a : Word) : Numbered a ↔ ¬∃ b : RegBlock, b.Holds a ∧ b.Later := by
  constructor
  · rintro h ⟨b, hb, h7, hd⟩
    apply h.accepted.mpr ⟨b, hb⟩
    rw [b.resolve_of_holds hb, if_neg (not_not.mpr h7), if_neg hd]
  · intro h
    have range : ∀ b : RegBlock, b.Holds a → 0x10000054 ≤ a.toNat ∧ a.toNat < 0x10000264 ∧
        (b.line = 7 ↔ 0x10000254 ≤ a.toNat) := by
      intro b hb
      have hl := b.line_range
      have hd := b.dev_range
      have hh := b.half_range
      have hlater : b.line = 7 → b.dev = 0 := fun h7 => by_contra fun hd => h ⟨b, hb, h7, hd⟩
      rw [RegBlock.Holds, b.toNat_base, RegBlock.size] at hb
      split_ifs at hb hh with h7
      · have := hlater h7
        omega
      · omega
    refine ⟨?_, fun b hb => ?_, ?_⟩
    · rw [resolveDeviceAddress_eq]
      constructor
      · intro hr
        apply RegBlock.exists_holds <;> split_ifs at hr <;> omega
      · rintro ⟨b, hb⟩
        have := range b hb
        split_ifs <;> omega
    · have := range b hb
      rw [getNumRegister_eq, RegBlock.registers]
      split_ifs <;> omega
    · rw [getNumRegister_eq, resolveDeviceAddress_eq]
      constructor <;> intro hr <;> split_ifs at hr ⊢ <;> omega

/-- Two addresses have the same number exactly when they are in one block. -/
def Distinct (b c : RegBlock) (a a' : Word) : Prop :=
  resolveDeviceAddress a = resolveDeviceAddress a' ↔ b = c

theorem distinct_iff {b c : RegBlock} {a a' : Word} (hb : b.Holds a) (hc : c.Holds a') :
    Distinct b c a a' ↔ b = c ∨ ¬(b.Later ∧ c.Later) := by
  have hbl := b.line_range
  have hcl := c.line_range
  have hbd := b.dev_range
  have hcd := c.dev_range
  have hbh := b.half_range
  have hch := c.half_range
  rw [Distinct, b.resolve_of_holds hb, c.resolve_of_holds hc]
  constructor
  · intro h
    by_contra hn
    rw [not_or, not_not] at hn
    obtain ⟨hne, ⟨hb7, hb0⟩, hc7, hc0⟩ := hn
    apply hne
    apply h.mp
    rw [if_neg (not_not.mpr hb7), if_neg hb0, if_neg (not_not.mpr hc7), if_neg hc0]
  · rintro (rfl | h)
    · exact iff_of_true rfl rfl
    · refine ⟨fun he => ?_, fun he => he ▸ rfl⟩
      simp only [RegBlock.Later, not_and] at h
      apply RegBlock.ext_fields <;> split_ifs at he hbh hch <;> omega

/-! ## Interrupts -/

/-- The bitmap of pending devices of a line. -/
def pendingDevices (bus : Word → Word) (line : Nat) : Word := bus (wordAt intdevBitmap (line - 3))

/-- `handleDeviceInt` finds a device in bounds. -/
def InBounds (bus : Word → Word) (line : Nat) : Prop :=
  0 ≤ resolveDeviceAddress (findDevRegAddr bus line) ∧
    resolveDeviceAddress (findDevRegAddr bus line) < deviceNumber

theorem and_bit_eq_zero {w : Word} {i : Nat} (hi : i < 32) :
    w &&& (1#32 <<< i) = 0 ↔ w.getLsbD i = false := by
  rw [← BitVec.twoPow_eq]
  constructor
  · intro h
    have := congrArg (BitVec.getLsbD · i) h
    simpa [hi] using this
  · intro h
    apply BitVec.eq_of_getLsbD_eq
    intro j hj
    by_cases hij : i = j
    · subst hij
      simp [h]
    · simp [hij]

/-- The first pending device of a line. -/
theorem first_pending {w : Word} (h0 : w ≠ 0) (h8 : w.toNat < 256) :
    ∃ i < 8, (List.range 8).find? (fun i => w &&& (1#32 <<< i) ≠ 0) = some i ∧
      (i = 0 ↔ w &&& 1 ≠ 0) := by
  cases hf : (List.range 8).find? fun i => w &&& (1#32 <<< i) ≠ 0 with
  | none =>
    exfalso
    apply h0
    apply BitVec.eq_of_getLsbD_eq
    intro j hj
    by_cases hj8 : j < 8
    · have := List.find?_eq_none.mp hf j (List.mem_range.mpr hj8)
      rw [decide_eq_true_eq, not_not, and_bit_eq_zero hj] at this
      simpa using this
    · have hpow : 2 ^ 8 ≤ 2 ^ j := Nat.pow_le_pow_right Nat.two_pos (not_lt.mp hj8)
      have hlt : w.toNat < 2 ^ j := h8.trans_le hpow
      have hbit : w.getLsbD j = false := Nat.testBit_lt_two_pow hlt
      simpa using hbit
  | some i =>
    refine ⟨i, List.mem_range.mp (List.mem_of_find?_eq_some hf), rfl, ?_⟩
    constructor
    · rintro rfl
      simpa using List.find?_some hf
    · intro h1
      have hzero : (List.range 8).find? (fun i => w &&& (1#32 <<< i) ≠ 0) = some 0 := by
        rw [List.range_succ_eq_map, List.find?_cons_of_pos (by simpa using h1)]
      exact Option.some.inj (hf.symm.trans hzero)

theorem inBounds_iff {bus : Word → Word} {line : Nat} (hl : 3 ≤ line ∧ line ≤ 7)
    (h0 : pendingDevices bus line ≠ 0) (h8 : (pendingDevices bus line).toNat < 256) :
    InBounds bus line ↔ line ≠ 7 ∨ pendingDevices bus line &&& 1 ≠ 0 := by
  obtain ⟨i, hi, hfind, hfirst⟩ := first_pending h0 h8
  have hbase := RegBlock.toNat_devAddr hl hi
  have hterm : isTermReg (devAddr line i) = true ↔ line = 7 ∧ i = 0 := by
    have hstart : termregStartAddr.toNat = 0x10000254 := rfl
    have hend : termregEndAddr.toNat = 0x10000264 := rfl
    simp only [isTermReg, decide_eq_true_eq, ge_iff_le, BitVec.le_def, BitVec.lt_def, hstart, hend,
      hbase]
    omega
  have hdev : deviceNumber = 48 := rfl
  obtain ⟨a, ha, hcase⟩ : ∃ a, findDevRegAddr bus line = a ∧
      (a = devAddr line i ∨ a = devAddr line i + 8 ∧ line = 7 ∧ i = 0) := by
    refine ⟨_, rfl, ?_⟩
    simp only [findDevRegAddr, show bus (wordAt intdevBitmap (line - 3)) =
      pendingDevices bus line from rfl, hfind]
    split
    · next h => exact .inr ⟨rfl, hterm.mp h.1⟩
    · exact .inl rfl
  rw [← hfirst, InBounds, ha, resolveDeviceAddress_eq]
  have ha' : a.toNat = 0x10000054 + (line - 3) * 0x80 + i * 0x10 ∨
      a.toNat = 0x1000025c ∧ line = 7 ∧ i = 0 := by
    rcases hcase with rfl | ⟨rfl, h7, h0⟩
    · exact .inl hbase
    · refine .inr ⟨?_, h7, h0⟩
      rw [BitVec.toNat_add, hbase, h7, h0]
      rfl
  constructor
  · intro h
    split_ifs at h <;> omega
  · intro h
    split_ifs <;> omega

/-- Issue and interrupt number every device alike and in bounds, but for the
terminals after the first. -/
theorem numbering_exact (bus : Word → Word) (line : Nat) (a a₁ a₂ : Word) (b c : RegBlock) :
    (3 ≤ line ∧ line ≤ 7 → pendingDevices bus line ≠ 0 → (pendingDevices bus line).toNat < 256 →
      (InBounds bus line ↔ line ≠ 7 ∨ pendingDevices bus line &&& 1 ≠ 0)) ∧
    (Numbered a ↔ ¬∃ d : RegBlock, d.Holds a ∧ d.Later) ∧
    (b.Holds a₁ → c.Holds a₂ → (Distinct b c a₁ a₂ ↔ b = c ∨ ¬(b.Later ∧ c.Later))) := by
  constructor
  · exact fun hl h0 h8 => inBounds_iff hl h0 h8
  constructor
  · exact numbered_iff a
  · exact fun hb hc => distinct_iff hb hc

/-- Two terminals are pending, the first among them. -/
theorem numbering_exact_first : InBounds (fun _ => 3) 7 :=
  have first : RegBlock := ⟨3, 0, 0, by decide, by decide, by decide⟩
  ((numbering_exact (fun _ => 3) 7 0 0 0 first first).1 (by decide) (by decide) (by decide)).mpr
    (.inr (by decide))

/-- The second terminal has no number, and its interrupt is out of bounds. -/
theorem second_terminal_unnumbered :
    ¬((∀ (bus : Word → Word) (line : Nat), 3 ≤ line ∧ line ≤ 7 → pendingDevices bus line ≠ 0 →
        (pendingDevices bus line).toNat < 256 → InBounds bus line) ∧
      (∀ a : Word, Numbered a) ∧
      ∀ (b c : RegBlock) (a a' : Word), b.Holds a → c.Holds a' → Distinct b c a a') := by
  rintro ⟨h, -, -⟩
  have := h (fun _ => 2) 7 (by decide) (by decide) (by decide)
  exact absurd this.1 (by decide +kernel)

end Pandos
