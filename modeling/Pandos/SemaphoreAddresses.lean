import Pandos.Phase2.Syscall

/-!
# The addresses of device semaphores

`isDeviceSemaphore` and `resolveSemAddr` for an array `g_sysiostates` anywhere
in memory, down to the last place it fits in.
-/

namespace Pandos

section
variable (b : Word)

/-- `resolveSemAddr` with `g_sysiostates` at `b`. -/
def resolveSemAddrAt (semaddr : Word) : Int :=
  if semaddr ≥ b ∧ semaddr < b + BitVec.ofNat 32 (12 * deviceNumber) then
    ((semaddr - b) / 12).toNat
  else -1

/-- `isDeviceSemaphore` with `g_sysiostates` at `b`. -/
def isDeviceSemaphoreAt (semaddr : Word) : Bool :=
  decide ((semaddr - b) % 12 ≤ 2 * 4 ∧ semaddr ≥ b ∧
    semaddr < b + BitVec.ofNat 32 (12 * deviceNumber))

end

theorem resolveSemAddr_eq (L : Layout) (a : Word) :
    resolveSemAddr L a = resolveSemAddrAt L.gSysiostates a := rfl

theorem isDeviceSemaphore_eq (L : Layout) (a : Word) :
    isDeviceSemaphore L a = isDeviceSemaphoreAt L.gSysiostates a := rfl

/-- `a` is `&g_sysiostates[i].sem_mut` or `&g_sysiostates[i].sem_sync`. -/
def SemaphoreOf (b : Word) (i : Dev) (a : Word) : Prop :=
  a = b + BitVec.ofNat 32 (12 * i) ∨ a = b + BitVec.ofNat 32 (12 * i) + 4

/-- `a` is in the array at `b`. -/
def InArray (b a : Word) : Prop := b.toNat ≤ a.toNat ∧ a.toNat < b.toNat + 12 * deviceNumber

/-- How far into its record an address is. -/
def recordOffset (b a : Word) : Nat := (a.toNat - b.toNat) % 12

/-- The semaphores are recognised, with their records, and nothing else is. -/
structure Classified (b a : Word) : Prop where
  exact : isDeviceSemaphoreAt b a = true ↔ ∃ i, SemaphoreOf b i a
  record : ∀ i, SemaphoreOf b i a → resolveSemAddrAt b a = i
  outside : ¬InArray b a → resolveSemAddrAt b a = -1 ∧ isDeviceSemaphoreAt b a = false

/-- `a` is no semaphore, but not past the third word of its record. Of an array
that ends where the memory ends, every semaphore is misread: its end is at 0. -/
def Misread (b a : Word) : Prop :=
  InArray b a ∧
    (b.toNat + 12 * deviceNumber < 2 ^ 32 ∧
        recordOffset b a ≤ 8 ∧ recordOffset b a ≠ 0 ∧ recordOffset b a ≠ 4 ∨
      b.toNat + 12 * deviceNumber = 2 ^ 32 ∧ (recordOffset b a = 0 ∨ recordOffset b a = 4))

section
variable {b a : Word} {i : Dev} (hb : b.toNat + 12 * deviceNumber ≤ 2 ^ 32)
include hb

theorem toNat_record (i : Dev) : (b + BitVec.ofNat 32 (12 * i)).toNat = b.toNat + 12 * i := by
  have hi := i.isLt
  rw [BitVec.toNat_add, BitVec.toNat_ofNat]
  omega

theorem toNat_field (i : Dev) {k : Nat} (hk : k < 12) :
    (b + BitVec.ofNat 32 (12 * i) + BitVec.ofNat 32 k).toNat = b.toNat + 12 * i + k := by
  have hi := i.isLt
  rw [BitVec.toNat_add, toNat_record hb i, BitVec.toNat_ofNat]
  omega

theorem semaphoreOf_iff : SemaphoreOf b i a ↔
    a.toNat = b.toNat + 12 * i ∨ a.toNat = b.toNat + 12 * i + 4 := by
  have hsync : (b + BitVec.ofNat 32 (12 * i) + 4).toNat = b.toNat + 12 * i + 4 :=
    toNat_field hb i (by decide)
  rw [SemaphoreOf, ← BitVec.toNat_inj, ← BitVec.toNat_inj, toNat_record hb i, hsync]

/-- The semaphores are the first two words of the records. -/
theorem exists_semaphoreOf_iff : (∃ i, SemaphoreOf b i a) ↔
    InArray b a ∧ (recordOffset b a = 0 ∨ recordOffset b a = 4) := by
  simp only [semaphoreOf_iff hb, InArray, recordOffset]
  constructor
  · rintro ⟨i, hi⟩
    have := i.isLt
    omega
  · rintro ⟨hr, ho⟩
    refine ⟨⟨(a.toNat - b.toNat) / 12, by omega⟩, ?_⟩
    dsimp only
    omega

/-- The test for the array fails everywhere if the address of its end is 0. -/
theorem range_iff : (a ≥ b ∧ a < b + BitVec.ofNat 32 (12 * deviceNumber)) ↔
    InArray b a ∧ b.toNat + 12 * deviceNumber < 2 ^ 32 := by
  have ha := a.isLt
  simp only [ge_iff_le, BitVec.le_def, BitVec.lt_def, BitVec.toNat_add, BitVec.toNat_ofNat, InArray]
  omega

end

section
variable {b a : Word} {i : Dev}

theorem toNat_offset (h : InArray b a) : (a - b).toNat = a.toNat - b.toNat := by
  obtain ⟨hl, -⟩ := h
  rw [BitVec.toNat_sub]
  omega

theorem isDeviceSemaphoreAt_iff (hb : b.toNat + 12 * deviceNumber ≤ 2 ^ 32) :
    isDeviceSemaphoreAt b a = true ↔
      InArray b a ∧ b.toNat + 12 * deviceNumber < 2 ^ 32 ∧ recordOffset b a ≤ 8 := by
  have hoff : InArray b a → ((a - b) % 12 ≤ 2 * 4 ↔ recordOffset b a ≤ 8) := by
    intro h
    rw [BitVec.le_def, BitVec.toNat_umod, toNat_offset h]
    rfl
  rw [isDeviceSemaphoreAt, decide_eq_true_eq, range_iff hb]
  constructor
  · rintro ⟨ho, hin, hend⟩
    exact ⟨hin, hend, (hoff hin).mp ho⟩
  · rintro ⟨hin, hend, ho⟩
    exact ⟨(hoff hin).mpr ho, hin, hend⟩

theorem resolveSemAddrAt_eq (hb : b.toNat + 12 * deviceNumber < 2 ^ 32) (h : InArray b a) :
    resolveSemAddrAt b a = ((a.toNat - b.toNat) / 12 : Nat) := by
  rw [resolveSemAddrAt, if_pos ((range_iff hb.le).mpr ⟨h, hb⟩), BitVec.toNat_udiv, toNat_offset h]
  rfl

theorem resolveSemAddrAt_outside (hb : b.toNat + 12 * deviceNumber ≤ 2 ^ 32)
    (h : ¬(InArray b a ∧ b.toNat + 12 * deviceNumber < 2 ^ 32)) : resolveSemAddrAt b a = -1 := by
  rw [resolveSemAddrAt, if_neg (mt (range_iff hb).mp h)]

/-- An address is classified as the array and its records say, or misread. -/
theorem classified_iff (hb : b.toNat + 12 * deviceNumber ≤ 2 ^ 32) :
    Classified b a ↔ ¬Misread b a := by
  constructor
  · intro h
    have hex := h.exact
    rw [isDeviceSemaphoreAt_iff hb, exists_semaphoreOf_iff hb] at hex
    rintro ⟨hin, ⟨hend, hle, h0, h4⟩ | ⟨hend, hoff⟩⟩
    · exact (hex.mp ⟨hin, hend, hle⟩).2.elim h0 h4
    · exact (hex.mpr ⟨hin, hoff⟩).2.1.ne hend
  · intro hm
    have low : InArray b a → b.toNat + 12 * deviceNumber < 2 ^ 32 → recordOffset b a ≤ 8 →
        recordOffset b a = 0 ∨ recordOffset b a = 4 := by
      intro hin hend hle
      by_contra hoff
      exact hm ⟨hin, .inl ⟨hend, hle, not_or.mp hoff⟩⟩
    have fits : InArray b a → recordOffset b a = 0 ∨ recordOffset b a = 4 →
        b.toNat + 12 * deviceNumber < 2 ^ 32 := fun hin hoff =>
      hb.lt_of_ne fun hend => hm ⟨hin, .inr ⟨hend, hoff⟩⟩
    constructor
    · rw [isDeviceSemaphoreAt_iff hb, exists_semaphoreOf_iff hb]
      constructor
      · rintro ⟨hin, hend, hle⟩
        exact ⟨hin, low hin hend hle⟩
      · rintro ⟨hin, hoff⟩
        exact ⟨hin, fits hin hoff, by omega⟩
    · intro i hi
      obtain ⟨hin, hoff⟩ := (exists_semaphoreOf_iff hb).mp ⟨i, hi⟩
      have hdiv : (a.toNat - b.toNat) / 12 = i := by
        have := (semaphoreOf_iff hb).mp hi
        omega
      rw [resolveSemAddrAt_eq (fits hin hoff) hin, hdiv]
    · intro hout
      refine ⟨resolveSemAddrAt_outside hb fun h => hout h.1, ?_⟩
      rw [Bool.eq_false_iff, Ne, isDeviceSemaphoreAt_iff hb]
      exact fun h => hout h.1

theorem classified_iff_sem_sync : Classified 0x20004000 0x20004004 ↔ ¬Misread 0x20004000 0x20004004 :=
  classified_iff (by decide)

/-- In an array of words below the end of memory, the words that are misread are
the `waiting_process` fields. -/
theorem misread_iff (hb : b.toNat + 12 * deviceNumber < 2 ^ 32) (hbw : b.toNat % 4 = 0)
    (haw : a.toNat % 4 = 0) : Misread b a ↔ ∃ i : Dev, a = b + BitVec.ofNat 32 (12 * i) + 8 := by
  have hfield : ∀ i : Dev, (b + BitVec.ofNat 32 (12 * i) + 8).toNat = b.toNat + 12 * i + 8 :=
    fun i => toNat_field hb.le i (by decide)
  simp only [Misread, InArray, recordOffset, ← BitVec.toNat_inj, hfield]
  constructor
  · rintro ⟨hin, hoff⟩
    refine ⟨⟨(a.toNat - b.toNat) / 12, by omega⟩, ?_⟩
    dsimp only
    omega
  · rintro ⟨i, hi⟩
    have := i.isLt
    omega

/-- The `waiting_process` of the first record passes for a semaphore. -/
theorem waiting_process_misread : ¬∀ b a : Word, b.toNat + 12 * deviceNumber < 2 ^ 32 →
    b.toNat % 4 = 0 → a.toNat % 4 = 0 → Classified b a := by
  intro h
  have hw := h 0x20004000 0x20004008 (by decide) (by decide) (by decide)
  obtain ⟨-, hoff⟩ := (exists_semaphoreOf_iff (by decide)).mp (hw.exact.mp (by decide))
  revert hoff
  decide

end

end Pandos
