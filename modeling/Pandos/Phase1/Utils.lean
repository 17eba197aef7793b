import Pandos.Lib.Bytes
import Pandos.Types

/-!
# `memset` and `memcpy`

`utils.c` over bytes. What the rest of the kernel copies as a value is copied by
these loops, word by word and then byte by byte.
-/

namespace Pandos
open Bytes

section code
variable (o : ByteOrder) (fuel : Nat)

def memset (ptr : Word) (byte : Byte) (size : Word) (m : Memory) : Option Memory := do
  let b : Fin 4 → Byte := fun _ => byte
  let (i, m) ← forLoop (size / 4) (fun i m => storeWord o m (ptr + 4 * i) (wordOf o b)) fuel 0 m
  let (_, m) ← forLoop (size % 4) (fun j m => some (storeByte m (ptr + j + i * 4) byte)) fuel 0 m
  return m

def memcpy (ptr ptr2 : Word) (size : Word) (m : Memory) : Option Memory := do
  let (i, m) ← forLoop (size / 4)
    (fun i m => (loadWord o m (ptr2 + 4 * i)).bind (storeWord o m (ptr + 4 * i))) fuel 0 m
  let (_, m) ← forLoop (size % 4)
    (fun j m => some (storeByte m (ptr + j + i * 4) (m (ptr2 + j + i * 4)))) fuel 0 m
  return m

end code

variable {o : ByteOrder} {fuel : Nat} {m : Memory} {ptr ptr2 size p : Word} {byte : Byte}

/-! ## Where the loops are -/

theorem word_place (p : Word) (i : Nat) :
    p + 4 * BitVec.ofNat 32 i = p + BitVec.ofNat 32 (4 * i) := by
  rw [BitVec.ofNat_mul]
  rfl

theorem byte_place (p size : Word) (j : Nat) :
    p + BitVec.ofNat 32 j + size / 4 * 4 = p + BitVec.ofNat 32 (4 * (size.toNat / 4) + j) := by
  apply BitVec.eq_of_toNat_eq
  simp only [BitVec.toNat_add, BitVec.toNat_mul, BitVec.toNat_udiv, BitVec.toNat_ofNat]
  show ((p.toNat + j % 2 ^ 32) % 2 ^ 32 + size.toNat / 4 * 4 % 2 ^ 32) % 2 ^ 32 = _
  omega

theorem word_aligned (hp : p.toNat % 4 = 0) (i : Nat) :
    (p + BitVec.ofNat 32 (4 * i)).toNat % 4 = 0 := by
  rw [BitVec.toNat_add, BitVec.toNat_ofNat]
  omega

/-- A loop that writes the words of `f`. -/
theorem wordLoop_eq {body : Word → Memory → Option Memory} (o : ByteOrder) (f : Nat → Byte)
    (hp : ptr.toNat % 4 = 0)
    (hbody : ∀ i < size.toNat / 4, body (BitVec.ofNat 32 i) (overwrite m ptr (4 * i) f) =
      storeWord o (overwrite m ptr (4 * i) f) (ptr + BitVec.ofNat 32 (4 * i))
        (wordOf o fun k => f (4 * i + k)))
    (hf : size.toNat / 4 < fuel) : forLoop (size / 4) body fuel 0 m =
      some (size / 4, overwrite m ptr (4 * (size.toNat / 4)) f) := by
  have hs := size.isLt
  have hbound : (size / 4).toNat = size.toNat / 4 := BitVec.toNat_udiv
  have hloop : forLoop (size / 4) body fuel 0 m =
      some (size / 4, overwrite m ptr (4 * (size / 4).toNat) f) := by
    refine forLoop_eq (fun i => overwrite m ptr (4 * i) f) (fun i hi => ?_) (hbound ▸ hf)
    rw [hbound] at hi
    rw [hbody i hi, storeWord_overwrite (word_aligned hp i) (by omega)]
    rfl
  rwa [hbound] at hloop

/-- A loop that writes the bytes of `f` that are left. -/
theorem byteLoop_eq {body : Word → Memory → Option Memory} (f : Nat → Byte)
    (hbody : ∀ j < size.toNat % 4,
      body (BitVec.ofNat 32 j) (overwrite m ptr (4 * (size.toNat / 4) + j) f) =
        some (storeByte (overwrite m ptr (4 * (size.toNat / 4) + j) f)
          (ptr + BitVec.ofNat 32 (4 * (size.toNat / 4) + j)) (f (4 * (size.toNat / 4) + j))))
    (hf : size.toNat % 4 < fuel) :
    forLoop (size % 4) body fuel 0 (overwrite m ptr (4 * (size.toNat / 4)) f) =
      some (size % 4, overwrite m ptr size.toNat f) := by
  have hs := size.isLt
  have hbound : (size % 4).toNat = size.toNat % 4 := BitVec.toNat_umod
  have hloop : forLoop (size % 4) body fuel 0 (overwrite m ptr (4 * (size.toNat / 4)) f) =
      some (size % 4, overwrite m ptr (4 * (size.toNat / 4) + (size % 4).toNat) f) := by
    refine forLoop_eq (fun j => overwrite m ptr (4 * (size.toNat / 4) + j) f) (fun j hj => ?_)
      (hbound ▸ hf)
    rw [hbound] at hj
    rw [hbody j hj, storeByte_overwrite (by omega)]
    rfl
  rwa [hbound, Nat.div_add_mod] at hloop

theorem memset_eq (hp : ptr.toNat % 4 = 0) (hf : size.toNat / 4 + 3 < fuel) :
    memset o fuel ptr byte size m = some (overwrite m ptr size.toNat fun _ => byte) := by
  refine Option.bind_eq_some_iff.mpr ⟨_, wordLoop_eq o (fun _ => byte) hp ?_ (by omega), ?_⟩
  · intro i _
    rw [word_place]
  · refine Option.bind_eq_some_iff.mpr ⟨_, byteLoop_eq (fun _ => byte) ?_ (by omega), rfl⟩
    intro j _
    rw [byte_place]

theorem memcpy_eq (hp : ptr.toNat % 4 = 0) (hp2 : ptr2.toNat % 4 = 0)
    (hd : Disjoint (region ptr size.toNat) (region ptr2 size.toNat))
    (hf : size.toNat / 4 + 3 < fuel) : memcpy o fuel ptr ptr2 size m =
      some (overwrite m ptr size.toNat fun k => m (ptr2 + BitVec.ofNat 32 k)) := by
  refine Option.bind_eq_some_iff.mpr ⟨_, wordLoop_eq o (fun k => m (ptr2 + BitVec.ofNat 32 k)) hp
    ?_ (by omega), ?_⟩
  · intro i hi
    rw [word_place, word_place, loadWord_apart hd (word_aligned hp2 i) (by omega) (by omega)]
    rfl
  · refine Option.bind_eq_some_iff.mpr ⟨_, byteLoop_eq _ ?_ (by omega), rfl⟩
    intro j hj
    rw [byte_place, byte_place, overwrite_apart hd (by omega) (by omega)]

/-- Both functions return, and write the bytes they say and no others. -/
theorem byte_exact (hp : ptr.toNat % 4 = 0) (hf : size.toNat / 4 + 3 < fuel) :
    (∃ m', memset o fuel ptr byte size m = some m' ∧ Wrote m m' ptr size.toNat fun _ => byte) ∧
    (ptr2.toNat % 4 = 0 → Disjoint (region ptr size.toNat) (region ptr2 size.toNat) →
      ∃ m', memcpy o fuel ptr ptr2 size m = some m' ∧
        Wrote m m' ptr size.toNat fun k => m (ptr2 + BitVec.ofNat 32 k)) :=
  ⟨⟨_, memset_eq hp hf, overwrite_wrote size.isLt.le⟩,
    fun hp2 hd => ⟨_, memcpy_eq hp hp2 hd hf, overwrite_wrote size.isLt.le⟩⟩

/-- Seven bytes are one word and three bytes. -/
def sampleMemory : Memory := fun a => a.setWidth 8

theorem byte_exact_sample :
    (∃ m', memset .little 5 0x20004000 1 7 sampleMemory = some m' ∧
      Wrote sampleMemory m' 0x20004000 7 fun _ => 1) ∧
    ∃ m', memcpy .little 5 0x20004000 0x20005000 7 sampleMemory = some m' ∧
      Wrote sampleMemory m' 0x20004000 7 fun k => sampleMemory (0x20005000 + BitVec.ofNat 32 k) := by
  have hapart : Disjoint (region 0x20004000 7) (region 0x20005000 7) :=
    region_disjoint (by decide) (by decide) (.inl (by decide))
  have h := @byte_exact .little 5 sampleMemory 0x20004000 0x20005000 7 1 (by decide) (by decide)
  exact ⟨h.1, h.2 (by decide) hapart⟩

/-! ## Records

What `Globals.readState`, `Globals.writeState` and the copies of a `StateT` stand
for in memory. -/

/-- The `state_t` at `p`. -/
def StateAt (o : ByteOrder) (m : Memory) (p : Word) (t : StateT) : Prop :=
  ∀ i : Fin 35, loadWord o m (p + BitVec.ofNat 32 (4 * i)) = some (t.words i)

/-- The words of the processes are those in memory. -/
def Words (o : ByteOrder) (m : Memory) (g : Globals) : Prop :=
  ∀ a : Word, a.toNat % 4 = 0 → loadWord o m a = some (g.mem a)

theorem Words.stateAt {g : Globals} (h : Words o m g) (hp : p.toNat % 4 = 0) :
    StateAt o m p (g.readState p) := fun i => h _ (word_aligned hp i)

/-- `sizeof(state_t)`. -/
def stateSize : Word := 140

/-- `memcpy` of a `state_t`. -/
theorem memcpy_state {t : StateT} (h : StateAt o m ptr2 t) (hp : ptr.toNat % 4 = 0)
    (hp2 : ptr2.toNat % 4 = 0) (hd : Disjoint (region ptr 140) (region ptr2 140)) (hf : 38 < fuel) :
    ∃ m', memcpy o fuel ptr ptr2 stateSize m = some m' ∧ StateAt o m' ptr t ∧
      ∀ a ∉ region ptr 140, m' a = m a := by
  refine ⟨_, memcpy_eq hp hp2 hd hf, fun i => ?_, fun a ha => overwrite_outside ha⟩
  have hi := i.isLt
  rw [← h i, loadWord_place (word_aligned hp2 i)]
  exact loadWord_inside (word_aligned hp i) (by show 4 * i.val + 4 ≤ 140; omega) (by decide)

/-- `memcpy` of a `state_t` of a process is `readState`. -/
theorem memcpy_readState {g : Globals} (hm : Words o m g) (hp : ptr.toNat % 4 = 0)
    (hp2 : ptr2.toNat % 4 = 0) (hd : Disjoint (region ptr 140) (region ptr2 140)) (hf : 38 < fuel) :
    ∃ m', memcpy o fuel ptr ptr2 stateSize m = some m' ∧ StateAt o m' ptr (g.readState ptr2) ∧
      ∀ a ∉ region ptr 140, m' a = m a :=
  memcpy_state (hm.stateAt hp2) hp hp2 hd hf

/-- A `state_t` in what `reset` of `process.c` clears. -/
theorem memset_state {k : Nat} (hp : ptr.toNat % 4 = 0) (hk : k % 4 = 0)
    (hks : k + 140 ≤ size.toNat) (hf : size.toNat / 4 + 3 < fuel) :
    ∃ m', memset o fuel ptr 0 size m = some m' ∧ StateAt o m' (ptr + BitVec.ofNat 32 k) .zero := by
  have hs := size.isLt
  refine ⟨_, memset_eq hp hf, fun i => ?_⟩
  have hi := i.isLt
  have hplace : (ptr + BitVec.ofNat 32 (k + 4 * i)).toNat % 4 = 0 := by
    rw [BitVec.toNat_add, BitVec.toNat_ofNat]
    omega
  rw [BitVec.add_assoc, ← BitVec.ofNat_add, loadWord_inside hplace (by omega) hs.le]
  cases o <;> rfl

theorem foldl_writeMem {ι : Type} [DecidableEq ι] {A : ι → Word} (v : ι → Word)
    (hA : Function.Injective A) (l : List ι) (g : Globals) :
    (∀ i, (l.foldl (fun s i => s.writeMem (A i) (v i)) g).mem (A i) =
      if i ∈ l then v i else g.mem (A i)) ∧
    ∀ b, (∀ i, b ≠ A i) → (l.foldl (fun s i => s.writeMem (A i) (v i)) g).mem b = g.mem b := by
  induction l generalizing g with
  | nil => exact ⟨fun i => by simp, fun b _ => rfl⟩
  | cons j l ih =>
    obtain ⟨hin, hout⟩ := ih (g.writeMem (A j) (v j))
    constructor
    · intro i
      rw [List.foldl_cons, hin i]
      by_cases hij : i = j
      · subst hij
        simp [Globals.writeMem]
      · simp [Globals.writeMem, hij, hA.eq_iff]
    · intro b hb
      rw [List.foldl_cons, hout b hb]
      simp [Globals.writeMem, hb j]

/-- `memcpy` of a `state_t` to a process is `writeState`. -/
theorem memcpy_writeState {g : Globals} {t : StateT} (hm : Words o m g) (h : StateAt o m ptr2 t)
    (hp : ptr.toNat % 4 = 0) (hp2 : ptr2.toNat % 4 = 0)
    (hd : Disjoint (region ptr 140) (region ptr2 140)) (hf : 38 < fuel) :
    ∃ m', memcpy o fuel ptr ptr2 stateSize m = some m' ∧ Words o m' (g.writeState ptr t) := by
  obtain ⟨m', hm', hstate, hrest⟩ := memcpy_state h hp hp2 hd hf
  refine ⟨m', hm', fun a ha => ?_⟩
  have hinj : Function.Injective fun i : Fin 35 => ptr + BitVec.ofNat 32 (4 * i) := by
    intro i j hij
    have := congrArg BitVec.toNat hij
    simp only [BitVec.toNat_add, BitVec.toNat_ofNat] at this
    omega
  obtain ⟨hin, hout⟩ := foldl_writeMem t.words hinj (List.finRange 35) g
  by_cases hat : ∃ i : Fin 35, a = ptr + BitVec.ofNat 32 (4 * i)
  · obtain ⟨i, rfl⟩ := hat
    rw [hstate i]
    exact congrArg some ((hin i).trans (if_pos (List.mem_finRange i))).symm
  · have hne := not_exists.mp hat
    have hfar : ∀ k : Fin 4, a + BitVec.ofNat 32 k ∉ region ptr 140 := by
      intro k hk
      obtain ⟨j, hj, he⟩ := word_of_region (n := 35) hp ha (by decide) hk
      exact hne ⟨j, hj⟩ he
    have hload : loadWord o m' a = loadWord o m a := by
      simp only [loadWord, hrest _ (hfar _)]
    rw [hload, hm a ha]
    exact congrArg some (hout a hne).symm

end Pandos
