import Mathlib.Algebra.GroupWithZero.Nat
import Mathlib.Data.Set.Lattice
import Mathlib.Logic.Function.Basic
import Mathlib.Order.CompletePartialOrder

/-!
# Byte-addressed memory

Bytes at the addresses of a 32-bit machine. Words are accessed as four bytes in
either order, and only where they are aligned. A loop counts up in a word.
-/

namespace Bytes

abbrev Address := BitVec 32
abbrev Byte := BitVec 8
abbrev Memory := Address → Byte

/-! ## Words -/

inductive ByteOrder
  | little
  | big

/-- The place of a byte of a word, counted from its low end. -/
def ByteOrder.lane : ByteOrder → Fin 4 → Fin 4
  | .little, k => k
  | .big, k => k.rev

theorem ByteOrder.lane_lane (o : ByteOrder) (k : Fin 4) : o.lane (o.lane k) = k := by
  cases o with
  | little => rfl
  | big => exact Fin.rev_rev k

/-- The word of four bytes, the low end first. -/
def join (f : Fin 4 → Byte) : BitVec 32 := f 3 ++ f 2 ++ f 1 ++ f 0

theorem extract_join (f : Fin 4 → Byte) : ∀ k : Fin 4, (join f).extractLsb' (8 * k) 8 = f k
  | 0 => BitVec.extractLsb'_append_eq_right
  | 1 => by
    rw [join, BitVec.extractLsb'_append_eq_of_le (by decide)]
    exact BitVec.extractLsb'_append_eq_right
  | 2 => by
    rw [join, BitVec.extractLsb'_append_eq_of_le (by decide),
      BitVec.extractLsb'_append_eq_of_le (by decide)]
    exact BitVec.extractLsb'_append_eq_right
  | 3 => by
    rw [join, BitVec.extractLsb'_append_eq_of_le (by decide),
      BitVec.extractLsb'_append_eq_of_le (by decide)]
    exact BitVec.extractLsb'_append_eq_left

variable {o : ByteOrder} {m : Memory} {p a : Address} {n k : Nat} {f : Nat → Byte}

def byteOf (o : ByteOrder) (w : BitVec 32) (k : Fin 4) : Byte := w.extractLsb' (8 * o.lane k) 8

def wordOf (o : ByteOrder) (f : Fin 4 → Byte) : BitVec 32 := join fun k => f (o.lane k)

theorem byteOf_wordOf (f : Fin 4 → Byte) (k : Fin 4) : byteOf o (wordOf o f) k = f k := by
  rw [byteOf, wordOf, extract_join, o.lane_lane]

def loadWord (o : ByteOrder) (m : Memory) (a : Address) : Option (BitVec 32) :=
  if a.toNat % 4 = 0 then some (wordOf o fun k => m (a + BitVec.ofNat 32 k)) else none

def storeWord (o : ByteOrder) (m : Memory) (a : Address) (v : BitVec 32) : Option Memory :=
  if a.toNat % 4 = 0 then
    some fun b => if h : (b - a).toNat < 4 then byteOf o v ⟨(b - a).toNat, h⟩ else m b
  else none

def storeByte (m : Memory) (a : Address) (v : Byte) : Memory := Function.update m a v

/-! ## Regions -/

/-- The `n` bytes from `p` on. -/
def region (p : Address) (n : Nat) : Set Address := {a | ∃ k < n, a = p + BitVec.ofNat 32 k}

/-- The bytes of a region are replaced by those of `f`. -/
def overwrite (m : Memory) (p : Address) (n : Nat) (f : Nat → Byte) : Memory := fun a =>
  if (a - p).toNat < n then f (a - p).toNat else m a

/-- A region that does not wrap is an interval. -/
theorem mem_region (h : p.toNat + n ≤ 2 ^ 32) :
    a ∈ region p n ↔ p.toNat ≤ a.toNat ∧ a.toNat < p.toNat + n := by
  constructor
  · rintro ⟨k, hk, rfl⟩
    rw [BitVec.toNat_add, BitVec.toNat_ofNat]
    omega
  · rintro ⟨hl, hr⟩
    refine ⟨a.toNat - p.toNat, by omega, BitVec.eq_of_toNat_eq ?_⟩
    rw [BitVec.toNat_add, BitVec.toNat_ofNat]
    omega

/-- Regions one after the other are apart. -/
theorem region_disjoint {q : Address} {l : Nat} (hp : p.toNat + n ≤ 2 ^ 32)
    (hq : q.toNat + l ≤ 2 ^ 32) (h : p.toNat + n ≤ q.toNat ∨ q.toNat + l ≤ p.toNat) :
    Disjoint (region p n) (region q l) := by
  rw [Set.disjoint_left]
  intro a ha ha'
  rw [mem_region hp] at ha
  rw [mem_region hq] at ha'
  omega

theorem toNat_offset (p : Address) (hk : k < 2 ^ 32) : (p + BitVec.ofNat 32 k - p).toNat = k := by
  rw [BitVec.add_comm, BitVec.add_sub_cancel, BitVec.toNat_ofNat, Nat.mod_eq_of_lt hk]

theorem add_offset (p a : Address) : p + BitVec.ofNat 32 (a - p).toNat = a := by
  rw [BitVec.ofNat_toNat, BitVec.setWidth_eq, BitVec.add_comm, BitVec.sub_add_cancel]

/-- An address is as far from a place in the region as the distances from its
start differ. -/
theorem toNat_sub_place (p a : Address) (hn : n < 2 ^ 32) :
    (a - (p + BitVec.ofNat 32 n)).toNat =
      if n ≤ (a - p).toNat then (a - p).toNat - n else (a - p).toNat + 2 ^ 32 - n := by
  have ha := a.isLt
  have hp := p.isLt
  rw [BitVec.toNat_sub, BitVec.toNat_add, BitVec.toNat_ofNat, BitVec.toNat_sub]
  split <;> omega

theorem overwrite_inside (hk : k < n) (hn : n ≤ 2 ^ 32) :
    overwrite m p n f (p + BitVec.ofNat 32 k) = f k := by
  rw [overwrite, toNat_offset p (hk.trans_le hn), if_pos hk]

theorem overwrite_outside (ha : a ∉ region p n) : overwrite m p n f a = m a :=
  if_neg fun hk => ha ⟨(a - p).toNat, hk, (add_offset p a).symm⟩

/-- What is apart from all that is written is not written. -/
theorem overwrite_apart {q : Address} {l : Nat} (hd : Disjoint (region p l) (region q l))
    (hn : n ≤ l) (hk : k < l) :
    overwrite m p n f (q + BitVec.ofNat 32 k) = m (q + BitVec.ofNat 32 k) := by
  apply overwrite_outside
  rintro ⟨j, hj, he⟩
  exact Set.disjoint_left.mp hd ⟨j, hj.trans_le hn, he⟩ ⟨k, hk, rfl⟩

theorem storeByte_overwrite (hn : n < 2 ^ 32) :
    storeByte (overwrite m p n f) (p + BitVec.ofNat 32 n) (f n) = overwrite m p (n + 1) f := by
  funext a
  rw [storeByte, Function.update_apply]
  split
  · next ha =>
    subst ha
    rw [overwrite, toNat_offset p hn, if_pos (Nat.lt_succ_self n)]
  · next ha =>
    have hne : (a - p).toNat ≠ n := by
      rintro rfl
      exact ha (add_offset p a).symm
    simp only [overwrite]
    split_ifs <;> first | rfl | omega

theorem storeWord_overwrite (hp : (p + BitVec.ofNat 32 n).toNat % 4 = 0) (hn : n + 4 ≤ 2 ^ 32) :
    storeWord o (overwrite m p n f) (p + BitVec.ofNat 32 n) (wordOf o fun k => f (n + k)) =
      some (overwrite m p (n + 4) f) := by
  rw [storeWord, if_pos hp]
  congr 1
  funext a
  have hd := toNat_sub_place p a (by omega : n < 2 ^ 32)
  have ha := (a - p).isLt
  simp only [byteOf_wordOf, overwrite]
  by_cases hk : n ≤ (a - p).toNat ∧ (a - p).toNat < n + 4
  · rw [if_pos hk.1] at hd
    rw [dif_pos (by omega), if_pos hk.2, hd]
    congr 1
    omega
  · rw [dif_neg (by split at hd <;> omega)]
    split_ifs <;> first | rfl | omega

/-- The region holds `f`, and every other byte is what it was. -/
structure Wrote (m m' : Memory) (p : Address) (n : Nat) (f : Nat → Byte) : Prop where
  inside : ∀ k < n, m' (p + BitVec.ofNat 32 k) = f k
  outside : ∀ a ∉ region p n, m' a = m a

theorem overwrite_wrote (hn : n ≤ 2 ^ 32) : Wrote m (overwrite m p n f) p n f where
  inside _ hk := overwrite_inside hk hn
  outside _ ha := overwrite_outside ha

/-- The bytes of a word, counted from the start of what it is in. -/
theorem loadWord_place (ha : (p + BitVec.ofNat 32 k).toNat % 4 = 0) :
    loadWord o m (p + BitVec.ofNat 32 k) =
      some (wordOf o fun j => m (p + BitVec.ofNat 32 (k + j))) := by
  rw [loadWord, if_pos ha]
  congr 2
  funext j
  rw [BitVec.add_assoc, ← BitVec.ofNat_add]

theorem loadWord_inside (ha : (p + BitVec.ofNat 32 k).toNat % 4 = 0) (hk : k + 4 ≤ n)
    (hn : n ≤ 2 ^ 32) : loadWord o (overwrite m p n f) (p + BitVec.ofNat 32 k) =
      some (wordOf o fun j => f (k + j)) := by
  rw [loadWord_place ha]
  congr 2
  funext j
  exact overwrite_inside (by omega) hn

theorem loadWord_apart {q : Address} {l : Nat} (hd : Disjoint (region p l) (region q l))
    (ha : (q + BitVec.ofNat 32 k).toNat % 4 = 0) (hn : n ≤ l) (hk : k + 4 ≤ l) :
    loadWord o (overwrite m p n f) (q + BitVec.ofNat 32 k) =
      some (wordOf o fun j => m (q + BitVec.ofNat 32 (k + j))) := by
  rw [loadWord_place ha]
  congr 2
  funext j
  exact overwrite_apart hd hn (by omega)

/-- A word that meets a region of words is one of them. -/
theorem word_of_region (hp : p.toNat % 4 = 0) (ha : a.toNat % 4 = 0) {i : Fin 4}
    (hn : 4 * n ≤ 2 ^ 32) (h : a + BitVec.ofNat 32 i ∈ region p (4 * n)) :
    ∃ k < n, a = p + BitVec.ofNat 32 (4 * k) := by
  obtain ⟨j, hj, he⟩ := h
  have hlt := a.isLt
  have hplt := p.isLt
  have hi := i.isLt
  have hd := congrArg BitVec.toNat he
  simp only [BitVec.toNat_add, BitVec.toNat_ofNat] at hd
  refine ⟨j / 4, by omega, BitVec.eq_of_toNat_eq ?_⟩
  rw [BitVec.toNat_add, BitVec.toNat_ofNat]
  omega

/-! ## Loops that count up -/

variable {σ : Type*}

/-- `for (i = ..; i < bound; i++)`, with no result if the fuel runs out or an
access fails. The counter is part of the result. -/
def forLoop (bound : BitVec 32) (body : BitVec 32 → σ → Option σ) :
    Nat → BitVec 32 → σ → Option (BitVec 32 × σ)
  | 0, _, _ => none
  | fuel + 1, i, s =>
    if i < bound then (body i s).bind (forLoop bound body fuel (i + 1)) else some (i, s)

/-- What the states before each pass say how to continue holds at the end. -/
theorem forLoop_eq {bound : BitVec 32} {body : BitVec 32 → σ → Option σ} {fuel : Nat} (s : Nat → σ)
    (hstep : ∀ i < bound.toNat, body (BitVec.ofNat 32 i) (s i) = some (s (i + 1)))
    (hfuel : bound.toNat < fuel) : forLoop bound body fuel 0 (s 0) = some (bound, s bound.toNat) := by
  have run : ∀ fuel i, i ≤ bound.toNat → bound.toNat - i < fuel →
      forLoop bound body fuel (BitVec.ofNat 32 i) (s i) = some (bound, s bound.toNat) := by
    intro fuel
    induction fuel with
    | zero => intro i _ hf; omega
    | succ fuel ih =>
      intro i hi hf
      have hlt := bound.isLt
      rw [forLoop]
      have hcmp : BitVec.ofNat 32 i < bound ↔ i < bound.toNat := by
        rw [BitVec.lt_def, BitVec.toNat_ofNat, Nat.mod_eq_of_lt (hi.trans_lt hlt)]
      by_cases hlast : i < bound.toNat
      · have hnext : BitVec.ofNat 32 i + 1 = BitVec.ofNat 32 (i + 1) := by
          rw [BitVec.ofNat_add]
          rfl
        rw [if_pos (hcmp.mpr hlast), hstep i hlast, Option.bind_some, hnext]
        exact ih (i + 1) hlast (by omega)
      · obtain rfl : i = bound.toNat := by omega
        rw [if_neg (mt hcmp.mp hlast), BitVec.ofNat_toNat, BitVec.setWidth_eq]
  exact run fuel 0 (Nat.zero_le _) hfuel

end Bytes
