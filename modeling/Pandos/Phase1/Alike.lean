import Pandos.Types

/-!
# Records that are told apart in some words only

Two runs of the kernel may differ in the registers that processes have saved
and in the times they have used. A `Blur` says which words may then be in the
same place.
-/

namespace Pandos

structure Blur where
  rel : Word → Word → Prop
  refl : ∀ v, rel v v
  add : ∀ {v w v' w'}, rel v w → rel v' w' → rel (v + v') (w + w')
  sub : ∀ {v w v' w'}, rel v w → rel v' w' → rel (v - v') (w - w')

namespace Blur

/-- The same words. -/
def exact : Blur where
  rel := Eq
  refl _ := rfl
  add h h' := by rw [h, h']
  sub h h' := by rw [h, h']

/-- Any words. -/
def any : Blur := ⟨fun _ _ => True, fun _ => trivial, fun _ _ => trivial, fun _ _ => trivial⟩

end Blur

/-- A saved context: whether it is of the `WAIT` loop is never blurred. -/
structure StateT.Alike (V : Blur) (s s' : StateT) : Prop where
  words : ∀ i, V.rel (s.words i) (s'.words i)
  inWait : s.inWait = s'.inWait

/-- A record: the registers and the time are blurred. -/
structure PcbT.Alike (V : Blur) (r r' : PcbT) : Prop where
  pParent : r.pParent = r'.pParent
  pS : r.pS.Alike V r'.pS
  pTime : V.rel r.pTime r'.pTime
  pSemAdd : r.pSemAdd = r'.pSemAdd
  namespaces : r.namespaces = r'.namespaces
  pSupportStruct : r.pSupportStruct = r'.pSupportStruct
  cmdAddr : r.cmdAddr = r'.cmdAddr
  cmdValues : r.cmdValues = r'.cmdValues

section
variable {V : Blur} {s s' : StateT} {r r' : PcbT} {v w : Word}

theorem StateT.Alike.refl (s : StateT) : s.Alike V s := ⟨fun _ => V.refl _, rfl⟩

theorem StateT.Alike.set (h : s.Alike V s') {i : Fin 35} (hv : V.rel v w) :
    (s.set i v).Alike V (s'.set i w) where
  words j := by
    by_cases hj : j = i
    · simpa [StateT.set, hj] using hv
    · simpa [StateT.set, hj] using h.words j
  inWait := h.inWait

theorem StateT.Alike.eq (h : s.Alike .exact s') : s = s' := by
  cases s
  cases s'
  obtain ⟨hw, hi⟩ := h
  obtain rfl := funext hw
  exact congrArg _ hi

theorem PcbT.Alike.refl (r : PcbT) : r.Alike V r := ⟨rfl, .refl _, V.refl _, rfl, rfl, rfl, rfl, rfl⟩

theorem PcbT.Alike.eq (h : r.Alike .exact r') : r = r' := by
  obtain ⟨hp, hs, ht, ha, hn, hu, hc, hv⟩ := h
  have hs := hs.eq
  cases r
  cases r'
  simp_all [Blur.exact]

end

end Pandos
