import Pandos.Linked.Kernel
import Pandos.Phase1.LinkEffects
import Pandos.Placement

/-!
# A kernel on pointers and one on lists

`Paired` relates the two while no code of the kernel is running, `Twin` while it
handles an exception. The words of memory in `D` are those the handling looks
at; all others, the saved registers and the times are blurred by `V`.
-/

namespace Pandos
open Intrusive

structure Globals.Alike (V : Blur) (g g' : Globals) : Prop where
  gProcessCount : g.gProcessCount = g'.gProcessCount
  gSoftBlockCount : g.gSoftBlockCount = g'.gSoftBlockCount
  gCurrentProcess : g.gCurrentProcess = g'.gCurrentProcess
  gSysiostates : g.gSysiostates = g'.gSysiostates
  gPseudoClock : g.gPseudoClock = g'.gPseudoClock
  gTod : V.rel g.gTod g'.gTod
  gOldState : g.gOldState.Alike V g'.gOldState
  mem : ∀ a, V.rel (g.mem a) (g'.mem a)
  bus : g.bus = g'.bus
  hw : g.hw = g'.hw
  stck : ∀ n, V.rel (g.stck n) (g'.stck n)
  stckReads : g.stckReads = g'.stckReads

structure Globals.Agree (V : Blur) (D : Set Word) (g g' : Globals) : Prop extends Alike V g g' where
  cause : g.gOldState.cause = g'.gOldState.cause
  shown : ∀ a ∈ D, g.mem a = g'.mem a

namespace Globals
variable {V : Blur} {D : Set Word} {g g' : Globals} {L : Layout} {a v w : Word} {n : Int}

theorem Alike.eq (h : g.Alike .exact g') : g = g' := by
  obtain ⟨h₁, h₂, h₃, h₄, h₅, h₆, h₇, h₈, h₉, h₁₀, h₁₁, h₁₂⟩ := h
  have h₇ := h₇.eq
  have h₈ := funext h₈
  have h₁₁ := funext h₁₁
  cases g
  cases g'
  simp_all [Blur.exact]

theorem Alike.refl (g : Globals) : g.Alike V g :=
  ⟨rfl, rfl, rfl, rfl, rfl, V.refl _, .refl _, fun _ => V.refl _, rfl, rfl, fun _ => V.refl _, rfl⟩

theorem Alike.writeMem (h : g.Alike V g') (hv : V.rel v w) : (g.writeMem a v).Alike V (g'.writeMem a w) :=
  { h with
    mem := fun b => by
      by_cases hb : b = a
      · simpa [Globals.writeMem, hb] using hv
      · simpa [Globals.writeMem, hb] using h.mem b }

theorem Alike.readState (h : g.Alike V g') : (g.readState a).Alike V (g'.readState a) :=
  ⟨fun _ => h.mem _, rfl⟩

theorem Alike.writeState (h : g.Alike V g') {s s' : StateT} (hs : s.Alike V s') :
    (g.writeState a s).Alike V (g'.writeState a s') := by
  unfold Globals.writeState
  induction List.finRange 35 generalizing g g' with
  | nil => exact h
  | cons i l ih => exact ih (h.writeMem (hs.words i))

theorem Agree.modDev (h : g.Agree V D g') (d : Dev) (f : SysiostateT → SysiostateT) :
    (g.modDev d f).Agree V D (g'.modDev d f) :=
  { h with gSysiostates := by simp only [Globals.modDev, h.gSysiostates] }

theorem Agree.writeMem (h : g.Agree V D g') : (g.writeMem a v).Agree V D (g'.writeMem a v) :=
  { h with
    mem := (h.toAlike.writeMem (V.refl v)).mem
    shown := fun b hb => by
      by_cases hba : b = a
      · simp [Globals.writeMem, hba]
      · simpa [Globals.writeMem, hba] using h.shown b hb }

/-- Words of the kernel are never blurred, those of processes are when they are
not in `D`. -/
theorem Agree.load (h : g.Agree V D g') (ha : a ∈ D ∨ L.kernelWord a ≠ none) :
    g.load L a = g'.load L a := by
  unfold Globals.load
  cases hk : L.kernelWord a with
  | none => exact h.shown a (ha.resolve_right fun hn => hn hk)
  | some w =>
    cases w with
    | clock => exact h.gPseudoClock
    | semMut d => exact congrArg (fun r => (r d).semMut) h.gSysiostates
    | semSync d => exact congrArg (fun r => (r d).semSync) h.gSysiostates

theorem Agree.store (h : g.Agree V D g') : (g.store L a v).Agree V D (g'.store L a v) := by
  unfold Globals.store
  cases L.kernelWord a with
  | none => exact h.writeMem
  | some w =>
    cases w with
    | clock => exact { h with gPseudoClock := rfl }
    | semMut d => exact h.modDev d ({ · with semMut := v })
    | semSync d => exact h.modDev d ({ · with semSync := v })

theorem Agree.writeReg (h : g.Agree V D g') : (g.writeReg a v).Agree V D (g'.writeReg a v) :=
  { h with
    bus := by simp only [Globals.writeReg, h.bus]
    hw := by simp only [Globals.writeReg, h.hw] }

theorem Agree.writeAck (h : g.Agree V D g') : (g.writeAck a).Agree V D (g'.writeAck a) :=
  { h with
    bus := by simp only [Globals.writeAck, h.bus]
    hw := by simp only [Globals.writeAck, h.hw] }

theorem Agree.submit (h : g.Agree V D g') (hD : ∀ i < n.toNat, wordAt v i ∈ D) :
    (g.submit a v n).Agree V D (g'.submit a v n) := by
  have hD : ∀ i ∈ List.range n.toNat, wordAt v i ∈ D := fun i hi => hD i (List.mem_range.mp hi)
  unfold Globals.submit
  generalize List.range n.toNat = l at hD ⊢
  induction l generalizing g g' with
  | nil => exact h
  | cons i l ih =>
    rw [List.foldl_cons, List.foldl_cons, h.shown _ (hD i (by simp))]
    exact ih h.writeReg fun j hj => hD j (by simp [hj])

theorem Agree.collect (h : g.Agree V D g') : (g.collect a v n).Agree V D (g'.collect a v n) := by
  unfold Globals.collect
  induction List.range n.toNat generalizing g g' with
  | nil => exact h
  | cons i l ih =>
    rw [List.foldl_cons, List.foldl_cons, h.bus]
    exact ih h.writeMem

end Globals

namespace Linked

/-- The pointers of the one thread the lists of the other. -/
structure Paired (V : Blur) (A : Set Pcb) (s : Kernel) (s' : Pandos.Kernel) : Prop where
  links : s.toLinks.Holds V A s'.toTables
  globals : s.toGlobals.Alike V s'.toGlobals
  current : ∀ c, s'.gCurrentProcess = some c → c ∈ A

/-- The words that hold the values of a request. -/
def request (cmdAddr cmdValues : Word) : Set Word :=
  {a | ∃ i < (getNumRegister cmdAddr).toNat, a = wordAt cmdValues i}

/-- What an exception makes the kernel look at: words of processes, among them
those that the requests of some of them name. -/
structure Sight where
  words : Set Word
  asking : Set Pcb

/-- Only requests of `D.asking` can be begun, with values in `D.words`. -/
structure Buffered (L : Layout) (D : Sight) (T : Tables) : Prop where
  asking : ∀ d i, T.sKey i = L.addr (.semMut d) → ∀ p ∈ T.procQ (.sProcq i), p ∈ D.asking
  shown : ∀ p ∈ D.asking, request (T.pcbs p).cmdAddr (T.pcbs p).cmdValues ⊆ D.words

structure Twin (L : Layout) (V : Blur) (D : Sight) (A : Set Pcb) (s : Kernel) (s' : Pandos.Kernel) : Prop
    extends Paired V A s s' where
  agree : s.toGlobals.Agree V D.words s'.toGlobals
  buffered : Buffered L D s'.toTables

end Linked

/-- The data that `LDCXT` loads is blurred. -/
def Exit.Alike (V : Blur) : Exit → Exit → Prop
  | .ldcxt a b c, .ldcxt a' b' c' => V.rel a a' ∧ V.rel b b' ∧ V.rel c c'
  | e, e' => e = e'

theorem Exit.Alike.refl {V : Blur} (e : Exit) : e.Alike V e := by
  cases e with
  | ldcxt => exact ⟨V.refl _, V.refl _, V.refl _⟩
  | _ => rfl

namespace Linked

/-- Both leave the kernel in the same way, after more pcbs have been allocated. -/
def Out (V : Blur) (A : Set Pcb) (e e' : Exit) (s : Kernel) (s' : Pandos.Kernel) : Prop :=
  e.Alike V e' ∧ ∃ B, A ⊆ B ∧ Paired V B s s'

variable {L : Layout} {V : Blur} {D : Sight} {A B : Set Pcb} {s : Kernel} {s' : Pandos.Kernel} {p : Pcb}
  {T T' : Tables} {a : Word}

theorem Paired.out (h : Paired V A s s') (e : Exit) : Out V A e e s s' := ⟨.refl e, A, subset_rfl, h⟩

theorem Out.mono {e e' : Exit} (hA : A ⊆ B) (h : Out V B e e' s s') : Out V A e e' s s' :=
  h.imp id fun ⟨C, hC, hp⟩ => ⟨C, hA.trans hC, hp⟩

theorem Paired.withLinks (h : Paired V A s s') {t : Links} {T : Tables} (ht : t.Holds V A T) :
    Paired V A { s with toLinks := t } { s' with toTables := T } :=
  ⟨ht, h.globals, h.current⟩

theorem Paired.withGlobals (h : Paired V A s s') {g k : Globals} (hg : g.Alike V k)
    (hc : ∀ c, k.gCurrentProcess = some c → c ∈ A) :
    Paired V A { s with toGlobals := g } { s' with toGlobals := k } :=
  ⟨h.links, hg, hc⟩

theorem Paired.modPcb (h : Paired V A s s') {f g : PcbT → PcbT}
    (hf : (f (s.pcbs p)).Alike V (g (s'.pcbs p))) (hp : (f (s.pcbs p)).pParent = (s.pcbs p).pParent) :
    Paired V A { s with toLinks := s.toLinks.modPcb p f } { s' with toTables := s'.toTables.modPcb p g } :=
  h.withLinks (h.links.modPcb hf hp)

theorem Paired.pcbs (h : Paired V A s s') (p : Pcb) : (s.pcbs p).Alike V (s'.pcbs p) := h.links.pcbs p

theorem Twin.withLinks (h : Twin L V D A s s') {t : Links} {T : Tables} (ht : t.Holds V A T)
    (hb : Buffered L D T) : Twin L V D A { s with toLinks := t } { s' with toTables := T } :=
  ⟨h.toPaired.withLinks ht, h.agree, hb⟩

theorem Twin.withGlobals (h : Twin L V D A s s') {g k : Globals} (hg : g.Agree V D.words k)
    (hc : k.gCurrentProcess = s'.gCurrentProcess) :
    Twin L V D A { s with toGlobals := g } { s' with toGlobals := k } :=
  ⟨h.toPaired.withGlobals hg.toAlike (hc ▸ h.current), hg, h.buffered⟩

/-- The requests stay the same, and nobody comes to wait. -/
theorem Buffered.fewer (h : Buffered L D T) (hk : T'.sKey = T.sKey)
    (hq : ∀ i, ∀ p ∈ T'.procQ (.sProcq i), p ∈ T.procQ (.sProcq i))
    (hr : ∀ p, (T'.pcbs p).cmdAddr = (T.pcbs p).cmdAddr ∧ (T'.pcbs p).cmdValues = (T.pcbs p).cmdValues) :
    Buffered L D T' where
  asking d i hi p hp := h.asking d i (hk ▸ hi) p (hq i p hp)
  shown p hp := by
    rw [(hr p).1, (hr p).2]
    exact h.shown p hp

theorem Buffered.removeBlocked (h : Buffered L D T) (a : Word) : Buffered L D (T.removeBlocked a).2 := by
  unfold Tables.removeBlocked
  split
  · exact h
  · next i _ =>
    split
    · exact h
    · next p l _ =>
      obtain ⟨hq, hk, hr, -⟩ := T.unqueue_fields i p
      refine h.fewer hk (fun j q hm => ?_) fun q => ?_
      · have hm : q ∈ (T.unqueue i p).procQ (.sProcq j) := hm
        rw [hq] at hm
        exact (Lists.mem_unlink.mp hm).1
      · show ((T.unqueue i p).pcbs q).cmdAddr = _ ∧ ((T.unqueue i p).pcbs q).cmdValues = _
        rw [hr]
        by_cases hq : q = p <;> simp [hq]

/-- Whoever is next at a device has a request that can be begun. -/
theorem Buffered.next (h : Buffered L D T) {d : Dev} (hp : p ∈ (T.removeBlocked (L.addr (.semMut d))).1) :
    p ∈ D.asking := by
  unfold Tables.removeBlocked at hp
  split at hp
  · cases hp
  · next i hf =>
    split at hp
    · cases hp
    · next q l hq =>
      obtain rfl : q = p := by simpa using hp
      exact h.asking d i (by simpa using List.find?_some hf) q (by simp [hq])

theorem Buffered.insertReady (h : Buffered L D T) (p : Pcb) :
    Buffered L D (T.insertProcQ .gReadyQueue p) := by
  refine h.fewer rfl (fun i q hm => ?_) fun _ => ⟨rfl, rfl⟩
  rw [Tables.insertProcQ_procQ, if_neg (by simp)] at hm
  exact (Lists.mem_unlink.mp hm).1

/-- A change of a record that keeps its request. -/
theorem Twin.modPcb (h : Twin L V D A s s') {f g : PcbT → PcbT}
    (hf : (f (s.pcbs p)).Alike V (g (s'.pcbs p))) (hp : (f (s.pcbs p)).pParent = (s.pcbs p).pParent)
    (hr : (g (s'.pcbs p)).cmdAddr = (s'.pcbs p).cmdAddr)
    (hv : (g (s'.pcbs p)).cmdValues = (s'.pcbs p).cmdValues) :
    Twin L V D A { s with toLinks := s.toLinks.modPcb p f } { s' with toTables := s'.toTables.modPcb p g } := by
  refine h.withLinks (h.links.modPcb hf hp) (h.buffered.fewer rfl (fun _ _ hm => hm) fun q => ?_)
  by_cases hq : q = p
  · subst hq
    simp only [Tables.modPcb, Function.update_self]
    exact ⟨hr, hv⟩
  · simp [Tables.modPcb, hq]

end Linked

end Pandos
