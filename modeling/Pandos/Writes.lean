import Pandos.Linked.Twin
import Pandos.Reachable

/-!
# What an exception writes

A `Write` is one assignment of the kernel. The code that handles an exception
consists of writes within a `Range` that is known when the exception is taken.
-/

namespace Pandos
open Intrusive Outcome Linked

/-- The same context but for the words in `W`. -/
structure StateT.Kept (W : Set (Fin 35)) (s s' : StateT) : Prop where
  words : ∀ i ∉ W, s'.words i = s.words i
  inWait : s'.inWait = s.inWait

theorem StateT.Kept.refl {W : Set (Fin 35)} (s : StateT) : s.Kept W s := ⟨fun _ _ => rfl, rfl⟩

theorem StateT.Kept.trans {W : Set (Fin 35)} {s t u : StateT} (h : s.Kept W t) (k : t.Kept W u) : s.Kept W u :=
  ⟨fun i hi => (k.words i hi).trans (h.words i hi), k.inWait.trans h.inWait⟩

theorem StateT.Kept.mono {W W' : Set (Fin 35)} {s s' : StateT} (h : s.Kept W s') (hW : W ⊆ W') : s.Kept W' s' :=
  ⟨fun i hi => h.words i fun hm => hi (hW hm), h.inWait⟩

theorem StateT.kept_set {W : Set (Fin 35)} {s : StateT} {i : Fin 35} {v : Word} (hi : i ∈ W) :
    s.Kept W (s.set i v) := by
  refine ⟨fun j hj => ?_, rfl⟩
  have hne : j ≠ i := fun e => hj (e ▸ hi)
  simp [StateT.set, hne]

/-- What an exception may write. -/
structure Range where
  /-- Whom it may make. -/
  fresh : Set Pcb
  /-- The current process. -/
  caller : Option Pcb
  /-- Whose requests it may begin and answer. -/
  asked : Set Pcb
  words : Set Word
  interrupt : Prop
  /-- The context with which it starts. -/
  old : StateT

/-- Who a process is. -/
def PcbT.identity (r : PcbT) : Option Pcb × Word × (Fin nsTypeMax → Option Nsd) :=
  (r.pParent, r.pSupportStruct, r.namespaces)

inductive Write (R : Range) (s : Kernel) : Kernel → Prop
  | links {T : Tables} : (∀ q, ∃ a, T.pcbs q = { s.pcbs q with pSemAdd := a }) →
      Write R s { s with toTables := T }
  | make {p : Pcb} {T : Tables} : p ∈ R.fresh → (∀ q, q ≠ p → T.pcbs q = s.pcbs q) →
      Write R s { s with toTables := T }
  | caller {c : Pcb} {f : PcbT → PcbT} : R.caller = some c → (∀ r, (f r).identity = r.identity) →
      Write R s { s with toTables := s.modPcb c f }
  | answer {p : Pcb} {v : Word} : p ∈ R.asked →
      Write R s { s with toTables := s.modPcb p fun r => { r with pS := r.pS.setRegV0 v } }
  | globals {g : Globals} : (∀ a, a ∉ R.words → g.mem a = s.mem a) → Write R s { s with toGlobals := g }

abbrev Writes (R : Range) : Kernel → Kernel → Prop := Relation.ReflTransGen (Write R)

section
variable {R : Range} {s t : Kernel} {q : Pcb} {a : Word}

theorem Write.mem (h : Write R s t) (ha : a ∉ R.words) : t.mem a = s.mem a := by
  cases h with
  | globals hm => exact hm a ha
  | _ => rfl

/-- Globals other than the memory. -/
theorem Write.other {g : Globals} (hm : g.mem = s.mem) : Write R s { s with toGlobals := g } :=
  .globals fun _ _ => by rw [hm]

/-- A field that no record has changed. -/
theorem modPcb_field {α : Type} {T : Tables} {p : Pcb} {f : PcbT → PcbT} (field : PcbT → α)
    (hf : ∀ r, field (f r) = field r) (q : Pcb) : field ((T.modPcb p f).pcbs q) = field (T.pcbs q) := by
  by_cases hq : q = p
  · subst hq
    simpa [Tables.modPcb] using hf _
  · simp [Tables.modPcb, hq]

theorem Write.identity (h : Write R s t) (hq : q ∉ R.fresh) :
    (t.pcbs q).identity = (s.pcbs q).identity := by
  cases h with
  | @links T hT =>
    obtain ⟨a, ha⟩ := hT q
    show (T.pcbs q).identity = _
    rw [ha]
    rfl
  | make hp hT => exact congrArg PcbT.identity (hT q fun e => hq (e ▸ hp))
  | caller _ hf => exact modPcb_field PcbT.identity hf q
  | @answer p v =>
    have hf : ∀ r : PcbT, ({ r with pS := r.pS.setRegV0 v } : PcbT).identity = r.identity := fun _ => rfl
    exact modPcb_field PcbT.identity hf q
  | globals => rfl

/-- The contexts of other processes are kept, but for the results of requests. -/
theorem Write.context {W : Set (Fin 35)} (h : Write R s t) (hq : q ∉ R.fresh) (hc : R.caller ≠ some q)
    (hW : q ∈ R.asked → 5 ∈ W) : (s.pcbs q).pS.Kept W (t.pcbs q).pS := by
  cases h with
  | @links T hT =>
    obtain ⟨a, ha⟩ := hT q
    show (s.pcbs q).pS.Kept W (T.pcbs q).pS
    rw [ha]
    exact .refl _
  | @make p T hp hT =>
    show (s.pcbs q).pS.Kept W (T.pcbs q).pS
    rw [hT q fun e => hq (e ▸ hp)]
    exact .refl _
  | @caller c f hcall =>
    have hne : q ≠ c := fun e => hc (e ▸ hcall)
    simp [Tables.modPcb, hne, StateT.Kept.refl]
  | @answer p v ha =>
    by_cases hp : q = p
    · subst hp
      have hv : (s.pcbs q).pS.Kept W ((s.pcbs q).pS.setRegV0 v) := StateT.kept_set (hW ha)
      simpa [Tables.modPcb] using hv
    · simp [Tables.modPcb, hp, StateT.Kept.refl]
  | globals => exact .refl _

theorem Writes.mem (h : Writes R s t) (ha : a ∉ R.words) : t.mem a = s.mem a := by
  induction h with
  | refl => rfl
  | tail _ h ih => exact (h.mem ha).trans ih

theorem Writes.identity (h : Writes R s t) (hq : q ∉ R.fresh) :
    (t.pcbs q).identity = (s.pcbs q).identity := by
  induction h with
  | refl => rfl
  | tail _ h ih => exact (h.identity hq).trans ih

theorem Writes.context {W : Set (Fin 35)} (h : Writes R s t) (hq : q ∉ R.fresh) (hc : R.caller ≠ some q)
    (hW : q ∈ R.asked → 5 ∈ W) : (s.pcbs q).pS.Kept W (t.pcbs q).pS := by
  induction h with
  | refl => exact .refl _
  | tail _ h ih => exact ih.trans (h.context hq hc hW)

end

/-! ## Kernel code -/

/-- The kernel while it handles an exception. In an interrupt the requests of
`R.asked` may be begun and answered. -/
structure Inside (L : Layout) (R : Range) (s : Kernel) : Prop where
  caller : s.gCurrentProcess = R.caller
  old : R.old.Kept {1} s.gOldState
  waiting : R.interrupt → ∀ d p, (s.gSysiostates d).waitingProcess = some p → p ∈ R.asked
  buffered : R.interrupt → Buffered L ⟨R.words, R.asked⟩ s.toTables

/-- The process that was interrupted has its context saved. -/
def Stored (R : Range) (s : Kernel) : Prop := ∀ c, R.caller = some c → R.old.Kept {1} (s.pcbs c).pS

/-- It is neither ready nor blocked. -/
def Adrift (R : Range) (s : Kernel) : Prop :=
  ∀ c, R.caller = some c → c ∉ s.ready ∧ (s.pcbs c).pSemAdd = 0

/-- It is still the current process, or its context is saved, or it is lost. -/
def Saved (R : Range) (s : Kernel) : Prop :=
  s.gCurrentProcess = R.caller ∧ R.old.Kept {1, 5} s.gOldState ∨ Stored R s ∨ Adrift R s

/-- The code writes within `R`. -/
def Stays (L : Layout) (R : Range) {α : Type} (x : K α) (s : Kernel) : Prop :=
  Ends x s (fun _ t => Writes R s t ∧ Inside L R t) fun _ t => Writes R s t ∧ Saved R t

/-- The code writes within `R` and does not return. -/
def Quits (R : Range) {α : Type} (x : K α) (s : Kernel) : Prop :=
  Ends x s (fun _ _ => False) fun _ t => Writes R s t ∧ Saved R t

section
variable {L : Layout} {R : Range} {s t : Kernel} {α β : Type} {x : K α} {f : α → K β} {g : Globals → Globals}

theorem quits_leave {e : Exit} (h : Saved R s) : Quits R (K.leave e : K α) s := ⟨.refl, h⟩

/-- Code that goes on as `x` after some writes. -/
theorem Quits.after {y : K α} (hw : Writes R s t) (h : Quits R x t) (hy : y s = x t) : Quits R y s := by
  have hx : Ends x t (fun _ _ => False) fun _ u => Writes R s u ∧ Saved R u :=
    h.mono (fun _ _ h => h) fun _ _ h => h.imp hw.trans id
  unfold Quits Ends
  rwa [hy]

theorem Quits.head {y : K α} (hw : Write R s t) (h : Quits R x t) (hy : y s = x t) : Quits R y s :=
  h.after (.single hw) hy

theorem quits_of_ok_bind {a : α} (hx : x s = .ok a t) (hw : Writes R s t) (h : Quits R (f a) t) :
    Quits R (x >>= f) s :=
  h.after hw (bind_of_ok hx)

theorem quits_get_bind {f : Kernel → K β} (h : Quits R (f s) s) : Quits R (get >>= f) s := h

theorem quits_globals_bind {f : Unit → K β} (hw : Write R s { s with toGlobals := g s.toGlobals })
    (h : Quits R (f ()) { s with toGlobals := g s.toGlobals }) : Quits R (K.globals g >>= f) s :=
  h.head hw rfl

theorem quits_stck_bind {f : Word → K β}
    (h : Quits R (f (s.stck s.stckReads)) { s with stckReads := s.stckReads + 1 }) :
    Quits R (K.stck >>= f) s := by
  have hw : Write R s { s with stckReads := s.stckReads + 1 } := .other rfl
  exact h.head hw rfl

theorem quits_tables_bind {g : Tables → Tables} {f : Unit → K β}
    (hw : Write R s { s with toTables := g s.toTables })
    (h : Quits R (f ()) { s with toTables := g s.toTables }) : Quits R (K.tables g >>= f) s :=
  h.head hw rfl

theorem quits_fromTables_bind {g : Tables → α × Tables}
    (hw : Write R s { s with toTables := (g s.toTables).2 })
    (h : Quits R (f (g s.toTables).1) { s with toTables := (g s.toTables).2 }) :
    Quits R (K.fromTables g >>= f) s :=
  h.head hw rfl

theorem Inside.saved (h : Inside L R s) : Saved R s := .inl ⟨h.caller, h.old.mono (by simp)⟩

theorem stays_pure {a : α} (h : Inside L R s) : Stays L R (pure a) s := ⟨.refl, h⟩

theorem stays_leave {e : Exit} (h : Inside L R s) : Stays L R (K.leave e : K α) s :=
  ⟨.refl, h.saved⟩

theorem Stays.bind (h : Stays L R x s) (hf : ∀ a t, Inside L R t → Stays L R (f a) t) :
    Stays L R (x >>= f) s :=
  ends_bind.mpr <| h.mono (fun a t ⟨hw, hi⟩ => (hf a t hi).mono (fun _ _ h => h.imp hw.trans id)
    fun _ _ h => h.imp hw.trans id) fun _ _ h => h

theorem Stays.bind_quits (h : Stays L R x s) (hf : ∀ a t, Inside L R t → Quits R (f a) t) :
    Quits R (x >>= f) s :=
  ends_bind.mpr <| h.mono (fun a t ⟨hw, hi⟩ => (hf a t hi).mono (fun _ _ h => h)
    fun _ _ h => h.imp hw.trans id) fun _ _ h => h

theorem Quits.stays (h : Quits R x s) : Stays L R x s := h.mono (fun _ _ h => h.elim) fun _ _ h => h

theorem stays_get_bind {f : Kernel → K β} (h : Stays L R (f s) s) : Stays L R (get >>= f) s := h

theorem stays_ite {p : Prop} [Decidable p] {x y : K α} (hx : p → Stays L R x s) (hy : ¬p → Stays L R y s) :
    Stays L R (if p then x else y) s := by
  split
  · exact hx ‹_›
  · exact hy ‹_›

theorem quits_ite {p : Prop} [Decidable p] {x y : K α} (hx : p → Quits R x s) (hy : ¬p → Quits R y s) :
    Quits R (if p then x else y) s := by
  split
  · exact hx ‹_›
  · exact hy ‹_›

theorem stays_globals (hw : Write R s { s with toGlobals := g s.toGlobals })
    (hi : Inside L R { s with toGlobals := g s.toGlobals }) : Stays L R (K.globals g) s :=
  ⟨.single hw, hi⟩

theorem stays_tables {g : Tables → Tables} (hw : Write R s { s with toTables := g s.toTables })
    (hi : Inside L R { s with toTables := g s.toTables }) : Stays L R (K.tables g) s :=
  ⟨.single hw, hi⟩

theorem stays_fromTables {g : Tables → α × Tables} (hw : Write R s { s with toTables := (g s.toTables).2 })
    (hi : Inside L R { s with toTables := (g s.toTables).2 }) : Stays L R (K.fromTables g) s :=
  ⟨.single hw, hi⟩

/-- A function of phase 1 whose result decides what comes next. -/
theorem stays_fromTables_bind {g : Tables → α × Tables}
    (hw : Write R s { s with toTables := (g s.toTables).2 })
    (hi : Inside L R { s with toTables := (g s.toTables).2 })
    (h : Inside L R { s with toTables := (g s.toTables).2 } →
      Stays L R (f (g s.toTables).1) { s with toTables := (g s.toTables).2 }) :
    Stays L R (K.fromTables g >>= f) s := by
  unfold Stays at h ⊢
  rw [ends_bind, ends_of_ok (K.fromTables_run g s)]
  exact (h hi).mono (fun _ _ h => h.imp (.head hw) id) fun _ _ h => h.imp (.head hw) id

theorem stays_globals_bind {f : Unit → K β} (hw : Write R s { s with toGlobals := g s.toGlobals })
    (h : Stays L R (f ()) { s with toGlobals := g s.toGlobals }) : Stays L R (K.globals g >>= f) s := by
  have h : Ends (f ()) { s with toGlobals := g s.toGlobals } _ _ := h
  exact h.mono (fun _ _ h => h.imp (.head hw) id) fun _ _ h => h.imp (.head hw) id

theorem stays_tables_bind {g : Tables → Tables} {f : Unit → K β}
    (hw : Write R s { s with toTables := g s.toTables })
    (h : Stays L R (f ()) { s with toTables := g s.toTables }) : Stays L R (K.tables g >>= f) s := by
  have h : Ends (f ()) { s with toTables := g s.toTables } _ _ := h
  exact h.mono (fun _ _ h => h.imp (.head hw) id) fun _ _ h => h.imp (.head hw) id

theorem stays_stck (h : Inside L R s) : Stays L R K.stck s := by
  have hw : Write R s { s with stckReads := s.stckReads + 1 } := .other rfl
  exact ⟨.single hw, h.caller, h.old, h.waiting, h.buffered⟩

theorem quits_current_bind {f : Pcb → K β} (h : Inside L R s) (hf : ∀ c, R.caller = some c → Quits R (f c) s) :
    Quits R (K.current >>= f) s := by
  show Quits R (K.deref s.gCurrentProcess >>= f) s
  rw [h.caller]
  cases hc : R.caller with
  | none => exact quits_leave h.saved
  | some c => exact hf c hc

/-- `STCK(g_tod)` and `LDST`. -/
theorem quits_restart (h : Inside L R s) : Quits R (do
    let tod ← K.stck
    K.globals ({ · with gTod := tod })
    K.leave .ldst : K α) s :=
  quits_stck_bind (quits_globals_bind (.other rfl) (quits_leave (show Saved R _ from h.saved)))

theorem stays_deref_bind {p : Option Pcb} {f : Pcb → K β} (h : Inside L R s)
    (hf : ∀ c, p = some c → Stays L R (f c) s) : Stays L R (K.deref p >>= f) s := by
  cases p with
  | none => exact stays_leave h
  | some c => exact hf c rfl

theorem stays_current_bind {f : Pcb → K β} (h : Inside L R s) (hf : ∀ c, R.caller = some c → Stays L R (f c) s) :
    Stays L R (K.current >>= f) s :=
  stays_deref_bind h fun c hc => hf c (h.caller.symm.trans hc)

/-- Globals other than `g_current_process`, the context and the devices' processes. -/
theorem Inside.withGlobals (h : Inside L R s) {g : Globals} (hc : g.gCurrentProcess = s.gCurrentProcess)
    (ho : g.gOldState = s.gOldState)
    (hd : ∀ d, (g.gSysiostates d).waitingProcess = (s.gSysiostates d).waitingProcess) :
    Inside L R { s with toGlobals := g } :=
  ⟨hc.trans h.caller, ho ▸ h.old, fun hi d p hp => h.waiting hi d p (hd d ▸ hp), h.buffered⟩

/-- Tables in which nobody waits for a device that did not. -/
theorem Inside.withTables (h : Inside L R s) {T : Tables}
    (hb : R.interrupt → Buffered L ⟨R.words, R.asked⟩ s.toTables → Buffered L ⟨R.words, R.asked⟩ T) :
    Inside L R { s with toTables := T } :=
  ⟨h.caller, h.old, h.waiting, fun hi => hb hi (h.buffered hi)⟩

/-- A record changes, but not its request. -/
theorem Inside.modPcb (h : Inside L R s) {p : Pcb} {f : PcbT → PcbT}
    (hf : ∀ r, (f r).cmdAddr = r.cmdAddr ∧ (f r).cmdValues = r.cmdValues) :
    Inside L R { s with toTables := s.modPcb p f } :=
  h.withTables fun _ hb => hb.fewer rfl (fun _ _ hm => hm) fun q =>
    ⟨modPcb_field PcbT.cmdAddr (fun r => (hf r).1) q,
      modPcb_field PcbT.cmdValues (fun r => (hf r).2) q⟩

end

end Pandos
