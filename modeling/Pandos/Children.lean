import Mathlib.Data.Set.Card
import Pandos.Lib.Preorder
import Pandos.ProcessTree

/-!
# `GETCHILDREN`

`getChildsByNamespace` walks through the tree below the caller and turns back at
every process of another namespace. What it returns is the number of processes
it has met, and what it stores is as much of their list as fits the array.
-/

namespace Pandos
open Intrusive Outcome

/-- `getNamespace(p, PID_NS)`. -/
def Kernel.pidNamespace (s : Kernel) (p : Pcb) : Option Nsd := s.getNamespace (some p) pidNs

/-- `q` is a proper descendant of `c` in the namespace of `c`. -/
def Kernel.Kin (s : Kernel) (c q : Pcb) : Prop :=
  s.nucleus.Below c q ∧ s.pidNamespace q = s.pidNamespace c

/-- The walk does not turn back at `q`. -/
def Kernel.shares (s : Kernel) (c q : Pcb) : Bool := decide (s.pidNamespace q = s.pidNamespace c)

section
variable (L : Layout)

/-- The array `children` holds `l`, and no other word of memory has changed. -/
structure Filled (children : Word) (l : List Pcb) (mem mem' : Word → Word) : Prop where
  stored : ∀ (i : Nat) (h : i < l.length), mem' (wordAt children i) = L.pcb l[i]
  kept : ∀ a, (∀ i < l.length, a ≠ wordAt children i) → mem' a = mem a

/-- What meeting `q` does to `*used_size` and to the memory. -/
def visit (children : Word) (size : Int) (current : Option Pcb) (r : Int × (Word → Word)) (q : Pcb) :
    Int × (Word → Word) :=
  if r.1 < size ∧ some q ≠ current then
    (r.1 + 1, Function.update r.2 (wordAt children r.1.toNat) (L.pcb q))
  else r

variable {L} {children : Word} {size : Int} {mem mem' : Word → Word} {l : List Pcb} {c q : Pcb}

/-! ## The array -/

theorem Filled.nil : Filled L children [] mem mem :=
  ⟨fun _ h => absurd h (Nat.not_lt_zero _), fun _ _ => rfl⟩

theorem Filled.snoc (h : Filled L children l mem mem') (hl : l.length < 2 ^ 30) (q : Pcb) :
    Filled L children (l ++ [q]) mem
      (Function.update mem' (wordAt children l.length) (L.pcb q)) where
  stored i hi := by
    rw [List.length_append, List.length_singleton] at hi
    by_cases he : i = l.length
    · subst he
      simp
    · have hlt : i < l.length := by omega
      have hne : wordAt children i ≠ wordAt children l.length := fun e =>
        he (wordAt_inj (by omega) (by omega) e)
      rw [Function.update_of_ne hne, List.getElem_append_left hlt]
      exact h.stored i hlt
  kept a ha := by
    rw [List.length_append, List.length_singleton] at ha
    rw [Function.update_of_ne (ha l.length (by omega))]
    exact h.kept a fun i hi => ha i (by omega)

theorem visit_stores {current : Option Pcb} {r : Int × (Word → Word)}
    (h : r.1 < size ∧ some q ≠ current) : visit L children size current r q =
      (r.1 + 1, Function.update r.2 (wordAt children r.1.toNat) (L.pcb q)) :=
  if_pos h

theorem visit_passes {current : Option Pcb} {r : Int × (Word → Word)}
    (h : ¬(r.1 < size ∧ some q ≠ current)) : visit L children size current r q = r :=
  if_neg h

variable (children size mem c) in
/-- Meeting the processes `V` stores those that are not the current one until
the array is full. -/
theorem visit_fills (V : List Pcb) (hV : V.length ≤ maxProc) :
    let D := V.filter fun q => some q ≠ some c
    let r := V.foldl (visit L children size (some c)) (0, mem)
    r.1 = (D.take size.toNat).length ∧ Filled L children (D.take size.toNat) mem r.2 := by
  induction V using List.reverseRecOn with
  | nil => exact ⟨by simp, by simpa using Filled.nil⟩
  | append_singleton V q ih =>
    rw [List.length_append, List.length_singleton] at hV
    obtain ⟨hused, hfill⟩ := ih (by omega)
    dsimp only at hused hfill ⊢
    rw [List.foldl_append, List.foldl_cons, List.foldl_nil, List.filter_append]
    generalize hr : V.foldl (visit L children size (some c)) (0, mem) = r at hused hfill
    generalize hD : V.filter (fun q => some q ≠ some c) = D at hused hfill
    have hlen : D.length ≤ V.length := hD ▸ List.length_filter_le _ _
    by_cases hq : q = c
    · rw [List.filter_cons_of_neg (by simp [hq]), List.filter_nil, List.append_nil, hq,
        visit_passes fun h => h.2 rfl]
      exact ⟨hused, hfill⟩
    · have hne : some q ≠ some c := fun h => hq (Option.some.inj h)
      rw [List.filter_cons_of_pos (by simpa using hq), List.filter_nil]
      rw [List.length_take] at hused
      by_cases hroom : r.1 < size
      · -- the array is not full, so all of `D` is in it
        have hcount : r.1 = D.length := by omega
        have htake : D.take size.toNat = D := List.take_of_length_le (by omega)
        have htake' : (D ++ [q]).take size.toNat = D ++ [q] := by
          apply List.take_of_length_le
          rw [List.length_append, List.length_singleton]
          omega
        have hbound : D.length < 2 ^ 30 := by
          simp only [maxProc] at hV
          omega
        rw [visit_stores ⟨hroom, hne⟩, htake', hcount, Int.toNat_natCast]
        rw [htake] at hfill
        exact ⟨by simp, hfill.snoc hbound q⟩
      · have hfull : size.toNat ≤ D.length := by omega
        rw [visit_passes fun h => hroom h.1, List.take_append_of_le_length hfull, List.length_take]
        exact ⟨hused, hfill⟩

/-! ## The walk -/

/-- The same kernel with other memory. -/
def Kernel.withMem (s : Kernel) (mem : Word → Word) : Kernel := { s with mem := mem }

variable (children size) in
/-- Those met among the children `l` and below. -/
theorem getChilds_list {s : Kernel} {fuel : Nat}
    (ih : ∀ p ∈ l, ∀ (used : Int) (m : Word → Word),
      getChildsByNamespace L children size (s.pidNamespace c) fuel used p (s.withMem m) =
        let V := s.pChild.preorder (s.shares c) fuel p
        let r := V.foldl (visit L children size s.gCurrentProcess) (used, m)
        .ok (V.length, r.1) (s.withMem r.2))
    (num used : Int) (m : Word → Word) :
    (l.foldlM (fun (num, usedSize) child => do
      let (n, usedSize) ← getChildsByNamespace L children size (s.pidNamespace c) fuel usedSize child
      pure (num + n, usedSize)) (num, used) : K (Int × Int)) (s.withMem m) =
      let V := l.flatMap (s.pChild.preorder (s.shares c) fuel)
      let r := V.foldl (visit L children size s.gCurrentProcess) (used, m)
      .ok (num + V.length, r.1) (s.withMem r.2) := by
  induction l generalizing num used m with
  | nil => simp [pure, EStateM.pure]
  | cons p l il =>
    have hp := ih p List.mem_cons_self used m
    have hl := il fun q hq => ih q (List.mem_cons_of_mem _ hq)
    have hfirst : (do
        let (n, usedSize) ← getChildsByNamespace L children size (s.pidNamespace c) fuel used p
        pure (num + n, usedSize) : K (Int × Int)) (s.withMem m) = _ := bind_of_ok hp
    rw [List.foldlM_cons]
    refine (bind_of_ok hfirst).trans ((hl _ _ _).trans ?_)
    simp [List.foldl_append, Int.add_assoc]

variable (children size c) in
/-- The walk from `p` on returns the number of processes it has met. -/
theorem getChilds_eq {s : Kernel} (hs : s.pChild.Forest) {fuel : Nat} {p : Pcb}
    (hf : s.pChild.depth p < fuel) (used : Int) (m : Word → Word) :
    getChildsByNamespace L children size (s.pidNamespace c) fuel used p (s.withMem m) =
      let V := s.pChild.preorder (s.shares c) fuel p
      let r := V.foldl (visit L children size s.gCurrentProcess) (used, m)
      .ok (V.length, r.1) (s.withMem r.2) := by
  induction fuel generalizing p used m with
  | zero => omega
  | succ fuel ih =>
    have hchild : ∀ q ∈ s.pChild p, s.pChild.depth q < fuel := fun q hq => by
      have := hs.depth_lt hq
      omega
    by_cases hp : s.pidNamespace p = s.pidNamespace c
    · rw [Lists.preorder_succ (by simpa [Kernel.shares] using hp)]
      have hlist := fun used m => getChilds_list children size
        (l := s.pChild p) (fun q hq used m => ih (hchild q hq) used m) 0 used m
      have hns : (s.withMem m).getNamespace (some p) pidNs = s.pidNamespace c := hp
      rw [getChildsByNamespace, bind_of_ok (show (get : K Kernel) (s.withMem m) = .ok _ _ from rfl)]
      dsimp only
      rw [if_neg (not_not.mpr hns)]
      by_cases hroom : used < size ∧ some p ≠ s.gCurrentProcess
      · rw [if_pos (show used < size ∧ some p ≠ (s.withMem m).gCurrentProcess from hroom)]
        refine (bind_of_ok rfl).trans ((bind_of_ok rfl).trans ((bind_of_ok (hlist _ _)).trans ?_))
        rw [List.foldl_cons, visit_stores (r := (used, m)) hroom]
        simp only [List.length_cons, pure, EStateM.pure, Int.zero_add, Nat.cast_succ]
        rfl
      · rw [if_neg (show ¬(used < size ∧ some p ≠ (s.withMem m).gCurrentProcess) from hroom)]
        refine (bind_of_ok rfl).trans ((bind_of_ok (hlist _ _)).trans ?_)
        rw [List.foldl_cons, visit_passes (r := (used, m)) hroom]
        simp only [List.length_cons, pure, EStateM.pure, Int.zero_add, Nat.cast_succ]
    · rw [Lists.preorder_turned (by simpa [Kernel.shares] using hp)]
      have hns : (s.withMem m).getNamespace (some p) pidNs ≠ s.pidNamespace c := hp
      rw [getChildsByNamespace, bind_of_ok (show (get : K Kernel) (s.withMem m) = .ok _ _ from rfl)]
      dsimp only
      rw [if_pos hns]
      rfl

/-- Whom the walk from `c` on meets. -/
def Kernel.met (s : Kernel) (c : Pcb) : List Pcb := s.pChild.preorder (s.shares c) (maxProc + 1) c

/-- The processes that a call of `c` counts. -/
def Kernel.listed (s : Kernel) (c : Pcb) : List Pcb := (s.met c).tail

variable {s : Kernel}

theorem met_eq (s : Kernel) (c : Pcb) : s.met c = c :: s.listed c := by
  rw [Kernel.listed, Kernel.met, Lists.preorder_succ (by simp [Kernel.shares])]
  rfl

/-- The depth of the walk is enough for the tree below any process. -/
theorem depth_lt_bound (hs : s.pChild.Forest) (c : Pcb) : s.pChild.depth c < maxProc + 1 := by
  have := hs.depth_lt_card c
  rw [Fintype.card_fin] at this
  omega

theorem nodup_met (hs : s.pChild.Forest) : (s.met c).Nodup := hs.nodup_preorder

theorem nodup_listed (hs : s.pChild.Forest) : c ∉ s.listed c ∧ (s.listed c).Nodup :=
  List.nodup_cons.mp (met_eq s c ▸ nodup_met hs)

theorem kin_of_listed (hs : s.pChild.Forest) (hq : q ∈ s.listed c) : q ≠ c ∧ s.Kin c q := by
  have hne : q ≠ c := fun e => (nodup_listed hs).1 (e ▸ hq)
  have hm : q ∈ s.met c := met_eq s c ▸ List.mem_cons_of_mem c hq
  obtain ⟨-, hpath⟩ := Lists.of_mem_preorder hm
  have hkeep : s.shares c q := by
    rcases Relation.ReflTransGen.cases_tail hpath with he | ⟨_, _, hk⟩
    · exact absurd he hne
    · exact hk.2
  exact ⟨hne, (Lists.eq_or_below_of_mem hm).resolve_left hne, by simpa [Kernel.shares] using hkeep⟩

/-- `sysGetChildren` returns how many it lists and stores what fits. -/
theorem sysGetChildren_eq (hs : s.pChild.Forest) (hc : s.gCurrentProcess = some c)
    (children : Word) (size : Int) : ∃ mem', sysGetChildren L children size s =
      .ok (s.listed c).length (s.withMem mem') ∧
      Filled L children ((s.listed c).take size.toNat) s.mem mem' := by
  have hwalk := getChilds_eq (L := L) children size c hs (depth_lt_bound hs c) 0 s.mem
  have hlen : (s.met c).length ≤ maxProc := by
    have hcard := (nodup_met hs (c := c)).length_le_card
    rwa [Fintype.card_fin] at hcard
  have hfill := (visit_fills (L := L) children size s.mem c (s.met c) hlen).2
  have hlisted : ((s.met c).filter fun q => some q ≠ some c) = s.listed c := by
    rw [met_eq, List.filter_cons_of_neg (by simp)]
    apply List.filter_eq_self.mpr
    intro q hq
    simpa using (kin_of_listed hs hq).1
  rw [hlisted] at hfill
  refine ⟨_, ?_, hc ▸ hfill⟩
  have hcurrent : (K.current : K Pcb) s = .ok c s := by
    show K.deref s.gCurrentProcess s = _
    rw [hc]
    rfl
  refine (bind_of_ok hcurrent).trans ((bind_of_ok rfl).trans ((bind_of_ok hwalk).trans ?_))
  simp only [pure, EStateM.pure]
  rw [show s.pChild.preorder (s.shares c) (maxProc + 1) c = s.met c from rfl]
  congr 1
  rw [met_eq, List.length_cons]
  omega

/-! ## When the count is complete -/

/-- Every process between `c` and a descendant in its namespace is in it, too. -/
def Kernel.Unscreened (s : Kernel) (c : Pcb) : Prop :=
  ∀ p q, s.nucleus.Below c p → s.nucleus.Below p q → s.pidNamespace q = s.pidNamespace c →
    s.pidNamespace p = s.pidNamespace c

theorem listed_iff (hs : s.pChild.Forest) :
    q ∈ s.listed c ↔ s.Kin c q ∧ ∀ p, s.nucleus.Below c p → s.nucleus.Below p q →
      s.pidNamespace p = s.pidNamespace c := by
  have hmem : q ∈ s.met c ↔ _ := hs.mem_preorder (depth_lt_bound hs c)
  rw [met_eq, List.mem_cons] at hmem
  constructor
  · intro hq
    obtain ⟨-, hpath⟩ := hmem.mp (.inr hq)
    refine ⟨(kin_of_listed hs hq).2, fun p hp hpq => ?_⟩
    simpa [Kernel.shares] using hs.kept_between hpath hp hpq
  · rintro ⟨⟨hbelow, hns⟩, hb⟩
    have hne : q ≠ c := by
      rintro rfl
      exact hs.acyclic q hbelow
    refine (hmem.mpr ⟨by simp [Kernel.shares], ?_⟩).resolve_left hne
    apply Lists.kept_of_between hbelow
    · simpa [Kernel.shares] using hns
    · exact fun p hp hpq => by simpa [Kernel.shares] using hb p hp hpq

/-- All descendants in the namespace are counted if and only if none of them is
behind a process of another namespace. -/
theorem listed_complete (hs : s.pChild.Forest) :
    (s.listed c).length = {q | s.Kin c q}.ncard ↔ s.Unscreened c := by
  have hlen : (s.listed c).length = {q | q ∈ s.listed c}.ncard := by
    rw [← List.toFinset_card_of_nodup (nodup_listed hs).2, ← Set.ncard_coe_finset]
    congr 1
    ext q
    simp
  have hsub : {q | q ∈ s.listed c} ⊆ {q | s.Kin c q} := fun q hq => (kin_of_listed hs hq).2
  rw [hlen]
  constructor
  · intro hcard p q hp hpq hns
    have heq := Set.eq_of_subset_of_ncard_le hsub hcard.ge (Set.toFinite _)
    have hq : q ∈ {q | q ∈ s.listed c} := by
      rw [heq]
      exact ⟨hp.trans hpq, hns⟩
    exact ((listed_iff hs).mp hq).2 p hp hpq
  · intro hu
    congr 1
    ext q
    exact ⟨fun hq => hsub hq, fun hq => (listed_iff hs).mpr ⟨hq, fun p hp hpq => hu p q hp hpq hq.2⟩⟩

end

/-! ## The runs -/

theorem Nucleus.forest_leaf {N : Nucleus} {c p : Pcb} {r : PcbT} (hN : N.Tree) (hc : c ∉ N.free)
    (hp : p ∈ N.free) (h : ∀ n, ¬N.pChild.Below n n) (n : Pcb) : ¬(N.create c p r).pChild.Below n n := by
  have hC : ∀ a b, b ∈ (N.create c p r).pChild a ↔ b ∈ N.pChild a ∨ a = c ∧ b = p := by
    intro a b
    rw [Nucleus.pChild_create hN hp]
    split <;> simp_all
  exact Lists.acyclic_leaf hC (hN.no_child_of_free hp) (fun e => hc (e ▸ hp)) h n

section
variable {L : Layout} {B : Scope} {N M : Nucleus}

/-- Nobody becomes his own descendant. -/
theorem Moves.acyclic (h : Moves L B N M) (hN : ∀ n, ¬N.pChild.Below n n) :
    ∀ n, ¬M.pChild.Below n n := by
  induction h with
  | refl => exact hN
  | tail _ h ih =>
    cases h.shift with
    | still h => exact h.pChild ▸ ih
    | wake | take => exact ih
    | create hv _ _ hlive hf => exact Nucleus.forest_leaf hv.tree hlive (by simp [hf]) ih

theorem Ending.acyclic {e : Exit} (h : Ending L B N e M) (hN : ∀ n, ¬N.pChild.Below n n) :
    ∀ n, ¬M.pChild.Below n n := by
  obtain ⟨N', hmv, hl⟩ := h
  have hN' := hmv.acyclic hN
  cases hl with
  | stay => exact hN'
  | block | preempt =>
    rw [Nucleus.pChild_schedule]
    exact hN'
  | kill _ _ hr =>
    rw [Nucleus.pChild_schedule]
    exact fun n hn => hN' n (hn.mono fun a b => hr.child)

end

namespace Machine
variable {L : Layout} {ok : Machine → Event → Prop} {m : Machine} {c : Pcb} {t : Trap}

theorem Reachable.acyclic (h : Reachable L ok m) :
    ∃ N, m.Sound N ∧ ∀ n, ¬N.pChild.Below n n := by
  apply h.invariant (I := fun _ N => ∀ n, ¬N.pChild.Below n n)
  · intro _ _ M hb n hn
    obtain ⟨b, hb', -⟩ := Relation.TransGen.head'_iff.mp hn
    simp [hb.pChild] at hb'
  · intro N _ hN
    rw [Nucleus.pChild_schedule]
    exact hN
  · intro m N t hS hN he _
    obtain ⟨e, s', M, hstep, hM, hend⟩ := step_exception hS.refines (hS.covers_any he (L := L))
    exact ⟨e, s', M, hstep, hM, hend.acyclic hN⟩

theorem Reachable.forest (h : Reachable L ok m) : m.kernel.pChild.Forest := by
  obtain ⟨N, hS, hN⟩ := h.acyclic
  rw [hS.refines.pChild]
  exact ⟨hS.refines.tree.apart, hN⟩

/-- What a process gets from `GETCHILDREN`. -/
theorem step_getChildren (h : Reachable L ok m) (hrun : m.mode = .running c) (hcall : t.Calls 10) :
    ∃ s', m.step L (.exception t) = ⟨s', .running c⟩ ∧
      s'.gOldState.regV0 = BitVec.ofNat 32 (m.kernel.listed c).length := by
  obtain ⟨N, hS⟩ := h.sound
  have hc := hS.current hrun
  obtain ⟨h8, h10⟩ := hcall
  obtain ⟨mem', hchildren, -⟩ := sysGetChildren_eq (L := L) (s := m.served t) (c := c) h.forest hc
    (t.old 8) (t.old 9).toInt
  have hcode : syscall L (t.old 7) (t.old 8) (t.old 9) (t.old 10) (m.served t) =
      .ok (BitVec.ofInt 32 (m.kernel.listed c).length) ((m.served t).withMem mem') := by
    simp only [syscall, h10]
    exact bind_of_ok hchildren
  have hstep := step_served h8 hcode
  rw [hrun] at hstep
  refine ⟨_, hstep, ?_⟩
  simp [StateT.regV0, StateT.setRegV0, StateT.set]

theorem count_complete (h : m.kernel.pChild.Forest) :
    BitVec.ofNat 32 (m.kernel.listed c).length = BitVec.ofNat 32 {q | m.kernel.Kin c q}.ncard ↔
      m.kernel.Unscreened c := by
  have hlen : (m.kernel.listed c).length ≤ 20 := (nodup_listed h).2.length_le_card
  have hcard : {q | m.kernel.Kin c q}.ncard ≤ 20 := by
    have := Set.ncard_le_card {q | m.kernel.Kin c q}
    rwa [Nat.card_eq_fintype_card, Fintype.card_fin] at this
  rw [← listed_complete h]
  constructor
  · intro hw
    have hn := congrArg BitVec.toNat hw
    simp only [BitVec.toNat_ofNat] at hn
    omega
  · intro hn
    rw [hn]

/-- `GETCHILDREN` returns the number of descendants in the caller's namespace if
and only if none of them is behind a process of another namespace. -/
theorem children_complete (h : Reachable L ok m) (hrun : m.mode = .running c)
    (hcall : t.Calls 10) : ∃ s', m.step L (.exception t) = ⟨s', .running c⟩ ∧
      (s'.gOldState.regV0 = BitVec.ofNat 32 {q | m.kernel.Kin c q}.ncard ↔
        m.kernel.Unscreened c) := by
  obtain ⟨s', hstep, hv⟩ := step_getChildren h hrun hcall
  refine ⟨s', hstep, ?_⟩
  rw [hv]
  exact count_complete h.forest

/-- The first process has a child and a grandchild. -/
def lineage : Script :=
  [call 1 0x20060000 0 0, preempt, call 1 0x20060000 0 0, preempt]

theorem lineage_reachable :
    Reachable sampleLayout (Lawful sampleLayout) (sampleBoot.run sampleLayout lineage) :=
  .run (.boot _ _ _) (by decide +kernel)

/-- All are in one namespace, so all are counted. -/
theorem children_complete_lineage : ∃ s',
    (sampleBoot.run sampleLayout lineage).step sampleLayout
      (call 10 0x20070000 1 0 (sampleBoot.run sampleLayout lineage)) = ⟨s', .running 19⟩ ∧
    s'.gOldState.regV0 =
      BitVec.ofNat 32 {q | (sampleBoot.run sampleLayout lineage).kernel.Kin 19 q}.ncard := by
  obtain ⟨s', hstep, hcount⟩ := children_complete lineage_reachable (c := 19)
    (t := callTrap 10 0x20070000 1 0 (sampleBoot.run sampleLayout lineage)) (by decide +kernel)
    (by decide +kernel)
  have hspace : ∀ q, (sampleBoot.run sampleLayout lineage).kernel.getNamespace (some q) pidNs = none := by
    decide +kernel
  refine ⟨s', hstep, hcount.mpr fun d q _ _ _ => ?_⟩
  exact (hspace d).trans (hspace 19).symm

/-- The first process makes a child in a namespace of its own, which makes one
in another namespace, which makes one in the first of the two. -/
def screened : Script :=
  [call 1 0x20060000 0 0x20040000, preempt, call 1 0x20060000 0 0x20040010, preempt, preempt,
    call 1 0x20060000 0 0x20040000, preempt]

/-- It does not count a descendant in the caller's namespace that is behind a
process of another one. -/
theorem children_missed : ∃ m c t, Reachable sampleLayout (Lawful sampleLayout) m ∧
    m.mode = .running c ∧ t.Calls 10 ∧ ∃ s', m.step sampleLayout (.exception t) = ⟨s', .running c⟩ ∧
      s'.gOldState.regV0 ≠ BitVec.ofNat 32 {q | m.kernel.Kin c q}.ncard := by
  have hreach : Reachable sampleLayout (Lawful sampleLayout) (sampleBoot.run sampleLayout screened) :=
    Reachable.run (.boot _ _ _) (by decide +kernel)
  have hrun : (sampleBoot.run sampleLayout screened).mode = .running 18 := by decide +kernel
  have hcall : (callTrap 10 0x20070000 1 0 (sampleBoot.run sampleLayout screened)).Calls 10 := by
    decide +kernel
  obtain ⟨s', hstep, hv⟩ := step_getChildren hreach hrun hcall
  refine ⟨_, 18, _, hreach, hrun, hcall, s', hstep, ?_⟩
  rw [hv, ne_eq, count_complete hreach.forest]
  intro hu
  have hns := hu 17 16 (.single (by decide +kernel)) (.single (by decide +kernel))
    (by decide +kernel)
  exact absurd hns (by decide +kernel)

end Machine

/-! ## What is stored -/

/-- `GETCHILDREN` counts the same processes whatever the size of the array, and
stores the first of them, as many as there is room for. -/
theorem getChildren_truncates {L : Layout} {s : Kernel} {c : Pcb} (hs : s.pChild.Forest) (hc : s.gCurrentProcess = some c) :
    ∃ D : List Pcb, D.Nodup ∧ (∀ q ∈ D, q ≠ c ∧ s.Kin c q) ∧
      ∀ (children : Word) (size : Int), ∃ mem',
        sysGetChildren L children size s = .ok D.length (s.withMem mem') ∧
        Filled L children (D.take (min (max size 0) D.length).toNat) s.mem mem' := by
  refine ⟨s.listed c, (nodup_listed hs).2, fun _ => kin_of_listed hs, fun children size => ?_⟩
  obtain ⟨mem', hrun, hfill⟩ := sysGetChildren_eq (L := L) hs hc children size
  refine ⟨mem', hrun, ?_⟩
  have htake : (s.listed c).take (min (max size 0) (s.listed c).length).toNat =
      (s.listed c).take size.toNat := by
    rw [List.take_eq_take_iff]
    omega
  rwa [htake]

/-- The first process has a child and a grandchild. -/
theorem getChildren_truncates_lineage : ∃ D : List Pcb, D.Nodup ∧
    (∀ q ∈ D, q ≠ 19 ∧ (sampleBoot.run sampleLayout Machine.lineage).kernel.Kin 19 q) ∧
    ∀ (children : Word) (size : Int), ∃ mem', sysGetChildren sampleLayout children size
        (sampleBoot.run sampleLayout Machine.lineage).kernel =
      .ok D.length ((sampleBoot.run sampleLayout Machine.lineage).kernel.withMem mem') ∧
      Filled sampleLayout children (D.take (min (max size 0) D.length).toNat)
        (sampleBoot.run sampleLayout Machine.lineage).kernel.mem mem' :=
  getChildren_truncates (Machine.Reachable.forest Machine.lineage_reachable) (by decide +kernel)

end Pandos
