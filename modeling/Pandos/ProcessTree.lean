import Pandos.Lib.Forest
import Pandos.Conservation

/-!
# The process tree

The processes that are alive form one tree below the process of `launchInit`,
and every process has its children in the order in which it made them.
-/

namespace Pandos
open Intrusive

namespace Nucleus
variable {L : Layout} {N M : Nucleus} {S l : List Pcb} {p c root : Pcb} {r : PcbT}

/-- The live processes form a tree and are counted. -/
structure OneTree (N : Nucleus) (root : Pcb) : Prop where
  rooted : N.pChild.Rooted (· ∉ N.free) root
  counted : N.Counted

/-- Children are made of free processes and come last. -/
def Begets (N M : Nucleus) : Prop :=
  ∃ made, N.free = made ++ M.free ∧ ∀ d, (M.pChild d).Sublist (N.pChild d ++ made)

theorem Begets.of_eq (hc : M.pChild = N.pChild) (hf : M.free = N.free) : N.Begets M :=
  ⟨[], hf.symm, fun d => by rw [hc, List.append_nil]⟩

theorem Begets.trans {P : Nucleus} (h : N.Begets M) (k : M.Begets P) : N.Begets P := by
  obtain ⟨made, hf, hc⟩ := h
  obtain ⟨more, hf', hc'⟩ := k
  refine ⟨made ++ more, by rw [hf, hf', List.append_assoc], fun d => ?_⟩
  rw [← List.append_assoc]
  exact (hc' d).trans ((hc d).append (.refl _))

theorem pChild_create (hN : N.Tree) (hp : p ∈ N.free) (d : Pcb) :
    (N.create c p r).pChild d = if d = c then N.pChild d ++ [p] else N.pChild d := by
  have hchild : (N.toQueues.alloc p).pChild = N.pChild := by
    rw [Queues.alloc, ← hN.no_child_of_free hp]
    exact Function.update_eq_self p N.pChild
  have horphan : N.pChild.unlink p = N.pChild := Lists.unlink_of_free (hN.no_parent_of_free hp)
  show ((N.toQueues.alloc p).pChild.unlink p).append c p d = _
  rw [hchild, horphan]
  split
  · next h => rw [h, Lists.append_self]
  · next h => exact Lists.append_of_ne h

theorem free_create (hN : N.Placed) (hf : N.free = p :: l) : (N.create c p r).free = l := by
  rw [Queues.free, queue_create, if_neg (by simp)]
  exact hN.apart.unlink_cons hf

theorem OneTree.of_eq (h : N.OneTree root) (hc : M.pChild = N.pChild) (hf : M.free = N.free)
    (hn : M.gProcessCount = N.gProcessCount) : M.OneTree root := by
  refine ⟨?_, h.counted.keep hn hf⟩
  rw [hc, hf]
  exact h.rooted

theorem OneTree.create (h : N.OneTree root) (hN : N.Valid) (hc : c ∉ N.free)
    (hf : N.free = p :: l) : (N.create c p r).OneTree root := by
  have hp : p ∈ N.free := by simp [hf]
  have hcp : c ≠ p := fun e => hc (e ▸ hp)
  have hroot : root ≠ p := by
    rintro rfl
    apply h.rooted.empty _ (not_not.mpr hp) c hc
    exact fun a b hb => hN.tree.liveParent a b hb
  refine ⟨?_, h.counted.create hN.placed hf⟩
  have hleaf := h.rooted.leaf (D := (N.create c p r).pChild) (n := p) (fun a b => ?_)
    (hN.tree.no_child_of_free hp) hcp hc hroot (hN.tree.no_parent_of_free hp)
  · convert hleaf using 2 with q
    rw [free_create hN.placed hf, hf]
    have hd : (p :: l).Nodup := hf ▸ hN.placed.apart.nodup .free
    by_cases hq : q = p
    · subst hq
      simpa using (List.nodup_cons.mp hd).1
    · simp [hq]
  · rw [pChild_create hN.tree hp]
    split <;> simp_all

theorem OneTree.reap (h : N.OneTree root) (hN : N.Tree) (hr : Reaped L S N M)
    (hS : ∀ q, q ∈ S ↔ q = p ∨ N.Below p q) (hp : p ∉ N.free) : M.OneTree root := by
  have live : ∀ q ∈ S, q ∉ N.free := by
    intro q hq
    rcases (hS q).mp hq with rfl | hb
    · exact hp
    · exact (hb.live hN).2
  have hfree : ∀ q, q ∈ M.free ↔ q ∈ N.free ∨ q ∈ S := by
    intro q
    rw [hr.free]
    by_cases hq : q ∈ S <;> simp [hq]
  refine ⟨?_, h.counted.reap hr live⟩
  have hprune := h.rooted.prune (D := M.pChild) (S := (· ∈ S)) (fun a b => ?_) fun a b ha hb => ?_
  · convert hprune using 2 with q
    rw [hfree]
    simp
  · rw [hr.pChild, List.mem_filter]
    simp
  · rcases (hS a).mp ha with rfl | hab
    · exact (hS b).mpr (.inr (.single hb))
    · exact (hS b).mpr (.inr (.tail hab hb))

end Nucleus

/-- The scope of runs without I/O: live processes are terminated, and the
current process is blocked or preempted only while it runs. -/
def treeScope (running : Prop) : Scope :=
  ⟨fun _ => True, fun _ => True, True, fun _ => True, fun N p => p ∉ N.free, running, running, True⟩

section
variable {L : Layout} {running : Prop} {N M : Nucleus} {root : Pcb}

theorem Move.tree (h : Move L (treeScope running) N M) (hN : N.OneTree root) :
    M.OneTree root ∧ N.Begets M := by
  have keep : ∀ {P : Nucleus}, P.pChild = N.pChild → P.free = N.free →
      P.gProcessCount = N.gProcessCount → P.OneTree root ∧ N.Begets P := fun hc hf hn =>
    ⟨hN.of_eq hc hf hn, .of_eq hc hf⟩
  cases h.shift with
  | still h => exact keep h.pChild h.free h.count
  | wake hv _ hw =>
    refine keep rfl ?_ rfl
    rw [Queues.free, Nucleus.queue_wakeUp, if_neg (by simp), Nucleus.free_unlink_waiter hv.placed hw]
  | take hv _ hw => exact keep rfl (Nucleus.free_unlink_waiter hv.placed hw) rfl
  | @create c p l r hv _ hc hlive hf =>
    have hp : p ∈ N.free := by simp [hf]
    refine ⟨hN.create hv hlive hf, [p], ?_, fun d => ?_⟩
    · rw [Nucleus.free_create hv.placed hf, hf]
      rfl
    · rw [Nucleus.pChild_create hv.tree hp]
      split
      · exact .refl _
      · exact List.sublist_append_left _ _

theorem Moves.tree (h : Moves L (treeScope running) N M) (hN : N.OneTree root) :
    M.OneTree root ∧ N.Begets M := by
  induction h with
  | refl => exact ⟨hN, .of_eq rfl rfl⟩
  | tail _ h ih =>
    obtain ⟨hP, hb⟩ := ih
    obtain ⟨hM, hb'⟩ := h.tree hP
    exact ⟨hM, hb.trans hb'⟩

theorem Nucleus.OneTree.schedule {P : Nucleus} (h : P.OneTree root) (hP : P.Placed) :
    P.schedule.2.OneTree root :=
  h.of_eq P.pChild_schedule (free_schedule hP) (by rw [globals_schedule])

/-- What an exception does to the tree. -/
theorem Ending.tree {e : Exit} (h : Ending L (treeScope running) N e M) (hN : N.OneTree root)
    (hlive : running → ∀ c, N.gCurrentProcess = some c → c ∉ N.free) :
    M.OneTree root ∧ ∀ d, (M.pChild d).Sublist (N.pChild d ++ N.free) := by
  obtain ⟨N', hmv, hl⟩ := h
  obtain ⟨hN', made, hmade, hchild⟩ := hmv.tree hN
  have live : ∀ c, running → N'.gCurrentProcess = some c → c ∉ N'.free := fun c hr hc hf =>
    hlive hr c (hmv.current ▸ hc) (hmv.free hf)
  have grown : ∀ d, (N'.pChild d).Sublist (N.pChild d ++ N.free) := by
    intro d
    rw [hmade]
    exact (hchild d).trans (.append (.refl _) (List.sublist_append_left _ _))
  have scheduled : ∀ P : Nucleus, P.Placed → P.OneTree root →
      (∀ d, (P.pChild d).Sublist (N'.pChild d)) →
      P.schedule.2.OneTree root ∧ ∀ d, (P.schedule.2.pChild d).Sublist (N.pChild d ++ N.free) := by
    intro P hP ht hc
    refine ⟨ht.schedule hP, fun d => ?_⟩
    rw [P.pChild_schedule]
    exact (hc d).trans (grown d)
  cases hl with
  | stay => exact ⟨hN', grown⟩
  | @block a c _ _ hr hc hp =>
    refine scheduled _ hp (hN'.of_eq rfl ?_ rfl) fun _ => .refl _
    rw [Queues.free, Nucleus.queue_suspend, if_neg (by simp)]
    exact Lists.unlink_of_not_mem (live c hr hc)
  | @preempt c _ hr hc hp =>
    refine scheduled _ hp (hN'.of_eq rfl ?_ rfl) fun _ => .refl _
    rw [Queues.free, Nucleus.queue_preempt, if_neg (by simp)]
    exact Lists.unlink_of_not_mem (live c hr hc)
  | @kill P S p hv ht hr hS hp =>
    refine scheduled _ hp (hN'.reap hv.tree hr hS ht) fun d => ?_
    rw [hr.pChild]
    exact List.filter_sublist

end

/-! ## The runs -/

/-- The pcb that `launchInit` gets: `initPcbs` leaves the last entry of
`pcbFree_table` in front. -/
def initPcb : Pcb := 19

/-- The live processes form one tree rooted at `root`, or there are none, and
`order` tells in which order they were made. -/
structure Kernel.FormsTree (s : Kernel) (root : Pcb) (order : List Pcb) : Prop where
  reach : ∀ p, p ∉ s.free → p = root ∨ s.nucleus.Below root p
  top : ∀ d, root ∉ s.pChild d
  none : root ∈ s.free → ∀ p, p ∈ s.free
  parent : ∀ p, p ∉ s.free → p ≠ root → ∃! d, p ∈ s.pChild d
  once : ∀ d, (s.pChild d).Nodup
  points : ∀ d p, p ∈ s.pChild d → d ∉ s.free ∧ p ∉ s.free ∧ (s.pcbs p).pParent = some d
  acyclic : ∀ p, ¬s.nucleus.Below p p
  free : ∀ p ∈ s.free, s.pChild p = []
  orderNodup : order.Nodup
  mem_order : ∀ p, p ∈ order ↔ p ∉ s.free
  ordered : ∀ d, (s.pChild d).Sublist order
  count : s.gProcessCount = 0 ↔ root ∈ s.free

namespace Machine
variable {L : Layout} {m : Machine} {N : Nucleus} {t : Trap} {order : List Pcb}

/-- No process does I/O, only timers interrupt, processes use semaphores outside
the kernel's data, and only live processes are terminated. -/
def Deviceless (L : Layout) (m : Machine) (e : Event) : Prop :=
  m.Lawful L e ∧ match e with
    | .exception t => m.Timers t ∧ ¬t.Calls 5
    | .wake => True

/-- The runs from `main()`, with the live processes in the order in which they
were made: a process is made when its pcb leaves the free list. -/
inductive Makes (L : Layout) (ok : Machine → Event → Prop) : Machine → List Pcb → Prop
  | boot (mem bus : Word → Word) (stck : Nat → Word) : Makes L ok (boot L mem bus stck) [initPcb]
  | step {m : Machine} {e : Event} {order : List Pcb} : Makes L ok m order → m.Enabled e → ok m e →
      Makes L ok (m.step L e) ((order ++ m.kernel.free).filter (· ∉ (m.step L e).kernel.free))

/-- What such runs keep. -/
structure Growing (N : Nucleus) (order : List Pcb) : Prop where
  tree : N.OneTree initPcb
  orderNodup : order.Nodup
  mem_order : ∀ p, p ∈ order ↔ p ∉ N.free
  ordered : ∀ d, (N.pChild d).Sublist order

theorem Growing.grow {M : Nucleus} (h : Growing N order) (hN : N.Placed) (hM : M.Valid)
    (ht : M.OneTree initPcb) (hc : ∀ d, (M.pChild d).Sublist (N.pChild d ++ N.free)) :
    Growing M ((order ++ N.free).filter (· ∉ M.free)) where
  tree := ht
  orderNodup := by
    apply List.Nodup.filter
    apply List.nodup_append.mpr
    refine ⟨h.orderNodup, hN.apart.nodup .free, fun p hp q hq e => ?_⟩
    exact (h.mem_order p).mp hp (e ▸ hq)
  mem_order p := by
    rw [List.mem_filter, List.mem_append, h.mem_order]
    simp [or_comm, Classical.em]
  ordered d := by
    have hlive : (M.pChild d).filter (· ∉ M.free) = M.pChild d := by
      apply List.filter_eq_self.mpr
      intro p hp
      simpa using hM.tree.liveChild d p hp
    rw [← hlive]
    apply List.Sublist.filter
    exact (hc d).trans ((h.ordered d).append (.refl _))

theorem booted_growing {mem : Word → Word} {p : Pcb} (h : Booted mem p N) : Growing N [initPcb] := by
  have hfree : p = initPcb ∧ N.free = (List.finRange maxProc).reverse.tail := by
    have heq : initPcb :: (List.finRange maxProc).reverse.tail = p :: N.free := h.free
    obtain ⟨h₁, h₂⟩ := List.cons.inj heq
    exact ⟨h₁.symm, h₂.symm⟩
  obtain ⟨rfl, hf⟩ := hfree
  have hmem : ∀ q, q ∉ N.free ↔ q = initPcb := by
    intro q
    rw [hf]
    revert q
    decide
  refine ⟨⟨⟨fun q hq => .inl ((hmem q).mp hq), fun d => ?_, fun q hq => ?_⟩, ?_⟩, by simp,
    fun q => ?_, fun d => ?_⟩
  · simp [h.pChild]
  · obtain ⟨b, hb, -⟩ := Relation.TransGen.head'_iff.mp hq
    simp [h.pChild] at hb
  · rw [Nucleus.Counted, h.count, hf]
    decide
  · rw [hmem, List.mem_singleton]
  · simp [h.pChild]

theorem Deviceless.covers (hS : m.Sound N) (he : m.Enabled (.exception t))
    (hok : m.Deviceless L (.exception t)) :
    (treeScope (∃ p, m.mode = .running p)).Covers L (m.trapped t) := by
  obtain ⟨hlaw, htimers, hio⟩ := hok
  have running : excCode (t.old 1) ≠ 0 → ∃ p, m.mode = .running p := fun h0 =>
    he.1.resolve_right fun h => h0 h.2
  refine hS.covers he ?_ ?_ ?_ ?_ ?_ (fun _ _ _ _ => trivial) ?_
  · exact fun h0 => ⟨trivial, fun u hu => Timers.allows hS htimers h0 ⟨trivial, trivial⟩ id hu⟩
  · exact fun h8 => running (by omega)
  · exact fun _ _ => ⟨trivial, fun w _ => by cases w <;> trivial⟩
  · exact fun _ => ⟨trivial, trivial⟩
  · exact fun h => absurd h hio
  · exact fun p hp M hM hf => hlaw.target_alive hS he hp (hS.refines.free.trans hM.free.symm ▸ hf)

theorem Makes.growing (h : Makes L (Deviceless L) m order) :
    ∃ N, m.Sound N ∧ Growing N order := by
  induction h with
  | boot mem bus stck =>
    obtain ⟨N, hN⟩ := Reachable.sound (@Reachable.boot L (Deviceless L) mem bus stck)
    obtain ⟨p, M, hM, -, hb⟩ := boot_spec L mem bus stck
    obtain rfl := hN.refines.unique hM
    exact ⟨N, hN, booted_growing hb⟩
  | @step m e order _ he hok ih =>
    obtain ⟨N, hS, hG⟩ := ih
    obtain ⟨M, hM⟩ := hS.step he (L := L)
    refine ⟨M, hM, ?_⟩
    rw [hS.refines.free, hM.refines.free]
    have htree : M.OneTree initPcb ∧ ∀ d, (M.pChild d).Sublist (N.pChild d ++ N.free) := by
      cases e with
      | wake =>
        obtain ⟨s', hstep, hs', hp⟩ := step_wake (L := L) hS.refines
        rw [hstep] at hM
        obtain rfl := hM.refines.unique hs'
        refine ⟨hG.tree.schedule hp, fun d => ?_⟩
        rw [N.pChild_schedule]
        exact List.sublist_append_left _ _
      | exception t =>
        obtain ⟨e, s', M', hstep, hM', hend⟩ := step_exception hS.refines (hok.covers hS he)
        rw [hstep] at hM
        obtain rfl := hM.refines.unique hM'
        apply hend.tree (hG.tree.of_eq rfl rfl rfl)
        rintro ⟨p, hp⟩ c hc
        exact hS.live_current hp hc
    exact hG.grow hS.refines.placed hM.refines.valid htree.1 htree.2

/-- `initPcb` is the process that `main()` starts. -/
theorem boot_initPcb (L : Layout) (mem bus : Word → Word) (stck : Nat → Word) :
    (boot L mem bus stck).mode = .running initPcb := by
  obtain ⟨p, M, -, hm, hb⟩ := boot_spec L mem bus stck
  have heq : initPcb :: (List.finRange maxProc).reverse.tail = p :: M.free := hb.free
  rw [hm, (List.cons.inj heq).1]

/-- The process tree stays a tree. -/
theorem process_tree (h : Makes L (Deviceless L) m order) : m.kernel.FormsTree initPcb order := by
  obtain ⟨N, hS, hG⟩ := h.growing
  have hs := hS.refines
  have htree := hs.tree
  have hrooted := hG.tree.rooted
  have hnone : initPcb ∈ N.free → ∀ p, p ∈ N.free := fun hr p =>
    not_not.mp (hrooted.empty (fun a b hb => htree.liveParent a b hb) (not_not.mpr hr) p)
  refine ⟨?_, ?_, ?_, ?_, ?_, ?_, ?_, ?_, hG.orderNodup, ?_, ?_, ?_⟩
  · rw [hs.nucleus_eq, hs.free]
    exact hrooted.reach
  · rw [hs.pChild]
    exact hrooted.top
  · rw [hs.free]
    exact hnone
  · rw [hs.free, hs.pChild]
    intro p hp hne
    have hbelow : N.Below initPcb p := (hrooted.reach p hp).resolve_left hne
    obtain ⟨d, hd⟩ := hbelow.parent
    exact ⟨d, hd, fun e he => htree.apart.unique he hd⟩
  · rw [hs.pChild]
    exact htree.apart.nodup
  · rw [hs.pChild, hs.free, hs.pcbs]
    exact fun d p hp => ⟨htree.liveParent d p hp, htree.liveChild d p hp, htree.parent d p hp⟩
  · rw [hs.nucleus_eq]
    exact hrooted.acyclic
  · rw [hs.free, hs.pChild]
    exact fun p hp => htree.no_child_of_free hp
  · rw [hs.free]
    exact hG.mem_order
  · rw [hs.pChild]
    exact hG.ordered
  · have hcount : N.gProcessCount + N.free.length = maxProc := hG.tree.counted
    have hnodup := hs.placed.apart.nodup .free
    rw [hs.free, show m.kernel.gProcessCount = N.gProcessCount by rw [hs.globals]]
    constructor
    · intro h0
      have hall : N.free.toFinset = Finset.univ := by
        apply Finset.eq_univ_of_card
        rw [List.toFinset_card_of_nodup hnodup, Fintype.card_fin]
        change N.free.length = maxProc
        omega
      have hmem := Finset.mem_univ initPcb
      rw [← hall] at hmem
      simpa using hmem
    · intro hr
      have hall : N.free.toFinset = Finset.univ := by
        ext p
        simpa using hnone hr p
      have hlen : N.free.length = maxProc := by
        rw [← List.toFinset_card_of_nodup hnodup, hall]
        rfl
      omega

theorem Makes.run {ok : Machine → Event → Prop} (es : Script) (h : Makes L ok m order)
    (hf : m.Follows L ok es) : ∃ order', Makes L ok (m.run L es) order' := by
  induction es generalizing m order with
  | nil => exact ⟨order, h⟩
  | cons e es ih => exact ih (h.step hf.1.1 hf.1.2) hf.2

instance (L : Layout) (m : Machine) : (e : Event) → Decidable (m.Deviceless L e)
  | .exception _ => inferInstanceAs (Decidable (_ ∧ _))
  | .wake => inferInstanceAs (Decidable (_ ∧ True))

/-- A process makes two children, the first makes one of its own and is
terminated by their parent, and the second makes one. -/
def family : Script :=
  [call 1 0x20060000 0 0, call 1 0x20060000 0 0, preempt, call 1 0x20060000 0 0, preempt, preempt,
    call 2 (sampleLayout.pcb 18) 0 0, call 1 0x20060000 0 0]

theorem process_tree_family :
    ∃ order, (sampleBoot.run sampleLayout family).kernel.FormsTree initPcb order := by
  have hboot : Makes sampleLayout (Deviceless sampleLayout) sampleBoot [initPcb] := .boot _ _ _
  obtain ⟨order, h⟩ := hboot.run family (by decide +kernel)
  exact ⟨order, process_tree h⟩

end Machine

end Pandos
