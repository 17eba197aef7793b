import Pandos.Lib.Preorder
import Pandos.Phase1.Calls
import Pandos.Phase1.Namespace

/-!
# `addNamespace` and the subtree

`addNamespace` recurs over the child lists. On a finite forest it ends, and it
changes one word in the record of every process it meets.
-/

namespace Pandos
open Intrusive

/-- The record with `ns` among its namespaces. -/
def PcbT.withNamespace (r : PcbT) (ns : Nsd) : PcbT :=
  { r with namespaces := Function.update r.namespaces ns.1 (some ns) }

namespace Tables
variable {t t' : Tables} {p q : Pcb} {ns ns₂ : Nsd} {V W : List Pcb} {fuel : Nat}

/-- Every process in `V` gets `ns`. -/
def give (t : Tables) (V : List Pcb) (ns : Nsd) : Tables :=
  { t with pcbs := fun q => if q ∈ V then (t.pcbs q).withNamespace ns else t.pcbs q }

/-- A descriptor replaces another one of its type. -/
theorem withNamespace_again (r : PcbT) (h : ns₂.1 = ns.1) :
    (r.withNamespace ns).withNamespace ns₂ = r.withNamespace ns₂ := by
  simp only [PcbT.withNamespace, h, Function.update_idem]

theorem give_give (t : Tables) (V W : List Pcb) (ns : Nsd) :
    (t.give V ns).give W ns = t.give (V ++ W) ns := by
  simp only [give, List.mem_append]
  congr 1
  funext q
  by_cases hV : q ∈ V <;> by_cases hW : q ∈ W <;> simp [hV, hW, withNamespace_again]

theorem give_again (t : Tables) (V : List Pcb) (h : ns₂.1 = ns.1) :
    (t.give V ns).give V ns₂ = t.give V ns₂ := by
  simp only [give]
  congr 1
  funext q
  by_cases hV : q ∈ V
  · simp [hV, withNamespace_again _ h]
  · simp [hV]

theorem give_congr (t : Tables) (ns : Nsd) (h : ∀ q, q ∈ V ↔ q ∈ W) : t.give V ns = t.give W ns := by
  simp only [give]
  congr 1
  funext q
  exact if_congr (h q) rfl rfl

/-- `getNamespace` finds the descriptor of its type. -/
theorem getNamespace_type (t : Tables) (q : Pcb) (type : Fin nsTypeMax) :
    t.getNamespace (some q) type.val = (t.pcbs q).namespaces type := by
  have hrange : 0 ≤ (type.val : Int) ∧ (type.val : Int) < nsTypeMax := by omega
  simp only [getNamespace]
  rw [dif_pos hrange]
  rfl

theorem setNamespace_eq (t : Tables) (p : Pcb) (ns : Nsd) :
    t.setNamespace p ns.1 (some ns) = t.give [p] ns := by
  simp only [setNamespace, modPcb, give, List.mem_singleton]
  congr 1
  funext q
  by_cases hq : q = p
  · subst hq
    simp [PcbT.withNamespace]
  · simp [hq]

/-- The processes that a recursion from `p` on meets. -/
def subtree (t : Tables) (fuel : Nat) (p : Pcb) : List Pcb :=
  t.pChild.preorder (fun _ => true) fuel p

theorem mem_subtree (h : t.pChild.Forest) (hf : t.pChild.depth p < fuel) :
    q ∈ t.subtree fuel p ↔ q = p ∨ t.pChild.Below p q := by
  constructor
  · exact Lists.eq_or_below_of_mem
  · intro hq
    refine (h.mem_preorder hf).mpr ⟨rfl, ?_⟩
    exact Relation.ReflTransGen.mono (fun _ _ hb => ⟨hb, rfl⟩) _ _
      (Relation.reflTransGen_iff_eq_or_transGen.mpr hq)

/-- The recursion gives `ns` to everybody it meets. -/
theorem addNamespace_eq (h : t.pChild.Forest) (ht : t'.pChild = t.pChild)
    (hf : t.pChild.depth p < fuel) :
    t'.addNamespace fuel p ns = some (t'.give (t.subtree fuel p) ns) := by
  induction fuel generalizing t' p with
  | zero => omega
  | succ fuel ih =>
    -- the loop over the children, with `W` served before it
    have loop : ∀ (l W : List Pcb), (∀ c ∈ l, t.pChild.depth c < fuel) →
        l.foldlM (fun u child => addNamespace fuel u child ns) (t'.give W ns) =
          some (t'.give (W ++ l.flatMap (t.subtree fuel)) ns) := by
      intro l
      induction l with
      | nil =>
        intro W _
        simp
      | cons c l il =>
        intro W hl
        have hc : (t'.give W ns).addNamespace fuel c ns =
            some ((t'.give W ns).give (t.subtree fuel c) ns) := ih ht (hl c List.mem_cons_self)
        rw [List.foldlM_cons, hc, give_give]
        show l.foldlM _ _ = _
        rw [il _ fun d hd => hl d (List.mem_cons_of_mem _ hd), List.flatMap_cons, List.append_assoc]
    have hchild : ∀ c ∈ t.pChild p, t.pChild.depth c < fuel := fun c hc => by
      have := h.depth_lt hc
      omega
    rw [addNamespace, setNamespace_eq, ht, loop _ _ hchild]
    rw [subtree, Lists.preorder_succ rfl]
    rfl

/-- `addNamespace` ends and gives the descriptor to the process and all of its
descendants and to nobody else. Only the last of several calls with descriptors
of one type counts. -/
theorem addNamespace_covers (h : t.pChild.Forest) (p : Pcb) (ns : Nsd) : ∃ t',
    (∀ fuel, maxProc ≤ fuel → t.addNamespace fuel p ns = some t') ∧
    (∀ q, q = p ∨ t.pChild.Below p q → t'.getNamespace (some q) ns.1.val = some ns) ∧
    (∀ q, ¬(q = p ∨ t.pChild.Below p q) → t'.pcbs q = t.pcbs q) ∧
    (∀ q, t'.pcbs q = { t.pcbs q with namespaces := (t'.pcbs q).namespaces }) ∧
    (∀ q type, type ≠ ns.1 → (t'.pcbs q).namespaces type = (t.pcbs q).namespaces type) ∧
    t' = { t with pcbs := t'.pcbs } ∧
    ∀ ns₂ : Nsd, ns₂.1 = ns.1 → ∀ fuel, maxProc ≤ fuel →
      t'.addNamespace fuel p ns₂ = t.addNamespace fuel p ns₂ := by
  have hdepth : t.pChild.depth p < maxProc := h.depth_lt_card p
  have hmem : ∀ {fuel q}, maxProc ≤ fuel →
      (q ∈ t.subtree fuel p ↔ q = p ∨ t.pChild.Below p q) := fun hf =>
    mem_subtree h (hdepth.trans_le hf)
  have hsame : ∀ {fuel} (u : Tables) (ns : Nsd), maxProc ≤ fuel →
      u.give (t.subtree fuel p) ns = u.give (t.subtree maxProc p) ns := by
    intro fuel u ns hf
    apply give_congr
    intro q
    rw [hmem hf, hmem le_rfl]
  refine ⟨t.give (t.subtree maxProc p) ns, fun fuel hf => ?_, fun q hq => ?_, fun q hq => ?_,
    fun q => ?_, fun q type hne => ?_, rfl, fun ns₂ he fuel hf => ?_⟩
  · rw [addNamespace_eq h rfl (hdepth.trans_le hf), hsame _ _ hf]
  · have hin : q ∈ t.subtree maxProc p := (hmem le_rfl).mpr hq
    rw [getNamespace_type]
    simp only [give, hin, if_true]
    exact Function.update_self _ _ _
  · have hout : q ∉ t.subtree maxProc p := fun hm => hq ((hmem le_rfl).mp hm)
    simp [give, hout]
  · simp only [give]
    split <;> rfl
  · simp only [give]
    split
    · exact Function.update_of_ne hne _ _
    · rfl
  · have hlt := hdepth.trans_le hf
    have hthen : (t.give (t.subtree maxProc p) ns).addNamespace fuel p ns₂ =
        some ((t.give (t.subtree maxProc p) ns).give (t.subtree fuel p) ns₂) :=
      addNamespace_eq h rfl hlt
    rw [hthen, addNamespace_eq h rfl hlt, hsame _ _ hf, hsame _ _ hf, give_again t _ he]

/-- Process 3 has two children, and the first of them has one. -/
def kindred : Tables :=
  { zero with pChild := fun p => if p = 3 then [4, 5] else if p = 4 then [6] else [] }

theorem kindred_forest : kindred.pChild.Forest := by
  refine ⟨⟨by decide, fun {h k n} => ?_⟩, Lists.acyclic_of_rank Fin.val ?_⟩
  · revert h k n
    decide +kernel
  · decide +kernel

/-- The first child gets a descriptor. -/
theorem addNamespace_covers_child : ∃ t',
    (∀ fuel, maxProc ≤ fuel → kindred.addNamespace fuel 4 (0, 7) = some t') ∧
    (∀ q, q = 4 ∨ kindred.pChild.Below 4 q → t'.getNamespace (some q) 0 = some (0, 7)) ∧
    (∀ q, ¬(q = 4 ∨ kindred.pChild.Below 4 q) → t'.pcbs q = kindred.pcbs q) ∧
    (∀ q, t'.pcbs q = { kindred.pcbs q with namespaces := (t'.pcbs q).namespaces }) ∧
    (∀ q type, type ≠ 0 → (t'.pcbs q).namespaces type = (kindred.pcbs q).namespaces type) ∧
    t' = { kindred with pcbs := t'.pcbs } ∧
    ∀ ns₂ : Nsd, ns₂.1 = 0 → ∀ fuel, maxProc ≤ fuel →
      t'.addNamespace fuel 4 ns₂ = kindred.addNamespace fuel 4 ns₂ :=
  addNamespace_covers kindred_forest 4 (0, 7)

end Tables

end Pandos
