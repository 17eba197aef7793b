import Mathlib.Data.List.FinRange
import Pandos.Lib.Calls
import Pandos.Lib.Rings
import Pandos.Types

/-!
# The namespace descriptors, pointer by pointer

The allocator of `namespace.c` on `list_head` cells: two lists for each type,
one of the free descriptors and one of those in use, and the `n_link` of every
entry of `type_nsd`. A descriptor finds its free list by its own `n_type`.
-/

namespace Pandos
open Intrusive

inductive NsHead
  | typeNsFreeH (type : Fin nsTypeMax)
  | typeNsListH (type : Fin nsTypeMax)
  deriving DecidableEq

structure NsHeap where
  links : Heap NsHead Nsd
  nType : Nsd → Int

namespace NsHeap

/-! ## The code -/

section code
variable (t : NsHeap)

/-- The inner loop of `initNamespaces`. -/
def initNsd (i : Fin nsTypeMax) (t : NsHeap) (j : Fin maxProc) : Option NsHeap := do
  let nType := Function.update t.nType (i, j) i
  let links ← t.links.listAdd (.node (i, j)) (.head (.typeNsFreeH i))
  return { links, nType }

/-- The outer loop. -/
def initType (t : NsHeap) (i : Fin nsTypeMax) : Option NsHeap :=
  let links := t.links.initListHead (.head (.typeNsFreeH i))
  let links := links.initListHead (.head (.typeNsListH i))
  (List.finRange maxProc).foldlM (initNsd i) { t with links }

def initNamespaces : Option NsHeap := (List.finRange nsTypeMax).foldlM initType t

def allocNamespace (type : Int) : Option (Option Nsd × NsHeap) :=
  if h : type < 0 ∨ type ≥ nsTypeMax then some (none, t)
  else
    let type : Fin nsTypeMax := ⟨type.toNat, by omega⟩
    if t.links.listEmpty (.head (.typeNsFreeH type)) then some (none, t)
    else do
      let next ← t.links.next (.head (.typeNsFreeH type))
      let links ← t.links.listDel next
      let links ← links.listAdd next (.head (.typeNsListH type))
      let ns ← next.containerOf
      return (some ns, { t with links })

def freeNamespace (ns : Nsd) : Option NsHeap := do
  let links ← t.links.listDel (.node ns)
  -- an index outside of `type_nsFree_h` has no result
  if h : 0 ≤ t.nType ns ∧ t.nType ns < nsTypeMax then
    let links ← links.listAdd (.node ns) (.head (.typeNsFreeH ⟨(t.nType ns).toNat, by omega⟩))
    return { t with links }
  else none

end code

/-! ## Initialisation -/

/-- The type a cell belongs to. -/
def typeOf : Cell NsHead Nsd → Fin nsTypeMax
  | .head (.typeNsFreeH i) => i
  | .head (.typeNsListH i) => i
  | .node ns => ns.1

/-- The cells in `S` have been initialised, and the descriptors among them are
on the free list of their type. -/
structure Initial (t : NsHeap) (S : Set (Cell NsHead Nsd)) (L : Lists NsHead Nsd) : Prop where
  represents : t.links.Represents S L
  mem : ∀ {k ns}, ns ∈ L k ↔ k = .typeNsFreeH ns.1 ∧ .node ns ∈ S
  nType : ∀ {ns}, .node ns ∈ S → t.nType ns = ns.1

variable {t : NsHeap} {S : Set (Cell NsHead Nsd)} {L : Lists NsHead Nsd} {i : Fin nsTypeMax}

theorem Initial.initListHead (h : t.Initial S L) {k : NsHead} (hk : .head k ∉ S) :
    ({ t with links := t.links.initListHead (.head k) } : NsHeap).Initial (insert (.head k) S) L where
  represents := h.represents.initListHead hk
  mem := by
    intro k ns
    rw [h.mem, Set.mem_insert_iff, or_iff_right (by simp)]
  nType hn := h.nType (by simpa using hn)

theorem Initial.initNsd (h : t.Initial S L) {j : Fin maxProc} (hi : .head (.typeNsFreeH i) ∈ S)
    (hj : .node (i, j) ∉ S) : ∃ t' L', initNsd i t j = some t' ∧
      t'.Initial (insert (.node (i, j)) S) L' := by
  have hnew : ∀ k, (i, j) ∉ L k := fun k hk => hj (h.mem.mp hk).2
  obtain ⟨links, hl, hR⟩ := h.represents.listAdd hi hnew
  refine ⟨⟨links, Function.update t.nType (i, j) i⟩, L.push (.typeNsFreeH i) (i, j),
    by simp [NsHeap.initNsd, hl], hR, ?_, ?_⟩
  · intro k ns
    rw [Lists.mem_push, h.mem, Set.mem_insert_iff, Cell.node.injEq]
    constructor
    · rintro (⟨hk, hm⟩ | ⟨rfl, rfl⟩)
      · exact ⟨hk, .inr hm⟩
      · exact ⟨rfl, .inl rfl⟩
    · rintro ⟨rfl, rfl | hm⟩
      · exact .inr ⟨rfl, rfl⟩
      · exact .inl ⟨rfl, hm⟩
  · intro ns hns
    by_cases he : ns = (i, j)
    · subst he
      simp
    · simp only [Function.update_of_ne he]
      exact h.nType (by simpa [he] using hns)

/-- The inner loop frees the descriptors of a type. -/
theorem Initial.foldlM_initNsd {js : List (Fin maxProc)} (h : t.Initial S L)
    (hi : .head (.typeNsFreeH i) ∈ S) (hd : js.Nodup) (hj : ∀ j ∈ js, .node (i, j) ∉ S) :
    ∃ t' L', js.foldlM (NsHeap.initNsd i) t = some t' ∧
      t'.Initial {a | a ∈ S ∨ ∃ j ∈ js, a = .node (i, j)} L' := by
  induction js generalizing t S L with
  | nil => exact ⟨t, L, rfl, by simpa using h⟩
  | cons j js ih =>
    obtain ⟨hnew, hd⟩ := List.nodup_cons.mp hd
    obtain ⟨t₁, L₁, h₁, hI⟩ := h.initNsd hi (hj j (by simp))
    obtain ⟨t₂, L₂, h₂, hI⟩ := ih hI (.inr hi) hd fun k hk => by
      have hne : k ≠ j := fun e => hnew (e ▸ hk)
      simp [hne, hj k (by simp [hk])]
    refine ⟨t₂, L₂, by simp [List.foldlM_cons, h₁, h₂], ?_⟩
    convert hI using 1
    ext a
    simp only [Set.mem_ofPred_eq, Set.mem_insert_iff, List.mem_cons, exists_eq_or_imp]
    tauto

/-- The outer loop does so for each type. -/
theorem Initial.initType {D : List (Fin nsTypeMax)} (h : t.Initial {a | typeOf a ∈ D} L)
    (hi : i ∉ D) : ∃ t' L', initType t i = some t' ∧ t'.Initial {a | typeOf a ∈ i :: D} L' := by
  have h₁ := h.initListHead (k := .typeNsFreeH i) (by simpa [typeOf] using hi)
  have h₂ := h₁.initListHead (k := .typeNsListH i) (by simpa [typeOf] using hi)
  obtain ⟨t', L', ht, hI⟩ := h₂.foldlM_initNsd (i := i) (by simp) (List.nodup_finRange maxProc)
    fun j _ => by simpa [typeOf] using hi
  refine ⟨t', L', ht, ?_⟩
  convert hI using 1
  ext a
  simp only [Set.mem_ofPred_eq, Set.mem_insert_iff, List.mem_cons, List.mem_finRange, true_and]
  rcases a with (k | k) | ⟨i', j'⟩
  · simp [typeOf]
  · simp [typeOf]
  · simp [typeOf]
    tauto

theorem Initial.foldlM_initType {is D : List (Fin nsTypeMax)} (h : t.Initial {a | typeOf a ∈ D} L)
    (hd : is.Nodup) (hD : ∀ i ∈ is, i ∉ D) : ∃ t' L', is.foldlM NsHeap.initType t = some t' ∧
      t'.Initial {a | typeOf a ∈ is ∨ typeOf a ∈ D} L' := by
  induction is generalizing t D L with
  | nil => exact ⟨t, L, rfl, by simpa using h⟩
  | cons i is ih =>
    obtain ⟨hnew, hd⟩ := List.nodup_cons.mp hd
    obtain ⟨t₁, L₁, h₁, hI⟩ := h.initType (hD i (by simp))
    obtain ⟨t₂, L₂, h₂, hI⟩ := ih hI hd fun k hk => by
      have hne : k ≠ i := fun e => hnew (e ▸ hk)
      simp [hne, hD k (by simp [hk])]
    refine ⟨t₂, L₂, by simp [List.foldlM_cons, h₁, h₂], ?_⟩
    convert hI using 1
    ext a
    simp only [Set.mem_ofPred_eq, List.mem_cons]
    tauto

/-- Whatever the memory was, all descriptors are free in the end. -/
theorem initNamespaces_initial (t : NsHeap) :
    ∃ t' L, initNamespaces t = some t' ∧ t'.Initial Set.univ L := by
  have h : t.Initial {a | typeOf a ∈ []} fun _ => [] := by
    refine ⟨⟨⟨fun _ => .nil, nofun⟩, nofun, ?_, ?_⟩, ?_, ?_⟩ <;> simp
  obtain ⟨t', L, ht, hI⟩ := h.foldlM_initType (List.nodup_finRange nsTypeMax) fun _ _ => by simp
  refine ⟨t', L, ht, ?_⟩
  convert hI using 1
  ext a
  simp

/-! ## Descriptors in use -/

/-- Every descriptor is on one of the two lists of its type. -/
structure Holds (t : NsHeap) (L : Lists NsHead Nsd) : Prop where
  represents : t.links.Represents Set.univ L
  nType : ∀ ns, t.nType ns = ns.1
  mem : ∀ ns, ns ∈ L (.typeNsFreeH ns.1) ∨ ns ∈ L (.typeNsListH ns.1)

theorem Initial.holds (h : t.Initial Set.univ L) : t.Holds L where
  represents := h.represents
  nType _ := h.nType (Set.mem_univ _)
  mem _ := .inl (h.mem.mpr ⟨rfl, Set.mem_univ _⟩)

theorem allocNamespace_out (t : NsHeap) {type : Int} (ht : type < 0 ∨ type ≥ nsTypeMax) :
    t.allocNamespace type = some (none, t) := by
  rw [allocNamespace, dif_pos ht]

namespace Holds
variable {ns m : Nsd} {k : NsHead}

/-- Only descriptors of a type are on its lists. -/
theorem type_of_mem (h : t.Holds L) (hk : ns ∈ L k) : typeOf (.head k) = ns.1 := by
  rcases h.mem ns with hm | hm
  · exact h.represents.apart.unique hk hm ▸ rfl
  · exact h.represents.apart.unique hk hm ▸ rfl

/-- A descriptor is on its free list until it is in use. -/
theorem free_iff (h : t.Holds L) : ns ∈ L (.typeNsFreeH ns.1) ↔ ns ∉ L (.typeNsListH ns.1) := by
  constructor
  · intro hf hu
    cases h.represents.apart.unique hf hu
  · exact (h.mem ns).resolve_right

/-- From wherever it is to the front of a list of its type. -/
theorem move (h : t.Holds L) (hk : typeOf (.head k) = ns.1) :
    ∃ links, (t.links.listDel (.node ns)).bind (·.listAdd (.node ns) (.head k)) = some links ∧
      ({ t with links } : NsHeap).Holds ((L.unlink ns).push k ns) := by
  obtain ⟨l₁, h₁, hR₁⟩ := h.represents.listDel (n := ns) (Set.mem_univ _)
  obtain ⟨l₂, h₂, hR₂⟩ := hR₁.listAdd (h := k) (n := ns) (by simp) (by simp)
  rw [Set.insert_sdiff_self_of_mem (Set.mem_univ _)] at hR₂
  refine ⟨l₂, by simp [h₁, h₂], hR₂, h.nType, fun m => ?_⟩
  simp only [Lists.mem_push, Lists.mem_unlink]
  by_cases hm : m = ns
  · subst hm
    cases k with
    | typeNsFreeH i => exact .inl (.inr ⟨congrArg _ hk.symm, rfl⟩)
    | typeNsListH i => exact .inr (.inr ⟨congrArg _ hk.symm, rfl⟩)
  · exact (h.mem m).imp (fun hf => .inl ⟨hf, hm⟩) fun hu => .inl ⟨hu, hm⟩

theorem alloc_nil (h : t.Holds L) {i : Fin nsTypeMax} (hf : L (.typeNsFreeH i) = []) :
    t.allocNamespace i = some (none, t) := by
  have he := (h.represents.listEmpty_iff (Set.mem_univ (Cell.head (.typeNsFreeH i)))).mpr hf
  have hi : ¬((i : Int) < 0 ∨ (i : Int) ≥ nsTypeMax) := by omega
  rw [allocNamespace, dif_neg hi]
  exact if_pos he

theorem alloc_cons (h : t.Holds L) {i : Fin nsTypeMax} {l : List Nsd}
    (hf : L (.typeNsFreeH i) = ns :: l) : ∃ t', t.allocNamespace i = some (some ns, t') ∧
      t'.Holds ((L.unlink ns).push (.typeNsListH i) ns) := by
  have he : t.links.listEmpty (.head (.typeNsFreeH i)) ≠ true := by
    rw [Ne, h.represents.listEmpty_iff (Set.mem_univ _), hf]
    exact List.cons_ne_nil _ _
  have hn := h.represents.next_head (Set.mem_univ (Cell.head (.typeNsFreeH i)))
  have hi : ¬((i : Int) < 0 ∨ (i : Int) ≥ nsTypeMax) := by omega
  have htype : i = ns.1 := h.type_of_mem (k := .typeNsFreeH i) (by simp [hf])
  obtain ⟨links, hl, hH⟩ := h.move (k := .typeNsListH i) htype
  refine ⟨{ t with links }, ?_, hH⟩
  obtain ⟨l₁, hl₁, hl₂⟩ := Option.bind_eq_some_iff.mp hl
  rw [allocNamespace, dif_neg hi]
  refine (if_neg he).trans ?_
  refine Option.bind_eq_some_iff.mpr ⟨.node ns, hn.trans (by rw [hf]; rfl), ?_⟩
  refine Option.bind_eq_some_iff.mpr ⟨l₁, hl₁, ?_⟩
  exact Option.bind_eq_some_iff.mpr ⟨links, hl₂, rfl⟩

theorem free (h : t.Holds L) (ns : Nsd) : ∃ t', t.freeNamespace ns = some t' ∧
    t'.Holds ((L.unlink ns).push (.typeNsFreeH ns.1) ns) := by
  have htype : typeOf (.head (.typeNsFreeH ns.1)) = ns.1 := rfl
  obtain ⟨links, hl, hH⟩ := h.move htype
  refine ⟨{ t with links }, ?_, hH⟩
  obtain ⟨l₁, hl₁, hl₂⟩ := Option.bind_eq_some_iff.mp hl
  have hn : 0 ≤ t.nType ns ∧ t.nType ns < nsTypeMax := by
    rw [h.nType]
    omega
  have hi : (⟨(t.nType ns).toNat, by omega⟩ : Fin nsTypeMax) = ns.1 := Fin.ext (by simp [h.nType])
  refine Option.bind_eq_some_iff.mpr ⟨l₁, hl₁, (dif_pos hn).trans ?_⟩
  rw [hi]
  exact Option.bind_eq_some_iff.mpr ⟨links, hl₂, rfl⟩

end Holds

inductive Call
  | allocNamespace (type : Int)
  | freeNamespace (ns : Nsd)

namespace Call
variable {L : Lists NsHead Nsd} {ns : Nsd}

/-- The call on the pointers. -/
def exec (t : NsHeap) : Call → Option (Option Nsd × NsHeap)
  | .allocNamespace type => t.allocNamespace type
  | .freeNamespace ns => (t.freeNamespace ns).map (none, ·)

/-- The call on the lists. -/
def spec (L : Lists NsHead Nsd) : Call → Option Nsd × Lists NsHead Nsd
  | .allocNamespace type =>
    if h : type < 0 ∨ type ≥ nsTypeMax then (none, L)
    else
      let i : Fin nsTypeMax := ⟨type.toNat, by omega⟩
      match L (.typeNsFreeH i) with
      | [] => (none, L)
      | ns :: _ => (some ns, (L.unlink ns).push (.typeNsListH i) ns)
  | .freeNamespace ns => (none, (L.unlink ns).push (.typeNsFreeH ns.1) ns)

/-- A call does nothing, hands out the first free descriptor of a type or frees one. -/
theorem spec_cases (L : Lists NsHead Nsd) (c : Call) :
    (∃ type, c = .allocNamespace type ∧ c.spec L = (none, L) ∧
      (type < 0 ∨ type ≥ nsTypeMax ∨ ∃ i : Fin nsTypeMax, type = i ∧ L (.typeNsFreeH i) = [])) ∨
    (∃ (i : Fin nsTypeMax) (ns : Nsd) (l : List Nsd), c = .allocNamespace i ∧
      L (.typeNsFreeH i) = ns :: l ∧
      c.spec L = (some ns, (L.unlink ns).push (.typeNsListH i) ns)) ∨
    ∃ ns, c = .freeNamespace ns ∧ c.spec L = (none, (L.unlink ns).push (.typeNsFreeH ns.1) ns) := by
  cases c with
  | freeNamespace ns => exact .inr (.inr ⟨ns, rfl, rfl⟩)
  | allocNamespace type =>
    by_cases ht : type < 0 ∨ type ≥ nsTypeMax
    · exact .inl ⟨type, rfl, dif_pos ht, ht.imp id .inl⟩
    · obtain ⟨i, rfl⟩ : ∃ i : Fin nsTypeMax, type = i :=
        ⟨⟨type.toNat, by omega⟩, by simp; omega⟩
      have hi : (⟨((i : Nat) : Int).toNat, by omega⟩ : Fin nsTypeMax) = i := Fin.ext (by simp)
      cases hf : L (.typeNsFreeH i) with
      | nil =>
        refine .inl ⟨i, rfl, ?_, .inr (.inr ⟨i, rfl, hf⟩)⟩
        simp only [spec, dif_neg ht, hi, hf]
      | cons ns l =>
        refine .inr (.inl ⟨i, ns, l, rfl, hf, ?_⟩)
        simp only [spec, dif_neg ht, hi, hf]

theorem exec_holds (h : t.Holds L) (c : Call) :
    ∃ t', c.exec t = some ((c.spec L).1, t') ∧ t'.Holds (c.spec L).2 := by
  rcases spec_cases L c with ⟨type, rfl, hs, ht⟩ | ⟨i, ns, l, rfl, hf, hs⟩ | ⟨ns, rfl, hs⟩
  · rw [hs]
    refine ⟨t, ?_, h⟩
    rcases ht with ht | ht | ⟨i, rfl, hf⟩
    · exact allocNamespace_out t (.inl ht)
    · exact allocNamespace_out t (.inr ht)
    · exact h.alloc_nil hf
  · rw [hs]
    exact h.alloc_cons hf
  · rw [hs]
    obtain ⟨t', ht, hH⟩ := h.free ns
    exact ⟨t', by simp [exec, ht], hH⟩

/-- What is in use stays in use until it is freed. -/
theorem spec_used {c : Call} (h : t.Holds L) (hu : ns ∈ L (.typeNsListH ns.1))
    (hne : c ≠ .freeNamespace ns) :
    (c.spec L).1 ≠ some ns ∧ ns ∈ (c.spec L).2 (.typeNsListH ns.1) := by
  rcases spec_cases L c with ⟨type, rfl, hs, ht⟩ | ⟨i, m, l, rfl, hf, hs⟩ | ⟨m, rfl, hs⟩
  · rw [hs]
    exact ⟨nofun, hu⟩
  · have hnm : ns ≠ m := by
      rintro rfl
      cases h.represents.apart.unique (h := .typeNsFreeH i) (by simp [hf]) hu
    rw [hs]
    refine ⟨fun e => hnm (Option.some.inj e).symm, ?_⟩
    exact Lists.mem_push.mpr (.inl (Lists.mem_unlink.mpr ⟨hu, hnm⟩))
  · have hnm : ns ≠ m := fun e => hne (e ▸ rfl)
    rw [hs]
    refine ⟨nofun, ?_⟩
    change ns ∈ (L.unlink m).push (.typeNsFreeH m.1) m (.typeNsListH ns.1)
    exact Lists.mem_push.mpr (.inl (Lists.mem_unlink.mpr ⟨hu, hnm⟩))

/-- Calls that do not free a descriptor in use do not hand it out. -/
theorem not_again (h : t.Holds L) (hu : ns ∈ L (.typeNsListH ns.1)) {calls : List Call}
    (hc : .freeNamespace ns ∉ calls) {rs : List (Option Nsd)} {t' : NsHeap}
    (hr : Calls.run exec t calls = some (rs, t')) : some ns ∉ rs := by
  have step : ∀ t c r t', (∃ L, t.Holds L ∧ ns ∈ L (.typeNsListH ns.1)) →
      c ≠ .freeNamespace ns → exec t c = some (r, t') →
      r ≠ some ns ∧ ∃ L, t'.Holds L ∧ ns ∈ L (.typeNsListH ns.1) := by
    rintro t c r t' ⟨L, h, hu⟩ hne hx
    obtain ⟨t₁, ht, hH⟩ := exec_holds h c
    obtain ⟨hr, hu⟩ := spec_used h hu hne
    cases ht.symm.trans hx
    exact ⟨hr, _, hH, hu⟩
  have := (Calls.run_invariant _ (· ≠ Call.freeNamespace ns) _ step ⟨L, h, hu⟩
    (fun c hm e => hc (e ▸ hm)) hr).1
  exact fun hm => this _ hm rfl

end Call

/-- Every descriptor is free or in use and nowhere else, the allocator fails
only when no descriptor of the type is free, and hands out none that is in use. -/
structure Conserved (t : NsHeap) (L : Lists NsHead Nsd) : Prop where
  represents : t.links.Represents Set.univ L
  inverse : ∀ a, (t.links.prev a).bind t.links.next = some a ∧
    (t.links.next a).bind t.links.prev = some a
  once : ∀ i, (L (.typeNsFreeH i) ++ L (.typeNsListH i)).Nodup
  all : ∀ i ns, ns ∈ L (.typeNsFreeH i) ++ L (.typeNsListH i) ↔ ns.1 = i
  alloc : ∀ type : Int, ∃ r t', t.allocNamespace type = some (r, t') ∧
    (r = none ↔ type < 0 ∨ type ≥ nsTypeMax ∨
      ∀ ns : Nsd, ns.1.val = type → ns ∈ L (.typeNsListH ns.1)) ∧
    ∀ ns, r = some ns → ns.1.val = type ∧ ns ∈ L (.typeNsFreeH ns.1)
  again : ∀ type ns t', t.allocNamespace type = some (some ns, t') →
    ∀ calls : List Call, .freeNamespace ns ∉ calls →
    ∀ rs t'', Calls.run Call.exec t' calls = some (rs, t'') → some ns ∉ rs

theorem Holds.conserved (h : t.Holds L) : t.Conserved L where
  represents := h.represents
  inverse _ := h.represents.inverse (Set.mem_univ _)
  once i := by
    have ha := h.represents.apart
    refine (ha.nodup _).append (ha.nodup _) fun ns hf hu => ?_
    cases ha.unique hf hu
  all i ns := by
    rw [List.mem_append]
    constructor
    · rintro (hm | hm) <;> exact (h.type_of_mem hm).symm
    · rintro rfl
      exact h.mem ns
  alloc type := by
    obtain ⟨t', ht, -⟩ := Call.exec_holds h (.allocNamespace type)
    refine ⟨_, t', ht, ?_⟩
    rcases Call.spec_cases L (.allocNamespace type) with
      ⟨_, hc, hs, hnone⟩ | ⟨i, ns, l, hc, hf, hs⟩ | ⟨ns, hc, -⟩
    · cases hc
      rw [hs]
      refine ⟨iff_of_true rfl (hnone.imp id (Or.imp id ?_)), nofun⟩
      rintro ⟨i, rfl, hf⟩ ns hns
      obtain rfl : ns.1 = i := Fin.ext (Int.ofNat_inj.mp hns)
      exact (h.mem ns).resolve_left (by simp [hf])
    · cases hc
      have hns : i = ns.1 := h.type_of_mem (k := .typeNsFreeH i) (by simp [hf])
      subst hns
      have hfree : ns ∈ L (.typeNsFreeH ns.1) := by simp [hf]
      rw [hs]
      refine ⟨iff_of_false nofun ?_, fun m hm => ?_⟩
      · rintro (hlt | hge | hall)
        · omega
        · omega
        · exact h.free_iff.mp hfree (hall ns rfl)
      · cases hm
        exact ⟨rfl, hfree⟩
    · cases hc
  again type ns t' ha calls hc rs t'' hr := by
    obtain ⟨t₁, ht, hH⟩ := Call.exec_holds h (.allocNamespace type)
    have he : some (some ns, t') = some (((Call.allocNamespace type).spec L).1, t₁) := ha.symm.trans ht
    rcases Call.spec_cases L (.allocNamespace type) with
      ⟨_, -, hs, -⟩ | ⟨i, m, l, -, hf, hs⟩ | ⟨m, hc, -⟩
    · rw [hs] at he
      cases he
    · rw [hs] at he hH
      cases he
      have hns : i = ns.1 := h.type_of_mem (k := .typeNsFreeH i) (by simp [hf])
      subst hns
      exact Call.not_again hH (Lists.mem_push.mpr (.inr ⟨rfl, rfl⟩)) hc hr
    · cases hc

/-- After `initNamespaces`, whatever the memory was before, every sequence of
calls conserves the descriptors. -/
theorem descriptors_conserved (t : NsHeap) : ∃ t₀ L, initNamespaces t = some t₀ ∧
    (∀ ns, ns ∈ L (.typeNsFreeH ns.1)) ∧
    ∀ calls : List Call, ∃ t', Calls.run Call.exec t₀ calls =
        some ((Calls.specRun Call.spec L calls).1, t') ∧
      t'.Conserved (Calls.specRun Call.spec L calls).2 := by
  obtain ⟨t₀, L, ht, hI⟩ := initNamespaces_initial t
  refine ⟨t₀, L, ht, fun ns => hI.mem.mpr ⟨rfl, Set.mem_univ _⟩, fun calls => ?_⟩
  obtain ⟨t', hr, hH⟩ := Calls.run_refines Call.exec Call.spec Holds (fun _ => True)
    (fun _ _ c h _ => Call.exec_holds h c) hI.holds fun _ _ => trivial
  exact ⟨t', hr, hH.conserved⟩

end NsHeap

end Pandos
