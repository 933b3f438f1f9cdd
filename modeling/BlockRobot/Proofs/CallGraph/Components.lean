import BlockRobot.Proofs.CallGraph.Chains
import Mathlib.Data.List.Dedup
import Mathlib.Data.List.Pairwise

/-!
# Strongly connected components

Whatever finds the strongly connected components of a call graph finds the groups of recursion: those with
a node that leads to itself are the groups, each once, up to the order of their nodes
(`Components.perm_cycles`). The node of the actions is a component of its own, for nothing calls it.
-/

namespace BlockRobot

namespace CallGraph

open Relation (TransGen ReflTransGen)

variable {p : Program} {g : CallGraph} {u v : Nat}

/-- The strongly connected components of the graph, in any order: each node is in one of them, together
with the nodes that it leads to and that lead to it. -/
structure Components (g : CallGraph) (comps : List (List Nat)) : Prop where
  nodes : comps.flatten.Perm (List.range g.nodes.length)
  nonempty : [] ∉ comps
  linked : ∀ comp ∈ comps, ∀ u ∈ comp, ∀ v < g.nodes.length,
    v ∈ comp ↔ ReflTransGen g.Calls u v ∧ ReflTransGen g.Calls v u

/-! ## The components of a graph -/

def componentOf (g : CallGraph) (u : Nat) : List Nat :=
  (List.range g.nodes.length).filter fun v =>
    (g.reachableFrom u).contains v && (g.reachableFrom v).contains u

def components (g : CallGraph) : List (List Nat) :=
  ((List.range g.nodes.length).map g.componentOf).dedup

theorem mem_componentOf (hg : g.InRange) (hu : u < g.nodes.length) :
    v ∈ g.componentOf u ↔
      v < g.nodes.length ∧ ReflTransGen g.Calls u v ∧ ReflTransGen g.Calls v u := by
  simp only [componentOf, List.mem_filter, List.mem_range, Bool.and_eq_true, List.contains_iff_mem]
  refine and_congr_right fun hv => ?_
  rw [mem_reachableFrom hg hu, mem_reachableFrom hg hv]

theorem mem_components {comp : List Nat} :
    comp ∈ g.components ↔ ∃ u < g.nodes.length, g.componentOf u = comp := by
  simp [components]

theorem mem_componentOf_self (hg : g.InRange) (hu : u < g.nodes.length) : u ∈ g.componentOf u :=
  (mem_componentOf hg hu).mpr ⟨hu, .refl, .refl⟩

theorem componentOf_eq (hg : g.InRange) (hu : u < g.nodes.length) (hv : v ∈ g.componentOf u) :
    g.componentOf v = g.componentOf u := by
  obtain ⟨hlt, huv, hvu⟩ := (mem_componentOf hg hu).mp hv
  refine List.filter_congr fun x hx => ?_
  have hx := List.mem_range.mp hx
  rw [Bool.eq_iff_iff]
  simp only [Bool.and_eq_true, List.contains_iff_mem, mem_reachableFrom hg hu,
    mem_reachableFrom hg hlt, mem_reachableFrom hg hx]
  constructor
  · rintro ⟨hvx, hxv⟩
    exact ⟨huv.trans hvx, hxv.trans hvu⟩
  · rintro ⟨hux, hxu⟩
    exact ⟨hvu.trans hux, hxu.trans huv⟩

theorem nodup_flatten_components (hg : g.InRange) : g.components.flatten.Nodup := by
  refine List.nodup_flatten.mpr ⟨fun comp hcomp => ?_, ?_⟩
  · obtain ⟨u, _, rfl⟩ := mem_components.mp hcomp
    exact List.nodup_range.filter _
  · refine (List.nodup_dedup _).pairwise_of_forall_ne fun comp hcomp comp' hcomp' hne w hw hw' => ?_
    obtain ⟨u, hu, rfl⟩ := mem_components.mp hcomp
    obtain ⟨v, hv, rfl⟩ := mem_components.mp hcomp'
    exact hne ((componentOf_eq hg hu hw).symm.trans (componentOf_eq hg hv hw'))

theorem components_components (hg : g.InRange) : g.Components g.components where
  nodes := by
    refine (List.perm_ext_iff_of_nodup (nodup_flatten_components hg) List.nodup_range).mpr fun v => ?_
    rw [List.mem_flatten, List.mem_range]
    constructor
    · rintro ⟨comp, hcomp, hv⟩
      obtain ⟨u, hu, rfl⟩ := mem_components.mp hcomp
      exact ((mem_componentOf hg hu).mp hv).1
    · intro hv
      exact ⟨g.componentOf v, mem_components.mpr ⟨v, hv, rfl⟩, mem_componentOf_self hg hv⟩
  nonempty hnil := by
    obtain ⟨u, hu, hcomp⟩ := mem_components.mp hnil
    exact List.not_mem_nil (hcomp ▸ mem_componentOf_self hg hu)
  linked comp hcomp u hu v hv := by
    obtain ⟨w, hw, rfl⟩ := mem_components.mp hcomp
    have hlt := ((mem_componentOf hg hw).mp hu).1
    rw [← componentOf_eq hg hw hu, mem_componentOf hg hlt]
    exact and_iff_right hv

/-! ## Components and groups -/

def isRecursive (g : CallGraph) (comp : List Nat) : Bool :=
  1 < comp.length || comp.head?.any fun v => (g.calleesOf v).contains v

def groupOf (g : CallGraph) (comp : List Nat) : List Nat := g.cycleOf g.closure (comp.headD 0)

namespace Components

variable {comps : List (List Nat)} {comp comp' : List Nat}

theorem exists_of_lt (hc : g.Components comps) (hv : v < g.nodes.length) : ∃ comp ∈ comps, v ∈ comp :=
  List.mem_flatten.mp (hc.nodes.mem_iff.mpr (List.mem_range.mpr hv))

theorem lt_of_mem (hc : g.Components comps) (hcomp : comp ∈ comps) (hv : v ∈ comp) :
    v < g.nodes.length :=
  List.mem_range.mp (hc.nodes.mem_iff.mp (List.mem_flatten.mpr ⟨comp, hcomp, hv⟩))

theorem disjoint (hc : g.Components comps) :
    (∀ comp ∈ comps, comp.Nodup) ∧ comps.Pairwise List.Disjoint :=
  List.nodup_flatten.mp (hc.nodes.nodup_iff.mpr List.nodup_range)

theorem unique (hc : g.Components comps) (hcomp : comp ∈ comps) (hcomp' : comp' ∈ comps)
    (hv : v ∈ comp) (hv' : v ∈ comp') : comp = comp' := by
  have hsymm : Std.Symm (@List.Disjoint Nat) := ⟨fun _ _ h => h.symm⟩
  by_contra hne
  exact hc.disjoint.2.forall hcomp hcomp' hne hv hv'

theorem exists_mem (hc : g.Components comps) (hcomp : comp ∈ comps) : ∃ v, v ∈ comp :=
  List.exists_mem_of_ne_nil comp fun hnil => hc.nonempty (hnil ▸ hcomp)

theorem nodup (hc : g.Components comps) : comps.Nodup := by
  refine hc.disjoint.2.imp_of_mem fun {comp _} hcomp _ hdisjoint heq => ?_
  obtain ⟨v, hv⟩ := hc.exists_mem hcomp
  exact hdisjoint hv (heq ▸ hv)

theorem eq_singleton (hc : g.Components comps) (hcomp : comp ∈ comps) (hv : v ∈ comp)
    (honly : ∀ u ∈ comp, u = v) : comp = [v] := by
  have hrep := List.eq_replicate_of_mem honly
  have hle := List.nodup_replicate.mp (hrep ▸ hc.disjoint.1 comp hcomp)
  rwa [Nat.le_antisymm hle (List.length_pos_of_mem hv)] at hrep

theorem isRecursive_iff (hc : g.Components comps) (hg : g.InRange) (hcomp : comp ∈ comps)
    (hv : v ∈ comp) : g.isRecursive comp = true ↔ TransGen g.Calls v v := by
  have hlinked := hc.linked comp hcomp v hv
  constructor
  · intro hrec
    by_cases hsingle : ∃ u ∈ comp, u ≠ v
    · obtain ⟨u, hu, hne⟩ := hsingle
      obtain ⟨hvu, huv⟩ := (hlinked u (hc.lt_of_mem hcomp hu)).mp hu
      exact ((Relation.reflTransGen_iff_eq_or_transGen.mp hvu).resolve_left hne).trans_left huv
    · -- The component has no other member, so it is its member that calls itself.
      simp only [not_exists, not_and, not_not] at hsingle
      simp only [hc.eq_singleton hcomp hv hsingle, isRecursive, List.length_singleton,
        Nat.lt_irrefl, decide_false, Bool.false_or, List.head?_cons, Option.any_some,
        List.contains_iff_mem] at hrec
      exact .single (mem_calleesOf.mp hrec)
  · intro hvv
    obtain ⟨w, hvw, hwv⟩ := TransGen.head'_iff.mp hvv
    have hw : w ∈ comp := (hlinked w (hg v w hvw)).mpr ⟨.single hvw, hwv⟩
    rw [isRecursive, Bool.or_eq_true, decide_eq_true_eq]
    match comp, hv, hw with
    | [_], hv, hw =>
      obtain rfl := List.mem_singleton.mp hv
      obtain rfl := List.mem_singleton.mp hw
      exact .inr (List.contains_iff_mem.mpr (mem_calleesOf.mpr hvw))
    | _ :: _ :: rest, _, _ => exact .inl (Nat.succ_lt_succ (Nat.succ_pos _))

theorem perm_cycleOf (hc : g.Components comps) (hg : ofProgram p = .ok g) (hcomp : comp ∈ comps)
    (hv : v ∈ comp) (hvv : TransGen g.Calls v v) : comp.Perm (g.cycleOf g.closure v) := by
  refine (List.perm_ext_iff_of_nodup (hc.disjoint.1 comp hcomp) (nodup_cycleOf _ v)).mpr fun u => ?_
  rw [mem_cycleOf (inRange_ofProgram hg) (hc.lt_of_mem hcomp hv)]
  constructor
  · intro hu
    have hlt := hc.lt_of_mem hcomp hu
    obtain ⟨hvu, huv⟩ := (hc.linked comp hcomp v hv u hlt).mp hu
    have hvu' := hvv.trans_left hvu
    refine ⟨mem_functionNodes.mpr ⟨Nat.pos_of_ne_zero ?_, hlt⟩, hvu', hvv.trans_right huv⟩
    exact fun hmain => not_transGen_main hg (hmain ▸ hvu')
  · rintro ⟨hfun, hvu, huv⟩
    exact (hc.linked comp hcomp v hv u (mem_functionNodes.mp hfun).2).mpr
      ⟨hvu.to_reflTransGen, huv.to_reflTransGen⟩

theorem perm_groupOf (hc : g.Components comps) (hg : ofProgram p = .ok g)
    (hcomp : comp ∈ comps.filter g.isRecursive) : comp.Perm (g.groupOf comp) := by
  obtain ⟨hcomp, hrec⟩ := List.mem_filter.mp hcomp
  obtain ⟨v, rest, rfl⟩ := List.exists_cons_of_ne_nil fun hnil => hc.nonempty (hnil ▸ hcomp)
  exact hc.perm_cycleOf hg hcomp List.mem_cons_self
    ((hc.isRecursive_iff (inRange_ofProgram hg) hcomp List.mem_cons_self).mp hrec)

theorem groupOf_mem_cycles (hc : g.Components comps) (hg : ofProgram p = .ok g)
    (hcomp : comp ∈ comps.filter g.isRecursive) : g.groupOf comp ∈ g.cycles := by
  have hperm := hc.perm_groupOf hg hcomp
  obtain ⟨hcomp, hrec⟩ := List.mem_filter.mp hcomp
  obtain ⟨v, rest, rfl⟩ := List.exists_cons_of_ne_nil fun hnil => hc.nonempty (hnil ▸ hcomp)
  have hrange := inRange_ofProgram hg
  exact cycleOf_mem_cycles hrange (List.mem_of_mem_filter (hperm.mem_iff.mp List.mem_cons_self))
    ((hc.isRecursive_iff hrange hcomp List.mem_cons_self).mp hrec)

theorem perm_cycles (hc : g.Components comps) (hg : ofProgram p = .ok g) :
    ((comps.filter g.isRecursive).map g.groupOf).Perm g.cycles := by
  have hrange := inRange_ofProgram hg
  refine (List.perm_ext_iff_of_nodup ?_ g.nodup_cycles).mpr fun cycle => ?_
  · refine (hc.nodup.filter _).map_on fun comp hcomp comp' hcomp' heq => ?_
    have hmem := List.mem_of_mem_filter hcomp
    obtain ⟨v, hv⟩ := hc.exists_mem hmem
    have hv' := (hc.perm_groupOf hg hcomp).mem_iff.mp hv
    rw [heq, ← (hc.perm_groupOf hg hcomp').mem_iff] at hv'
    exact hc.unique hmem (List.mem_of_mem_filter hcomp') hv hv'
  · rw [List.mem_map]
    constructor
    · rintro ⟨comp, hcomp, rfl⟩
      exact hc.groupOf_mem_cycles hg hcomp
    · intro hcycle
      obtain ⟨v, hfun, rfl, hhead⟩ := mem_cycles.mp hcycle
      have hlt := (mem_functionNodes.mp hfun).2
      obtain ⟨_, hvv, _⟩ := (mem_cycleOf hrange hlt).mp (List.mem_of_mem_head? hhead)
      obtain ⟨comp, hmem, hv⟩ := hc.exists_of_lt hlt
      have hcomp := List.mem_filter.mpr ⟨hmem, (hc.isRecursive_iff hrange hmem hv).mpr hvv⟩
      refine ⟨comp, hcomp, (eq_cycleOf_of_mem hrange (hc.groupOf_mem_cycles hg hcomp) ?_).1.symm⟩
      exact (hc.perm_groupOf hg hcomp).mem_iff.mp hv

/-- The node of the actions is a component of its own, and does not call itself. -/
theorem main_mem (hc : g.Components comps) (hg : ofProgram p = .ok g) :
    [0] ∈ comps ∧ g.isRecursive [0] = false := by
  have hlt : 0 < g.nodes.length := by simp [nodes_ofProgram hg]
  obtain ⟨comp, hcomp, hmain⟩ := hc.exists_of_lt hlt
  have hsingle : comp = [0] := hc.eq_singleton hcomp hmain fun u hu => by
    obtain ⟨_, hlinked⟩ := (hc.linked comp hcomp 0 hmain u (hc.lt_of_mem hcomp hu)).mp hu
    exact ((Relation.reflTransGen_iff_eq_or_transGen.mp hlinked).resolve_right
      (not_transGen_main hg)).symm
  refine ⟨hsingle ▸ hcomp, Bool.eq_false_iff.mpr fun hrec => ?_⟩
  refine not_transGen_main hg ((hc.isRecursive_iff (inRange_ofProgram hg) (hsingle ▸ hcomp) ?_).mp hrec)
  exact List.mem_singleton.mpr rfl

end Components

end CallGraph

end BlockRobot
