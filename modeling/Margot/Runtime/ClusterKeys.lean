/-
The keys of the clusters of a data-aware manager, and its active cluster, while
clusters are added, selected and removed.  The active cluster is found again by
its key after an insertion, and never after an erasure.
-/
import Margot.Runtime.DataAware

namespace Margot

variable {g : Geometry} {F I P : Type} [LinearOrder P]

inductive ClusterAction (F : Type) where
  | addFeatureCluster (key : F)
  | selectFeatureCluster (key : F)
  | removeFeatureCluster (key : F)

namespace DataAwareAsrtm

def keys (d : DataAwareAsrtm F g I P) : List F := d.managers.map Prod.fst

def active? (d : DataAwareAsrtm F g I P) : Option (F × Asrtm g I (State g P)) :=
  d.managers[d.activeManager]?

section Step

variable [LinearOrder F] [DecidableEq I] [HashOrder I]

omit [DecidableEq I] [HashOrder I] in
/-- `active_manager` is compared with itself, so that the key that is searched
at the end is always the removed one.  Erasing keeps the iterators of a deque
only at its beginning, if there are more elements. -/
def removeFeatureCluster (d : DataAwareAsrtm F g I P) (key : F) :
    Option (DataAwareAsrtm F g I P) :=
  let position := d.managers.findIdx fun manager => manager.1 = key
  if position = d.managers.length then some ⟨d.managers, position⟩
  else if position = d.activeManager then none
  else if position = 0 ∧ 1 < d.managers.length then
    let managers := d.managers.tail
    some ⟨managers, managers.findIdx fun manager => manager.1 = key⟩
  else none

def clusterStep (getClosest : F → F → F → Bool)
    (world : Store g × DataAwareAsrtm F g I P) :
    ClusterAction F → Option (Store g × DataAwareAsrtm F g I P)
  | .addFeatureCluster key => world.2.addFeatureCluster world.1 key
  | .selectFeatureCluster key =>
      (world.2.selectFeatureCluster getClosest key).map fun d => (world.1, d)
  | .removeFeatureCluster key =>
      (world.2.removeFeatureCluster key).map fun d => (world.1, d)

end Step

/-- What an action of the clusters is asked to keep: a cluster that is there is
not added again, and only the removed cluster goes. -/
def Keeps [LinearOrder F] (before after : DataAwareAsrtm F g I P) :
    ClusterAction F → Prop
  | .addFeatureCluster key => (key ∈ before.keys → after = before) ∧
      ∀ active ∈ before.active?, after.active? = some active
  | .selectFeatureCluster _ => True
  | .removeFeatureCluster key => after.active? = before.active? ∧
      after.managers = before.managers.filter fun manager => manager.1 ≠ key

/-- A cluster is selected when there is one, and the active one is not
removed. -/
def Permitted (world : Store g × DataAwareAsrtm F g I P) :
    ClusterAction F → Prop
  | .addFeatureCluster _ => True
  | .selectFeatureCluster _ => world.2.managers ≠ []
  | .removeFeatureCluster key => ∀ active ∈ world.2.active?, active.1 ≠ key

/-- Only new keys are added, and nothing is removed from the clusters. -/
def Harmless (world : Store g × DataAwareAsrtm F g I P) :
    ClusterAction F → Prop
  | .addFeatureCluster key => key ∉ world.2.keys
  | .selectFeatureCluster _ => True
  | .removeFeatureCluster _ => world.2.managers = []

section Managed

variable [LinearOrder F] [DecidableEq I] [HashOrder I]

/-- The action is done, and keeps what it is asked to. -/
def Managed (getClosest : F → F → F → Bool)
    (world : Store g × DataAwareAsrtm F g I P) (action : ClusterAction F) :
    Prop :=
  ∃ after, clusterStep getClosest world action = some after ∧
    after.2.keys.Nodup ∧ Keeps world.2 after.2 action

end Managed

/-- The keys are distinct, and one of the clusters is active if there are
any. -/
structure Located (d : DataAwareAsrtm F g I P) : Prop where
  distinct : d.keys.Nodup
  active : d.managers ≠ [] → d.activeManager < d.managers.length
  none : d.managers = [] → d.activeManager = 0

section Located

variable {d next : DataAwareAsrtm F g I P} {key : F}

theorem located_new : (new : DataAwareAsrtm F g I P).Located :=
  ⟨List.nodup_nil, fun hsome => absurd rfl hsome, fun _ => rfl⟩

theorem Located.exists_active (hlocated : d.Located)
    (hsome : d.managers ≠ []) : ∃ active, d.active? = some active :=
  ⟨_, List.getElem?_eq_getElem (hlocated.active hsome)⟩

theorem closest_lt (getClosest : F → F → F → Bool) (key : F)
    (managers : List (F × Asrtm g I (State g P))) (hsome : managers ≠ [])
    (first : F) : closest getClosest key managers first < managers.length := by
  have hloop : ∀ (targets : List ((F × Asrtm g I (State g P)) × Nat))
      (best : F × Nat), best.2 < managers.length →
      (∀ target ∈ targets, target.2 < managers.length) →
      (targets.foldl (fun best target =>
        if getClosest key best.1 target.1.1 then (target.1.1, target.2)
        else best) best).2 < managers.length := by
    intro targets
    induction targets with
    | nil => exact fun best hbest _ => hbest
    | cons target rest ih =>
        intro best hbest htargets
        rw [List.forall_mem_cons] at htargets
        rw [List.foldl_cons]
        split
        · exact ih _ htargets.1 htargets.2
        · exact ih _ hbest htargets.2
  apply hloop
  · exact List.length_pos_iff.mpr hsome
  · intro target htarget
    have hmem := List.mem_of_mem_drop htarget
    exact (List.mem_zipIdx' hmem).1

/-- A selection changes neither the keys nor what is located. -/
theorem exists_selectFeatureCluster (hlocated : d.Located)
    (getClosest : F → F → F → Bool) (key : F) (hsome : d.managers ≠ []) :
    ∃ next, d.selectFeatureCluster getClosest key = some next ∧
      next.Located := by
  cases hmanagers : d.managers with
  | nil => exact absurd hmanagers hsome
  | cons first rest =>
      have hlt := closest_lt getClosest key d.managers hsome first.1
      have hselect : ∃ next, d.selectFeatureCluster getClosest key = some next := by
        rw [selectFeatureCluster, hmanagers]
        exact ⟨_, rfl⟩
      obtain ⟨next, hnext⟩ := hselect
      refine ⟨next, hnext, ?_⟩
      have hkeys := keys_of_selectFeatureCluster hnext
      rw [selectFeatureCluster, hmanagers] at hnext
      rw [hmanagers] at hlt
      injection hnext with hnext
      refine ⟨?_, fun _ => ?_, fun hnone => ?_⟩
      · rw [keys, hkeys]
        exact hlocated.distinct
      all_goals subst hnext
      · dsimp only
        split
        · rw [List.length_modify]
          exact hlt
        · exact hlt
      · have hlength := congrArg List.length hnone
        dsimp only at hlength
        split at hlength
        · rw [List.length_modify] at hlength
          contradiction
        · contradiction

variable [LinearOrder F]

/-- With distinct keys a cluster is found by its key. -/
theorem findIdx_key {managers : List (F × Asrtm g I (State g P))}
    (hdistinct : (managers.map Prod.fst).Nodup) {position : Nat}
    {manager : F × Asrtm g I (State g P)}
    (hmanager : managers[position]? = some manager)
    (others : List (F × Asrtm g I (State g P))) :
    (managers ++ others).findIdx (fun other => other.1 = manager.1) =
      position := by
  obtain ⟨hbound, rfl⟩ := List.getElem?_eq_some_iff.mp hmanager
  have hfind : managers.findIdx (fun other => other.1 = managers[position].1) =
      position := by
    rw [List.findIdx_eq hbound]
    refine ⟨decide_eq_true rfl, fun before hbefore => ?_⟩
    apply decide_eq_false
    intro hsame
    have hne := List.pairwise_iff_getElem.mp hdistinct before position
      (by simp; omega) (by simpa using hbound) hbefore
    rw [List.getElem_map, List.getElem_map] at hne
    exact hne hsame
  rw [List.findIdx_append, hfind, if_pos hbound]

section Adding

variable [DecidableEq I] [HashOrder I]

/-- A new cluster is the last one, and the active one stays. -/
theorem exists_addFeatureCluster (hlocated : d.Located) (store : Store g)
    (key : F) :
    ∃ after manager, d.addFeatureCluster store key =
      some (after, ⟨d.managers ++ [(key, manager)], d.activeManager⟩) := by
  cases hmanagers : d.managers with
  | nil =>
      refine ⟨store, Asrtm.new, ?_⟩
      rw [addFeatureCluster, hmanagers, hlocated.none hmanagers]
      rfl
  | cons first rest =>
      have hsome : d.managers ≠ [] := by
        rw [hmanagers]
        exact List.cons_ne_nil first rest
      obtain ⟨actual, hactual⟩ := hlocated.exists_active hsome
      have hfound := findIdx_key hlocated.distinct hactual
        [(key, (first.2.createSibling store).2.copy)]
      rw [hmanagers] at hfound
      rw [active?, hmanagers] at hactual
      refine ⟨(first.2.createSibling store).1,
        (first.2.createSibling store).2.copy, ?_⟩
      rw [addFeatureCluster, hmanagers]
      simp only [hactual, Option.map_some, hfound]

end Adding

/-- After a removal no cluster is active. -/
theorem active?_removeFeatureCluster (hlocated : d.Located)
    (hremove : d.removeFeatureCluster key = some next) :
    next.active? = none := by
  rw [removeFeatureCluster] at hremove
  split at hremove
  · next hposition =>
      obtain rfl := Option.some.inj hremove
      exact List.getElem?_eq_none hposition.ge
  · split at hremove
    · contradiction
    · split at hremove
      · next hfirst =>
          obtain rfl := Option.some.inj hremove
          cases hmanagers : d.managers with
          | nil => simp [hmanagers] at hfirst
          | cons first rest =>
              have hkey : first.1 = key := by
                have hzero := hfirst.1
                rw [hmanagers, List.findIdx_eq (by simp)] at hzero
                exact of_decide_eq_true hzero.1
              have hdistinct := hlocated.distinct
              rw [keys, hmanagers, List.map_cons, List.nodup_cons] at hdistinct
              have hnone : rest.findIdx (fun manager => manager.1 = key) =
                  rest.length := by
                rw [List.findIdx_eq_length]
                intro manager hmanager
                apply decide_eq_false
                intro hsame
                apply hdistinct.1
                rw [hkey, ← hsame]
                exact List.mem_map_of_mem hmanager
              exact List.getElem?_eq_none hnone.ge
      · contradiction

end Located

section Managed

variable [LinearOrder F] [DecidableEq I] [HashOrder I]
  {getClosest : F → F → F → Bool}
  {before after : Store g × DataAwareAsrtm F g I P} {action : ClusterAction F}

theorem located_clusterStep (hlocated : before.2.Located)
    (hharmless : Harmless before action)
    (hstep : clusterStep getClosest before action = some after) :
    after.2.Located := by
  cases action with
  | addFeatureCluster key =>
      obtain ⟨store, manager, hadd⟩ :=
        exists_addFeatureCluster hlocated before.1 key
      obtain rfl := Option.some.inj (hadd.symm.trans hstep)
      refine ⟨?_, fun _ => ?_, fun hnone => ?_⟩
      · rw [keys, List.map_append, List.map_singleton, List.nodup_append_comm]
        exact List.nodup_cons.mpr ⟨hharmless, hlocated.distinct⟩
      · dsimp only
        rw [List.length_append, List.length_singleton]
        by_cases hnone : before.2.managers = []
        · rw [hlocated.none hnone]
          omega
        · have hactive := hlocated.active hnone
          omega
      · simp at hnone
  | selectFeatureCluster key =>
      obtain ⟨next, hselect, rfl⟩ := Option.map_eq_some_iff.mp hstep
      by_cases hnone : before.2.managers = []
      · rw [selectFeatureCluster, hnone] at hselect
        contradiction
      · obtain ⟨other, hother, hlocated⟩ :=
          exists_selectFeatureCluster hlocated getClosest key hnone
        obtain rfl := Option.some.inj (hother.symm.trans hselect)
        exact hlocated
  | removeFeatureCluster key =>
      obtain ⟨next, hremove, rfl⟩ := Option.map_eq_some_iff.mp hstep
      have hnone : before.2.managers = [] := hharmless
      rw [removeFeatureCluster, hnone] at hremove
      obtain rfl := Option.some.inj hremove
      exact located_new

/-- An action that is not permitted is not defined. -/
theorem permitted_of_clusterStep (hlocated : before.2.Located)
    (hstep : clusterStep getClosest before action = some after) :
    Permitted before action := by
  cases action with
  | addFeatureCluster key => trivial
  | selectFeatureCluster key =>
      obtain ⟨next, hselect, -⟩ := Option.map_eq_some_iff.mp hstep
      intro hnone
      rw [selectFeatureCluster, hnone] at hselect
      contradiction
  | removeFeatureCluster key =>
      obtain ⟨next, hremove, -⟩ := Option.map_eq_some_iff.mp hstep
      rintro active hactive rfl
      obtain ⟨hbound, -⟩ := List.getElem?_eq_some_iff.mp hactive
      have hfound := findIdx_key hlocated.distinct hactive []
      rw [List.append_nil] at hfound
      rw [removeFeatureCluster, hfound, if_neg hbound.ne, if_pos rfl]
        at hremove
      contradiction

/-- An action is managed exactly when it is harmless. -/
theorem managed_iff (hlocated : before.2.Located)
    (hpermitted : Permitted before action) :
    Managed getClosest before action ↔ Harmless before action := by
  cases action with
  | addFeatureCluster key =>
      obtain ⟨store, manager, hadd⟩ :=
        exists_addFeatureCluster hlocated before.1 key
      constructor
      · rintro ⟨after, hstep, hdistinct, -⟩
        obtain rfl := Option.some.inj (hadd.symm.trans hstep)
        rw [keys, List.map_append, List.map_singleton, List.nodup_append_comm]
          at hdistinct
        exact (List.nodup_cons.mp hdistinct).1
      · intro hnew
        have hstep : clusterStep getClosest before (.addFeatureCluster key) =
            some _ := hadd
        have hafter := located_clusterStep hlocated hnew hstep
        refine ⟨_, hadd, hafter.distinct, fun hold => absurd hold hnew, ?_⟩
        intro active hactive
        obtain ⟨hbound, -⟩ := List.getElem?_eq_some_iff.mp hactive
        rw [active?, List.getElem?_append_left hbound]
        exact hactive
  | selectFeatureCluster key =>
      refine iff_of_true ?_ trivial
      obtain ⟨next, hselect, hnext⟩ :=
        exists_selectFeatureCluster hlocated getClosest key hpermitted
      exact ⟨(before.1, next), congrArg (Option.map _) hselect, hnext.distinct,
        trivial⟩
  | removeFeatureCluster key =>
      constructor
      · rintro ⟨after, hstep, -, hactive, -⟩
        obtain ⟨next, hremove, rfl⟩ := Option.map_eq_some_iff.mp hstep
        rw [active?_removeFeatureCluster hlocated hremove] at hactive
        by_contra hsome
        obtain ⟨active, hfound⟩ := hlocated.exists_active hsome
        rw [hfound] at hactive
        contradiction
      · intro hnone
        have hnone : before.2.managers = [] := hnone
        refine ⟨(before.1, new), ?_, List.nodup_nil, ?_, ?_⟩
        · rw [clusterStep, removeFeatureCluster, hnone]
          rfl
        · have hactive : before.2.active? = none := by
            rw [active?, hnone]
            rfl
          rw [hactive]
          rfl
        · rw [hnone]
          rfl

/-- The clusters are managed along a run exactly when only new keys are added,
and nothing is removed from them. -/
theorem managed_allAsked_iff (getClosest : F → F → F → Bool) (store : Store g)
    (actions : List (ClusterAction F)) :
    AllAsked (clusterStep (I := I) (P := P) getClosest)
      (fun world action => Permitted world action →
        Managed getClosest world action) (store, new) actions ↔
    AllAsked (clusterStep getClosest)
      (fun world action => Permitted world action → Harmless world action)
      (store, (new : DataAwareAsrtm F g I P)) actions := by
  apply allAsked_congr fun world : Store g × DataAwareAsrtm F g I P =>
    world.2.Located
  · intro before action after hlocated hmanaged hstep
    have hpermitted := permitted_of_clusterStep hlocated hstep
    exact located_clusterStep hlocated
      ((managed_iff hlocated hpermitted).mp (hmanaged hpermitted)) hstep
  · intro before action hlocated
    exact imp_congr_right fun hpermitted => managed_iff hlocated hpermitted
  · exact located_new

end Managed

section Repeated

/-- The only cluster. -/
def lonely : Store Geometry.single × DataAwareAsrtm Nat Geometry.single Nat Nat :=
  (Store.initial, ⟨[(5, Asrtm.new)], 0⟩)

/-- The key that is added has a cluster. -/
theorem not_managed_repeated :
    ¬ ∀ actions : List (ClusterAction Nat),
      AllAsked (clusterStep fun _ _ _ => false)
        (fun world action => Permitted world action →
          Managed (fun _ _ _ => false) world action)
        (Store.initial, (new : DataAwareAsrtm Nat Geometry.single Nat Nat))
        actions := by
  intro hall
  have hlocated : lonely.2.Located :=
    ⟨List.nodup_singleton 5, fun _ => Nat.one_pos, fun _ => rfl⟩
  have hpermitted : Permitted lonely (.addFeatureCluster 5) := trivial
  have hmanaged := hall [.addFeatureCluster 5, .addFeatureCluster 5]
    [.addFeatureCluster 5] (.addFeatureCluster 5) lonely List.prefix_rfl rfl
    hpermitted
  have hnew : 5 ∉ lonely.2.keys := (managed_iff hlocated hpermitted).mp hmanaged
  exact hnew List.mem_cons_self

end Repeated

end DataAwareAsrtm

end Margot
