/-
Where the Operating Points of a manager come from: no operation puts an
Operating Point into a state that was not there and that it was not given.
-/
import Margot.Runtime.Optimality
import Margot.Runtime.AddConstraint
import Margot.Runtime.Asrtm

namespace Margot

variable {g : Geometry} {P : Type}

/-- Every Operating Point of the stream is one of those given. -/
def From (known : Set (OperatingPointPtr g)) (ops : OPStream g) : Prop :=
  ∀ op ∈ ops, op ∈ known

theorem from_nil {known : Set (OperatingPointPtr g)} : From known [] :=
  fun _ hop => absurd hop List.not_mem_nil

namespace Constraint

variable {known : Set (OperatingPointPtr g)} {c : Constraint g}

/-- The Operating Points of the constraint are among those given. -/
structure Within (known : Set (OperatingPointPtr g)) (c : Constraint g) :
    Prop where
  view : From known c.knowledgeView.elems
  blocked : From known c.blockedOps.elems

/-- The same view, and blocked Operating Points that are given. -/
theorem Within.of_view (hwithin : c.Within known) {other : Constraint g}
    (hview : other.knowledgeView.elems = c.knowledgeView.elems)
    (hblocked : From known other.blockedOps.elems) : other.Within known where
  view := fun op hop => hwithin.view op (hview ▸ hop)
  blocked := hblocked

theorem within_filterAdd (hwithin : c.Within known) {input : OPStream g}
    (hinput : From known input) :
    (c.filterAdd input).1.Within known ∧ From known (c.filterAdd input).2 := by
  refine ⟨hwithin.of_view rfl fun op hop => ?_,
    fun op hop => hinput op (List.mem_of_mem_filter hop)⟩
  rcases mem_blockedOps_filterAdd.mp hop with hop | ⟨hop, -⟩
  · exact hwithin.blocked op hop
  · exact hinput op hop

theorem within_filterInitialize (hwithin : c.Within known) {input : OPStream g}
    (hinput : From known input) :
    (c.filterInitialize input).1.Within known ∧
      From known (c.filterInitialize input).2 := by
  refine ⟨hwithin.of_view rfl (within_filterAdd hwithin hinput).1.blocked,
    fun op hop => hinput op (List.mem_of_mem_filter hop)⟩

theorem filterRemove_subset (c : Constraint g) (input : OPStream g) :
    (c.filterRemove input).2 ⊆ input := by
  induction input generalizing c with
  | nil => exact List.Subset.refl _
  | cons op rest ih =>
      rw [filterRemove]
      split
      · exact List.subset_cons_of_subset op (ih _)
      · exact List.cons_subset_cons op (ih c)

theorem within_filterRemove (hwithin : c.Within known) {input : OPStream g}
    (hinput : From known input) :
    (c.filterRemove input).1.Within known ∧
      From known (c.filterRemove input).2 := by
  refine ⟨hwithin.of_view (view_eq_of_clear (clear_filterRemove c input))
    fun op hop => ?_, fun op hop => hinput op (c.filterRemove_subset input hop)⟩
  exact hwithin.blocked op (mem_blockedOps_filterRemove.mp hop).1

theorem within_release (hwithin : c.Within known) (goalValue : ℚ)
    {stream : OPStream g} (hstream : From known stream) :
    (c.release goalValue stream).1.Within known ∧
      From known (c.release goalValue stream).2 := by
  induction stream generalizing c with
  | nil => exact ⟨hwithin, from_nil⟩
  | cons op rest ih =>
      obtain ⟨hop, hrest⟩ := List.forall_mem_cons.mp hstream
      rw [release]
      split
      · have herased : { c with
            blockedOps := c.blockedOps.erase op }.Within known :=
          hwithin.of_view rfl fun other hother =>
            hwithin.blocked other (UnorderedSet.mem_erase.mp hother).2
        obtain ⟨hreleased, hout⟩ := ih herased hrest
        exact ⟨hreleased, List.forall_mem_cons.mpr ⟨hop, hout⟩⟩
      · exact ih hwithin hrest

theorem within_update (hwithin : c.Within known)
    (runtime : RuntimeInformation) :
    (c.update runtime).1.Within known ∧
      From known (c.update runtime).2.1 ∧
      From known (c.update runtime).2.2 := by
  have hslice : ∀ a b, From known (c.viewRange a b) := fun a b op hop =>
    hwithin.view op ((c.viewRange_sublist a b).subset hop)
  rw [update]
  split
  · exact ⟨hwithin, from_nil, from_nil⟩
  · split
    · exact ⟨hwithin.of_view rfl hwithin.blocked,
        fun op hop => hslice _ _ op (List.mem_of_mem_filter hop),
        from_nil⟩
    · obtain ⟨hreleased, hout⟩ := within_release hwithin
        (c.finalGoalValue runtime) (hslice _ _)
      exact ⟨hreleased.of_view rfl hreleased.blocked, from_nil, hout⟩

theorem narrow_subset (c : Constraint g) (ops : OPStream g) :
    c.narrow ops ⊆ ops := by
  intro op hop
  exact ((c.mem_narrow ops op).mp hop).1

theorem getClosest_subset [HashOrder (OperatingPointPtr g)]
    (c : Constraint g) : c.getClosest ⊆ c.blockedOps.elems := by
  intro op hop
  rw [getClosest] at hop
  cases hiterate : c.blockedOps.iterate with
  | nil => simp [hiterate] at hop
  | cons head rest =>
      rw [hiterate] at hop
      have hfound := (closestIn_singleton c head).foldl rest
      have hmem := ((hfound.mem_iff op).mp hop).1
      rw [List.singleton_append, ← hiterate] at hmem
      exact UnorderedSet.mem_iterate.mp hmem

end Constraint

section Entries

variable {known : Set (OperatingPointPtr g)}

/-- The Operating Points of all the constraints are among those given. -/
def EntriesWithin (known : Set (OperatingPointPtr g))
    (entries : List (P × Constraint g)) : Prop :=
  ∀ entry ∈ entries, entry.2.Within known

/-- A walk along the constraints that hands on Operating Points. -/
theorem within_accumulateList {range : P → Bool}
    {visit : Constraint g → OPStream g → Constraint g × OPStream g}
    (hvisit : ∀ (c : Constraint g) (ops : OPStream g), c.Within known →
      From known ops → (visit c ops).1.Within known ∧ From known (visit c ops).2)
    {entries : List (P × Constraint g)} {ops : OPStream g}
    (hentries : EntriesWithin known entries) (hops : From known ops) :
    EntriesWithin known (OrderedMap.accumulateList range visit entries ops).1 ∧
      From known (OrderedMap.accumulateList range visit entries ops).2 := by
  induction entries generalizing ops with
  | nil => exact ⟨hentries, hops⟩
  | cons entry rest ih =>
      obtain ⟨hfirst, hrest⟩ := List.forall_mem_cons.mp hentries
      rw [OrderedMap.accumulateList]
      split
      · obtain ⟨hvisited, hout⟩ := hvisit entry.2 ops hfirst hops
        obtain ⟨hothers, hlast⟩ := ih hrest hout
        exact ⟨List.forall_mem_cons.mpr ⟨hvisited, hothers⟩, hlast⟩
      · obtain ⟨hothers, hlast⟩ := ih hrest hops
        exact ⟨List.forall_mem_cons.mpr ⟨hfirst, hothers⟩, hlast⟩

variable [LinearOrder P]

theorem within_mapValues (change : Constraint g → Constraint g)
    {constraints : OrderedMap P (Constraint g)}
    (hchange : ∀ c : Constraint g, c.Within known → (change c).Within known)
    (hentries : EntriesWithin known constraints.entries) :
    EntriesWithin known (constraints.mapValues change).entries := by
  intro entry hentry
  obtain ⟨other, hother, rfl⟩ := List.mem_map.mp hentry
  exact hchange other.2 (hentries other hother)

theorem within_insert {constraints : OrderedMap P (Constraint g)}
    {c : Constraint g} (hentries : EntriesWithin known constraints.entries)
    (hc : c.Within known) (priority : P) :
    EntriesWithin known (constraints.insert priority c).entries := by
  intro entry hentry
  simp only [OrderedMap.insert, List.mem_append, List.mem_cons] at hentry
  rcases hentry with hentry | rfl | hentry
  · exact hentries entry (OrderedMap.mem_before.mp hentry).1
  · exact hc
  · exact hentries entry (OrderedMap.mem_upperBound.mp hentry).1

end Entries

namespace State

variable [LinearOrder P] {known : Set (OperatingPointPtr g)} {s : State g P}

/-- The Operating Points of the state are among those given; what was found
before the problem changed is not looked at any more. -/
structure Within (known : Set (OperatingPointPtr g)) (s : State g P) :
    Prop where
  constraints : EntriesWithin known s.constraints.entries
  rank : From known s.rank.toStream
  found : s.problemIsChanged = false →
    ∀ op, s.bestOperatingPointFound = some op → op ∈ known

theorem found_of_changed {p : Prop} (hchanged : s.problemIsChanged = true) :
    s.problemIsChanged = false → p :=
  fun hsame => Bool.noConfusion (hchanged.symm.trans hsame)

theorem Within.of_subset {others : Set (OperatingPointPtr g)}
    (hwithin : s.Within known) (hsubset : known ⊆ others) :
    s.Within others where
  constraints := fun entry hentry =>
    ⟨fun op hop => hsubset ((hwithin.constraints entry hentry).view op hop),
      fun op hop => hsubset ((hwithin.constraints entry hentry).blocked op hop)⟩
  rank := fun op hop => hsubset (hwithin.rank op hop)
  found := fun hflag op hop => hsubset (hwithin.found hflag op hop)

theorem from_add {rank : Rank g} {ops : OPStream g}
    (hrank : From known rank.toStream) (hops : From known ops) :
    From known (rank.add ops).toStream := by
  intro op hop
  rcases List.mem_append.mp ((Rank.toStream_add_perm rank ops).mem_iff.mp hop)
    with hop | hop
  · exact hrank op hop
  · exact hops op hop

theorem from_remove {rank : Rank g} (hrank : From known rank.toStream)
    (ops : OPStream g) : From known (rank.remove ops).toStream := by
  intro op hop
  have hdiff : op ∈ rank.sortedKnowledge.elems.diff ops :=
    MultiMap.elems_eraseAll rank.sortedKnowledge ops ▸ hop
  exact hrank op (List.diff_subset _ _ hdiff)

/-- New Operating Points that are handed down along the constraints. -/
theorem within_cascade (range : P → Bool)
    {constraints : OrderedMap P (Constraint g)} {ops : OPStream g}
    (hentries : EntriesWithin known constraints.entries)
    (hops : From known ops) :
    EntriesWithin known
        (constraints.accumulate range Constraint.filterAdd ops).1.entries ∧
      From known (constraints.accumulate range Constraint.filterAdd ops).2 :=
  within_accumulateList (fun _ _ hc => Constraint.within_filterAdd hc)
    hentries hops

theorem within_addOperatingPoints {newOps : OPStream g}
    (hwithin : s.Within known) (hnew : From known newOps) :
    (s.addOperatingPoints newOps).Within known := by
  have hviewed : EntriesWithin known (s.constraints.mapValues fun c =>
      newOps.foldl Constraint.add c).entries := by
    apply within_mapValues _ _ hwithin.constraints
    intro c hc
    rw [Constraint.foldl_add]
    refine ⟨fun op hop => ?_, hc.blocked⟩
    rcases MultiMap.mem_emplaceAll.mp hop with hop | hop
    · exact hc.view op hop
    · exact hnew op hop
  obtain ⟨hentries, hout⟩ := within_cascade (fun _ => true) hviewed hnew
  exact ⟨hentries, from_add hwithin.rank hout, found_of_changed rfl⟩

theorem within_removeOperatingPoints (hwithin : s.Within known)
    (ops : OPStream g) : (s.removeOperatingPoints ops).Within known := by
  refine ⟨within_mapValues _ ?_ hwithin.constraints,
    from_remove hwithin.rank ops, found_of_changed rfl⟩
  intro c hc
  obtain ⟨blocked, hfold, hblocked⟩ := Constraint.foldl_remove c ops
  rw [hfold]
  refine ⟨fun op hop => ?_, fun op hop => hc.blocked op ((hblocked op).mp hop).1⟩
  have hdiff : op ∈ c.knowledgeView.elems.diff ops :=
    MultiMap.elems_eraseAll c.knowledgeView ops ▸ hop
  exact hc.view op (List.diff_subset _ _ hdiff)

theorem within_setKnowledgeAdaptor (hwithin : s.Within known)
    (information : KnowledgeAdaptor g) :
    (s.setKnowledgeAdaptor information).Within known :=
  ⟨within_mapValues _ (fun _ hc => ⟨hc.view, hc.blocked⟩) hwithin.constraints,
    hwithin.rank, found_of_changed rfl⟩

theorem within_setRank (hwithin : s.Within known) (objective : RankObjective)
    (evaluate : OperatingPointPtr g → ℚ) :
    (s.setRank objective evaluate).Within known := by
  rw [setRank]
  split
  · exact ⟨hwithin.constraints, from_nil, hwithin.found⟩
  · exact ⟨hwithin.constraints, from_add from_nil hwithin.rank, found_of_changed rfl⟩

section Iteration

variable [HashOrder (OperatingPointPtr g)]

/-- New knowledge replaces whatever the state had. -/
theorem within_setKnowledgeBase (s : State g P) (kb : Knowledge g) :
    (s.setKnowledgeBase kb).Within kb.points := by
  have hstream : From kb.points kb.toStream :=
    fun op hop => Knowledge.mem_toStream.mp hop
  have hcleared : EntriesWithin kb.points (s.constraints.mapValues fun c =>
      (c.set kb).clear).entries := by
    intro entry hentry
    obtain ⟨other, -, rfl⟩ := List.mem_map.mp hentry
    refine ⟨fun op hop => ?_, from_nil⟩
    rcases MultiMap.mem_emplaceAll.mp hop with hop | hop
    · contradiction
    · exact hstream op hop
  obtain ⟨hentries, hout⟩ := within_cascade (fun _ => true) hcleared hstream
  exact ⟨hentries, from_add from_nil hout, found_of_changed rfl⟩

theorem within_removeConstraint (hwithin : s.Within known) (priority : P) :
    (s.removeConstraint priority).Within known := by
  rw [removeConstraint]
  split
  · exact hwithin
  · next c hfind =>
      have hc := hwithin.constraints _ (OrderedMap.find?_eq_some.mp hfind)
      have herase : ∀ {constraints : OrderedMap P (Constraint g)},
          EntriesWithin known constraints.entries →
          EntriesWithin known (constraints.erase priority).entries :=
        fun hentries entry hentry =>
          hentries entry (List.mem_of_mem_filter hentry)
      simp only
      split
      · exact ⟨herase hwithin.constraints, hwithin.rank, hwithin.found⟩
      · obtain ⟨hentries, hout⟩ := within_cascade
          (fun key => decide (priority < key)) hwithin.constraints
          (fun op hop => hc.blocked op (UnorderedSet.mem_iterate.mp hop))
        exact ⟨herase hentries, from_add hwithin.rank hout, found_of_changed rfl⟩

theorem from_availableFor (hwithin : s.Within known) (priority : P) :
    From known (s.availableFor priority) := by
  intro op hop
  rcases List.mem_append.mp hop with hop | hop
  · exact hwithin.rank op hop
  · obtain ⟨entry, hentry, hop⟩ := List.mem_flatMap.mp hop
    have hmem := (OrderedMap.mem_lowerBound.mp hentry).1
    exact (hwithin.constraints entry hmem).blocked op
      (UnorderedSet.mem_iterate.mp hop)

omit [HashOrder (OperatingPointPtr g)] in
theorem within_filterRemoveAt (priority : P)
    {found : OrderedMap P (Constraint g) × OPStream g}
    (hentries : EntriesWithin known found.1.entries)
    (hops : From known found.2) :
    EntriesWithin known (filterRemoveAt priority found).1.entries ∧
      From known (filterRemoveAt priority found).2 := by
  rw [filterRemoveAt]
  split
  · exact ⟨hentries, hops⟩
  · next c hfind =>
      have hc := hentries _ (OrderedMap.find?_eq_some.mp hfind)
      obtain ⟨hremoved, hout⟩ := Constraint.within_filterRemove hc hops
      exact ⟨within_insert hentries hremoved priority, hout⟩

omit [HashOrder (OperatingPointPtr g)] in
theorem within_removeFromLower {constraints : OrderedMap P (Constraint g)}
    (lower : List (P × Constraint g)) {ops : OPStream g}
    (hentries : EntriesWithin known constraints.entries)
    (hops : From known ops) :
    EntriesWithin known (removeFromLower constraints lower ops).1.entries ∧
      From known (removeFromLower constraints lower ops).2 := by
  cases lower with
  | nil => exact ⟨hentries, hops⟩
  | cons first rest =>
      have hfold : ∀ (visits : List (P × Constraint g))
          (found : OrderedMap P (Constraint g) × OPStream g),
          EntriesWithin known found.1.entries → From known found.2 →
          EntriesWithin known (visits.foldl (fun found _ =>
            filterRemoveAt first.1 found) found).1.entries ∧
          From known (visits.foldl (fun found _ =>
            filterRemoveAt first.1 found) found).2 := by
        intro visits
        induction visits with
        | nil => exact fun found hentries hops => ⟨hentries, hops⟩
        | cons visit visits ih =>
            intro found hentries hops
            obtain ⟨hnext, hout⟩ := within_filterRemoveAt first.1 hentries hops
            exact ih _ hnext hout
      exact hfold (first :: rest) (constraints, ops) hentries hops

theorem within_addConstraint (hwithin : s.Within known) {kb : Knowledge g}
    (hkb : kb.points ⊆ known) (information : KnowledgeAdaptor g)
    (runtime : RuntimeInformation) (targetField : OPField g) (sigma : Int)
    (goalValue : Goal) (priority : P) :
    (s.addConstraint kb information runtime targetField sigma goalValue
      priority).Within known := by
  have hnew : (newConstraint kb information runtime targetField sigma
      goalValue).Within known := by
    refine ⟨fun op hop => hkb ?_, from_nil⟩
    rcases MultiMap.mem_emplaceAll.mp hop with hop | hop
    · contradiction
    · exact Knowledge.mem_toStream.mp hop
  obtain ⟨hfiltered, hblocked⟩ := Constraint.within_filterInitialize hnew
    (from_availableFor hwithin priority)
  have hinserted := within_insert hwithin.constraints hfiltered priority
  rw [addConstraint, insertConstraint]
  simp only
  split
  · exact ⟨hinserted, hwithin.rank, hwithin.found⟩
  · obtain ⟨hentries, -⟩ := within_removeFromLower _ hinserted hblocked
    exact ⟨hentries, from_remove hwithin.rank _, found_of_changed rfl⟩

end Iteration

section Update

theorem within_invalidate {next : State g P} {priority : P} {ops : OPStream g}
    (hwithin : s.Within known) (hops : From known ops)
    (hnext : s.invalidate priority ops = some next) : next.Within known := by
  have hpruned : From known (s.prune priority ops) := by
    rw [prune_eq_filter]
    exact fun op hop => hops op (List.mem_of_mem_filter hop)
  rw [invalidate] at hnext
  simp only at hnext
  split at hnext
  · exact Option.some.inj hnext ▸ hwithin
  · split at hnext
    · exact Option.some.inj hnext ▸ hwithin
    · next c hfind =>
        have hc := hwithin.constraints _ (OrderedMap.find?_eq_some.mp hfind)
        obtain ⟨hblocked, -⟩ := Constraint.within_filterAdd hc hpruned
        split at hnext
        · obtain ⟨hentries, -⟩ := within_accumulateList
            (fun _ _ hc => Constraint.within_filterRemove hc)
            (within_insert hwithin.constraints hblocked priority) hpruned
          obtain rfl := Option.some.inj hnext
          exact ⟨hentries, from_remove hwithin.rank _, found_of_changed rfl⟩
        · contradiction

theorem within_validate (hwithin : s.Within known) (priority : P)
    {ops : OPStream g} (hops : From known ops) :
    (s.validate priority ops).Within known := by
  rw [validate]
  split
  · exact hwithin
  · obtain ⟨hentries, hout⟩ := within_cascade
      (fun key => decide (priority < key)) hwithin.constraints hops
    exact ⟨hentries, from_add hwithin.rank hout, found_of_changed rfl⟩

theorem within_updateStep {runtime : RuntimeInformation} {next : State g P}
    {priority : P} (hwithin : s.Within known)
    (hnext : updateStep runtime s priority = some next) :
    next.Within known := by
  rw [updateStep] at hnext
  split at hnext
  · exact Option.some.inj hnext ▸ hwithin
  · next c hfind =>
      have hc := hwithin.constraints _ (OrderedMap.find?_eq_some.mp hfind)
      obtain ⟨hupdated, hremoved, hadded⟩ := Constraint.within_update hc runtime
      obtain ⟨invalidated, hinvalidated, rfl⟩ := Option.map_eq_some_iff.mp hnext
      apply within_validate _ priority hadded
      apply within_invalidate _ hremoved hinvalidated
      exact ⟨within_insert hwithin.constraints hupdated priority,
        hwithin.rank, hwithin.found⟩

theorem within_runUpdate {runtime : RuntimeInformation} {next : State g P}
    (hwithin : s.Within known) (hnext : s.update runtime = some next) :
    next.Within known :=
  runFrom_kept (fun s => s.Within known)
    (fun _ _ _ hbefore hstep => within_updateStep hbefore hstep) hwithin hnext

end Update

section Solve

omit [LinearOrder P] in
theorem mem_of_bestOf {rank : Rank g} {ops : OPStream g}
    {op : OperatingPointPtr g} (hbest : rank.bestOf ops = some op) :
    op ∈ ops := by
  cases ops with
  | nil => contradiction
  | cons first rest =>
      obtain rfl := Option.some.inj hbest
      clear hbest
      induction rest generalizing first with
      | nil => exact List.mem_singleton.mpr rfl
      | cons next others ih =>
          have hfound := ih (rank.betterOf first next)
          rw [List.foldl_cons]
          rcases List.mem_cons.mp hfound with heq | hmem
          · rw [heq, Rank.betterOf]
            split <;> simp
          · exact List.mem_cons_of_mem _ (List.mem_cons_of_mem _ hmem)

omit [LinearOrder P] in
theorem mem_of_narrowDown {rank : Rank g} {lower : List (P × Constraint g)}
    {ops : OPStream g} {op : OperatingPointPtr g}
    (hfound : narrowDown rank ops lower = some op) : op ∈ ops := by
  induction lower generalizing ops with
  | nil => exact mem_of_bestOf hfound
  | cons entry rest ih =>
      rw [narrowDown] at hfound
      split at hfound
      · next only hnarrow =>
          obtain rfl := Option.some.inj hfound
          exact entry.2.narrow_subset ops (hnarrow ▸ List.mem_singleton.mpr rfl)
      · exact entry.2.narrow_subset ops (ih hfound)

omit [LinearOrder P] in
theorem mem_of_getBestFromStream {rank : Rank g}
    {lower : List (P × Constraint g)} {ops : OPStream g}
    {op : OperatingPointPtr g}
    (hfound : getBestFromStream rank ops lower = some op) : op ∈ ops := by
  unfold getBestFromStream at hfound
  split at hfound
  · exact Option.some.inj hfound ▸ List.mem_singleton.mpr rfl
  · exact mem_of_narrowDown hfound

variable [HashOrder (OperatingPointPtr g)]

omit [LinearOrder P] in
theorem mem_of_relaxConstraints {rank : Rank g}
    {higher lower : List (P × Constraint g)} {op : OperatingPointPtr g}
    (hfound : relaxConstraints rank higher lower = some op) :
    ∃ entry ∈ higher, op ∈ entry.2.blockedOps.elems := by
  induction higher generalizing lower with
  | nil => contradiction
  | cons entry rest ih =>
      rw [relaxConstraints] at hfound
      split at hfound
      · obtain ⟨other, hother, hop⟩ := ih hfound
        exact ⟨other, List.mem_cons_of_mem _ hother, hop⟩
      · have hop := mem_of_getBestFromStream hfound
        exact ⟨entry, List.mem_cons_self, entry.2.getClosest_subset hop⟩

theorem mem_of_solve {op : OperatingPointPtr g} (hwithin : s.Within known)
    (hsolve : s.solve = some op) : op ∈ known := by
  rw [solve] at hsolve
  split at hsolve
  · next bestOp hbest =>
      obtain rfl := Option.some.inj hsolve
      rw [Rank.best] at hbest
      split at hbest
      · exact hwithin.rank _ (MultiMap.mem_of_front? hbest)
      · exact hwithin.rank _ (MultiMap.mem_of_back? hbest)
  · obtain ⟨entry, hentry, hop⟩ := mem_of_relaxConstraints hsolve
    exact (hwithin.constraints entry (List.mem_reverse.mp hentry)).blocked op hop

/-- What a state finds is one of its Operating Points. -/
theorem within_getBestOperatingPoint {runtime : RuntimeInformation}
    {next : State g P} {found : Option (OperatingPointPtr g)}
    (hwithin : s.Within known)
    (hbest : s.getBestOperatingPoint runtime = some (next, found)) :
    next.Within known ∧ ∀ op, found = some op → op ∈ known := by
  obtain ⟨updated, hupdate, hsolved⟩ := Option.map_eq_some_iff.mp hbest
  have hupdated := within_runUpdate hwithin hupdate
  split at hsolved
  · obtain ⟨rfl, rfl⟩ := Prod.mk.inj hsolved
    have hfound : ∀ op, updated.solve = some op → op ∈ known :=
      fun op hop => mem_of_solve hupdated hop
    exact ⟨⟨hupdated.constraints, hupdated.rank, fun _ => hfound⟩, hfound⟩
  · next hflag =>
      obtain ⟨rfl, rfl⟩ := Prod.mk.inj hsolved
      exact ⟨hupdated, hupdated.found (Bool.eq_false_of_not_eq_true hflag)⟩

end Solve

end State

theorem Knowledge.points_addAll (kb : Knowledge g) (newOps : OPStream g) :
    (kb.addAll newOps).1.points = kb.points ∪ {op | op ∈ (kb.addAll newOps).2} := by
  ext op
  rw [mem_points, mem_def, (addAll_perm kb newOps).mem_iff, List.mem_append]
  exact Iff.rfl

theorem Knowledge.addAll_subset (kb : Knowledge g) (newOps : OPStream g) :
    (kb.addAll newOps).2 ⊆ newOps := by
  induction newOps generalizing kb with
  | nil => exact List.Subset.refl _
  | cons newOp rest ih =>
      rw [addAll, add]
      split
      · exact List.subset_cons_of_subset newOp (ih kb)
      · exact List.cons_subset_cons newOp (ih _)

theorem Knowledge.points_removeAll_subset (kb : Knowledge g)
    (confs : List (Vector ℚ g.numberOfSoftwareKnobs)) :
    (kb.removeAll confs).1.points ⊆ kb.points :=
  fun _ hop => (removeAll_perm kb confs).mem_iff.mpr
    (List.mem_append_right _ hop)

namespace Asrtm

variable {I : Type} [DecidableEq I] [LinearOrder P]
  {known : Set (OperatingPointPtr g)} {m next : Asrtm g I (State g P)}

/-- The knowledge, the states and the proposed configuration of the manager. -/
structure Within (known : Set (OperatingPointPtr g))
    (m : Asrtm g I (State g P)) : Prop where
  states : ∀ stateId s, m.applicationOptimizers.find? stateId = some s →
    s.Within known
  knowledge : m.knowledge.points ⊆ known
  proposed : ∀ op, m.proposedBestConfiguration = some op → op ∈ known

theorem Within.of_subset {others : Set (OperatingPointPtr g)}
    (hwithin : m.Within known) (hsubset : known ⊆ others) : m.Within others :=
  ⟨fun stateId s hfind => (hwithin.states stateId s hfind).of_subset hsubset,
    hwithin.knowledge.trans hsubset,
    fun op hop => hsubset (hwithin.proposed op hop)⟩

theorem states_onStates {change : State g P → State g P}
    {others : Set (OperatingPointPtr g)} (hwithin : m.Within known)
    (hchange : ∀ s : State g P, s.Within known → (change s).Within others) :
    ∀ stateId s, (m.onStates change).applicationOptimizers.find? stateId =
      some s → s.Within others := by
  intro stateId s hfind
  rw [onStates, UnorderedMap.find?_map] at hfind
  obtain ⟨old, hold, rfl⟩ := Option.map_eq_some_iff.mp hfind
  exact hchange old (hwithin.states stateId old hold)

theorem within_onActiveState {change : State g P → State g P}
    (hwithin : m.Within known)
    (hchange : ∀ s : State g P, s.Within known → (change s).Within known)
    (hnext : m.onActiveState change = some next) : next.Within known := by
  obtain ⟨active, -, rfl⟩ := Option.map_eq_some_iff.mp hnext
  refine ⟨fun stateId s hfind => ?_, hwithin.knowledge, hwithin.proposed⟩
  rw [UnorderedMap.find?_modify] at hfind
  split at hfind
  · obtain ⟨old, hold, rfl⟩ := Option.map_eq_some_iff.mp hfind
    exact hchange old (hwithin.states _ old hold)
  · rw [Option.map_id'] at hfind
    exact hwithin.states stateId s hfind

variable [HashOrder (OperatingPointPtr g)]

theorem within_createNewState (hwithin : m.Within known) (newStateId : I) :
    (m.createNewState newStateId).Within known := by
  rw [createNewState]
  split
  · exact hwithin
  · refine ⟨fun stateId s hfind => ?_, hwithin.knowledge, hwithin.proposed⟩
    rw [UnorderedMap.find?_emplace] at hfind
    split at hfind
    · obtain rfl := Option.some.inj hfind
      exact State.within_setKnowledgeAdaptor
        ((State.within_setKnowledgeBase _ _).of_subset hwithin.knowledge) _
    · exact hwithin.states stateId s hfind

/-- Stating the problems needs no Operating Points but those already there. -/
theorem within_runProblem {store after : Store g} {call : ProblemCall g I P}
    (hwithin : m.Within known)
    (hcall : m.runProblem store call = some (after, next)) :
    next.Within known := by
  cases call with
  | createNewState newStateId =>
      obtain ⟨-, rfl⟩ := Prod.mk.inj (Option.some.inj hcall)
      exact within_createNewState hwithin newStateId
  | removeState stateId =>
      obtain ⟨_, hnext, heq⟩ := Option.map_eq_some_iff.mp hcall
      obtain ⟨-, rfl⟩ := Prod.mk.inj heq
      rw [removeState] at hnext
      split at hnext
      · contradiction
      · obtain rfl := Option.some.inj hnext
        refine ⟨fun other s hfind => ?_, hwithin.knowledge, hwithin.proposed⟩
        rw [UnorderedMap.find?_erase] at hfind
        split at hfind
        · contradiction
        · exact hwithin.states other s hfind
  | changeActiveState stateId =>
      obtain ⟨_, hnext, heq⟩ := Option.map_eq_some_iff.mp hcall
      obtain ⟨-, rfl⟩ := Prod.mk.inj heq
      obtain ⟨found, -, rfl⟩ := Option.map_eq_some_iff.mp hnext
      exact ⟨hwithin.states, hwithin.knowledge, hwithin.proposed⟩
  | addRuntimeKnowledge targetField inertia monitor =>
      obtain ⟨-, rfl⟩ := Prod.mk.inj (Option.some.inj hcall)
      exact ⟨states_onStates hwithin fun s hs =>
        State.within_setKnowledgeAdaptor hs _, hwithin.knowledge,
        hwithin.proposed⟩
  | addConstraint targetField sigma goalValue priority =>
      obtain ⟨_, hnext, heq⟩ := Option.map_eq_some_iff.mp hcall
      obtain ⟨-, rfl⟩ := Prod.mk.inj heq
      exact within_onActiveState hwithin (fun s hs =>
        State.within_addConstraint hs hwithin.knowledge _ _ _ _ _ _) hnext
  | removeConstraint priority =>
      obtain ⟨_, hnext, heq⟩ := Option.map_eq_some_iff.mp hcall
      obtain ⟨-, rfl⟩ := Prod.mk.inj heq
      exact within_onActiveState hwithin (fun s hs =>
        State.within_removeConstraint hs priority) hnext
  | setRank objective evaluate =>
      obtain ⟨_, hnext, heq⟩ := Option.map_eq_some_iff.mp hcall
      obtain ⟨-, rfl⟩ := Prod.mk.inj heq
      exact within_onActiveState hwithin (fun s hs =>
        State.within_setRank hs objective evaluate) hnext

omit [HashOrder (OperatingPointPtr g)] in
theorem within_addOperatingPointPtrs (hwithin : m.Within known)
    (opList : OPStream g) :
    (m.addOperatingPointPtrs opList).Within (known ∪ {op | op ∈ opList}) := by
  have hnew : From (known ∪ {op | op ∈ opList}) (m.knowledge.addAll opList).2 :=
    fun op hop => .inr (Knowledge.addAll_subset _ _ hop)
  refine ⟨states_onStates hwithin fun s hs => ?_, ?_,
    fun op hop => .inl (hwithin.proposed op hop)⟩
  · exact State.within_addOperatingPoints
      (hs.of_subset Set.subset_union_left) hnew
  · intro op hop
    have hmem : op ∈ (m.knowledge.addAll opList).1.points := hop
    rw [Knowledge.points_addAll] at hmem
    rcases hmem with hmem | hmem
    · exact .inl (hwithin.knowledge hmem)
    · exact hnew op hmem

omit [HashOrder (OperatingPointPtr g)] in
/-- Only the newly allocated Operating Points are added. -/
theorem within_addOperatingPoints (hwithin : m.Within known) (store : Store g)
    (opList : List (OperatingPoint g)) :
    (m.addOperatingPoints store opList).2.Within
      (known ∪ {op | op ∈ (store.allocateOps opList).2}) :=
  within_addOperatingPointPtrs hwithin (store.allocateOps opList).2

omit [HashOrder (OperatingPointPtr g)] in
theorem within_removeOperatingPoints (hwithin : m.Within known)
    (confs : List (Vector ℚ g.numberOfSoftwareKnobs)) :
    (m.removeOperatingPoints confs).Within known :=
  ⟨states_onStates hwithin fun _ hs => State.within_removeOperatingPoints hs _,
    (Knowledge.points_removeAll_subset _ _).trans hwithin.knowledge,
    hwithin.proposed⟩

theorem within_findBestConfiguration {store after : Store g}
    (hwithin : m.Within known)
    (hfound : m.findBestConfiguration store = some (after, next)) :
    next.Within known := by
  rw [findBestConfiguration] at hfound
  obtain ⟨evaluated, -, hfound⟩ := Option.bind_eq_some_iff.mp hfound
  split at hfound
  · obtain ⟨-, rfl⟩ := Prod.mk.inj (Option.some.inj hfound)
    exact hwithin
  · next active _ =>
      obtain ⟨⟨solved, best⟩, hbind, heq⟩ := Option.map_eq_some_iff.mp hfound
      obtain ⟨s, hs, hbest⟩ := Option.bind_eq_some_iff.mp hbind
      obtain ⟨-, rfl⟩ := Prod.mk.inj heq
      obtain ⟨hsolved, hmem⟩ := State.within_getBestOperatingPoint
        (hwithin.states active s hs) hbest
      refine ⟨fun stateId other hfind => ?_, hwithin.knowledge, hmem⟩
      rw [UnorderedMap.find?_modify] at hfind
      split at hfind
      · obtain ⟨old, -, rfl⟩ := Option.map_eq_some_iff.mp hfind
        exact hsolved
      · rw [Option.map_id'] at hfind
        exact hwithin.states stateId other hfind

/-- A new model replaces whatever the manager had. -/
theorem within_setKnowledgeBase (m : Asrtm g I (State g P)) (store : Store g)
    (ops : List (OperatingPoint g)) :
    (m.setKnowledgeBase store ops).2.Within
      {op | op ∈ (store.allocateOps ops).2} := by
  have hpoints : (m.setKnowledgeBase store ops).2.knowledge.points ⊆
      {op | op ∈ (store.allocateOps ops).2} := by
    intro op hop
    have hmem : op ∈ (Knowledge.clear.addAll (store.allocateOps ops).2).1.points :=
      hop
    rw [Knowledge.points_addAll] at hmem
    rcases hmem with hmem | hmem
    · contradiction
    · exact Knowledge.addAll_subset _ _ hmem
  refine ⟨fun stateId s hfind => ?_, hpoints, fun _ => nofun⟩
  have hmapped := hfind
  rw [setKnowledgeBase, onStates] at hmapped
  simp only [UnorderedMap.find?_map] at hmapped
  obtain ⟨old, -, rfl⟩ := Option.map_eq_some_iff.mp hmapped
  exact (State.within_setKnowledgeBase old _).of_subset hpoints

end Asrtm

end Margot
