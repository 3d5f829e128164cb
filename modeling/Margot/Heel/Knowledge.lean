/-
The generated code that adds the application knowledge.  The Operating Points
are sorted by the text of their features, and a group is closed and the next one
opened where that text changes.
-/
import Margot.Heel.ParsedBlock
import Margot.Library.Grouping

namespace Margot.Heel

section Generator

/-- `join` of texts. -/
def joinWith (separator : String) (texts : List Text) : Text :=
  separator.toList.intercalate texts

/-- The text of the features of an Operating Point. -/
def str (features : List OperatingPointValue) : Text :=
  joinWith "," (features.map (·.mean))

/-- The lines of the function.  An Operating Point takes several lines. -/
inductive Line where
  | addFeatureCluster (cluster : Text)
  | selectFeatureCluster (cluster : Text)
  | addOperatingPoints
  | operatingPoint (op : OperatingPointModel)
  | close
deriving Repr, DecidableEq

/-- The cluster that was selected last, and whether nothing was emitted yet. -/
structure Emission where
  currentCluster : Text
  firstIteration : Bool

/-- The lines for one Operating Point. -/
def emitPoint (isWithFeatures : Bool) (state : Emission)
    (op : OperatingPointModel) : List Line × Emission :=
  let isFeatureClusterDifferent : Bool :=
    str op.features ≠ state.currentCluster
  let needToGenerateChangeCluster :=
    isWithFeatures && isFeatureClusterDifferent
  let needToGenerateAddOpBegin :=
    state.firstIteration || isFeatureClusterDifferent
  let needToGenerateAddOpEnd :=
    isFeatureClusterDifferent && isWithFeatures && !state.firstIteration
  let currentCluster :=
    if isFeatureClusterDifferent then str op.features else state.currentCluster
  ((if needToGenerateAddOpEnd then [.close] else []) ++
    ((if needToGenerateChangeCluster then
        [.addFeatureCluster currentCluster,
          .selectFeatureCluster currentCluster]
      else []) ++
    ((if needToGenerateAddOpBegin then [.addOperatingPoints] else []) ++
      [.operatingPoint op])),
    ⟨currentCluster, false⟩)

def emitPoints (isWithFeatures : Bool) :
    Emission → List OperatingPointModel → List Line
  | _, [] => []
  | state, op :: rest =>
      (emitPoint isWithFeatures state op).1 ++
        emitPoints isWithFeatures (emitPoint isWithFeatures state op).2 rest

/-- The body of the function of a block. -/
def knowledgeLines (sorter : NameSort) (block : BlockModel) : List Line :=
  let ops := sorter.sort (fun op => str op.features) block.ops
  let isWithFeatures := !block.features.fields.isEmpty
  let isWithKnowledge := !ops.isEmpty
  if isWithFeatures && !isWithKnowledge then
    let fakeCluster :=
      joinWith "," (block.features.fields.map fun _ => "1".toList)
    [.addFeatureCluster fakeCluster, .selectFeatureCluster fakeCluster]
  else if isWithKnowledge then
    emitPoints isWithFeatures ⟨[], true⟩ ops ++ [.close]
  else []

/-- The first knobs with their values, in order. -/
def knobArguments (block : BlockModel) (op : OperatingPointModel) :
    List Text :=
  List.zipWith (fun knob value =>
    if knob.type ≠ "string".toList then value.mean
    else "margot::".toList ++ block.name ++ "::knob_".toList ++ knob.name ++
      "_to_val(\"".toList ++ value.mean ++ "\")".toList) block.knobs op.knobs

/-- One metric of the block is a distribution, and then all of them are written
as one. -/
def metricIsDistribution (block : BlockModel) : Bool :=
  block.metrics.any (·.distribution)

/-- The arguments of the initialiser of a metric. -/
def metricInitialiser (block : BlockModel) (metric : MetricModel)
    (value : OperatingPointValue) : List Text :=
  if metricIsDistribution block then
    [value.mean,
      if !metric.distribution && metricIsDistribution block then "0".toList
      else value.standardDeviation]
  else [value.mean]

def metricArgument (block : BlockModel) (arguments : List Text) : Text :=
  if metricIsDistribution block then
    "margot::".toList ++ block.name ++ "::metrics_type(".toList ++
      joinWith "," arguments ++ ")".toList
  else joinWith "," arguments

def metricArguments (block : BlockModel) (op : OperatingPointModel) :
    List Text :=
  (List.zipWith (metricInitialiser block) block.metrics op.metrics).map
    (metricArgument block)

/-- The text of a line. -/
def Line.text (block : BlockModel) : Line → Text
  | .addFeatureCluster cluster =>
      "\tmanager.add_feature_cluster(\x7b\x7b".toList ++ cluster ++
        "\x7d\x7d);\n".toList
  | .selectFeatureCluster cluster =>
      "\tmanager.select_feature_cluster(\x7b\x7b".toList ++ cluster ++
        "\x7d\x7d);\n".toList
  | .addOperatingPoints =>
      "\tmanager.add_operating_points(std::vector<margot::".toList ++
        block.name ++ "::operating_point_type>(\x7b\n".toList
  | .operatingPoint op =>
      "\t\t\x7b // new operating point\n".toList ++
        "\t\t\t\x7b // software knobs \n\t\t\t\t".toList ++
        joinWith ", " (knobArguments block op) ++ "\n\t\t\t\x7d,\n".toList ++
        "\t\t\t\x7b // extra-functional properties \n\t\t\t\t".toList ++
        joinWith ", " (metricArguments block op) ++ "\n\t\t\t\x7d\n".toList ++
        "\t\t\x7d,\n".toList
  | .close => "\t\x7d));\n".toList

/-- `knowledge_cpp_content` of a block, which has no function without knobs. -/
def knowledgeCppContent (sorter : NameSort) (block : BlockModel) : Text :=
  if block.knobs.isEmpty then []
  else "void margot::add_application_knowledge(margot::".toList ++
    block.name ++ "::manager_type& manager) \x7b\n".toList ++
    (knowledgeLines sorter block).flatMap (Line.text block) ++
    (if block.ops.isEmpty then [] else "\n\n".toList) ++ "\x7d\n".toList

end Generator

/-- The values of the features of an Operating Point. -/
def OperatingPointModel.cluster (op : OperatingPointModel) : List Text :=
  op.features.map (·.mean)

/-- What comes before the Operating Points of a group. -/
def groupOpening (block : BlockModel) (cluster : Text) : List Line :=
  (if block.features.fields.isEmpty then []
    else [.addFeatureCluster cluster, .selectFeatureCluster cluster]) ++
    [.addOperatingPoints]

/-- The lines of the Operating Points with the same values of the features. -/
def groupLines (block : BlockModel)
    (group : List Text × List OperatingPointModel) : List Line :=
  groupOpening block (joinWith "," group.1) ++
    (group.2.map .operatingPoint ++ [.close])

/-- The Operating Points of a block by the values of their features. -/
structure Groups (block : BlockModel)
    (groups : List (List Text × List OperatingPointModel)) : Prop where
  members : (groups.flatMap Prod.snd).Perm block.ops
  own : ∀ group ∈ groups, group.2 ≠ [] ∧ ∀ op ∈ group.2, op.cluster = group.1
  distinct : (groups.map Prod.fst).Nodup

/-- Each Operating Point is in the one group of its own cluster.  Without
Operating Points no group is opened. -/
def OwnClusters (block : BlockModel) (lines : List Line) : Prop :=
  if block.ops = [] then
    ∀ line ∈ lines, line ≠ .addOperatingPoints ∧ line ≠ .close ∧
      ∀ op, line ≠ .operatingPoint op
  else ∃ groups, Groups block groups ∧
    lines = groups.flatMap (groupLines block)

/-- The texts of the features tell the Operating Points apart as their values
do, and none of them is empty. -/
structure ToldApart (block : BlockModel) : Prop where
  named : block.features.fields ≠ [] → ∀ op ∈ block.ops, str op.features ≠ []
  faithful : ∀ a ∈ block.ops, ∀ b ∈ block.ops,
    str a.features = str b.features → a.cluster = b.cluster

section Emitting

variable {block : BlockModel}

/-- Once a group is open, the flags close and open where the text changes. -/
theorem emitPoints_open {current : Text} {ops : List OperatingPointModel}
    (hsame : block.features.fields = [] →
      ∀ op ∈ ops, str op.features = current) :
    emitPoints (!block.features.fields.isEmpty) ⟨current, false⟩ ops ++
        [.close] =
      Grouping.between (fun op => str op.features) (groupOpening block)
        .operatingPoint .close current ops := by
  induction ops generalizing current with
  | nil => rfl
  | cons op rest ih =>
      rw [emitPoints, List.append_assoc, Grouping.between, emitPoint]
      by_cases hcluster : str op.features = current
      · have hrest := ih fun hnone other hmem =>
          hsame hnone other (List.mem_cons_of_mem _ hmem)
        simp [hcluster, hrest]
      · have hfeatures : block.features.fields ≠ [] := fun hnone =>
          hcluster (hsame hnone op List.mem_cons_self)
        have hother : block.features.fields = [] →
            ∀ other ∈ rest, str other.features = str op.features :=
          fun hnone => absurd hnone hfeatures
        simp [hcluster, hfeatures, ih hother, groupOpening]

/-- What is emitted for the Operating Points, group by group. -/
theorem emitPoints_eq {op : OperatingPointModel}
    {rest : List OperatingPointModel}
    (hnamed : block.features.fields ≠ [] → str op.features ≠ [])
    (hnone : block.features.fields = [] →
      ∀ other ∈ op :: rest, str other.features = []) :
    emitPoints (!block.features.fields.isEmpty) ⟨[], true⟩ (op :: rest) ++
        [.close] =
      (Grouping.runs (fun op => str op.features) (op :: rest)).flatMap
        (Grouping.written (groupOpening block) .operatingPoint .close) := by
  have hsame : block.features.fields = [] →
      ∀ other ∈ rest, str other.features = str op.features := by
    intro hfields other hmem
    rw [hnone hfields other (List.mem_cons_of_mem _ hmem),
      hnone hfields op List.mem_cons_self]
  rw [← Grouping.opening_between, ← emitPoints_open hsame, emitPoints,
    List.append_assoc, emitPoint]
  by_cases hfields : block.features.fields = []
  · have hempty := hnone hfields op List.mem_cons_self
    simp [hfields, hempty, groupOpening]
  · have hsome := hnamed hfields
    simp [hfields, hsome, groupOpening]

end Emitting

section Clusters

variable (sorter : NameSort) {block : BlockModel}

/-- Every Operating Point has one value for each feature. -/
def OneValueEach (block : BlockModel) : Prop :=
  ∀ op ∈ block.ops, op.features.length = block.features.fields.length

instance (block : BlockModel) : Decidable (OneValueEach block) :=
  inferInstanceAs (Decidable (∀ op ∈ block.ops, _))

theorem features_of_no_fields (hvalues : OneValueEach block)
    (hfields : block.features.fields = []) {op : OperatingPointModel}
    (hmem : op ∈ block.ops) : op.features = [] := by
  have hlength := hvalues op hmem
  rw [hfields, List.length_nil] at hlength
  exact List.length_eq_zero_iff.mp hlength

/-- The sorted Operating Points of a block, of which the first has the least
text. -/
theorem exists_sorted (hsome : block.ops ≠ []) :
    ∃ op rest, sorter.sort (fun op => str op.features) block.ops = op :: rest ∧
      (op :: rest).Perm block.ops ∧
      ((op :: rest).map fun op => str op.features).Pairwise (· ≤ ·) := by
  have hperm := sorter.perm (fun op => str op.features) block.ops
  have hsorted := sorter.sorted (fun op : OperatingPointModel =>
    str op.features) block.ops
  cases hops : sorter.sort (fun op => str op.features) block.ops with
  | nil =>
      rw [hops] at hperm
      exact absurd hperm.nil_eq.symm hsome
  | cons op rest =>
      rw [hops] at hperm hsorted
      exact ⟨op, rest, rfl, hperm, hsorted⟩

theorem knowledgeLines_of_sorted {op : OperatingPointModel}
    {rest : List OperatingPointModel}
    (hops : sorter.sort (fun op => str op.features) block.ops = op :: rest) :
    knowledgeLines sorter block =
      emitPoints (!block.features.fields.isEmpty) ⟨[], true⟩ (op :: rest) ++
        [.close] := by
  rw [knowledgeLines, hops]
  simp

/-- The texts of the clusters that are added. -/
def addedClusters (lines : List Line) : List Text :=
  lines.filterMap fun line =>
    match line with
    | .addFeatureCluster cluster => some cluster
    | _ => none

theorem addedClusters_written (hfields : block.features.fields ≠ [])
    (cluster : Text) (ops : List OperatingPointModel) :
    addedClusters (groupOpening block cluster ++
      (ops.map .operatingPoint ++ [.close])) = [cluster] := by
  have hpoints : (ops.map Line.operatingPoint).filterMap (fun line =>
      match line with
      | .addFeatureCluster cluster => some cluster
      | _ => none) = [] := by
    rw [List.filterMap_map, List.filterMap_eq_nil_iff]
    exact fun _ _ => rfl
  rw [addedClusters, groupOpening]
  simp [hfields, hpoints]

theorem addedClusters_flatMap {G : Type} {group : G → List Line}
    {cluster : G → Text}
    (hadded : ∀ g, addedClusters (group g) = [cluster g]) (groups : List G) :
    addedClusters (groups.flatMap group) = groups.map cluster := by
  induction groups with
  | nil => rfl
  | cons g rest ih =>
      rw [addedClusters] at ih
      have hfirst := hadded g
      rw [addedClusters] at hfirst
      rw [addedClusters, List.flatMap_cons, List.filterMap_append, hfirst, ih]
      rfl

/-- The values of the first Operating Point of a run. -/
def clusterOf (run : Text × List OperatingPointModel) : List Text :=
  (run.2.head?.map OperatingPointModel.cluster).getD []

theorem exists_head {ops : List OperatingPointModel}
    {run : Text × List OperatingPointModel}
    (hrun : run ∈ Grouping.runs (fun op => str op.features) ops) :
    ∃ first ∈ ops, first ∈ run.2 ∧ clusterOf run = first.cluster ∧
      str first.features = run.1 := by
  obtain ⟨hsome, hkeys⟩ := Grouping.mem_runs _ hrun
  obtain ⟨first, others, hfirst⟩ := List.exists_cons_of_ne_nil hsome
  have hmem : first ∈ run.2 := hfirst ▸ List.mem_cons_self
  refine ⟨first, ?_, hmem, ?_, hkeys first hmem⟩
  · rw [← Grouping.flatMap_runs (fun op => str op.features) ops]
    exact List.mem_flatMap.mpr ⟨run, hrun, hmem⟩
  · rw [clusterOf, hfirst]
    rfl

theorem groupLines_run {ops : List OperatingPointModel}
    {run : Text × List OperatingPointModel}
    (hrun : run ∈ Grouping.runs (fun op => str op.features) ops) :
    groupLines block (clusterOf run, run.2) =
      Grouping.written (groupOpening block) .operatingPoint .close run := by
  obtain ⟨first, -, -, hcluster, hkey⟩ := exists_head hrun
  have hjoined : joinWith "," (clusterOf run) = run.1 := by
    rw [hcluster, ← hkey]
    rfl
  rw [groupLines, hjoined]
  rfl

/-- The runs of the sorted Operating Points are their groups. -/
theorem groups_runs {ops : List OperatingPointModel}
    (hperm : ops.Perm block.ops)
    (hsorted : (ops.map fun op => str op.features).Pairwise (· ≤ ·))
    (happart : ToldApart block) :
    Groups block ((Grouping.runs (fun op => str op.features) ops).map
      fun run => (clusterOf run, run.2)) where
  members := by
    rw [List.flatMap_map]
    exact (List.Perm.of_eq (Grouping.flatMap_runs _ ops)).trans hperm
  own := by
    intro group hgroup
    obtain ⟨run, hrun, rfl⟩ := List.mem_map.mp hgroup
    obtain ⟨hsome, hkeys⟩ := Grouping.mem_runs _ hrun
    obtain ⟨first, hfirst, -, hcluster, hkey⟩ := exists_head hrun
    refine ⟨hsome, fun op hop => ?_⟩
    have hmem : op ∈ ops := by
      rw [← Grouping.flatMap_runs (fun op => str op.features) ops]
      exact List.mem_flatMap.mpr ⟨run, hrun, hop⟩
    have hsame : str op.features = str first.features :=
      (hkeys op hop).trans hkey.symm
    exact (happart.faithful op (hperm.subset hmem) first
      (hperm.subset hfirst) hsame).trans hcluster.symm
  distinct := by
    have hkeys : ((Grouping.runs (fun op => str op.features) ops).map fun run =>
        (clusterOf run, run.2)).map (fun group => joinWith "," group.1) =
          (Grouping.runs (fun op => str op.features) ops).map Prod.fst := by
      rw [List.map_map]
      apply List.map_congr_left
      intro run hrun
      obtain ⟨first, -, -, hcluster, hkey⟩ := exists_head hrun
      change joinWith "," (clusterOf run) = run.1
      rw [hcluster, ← hkey]
      rfl
    have hnodup := Grouping.nodup_runs hsorted
    rw [← hkeys, ← Function.comp_def (joinWith ",") Prod.fst, ← List.map_map]
      at hnodup
    exact hnodup.of_map

/-- The groups of Operating Points that are told apart. -/
theorem ownClusters_of_toldApart (hvalues : OneValueEach block)
    (happart : ToldApart block) :
    OwnClusters block (knowledgeLines sorter block) := by
  rw [OwnClusters]
  split
  · next hnone =>
      have hperm := sorter.perm (fun op => str op.features) block.ops
      have hops : sorter.sort (fun op => str op.features) block.ops = [] := by
        rw [hnone] at hperm ⊢
        exact hperm.eq_nil
      rw [knowledgeLines, hops]
      by_cases hfields : block.features.fields = []
      · simp [hfields]
      · simp [hfields]
  · next hsome =>
      obtain ⟨op, rest, hops, hperm, hsorted⟩ := exists_sorted sorter hsome
      have hempty : block.features.fields = [] →
          ∀ other ∈ op :: rest, str other.features = [] := by
        intro hfields other hother
        rw [features_of_no_fields hvalues hfields (hperm.subset hother)]
        rfl
      have hnamed : block.features.fields ≠ [] → str op.features ≠ [] :=
        fun hfields => happart.named hfields op
          (hperm.subset List.mem_cons_self)
      refine ⟨_, groups_runs hperm hsorted happart, ?_⟩
      rw [knowledgeLines_of_sorted sorter hops, emitPoints_eq hnamed hempty,
        List.flatMap_map]
      exact List.flatMap_congr fun run hrun => (groupLines_run hrun).symm

/-- A first Operating Point without a text begins a group without a cluster. -/
theorem named_of_ownClusters
    (hown : OwnClusters block (knowledgeLines sorter block))
    (hfields : block.features.fields ≠ []) {op : OperatingPointModel}
    (hop : op ∈ block.ops) : str op.features ≠ [] := by
  intro hempty
  have hsome : block.ops ≠ [] := List.ne_nil_of_mem hop
  rw [OwnClusters, if_neg hsome] at hown
  obtain ⟨groups, hgroups, hlines⟩ := hown
  obtain ⟨first, rest, hops, hperm, hsorted⟩ := exists_sorted sorter hsome
  have hleast : str first.features = [] := by
    rcases List.mem_cons.mp (hperm.symm.subset hop) with rfl | hrest
    · exact hempty
    · rw [List.map_cons, List.pairwise_cons] at hsorted
      have hle := hsorted.1 _ (List.mem_map_of_mem hrest)
      cases hfirst : str first.features with
      | nil => rfl
      | cons c tail =>
          rw [hempty, hfirst] at hle
          exact absurd List.Lex.nil (not_lt_of_ge hle)
  rw [knowledgeLines_of_sorted sorter hops, emitPoints, emitPoint] at hlines
  cases groups with
  | nil =>
      have hmembers := hgroups.members.length_eq
      exact absurd (List.length_eq_zero_iff.mp hmembers.symm) hsome
  | cons group others =>
      have hhead := congrArg List.head? hlines
      simp [hleast, hfields, groupLines, groupOpening] at hhead

/-- Every cluster is added once, so its text belongs to one group. -/
theorem faithful_of_ownClusters (hvalues : OneValueEach block)
    (hown : OwnClusters block (knowledgeLines sorter block))
    {a b : OperatingPointModel} (ha : a ∈ block.ops) (hb : b ∈ block.ops)
    (hsame : str a.features = str b.features) : a.cluster = b.cluster := by
  by_cases hfields : block.features.fields = []
  · rw [OperatingPointModel.cluster, OperatingPointModel.cluster,
      features_of_no_fields hvalues hfields ha,
      features_of_no_fields hvalues hfields hb]
  · have hsome : block.ops ≠ [] := List.ne_nil_of_mem ha
    have hnamed : ∀ op ∈ block.ops, str op.features ≠ [] :=
      fun op hop => named_of_ownClusters sorter hown hfields hop
    rw [OwnClusters, if_neg hsome] at hown
    obtain ⟨groups, hgroups, hlines⟩ := hown
    obtain ⟨first, rest, hops, hperm, hsorted⟩ := exists_sorted sorter hsome
    rw [knowledgeLines_of_sorted sorter hops, emitPoints_eq
      (fun _ => hnamed first (hperm.subset List.mem_cons_self))
      (fun hnone => absurd hnone hfields)] at hlines
    have hruns : ∀ run, addedClusters (Grouping.written (groupOpening block)
        Line.operatingPoint Line.close run) = [run.1] :=
      fun run => addedClusters_written hfields run.1 run.2
    have hwritten : ∀ group, addedClusters (groupLines block group) =
        [joinWith "," group.1] :=
      fun group => addedClusters_written hfields _ group.2
    have hadded := congrArg addedClusters hlines
    rw [addedClusters_flatMap hruns, addedClusters_flatMap hwritten] at hadded
    have hnodup := Grouping.nodup_runs hsorted
    rw [hadded] at hnodup
    have hgroup : ∀ op ∈ block.ops, ∃ group ∈ groups, op.cluster = group.1 := by
      intro op hop
      obtain ⟨group, hgroup, hmem⟩ :=
        List.mem_flatMap.mp (hgroups.members.symm.subset hop)
      exact ⟨group, hgroup, (hgroups.own group hgroup).2 op hmem⟩
    obtain ⟨groupA, hgroupA, hclusterA⟩ := hgroup a ha
    obtain ⟨groupB, hgroupB, hclusterB⟩ := hgroup b hb
    have htext : joinWith "," groupA.1 = joinWith "," groupB.1 := by
      rw [← hclusterA, ← hclusterB]
      exact hsame
    have hgroups := List.inj_on_of_nodup_map hnodup hgroupA hgroupB htext
    rw [hclusterA, hclusterB, hgroups]

/-- The Operating Points are in their own clusters exactly when their texts
tell them apart. -/
theorem ownClusters_iff (block : BlockModel) (hvalues : OneValueEach block) :
    OwnClusters block (knowledgeLines sorter block) ↔ ToldApart block := by
  constructor
  · intro hown
    exact ⟨fun hfields op hop => named_of_ownClusters sorter hown hfields hop,
      fun a ha b hb => faithful_of_ownClusters sorter hvalues hown ha hb⟩
  · exact ownClusters_of_toldApart sorter hvalues

end Clusters

namespace Sample

def pointWith (features : List String) : OperatingPointModel :=
  ⟨features.map fun mean => ⟨mean.toList, []⟩, [⟨"1".toList, []⟩],
    [⟨"3".toList, []⟩]⟩

/-- A block with two features and some Operating Points. -/
def measured (ops : List OperatingPointModel) : BlockModel :=
  { validBlock with
    features := ⟨.euclidean, "int32_t".toList,
      [⟨"height".toList, "int32_t".toList, .dontCare⟩,
        ⟨"width".toList, "int32_t".toList, .dontCare⟩]⟩
    ops := ops }

/-- Two points of a cluster around one of another. -/
def scattered : BlockModel :=
  measured [pointWith ["2", "1"], pointWith ["1", "3"], pointWith ["2", "1"]]

theorem ownClusters_iff_scattered :
    OwnClusters scattered (knowledgeLines stableSort scattered) ↔
      ToldApart scattered :=
  ownClusters_iff stableSort scattered (by decide +kernel)

/-- Values with a comma. -/
def ambiguous : BlockModel :=
  measured [pointWith ["1,2", "3"], pointWith ["1", "2,3"]]

/-- Two different lists of values have the same text, so they share one
cluster. -/
theorem not_ownClusters_ambiguous :
    ¬ ∀ (sorter : NameSort) (block : BlockModel), block.knobs ≠ [] →
      OneValueEach block →
        OwnClusters block (knowledgeLines sorter block) := by
  intro hall
  have hvalues : OneValueEach ambiguous := by decide +kernel
  have hown := hall stableSort ambiguous (by decide +kernel) hvalues
  have hsame : (pointWith ["1,2", "3"]).cluster =
      (pointWith ["1", "2,3"]).cluster :=
    faithful_of_ownClusters stableSort hvalues hown List.mem_cons_self
      (List.mem_cons_of_mem _ List.mem_cons_self) (by decide)
  exact absurd hsame (by decide)

end Sample

end Margot.Heel
