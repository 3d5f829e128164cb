/-
The predictions of the server: the configurations, the features and the results
by their identifiers.  A prediction that is added again is replaced only in its
configuration, and the flag says the contrary of what is documented.
-/
import Margot.Agora.Model

namespace Margot.Agora

namespace PredictionModel

/-- The insertions are the operands of a disjunction, so that the first key
that is found ends it. -/
def addResult (prediction : PredictionModel) (predId : Text)
    (config : Configuration) (feat : UnorderedMap Text Text)
    (result : UnorderedMap Text MetricValueModel) : Bool × PredictionModel :=
  let configured := prediction.configurations.insertOrAssign predId config
  let prediction := { prediction with configurations := configured.1 }
  if !configured.2 then (true, prediction)
  else if !feat.entries.isEmpty then
    let featured := prediction.features.insertOrAssign predId feat
    let prediction := { prediction with features := featured.1 }
    if !featured.2 then (true, prediction)
    else
      let resulted := prediction.predictedResults.insertOrAssign predId result
      (!resulted.2, { prediction with predictedResults := resulted.1 })
  else
    let resulted := prediction.predictedResults.insertOrAssign predId result
    (!resulted.2, { prediction with predictedResults := resulted.1 })

/-- The parts of the predictions have the same identifiers; the features may
not be used. -/
structure SameKeys (prediction : PredictionModel) : Prop where
  results : ∀ id, id ∈ prediction.predictedResults.keys ↔
    id ∈ prediction.configurations.keys
  features : prediction.features.keys ≠ [] →
    ∀ id, id ∈ prediction.features.keys ↔ id ∈ prediction.configurations.keys

/-- A prediction is added to all the parts, or replaced in all of them, and the
flag says whether it is new. -/
structure Adds (before : PredictionModel) (predId : Text)
    (config : Configuration) (feat : UnorderedMap Text Text)
    (result : UnorderedMap Text MetricValueModel)
    (after : Bool × PredictionModel) : Prop where
  configuration : after.2.configurations.find? predId = some config
  features : feat.entries ≠ [] → after.2.features.find? predId = some feat
  result : after.2.predictedResults.find? predId = some result
  others : ∀ id, id ≠ predId →
    after.2.configurations.find? id = before.configurations.find? id ∧
    after.2.features.find? id = before.features.find? id ∧
    after.2.predictedResults.find? id = before.predictedResults.find? id
  sameKeys : after.2.SameKeys
  flag : after.1 = true ↔ predId ∉ before.configurations.keys

section Adding

variable {prediction : PredictionModel} {predId : Text}
  (config : Configuration) (feat : UnorderedMap Text Text)
  (result : UnorderedMap Text MetricValueModel)

/-- Of a prediction that is there only the configuration is replaced. -/
theorem addResult_of_mem (hmem : predId ∈ prediction.configurations.keys) :
    prediction.addResult predId config feat result =
      (true, { prediction with configurations :=
        (prediction.configurations.insertOrAssign predId config).1 }) := by
  have hold : (prediction.configurations.insertOrAssign predId config).2 =
      false := by
    rw [← Bool.not_eq_true, UnorderedMap.insertOrAssign_new]
    exact not_not_intro hmem
  rw [addResult, hold]
  rfl

/-- A new prediction is added to all the parts. -/
theorem addResult_of_not_mem
    (hconfiguration : predId ∉ prediction.configurations.keys)
    (hfeatures : predId ∉ prediction.features.keys)
    (hresult : predId ∉ prediction.predictedResults.keys) :
    prediction.addResult predId config feat result =
      (false, {
        configurations :=
          (prediction.configurations.insertOrAssign predId config).1
        features :=
          if feat.entries.isEmpty then prediction.features
          else (prediction.features.insertOrAssign predId feat).1
        predictedResults :=
          (prediction.predictedResults.insertOrAssign predId result).1 }) := by
  have hconfigured := (UnorderedMap.insertOrAssign_new config).mpr
    hconfiguration
  have hfeatured := (UnorderedMap.insertOrAssign_new feat).mpr hfeatures
  have hresulted := (UnorderedMap.insertOrAssign_new result).mpr hresult
  simp only [addResult, hconfigured, hfeatured, hresulted, Bool.not_true,
    Bool.false_eq_true, if_false]
  cases feat.entries.isEmpty <;> rfl

/-- Whatever is added, the flag is false exactly when the prediction is new. -/
theorem addResult_flag (hsame : prediction.SameKeys) :
    (prediction.addResult predId config feat result).1 = true ↔
      predId ∈ prediction.configurations.keys := by
  by_cases hmem : predId ∈ prediction.configurations.keys
  · rw [addResult_of_mem config feat result hmem]
    exact iff_of_true rfl hmem
  · have hfeatures : predId ∉ prediction.features.keys := by
      intro hfeature
      have hused := List.ne_nil_of_mem hfeature
      exact hmem ((hsame.features hused predId).mp hfeature)
    have hresult : predId ∉ prediction.predictedResults.keys :=
      fun hresulted => hmem ((hsame.results predId).mp hresulted)
    rw [addResult_of_not_mem config feat result hmem hfeatures hresult]
    exact iff_of_false Bool.false_ne_true hmem

end Adding

/-- No prediction is added as documented. -/
theorem not_adds {prediction : PredictionModel} (hsame : prediction.SameKeys)
    (predId : Text) (config : Configuration) (feat : UnorderedMap Text Text)
    (result : UnorderedMap Text MetricValueModel) :
    ¬ Adds prediction predId config feat result
      (prediction.addResult predId config feat result) := by
  intro hadds
  have hflag := (addResult_flag config feat result hsame).symm.trans hadds.flag
  exact (iff_not_self hflag).elim

section First

theorem sameKeys_clear : clear.SameKeys :=
  ⟨fun _ => Iff.rfl, fun _ _ => Iff.rfl⟩

theorem not_adds_clear :
    ¬ Adds clear "0".toList .empty .empty .empty
      (clear.addResult "0".toList .empty .empty .empty) :=
  not_adds sameKeys_clear _ _ _ _

/-- The first prediction of all is not told to be new. -/
theorem not_adds_first :
    ¬ ∀ (prediction : PredictionModel) (predId : Text) (config : Configuration)
      (feat : UnorderedMap Text Text)
      (result : UnorderedMap Text MetricValueModel), prediction.SameKeys →
        Adds prediction predId config feat result
          (prediction.addResult predId config feat result) := by
  intro hall
  have hflag := (hall clear [] .empty .empty .empty sameKeys_clear).flag
  exact absurd (hflag.mpr List.not_mem_nil) Bool.false_ne_true

end First

end PredictionModel

end Margot.Agora
