/-
The payloads of the messages, composed from what the handler of an application
has.  `at` throws where a name is not in a table, and writing a text as JSON
throws where a name is a path through another one.
-/
import Margot.Agora.Encoding
import Margot.Agora.Model

namespace Margot.Agora

open Heel

/-- The value of a table within a table; `at` throws where there is none. -/
def valueAt {V : Type} (table : UnorderedMap Text (UnorderedMap Text V))
    (id name : Text) : Option V :=
  (table.find? id).bind (·.find? name)

/-- The values of a configuration, which `at` finds by the names of the knobs. -/
def knobsOf (configuration : Configuration) : KnobConfiguration :=
  fun name => (configuration.find? name).getD []

/-- `configuration_to_json` of the map that the handler has, `none` where it
throws. -/
def configurationPayload (description : BlockModel)
    (configuration : Configuration) : Option Text :=
  if ∀ knob ∈ description.knobs, knob.name ∈ configuration.keys then
    (configurationToJson description (knobsOf configuration)).toOption
  else none

namespace PredictionModel

/-- What is predicted under an identifier. -/
def result (prediction : PredictionModel) (predId : Text) : Prediction where
  features name := (valueAt prediction.features predId name).getD []
  configuration name := (valueAt prediction.configurations predId name).getD []
  result name :=
    let value :=
      (valueAt prediction.predictedResults predId name).getD ⟨[], []⟩
    ⟨value.avg, value.std⟩

/-- The predictions in the order in which they are visited. -/
def results [HashOrder Text] (prediction : PredictionModel) : List Prediction :=
  prediction.predictedResults.visitKeys.map prediction.result

/-- Everything is there that `at` looks for. -/
def Complete (prediction : PredictionModel) (description : BlockModel) : Prop :=
  ∀ predId ∈ prediction.predictedResults.keys,
    (∀ field ∈ description.features.fields,
      (valueAt prediction.features predId field.name).isSome = true) ∧
    (∀ knob ∈ description.knobs,
      (valueAt prediction.configurations predId knob.name).isSome = true) ∧
    ∀ metric ∈ description.metrics,
      (valueAt prediction.predictedResults predId metric.name).isSome = true

instance (prediction : PredictionModel) (description : BlockModel) :
    Decidable (prediction.Complete description) :=
  inferInstanceAs (Decidable (∀ predId ∈ prediction.predictedResults.keys,
    (∀ field ∈ description.features.fields,
      (valueAt prediction.features predId field.name).isSome = true) ∧
    (∀ knob ∈ description.knobs,
      (valueAt prediction.configurations predId knob.name).isSome = true) ∧
    ∀ metric ∈ description.metrics,
      (valueAt prediction.predictedResults predId metric.name).isSome = true))

end PredictionModel

/-- `prediction_to_json` of what the handler has, `none` where it throws. -/
def predictionPayload [HashOrder Text] (description : BlockModel)
    (prediction : PredictionModel) : Option Text :=
  if prediction.Complete description then
    (predictionToJson description prediction.results).toOption
  else none

end Margot.Agora
