/-
The data that the server keeps of an application: what it has to explore, what
its plugins have found, and the storage that both are read from.
-/
import Margot.Heel.Model
import Margot.Library.Unordered

namespace Margot.Agora

open Margot.Heel (BlockModel)

abbrev ClientId := Text

structure ApplicationId where
  appName : Text
  version : Text
  blockName : Text
deriving Repr, DecidableEq

abbrev Configuration := UnorderedMap Text Text

structure ConfigurationModel where
  configurationId : Text
  configuration : Configuration
  numberOfExplorations : Int

structure DoeModel where
  requiredExplorations : List ConfigurationModel

namespace DoeModel

def clear : DoeModel := ⟨[]⟩

/-- The next configuration, and what is left: the configuration goes back to
the end unless it is exhausted. -/
def getNext (doe : DoeModel) : Option (ConfigurationModel × DoeModel) :=
  match doe.requiredExplorations with
  | [] => none
  | first :: rest =>
      let explored :=
        { first with numberOfExplorations := first.numberOfExplorations - 1 }
      if 0 < explored.numberOfExplorations then
        some (explored, ⟨rest ++ [explored]⟩)
      else
        some (explored, ⟨rest⟩)

end DoeModel

structure ClusterModel where
  centroids : UnorderedMap Text (List Text)

def ClusterModel.clear : ClusterModel := ⟨.empty⟩

structure MetricValueModel where
  avg : Text
  std : Text
deriving Repr, DecidableEq

structure PredictionModel where
  configurations : UnorderedMap Text Configuration
  features : UnorderedMap Text (UnorderedMap Text Text)
  predictedResults : UnorderedMap Text (UnorderedMap Text MetricValueModel)

def PredictionModel.clear : PredictionModel := ⟨.empty, .empty, .empty⟩

/-- What the storage of the application holds: the tables as they are loaded
for a description, and the metrics that have a model. -/
structure Storage where
  loadDoe : BlockModel → DoeModel
  loadCluster : BlockModel → ClusterModel
  loadPrediction : BlockModel → PredictionModel
  isModelValid : Text → Bool

end Margot.Agora
