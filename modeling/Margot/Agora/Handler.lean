/-
The handler that the server keeps for one application: its data, and what it
does between a lock of its mutex and the next unlock.  `loaded`, `explored` and
`history` are no fields of the source: the DOE as it was read, what was sent of
it, and all that was sent, began or left.
-/
import Mathlib.Data.Finset.Insert
import Mathlib.Data.Finset.Lattice.Basic
import Margot.Agora.Composing

namespace Margot.Agora

open Margot.Heel (BlockModel ApplicationModel)

/-- The bits of the status of a handler. -/
inductive InternalStatus where
  | recovering
  | clueless
  | undefined
  | withInformation
  | exploring
  | buildingDoe
  | withDoe
  | buildingCluster
  | withCluster
  | buildingModel
  | withModel
  | buildingPrediction
  | withPrediction
deriving Repr, DecidableEq

/-- A bitmask, as the set of the bits that are on. -/
abbrev Status := Finset InternalStatus

/-- The method that sends a message. -/
inductive Sender where
  | welcomeClient
  | processObservation
deriving Repr, DecidableEq

inductive Message where
  | explore (cid : ClientId) (configuration : Configuration)
  | prediction (cid : ClientId)
  | broadcast
  | abort (cid : ClientId)

inductive Event where
  /-- A session starts with this value of the counter. -/
  | session (numConfigurationsSent : Int)
  | iteration
  | bye
  | sent (sender : Sender) (status : Status) (message : Message)

/-- A plugin that has been launched. -/
inductive Plugin where
  | model (metric : Text)
  | cluster
  | prediction
  | doe
deriving Repr, DecidableEq

/-- The phases in which a worker waits for plugins. -/
inductive Phase where
  | modeling
  | prediction
  | doe
deriving Repr, DecidableEq

/-- Where a worker is in the method it executes. -/
inductive Position where
  | idle
  /-- The observation is wanted; the mutex has been released. -/
  | observed (cid : ClientId)
  /-- The observation has been parsed and stored. -/
  | parsed (cid : ClientId)
  /-- `process_observation` waits for its plugins, without the mutex. -/
  | awaiting (phase : Phase) (plugins : List Plugin)
  /-- `process_observation` sends a configuration to each of the clients. -/
  | restarting (clients : List ClientId)
  /-- `start_recovering` waits for its plugins, with the mutex. -/
  | recovering (cid : ClientId) (phase : Phase) (plugins : List Plugin)
  /-- `welcome_client` is about to answer the client. -/
  | answering (cid : ClientId)
deriving Repr, DecidableEq

/-- The worker holds the mutex between two of its steps. -/
def Position.locked : Position → Bool
  | .restarting _ => true
  | .recovering _ _ _ => true
  | .answering _ => true
  | _ => false

/-- The loop over the active clients, with those that are left. -/
def Position.sending : List ClientId → Position
  | [] => .idle
  | cid :: rest => .restarting (cid :: rest)

structure Handler where
  appId : ApplicationId
  handlerStatus : Status
  iterationNumber : Int
  numConfigurationsPerIteration : Int
  numConfigurationsSentPerIteration : Int
  activeClients : UnorderedSet ClientId
  description : BlockModel
  doe : DoeModel
  cluster : ClusterModel
  prediction : PredictionModel
  /-- A launcher has been made for the plugin of the clusters. -/
  clusterLauncher : Bool
  /-- The plugins for which a launcher has been made. -/
  modelLaunchers : UnorderedSet Text
  loaded : DoeModel
  explored : List Configuration
  history : List Event

/-- What a part of a method leaves: the handler alone if an exception leaves
it. -/
abbrev Outcome := Except Handler (Handler × Position)

namespace Handler

/-- A new handler. -/
def new (appId : ApplicationId) : Handler where
  appId := appId
  handlerStatus := {.clueless}
  iterationNumber := 0
  numConfigurationsPerIteration := 0
  numConfigurationsSentPerIteration := 0
  activeClients := .empty
  description := .initial
  doe := .clear
  cluster := .clear
  prediction := .clear
  clusterLauncher := false
  modelLaunchers := .empty
  loaded := .clear
  explored := []
  history := []

def checkState (h : Handler) (state : InternalStatus) : Bool :=
  state ∈ h.handlerStatus

def setState (h : Handler) (state : Status) : Handler :=
  { h with handlerStatus := state }

/-- `set_state` without clearing the bits that are on. -/
def addState (h : Handler) (state : Status) : Handler :=
  { h with handlerStatus := h.handlerStatus ∪ state }

def areFeaturesEnabled (h : Handler) : Bool :=
  !h.description.features.fields.isEmpty

def areModelsValid (h : Handler) (storage : Storage) : Bool :=
  h.description.metrics.all fun metric => storage.isModelValid metric.name

def isDoeValid (h : Handler) : Bool := !h.doe.requiredExplorations.isEmpty

def isClusterValid (h : Handler) : Bool :=
  !h.cluster.centroids.entries.isEmpty

def isPredictionValid (h : Handler) : Bool :=
  !h.prediction.predictedResults.entries.isEmpty

def loadDoe (h : Handler) (storage : Storage) : Handler :=
  { h with
    doe := storage.loadDoe h.description
    loaded := storage.loadDoe h.description
    explored := [] }

def loadPrediction (h : Handler) (storage : Storage) : Handler :=
  { h with prediction := storage.loadPrediction h.description }

def loadCluster (h : Handler) (storage : Storage) : Handler :=
  { h with cluster := storage.loadCluster h.description }

def record (h : Handler) (event : Event) : Handler :=
  { h with history := event :: h.history }

section Sending

variable [HashOrder Text]

/-- The payload of a message, `none` where composing it throws. -/
def payload (h : Handler) : Message → Option Text
  | .explore _ configuration => configurationPayload h.description configuration
  | .prediction _ => predictionPayload h.description h.prediction
  | .broadcast => predictionPayload h.description h.prediction
  | .abort _ => some []

/-- The message is composed and sent, unless composing it throws. -/
def send (h : Handler) (sender : Sender) (message : Message) :
    Except Handler Handler :=
  match h.payload message with
  | none => .error h
  | some _ => .ok (h.record (.sent sender h.handlerStatus message))

def sendConfiguration (h : Handler) (sender : Sender) (cid : ClientId) :
    Except Handler Handler :=
  match h.doe.getNext with
  | none => .ok h
  | some (entry, doe) => do
      let sent ← { h with doe := doe }.send sender
        (.explore cid entry.configuration)
      return { sent with
        explored := entry.configuration :: h.explored
        numConfigurationsSentPerIteration :=
          h.numConfigurationsSentPerIteration + 1 }

end Sending

/-- The block of the handler in the application that the payload of a welcome
describes, if it can be read. -/
def findBlock (h : Handler) (app : Option ApplicationModel) :
    Option BlockModel :=
  app.bind fun app =>
    app.blocks.find? fun block =>
      app.name = h.appId.appName ∧ app.version = h.appId.version ∧
        block.name = h.appId.blockName

def parseInformations (h : Handler) (app : Option ApplicationModel) :
    Handler × Bool :=
  match h.findBlock app with
  | none => (h, false)
  | some block =>
      let described := { h with description := block }
      match stoi block.agora.numberConfigurationsPerIteration with
      | none => (described, false)
      | some number =>
          let informed :=
            { described with numConfigurationsPerIteration := number }
          (informed.setState {.withInformation}, true)

def startDoe (h : Handler) : Handler × List Plugin :=
  (h.setState {.buildingDoe}, [.doe])

def startPrediction (h : Handler) : Handler × List Plugin :=
  (h.setState {.buildingPrediction}, [.prediction])

/-- The launchers of a session; those of the models of earlier ones are
kept. -/
def initializePluginLaunchers (h : Handler) : Handler :=
  { h with
    clusterLauncher := h.clusterLauncher || h.areFeaturesEnabled
    modelLaunchers := h.modelLaunchers.emplaceAll
      (h.description.metrics.map fun metric => metric.predictionPlugin) }

/-- A missing launcher is a null pointer, which is taken for an exception. -/
def startClustering (h : Handler) : Except Handler (Handler × List Plugin) :=
  if h.clusterLauncher then
    .ok (h.addState {.buildingCluster}, [.cluster])
  else .error (h.addState {.buildingCluster})

/-- The plugin of each name of a metric, which is that of the first one. -/
def modelConfigs (h : Handler) : UnorderedMap Text Text :=
  h.description.metrics.foldl
    (fun configs metric => configs.emplace metric.name metric.predictionPlugin)
    .empty

/-- One plugin for each name of a metric; `model_launchers.at` throws where it
has no launcher. -/
def startModeling [HashOrder Text] (h : Handler) :
    Except Handler (Handler × List Plugin) :=
  if ∀ config ∈ h.modelConfigs.entries, config.2 ∈ h.modelLaunchers then
    .ok (h.setState {.buildingModel}, h.modelConfigs.visitKeys.map .model)
  else .error (h.setState {.buildingModel})

section Recovery

/-- The end of `start_recovering`, once no prediction could be recovered. -/
def recoverDoe (h : Handler) (cid : ClientId) : Handler × Position :=
  if h.isDoeValid then
    (h.setState {.exploring, .withDoe}, .answering cid)
  else
    let started := h.startDoe
    (started.1, .recovering cid .doe started.2)

/-- What `start_recovering` reads from the storage. -/
def recoverStorage (h : Handler) (storage : Storage) : Handler :=
  let loaded := (h.loadDoe storage).loadPrediction storage
  if loaded.areFeaturesEnabled then loaded.loadCluster storage else loaded

/-- `start_recovering` once the storage has been read. -/
def recoverPrediction (h : Handler) (storage : Storage) (cid : ClientId) :
    Handler × Position :=
  if h.isPredictionValid then
    (h.setState {.withPrediction}, .answering cid)
  else if (!h.areFeaturesEnabled || h.isClusterValid) &&
      h.areModelsValid storage then
    let started := (h.setState {.withModel, .withCluster}).startPrediction
    (started.1, .recovering cid .prediction started.2)
  else
    h.recoverDoe cid

def startRecovering (h : Handler) (storage : Storage) (cid : ClientId) :
    Handler × Position :=
  ((h.setState {.recovering}).recoverStorage storage).recoverPrediction
    storage cid

/-- `start_recovering` after the plugin of a phase has terminated. -/
def continueRecovery (h : Handler) (storage : Storage) (cid : ClientId) :
    Phase → Handler × Position
  | .doe =>
      if (h.loadDoe storage).isDoeValid then
        ((h.loadDoe storage).setState {.withDoe, .exploring}, .answering cid)
      else
        ((h.loadDoe storage).setState {.undefined}, .answering cid)
  | _ =>
      if (h.loadPrediction storage).isPredictionValid then
        ((h.loadPrediction storage).setState {.withPrediction}, .answering cid)
      else
        (h.loadPrediction storage).recoverDoe cid

end Recovery

def addClient (h : Handler) (cid : ClientId) : Handler :=
  { h with activeClients := h.activeClients.emplace cid }

/-- A session starts: the application is known, and the storage is read. -/
def startSession (h : Handler) (storage : Storage) (cid : ClientId) :
    Handler × Position :=
  let opened := h.record (.session h.numConfigurationsSentPerIteration)
  opened.initializePluginLaunchers.startRecovering storage cid

def welcomeClient (h : Handler) (storage : Storage) (cid : ClientId)
    (app : Option ApplicationModel) : Handler × Position :=
  if (h.addClient cid).checkState .clueless then
    match (h.addClient cid).parseInformations app with
    | (refused, false) => (refused, .idle)
    | (informed, true) => informed.startSession storage cid
  else
    (h.addClient cid, .answering cid)

/-- The end of `welcome_client`: what the client is told depends on the
status. -/
def answer [HashOrder Text] (h : Handler) (cid : ClientId) : Outcome := do
  if h.checkState .buildingDoe then return (h, .idle)
  else if h.checkState .buildingModel || h.checkState .buildingCluster then
    return (h, .idle)
  else if h.checkState .buildingPrediction then return (h, .idle)
  else if h.checkState .recovering then return (h, .idle)
  else if h.checkState .exploring then
    let sent ← h.sendConfiguration .welcomeClient cid
    return (sent, .idle)
  else if h.checkState .withPrediction then
    let sent ← h.send .welcomeClient (.prediction cid)
    return (sent, .idle)
  else if h.checkState .undefined then
    let sent ← h.send .welcomeClient (.abort cid)
    return (sent, .idle)
  else return (h, .idle)

def byeClient (h : Handler) (cid : ClientId) : Handler × Position :=
  let left :=
    { h.record .bye with activeClients := h.activeClients.erase cid }
  if left.activeClients.elems.isEmpty then
    ({ left.setState {.clueless} with
        doe := .clear
        cluster := .clear
        prediction := .clear
        loaded := .clear
        explored := [] }, .idle)
  else
    (left, .idle)

section Observation

/-- The first part of `process_observation`, up to the release of the mutex. -/
def processObservation (h : Handler) (cid : ClientId) : Handler × Position :=
  if h.checkState .exploring then (h, .observed cid) else (h, .idle)

/-- Another iteration, with nothing sent so far. -/
def nextIteration (h : Handler) : Handler :=
  { h.record .iteration with
    iterationNumber := h.iterationNumber + 1
    numConfigurationsSentPerIteration := 0 }

/-- `process_observation` takes the mutex again, once the observation has been
stored: another configuration, or a new iteration. -/
def nextConfiguration [HashOrder Text] (h : Handler) (cid : ClientId) :
    Outcome := do
  if h.isDoeValid && h.numConfigurationsSentPerIteration <
      h.numConfigurationsPerIteration then
    let sent ← h.sendConfiguration .processObservation cid
    return (sent, .idle)
  else
    let modeling ← h.nextIteration.startModeling
    if h.areFeaturesEnabled then
      let clustering ← modeling.1.startClustering
      return (clustering.1, .awaiting .modeling (modeling.2 ++ clustering.2))
    else
      return (modeling.1, .awaiting .modeling modeling.2)

/-- The exploration starts again, with a configuration for each client. -/
def restartExploration [HashOrder Text] (h : Handler) : Handler × Position :=
  (h.setState {.withDoe, .exploring}, .sending h.activeClients.iterate)

/-- There is no application knowledge: back to the exploration. -/
def explore [HashOrder Text] (h : Handler) : Handler × Position :=
  if h.isDoeValid then h.restartExploration
  else
    let started := h.startDoe
    (started.1, .awaiting .doe started.2)

/-- `process_observation` checks the models that have been produced. -/
def checkModels (h : Handler) (storage : Storage) : Handler :=
  if h.areModelsValid storage then h.setState {.withModel} else h

/-- `process_observation` loads the clusters that have been produced. -/
def checkClusters (h : Handler) (storage : Storage) : Handler :=
  if h.areFeaturesEnabled then
    if (h.loadCluster storage).isClusterValid then
      (h.loadCluster storage).addState {.withCluster}
    else h.loadCluster storage
  else h

/-- `process_observation` once the data produced have been checked. -/
def predict [HashOrder Text] (h : Handler) : Handler × Position :=
  if h.checkState .withModel &&
      (!h.areFeaturesEnabled || h.checkState .withCluster) then
    let started := h.startPrediction
    (started.1, .awaiting .prediction started.2)
  else h.explore

/-- `process_observation` after the plugins of a phase have terminated. -/
def continueObservation [HashOrder Text] (h : Handler) (storage : Storage) :
    Phase → Outcome
  | .modeling => return ((h.checkModels storage).checkClusters storage).predict
  | .prediction => do
      let loaded := h.loadPrediction storage
      if loaded.isPredictionValid then
        let sent ← (loaded.setState {.withPrediction}).send .processObservation
          .broadcast
        return (sent, .idle)
      else return loaded.explore
  | .doe =>
      if (h.loadDoe storage).isDoeValid then
        return (h.loadDoe storage).restartExploration
      else return ((h.loadDoe storage).setState {.undefined}, .idle)

/-- One turn of the loop over the active clients. -/
def sendNext [HashOrder Text] (h : Handler) : List ClientId → Outcome
  | [] => return (h, .idle)
  | cid :: rest => do
      let sent ← h.sendConfiguration .processObservation cid
      return (sent, .sending rest)

end Observation

end Handler

end Margot.Agora
