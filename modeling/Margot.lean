import Margot.Library.Runs
import Margot.Library.Progress
import Margot.Library.Unordered
import Margot.Library.OrderedMap
import Margot.Library.MultiMap
import Margot.Library.FilterChain
import Margot.Library.Heap
import Margot.Library.RingWindow
import Margot.Library.Memo
import Margot.Library.RoundRobin
import Margot.Library.MachineInteger
import Margot.Library.FloatingPoint
import Margot.Library.Floating
import Margot.Library.Tournament
import Margot.Library.Selection
import Margot.Library.Grouping
import Margot.Library.Monitor
import Margot.Library.Text
import Margot.Library.Checked
import Margot.Library.CppLiteral
import Margot.Library.Paths
import Margot.Library.Csv
import Margot.Library.PropertyTree
import Margot.Library.Json
import Margot.Library.JsonReading
import Margot.Library.JsonParts
import Margot.Library.JsonRespaced
import Margot.Library.Filling
import Margot.Runtime.CircularBuffer
import Margot.Runtime.OperatingPoint
import Margot.Runtime.FieldAdaptor
import Margot.Runtime.Constraint
import Margot.Runtime.State
import Margot.Runtime.Chain
import Margot.Runtime.Partition
import Margot.Runtime.AddConstraint
import Margot.Runtime.ReplaceConstraint
import Margot.Runtime.Update
import Margot.Runtime.Operations
import Margot.Runtime.Optimality
import Margot.Runtime.Cache
import Margot.Runtime.Problem
import Margot.Runtime.Asrtm
import Margot.Runtime.Agenda
import Margot.Runtime.DataAware
import Margot.Runtime.Wiring
import Margot.Runtime.Ready
import Margot.Runtime.UpdateThread
import Margot.Runtime.Sibling
import Margot.Runtime.Shared
import Margot.Runtime.Copy
import Margot.Runtime.Clusters
import Margot.Runtime.ClusterKeys
import Margot.Runtime.FeatureArithmetic
import Margot.Runtime.Normalized
import Margot.Runtime.NormalizedFloating
import Margot.Runtime.NormalizedError
import Margot.Runtime.NormalizedInteger
import Margot.Runtime.FeatureTypes
import Margot.Runtime.NormalizedSelection
import Margot.Runtime.InStep
import Margot.Runtime.Within
import Margot.Runtime.Proposal
import Margot.Runtime.Observations
import Margot.Runtime.ErrorWindow
import Margot.Runtime.StatisticalProvider
import Margot.Heel.Model
import Margot.Heel.Typer
import Margot.Heel.Validate
import Margot.Heel.Requirements
import Margot.Heel.Composer
import Margot.Heel.Parser
import Margot.Heel.ParsedState
import Margot.Heel.ParsedBlock
import Margot.Heel.OperatingPointParser
import Margot.Heel.Observation
import Margot.Heel.Knowledge
import Margot.Heel.CompletePoints
import Margot.Heel.DescriptionLiteral
import Margot.Heel.UniqueNames
import Margot.Heel.Range
import Margot.Heel.SegmentTypes
import Margot.Heel.Reordered
import Margot.Heel.Texts
import Margot.Heel.CompiledDescription
import Margot.Heel.ReceivedDescription
import Margot.Agora.Model
import Margot.Agora.Encoding
import Margot.Agora.Composing
import Margot.Agora.Handler
import Margot.Agora.Workers
import Margot.Agora.Outcomes
import Margot.Agora.Exceptions
import Margot.Agora.Phases
import Margot.Agora.Clueless
import Margot.Agora.Quota
import Margot.Agora.Containment
import Margot.Agora.Message
import Margot.Agora.Topics
import Margot.Agora.Isolation
import Margot.Agora.Reception
import Margot.Agora.Delivery
import Margot.Agora.Observation
import Margot.Agora.Filter
import Margot.Agora.SortedDelivery
import Margot.Agora.ObservationTable
import Margot.Agora.Completion
import Margot.Agora.Activity
import Margot.Agora.Exploration
import Margot.Agora.Description
import Margot.Agora.Doe
import Margot.Agora.Schedule
import Margot.Agora.Manager
import Margot.Agora.Handshake
import Margot.Agora.LocalHandler
import Margot.Agora.Prediction
import Margot.Agora.PredictionStorage
import Margot.Agora.DesignStorage
import Margot.Agora.Sending
import Margot.Agora.SafeQueue
import Margot.Agora.ThreadPool
