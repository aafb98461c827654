import Iams.Lib.Asyncio
import Iams.Lib.Binary64
import Iams.Lib.CpModel
import Iams.Lib.Csv
import Iams.Lib.Decimal
import Iams.Lib.Dict
import Iams.Lib.Fallible
import Iams.Lib.Generator
import Iams.Lib.Heap
import Iams.Lib.Sorting
import Iams.Lib.Heapq
import Iams.Lib.Interleaving
import Iams.Lib.Overlay
import Iams.Lib.Merge
import Iams.Lib.Procedure
import Iams.Lib.Product
import Iams.Lib.Quantile
import Iams.Lib.Regex
import Iams.Lib.Retry
import Iams.Lib.SingleServer
import Iams.Lib.Table
import Iams.Lib.Trace
import Iams.Lib.Transition
import Iams.Lib.Traversal
import Iams.Lib.Triple
import Iams.Utils.Outliner
import Iams.Scheduler.Etx
import Iams.Scheduler.Event
import Iams.Scheduler.Queue
import Iams.Scheduler.Variables
import Iams.Scheduler.Model
import Iams.Scheduler.Plan
import Iams.Scheduler.World
import Iams.Scheduler.Gather
import Iams.Scheduler.Interface
import Iams.Scheduler.Integer
import Iams.Scheduler.Runs
import Iams.Scheduler.AccountingTheorems
import Iams.Scheduler.SoundnessTheorems
import Iams.Scheduler.Window
import Iams.Scheduler.AdmissionTheorems
import Iams.Scheduler.CapacityTheorems
import Iams.Scheduler.Order
import Iams.Scheduler.Replan
import Iams.Scheduler.CommitTheorems
import Iams.Scheduler.ConversionTheorems
import Iams.Scheduler.EtxTheorems
import Iams.Scheduler.FollowingTheorems
import Iams.Scheduler.Lifecycle
import Iams.Scheduler.HandledTheorems
import Iams.Scheduler.MakespanTheorems
import Iams.Scheduler.OrderingTheorems
import Iams.Scheduler.QueryTheorems
import Iams.Scheduler.RecurrenceTheorems
import Iams.Scheduler.RejectionTheorems
import Iams.Scheduler.ShiftTheorems
import Iams.Simulation.Queue
import Iams.Simulation.Loop
import Iams.Simulation.Safety
import Iams.Simulation.Rules
import Iams.Simulation.FifoTheorems
import Iams.Simulation.OrderTheorems
import Iams.Simulation.Output
import Iams.Simulation.ProcessedTheorems
import Iams.Simulation.Random
import Iams.Simulation.RandomTheorems
import Iams.Simulation.Registry
import Iams.Simulation.RegistryTheorems
import Iams.Simulation.StateTheorems
import Iams.Servicer.Credentials
import Iams.Servicer.Framework
import Iams.Servicer.AuthenticationTheorems
import Iams.Servicer.NameTheorems
import Iams.Runtime.AgentName
import Iams.Runtime.Docker
import Iams.Runtime.Swarm
import Iams.Runtime.Update
import Iams.Runtime.Frames
import Iams.Runtime.LookupTheorems
import Iams.Runtime.DeleteTheorems
import Iams.Runtime.DeployTheorems
import Iams.Runtime.SecretSteps
import Iams.Runtime.ConfigSteps
import Iams.Runtime.ConfigTheorems
import Iams.Runtime.Submit
import Iams.Runtime.UpdateTheorems
import Iams.Runtime.ReplicaTheorems
import Iams.Runtime.ImageTheorems
import Iams.Runtime.PluginTheorems
import Iams.Runtime.PrefixTheorems
import Iams.Runtime.SecretTheorems
import Iams.Configuration.Settings
import Iams.Configuration.Agents
import Iams.Configuration.AgentsTheorems
import Iams.Configuration.Format
import Iams.Configuration.Runs
import Iams.Configuration.RunsTheorems
import Iams.Aio.Connection
import Iams.Aio.ConnectionTheorems
import Iams.Aio.Pool
import Iams.Aio.Context
import Iams.Aio.ContextTheorems
import Iams.Aio.Coroutine
import Iams.Aio.PoolSteps
import Iams.Aio.PoolInvariant
import Iams.Aio.CountTheorems
import Iams.Aio.ZeebeClient
import Iams.Aio.DeliveryTheorems
import Iams.Aio.Event
import Iams.Aio.EventTheorems
import Iams.Aio.FailureTheorems
import Iams.Aio.Manager
import Iams.Aio.ManagerTheorems
import Iams.Aio.Opcua
import Iams.Aio.OpcuaTheorems
import Iams.Aio.PersistTheorems
import Iams.Aio.Starts
import Iams.Aio.StartsTheorems
import Iams.Aio.StubTheorems
import Iams.Aio.Tcp
import Iams.Aio.TcpTheorems
import Iams.Aio.Zeebe
import Iams.Aio.ZeebeTheorems
import Iams.Arango.Database
import Iams.Arango.Topology
import Iams.Arango.Neighbours
import Iams.Arango.Rules
import Iams.Arango.Steps
import Iams.Arango.ConnectionTheorems
import Iams.Arango.Creation
import Iams.Arango.Deletion
import Iams.Arango.IntegrityTheorems
import Iams.Arango.Linking
import Iams.Arango.Plant
import Iams.Arango.PlantTheorems
import Iams.Arango.NeighbourTheorems
import Iams.Arango.UpdateTheorems
import Iams.Ca.Cfssl
import Iams.Plugins.Shipped
import Iams.Plugins.OrderTheorems
import Iams.Agent.Settings
import Iams.Agent.LaunchTheorems
