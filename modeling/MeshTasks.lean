import MeshTasks.Graph.Release
import MeshTasks.Graph.Scrub
import MeshTasks.Proofs.Distribution.Agreement
import MeshTasks.Proofs.Distribution.Output
import MeshTasks.Proofs.Distribution.Surroundings
import MeshTasks.Proofs.Graph.Assembly
import MeshTasks.Proofs.Graph.Consumers
import MeshTasks.Proofs.Graph.LongestPaths
import MeshTasks.Proofs.Graph.Release
import MeshTasks.Proofs.Items.Duplicates
import MeshTasks.Proofs.Items.Instances
import MeshTasks.Proofs.Items.Results
import MeshTasks.Proofs.Iteration
import MeshTasks.Proofs.LaterExecutions
import MeshTasks.Proofs.Mesh.BareHalos
import MeshTasks.Proofs.Mesh.Headroom
import MeshTasks.Proofs.Mesh.Images
import MeshTasks.Proofs.Mesh.Listings
import MeshTasks.Proofs.Mesh.Numbering
import MeshTasks.Proofs.Mesh.Periods
import MeshTasks.Proofs.Mesh.SetOperations
import MeshTasks.Proofs.Mesh.Sweep
import MeshTasks.Proofs.Mesh.WholeDomain
import MeshTasks.Proofs.Overwrites
import MeshTasks.Proofs.Producers.Ties
import MeshTasks.Proofs.Provenance
import MeshTasks.Proofs.Rebinding
import MeshTasks.Proofs.Resolution.Sends
import MeshTasks.Proofs.Schedule.Loops
import MeshTasks.Proofs.Schedule.Sources
import MeshTasks.Proofs.Schedule.Stability
import MeshTasks.Proofs.Service
import MeshTasks.Proofs.Stores
import MeshTasks.Proofs.Structured.Copies
import MeshTasks.Proofs.Units.Activity
import MeshTasks.Proofs.Validity
import MeshTasks.Settings.Text
import MeshTasks.Structured.WorkUnit
