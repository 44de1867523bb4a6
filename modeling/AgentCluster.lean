import AgentCluster.Agents.Callback
import AgentCluster.Agents.Canonical
import AgentCluster.Agents.Delegation
import AgentCluster.Agents.Failures
import AgentCluster.Artifacts.Concurrency
import AgentCluster.Artifacts.Keys
import AgentCluster.Artifacts.References
import AgentCluster.Artifacts.Refinement
import AgentCluster.Artifacts.RoundTrip
import AgentCluster.Cluster.Atomicity
import AgentCluster.Cluster.Backends
import AgentCluster.Cluster.Confirmation
import AgentCluster.Cluster.Database
import AgentCluster.Cluster.Engine
import AgentCluster.Cluster.Proposals
import AgentCluster.Cluster.Resolver
import AgentCluster.Cluster.Scanner
import AgentCluster.Migrations.Environment
import AgentCluster.Service.AtMostOnce
import AgentCluster.Service.Decision
import AgentCluster.Service.Effect
import AgentCluster.Service.Rejection
import AgentCluster.Service.Progress
import AgentCluster.Service.Repeats
import AgentCluster.Shared.GeneralPurpose
import AgentCluster.Shared.Logging
import AgentCluster.Shared.Selection
import AgentCluster.Shared.Secrets
