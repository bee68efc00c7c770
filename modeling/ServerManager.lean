import ServerManager.Interaction
import ServerManager.Interleaving
import ServerManager.PyJson
import ServerManager.PyText
import ServerManager.Orm
import ServerManager.Effects
import ServerManager.Storage
import ServerManager.ProxmoxVm
import ServerManager.Config
import ServerManager.Doubles
import ServerManager.SandboxNetwork
import ServerManager.Reconciliation
import ServerManager.Placement
import ServerManager.CloneHygiene
import ServerManager.Provisioning
import ServerManager.Api
import ServerManager.Calls
import ServerManager.OwnershipGate
import ServerManager.Kea
import ServerManager.ForeignReservations
import ServerManager.Sessions
import ServerManager.RecoveryBudget
import ServerManager.Replay
import ServerManager.DestroyIntent
import ServerManager.JobCalls
import ServerManager.JobRows
import ServerManager.SandboxBoot
import ServerManager.StaleDesiredState
import ServerManager.JobOutcome
import ServerManager.UntrackedVm
import ServerManager.AddressCheck
import ServerManager.CutoverParity
import ServerManager.EngineRules
import ServerManager.GatewayConfig
import ServerManager.GpuPower
import ServerManager.GuestEvidence
import ServerManager.HostEnergy
import ServerManager.HostSlices
import ServerManager.IntentionalStops
import ServerManager.MinuteCoverage
import ServerManager.NodeConsistency
import ServerManager.ReservationLeak
import ServerManager.StepLedger
import ServerManager.ActivePlacement
import ServerManager.AgentKeys
import ServerManager.FacilityEnergy
import ServerManager.FacilityRoute
import ServerManager.GpuRetention
import ServerManager.HourlyAggregates
import ServerManager.OpenRouterGate
import ServerManager.SpendGuard
import ServerManager.HostIsolation
import ServerManager.Allocation
import ServerManager.Convergence
import ServerManager.DestroyOutcome
import ServerManager.MigrationCover
import ServerManager.PduGate
import ServerManager.PowerEvidence
import ServerManager.ResumedMigrations
import ServerManager.RevisionHistory
import ServerManager.PresetOrder
import ServerManager.JsonRoundTrip
import ServerManager.MarkerRoundTrip
import ServerManager.ExpiredSandboxes
import ServerManager.FailedAttempts
import ServerManager.GeneratedMac
import ServerManager.GuestAddresses
import ServerManager.KeaClient
import ServerManager.OwnRows
import ServerManager.PlacementPolicy
import ServerManager.ReconcileCommits
import ServerManager.ReconcileFairness
import ServerManager.ServiceTokens
import ServerManager.StatusEvidence
import ServerManager.Supersession
import ServerManager.UiToken
import ServerManager.SubmitOnce
import ServerManager.AnalyticsRange
import ServerManager.Backfill
import ServerManager.ClosedHours
import ServerManager.CostWindows
import ServerManager.FallbackCache
import ServerManager.NewestRate
import ServerManager.OneModel
import ServerManager.RefusedSettings
import ServerManager.ServerTotal
import ServerManager.ServiceCooldown
import ServerManager.AddressRace
import ServerManager.AddressReuse
import ServerManager.RevokedAgents
import ServerManager.AgentSeparation
import ServerManager.RotatedBudgets
import ServerManager.DirectoryRoles
import ServerManager.ShownKeys
import ServerManager.RoutingLog
import ServerManager.AgentVisibility
import ServerManager.AgentManager
import ServerManager.AgentJobs
import ServerManager.AgentLedger
import ServerManager.AgentRuns
import ServerManager.AgentEvidence
import ServerManager.Releases
import ServerManager.ConfigFile
import ServerManager.TokenCache
