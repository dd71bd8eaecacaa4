import GpuWorkerPool.Replay
import GpuWorkerPool.TenantIsolation
import GpuWorkerPool.ProfileGate
import GpuWorkerPool.RecordInvariant
import GpuWorkerPool.NoStrandedJob
import GpuWorkerPool.CompletedSound
import GpuWorkerPool.LeaseFailure
import GpuWorkerPool.Drain
import GpuWorkerPool.LeasePromise
import GpuWorkerPool.HonestPublish
import GpuWorkerPool.LeaseRefinement
import GpuWorkerPool.SettlementAudit
import GpuWorkerPool.TokenPrivacy
import GpuWorkerPool.AuthGates
import GpuWorkerPool.FloodBound
import GpuWorkerPool.Revocation
import GpuWorkerPool.Workspaces
import GpuWorkerPool.Servable
import GpuWorkerPool.EngineSchema
import GpuWorkerPool.EngineAgreement
import GpuWorkerPool.SubmissionGrammar
import GpuWorkerPool.PlainLimiter
import GpuWorkerPool.EnrollmentConfig
import GpuWorkerPool.GpuSampler
import GpuWorkerPool.RegistryRefinement
import GpuWorkerPool.EngineDiagnostics
import GpuWorkerPool.EngineInspection
import GpuWorkerPool.PayloadHeap
import GpuWorkerPool.GrantLifetime
import GpuWorkerPool.GcsAssets
import GpuWorkerPool.ComfyPlugin
import GpuWorkerPool.RecipeAttestation
import GpuWorkerPool.RunForever
import GpuWorkerPool.JobStoresAgree
import GpuWorkerPool.RegistriesAgree
import GpuWorkerPool.QueueFairness
import GpuWorkerPool.EngineExecution
