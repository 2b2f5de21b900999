import OllamaProxy.Delivery
import OllamaProxy.Verdict
import OllamaProxy.Selection
import OllamaProxy.UserToken
import OllamaProxy.Admission
import OllamaProxy.EmptyPool
import OllamaProxy.Lib.RoundRobin
import OllamaProxy.Solo
import OllamaProxy.Cooldown
import OllamaProxy.Counters
import OllamaProxy.Probe
import OllamaProxy.Lib.Meter
import OllamaProxy.Meters
import OllamaProxy.Attribution
import OllamaProxy.Lib.Firsts
import OllamaProxy.Lib.SingleFlight
import OllamaProxy.ModelCache
import OllamaProxy.ModelList
import OllamaProxy.UsageParse
import OllamaProxy.UsageService
import OllamaProxy.UsageIdentity
import OllamaProxy.Fairness
import OllamaProxy.Sidelining
import OllamaProxy.Windows
import OllamaProxy.Budget
import OllamaProxy.Waiting
import OllamaProxy.Bookkeeping
import OllamaProxy.UsagePersist
import OllamaProxy.DashboardAuth
import OllamaProxy.DashboardBackend
import OllamaProxy.UsageRejection
import OllamaProxy.Lib.Signing
import OllamaProxy.UsageReport
import OllamaProxy.UsageFields
import OllamaProxy.UsageModels
import OllamaProxy.UsageAnswers
import OllamaProxy.Batch
import OllamaProxy.ChatBody
import OllamaProxy.TokenExpiry
import OllamaProxy.UsageViews
import OllamaProxy.Lib.Pieces
import OllamaProxy.Logging
import OllamaProxy.Redaction
import OllamaProxy.Lib.Nesting
import OllamaProxy.Masking
import OllamaProxy.MaskedTrees
import OllamaProxy.Progress
import OllamaProxy.Relay
import OllamaProxy.KeyIdentity
import OllamaProxy.Registration
import OllamaProxy.Lib.Cipher
import OllamaProxy.Vault
import OllamaProxy.Migration
import OllamaProxy.Lib.JsonText
import OllamaProxy.StoredUsage
import OllamaProxy.Flash
import OllamaProxy.Lifespan
import OllamaProxy.Access
