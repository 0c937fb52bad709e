import BrineVault.Indexer.Consistency
import BrineVault.Indexer.Invalidation
import BrineVault.Contract.Approvals
import BrineVault.Contract.Paused
import BrineVault.Contract.Committees
import BrineVault.Contract.SealPolicy
import BrineVault.Contract.Frozen
import BrineVault.Contract.Audited
import BrineVault.Contract.Decisions
import BrineVault.Contract.Members
import BrineVault.Contract.Records
import BrineVault.Contract.Ledger
import BrineVault.Indexer.MemberCache
import BrineVault.Indexer.StateCache
import BrineVault.Indexer.DocumentCache
import BrineVault.Indexer.Skipping
import BrineVault.Indexer.Delivery
import BrineVault.Indexer.NoLoss
import BrineVault.Api.Reads
import BrineVault.Api.AuditCsv
import BrineVault.Api.Rotation
import BrineVault.Api.Challenge
import BrineVault.Api.Checklist
import BrineVault.Api.Invites
import BrineVault.Api.Founding
import BrineVault.Api.Notices
import BrineVault.Api.Lookup
import BrineVault.Api.Strangers
import BrineVault.Api.ReviewSummary
import BrineVault.Api.Renewal
import BrineVault.Api.TokenClaims
import BrineVault.Web.HonestClients
import BrineVault.Web.WalletLogin
import BrineVault.Walrus.Manifests
import BrineVault.Walrus.Retry
import BrineVault.Walrus.Progress
import BrineVault.Walrus.Chunking
import BrineVault.Encryption.Malformed
import BrineVault.Encryption.Integrity
import BrineVault.Api.Requests
import BrineVault.Api.Revocation
import BrineVault.Api.RoleGuard
import BrineVault.Api.Listings
import BrineVault.Api.Preferences
import BrineVault.Web.Posts
import BrineVault.Api.RateLimit
import BrineVault.Contract.Authority
import BrineVault.Contract.Chronology
import BrineVault.Contract.Lifecycle
import BrineVault.Contract.Enabled
import BrineVault.Contract.Release
import BrineVault.Indexer.DecisionCache
import BrineVault.Api.IcDecisions
import BrineVault.Web.PoolForm
import BrineVault.Web.PoolWizard
import BrineVault.Web.CreatePool
