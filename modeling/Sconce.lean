import Sconce.Lib.Table
import Sconce.Licensing.Operations
import Sconce.Licensing.Merge
import Sconce.Licensing.BoundClause
import Sconce.Licensing.Renewal
import Sconce.Licensing.RenewalLedger
import Sconce.Licensing.Purchase
import Sconce.Lib.Effect
import Sconce.Versions.Store
import Sconce.Versions.Writers
import Sconce.Versions.History
import Sconce.Versions.Immutability
import Sconce.Versions.Approval
import Sconce.Concurrency.Issuing
import Sconce.Concurrency.SkuCap
import Sconce.Storage.Blobs
import Sconce.Concurrency.Collection
import Sconce.Concurrency.MirrorQueue
import Sconce.Lib.Script
import Sconce.Storage.Digests
import Sconce.Storage.Uploads
import Sconce.Concurrency.UploadMoves
import Sconce.Concurrency.UploadRequests
import Sconce.Concurrency.Uploads
import Sconce.Serving.Scope
import Sconce.Serving.Metadata
import Sconce.Serving.Routes
import Sconce.Serving.Agreement
import Sconce.Serving.ApprovalQueue
import Sconce.Serving.MajorCaps
import Sconce.Serving.Anonymous
import Sconce.Serving.LicenceBounds
import Sconce.Serving.Members
import Sconce.Serving.GrantPolicy
import Sconce.Serving.HumanIndex
import Sconce.Accounts.Store
import Sconce.Accounts.SingleSignOn
import Sconce.Accounts.Provisioning
import Sconce.Accounts.Offboarding
import Sconce.Accounts.Addresses
import Sconce.Dashboard.Gate
import Sconce.Dashboard.Cascade
import Sconce.Dashboard.Organizations
import Sconce.Dashboard.Repositories
import Sconce.Dashboard.Licences
import Sconce.Dashboard.Supply
import Sconce.Dashboard.Posts
import Sconce.Licensing.ForeignKeys
import Sconce.Licensing.SnapshotSales
import Sconce.Lib.Balance
import Sconce.Storage.Snapshots
import Sconce.Storage.Refcounts
import Sconce.Storage.Assembly
import Sconce.Concurrency.Snapshots
import Sconce.Serving.MemberLists
import Sconce.Concurrency.Members
import Sconce.Concurrency.DeviceFlows
import Sconce.Concurrency.Passwords
import Sconce.Versions.Archive
import Sconce.Lib.Names
import Sconce.Serving.Slugs
import Sconce.Concurrency.Slugs
import Sconce.Concurrency.ResetLinks
import Sconce.Versions.Convergence
import Sconce.Lib.Layout
import Sconce.Archives.Canonical
import Sconce.Serving.UpstreamPaths
import Sconce.Licensing.Globs
import Sconce.Lib.Comparator
import Sconce.Serving.VersionOrder
import Sconce.Lib.Utf8
import Sconce.Archives.Paths
import Sconce.Archives.Tarball
import Sconce.Archives.GitTree
import Sconce.Lib.Trimming
import Sconce.Mirror.Specs
import Sconce.Lib.Unions
import Sconce.Mirror.Subscriptions
import Sconce.Lib.LastWins
import Sconce.Serving.CiAccess
import Sconce.Accounts.ScimPatches
import Sconce.Lib.SlidingWindow
import Sconce.Accounts.RateLimits
import Sconce.Archives.ExportIgnore
import Sconce.Lib.Delimited
import Sconce.Licensing.Listing
import Sconce.Lib.Shrinking
import Sconce.Serving.Remotes
import Sconce.Serving.RemoteKeys
import Sconce.Lib.Worklist
import Sconce.Mirror.Closure
import Sconce.Mirror.Relisting
import Sconce.Lib.Joins
import Sconce.Serving.Tightening
import Sconce.Lib.ByteSlices
import Sconce.Serving.DigestSlices
import Sconce.Lib.Aggregates
import Sconce.Storage.Metering
import Sconce.Serving.Domains
import Sconce.Lib.CivilDates
import Sconce.Lib.FixedWidth
import Sconce.Storage.SigningDates
import Sconce.Lib.ReflectedCrc
import Sconce.Archives.Checksums
import Sconce.Dashboard.ReadOnly
import Sconce.Dashboard.SignIn
import Sconce.Dashboard.Gains
import Sconce.Dashboard.SsoTrust
import Sconce.Lib.Slices
import Sconce.Lib.Unwinding
import Sconce.Management.Api
import Sconce.Management.Writes
import Sconce.Management.Seen
import Sconce.Management.Tenancy
import Sconce.Management.Retries
import Sconce.Management.Failures
import Sconce.Lib.Refinement
import Sconce.Storage.FileCalls
import Sconce.Storage.FileStore
import Sconce.Lib.SharedCache
import Sconce.Serving.Caching
import Sconce.Serving.CachedReads
import Sconce.Storage.UploadClient
import Sconce.Serving.Availability
import Sconce.Lib.Standing
import Sconce.Serving.Credentials
import Sconce.Serving.Keyring
import Sconce.Serving.StandingKeys
