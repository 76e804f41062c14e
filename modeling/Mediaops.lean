import Mediaops.Library.Autocommit
import Mediaops.Library.Budget
import Mediaops.Library.Checks
import Mediaops.Library.Codec
import Mediaops.Library.Fates
import Mediaops.Library.Faults
import Mediaops.Library.Files
import Mediaops.Library.Handover
import Mediaops.Library.Incarnations
import Mediaops.Library.Journal
import Mediaops.Library.Json
import Mediaops.Library.Json.Edit
import Mediaops.Library.Json.Maps
import Mediaops.Library.Ledger
import Mediaops.Library.Nginx
import Mediaops.Library.Pages
import Mediaops.Library.Reconcile
import Mediaops.Library.Remote
import Mediaops.Library.Rows
import Mediaops.Library.Serde
import Mediaops.Library.Shell
import Mediaops.Library.Smooth
import Mediaops.Library.Sql
import Mediaops.Library.Table
import Mediaops.Library.Text
import Mediaops.Library.Text.Lemmas
import Mediaops.Library.Text.Utf8
import Mediaops.Library.Traces
import Mediaops.Library.Transaction
import Mediaops.Library.Trees
import Mediaops.Core.Diff
import Mediaops.Core.Diff.Host
import Mediaops.Core.Document
import Mediaops.Core.Document.Theorems
import Mediaops.Core.FileWalk
import Mediaops.Core.FileWalk.Listing
import Mediaops.Core.FileWalk.Lookup
import Mediaops.Core.FileWalk.Theorems
import Mediaops.Core.Home
import Mediaops.Core.JobMachine
import Mediaops.Core.Jobs
import Mediaops.Core.PathSchema
import Mediaops.Core.PathSchema.Approval
import Mediaops.Core.PathSchema.Dotted
import Mediaops.Core.PathSchema.EpisodePattern
import Mediaops.Core.PathSchema.EpisodeSearch
import Mediaops.Core.PathSchema.EpisodeTag
import Mediaops.Core.PathSchema.Inference
import Mediaops.Core.PathSchema.Normalized
import Mediaops.Core.PathSchema.Parsed
import Mediaops.Core.PathSchema.Projection
import Mediaops.Core.PathSchema.Renderable
import Mediaops.Core.PathSchema.Rendered
import Mediaops.Core.PathSchema.RoundTrip
import Mediaops.Core.PathSchema.SceneTags
import Mediaops.Core.PathSchema.Theorems
import Mediaops.Core.Paths
import Mediaops.Core.TitleId
import Mediaops.Core.TitleId.Keys
import Mediaops.Core.TitleId.Theorems
import Mediaops.Core.Validate
import Mediaops.Core.Walker
import Mediaops.Core.Words
import Mediaops.Store
import Mediaops.Store.Incarnations
import Mediaops.Store.Replay
import Mediaops.Store.Revisions
import Mediaops.Store.Runs
import Mediaops.Store.Theorems
import Mediaops.LocalStore
import Mediaops.LocalStore.Theorems
import Mediaops.Api.Admission
import Mediaops.Api.Admission.Theorems
import Mediaops.Api.Authority
import Mediaops.Api.BoundJobs
import Mediaops.Api.Budget
import Mediaops.Api.Controllers
import Mediaops.Api.Destinations
import Mediaops.Api.Effects
import Mediaops.Api.Effects.Replies
import Mediaops.Api.Effects.Requests
import Mediaops.Api.Effects.Steps
import Mediaops.Api.Env
import Mediaops.Api.JobLifecycle
import Mediaops.Api.Passes
import Mediaops.Api.Reads
import Mediaops.Api.Redaction
import Mediaops.Api.Run
import Mediaops.Api.Serve
import Mediaops.Api.Sync
import Mediaops.Api.SyncAuthority
import Mediaops.Api.SyncPhases
import Mediaops.Api.SyncPlan
import Mediaops.Api.SyncPlan.Names
import Mediaops.Api.SyncPlan.Theorems
import Mediaops.Api.TitleProofs
import Mediaops.Tui
import Mediaops.Tui.Cache
import Mediaops.Tui.Feed
import Mediaops.Tui.Session
import Mediaops.Tui.Theorems
import Mediaops.Scheduler
import Mediaops.Scheduler.Theorems
import Mediaops.Inventory
import Mediaops.Inventory.Freshness
import Mediaops.Inventory.Holds
import Mediaops.Inventory.Protocol
import Mediaops.Inventory.Theorems
import Mediaops.Inventory.Unmonitor
import Mediaops.Maintenance
import Mediaops.Maintenance.Theorems
import Mediaops.Transfer
import Mediaops.Transfer.Calls
import Mediaops.Transfer.Ranges
import Mediaops.Transfer.Requests
import Mediaops.Transfer.Resume
import Mediaops.Transfer.Safety
import Mediaops.Transfer.Schedule
import Mediaops.Transfer.Theorems
import Mediaops.Install
import Mediaops.Install.Atomic
import Mediaops.Install.Backup
import Mediaops.Install.Calls
import Mediaops.Install.Errors
import Mediaops.Install.Exchange
import Mediaops.Install.Paths
import Mediaops.Install.Preserve
import Mediaops.Install.Replace
import Mediaops.Install.Safety
import Mediaops.Install.Separation
import Mediaops.Install.Sidecars
import Mediaops.Install.Slot
import Mediaops.Install.Slot.Calls
import Mediaops.Install.Slot.Copies
import Mediaops.Install.Slot.Theorems
import Mediaops.Pull
import Mediaops.Pull.Safety
import Mediaops.Pull.Theorems
import Mediaops.Arr
import Mediaops.Arr.DesiredState
import Mediaops.Arr.Edge
import Mediaops.Arr.Edge.Again
import Mediaops.Arr.Edge.Checks
import Mediaops.Arr.GrabApply
import Mediaops.Arr.GrabApply.AppRuns
import Mediaops.Arr.GrabApply.Apps
import Mediaops.Arr.GrabApply.Named
import Mediaops.Arr.GrabApply.NamedRuns
import Mediaops.Arr.GrabApply.Policies
import Mediaops.Arr.GrabApply.Resources
import Mediaops.Arr.GrabApply.Theorems
import Mediaops.Arr.Inbox
import Mediaops.Arr.Inbox.Holds
import Mediaops.Arr.Inbox.Paging
import Mediaops.Arr.Inbox.Unmonitor
import Mediaops.Arr.Lists
import Mediaops.Arr.Prowlarr
import Mediaops.Arr.Server
import Mediaops.Reclaim
import Mediaops.Reclaim.Theorems
import Mediaops.Plan
import Mediaops.Plan.Budgets
import Mediaops.Plan.Conservation
import Mediaops.Plan.Sources
import Mediaops.Plan.Theorems
import Mediaops.Apply
import Mediaops.Apply.Safety
import Mediaops.Apply.Staging
import Mediaops.Apply.Theorems
import Mediaops.Seedbox
import Mediaops.Seedbox.Theorems
import Mediaops.Encode
import Mediaops.Encode.Files
import Mediaops.Encode.Journal
import Mediaops.Encode.Theorems
import Mediaops.Proto
import Mediaops.Proto.Theorems
import Mediaops.Ssh
import Mediaops.Ssh.Splice
import Mediaops.Ssh.Splice.Theorems
import Mediaops.HomeLibrary
import Mediaops.HomeLibrary.Kept
import Mediaops.HomeLibrary.Paths
import Mediaops.HomeLibrary.Publication
import Mediaops.HomeLibrary.Records
import Mediaops.JobsTable
import Mediaops.JobsTable.Answers
import Mediaops.JobsTable.History
import Mediaops.JobsTable.Runs
import Mediaops.JobsTable.Theorems
import Mediaops.TitleIndex
import Mediaops.TitleIndex.Relocation
import Mediaops.TitleIndex.Runs
import Mediaops.TitleIndex.Theorems
