import MemberAgent.Agent
import MemberAgent.Client
import MemberAgent.CommandLine
import MemberAgent.CommandLine.Help
import MemberAgent.Controller.Basic
import MemberAgent.Controller.Server
import MemberAgent.Controller.Slot
import MemberAgent.Controller.Timeline
import MemberAgent.Definition.CustomResource
import MemberAgent.Definition.Install
import MemberAgent.Definition.Schema
import MemberAgent.Definition.Works
import MemberAgent.Discovery.KindTable
import MemberAgent.Discovery.Listing
import MemberAgent.Discovery.Lookup
import MemberAgent.Discovery.Maturity
import MemberAgent.Double.Basic
import MemberAgent.Double.Decimal
import MemberAgent.EventFilter
import MemberAgent.Failure
import MemberAgent.Http.Answer
import MemberAgent.Http.Client
import MemberAgent.Http.Discovery
import MemberAgent.Http.Endpoint
import MemberAgent.Http.Message
import MemberAgent.Http.Scripted
import MemberAgent.Http.Target
import MemberAgent.Http.Wire
import MemberAgent.HubSource
import MemberAgent.InMemory.Hub
import MemberAgent.InMemory.Member
import MemberAgent.InMemory.World
import MemberAgent.Json.Basic
import MemberAgent.Json.Location
import MemberAgent.Json.Parser
import MemberAgent.Json.Reading
import MemberAgent.Json.Writer
import MemberAgent.Kubeconfig.Access
import MemberAgent.Kubeconfig.Reading
import MemberAgent.Kubeconfig.Secret
import MemberAgent.Logging.Event
import MemberAgent.Logging.Filter
import MemberAgent.Main
import MemberAgent.Manifest
import MemberAgent.Mapping
import MemberAgent.Object.ApiObject
import MemberAgent.Object.ContentHash
import MemberAgent.Object.Metadata
import MemberAgent.Program
import MemberAgent.Reconcile.Apply
import MemberAgent.Reconcile.Lifecycle
import MemberAgent.Reconcile.Monitor
import MemberAgent.Reconcile.Tracking
import MemberAgent.Rehearsal.Disturbance
import MemberAgent.Rehearsal.Script
import MemberAgent.Sha256
import MemberAgent.Table
import MemberAgent.Text.Base64
import MemberAgent.Text.Basic
import MemberAgent.Text.Escaped
import MemberAgent.Text.Utf8
import MemberAgent.Timestamp.Basic
import MemberAgent.Timestamp.Rfc3339
import MemberAgent.Work.AppliedWork
import MemberAgent.Work.Condition
import MemberAgent.Work.Resource
import MemberAgent.Work.Work
import MemberAgent.Yaml.Reader
import MemberAgent.Yaml.Scalar
import MemberAgent.Yaml.Writer
import MemberAgent.Proofs.Program.Calls
import MemberAgent.Proofs.InMemory.Fate
import MemberAgent.Proofs.InMemory.Lookups
import MemberAgent.Proofs.Lifecycle.Life
import MemberAgent.Proofs.Lifecycle.Scene
import MemberAgent.Proofs.Lifecycle.Standing
import MemberAgent.Proofs.Lifecycle.Phase
import MemberAgent.Proofs.Lifecycle.Safety
import MemberAgent.Proofs.Program.Transcript
import MemberAgent.Proofs.Tracking.Attempts
import MemberAgent.Proofs.InMemory.Versions
import MemberAgent.Proofs.InMemory.Reaches
import MemberAgent.Proofs.InMemory.Interleaved
import MemberAgent.Proofs.InMemory.Crowd
import MemberAgent.Proofs.Tracking.Released
import MemberAgent.Proofs.Tracking.Releasing
import MemberAgent.Proofs.Tracking.Aligned
import MemberAgent.Proofs.Tracking.Difference
import MemberAgent.Proofs.Tracking.Sides
import MemberAgent.Proofs.Tracking.Realigned
import MemberAgent.Proofs.Tracking.Replay
import MemberAgent.Proofs.Tracking.Beside
import MemberAgent.Proofs.Tracking.Concurrent
import MemberAgent.Proofs.Apply.Reported
import MemberAgent.Proofs.Apply.Written
import MemberAgent.Proofs.Tracking.Tracked
import MemberAgent.Proofs.Tracking.Coverage
import MemberAgent.Proofs.Tracking.Upkeep
import MemberAgent.Proofs.InMemory.Placement
import MemberAgent.Proofs.Ownership.Adopted
import MemberAgent.Proofs.Ownership.Handling
import MemberAgent.Proofs.Ownership.Shared
import MemberAgent.Proofs.Ownership.Teardown
import MemberAgent.Proofs.Ownership.Live
import MemberAgent.Proofs.Ownership.Takeover
import MemberAgent.Proofs.Lifecycle.Retried
import MemberAgent.Proofs.Lifecycle.Orphans
import MemberAgent.Proofs.Apply.Truthful
import MemberAgent.Proofs.Apply.Stamped
import MemberAgent.Proofs.Ownership.Gathered
import MemberAgent.Proofs.Apply.Reapplied
import MemberAgent.Proofs.Http.MergePatch
import MemberAgent.Proofs.Http.Document
import MemberAgent.Proofs.Http.Patched
import MemberAgent.Proofs.Ownership.Unowned
import MemberAgent.Proofs.Tracking.UpToDate
import MemberAgent.Proofs.Apply.Accounting
import MemberAgent.Proofs.Text.Digits
import MemberAgent.Proofs.Json.ReadBack
import MemberAgent.Proofs.Json.Records
import MemberAgent.Proofs.Timestamp.ReadBack
import MemberAgent.Proofs.Work.ReadBack
import MemberAgent.Proofs.Apply.Requeued
import MemberAgent.Proofs.Apply.Restored
import MemberAgent.Proofs.Lifecycle.Usable
import MemberAgent.Proofs.Tracking.Addressed
import MemberAgent.Proofs.Watch.Remembered
import MemberAgent.Proofs.Watch.Triggered
import MemberAgent.Proofs.Watch.Incarnations
import MemberAgent.Proofs.Watch.Called
import MemberAgent.Proofs.Json.Typed
import MemberAgent.Proofs.Object.Declared
import MemberAgent.Proofs.Object.Hashed
import MemberAgent.Proofs.Apply.Faithful
import MemberAgent.Proofs.Work.Transitions
import MemberAgent.Proofs.Discovery.Known
import MemberAgent.Proofs.Discovery.Wired
