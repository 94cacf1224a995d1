import PathStore.Text.Blank
import PathStore.Text.Quoted
import PathStore.Path.Parser
import PathStore.Number.Shortest
import PathStore.Number.Notation
import PathStore.Data.Tree
import PathStore.Fault
import PathStore.Log
import PathStore.Store.Contents
import PathStore.Store.Clone
import PathStore.Store.Read
import PathStore.Store.Write
import PathStore.Store.Remove
import PathStore.View
import PathStore.SharedState
import PathStore.Health
import PathStore.Yaml.Contents
import PathStore.Startup
import PathStore.Json.Reader
import PathStore.Json.Wire
import PathStore.Service.App
import PathStore.Service.Web
import PathStore.Data.Template
import PathStore.Store.Build
import PathStore.Store.Items
import PathStore.Store.Shown
import PathStore.Proofs.Reach
import PathStore.Proofs.Sharing
import PathStore.Proofs.Alike
import PathStore.Proofs.Copies
import PathStore.Proofs.Downgrade
import PathStore.Proofs.Frame
import PathStore.Proofs.Snapshots
import PathStore.Proofs.Superseded
import PathStore.Proofs.Transparent
import PathStore.Proofs.Canonical
import PathStore.Proofs.Views
import PathStore.Proofs.Commute
import PathStore.Proofs.Loading
import PathStore.Proofs.Outcomes
import PathStore.Proofs.SharedState
import PathStore.Proofs.Calls
import PathStore.Proofs.Serving
import PathStore.Proofs.Served
import PathStore.Proofs.Refused
import PathStore.Proofs.Rounds
import PathStore.Proofs.Notified
import PathStore.Proofs.Stale
import PathStore.Proofs.Ledger
import PathStore.Proofs.Resolution
import PathStore.Proofs.Updates
import PathStore.Proofs.ReadBack
import PathStore.Proofs.Touched
import PathStore.Proofs.Removed
import PathStore.Proofs.Positions
import PathStore.Proofs.Subscriptions
import PathStore.Proofs.Failing
import PathStore.Proofs.Abandoned
import PathStore.Proofs.Reports
import PathStore.Proofs.Keys
import PathStore.Proofs.Deletions
import PathStore.Proofs.Overwritten
import PathStore.Proofs.ReadOn
import PathStore.Proofs.Faithful
