import NatsExplorer.History.Fifo
import NatsExplorer.History.IndexComplete
import NatsExplorer.History.IndexTruthful
import NatsExplorer.Subscription.SlowTab
import NatsExplorer.Subscription.HandoffOnce
import NatsExplorer.Subscription.HandoffOrder
import NatsExplorer.Restrict
import NatsExplorer.Subscription.Coherence
import NatsExplorer.Alerts.Orphans
import NatsExplorer.Filter.Activation
import NatsExplorer.Bundle.RoundTrip
import NatsExplorer.Bundle.Export
import NatsExplorer.History.Accounting
import NatsExplorer.History.Setting
import NatsExplorer.Update.Replacing
import NatsExplorer.Update.Versions
import NatsExplorer.Ws.Departure
import NatsExplorer.Ws.Narrowed
import NatsExplorer.Client.Settled
import NatsExplorer.Subscription.Resubscribe
import NatsExplorer.Connection.AutoConnect
import NatsExplorer.Connection.InForce
import NatsExplorer.Client.NoHoles
import NatsExplorer.Settings.Flushing
import NatsExplorer.Feature.AlertRules
import NatsExplorer.History.Forgetting
import NatsExplorer.Handler.Clear
import NatsExplorer.Handler.FilteredPages
import NatsExplorer.Feature.Specific
import NatsExplorer.Client.FeedCore
import NatsExplorer.Client.Replay
import NatsExplorer.Alerts.Mail
import NatsExplorer.Alerts.Told
import NatsExplorer.Connection.LogStore
import NatsExplorer.Connection.Flaps
import NatsExplorer.Client.HistorySearch
import NatsExplorer.Alerts.Counted
import NatsExplorer.Alerts.Newest
import NatsExplorer.Alerts.Rhythm
import NatsExplorer.Alerts.Acked
import NatsExplorer.Subscription.Tallied
import NatsExplorer.Schema.Drifted
import NatsExplorer.Client.Diff
import NatsExplorer.Client.StepLatency
import NatsExplorer.Client.Relations
import NatsExplorer.Client.Topology
import NatsExplorer.Client.ProtoRaw
import NatsExplorer.Client.ExportMessages
import NatsExplorer.Client.UrlSync
import NatsExplorer.RunCli.Agreement
import NatsExplorer.Subscription.Rate
import NatsExplorer.Subscription.Budget
import NatsExplorer.Handler.Expansion
import NatsExplorer.Handler.Aggregate
import NatsExplorer.Handler.Execute
import NatsExplorer.History.MemSearch
import NatsExplorer.History.Rollup
import NatsExplorer.Handler.StreamBackup
import NatsExplorer.Audit.Store
import NatsExplorer.Client.DeepLink
import NatsExplorer.Handler.Gaps
