import SyncLayer.Interaction.Program
import SyncLayer.Interaction.Backoff
import SyncLayer.Interaction.Interference
import SyncLayer.Interaction.Threads
import SyncLayer.Interaction.Protocol
import SyncLayer.Interaction.Parallel
import SyncLayer.Interaction.Silence
import SyncLayer.Library.PartialMap
import SyncLayer.Library.HandleTrace
import SyncLayer.Library.Machine
import SyncLayer.Library.Chunks
import SyncLayer.Library.Rank
import SyncLayer.Library.CString
import SyncLayer.Library.Conninfo
import SyncLayer.Library.Json
import SyncLayer.Library.Yaml
import SyncLayer.Library.Sql.Lexer
import SyncLayer.Library.Sql.Tuples
import SyncLayer.Library.Sql.Counting
import SyncLayer.Library.Sql.Words
import SyncLayer.Library.Sql.Grammar
import SyncLayer.Model.Libpq
import SyncLayer.Model.Settings
import SyncLayer.Model.Retry
import SyncLayer.Model.TableTracker
import SyncLayer.Model.Config
import SyncLayer.Model.ReplicationManager
import SyncLayer.Model.Calls
import SyncLayer.Model.Engine
import SyncLayer.Model.DBConnection
import SyncLayer.Model.HealthServer
import SyncLayer.Model.Main
import SyncLayer.Model.Logger
import SyncLayer.Handles.Program
import SyncLayer.Handles.Ledger
import SyncLayer.Handles.Erasure
import SyncLayer.Statements.Retry
import SyncLayer.Statements.Values
import SyncLayer.Statements.Names
import SyncLayer.Statements.Grammar
import SyncLayer.Statements.Integrity
import SyncLayer.Discovery.Resolution
import SyncLayer.Discovery.Keys
import SyncLayer.Database.Tables
import SyncLayer.Database.Server
import SyncLayer.Copy.Batches
import SyncLayer.Copy.Statements
import SyncLayer.Copy.Transfers
import SyncLayer.Copy.Effect
import SyncLayer.Copy.Start
import SyncLayer.Copy.Flag
import SyncLayer.Copy.FailureFree
import SyncLayer.Copy.Paging
import SyncLayer.Copy.Growing
import SyncLayer.Copy.ForeignKeys
import SyncLayer.Copy.Interleavings
import SyncLayer.Copy.Histories
import SyncLayer.Copy.Site
import SyncLayer.Copy.CleanLog
import SyncLayer.Copy.Instances
import SyncLayer.Copy.Recovery
import SyncLayer.Copy.Lifetimes
import SyncLayer.Statements.Texts
import SyncLayer.Handles.Refinement
import SyncLayer.Wire.Record
import SyncLayer.Wire.Nulls
import SyncLayer.Wire.Pages
import SyncLayer.Connection.RoundTrip
import SyncLayer.Connection.Ownership
import SyncLayer.Configuration.Options
import SyncLayer.Configuration.Loading
import SyncLayer.Configuration.Overrides
import SyncLayer.Configuration.Exactness
import SyncLayer.Service.Outages
import SyncLayer.Protocol.Progress
import SyncLayer.Protocol.Conformance
import SyncLayer.Protocol.Consequences
import SyncLayer.Protocol.Totals
import SyncLayer.Service.Exclusion
import SyncLayer.Service.Discipline
import SyncLayer.Service.Idle
import SyncLayer.Service.Startup
import SyncLayer.Service.Lifecycle
import SyncLayer.Service.Report
