import Marks.Runs
import Marks.Version
import Marks.Engine
import Marks.Protocol
import Marks.Authority
import Marks.Store
import Marks.Room
import Marks.Rooms
import Marks.OpLog
import Marks.RoomSound
import Marks.StoreSound
import Marks.RoomsSound
import Marks.LiveSound
import Marks.CommitSound
import Marks.ReplicaSound
import Marks.AuthoritySound
import Marks.WriteSound
import Marks.RegistrySound
import Marks.EpochSound
import Marks.Journal
import Marks.Session
import Marks.Tape
import Marks.SessionSound
import Marks.JournalSound
import Marks.OwnSiteSound
import Marks.DurableSound
import Marks.Tabs
import Marks.TabsSound
import Marks.Presence
import Marks.PresenceSound
import Marks.PresenceWire
import Marks.Rotation
import Marks.RotationSound
import Marks.Workspace
import Marks.WorkspaceSound
import Marks.VersionSound
import Marks.Attribution
import Marks.AttributionSound
import Marks.Strings
import Marks.Blocks
import Marks.MarkdownWorker
import Marks.Preview
import Marks.PreviewSound
import Marks.IncrementalSound
import Marks.PresentSound
import Marks.PreviewBlocksSound
import Marks.Prefixes
import Marks.Outbound
import Marks.OutboundSound
import Marks.Commands
import Marks.CommandsSound
import Marks.Tickets
import Marks.TicketsSound
import Marks.Json
import Marks.Agent
import Marks.AgentSound
import Marks.Lists
import Marks.DeliverySound
import Marks.Backup
import Marks.BackupSound
import Marks.AgentPill
import Marks.AgentPillSound
import Marks.Gateway
import Marks.GatewaySound
import Marks.EditorBridge
import Marks.EditorBridgeSound
import Marks.Splices
import Marks.HalvesSound
import Marks.OriginSound
import Marks.SitesSound
import Marks.LocalJournal
import Marks.LocalJournalSound
import Marks.AckedSound
import Marks.AgentHub
import Marks.AgentHubSound
import Marks.Enrollment
import Marks.EnrollmentRoutes
import Marks.EnrollmentSound
import Marks.Assets
import Marks.AssetsSound
import Marks.LocalTabs
import Marks.LocalTabsSound
import Marks.Envelope
import Marks.EnvelopeSound
import Marks.PresenceCodecSound
import Marks.OrderedMap
import Marks.PresenceStore
import Marks.PresenceStoreSound
import Marks.PresenceAgreeSound
import Marks.OwnPresenceSound
import Marks.LinesSound
import Marks.SourceBlocksSound
import Marks.Tasks
import Marks.TasksSound
import Marks.PersistLock
import Marks.PersistLockSound
import Marks.SigningClient
import Marks.SigningClientSound
import Marks.Keyset
import Marks.Review
import Marks.ReviewSound
import Marks.Transactions
import Marks.Purge
import Marks.PurgeSound
import Marks.GroupCommit
import Marks.GroupCommitSound
import Marks.GroupCommitRuns
import Marks.Headings
import Marks.Operations
import Marks.HeadingsSound
import Marks.RenameSound
import Marks.ShiftSound
import Marks.SectionsSound
import Marks.ExchangeSound
import Marks.SiblingsSound
import Marks.MoveSound
import Marks.Sheets
import Marks.SheetsSound
import Marks.LineDiff
import Marks.Counterfactual
import Marks.CounterfactualSound
import Marks.LineDiffSound
import Marks.Crc
import Marks.Fields
import Marks.StoredZip
import Marks.ZipFormat
import Marks.StoredZipSound
import Marks.Overlaps
import Marks.Toggles
import Marks.TogglesSound
import Marks.PipeTables
import Marks.PipeTablesSound
import Marks.Naming
import Marks.Slugs
import Marks.SlugsSound
import Marks.Fences
import Marks.FencesSound
import Marks.CrossDocument
import Marks.CrossDocumentSound
import Marks.FrontMatter
import Marks.FrontMatterUpdates
import Marks.CommandsInSight
import Marks.PresenceUint
import Marks.CreateRequest
import Marks.CreateRequestSound
import Marks.AgentHubLimits
import Marks.Framing
import Marks.Upstream
