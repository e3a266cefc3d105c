import Democrachat.Library.Table
import Democrachat.Library.RateCap
import Democrachat.Library.Prog
import Democrachat.Library.Schedule
import Democrachat.Library.RelyGuarantee
import Democrachat.Domain.Ids
import Democrachat.Domain.Text
import Democrachat.Domain.User
import Democrachat.Domain.Membership
import Democrachat.Domain.Governance
import Democrachat.Domain.Server
import Democrachat.Domain.Social
import Democrachat.Domain.Chat
import Democrachat.Store.Inner
import Democrachat.Store.Ports
import Democrachat.App.Franchise
import Democrachat.App.Chat
import Democrachat.App.Governance
import Democrachat.System.Ops
import Democrachat.Federation.Event
import Democrachat.Federation.Registry
import Democrachat.Federation.Authorize
import Democrachat.Federation.Replica
import Democrachat.Federation.Replicator
import Democrachat.Federation.Ingest
import Democrachat.Polity.Basic
import Democrachat.Polity.Enact
import Democrachat.Polity.Sweep
import Democrachat.Polity.Silent
import Democrachat.Polity.Moves
import Democrachat.Polity.Turns
import Democrachat.Polity.Requests
import Democrachat.Polity.Roster
import Democrachat.Polity.Invariants
import Democrachat.Polity.Ballots
import Democrachat.Polity.Closing
import Democrachat.Polity.Pending
import Democrachat.Polity.Stages
import Democrachat.Properties.Franchise
import Democrachat.Properties.RateCap
import Democrachat.Properties.RateCapRace
import Democrachat.Properties.Quorum
import Democrachat.Properties.SelfGovernment
import Democrachat.Properties.LifeCycle
import Democrachat.Properties.Confinement
import Democrachat.Properties.OneByOne
import Democrachat.Properties.SweepRace
import Democrachat.Properties.VotingWindow
import Democrachat.Properties.Ban
import Democrachat.Properties.FeedProgress
import Democrachat.Properties.Unauthentic
import Democrachat.Federation.Rows
import Democrachat.Properties.ForeignRows
import Democrachat.Federation.History
import Democrachat.Properties.Replay
import Democrachat.Federation.Polling
import Democrachat.Properties.Stall
import Democrachat.Federation.Network
import Democrachat.Properties.Fencing
import Democrachat.Properties.SkippedRecords
import Democrachat.Polity.Credit
import Democrachat.Properties.Endorsement
import Democrachat.Library.Script
import Democrachat.Polity.Scripts
import Democrachat.Properties.LostUpdate
import Democrachat.Properties.FeedAgreement
import Democrachat.Federation.ReplayGuard
import Democrachat.Properties.CommandReplay
import Democrachat.Federation.Cells
import Democrachat.Federation.Mirror
import Democrachat.Properties.Convergence
import Democrachat.Store.Snapshot
import Democrachat.Properties.Restart
import Democrachat.System.Mutations
import Democrachat.Properties.ReplicaReads
import Democrachat.App.Social
import Democrachat.Federation.Command
import Democrachat.Properties.Forwarders
import Democrachat.Federation.WriteRouter
import Democrachat.Federation.Pairs
import Democrachat.Properties.Redrive
import Democrachat.Federation.Homes
import Democrachat.Properties.Friendships
import Democrachat.System.Social
import Democrachat.Properties.Consent
import Democrachat.Federation.Rehoming
import Democrachat.System.Cluster
import Democrachat.Properties.Blocks
import Democrachat.Federation.EtcdRegistry
import Democrachat.Federation.Grants
import Democrachat.Properties.EtcdClaims
import Democrachat.Properties.OwnerReads
import Democrachat.Library.Selection
import Democrachat.Properties.Failover
import Democrachat.Properties.Heirs
import Democrachat.System.Upkeep
import Democrachat.Properties.LiveHomes
import Democrachat.Properties.RehomingPolicy
import Democrachat.Properties.Minting
import Democrachat.Properties.Sessions
import Democrachat.Properties.SigningPayload
import Democrachat.Library.Intake
import Democrachat.Properties.Registration
import Democrachat.Library.WriteBehind
import Democrachat.System.Disk
import Democrachat.Properties.Durability
import Democrachat.Properties.InviteOnly
import Democrachat.App.Emojis
import Democrachat.App.Keys
import Democrachat.System.UseCases
import Democrachat.Polity.UseCases
import Democrachat.Polity.Posting
import Democrachat.Properties.Tombstones
import Democrachat.Polity.Blobs
import Democrachat.Properties.Attachments
import Democrachat.Properties.EndToEnd
import Democrachat.Properties.Sanctions
import Democrachat.Properties.Roles
import Democrachat.Domain.NormalForms
import Democrachat.Properties.Names
import Democrachat.Properties.LastBallots
import Democrachat.Domain.Mentions
import Democrachat.App.Listing
import Democrachat.App.Mentions
import Democrachat.Web.Messages
import Democrachat.Federation.Threads
import Democrachat.Properties.HistorySharing
import Democrachat.Properties.MentionedMembers
import Democrachat.Federation.League
import Democrachat.Properties.OldestFirst
import Democrachat.Domain.MessageTree
import Democrachat.Domain.EmojiRanking
import Democrachat.Properties.EmojiRanking
import Democrachat.Domain.Jury
import Democrachat.Properties.JurySizing
import Democrachat.Properties.JurySelection
import Democrachat.Properties.MessageTree
import Democrachat.Properties.RateLimit
import Democrachat.Properties.Verdict
import Democrachat.Properties.Verification
import Democrachat.Domain.MentionScan
import Democrachat.Properties.MentionGrammar
import Democrachat.Properties.Normalizers
import Democrachat.Library.Simulation
import Democrachat.Federation.EtcdPlane
import Democrachat.Federation.PlaneStore
import Democrachat.Federation.RehomingController
import Democrachat.Properties.EtcdRefinement
import Democrachat.Properties.EtcdNominations
import Democrachat.Library.Envelope
import Democrachat.App.Vault
import Democrachat.System.Boot
import Democrachat.Properties.AtRest
import Democrachat.System.Frames
import Democrachat.Properties.Enrolment
import Democrachat.Properties.Mail
import Democrachat.Library.SealedBox
import Democrachat.App.E2ee
import Democrachat.Web.Browser
import Democrachat.System.Letters
import Democrachat.Properties.Correspondence
import Democrachat.Domain.EmojiImage
import Democrachat.Web.Handlers
import Democrachat.Web.Cookies
import Democrachat.Properties.Signatures
import Democrachat.Properties.SignedIn
import Democrachat.Store.MediaFiles
import Democrachat.Properties.MediaFiles
import Democrachat.Properties.References
