import CftpServer.Lib.CString
import CftpServer.Lib.Run
import CftpServer.Lib.Chain
import CftpServer.Lib.Rounding
import CftpServer.Lib.Growth
import CftpServer.Lib.Ledger
import CftpServer.Lib.Similar
import CftpServer.Lib.Numeral
import CftpServer.Lib.Trim
import CftpServer.Lib.ByteOrder
import CftpServer.Lib.FileTree
import CftpServer.Lib.Buffer
import CftpServer.Lib.Loop
import CftpServer.HashMap.Table
import CftpServer.HashMap.Chains
import CftpServer.HashMap.Resize
import CftpServer.HashMap.Calls
import CftpServer.HashMap.FiniteMap
import CftpServer.HashMap.Sizes
import CftpServer.HashMap.BackLinks
import CftpServer.Command.Parser
import CftpServer.Command.Reader
import CftpServer.Command.Table
import CftpServer.Command.Spelling
import CftpServer.Command.Terminator
import CftpServer.Command.Buffers
import CftpServer.Logger
import CftpServer.Config.Manager
import CftpServer.Config.Assignments
import CftpServer.Config.Lines
import CftpServer.Config.Seed
import CftpServer.Session.Env
import CftpServer.Security.Auth
import CftpServer.Server.Accept
import CftpServer.Server.Descriptors
import CftpServer.Server.Ipc
import CftpServer.Session.State
import CftpServer.Session.Data
import CftpServer.Session.List
import CftpServer.Session.Transfer
import CftpServer.Session.Dele
import CftpServer.Session.Actions
import CftpServer.Session.Step
import CftpServer.Session.Dispatch
import CftpServer.Session.Moves
import CftpServer.Session.Handlers
import CftpServer.Session.Frame
import CftpServer.Session.Login
import CftpServer.Session.Identity
import CftpServer.Session.Paths
import CftpServer.Session.Download
import CftpServer.Session.Passive
import CftpServer.Session.Answers
import CftpServer.Session.Ownership
import CftpServer.Session.AcceptTimeout
import CftpServer.Session.Aside
import CftpServer.Session.DataConnection
import CftpServer.Session.Idle
import CftpServer.Session.Upload
import CftpServer.Session.Listing
import CftpServer.Session.Completion
import CftpServer.Session.Agree
import CftpServer.Session.Interleaving
import CftpServer.Session.Peer
import CftpServer.Session.Protection
import CftpServer.Session.Descriptors
import CftpServer.Session.FileSystem
import CftpServer.Session.RecursiveDelete
import CftpServer.Session.DeleTarget
import CftpServer.Session.PassiveReply
import CftpServer.Session.Replies
import CftpServer.Session.Draining
import CftpServer.Session.Stall
import CftpServer.Session.DeleteComplete
import CftpServer.Lib.FileStore
import CftpServer.Session.Coupling
import CftpServer.Session.Store
import CftpServer.Session.Jail
import CftpServer.Session.Confinement
import CftpServer.Session.History
import CftpServer.Session.Unwritten
import CftpServer.Session.StoredUpload
import CftpServer.Session.RoundTrip
import CftpServer.HashMap.Release
import CftpServer.Server.Reaping
import CftpServer.Session.Calls
import CftpServer.Session.Reports
import CftpServer.Session.WorkingDirectory
