import FileHub.Lib.Prog
import FileHub.Lib.Answers
import FileHub.Lib.Pool
import FileHub.Lib.Net
import FileHub.Lib.Issues
import FileHub.Lib.Agree
import FileHub.Lib.History
import FileHub.Lib.Table
import FileHub.Lib.CString
import FileHub.Lib.Mirror
import FileHub.Lib.HttpText
import FileHub.Lib.SqlText
import FileHub.Lib.LexRange
import FileHub.Lib.Strstr
import FileHub.Lib.Scripted
import FileHub.Lib.CBuffer
import FileHub.Lib.Incremental
import FileHub.Hiredis.Reader
import FileHub.Proofs.ReplyItems
import FileHub.Proofs.ReplyStream
import FileHub.Proofs.ReplyRoundTrip
import FileHub.Model.Tables
import FileHub.Model.Redis
import FileHub.Model.World
import FileHub.Model.Conn
import FileHub.Model.Json
import FileHub.Model.Session
import FileHub.Model.ConnPool
import FileHub.Model.Workers
import FileHub.Model.FileInfoLock
import FileHub.Base.Util
import FileHub.Base.ConfigFileReader
import FileHub.Api.Common
import FileHub.Api.Dealfile
import FileHub.Api.DealSharefile
import FileHub.Api.Md5
import FileHub.Api.Upload
import FileHub.Api.Storage
import FileHub.Api.Sharefiles
import FileHub.Api.Login
import FileHub.Api.Sharepicture
import FileHub.Api.Register
import FileHub.Api.Myfiles
import FileHub.Api.Requests
import FileHub.Api.Sql
import FileHub.Api.Server
import FileHub.Api.Buffers
import FileHub.Http.Server
import FileHub.Http.Conn
import FileHub.Http.Response
import FileHub.Proofs.Calls
import FileHub.Proofs.Statements
import FileHub.Proofs.NoFault
import FileHub.Proofs.HandlerCalls
import FileHub.Proofs.Quoting
import FileHub.Proofs.Known
import FileHub.Proofs.KnownCalls
import FileHub.Proofs.Effects
import FileHub.Proofs.RefCount
import FileHub.Proofs.Stored
import FileHub.Proofs.PartialFailure
import FileHub.Proofs.RankingKeys
import FileHub.Proofs.ShareEffects
import FileHub.Proofs.ShareFlag
import FileHub.Proofs.ShareMirror
import FileHub.Proofs.Ledger
import FileHub.Proofs.Threads
import FileHub.Proofs.LiveFiles
import FileHub.Proofs.ShareRace
import FileHub.Proofs.Tokens
import FileHub.Proofs.Owners
import FileHub.Proofs.Overruns
import FileHub.Proofs.InstantUpload
import FileHub.Proofs.Decoders
import FileHub.Proofs.Outcomes
import FileHub.Proofs.Codes
import FileHub.Proofs.NullPointers
import FileHub.Proofs.Crashes
import FileHub.Proofs.Sessions
import FileHub.Proofs.Routing
import FileHub.Proofs.Dispatch
import FileHub.Proofs.Framing
import FileHub.Proofs.ConnPools
import FileHub.Proofs.Acquisitions
import FileHub.Proofs.Deadlock
import FileHub.Proofs.Membership
import FileHub.Proofs.UploadForms
import FileHub.Proofs.FilePages
import FileHub.Proofs.Downloads
import FileHub.Proofs.Saves
import FileHub.Proofs.Scripts
import FileHub.Proofs.Deletions
import FileHub.Proofs.ShareReports
import FileHub.Proofs.DownloadReports
import FileHub.Proofs.Uploads
import FileHub.Proofs.LockHolders
import FileHub.Proofs.Explode
import FileHub.Proofs.ConfigLines
import FileHub.Proofs.ConfigSaves
import FileHub.Proofs.QueryValues
import FileHub.Proofs.PictureLinks
import FileHub.Proofs.UploadSafety
import FileHub.Proofs.FileSizes
import FileHub.Proofs.LoginTokens
import FileHub.Proofs.Registration
import FileHub.Proofs.UrlCoding
import FileHub.Proofs.Marks
import FileHub.Proofs.Search
import FileHub.Api.CommonStrings
import FileHub.Proofs.Suffixes
import FileHub.Proofs.Trimming
import FileHub.Proofs.RankingPages
import FileHub.Http.HttpParserWrapper
import FileHub.Proofs.HeaderCapture
import FileHub.Lib.Refines
import FileHub.Lib.BigEndian
import FileHub.Muduo.Buffer
import FileHub.Proofs.BufferQueue
