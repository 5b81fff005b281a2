import Jumbox.Library.Transition
import Jumbox.Sessions.Run
import Jumbox.Sessions.Download
import Jumbox.Sessions.Resumable
import Jumbox.Sessions.Isolation
import Jumbox.Sessions.Finality
import Jumbox.Concurrency.ChunkRace
import Jumbox.Concurrency.StatusRace
import Jumbox.Concurrency.FinalizeRace
import Jumbox.Concurrency.BurnRace
import Jumbox.Uploads.Cache
import Jumbox.Uploads.ChunkedUploadService
import Jumbox.Uploads.Methods
import Jumbox.Uploads.Run
import Jumbox.Uploads.Mixing
import Jumbox.Library.Backing
import Jumbox.Uploads.Overwriting
import Jumbox.Library.SlidingWindow
import Jumbox.Security.RateLimiter
import Jumbox.Library.Base64
import Jumbox.Library.Rounding
import Jumbox.Security.TokenService
import Jumbox.Concurrency.CounterRace
import Jumbox.Sessions.Status
import Jumbox.Uploads.Folders
import Jumbox.Api.Routes
import Jumbox.Browser.Upload
import Jumbox.Sessions.Reclaim
import Jumbox.Sessions.Restart
import Jumbox.Browser.Server
import Jumbox.Browser.Success
import Jumbox.Browser.Recovery
import Jumbox.Sessions.Expired
import Jumbox.Sessions.Offsets
import Jumbox.Sessions.Removal
import Jumbox.Sessions.Declared
import Jumbox.Uploads.Retry
import Jumbox.Uploads.Sweeping
import Jumbox.Library.Walk
import Jumbox.Uploads.Names
import Jumbox.Sessions.ItemPaths
import Jumbox.Security.Forwarded
import Jumbox.Security.RetryAfter
import Jumbox.Security.BadToken
import Jumbox.Sessions.Swept
import Jumbox.Library.Sweep
import Jumbox.Sessions.Refused
import Jumbox.Sessions.ShareCodes
import Jumbox.Library.Redraw
import Jumbox.Uploads.Codes
import Jumbox.Uploads.Unregistered
import Jumbox.Api.Transfers
import Jumbox.Api.Verdicts
import Jumbox.Uploads.Lifetime
import Jumbox.Library.Pattern
import Jumbox.Uploads.Search
import Jumbox.Library.Positional
import Jumbox.Uploads.TransferCodes
import Jumbox.Browser.Escape
import Jumbox.Uploads.TempFile
import Jumbox.Library.Fields
import Jumbox.Platform.Decimal
import Jumbox.Security.Passwords
import Jumbox.Accounts.AuthService
import Jumbox.Accounts.Run
import Jumbox.Browser.SignedIn
import Jumbox.Uploads.RedisRecords
import Jumbox.Api.Sessions
import Jumbox.Api.Site
import Jumbox.Browser.Transferred
import Jumbox.Browser.Undisturbed
import Jumbox.Browser.CodeField
import Jumbox.Browser.DownloadAll
import Jumbox.Browser.Handoff
