import Wikikiki.Lib.Text
import Wikikiki.Lib.Table
import Wikikiki.Lib.Mutex
import Wikikiki.Lib.Run
import Wikikiki.Lib.Tree
import Wikikiki.Lib.Objects
import Wikikiki.Lib.Versions
import Wikikiki.Lib.Files
import Wikikiki.Lib.UnixPath
import Wikikiki.Lib.Url
import Wikikiki.Lib.Register
import Wikikiki.Lib.Grants
import Wikikiki.Lib.Html
import Wikikiki.Lib.FullText
import Wikikiki.Lib.Form
import Wikikiki.Lib.Json
import Wikikiki.Lib.Cookie
import Wikikiki.Lib.Markup
import Wikikiki.Lib.Script
import Wikikiki.Lib.Shell
import Wikikiki.Error
import Wikikiki.Path
import Wikikiki.Heading
import Wikikiki.Precondition
import Wikikiki.Headers
import Wikikiki.Db
import Wikikiki.Author
import Wikikiki.Editor
import Wikikiki.Repo
import Wikikiki.Auth
import Wikikiki.Resolve
import Wikikiki.Gate
import Wikikiki.Tokens
import Wikikiki.Sessions
import Wikikiki.Duration
import Wikikiki.Lifetime
import Wikikiki.Admin
import Wikikiki.AuditValue
import Wikikiki.Bootstrap
import Wikikiki.IssueToken
import Wikikiki.FileHistory
import Wikikiki.GitObjects
import Wikikiki.Write
import Wikikiki.Ledger
import Wikikiki.History
import Wikikiki.Contents
import Wikikiki.System
import Wikikiki.Creation
import Wikikiki.CommitCalls
import Wikikiki.Repository
import Wikikiki.Http
import Wikikiki.Router
import Wikikiki.Cookies
import Wikikiki.Sync
import Wikikiki.Anonymous
import Wikikiki.Requests
import Wikikiki.Attribution
import Wikikiki.Locking
import Wikikiki.Refinement
import Wikikiki.Recorded
import Wikikiki.Agreement
import Wikikiki.Optimistic
import Wikikiki.Head
import Wikikiki.Reads
import Wikikiki.Fresh
import Wikikiki.Confined
import Wikikiki.Drain
import Wikikiki.Trees
import Wikikiki.PageHistory
import Wikikiki.Liveness
import Wikikiki.Search
import Wikikiki.Snippet
import Wikikiki.Templates
import Wikikiki.FormData
import Wikikiki.Words
import Wikikiki.Conflict
import Wikikiki.HeaderGrammar
import Wikikiki.Layers
import Wikikiki.Underway
import Wikikiki.Repair
import Wikikiki.Browser
import Wikikiki.Links
import Wikikiki.Answers
import Wikikiki.Owners
import Wikikiki.Browsing
import Wikikiki.Deactivation
