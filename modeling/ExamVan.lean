import ExamVan.Admin.BlankBoundaries
import ExamVan.Admin.BulkScope
import ExamVan.Admin.Claims
import ExamVan.Admin.CreateExam
import ExamVan.Admin.CreateOnce
import ExamVan.Admin.Delegation
import ExamVan.Admin.EditRuns
import ExamVan.Admin.ExamHandlers
import ExamVan.Admin.ExamOps
import ExamVan.Admin.ExamScope
import ExamVan.Admin.ExportSheet
import ExamVan.Admin.Handlers
import ExamVan.Admin.Lifecycle
import ExamVan.Admin.Multipart
import ExamVan.Admin.OneExam
import ExamVan.Admin.PackageObjects
import ExamVan.Admin.QuestionCheck
import ExamVan.Admin.SavedPackages
import ExamVan.Admin.SettingValues
import ExamVan.Admin.SettingsRoundTrip
import ExamVan.Admin.StaysShut
import ExamVan.Admin.Submissions
import ExamVan.Admin.UpdateExam
import ExamVan.Admin.Upload
import ExamVan.Admin.UserRoles
import ExamVan.Admin.Users
import ExamVan.Admin.VoucherExpiry
import ExamVan.Admin.VoucherLocks
import ExamVan.Admin.VoucherRuns
import ExamVan.Admin.VoucherTime
import ExamVan.Admin.Vouchers
import ExamVan.Api.Approval
import ExamVan.Api.ApprovalRuns
import ExamVan.Api.Body
import ExamVan.Api.ExamList
import ExamVan.Api.Idempotency
import ExamVan.Api.OwnResult
import ExamVan.Api.PollStates
import ExamVan.Api.RequiredIdentity
import ExamVan.Api.Result
import ExamVan.Api.ResultPoll
import ExamVan.Api.Submit
import ExamVan.Api.SubmitGate
import ExamVan.Api.TokenRotation
import ExamVan.Api.Truncation
import ExamVan.Auth.BlockCuts
import ExamVan.Auth.DatabaseOnly
import ExamVan.Auth.Forms
import ExamVan.Auth.Lockout
import ExamVan.Auth.Otp
import ExamVan.Auth.OtpGuesses
import ExamVan.Auth.OtpOnce
import ExamVan.Auth.OtpRequests
import ExamVan.Auth.OtpWorld
import ExamVan.Auth.Redirect
import ExamVan.Auth.TemplateRenderer
import ExamVan.Auth.UniqueUsers
import ExamVan.Auth.UserStore
import ExamVan.Db.ConnectionUrl
import ExamVan.Db.LoggedUrl
import ExamVan.Db.Pool
import ExamVan.Db.PoolRuns
import ExamVan.Db.RealPool
import ExamVan.Helpers.CivilDays
import ExamVan.Helpers.IsoUtc
import ExamVan.Helpers.PgTimes
import ExamVan.Helpers.Smtp
import ExamVan.Helpers.StrictTimes
import ExamVan.Helpers.WibTimes
import ExamVan.Http.AdminApi
import ExamVan.Http.CookieHeader
import ExamVan.Http.Identity
import ExamVan.Http.Router
import ExamVan.Http.Routes
import ExamVan.Http.SessionCookie
import ExamVan.Lib.Bytes
import ExamVan.Lib.Consumers
import ExamVan.Lib.Incremental
import ExamVan.Lib.JsonDepth
import ExamVan.Lib.JsonQuotes
import ExamVan.Lib.JsonSearch
import ExamVan.Lib.JsonText
import ExamVan.Lib.Ledger
import ExamVan.Lib.Markup
import ExamVan.Lib.PaddedLex
import ExamVan.Lib.Pages
import ExamVan.Lib.Patterns
import ExamVan.Lib.Percent
import ExamVan.Lib.Protocol
import ExamVan.Lib.Registry
import ExamVan.Lib.Relation
import ExamVan.Lib.Scan
import ExamVan.Lib.Session
import ExamVan.Lib.SigV4
import ExamVan.Lib.SignedHeaders
import ExamVan.Lib.Transaction
import ExamVan.Lib.Upsert
import ExamVan.Lib.Wire
import ExamVan.Middleware.ExactAnswer
import ExamVan.Middleware.FullMarks
import ExamVan.Middleware.Grade
import ExamVan.Middleware.Notations
import ExamVan.Middleware.OwnMembers
import ExamVan.Middleware.QuestionText
import ExamVan.Middleware.RateLimiter
import ExamVan.Middleware.Scoring
import ExamVan.Middleware.Tokens
import ExamVan.Middleware.Version
import ExamVan.Middleware.Writing
import ExamVan.Presence.Drain
import ExamVan.Presence.DrainBatch
import ExamVan.Presence.DrainRuns
import ExamVan.Presence.Http
import ExamVan.Presence.Hub
import ExamVan.Presence.Keys
import ExamVan.Presence.Survival
import ExamVan.Public.AnswerSecrecy
import ExamVan.Public.Hasil
import ExamVan.Public.ResultPages
import ExamVan.Public.ResultTimes
import ExamVan.Queue.Accounting
import ExamVan.Queue.DualFormat
import ExamVan.Queue.Latest
import ExamVan.Queue.Persist
import ExamVan.Queue.Retries
import ExamVan.Queue.RoundTrip
import ExamVan.Queue.Spool
import ExamVan.Queue.Submissions
import ExamVan.Queue.Worker
import ExamVan.R2.Client
import ExamVan.R2.ExamFiles
import ExamVan.R2.Presign
import ExamVan.R2.Redirects
import ExamVan.Redis.Client
import ExamVan.Server.Handed
import ExamVan.Server.HeaderLines
import ExamVan.Server.StaticFiles
import ExamVan.Server.Workers
import ExamVan.Store.ExamTable
import ExamVan.Store.Interchange
import ExamVan.Store.Memory
import ExamVan.Store.Postgres
import ExamVan.Store.PostgresStore
import ExamVan.Utils.AnswerKeys
import ExamVan.Utils.Sanitize
import ExamVan.Utils.Secrecy
import ExamVan.Utils.StripLoop
import ExamVan.Utils.StripText
import ExamVan.Websocket.Broadcasts
import ExamVan.Websocket.Chunks
import ExamVan.Websocket.Connection
import ExamVan.Websocket.Deliveries
import ExamVan.Websocket.Flush
import ExamVan.Websocket.Frame
import ExamVan.Websocket.Hub
import ExamVan.Websocket.HubRuns
import ExamVan.Websocket.Origin
import ExamVan.Websocket.Socketio
