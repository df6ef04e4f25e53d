import NativeKiln.Words.Cut
import NativeKiln.Words.Passes
import NativeKiln.Words.Undisturbed
import NativeKiln.Words.Selection
import NativeKiln.Tables.UniqueIndex
import NativeKiln.Tables.Relational
import NativeKiln.Counting.Collisions
import NativeKiln.Interaction.Program
import NativeKiln.Interaction.System
import NativeKiln.Interaction.Isolation
import NativeKiln.Interaction.Lifecycle
import NativeKiln.Interaction.Together
import NativeKiln.Codec.JsString
import NativeKiln.Codec.Utf8
import NativeKiln.Codec.Base64
import NativeKiln.Codec.JsNumber
import NativeKiln.Codec.Email
import NativeKiln.Codec.RegExp
import NativeKiln.Codec.JsonText
import NativeKiln.Shared.Errors
import NativeKiln.Shared.Redaction
import NativeKiln.Shared.JsonPath
import NativeKiln.Shared.Logger
import NativeKiln.Shared.HealthServer
import NativeKiln.Shared.BuildState
import NativeKiln.Shared.SubmissionState
import NativeKiln.Config.Zod
import NativeKiln.Credentials.Cipher
import NativeKiln.Config.LoadConfig
import NativeKiln.Config.Services
import NativeKiln.Credentials.Authenticity
import NativeKiln.Database.Credentials
import NativeKiln.Database.Schema
import NativeKiln.Api.World
import NativeKiln.Api.RateLimit
import NativeKiln.Api.Session
import NativeKiln.Api.SessionStore
import NativeKiln.Api.Http
import NativeKiln.Api.Server
import NativeKiln.Api.Readiness
import NativeKiln.Api.Lockout
import NativeKiln.Api.Authentication
import NativeKiln.Api.Statements
import NativeKiln.Api.SessionTable
import NativeKiln.Api.Identifiers
import NativeKiln.Api.Cookies
import NativeKiln.Api.Confidentiality
import NativeKiln.Api.Enumeration
import NativeKiln.Api.Login
import NativeKiln.Api.Answers
import NativeKiln.Api.SignedIn
import NativeKiln.Api.Probing
import NativeKiln.Api.Storage
import NativeKiln.Database.Seed
import NativeKiln.Api.Seeding
import NativeKiln.Api.SeedOutput
import NativeKiln.Api.LoginIsolation
import NativeKiln.Web.LoginPage
import NativeKiln.Runner.Doctor
