import Oxbrook.Foundation.Runs
import Oxbrook.Foundation.Tally
import Oxbrook.Foundation.Ascending
import Oxbrook.Worker.Queue
import Oxbrook.Worker.WakeProtocol
import Oxbrook.Bodies.Pump
import Oxbrook.Bodies.Truncation
import Oxbrook.Streams.Subscription
import Oxbrook.Streams.Delivery
import Oxbrook.Streams.Handover
import Oxbrook.Streams.Backpressure
import Oxbrook.Streams.Conservation
import Oxbrook.Streams.Topic
import Oxbrook.Streams.Tail
import Oxbrook.Streams.Replay
import Oxbrook.Streams.Resume
import Oxbrook.Streams.FanOut
import Oxbrook.Streams.NewMessages
import Oxbrook.Streams.Consumer
import Oxbrook.Streams.Recovery
import Oxbrook.Foundation.Numerals
import Oxbrook.Routing.Coerce
import Oxbrook.Routing.Construct
import Oxbrook.Worker.Drain
import Oxbrook.Bodies.Moves
import Oxbrook.Bodies.Agreement
import Oxbrook.Bodies.Moves
import Oxbrook.Bodies.Agreement
import Oxbrook.Bodies.Farewell
import Oxbrook.Bodies.Demand
import Oxbrook.Worker.Cancel
import Oxbrook.Worker.Accounting
import Oxbrook.Sockets.Bridge
import Oxbrook.Sockets.Closing
import Oxbrook.Foundation.CellRate
import Oxbrook.Limits.Limit
import Oxbrook.Limits.Shared
import Oxbrook.Limits.Address
import Oxbrook.Limits.Forwarding
import Oxbrook.Auth.Gate
import Oxbrook.Auth.Charges
import Oxbrook.Auth.Keys
import Oxbrook.Routing.Tools
import Oxbrook.Routing.Router
import Oxbrook.Routing.Head
import Oxbrook.Foundation.FileTree
import Oxbrook.Files.Mount
import Oxbrook.Files.Containment
import Oxbrook.Origins.Patterns
import Oxbrook.Origins.Checks
import Oxbrook.Origins.OneAnswer
import Oxbrook.Events.Format
import Oxbrook.Events.RoundTrip
import Oxbrook.Events.Pump
import Oxbrook.Events.Delivery
import Oxbrook.Events.Release
import Oxbrook.Foundation.Attempts
import Oxbrook.Replies.Handler
import Oxbrook.Replies.Once
import Oxbrook.Depends.Resolve
import Oxbrook.Depends.Nesting
import Oxbrook.Depends.Commit
import Oxbrook.Errors.Guard
import Oxbrook.Errors.Chain
import Oxbrook.Errors.Independent
import Oxbrook.Foundation.OrderedDict
import Oxbrook.Sessions.Session
import Oxbrook.Sessions.Middleware
import Oxbrook.Sessions.Cookies
import Oxbrook.Sessions.Written
import Oxbrook.Mcp.Message
import Oxbrook.Mcp.Answers
import Oxbrook.Mcp.Feed
import Oxbrook.Mcp.Told
import Oxbrook.Mcp.Kept
import Oxbrook.Mcp.Registry
import Oxbrook.Mcp.Released
import Oxbrook.Mcp.Tidy
import Oxbrook.Auth.Handoff
import Oxbrook.Auth.OwnCaller
import Oxbrook.Foundation.Doubles
import Oxbrook.Limits.Range
import Oxbrook.Foundation.Delimited
import Oxbrook.Limits.Callers
import Oxbrook.Limits.AddressText
import Oxbrook.Limits.Networks
import Oxbrook.Auth.Listing
import Oxbrook.Auth.Verified
import Oxbrook.Auth.Tickets
import Oxbrook.Origins.Vary
import Oxbrook.Bodies.Form
import Oxbrook.Bodies.SameForm
import Oxbrook.Routing.DateTimes
import Oxbrook.Auth.Fetches
import Oxbrook.Auth.KeyChoice
import Oxbrook.Origins.PatternForm
import Oxbrook.Origins.OwnServer
import Oxbrook.Files.Redirects
import Oxbrook.Files.Ranges
import Oxbrook.Files.Negotiation
import Oxbrook.Foundation.Base64
import Oxbrook.Sessions.Signed
import Oxbrook.Auth.Login
import Oxbrook.Foundation.Replace
import Oxbrook.Routing.ToolPath
import Oxbrook.Auth.Described
import Oxbrook.Foundation.Trails
import Oxbrook.Routing.Include
import Oxbrook.Foundation.FirstFree
import Oxbrook.Routing.OperationIds
import Oxbrook.Streams.Since
import Oxbrook.Tls.Certificate
import Oxbrook.Worker.Dispatch
import Oxbrook.Worker.Lifespans
import Oxbrook.Worker.Liveness
import Oxbrook.Foundation.Exposition
import Oxbrook.Foundation.Readings
import Oxbrook.Server.Metrics
import Oxbrook.Server.ScrapeText
import Oxbrook.Server.Compress
