import NginxInterface.Agent.Additions
import NginxInterface.Agent.Bus
import NginxInterface.Agent.Discovery
import NginxInterface.Agent.Disk
import NginxInterface.Agent.Failure
import NginxInterface.Agent.Invariants
import NginxInterface.Agent.Isolation
import NginxInterface.Agent.Program
import NginxInterface.Agent.Signals
import NginxInterface.Agent.System
import NginxInterface.ConfFile.Access
import NginxInterface.ConfFile.Buffer
import NginxInterface.ConfFile.Commands
import NginxInterface.ConfFile.Directive
import NginxInterface.ConfFile.Gauge
import NginxInterface.ConfFile.ReadToken
import NginxInterface.ConfFile.Resync
import NginxInterface.ConfFile.Url
import NginxInterface.ConfFile.Words
import NginxInterface.Cycle.Apps
import NginxInterface.Cycle.Backends
import NginxInterface.Cycle.Http
import NginxInterface.Cycle.HttpApps
import NginxInterface.Cycle.Live
import NginxInterface.Cycle.Load
import NginxInterface.Cycle.Planned
import NginxInterface.Cycle.Rendered
import NginxInterface.Cycle.Room
import NginxInterface.Cycle.Routes
import NginxInterface.Cycle.Stream
import NginxInterface.Cycle.StreamApps
import NginxInterface.Cycle.Swap
import NginxInterface.Cycle.Upstreams
import NginxInterface.Foundation.Accepts
import NginxInterface.Foundation.Backtrack
import NginxInterface.Foundation.BitArray
import NginxInterface.Foundation.EditLog
import NginxInterface.Foundation.FileBytes
import NginxInterface.Foundation.PropertyTable
import NginxInterface.Foundation.Rotation
import NginxInterface.Foundation.Runs
import NginxInterface.Foundation.SpliceLoop
import NginxInterface.Foundation.Window
import NginxInterface.Js.ObjectKeys
import NginxInterface.Js.Value
import NginxInterface.Reload.Master
import NginxInterface.Reload.Served
import NginxInterface.Reload.Service
import NginxInterface.Reload.Workers
import NginxInterface.Routing.Backends
import NginxInterface.Routing.Config
import NginxInterface.Routing.Generations
import NginxInterface.Routing.Keys
import NginxInterface.Routing.Operations
import NginxInterface.Routing.Pool
import NginxInterface.Routing.Ports
import NginxInterface.Routing.Spellings
import NginxInterface.Routing.Store
import NginxInterface.Routing.Stores
import NginxInterface.Routing.Throws
import NginxInterface.Routing.Upstreams
import NginxInterface.Status.ParseStub
import NginxInterface.Status.Server
import NginxInterface.Template.BulkUpdate
import NginxInterface.Template.Directives
import NginxInterface.Template.Ejs
import NginxInterface.Template.Faithful
import NginxInterface.Template.HotSwap
import NginxInterface.Template.Injection
import NginxInterface.Template.Locality
import NginxInterface.Template.Reading
import NginxInterface.Template.Render
import NginxInterface.Template.Renderable
import NginxInterface.Template.Resync
import NginxInterface.Template.Room
import NginxInterface.Template.Ssl
import NginxInterface.Template.Undo
import NginxInterface.Template.Worded
import NginxInterface.Upstream.Accounts
import NginxInterface.Upstream.Block
import NginxInterface.Upstream.Choice
import NginxInterface.Upstream.Failures
import NginxInterface.Upstream.Fairness
import NginxInterface.Upstream.Requests
import NginxInterface.Upstream.RoundRobin
