import PyProxy.Stream.Link
import PyProxy.Protocol.Message
import PyProxy.Protocol.Fixint
import PyProxy.Client.Futures
import PyProxy.Client.Readiness
import PyProxy.Client.Connection
import PyProxy.Worker.Delivery
import PyProxy.Worker.Sessions
import PyProxy.Master.Markers
import PyProxy.Master.Dispatch
import PyProxy.Master.TokenMap
import PyProxy.Master.Custody
import PyProxy.Master.Hello
import PyProxy.Rpc.Correlation
import PyProxy.Channel.Output
import PyProxy.Channel.Messages
import PyProxy.Channel.Handoff
import PyProxy.Session.Identity
import PyProxy.Master.Fates
import PyProxy.Master.RoutingTable
import PyProxy.Master.Handshake
import PyProxy.Worker.Failures
import PyProxy.Server.Checked
import PyProxy.Master.Bounds
import PyProxy.Master.Standing
import PyProxy.Worker.Standing
import PyProxy.Session.Standing
import PyProxy.Stream.Chunked
import PyProxy.Worker.Requests
import PyProxy.Master.Passage
import PyProxy.Master.Recognition
import PyProxy.Worker.Arrivals
import PyProxy.Client.Ending
import PyProxy.Client.Waiting
import PyProxy.Client.RemoteProcess
import PyProxy.Master.Retained
import PyProxy.Master.Wakeup
import PyProxy.Session.Wakeup
import PyProxy.Master.Writable
import PyProxy.Master.Survival
import PyProxy.Protocol.Codecs
import PyProxy.Session.Lengths
import PyProxy.Master.Stability
import PyProxy.Machine.Rotation
import PyProxy.Master.RoundRobin
import PyProxy.Worker.Interest
import PyProxy.Worker.Sleep
import PyProxy.Channel.Report
import PyProxy.Client.Wire
import PyProxy.Session.Execution
import PyProxy.Client.Disconnect
import PyProxy.Client.Sending
import PyProxy.Client.Silence
import PyProxy.Master.Outflow
import PyProxy.Poll.Fair
import PyProxy.Session.Home
import PyProxy.Session.Relay
import PyProxy.Session.Unanswered
import PyProxy.Worker.Greeting
import PyProxy.Rpc.Service
import PyProxy.Session.Proxy
import PyProxy.Session.Carriage
import PyProxy.Session.Refinement
