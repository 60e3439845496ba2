import Etos.Api.Version
import Etos.Cli.Accounting
import Etos.Cli.Baggage
import Etos.Cli.Contained
import Etos.Cli.Drain
import Etos.Cli.Failed
import Etos.Cli.Saved
import Etos.Cli.TrackV0
import Etos.Clusters.Ready
import Etos.Conversion.RoundTrip
import Etos.Environment.Completed
import Etos.Environment.Deadline
import Etos.Environment.Exclusive
import Etos.Environment.Providers
import Etos.Environment.TimedOut
import Etos.EnvironmentRequest.Cleanup
import Etos.EnvironmentRequest.InUse
import Etos.EnvironmentRequest.Isolation
import Etos.EnvironmentRequest.Outlive
import Etos.EnvironmentRequest.ProviderJob
import Etos.Extras.Restarts
import Etos.Messaging.Address
import Etos.Messaging.Log
import Etos.Messaging.Publisher
import Etos.Operator.Leftovers
import Etos.Operator.WakeUp
import Etos.Provider.Environments
import Etos.Provider.FakeIut
import Etos.Provider.NormalForm
import Etos.Provider.Pods
import Etos.Provider.Readiness
import Etos.Provider.Split
import Etos.Resource.Handoff
import Etos.Resource.Release
import Etos.Resource.Twins
import Etos.Services.Restart
import Etos.Sse.Agreement
import Etos.Sse.Delivery
import Etos.Sse.ClientV1
import Etos.Sse.Decoding
import Etos.Sse.FeedV1
import Etos.Sse.ProtocolV1
import Etos.Sse.Protocol
import Etos.TestRun.Completion
import Etos.TestRun.EnvironmentFailure
import Etos.TestRun.Finished
import Etos.TestRun.Order
import Etos.TestRun.OwnJob
import Etos.TestRun.Pointers
import Etos.TestRun.Requests
import Etos.TestRun.Retention
import Etos.TestRun.Suites
import Etos.TestRun.Verdict
import Etos.Operator.Footprint
import Etos.Webhook.Provider
import Etos.Clusters.Footprint
