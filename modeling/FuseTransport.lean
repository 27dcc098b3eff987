import FuseTransport.Proto.Arq
import FuseTransport.Sdk.Sequential
import FuseTransport.Transfer.Resume
import FuseTransport.Proto.SpscRing
import FuseTransport.Proto.Messages
import FuseTransport.Proto.Agreement
import FuseTransport.Transfer.ReceiveWindow
import FuseTransport.Proto.Gaps
import FuseTransport.Transfer.NewBlocks
import FuseTransport.Transfer.InFlight
import FuseTransport.Transfer.Growth
import FuseTransport.Transfer.Checkpoints
import FuseTransport.Transfer.Amplification
import FuseTransport.Proto.Surfacing
import FuseTransport.Proto.RttEstimate
import FuseTransport.Http.RoundTrip
import FuseTransport.Http.Headers
import FuseTransport.Mux.Backlog
import FuseTransport.Proto.Extensions
import FuseTransport.Transfer.Coarsening
import FuseTransport.Transfer.ShortWrites
import FuseTransport.Transfer.Forgery
import FuseTransport.Sdk.Nonces
import FuseTransport.Sdk.Inbox
import FuseTransport.Sdk.Hello
