import OpenStream.Lowlat.Retirement
import OpenStream.Path.Agreement
import OpenStream.Control.Ordered
import OpenStream.Host.Chain
import OpenStream.Host.Passes
import OpenStream.Signal.Tasks
import OpenStream.Signal.Server
import OpenStream.Account.DeviceAuth
import OpenStream.Account.Chain
import OpenStream.Account.Finality
import OpenStream.Connect.Credentials
import OpenStream.Connect.Scope
import OpenStream.Connect.Revocation
import OpenStream.App.Authority
import OpenStream.Host.Pointer
import OpenStream.Lowlat.Probes
import OpenStream.Agent.Restarts
import OpenStream.Host.Tidy
import OpenStream.Lowlat.LookAhead
import OpenStream.Lowlat.Ceiling
import OpenStream.Lowlat.Accounting
import OpenStream.Lowlat.Representation
import OpenStream.Media.Reassembly
import OpenStream.Media.Release
import OpenStream.Lowlat.Nack
import OpenStream.Lowlat.Shrink
import OpenStream.Lowlat.Controller
import OpenStream.Protocol.Session
import OpenStream.HostBroker.Leases
import OpenStream.Lowlat.Timer
import OpenStream.Signal.Attribution
import OpenStream.Signal.Tickets
import OpenStream.HostBroker.Sink
import OpenStream.Host.Audio
import OpenStream.App.Waiting
import OpenStream.Host.Rate
import OpenStream.Encode.Bitstream
import OpenStream.Protocol.Keys
