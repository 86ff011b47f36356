import BypassCore.Control.Server
import BypassCore.DNS.Fetch
import BypassCore.DNS.Hosts
import BypassCore.DNS.Parallel.Verdict
import BypassCore.DNS.Query.ServeExpired
import BypassCore.DNS.Response.Order
import BypassCore.DNS.TCP.Pool
import BypassCore.DNSEvent.Sink.Accounting
import BypassCore.DNSNFTSet.Writer.Delivery
import BypassCore.Dispatcher.Sniffer.Segmentation
import BypassCore.Geodata.DomainMatcher.Interchange
import BypassCore.Inbound.DNSAccess.RateLimit
import BypassCore.Inbound.DNSListener.Silence
import BypassCore.Inbound.DoHSlots.Conservation
import BypassCore.Inbound.UDPSessions
import BypassCore.Metrics.Registry
import BypassCore.Protocol.QUIC
import BypassCore.Proxy.HTTPConnect.Ownership
import BypassCore.Proxy.Socks
import BypassCore.Router.AllOrNothing
import BypassCore.Runtime.ConfigFile.Hash
import BypassCore.Runtime.DNSResults
import BypassCore.Runtime.Lease.Shutdown
import BypassCore.Runtime.Reload.Transaction
import BypassCore.Runtime.ServiceFile
import BypassCore.Transport.Bridge
import BypassCore.Geodata.StrMatcher.Regex
import BypassCore.Proxy.HTTPConnect.Deadline
import BypassCore.Transport.IdleGuard
import BypassCore.Router.LeastLoad
import BypassCore.Proxy.WireGuard
import BypassCore.Router.PickRoute
import BypassCore.Task.Periodic
import BypassCore.Geodata.IPMatcher.Registry
