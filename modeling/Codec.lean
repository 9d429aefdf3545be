import Codec.Ems.BufferFifo
import Codec.Ems.ConfFile
import Codec.Ems.ConfList
import Codec.Ems.MemRuns
import Codec.Radius.Balance
import Codec.Radius.Logout
import Codec.Radius.Accounting
import Codec.Radius.Kickout
import Codec.Radius.RecvRuns
import Codec.Portal.RecvRuns
import Codec.Portal.Bookkeeping
import Codec.Fw.Answers
import Codec.Fw.Ready
import Codec.Fw.ListInverse
import Codec.Fw.ChainRuns
import Codec.Http.Redirect
import Codec.Net.CheckSpec
import Codec.Net.Chksum
import Codec.Ssid.RedirectRuns
import Codec.Ems.TimerSafety
import Codec.Ems.EventRuns
import Codec.Tunnel.Framing
import Codec.Tunnel.PackMemory
import Codec.Ctrl.Frames
import Codec.Ctrl.Requests
import Codec.Audit.Conserve
import Codec.Client.Segments
import Codec.Client.Stuck
import Codec.Wireless.Outcome
import Codec.Fwd.Relay
import Codec.Fwd.CmAlive
import Codec.Fwd.CmSpoken
import Codec.Fwd.Buffer
import Codec.Fwd.CmLoop
import Codec.Fwd.Tickets
import Codec.Fwd.Transfer
import Codec.Fwd.Timers
import Codec.Sn.Registry
import Codec.Sn.Answers
import Codec.Sn.Frames
import Codec.Fwd.Batch
import Codec.Fwd.Handoff
import Codec.Fwd.Links
import Codec.Sniffer.Access
import Codec.Cache.Namespace
import Codec.Cache.Replicas
import Codec.Portal.Packing
import Codec.Portal.MacText
import Codec.Fw.Rfc
import Codec.Fw.Addresses
import Codec.Client.Group
import Codec.Client.Suffix
import Codec.Portal.Periods
import Codec.Http.Cna
import Codec.Ems.TimerSorted
import Codec.Sniffer.Limits
import Codec.Sniffer.Channels
import Codec.Sniffer.Filters
import Codec.Sniffer.FtpHost
import Codec.Tunnel.Isolation
import Codec.Audit.Plugins
import Codec.Dbgview.Filter
import Codec.Mempool.Sound
