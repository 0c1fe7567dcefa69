import Telex.Tag
import Telex.Puzzle
import Telex.Ptwist.Group
import Telex.Ptwist.NoWrap
import Telex.Ptwist.Inplace
import Telex.Ptwist.Ranges
import Telex.Ptwist.Portable
import Telex.Station
import Telex.Bronnect.Freed
import Telex.Bronnect.Unblock
import Telex.Bronnect.Relay
import Telex.Bronnect.Orphans
import Telex.FlowBlocker.Ipset
import Telex.FlowBlocker.Stream
import Telex.FlowBlocker.Timers
import Telex.Keys
import Telex.KeyFile
import Telex.Proxy.Pressure
import Telex.Proxy.Close
import Telex.Tcp.Forward
import Telex.Tcp.Timestamp
import Telex.Tcp.Forge
import Telex.Tcp.Restore
import Telex.Tcp.Fill
import Telex.Ssl.Hello
import Telex.Linuxmod.Accept
import Telex.Httpd.ReadBack
import Telex.Router.Firewall
import Telex.Router.Isolation
import Telex.Takeover.Session
import Telex.Takeover.Socket
import Telex.Takeover.Detect
import Telex.Ssl.Records
