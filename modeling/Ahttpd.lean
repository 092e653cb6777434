import Ahttpd.Basis.Transition
import Ahttpd.Basis.Loop
import Ahttpd.Basis.Segmented
import Ahttpd.Basis.Regex
import Ahttpd.Basis.RegexGroups
import Ahttpd.Basis.Keyed
import Ahttpd.Basis.DotLines
import Ahttpd.Basis.Delimited
import Ahttpd.Basis.Calendar
import Ahttpd.Basis.Checked
import Ahttpd.Basis.Bits
import Ahttpd.Connection
import Ahttpd.ThreadPool
import Ahttpd.Server
import Ahttpd.Listeners
import Ahttpd.ChunkGrammar
import Ahttpd.RoundTrip
import Ahttpd.ContentLength
import Ahttpd.RequestLine
import Ahttpd.KeepAlive
import Ahttpd.StatusLine
import Ahttpd.Framing
import Ahttpd.Delivery
import Ahttpd.Fcgi.Request
import Ahttpd.Fcgi.Params
import Ahttpd.Fcgi.Completion
import Ahttpd.Fcgi.Gateway
import Ahttpd.UrlCoding
import Ahttpd.FormParams
import Ahttpd.PathMatch
import Ahttpd.Dispatch
import Ahttpd.IpAddress
import Ahttpd.DomainMatch
import Ahttpd.MatcherBounds
import Ahttpd.Client
import Ahttpd.Time
import Ahttpd.DateRoundTrip
import Ahttpd.LocalZone
import Ahttpd.Cookie.Request
import Ahttpd.Cookie.Response
import Ahttpd.Cookie.Attributes
import Ahttpd.Cookie.Lifetime
import Ahttpd.Cookie.Selection
import Ahttpd.Base64
import Ahttpd.Base64Decode
import Ahttpd.UrlSplit
import Ahttpd.UrlRequest
import Ahttpd.Mail.Content
import Ahttpd.Mail.Dialogue
import Ahttpd.Mail.Steps
import Ahttpd.Mail.Failure
import Ahttpd.Mail.Replies
import Ahttpd.Mail.Arrival
import Ahttpd.Tunnel
import Ahttpd.Conversation
import Ahttpd.Credentials
import Ahttpd.Session
import Ahttpd.Carving
import Ahttpd.Quiescence
import Ahttpd.Clients
import Ahttpd.Hierarchy
import Ahttpd.Relay
import Ahttpd.FormArrival
import Ahttpd.Connect
import Ahttpd.InFlight
import Ahttpd.Settling
