import SysAwg.Lib.Bytes
import SysAwg.Lib.Window
import SysAwg.Lib.History
import SysAwg.Lib.Checked
import SysAwg.Lib.Split
import SysAwg.Lib.BigEndian
import SysAwg.Config
import SysAwg.Crypto
import SysAwg.Noise
import SysAwg.Framing
import SysAwg.Session
import SysAwg.SessionRun
import SysAwg.Peer
import SysAwg.Sni
import SysAwg.ClientHello
import SysAwg.ProxyState
import SysAwg.Proxy
import SysAwg.ProxyRun
import SysAwg.MainLoop
import SysAwg.Standard
import SysAwg.Proofs.Cipher
import SysAwg.Proofs.Transport
import SysAwg.Proofs.Wrapping
import SysAwg.Proofs.Framing
import SysAwg.Proofs.SessionSteps
import SysAwg.Proofs.Keypairs
import SysAwg.Proofs.Replay
import SysAwg.Proofs.Handshake
import SysAwg.Proofs.Stamps
import SysAwg.Proofs.Outstanding
import SysAwg.Proofs.Dispatch
import SysAwg.Proofs.TypeWords
import SysAwg.Proofs.Expiry
import SysAwg.Proofs.ProxyMoves
import SysAwg.Proofs.ProxyWalk
import SysAwg.Proofs.ProxyTable
import SysAwg.Proofs.ProxyRelay
import SysAwg.Proofs.ProxyAccounting
import SysAwg.Proofs.ProxyOwners
import SysAwg.Proofs.ProxyAnswers
import SysAwg.Proofs.Sniffing
import SysAwg.Proofs.WireFields
import SysAwg.Proofs.SniWalk
import SysAwg.Proofs.HostNames
import SysAwg.Proofs.ResolvedName
import SysAwg.Proofs.ProxyActs
import SysAwg.Proofs.ProxyTurns
import SysAwg.Proofs.ProxyFinish
import SysAwg.Proofs.MainLoop
import SysAwg.Proofs.Sleep
import SysAwg.Proofs.Retired
import SysAwg.Proofs.Spacing
import SysAwg.Proofs.Keepalive
import SysAwg.Proofs.LoopClock
import SysAwg.Proofs.Descriptors
import SysAwg.Base64
import SysAwg.Proofs.Base64
import SysAwg.ConfigText
import SysAwg.Proofs.Ipv4Text
import SysAwg.Draws
import SysAwg.Proofs.Draws
import SysAwg.Power
import SysAwg.Proofs.Power
import SysAwg.Template
import SysAwg.Proofs.TemplateRender
import SysAwg.Proofs.TemplateParse
import SysAwg.ConfigLoad
import SysAwg.Proofs.ConfigLines
import SysAwg.IpProbe
import SysAwg.Proofs.DnsReply
import SysAwg.Proofs.DnsProbe
import SysAwg.Poly1305
import SysAwg.Lib.Blocks
import SysAwg.Lib.Word64
import SysAwg.Proofs.LeNat
import SysAwg.Proofs.Poly1305Limbs
import SysAwg.Proofs.Poly1305
import SysAwg.Proofs.Words32
import SysAwg.Aead
import SysAwg.Proofs.Aead
import SysAwg.Blake2s
import SysAwg.Proofs.Blake2s
import SysAwg.Lib.Limbs
import SysAwg.Lib.Montgomery
import SysAwg.X25519
import SysAwg.Proofs.FieldLimbs
import SysAwg.Proofs.X25519
import SysAwg.Tunnel
import SysAwg.Proofs.Tunnel
import SysAwg.Lib.Lucas
import SysAwg.Lib.MontgomeryCurve
import SysAwg.Proofs.Curve25519
import SysAwg.Proofs.Recovery
import SysAwg.Proofs.MemTiles
import SysAwg.Proofs.MemCalls
import SysAwg.Proofs.Mem
