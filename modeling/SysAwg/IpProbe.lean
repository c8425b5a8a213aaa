/-
A DNS query and its reply by hand: `awg_ipprobe.c`.

A query is the concatenation of its fields in the order of their offsets; a checksum is
computed over the fields with zeros in its place.  The parser reads the packet where the
source does: a pointer into it is what the packet is from there on, every read is checked,
and the length that the source compares with is kept beside it.
-/
import SysAwg.ClientHello
import SysAwg.Lib.OnesComplement

namespace SysAwg

open Checked Bytes

/-! ### Sums -/

def sum16 : Bytes → UInt32 → UInt32
  | a :: b :: rest, acc => sum16 rest (acc + UInt32.ofNat (a.toNat * 256 + b.toNat))
  | [a], acc => acc + a.toUInt32 <<< 8
  | [], acc => acc

/-- The loop of `fold`: it ends because a carry brought back makes the number smaller. -/
def foldLoop (acc : Nat) : Nat :=
  if acc / 65536 = 0 then acc else foldLoop (acc % 65536 + acc / 65536)
termination_by acc
decreasing_by omega

def fold (acc : UInt32) : UInt16 := ~~~ UInt16.ofNat (foldLoop acc.toNat)

/-! ### Queries -/

/-- The loop of `encode_name`, with the bytes written so far.  A round takes a character or
more of the host. -/
def nameLoop (cap : Int) : Nat → Bytes → Bytes → Option Bytes
  | 0, _, o => some o
  | fuel + 1, p, o =>
    if p = [] then some o
    else
      let label := p.takeWhile (· ≠ dot)
      if label.length = 0 ∨ label.length > 63 ∨ (o.length + label.length + 1 : Int) ≥ cap then none
      else
        let o := o ++ UInt8.ofNat label.length :: label
        match p.dropWhile (· ≠ dot) with
        | [] => some o
        | _ :: p => nameLoop cap fuel p o

/-- `encode_name`: the bytes it writes, or nothing for -1. -/
def encodeName (cap : Int) (host : Bytes) : Option Bytes :=
  match nameLoop cap host.length host [] with
  | none => none
  | some o => if (o.length + 1 : Int) > cap then none else some (o ++ [0])

/-- The IPv4 header, with a checksum. -/
def ipHeader (totalLen : Nat) (txid : UInt16) (srcIp dstIp : UInt32) (ck : UInt16) : Bytes :=
  [0x45, 0] ++ put16 totalLen ++ put16 txid.toNat ++ put16 0x4000 ++ [64, 17] ++ put16 ck.toNat ++
    (le32 srcIp ++ le32 dstIp)

def udpHeader (srcPort : UInt16) (udpLen : Nat) (ck : UInt16) : Bytes :=
  put16 srcPort.toNat ++ put16 53 ++ put16 udpLen ++ put16 ck.toNat

/-- The DNS message, with an encoded name. -/
def dnsQuery (txid : UInt16) (name : Bytes) : Bytes :=
  put16 txid.toNat ++ [0x01, 0x00] ++ put16 1 ++ [0, 0, 0, 0, 0, 0] ++ name ++ put16 1 ++ put16 1

/-- What is summed for the UDP checksum: a pseudo-header, and the datagram. -/
def udpSum (srcIp dstIp : UInt32) (udpLen : Nat) (udp : Bytes) : UInt32 :=
  let acc := sum16 (le32 srcIp) 0
  let acc := sum16 (le32 dstIp) acc
  let acc := acc + 17
  let acc := acc + UInt32.ofNat udpLen
  sum16 udp acc

def udpChecksum (srcIp dstIp : UInt32) (udpLen : Nat) (udp : Bytes) : UInt16 :=
  let ck := fold (udpSum srcIp dstIp udpLen udp)
  if ck = 0 then 0xFFFF else ck

/-- `ipprobe_build_dns`: the packet, whose length the source returns, or nothing for -1. -/
def ipprobeBuildDns (cap : Int) (srcIp dstIp : UInt32) (srcPort txid : UInt16) (host : Bytes) :
    Option Bytes :=
  if cap < 20 + 8 + 32 then none
  else
    let dnsCap := cap - 20 - 8
    match encodeName (dnsCap - 12 - 4) (cString host) with
    | none => none
    | some name =>
      let dns := dnsQuery txid name
      let udpLen := 8 + dns.length
      let totalLen := 20 + udpLen
      let ipCk := fold (sum16 (ipHeader totalLen txid srcIp dstIp 0) 0)
      let udpCk := udpChecksum srcIp dstIp udpLen (udpHeader srcPort udpLen 0 ++ dns)
      some (ipHeader totalLen txid srcIp dstIp ipCk ++ (udpHeader srcPort udpLen udpCk ++ dns))

/-! ### Replies

All names are skipped, never read: by their labels up to a zero byte, or by a pointer, which
ends them.  The first A record with four bytes is the answer, and a negative value says
which check failed.
-/

/-- `skip_name`: the next offset, or nothing for -1. -/
def skipName (b : Bytes) (len off : Nat) : Checked (Option Nat) :=
  if off < len then do
    let l ← readByte b off
    if l = 0 then .ok (some (off + 1))
    else if l &&& 0xC0 = 0xC0 then .ok (if off + 2 ≤ len then some (off + 2) else none)
    else skipName b len (off + 1 + l.toNat)
  else .ok none
termination_by len - off

/-- The loop over the answers, for `n` more of them: the address of the first A record. -/
def answerLoop (d : Bytes) (dn : Nat) : Nat → Nat → Checked (Option UInt32)
  | 0, _ => .ok none
  | n + 1, off =>
    if off + 10 ≤ dn then do
      match ← skipName d dn off with
      | none => .ok none
      | some off =>
        if off + 10 > dn then .ok none
        else do
          let type ← read16 d off
          let rdlen ← read16 d (off + 8)
          let off := off + 10
          if off + rdlen > dn then .ok none
          else if type = 1 ∧ rdlen = 4 then do
            span d.length off 4
            .ok (some (word32 d off))
          else answerLoop d dn n (off + rdlen)
    else .ok none

/-- The DNS message of a reply: the value returned, and the address for 0. -/
def parseAnswers (d : Bytes) (dn : Nat) (txid : UInt16) : Checked (Int × Option UInt32) := do
  let id ← read16 d 0
  if id ≠ txid.toNat then .ok (-7, none)
  else do
    let ancount ← read16 d 6
    match ← skipName d dn 12 with
    | none => .ok (-6, none)
    | some off => do
      match ← answerLoop d dn ancount (off + 4) with
      | some ip => .ok (0, some ip)
      | none => .ok (-8, none)

/-- `ipprobe_parse_dns`: the value returned, and `*answer_ip` where it is set. -/
def ipprobeParseDns (pkt : Bytes) (expectSrcIp : UInt32) (expectDstPort txid : UInt16) :
    Checked (Int × Option UInt32) :=
  let len := pkt.length
  if len < 20 + 8 + 12 then .ok (-1, none)
  else do
    let first ← readByte pkt 0
    if first.toNat / 16 ≠ 4 then .ok (-2, none)
    else
      let ihl := first.toNat % 16 * 4
      if ihl < 20 ∨ len < ihl + 8 then .ok (-1, none)
      else do
        let protocol ← readByte pkt 9
        if protocol ≠ 17 then .ok (-3, none)
        else do
          span pkt.length 12 4
          let src := word32 pkt 12
          if src ≠ expectSrcIp then .ok (-4, none)
          else do
            let udp := pkt.drop ihl
            let port ← read16 udp 2
            if port ≠ expectDstPort.toNat then .ok (-5, none)
            else do
              let udpLen ← read16 udp 4
              if udpLen < 8 ∨ ihl + udpLen > len then .ok (-6, none)
              else
                let d := udp.drop 8
                let dn := udpLen - 8
                if dn < 12 then .ok (-6, none) else parseAnswers d dn txid

/-! ### Well-formed replies -/

/-- A label of a name. -/
structure DnsLabel where
  text : Bytes
  nonempty : 0 < text.length
  short : text.length ≤ 63

def DnsLabel.encode (l : DnsLabel) : Bytes := UInt8.ofNat l.text.length :: l.text

/-- What ends a name: a zero byte, or a pointer to the rest of it elsewhere in the message. -/
inductive NameEnd
  | zero
  | pointer (target : BitVec 14)

def NameEnd.encode : NameEnd → Bytes
  | zero => [0]
  | pointer target => put16 (0xC000 + target.toNat)

structure DnsName where
  labels : List DnsLabel
  ending : NameEnd

def DnsName.encode (n : DnsName) : Bytes := n.labels.flatMap DnsLabel.encode ++ n.ending.encode

structure DnsRecord where
  name : DnsName
  type : UInt16
  cls : UInt16
  ttl : UInt32
  rdata : Bytes

namespace DnsRecord

def encode (r : DnsRecord) : Bytes :=
  r.name.encode ++ (put16 r.type.toNat ++ put16 r.cls.toNat ++ put16 (r.ttl.toNat / 65536) ++
    put16 (r.ttl.toNat % 65536) ++ put16 r.rdata.length ++ r.rdata)

/-- An A record with an IPv4 address. -/
def IsAddress (r : DnsRecord) : Prop := r.type = 1 ∧ r.rdata.length = 4

instance : DecidablePred IsAddress := fun r => inferInstanceAs (Decidable (r.type = 1 ∧ _))

end DnsRecord

/-- A message with one question.  The authority and additional records, which nothing
reads, stand in `more`. -/
structure DnsMessage where
  txid : UInt16
  flags : UInt16
  nscount : UInt16
  arcount : UInt16
  question : DnsName
  qtype : UInt16
  qclass : UInt16
  answers : List DnsRecord
  more : Bytes

def DnsMessage.encode (m : DnsMessage) : Bytes :=
  put16 m.txid.toNat ++ put16 m.flags.toNat ++ put16 1 ++ put16 m.answers.length ++
    put16 m.nscount.toNat ++ put16 m.arcount.toNat ++ m.question.encode ++ put16 m.qtype.toNat ++
    put16 m.qclass.toNat ++ m.answers.flatMap DnsRecord.encode ++ m.more

/-- The message in a datagram in an IPv4 packet, and what the buffer holds after it. -/
structure DnsReply where
  service : UInt8
  totalLen : UInt16
  ident : UInt16
  fragment : UInt16
  ttl : UInt8
  ipChecksum : UInt16
  srcIp : UInt32
  dstIp : UInt32
  options : List UInt32
  options_short : options.length ≤ 10
  srcPort : UInt16
  dstPort : UInt16
  udpChecksum : UInt16
  message : DnsMessage
  message_short : 8 + message.encode.length < 65536
  padding : Bytes

namespace DnsReply

variable (r : DnsReply)

def header : Bytes :=
  [UInt8.ofNat (64 + (5 + r.options.length)), r.service] ++ put16 r.totalLen.toNat ++
    put16 r.ident.toNat ++ put16 r.fragment.toNat ++ [r.ttl, 17] ++ put16 r.ipChecksum.toNat ++
    (le32 r.srcIp ++ le32 r.dstIp) ++ r.options.flatMap le32

def datagram : Bytes :=
  put16 r.srcPort.toNat ++ put16 r.dstPort.toNat ++ put16 (8 + r.message.encode.length) ++
    put16 r.udpChecksum.toNat ++ r.message.encode

def encode : Bytes := r.header ++ (r.datagram ++ r.padding)

/-- The first A record. -/
def address : Option DnsRecord := r.message.answers.find? fun a => a.IsAddress

end DnsReply

end SysAwg
