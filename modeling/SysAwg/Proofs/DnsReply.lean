/-
The walk through a DNS reply.

Counts and lengths in a reply are the sender's to choose, at three layers.  The walk reads
nothing outside the packet whatever they are, because each is compared with what is left
before it is used.  On a well-formed reply it stands at the start of a record in every
round, so it finds the first A record, behind any names and any other records.

Safety is shown for the walk as it is, without any idea of what a reply looks like.  For
the other half a reply is written down as a concatenation and the walk followed through
it; the offset at which it stands is always the length of the parts that lie behind it.
-/
import SysAwg.IpProbe
import SysAwg.Proofs.WireFields

namespace SysAwg

open Checked Bytes

/-! ### No read outside the packet

The parser keeps an offset and the number of bytes there are.  A name may lead the offset
past the end; then the next comparison stops the walk, so nothing is read there.
-/

theorem skipName_safe {b : Bytes} {len : Nat} (h : len ≤ b.length) :
    ∀ (left off : Nat), len ≤ off + left → Safe (skipName b len off) := by
  intro left
  induction left with
  | zero =>
      intro off hoff
      unfold skipName
      rw [if_neg (by omega)]
      exact safe_ok _
  | succ left ih =>
      intro off hoff
      unfold skipName
      apply safe_while
      intro hmore
      rw [readByte_eq (by omega), ok_bind]
      apply safe_unless
      intro _
      apply safe_unless
      intro _
      exact ih _ (by omega)

theorem answerLoop_safe {d : Bytes} {dn : Nat} (h : dn ≤ d.length) :
    ∀ (n off : Nat), Safe (answerLoop d dn n off) := by
  intro n
  induction n with
  | zero =>
      intro off
      exact safe_ok _
  | succ n ih =>
      intro off
      obtain ⟨next, hnext⟩ := skipName_safe h dn off (by omega)
      rw [answerLoop]
      apply safe_while
      intro hmore
      rw [hnext, ok_bind]
      cases next with
      | none => exact safe_ok _
      | some off =>
          dsimp only
          apply safe_unless
          intro hfixed
          rw [read16_eq (by omega), ok_bind, read16_eq (by omega), ok_bind]
          apply safe_unless
          intro hdata
          by_cases haddress : be16 d off = 1 ∧ be16 d (off + 8) = 4
          · rw [if_pos haddress, span_eq (by omega), ok_bind]
            exact safe_ok _
          · rw [if_neg haddress]
            exact ih _

theorem parseAnswers_safe {d : Bytes} {dn : Nat} (h : dn ≤ d.length) (hheader : 12 ≤ dn)
    (txid : UInt16) : Safe (parseAnswers d dn txid) := by
  obtain ⟨next, hnext⟩ := skipName_safe h dn 12 (by omega)
  unfold parseAnswers
  rw [read16_eq (by omega), ok_bind]
  apply safe_unless
  intro _
  rw [read16_eq (by omega), ok_bind, hnext, ok_bind]
  cases next with
  | none => exact safe_ok _
  | some off =>
      obtain ⟨found, hfound⟩ := answerLoop_safe h (be16 d 6) (off + 4)
      dsimp only
      rw [hfound, ok_bind]
      cases found with
      | none => exact safe_ok _
      | some ip => exact safe_ok _

/-- **The parser reads nothing outside the packet.** -/
theorem ipprobeParseDns_safe (pkt : Bytes) (src : UInt32) (port txid : UInt16) :
    Safe (ipprobeParseDns pkt src port txid) := by
  unfold ipprobeParseDns
  dsimp only
  apply safe_unless
  intro hlen
  rw [readByte_eq (by omega), ok_bind]
  generalize (pkt.getD 0 0).toNat % 16 * 4 = ihl
  have hudp : (pkt.drop ihl).length = pkt.length - ihl := List.length_drop
  apply safe_unless
  intro _
  apply safe_unless
  intro hihl
  rw [readByte_eq (by omega), ok_bind]
  apply safe_unless
  intro _
  rw [span_eq (by omega), ok_bind]
  apply safe_unless
  intro _
  rw [read16_eq (by omega), ok_bind]
  apply safe_unless
  intro _
  rw [read16_eq (by omega), ok_bind]
  generalize be16 (pkt.drop ihl) 4 = udpLen
  have hd : ((pkt.drop ihl).drop 8).length = pkt.length - ihl - 8 := by
    rw [List.length_drop, hudp]
  apply safe_unless
  intro hudpLen
  apply safe_unless
  intro hdns
  exact parseAnswers_safe (by omega) (by omega) txid

/-! ### Well-formed replies

A message is a concatenation of parts, each read where the parts before it end.  The walk is
followed from part to part, and what a part holds does not matter to those behind it.
-/

theorem DnsLabel.toNat_length (l : DnsLabel) : (UInt8.ofNat l.text.length).toNat = l.text.length := by
  have hshort := l.short
  rw [UInt8.toNat_ofNat']
  omega

private theorem not_pointer_of_short :
    ∀ n : Fin 64, ¬ UInt8.ofNat n &&& 0xC0 = 0xC0 := by decide

private theorem pointer_of_high : ∀ n : Fin 64, UInt8.ofNat (192 + n) &&& 0xC0 = 0xC0 := by decide

theorem length_label (l : DnsLabel) : l.encode.length = 1 + l.text.length := by
  rw [DnsLabel.encode, List.length_cons, Nat.add_comm]

/-- The walk over a name passes a label. -/
theorem skipName_label {b a c : Bytes} {len : Nat} {l : DnsLabel} (hb : b = a ++ (l.encode ++ c))
    (hlen : a.length + l.encode.length ≤ len) :
    skipName b len a.length = skipName b len (a.length + l.encode.length) := by
  have hnonempty := l.nonempty
  have hshort := l.short
  have hread : b.getD a.length 0 = UInt8.ofNat l.text.length := by
    rw [hb, DnsLabel.encode]
    exact getD_laidOut a (l.text ++ c) _ rfl
  have hzero : ¬ UInt8.ofNat l.text.length = 0 := by
    intro h
    have hnat := congrArg UInt8.toNat h
    rw [l.toNat_length] at hnat
    exact absurd hnat (by show l.text.length ≠ 0; omega)
  have hpointer := not_pointer_of_short ⟨l.text.length, by omega⟩
  have hblen : a.length + (1 + l.text.length) ≤ b.length := by
    rw [hb, List.length_append, List.length_append, length_label]
    omega
  rw [length_label] at hlen ⊢
  rw [skipName, if_pos (by omega), readByte_eq (by omega), ok_bind, hread, if_neg hzero,
    if_neg hpointer, l.toNat_length, Nat.add_assoc]

/-- The walk over a name stops behind what ends it. -/
theorem skipName_ending {b a c : Bytes} {len : Nat} {e : NameEnd} (hb : b = a ++ (e.encode ++ c))
    (hlen : a.length + e.encode.length ≤ len) :
    skipName b len a.length = .ok (some (a.length + e.encode.length)) := by
  have hblen : a.length + e.encode.length ≤ b.length := by
    rw [hb, List.length_append, List.length_append]
    omega
  cases e with
  | zero =>
      have hread : b.getD a.length 0 = 0 := by
        rw [hb]
        exact getD_laidOut a c 0 rfl
      rw [show (NameEnd.zero).encode.length = 1 from rfl] at *
      rw [skipName, if_pos (by omega), readByte_eq (by omega), ok_bind, hread, if_pos rfl]
  | pointer target =>
      have htarget := target.isLt
      have hread : b.getD a.length 0 = UInt8.ofNat (192 + target.toNat / 256) := by
        rw [hb, NameEnd.encode, put16]
        refine (getD_laidOut a _ _ rfl).trans ?_
        congr 1
        omega
      have hpointer := pointer_of_high ⟨target.toNat / 256, by omega⟩
      have hzero : ¬ UInt8.ofNat (192 + target.toNat / 256) = 0 := by
        intro h
        rw [h] at hpointer
        exact absurd hpointer (by decide)
      rw [show (NameEnd.pointer target).encode.length = 2 from rfl] at *
      rw [skipName, if_pos (by omega), readByte_eq (by omega), ok_bind, hread, if_neg hzero,
        if_pos hpointer, if_pos (by omega)]

theorem skipName_labels {b c : Bytes} {len : Nat} :
    ∀ (ls : List DnsLabel) (a : Bytes), b = a ++ (ls.flatMap DnsLabel.encode ++ c) →
      a.length + (ls.flatMap DnsLabel.encode).length ≤ len →
      skipName b len a.length = skipName b len (a.length + (ls.flatMap DnsLabel.encode).length) := by
  intro ls
  induction ls with
  | nil =>
      intro a _ _
      rfl
  | cons l ls ih =>
      intro a hb hlen
      rw [List.flatMap_cons, List.length_append] at hlen ⊢
      rw [List.flatMap_cons, List.append_assoc] at hb
      have hnext := ih (a ++ l.encode) (by rw [hb, List.append_assoc])
        (by rw [List.length_append]; omega)
      rw [List.length_append] at hnext
      rw [skipName_label hb (by omega), hnext, Nat.add_assoc]

/-- The walk passes a name, label by label. -/
theorem skipName_name {b a c : Bytes} {len : Nat} {n : DnsName} (hb : b = a ++ (n.encode ++ c))
    (hlen : a.length + n.encode.length ≤ len) :
    skipName b len a.length = .ok (some (a.length + n.encode.length)) := by
  rw [DnsName.encode, List.append_assoc] at hb
  rw [DnsName.encode, List.length_append] at hlen ⊢
  have hb' : b = (a ++ n.labels.flatMap DnsLabel.encode) ++ (n.ending.encode ++ c) := by
    rw [hb, List.append_assoc]
  have hending := @skipName_ending _ _ _ len _ hb' (by rw [List.length_append]; omega)
  rw [List.length_append] at hending
  rw [skipName_labels n.labels a hb (by omega), hending, Nat.add_assoc]

/-- What stands between the name of a record and its data. -/
theorem length_record (r : DnsRecord) :
    r.encode.length = r.name.encode.length + 10 + r.rdata.length := by
  simp only [DnsRecord.encode, List.length_append, length_put16]
  omega

/-- The fixed fields of a record are read back, and so is its data. -/
theorem be16_record {b a c : Bytes} {r : DnsRecord} (hb : b = a ++ (r.encode ++ c))
    (hr : r.rdata.length < 65536) :
    be16 b (a.length + r.name.encode.length) = r.type.toNat ∧
      be16 b (a.length + r.name.encode.length + 8) = r.rdata.length ∧
      ∀ ip, r.rdata = le32 ip → word32 b (a.length + r.name.encode.length + 10) = ip := by
  have hparts : b = (a ++ r.name.encode) ++ (put16 r.type.toNat ++ (put16 r.cls.toNat ++
      (put16 (r.ttl.toNat / 65536) ++ (put16 (r.ttl.toNat % 65536) ++ (put16 r.rdata.length ++
      (r.rdata ++ c)))))) := by
    rw [hb, DnsRecord.encode]
    simp only [List.append_assoc]
  have hlen : (a ++ r.name.encode).length = a.length + r.name.encode.length := List.length_append
  generalize a ++ r.name.encode = n at hparts hlen
  rw [← hlen]
  refine ⟨?_, ?_, ?_⟩
  · rw [hparts]
    exact be16_laidOut n _ r.type.toNat_lt rfl
  · have hfields : (n ++ (put16 r.type.toNat ++ (put16 r.cls.toNat ++
        (put16 (r.ttl.toNat / 65536) ++ put16 (r.ttl.toNat % 65536))))).length = n.length + 8 := by
      simp only [List.length_append, length_put16]
    have h := be16_laidOut _ (r.rdata ++ c) hr hfields
    rw [hparts]
    simp only [List.append_assoc] at h
    exact h
  · intro ip hip
    have hfields : (n ++ (put16 r.type.toNat ++ (put16 r.cls.toNat ++ (put16 (r.ttl.toNat / 65536) ++
        (put16 (r.ttl.toNat % 65536) ++ put16 r.rdata.length))))).length = n.length + 10 := by
      simp only [List.length_append, length_put16]
    have h := word32_append _ c ip hfields
    rw [hparts]
    simp only [List.append_assoc, hip] at h ⊢
    exact h

theorem length_records (rs : List DnsRecord) :
    rs.length ≤ (rs.flatMap DnsRecord.encode).length := by
  induction rs with
  | nil => exact le_rfl
  | cons r rs ih =>
      rw [List.flatMap_cons, List.length_append, length_record, List.length_cons]
      omega

/-- What the walk over records finds. -/
def Found (found : Option UInt32) : Option DnsRecord → Prop
  | some r => ∃ ip, found = some ip ∧ r.rdata = le32 ip
  | none => found = none

/-- The loop stands at the start of a record in every round. -/
theorem answerLoop_records {d c : Bytes} {dn : Nat} (hd : dn ≤ d.length) (hshort : dn < 65536) :
    ∀ (rs : List DnsRecord) (a : Bytes), d = a ++ (rs.flatMap DnsRecord.encode ++ c) →
      a.length + (rs.flatMap DnsRecord.encode).length ≤ dn →
      ∃ found, answerLoop d dn rs.length a.length = .ok found ∧
        Found found (rs.find? fun r => r.IsAddress) := by
  intro rs
  induction rs with
  | nil =>
      intro a _ _
      exact ⟨none, rfl, rfl⟩
  | cons r rs ih =>
      intro a hb hlen
      rw [List.flatMap_cons, List.length_append, length_record] at hlen
      rw [List.flatMap_cons, List.append_assoc] at hb
      obtain ⟨htype, hrdlen, hword⟩ := be16_record hb (by omega)
      have hname : skipName d dn a.length = .ok (some (a.length + r.name.encode.length)) := by
        rw [DnsRecord.encode, List.append_assoc] at hb
        exact skipName_name hb (by omega)
      rw [List.length_cons, answerLoop, if_pos (by omega), hname, ok_bind]
      dsimp only
      rw [if_neg (by omega), read16_eq (by omega), ok_bind, read16_eq (by omega), ok_bind, htype,
        hrdlen, if_neg (by omega)]
      by_cases haddress : r.IsAddress
      · obtain ⟨ip, hip⟩ := exists_le32 haddress.2
        have hread : r.type.toNat = 1 ∧ r.rdata.length = 4 := ⟨by rw [haddress.1]; rfl, haddress.2⟩
        refine ⟨some ip, ?_, ?_⟩
        · rw [if_pos hread, span_eq (by omega), ok_bind, hword ip hip]
        · rw [List.find?_cons_of_pos (by simpa using haddress)]
          exact ⟨ip, rfl, hip⟩
      · have hread : ¬ (r.type.toNat = 1 ∧ r.rdata.length = 4) := by
          intro h
          exact haddress ⟨UInt16.toNat_inj.mp h.1, h.2⟩
        have hnext := ih (a ++ r.encode) (by rw [hb, List.append_assoc])
          (by rw [List.length_append, length_record]; omega)
        rw [List.length_append, length_record] at hnext
        rw [if_neg hread, List.find?_cons_of_neg (by simpa using haddress)]
        rw [show a.length + r.name.encode.length + 10 + r.rdata.length
          = a.length + (r.name.encode.length + 10 + r.rdata.length) by omega]
        exact hnext

namespace DnsMessage

variable (m : DnsMessage) (padding : Bytes)

def header : Bytes :=
  put16 m.txid.toNat ++ put16 m.flags.toNat ++ put16 1 ++ put16 m.answers.length ++
    put16 m.nscount.toNat ++ put16 m.arcount.toNat

def asked : Bytes := m.header ++ m.question.encode ++ put16 m.qtype.toNat ++ put16 m.qclass.toNat

theorem length_asked : m.asked.length = 12 + m.question.encode.length + 4 := by
  simp only [asked, header, List.length_append, length_put16]

theorem length_message : m.encode.length =
    m.asked.length + (m.answers.flatMap DnsRecord.encode).length + m.more.length := by
  rw [← List.length_append, ← List.length_append]
  rfl

theorem be16_txid : be16 (m.encode ++ padding) 0 = m.txid.toNat := by
  simp only [encode, List.append_assoc]
  exact be16_laidOut [] _ m.txid.toNat_lt rfl

theorem be16_ancount (h : m.answers.length < 65536) :
    be16 (m.encode ++ padding) 6 = m.answers.length := by
  have hread := be16_laidOut (put16 m.txid.toNat ++ put16 m.flags.toNat ++ put16 1)
    (put16 m.nscount.toNat ++ put16 m.arcount.toNat ++ m.question.encode ++ put16 m.qtype.toNat ++
      put16 m.qclass.toNat ++ m.answers.flatMap DnsRecord.encode ++ m.more ++ padding) h rfl
  simp only [encode, List.append_assoc] at hread ⊢
  exact hread

/-- The walk passes the name of the question. -/
theorem skipName_question : skipName (m.encode ++ padding) m.encode.length 12 =
    .ok (some (12 + m.question.encode.length)) := by
  have hparts : m.encode ++ padding = m.header ++ (m.question.encode ++
      (put16 m.qtype.toNat ++ put16 m.qclass.toNat ++ m.answers.flatMap DnsRecord.encode ++
        m.more ++ padding)) := by
    simp only [encode, header, List.append_assoc]
  have hlen := m.length_message
  have hasked := m.length_asked
  exact skipName_name hparts (by show 12 + _ ≤ _; omega)

end DnsMessage

def outcome (found : Option UInt32) : Int × Option UInt32 := (if found.isSome then 0 else -8, found)

theorem parseAnswers_message (m : DnsMessage) (padding : Bytes)
    (hshort : 8 + m.encode.length < 65536) :
    ∃ found, parseAnswers (m.encode ++ padding) m.encode.length m.txid = .ok (outcome found) ∧
      Found found (m.answers.find? fun a => a.IsAddress) := by
  have hlen := m.length_message
  have hasked := m.length_asked
  have hmany := length_records m.answers
  have hd : m.encode.length ≤ (m.encode ++ padding).length := by
    rw [List.length_append]
    omega
  have hparts : m.encode ++ padding =
      m.asked ++ (m.answers.flatMap DnsRecord.encode ++ (m.more ++ padding)) := by
    simp only [DnsMessage.encode, DnsMessage.asked, DnsMessage.header, List.append_assoc]
  obtain ⟨found, hfound, hspec⟩ :=
    answerLoop_records hd (by omega) m.answers m.asked hparts (by omega)
  rw [hasked] at hfound
  refine ⟨found, ?_, hspec⟩
  unfold parseAnswers
  rw [read16_eq (by omega), ok_bind, m.be16_txid, if_neg (by simp), read16_eq (by omega), ok_bind,
    m.be16_ancount padding (by omega), m.skipName_question, ok_bind]
  dsimp only
  rw [hfound, ok_bind]
  cases found with
  | none => rfl
  | some ip => rfl

namespace DnsReply

variable (r : DnsReply)

theorem length_header : r.header.length = 20 + 4 * r.options.length := by
  have hoptions : (r.options.flatMap le32).length = 4 * r.options.length := by
    rw [List.length_flatMap, List.map_congr_left (fun v _ => length_le32 v)]
    simp [Nat.mul_comm]
  simp only [header, List.length_append, length_put16, length_le32, hoptions, List.length_cons,
    List.length_nil]

theorem length_datagram : r.datagram.length = 8 + r.message.encode.length := by
  simp only [datagram, List.length_append, length_put16]

/-- The parser comes to the message of the reply. -/
theorem ipprobeParseDns_encode : ipprobeParseDns r.encode r.srcIp r.dstPort r.message.txid =
    parseAnswers (r.message.encode ++ r.padding) r.message.encode.length r.message.txid := by
  have hoptions := r.options_short
  have hmessage := r.message_short
  have hheader := r.length_header
  have hdatagram := r.length_datagram
  have hdns : 12 ≤ r.message.encode.length := by
    simp only [DnsMessage.encode, List.length_append, length_put16]
    omega
  have hlen : r.encode.length =
      20 + 4 * r.options.length + (8 + r.message.encode.length + r.padding.length) := by
    rw [encode, List.length_append, List.length_append, hheader, hdatagram]
  have hfirst : (r.encode.getD 0 0).toNat = 64 + (5 + r.options.length) := by
    have hget : r.encode.getD 0 0 = UInt8.ofNat (64 + (5 + r.options.length)) := rfl
    rw [hget, UInt8.toNat_ofNat']
    omega
  have hprotocol : r.encode.getD 9 0 = 17 := rfl
  have hsrc : word32 r.encode 12 = r.srcIp := by
    have h := word32_append ([UInt8.ofNat (64 + (5 + r.options.length)), r.service] ++
      put16 r.totalLen.toNat ++ put16 r.ident.toNat ++ put16 r.fragment.toNat ++ [r.ttl, 17] ++
      put16 r.ipChecksum.toNat) (le32 r.dstIp ++ r.options.flatMap le32 ++
        (r.datagram ++ r.padding)) r.srcIp rfl
    rw [encode, header]
    simp only [List.append_assoc] at h ⊢
    exact h
  have hudp : r.encode.drop (20 + 4 * r.options.length) = r.datagram ++ r.padding :=
    List.drop_left' hheader
  have hport : be16 (r.datagram ++ r.padding) 2 = r.dstPort.toNat := by
    rw [datagram]
    simp only [List.append_assoc]
    exact be16_laidOut (put16 r.srcPort.toNat) _ r.dstPort.toNat_lt rfl
  have hudpLen : be16 (r.datagram ++ r.padding) 4 = 8 + r.message.encode.length := by
    have h := be16_laidOut (put16 r.srcPort.toNat ++ put16 r.dstPort.toNat)
      (put16 r.udpChecksum.toNat ++ r.message.encode ++ r.padding) hmessage rfl
    rw [datagram]
    simp only [List.append_assoc] at h ⊢
    exact h
  have hdrop : (r.datagram ++ r.padding).drop 8 = r.message.encode ++ r.padding := rfl
  unfold ipprobeParseDns
  dsimp only
  rw [if_neg (by omega), readByte_eq (by omega), ok_bind, hfirst, if_neg (by omega),
    show (64 + (5 + r.options.length)) % 16 * 4 = 20 + 4 * r.options.length by omega,
    if_neg (by omega), readByte_eq (by omega), ok_bind, if_neg (not_not_intro hprotocol),
    span_eq (by omega), ok_bind, if_neg (not_not_intro hsrc), hudp,
    read16_eq (by rw [List.length_append]; omega), ok_bind, if_neg (not_not_intro hport),
    read16_eq (by rw [List.length_append]; omega), ok_bind, hudpLen, if_neg (by omega),
    if_neg (by omega), hdrop, Nat.add_sub_cancel_left]

end DnsReply

/-- **No packet makes the parser read outside it, and from every well-formed reply it takes
the address in the first A record**, -8 if there is none. -/
theorem ipprobeParseDns_finds_address :
    (∀ (pkt : Bytes) (src : UInt32) (port txid : UInt16),
      Safe (ipprobeParseDns pkt src port txid)) ∧
    ∀ r : DnsReply, match r.address with
      | some a => ∃ ip, ipprobeParseDns r.encode r.srcIp r.dstPort r.message.txid = .ok (0, some ip) ∧
          a.rdata = le32 ip
      | none => ipprobeParseDns r.encode r.srcIp r.dstPort r.message.txid = .ok (-8, none) := by
  refine ⟨ipprobeParseDns_safe, ?_⟩
  intro r
  obtain ⟨found, hfound, hspec⟩ := parseAnswers_message r.message r.padding r.message_short
  rw [← r.ipprobeParseDns_encode] at hfound
  change Found found r.address at hspec
  cases h : r.address with
  | none =>
      rw [h] at hspec
      cases hspec
      exact hfound
  | some a =>
      rw [h] at hspec
      obtain ⟨ip, rfl, hip⟩ := hspec
      exact ⟨ip, hfound, hip⟩

/-- An alias and, behind it, an address: both records name the question by a pointer. -/
theorem ipprobeParseDns_finds_address_alias :
    ∃ (r : DnsReply) (ip : UInt32), r.message.answers.length = 2 ∧
      ipprobeParseDns r.encode r.srcIp r.dstPort r.message.txid = .ok (0, some ip) ∧
      le32 ip = [127, 0, 0, 1] := by
  let pointed : DnsName := ⟨[], .pointer 12⟩
  let label : DnsLabel := ⟨[97, 98], by decide, by decide⟩
  let message : DnsMessage :=
    { txid := 7, flags := 0x8180, nscount := 0, arcount := 0, question := ⟨[label], .zero⟩,
      qtype := 1, qclass := 1, more := [],
      answers := [⟨pointed, 5, 1, 60, [1, 99, 192, 12]⟩, ⟨pointed, 1, 1, 60, [127, 0, 0, 1]⟩] }
  let reply : DnsReply :=
    { service := 0, totalLen := 80, ident := 0, fragment := 0, ttl := 64, ipChecksum := 0,
      srcIp := 0x01010101, dstIp := 0x02020202, options := [], options_short := by decide,
      srcPort := 53, dstPort := 40000, udpChecksum := 0, message := message,
      message_short := by decide, padding := [0, 0, 0] }
  obtain ⟨ip, hparse, hdata⟩ := ipprobeParseDns_finds_address.2 reply
  exact ⟨reply, ip, rfl, hparse, hdata.symm⟩

end SysAwg
