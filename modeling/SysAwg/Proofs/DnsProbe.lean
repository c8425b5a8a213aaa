/-
DNS queries built by hand.

A checksum is taken over the packet with zeros in its place, so with the checksum in place
the sum of all words is a multiple of 65535, which is all ones in one's complement.  An
accumulator of 32 bits does not overflow on a packet of 16-bit length.  A packet that was
built is also one the parser can read: its name is a sequence of labels whatever the host
is, so the walk over the question ends where the message does.
-/
import SysAwg.Proofs.DnsReply

namespace SysAwg

open Checked Bytes

/-! ### Sums

The accumulator of the source is an ordinary sum in 32 bits.  As long as it does not
overflow, folding it gives the one's-complement sum.
-/

theorem toNat_sum16 (b : Bytes) : ∀ acc : UInt32, acc.toNat + wordSum b < 4294967296 →
    (sum16 b acc).toNat = acc.toNat + wordSum b := by
  unfold wordSum
  fun_induction words16 b with
  | case1 x y rest ih =>
      intro acc h
      have hx := x.toNat_lt
      have hy := y.toNat_lt
      rw [List.sum_cons] at h ⊢
      have hword : (UInt32.ofNat (x.toNat * 256 + y.toNat)).toNat = x.toNat * 256 + y.toNat :=
        UInt32.toNat_ofNat_of_lt' (show _ < 4294967296 by omega)
      have hacc : (acc + UInt32.ofNat (x.toNat * 256 + y.toNat)).toNat =
          acc.toNat + (x.toNat * 256 + y.toNat) := by
        rw [toNat_add_of_lt (by omega), hword]
      rw [sum16, ih _ (by omega), hacc]
      omega
  | case2 x =>
      intro acc h
      have hx := x.toNat_lt
      rw [List.sum_singleton] at h ⊢
      have hhalf : (x.toUInt32 <<< 8).toNat = x.toNat * 256 := by
        refine (toNat_shiftLeft x.toUInt32 (show 8 < 32 by omega)).trans ?_
        rw [UInt8.toNat_toUInt32]
        omega
      rw [sum16, toNat_add_of_lt (by omega), hhalf]
  | case3 =>
      intro acc _
      rfl

theorem folds_foldLoop (n : Nat) : Folds n (foldLoop n) := by
  fun_induction foldLoop n with
  | case1 n hdone => exact Folds.of_lt (by omega)
  | case2 n _ ih => exact ih.carry

theorem toNat_fold (acc : UInt32) : (fold acc).toNat = 65535 - foldLoop acc.toNat := by
  have hsmall := (folds_foldLoop acc.toNat).small
  rw [fold, UInt16.toNat_not, UInt16.toNat_ofNat_of_lt']
  · rfl
  · show _ < 65536
    exact hsmall

theorem wordSum_put16 {n : Nat} (h : n < 65536) : wordSum (put16 n) = n := by
  show (UInt8.ofNat (n / 256)).toNat * 256 + (UInt8.ofNat n).toNat + 0 = n
  rw [UInt8.toNat_ofNat', UInt8.toNat_ofNat']
  omega

/-- A checksum adds its own value to the sum. -/
theorem wordSum_checksum (a c : Bytes) (ck : UInt16) (ha : a.length % 2 = 0) :
    wordSum (a ++ (put16 ck.toNat ++ c)) = wordSum (a ++ (put16 0 ++ c)) + ck.toNat := by
  have hck := ck.toNat_lt
  rw [wordSum_append a _ ha, wordSum_append a _ ha, wordSum_append (put16 ck.toNat) c (by simp),
    wordSum_append (put16 0) c (by simp), wordSum_put16 hck, wordSum_put16 (by omega)]
  omega

/-! ### Names -/

/-- What is written is a sequence of labels, whatever the host is. -/
theorem nameLoop_labels {cap : Int} : ∀ (fuel : Nat) (p o o' : Bytes),
    nameLoop cap fuel p o = some o' → ∃ ls : List DnsLabel, o' = o ++ ls.flatMap DnsLabel.encode := by
  intro fuel
  induction fuel with
  | zero =>
      intro p o o' h
      cases h
      exact ⟨[], (List.append_nil o).symm⟩
  | succ fuel ih =>
      intro p o o' h
      rw [nameLoop] at h
      by_cases hend : p = []
      · rw [if_pos hend] at h
        cases h
        exact ⟨[], (List.append_nil o).symm⟩
      · rw [if_neg hend] at h
        dsimp only at h
        by_cases hbad : (p.takeWhile (· ≠ dot)).length = 0 ∨ (p.takeWhile (· ≠ dot)).length > 63 ∨
            (o.length + (p.takeWhile (· ≠ dot)).length + 1 : Int) ≥ cap
        · rw [if_pos hbad] at h
          cases h
        · rw [if_neg hbad] at h
          let l : DnsLabel := ⟨p.takeWhile (· ≠ dot), by omega, by omega⟩
          cases hrest : p.dropWhile (· ≠ dot) with
          | nil =>
              rw [hrest] at h
              cases h
              exact ⟨[l], by rw [List.flatMap_singleton]; rfl⟩
          | cons c p =>
              rw [hrest] at h
              obtain ⟨ls, hls⟩ := ih p (o ++ l.encode) o' h
              exact ⟨l :: ls, by rw [hls, List.flatMap_cons, List.append_assoc]⟩

theorem encodeName_name {cap : Int} {host name : Bytes} (h : encodeName cap host = some name) :
    (name.length : Int) ≤ cap ∧ ∃ ls, name = DnsName.encode ⟨ls, .zero⟩ := by
  unfold encodeName at h
  cases ho : nameLoop cap host.length host [] with
  | none =>
      rw [ho] at h
      cases h
  | some o =>
      rw [ho] at h
      dsimp only at h
      by_cases hlong : (o.length + 1 : Int) > cap
      · rw [if_pos hlong] at h
        cases h
      · rw [if_neg hlong] at h
        cases h
        obtain ⟨ls, hls⟩ := nameLoop_labels _ _ _ _ ho
        rw [List.nil_append] at hls
        refine ⟨?_, ls, by rw [hls]; rfl⟩
        rw [List.length_append, List.length_singleton]
        omega

/-! ### Checksums

The field of a checksum holds zero while the sum is taken, and the complement of the sum
goes into it.  For UDP a complement of zero is sent as all ones, which means the same to the
sum.
-/

/-- The IPv4 header with its checksum sums to all ones. -/
theorem onesSum_ipHeader (totalLen : Nat) (txid : UInt16) (srcIp dstIp : UInt32) :
    onesSum (ipHeader totalLen txid srcIp dstIp
      (fold (sum16 (ipHeader totalLen txid srcIp dstIp 0) 0))) = 65535 := by
  set zeros := ipHeader totalLen txid srcIp dstIp 0 with hzeros
  set ck := fold (sum16 zeros 0) with hck
  have hbound := wordSum_le zeros
  have hlen : zeros.length = 20 := rfl
  have hacc : (sum16 zeros 0).toNat = wordSum zeros := by
    rw [toNat_sum16 _ _ (by show 0 + _ < _; omega)]
    exact Nat.zero_add _
  have hsum : wordSum (ipHeader totalLen txid srcIp dstIp ck) = wordSum zeros + ck.toNat := by
    rw [hzeros, ipHeader, ipHeader, List.append_assoc, List.append_assoc _ (put16 _)]
    exact wordSum_checksum _ _ ck (by simp)
  have hfold : ck.toNat = 65535 - foldLoop (wordSum zeros) := by
    rw [hck, toNat_fold, hacc]
  have hpos : 0 < wordSum zeros := by
    show 0 < 0x4500 + wordSum (zeros.drop 2)
    omega
  have hmod := (folds_foldLoop (wordSum zeros)).complete (Or.inl hfold)
  rw [← hsum] at hmod
  exact (folds_onesSum _).all_ones (by omega) hmod

/-- What the UDP checksum covers before the datagram. -/
def pseudoHeader (srcIp dstIp : UInt32) (udpLen : Nat) : Bytes :=
  le32 srcIp ++ le32 dstIp ++ [0, 17] ++ put16 udpLen

theorem wordSum_pseudoHeader (srcIp dstIp : UInt32) {udpLen : Nat} (h : udpLen < 65536) (udp : Bytes) :
    wordSum (pseudoHeader srcIp dstIp udpLen ++ udp) =
      wordSum (le32 srcIp) + wordSum (le32 dstIp) + 17 + udpLen + wordSum udp := by
  have hparts : pseudoHeader srcIp dstIp udpLen ++ udp =
      le32 srcIp ++ (le32 dstIp ++ ([0, 17] ++ (put16 udpLen ++ udp))) := by
    simp only [pseudoHeader, List.append_assoc]
  rw [hparts, wordSum_append (le32 srcIp) _ (by simp), wordSum_append (le32 dstIp) _ (by simp),
    wordSum_append [0, 17] _ (by simp), wordSum_append (put16 udpLen) _ (by simp), wordSum_put16 h,
    show wordSum [0, 17] = 17 from rfl]
  omega

/-- Five additions, none of which overflows. -/
theorem toNat_udpSum (srcIp dstIp : UInt32) {udpLen : Nat} (h : udpLen < 65536) {udp : Bytes}
    (hudp : udp.length = udpLen) : (udpSum srcIp dstIp udpLen udp).toNat =
      wordSum (pseudoHeader srcIp dstIp udpLen ++ udp) := by
  have hsrc := wordSum_le (le32 srcIp)
  have hdst := wordSum_le (le32 dstIp)
  have hbound := wordSum_le udp
  rw [length_le32] at hsrc hdst
  have hlen : (UInt32.ofNat udpLen).toNat = udpLen :=
    UInt32.toNat_ofNat_of_lt' (show _ < 4294967296 by omega)
  have h17 : (17 : UInt32).toNat = 17 := rfl
  have h0 : (0 : UInt32).toNat = 0 := rfl
  have h₁ := toNat_sum16 (le32 srcIp) 0 (by omega)
  have h₂ := toNat_sum16 (le32 dstIp) (sum16 (le32 srcIp) 0) (by omega)
  have h₃ := @toNat_add_of_lt (sum16 (le32 dstIp) (sum16 (le32 srcIp) 0)) 17 (by omega)
  have h₄ := @toNat_add_of_lt (sum16 (le32 dstIp) (sum16 (le32 srcIp) 0) + 17) (UInt32.ofNat udpLen)
    (by omega)
  rw [udpSum, toNat_sum16 _ _ (by omega), wordSum_pseudoHeader srcIp dstIp h]
  omega

/-- The UDP checksum is what its sum lacks, and never zero. -/
theorem udpChecksum_completes (srcIp dstIp : UInt32) {udpLen : Nat} (h : udpLen < 65536) {udp : Bytes}
    (hudp : udp.length = udpLen) : udpChecksum srcIp dstIp udpLen udp ≠ 0 ∧
      (wordSum (pseudoHeader srcIp dstIp udpLen ++ udp) +
        (udpChecksum srcIp dstIp udpLen udp).toNat) % 65535 = 0 := by
  have hacc := toNat_udpSum srcIp dstIp h hudp
  have hfolds := folds_foldLoop (udpSum srcIp dstIp udpLen udp).toNat
  have hck := toNat_fold (udpSum srcIp dstIp udpLen udp)
  rw [← hacc, udpChecksum]
  by_cases hzero : fold (udpSum srcIp dstIp udpLen udp) = 0
  · rw [if_pos hzero]
    rw [hzero] at hck
    have hall : foldLoop (udpSum srcIp dstIp udpLen udp).toNat = 65535 := by
      have hsmall := hfolds.small
      change 0 = _ at hck
      omega
    exact ⟨by decide, hfolds.complete (Or.inr ⟨hall, rfl⟩)⟩
  · rw [if_neg hzero]
    exact ⟨hzero, hfolds.complete (Or.inl hck)⟩

/-- The datagram with its checksum, and its pseudo-header, sum to all ones. -/
theorem onesSum_datagram (srcIp dstIp : UInt32) (srcPort : UInt16) {udpLen : Nat}
    (h : udpLen < 65536) {dns : Bytes} (hdns : 8 + dns.length = udpLen) :
    onesSum (pseudoHeader srcIp dstIp udpLen ++ (udpHeader srcPort udpLen
      (udpChecksum srcIp dstIp udpLen (udpHeader srcPort udpLen 0 ++ dns)) ++ dns)) = 65535 := by
  have hudp : (udpHeader srcPort udpLen 0 ++ dns).length = udpLen := by
    rw [List.length_append, ← hdns]
    rfl
  obtain ⟨-, hmod⟩ := udpChecksum_completes srcIp dstIp h hudp
  generalize udpChecksum srcIp dstIp udpLen (udpHeader srcPort udpLen 0 ++ dns) = ck at hmod ⊢
  have hsum : wordSum (udpHeader srcPort udpLen ck ++ dns) =
      wordSum (udpHeader srcPort udpLen 0 ++ dns) + ck.toNat := by
    have hbefore : (put16 srcPort.toNat ++ put16 53 ++ put16 udpLen).length % 2 = 0 := by simp
    have hadds := wordSum_checksum _ dns ck hbefore
    rw [← List.append_assoc, ← List.append_assoc] at hadds
    exact hadds
  rw [wordSum_pseudoHeader srcIp dstIp h] at hmod
  refine (folds_onesSum _).all_ones ?_ ?_
  · rw [wordSum_pseudoHeader srcIp dstIp h]
    omega
  · rw [wordSum_pseudoHeader srcIp dstIp h, hsum, ← Nat.add_assoc]
    exact hmod

/-! ### Packets

A query is a reply without answers, as far as its layout goes.  So what is known of the
parser's walk over well-formed replies can be used for it.
-/

/-- The query as a message: one question, and nothing answered. -/
def queryMessage (txid : UInt16) (ls : List DnsLabel) : DnsMessage where
  txid := txid
  flags := 0x0100
  nscount := 0
  arcount := 0
  question := ⟨ls, .zero⟩
  qtype := 1
  qclass := 1
  answers := []
  more := []

theorem encode_queryMessage (txid : UInt16) (ls : List DnsLabel) :
    (queryMessage txid ls).encode = dnsQuery txid (DnsName.encode ⟨ls, .zero⟩) := by
  have hflags : put16 (0x0100 : UInt16).toNat = [0x01, 0x00] := rfl
  have hcounts : put16 0 = [0, 0] := rfl
  have hone : (1 : UInt16).toNat = 1 := rfl
  have hzero : (0 : UInt16).toNat = 0 := rfl
  simp only [DnsMessage.encode, queryMessage, dnsQuery, hflags, hcounts, hone, hzero,
    List.length_nil, List.flatMap_nil, List.append_nil, List.append_assoc, List.cons_append,
    List.nil_append]

theorem length_dnsQuery (txid : UInt16) (name : Bytes) :
    (dnsQuery txid name).length = 16 + name.length := by
  simp only [dnsQuery, List.length_append, length_put16, List.length_cons, List.length_nil]
  omega

/-- The packet of a query is a packet the parser was made for, apart from the answers. -/
theorem ipprobeParseDns_query {srcIp dstIp : UInt32} {srcPort txid ipCk udpCk : UInt16}
    {ls : List DnsLabel} {udpLen : Nat} (h : 20 + udpLen < 65536)
    (hudpLen : 8 + (dnsQuery txid (DnsName.encode ⟨ls, .zero⟩)).length = udpLen) :
    ipprobeParseDns (ipHeader (20 + udpLen) txid srcIp dstIp ipCk ++
      (udpHeader srcPort udpLen udpCk ++ dnsQuery txid (DnsName.encode ⟨ls, .zero⟩)))
      srcIp 53 txid = .ok (-8, none) := by
  rw [← encode_queryMessage] at hudpLen ⊢
  let r : DnsReply :=
    { service := 0, totalLen := UInt16.ofNat (20 + udpLen), ident := txid, fragment := 0x4000,
      ttl := 64, ipChecksum := ipCk, srcIp := srcIp, dstIp := dstIp, options := [],
      options_short := Nat.zero_le _, srcPort := srcPort, dstPort := 53, udpChecksum := udpCk,
      message := queryMessage txid ls, message_short := by omega, padding := [] }
  have htotal : (UInt16.ofNat (20 + udpLen)).toNat = 20 + udpLen :=
    UInt16.toNat_ofNat_of_lt' (show _ < 65536 by omega)
  have hencode : r.encode = ipHeader (20 + udpLen) txid srcIp dstIp ipCk ++
      (udpHeader srcPort udpLen udpCk ++ (queryMessage txid ls).encode) := by
    rw [DnsReply.encode, DnsReply.header, DnsReply.datagram]
    show _ ++ put16 (UInt16.ofNat (20 + udpLen)).toNat ++ _ ++ _ ++ _ ++ _ ++ _ ++ [] ++
      (_ ++ put16 (8 + (queryMessage txid ls).encode.length) ++ _ ++ _ ++ []) = _
    rw [htotal, hudpLen, List.append_nil, List.append_nil]
    rfl
  obtain ⟨found, hfound, hspec⟩ := parseAnswers_message r.message r.padding r.message_short
  rw [← r.ipprobeParseDns_encode, hencode] at hfound
  cases hspec
  exact hfound

/-- A valid packet of at most `cap` bytes that asks something and answers nothing. -/
structure IsProbe (cap : Int) (srcIp dstIp : UInt32) (txid : UInt16) (pkt : Bytes) : Prop where
  fits : (pkt.length : Int) ≤ cap
  totalLength : be16 pkt 2 = pkt.length
  udpLength : be16 pkt 24 = pkt.length - 20
  ipSum : onesSum (pkt.take 20) = 65535
  udpSum : onesSum (pseudoHeader srcIp dstIp (pkt.length - 20) ++ pkt.drop 20) = 65535
  udpChecked : be16 pkt 26 ≠ 0
  /-- The walk over the name ends at the type and the class, which end the message. -/
  question : skipName (pkt.drop 28) (pkt.length - 28) 12 = .ok (some (pkt.length - 28 - 4))
  parsed : ipprobeParseDns pkt srcIp 53 txid = .ok (-8, none)

theorem isProbe_query {cap : Int} (hcap : cap ≤ 65535) {srcIp dstIp : UInt32}
    {srcPort txid ipCk udpCk : UInt16} {ls : List DnsLabel} {dns : Bytes} {udpLen : Nat}
    (hdns : dns = dnsQuery txid (DnsName.encode ⟨ls, .zero⟩)) (hudpLen : 8 + dns.length = udpLen)
    (hfits : (20 + udpLen : Int) ≤ cap)
    (hipCk : ipCk = fold (sum16 (ipHeader (20 + udpLen) txid srcIp dstIp 0) 0))
    (hudpCk : udpCk = udpChecksum srcIp dstIp udpLen (udpHeader srcPort udpLen 0 ++ dns)) :
    IsProbe cap srcIp dstIp txid
      (ipHeader (20 + udpLen) txid srcIp dstIp ipCk ++ (udpHeader srcPort udpLen udpCk ++ dns)) := by
  have hname : dns.length = 16 + (DnsName.encode ⟨ls, .zero⟩).length := by
    rw [hdns, length_dnsQuery]
  have hipHeader : (ipHeader (20 + udpLen) txid srcIp dstIp ipCk).length = 20 := rfl
  have hudpHeader : (udpHeader srcPort udpLen udpCk).length = 8 := rfl
  have hlen : (ipHeader (20 + udpLen) txid srcIp dstIp ipCk ++
      (udpHeader srcPort udpLen udpCk ++ dns)).length = 20 + udpLen := by
    rw [List.length_append, List.length_append, hipHeader, hudpHeader, hudpLen]
  have hudp : (ipHeader (20 + udpLen) txid srcIp dstIp ipCk ++
      (udpHeader srcPort udpLen udpCk ++ dns)).drop 20 = udpHeader srcPort udpLen udpCk ++ dns := rfl
  have hquery : (ipHeader (20 + udpLen) txid srcIp dstIp ipCk ++
      (udpHeader srcPort udpLen udpCk ++ dns)).drop 28 = dns := rfl
  refine ⟨?_, ?_, ?_, ?_, ?_, ?_, ?_, ?_⟩
  · rw [hlen]
    exact hfits
  · rw [hlen]
    exact be16_laidOut [0x45, 0] _ (by omega) rfl
  · rw [hlen, Nat.add_sub_cancel_left]
    exact be16_laidOut (ipHeader (20 + udpLen) txid srcIp dstIp ipCk ++
      (put16 srcPort.toNat ++ put16 53)) (put16 udpCk.toNat ++ dns) (by omega) rfl
  · rw [List.take_left' hipHeader, hipCk]
    exact onesSum_ipHeader (20 + udpLen) txid srcIp dstIp
  · rw [hlen, Nat.add_sub_cancel_left, hudp, hudpCk]
    exact onesSum_datagram srcIp dstIp srcPort (by omega) hudpLen
  · have hread : be16 (ipHeader (20 + udpLen) txid srcIp dstIp ipCk ++
        (udpHeader srcPort udpLen udpCk ++ dns)) 26 = udpCk.toNat :=
      be16_laidOut (ipHeader (20 + udpLen) txid srcIp dstIp ipCk ++
        (put16 srcPort.toNat ++ put16 53 ++ put16 udpLen)) dns udpCk.toNat_lt rfl
    have hzeros : (udpHeader srcPort udpLen 0 ++ dns).length = udpLen := by
      rw [List.length_append, ← hudpLen]
      rfl
    rw [hread, hudpCk]
    intro hzero
    exact (udpChecksum_completes srcIp dstIp (by omega) hzeros).1 (UInt16.toNat_inj.mp hzero)
  · have hwalk := (queryMessage txid ls).skipName_question []
    rw [List.append_nil, encode_queryMessage, ← hdns] at hwalk
    rw [hlen, hquery, show 20 + udpLen - 28 = dns.length by omega,
      show dns.length - 4 = 12 + (DnsName.encode ⟨ls, .zero⟩).length by omega]
    exact hwalk
  · rw [hdns] at hudpLen ⊢
    exact ipprobeParseDns_query (by omega) hudpLen

/-- **Every query that is built is a valid packet**, and the parser walks its whole question
and finds no answer. -/
theorem ipprobeBuildDns_valid {cap : Int} (hcap : cap ≤ 65535) {srcIp dstIp : UInt32}
    {srcPort txid : UInt16} {host pkt : Bytes}
    (h : ipprobeBuildDns cap srcIp dstIp srcPort txid host = some pkt) :
    IsProbe cap srcIp dstIp txid pkt := by
  unfold ipprobeBuildDns at h
  by_cases hsmall : cap < 20 + 8 + 32
  · rw [if_pos hsmall] at h
    cases h
  · rw [if_neg hsmall] at h
    dsimp only at h
    cases hname : encodeName (cap - 20 - 8 - 12 - 4) (cString host) with
    | none =>
        rw [hname] at h
        cases h
    | some name =>
        rw [hname] at h
        cases h
        obtain ⟨hlen, ls, rfl⟩ := encodeName_name hname
        have hquery := length_dnsQuery txid (DnsName.encode ⟨ls, .zero⟩)
        exact isProbe_query hcap rfl rfl (by omega) rfl rfl

theorem ipprobeBuildDns_valid_localhost :
    ∃ pkt, ipprobeBuildDns 512 0x0200000A 0x01010101 40000 7
        [108, 111, 99, 97, 108, 104, 111, 115, 116] = some pkt ∧
      IsProbe 512 0x0200000A 0x01010101 7 pkt := by
  obtain ⟨pkt, hpkt⟩ : ∃ pkt, ipprobeBuildDns 512 0x0200000A 0x01010101 40000 7
      [108, 111, 99, 97, 108, 104, 111, 115, 116] = some pkt := ⟨_, rfl⟩
  exact ⟨pkt, hpkt, ipprobeBuildDns_valid (by decide) hpkt⟩

end SysAwg
