import Neufbox.Libetk.Equiv.SeqFile
import Neufbox.Libetk.NetSprint

/-!
# The printers of addresses and networks

The three printers of a network bring the address and the mask into host order and the network back
into network order: they print the same on every host (`network_printers_agree`).

The other printers forget one of the two.  `ip_sprint` prints the octets in the opposite order on a
little-endian host, as does `ip_mc_ethernet`; `broadcast_sprint` prints the part of the address that
is not in the mask, where the complement of the mask was to be added.
-/

namespace Neufbox.Libetk

open Memory CStrings Inet Ipv4 Subnet Words

variable {inetAton : String → Option Ipv4} {host : Endian} {ipaddr netmask : String} {ip nm : Ipv4}

/-! ### Texts -/

theorem ipnetText_network (hip : inetAton ipaddr = some ip) (hnm : inetAton netmask = some nm) :
    ipnetText inetAton host ipaddr netmask false
      = some (cidr (.ofAddr (ip.addr &&& nm.addr)) (maskBits nm.addr)) := by
  rw [ipnetText, hip, hnm]
  show some ((Inet.octets host (htonl host _)).chars ++ _) = some _
  rw [ntohl_inAddr, ntohl_inAddr, octets_htonl, toNat_maskBitsUnsigned, cidr]

theorem ipnetText_ip (hip : inetAton ipaddr = some ip) (hnm : inetAton netmask = some nm) :
    ipnetText inetAton host ipaddr netmask true
      = some (cidr (Inet.octets host ip.addr) (maskBits nm.addr)) := by
  rw [ipnetText, hip, hnm]
  show some ((Inet.octets host (ntohl host (inAddr host ip))).chars ++ _) = some _
  rw [ntohl_inAddr, ntohl_inAddr, toNat_maskBitsUnsigned, cidr]

theorem broadcastText_eq (hip : inetAton ipaddr = some ip) (hnm : inetAton netmask = some nm) :
    broadcastText inetAton host ipaddr netmask
      = some (Ipv4.ofAddr (inAddr host ip &&& ~~~inAddr host nm)).chars := by
  rw [broadcastText, hip, hnm]
  show some (Inet.octets host (htonl host _)).chars = some _
  rw [octets_htonl]

theorem nbuNetGetNetwork_eq (hip : inetAton ipaddr = some ip) (hnm : inetAton netmask = some nm)
    (network : ℕ → UInt8) (networkSize : ℕ) :
    Libnbu.nbuNetGetNetwork inetAton host ipaddr netmask network networkSize
      = some (snprintf network 0 networkSize
        (ascii (cidr (.ofAddr (ip.addr &&& nm.addr)) (maskBits nm.addr) ++ ['\n']))) := by
  rw [Libnbu.nbuNetGetNetwork, hip, hnm]
  show some (snprintf network 0 networkSize
    (ascii ((Inet.octets host (htonl host _)).chars ++ _ ++ ['\n']))) = some _
  rw [ntohl_inAddr, ntohl_inAddr, octets_htonl, toNat_maskBitsUnsigned, cidr]

/-- What `snprintf` prints to a buffer that is large enough. -/
theorem stringAt_sprint (buf : ℕ → UInt8) {len : ℕ} {text : List Char} (h : Printable text)
    (hlen : text.length < len) : StringAt (sprint buf len (some text)).2 0 (ascii text) := by
  refine stringAt_snprintf_of_lt buf 0 ?_ (nul_notMem_ascii h)
  rwa [length_ascii]

/-- There is one text that is printed. -/
theorem stringAt_sprint_iff (buf : ℕ → UInt8) {len : ℕ} {text meant : List Char}
    (h : Printable text) (hmeant : Printable meant) (hlen : text.length < len) :
    StringAt (sprint buf len (some text)).2 0 (ascii meant) ↔ text = meant := by
  rw [(stringAt_sprint buf h hlen).iff_eq, eq_comm]
  exact ⟨ascii_injective h hmeant, congrArg ascii⟩

/-! ### The three printers of a network -/

theorem stringAt_seqPrintf {w : ℕ} {m : SeqFile w} {text : List UInt8} (h : 0 ∉ text)
    (hfits : m.count.toNat + text.length < m.size.toNat) :
    StringAt (seqPrintf m text).2.buf m.count.toNat text := by
  have hlt : m.count < m.size := BitVec.lt_def.mpr (by omega)
  have hroom : (m.size - m.count).toNat = m.size.toNat - m.count.toNat :=
    toNat_sub_of_le (by omega)
  have hstring : StringAt (snprintf m.buf m.count.toNat (m.size - m.count).toNat text)
      m.count.toNat text := stringAt_snprintf_of_lt m.buf _ (by omega) h
  rw [seqPrintf, if_pos hlt]
  dsimp only
  split_ifs
  · exact hstring
  · exact hstring

/-- **Three network printers agree.**  For every address and mask that `inet_aton` takes there is
one text that `net_sprint`, `seq_print_net` and, with a newline, `nbu_net_get_network` print on
every host, into every buffer that it fits in with its NUL, which are all from 19 bytes on, or 20.
For a contiguous mask it is the address and'ed with the mask, a slash, and the number of ones in the
mask. -/
theorem network_printers_agree {w : ℕ} (hip : inetAton ipaddr = some ip)
    (hnm : inetAton netmask = some nm) :
    ∃ text : List Char, text.length ≤ 18 ∧
      (∀ host buf len, text.length < len →
        StringAt (netSprint inetAton host buf len ipaddr netmask).2 0 (ascii text)) ∧
      (∀ host (m : SeqFile w), m.count.toNat + text.length < m.size.toNat →
        StringAt (seqPrintNet inetAton host m ipaddr netmask).2.buf m.count.toNat (ascii text)) ∧
      (∀ host network networkSize, text.length + 1 < networkSize →
        ∃ memory, Libnbu.nbuNetGetNetwork inetAton host ipaddr netmask network networkSize
          = some memory ∧ StringAt memory 0 (ascii (text ++ ['\n']))) ∧
      ∀ k ≤ 32, nm.addr = prefixMask 32 k →
        text = (Ipv4.ofAddr (ip.addr &&& nm.addr)).chars
          ++ '/' :: Nat.toDigits 10 nm.addr.cpop.toNat := by
  have hprintable := printable_cidr (.ofAddr (ip.addr &&& nm.addr)) (maskBits nm.addr)
  refine ⟨_, length_cidr_le (.ofAddr (ip.addr &&& nm.addr)) (maskBits_le nm.addr), ?_, ?_, ?_, ?_⟩
  · intro host buf len hlen
    rw [netSprint, ipnetText_network hip hnm]
    exact stringAt_sprint buf hprintable hlen
  · intro host m hfits
    rw [seqPrintNet, seqNetText_eq inetAton host hip hnm]
    exact stringAt_seqPrintf (nul_notMem_ascii hprintable) (by rwa [length_ascii])
  · intro host network networkSize hsize
    refine ⟨_, nbuNetGetNetwork_eq hip hnm network networkSize, ?_⟩
    have hline : Printable (cidr (.ofAddr (ip.addr &&& nm.addr)) (maskBits nm.addr) ++ ['\n']) :=
      List.forall_mem_append.mpr ⟨hprintable, List.forall_mem_singleton.mpr (by decide)⟩
    refine stringAt_snprintf_of_lt network 0 ?_ (nul_notMem_ascii hline)
    rwa [length_ascii, List.length_append]
  · intro k hk hmask
    obtain ⟨hbits, hones⟩ := maskBits_prefixMask hk
    rw [cidr, hmask, hbits, hones]

/-- The host 10.1.2.3 with a mask of 20 bits. -/
theorem network_printers_agree_twenty :
    let inetAton := Libnbu.inetAtonOctets
    ∃ memory, Libnbu.nbuNetGetNetwork inetAton .little "10.1.2.3" "255.255.240.0" (fun _ => 0xff) 20
        = some memory ∧
      StringAt (netSprint inetAton .big (fun _ => 0xff) 19 "10.1.2.3" "255.255.240.0").2 0
        (ascii "10.1.0.0/20".toList) ∧
      StringAt memory 0 (ascii "10.1.0.0/20\n".toList) := by
  intro inetAton
  have hip : inetAton "10.1.2.3" = some ⟨10, 1, 2, 3⟩ := by decide
  have hnm : inetAton "255.255.240.0" = some ⟨255, 255, 240, 0⟩ := by decide
  obtain ⟨text, hlength, hnet, -, hnbu, htext⟩ := network_printers_agree (w := 32) hip hnm
  obtain rfl : text = "10.1.0.0/20".toList :=
    (htext 20 (by decide) (by decide)).trans (by decide)
  obtain ⟨memory, hmemory, hline⟩ := hnbu .little (fun _ => 0xff) 20 (by decide)
  exact ⟨memory, hmemory, hnet .big _ 19 (by decide), hline⟩

/-! ### The other printers -/

/-- The octets of an address, as they are printed in host order. -/
theorem octets_addr_eq_iff (host : Endian) (ip : Ipv4) :
    Inet.octets host ip.addr = ip ↔ host = .big ∨ ip.reverse = ip := by
  cases host with
  | big => exact iff_of_true (ofAddr_addr ip) (.inl rfl)
  | little =>
    show (ofAddr ip.addr).reverse = ip ↔ _
    rw [ofAddr_addr]
    exact ⟨.inr, fun h => h.resolve_left nofun⟩

theorem cidr_inj {ip ip' : Ipv4} {bits : ℕ} : cidr ip bits = cidr ip' bits ↔ ip = ip' := by
  refine ⟨fun h => ?_, fun h => h ▸ rfl⟩
  exact chars_injective (List.append_cancel_right h)

/-- What is meant by the Ethernet address of a multicast address: the low 23 bits. -/
def multicastText (ip : Ipv4) : List Char :=
  mcEthernetHead ++ hexByte hexUpper (ip.b &&& 0x7f) ++ ':' :: hexByte hexUpper ip.c
    ++ ':' :: hexByte hexUpper ip.d

/-- `x` and `p` in common are all that `y` and `q` have, and the other way round: all are the
same. -/
theorem eq_of_and_eq_or {w : ℕ} {x y p q : BitVec w} (hx : x &&& p = y ||| q)
    (hy : y &&& q = x ||| p) : x = p ∧ y = q ∧ x = y := by
  have hbool : ∀ x y p q : Bool, (x && p) = (y || q) → (y && q) = (x || p) →
      x = p ∧ y = q ∧ x = y := by decide
  have hbits (i : ℕ) (hi : i < w) : x[i] = p[i] ∧ y[i] = q[i] ∧ x[i] = y[i] := by
    refine hbool _ _ _ _ ?_ ?_
    · rw [← BitVec.getElem_and, ← BitVec.getElem_or]
      simp only [hx]
    · rw [← BitVec.getElem_and, ← BitVec.getElem_or]
      simp only [hy]
  refine ⟨?_, ?_, ?_⟩
  · exact BitVec.eq_of_getElem_eq fun i hi => (hbits i hi).1
  · exact BitVec.eq_of_getElem_eq fun i hi => (hbits i hi).2.1
  · exact BitVec.eq_of_getElem_eq fun i hi => (hbits i hi).2.2

theorem octet_eq_of_and_eq_or {x y p q : UInt8} (hx : x &&& p = y ||| q)
    (hy : y &&& q = x ||| p) : x = p ∧ y = q ∧ x = y := by
  obtain ⟨hxp, hyq, hxy⟩ := eq_of_and_eq_or (congrArg UInt8.toBitVec hx)
    (congrArg UInt8.toBitVec hy)
  exact ⟨UInt8.eq_of_toBitVec_eq hxp, UInt8.eq_of_toBitVec_eq hyq, UInt8.eq_of_toBitVec_eq hxy⟩

/-- **The broadcast address on a big-endian host.** -/
theorem and_not_eq_or_not_iff (x m : BitVec 32) : x &&& ~~~m = x ||| ~~~m ↔ x = ~~~m := by
  refine ⟨fun h => (eq_of_and_eq_or h h).1, ?_⟩
  rintro rfl
  rw [BitVec.and_self, BitVec.or_self]

theorem eq_not_addr_iff (ip nm : Ipv4) :
    ip.addr = ~~~nm.addr ↔ ip = ⟨~~~nm.a, ~~~nm.b, ~~~nm.c, ~~~nm.d⟩ := by
  have hnot := ofAddr_not nm.addr
  rw [ofAddr_addr] at hnot
  rw [← hnot]
  constructor
  · intro h
    rw [← h, ofAddr_addr]
  · intro h
    rw [h, addr_ofAddr]

/-- **The broadcast address on a little-endian host.**  The octets are swapped before they are
combined. -/
theorem reverse_broadcast_iff (ip nm : Ipv4) :
    ofAddr (ip.reverse.addr &&& ~~~nm.reverse.addr) = ofAddr (ip.addr ||| ~~~nm.addr) ↔
      ip.addr = ~~~nm.addr ∧ nm.reverse = nm := by
  rw [eq_not_addr_iff, ofAddr_and, ofAddr_or, ofAddr_not, ofAddr_not, ofAddr_addr, ofAddr_addr,
    ofAddr_addr, ofAddr_addr]
  constructor
  · intro h
    obtain ⟨had, hbc, hcb, hda⟩ := Ipv4.mk.inj h
    obtain ⟨hd, ha, hda'⟩ := octet_eq_of_and_eq_or had hda
    obtain ⟨hc, hb, hcb'⟩ := octet_eq_of_and_eq_or hbc hcb
    have hnda : nm.d = nm.a := UInt8.not_inj.mp (hd.symm.trans (hda'.trans ha))
    have hncb : nm.c = nm.b := UInt8.not_inj.mp (hc.symm.trans (hcb'.trans hb))
    constructor
    · show Ipv4.mk ip.a ip.b ip.reverse.b ip.reverse.a = _
      rw [ha, hb, hc, hd]
      rfl
    · show Ipv4.mk nm.d nm.c nm.b nm.a = Ipv4.mk nm.a nm.b nm.c nm.d
      rw [hnda, hncb]
  · rintro ⟨rfl, hrev⟩
    obtain ⟨hda, hcb, -, -⟩ := Ipv4.mk.inj hrev
    show Ipv4.mk (~~~nm.d &&& ~~~nm.d) (~~~nm.c &&& ~~~nm.c) (~~~nm.b &&& ~~~nm.b)
      (~~~nm.a &&& ~~~nm.a) = Ipv4.mk (~~~nm.a ||| ~~~nm.a) (~~~nm.b ||| ~~~nm.b)
      (~~~nm.c ||| ~~~nm.c) (~~~nm.d ||| ~~~nm.d)
    rw [hda, hcb]
    simp only [UInt8.and_self, UInt8.or_self]

/-- The prefixes that read the same in both directions. -/
theorem reverse_prefixMask_iff {k : ℕ} (hk : k ≤ 32) (hmask : nm.addr = prefixMask 32 k) :
    nm.reverse = nm ↔ k = 0 ∨ k = 32 := by
  have hall : ∀ k : Fin 33, (ofAddr (prefixMask 32 k)).reverse = ofAddr (prefixMask 32 k) ↔
      k.val = 0 ∨ k.val = 32 := by decide
  have hnm : nm = ofAddr (prefixMask 32 k) := by rw [← hmask, ofAddr_addr]
  rw [hnm]
  exact hall ⟨k, by omega⟩

/-- The octets that `broadcast_sprint` prints are those of the broadcast address. -/
theorem broadcast_iff (host : Endian) (ip : Ipv4) {k : ℕ} (hk : k ≤ 32)
    (hmask : nm.addr = prefixMask 32 k) :
    ofAddr (inAddr host ip &&& ~~~inAddr host nm) = ofAddr (ip.addr ||| ~~~nm.addr) ↔
      ip.addr = ~~~nm.addr ∧ (host = .big ∨ k = 0 ∨ k = 32) := by
  cases host with
  | big =>
    rw [and_iff_left (.inl rfl), ← and_not_eq_or_not_iff]
    refine ⟨fun h => ?_, congrArg ofAddr⟩
    have haddr := congrArg Ipv4.addr h
    rwa [addr_ofAddr, addr_ofAddr] at haddr
  | little =>
    rw [← reverse_prefixMask_iff hk hmask]
    refine (reverse_broadcast_iff ip nm).trans (and_congr_right fun _ => ?_)
    exact ⟨.inr, fun h => h.resolve_left nofun⟩

/-! ### Multicast addresses -/

theorem multicast_bytes (ip : Ipv4) :
    UInt8.ofNat ((ip.addr >>> 16) &&& 0x7f).toNat = ip.b &&& 0x7f ∧
      UInt8.ofNat ((ip.addr >>> 8) &&& 0xff).toNat = ip.c ∧
      UInt8.ofNat (ip.addr &&& 0xff).toNat = ip.d := by
  have ha := ip.a.toNat_lt
  have hb := ip.b.toNat_lt
  have hc := ip.c.toNat_lt
  have hd := ip.d.toNat_lt
  have haddr := toNat_addr ip
  have hlow (x : BitVec 32) : (x &&& 0xff).toNat = x.toNat % 2 ^ 8 := by
    rw [BitVec.toNat_and]
    exact Nat.and_two_pow_sub_one_eq_mod x.toNat 8
  have hseven (n : ℕ) : n &&& 127 = n % 2 ^ 7 := Nat.and_two_pow_sub_one_eq_mod n 7
  have hmiddle (x : BitVec 32) : (x &&& 0x7f).toNat = x.toNat % 2 ^ 7 := by
    rw [BitVec.toNat_and]
    exact hseven x.toNat
  refine ⟨?_, ?_, ?_⟩ <;> apply UInt8.toNat_inj.mp
  · rw [UInt8.toNat_and, hmiddle, UInt8.toNat_ofNat', BitVec.toNat_ushiftRight,
      Nat.shiftRight_eq_div_pow, haddr]
    show _ = ip.b.toNat &&& 127
    rw [hseven]
    omega
  · rw [hlow, UInt8.toNat_ofNat', BitVec.toNat_ushiftRight, Nat.shiftRight_eq_div_pow, haddr]
    omega
  · rw [hlow, UInt8.toNat_ofNat', haddr]
    omega

/-- The address that is printed is the one in host order. -/
theorem ipMcEthernetText_eq (host : Endian) (ip : Ipv4) :
    ipMcEthernetText host ip = multicastText (Inet.octets host ip.addr) := by
  have htext (ip : Ipv4) : ipMcEthernetText .big ip = multicastText ip := by
    obtain ⟨hb, hc, hd⟩ := multicast_bytes ip
    show mcEthernetHead ++ hexByte hexUpper (UInt8.ofNat ((ip.addr >>> 16) &&& 0x7f).toNat)
      ++ ':' :: hexByte hexUpper (UInt8.ofNat ((ip.addr >>> 8) &&& 0xff).toNat)
      ++ ':' :: hexByte hexUpper (UInt8.ofNat (ip.addr &&& 0xff).toNat) = _
    rw [hb, hc, hd, multicastText]
  cases host with
  | big =>
    show _ = multicastText (ofAddr ip.addr)
    rw [htext, ofAddr_addr]
  | little =>
    show ipMcEthernetText .big ip.reverse = multicastText (ofAddr ip.addr).reverse
    rw [htext, ofAddr_addr]

theorem hexUpper_inj : ∀ i j : Fin 16, hexUpper i = hexUpper j → i = j := by decide

theorem hexByte_injective {b b' : UInt8} (h : hexByte hexUpper b = hexByte hexUpper b') :
    b = b' := by
  have hb := b.toNat_lt
  have hb' := b'.toNat_lt
  obtain ⟨hhigh, hlow⟩ := List.cons.inj h
  have hhigh := hexUpper_inj ⟨b.toNat / 16, by omega⟩ ⟨b'.toNat / 16, by omega⟩ hhigh
  have hlow := hexUpper_inj ⟨b.toNat % 16, by omega⟩ ⟨b'.toNat % 16, by omega⟩
    (List.cons.inj hlow).1
  rw [Fin.mk.injEq] at hhigh hlow
  apply UInt8.toNat_inj.mp
  omega

/-- The text of the address with its octets in the opposite order. -/
theorem multicastText_reverse_iff (ip : Ipv4) :
    multicastText ip.reverse = multicastText ip ↔ ip.reverse = ip := by
  refine ⟨fun h => ?_, congrArg multicastText⟩
  rw [multicastText, multicastText, List.append_assoc, List.append_assoc, List.append_assoc,
    List.append_assoc] at h
  obtain ⟨-, hlast⟩ := List.append_inj (List.append_cancel_left h) rfl
  obtain ⟨hmiddle, hlast⟩ := List.append_inj (List.cons.inj hlast).2 rfl
  have hbc : ip.b = ip.c := hexByte_injective hmiddle
  have had : ip.a = ip.d := hexByte_injective (List.cons.inj hlast).2
  show Ipv4.mk ip.d ip.c ip.b ip.a = Ipv4.mk ip.a ip.b ip.c ip.d
  rw [had, hbc]

theorem printable_multicastText (ip : Ipv4) :
    Printable (multicastText ip) ∧ (multicastText ip).length = 17 := by
  have hbyte := printable_hexByte (.inr rfl)
  have hhead : Printable mcEthernetHead := by simp [Printable, mcEthernetHead]
  refine ⟨?_, rfl⟩
  simp only [Printable, multicastText, List.forall_mem_append, List.forall_mem_cons]
  exact ⟨⟨⟨hhead, hbyte _⟩, by decide, hbyte _⟩, by decide, hbyte _⟩

/-- **Address printers.**  For every address, every contiguous mask, every host and every buffer
that is large enough: `ip_sprint` prints the address with the length of the prefix, and
`ip_mc_ethernet` the Ethernet address of a multicast address, if and only if the host is big-endian
or the octets read the same in both directions; `broadcast_sprint` prints the broadcast address if
and only if the address is the complement of the mask and, on a little-endian host, the mask is all
zeros or all ones. -/
theorem address_printers_iff (hip : inetAton ipaddr = some ip) (hnm : inetAton netmask = some nm)
    {k : ℕ} (hk : k ≤ 32) (hmask : nm.addr = prefixMask 32 k) (host : Endian) (buf : ℕ → UInt8)
    {len : ℕ} (hlen : 19 ≤ len) :
    (StringAt (ipSprint inetAton host buf len ipaddr netmask).2 0
        (ascii (ip.chars ++ '/' :: Nat.toDigits 10 nm.addr.cpop.toNat)) ↔
      host = .big ∨ ip.reverse = ip) ∧
    (StringAt (broadcastSprint inetAton host buf len ipaddr netmask).2 0
        (ascii (Ipv4.ofAddr (ip.addr ||| ~~~nm.addr)).chars) ↔
      ip.addr = ~~~nm.addr ∧ (host = .big ∨ k = 0 ∨ k = 32)) ∧
    (StringAt (ipMcEthernet inetAton host ipaddr buf len).2 0 (ascii (multicastText ip)) ↔
      host = .big ∨ ip.reverse = ip) := by
  obtain ⟨hbits, hones⟩ := maskBits_prefixMask hk
  rw [← hmask] at hbits hones
  refine ⟨?_, ?_, ?_⟩
  · have hlength := length_cidr_le (Inet.octets host ip.addr) (maskBits_le nm.addr)
    rw [ipSprint, ipnetText_ip hip hnm, hones, ← hbits]
    refine (stringAt_sprint_iff buf (printable_cidr _ _) (printable_cidr ip _) (by omega)).trans ?_
    exact cidr_inj.trans (octets_addr_eq_iff host ip)
  · have hlength := (length_chars (.ofAddr (inAddr host ip &&& ~~~inAddr host nm))).2
    rw [broadcastSprint, broadcastText_eq hip hnm]
    refine (stringAt_sprint_iff buf (printable_chars _) (printable_chars _) (by omega)).trans ?_
    exact ⟨fun h => (broadcast_iff host ip hk hmask).mp (chars_injective h),
      fun h => congrArg Ipv4.chars ((broadcast_iff host ip hk hmask).mpr h)⟩
  · obtain ⟨hprintable, hlength⟩ := printable_multicastText (Inet.octets host ip.addr)
    obtain ⟨hmeant, -⟩ := printable_multicastText ip
    rw [ipMcEthernet, hip]
    dsimp only
    rw [ipMcEthernetText_eq]
    refine (stringAt_sprint_iff buf hprintable hmeant (by omega)).trans ?_
    rw [← octets_addr_eq_iff]
    refine ⟨fun h => ?_, congrArg multicastText⟩
    cases host with
    | big => exact ofAddr_addr ip
    | little =>
      have hrev : Inet.octets .little ip.addr = ip.reverse := congrArg reverse (ofAddr_addr ip)
      rw [hrev] at h ⊢
      exact (multicastText_reverse_iff ip).mp h

/-- On a big-endian host the address and the multicast address of 224.0.0.251 are right. -/
theorem address_printers_big :
    StringAt (ipSprint Libnbu.inetAtonOctets .big (fun _ => 0xff) 19 "224.0.0.251"
        "255.255.255.0").2 0 (ascii "224.0.0.251/24".toList) ∧
      StringAt (ipMcEthernet Libnbu.inetAtonOctets .big "224.0.0.251" (fun _ => 0xff) 19).2 0
        (ascii "01:00:5E:00:00:FB".toList) := by
  have haddr : Libnbu.inetAtonOctets "224.0.0.251" = some ⟨224, 0, 0, 251⟩ := by decide
  have hnm : Libnbu.inetAtonOctets "255.255.255.0" = some ⟨255, 255, 255, 0⟩ := by decide
  obtain ⟨hip, -, hmc⟩ := address_printers_iff (k := 24) haddr hnm (by decide) (by decide)
    .big (fun _ => 0xff) (show 19 ≤ 19 from Nat.le_refl 19)
  have htext : (⟨224, 0, 0, 251⟩ : Ipv4).chars
      ++ '/' :: Nat.toDigits 10 (⟨255, 255, 255, 0⟩ : Ipv4).addr.cpop.toNat
      = "224.0.0.251/24".toList := by decide
  have hmctext : multicastText ⟨224, 0, 0, 251⟩ = "01:00:5E:00:00:FB".toList := by decide
  rw [htext] at hip
  rw [hmctext] at hmc
  exact ⟨hip.mpr (.inl rfl), hmc.mpr (.inl rfl)⟩

/-- 192.168.1.5 with a mask of 24 bits: the host part is printed as the broadcast address, and a
little-endian host prints the octets the other way round. -/
theorem address_printers_swapped :
    let inetAton := Libnbu.inetAtonOctets
    let buf : ℕ → UInt8 := fun _ => 0xff
    StringAt (broadcastSprint inetAton .big buf 19 "192.168.1.5" "255.255.255.0").2 0
        (ascii "0.0.0.5".toList) ∧
      ¬ StringAt (broadcastSprint inetAton .big buf 19 "192.168.1.5" "255.255.255.0").2 0
        (ascii "192.168.1.255".toList) ∧
      StringAt (ipSprint inetAton .little buf 19 "192.168.1.5" "255.255.255.0").2 0
        (ascii "5.1.168.192/24".toList) ∧
      StringAt (ipMcEthernet inetAton .little "224.1.2.3" buf 19).2 0
        (ascii "01:00:5E:02:01:E0".toList) := by
  intro inetAton buf
  have hbroadcast : StringAt (broadcastSprint inetAton .big buf 19 "192.168.1.5"
      "255.255.255.0").2 0 (ascii "0.0.0.5".toList) :=
    ⟨by decide, by decide, by decide⟩
  refine ⟨hbroadcast, fun h => ?_, ⟨?_, ?_, ?_⟩, ⟨?_, ?_, ?_⟩⟩
  · exact absurd (hbroadcast.unique h) (by decide)
  all_goals decide +kernel

end Neufbox.Libetk
