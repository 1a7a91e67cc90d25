import Neufbox.Libnbu.Equiv.Net
import Neufbox.Www.Lan

/-!
# The LAN and the hotspot

The form of `/network/lan` compares the first three octets of the address with `192.168.2`.  With a
prefix of 24 bits and more this tells whether the LAN has an address in common with the network of
the hotspot; with a shorter one the LAN may be larger than what is compared, and has an address in
common exactly if the network of the hotspot is in it (`avoids_hotspot_iff`).

`LanChecked` is what the handler has found out before it sets the address.
-/

namespace Neufbox.Www

open Libnbd Libnbu Dialogue Subnet

/-- `192.168.2.0` -/
def hotspot : Ipv4 := ⟨192, 168, 2, 0⟩

/-- The addresses of `192.168.2.0/24`. -/
def hotspotNet : Set (BitVec 32) := subnet hotspot.addr (prefixMask 32 24)

/-- A request of the form with its answer, or a note. -/
abbrev LanItem : Type := Item LanCall.Answer Note

/-! ### The network of the hotspot -/

theorem and_prefixMask_hotspot_iff (ip : Ipv4) :
    ip.addr &&& prefixMask 32 24 = hotspot.addr &&& prefixMask 32 24 ↔
      ip.a = 192 ∧ ip.b = 168 ∧ ip.c = 2 := by
  have ha := ip.a.toNat_lt
  have hb := ip.b.toNat_lt
  have hc := ip.c.toNat_lt
  have hd := ip.d.toNat_lt
  have hhotspot : hotspot.addr.toNat / 2 ^ (32 - 24) = 192 * 2 ^ 16 + 168 * 2 ^ 8 + 2 := by decide
  have h192 : (192 : UInt8).toNat = 192 := rfl
  have h168 : (168 : UInt8).toNat = 168 := rfl
  have h2 : (2 : UInt8).toNat = 2 := rfl
  rw [and_prefixMask_eq_iff, hhotspot, Ipv4.toNat_addr, ← UInt8.toNat_inj, ← UInt8.toNat_inj,
    ← UInt8.toNat_inj, h192, h168, h2]
  omega

/-- A subnet of 24 bits and more avoids the hotspot if its addresses do not begin with
`192.168.2`; a larger one if the network of the hotspot is not in it. -/
theorem disjoint_hotspotNet_iff {ip : Ipv4} (hip : ¬(ip.a = 192 ∧ ip.b = 168 ∧ ip.c = 2))
    (k : ℕ) :
    Disjoint (subnet ip.addr (prefixMask 32 k)) hotspotNet ↔
      24 ≤ k ∨ hotspot.addr ∉ subnet ip.addr (prefixMask 32 k) := by
  rw [hotspotNet, disjoint_subnet_iff, mem_subnet]
  rcases Nat.lt_or_ge k 24 with hk | hk
  · rw [Nat.min_eq_right (Nat.le_of_lt hk), or_iff_right (Nat.not_le.mpr hk)]
    exact not_congr eq_comm
  · rw [Nat.min_eq_left hk]
    refine iff_of_true ?_ (.inl hk)
    exact fun heq => hip ((and_prefixMask_hotspot_iff ip).mp heq)

/-- The text of an address that begins with `192.168`. -/
theorem take_text {ip : Ipv4} (ha : ip.a = 192) (hb : ip.b = 168) :
    ip.text.toList.take 8 = "192.168.".toList := by
  have h192 : Nat.toDigits 10 (192 : UInt8).toNat = ['1', '9', '2'] := by decide
  have h168 : Nat.toDigits 10 (168 : UInt8).toNat = ['1', '6', '8'] := by decide
  rw [toList_text, Ipv4.chars, ha, hb, h192, h168]
  rfl

/-! ### What is checked -/

/-- What the handler knows of the address and the mask. -/
structure LanChecked (ip netmask : Ipv4) : Prop where
  isPrefix : ∃ k ≤ 32, netmask.addr = prefixMask 32 k
  isHost : IsHost ip.addr netmask.addr
  notHotspot : ¬(ip.a = 192 ∧ ip.b = 168 ∧ ip.c = 2)

/-- The address is set after it was checked. -/
def LanAllowed (_ : List LanItem) : Move LanCall Note → Prop
  | .ask (.lanSetIpaddr ip netmask) =>
    ∃ a m : Ipv4, ip = a.text ∧ netmask = m.text ∧ LanChecked a m
  | _ => True

section LanRules

variable {form : Form} {past : List LanItem}

/-- Any end. -/
abbrev AnyEnd (_ : Unit) (_ : List LanItem) : Prop := True

theorem ewfHdfSget_obeys_lan (name : String) :
    (Part.toLan (ewfHdfSget form name)).Obeys LanAllowed (fun r _ => r = form.value name) past := by
  rcases @ewfHdfSget_of_value form name with h | h
  · rw [h]
    rfl
  · rw [h]
    exact ⟨trivial, rfl⟩

/-- A value of the form, which may be missing. -/
theorem obeys_value {R : Type} {name : String} {rest : Option String → LanPart R}
    {post : R → List LanItem → Prop}
    (h : ∀ past, (rest (form.value name)).Obeys LanAllowed post past) :
    ((Part.toLan (ewfHdfSget form name)).bind rest).Obeys LanAllowed post past := by
  rw [obeys_bind]
  refine (ewfHdfSget_obeys_lan name).mono ?_
  rintro _ past rfl
  exact h past

/-- What is joined is an address, the third octet of which is the third part. -/
theorem joinFormIp_obeys (name : String) :
    (joinFormIp form name).Obeys LanAllowed (fun r _ => ∀ t, r = some t →
      ∃ ip : Ipv4, t = ip.text ∧ ∃ part3, form.value (name ++ "_start_part3") = some part3 ∧
        (Decimal.strtol part3.toList).value = ip.c.toNat) past := by
  refine obeys_value fun past => obeys_value fun past => ?_
  refine obeys_value fun past => obeys_value fun past => ?_
  intro t ht
  split at ht
  · rename_i p0 p1 p2 p3 h1 h2 h3 h4
    obtain ⟨ip, rfl, -, -, hc, -⟩ := nbuNetJoinIp_eq_some (Nat.le_refl 16) ht
    exact ⟨ip, rfl, p2, h3, parsePart_eq_some (Nat.le_refl 16) hc⟩
  · exact nomatch ht

/-- An address of the hotspot is recognised. -/
theorem ipIsInHotspotNet_obeys {ip : Ipv4} {part3 : String}
    (hvalue : form.value "lan_ipaddr_start_part3" = some part3)
    (hpart3 : (Decimal.strtol part3.toList).value = ip.c.toNat) :
    (ipIsInHotspotNet form ip.text).Obeys LanAllowed (fun r _ => r = false →
      ¬(ip.a = 192 ∧ ip.b = 168 ∧ ip.c = 2)) past := by
  unfold ipIsInHotspotNet
  apply obeys_ite
  · intro _
    refine obeys_value fun past => ?_
    rw [hvalue, Option.getD_some, hpart3]
    rintro hfalse ⟨-, -, hc⟩
    rw [hc] at hfalse
    exact nomatch hfalse
  · rintro htake - ⟨ha, hb, -⟩
    exact htake (take_text ha hb)

theorem setLanIpaddr_obeys {ip netmask : Ipv4} (h : LanChecked ip netmask) :
    (setLanIpaddr ip.text netmask.text).Obeys LanAllowed AnyEnd past := by
  refine ⟨⟨ip, netmask, rfl, rfl, h⟩, fun (ret : Int) => ?_⟩
  dsimp only
  split_ifs
  · exact ⟨trivial, fun _ => ⟨trivial, trivial⟩⟩
  · exact ⟨trivial, trivial⟩

theorem checkLanIpaddr_obeys {ip netmask : Ipv4} {part3 : String}
    (hvalue : form.value "lan_ipaddr_start_part3" = some part3)
    (hpart3 : (Decimal.strtol part3.toList).value = ip.c.toNat) :
    (checkLanIpaddr form ip.text netmask.text).Obeys LanAllowed AnyEnd past := by
  have hfull := nbuNetValidateFullIp_text ip netmask
  have hin := @ipIsInHotspotNet_obeys form past ip part3 hvalue hpart3
  unfold checkLanIpaddr
  -- How the two results are computed does not matter any more.
  generalize nbuNetValidateFullIp ip.text netmask.text = ret at hfull
  generalize ipIsInHotspotNet form ip.text = inHotspot at hin ⊢
  cases ret with
  | success =>
    obtain ⟨hmask, hhost⟩ := hfull.mp rfl
    dsimp only
    rw [obeys_bind]
    apply hin.mono
    intro r past hr
    cases r with
    | true => exact ⟨trivial, trivial⟩
    | false => exact setLanIpaddr_obeys ⟨hmask, hhost, hr rfl⟩
  | _ => exact ⟨trivial, trivial⟩

theorem networkLanForm_obeys (form : Form) :
    (networkLanForm form).Obeys LanAllowed AnyEnd [] := by
  have hcheck := @checkLanIpaddr_obeys form
  unfold networkLanForm
  -- How the checks are computed does not matter any more.
  generalize checkLanIpaddr form = check at hcheck ⊢
  rw [obeys_bind]
  apply (joinFormIp_obeys "lan_ipaddr").mono
  intro bufIp past hip
  cases bufIp with
  | none => exact ⟨trivial, trivial⟩
  | some bufIp =>
    obtain ⟨ip, rfl, part3, hvalue, hpart3⟩ := hip bufIp rfl
    dsimp only
    rw [obeys_bind]
    apply (joinFormIp_obeys "lan_netmask").mono
    intro bufNetmask past hjoined
    cases bufNetmask with
    | none => exact ⟨trivial, trivial⟩
    | some bufNetmask =>
      obtain ⟨netmask, rfl, -⟩ := hjoined bufNetmask rfl
      exact hcheck hvalue hpart3

end LanRules

/-- **The LAN**: what is set is a host and a mask, and the LAN has no address in common with the
network of the hotspot exactly if the prefix has 24 bits and more, or the network of the hotspot is
not in the LAN. -/
theorem avoids_hotspot_iff (form : Form) {trace : List LanItem}
    (hran : Ran (networkLanForm form) trace ()) {ip netmask : String} {ret : Int}
    (hset : .asked (.lanSetIpaddr ip netmask) ret ∈ trace) :
    ∃ (a m : Ipv4) (k : ℕ), k ≤ 32 ∧ ip = a.text ∧ netmask = m.text ∧
      m.addr = prefixMask 32 k ∧ IsHost a.addr m.addr ∧
      (Disjoint (subnet a.addr m.addr) hotspotNet ↔
        24 ≤ k ∨ hotspot.addr ∉ subnet a.addr m.addr) := by
  obtain ⟨before, after, heq⟩ := List.append_of_mem hset
  obtain ⟨a, m, hip, hnetmask, ⟨k, hk, hmask⟩, hhost, hhotspot⟩ :=
    hran.allowed (networkLanForm_obeys form) before _ after heq
  refine ⟨a, m, k, hk, hip, hnetmask, hmask, hhost, ?_⟩
  rw [hmask]
  exact disjoint_hotspotNet_iff hhotspot k

/-- A daemon that does what it is asked to. -/
def willingDaemon : (q : LanCall) → q.Answer
  | .call q => NbdCall.daemon (Nbd.daemon (fun _ => none) none fun _ => 0) q
  | .lanSetIpaddr _ _ => (0 : Int)

/-- The form with the address `192.168.1.1`, the third and the fourth part of the mask given. -/
def lanForm (netmaskPart3 netmaskPart4 : String) : Form where
  query varName :=
    if varName = "lan_ipaddr_start_part1" then some "192"
    else if varName = "lan_ipaddr_start_part2" then some "168"
    else if varName = "lan_ipaddr_start_part3" then some "1"
    else if varName = "lan_ipaddr_start_part4" then some "1"
    else if varName = "lan_netmask_start_part3" then some netmaskPart3
    else if varName = "lan_netmask_start_part4" then some netmaskPart4
    else some "255"
  valid _ _ := true

/-- `192.168.1.1` with a mask of 24 bits. -/
theorem avoids_hotspot_iff_24 :
    let trace := (networkLanForm (lanForm "255" "0")).trace willingDaemon
    .asked (.lanSetIpaddr "192.168.1.1" "255.255.255.0") nbdSuccess ∈ trace ∧
      Disjoint (subnet (⟨192, 168, 1, 1⟩ : Ipv4).addr (⟨255, 255, 255, 0⟩ : Ipv4).addr)
        hotspotNet := by
  intro trace
  have htrace : trace = [.asked (.lanSetIpaddr "192.168.1.1" "255.255.255.0") nbdSuccess,
      .asked (.call (.nvCommit "user")) (0 : Int), .told (.redirect "/reboot")] := rfl
  have hset : .asked (.lanSetIpaddr "192.168.1.1" "255.255.255.0") nbdSuccess ∈ trace := by
    rw [htrace]
    exact List.mem_cons_self ..
  obtain ⟨a, m, k, -, ha, hm, -, -, hiff⟩ :=
    avoids_hotspot_iff (lanForm "255" "0") (ran_trace _ _) hset
  have hip : "192.168.1.1" = (⟨192, 168, 1, 1⟩ : Ipv4).text := by decide
  have hmask : "255.255.255.0" = (⟨255, 255, 255, 0⟩ : Ipv4).text := by decide
  obtain rfl : a = ⟨192, 168, 1, 1⟩ := Ipv4.text_injective (ha.symm.trans hip)
  obtain rfl : m = ⟨255, 255, 255, 0⟩ := Ipv4.text_injective (hm.symm.trans hmask)
  have hout : hotspot.addr ∉
      subnet (⟨192, 168, 1, 1⟩ : Ipv4).addr (⟨255, 255, 255, 0⟩ : Ipv4).addr :=
    fun hmem => absurd (mem_subnet.mp hmem) (by decide)
  exact ⟨hset, hiff.mpr (.inr hout)⟩

/-- With a mask of 16 bits the network of the hotspot is in the LAN of `192.168.1.1`. -/
theorem lan_overlaps_hotspot :
    (networkLanForm (lanForm "0" "0")).trace willingDaemon
        = [.asked (.lanSetIpaddr "192.168.1.1" "255.255.0.0") nbdSuccess,
          .asked (.call (.nvCommit "user")) (0 : Int), .told (.redirect "/reboot")] ∧
      (⟨192, 168, 1, 1⟩ : Ipv4).text = "192.168.1.1" ∧
      (⟨255, 255, 0, 0⟩ : Ipv4).text = "255.255.0.0" ∧
      ¬Disjoint (subnet (⟨192, 168, 1, 1⟩ : Ipv4).addr (⟨255, 255, 0, 0⟩ : Ipv4).addr)
        hotspotNet := by
  refine ⟨rfl, by decide, by decide, ?_⟩
  have hlan : hotspot.addr ∈
      subnet (⟨192, 168, 1, 1⟩ : Ipv4).addr (⟨255, 255, 0, 0⟩ : Ipv4).addr :=
    mem_subnet.mpr (by decide)
  exact Set.not_disjoint_iff.mpr ⟨hotspot.addr, hlan, mem_subnet.mpr rfl⟩

end Neufbox.Www
