import Neufbox.Www.Forms

/-!
# The form of the LAN

Model of the form of `/network/lan` (`wui/network_lan.c`), which changes the address of the box.

The values of an argument list are read in the order in which they are written.
-/

namespace Neufbox.Www

open Libnbd Libnbu Dialogue

/-- A request of the form. -/
inductive LanCall where
  | call (q : NbdCall)
  /-- `nbd_lan_set_ipaddr` -/
  | lanSetIpaddr (ip netmask : String)
  deriving DecidableEq

def LanCall.Answer : LanCall → Type
  | .call q => q.Answer
  | .lanSetIpaddr _ _ => Int

/-- A part of the handler. -/
abbrev LanPart (R : Type) : Type := Dialogue LanCall LanCall.Answer Note R

/-- A part that only sends requests of `Nbd`. -/
def Part.toLan {R : Type} (d : Part R) : LanPart R :=
  embed (A := Nbd.Answer) (fun q => .call (.config q)) (fun _ a => a) id d

/-- `nbu_net_join_ip` of the four parts in the form, with a buffer of 16 bytes.  It fails if one of
them is `NULL`. -/
def joinFormIp (form : Form) (name : String) : LanPart (Option String) :=
  (Part.toLan (ewfHdfSget form (name ++ "_start_part1"))).bind fun part1 =>
  (Part.toLan (ewfHdfSget form (name ++ "_start_part2"))).bind fun part2 =>
  (Part.toLan (ewfHdfSget form (name ++ "_start_part3"))).bind fun part3 =>
  (Part.toLan (ewfHdfSget form (name ++ "_start_part4"))).bind fun part4 =>
  done (match part1, part2, part3, part4 with
    | some p0, some p1, some p2, some p3 => nbuNetJoinIp p0 p1 p2 p3 16
    | _, _, _, _ => none)

/-- Whether the address is taken to be in the network of the hotspot.  The third part was read
before; it is not `NULL`. -/
def ipIsInHotspotNet (form : Form) (bufIp : String) : LanPart Bool :=
  if bufIp.toList.take 8 = "192.168.".toList then
    (Part.toLan (ewfHdfSget form "lan_ipaddr_start_part3")).bind fun part3 =>
    done ((Decimal.strtol (part3.getD "").toList).value = 2)
  else done false

/-- The address is set. -/
def setLanIpaddr (bufIp bufNetmask : String) : LanPart Unit :=
  ask (.lanSetIpaddr bufIp bufNetmask) fun (ret : Int) =>
    if ret = nbdSuccess then
      ask (.call (.nvCommit "user")) fun _ => tell (.redirect "/reboot") (done ())
    else tell (.formError "error") (done ())

/-- The checks of the address and the mask, which are clean here. -/
def checkLanIpaddr (form : Form) (bufIp bufNetmask : String) : LanPart Unit :=
  match nbuNetValidateFullIp bufIp bufNetmask with
  | .errInvalidIp => tell (.varError "lan_ipaddr" "invalid_ip") (done ())
  | .errInvalidMask => tell (.varError "lan_netmask" "invalid_netmask") (done ())
  | .errIpIsNetwork => tell (.varError "lan_ipaddr" "ip_is_network") (done ())
  | .errIpIsBroadcast => tell (.varError "lan_ipaddr" "ip_is_broadcast") (done ())
  | .success =>
    (ipIsInHotspotNet form bufIp).bind fun
    | true => tell (.varError "lan_ipaddr" "ip_is_in_hotspot_net") (done ())
    | false => setLanIpaddr bufIp bufNetmask

/-- `FORM_HANDLER` of `/network/lan` -/
def networkLanForm (form : Form) : LanPart Unit :=
  (joinFormIp form "lan_ipaddr").bind fun
  | none => tell (.varError "lan_ipaddr" "invalid_ip") (done ())
  | some bufIp =>
    (joinFormIp form "lan_netmask").bind fun
    | none => tell (.varError "lan_netmask" "invalid_netmask") (done ())
    | some bufNetmask => checkLanIpaddr form bufIp bufNetmask

end Neufbox.Www
