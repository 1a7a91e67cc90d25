import Mathlib.Tactic.Common

/-!
# The requests to the daemon

The functions of `lib/nvram.c`, `lib/status.c` and `lib/nbctl.c` that the web site and the API use
to log users in and to change the credentials, and those, also of `lib/wlan.c` and `lib/lan.c`, that
other settings are changed with.  Each of them sends one query and returns when it has the answer.
-/

namespace Neufbox.Libnbd

/-- A request to the daemon. -/
inductive Nbd where
  /-- `nbd_nv_get`, `nbd_user_config_get` -/
  | nvGet (key : String)
  /-- `nbd_status_get`, `nbd_status_matches` -/
  | statusGet (key : String)
  /-- `nbd_halt_webautologin` -/
  | haltWebautologin
  /-- `nbd_user_config_cursor_new` -/
  | cursorNew
  /-- `nbd_user_config_cset` -/
  | cset (cid : Int) (key data : String)
  /-- `nbd_user_config_cursor_commit` -/
  | cursorCommit (cid : Int)
  /-- `nbd_user_config_cursor_close` -/
  | cursorClose (cid : Int)
  deriving DecidableEq

/-- What comes back: a value, if there is one and it fits into the buffer, or the number the
function returns. -/
def Nbd.Answer : Nbd → Type
  | .nvGet _ | .statusGet _ => Option String
  | .haltWebautologin | .cursorNew | .cset _ _ _ | .cursorCommit _ | .cursorClose _ => Int

/-- A request to the daemon, of all that settings are changed with. -/
inductive NbdCall where
  | config (q : Nbd)
  /-- `nbd_nv_set`, `nbd_user_config_set` -/
  | nvSet (key data : String)
  /-- `nbd_nv_commit`; `nbd_user_config_commit` is the one of `user` -/
  | nvCommit (xml : String)
  /-- `nbd_wlan_enable` (`on`), `nbd_wlan_disable` (`off`) -/
  | wlanActive (value : String)
  /-- `nbd_wlan_stop` -/
  | wlanStop
  /-- `nbd_wlan_restart` -/
  | wlanRestart
  /-- `nbd_dhcpd_add_static_ip` -/
  | dhcpdAddStaticIp (ip mac : String)
  /-- `nbd_dhcpd_del_static_ip` -/
  | dhcpdDelStaticIp (idx : Int)
  /-- `nbd_sys_async_run` -/
  | sysAsyncRun (script arg : String)
  deriving DecidableEq

/-- What comes back: the answer of the request, or the number the function returns. -/
def NbdCall.Answer : NbdCall → Type
  | .config q => q.Answer
  | .nvSet _ _ | .nvCommit _ | .wlanActive _ | .wlanStop | .wlanRestart | .dhcpdAddStaticIp _ _
  | .dhcpdDelStaticIp _ | .sysAsyncRun _ _ => Int

def nbdSuccess : Int := 0

def nvSetInvalidValue : Int := -4

def nvSetSuccess : Int := 0

def nvSetUnchanged : Int := 1

def nvCommitSuccess : Int := 0

def nvCommitUnchanged : Int := 1

def lanErrorDhcpdStaticIpAlreadyExist : Int := -989

def lanErrorDhcpdStaticMacAlreadyExist : Int := -988

def lanErrorIpInvalid : Int := -986

def lanErrorMacInvalid : Int := -985

/-- A daemon that has these values stored, and answers to a setting by the value. -/
def Nbd.daemon (value : String → Option String) (status : Option String) (set : String → Int) :
    (q : Nbd) → q.Answer
  | .nvGet key => value key
  | .statusGet _ => status
  | .cursorNew => (1 : Int)
  | .cset _ _ data => set data
  | .haltWebautologin | .cursorCommit _ | .cursorClose _ => (0 : Int)

/-- It does everything else that it is asked to. -/
def NbdCall.daemon (config : (q : Nbd) → q.Answer) : (q : NbdCall) → q.Answer
  | .config q => config q
  | .nvSet _ _ | .nvCommit _ | .wlanActive _ | .wlanStop | .wlanRestart | .dhcpdAddStaticIp _ _
  | .dhcpdDelStaticIp _ | .sysAsyncRun _ _ => (0 : Int)

end Neufbox.Libnbd
