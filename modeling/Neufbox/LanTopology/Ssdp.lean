import Neufbox.Lib.CharBuffers
import Neufbox.Lib.Tokens

/-!
# SSDP announcements

Model of `ssdp_event` and `ssdp_notify_event` of `efixo-lan-topology`'s `ssdp.c`.  A set-top box
announces itself with a datagram whose headers `NT` and `NTS` have certain values; its address is
then given to the daemon.

The datagram is received into a buffer on the stack.  The memory from the buffer on is the datagram
and then `stack`, what was there before.  `none` is undefined behaviour: a string that does not end
in the memory, or a value that is stored past the end of `buf2`.
-/

namespace Neufbox.LanTopology

open CharBuffers Tokens

/-- The size of `buf` -/
def sizeofBuf : ℕ := 1500

/-- The size of `buf2` -/
def sizeofBuf2 : ℕ := 64

/-- The separators of `for_each_line` -/
def lineSep (c : Char) : Bool := c = '\n' || c = '\r'

/-- `sscanf(line, "%15[^:]:%127[^\r\n]", buf1, buf2)`, if it gives both. -/
def scanHeader (line : List Char) : Option (List Char × List Char) :=
  let name := (line.takeWhile (· ≠ ':')).take 15
  if name = [] then none
  else
    match line.drop name.length with
    | [] => none
    | c :: rest =>
      if c = ':' then
        let value := (rest.takeWhile fun c => !lineSep c).take 127
        if value = [] then none else some (name, value)
      else none

def white (c : Char) : Bool := c = ' ' || c = '\t' || c = '\n' || c = '\r'

def strrtrim (str : List Char) : List Char := (str.reverse.dropWhile white).reverse

def strltrim (str : List Char) : List Char := str.dropWhile white

def strtrim (str : List Char) : List Char := strltrim (strrtrim str)

/-- `strcasecmp(name, s) == 0` -/
def sameName (name : List Char) (s : String) : Bool :=
  name.map Char.toLower = s.toList.map Char.toLower

/-- `nt` and `nts` after a header: the first value of each is kept. -/
def noteHeader (nt nts : Option (List Char)) (name value : List Char) :
    Option (List Char) × Option (List Char) :=
  if nt = none ∧ sameName name "nt" then (some value, nts)
  else if nts = none ∧ sameName name "nts" then (nt, some value)
  else (nt, nts)

/-- The loop of `ssdp_notify_event` over the lines, of which `ended` says whether the string ends
after them: `nt` and `nts` after it. -/
def notifyLoop (nt nts : Option (List Char)) (ended : Bool) :
    List (List Char) → Option (Option (List Char) × Option (List Char))
  | [] => if ended then some (nt, nts) else none
  | line :: lines =>
    match scanHeader line with
    | none => notifyLoop nt nts ended lines
    | some (name, value) =>
      if sizeofBuf2 < value.length + 1 then none
      else
        let (nt, nts) := noteHeader nt nts (strtrim name) (strtrim value)
        if nt.isSome ∧ nts.isSome then some (nt, nts) else notifyLoop nt nts ended lines

inductive SsdpRequest where
  | lanIp2mac (ipaddr : String)
  | stbAdd (macaddr ipaddr hostname : String)
  deriving DecidableEq

/-- What `ssdp_notify_event` does with `nt` and `nts`.  `nbd_lan_ip2mac` gives `ip2mac ipaddr`, if
it succeeds. -/
def announce (ip2mac : String → Option String) (ipaddr : String) :
    Option (List Char) × Option (List Char) → List SsdpRequest
  | (some nt, some nts) =>
    if nt = "urn:neufboxtv-org:device:SetTopBox:1".toList ∧ nts = "ssdp:alive".toList then
      -- We have a STB which announce this presence
      match ip2mac ipaddr with
      | none => [.lanIp2mac ipaddr]
      | some macaddr => [.lanIp2mac ipaddr, .stbAdd macaddr ipaddr ""]
    else []
  -- broken packet
  | (_, _) => []

def ssdpNotifyEvent (ip2mac : String → Option String) (ipaddr : String) (buf : List Char) :
    Option (List SsdpRequest) :=
  let (lines, ended) := tokens nul lineSep [] buf
  (notifyLoop none none ended lines).map (announce ip2mac ipaddr)

def ssdpEvent (ip2mac : String → Option String) (ipaddr : String) (datagram stack : List Char) :
    Option (List SsdpRequest) :=
  let buf := datagram ++ stack
  if "NOTIFY".toList.isPrefixOf buf then ssdpNotifyEvent ip2mac ipaddr buf else some []

end Neufbox.LanTopology
