import Mathlib.Data.List.TakeWhile
import Neufbox.Libnbd.Query

/-!
# The rules of the firewall

Model of `lib/firewall.c`.  A parameter that is `NULL` is passed on as it is.
-/

namespace Neufbox.Libnbd

/-- The text as a C string, which ends before its first NUL. -/
def CString.ofString (s : String) : CString where
  bytes := (s.toList.flatMap String.utf8EncodeChar).takeWhile (· ≠ 0)
  nul_free := fun h => absurd (List.mem_takeWhile_imp h) (by decide)

/-- The parameters of `nbd_firewall_add`. -/
structure FirewallRule where
  rulename : Option String
  proto : Option String
  direction : Option String
  dstip : Option String
  dstport : Option String
  srcip : Option String
  srcport : Option String
  policy : Option String
  deriving DecidableEq

def FirewallRule.toList (rule : FirewallRule) : List (Option String) :=
  [rule.rulename, rule.proto, rule.direction, rule.dstip, rule.dstport, rule.srcip, rule.srcport,
    rule.policy]

/-- `nbd_firewall_add`: the query it sends. -/
def nbdFirewallAdd (rule : FirewallRule) : Args :=
  nbdSet (.ofString "firewall")
    (some (.ofString "add") :: rule.toList.map (Option.map .ofString))
    (Nat.le_add_right 9 2)

end Neufbox.Libnbd
