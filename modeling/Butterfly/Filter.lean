import Butterfly.Foundation.Join
import Butterfly.Model

/-!
# Filter texts

`FwBuildRule`, `FwBuildSg` and the text building of `FwUpdate`.  The empty
string stands for a rule or group that cannot be built.
-/

namespace Butterfly.Graph

open Std Foundation

def membersText : List Ip → String
  | [] => ""
  | [ip] => " src host " ++ ip.str
  | ip :: ips => " src host " ++ ip.str ++ " or" ++ membersText ips

def sourceText (groups : ExtTreeMap String Sg) (rule : Rule) : String :=
  if rule.securityGroup = "" then
    if rule.cidr.maskSize ≠ 0 then
      (if rule.direction = .outbound then "dst" else "src") ++ " net " ++
        rule.cidr.address.str ++ "/" ++ toString rule.cidr.maskSize.toNat
    else if rule.cidr.address.type = .v4 then "ip"
    else "ip6"
  else match groups[rule.securityGroup]? with
    | none => ""
    | some sg => if sg.members = [] then "" else " (" ++ membersText sg.members ++ ")"

def protocolText (rule : Rule) : String :=
  if rule.protocol = 1 then " and icmp"
  else if rule.protocol = 58 then " and icmp6"
  else if rule.protocol = 6 then " and tcp"
  else if rule.protocol = 17 then " and udp"
  else if rule.protocol = -1 then ""
  else
    let p := toString rule.protocol.toInt
    -- Only the first IPv6 header is matched, not the ones that follow it.
    if rule.cidr.address.type = .v4 then " and (ip proto " ++ p ++ ")"
    else " and (ip6 proto " ++ p ++ ")"

/-- The port part; `none` is the invalid port range. -/
def portsText (rule : Rule) : Option String :=
  if rule.protocol = 6 ∨ rule.protocol = 17 then
    if rule.portStart < 65536 ∧ rule.portEnd < 65536 then
      if rule.portStart = rule.portEnd then
        some (" dst port " ++ toString rule.portEnd.toInt)
      else if rule.portStart < rule.portEnd then
        some (" dst portrange " ++ toString rule.portStart.toInt ++ "-" ++
          toString rule.portEnd.toInt)
      else none
    else none
  else some ""

def fwBuildRule (groups : ExtTreeMap String Sg) (rule : Rule) : String :=
  let source := sourceText groups rule
  if source = "" then ""
  else match portsText rule with
    | none => ""
    | some ports => source ++ protocolText rule ++ ports

def fwBuildSg (groups : ExtTreeMap String Sg) (sg : Sg) : String :=
  orLoop ((mapValues sg.rules).map (fwBuildRule groups))

/-- The text of an attached group; a missing one is skipped. -/
def groupText (groups : ExtTreeMap String Sg) (id : String) : String :=
  match groups[id]? with
  | none => ""
  | some sg => fwBuildSg groups sg

def inRules (groups : ExtTreeMap String Sg) (nic : Nic) : String :=
  orLoop (nic.securityGroups.map (groupText groups))

def dhcpRule : String :=
  "(src host 0.0.0.0 and dst host 255.255.255.255 and " ++
    "udp src port 68 and udp dst port 67)"

def ipsText : List Ip → String
  | [] => ""
  | [ip] => "(src host " ++ ip.str ++ ")"
  | ip :: ips => "(src host " ++ ip.str ++ ")" ++ " || " ++ ipsText ips

/-- `out_rules` of `FwUpdate`: the NIC's own addresses and DHCP. -/
def outRules (nic : Nic) : String :=
  let ips := ipsText nic.ipList
  (if ips ≠ "" then ips ++ " || " else ips) ++ dhcpRule

end Butterfly.Graph
