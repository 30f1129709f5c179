import Butterfly.Message

/-!
# Validation and conversion of messages

The `Validate*` and `Convert` families of `api_0.cc`.  A converter that fails
may leave a text in the thread-local `api_0_error`; its error value is that
text, or `none` where the variable is not written.
-/

namespace Butterfly

open Std Foundation

/-- `Api::NicUpdate`: the changes a `nic_update` asks for. -/
structure NicUpdate where
  id : String
  hasPacketTrace : Bool
  packetTrace : Bool
  packetTracePath : String
  hasIpAntiSpoof : Bool
  ipAntiSpoof : Bool
  ip : List Ip
  ipOverwrite : Bool
  securityGroups : List String
  securityGroupsOverwrite : Bool
  deriving DecidableEq

namespace Api0

variable (P : Platform)

/-! ## Validators -/

def validateIp (ip : String) : Bool :=
  (P.inetPton6 ip).isSome || (P.inetPton4 ip).isSome

def validateMac (mac : String) : Bool := (scanMac mac).isSome

def validateCidr (cidr : MessageV0.Cidr) : Bool :=
  if (P.inetPton6 cidr.address).isSome then decide (cidr.maskSize ≤ 128)
  else if (P.inetPton4 cidr.address).isSome then decide (cidr.maskSize ≤ 32)
  else false

def validateNic (nic : MessageV0.Nic) : Bool :=
  validateMac nic.mac && decide (nic.vni ≤ 16777215) &&
    nic.ip.all (validateIp P)

def validateNicUpdate (nicUpdate : MessageV0.NicUpdateReq) : Bool :=
  if nicUpdate.ip = [""] then true else nicUpdate.ip.all (validateIp P)

/-- The port part of `ValidateSgRule`, checked for TCP and UDP only. -/
def validatePorts (rule : MessageV0.Rule) : Bool :=
  match rule.portStart, rule.portEnd with
  | some portStart, some portEnd =>
      !(portStart > 65535 || portEnd > 65535) && !(portStart > portEnd)
  | _, _ => false

def validateSgRule (rule : MessageV0.Rule) : Bool :=
  if rule.protocol < -1 || rule.protocol > 255 then false
  else if (rule.protocol == 6 || rule.protocol == 17) && !validatePorts rule then
    false
  else if rule.securityGroup.isSome && rule.cidr.isSome then false
  else match rule.cidr with
    | some cidr => validateCidr P cidr
    | none => true

def validateSg (sg : MessageV0.Sg) : Bool :=
  sg.member.all (validateIp P) && sg.rule.all (validateSgRule P)

/-! ## From messages to the model -/

/-- What a failed `Convert` leaves in `api_0_error`. -/
abbrev ConvertError := Option String

def convertIp (ipMessage : String) : Except ConvertError Ip :=
  let ip := Ip.set P {} ipMessage
  if ip.broken then
    .error (some ("can't convert \"" ++ ipMessage ++ "\" to IP"))
  else .ok ip

/-- Addresses are converted in order and added unless already there. -/
def convertIps : List String → List Ip → Except ConvertError (List Ip)
  | [], acc => .ok acc
  | text :: rest, acc => do
      let ip ← convertIp P text
      if findIp acc ip then convertIps rest acc
      else convertIps rest (acc ++ [ip])

def addNames : List String → List String → List String
  | [], acc => acc
  | name :: rest, acc =>
      if name ∈ acc then addNames rest acc else addNames rest (acc ++ [name])

def defaultTracePath (pid : Nat) (id : String) : String :=
  "/tmp/butterfly-" ++ toString pid ++ "-" ++ id ++ ".pcap"

/-- `!path.empty()` of an optional field, whose default is the empty string. -/
def nonEmpty (field : Option String) : Option String :=
  field.filter fun text => decide (text ≠ "")

def convertNicType (nicMessage : MessageV0.Nic) (nicModel : Nic) :
    Except ConvertError Nic :=
  match nicMessage.type with
  | none => .ok nicModel
  | some .bench =>
      let nicModel := { nicModel with type := .bench }
      match nicMessage.btype with
      | none => .error none
      | some btype =>
          if btype = "ICMP_SND_LIKE" then
            match nicMessage.dip, nicMessage.dmac with
            | some dip, some dmac => do
                let dip ← convertIp P dip
                .ok { nicModel with btype := some .icmpSndLike,
                                    dmac := nicModel.dmac.set dmac, dip := dip }
            | _, _ => .error none
          else if btype = "ICMP_RCV_LIKE" then
            .ok { nicModel with btype := some .icmpRcvLike }
          else .error none
  | some type => .ok { nicModel with type := type }

def convertNic (packetTrace : Bool) (pid : Nat) (nicMessage : MessageV0.Nic) :
    Except ConvertError Nic := do
  let ipList ← convertIps P nicMessage.ip []
  let nicModel : Nic :=
    { id := nicMessage.id
      mac := ({} : Mac).set nicMessage.mac
      vni := nicMessage.vni
      ipList := ipList
      securityGroups := addNames nicMessage.securityGroup []
      ipAntiSpoof := nicMessage.ipAntiSpoof.getD false
      packetTrace := nicMessage.packetTrace.getD packetTrace
      packetTracePath := (nonEmpty nicMessage.packetTracePath).getD
        (defaultTracePath pid nicMessage.id)
      sniffTargetNicId := nicMessage.sniffTargetNicId.getD ""
      bypassFiltering := nicMessage.bypassFiltering.getD false
      path := nicMessage.path.getD "" }
  convertNicType P nicMessage nicModel

/-- What the two uninitialised members of `Api::NicUpdate` happen to hold. -/
structure Garbage where
  packetTrace : Bool := false
  ipAntiSpoof : Bool := false
  deriving DecidableEq

def convertNicUpdate (pid : Nat) (garbage : Garbage)
    (message : MessageV0.NicUpdateReq) : Except ConvertError NicUpdate := do
  -- The member is read below whether or not the message sets it.
  let packetTrace := message.packetTrace.getD garbage.packetTrace
  let ip ← convertIps P (message.ip.filter (· ≠ "")) []
  .ok
    { id := message.id
      hasIpAntiSpoof := message.ipAntiSpoof.isSome
      ipAntiSpoof := message.ipAntiSpoof.getD garbage.ipAntiSpoof
      hasPacketTrace := message.packetTrace.isSome
      packetTrace := packetTrace
      packetTracePath :=
        match packetTrace, nonEmpty message.packetTracePath with
        | true, some path => path
        | _, _ => defaultTracePath pid message.id
      ipOverwrite := !message.ip.isEmpty
      ip := ip
      securityGroupsOverwrite := !message.securityGroup.isEmpty
      securityGroups := addNames (message.securityGroup.filter (· ≠ "")) [] }

def convertCidr (cidrMessage : MessageV0.Cidr) : Except ConvertError Cidr := do
  let address ← convertIp P cidrMessage.address
  .ok { address := address, maskSize := cidrMessage.maskSize }

def convertRule (ruleMessage : MessageV0.Rule) : Except ConvertError Rule := do
  let ruleModel : Rule :=
    { direction := match ruleMessage.direction with
        | .inbound => .inbound
        | .outbound => .outbound
      protocol := ruleMessage.protocol.toInt16
      portStart := (ruleMessage.portStart.map UInt32.toInt32).getD 0
      portEnd := (ruleMessage.portEnd.map UInt32.toInt32).getD 0 }
  match ruleMessage.securityGroup, ruleMessage.cidr with
  | some securityGroup, _ => .ok { ruleModel with securityGroup := securityGroup }
  | none, some cidr => do
      let cidr ← convertCidr P cidr
      .ok { ruleModel with cidr := cidr }
  | none, none => .error none

def convertRules : List MessageV0.Rule → ExtTreeMap UInt64 Rule →
    Except ConvertError (ExtTreeMap UInt64 Rule)
  | [], acc => .ok acc
  | ruleMessage :: rest, acc => do
      let rule ← convertRule P ruleMessage
      convertRules rest (acc.insertIfNew (rule.hash P) rule)

def convertSg (sgMessage : MessageV0.Sg) : Except ConvertError Sg := do
  let members ← convertIps P sgMessage.member []
  let rules ← convertRules P sgMessage.rule ∅
  .ok { id := sgMessage.id, members := members, rules := rules }

/-! ## From the model to messages -/

def nicToMessage (nicModel : Nic) : MessageV0.Nic :=
  { id := nicModel.id
    mac := nicModel.mac.str
    vni := nicModel.vni
    ip := nicModel.ipList.map Ip.str
    securityGroup := nicModel.securityGroups
    ipAntiSpoof := some nicModel.ipAntiSpoof
    packetTrace := some nicModel.packetTrace
    packetTracePath := some nicModel.packetTracePath
    sniffTargetNicId := nonEmpty (some nicModel.sniffTargetNicId)
    bypassFiltering := some nicModel.bypassFiltering
    type := some .vhostUserServer
    path := nonEmpty (some nicModel.path) }

def ruleToMessage (ruleModel : Rule) : Option MessageV0.Rule := do
  let direction ← match ruleModel.direction with
    | .inbound => some MessageV0.RuleDirection.inbound
    | .outbound => some MessageV0.RuleDirection.outbound
    | .directionNb => none
  let usesPorts := ruleModel.protocol == 6 || ruleModel.protocol == 17
  if usesPorts && (ruleModel.portStart == -1 || ruleModel.portEnd == -1) then
    none
  else
    some
      { direction := direction
        protocol := ruleModel.protocol.toInt32
        portStart := if usesPorts then some ruleModel.portStart.toUInt32 else none
        portEnd := if usesPorts then some ruleModel.portEnd.toUInt32 else none
        securityGroup := nonEmpty (some ruleModel.securityGroup)
        cidr :=
          if ruleModel.securityGroup ≠ "" then none
          else some { address := ruleModel.cidr.address.str
                      maskSize := ruleModel.cidr.maskSize } }

def sgToMessage (sgModel : Sg) : Option MessageV0.Sg := do
  let rule ← (mapValues sgModel.rules).mapM ruleToMessage
  some { id := sgModel.id, member := sgModel.members.map Ip.str, rule := rule }

end Api0

end Butterfly
