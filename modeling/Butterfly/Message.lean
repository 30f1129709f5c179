import Butterfly.Model

/-!
# Wire messages

The messages of `message_0.proto`.  A proto2 `optional` field is an option, a
`repeated` field a list and a `required` field a plain value: the parser
refuses a message that lacks one.
-/

namespace Butterfly.MessageV0

structure Nic where
  id : String
  mac : String
  vni : UInt32
  ip : List String := []
  securityGroup : List String := []
  ipAntiSpoof : Option Bool := none
  sniffTargetNicId : Option String := none
  bypassFiltering : Option Bool := none
  type : Option NicType := none
  path : Option String := none
  packetTrace : Option Bool := none
  packetTracePath : Option String := none
  btype : Option String := none
  dip : Option String := none
  dmac : Option String := none
  deriving DecidableEq

structure NicStats where
  in_ : UInt64
  out : UInt64
  deriving DecidableEq

structure Cidr where
  address : String
  maskSize : UInt32
  deriving DecidableEq

inductive RuleDirection where
  | inbound
  | outbound
  deriving DecidableEq

structure Rule where
  direction : RuleDirection
  protocol : Int32
  portStart : Option UInt32 := none
  portEnd : Option UInt32 := none
  cidr : Option Cidr := none
  securityGroup : Option String := none
  deriving DecidableEq

structure Sg where
  id : String
  member : List String := []
  rule : List Rule := []
  deriving DecidableEq

/-- The server fills no other field of `Error` than the description. -/
structure Error where
  description : Option String := none
  deriving DecidableEq

/-- `status` is required on the wire, yet unset until a handler sets it. -/
structure Status where
  status : Option Bool := none
  error : Option Error := none
  deriving DecidableEq

structure NicUpdateReq where
  id : String
  ipAntiSpoof : Option Bool := none
  ip : List String := []
  securityGroup : List String := []
  packetTrace : Option Bool := none
  packetTracePath : Option String := none
  deriving DecidableEq

structure NicAddRes where
  path : Option String := none
  deriving DecidableEq

structure SgRuleReq where
  sgId : String
  rule : Rule
  deriving DecidableEq

structure SgMemberReq where
  sgId : String
  member : String
  deriving DecidableEq

structure AppStatusRes where
  startDate : UInt64
  currentDate : UInt64
  requestCounter : UInt64
  graphDot : String
  deriving DecidableEq

structure AppConfigReq where
  logLevel : Option String := none
  deriving DecidableEq

structure Request where
  nicAdd : Option Nic := none
  nicUpdate : Option NicUpdateReq := none
  nicDel : Option String := none
  nicList : Option Bool := none
  nicDetails : Option String := none
  nicExport : Option String := none
  nicStats : Option String := none
  sgAdd : Option Sg := none
  sgDel : Option String := none
  sgList : Option Bool := none
  sgRuleAdd : Option SgRuleReq := none
  sgRuleDel : Option SgRuleReq := none
  sgRuleList : Option String := none
  sgMemberAdd : Option SgMemberReq := none
  sgMemberDel : Option SgMemberReq := none
  sgMemberList : Option String := none
  appStatus : Option Bool := none
  appQuit : Option Bool := none
  appConfig : Option AppConfigReq := none
  sgDetails : Option String := none
  deriving DecidableEq

structure Response where
  status : Status := {}
  nicAdd : Option NicAddRes := none
  nicList : List String := []
  nicDetails : List Nic := []
  nicExport : Option String := none
  nicStats : Option NicStats := none
  sgList : List String := []
  sgRuleList : List Rule := []
  sgMemberList : List String := []
  appStatus : Option AppStatusRes := none
  sgDetails : List Sg := []
  deriving DecidableEq

end Butterfly.MessageV0

namespace Butterfly

structure MessageV0 where
  request : Option MessageV0.Request := none
  response : Option MessageV0.Response := none
  messageId : Option String := none
  deriving DecidableEq

end Butterfly
