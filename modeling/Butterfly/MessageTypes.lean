import Butterfly.Foundation.Schema
import Butterfly.Message

/-!
# The fields of `message_0.proto`

What the generated code writes for a message and reads from its fields.  A
required field that is missing makes the message unreadable.
-/

namespace Butterfly.MessageV0

open Foundation Scalar

def nicType : Scalar NicType :=
  enum
    (fun
      | .vhostUserServer => 0
      | .tap => 1
      | .bench => 2)
    (fun
      | 0 => some .vhostUserServer
      | 1 => some .tap
      | 2 => some .bench
      | _ => none)
    (by intro a; cases a <;> rfl)

def ruleDirection : Scalar RuleDirection :=
  enum
    (fun
      | .inbound => 0
      | .outbound => 1)
    (fun
      | 0 => some .inbound
      | 1 => some .outbound
      | _ => none)
    (by intro a; cases a <;> rfl)

def Nic.schema : MessageType Nic where
  write m :=
    string.fields 1 [m.id] ++
      string.fields 2 [m.mac] ++
      uint32.fields 3 [m.vni] ++
      string.fields 4 m.ip ++
      string.fields 5 m.securityGroup ++
      bool.fields 6 m.ipAntiSpoof.toList ++
      string.fields 7 m.sniffTargetNicId.toList ++
      bool.fields 8 m.bypassFiltering.toList ++
      nicType.fields 9 m.type.toList ++
      string.fields 10 m.path.toList ++
      bool.fields 11 m.packetTrace.toList ++
      string.fields 12 m.packetTracePath.toList ++
      string.fields 13 m.btype.toList ++
      string.fields 14 m.dip.toList ++
      string.fields 15 m.dmac.toList
  read fields := do
    let id ← (string.all 1 fields).getLast?
    let mac ← (string.all 2 fields).getLast?
    let vni ← (uint32.all 3 fields).getLast?
    some { id := id
           mac := mac
           vni := vni
           ip := string.all 4 fields
           securityGroup := string.all 5 fields
           ipAntiSpoof := (bool.all 6 fields).getLast?
           sniffTargetNicId := (string.all 7 fields).getLast?
           bypassFiltering := (bool.all 8 fields).getLast?
           type := (nicType.all 9 fields).getLast?
           path := (string.all 10 fields).getLast?
           packetTrace := (bool.all 11 fields).getLast?
           packetTracePath := (string.all 12 fields).getLast?
           btype := (string.all 13 fields).getLast?
           dip := (string.all 14 fields).getLast?
           dmac := (string.all 15 fields).getLast? }
  numbered m := by simp
  read_write m _ := by simp

def NicStats.schema : MessageType NicStats where
  write m :=
    uint64.fields 1 [m.in_] ++
      uint64.fields 2 [m.out]
  read fields := do
    let in_ ← (uint64.all 1 fields).getLast?
    let out ← (uint64.all 2 fields).getLast?
    some { in_ := in_
           out := out }
  numbered m := by simp
  read_write m _ := by simp

def Cidr.schema : MessageType Cidr where
  write m :=
    string.fields 1 [m.address] ++
      uint32.fields 2 [m.maskSize]
  read fields := do
    let address ← (string.all 1 fields).getLast?
    let maskSize ← (uint32.all 2 fields).getLast?
    some { address := address
           maskSize := maskSize }
  numbered m := by simp
  read_write m _ := by simp

def Rule.schema : MessageType Rule where
  write m :=
    ruleDirection.fields 1 [m.direction] ++
      int32.fields 2 [m.protocol] ++
      uint32.fields 3 m.portStart.toList ++
      uint32.fields 4 m.portEnd.toList ++
      Cidr.schema.fields 5 m.cidr.toList ++
      string.fields 6 m.securityGroup.toList
  read fields := do
    let direction ← (ruleDirection.all 1 fields).getLast?
    let protocol ← (int32.all 2 fields).getLast?
    let cidr ← Cidr.schema.last (lens 5 fields)
    some { direction := direction
           protocol := protocol
           portStart := (uint32.all 3 fields).getLast?
           portEnd := (uint32.all 4 fields).getLast?
           cidr := cidr
           securityGroup := (string.all 6 fields).getLast? }
  numbered m := by simp
  read_write m _ := by
    simp [MessageType.last_bytes (M := Cidr.schema) fun _ _ => trivial]

def Sg.schema : MessageType Sg where
  write m :=
    string.fields 1 [m.id] ++
      string.fields 2 m.member ++
      Rule.schema.fields 3 m.rule
  read fields := do
    let id ← (string.all 1 fields).getLast?
    let rule ← Rule.schema.all (lens 3 fields)
    some { id := id
           member := string.all 2 fields
           rule := rule }
  numbered m := by simp
  read_write m _ := by
    simp [MessageType.all_bytes (M := Rule.schema) fun _ _ => trivial]

def Error.schema : MessageType Error where
  write m :=
    string.fields 1 m.description.toList
  read fields :=
    some { description := (string.all 1 fields).getLast? }
  numbered m := by simp
  read_write m _ := by simp

def Status.schema : MessageType Status where
  write m :=
    bool.fields 1 m.status.toList ++
      Error.schema.fields 2 m.error.toList
  read fields := do
    let status ← (bool.all 1 fields).getLast?
    let error ← Error.schema.last (lens 2 fields)
    some { status := some status
           error := error }
  complete m := m.status.isSome
  numbered m := by simp
  read_write m hm := by
    obtain ⟨_ | status, error⟩ := m
    · cases hm
    · simp [MessageType.last_bytes (M := Error.schema) fun _ _ => trivial]

def NicUpdateReq.schema : MessageType NicUpdateReq where
  write m :=
    string.fields 1 [m.id] ++
      bool.fields 2 m.ipAntiSpoof.toList ++
      string.fields 3 m.ip ++
      string.fields 4 m.securityGroup ++
      bool.fields 5 m.packetTrace.toList ++
      string.fields 6 m.packetTracePath.toList
  read fields := do
    let id ← (string.all 1 fields).getLast?
    some { id := id
           ipAntiSpoof := (bool.all 2 fields).getLast?
           ip := string.all 3 fields
           securityGroup := string.all 4 fields
           packetTrace := (bool.all 5 fields).getLast?
           packetTracePath := (string.all 6 fields).getLast? }
  numbered m := by simp
  read_write m _ := by simp

def NicAddRes.schema : MessageType NicAddRes where
  write m :=
    string.fields 1 m.path.toList
  read fields :=
    some { path := (string.all 1 fields).getLast? }
  numbered m := by simp
  read_write m _ := by simp

def SgRuleReq.schema : MessageType SgRuleReq where
  write m :=
    string.fields 1 [m.sgId] ++
      Rule.schema.fields 2 [m.rule]
  read fields := do
    let sgId ← (string.all 1 fields).getLast?
    let rule ← Rule.schema.one (lens 2 fields)
    some { sgId := sgId
           rule := rule }
  numbered m := by simp
  read_write m _ := by
    simp [MessageType.one_bytes (M := Rule.schema) trivial]

def SgMemberReq.schema : MessageType SgMemberReq where
  write m :=
    string.fields 1 [m.sgId] ++
      string.fields 2 [m.member]
  read fields := do
    let sgId ← (string.all 1 fields).getLast?
    let member ← (string.all 2 fields).getLast?
    some { sgId := sgId
           member := member }
  numbered m := by simp
  read_write m _ := by simp

/-- A field that is not set is read as its default. -/
def AppStatusRes.schema : MessageType AppStatusRes where
  write m :=
    uint64.fields 1 [m.startDate] ++
      uint64.fields 2 [m.currentDate] ++
      uint64.fields 3 [m.requestCounter] ++
      string.fields 4 [m.graphDot]
  read fields :=
    some { startDate := (uint64.all 1 fields).getLast?.getD 0
           currentDate := (uint64.all 2 fields).getLast?.getD 0
           requestCounter := (uint64.all 3 fields).getLast?.getD 0
           graphDot := (string.all 4 fields).getLast?.getD "" }
  numbered m := by simp
  read_write m _ := by simp

def AppConfigReq.schema : MessageType AppConfigReq where
  write m :=
    string.fields 1 m.logLevel.toList
  read fields :=
    some { logLevel := (string.all 1 fields).getLast? }
  numbered m := by simp
  read_write m _ := by simp

def Request.schema : MessageType Request where
  write m :=
    Nic.schema.fields 1 m.nicAdd.toList ++
      NicUpdateReq.schema.fields 2 m.nicUpdate.toList ++
      string.fields 3 m.nicDel.toList ++
      bool.fields 4 m.nicList.toList ++
      string.fields 5 m.nicDetails.toList ++
      string.fields 6 m.nicExport.toList ++
      string.fields 7 m.nicStats.toList ++
      Sg.schema.fields 8 m.sgAdd.toList ++
      string.fields 9 m.sgDel.toList ++
      bool.fields 10 m.sgList.toList ++
      SgRuleReq.schema.fields 11 m.sgRuleAdd.toList ++
      SgRuleReq.schema.fields 12 m.sgRuleDel.toList ++
      string.fields 13 m.sgRuleList.toList ++
      SgMemberReq.schema.fields 14 m.sgMemberAdd.toList ++
      SgMemberReq.schema.fields 15 m.sgMemberDel.toList ++
      string.fields 16 m.sgMemberList.toList ++
      bool.fields 17 m.appStatus.toList ++
      bool.fields 18 m.appQuit.toList ++
      AppConfigReq.schema.fields 19 m.appConfig.toList ++
      string.fields 20 m.sgDetails.toList
  read fields := do
    let nicAdd ← Nic.schema.last (lens 1 fields)
    let nicUpdate ← NicUpdateReq.schema.last (lens 2 fields)
    let sgAdd ← Sg.schema.last (lens 8 fields)
    let sgRuleAdd ← SgRuleReq.schema.last (lens 11 fields)
    let sgRuleDel ← SgRuleReq.schema.last (lens 12 fields)
    let sgMemberAdd ← SgMemberReq.schema.last (lens 14 fields)
    let sgMemberDel ← SgMemberReq.schema.last (lens 15 fields)
    let appConfig ← AppConfigReq.schema.last (lens 19 fields)
    some { nicAdd := nicAdd
           nicUpdate := nicUpdate
           nicDel := (string.all 3 fields).getLast?
           nicList := (bool.all 4 fields).getLast?
           nicDetails := (string.all 5 fields).getLast?
           nicExport := (string.all 6 fields).getLast?
           nicStats := (string.all 7 fields).getLast?
           sgAdd := sgAdd
           sgDel := (string.all 9 fields).getLast?
           sgList := (bool.all 10 fields).getLast?
           sgRuleAdd := sgRuleAdd
           sgRuleDel := sgRuleDel
           sgRuleList := (string.all 13 fields).getLast?
           sgMemberAdd := sgMemberAdd
           sgMemberDel := sgMemberDel
           sgMemberList := (string.all 16 fields).getLast?
           appStatus := (bool.all 17 fields).getLast?
           appQuit := (bool.all 18 fields).getLast?
           appConfig := appConfig
           sgDetails := (string.all 20 fields).getLast? }
  numbered m := by simp
  read_write m _ := by
    simp [MessageType.last_bytes (M := Nic.schema) fun _ _ => trivial,
      MessageType.last_bytes (M := NicUpdateReq.schema) fun _ _ => trivial,
      MessageType.last_bytes (M := Sg.schema) fun _ _ => trivial,
      MessageType.last_bytes (M := SgRuleReq.schema) fun _ _ => trivial,
      MessageType.last_bytes (M := SgMemberReq.schema) fun _ _ => trivial,
      MessageType.last_bytes (M := AppConfigReq.schema) fun _ _ => trivial]

def FwData.schema : MessageType String where
  write data := string.fields 1 [data]
  read fields := (string.all 1 fields).getLast?
  numbered data := by simp
  read_write data _ := by simp

def nicExportRes : MessageType String where
  write data := FwData.schema.fields 1 [data]
  read fields := FwData.schema.one (lens 1 fields)
  numbered data := by simp
  read_write data _ := by simp [MessageType.one_bytes (M := FwData.schema) trivial]

def Response.schema : MessageType Response where
  write m :=
    Status.schema.fields 1 [m.status] ++
      NicAddRes.schema.fields 2 m.nicAdd.toList ++
      string.fields 3 m.nicList ++
      Nic.schema.fields 4 m.nicDetails ++
      nicExportRes.fields 5 m.nicExport.toList ++
      NicStats.schema.fields 6 m.nicStats.toList ++
      string.fields 7 m.sgList ++
      Rule.schema.fields 8 m.sgRuleList ++
      string.fields 9 m.sgMemberList ++
      AppStatusRes.schema.fields 10 m.appStatus.toList ++
      Sg.schema.fields 11 m.sgDetails
  read fields := do
    let status ← Status.schema.one (lens 1 fields)
    let nicAdd ← NicAddRes.schema.last (lens 2 fields)
    let nicDetails ← Nic.schema.all (lens 4 fields)
    let nicExport ← nicExportRes.last (lens 5 fields)
    let nicStats ← NicStats.schema.last (lens 6 fields)
    let sgRuleList ← Rule.schema.all (lens 8 fields)
    let appStatus ← AppStatusRes.schema.last (lens 10 fields)
    let sgDetails ← Sg.schema.all (lens 11 fields)
    some { status := status
           nicAdd := nicAdd
           nicList := string.all 3 fields
           nicDetails := nicDetails
           nicExport := nicExport
           nicStats := nicStats
           sgList := string.all 7 fields
           sgRuleList := sgRuleList
           sgMemberList := string.all 9 fields
           appStatus := appStatus
           sgDetails := sgDetails }
  complete m := Status.schema.complete m.status
  numbered m := by simp
  read_write m hm := by
    simp [MessageType.one_bytes hm,
      MessageType.last_bytes (M := NicAddRes.schema) fun _ _ => trivial,
      MessageType.all_bytes (M := Nic.schema) fun _ _ => trivial,
      MessageType.last_bytes (M := nicExportRes) fun _ _ => trivial,
      MessageType.last_bytes (M := NicStats.schema) fun _ _ => trivial,
      MessageType.all_bytes (M := Rule.schema) fun _ _ => trivial,
      MessageType.last_bytes (M := AppStatusRes.schema) fun _ _ => trivial,
      MessageType.all_bytes (M := Sg.schema) fun _ _ => trivial]

end Butterfly.MessageV0

namespace Butterfly

open Foundation

def MessageV0.schema : MessageType MessageV0 where
  write m :=
    Request.schema.fields 1 m.request.toList ++
      Response.schema.fields 2 m.response.toList ++
      Scalar.string.fields 3 m.messageId.toList
  read fields := do
    let request ← Request.schema.last (lens 1 fields)
    let response ← Response.schema.last (lens 2 fields)
    some { request := request
           response := response
           messageId := (Scalar.string.all 3 fields).getLast? }
  complete m := ∀ response ∈ m.response, Response.schema.complete response
  numbered m := by simp
  read_write m hm := by
    simp [MessageType.last_bytes (M := Request.schema) fun _ _ => trivial,
      MessageType.last_bytes hm]

end Butterfly
