import Butterfly.Graph

/-!
# Actions of the API

`api.cc`: the `Action*` functions, which keep `app::model` and the graph in
step, and the three functions that refresh firewalls after a change of a
security group.
-/

namespace Butterfly.Api

open Std Foundation

variable (P : Platform) (ambient : Ambient)

/-! ## NICs -/

def removeNic (id : String) (s : Server) : Option Server :=
  match s.model.nics[id]? with
  | none => some s
  | some nic => do
      let s ← Graph.nicDel nic s
      some (s.modifyModel fun m => { m with nics := m.nics.erase id })

/-- `none` in the first place is a refusal without an error description. -/
def actionNicAdd (nic : Nic) (s : Server) : Option (Option Nic × Server) := do
  -- After the removal of an old NIC the retry finds no NIC with this id.
  let s ← removeNic nic.id s
  let (added, s) ← Graph.nicAdd P ambient.ok nic s
  match added with
  | none => some (none, s)
  | some nic =>
      some (some nic, s.modifyModel fun m =>
        { m with nics := m.nics.insertIfNew nic.id nic })

def setNic (id : String) (n : Nic) (s : Server) : Server :=
  s.modifyModel fun m => { m with nics := m.nics.insert id n }

def ipChanged (update : NicUpdate) (n : Nic) : Bool :=
  update.ipOverwrite && !ipListEq n.ipList update.ip

def groupsChanged (update : NicUpdate) (n : Nic) : Bool :=
  update.securityGroupsOverwrite && decide (n.securityGroups ≠ update.securityGroups)

def antiSpoofChanged (update : NicUpdate) (n : Nic) : Bool :=
  update.hasIpAntiSpoof && decide (update.ipAntiSpoof ≠ n.ipAntiSpoof)

/-- The assignments to the NIC that come before any call of the graph. -/
def revise (update : NicUpdate) (n : Nic) : Nic :=
  { n with
    ipList := if ipChanged update n then update.ip else n.ipList
    securityGroups :=
      if groupsChanged update n then update.securityGroups else n.securityGroups
    ipAntiSpoof :=
      if antiSpoofChanged update n then update.ipAntiSpoof else n.ipAntiSpoof }

/-- `need_anti_spoof_update` is set by new addresses as well. -/
def refreshAntiSpoof (update : NicUpdate) (old n : Nic) (s : Server) : Server :=
  if ipChanged update old || antiSpoofChanged update old then
    Graph.nicConfigAntiSpoof P ambient.ok n n.ipAntiSpoof s
  else s

def updateTrace (update : NicUpdate) (n : Nic) (s : Server) :
    Option (Nic × Server) :=
  if update.hasPacketTrace then do
    let s ← Graph.nicConfigPacketTrace ambient.ok n update.packetTrace s
    let n := { n with packetTrace := update.packetTrace }
    some (n, setNic update.id n s)
  else some (n, s)

def updateTracePath (update : NicUpdate) (n : Nic) (s : Server) :
    Option (Nic × Server) :=
  if n.packetTrace ∧ update.packetTracePath ≠ "" then do
    let s ← Graph.nicConfigPacketTracePath ambient.ok n update.packetTracePath s
    let n := { n with packetTracePath := update.packetTracePath }
    some (n, setNic update.id n s)
  else some (n, s)

def refreshFirewall (update : NicUpdate) (old n : Nic) (s : Server) : Server :=
  if ipChanged update old || groupsChanged update old then
    Graph.fwUpdate ambient.ok n s
  else s

/-- The error text of a refusal, or `none` if the update was done. -/
def actionNicUpdate (update : NicUpdate) (s : Server) :
    Option (Option String × Server) :=
  match s.model.nics[update.id]? with
  | none => some (some ("NIC does not exist with id " ++ update.id), s)
  | some old => do
      let n := revise update old
      let s := refreshAntiSpoof P ambient update old n (setNic update.id n s)
      let (n, s) ← updateTrace ambient update n s
      let (n, s) ← updateTracePath ambient update n s
      some (none, refreshFirewall ambient update old n s)

def actionNicDel (id : String) (s : Server) : Option Server := removeNic id s

def actionNicExport (id : String) (s : Server) : Except String String :=
  match s.model.nics[id]? with
  | none => .error ("NIC does not exist with id " ++ id)
  | some _ => .ok ""

def actionNicStats (id : String) (s : Server) : Except String (UInt64 × UInt64) :=
  match s.model.nics[id]? with
  | none => .error ("NIC does not exist with id " ++ id)
  | some nic => .ok (Graph.nicGetStats ambient nic s)

/-! ## Refreshing firewalls -/

/-- Call `refresh` on each NIC once for every time it lists the group. -/
def forGroup (id : String) (refresh : Nic → Server → Server) (s : Server) :
    Server :=
  (mapValues s.model.nics).foldl (fun s nic =>
    nic.securityGroups.foldl (fun s name =>
      if name = id then refresh nic s else s) s) s

def sgUpdate (sg : Sg) (s : Server) : Server :=
  forGroup sg.id (Graph.fwUpdate ambient.ok) s

def sgUpdateRule (sg : Sg) (rule : Rule) (s : Server) : Server :=
  forGroup sg.id (fun nic => Graph.fwAddRule ambient.ok nic rule) s

/-- The rule loop of `SgUpdateRuleMembers`, left by `break` after an update. -/
def updateIfRefers (modifiedSg sg : Sg) (updatedSgs : List String) (s : Server) :
    List String × Server :=
  if (mapValues sg.rules).any (fun rule => rule.securityGroup = modifiedSg.id) ∧
      sg.id ∉ updatedSgs then
    (updatedSgs ++ [sg.id], sgUpdate ambient sg s)
  else (updatedSgs, s)

def updateReferring (modifiedSg : Sg) (state : List String × Server)
    (name : String) : List String × Server :=
  match state.2.model.securityGroups[name]? with
  | none => state
  | some sg => updateIfRefers ambient modifiedSg sg state.1 state.2

def sgUpdateRuleMembers (modifiedSg : Sg) (s : Server) : Server :=
  ((mapValues s.model.nics).foldl (fun state nic =>
    nic.securityGroups.foldl (updateReferring ambient modifiedSg) state)
    ([], s)).2

/-! ## Security groups -/

def setSg (id : String) (sg : Sg) (s : Server) : Server :=
  s.modifyModel fun m => { m with securityGroups := m.securityGroups.insert id sg }

def actionSgAdd (sg : Sg) (s : Server) : Server :=
  match s.model.securityGroups[sg.id]? with
  | some originalSg =>
      if sg.eq originalSg then s
      else sgUpdateRuleMembers ambient sg (sgUpdate ambient sg (setSg sg.id sg s))
  | none =>
      sgUpdateRuleMembers ambient sg (sgUpdate ambient sg (setSg sg.id sg s))

def actionSgDel (id : String) (s : Server) : Server :=
  match s.model.securityGroups[id]? with
  | none => s
  | some sg =>
      let s := s.modifyModel fun m =>
        { m with securityGroups := m.securityGroups.erase id }
      sgUpdateRuleMembers ambient sg (sgUpdate ambient sg s)

def ensureSg (id : String) (s : Server) : Sg × Server :=
  match s.model.securityGroups[id]? with
  | some sg => (sg, s)
  | none => ({ id := id }, setSg id { id := id } s)

def actionSgRuleAdd (sgId : String) (rule : Rule) (s : Server) : Server :=
  let (sg, s) := ensureSg sgId s
  if rule.hash P ∈ sg.rules then s
  else
    let sg := { sg with rules := sg.rules.insertIfNew (rule.hash P) rule }
    sgUpdateRule ambient sg rule (setSg sgId sg s)

def actionSgRuleDel (sgId : String) (rule : Rule) (s : Server) : Server :=
  match s.model.securityGroups[sgId]? with
  | none => s
  | some sg =>
      if rule.hash P ∉ sg.rules then s
      else
        let sg := { sg with rules := sg.rules.erase (rule.hash P) }
        sgUpdate ambient sg (setSg sgId sg s)

def actionSgMemberAdd (sgId : String) (ip : Ip) (s : Server) : Server :=
  let (sg, s) := ensureSg sgId s
  if findIp sg.members ip then s
  else
    let sg := { sg with members := sg.members ++ [ip] }
    sgUpdateRuleMembers ambient sg (setSg sgId sg s)

def actionSgMemberDel (sgId : String) (ip : Ip) (s : Server) : Server :=
  match s.model.securityGroups[sgId]? with
  | none => s
  | some sg =>
      if !findIp sg.members ip then s
      else
        let sg := { sg with members := sg.members.eraseP fun known => known.eq ip }
        sgUpdateRuleMembers ambient sg (setSg sgId sg s)

end Butterfly.Api
