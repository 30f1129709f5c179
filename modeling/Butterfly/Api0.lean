import Butterfly.Api

/-!
# Requests of version 0

`Api0::Process` and its handlers.  Each handler fills a response and may change
the server; `none` is undefined behaviour met on the way.
-/

namespace Butterfly.Api0

open Std Foundation MessageV0

/-! ## Standard responses -/

def buildOkRes (res : Response) : Response :=
  { res with status := { res.status with status := some true } }

/-- `BuildNokRes(res)`, which consumes a pending `api_0_error`. -/
def buildNokRes (res : Response) (s : Server) : Response × Server :=
  if s.api0Error ≠ "" then
    ({ res with status :=
        { res.status with error := some { description := some s.api0Error } } },
      { s with api0Error := "" })
  else ({ res with status := { res.status with status := some false } }, s)

def buildNokText (res : Response) (description : String) (s : Server) :
    Response × Server :=
  let description := if s.api0Error ≠ "" then s.api0Error else description
  let (res, s) := buildNokRes res { s with api0Error := "" }
  ({ res with status :=
      { res.status with error := some { description := some description } } }, s)

/-- `BuildNokRes(res, error)`; an empty description is not sent. -/
def buildNokError (res : Response) (description : String) (s : Server) :
    Response × Server :=
  buildNokRes { res with status :=
    { res.status with error := some { description := nonEmpty (some description) } } } s

def internalError (error : ConvertError) (s : Server) : Response × Server :=
  buildNokText {} "Internal error" { s with api0Error := error.getD s.api0Error }

def okRes : Response := buildOkRes {}

/-! ## Handlers -/

variable (P : Platform) (ambient : Ambient)

def nicAdd (n : MessageV0.Nic) (s : Server) : Option (Response × Server) :=
  if !validateNic P n then some (buildNokText {} "Bad NIC format" s)
  else match convertNic P s.config.packetTrace s.pid n with
    | .error error => some (internalError error s)
    | .ok nic => do
        let (added, s) ← Api.actionNicAdd P ambient nic s
        match added with
        | none => some (buildNokError {} "" s)
        | some nic =>
            some (buildOkRes { nicAdd := some { path := some nic.path } }, s)

def nicUpdate (n : NicUpdateReq) (s : Server) : Option (Response × Server) :=
  if !validateNicUpdate P n then some (buildNokText {} "Bad Nic update format" s)
  else match convertNicUpdate P s.pid ambient.garbage n with
    | .error error => some (internalError error s)
    | .ok update => do
        let (error, s) ← Api.actionNicUpdate P ambient update s
        match error with
        | some error => some (buildNokError {} error s)
        | none => some (okRes, s)

def nicDel (id : String) (s : Server) : Option (Response × Server) := do
  let s ← Api.actionNicDel id s
  some (okRes, s)

def nicList (s : Server) : Response × Server :=
  (buildOkRes { nicList := (mapValues s.model.nics).map Butterfly.Nic.id }, s)

def nicDetails (id : String) (s : Server) : Response × Server :=
  if id ≠ "" then
    match s.model.nics[id]? with
    | none => buildNokText {} ("NIC: " ++ id ++ " not found") s
    | some nic => (buildOkRes { nicDetails := [nicToMessage nic] }, s)
  else (buildOkRes { nicDetails := (mapValues s.model.nics).map nicToMessage }, s)

def nicExport (id : String) (s : Server) : Response × Server :=
  match Api.actionNicExport id s with
  | .error error => buildNokError {} error s
  | .ok data => (buildOkRes { nicExport := some data }, s)

def nicStats (id : String) (s : Server) : Response × Server :=
  match Api.actionNicStats ambient id s with
  | .error error => buildNokError {} error s
  | .ok (in_, out) =>
      (buildOkRes { nicStats := some { in_ := in_, out := out } }, s)

def sgAdd (m : MessageV0.Sg) (s : Server) : Response × Server :=
  if !validateSg P m then buildNokText {} "Bad Security Group format" s
  else match convertSg P m with
    | .error error => internalError error s
    | .ok sg => (okRes, Api.actionSgAdd ambient sg s)

def sgDel (id : String) (s : Server) : Response × Server :=
  (okRes, Api.actionSgDel ambient id s)

def sgList (s : Server) : Response × Server :=
  (buildOkRes { sgList := (mapValues s.model.securityGroups).map Butterfly.Sg.id }, s)

def withRule (action : String → Butterfly.Rule → Server → Server)
    (req : SgRuleReq) (s : Server) : Response × Server :=
  if !validateSgRule P req.rule then
    buildNokText {} "Bad Security Group rule format" s
  else match convertRule P req.rule with
    | .error error => internalError error s
    | .ok rule => (okRes, action req.sgId rule s)

def sgRuleAdd : SgRuleReq → Server → Response × Server :=
  withRule P (Api.actionSgRuleAdd P ambient)

def sgRuleDel : SgRuleReq → Server → Response × Server :=
  withRule P (Api.actionSgRuleDel P ambient)

def sgRuleList (id : String) (s : Server) : Response × Server :=
  match s.model.securityGroups[id]? with
  | none => buildNokText {} "Security Group not found" s
  | some sg =>
      match (mapValues sg.rules).mapM ruleToMessage with
      | none => buildNokText {} "Internal error" s
      | some rules => (buildOkRes { sgRuleList := rules }, s)

def withMember (action : String → Ip → Server → Server) (req : SgMemberReq)
    (s : Server) : Response × Server :=
  if !validateIp P req.member then buildNokText {} "Bad IP format" s
  else match convertIp P req.member with
    | .error error => internalError error s
    | .ok ip => (okRes, action req.sgId ip s)

def sgMemberAdd : SgMemberReq → Server → Response × Server :=
  withMember P (Api.actionSgMemberAdd ambient)

def sgMemberDel : SgMemberReq → Server → Response × Server :=
  withMember P (Api.actionSgMemberDel ambient)

def sgMemberList (id : String) (s : Server) : Response × Server :=
  match s.model.securityGroups[id]? with
  | none => buildNokText {} "Security Group not found" s
  | some sg => (buildOkRes { sgMemberList := sg.members.map Ip.str }, s)

def appStatus (s : Server) : Response × Server :=
  let status : AppStatusRes :=
    { startDate := s.startDate, currentDate := ambient.time
      requestCounter := s.requestCounter, graphDot := ambient.dot }
  (buildOkRes { appStatus := some status }, s)

def appQuit (s : Server) : Response × Server :=
  (okRes, { s with requestExit := true })

def setLogLevel (level : String) (s : Server) : Option Server :=
  if level ∈ ["none", "error", "warning", "info", "debug"] then
    some { s with logLevel := level }
  else none

def appConfig (config : AppConfigReq) (s : Server) : Response × Server :=
  match config.logLevel with
  | none => (okRes, s)
  | some level =>
      match setLogLevel level s with
      | some s => (okRes, s)
      | none =>
          buildNokText {} "Application configuration failed: log level: failed " s

def sgDetails (id : String) (s : Server) : Response × Server :=
  if id ≠ "" then
    match s.model.securityGroups[id]? with
    | none => buildNokText {} "Sg not found" s
    | some sg =>
        match sgToMessage sg with
        | none => buildNokText {} "Internal error" s
        | some m => (buildOkRes { sgDetails := [m] }, s)
  else match (mapValues s.model.securityGroups).mapM sgToMessage with
    | none => buildNokText {} "Internal error" s
    | some details => (buildOkRes { sgDetails := details }, s)

/-! ## Dispatch on the field that is set -/

inductive Command where
  | nicAdd (nic : MessageV0.Nic)
  | nicUpdate (req : NicUpdateReq)
  | nicDel (id : String)
  | nicList
  | nicDetails (id : String)
  | nicExport (id : String)
  | nicStats (id : String)
  | sgAdd (sg : MessageV0.Sg)
  | sgDel (id : String)
  | sgList
  | sgRuleAdd (req : SgRuleReq)
  | sgRuleDel (req : SgRuleReq)
  | sgRuleList (id : String)
  | sgMemberAdd (req : SgMemberReq)
  | sgMemberDel (req : SgMemberReq)
  | sgMemberList (id : String)
  | appStatus
  | appQuit
  | appConfig (config : AppConfigReq)
  | sgDetails (id : String)

/-- The first field that is set, in the order `Process` looks at them. -/
def command (rq : Request) : Option Command :=
  if let some nic := rq.nicAdd then some (.nicAdd nic)
  else if let some req := rq.nicUpdate then some (.nicUpdate req)
  else if let some id := rq.nicDel then some (.nicDel id)
  else if rq.nicList.isSome then some .nicList
  else if let some id := rq.nicDetails then some (.nicDetails id)
  else if let some id := rq.nicExport then some (.nicExport id)
  else if let some id := rq.nicStats then some (.nicStats id)
  else if let some sg := rq.sgAdd then some (.sgAdd sg)
  else if let some id := rq.sgDel then some (.sgDel id)
  else if rq.sgList.isSome then some .sgList
  else if let some req := rq.sgRuleAdd then some (.sgRuleAdd req)
  else if let some req := rq.sgRuleDel then some (.sgRuleDel req)
  else if let some id := rq.sgRuleList then some (.sgRuleList id)
  else if let some req := rq.sgMemberAdd then some (.sgMemberAdd req)
  else if let some req := rq.sgMemberDel then some (.sgMemberDel req)
  else if let some id := rq.sgMemberList then some (.sgMemberList id)
  else if rq.appStatus.isSome then some .appStatus
  else if rq.appQuit.isSome then some .appQuit
  else if let some config := rq.appConfig then some (.appConfig config)
  else if let some id := rq.sgDetails then some (.sgDetails id)
  else none

def handle (c : Command) (s : Server) : Option (Response × Server) :=
  match c with
  | .nicAdd nic => nicAdd P ambient nic s
  | .nicUpdate req => nicUpdate P ambient req s
  | .nicDel id => nicDel id s
  | .nicList => some (nicList s)
  | .nicDetails id => some (nicDetails id s)
  | .nicExport id => some (nicExport id s)
  | .nicStats id => some (nicStats ambient id s)
  | .sgAdd sg => some (sgAdd P ambient sg s)
  | .sgDel id => some (sgDel ambient id s)
  | .sgList => some (sgList s)
  | .sgRuleAdd req => some (sgRuleAdd P ambient req s)
  | .sgRuleDel req => some (sgRuleDel P ambient req s)
  | .sgRuleList id => some (sgRuleList id s)
  | .sgMemberAdd req => some (sgMemberAdd P ambient req s)
  | .sgMemberDel req => some (sgMemberDel P ambient req s)
  | .sgMemberList id => some (sgMemberList id s)
  | .appStatus => some (appStatus ambient s)
  | .appQuit => some (appQuit s)
  | .appConfig config => some (appConfig config s)
  | .sgDetails id => some (sgDetails id s)

def respond (request : Option Request) (s : Server) : Option (Response × Server) :=
  match request with
  | none =>
      some (buildNokText {} "MessageV0 appears to not have any request inside" s)
  | some rq =>
      match command rq with
      | none => some (buildNokText {} "MessageV0 appears to not have any request" s)
      | some c => handle P ambient c s

def process (req : MessageV0) (s : Server) : Option (MessageV0 × Server) := do
  let (response, s) ← respond P ambient req.request s
  some ({ response := some response, messageId := req.messageId }, s)

end Butterfly.Api0
