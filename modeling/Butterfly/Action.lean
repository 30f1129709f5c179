import Butterfly.Api0
import Butterfly.Tuning

/-!
# Actions

The nine actions of `api.cc` that change the model or the graph, as one type,
and the commands they come from.  Data reaches an action only after it was
validated and converted.
-/

namespace Butterfly

open Std Foundation MessageV0

variable {P : Platform} {ambient : Ambient}

/-! ## What a request may not touch -/

/-- Equal up to the request counter, the log level and pending texts. -/
structure SameCore (s s' : Server) : Prop where
  config : s'.config = s.config
  pid : s'.pid = s.pid
  model : s'.model = s.model
  started : s'.started = s.started
  vnis : s'.vnis = s.vnis
  nextSerial : s'.nextSerial = s.nextSerial
  ops : s'.ops = s.ops

theorem SameCore.refl (s : Server) : SameCore s s :=
  ⟨rfl, rfl, rfl, rfl, rfl, rfl, rfl⟩

theorem SameCore.trans {s₀ s₁ s₂ : Server} (h : SameCore s₀ s₁) (h' : SameCore s₁ s₂) :
    SameCore s₀ s₂ :=
  ⟨h'.config.trans h.config, h'.pid.trans h.pid, h'.model.trans h.model,
    h'.started.trans h.started, h'.vnis.trans h.vnis, h'.nextSerial.trans h.nextSerial,
    h'.ops.trans h.ops⟩

/-! ## Actions -/

inductive Action where
  | nicAdd (nic : Butterfly.Nic)
  | nicUpdate (update : NicUpdate)
  | nicDel (id : String)
  | sgAdd (sg : Butterfly.Sg)
  | sgDel (id : String)
  | sgRuleAdd (sgId : String) (rule : Butterfly.Rule)
  | sgRuleDel (sgId : String) (rule : Butterfly.Rule)
  | sgMemberAdd (sgId : String) (ip : Ip)
  | sgMemberDel (sgId : String) (ip : Ip)

/-- Perform an action; the truth value says whether it was accepted. -/
def perform (P : Platform) (ambient : Ambient) :
    Action → Server → Option (Bool × Server)
  | .nicAdd nic, s =>
      (Api.actionNicAdd P ambient nic s).map fun r => (r.1.isSome, r.2)
  | .nicUpdate update, s =>
      (Api.actionNicUpdate P ambient update s).map fun r => (r.1.isNone, r.2)
  | .nicDel id, s => (Api.actionNicDel id s).map fun s => (true, s)
  | .sgAdd sg, s => some (true, Api.actionSgAdd ambient sg s)
  | .sgDel id, s => some (true, Api.actionSgDel ambient id s)
  | .sgRuleAdd sgId rule, s =>
      some (true, Api.actionSgRuleAdd P ambient sgId rule s)
  | .sgRuleDel sgId rule, s =>
      some (true, Api.actionSgRuleDel P ambient sgId rule s)
  | .sgMemberAdd sgId ip, s =>
      some (true, Api.actionSgMemberAdd ambient sgId ip s)
  | .sgMemberDel sgId ip, s =>
      some (true, Api.actionSgMemberDel ambient sgId ip s)

inductive Asks (P : Platform) (ambient : Ambient) (s : Server) :
    Api0.Command → Action → Prop
  | nicAdd {n nic} : Api0.validateNic P n = true →
      Api0.convertNic P s.config.packetTrace s.pid n = .ok nic →
      Asks P ambient s (.nicAdd n) (.nicAdd nic)
  | nicUpdate {req update} : Api0.validateNicUpdate P req = true →
      Api0.convertNicUpdate P s.pid ambient.garbage req = .ok update →
      Asks P ambient s (.nicUpdate req) (.nicUpdate update)
  | nicDel (id) : Asks P ambient s (.nicDel id) (.nicDel id)
  | sgAdd {m sg} : Api0.validateSg P m = true → Api0.convertSg P m = .ok sg →
      Asks P ambient s (.sgAdd m) (.sgAdd sg)
  | sgDel (id) : Asks P ambient s (.sgDel id) (.sgDel id)
  | sgRuleAdd {req : SgRuleReq} {rule} : Api0.validateSgRule P req.rule = true →
      Api0.convertRule P req.rule = .ok rule →
      Asks P ambient s (.sgRuleAdd req) (.sgRuleAdd req.sgId rule)
  | sgRuleDel {req : SgRuleReq} {rule} : Api0.validateSgRule P req.rule = true →
      Api0.convertRule P req.rule = .ok rule →
      Asks P ambient s (.sgRuleDel req) (.sgRuleDel req.sgId rule)
  | sgMemberAdd {req : SgMemberReq} {ip} :
      Api0.validateIp P req.member = true →
      Api0.convertIp P req.member = .ok ip →
      Asks P ambient s (.sgMemberAdd req) (.sgMemberAdd req.sgId ip)
  | sgMemberDel {req : SgMemberReq} {ip} :
      Api0.validateIp P req.member = true →
      Api0.convertIp P req.member = .ok ip →
      Asks P ambient s (.sgMemberDel req) (.sgMemberDel req.sgId ip)

end Butterfly
