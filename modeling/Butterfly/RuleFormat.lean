import Butterfly.Libc
import Butterfly.Responses

/-!
# The rules that `sg_rule_add` accepts

What `message_0.proto` asks of a rule is enforced by `ValidateSgRule` and, where it says
nothing, by a conversion that fails.  Ports are looked at for TCP and UDP only.
-/

namespace Butterfly

open Std Foundation MessageV0

variable {P : Platform} {ambient : Ambient} {m : MessageV0.Rule}

/-! ## The documented constraints -/

def MessageV0.Rule.UsesPorts (m : MessageV0.Rule) : Prop := m.protocol = 6 ∨ m.protocol = 17

def MessageV0.Cidr.Valid (P : Platform) (cidr : MessageV0.Cidr) : Prop :=
  ((P.inetPton4 cidr.address).isSome = true ∧ cidr.maskSize ≤ 32) ∨
    ((P.inetPton6 cidr.address).isSome = true ∧ cidr.maskSize ≤ 128)

/-- Every port that is set is one. -/
def MessageV0.Rule.PortsInRange (m : MessageV0.Rule) : Prop :=
  (∀ port ∈ m.portStart, port ≤ 65535) ∧ ∀ port ∈ m.portEnd, port ≤ 65535

/-- The constraints of `message Rule`, but for the range of the ports. -/
structure MessageV0.Rule.Shaped (P : Platform) (m : MessageV0.Rule) : Prop where
  protocol : m.protocol = -1 ∨ (0 ≤ m.protocol ∧ m.protocol ≤ 255)
  ports : m.UsesPorts → ∃ first ∈ m.portStart, ∃ last ∈ m.portEnd, first ≤ last
  peer : m.cidr.isSome = true ↔ ¬m.securityGroup.isSome = true
  cidr : ∀ cidr ∈ m.cidr, cidr.Valid P

def MessageV0.Rule.Documented (P : Platform) (m : MessageV0.Rule) : Prop :=
  m.Shaped P ∧ m.PortsInRange

/-! ## What is enforced -/

theorem validateCidr_iff (cidr : MessageV0.Cidr) :
    Api0.validateCidr P cidr = true ↔ cidr.Valid P := by
  unfold Api0.validateCidr MessageV0.Cidr.Valid
  cases h4 : P.inetPton4 cidr.address with
  | some a => simp [P.pton6_of_pton4 h4]
  | none => cases h6 : P.inetPton6 cidr.address <;> simp

theorem protocol_iff (p : Int32) :
    ¬(p < -1 || p > 255) = true ↔ p = -1 ∨ (0 ≤ p ∧ p ≤ 255) := by
  simp only [Bool.or_eq_true, decide_eq_true_eq, not_or, Int32.not_lt, gt_iff_lt,
    Int32.le_iff_toInt_le, ← Int32.toInt_inj]
  have hone : (-1 : Int32).toInt = -1 := by decide
  have hzero : (0 : Int32).toInt = 0 := by decide
  have htop : (255 : Int32).toInt = 255 := by decide
  omega

theorem validatePorts_iff :
    Api0.validatePorts m = true ↔
      (∃ first ∈ m.portStart, ∃ last ∈ m.portEnd, first ≤ last) ∧ m.PortsInRange := by
  unfold Api0.validatePorts MessageV0.Rule.PortsInRange
  cases m.portStart with
  | none => simp
  | some first =>
      cases m.portEnd with
      | none => simp
      | some last =>
          simp only [Bool.and_eq_true, Bool.not_eq_true', Bool.or_eq_false_iff,
            decide_eq_false_iff_not, gt_iff_lt, UInt32.not_lt, Option.mem_def,
            Option.some.injEq, exists_eq_left', forall_eq']
          exact and_comm

theorem validateSgRule_iff :
    Api0.validateSgRule P m = true ↔
      (m.protocol = -1 ∨ (0 ≤ m.protocol ∧ m.protocol ≤ 255)) ∧
      (m.UsesPorts → (∃ first ∈ m.portStart, ∃ last ∈ m.portEnd, first ≤ last) ∧
        m.PortsInRange) ∧
      ¬(m.securityGroup.isSome = true ∧ m.cidr.isSome = true) ∧
      ∀ cidr ∈ m.cidr, cidr.Valid P := by
  rw [← protocol_iff, ← validatePorts_iff]
  unfold Api0.validateSgRule MessageV0.Rule.UsesPorts
  split
  · next hprotocol => simp [hprotocol]
  · next hprotocol =>
      split
      · next hports =>
          simp only [Bool.and_eq_true, Bool.or_eq_true, beq_iff_eq, Bool.not_eq_true'] at hports
          simp [hports.1, hports.2]
      · next hports =>
          have huses : (m.protocol = 6 ∨ m.protocol = 17 → Api0.validatePorts m = true) ↔
              True := by
            simpa using hports
          split
          · next hboth =>
              simp only [Bool.and_eq_true] at hboth
              simp [hboth]
          · next hboth =>
              simp only [Bool.and_eq_true] at hboth
              cases hcidr : m.cidr with
              | none => simp only [huses]; simp [hprotocol]
              | some cidr =>
                  rw [hcidr] at hboth
                  have hgroup : ¬m.securityGroup.isSome = true := fun h => hboth ⟨h, rfl⟩
                  simp only [huses]
                  simp [hprotocol, hgroup, validateCidr_iff]

theorem convertRule_iff (hcidr : ∀ cidr ∈ m.cidr, cidr.Valid P) :
    (∃ rule, Api0.convertRule P m = .ok rule) ↔
      (m.securityGroup.isSome = true ∨ m.cidr.isSome = true) := by
  unfold Api0.convertRule
  cases hgroup : m.securityGroup with
  | some group => exact ⟨fun _ => .inl rfl, fun _ => ⟨_, rfl⟩⟩
  | none =>
      cases hm : m.cidr with
      | none =>
          constructor
          · rintro ⟨rule, h⟩
            cases h
          · rintro (h | h) <;> cases h
      | some cidr =>
          refine ⟨fun _ => .inr rfl, fun _ => ?_⟩
          have hvalid := hcidr cidr hm
          obtain ⟨ip, hip⟩ : ∃ ip, Api0.convertIp P cidr.address = .ok ip := by
            unfold Api0.convertIp Ip.set
            cases h4 : P.inetPton4 cidr.address with
            | some a => exact ⟨_, rfl⟩
            | none =>
                cases h6 : P.inetPton6 cidr.address with
                | some a => exact ⟨_, rfl⟩
                | none => simp [MessageV0.Cidr.Valid, h4, h6] at hvalid
          simp only [Api0.convertCidr, hip]
          exact ⟨_, rfl⟩

theorem accepts_rule_iff :
    (Api0.validateSgRule P m = true ∧ ∃ rule, Api0.convertRule P m = .ok rule) ↔
      m.Shaped P ∧ (m.UsesPorts → m.PortsInRange) := by
  rw [validateSgRule_iff]
  constructor
  · rintro ⟨⟨hprotocol, hports, hboth, hcidr⟩, hconvert⟩
    have hsome := (convertRule_iff hcidr).mp hconvert
    refine ⟨⟨hprotocol, fun huses => (hports huses).1, ?_, hcidr⟩, fun huses =>
      (hports huses).2⟩
    tauto
  · rintro ⟨⟨hprotocol, hports, hpeer, hcidr⟩, hrange⟩
    refine ⟨⟨hprotocol, fun huses => ⟨hports huses, hrange huses⟩, ?_, hcidr⟩,
      (convertRule_iff hcidr).mpr ?_⟩ <;> tauto

/-! ## Answers -/

/--
The request is answered with success if the rule is as documented; if it is not, the
answer is an error and neither the model nor the graph has changed.
-/
def RuleAnswered (P : Platform) (ambient : Ambient) (request : Option Request)
    (rule : MessageV0.Rule) (s : Server) : Prop :=
  ∃ res s', Api0.respond P ambient request s = some (res, s') ∧
    (Accepted res ↔ rule.Documented P) ∧
    (¬rule.Documented P → res.status.status = some false ∧ res.status.error.isSome = true ∧
      SameCore s s')

theorem respond_sgRuleAdd {request : Option Request} {req : SgRuleReq}
    (hc : request.bind Api0.command = some (.sgRuleAdd req)) (s : Server) :
    ∃ res s', Api0.respond P ambient request s = some (res, s') := by
  obtain ⟨rq, rfl, hcommand⟩ := Option.bind_eq_some_iff.mp hc
  simp only [Api0.respond, hcommand]
  exact ⟨_, _, rfl⟩

/--
A rule is answered as documented unless it is as documented except for a port that is out
of range, next to a protocol that has no ports.
-/
theorem rule_answered_iff {s : Server} (hs : Reachable P anything s) {ambient : Ambient}
    {request : Option Request} {req : SgRuleReq}
    (hc : request.bind Api0.command = some (.sgRuleAdd req)) :
    RuleAnswered P ambient request req.rule s ↔
      (req.rule.UsesPorts ∨ req.rule.PortsInRange ∨ ¬req.rule.Shaped P) := by
  obtain ⟨res, s', h⟩ : ∃ res s', Api0.respond P ambient request s = some (res, s') :=
    respond_sgRuleAdd hc s
  have haccepted : Accepted res ↔
      req.rule.Shaped P ∧ (req.rule.UsesPorts → req.rule.PortsInRange) :=
    (hs.accepted_iff hc h).trans accepts_rule_iff
  have hrefused : ¬Accepted res → res.status.status = some false ∧
      res.status.error.isSome = true ∧ SameCore s s' := by
    intro hno
    have hfails : ¬Succeeds P ambient s (.sgRuleAdd req) := fun h' =>
      hno ((hs.accepted_iff hc h).mpr h')
    obtain ⟨hstatus, herror⟩ := (hs.answers h).nok fun ⟨c, hc', hsucceeds⟩ => by
      cases hc.symm.trans hc'
      exact hfails hsucceeds
    refine ⟨hstatus, herror, ?_⟩
    cases hs.outcome hc h with
    | nok _ hnok => exact hnok.core
    | read _ hcore => exact hcore
    | act hasks =>
        cases hasks with
        | sgRuleAdd hvalid hconvert => exact absurd ⟨hvalid, _, hconvert⟩ hfails
  constructor
  · rintro ⟨res', s'', h', hiff, -⟩
    cases h.symm.trans h'
    rw [haccepted, MessageV0.Rule.Documented] at hiff
    tauto
  · intro hcondition
    have hiff : Accepted res ↔ req.rule.Documented P := by
      rw [haccepted, MessageV0.Rule.Documented]
      tauto
    exact ⟨res, s', h, hiff, fun hnot => hrefused (hiff.not.mpr hnot)⟩

def webReq : SgRuleReq :=
  ⟨"sg-1", .inbound, 6, some 80, some 80, some ⟨"0.0.0.0", 0⟩, none⟩

theorem rule_answered_iff_web :
    RuleAnswered Libc.platform {} (some { sgRuleAdd := some webReq }) webReq.rule
      (Server.start {} 1 0) :=
  (rule_answered_iff (.start {} 1 0) rfl).mpr (.inl (.inl rfl))

/-- An ICMP rule with a port beyond the range is stored. -/
theorem icmp_port_accepted :
    ¬ ∀ rule : MessageV0.Rule, RuleAnswered Libc.platform {}
      (some { sgRuleAdd := some ⟨"sg-1", rule⟩ }) rule (Server.start {} 1 0) := by
  intro hall
  obtain ⟨res, s', h, hiff, -⟩ :=
    hall ⟨.inbound, 1, some 70000, none, some ⟨"0.0.0.0", 0⟩, none⟩
  have hok : Accepted res := by
    cases h
    rfl
  exact absurd ((hiff.mp hok).2.1 70000 rfl) (by decide)

end Butterfly
