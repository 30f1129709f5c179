import Butterfly.Filter
import Butterfly.Store

/-!
# Well-formedness of the model

What validation and conversion promise about NICs, rules and groups holds of all
that is stored, in every state.  The branches that guard against anything else are
never taken.
-/

namespace Butterfly

open Std Foundation

/-! ## Addresses -/

namespace Ip

def ofV4 (P : Platform) (address : Vector UInt8 4) : Ip :=
  { ip := P.inetNtop4 address, type := .v4
    data := copy4 (Vector.replicate 16 0) address }

def ofV6 (P : Platform) (address : Vector UInt8 16) : Ip :=
  { ip := P.inetNtop6 address, type := .v6, data := address }

inductive Genuine (P : Platform) : Ip → Prop
  | v4 (address) : Genuine P (ofV4 P address)
  | v6 (address) : Genuine P (ofV6 P address)

end Ip

variable {P : Platform} {ambient : Ambient}

theorem convertIp_cases {text : String} {ip : Ip} (h : Api0.convertIp P text = .ok ip) :
    (∃ address, P.inetPton4 text = some address ∧ ip = .ofV4 P address) ∨
      (P.inetPton4 text = none ∧ ∃ address, P.inetPton6 text = some address ∧
        ip = .ofV6 P address) := by
  unfold Api0.convertIp Ip.set at h
  cases h4 : P.inetPton4 text with
  | some address =>
      simp only [h4] at h
      cases h
      exact .inl ⟨address, rfl, rfl⟩
  | none =>
      cases h6 : P.inetPton6 text with
      | some address =>
          simp only [h4, h6] at h
          cases h
          exact .inr ⟨rfl, address, rfl, rfl⟩
      | none =>
          simp only [h4, h6] at h
          cases h

theorem convertIp_genuine {text : String} {ip : Ip} (h : Api0.convertIp P text = .ok ip) :
    ip.Genuine P := by
  rcases convertIp_cases h with ⟨address, -, rfl⟩ | ⟨-, address, -, rfl⟩
  · exact .v4 address
  · exact .v6 address

theorem convertIps_genuine {texts : List String} {acc ips : List Ip}
    (hacc : ∀ ip ∈ acc, ip.Genuine P) (h : Api0.convertIps P texts acc = .ok ips) :
    ∀ ip ∈ ips, ip.Genuine P := by
  induction texts generalizing acc with
  | nil =>
      cases h
      exact hacc
  | cons text rest ih =>
      unfold Api0.convertIps at h
      cases hip : Api0.convertIp P text with
      | error error =>
          rw [hip] at h
          cases h
      | ok ip =>
          rw [hip] at h
          change (if findIp acc ip then _ else _) = _ at h
          split at h
          · exact ih hacc h
          · apply ih _ h
            intro known hknown
            rcases List.mem_append.mp hknown with hknown | hknown
            · exact hacc known hknown
            · cases List.mem_singleton.mp hknown
              exact convertIp_genuine hip

/-! ## Rules -/

inductive Rule.Source (P : Platform) (r : Rule) : Prop
  | group : r.cidr = {} → Rule.Source P r
  | cidr : r.securityGroup = "" → r.cidr.address.Genuine P → Rule.Source P r

structure Rule.WellFormed (P : Platform) (r : Rule) : Prop where
  direction : r.direction = .inbound ∨ r.direction = .outbound
  protocol : -1 ≤ r.protocol.toInt ∧ r.protocol.toInt ≤ 255
  ports : r.protocol = 6 ∨ r.protocol = 17 →
    0 ≤ r.portStart.toInt ∧ r.portStart.toInt ≤ r.portEnd.toInt ∧ r.portEnd.toInt ≤ 65535
  mask4 : r.cidr.address.type = .v4 → r.cidr.maskSize.toNat ≤ 32
  mask6 : r.cidr.address.type = .v6 → r.cidr.maskSize.toNat ≤ 128
  source : r.Source P

theorem toInt_port {n : UInt32} (h : n ≤ 65535) : n.toInt32.toInt = n.toNat := by
  have hn : n.toNat ≤ 65535 := UInt32.le_iff_toNat_le.mp h
  have hbits : n.toInt32.toInt = n.toBitVec.toInt := rfl
  rw [hbits, BitVec.toInt_eq_toNat_cond, UInt32.toNat_toBitVec]
  omega

theorem toInt_protocol {p : Int32} (h : ¬(p < -1 || p > 255) = true) :
    p.toInt16.toInt = p.toInt ∧ -1 ≤ p.toInt ∧ p.toInt ≤ 255 := by
  simp only [Bool.or_eq_true, decide_eq_true_eq, not_or, Int32.not_lt] at h
  have hlow : -1 ≤ p.toInt := Int32.le_iff_toInt_le.mp h.1
  have hhigh : p.toInt ≤ 255 := Int32.le_iff_toInt_le.mp h.2
  refine ⟨?_, hlow, hhigh⟩
  rw [Int32.toInt_toInt16, Int.bmod_eq_of_le] <;> omega

theorem validateSgRule_cases {m : MessageV0.Rule} (h : Api0.validateSgRule P m = true) :
    ¬(m.protocol < -1 || m.protocol > 255) = true ∧
      (m.protocol = 6 ∨ m.protocol = 17 → Api0.validatePorts m = true) ∧
      (∀ cidr ∈ m.cidr, Api0.validateCidr P cidr = true) := by
  unfold Api0.validateSgRule at h
  split at h
  · cases h
  · next hprotocol =>
      split at h
      · cases h
      · next hports =>
          split at h
          · cases h
          · refine ⟨hprotocol, fun hp => ?_, fun cidr hcidr => ?_⟩
            · rcases hp with hp | hp <;> simpa [hp] using hports
            · rw [Option.mem_def.mp hcidr] at h
              exact h

theorem validatePorts_cases {m : MessageV0.Rule} (h : Api0.validatePorts m = true) :
    ∃ first last, m.portStart = some first ∧ m.portEnd = some last ∧ first ≤ 65535 ∧
      last ≤ 65535 ∧ first ≤ last := by
  unfold Api0.validatePorts at h
  split at h
  · next first last hfirst hlast =>
      simp only [Bool.and_eq_true, Bool.not_eq_true', Bool.or_eq_false_iff,
        decide_eq_false_iff_not, UInt32.not_lt] at h
      exact ⟨first, last, hfirst, hlast, h.1.1, h.1.2, h.2⟩
  · cases h

theorem convertCidr_masks {m : MessageV0.Cidr} {cidr : Cidr}
    (hvalid : Api0.validateCidr P m = true) (h : Api0.convertCidr P m = .ok cidr) :
    cidr.address.Genuine P ∧ (cidr.address.type = .v4 → cidr.maskSize.toNat ≤ 32) ∧
      (cidr.address.type = .v6 → cidr.maskSize.toNat ≤ 128) := by
  unfold Api0.convertCidr at h
  cases haddress : Api0.convertIp P m.address with
  | error error =>
      rw [haddress] at h
      cases h
  | ok address =>
      rw [haddress] at h
      cases h
      unfold Api0.validateCidr at hvalid
      refine ⟨convertIp_genuine haddress, ?_⟩
      rcases convertIp_cases haddress with ⟨a, h4, rfl⟩ | ⟨-, a, h6, rfl⟩
      · rw [P.pton6_of_pton4 h4, h4] at hvalid
        refine ⟨fun _ => ?_, fun h => nomatch h⟩
        exact UInt32.le_iff_toNat_le.mp (of_decide_eq_true hvalid)
      · rw [h6] at hvalid
        refine ⟨fun h => (nomatch h), fun _ => ?_⟩
        exact UInt32.le_iff_toNat_le.mp (of_decide_eq_true hvalid)

structure Converted (P : Platform) (m : MessageV0.Rule) (rule : Rule) : Prop where
  direction : rule.direction = match m.direction with
    | .inbound => .inbound
    | .outbound => .outbound
  protocol : rule.protocol = m.protocol.toInt16
  portStart : rule.portStart = (m.portStart.map UInt32.toInt32).getD 0
  portEnd : rule.portEnd = (m.portEnd.map UInt32.toInt32).getD 0
  source : (m.securityGroup = some rule.securityGroup ∧ rule.cidr = {}) ∨
    (m.securityGroup = none ∧ rule.securityGroup = "" ∧
      ∃ cidr, m.cidr = some cidr ∧ Api0.convertCidr P cidr = .ok rule.cidr)

theorem convertRule_cases {m : MessageV0.Rule} {rule : Rule}
    (h : Api0.convertRule P m = .ok rule) : Converted P m rule := by
  unfold Api0.convertRule at h
  cases hgroup : m.securityGroup with
  | some group =>
      rw [hgroup] at h
      cases h
      exact ⟨rfl, rfl, rfl, rfl, .inl ⟨hgroup, rfl⟩⟩
  | none =>
      cases hcidr : m.cidr with
      | none =>
          rw [hgroup, hcidr] at h
          cases h
      | some c =>
          simp only [hgroup, hcidr] at h
          cases hc : Api0.convertCidr P c with
          | error error =>
              rw [hc] at h
              cases h
          | ok cidr =>
              rw [hc] at h
              cases h
              exact ⟨rfl, rfl, rfl, rfl, .inr ⟨hgroup, rfl, c, hcidr, hc⟩⟩

theorem protocol_eq_iff {p : Int32} (hp : ¬(p < -1 || p > 255) = true) (n : Int16)
    (m : Int32) (hnm : n.toInt = m.toInt) : p.toInt16 = n ↔ p = m := by
  rw [← Int16.toInt_inj, ← Int32.toInt_inj, (toInt_protocol hp).1, hnm]

theorem convertRule_wellFormed {m : MessageV0.Rule} {rule : Rule}
    (hvalid : Api0.validateSgRule P m = true) (h : Api0.convertRule P m = .ok rule) :
    rule.WellFormed P := by
  obtain ⟨hprotocol, hports, hcidr⟩ := validateSgRule_cases hvalid
  obtain ⟨hint, hlow, hhigh⟩ := toInt_protocol hprotocol
  obtain ⟨hdirection, hp, hstart, hend, hsource⟩ := convertRule_cases h
  refine ⟨?_, ?_, fun hused => ?_, fun htype => ?_, fun htype => ?_, ?_⟩
  · rw [hdirection]
    cases m.direction
    · exact .inl rfl
    · exact .inr rfl
  · rw [hp, hint]
    exact ⟨hlow, hhigh⟩
  · rw [hp, protocol_eq_iff hprotocol 6 6 rfl, protocol_eq_iff hprotocol 17 17 rfl] at hused
    obtain ⟨first, last, hfirst, hlast, hle, hle', horder⟩ := validatePorts_cases (hports hused)
    rw [hstart, hend, hfirst, hlast, Option.map_some, Option.getD_some, Option.map_some,
      Option.getD_some, toInt_port hle, toInt_port hle']
    have hfirst := UInt32.le_iff_toNat_le.mp horder
    have hlast := UInt32.le_iff_toNat_le.mp hle'
    simp only [UInt32.reduceToNat] at hlast
    omega
  · rcases hsource with ⟨-, hnone⟩ | ⟨-, -, cidr, hmem, hconvert⟩
    · rw [hnone] at htype
      cases htype
    · exact (convertCidr_masks (hcidr cidr hmem) hconvert).2.1 htype
  · rcases hsource with ⟨-, hnone⟩ | ⟨-, -, cidr, hmem, hconvert⟩
    · rw [hnone] at htype
      cases htype
    · exact (convertCidr_masks (hcidr cidr hmem) hconvert).2.2 htype
  · rcases hsource with ⟨-, hnone⟩ | ⟨-, hgroup, cidr, hmem, hconvert⟩
    · exact .group hnone
    · exact .cidr hgroup (convertCidr_masks (hcidr cidr hmem) hconvert).1

/-! ## Groups and NICs -/

structure Sg.WellFormed (P : Platform) (sg : Sg) : Prop where
  members : ∀ ip ∈ sg.members, ip.Genuine P
  rules : ∀ (h : UInt64) (r : Rule), sg.rules[h]? = some r → h = r.hash P ∧ r.WellFormed P

structure Nic.WellFormed (P : Platform) (nic : Nic) : Prop where
  vni : nic.vni.toNat < 2 ^ 24
  groups : nic.securityGroups.Nodup
  ips : ∀ ip ∈ nic.ipList, ip.Genuine P

theorem addNames_nodup {names acc : List String} (h : acc.Nodup) :
    (Api0.addNames names acc).Nodup := by
  induction names generalizing acc with
  | nil => exact h
  | cons name rest ih =>
      unfold Api0.addNames
      split
      · exact ih h
      · next hnew => exact ih (h.append (List.nodup_singleton name) (by simpa using hnew))

theorem convertRules_wellFormed {messages : List MessageV0.Rule}
    {acc rules : ExtTreeMap UInt64 Rule}
    (hvalid : ∀ m ∈ messages, Api0.validateSgRule P m = true)
    (hacc : ∀ (h : UInt64) (r : Rule), acc[h]? = some r → h = r.hash P ∧ r.WellFormed P)
    (hconvert : Api0.convertRules P messages acc = .ok rules) :
    ∀ (h : UInt64) (r : Rule), rules[h]? = some r → h = r.hash P ∧ r.WellFormed P := by
  induction messages generalizing acc with
  | nil =>
      cases hconvert
      exact hacc
  | cons m rest ih =>
      unfold Api0.convertRules at hconvert
      cases hrule : Api0.convertRule P m with
      | error error =>
          rw [hrule] at hconvert
          cases hconvert
      | ok rule =>
          rw [hrule] at hconvert
          refine ih (fun m hm => hvalid m (List.mem_cons_of_mem _ hm)) ?_ hconvert
          intro h r hr
          rw [lookup_insertIfNew] at hr
          split at hr
          · next heq =>
              subst heq
              cases hknown : acc[rule.hash P]? with
              | none =>
                  rw [hknown] at hr
                  cases hr
                  exact ⟨rfl, convertRule_wellFormed (hvalid m List.mem_cons_self) hrule⟩
              | some known =>
                  rw [hknown] at hr
                  cases hr
                  exact hacc _ _ hknown
          · exact hacc h r hr

theorem convertSg_cases {m : MessageV0.Sg} {sg : Sg} (h : Api0.convertSg P m = .ok sg) :
    sg.id = m.id ∧ Api0.convertIps P m.member [] = .ok sg.members ∧
      Api0.convertRules P m.rule ∅ = .ok sg.rules := by
  unfold Api0.convertSg at h
  cases hmembers : Api0.convertIps P m.member [] with
  | error error =>
      rw [hmembers] at h
      cases h
  | ok members =>
      cases hrules : Api0.convertRules P m.rule ∅ with
      | error error =>
          rw [hmembers, hrules] at h
          cases h
      | ok rules =>
          rw [hmembers, hrules] at h
          cases h
          exact ⟨rfl, rfl, rfl⟩

theorem convertSg_wellFormed {m : MessageV0.Sg} {sg : Sg} (hvalid : Api0.validateSg P m = true)
    (h : Api0.convertSg P m = .ok sg) : sg.WellFormed P := by
  obtain ⟨-, hmembers, hrules⟩ := convertSg_cases h
  have hall : ∀ r ∈ m.rule, Api0.validateSgRule P r = true := by
    unfold Api0.validateSg at hvalid
    exact List.all_eq_true.mp (Bool.and_eq_true_iff.mp hvalid).2
  refine ⟨convertIps_genuine (fun _ hip => absurd hip List.not_mem_nil) hmembers,
    convertRules_wellFormed hall (fun h r hr => ?_) hrules⟩
  rw [ExtTreeMap.getElem?_empty] at hr
  cases hr

theorem convertNicType_fields {m : MessageV0.Nic} {nic nic' : Nic}
    (h : Api0.convertNicType P m nic = .ok nic') :
    nic'.id = nic.id ∧ nic'.vni = nic.vni ∧ nic'.ipList = nic.ipList ∧
      nic'.securityGroups = nic.securityGroups := by
  unfold Api0.convertNicType at h
  split at h
  · cases h
    exact ⟨rfl, rfl, rfl, rfl⟩
  · split at h
    · cases h
    · split at h
      · split at h
        · next dip dmac _ _ =>
            cases hdip : Api0.convertIp P dip with
            | error error =>
                rw [hdip] at h
                cases h
            | ok ip =>
                rw [hdip] at h
                cases h
                exact ⟨rfl, rfl, rfl, rfl⟩
        · cases h
      · split at h
        · cases h
          exact ⟨rfl, rfl, rfl, rfl⟩
        · cases h
  · cases h
    exact ⟨rfl, rfl, rfl, rfl⟩

theorem convertNic_fields {trace : Bool} {pid : Nat} {m : MessageV0.Nic} {nic : Nic}
    (h : Api0.convertNic P trace pid m = .ok nic) :
    nic.id = m.id ∧ nic.vni = m.vni ∧ Api0.convertIps P m.ip [] = .ok nic.ipList ∧
      nic.securityGroups = Api0.addNames m.securityGroup [] := by
  unfold Api0.convertNic at h
  cases hips : Api0.convertIps P m.ip [] with
  | error error =>
      rw [hips] at h
      cases h
  | ok ips =>
      rw [hips] at h
      obtain ⟨hid, hvni, hlist, hgroups⟩ := convertNicType_fields h
      exact ⟨hid, hvni, by rw [hlist], hgroups⟩

theorem convertNic_wellFormed {trace : Bool} {pid : Nat} {m : MessageV0.Nic} {nic : Nic}
    (hvalid : Api0.validateNic P m = true) (h : Api0.convertNic P trace pid m = .ok nic) :
    nic.WellFormed P := by
  obtain ⟨-, hvni, hips, hgroups⟩ := convertNic_fields h
  have hsmall : m.vni ≤ 16777215 := by
    unfold Api0.validateNic at hvalid
    exact of_decide_eq_true (Bool.and_eq_true_iff.mp (Bool.and_eq_true_iff.mp hvalid).1).2
  refine ⟨?_, ?_, convertIps_genuine (fun _ hip => absurd hip List.not_mem_nil) hips⟩
  · have hle := UInt32.le_iff_toNat_le.mp hsmall
    simp only [UInt32.reduceToNat] at hle
    rw [hvni]
    omega
  · rw [hgroups]
    exact addNames_nodup List.nodup_nil

theorem convertNicUpdate_fields {pid : Nat} {garbage : Api0.Garbage}
    {m : MessageV0.NicUpdateReq} {update : NicUpdate}
    (h : Api0.convertNicUpdate P pid garbage m = .ok update) :
    update.id = m.id ∧ update.ipOverwrite = !m.ip.isEmpty ∧
      Api0.convertIps P (m.ip.filter (· ≠ "")) [] = .ok update.ip ∧
      update.securityGroups = Api0.addNames (m.securityGroup.filter (· ≠ "")) [] := by
  unfold Api0.convertNicUpdate at h
  cases hips : Api0.convertIps P (m.ip.filter (· ≠ "")) [] with
  | error error =>
      rw [hips] at h
      cases h
  | ok ips =>
      rw [hips] at h
      cases h
      exact ⟨rfl, rfl, rfl, rfl⟩

/-! ## The model -/

structure Model.WellFormed (P : Platform) (m : Model) : Prop where
  nics : ∀ (id : String) (nic : Nic), m.nics[id]? = some nic → nic.WellFormed P
  groups : ∀ (id : String) (sg : Sg), m.securityGroups[id]? = some sg → sg.WellFormed P

def Action.WellFormed (P : Platform) : Action → Prop
  | .nicAdd nic => nic.WellFormed P
  | .nicUpdate update => (∀ ip ∈ update.ip, ip.Genuine P) ∧ update.securityGroups.Nodup
  | .sgAdd sg => sg.WellFormed P
  | .sgRuleAdd _ rule => rule.WellFormed P
  | .sgMemberAdd _ ip => ip.Genuine P
  | _ => True

theorem Asks.wellFormed {s : Server} {c : Api0.Command} {a : Action}
    (h : Asks P ambient s c a) : a.WellFormed P := by
  cases h with
  | nicAdd hvalid hconvert => exact convertNic_wellFormed hvalid hconvert
  | nicUpdate hvalid hconvert =>
      obtain ⟨-, -, hips, hgroups⟩ := convertNicUpdate_fields hconvert
      refine ⟨convertIps_genuine (fun _ hip => absurd hip List.not_mem_nil) hips, ?_⟩
      rw [hgroups]
      exact addNames_nodup List.nodup_nil
  | sgAdd hvalid hconvert => exact convertSg_wellFormed hvalid hconvert
  | sgRuleAdd hvalid hconvert => exact convertRule_wellFormed hvalid hconvert
  | sgMemberAdd hvalid hconvert => exact convertIp_genuine hconvert
  | nicDel id => trivial
  | sgDel id => trivial
  | sgRuleDel hvalid hconvert => trivial
  | sgMemberDel hvalid hconvert => trivial

theorem updatedNic_fields (update : NicUpdate) (old : Nic) :
    (updatedNic update old).vni = old.vni ∧
      (updatedNic update old).ipList = (Api.revise update old).ipList ∧
      (updatedNic update old).securityGroups = (Api.revise update old).securityGroups := by
  unfold updatedNic pathedNic tracedNic
  split <;> split <;> exact ⟨rfl, rfl, rfl⟩

theorem updatedNic_wellFormed {update : NicUpdate} {old : Nic} (hold : old.WellFormed P)
    (hips : ∀ ip ∈ update.ip, ip.Genuine P) (hgroups : update.securityGroups.Nodup) :
    (updatedNic update old).WellFormed P := by
  obtain ⟨hvni, hlist, hnames⟩ := updatedNic_fields update old
  refine ⟨by rw [hvni]; exact hold.vni, ?_, ?_⟩
  · rw [hnames, Api.revise]
    dsimp only
    split
    · exact hgroups
    · exact hold.groups
  · rw [hlist, Api.revise]
    dsimp only
    split
    · exact hips
    · exact hold.ips

theorem nicsAfter_wellFormed {a : Action} {accepted : Bool} {nics : ExtTreeMap String Nic}
    (ha : a.WellFormed P)
    (h : ∀ (id : String) (nic : Nic), nics[id]? = some nic → nic.WellFormed P) :
    ∀ (id : String) (nic : Nic), (nicsAfter P a accepted nics)[id]? = some nic →
      nic.WellFormed P := by
  have herase (key : String) : ∀ (id : String) (nic : Nic), (nics.erase key)[id]? = some nic →
      nic.WellFormed P := by
    intro id nic hnic
    rw [lookup_erase] at hnic
    split at hnic
    · cases hnic
    · exact h id nic hnic
  intro id nic hnic
  unfold nicsAfter at hnic
  split at hnic
  · next new =>
      split at hnic
      · rw [lookup_insertIfNew] at hnic
        split at hnic
        · simp only [lookup_erase, if_true, Option.getD_none, Option.some.injEq] at hnic
          subst hnic
          exact ⟨ha.vni, ha.groups, ha.ips⟩
        · exact herase _ id nic hnic
      · exact herase _ id nic hnic
  · next update =>
      split at hnic
      · exact h id nic hnic
      · next old hold =>
          rw [lookup_insert] at hnic
          split at hnic
          · cases hnic
            exact updatedNic_wellFormed (h _ _ hold) ha.1 ha.2
          · exact h id nic hnic
  · exact herase _ id nic hnic
  · exact h id nic hnic

theorem groupOrNew_wellFormed {groups : ExtTreeMap String Sg}
    (h : ∀ (id : String) (sg : Sg), groups[id]? = some sg → sg.WellFormed P) (id : String) :
    (groupOrNew groups id).WellFormed P := by
  unfold groupOrNew
  cases hsg : groups[id]? with
  | some sg => exact h id sg hsg
  | none =>
      refine ⟨fun ip hip => absurd hip List.not_mem_nil, fun h r hr => ?_⟩
      rw [Option.getD_none, ExtTreeMap.getElem?_empty] at hr
      cases hr

theorem groupsAfter_wellFormed {a : Action} {groups : ExtTreeMap String Sg}
    (ha : a.WellFormed P)
    (h : ∀ (id : String) (sg : Sg), groups[id]? = some sg → sg.WellFormed P) :
    ∀ (id : String) (sg : Sg), (groupsAfter P a groups)[id]? = some sg → sg.WellFormed P := by
  have hinsert {key id : String} {new sg : Sg}
      (hsg : (groups.insert key new)[id]? = some sg) (hnew : new.WellFormed P) :
      sg.WellFormed P := by
    rw [lookup_insert] at hsg
    split at hsg
    · cases hsg
      exact hnew
    · exact h id sg hsg
  intro id sg hsg
  unfold groupsAfter at hsg
  split at hsg
  · split at hsg
    · split at hsg
      · exact h id sg hsg
      · exact hinsert hsg ha
    · exact hinsert hsg ha
  · rw [lookup_erase] at hsg
    split at hsg
    · cases hsg
    · exact h id sg hsg
  · next key rule =>
      have hold := groupOrNew_wellFormed h key
      refine hinsert hsg ⟨hold.members, fun hash r hr => ?_⟩
      rw [lookup_insertIfNew] at hr
      split at hr
      · next heq =>
          subst heq
          cases hknown : (groupOrNew groups key).rules[rule.hash P]? with
          | none =>
              rw [hknown] at hr
              cases hr
              exact ⟨rfl, ha⟩
          | some known =>
              rw [hknown] at hr
              cases hr
              exact hold.rules _ _ hknown
      · exact hold.rules hash r hr
  · next key rule =>
      split at hsg
      · exact h id sg hsg
      · next old hold =>
          have hwf := h key old hold
          refine hinsert hsg ⟨hwf.members, fun hash r hr => ?_⟩
          rw [lookup_erase] at hr
          split at hr
          · cases hr
          · exact hwf.rules hash r hr
  · next key ip =>
      have hold := groupOrNew_wellFormed h key
      refine hinsert hsg ⟨fun known hknown => ?_, hold.rules⟩
      dsimp only at hknown
      split at hknown
      · exact hold.members known hknown
      · rcases List.mem_append.mp hknown with hknown | hknown
        · exact hold.members known hknown
        · cases List.mem_singleton.mp hknown
          exact ha
  · next key ip =>
      split at hsg
      · exact h id sg hsg
      · next old hold =>
          have hwf := h key old hold
          exact hinsert hsg ⟨fun known hknown =>
            hwf.members known (List.mem_of_mem_eraseP hknown), hwf.rules⟩
  · exact h id sg hsg

theorem Transition.wellFormed {s : Server} {request : Option MessageV0.Request} {m' : Model}
    (h : s.model.WellFormed P) (ht : Transition P ambient s request m') : m'.WellFormed P := by
  cases ht with
  | quiet _ => exact h
  | act _ _ hasks hstored =>
      refine ⟨?_, ?_⟩
      · rw [hstored.nics]
        exact nicsAfter_wellFormed hasks.wellFormed h.nics
      · rw [hstored.groups]
        exact groupsAfter_wellFormed hasks.wellFormed h.groups

theorem Reachable.wellFormed {allowed : Allowed} {s : Server} (h : Reachable P allowed s) :
    s.model.WellFormed P := by
  refine h.model_invariant (I := Model.WellFormed P) ⟨fun id nic hnic => ?_, fun id sg hsg => ?_⟩
    fun _ _ hmodel htransition => htransition.wellFormed hmodel
  · rw [ExtTreeMap.getElem?_empty] at hnic
    cases hnic
  · rw [ExtTreeMap.getElem?_empty] at hsg
    cases hsg

/-! ## Branches that are never taken -/

theorem Rule.WellFormed.portsText_ne_none {r : Rule} (h : r.WellFormed P) :
    Graph.portsText r ≠ none := by
  unfold Graph.portsText
  split
  · next hused =>
      obtain ⟨hzero, horder, hmax⟩ := h.ports hused
      have hstart : r.portStart < 65536 := by
        have hbound : (65536 : Int32).toInt = 65536 := rfl
        rw [Int32.lt_iff_toInt_lt, hbound]
        omega
      have hend : r.portEnd < 65536 := by
        have hbound : (65536 : Int32).toInt = 65536 := rfl
        rw [Int32.lt_iff_toInt_lt, hbound]
        omega
      rw [if_pos ⟨hstart, hend⟩]
      split
      · simp
      · next hne =>
          have hlt : r.portStart < r.portEnd := by
            rw [Int32.lt_iff_toInt_lt]
            have hne' : r.portStart.toInt ≠ r.portEnd.toInt := mt Int32.toInt_inj.mp hne
            omega
          rw [if_pos hlt]
          simp
  · simp

theorem Rule.WellFormed.ruleToMessage_isSome {r : Rule} (h : r.WellFormed P) :
    (Api0.ruleToMessage r).isSome := by
  have hports : ((r.protocol == 6 || r.protocol == 17) &&
      (r.portStart == -1 || r.portEnd == -1)) = false := by
    rw [Bool.and_eq_false_iff]
    by_cases hused : r.protocol = 6 ∨ r.protocol = 17
    · obtain ⟨hzero, horder, -⟩ := h.ports hused
      have hminus : (-1 : Int32).toInt = -1 := rfl
      refine .inr ?_
      rw [Bool.or_eq_false_iff, beq_eq_false_iff_ne, beq_eq_false_iff_ne, ne_eq, ne_eq,
        ← Int32.toInt_inj, ← Int32.toInt_inj, hminus]
      omega
    · refine .inl ?_
      simpa [not_or] using hused
  unfold Api0.ruleToMessage
  rcases h.direction with hdirection | hdirection
  · simp [hdirection, hports]
  · simp [hdirection, hports]

theorem mapM_isSome {α β : Type} {f : α → Option β} {l : List α}
    (h : ∀ x ∈ l, (f x).isSome) : (l.mapM f).isSome := by
  induction l with
  | nil => rfl
  | cons x rest ih =>
      obtain ⟨y, hy⟩ := Option.isSome_iff_exists.mp (h x List.mem_cons_self)
      obtain ⟨ys, hys⟩ := Option.isSome_iff_exists.mp
        (ih fun x hx => h x (List.mem_cons_of_mem _ hx))
      rw [List.mapM_cons, hy, hys]
      rfl

theorem Sg.WellFormed.rules_convert {sg : Sg} (h : sg.WellFormed P) :
    ((mapValues sg.rules).mapM Api0.ruleToMessage).isSome := by
  apply mapM_isSome
  intro r hr
  obtain ⟨hash, hlookup⟩ := mem_mapValues.mp hr
  exact (h.rules hash r hlookup).2.ruleToMessage_isSome

theorem Sg.WellFormed.sgToMessage_isSome {sg : Sg} (h : sg.WellFormed P) :
    (Api0.sgToMessage sg).isSome := by
  obtain ⟨rules, hrules⟩ := Option.isSome_iff_exists.mp h.rules_convert
  rw [Api0.sgToMessage, hrules]
  rfl

def InternalError (res : MessageV0.Response) : Prop :=
  ∃ e ∈ res.status.error, e.description = some "Internal error"

theorem not_internalError_ok (res : MessageV0.Response) (h : res.status.error = none) :
    ¬InternalError (Api0.buildOkRes res) := by
  rintro ⟨e, he, -⟩
  rw [Option.mem_def, Api0.buildOkRes, h] at he
  cases he

theorem not_internalError_nok {text : String} {s : Server} (hclean : s.api0Error = "")
    (htext : text ≠ "Internal error") : ¬InternalError (Api0.buildNokText {} text s).1 := by
  rintro ⟨e, he, hdescription⟩
  simp only [Api0.buildNokText, Api0.buildNokRes, hclean, ne_eq, not_true_eq_false, if_false,
    Option.mem_def, Option.some.injEq] at he
  subst he
  exact htext (Option.some.inj hdescription)

structure Converts (s : Server) (id : String) : Prop where
  nicDetails : ¬InternalError (Api0.nicDetails id s).1
  sgDetails : ¬InternalError (Api0.sgDetails id s).1
  sgRuleList : ¬InternalError (Api0.sgRuleList id s).1
  sgMemberList : ¬InternalError (Api0.sgMemberList id s).1

theorem Model.WellFormed.converts {s : Server} (h : s.model.WellFormed P)
    (hclean : s.api0Error = "") (id : String) : Converts s id := by
  refine ⟨?_, ?_, ?_, ?_⟩
  · unfold Api0.nicDetails
    split
    · split
      · apply not_internalError_nok hclean
        intro heq
        have hfirst := congrArg (fun text => text.toList.head?) heq
        simp at hfirst
      · exact not_internalError_ok _ rfl
    · exact not_internalError_ok _ rfl
  · unfold Api0.sgDetails
    split
    · split
      · exact not_internalError_nok hclean (by decide)
      · next sg hsg =>
          obtain ⟨m, hm⟩ := Option.isSome_iff_exists.mp (h.groups id sg hsg).sgToMessage_isSome
          rw [hm]
          exact not_internalError_ok _ rfl
    · have hall : ((mapValues s.model.securityGroups).mapM Api0.sgToMessage).isSome := by
        apply mapM_isSome
        intro sg hsg
        obtain ⟨key, hlookup⟩ := mem_mapValues.mp hsg
        exact (h.groups key sg hlookup).sgToMessage_isSome
      obtain ⟨details, hdetails⟩ := Option.isSome_iff_exists.mp hall
      rw [hdetails]
      exact not_internalError_ok _ rfl
  · unfold Api0.sgRuleList
    split
    · exact not_internalError_nok hclean (by decide)
    · next sg hsg =>
        obtain ⟨rules, hrules⟩ := Option.isSome_iff_exists.mp (h.groups id sg hsg).rules_convert
        rw [hrules]
        exact not_internalError_ok _ rfl
  · unfold Api0.sgMemberList
    split
    · exact not_internalError_nok hclean (by decide)
    · exact not_internalError_ok _ rfl

/--
Every state is well formed: ids, VNIs, groups of NICs, hashes, directions,
protocols, ports and masks.  No rule is refused as a port range, no conversion
back to a message fails and no request on the model answers `Internal error`.
-/
theorem model_well_formed {s : Server} (h : Reachable P anything s) :
    (∀ (id : String) (nic : Nic), s.model.nics[id]? = some nic →
      nic.id = id ∧ nic.vni.toNat < 2 ^ 24 ∧ nic.securityGroups.Nodup) ∧
    (∀ (id : String) (sg : Sg), s.model.securityGroups[id]? = some sg →
      sg.id = id ∧ ∀ (hash : UInt64) (r : Rule), sg.rules[hash]? = some r →
        hash = r.hash P ∧
        (r.direction = .inbound ∨ r.direction = .outbound) ∧
        (-1 ≤ r.protocol.toInt ∧ r.protocol.toInt ≤ 255) ∧
        (r.protocol = 6 ∨ r.protocol = 17 → 0 ≤ r.portStart.toInt ∧
          r.portStart.toInt ≤ r.portEnd.toInt ∧ r.portEnd.toInt ≤ 65535) ∧
        (r.cidr.address.type = .v4 → r.cidr.maskSize.toNat ≤ 32) ∧
        (r.cidr.address.type = .v6 → r.cidr.maskSize.toNat ≤ 128) ∧
        Graph.portsText r ≠ none ∧ (Api0.ruleToMessage r).isSome) ∧
    ∀ id : String, Converts s id := by
  have hmodel := h.wellFormed
  have hagree := h.sound.agree
  refine ⟨fun id nic hnic => ?_, fun id sg hsg => ⟨hagree.sgIds hsg, fun hash r hr => ?_⟩,
    fun id => hmodel.converts h.sound.clean id⟩
  · have hnic' := hmodel.nics id nic hnic
    exact ⟨hagree.nicIds hnic, hnic'.vni, hnic'.groups⟩
  · obtain ⟨hhash, hrule⟩ := (hmodel.groups id sg hsg).rules hash r hr
    exact ⟨hhash, hrule.direction, hrule.protocol, hrule.ports, hrule.mask4, hrule.mask6,
      hrule.portsText_ne_none, hrule.ruleToMessage_isSome⟩

def oneGroup : List MessageV0.Request :=
  [{ sgAdd := some { id := "sg-1", member := ["42.0.0.1"]
                     rule := [{ direction := .inbound, protocol := 6, portStart := some 80
                                portEnd := some 443
                                cidr := some { address := "10.0.0.0", maskSize := 8 } },
                              { direction := .outbound, protocol := -1
                                securityGroup := some "sg-1" }] } }]

theorem model_well_formed_one_group :
    ∃ s, Reachable Libc.platform anything s ∧ s.model.securityGroups.size = 1 ∧
      ∀ id : String, Converts s id := by
  have hserve : ∃ s, serve Libc.platform {} oneGroup (Server.start {} 1 0) = some s ∧
      s.model.securityGroups.size = 1 := by
    refine ⟨(serve Libc.platform {} oneGroup (Server.start {} 1 0)).get ?_, ?_, ?_⟩
    · decide +kernel
    · simp
    · decide +kernel
  obtain ⟨s, hs, hsize⟩ := hserve
  have hreachable : Reachable Libc.platform anything s :=
    (Reachable.start {} 1 0).serve (fun _ _ _ => trivial) hs
  exact ⟨s, hreachable, hsize, (model_well_formed hreachable).2.2⟩

end Butterfly
