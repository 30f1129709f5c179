import Butterfly.Coherence
import Butterfly.Tracing

/-!
# Rules of both directions

`FwAddRule` puts an outbound rule on the east side of a firewall, where it takes
the place of the default filter.  `FwUpdate` joins the rules of both directions
on the west side and brings the default filter back.  As long as no firewall of
a NIC with outbound rules is rebuilt, each rule is on the side of its direction.
-/

namespace Butterfly

open Std Foundation Butterfly.Graph

/-! ## The mark of the default filter -/

def FwView.hasDefault (view : FwView) : Bool := (view.rules .east).any FwRule.stateful

/-- `default_outbound_rule` says whether the default filter is there. -/
structure Marks (s : Server) : Prop where
  mark : ∀ {v id gn}, s.branch v id = some gn →
    gn.defaultOutboundRule = (fwView gn.firewall s.ops).hasDefault
  fresh : ∀ op ∈ s.ops, ∀ b, FirewallOp b op → b.serial < s.nextSerial

section Marks

variable {P : Platform} {ambient : Ambient} {s s' : Server}

theorem Marks.off (h : Marks s) (ht : Tuned OffFirewall s s') (hmarks : SameMarks s s') :
    Marks s' := by
  obtain ⟨ops, hops, hoff⟩ := ht.appends
  constructor
  · intro v id gn' hgn'
    have hmark := hmarks v id
    have hkin := ht.branch v id
    rw [hgn', Option.map_some] at hmark hkin
    obtain ⟨gn, hgn, heq⟩ := Option.map_eq_some_iff.mp hmark.symm
    rw [hgn, Option.map_some, Option.some_inj] at hkin
    have hfw : gn'.kin.firewall = gn.kin.firewall := congrArg GraphNic.firewall hkin
    change gn'.firewall = gn.firewall at hfw
    rw [← heq, h.mark hgn, hfw, hops, fwView_append,
      FwView.after_of_off fun op hop => hoff op hop _]
  · intro op hop b hb
    rw [hops] at hop
    rcases List.mem_append.mp hop with hop | hop
    · exact Nat.lt_of_lt_of_le (h.fresh op hop b hb) ht.serial
    · exact absurd hb (hoff op hop b)

theorem Marks.own (h : Marks s) (hok : GraphOk s) {nic : Nic} {gn : GraphNic}
    (hgn : s.findNic nic = some gn) {f : GraphNic → GraphNic} {ops : List (Op Rpc Direct)}
    (hfw : (f gn).firewall = gn.firewall) (hops : ∀ op ∈ ops, FirewallOp gn.firewall op)
    (hmark : (f gn).defaultOutboundRule =
      ((fwView gn.firewall s.ops).after gn.firewall ops).hasDefault) :
    Marks ((s.updateNic nic f).emits ops) := by
  constructor
  · intro v id gn' hgn'
    rw [Server.emits_branch, Server.branch_updateNic] at hgn'
    rw [Server.emits_ops, Server.updateNic_ops, fwView_append]
    split at hgn'
    · next hnic =>
        obtain ⟨rfl, rfl⟩ := hnic
        rw [← Server.findNic_eq, hgn, Option.map_some, Option.some_inj] at hgn'
        subst hgn'
        rw [hmark, hfw]
    · next hnic =>
        have hne : gn.firewall ≠ gn'.firewall := fun heq =>
          hnic (hok.distinct (Server.findNic_eq nic s ▸ hgn) hgn' heq)
        rw [h.mark hgn', FwView.after_of_off fun op hop hown =>
          hne ((hops op hop).unique hown)]
  · intro op hop b hb
    rcases List.mem_append.mp hop with hop | hop
    · exact h.fresh op hop b hb
    · obtain ⟨n, hn, hbricks, -⟩ := hok.bricks (Server.findNic_eq nic s ▸ hgn)
      rw [hb.unique (hops op hop), hbricks]
      exact hn

theorem Marks.fwUpdate (hacc : AcceptsRules ambient) (h : Marks s) (hok : GraphOk s)
    (nic : Nic) : Marks (Graph.fwUpdate ambient.ok nic s) := by
  rcases fwUpdate_cases ambient.ok nic s with heq | ⟨gn, hstarted, hfilter, hgn⟩
  · rw [heq]
    exact h
  · rw [fwUpdate_eq hstarted hfilter hgn, fwUpdateOps_eq hacc]
    refine h.own hok hgn rfl (fun op hop => ?_) ?_
    · rw [← fwUpdateOps_eq hacc] at hop
      exact fwUpdateOps_firewallOp hop
    · rw [FwView.after_rebuildOps]
      rfl

theorem FwView.after_outbound {ok : PgCall → Bool}
    (hok : ∀ b filter side, ok (.ruleAdd b filter side) = true) {gn : GraphNic} {rule : Rule}
    (hrule : rule.direction = .outbound) (r : String) (view : FwView) :
    view.after gn.firewall (addRuleOps ok gn rule r) =
      ⟨Function.update view.rules .east
        ((if gn.defaultOutboundRule then [] else view.rules .east) ++ [⟨r, false⟩]), true⟩ := by
  cases hmark : gn.defaultOutboundRule with
  | true =>
      simp [addRuleOps, hrule, hok, hmark, ruleSide, FwView.step, Direct.firewall?,
        Direct.edit]
  | false =>
      simp [addRuleOps, hrule, hok, hmark, ruleSide, FwView.step, Direct.firewall?,
        Direct.edit]

theorem Marks.fwAddRule (hacc : AcceptsRules ambient) (h : Marks s) (hok : GraphOk s)
    (nic : Nic) (rule : Rule) : Marks (Graph.fwAddRule ambient.ok nic rule s) := by
  rcases fwAddRule_cases ambient.ok nic rule s with heq | ⟨gn, hstarted, hfilter, hrule, hgn⟩
  · rw [heq]
    exact h
  · rw [fwAddRule_eq hstarted hfilter hrule hgn]
    have hmark := h.mark (Server.findNic_eq nic s ▸ hgn)
    refine h.own hok hgn ?_ (fun op hop => addRuleOps_firewallOp hop) ?_
    · unfold afterRule
      split <;> rfl
    · by_cases hout : rule.direction = .outbound
      · rw [FwView.after_outbound hacc hout]
        cases hflag : gn.defaultOutboundRule with
        | true => simp [afterRule, hout, hflag, setDefaultOutboundRule, FwView.hasDefault]
        | false =>
            rw [hflag] at hmark
            simpa [afterRule, hflag, FwView.hasDefault] using hmark
      · rw [FwView.after_addRuleOps hacc hout]
        simpa [afterRule, hout, FwView.hasDefault] using hmark

/-! ### Every action keeps the marks -/

theorem Marks.same (h : Marks s) (hvnis : s'.vnis = s.vnis) (hops : s'.ops = s.ops)
    (hserial : s'.nextSerial = s.nextSerial) : Marks s' := by
  constructor
  · intro v id gn hgn
    rw [Server.branch, hvnis] at hgn
    rw [hops]
    exact h.mark hgn
  · rw [hops, hserial]
    exact h.fresh

theorem Marks.modifyModel (h : Marks s) (f : Model → Model) : Marks (s.modifyModel f) :=
  h.same rfl rfl rfl

theorem Marks.setSg (h : Marks s) (id : String) (sg : Sg) : Marks (Api.setSg id sg s) :=
  h.same rfl rfl rfl

theorem Marks.view_of_new (h : Marks s) {b : Brick} (hb : s.nextSerial ≤ b.serial) :
    fwView b s.ops = FwView.empty :=
  FwView.after_of_off (fun op hop hown =>
    absurd (h.fresh op hop b hown) (Nat.not_lt.mpr hb)) _

theorem Marks.nicDel (h : Marks s) {nic : Nic} (hdel : NicDeleted nic s s') : Marks s' := by
  obtain ⟨ops, hops, hoff⟩ := hdel.log
  constructor
  · intro v id gn hgn
    rw [hdel.effect.branch] at hgn
    split at hgn
    · cases hgn
    · rw [hops, fwView_append, FwView.after_of_off fun op hop => hoff op hop _]
      exact h.mark hgn
  · intro op hop b hb
    rw [hdel.effect.serial]
    rw [hops] at hop
    rcases List.mem_append.mp hop with hop | hop
    · exact h.fresh op hop b hb
    · exact absurd hb (hoff op hop b)

theorem Marks.removeNic (h : Marks s) (hagree : Agree s) {id : String}
    (hdel : Api.removeNic id s = some s') : Marks s' := by
  unfold Api.removeNic at hdel
  split at hdel
  · cases hdel
    exact h
  · obtain ⟨s₁, hs₁, heq⟩ := Option.bind_eq_some_iff.mp hdel
    cases heq
    exact (h.nicDel (nicDel_cases hagree.graph.started hagree.graph.keyed hs₁)).modifyModel _

theorem Marks.nicAdded (hacc : AcceptsRules ambient) (h : Marks s) {nic : Nic}
    {accepted : Bool} (hok : GraphOk s) (hbranch : s.branch nic.vni nic.id = none)
    (hadded : NicAdded ambient.ok nic s accepted s') : Marks s' := by
  have hentry : (vniEntry nic.vni s).nics[nic.id]? = none := by
    rw [vniEntry_lookup, hbranch]
  have heffect := hadded.effect hok.started hentry
  obtain ⟨ops, hoff, hops⟩ := hadded.log hok.started hentry
  have hadds : ∀ op ∈ addedRules ambient.ok nic accepted s,
      FirewallOp ⟨.firewall, s.nextSerial⟩ op := by
    intro op hop
    unfold addedRules at hop
    split at hop
    · exact fwUpdateOps_firewallOp hop
    · cases hop
  constructor
  · intro v id gn hgn
    rw [heffect.branch hbranch] at hgn
    rw [hops, fwView_append, FwView.after_append, FwView.after_of_off fun op hop => hoff op hop _]
    split at hgn
    · next hnic =>
        cases hgn
        rw [hnic.1]
        cases hfilter : nic.bypassFiltering with
        | true =>
            have hgn : filled nic (newBranch nic s.nextSerial) = newBranch nic s.nextSerial := by
              simp [filled, hfilter]
            rw [hgn, h.view_of_new (Nat.le_refl _), addedRules, if_neg (by simp [hfilter])]
            rfl
        | false =>
            have hgn : filled nic (newBranch nic s.nextSerial) =
                setDefaultOutboundRule true (newBranch nic s.nextSerial) := by
              simp [filled, hfilter]
            have hfw : (setDefaultOutboundRule true (newBranch nic s.nextSerial)).firewall =
                ⟨.firewall, s.nextSerial⟩ := rfl
            rw [hgn, addedRules, if_pos ⟨rfl, hfilter⟩, fwUpdateOps_eq hacc, hfw,
              FwView.after_rebuildOps]
            rfl
    · -- A firewall that exists is older than the new one.
      obtain ⟨n, hn, hfw, -⟩ := hok.bricks hgn
      rw [FwView.after_of_off fun op hop hown => ?_]
      · exact h.mark hgn
      · have heq := hown.unique (hadds op hop)
        rw [hfw, Brick.mk.injEq] at heq
        omega
  · intro op hop b hb
    rw [hops, List.mem_append, List.mem_append] at hop
    rcases hop with hop | hop | hop
    · exact Nat.lt_trans (h.fresh op hop b hb) heffect.serial
    · exact absurd hb (hoff op hop b)
    · rw [hb.unique (hadds op hop)]
      exact heffect.serial

theorem Marks.actionNicAdd (hacc : AcceptsRules ambient) (h : Marks s) (hagree : Agree s)
    {nic : Nic} {added : Option Nic}
    (hadd : Api.actionNicAdd P ambient nic s = some (added, s')) : Marks s' := by
  simp only [Api.actionNicAdd, Option.bind_eq_bind] at hadd
  obtain ⟨s₀, hs₀, hadd⟩ := Option.bind_eq_some_iff.mp hadd
  obtain ⟨⟨result, s₁⟩, hs₁, hadd⟩ := Option.bind_eq_some_iff.mp hadd
  obtain ⟨hagree₀, -, hmodel⟩ := hagree.removeNic hs₀
  have hnew : s₀.model.nics[nic.id]? = none := by
    simp [hmodel]
  have hbranch := hagree₀.branch_eq_none hnew nic.vni
  have hadded : ∃ accepted, NicAdded ambient.ok nic s₀ accepted s₁ := by
    rcases nicAdd_cases hagree₀.graph.started hs₁ with ⟨-, hadded⟩ | ⟨-, hadded⟩
    · exact ⟨false, hadded⟩
    · exact ⟨true, hadded⟩
  obtain ⟨accepted, hadded⟩ := hadded
  have hmarks := (h.removeNic hagree hs₀).nicAdded hacc hagree₀.graph hbranch hadded
  cases result with
  | none =>
      cases hadd
      exact hmarks
  | some nic' =>
      cases hadd
      exact hmarks.modifyModel _

theorem Marks.actionNicUpdate (hacc : AcceptsRules ambient) (h : Marks s) (hagree : Agree s)
    {update : NicUpdate} {error : Option String}
    (hupdate : Api.actionNicUpdate P ambient update s = some (error, s')) : Marks s' := by
  rcases actionNicUpdate_cases hupdate with ⟨-, -, rfl⟩ |
      ⟨-, old, hold, n₂, n₃, s₁, s₂, s₃, hstages⟩
  · exact h
  obtain ⟨hone, htwo, hthree, -⟩ := hstages.holds hagree hold
  have hmarks₁ : Marks s₁ := by
    rw [hstages.antiSpoof]
    refine (h.modifyModel _).off (refreshAntiSpoof_tuned _ _ _ _) (sameMarks_of_vnis ?_)
    unfold Api.refreshAntiSpoof
    split
    · rw [nicConfigAntiSpoof_vnis]
      rfl
    · rfl
  have hmarks₂ : Marks s₂ := by
    have htrace := hstages.trace
    unfold Api.updateTrace at htrace
    split at htrace
    · obtain ⟨t, ht, heq⟩ := Option.bind_eq_some_iff.mp htrace
      cases heq
      exact (hmarks₁.off ((nicConfigPacketTrace_tuned ht).mono fun _ => offFirewall_of_trace)
        (nicConfigPacketTrace_sameMarks hone.findNic ht)).modifyModel _
    · cases htrace
      exact hmarks₁
  have hmarks₃ : Marks s₃ := by
    have hpath := hstages.path
    unfold Api.updateTracePath at hpath
    split at hpath
    · obtain ⟨t, ht, heq⟩ := Option.bind_eq_some_iff.mp hpath
      cases heq
      exact (hmarks₂.off ((nicConfigPacketTracePath_tuned ht).mono fun _ => offFirewall_of_trace)
        (nicConfigPacketTracePath_sameMarks htwo.findNic ht)).modifyModel _
    · cases hpath
      exact hmarks₂
  rw [hstages.firewall]
  unfold Api.refreshFirewall
  split
  · exact hmarks₃.fwUpdate hacc hthree.agree.graph n₃
  · exact hmarks₃

theorem Marks.sgUpdate (hacc : AcceptsRules ambient) (h : Marks s) (hagree : Agree s)
    (sg : Sg) : Marks (Api.sgUpdate ambient sg s) ∧ Agree (Api.sgUpdate ambient sg s) :=
  Api.forGroup_invariant (I := fun t => Marks t ∧ Agree t)
    (fun nic _ _ t ht => ⟨ht.1.fwUpdate hacc ht.2.graph nic,
      ht.2.tuned (fwUpdate_tuned ambient.ok nic t)⟩) ⟨h, hagree⟩

theorem Marks.sgUpdateRuleMembers (hacc : AcceptsRules ambient) (h : Marks s)
    (hagree : Agree s) (sg : Sg) : Marks (Api.sgUpdateRuleMembers ambient sg s) :=
  (Api.sgUpdateRuleMembers_invariant ambient (I := fun t => Marks t ∧ Agree t)
    (fun nic _ _ _ _ _ t ht => ⟨ht.1.fwUpdate hacc ht.2.graph nic,
      ht.2.tuned (fwUpdate_tuned ambient.ok nic t)⟩) ⟨h, hagree⟩).1

theorem Marks.sgUpdateRule (hacc : AcceptsRules ambient) (h : Marks s) (hagree : Agree s)
    (sg : Sg) (rule : Rule) : Marks (Api.sgUpdateRule ambient sg rule s) :=
  (Api.forGroup_invariant (I := fun t => Marks t ∧ Agree t)
    (fun nic _ _ t ht => ⟨ht.1.fwAddRule hacc ht.2.graph nic rule,
      ht.2.tuned (fwAddRule_tuned ambient.ok nic rule t)⟩) ⟨h, hagree⟩).1

theorem Marks.ensureSg (h : Marks s) (id : String) : Marks (Api.ensureSg id s).2 := by
  unfold Api.ensureSg
  split
  · exact h
  · exact h.setSg id { id := id }

theorem Marks.perform (hacc : AcceptsRules ambient) (h : Marks s) (hagree : Agree s)
    {a : Action} {accepted : Bool} (ha : perform P ambient a s = some (accepted, s')) :
    Marks s' := by
  cases a with
  | nicAdd nic =>
      obtain ⟨⟨added, t⟩, hadd, heq⟩ := Option.map_eq_some_iff.mp ha
      cases heq
      exact h.actionNicAdd hacc hagree hadd
  | nicUpdate update =>
      obtain ⟨⟨error, t⟩, hupdate, heq⟩ := Option.map_eq_some_iff.mp ha
      cases heq
      exact h.actionNicUpdate hacc hagree hupdate
  | nicDel id =>
      obtain ⟨t, hdel, heq⟩ := Option.map_eq_some_iff.mp ha
      cases heq
      exact h.removeNic hagree hdel
  | sgAdd sg =>
      cases ha
      unfold Api.actionSgAdd
      have hset := (h.setSg sg.id sg).sgUpdate hacc (hagree.setSg sg rfl) sg
      split
      · split
        · exact h
        · exact hset.1.sgUpdateRuleMembers hacc hset.2 sg
      · exact hset.1.sgUpdateRuleMembers hacc hset.2 sg
  | sgDel id =>
      cases ha
      unfold Api.actionSgDel
      split
      · exact h
      · next sg hsg =>
          have hset := (h.modifyModel _).sgUpdate hacc (hagree.eraseSg id) sg
          exact hset.1.sgUpdateRuleMembers hacc hset.2 sg
  | sgRuleAdd sgId rule =>
      cases ha
      obtain ⟨hensured, -, hid⟩ := hagree.ensureSg sgId
      have hmarks := h.ensureSg sgId
      unfold Api.actionSgRuleAdd
      split
      next sg s₁ heq =>
        rw [heq] at hensured hid hmarks
        split
        · exact hmarks
        · let sg' := { sg with rules := sg.rules.insertIfNew (rule.hash P) rule }
          exact (hmarks.setSg sgId sg').sgUpdateRule hacc (hensured.setSg sg' hid) sg' rule
  | sgRuleDel sgId rule =>
      cases ha
      unfold Api.actionSgRuleDel
      split
      · exact h
      · next sg hsg =>
          split
          · exact h
          · let sg' := { sg with rules := sg.rules.erase (rule.hash P) }
            have hid : sg.id = sgId := hagree.sgIds hsg
            exact ((h.setSg sgId sg').sgUpdate hacc (hagree.setSg sg' hid) sg').1
  | sgMemberAdd sgId ip =>
      cases ha
      obtain ⟨hensured, -, hid⟩ := hagree.ensureSg sgId
      have hmarks := h.ensureSg sgId
      unfold Api.actionSgMemberAdd
      split
      next sg s₁ heq =>
        rw [heq] at hensured hid hmarks
        split
        · exact hmarks
        · let sg' := { sg with members := sg.members ++ [ip] }
          exact (hmarks.setSg sgId sg').sgUpdateRuleMembers hacc (hensured.setSg sg' hid) sg'
  | sgMemberDel sgId ip =>
      cases ha
      unfold Api.actionSgMemberDel
      split
      · exact h
      · next sg hsg =>
          split
          · exact h
          · let sg' := { sg with members := sg.members.eraseP fun known => known.eq ip }
            have hid : sg.id = sgId := hagree.sgIds hsg
            exact (h.setSg sgId sg').sgUpdateRuleMembers hacc (hagree.setSg sg' hid) sg'

theorem Marks.sameCore (h : Marks s) (hcore : SameCore s s') : Marks s' :=
  h.same hcore.vnis hcore.ops hcore.nextSerial

theorem marks_start (config : AppConfig) (pid : Nat) (startDate : UInt64) :
    Marks (Server.start config pid startDate) := by
  constructor
  · intro v id gn hgn
    rw [Server.start_branch] at hgn
    cases hgn
  · intro op hop b hb
    obtain rfl := List.mem_singleton.mp hop
    cases hb

end Marks

end Butterfly
