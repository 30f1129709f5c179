import Butterfly.Coherence
import Butterfly.Responses

/-!
# Requests that come twice

A request that changes something may be repeated.  The second time it gets the
same answer, leaves the model alone and leaves every firewall with the rules it
has, although each action sees to this in a way of its own.
-/

namespace Butterfly

open Std Foundation Butterfly.Graph

/-! ## Members are pairwise different -/

def Apart (ips : List Ip) : Prop := ips.Pairwise fun a b => a.eq b = false

theorem Apart.append {ips : List Ip} {ip : Ip} (h : Apart ips) (hip : findIp ips ip = false) :
    Apart (ips ++ [ip]) := by
  refine List.pairwise_append.mpr ⟨h, List.pairwise_singleton _ _, ?_⟩
  intro known hknown b hb
  obtain rfl := List.mem_singleton.mp hb
  simp only [findIp, List.any_eq_false, Bool.not_eq_true] at hip
  exact hip known hknown

theorem Apart.findIp_eraseP {ips : List Ip} (h : Apart ips) (ip : Ip) :
    findIp (ips.eraseP fun known => known.eq ip) ip = false := by
  induction ips with
  | nil => rfl
  | cons first rest ih =>
      obtain ⟨hfirst, hrest⟩ := List.pairwise_cons.mp h
      rw [List.eraseP_cons]
      cases heq : first.eq ip with
      | false =>
          rw [cond_false, findIp, List.any_cons, heq, Bool.false_or]
          exact ih hrest
      | true =>
          rw [cond_true, findIp, List.any_eq_false]
          intro known hknown
          have hne := hfirst known hknown
          simp only [Ip.eq, decide_eq_true_eq, decide_eq_false_iff_not] at heq hne ⊢
          rwa [heq, eq_comm] at hne

section Members

variable {P : Platform} {ambient : Ambient}

theorem convertIps_apart {texts : List String} {acc ips : List Ip}
    (h : Api0.convertIps P texts acc = .ok ips) (hacc : Apart acc) : Apart ips := by
  induction texts generalizing acc with
  | nil =>
      cases h
      exact hacc
  | cons text rest ih =>
      rw [Api0.convertIps] at h
      cases hip : Api0.convertIp P text with
      | error error =>
          rw [hip] at h
          cases h
      | ok ip =>
          rw [hip] at h
          change (if findIp acc ip = true then Api0.convertIps P rest acc
            else Api0.convertIps P rest (acc ++ [ip])) = _ at h
          split at h
          · exact ih h hacc
          · next hnew => exact ih h (hacc.append (by simpa using hnew))

def GroupsApart (groups : ExtTreeMap String Sg) : Prop :=
  ∀ (id : String) (sg : Sg), groups[id]? = some sg → Apart sg.members

theorem GroupsApart.insert {groups : ExtTreeMap String Sg} (h : GroupsApart groups)
    (id : String) {sg : Sg} (hsg : Apart sg.members) : GroupsApart (groups.insert id sg) := by
  intro id' sg' hsg'
  rw [lookup_insert] at hsg'
  split at hsg'
  · cases hsg'
    exact hsg
  · exact h id' sg' hsg'

theorem GroupsApart.groupOrNew {groups : ExtTreeMap String Sg} (h : GroupsApart groups)
    (id : String) : Apart (groupOrNew groups id).members := by
  unfold Butterfly.groupOrNew
  cases hsg : groups[id]? with
  | none => exact List.Pairwise.nil
  | some sg => exact h id sg hsg

theorem groupsAfter_apart {s : Server} {c : Api0.Command} {a : Action}
    (hasks : Asks P ambient s c a) {groups : ExtTreeMap String Sg} (h : GroupsApart groups) :
    GroupsApart (groupsAfter P a groups) := by
  cases hasks with
  | nicAdd _ _ => exact h
  | nicUpdate _ _ => exact h
  | nicDel id => exact h
  | @sgAdd m sg _ hconvert =>
      obtain ⟨-, hmembers, -⟩ := convertSg_cases hconvert
      have hsg := h.insert sg.id (convertIps_apart hmembers List.Pairwise.nil)
      simp only [groupsAfter]
      split
      · split
        · exact h
        · exact hsg
      · exact hsg
  | sgDel id =>
      intro id' sg hsg
      rw [groupsAfter, lookup_erase] at hsg
      split at hsg
      · cases hsg
      · exact h id' sg hsg
  | @sgRuleAdd req rule _ _ => exact h.insert _ (h.groupOrNew req.sgId)
  | @sgRuleDel req rule _ _ =>
      simp only [groupsAfter]
      split
      · exact h
      · next sg hsg => exact h.insert _ (h _ sg hsg)
  | @sgMemberAdd req ip _ _ =>
      refine h.insert _ ?_
      dsimp only
      split
      · exact h.groupOrNew req.sgId
      · next hnew => exact (h.groupOrNew req.sgId).append (by simpa using hnew)
  | @sgMemberDel req ip _ _ =>
      simp only [groupsAfter]
      split
      · exact h
      · next sg hsg => exact h.insert _ ((h _ sg hsg).sublist (List.eraseP_sublist))

theorem Reachable.groupsApart {allowed : Allowed} {s : Server} (h : Reachable P allowed s) :
    GroupsApart s.model.securityGroups := by
  refine h.model_invariant (I := fun m => GroupsApart m.securityGroups) ?_ ?_
  · intro id sg hsg
    rw [ExtTreeMap.getElem?_empty] at hsg
    cases hsg
  · intro s ambient request m' _ _ hapart htransition
    cases htransition with
    | quiet _ => exact hapart
    | act _ _ hasks hstored =>
        rw [hstored.groups]
        exact groupsAfter_apart hasks hapart

end Members

/-! ## Groups -/

theorem ensureSg_of_lookup {id : String} {sg : Sg} {s : Server}
    (h : s.model.securityGroups[id]? = some sg) : Api.ensureSg id s = (sg, s) := by
  rw [Api.ensureSg, h]

section Groups

variable (P : Platform) (ambient ambient' : Ambient) (s : Server)

include P

theorem actionSgAdd_twice (sg : Sg) :
    Api.actionSgAdd ambient' sg (Api.actionSgAdd ambient sg s) =
      Api.actionSgAdd ambient sg s := by
  obtain ⟨known, hknown, heq⟩ : ∃ known : Sg,
      (Api.actionSgAdd ambient sg s).model.securityGroups[sg.id]? = some known ∧
        sg.eq known = true := by
    rw [(stored_sgAdd (P := P) sg s).groups, groupsAfter]
    split
    · next old hold =>
        split
        · next heq => exact ⟨old, hold, heq⟩
        · exact ⟨sg, by simp, Sg.eq_refl sg⟩
    · exact ⟨sg, by simp, Sg.eq_refl sg⟩
  rw [Api.actionSgAdd, hknown]
  exact if_pos heq

theorem actionSgDel_twice (id : String) :
    Api.actionSgDel ambient' id (Api.actionSgDel ambient id s) =
      Api.actionSgDel ambient id s := by
  have hgone : (Api.actionSgDel ambient id s).model.securityGroups[id]? = none := by
    rw [(stored_sgDel (P := P) id s).groups, groupsAfter, lookup_erase, if_pos rfl]
  rw [Api.actionSgDel, hgone]

theorem actionSgRuleAdd_twice (id : String) (rule : Rule) :
    Api.actionSgRuleAdd P ambient' id rule (Api.actionSgRuleAdd P ambient id rule s) =
      Api.actionSgRuleAdd P ambient id rule s := by
  obtain ⟨sg, hsg, hrule⟩ : ∃ sg : Sg, (Api.actionSgRuleAdd P ambient id rule
      s).model.securityGroups[id]? = some sg ∧ rule.hash P ∈ sg.rules := by
    rw [(stored_sgRuleAdd id rule s).groups]
    exact ⟨_, by rw [groupsAfter, lookup_insert, if_pos rfl], by simp⟩
  rw [Api.actionSgRuleAdd, ensureSg_of_lookup hsg]
  exact if_pos hrule

theorem actionSgRuleDel_twice (id : String) (rule : Rule) :
    Api.actionSgRuleDel P ambient' id rule (Api.actionSgRuleDel P ambient id rule s) =
      Api.actionSgRuleDel P ambient id rule s := by
  cases hsg : s.model.securityGroups[id]? with
  | none => simp only [Api.actionSgRuleDel, hsg]
  | some sg =>
      have hafter : (Api.actionSgRuleDel P ambient id rule s).model.securityGroups[id]? =
          some { sg with rules := sg.rules.erase (rule.hash P) } := by
        rw [(stored_sgRuleDel id rule s).groups, groupsAfter, hsg]
        simp
      rw [Api.actionSgRuleDel, hafter]
      exact if_pos (by simp)

theorem actionSgMemberAdd_twice (id : String) (ip : Ip) :
    Api.actionSgMemberAdd ambient' id ip (Api.actionSgMemberAdd ambient id ip s) =
      Api.actionSgMemberAdd ambient id ip s := by
  obtain ⟨sg, hsg, hip⟩ : ∃ sg : Sg, (Api.actionSgMemberAdd ambient id ip
      s).model.securityGroups[id]? = some sg ∧ findIp sg.members ip = true := by
    rw [(stored_sgMemberAdd (P := P) id ip s).groups]
    refine ⟨_, by rw [groupsAfter, lookup_insert, if_pos rfl], ?_⟩
    dsimp only
    split
    · next hfound => exact hfound
    · simp [findIp]
  rw [Api.actionSgMemberAdd, ensureSg_of_lookup hsg]
  exact if_pos hip

theorem actionSgMemberDel_twice {s : Server} (h : GroupsApart s.model.securityGroups)
    (id : String) (ip : Ip) :
    Api.actionSgMemberDel ambient' id ip (Api.actionSgMemberDel ambient id ip s) =
      Api.actionSgMemberDel ambient id ip s := by
  cases hsg : s.model.securityGroups[id]? with
  | none => simp only [Api.actionSgMemberDel, hsg]
  | some sg =>
      have hafter : (Api.actionSgMemberDel ambient id ip s).model.securityGroups[id]? =
          some { sg with members := sg.members.eraseP fun known => known.eq ip } := by
        rw [(stored_sgMemberDel (P := P) id ip s).groups, groupsAfter, hsg]
        simp
      rw [Api.actionSgMemberDel, hafter]
      exact if_pos (by simp [(h id sg hsg).findIp_eraseP ip])

end Groups

/-! ## NICs -/

section Nics

variable {P : Platform} {ambient ambient' : Ambient} {s s₁ : Server}

structure Again (s s' : Server) : Prop where
  model : s'.model = s.model
  views : ∀ {id : String} {nic}, s.model.nics[id]? = some nic →
    nic.bypassFiltering = false → viewOf nic s' = viewOf nic s

theorem Again.refl (s : Server) : Again s s := ⟨rfl, fun _ _ => rfl⟩

theorem removeNic_twice (h : Agree s) {id : String} (hdel : Api.removeNic id s = some s₁) :
    Api.removeNic id s₁ = some s₁ := by
  obtain ⟨-, -, hmodel⟩ := h.removeNic hdel
  have hgone : s₁.model.nics[id]? = none := by
    simp [hmodel]
  rw [Api.removeNic, hgone]

/-! ### Updates -/

structure Satisfied (update : NicUpdate) (n : Nic) : Prop where
  ip : Api.ipChanged update n = false
  groups : Api.groupsChanged update n = false
  antiSpoof : Api.antiSpoofChanged update n = false
  trace : update.hasPacketTrace = true → n.packetTrace = update.packetTrace
  path : n.packetTrace = true → update.packetTracePath ≠ "" →
    n.packetTracePath = update.packetTracePath

theorem updatedNic_satisfied (update : NicUpdate) (old : Nic) :
    Satisfied update (updatedNic update old) := by
  obtain ⟨-, hips, hgroups⟩ := updatedNic_fields update old
  have hspoof : (updatedNic update old).ipAntiSpoof = (Api.revise update old).ipAntiSpoof := by
    unfold updatedNic pathedNic tracedNic
    split <;> split <;> rfl
  refine ⟨?_, ?_, ?_, ?_, ?_⟩
  · rw [Api.ipChanged, hips, Api.revise]
    cases hchanged : Api.ipChanged update old with
    | true => simp
    | false => simpa [Api.ipChanged] using hchanged
  · rw [Api.groupsChanged, hgroups, Api.revise]
    cases hchanged : Api.groupsChanged update old with
    | true => simp
    | false => simpa [Api.groupsChanged] using hchanged
  · rw [Api.antiSpoofChanged, hspoof, Api.revise]
    cases hchanged : Api.antiSpoofChanged update old with
    | true => simp
    | false => simpa [Api.antiSpoofChanged] using hchanged
  · intro hset
    simp only [updatedNic, pathedNic, tracedNic, hset, if_true]
    split <;> rfl
  · intro htrace hpath
    unfold updatedNic pathedNic at htrace ⊢
    split
    · rfl
    · next hnot =>
        rw [if_neg hnot] at htrace
        exact absurd ⟨htrace, hpath⟩ hnot

theorem actionNicUpdate_satisfied (P : Platform) (ambient : Ambient) {update : NicUpdate}
    {n : Nic} (hn : s.model.nics[update.id]? = some n) (h : Satisfied update n) :
    ∃ s', Api.actionNicUpdate P ambient update s = some (none, s') ∧
      (s' = s ∨ s' = updatePoll s) := by
  have hset : ∀ t : Server, t.model = s.model → Api.setNic update.id n t = t := by
    intro t ht
    rw [Api.setNic, Server.modifyModel, ht, insert_of_lookup hn, ← ht]
  have hrevise : Api.revise update n = n := by
    simp [Api.revise, h.ip, h.groups, h.antiSpoof]
  have hspoof : Api.refreshAntiSpoof P ambient update n n s = s := by
    simp [Api.refreshAntiSpoof, h.ip, h.antiSpoof]
  obtain ⟨t, htrace, ht⟩ : ∃ t, Api.updateTrace ambient update n s = some (n, t) ∧
      (t = s ∨ t = updatePoll s) := by
    unfold Api.updateTrace
    split
    · next hhas =>
        have hsame := h.trace hhas
        have hconfig : nicConfigPacketTrace ambient.ok n update.packetTrace s =
            some (updatePoll s) := by
          cases hvalue : update.packetTrace with
          | true => simp [nicConfigPacketTrace, enablePacketTrace, hsame, hvalue]
          | false => simp [nicConfigPacketTrace, disablePacketTrace, hsame, hvalue]
        have hnic : { n with packetTrace := update.packetTrace } = n := by
          rw [← hsame]
        refine ⟨updatePoll s, ?_, .inr rfl⟩
        simp only [hconfig, hnic, Option.bind_eq_bind, Option.bind_some, hset (updatePoll s) rfl]
    · exact ⟨s, rfl, .inl rfl⟩
  have hmodel : t.model = s.model := by
    rcases ht with rfl | rfl <;> rfl
  have hpath : Api.updateTracePath ambient update n t = some (n, t) := by
    unfold Api.updateTracePath
    split
    · next hboth =>
        have hsame := h.path hboth.1 hboth.2
        have hnic : { n with packetTracePath := update.packetTracePath } = n := by
          rw [← hsame]
        simp [nicConfigPacketTracePath, hsame, hnic, hset t hmodel]
    · rfl
  refine ⟨t, ?_, ht⟩
  simp only [Api.actionNicUpdate, hn, hrevise, hset s rfl, hspoof, htrace, hpath,
    Option.bind_eq_bind, Option.bind_some]
  simp [Api.refreshFirewall, h.ip, h.groups]

theorem again_updatePoll (s : Server) : Again s (updatePoll s) := by
  refine ⟨rfl, fun {_} {nic} _ _ => ?_⟩
  refine viewOf_eq (p := OffFirewall) rfl ⟨[.push (.updatePoll (pollables s.vnis))], rfl, ?_⟩
    fun _ _ _ hop => hop _
  simp

/-! ### Insertion -/

theorem nicAdd_accepts (P : Platform) {ok : PgCall → Bool} (hok : ∀ call, ok call = true)
    {nic : Nic} (hbench : ¬(nic.type = .bench ∧ nic.ipList = [])) (h : GraphOk s) :
    ∃ s', nicAdd P ok nic s = some (some { nic with path := nicPath P nic }, s') := by
  obtain ⟨gn, s₁, hcreate⟩ : ∃ gn s₁,
      createBranch P ok nic (openVni nic.vni s) = some (some gn, s₁) := by
    unfold createBranch
    simp only [hok, Bool.not_true, Bool.false_eq_true, and_false, if_false, if_neg hbench]
    split
    · split <;> exact ⟨_, _, rfl⟩
    · exact ⟨_, _, rfl⟩
  obtain ⟨s₂, hlink⟩ : ∃ s₂, linkBranch ok nic gn s₁ = some (true, s₂) := by
    rcases createBranch_cases hcreate with ⟨hnone, -⟩ | ⟨-, hcreated⟩
    · cases hnone
    simp only [linkBranch, hcreated.lookup, Option.bind_eq_bind, Option.bind_some, hok,
      Bool.not_true, Bool.false_eq_true, if_false]
    split
    · exact ⟨_, rfl⟩
    split
    · next hsize =>
        obtain ⟨_, gn₁, hvalues, -⟩ := exists_of_size_one hsize
        rw [hvalues]
        exact ⟨_, rfl⟩
    · next hzero hone =>
        have hentry := vniEntry_of_size (s := s) (v := nic.vni) hzero
        obtain ⟨sw, hsw⟩ := Option.isSome_iff_exists.mp (h.switched hentry (by omega))
        rw [hsw]
        exact ⟨_, rfl⟩
  simp only [nicAdd, h.started, hcreate, hlink, Option.bind_eq_bind, Option.bind_some,
    Bool.not_true, Bool.false_eq_true, if_false]
  exact ⟨_, rfl⟩

theorem creates_of_ok {ok : PgCall → Bool} (hok : ∀ call, ok call = true) (nic : Nic)
    (serial : Nat) : creates ok nic serial = true := by
  simp [creates, hok]

theorem Graph.NicAdded.accepted {ok : PgCall → Bool} (hok : ∀ call, ok call = true) {nic : Nic}
    {accepted : Bool} (h : NicAdded ok nic s accepted s₁) :
    accepted = true ∧ ¬(nic.type = .bench ∧ nic.ipList = []) := by
  cases h with
  | abandoned h =>
      rw [Abandoned, creates_of_ok hok] at h
      cases h.1
  | first hcreated _ => exact ⟨rfl, hcreated.2.1⟩
  | noSwitch _ _ hfail => simp [hok] at hfail
  | stuck _ _ _ _ hfail => simp [hok] at hfail
  | second hcreated _ _ _ _ => exact ⟨rfl, hcreated.2.1⟩
  | further hcreated _ _ => exact ⟨rfl, hcreated.2.1⟩

theorem actionNicAdd_accepted (hok : ∀ call, ambient.ok call = true) (h : Agree s) {nic : Nic}
    {added : Option Nic} (hadd : Api.actionNicAdd P ambient nic s = some (added, s₁)) :
    added = some { nic with path := nicPath P nic } ∧
      ¬(nic.type = .bench ∧ nic.ipList = []) := by
  simp only [Api.actionNicAdd, Option.bind_eq_bind] at hadd
  obtain ⟨s₀, hs₀, hadd⟩ := Option.bind_eq_some_iff.mp hadd
  obtain ⟨⟨result, t⟩, ht, hadd⟩ := Option.bind_eq_some_iff.mp hadd
  obtain ⟨hagree, -, -⟩ := h.removeNic hs₀
  rcases nicAdd_cases hagree.graph.started ht with ⟨rfl, hadded⟩ | ⟨rfl, hadded⟩
  · exact absurd (hadded.accepted hok).1 (by simp)
  · cases hadd
    exact ⟨rfl, (hadded.accepted hok).2⟩

theorem actionNicAdd_accepts (P : Platform) (hok : ∀ call, ambient.ok call = true) (h : Agree s)
    {nic : Nic} (hbench : ¬(nic.type = .bench ∧ nic.ipList = [])) :
    ∃ s', Api.actionNicAdd P ambient nic s =
      some (some { nic with path := nicPath P nic }, s') := by
  obtain ⟨s₀, hs₀⟩ := Option.isSome_iff_exists.mp (removeNic_isSome h nic.id)
  obtain ⟨hagree, -, -⟩ := h.removeNic hs₀
  obtain ⟨t, ht⟩ := nicAdd_accepts P hok hbench hagree.graph
  simp only [Api.actionNicAdd, hs₀, ht, Option.bind_eq_bind, Option.bind_some]
  exact ⟨_, rfl⟩

theorem insertIfNew_erase_twice {nics : ExtTreeMap String Nic} {id : String} (nic : Nic) :
    (((nics.erase id).insertIfNew id nic).erase id).insertIfNew id nic =
      (nics.erase id).insertIfNew id nic := by
  apply ExtTreeMap.ext_getElem?
  intro a
  simp only [lookup_insertIfNew, lookup_erase]
  split
  · simp
  · rfl

theorem Model.eq_of_maps {m m' : Model} (hgroups : m.securityGroups = m'.securityGroups)
    (hnics : m.nics = m'.nics) : m = m' := by
  cases m
  cases m'
  cases hgroups
  cases hnics
  rfl

theorem actionNicAdd_twice (hok : ∀ call, ambient.ok call = true)
    (hok' : ∀ call, ambient'.ok call = true) (h : Agree s) {nic : Nic} {added : Option Nic}
    (hadd : Api.actionNicAdd P ambient nic s = some (added, s₁)) :
    ∃ s₂, Api.actionNicAdd P ambient' nic s₁ = some (added, s₂) ∧ Again s₁ s₂ := by
  obtain ⟨rfl, hbench⟩ := actionNicAdd_accepted hok h hadd
  have hagree := (h.actionNicAdd hadd).1
  obtain ⟨s₂, hadd'⟩ := actionNicAdd_accepts P hok' hagree hbench
  have hfirst := stored_nicAdd h hadd
  have hsecond := stored_nicAdd hagree hadd'
  have hmodel : s₂.model = s₁.model := by
    refine Model.eq_of_maps hsecond.groups ?_
    rw [hsecond.nics, hfirst.nics]
    exact insertIfNew_erase_twice _
  refine ⟨s₂, hadd', hmodel, fun {id} {other} hother hfilter => ?_⟩
  obtain ⟨-, -, hown⟩ := actionNicAdd_views h hadd
  obtain ⟨-, hothers, hown'⟩ := actionNicAdd_views hagree hadd'
  have hother' := hother
  rw [← hmodel] at hother'
  by_cases hid : id = nic.id
  · subst hid
    have hview := hown (fun _ _ _ => hok _) hother hfilter
    have hview' := hown' (fun _ _ _ => hok' _) hother' hfilter
    rw [Rebuilt, hmodel] at hview'
    exact hview'.trans hview.symm
  · exact (hothers hid hother').2

end Nics

/-! ## Every firewall is reloaded -/

section Reloaded

variable {P : Platform} {ambient : Ambient} {s s' : Server}

def Reloaded (nic : Nic) (s : Server) : Prop :=
  ∃ view, viewOf nic s = some view ∧ view.reloaded = true

def AllReloaded (s : Server) : Prop :=
  ∀ (id : String) (nic : Nic), s.model.nics[id]? = some nic → nic.bypassFiltering = false →
    Reloaded nic s

theorem AllReloaded.settles (h : AllReloaded s) (hs : Settles s s') : AllReloaded s' := by
  intro id nic hnic hfilter
  rcases hs.nics hnic hfilter with hrebuilt | hkept
  · exact ⟨_, hrebuilt, rfl⟩
  · obtain ⟨old, hold, hview, hsame⟩ := hkept.old
    obtain ⟨view, hview', hreloaded⟩ := h id old hold (hsame.bypass.symm.trans hfilter)
    exact ⟨view, hview.trans hview', hreloaded⟩

theorem FwView.after_addRuleOps_reloaded {ok : PgCall → Bool}
    (hok : ∀ b filter side, ok (.ruleAdd b filter side) = true) (gn : GraphNic) (rule : Rule)
    (r : String) (view : FwView) :
    (view.after gn.firewall (addRuleOps ok gn rule r)).reloaded = true := by
  rw [addRuleOps, hok, FwView.after_append]
  simp [FwView.step]

theorem fwAddRule_reloaded (hok : AcceptsRules ambient) {nic : Nic} {rule : Rule}
    (h : Reloaded nic s) : Reloaded nic (fwAddRule ambient.ok nic rule s) := by
  rcases fwAddRule_cases ambient.ok nic rule s with heq | ⟨gn, hstarted, hfilter, hrule, hgn⟩
  · rw [heq]
    exact h
  · rw [fwAddRule_eq hstarted hfilter hrule hgn]
    have hfw : (afterRule gn rule gn).firewall = gn.firewall := by
      unfold afterRule
      split <;> rfl
    refine ⟨_, ?_, FwView.after_addRuleOps_reloaded hok gn rule
      (fwBuildRule s.model.securityGroups rule) (fwView gn.firewall s.ops)⟩
    rw [viewOf, Server.emits_findNic, Server.findNic_eq, Server.branch_updateNic,
      if_pos ⟨rfl, rfl⟩, ← Server.findNic_eq, hgn, Option.map_some, Option.map_some, hfw,
      Server.emits_ops, Server.updateNic_ops, fwView_append]

theorem sgUpdateRule_reloaded (hok : AcceptsRules ambient) (hagree : Agree s) (sg : Sg)
    (rule : Rule) (h : AllReloaded s) : AllReloaded (Api.sgUpdateRule ambient sg rule s) := by
  have hrefresher : Refresher s (fun nic => fwAddRule ambient.ok nic rule) Reloaded := by
    refine ⟨fun nic t => fwAddRule_tunedOwn ambient.ok nic rule t, ?_, ?_⟩
    · intro id nic t _ hmodel hnic hfilter hbefore
      refine fwAddRule_reloaded hok ?_
      rcases hbefore with hsame | hdone
      · obtain ⟨view, hview, hreloaded⟩ := h id nic (by rwa [hmodel] at hnic) hfilter
        exact ⟨view, hsame.trans hview, hreloaded⟩
      · exact hdone
    · rintro nic t t' ⟨view, hview, hreloaded⟩ hsame -
      exact ⟨view, hsame.trans hview, hreloaded⟩
  obtain ⟨hloop, -⟩ := forGroup_spec hrefresher hagree sg.id
  intro id nic hnic hfilter
  rcases hloop.views hnic hfilter with hsame | ⟨-, hdone⟩
  · have hmodel : (Api.sgUpdateRule ambient sg rule s).model = s.model := hloop.model
    rw [hmodel] at hnic
    obtain ⟨view, hview, hreloaded⟩ := h id nic hnic hfilter
    exact ⟨view, hsame.trans hview, hreloaded⟩
  · exact hdone

theorem AllReloaded.perform (hok : AcceptsRules ambient) (hagree : Agree s) (h : AllReloaded s)
    {a : Action} {accepted : Bool} (ha : perform P ambient a s = some (accepted, s')) :
    AllReloaded s' := by
  by_cases hadds : a.AddsRule
  · cases a with
    | sgRuleAdd sgId rule =>
        cases ha
        obtain ⟨hagree', -, hid⟩ := hagree.ensureSg sgId
        have hensured := h.settles (settles_ensureSg sgId (.refl (Api.ensureSg sgId s).2))
        unfold Api.actionSgRuleAdd
        split
        next sg t heq =>
          rw [heq] at hagree' hid hensured
          split
          · exact hensured
          · exact sgUpdateRule_reloaded hok (hagree'.setSg (withRule P rule sg) hid) _ rule
              hensured
    | _ => exact hadds.elim
  · exact h.settles (perform_settles hok hagree ha hadds)

theorem AllReloaded.sameCore (h : AllReloaded s) (hcore : SameCore s s') : AllReloaded s' := by
  have hview : ∀ nic, viewOf nic s' = viewOf nic s := by
    intro nic
    simp only [viewOf, Server.findNic, hcore.vnis, hcore.ops]
  intro id nic hnic hfilter
  rw [hcore.model] at hnic
  obtain ⟨view, hv, hreloaded⟩ := h id nic hnic hfilter
  exact ⟨view, (hview nic).trans hv, hreloaded⟩

def rulesAccepted : Allowed := fun _ ambient _ => AcceptsRules ambient

theorem AllReloaded.respond (h : AllReloaded s) (hs : Sound s) (hok : AcceptsRules ambient)
    {request : Option MessageV0.Request} {response : MessageV0.Response}
    (hrespond : Api0.respond P ambient request s = some (response, s')) : AllReloaded s' := by
  rcases respond_outcome hs.agree hs.clean hrespond with hnok | ⟨rq, c, rfl, hc, houtcome⟩
  · exact h.sameCore hnok.core
  · cases houtcome with
    | nok _ hnok => exact h.sameCore hnok.core
    | read _ hcore _ _ => exact h.sameCore hcore
    | act _ hperform hcore _ _ => exact (h.perform hok hs.agree hperform).sameCore hcore

theorem Reachable.allReloaded (h : Reachable P rulesAccepted s) : AllReloaded s := by
  induction h with
  | start config pid startDate =>
      intro id nic hnic
      rw [Server.start_nics] at hnic
      cases hnic
  | count _ ih => exact ih.sameCore ⟨rfl, rfl, rfl, rfl, rfl, rfl, rfl⟩
  | respond hs hallowed hrespond ih => exact ih.respond hs.sound hallowed hrespond

end Reloaded

/-! ## Requests -/

section Requests

variable {P : Platform} {ambient ambient' : Ambient} {s s₁ : Server}

def Api0.Command.Mutates : Api0.Command → Prop
  | .nicAdd _ | .nicUpdate _ | .nicDel _ | .sgAdd _ | .sgDel _ | .sgRuleAdd _
  | .sgRuleDel _ | .sgMemberAdd _ | .sgMemberDel _ => True
  | _ => False

/-- A `nic_update` with a path for the trace says whether to trace, too. -/
def Api0.Command.CarriesTrace : Api0.Command → Prop
  | .nicUpdate req => req.packetTracePath.isSome → req.packetTrace.isSome
  | _ => True

structure SameUpdate (update update' : NicUpdate) : Prop where
  id : update'.id = update.id
  revise : ∀ n, Api.revise update' n = Api.revise update n
  traced : ∀ n, tracedNic update' n = tracedNic update n
  path : update'.packetTracePath = update.packetTracePath

theorem SameUpdate.updatedNic {update update' : NicUpdate} (h : SameUpdate update update')
    (old : Nic) : updatedNic update' old = updatedNic update old := by
  simp only [Butterfly.updatedNic, pathedNic, h.revise, h.traced, h.path]

theorem convertNicUpdate_garbage {pid : Nat} {garbage : Api0.Garbage}
    (garbage' : Api0.Garbage) {req : MessageV0.NicUpdateReq} {update : NicUpdate}
    (hcarries : req.packetTracePath.isSome → req.packetTrace.isSome)
    (h : Api0.convertNicUpdate P pid garbage req = .ok update) :
    ∃ update', Api0.convertNicUpdate P pid garbage' req = .ok update' ∧
      SameUpdate update update' := by
  unfold Api0.convertNicUpdate at h ⊢
  cases hips : Api0.convertIps P (req.ip.filter (· ≠ "")) [] with
  | error error =>
      rw [hips] at h
      cases h
  | ok ips =>
      rw [hips] at h
      cases h
      refine ⟨_, rfl, rfl, fun n => ?_, fun n => ?_, ?_⟩
      · cases hspoof : req.ipAntiSpoof <;>
          simp [Api.revise, Api.ipChanged, Api.groupsChanged, Api.antiSpoofChanged]
      · cases htrace : req.packetTrace <;> simp [tracedNic]
      · cases htrace : req.packetTrace with
        | some value => rfl
        | none =>
            have hpath : req.packetTracePath = none := by
              rw [← Option.not_isSome_iff_eq_none]
              intro hsome
              simp [htrace] at hcarries
              simp [hcarries] at hsome
            simp [hpath, Api0.nonEmpty]

theorem buildNokText_clean (text : String) (h : s.api0Error = "") :
    (Api0.buildNokText {} text s).2 = s := by
  have hsame : { s with api0Error := "" } = s := by
    rw [← h]
  simp [Api0.buildNokText, Api0.buildNokRes, hsame]

theorem internalError_clean (error : Api0.ConvertError) (h : s.api0Error = "") :
    (Api0.internalError error s).2 = s := by
  have hsame : { s with api0Error := "" } = s := by
    rw [← h]
  simp [Api0.internalError, Api0.buildNokText, Api0.buildNokRes, hsame]

theorem buildNokError_clean (text : String) (h : s.api0Error = "") :
    (Api0.buildNokError {} text s).2 = s := by
  simp [Api0.buildNokError, Api0.buildNokRes, h]

theorem nicAdd_twice (hok : ∀ call, ambient.ok call = true)
    (hok' : ∀ call, ambient'.ok call = true) (hs : Sound s) {n : MessageV0.Nic}
    {res : MessageV0.Response} (hfirst : Api0.nicAdd P ambient n s = some (res, s₁)) :
    ∃ s₂, Api0.nicAdd P ambient' n s₁ = some (res, s₂) ∧ Again s₁ s₂ := by
  unfold Api0.nicAdd at hfirst
  split at hfirst
  · next hinvalid =>
      obtain rfl : s₁ = s := by
        cases hfirst
        exact buildNokText_clean "Bad NIC format" hs.clean
      refine ⟨s₁, ?_, .refl s₁⟩
      rw [Api0.nicAdd, if_pos hinvalid]
      exact hfirst
  · next hvalid =>
      split at hfirst
      · next error herror =>
          obtain rfl : s₁ = s := by
            cases hfirst
            exact internalError_clean error hs.clean
          refine ⟨s₁, ?_, .refl s₁⟩
          simp only [Api0.nicAdd, if_neg hvalid, herror]
          exact hfirst
      · next nic hnic =>
          obtain ⟨⟨added, t⟩, hadd, hres⟩ := Option.bind_eq_some_iff.mp hfirst
          obtain ⟨rfl, -⟩ := actionNicAdd_accepted hok hs.agree hadd
          obtain ⟨-, hframe⟩ := hs.agree.actionNicAdd hadd
          obtain ⟨s₂, hadd', hagain⟩ := actionNicAdd_twice hok hok' hs.agree hadd
          cases hres
          refine ⟨s₂, ?_, hagain⟩
          simp only [Api0.nicAdd, if_neg hvalid, hframe.config, hframe.pid, hnic, hadd',
            Option.bind_eq_bind, Option.bind_some]

theorem nicUpdate_twice (hs : Sound s) {n : MessageV0.NicUpdateReq}
    (hcarries : n.packetTracePath.isSome → n.packetTrace.isSome) {res : MessageV0.Response}
    (hfirst : Api0.nicUpdate P ambient n s = some (res, s₁)) :
    ∃ s₂, Api0.nicUpdate P ambient' n s₁ = some (res, s₂) ∧ Again s₁ s₂ := by
  unfold Api0.nicUpdate at hfirst
  split at hfirst
  · next hinvalid =>
      obtain rfl : s₁ = s := by
        cases hfirst
        exact buildNokText_clean "Bad Nic update format" hs.clean
      refine ⟨s₁, ?_, .refl s₁⟩
      rw [Api0.nicUpdate, if_pos hinvalid]
      exact hfirst
  · next hvalid =>
      split at hfirst
      · next error herror =>
          obtain rfl : s₁ = s := by
            cases hfirst
            exact internalError_clean error hs.clean
          refine ⟨s₁, ?_, .refl s₁⟩
          have herror' : Api0.convertNicUpdate P s₁.pid ambient'.garbage n = .error error := by
            unfold Api0.convertNicUpdate at herror ⊢
            cases hips : Api0.convertIps P (n.ip.filter (· ≠ "")) [] with
            | error error' =>
                rw [hips] at herror
                cases herror
                rfl
            | ok ips =>
                rw [hips] at herror
                cases herror
          simp only [Api0.nicUpdate, if_neg hvalid, herror']
          exact hfirst
      · next update hupdate =>
          obtain ⟨⟨error, t⟩, hact, hres⟩ := Option.bind_eq_some_iff.mp hfirst
          obtain ⟨update', hupdate', hsame⟩ :=
            convertNicUpdate_garbage ambient'.garbage hcarries hupdate
          obtain ⟨-, hframe⟩ := hs.agree.actionNicUpdate hact
          rcases actionNicUpdate_cases hact with ⟨hnone, -, -⟩ | ⟨rfl, old, hold, -⟩
          · -- There is no such NIC, and there still is none.
            simp only [Api.actionNicUpdate, hnone] at hact
            cases hact
            have hclean := buildNokError_clean ("NIC does not exist with id " ++ update.id)
              hs.clean
            rw [Option.some.inj hres] at hclean
            obtain rfl : s₁ = s := hclean
            refine ⟨s₁, ?_, .refl s₁⟩
            simp only [Api0.nicUpdate, if_neg hvalid, hupdate', Api.actionNicUpdate, hsame.id,
              hnone, Option.bind_eq_bind, Option.bind_some]
            exact hres
          · cases hres
            have hnic : s₁.model.nics[update'.id]? = some (updatedNic update' old) := by
              rw [(stored_nicUpdate hact).nics, nicsAfter, hold, hsame.id, hsame.updatedNic]
              simp
            obtain ⟨s₂, hact', hs₂⟩ := actionNicUpdate_satisfied P ambient' hnic
              (updatedNic_satisfied update' old)
            refine ⟨s₂, ?_, ?_⟩
            · simp only [Api0.nicUpdate, if_neg hvalid, hframe.pid, hupdate', hact',
                Option.bind_eq_bind, Option.bind_some]
            · rcases hs₂ with rfl | rfl
              · exact .refl s₂
              · exact again_updatePoll s₁

theorem withRule_twice {action action' : String → Rule → Server → Server} (hs : Sound s)
    (h : ∀ id rule, action' id rule (action id rule s) = action id rule s)
    (req : MessageV0.SgRuleReq) :
    Api0.withRule P action' req (Api0.withRule P action req s).2 =
      Api0.withRule P action req s := by
  unfold Api0.withRule
  split
  · rw [buildNokText_clean _ hs.clean]
  · split
    · rw [internalError_clean _ hs.clean]
    · rw [h]

theorem withMember_twice {action action' : String → Ip → Server → Server} (hs : Sound s)
    (h : ∀ id ip, action' id ip (action id ip s) = action id ip s)
    (req : MessageV0.SgMemberReq) :
    Api0.withMember P action' req (Api0.withMember P action req s).2 =
      Api0.withMember P action req s := by
  unfold Api0.withMember
  split
  · rw [buildNokText_clean _ hs.clean]
  · split
    · rw [internalError_clean _ hs.clean]
    · rw [h]

theorem sgAdd_twice (hs : Sound s) (m : MessageV0.Sg) :
    Api0.sgAdd P ambient' m (Api0.sgAdd P ambient m s).2 = Api0.sgAdd P ambient m s := by
  unfold Api0.sgAdd
  split
  · rw [buildNokText_clean _ hs.clean]
  · split
    · rw [internalError_clean _ hs.clean]
    · rw [actionSgAdd_twice P]

theorem handle_twice (hok : ∀ call, ambient.ok call = true)
    (hok' : ∀ call, ambient'.ok call = true) (hs : Sound s)
    (hapart : GroupsApart s.model.securityGroups) {c : Api0.Command} (hc : c.Mutates)
    (hcarries : c.CarriesTrace) {res : MessageV0.Response}
    (hfirst : Api0.handle P ambient c s = some (res, s₁)) :
    ∃ s₂, Api0.handle P ambient' c s₁ = some (res, s₂) ∧ Again s₁ s₂ := by
  have hequal {f f' : Server → MessageV0.Response × Server} (h : f' (f s).2 = f s)
      (hf : some (f s) = some (res, s₁)) : some (f' s₁) = some (res, s₁) := by
    rw [Option.some.inj hf] at h
    exact congrArg some h
  cases c with
  | nicAdd n => exact nicAdd_twice hok hok' hs hfirst
  | nicUpdate n => exact nicUpdate_twice hs hcarries hfirst
  | nicDel id =>
      obtain ⟨t, hdel, heq⟩ := Option.bind_eq_some_iff.mp hfirst
      cases heq
      refine ⟨s₁, ?_, .refl s₁⟩
      rw [Api0.handle, Api0.nicDel, Api.actionNicDel, removeNic_twice hs.agree hdel]
      rfl
  | sgAdd m => exact ⟨s₁, hequal (sgAdd_twice hs m) hfirst, .refl s₁⟩
  | sgDel id =>
      have htwice : Api0.sgDel ambient' id (Api0.sgDel ambient id s).2 =
          Api0.sgDel ambient id s := by
        simp only [Api0.sgDel, actionSgDel_twice P]
      exact ⟨s₁, hequal htwice hfirst, .refl s₁⟩
  | sgRuleAdd req =>
      exact ⟨s₁, hequal (withRule_twice hs (actionSgRuleAdd_twice P ambient ambient' s) req)
        hfirst, .refl s₁⟩
  | sgRuleDel req =>
      exact ⟨s₁, hequal (withRule_twice hs (actionSgRuleDel_twice P ambient ambient' s) req)
        hfirst, .refl s₁⟩
  | sgMemberAdd req =>
      exact ⟨s₁, hequal (withMember_twice hs (actionSgMemberAdd_twice P ambient ambient' s) req)
        hfirst, .refl s₁⟩
  | sgMemberDel req =>
      exact ⟨s₁, hequal (withMember_twice hs
        (actionSgMemberDel_twice P ambient ambient' hapart) req) hfirst, .refl s₁⟩
  | _ => exact hc.elim

/--
A request that changes something, handled twice in a row with no call failing:
the second answer is the first one, the model stays, and in any interleaving with
the poller both sides of every firewall end with the rules they had.
-/
theorem processed_twice (hs : Reachable P rulesAccepted s)
    (hok : ∀ call, ambient.ok call = true) (hok' : ∀ call, ambient'.ok call = true)
    {rq : MessageV0.Request} {c : Api0.Command} (hc : Api0.command rq = some c)
    (hmutates : c.Mutates) (hcarries : c.CarriesTrace) {res : MessageV0.Response}
    (hfirst : Api0.respond P ambient (some rq) s = some (res, s₁)) :
    ∃ s₂, Api0.respond P ambient' (some rq) s₁ = some (res, s₂) ∧ s₂.model = s₁.model ∧
      ∀ {id : String} {nic : Nic}, s₁.model.nics[id]? = some nic →
        nic.bypassFiltering = false →
        ∃ gn₁ gn₂, s₁.findNic nic = some gn₁ ∧ s₂.findNic nic = some gn₂ ∧
          ∀ {pg₁ pg₂ : Packetgraph}, Drained s₁ pg₁ → Drained s₂ pg₂ → ∀ side,
            pg₂.firewalls.loaded gn₂.firewall side =
              pg₁.firewalls.loaded gn₁.firewall side := by
  have hreloaded := hs.allReloaded.respond hs.sound (fun _ _ _ => hok _) hfirst
  have hhandle : Api0.handle P ambient c s = some (res, s₁) := by
    simpa only [Api0.respond, hc] using hfirst
  obtain ⟨s₂, hsecond, hagain⟩ :=
    handle_twice hok hok' hs.sound hs.groupsApart hmutates hcarries hhandle
  refine ⟨s₂, by simpa only [Api0.respond, hc] using hsecond, hagain.model,
    fun {id} {nic} hnic hfilter => ?_⟩
  obtain ⟨view, hview, hloaded⟩ := hreloaded id nic hnic hfilter
  have hview' := (hagain.views hnic hfilter).trans hview
  obtain ⟨gn₁, hgn₁, rfl⟩ := Option.map_eq_some_iff.mp hview
  obtain ⟨gn₂, hgn₂, hsame⟩ := Option.map_eq_some_iff.mp hview'
  refine ⟨gn₁, gn₂, hgn₁, hgn₂, fun {pg₁} {pg₂} hpg₁ hpg₂ side => ?_⟩
  have hloaded' : (fwView gn₂.firewall s₂.ops).reloaded = true := by
    rw [hsame]
    exact hloaded
  rw [hpg₁.loaded hloaded, hpg₂.loaded hloaded', hsame]

/-- A NIC that is added over itself, with a group that has a rule. -/
theorem processed_twice_nic_add :
    ∃ s s₁ s₂ res, Reachable Libc.platform rulesAccepted s ∧
      Api0.respond Libc.platform {} nicThenRule.head? s = some (res, s₁) ∧
      Api0.respond Libc.platform {} nicThenRule.head? s₁ = some (res, s₂) ∧
      s₁.model.nics.size = 1 ∧ s₂.model = s₁.model := by
  obtain ⟨s, hs, hsome⟩ : ∃ s, serve Libc.platform {} nicThenRule (Server.start {} 1 0) =
      some s ∧ (Api0.respond Libc.platform {} nicThenRule.head? s).any
        (fun r => r.2.model.nics.size = 1) = true := by
    refine ⟨(serve Libc.platform {} nicThenRule (Server.start {} 1 0)).get ?_, ?_, ?_⟩
    · decide +kernel
    · simp
    · decide +kernel
  obtain ⟨⟨res, s₁⟩, hfirst, hsize⟩ := (Option.any_eq_true _ _).mp hsome
  have hreachable : Reachable Libc.platform rulesAccepted s :=
    (Reachable.start {} 1 0).serve (fun _ _ _ _ _ _ => rfl) hs
  have hok : ∀ call, ({} : Ambient).ok call = true := fun _ => rfl
  obtain ⟨s₂, hsecond, hmodel, -⟩ := processed_twice (c := .nicAdd _) hreachable hok hok rfl
    trivial trivial hfirst
  exact ⟨s, s₁, s₂, res, hreachable, hfirst, hsecond, by simpa using hsize, hmodel⟩

end Requests

end Butterfly
