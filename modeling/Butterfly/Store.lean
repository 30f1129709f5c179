import Butterfly.Run

/-!
# The model as a store

What an action does to the two maps of `app::model`, whatever the graph does
meanwhile, and runs of the server side by side with an abstract state.
-/

namespace Butterfly

open Std Foundation MessageV0

variable {P : Platform} {ambient : Ambient}

/-! ## Maps after an action -/

def tracedNic (update : NicUpdate) (n : Butterfly.Nic) : Butterfly.Nic :=
  if update.hasPacketTrace then { n with packetTrace := update.packetTrace } else n

def pathedNic (update : NicUpdate) (n : Butterfly.Nic) : Butterfly.Nic :=
  if n.packetTrace ∧ update.packetTracePath ≠ "" then
    { n with packetTracePath := update.packetTracePath }
  else n

def updatedNic (update : NicUpdate) (old : Butterfly.Nic) : Butterfly.Nic :=
  pathedNic update (tracedNic update (Api.revise update old))

def nicsAfter (P : Platform) (a : Action) (accepted : Bool)
    (nics : ExtTreeMap String Butterfly.Nic) : ExtTreeMap String Butterfly.Nic :=
  match a with
  | .nicAdd nic =>
      -- An old NIC of this id is gone even if the new one is refused.
      if accepted then
        (nics.erase nic.id).insertIfNew nic.id { nic with path := Graph.nicPath P nic }
      else nics.erase nic.id
  | .nicUpdate update =>
      match nics[update.id]? with
      | none => nics
      | some old => nics.insert update.id (updatedNic update old)
  | .nicDel id => nics.erase id
  | _ => nics

def groupOrNew (groups : ExtTreeMap String Butterfly.Sg) (id : String) : Butterfly.Sg :=
  groups[id]?.getD { id := id }

def groupsAfter (P : Platform) (a : Action) (groups : ExtTreeMap String Butterfly.Sg) :
    ExtTreeMap String Butterfly.Sg :=
  match a with
  | .sgAdd sg =>
      match groups[sg.id]? with
      | some originalSg => if sg.eq originalSg then groups else groups.insert sg.id sg
      | none => groups.insert sg.id sg
  | .sgDel id => groups.erase id
  | .sgRuleAdd id rule =>
      let sg := groupOrNew groups id
      groups.insert id { sg with rules := sg.rules.insertIfNew (rule.hash P) rule }
  | .sgRuleDel id rule =>
      match groups[id]? with
      | none => groups
      | some sg => groups.insert id { sg with rules := sg.rules.erase (rule.hash P) }
  | .sgMemberAdd id ip =>
      let sg := groupOrNew groups id
      groups.insert id
        { sg with members := if findIp sg.members ip then sg.members else sg.members ++ [ip] }
  | .sgMemberDel id ip =>
      match groups[id]? with
      | none => groups
      | some sg =>
          groups.insert id { sg with members := sg.members.eraseP fun known => known.eq ip }
  | _ => groups

structure Stored (P : Platform) (a : Action) (accepted : Bool) (m m' : Model) : Prop where
  nics : m'.nics = nicsAfter P a accepted m.nics
  groups : m'.securityGroups = groupsAfter P a m.securityGroups

section Actions

variable {s s' : Server}

theorem stored_nicAdd (h : Agree s) {nic : Butterfly.Nic} {added : Option Butterfly.Nic}
    (hadd : Api.actionNicAdd P ambient nic s = some (added, s')) :
    Stored P (.nicAdd nic) added.isSome s.model s'.model := by
  simp only [Api.actionNicAdd, Option.bind_eq_bind] at hadd
  obtain ⟨s₀, hs₀, hadd⟩ := Option.bind_eq_some_iff.mp hadd
  obtain ⟨⟨result, s₁⟩, hs₁, hadd⟩ := Option.bind_eq_some_iff.mp hadd
  obtain ⟨hagree, -, hmodel⟩ := h.removeNic hs₀
  have hbranch := hagree.branch_eq_none (by simp [hmodel] : s₀.model.nics[nic.id]? = none) nic.vni
  have hentry : (Graph.vniEntry nic.vni s₀).nics[nic.id]? = none := by
    rw [vniEntry_lookup, hbranch]
  rcases Graph.nicAdd_cases hagree.graph.started hs₁ with ⟨rfl, hadded⟩ | ⟨rfl, hadded⟩
  · have heffect := (hadded.effect hagree.graph.started hentry).model
    cases hadd
    exact ⟨by rw [heffect, hmodel]; rfl, by rw [heffect, hmodel]; rfl⟩
  · have heffect := (hadded.effect hagree.graph.started hentry).model
    cases hadd
    exact ⟨by rw [Server.modifyModel_model, heffect, hmodel]; rfl,
      by rw [Server.modifyModel_model, heffect, hmodel]; rfl⟩

theorem setNic_stage {id : String} {n n' : Butterfly.Nic} {m : Model}
    (hs : s.model = { m with nics := m.nics.insert id n }) (h : Stage id n n' s s') :
    s'.model = { m with nics := m.nics.insert id n' } := by
  rcases h.server with ⟨rfl, rfl⟩ | ⟨t, ht, rfl⟩
  · exact hs
  · rw [Api.setNic, Server.modifyModel_model, ht.model, hs, insert_insert]

theorem UpdateStages.updatedNic {update : NicUpdate} {old n₂ n₃ : Butterfly.Nic}
    {s₁ s₂ s₃ : Server} (h : UpdateStages P ambient update old s s' n₂ n₃ s₁ s₂ s₃) :
    n₃ = updatedNic update old := by
  have htwo : n₂ = tracedNic update (Api.revise update old) := by
    have htrace := h.trace
    unfold Api.updateTrace at htrace
    split at htrace
    · next hset =>
        obtain ⟨t, -, heq⟩ := Option.bind_eq_some_iff.mp htrace
        cases heq
        exact (if_pos hset).symm
    · next hset =>
        cases htrace
        exact (if_neg hset).symm
  have hpath := h.path
  unfold Api.updateTracePath at hpath
  rw [Butterfly.updatedNic, ← htwo]
  split at hpath
  · next hset =>
      obtain ⟨t, -, heq⟩ := Option.bind_eq_some_iff.mp hpath
      cases heq
      exact (if_pos hset).symm
  · next hset =>
      cases hpath
      exact (if_neg hset).symm

theorem stored_nicUpdate {update : NicUpdate} {error : Option String}
    (hupdate : Api.actionNicUpdate P ambient update s = some (error, s')) :
    Stored P (.nicUpdate update) error.isNone s.model s'.model := by
  rcases actionNicUpdate_cases hupdate with ⟨hnone, -, rfl⟩ |
      ⟨-, old, hold, n₂, n₃, s₁, s₂, s₃, hstages⟩
  · exact ⟨by simp [nicsAfter, hnone], rfl⟩
  · have hone : s₁.model = { s.model with
        nics := s.model.nics.insert update.id (Api.revise update old) } := by
      rw [hstages.antiSpoof, (refreshAntiSpoof_tuned _ _ _ _).model]
      rfl
    have htwo := setNic_stage hone (updateTrace_stage hstages.trace)
    have hthree := setNic_stage htwo (updateTracePath_stage hstages.path)
    have hlast : s'.model = { s.model with
        nics := s.model.nics.insert update.id (updatedNic update old) } := by
      rw [hstages.firewall, (refreshFirewall_tuned _ _ _ _).model, hthree, hstages.updatedNic]
    exact ⟨by rw [hlast, nicsAfter, hold], by rw [hlast]; rfl⟩

theorem stored_setSg {p : Op Rpc Direct → Prop} {a : Action} {id : String}
    {sg : Butterfly.Sg} (ht : Tuned p (Api.setSg id sg s) s')
    (hnics : nicsAfter P a true s.model.nics = s.model.nics)
    (hgroups : groupsAfter P a s.model.securityGroups = s.model.securityGroups.insert id sg) :
    Stored P a true s.model s'.model := by
  constructor
  · rw [ht.model, hnics]
    rfl
  · rw [ht.model, hgroups]
    rfl

theorem stored_sgAdd (sg : Butterfly.Sg) (s : Server) :
    Stored P (.sgAdd sg) true s.model (Api.actionSgAdd ambient sg s).model := by
  have ht := (Api.sgUpdate_tuned ambient sg (Api.setSg sg.id sg s)).trans
    (Api.sgUpdateRuleMembers_tuned ambient sg _)
  unfold Api.actionSgAdd
  split
  · next originalSg horiginal =>
      split
      · next heq => exact ⟨rfl, by simp [groupsAfter, horiginal, heq]⟩
      · next hne => exact stored_setSg ht rfl (by simp [groupsAfter, horiginal, hne])
  · next hnone => exact stored_setSg ht rfl (by simp [groupsAfter, hnone])

theorem stored_sgDel (id : String) (s : Server) :
    Stored P (.sgDel id) true s.model (Api.actionSgDel ambient id s).model := by
  unfold Api.actionSgDel
  split
  · next hnone => exact ⟨rfl, by rw [groupsAfter, erase_of_none hnone]⟩
  · next sg _ =>
      have ht := (Api.sgUpdate_tuned ambient sg (s.modifyModel fun m =>
        { m with securityGroups := m.securityGroups.erase id })).trans
          (Api.sgUpdateRuleMembers_tuned ambient sg _)
      exact ⟨by rw [ht.model]; rfl, by rw [ht.model]; rfl⟩

theorem ensureSg_model (id : String) (s : Server) :
    (Api.ensureSg id s).1 = groupOrNew s.model.securityGroups id ∧
      (Api.ensureSg id s).2.model =
        (Api.setSg id (groupOrNew s.model.securityGroups id) s).model := by
  unfold Api.ensureSg groupOrNew
  split
  · next sg hsg =>
      rw [hsg]
      refine ⟨rfl, ?_⟩
      rw [Api.setSg, Server.modifyModel_model, Option.getD_some, insert_of_lookup hsg]
  · next hnone =>
      rw [hnone]
      exact ⟨rfl, rfl⟩

theorem stored_ensureSg {p : Op Rpc Direct → Prop} {a : Action} {id : String}
    {sg : Butterfly.Sg} (ht : Tuned p (Api.setSg id sg (Api.ensureSg id s).2) s')
    (hnics : nicsAfter P a true s.model.nics = s.model.nics)
    (hgroups : groupsAfter P a s.model.securityGroups = s.model.securityGroups.insert id sg) :
    Stored P a true s.model s'.model := by
  have hmodel := (ensureSg_model id s).2
  constructor
  · rw [ht.model, hnics, Api.setSg, Server.modifyModel_model, hmodel]
    rfl
  · rw [ht.model, hgroups, Api.setSg, Server.modifyModel_model, hmodel, Api.setSg,
      Server.modifyModel_model, insert_insert]

theorem stored_sgRuleAdd (id : String) (rule : Butterfly.Rule) (s : Server) :
    Stored P (.sgRuleAdd id rule) true s.model
      (Api.actionSgRuleAdd P ambient id rule s).model := by
  obtain ⟨hsg, hmodel⟩ := ensureSg_model id s
  simp only [Api.actionSgRuleAdd, hsg]
  split
  · next hmem =>
      obtain ⟨stored, hstored⟩ := Option.isSome_iff_exists.mp
        (ExtTreeMap.mem_iff_isSome_getElem?.mp hmem)
      refine ⟨by rw [hmodel]; rfl, ?_⟩
      rw [hmodel, groupsAfter, insertIfNew_of_lookup hstored]
      rfl
  · exact stored_ensureSg (Api.sgUpdateRule_tuned ambient _ rule _) rfl rfl

theorem stored_sgRuleDel (id : String) (rule : Butterfly.Rule) (s : Server) :
    Stored P (.sgRuleDel id rule) true s.model
      (Api.actionSgRuleDel P ambient id rule s).model := by
  unfold Api.actionSgRuleDel
  split
  · next hnone => exact ⟨rfl, by simp [groupsAfter, hnone]⟩
  · next sg hsg =>
      split
      · next hmem =>
          have hnone : sg.rules[rule.hash P]? = none := ExtTreeMap.getElem?_eq_none hmem
          refine ⟨rfl, ?_⟩
          simp only [groupsAfter, hsg, erase_of_none hnone, insert_of_lookup hsg]
      · exact stored_setSg (Api.sgUpdate_tuned ambient _ _) rfl (by simp [groupsAfter, hsg])

theorem stored_sgMemberAdd (id : String) (ip : Ip) (s : Server) :
    Stored P (.sgMemberAdd id ip) true s.model
      (Api.actionSgMemberAdd ambient id ip s).model := by
  obtain ⟨hsg, hmodel⟩ := ensureSg_model id s
  simp only [Api.actionSgMemberAdd, hsg]
  split
  · next hfound =>
      refine ⟨by rw [hmodel]; rfl, ?_⟩
      simp only [hmodel, groupsAfter, hfound, if_true]
      rfl
  · next hfound =>
      refine stored_ensureSg (Api.sgUpdateRuleMembers_tuned ambient _ _) rfl ?_
      simp only [groupsAfter, if_neg hfound]

theorem stored_sgMemberDel (id : String) (ip : Ip) (s : Server) :
    Stored P (.sgMemberDel id ip) true s.model
      (Api.actionSgMemberDel ambient id ip s).model := by
  unfold Api.actionSgMemberDel
  split
  · next hnone => exact ⟨rfl, by simp [groupsAfter, hnone]⟩
  · next sg hsg =>
      split
      · next hfound =>
          have hnone : sg.members.eraseP (fun known => known.eq ip) = sg.members := by
            apply List.eraseP_of_forall_not
            simpa [findIp] using hfound
          refine ⟨rfl, ?_⟩
          simp only [groupsAfter, hsg, hnone, insert_of_lookup hsg]
      · exact stored_setSg (Api.sgUpdateRuleMembers_tuned ambient _ _) rfl
          (by simp [groupsAfter, hsg])

theorem perform_stored (h : Agree s) {a : Action} {accepted : Bool}
    (ha : perform P ambient a s = some (accepted, s')) :
    Stored P a accepted s.model s'.model := by
  cases a with
  | nicAdd nic =>
      obtain ⟨⟨added, t⟩, hadd, heq⟩ := Option.map_eq_some_iff.mp ha
      cases heq
      exact stored_nicAdd h hadd
  | nicUpdate update =>
      obtain ⟨⟨error, t⟩, hupdate, heq⟩ := Option.map_eq_some_iff.mp ha
      cases heq
      exact stored_nicUpdate hupdate
  | nicDel id =>
      obtain ⟨t, hdel, heq⟩ := Option.map_eq_some_iff.mp ha
      cases heq
      obtain ⟨-, -, hmodel⟩ := h.removeNic hdel
      rw [hmodel]
      exact ⟨rfl, rfl⟩
  | sgAdd sg =>
      cases ha
      exact stored_sgAdd sg s
  | sgDel id =>
      cases ha
      exact stored_sgDel id s
  | sgRuleAdd sgId rule =>
      cases ha
      exact stored_sgRuleAdd sgId rule s
  | sgRuleDel sgId rule =>
      cases ha
      exact stored_sgRuleDel sgId rule s
  | sgMemberAdd sgId ip =>
      cases ha
      exact stored_sgMemberAdd sgId ip s
  | sgMemberDel sgId ip =>
      cases ha
      exact stored_sgMemberDel sgId ip s

end Actions

/-! ## The model after a request -/

inductive Transition (P : Platform) (ambient : Ambient) (s : Server) (request : Option Request) :
    Model → Prop
  | quiet : (∀ rq c a, request = some rq → Api0.command rq = some c → ¬Asks P ambient s c a) →
      Transition P ambient s request s.model
  | act {rq c a accepted m'} : request = some rq → Api0.command rq = some c →
      Asks P ambient s c a → Stored P a accepted s.model m' →
      Transition P ambient s request m'

theorem respond_transition {request : Option Request} {s s' : Server} {response : Response}
    (hs : Sound s) (h : Api0.respond P ambient request s = some (response, s')) :
    Transition P ambient s request s'.model := by
  unfold Api0.respond at h
  split at h
  · cases h
    exact .quiet fun rq c a hrq => nomatch hrq
  · next rq =>
      split at h
      · next hnone =>
          cases h
          refine .quiet fun rq' c a hrq hc => ?_
          cases hrq
          cases hnone.symm.trans hc
      · next c hc =>
          have hquiet (hasks : ∀ a, ¬Asks P ambient s c a) :
              Transition P ambient s (some rq) s.model := by
            refine .quiet fun rq' c' a hrq hc' => ?_
            cases hrq
            cases hc.symm.trans hc'
            exact hasks a
          cases handle_outcome hs.agree hs.clean h with
          | nok hasks hnok =>
              rw [hnok.core.model]
              exact hquiet hasks
          | read hasks hcore =>
              rw [hcore.model]
              exact hquiet hasks
          | act hasks hperform hcore =>
              rw [hcore.model]
              exact .act rfl hc hasks (perform_stored hs.agree hperform)

theorem Reachable.model_invariant {allowed : Allowed} {I : Model → Prop} (hstart : I {})
    (hstep : ∀ {s ambient request m'}, Sound s → allowed s ambient request → I s.model →
      Transition P ambient s request m' → I m')
    {s : Server} (h : Reachable P allowed s) : I s.model := by
  induction h with
  | start config pid startDate => exact hstart
  | count _ ih => exact ih
  | respond hs hallowed hrespond ih =>
      exact hstep hs.sound hallowed ih (respond_transition hs.sound hrespond)

/-! ## Runs beside an abstract state -/

/-- A reachable state of the server with the abstract state after the same requests. -/
inductive Paired (P : Platform) (allowed : Allowed) {α : Type} (init : α)
    (step : Option Request → α → α) : Server → α → Prop where
  | start (config : AppConfig) (pid : Nat) (startDate : UInt64) :
      Paired P allowed init step (Server.start config pid startDate) init
  | count {s : Server} {a : α} : Paired P allowed init step s a →
      Paired P allowed init step { s with requestCounter := s.requestCounter + 1 } a
  | respond {s s' : Server} {a : α} {ambient : Ambient} {request : Option Request}
      {response : Response} : Paired P allowed init step s a → allowed s ambient request →
      Api0.respond P ambient request s = some (response, s') →
      Paired P allowed init step s' (step request a)

section Paired

variable {allowed : Allowed} {α : Type} {init : α} {step : Option Request → α → α}

theorem Paired.reachable {s : Server} {a : α} (h : Paired P allowed init step s a) :
    Reachable P allowed s := by
  induction h with
  | start config pid startDate => exact .start config pid startDate
  | count _ ih => exact .count ih
  | respond _ hallowed hrespond ih => exact .respond ih hallowed hrespond

theorem Paired.simulates {R : Model → α → Prop} (hstart : R {} init)
    (hstep : ∀ {s ambient request m' a}, Reachable P allowed s → allowed s ambient request →
      R s.model a → Transition P ambient s request m' → R m' (step request a))
    {s : Server} {a : α} (h : Paired P allowed init step s a) : R s.model a := by
  induction h with
  | start config pid startDate => exact hstart
  | count _ ih => exact ih
  | respond hs hallowed hrespond ih =>
      exact hstep hs.reachable hallowed ih (respond_transition hs.reachable.sound hrespond)

theorem Paired.serve {ambient : Ambient} {requests : List Request} {s s' : Server} {a : α}
    (h : Paired P allowed init step s a)
    (hallowed : ∀ rq ∈ requests, ∀ s, allowed s ambient (some rq))
    (hserve : serve P ambient requests s = some s') :
    Paired P allowed init step s' (requests.foldl (fun a rq => step (some rq) a) a) := by
  induction requests generalizing s a with
  | nil =>
      cases hserve
      exact h
  | cons rq rest ih =>
      obtain ⟨⟨response, s₁⟩, hrespond, hrest⟩ := Option.bind_eq_some_iff.mp hserve
      exact ih (h.respond (hallowed rq List.mem_cons_self s) hrespond)
        (fun rq hrq => hallowed rq (List.mem_cons_of_mem _ hrq)) hrest

end Paired

end Butterfly
