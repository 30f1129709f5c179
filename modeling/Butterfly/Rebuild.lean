import Butterfly.Coherence

/-!
# Interrupted rebuilds

`FwUpdate` flushes the staged rules of a firewall before it adds the new ones, and
returns as soon as one of the two is refused.  What it leaves behind is loaded by the
next `FwAddRule`.
-/

namespace Butterfly

open Std Foundation Butterfly.Graph

section Rebuild

variable {ok : PgCall → Bool} {nic : Nic} {s : Server} {gn : GraphNic}

/-- The inbound filter, if there is one, and the outbound filter are accepted. -/
def AcceptsBuilt (ok : PgCall → Bool) (fw : Brick) (inText outText : String) : Prop :=
  (inText = "" ∨ ok (.ruleAdd fw inText .west) = true) ∧ ok (.ruleAdd fw outText .east) = true

def interruptedRules (ok : PgCall → Bool) (fw : Brick) (inText : String) : FwRules
  | .west => if inText ≠ "" ∧ ok (.ruleAdd fw inText .west) = true then [⟨inText, false⟩] else []
  | .east => []

theorem interruptedRules_ne_builtRules (ok : PgCall → Bool) (fw : Brick)
    (inText outText : String) :
    interruptedRules ok fw inText ≠ builtRules inText outText := by
  intro h
  have heast := congrFun h .east
  simp [interruptedRules, builtRules] at heast

theorem fwUpdateOps_of_accepts {fw : Brick} {inText : String}
    (h : AcceptsBuilt ok fw inText (outRules nic)) :
    fwUpdateOps ok fw inText (outRules nic) = rebuildOps fw inText (outRules nic) := by
  obtain ⟨hin, hout⟩ := h
  by_cases hempty : inText = ""
  · simp [fwUpdateOps, rebuildOps, hout, hempty, outRules_ne_empty]
  · simp [fwUpdateOps, rebuildOps, hout, hin.resolve_left hempty, hempty, outRules_ne_empty]

theorem FwView.after_interrupted {fw : Brick} {inText : String}
    (h : ¬AcceptsBuilt ok fw inText (outRules nic)) (view : FwView) :
    view.after fw (fwUpdateOps ok fw inText (outRules nic)) =
      ⟨interruptedRules ok fw inText, false⟩ := by
  have hrules : ∀ rules : FwRules, rules .west = interruptedRules ok fw inText .west →
      rules .east = [] → rules = interruptedRules ok fw inText := by
    intro rules hwest heast
    funext side
    cases side with
    | west => exact hwest
    | east => exact heast
  by_cases hin : inText ≠ "" ∧ ok (.ruleAdd fw inText .west) = false
  · -- The inbound filter is refused.
    rw [← hrules (fun _ => []) (by simp [interruptedRules, hin]) rfl]
    simp [fwUpdateOps, hin, step, Direct.firewall?, Direct.edit]
  · -- It is the outbound filter.
    have hwest : inText = "" ∨ ok (.ruleAdd fw inText .west) = true := by
      by_cases hempty : inText = ""
      · exact .inl hempty
      · exact .inr (Bool.eq_true_of_not_eq_false fun hfalse => hin ⟨hempty, hfalse⟩)
    have hout : ok (.ruleAdd fw (outRules nic) .east) = false :=
      Bool.eq_false_of_not_eq_true fun htrue => h ⟨hwest, htrue⟩
    by_cases hempty : inText = ""
    · rw [← hrules (fun _ => []) (by simp [interruptedRules, hempty]) rfl]
      simp [fwUpdateOps, hempty, hout, outRules_ne_empty, step, Direct.firewall?, Direct.edit]
    · have hok := hwest.resolve_left hempty
      rw [← hrules (Function.update (fun _ => []) .west [⟨inText, false⟩])
        (by simp [interruptedRules, hempty, hok]) (by simp)]
      simp [fwUpdateOps, hempty, hok, hout, outRules_ne_empty, step, Direct.firewall?,
        Direct.edit]

theorem fwView_fwUpdate (hstarted : s.started = true) (hfilter : nic.bypassFiltering = false)
    (hfind : s.findNic nic = some gn) :
    fwView gn.firewall (fwUpdate ok nic s).ops = (fwView gn.firewall s.ops).after gn.firewall
      (fwUpdateOps ok gn.firewall (inRules s.model.securityGroups nic) (outRules nic)) := by
  rw [fwUpdate_eq hstarted hfilter hfind, Server.emits_ops, Server.updateNic_ops, fwView_append]

theorem findNic_fwUpdate (hstarted : s.started = true) (hfilter : nic.bypassFiltering = false)
    (hfind : s.findNic nic = some gn) :
    (fwUpdate ok nic s).findNic nic = some (setDefaultOutboundRule true gn) := by
  rw [fwUpdate_eq hstarted hfilter hfind, Server.emits_findNic, Server.findNic_eq,
    Server.branch_updateNic, if_pos ⟨rfl, rfl⟩, ← Server.findNic_eq, hfind]
  rfl

theorem FwView.after_addRuleOps_interrupted {ok' : PgCall → Bool} {gn' : GraphNic} {rule : Rule}
    {r : String} (hr : ok' (.ruleAdd gn'.firewall r (ruleSide rule)) = true) (inText : String) :
    ∃ rules, (⟨interruptedRules ok gn'.firewall inText, false⟩ : FwView).after gn'.firewall
        (addRuleOps ok' gn' rule r) = ⟨rules, true⟩ ∧
      ∀ side, interruptedRules ok gn'.firewall inText side ⊆ rules side := by
  by_cases hflush : rule.direction = .outbound ∧ gn'.defaultOutboundRule = true
  · refine ⟨Function.update (interruptedRules ok gn'.firewall inText) .east [⟨r, false⟩],
      ?_, ?_⟩
    · have hside : ruleSide rule = .east := by simp [ruleSide, hflush]
      rw [hside] at hr
      simp [addRuleOps, hflush, hr, hside, step, Direct.firewall?, Direct.edit]
    · intro side
      cases side with
      | west => simp
      | east => simp [interruptedRules]
  · refine ⟨Function.update (interruptedRules ok gn'.firewall inText) (ruleSide rule)
      (interruptedRules ok gn'.firewall inText (ruleSide rule) ++ [⟨r, false⟩]), ?_, ?_⟩
    · simp [addRuleOps, hflush, hr, step, Direct.firewall?, Direct.edit]
    · intro side
      by_cases hside : side = ruleSide rule
      · subst hside
        simp
      · simp [hside]

end Rebuild

/-! ## All or nothing -/

def Built (groups : ExtTreeMap String Sg) (nic : Nic) (fw : Brick) (pg : Packetgraph) : Prop :=
  pg.firewalls.staged fw = builtRules (inRules groups nic) (outRules nic) ∧
    pg.firewalls.loaded fw = builtRules (inRules groups nic) (outRules nic)

/--
The firewall of a branch before and after `FwUpdate`.  If the rebuild fails, a rule
that is added later, with whatever model there is then, takes nothing away.
-/
structure AllOrNothing (ok : PgCall → Bool) (nic : Nic) (s : Server) (fw : Brick)
    (pg pg' : Packetgraph) : Prop where
  staged : Built s.model.securityGroups nic fw pg' ∨
    pg'.firewalls.staged fw = pg.firewalls.staged fw
  kept : ¬Built s.model.securityGroups nic fw pg' →
    ∀ (model : Model) (ok' : PgCall → Bool) (rule : Rule) (pg'' : Packetgraph),
      fwBuildRule model.securityGroups rule ≠ "" →
      ok' (.ruleAdd fw (fwBuildRule model.securityGroups rule) (ruleSide rule)) = true →
      Drained (fwAddRule ok' nic rule { fwUpdate ok nic s with model := model }) pg'' →
      ∀ side, pg.firewalls.staged fw side ⊆ pg''.firewalls.loaded fw side

section AllOrNothing

variable {ok : PgCall → Bool} {nic : Nic} {s : Server} {gn : GraphNic} {pg' : Packetgraph}

theorem built_of_accepts (hstarted : s.started = true) (hfilter : nic.bypassFiltering = false)
    (hfind : s.findNic nic = some gn) (hafter : Drained (fwUpdate ok nic s) pg')
    (h : AcceptsBuilt ok gn.firewall (inRules s.model.securityGroups nic) (outRules nic)) :
    Built s.model.securityGroups nic gn.firewall pg' := by
  have hview : fwView gn.firewall (fwUpdate ok nic s).ops =
      ⟨builtRules (inRules s.model.securityGroups nic) (outRules nic), true⟩ := by
    rw [fwView_fwUpdate hstarted hfilter hfind, fwUpdateOps_of_accepts h,
      FwView.after_rebuildOps]
  refine ⟨?_, ?_⟩
  · rw [hafter.staged, hview]
  · rw [hafter.loaded (by rw [hview]), hview]

theorem staged_of_interrupted (hstarted : s.started = true)
    (hfilter : nic.bypassFiltering = false) (hfind : s.findNic nic = some gn)
    (hafter : Drained (fwUpdate ok nic s) pg')
    (h : ¬AcceptsBuilt ok gn.firewall (inRules s.model.securityGroups nic) (outRules nic)) :
    pg'.firewalls.staged gn.firewall =
      interruptedRules ok gn.firewall (inRules s.model.securityGroups nic) := by
  rw [hafter.staged, fwView_fwUpdate hstarted hfilter hfind, FwView.after_interrupted h]

theorem loaded_after_interrupted (hstarted : s.started = true)
    (hfilter : nic.bypassFiltering = false) (hfind : s.findNic nic = some gn)
    (h : ¬AcceptsBuilt ok gn.firewall (inRules s.model.securityGroups nic) (outRules nic))
    {model : Model} {ok' : PgCall → Bool} {rule : Rule} {pg'' : Packetgraph}
    (hrule : fwBuildRule model.securityGroups rule ≠ "")
    (hadd : ok' (.ruleAdd gn.firewall (fwBuildRule model.securityGroups rule)
      (ruleSide rule)) = true)
    (hlater : Drained (fwAddRule ok' nic rule { fwUpdate ok nic s with model := model }) pg'')
    (side : Side) :
    interruptedRules ok gn.firewall (inRules s.model.securityGroups nic) side ⊆
      pg''.firewalls.loaded gn.firewall side := by
  have hview : fwView gn.firewall (fwUpdate ok nic s).ops =
      ⟨interruptedRules ok gn.firewall (inRules s.model.securityGroups nic), false⟩ := by
    rw [fwView_fwUpdate hstarted hfilter hfind, FwView.after_interrupted h]
  have hfind' : ({ fwUpdate ok nic s with model := model } : Server).findNic nic =
      some (setDefaultOutboundRule true gn) := findNic_fwUpdate hstarted hfilter hfind
  have hstarted' : ({ fwUpdate ok nic s with model := model } : Server).started = true := by
    rw [fwUpdate_eq hstarted hfilter hfind]
    simpa using hstarted
  have hadd' : ok' (.ruleAdd (setDefaultOutboundRule true gn).firewall
      (fwBuildRule model.securityGroups rule) (ruleSide rule)) = true := hadd
  obtain ⟨rules, hrules, hsub⟩ : ∃ rules,
      (⟨interruptedRules ok gn.firewall (inRules s.model.securityGroups nic), false⟩ :
        FwView).after gn.firewall _ = ⟨rules, true⟩ ∧
        ∀ side, interruptedRules ok gn.firewall _ side ⊆ rules side :=
    FwView.after_addRuleOps_interrupted hadd' _
  have hlast : fwView gn.firewall
      (fwAddRule ok' nic rule { fwUpdate ok nic s with model := model }).ops =
        ⟨rules, true⟩ := by
    rw [fwAddRule_eq hstarted' hfilter hrule hfind', Server.emits_ops, Server.updateNic_ops,
      fwView_append]
    change (fwView gn.firewall (fwUpdate ok nic s).ops).after gn.firewall _ = _
    rw [hview]
    exact hrules
  rw [hlater.loaded (by rw [hlast]), hlast]
  exact hsub side

/--
In every interleaving, `FwUpdate` is all or nothing if and only if both filters are
accepted, or the firewall had, before the call, just the staged rules that an early
return leaves.
-/
theorem fwUpdate_all_or_nothing_iff (hstarted : s.started = true)
    (hfilter : nic.bypassFiltering = false) (hfind : s.findNic nic = some gn) :
    (∀ pg pg', Drained s pg → Drained (fwUpdate ok nic s) pg' →
      AllOrNothing ok nic s gn.firewall pg pg') ↔
    AcceptsBuilt ok gn.firewall (inRules s.model.securityGroups nic) (outRules nic) ∨
      ∀ pg, Drained s pg → pg.firewalls.staged gn.firewall =
        interruptedRules ok gn.firewall (inRules s.model.securityGroups nic) := by
  by_cases h : AcceptsBuilt ok gn.firewall (inRules s.model.securityGroups nic) (outRules nic)
  · refine ⟨fun _ => .inl h, fun _ pg pg' _ hafter => ?_⟩
    have hbuilt := built_of_accepts hstarted hfilter hfind hafter h
    exact ⟨.inl hbuilt, fun hfail => absurd hbuilt hfail⟩
  · constructor
    · intro hall
      refine .inr fun pg hbefore => ?_
      have hafter := drained_settled (fwUpdate ok nic s)
      have hstaged := staged_of_interrupted hstarted hfilter hfind hafter h
      rcases (hall pg _ hbefore hafter).staged with ⟨hbuilt, -⟩ | hsame
      · exact absurd (hstaged.symm.trans hbuilt) (interruptedRules_ne_builtRules _ _ _ _)
      · rw [← hsame, hstaged]
    · intro hsame pg pg' hbefore hafter
      have hpg := hsame.resolve_left h pg hbefore
      have hstaged := staged_of_interrupted hstarted hfilter hfind hafter h
      refine ⟨.inr (hstaged.trans hpg.symm), fun _ model ok' rule pg'' hrule hadd hlater side => ?_⟩
      rw [hpg]
      exact loaded_after_interrupted hstarted hfilter hfind h hrule hadd hlater side

end AllOrNothing

def ruledNic : List MessageV0.Request :=
  [{ sgAdd := some { id := "sg-1"
                     rule := [{ direction := .inbound, protocol := 6, portStart := some 80
                                portEnd := some 80
                                cidr := some { address := "10.0.0.0", maskSize := 8 } }] } },
   { nicAdd := some { id := "nic-1", mac := "52:54:00:12:34:01", vni := 42
                      ip := ["42.0.0.1"], securityGroup := ["sg-1"] } }]

def ruledServer : Server :=
  (serve Libc.platform {} ruledNic (Server.start {} 1 0)).getD (Server.start {} 1 0)

theorem ruledServer_reachable : Reachable Libc.platform anything ruledServer := by
  have hsome : (serve Libc.platform {} ruledNic (Server.start {} 1 0)).isSome = true := by
    decide +kernel
  obtain ⟨s, hs⟩ := Option.isSome_iff_exists.mp hsome
  rw [ruledServer, hs]
  exact (Reachable.start {} 1 0).serve (fun _ _ _ => trivial) hs

def refusesWest : PgCall → Bool
  | .ruleAdd _ _ .west => false
  | _ => true

theorem fwUpdate_all_or_nothing_ruled_nic :
    ∃ nic gn, ruledServer.model.nics["nic-1"]? = some nic ∧ ruledServer.findNic nic = some gn ∧
      ∀ pg pg', Drained ruledServer pg → Drained (fwUpdate (fun _ => true) nic ruledServer) pg' →
        AllOrNothing (fun _ => true) nic ruledServer gn.firewall pg pg' := by
  refine ⟨(ruledServer.model.nics["nic-1"]?).get (by decide +kernel),
    (ruledServer.findNic ((ruledServer.model.nics["nic-1"]?).get (by decide +kernel))).get
      (by decide +kernel), by simp, by simp, ?_⟩
  refine (fwUpdate_all_or_nothing_iff ?_ ?_ (by simp)).mpr (.inl ⟨.inr rfl, rfl⟩)
  · decide +kernel
  · decide +kernel

/-- The rebuild fails, and the outbound filter is gone. -/
theorem refused_rebuild_flushes :
    ∃ nic gn, Reachable Libc.platform anything ruledServer ∧
      ruledServer.model.nics["nic-1"]? = some nic ∧ ruledServer.started = true ∧
      nic.bypassFiltering = false ∧ ruledServer.findNic nic = some gn ∧
      ¬∀ pg pg', Drained ruledServer pg → Drained (fwUpdate refusesWest nic ruledServer) pg' →
        AllOrNothing refusesWest nic ruledServer gn.firewall pg pg' := by
  refine ⟨(ruledServer.model.nics["nic-1"]?).get (by decide +kernel),
    (ruledServer.findNic ((ruledServer.model.nics["nic-1"]?).get (by decide +kernel))).get
      (by decide +kernel), ruledServer_reachable, by simp, by decide +kernel, by decide +kernel,
    by simp, fun hall => ?_⟩
  rcases (hall _ _ (drained_settled _) (drained_settled _)).staged with ⟨hbuilt, -⟩ | hsame
  · have heast := congrArg List.length (congrFun hbuilt .east)
    revert heast
    decide +kernel
  · have heast := congrArg List.length (congrFun hsame .east)
    revert heast
    decide +kernel

end Butterfly
