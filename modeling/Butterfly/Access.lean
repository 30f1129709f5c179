import Butterfly.Refresh

/-!
# What a change of the model means for the firewalls

The filter of a NIC is made of the texts of the rules of its groups.  Every
action but `sg_rule_add` either rebuilds the firewall of a NIC or leaves both the
firewall and these texts as they were.
-/

namespace Butterfly

open Std Foundation Butterfly.Graph

/-! ## The texts a filter is made of -/

/-- The rules of a group; a missing group has none. -/
def rulesOf (groups : ExtTreeMap String Sg) (name : String) : List Rule :=
  (groups[name]?.map fun sg => mapValues sg.rules).getD []

def membersOf (groups : ExtTreeMap String Sg) (name : String) : List Ip :=
  (groups[name]?.map Sg.members).getD []

def ruleTexts (groups : ExtTreeMap String Sg) (nic : Nic) : List (List String) :=
  nic.securityGroups.map fun name => (rulesOf groups name).map (fwBuildRule groups)

theorem sourceText_eq (groups : ExtTreeMap String Sg) (rule : Rule) :
    sourceText groups rule =
      if rule.securityGroup = "" then
        if rule.cidr.maskSize ≠ 0 then
          (if rule.direction = .outbound then "dst" else "src") ++ " net " ++
            rule.cidr.address.str ++ "/" ++ toString rule.cidr.maskSize.toNat
        else if rule.cidr.address.type = .v4 then "ip"
        else "ip6"
      else if membersOf groups rule.securityGroup = [] then ""
      else " (" ++ membersText (membersOf groups rule.securityGroup) ++ ")" := by
  unfold sourceText membersOf
  cases groups[rule.securityGroup]? <;> rfl

theorem sourceText_ne_empty {groups : ExtTreeMap String Sg} {rule : Rule}
    (hname : rule.securityGroup = "") : sourceText groups rule ≠ "" := by
  unfold sourceText
  rw [if_pos hname]
  split
  · simp
  · split <;> decide

theorem fwBuildRule_ne_empty {groups : ExtTreeMap String Sg} {rule : Rule} {ports : String}
    (hname : rule.securityGroup = "") (hports : portsText rule = some ports) :
    fwBuildRule groups rule ≠ "" := by
  have hsource : sourceText groups rule ≠ "" := sourceText_ne_empty hname
  unfold fwBuildRule
  simp only [hports, if_neg hsource]
  intro hempty
  rw [String.append_assoc, String.append_eq_empty_iff] at hempty
  exact hsource hempty.1

theorem fwBuildRule_congr {groups groups' : ExtTreeMap String Sg} {rule : Rule}
    (h : membersOf groups' rule.securityGroup = membersOf groups rule.securityGroup) :
    fwBuildRule groups' rule = fwBuildRule groups rule := by
  unfold fwBuildRule
  rw [sourceText_eq, sourceText_eq, h]

theorem ruleTexts_congr {groups groups' : ExtTreeMap String Sg} {nic : Nic}
    (hrules : ∀ name ∈ nic.securityGroups,
      rulesOf groups' name = rulesOf groups name)
    (hmembers : ∀ name ∈ nic.securityGroups, ∀ rule ∈ rulesOf groups name,
      membersOf groups' rule.securityGroup = membersOf groups rule.securityGroup) :
    ruleTexts groups' nic = ruleTexts groups nic := by
  unfold ruleTexts
  apply List.map_congr_left
  intro name hname
  rw [hrules name hname]
  apply List.map_congr_left
  intro rule hrule
  exact fwBuildRule_congr (hmembers name hname rule hrule)

theorem inRules_eq (groups : ExtTreeMap String Sg) (nic : Nic) :
    inRules groups nic = orLoop ((ruleTexts groups nic).map orLoop) := by
  unfold inRules ruleTexts
  rw [List.map_map]
  congr 1
  apply List.map_congr_left
  intro name _
  unfold groupText rulesOf fwBuildSg
  simp only [Function.comp]
  cases groups[name]? <;> rfl

theorem mem_rulesOf {groups : ExtTreeMap String Sg} {name : String} {rule : Rule} :
    rule ∈ rulesOf groups name ↔
      ∃ sg : Sg, groups[name]? = some sg ∧ rule ∈ mapValues sg.rules := by
  unfold rulesOf
  cases groups[name]? <;> simp

theorem refers_iff {groups : ExtTreeMap String Sg} {name named : String} :
    Refers groups name named ↔
      ∃ rule ∈ rulesOf groups name, rule.securityGroup = named := by
  simp only [Refers, mem_rulesOf]
  constructor
  · rintro ⟨sg, hsg, rule, hrule, heq⟩
    exact ⟨rule, ⟨sg, hsg, hrule⟩, heq⟩
  · rintro ⟨rule, ⟨sg, hsg, hrule⟩, heq⟩
    exact ⟨sg, hsg, rule, hrule, heq⟩

/-! ## Rebuilt or kept -/

structure Kept (s s' : Server) (id : String) (nic : Nic) : Prop where
  old : ∃ old, s.model.nics[id]? = some old ∧ viewOf nic s' = viewOf old s ∧
    SameFiltering old nic
  texts : ruleTexts s'.model.securityGroups nic = ruleTexts s.model.securityGroups nic

structure Settles (s s' : Server) : Prop where
  nics : ∀ {id : String} {nic}, s'.model.nics[id]? = some nic →
    nic.bypassFiltering = false → Rebuilt nic s' ∨ Kept s s' id nic

theorem Settles.refl (s : Server) : Settles s s :=
  ⟨fun hnic _ => .inr ⟨⟨_, hnic, rfl, .refl _⟩, rfl⟩⟩

theorem settles_of_refreshes (s : Server) {s₁ s' : Server} (h : Refreshes s₁ s')
    (hnics : s₁.model.nics = s.model.nics)
    (hviews : ∀ nic, viewOf nic s₁ = viewOf nic s)
    (htexts : ∀ {id : String} {nic}, s.model.nics[id]? = some nic →
      nic.bypassFiltering = false → ¬Rebuilt nic s' →
      ruleTexts s₁.model.securityGroups nic = ruleTexts s.model.securityGroups nic) :
    Settles s s' := by
  constructor
  intro id nic hnic hfilter
  by_cases hrebuilt : Rebuilt nic s'
  · exact .inl hrebuilt
  · right
    rw [h.tuned.model] at hnic
    have hold := hnic
    rw [hnics] at hold
    refine ⟨⟨nic, hold, ?_, .refl nic⟩, ?_⟩
    · rcases h.views hnic hfilter with hsame | hnew
      · exact hsame.trans (hviews nic)
      · exact absurd hnew hrebuilt
    · rw [h.tuned.model]
      exact htexts hold hfilter hrebuilt

/-! ## Changes of security groups -/

section Groups

variable {P : Platform} {ambient : Ambient} {s : Server}

theorem viewOf_setSg (id : String) (sg : Sg) (nic : Nic) (s : Server) :
    viewOf nic (Api.setSg id sg s) = viewOf nic s := rfl

theorem groups_setSg (id a : String) (sg : Sg) (s : Server) :
    (Api.setSg id sg s).model.securityGroups[a]? =
      if id = a then some sg else s.model.securityGroups[a]? := by
  simp only [Api.setSg, Server.modifyModel_model, lookup_insert]

theorem rulesOf_congr {groups groups' : ExtTreeMap String Sg} {name : String}
    (h : groups'[name]? = groups[name]?) : rulesOf groups' name = rulesOf groups name := by
  rw [rulesOf, h, rulesOf]

theorem membersOf_congr {groups groups' : ExtTreeMap String Sg} {name : String}
    (h : groups'[name]? = groups[name]?) :
    membersOf groups' name = membersOf groups name := by
  rw [membersOf, h, membersOf]

theorem settles_replaced (s : Server) {s₁ : Server} {id : String} (sg : Sg)
    (hid : sg.id = id) (hok : AcceptsRules ambient) (hagree : Agree s₁)
    (hnics : s₁.model.nics = s.model.nics)
    (hviews : ∀ nic, viewOf nic s₁ = viewOf nic s)
    (hgroups : ∀ a, a ≠ id → s₁.model.securityGroups[a]? = s.model.securityGroups[a]?) :
    Settles s (Api.sgUpdateRuleMembers ambient sg (Api.sgUpdate ambient sg s₁)) := by
  obtain ⟨hfirst, hlisting⟩ := sgUpdate_refreshes hok hagree sg
  obtain ⟨hsecond, hreferring⟩ := sgUpdateRuleMembers_refreshes hok
    (hagree.tuned hfirst.tuned) sg
  refine settles_of_refreshes s (hfirst.trans hsecond) hnics hviews ?_
  intro a nic hnic hfilter hnot
  rw [← hnics] at hnic
  have hnic' := hnic
  rw [← hfirst.tuned.model] at hnic'
  have hunlisted : id ∉ nic.securityGroups := by
    intro hlists
    rw [← hid] at hlists
    exact hnot (hsecond.rebuilt hnic' hfilter (hlisting hnic hfilter hlists))
  have hrules : ∀ name ∈ nic.securityGroups,
      rulesOf s₁.model.securityGroups name = rulesOf s.model.securityGroups name := by
    intro name hname
    apply rulesOf_congr
    apply hgroups
    rintro rfl
    exact hunlisted hname
  refine ruleTexts_congr hrules ?_
  intro name hname rule hrule
  apply membersOf_congr
  apply hgroups
  intro hnamed
  refine hnot (hreferring hnic' hfilter hname ?_)
  rw [hfirst.tuned.model, refers_iff, hid]
  exact ⟨rule, by rw [hrules name hname]; exact hrule, hnamed⟩

theorem actionSgAdd_settles (hok : AcceptsRules ambient) (h : Agree s) (sg : Sg) :
    Settles s (Api.actionSgAdd ambient sg s) := by
  have hset := settles_replaced s sg rfl hok (h.setSg sg rfl) rfl
    (fun nic => viewOf_setSg sg.id sg nic s) fun a ha => by
      rw [groups_setSg, if_neg (Ne.symm ha)]
  unfold Api.actionSgAdd
  split
  · split
    · exact .refl s
    · exact hset
  · exact hset

theorem actionSgDel_settles (hok : AcceptsRules ambient) (h : Agree s) (id : String) :
    Settles s (Api.actionSgDel ambient id s) := by
  unfold Api.actionSgDel
  split
  · exact .refl s
  · next sg hsg =>
      refine settles_replaced s sg (h.sgIds hsg) hok (h.eraseSg id) rfl (fun _ => rfl) ?_
      intro a ha
      simp only [Server.modifyModel_model, lookup_erase, if_neg (Ne.symm ha)]

theorem actionSgRuleDel_settles (hok : AcceptsRules ambient) (h : Agree s)
    (sgId : String) (rule : Rule) :
    Settles s (Api.actionSgRuleDel P ambient sgId rule s) := by
  unfold Api.actionSgRuleDel
  split
  · exact .refl s
  · next sg hsg =>
      split
      · exact .refl s
      · have hid : sg.id = sgId := h.sgIds hsg
        obtain ⟨hrefresh, hlisting⟩ := sgUpdate_refreshes hok (h.setSg
          { sg with rules := sg.rules.erase (rule.hash P) } hid)
          { sg with rules := sg.rules.erase (rule.hash P) }
        refine settles_of_refreshes s hrefresh rfl (fun _ => rfl) ?_
        intro a nic hnic hfilter hnot
        have hunlisted : sgId ∉ nic.securityGroups := by
          intro hlists
          rw [← hid] at hlists
          exact hnot (hlisting hnic hfilter hlists)
        apply ruleTexts_congr
        · intro name hname
          apply rulesOf_congr
          rw [groups_setSg, if_neg]
          rintro rfl
          exact hunlisted hname
        · intro name hname r hr
          unfold membersOf
          rw [groups_setSg]
          split
          · next heq => rw [← heq, hsg]; rfl
          · rfl

theorem settles_members (s : Server) {id : String} {sg : Sg} (members : List Ip)
    (hok : AcceptsRules ambient) (h : Agree s) (hid : sg.id = id)
    (hrules : mapValues sg.rules = rulesOf s.model.securityGroups id) :
    Settles s (Api.sgUpdateRuleMembers ambient { sg with members := members }
      (Api.setSg id { sg with members := members } s)) := by
  obtain ⟨hrefresh, hreferring⟩ := sgUpdateRuleMembers_refreshes hok
    (h.setSg { sg with members := members } hid)
    { sg with members := members }
  refine settles_of_refreshes s hrefresh rfl (fun _ => rfl) ?_
  intro a nic hnic hfilter hnot
  have hsame : ∀ name, rulesOf (Api.setSg id { sg with members := members }
      s).model.securityGroups name = rulesOf s.model.securityGroups name := by
    intro name
    by_cases hname : id = name
    · subst hname
      rw [← hrules, rulesOf, groups_setSg, if_pos rfl]
      rfl
    · apply rulesOf_congr
      rw [groups_setSg, if_neg hname]
  refine ruleTexts_congr (fun name _ => hsame name) ?_
  intro name hname rule hrule
  apply membersOf_congr
  rw [groups_setSg, if_neg]
  intro hnamed
  refine hnot (hreferring hnic hfilter hname ?_)
  rw [refers_iff]
  exact ⟨rule, by rw [hsame]; exact hrule, hnamed.symm.trans hid.symm⟩

theorem texts_ensureSg (s : Server) (id : String) (nic : Nic) :
    ruleTexts (Api.ensureSg id s).2.model.securityGroups nic =
      ruleTexts s.model.securityGroups nic ∧
    mapValues (Api.ensureSg id s).1.rules =
      rulesOf (Api.ensureSg id s).2.model.securityGroups id := by
  unfold Api.ensureSg
  cases hsg : s.model.securityGroups[id]? with
  | some sg => exact ⟨rfl, by simp [rulesOf, hsg]⟩
  | none =>
      have hsame : ∀ name, (Api.setSg id { id := id } s).model.securityGroups[name]? =
          if id = name then some { id := id } else s.model.securityGroups[name]? :=
        fun name => groups_setSg id name { id := id } s
      refine ⟨ruleTexts_congr ?_ ?_, by simp [rulesOf, hsame]⟩
      · intro name _
        simp only [rulesOf, hsame]
        split
        · next h => simp [← h, hsg]
        · rfl
      · intro name _ rule _
        simp only [membersOf, hsame]
        split
        · next h => simp [← h, hsg]
        · rfl

theorem ensureSg_nics (s : Server) (id : String) :
    (Api.ensureSg id s).2.model.nics = s.model.nics := by
  unfold Api.ensureSg
  split <;> rfl

theorem viewOf_ensureSg (s : Server) (id : String) (nic : Nic) :
    viewOf nic (Api.ensureSg id s).2 = viewOf nic s := by
  unfold Api.ensureSg
  split <;> rfl

theorem settles_ensureSg {s s' : Server} (id : String)
    (h : Settles (Api.ensureSg id s).2 s') : Settles s s' := by
  constructor
  intro a nic hnic hfilter
  rcases h.nics hnic hfilter with hrebuilt | hkept
  · exact .inl hrebuilt
  · obtain ⟨old, hold, hview, hsame⟩ := hkept.old
    rw [ensureSg_nics] at hold
    rw [viewOf_ensureSg] at hview
    exact .inr ⟨⟨old, hold, hview, hsame⟩,
      hkept.texts.trans (texts_ensureSg s id nic).1⟩

theorem actionSgMemberAdd_settles (hok : AcceptsRules ambient) (h : Agree s)
    (sgId : String) (ip : Ip) :
    Settles s (Api.actionSgMemberAdd ambient sgId ip s) := by
  obtain ⟨hagree, -, hid⟩ := h.ensureSg sgId
  have hrules := (texts_ensureSg s sgId {}).2
  apply settles_ensureSg sgId
  unfold Api.actionSgMemberAdd
  split
  next sg s₁ heq =>
    rw [heq] at hagree hid hrules ⊢
    split
    · exact .refl s₁
    · exact settles_members s₁ (sg.members ++ [ip]) hok hagree hid hrules

theorem actionSgMemberDel_settles (hok : AcceptsRules ambient) (h : Agree s)
    (sgId : String) (ip : Ip) :
    Settles s (Api.actionSgMemberDel ambient sgId ip s) := by
  unfold Api.actionSgMemberDel
  split
  · exact .refl s
  · next sg hsg =>
      split
      · exact .refl s
      · exact settles_members s _ hok h (h.sgIds hsg) (by simp [rulesOf, hsg])

end Groups

/-! ## Changes of NICs -/

theorem viewOf_eq {p : Op Rpc Direct → Prop} {nic nic' : Nic} {s s' : Server}
    (hfw : (s'.findNic nic').map GraphNic.firewall =
      (s.findNic nic).map GraphNic.firewall)
    (happends : Appends p s s')
    (hoff : ∀ gn op, s.findNic nic = some gn → p op → ¬FirewallOp gn.firewall op) :
    viewOf nic' s' = viewOf nic s := by
  obtain ⟨ops, hops, hp⟩ := happends
  unfold viewOf
  cases hgn : s.findNic nic with
  | none =>
      rw [hgn, Option.map_none, Option.map_eq_none_iff] at hfw
      rw [hfw]
      rfl
  | some gn =>
      rw [hgn, Option.map_some] at hfw
      obtain ⟨gn', hgn', heq⟩ := Option.map_eq_some_iff.mp hfw
      rw [hgn', Option.map_some, Option.map_some, heq, hops, fwView_append,
        FwView.after_of_off fun op hop => hoff gn op hgn (hp op hop)]

theorem offFirewall_fwNewOps (ok : PgCall → Bool) (nic : Nic) (serial : Nat) :
    ∀ op ∈ fwNewOps ok nic serial, OffFirewall op := by
  simp [fwNewOps]

theorem offFirewall_of_scrap {serial : Nat} {op : Op Rpc Direct}
    (h : ScrapOp serial op) : OffFirewall op := by
  cases h with
  | calm h => exact offFirewall_of_calm h
  | destroy => rintro b ⟨⟩

theorem keepBranch_ops (ok : PgCall → Bool) {nic : Nic} (gn : GraphNic)
    {s : Server} {vni : GraphVni} (hstarted : s.started = true)
    (hvni : s.vnis[nic.vni]? = some vni) (hnew : vni.nics[nic.id]? = none) :
    ∃ list, (keepBranch ok nic gn s).ops = s.ops ++ .push (.updatePoll list) ::
      if nic.bypassFiltering then []
      else fwUpdateOps ok gn.firewall (inRules s.model.securityGroups nic)
        (outRules nic) := by
  rw [keepBranch_eq hstarted hvni hnew]
  exact ⟨_, rfl⟩

def addedRules (ok : PgCall → Bool) (nic : Nic) (accepted : Bool) (s : Server) :
    List (Op Rpc Direct) :=
  if accepted = true ∧ nic.bypassFiltering = false then
    fwUpdateOps ok ⟨.firewall, s.nextSerial⟩ (inRules s.model.securityGroups nic)
      (outRules nic)
  else []

theorem Graph.Created.log {ok : PgCall → Bool} {nic : Nic} {s s₁ : Server}
    (h : Created ok nic (openVni nic.vni s) s₁) :
    ∃ ops, (∀ op ∈ ops, OffFirewall op) ∧ s₁.ops = s.ops ++ ops := by
  obtain ⟨-, -, ops, hops, rfl⟩ := h
  refine ⟨_, fun op hop => ?_, rfl⟩
  simp only [List.mem_append] at hop
  rcases hop with (hop | hop) | hop
  · exact offFirewall_fwNewOps _ _ _ op hop
  · exact offFirewall_of_calm (hops op hop)
  · obtain ⟨link, -, rfl⟩ := List.mem_map.mp hop
    simp [linkOp, Direct.firewall?]

theorem log_keepBranch {ok : PgCall → Bool} {nic : Nic} {s s₂ : Server}
    {vni : GraphVni} (links : List (Op Rpc Direct))
    (hstarted : s₂.started = true) (hmodel : s₂.model = s.model)
    (hvni : s₂.vnis[nic.vni]? = some vni) (hnew : vni.nics[nic.id]? = none)
    (hlinks : ∀ op ∈ links, OffFirewall op) (hops : s₂.ops = s.ops ++ links) :
    ∃ ops, (∀ op ∈ ops, OffFirewall op) ∧
      (keepBranch ok nic (newBranch nic s.nextSerial) s₂).ops =
        s.ops ++ (ops ++ addedRules ok nic true s) := by
  obtain ⟨list, hkeep⟩ := keepBranch_ops ok (newBranch nic s.nextSerial) hstarted
    hvni hnew
  refine ⟨links ++ [.push (.updatePoll list)], ?_, ?_⟩
  · intro op hop
    rcases List.mem_append.mp hop with hop | hop
    · exact hlinks op hop
    · obtain rfl := List.mem_singleton.mp hop
      simp
  · rw [hkeep, hops, hmodel, addedRules]
    cases nic.bypassFiltering <;> simp [newBranch]

theorem Graph.NicAdded.log {ok : PgCall → Bool} {nic : Nic} {s s' : Server}
    {accepted : Bool} (hstarted : s.started = true)
    (hnew : (vniEntry nic.vni s).nics[nic.id]? = none)
    (h : NicAdded ok nic s accepted s') :
    ∃ ops, (∀ op ∈ ops, OffFirewall op) ∧
      s'.ops = s.ops ++ (ops ++ addedRules ok nic accepted s) := by
  cases h with
  | abandoned h =>
      obtain ⟨-, ops, hops, rfl⟩ := h
      refine ⟨_, fun op hop => ?_, by simp [addedRules, openVni]; rfl⟩
      rcases List.mem_append.mp hop with hop | hop
      · exact offFirewall_fwNewOps _ _ _ op hop
      · exact offFirewall_of_scrap (hops op hop)
  | @first s₁ hcreated hsize =>
      obtain ⟨ops, hops, heq⟩ := hcreated.log
      obtain ⟨hframe, hmodel, -, -⟩ := Created.effect hcreated
      refine log_keepBranch (ops ++ [_, _])
        (hframe.started.trans hstarted) hmodel hcreated.lookup hnew
        ?_ (by rw [Server.emits_ops, heq, List.append_assoc])
      rw [List.forall_mem_append]
      exact ⟨hops, by simp⟩
  | @noSwitch s₁ hcreated hsize =>
      obtain ⟨ops, hops, heq⟩ := hcreated.log
      refine ⟨ops ++ (destroyOps _ ++ destroyOps _), ?_, by simp [addedRules, heq]; rfl⟩
      simp only [List.forall_mem_append]
      exact ⟨hops, offFirewall_destroyOps, offFirewall_destroyOps⟩
  | @stuck s₁ gn₁ hcreated hsize =>
      obtain ⟨ops, hops, heq⟩ := hcreated.log
      refine ⟨ops ++ (destroyOps _ ++ destroyOps _), ?_, by simp [addedRules, heq]; rfl⟩
      simp only [List.forall_mem_append]
      exact ⟨hops, offFirewall_destroyOps, offFirewall_destroyOps⟩
  | @second s₁ gn₁ hcreated hsize =>
      obtain ⟨ops, hops, heq⟩ := hcreated.log
      obtain ⟨hframe, hmodel, -, -⟩ := Created.effect hcreated
      have hlookup : s₁.takeSerial.vnis[nic.vni]? = some (vniEntry nic.vni s) :=
        hcreated.lookup
      have hentry : (s₁.takeSerial.updateVni nic.vni (withSwitch
          (some ⟨.switch, s.nextSerial + 1⟩))).vnis[nic.vni]? =
            some (withSwitch (some ⟨.switch, s.nextSerial + 1⟩)
              (vniEntry nic.vni s)) := by
        rw [lookup_updateVni _ hlookup, if_pos rfl]
      refine log_keepBranch (ops ++ (destroyOps _ ++ [_, _, _, _, _]))
        (hframe.started.trans hstarted) hmodel hentry hnew
        ?_ (by rw [Server.emits_ops, Server.updateVni_ops, Server.takeSerial_ops,
          heq, List.append_assoc])
      simp only [List.forall_mem_append]
      exact ⟨hops, offFirewall_destroyOps, by simp [Direct.firewall?]⟩
  | @further s₁ sw hcreated hsize hsw =>
      obtain ⟨ops, hops, heq⟩ := hcreated.log
      obtain ⟨hframe, hmodel, -, -⟩ := Created.effect hcreated
      refine log_keepBranch (ops ++ [_])
        (hframe.started.trans hstarted) hmodel hcreated.lookup hnew
        ?_ (by rw [Server.emits_ops, heq, List.append_assoc])
      rw [List.forall_mem_append]
      exact ⟨hops, by simp⟩

theorem Graph.NicDeleted.log {nic : Nic} {s s' : Server} (h : NicDeleted nic s s') :
    Appends OffFirewall s s' := by
  have hfirewall : ∀ n, ∀ op ∈ destroyFirewallOps n, OffFirewall op := by
    simp [destroyFirewallOps]
  cases h with
  | absent hnone => exact .refl _ s
  | @last vni n hvni hn hsize =>
      refine ⟨_, rfl, ?_⟩
      simp only [List.forall_mem_cons, List.forall_mem_append]
      exact ⟨by simp, by simp, ⟨hfirewall n, offFirewall_destroyOps⟩,
        offFirewall_destroyOps⟩
  | @ofTwo vni n other sw hvni hn hsize =>
      refine ⟨_, rfl, ?_⟩
      simp only [List.forall_mem_append]
      exact ⟨by simp [Direct.firewall?], hfirewall n, offFirewall_destroyOps⟩
  | @ofMany vni n hvni hn hsize =>
      refine ⟨_, rfl, ?_⟩
      simp only [List.forall_mem_cons, List.forall_mem_append]
      exact ⟨by simp, by simp, hfirewall n, offFirewall_destroyOps⟩

section Nics

variable {P : Platform} {ambient : Ambient} {s s' : Server}

theorem removeNic_views (h : Agree s) {id id' : String} {nic : Nic}
    (hdel : Api.removeNic id s = some s') (hnic : s'.model.nics[id']? = some nic) :
    s.model.nics[id']? = some nic ∧ viewOf nic s' = viewOf nic s := by
  obtain ⟨-, -, hmodel⟩ := h.removeNic hdel
  rw [hmodel] at hnic
  simp only [lookup_erase] at hnic
  split at hnic
  · cases hnic
  next hne =>
  refine ⟨hnic, ?_⟩
  unfold Api.removeNic at hdel
  split at hdel
  · cases hdel
    rfl
  · next old hold =>
      obtain ⟨s₁, hs₁, heq⟩ := Option.bind_eq_some_iff.mp hdel
      cases heq
      have hdeleted := nicDel_cases h.graph.started h.graph.keyed hs₁
      have hbranch := hdeleted.effect.branch nic.vni nic.id
      rw [if_neg (by rw [h.nicIds hold, h.nicIds hnic]; exact fun hsame => hne hsame.2)]
        at hbranch
      refine viewOf_eq (p := OffFirewall) ?_ hdeleted.log fun _ _ _ hop => hop _
      rw [Server.modifyModel_findNic, Server.findNic_eq, Server.findNic_eq, hbranch]

theorem nicAdd_views (h : Agree s) {nic : Nic} {added : Option Nic}
    (hnew : s.model.nics[nic.id]? = none)
    (hadd : Graph.nicAdd P ambient.ok nic s = some (added, s')) :
    (∀ {id : String} {other}, s.model.nics[id]? = some other →
      viewOf other s' = viewOf other s) ∧
    (AcceptsRules ambient → added.isSome → nic.bypassFiltering = false →
      viewOf nic s' = some (builtView s.model.securityGroups nic)) := by
  have hbranch := h.branch_eq_none hnew nic.vni
  have hentry : (vniEntry nic.vni s).nics[nic.id]? = none := by
    rw [vniEntry_lookup, hbranch]
  obtain ⟨accepted, haccepted, hadded⟩ : ∃ accepted, added.isSome = accepted ∧
      NicAdded ambient.ok nic s accepted s' := by
    rcases nicAdd_cases h.graph.started hadd with ⟨rfl, hadded⟩ | ⟨rfl, hadded⟩
    · exact ⟨false, rfl, hadded⟩
    · exact ⟨true, rfl, hadded⟩
  obtain ⟨ops, hoff, hops⟩ := hadded.log h.graph.started hentry
  have hbranches := (hadded.effect h.graph.started hentry).branch hbranch
  constructor
  · intro id other hother
    have hne : nic.id ≠ other.id := by
      rw [h.nicIds hother]
      rintro rfl
      rw [hnew] at hother
      cases hother
    refine viewOf_eq (p := fun op => OffFirewall op ∨
      FirewallOp ⟨.firewall, s.nextSerial⟩ op) ?_ ⟨_, hops, ?_⟩ ?_
    · rw [Server.findNic_eq, hbranches, if_neg fun hsame => hne hsame.2.2]
      rfl
    · intro op hop
      rcases List.mem_append.mp hop with hop | hop
      · exact .inl (hoff op hop)
      · unfold addedRules at hop
        split at hop
        · exact .inr (fwUpdateOps_firewallOp hop)
        · cases hop
    · rintro gn op hgn (hop | hop)
      · exact hop _
      · -- A firewall that exists is older than the new one.
        intro hown
        obtain ⟨n, hn, hfw, -⟩ := h.graph.bricks hgn
        have heq := hown.unique hop
        rw [hfw, Brick.mk.injEq] at heq
        omega
  · intro hok hsome hfilter
    rw [hsome] at haccepted
    subst haccepted
    rw [viewOf, Server.findNic_eq, hbranches, if_pos ⟨rfl, rfl, rfl⟩, Option.map_some]
    have hfirewall : (filled nic (newBranch nic s.nextSerial)).firewall =
        ⟨.firewall, s.nextSerial⟩ := by
      simp [filled, hfilter, newBranch, setDefaultOutboundRule]
    rw [hfirewall, hops, addedRules, if_pos ⟨rfl, hfilter⟩, fwUpdateOps_eq hok,
      fwView_append, FwView.after_append, FwView.after_rebuildOps, builtView]

theorem actionNicAdd_views (h : Agree s) {nic : Nic} {added : Option Nic}
    (hadd : Api.actionNicAdd P ambient nic s = some (added, s')) :
    s'.model.securityGroups = s.model.securityGroups ∧
    (∀ {id : String} {other}, id ≠ nic.id → s'.model.nics[id]? = some other →
      s.model.nics[id]? = some other ∧ viewOf other s' = viewOf other s) ∧
    (AcceptsRules ambient → ∀ {other}, s'.model.nics[nic.id]? = some other →
      other.bypassFiltering = false → Rebuilt other s') := by
  simp only [Api.actionNicAdd, Option.bind_eq_bind] at hadd
  obtain ⟨s₀, hs₀, hadd⟩ := Option.bind_eq_some_iff.mp hadd
  obtain ⟨⟨result, s₁⟩, hs₁, hadd⟩ := Option.bind_eq_some_iff.mp hadd
  obtain ⟨hagree, -, hmodel⟩ := h.removeNic hs₀
  have hnew : s₀.model.nics[nic.id]? = none := by
    simp [hmodel]
  obtain ⟨hothers, hown⟩ := nicAdd_views hagree hnew hs₁
  have hadded := nicAdd_cases hagree.graph.started hs₁
  have hmodel₁ : s₁.model = s₀.model := by
    have hbranch := hagree.branch_eq_none hnew nic.vni
    rw [← vniEntry_lookup] at hbranch
    rcases hadded with ⟨-, hadded⟩ | ⟨-, hadded⟩ <;>
      exact (hadded.effect hagree.graph.started hbranch).model
  have hgroups : s₁.model.securityGroups = s.model.securityGroups := by
    rw [hmodel₁, hmodel]
  -- The other NICs are as they were, in the model and in the graph.
  have hkept : ∀ {id : String} {other}, s₀.model.nics[id]? = some other →
      s.model.nics[id]? = some other ∧ viewOf other s₁ = viewOf other s := by
    intro id other hother
    obtain ⟨hold, hview⟩ := removeNic_views h hs₀ hother
    exact ⟨hold, (hothers hother).trans hview⟩
  rcases hadded with ⟨rfl, -⟩ | ⟨rfl, -⟩
  · cases hadd
    refine ⟨hgroups, fun _ hother => hkept (by rwa [hmodel₁] at hother), ?_⟩
    intro _ other hother
    rw [hmodel₁, hnew] at hother
    cases hother
  · cases hadd
    simp only [Server.modifyModel_model, lookup_insertIfNew, hmodel₁, hnew, Option.getD_none]
    refine ⟨by rw [← hmodel₁, hgroups], fun hne hother => ?_, fun hok other hother hfilter => ?_⟩
    · rw [if_neg (Ne.symm hne)] at hother
      exact hkept hother
    · rw [if_pos trivial] at hother
      cases hother
      have hview := hown hok rfl hfilter
      rw [← hmodel₁] at hview
      exact hview

theorem actionNicAdd_settles (hok : AcceptsRules ambient) (h : Agree s) {nic : Nic}
    {added : Option Nic}
    (hadd : Api.actionNicAdd P ambient nic s = some (added, s')) :
    Settles s s' := by
  obtain ⟨hgroups, hothers, hown⟩ := actionNicAdd_views h hadd
  constructor
  intro id other hother hfilter
  by_cases hid : id = nic.id
  · subst hid
    exact .inl (hown hok hother hfilter)
  · obtain ⟨hold, hview⟩ := hothers hid hother
    exact .inr ⟨⟨other, hold, hview, .refl other⟩, by rw [hgroups]⟩

theorem actionNicDel_settles (h : Agree s) {id : String}
    (hdel : Api.actionNicDel id s = some s') : Settles s s' := by
  obtain ⟨-, -, hmodel⟩ := h.removeNic hdel
  constructor
  intro id' nic hnic _
  obtain ⟨hold, hview⟩ := removeNic_views h hdel hnic
  exact .inr ⟨⟨nic, hold, hview, .refl nic⟩, by rw [hmodel]⟩

/-! ### Updates of a NIC -/

/-- Firewalls, groups and all NICs but one are as before. -/
structure Elsewhere (id : String) (s s' : Server) : Prop where
  views : ∀ nic, viewOf nic s' = viewOf nic s
  groups : s'.model.securityGroups = s.model.securityGroups
  nics : ∀ a : String, a ≠ id → s'.model.nics[a]? = s.model.nics[a]?

theorem Elsewhere.trans {id : String} {a b c : Server} (hab : Elsewhere id a b)
    (hbc : Elsewhere id b c) : Elsewhere id a c :=
  ⟨fun nic => (hbc.views nic).trans (hab.views nic), hbc.groups.trans hab.groups,
    fun a ha => (hbc.nics a ha).trans (hab.nics a ha)⟩

theorem elsewhere_setNic (id : String) (n : Nic) (s : Server) :
    Elsewhere id s (Api.setNic id n s) := by
  refine ⟨fun _ => rfl, rfl, fun a ha => ?_⟩
  simp only [Api.setNic, Server.modifyModel_model, lookup_insert, if_neg (Ne.symm ha)]

theorem elsewhere_tuned (id : String) (h : Tuned OffFirewall s s') :
    Elsewhere id s s' :=
  ⟨fun _ => viewOf_offFirewall h, by rw [h.model], fun _ _ => by rw [h.model]⟩

theorem Stage.elsewhere {id : String} {n n' : Nic} (h : Stage id n n' s s') :
    Elsewhere id s s' := by
  rcases h.server with ⟨rfl, -⟩ | ⟨t, ht, rfl⟩
  · exact elsewhere_tuned id (.refl _ s')
  · exact (elsewhere_tuned id ht).trans (elsewhere_setNic _ _ _)

theorem UpdateStages.elsewhere {update : NicUpdate} {old n₂ n₃ : Nic}
    {s₁ s₂ s₃ : Server}
    (h : UpdateStages P ambient update old s s' n₂ n₃ s₁ s₂ s₃) :
    Elsewhere update.id s s₃ := by
  have hone : Elsewhere update.id s s₁ := by
    rw [h.antiSpoof]
    exact (elsewhere_setNic _ _ _).trans
      (elsewhere_tuned _ (refreshAntiSpoof_tuned _ _ _ _))
  exact hone.trans ((updateTrace_stage h.trace).elsewhere.trans
    (updateTracePath_stage h.path).elsewhere)

theorem UpdateStages.filtering {update : NicUpdate} {old n₂ n₃ : Nic}
    {s₁ s₂ s₃ : Server}
    (h : UpdateStages P ambient update old s s' n₂ n₃ s₁ s₂ s₃) :
    SameFiltering (Api.revise update old) n₃ :=
  (updateTrace_stage h.trace).filtering.trans (updateTracePath_stage h.path).filtering

theorem actionNicUpdate_settles (hok : AcceptsRules ambient) (h : Agree s)
    {update : NicUpdate} {error : Option String}
    (hupdate : Api.actionNicUpdate P ambient update s = some (error, s')) :
    Settles s s' := by
  rcases actionNicUpdate_cases hupdate with ⟨-, -, rfl⟩ |
      ⟨-, old, hold, n₂, n₃, s₁, s₂, s₃, hstages⟩
  · exact .refl s'
  obtain ⟨-, -, hthree, hfinal⟩ := hstages.holds h hold
  have helse := hstages.elsewhere
  have hfiltering := hstages.filtering
  have htuned : Tuned _ s₃ (Api.refreshFirewall ambient update old n₃ s₃) :=
    refreshFirewall_tuned update old n₃ s₃
  rw [← hstages.firewall] at htuned
  constructor
  intro id nic hnic hfilter
  by_cases hid : id = update.id
  · subst hid
    obtain rfl : n₃ = nic := by
      have hsame := hfinal.lookup.symm.trans hnic
      exact Option.some.inj hsame
    rw [hstages.firewall]
    unfold Api.refreshFirewall
    split
    · exact .inl (fwUpdate_rebuilt hok hthree.agree.graph.started hfilter hthree.findNic)
    · -- Neither addresses nor groups have changed.
      next hchanged =>
        simp only [Bool.or_eq_true, not_or, Bool.not_eq_true] at hchanged
        have hrevised : SameFiltering old (Api.revise update old) :=
          ⟨rfl, by simp [Api.revise, hchanged.1], by simp [Api.revise, hchanged.2]⟩
        have hsame := hrevised.trans hfiltering
        refine .inr ⟨⟨old, hold, ?_, hsame⟩, by rw [helse.groups]⟩
        rw [helse.views, viewOf, viewOf, Server.findNic_eq, Server.findNic_eq,
          (updateTracePath_stage hstages.path).id, (updateTrace_stage hstages.trace).id,
          (updateTracePath_stage hstages.path).vni, (updateTrace_stage hstages.trace).vni]
        rfl
  · have hnic₃ := hnic
    rw [htuned.model] at hnic₃
    have hother := hnic₃
    rw [helse.nics id hid] at hother
    refine .inr ⟨⟨nic, hother, ?_, .refl nic⟩, by rw [htuned.model, helse.groups]⟩
    rw [← helse.views, hstages.firewall]
    unfold Api.refreshFirewall
    split
    · exact viewOf_tuned (fwUpdate_tunedOwn ambient.ok n₃ s₃)
        (hthree.agree.off_other hthree.lookup hnic₃ (Ne.symm hid))
    · rfl

end Nics

def Action.AddsRule : Action → Prop
  | .sgRuleAdd _ _ => True
  | _ => False

theorem perform_settles {P : Platform} {ambient : Ambient} {s s' : Server}
    {a : Action} {accepted : Bool} (hok : AcceptsRules ambient) (h : Agree s)
    (ha : perform P ambient a s = some (accepted, s')) (hrule : ¬a.AddsRule) :
    Settles s s' := by
  cases a with
  | nicAdd nic =>
      obtain ⟨⟨added, t⟩, hadd, heq⟩ := Option.map_eq_some_iff.mp ha
      cases heq
      exact actionNicAdd_settles hok h hadd
  | nicUpdate update =>
      obtain ⟨⟨error, t⟩, hupdate, heq⟩ := Option.map_eq_some_iff.mp ha
      cases heq
      exact actionNicUpdate_settles hok h hupdate
  | nicDel id =>
      obtain ⟨t, hdel, heq⟩ := Option.map_eq_some_iff.mp ha
      cases heq
      exact actionNicDel_settles h hdel
  | sgAdd sg =>
      cases ha
      exact actionSgAdd_settles hok h sg
  | sgDel id =>
      cases ha
      exact actionSgDel_settles hok h id
  | sgRuleAdd sgId rule => exact absurd trivial hrule
  | sgRuleDel sgId rule =>
      cases ha
      exact actionSgRuleDel_settles hok h sgId rule
  | sgMemberAdd sgId ip =>
      cases ha
      exact actionSgMemberAdd_settles hok h sgId ip
  | sgMemberDel sgId ip =>
      cases ha
      exact actionSgMemberDel_settles hok h sgId ip

end Butterfly
