import Butterfly.Direction
import Butterfly.Fanout
import Butterfly.Store

/-!
# The side of a rule

An outbound rule belongs on the east side of a firewall and any other rule on the
west side.  `FwAddRule` knows this, `FwUpdate` does not: it joins all rules on the
west side and puts the default filter back.  The sides are right in every run in
which no firewall with outbound rules is rebuilt.
-/

namespace Butterfly

open Std Foundation Butterfly.Graph

/-! ## The filters of a side -/

def groupRules (groups : ExtTreeMap String Sg) (nic : Nic) : List Rule :=
  nic.securityGroups.flatMap (rulesOf groups)

def holdsOutbound (groups : ExtTreeMap String Sg) (nic : Nic) : Bool :=
  (groupRules groups nic).any fun rule => rule.direction = .outbound

def sideTexts (groups : ExtTreeMap String Sg) (nic : Nic) (side : Side) : List String :=
  (((groupRules groups nic).filter fun rule => ruleSide rule = side).map
    (fwBuildRule groups)).filter (· ≠ "")

theorem mem_groupRules {groups : ExtTreeMap String Sg} {nic : Nic} {rule : Rule} :
    rule ∈ groupRules groups nic ↔ ∃ name ∈ nic.securityGroups, rule ∈ rulesOf groups name :=
  List.mem_flatMap

theorem holdsOutbound_iff {groups : ExtTreeMap String Sg} {nic : Nic} :
    holdsOutbound groups nic = true ↔
      ∃ rule ∈ groupRules groups nic, rule.direction = .outbound := by
  simp [holdsOutbound]

theorem mem_sideTexts {groups : ExtTreeMap String Sg} {nic : Nic} {side : Side} {a : String} :
    a ∈ sideTexts groups nic side ↔ a ≠ "" ∧ ∃ rule ∈ groupRules groups nic,
      ruleSide rule = side ∧ fwBuildRule groups rule = a := by
  simp only [sideTexts, List.mem_filter, List.mem_map, decide_eq_true_eq, and_assoc]
  exact and_comm

theorem ruleSide_eq_east {rule : Rule} : ruleSide rule = .east ↔ rule.direction = .outbound := by
  unfold ruleSide
  split <;> simp_all

theorem ruleSide_eq_west {rule : Rule} : ruleSide rule = .west ↔ rule.direction ≠ .outbound := by
  unfold ruleSide
  split <;> simp_all

theorem sideTexts_east_eq_nil {groups : ExtTreeMap String Sg} {nic : Nic}
    (h : holdsOutbound groups nic = false) : sideTexts groups nic .east = [] := by
  rw [List.eq_nil_iff_forall_not_mem]
  intro a ha
  obtain ⟨-, rule, hrule, hside, -⟩ := mem_sideTexts.mp ha
  have hout := holdsOutbound_iff.mpr ⟨rule, hrule, ruleSide_eq_east.mp hside⟩
  rw [h] at hout
  cases hout

theorem mem_admitted_of_inbound {groups : ExtTreeMap String Sg} {nic : Nic}
    (h : holdsOutbound groups nic = false) (a : String) :
    a ∈ admitted groups nic ↔ a ∈ sideTexts groups nic .west := by
  have hside : ∀ rule ∈ groupRules groups nic, ruleSide rule = .west := by
    intro rule hrule
    rw [ruleSide_eq_west]
    intro hout
    rw [holdsOutbound_iff.mpr ⟨rule, hrule, hout⟩] at h
    cases h
  rw [mem_admitted, mem_sideTexts]
  constructor
  · rintro ⟨hne, name, hname, rule, hrule, rfl⟩
    have hmem := mem_groupRules.mpr ⟨name, hname, hrule⟩
    exact ⟨hne, rule, hmem, hside rule hmem, rfl⟩
  · rintro ⟨hne, rule, hrule, -, rfl⟩
    obtain ⟨name, hname, hrule⟩ := mem_groupRules.mp hrule
    exact ⟨hne, name, hname, rule, hrule, rfl⟩

/-! ## A firewall whose rules are on their sides -/

/--
The west side stands for these texts.  The east side stands for the others or, if
there is no outbound rule, is the default filter alone.
-/
structure Placed (nic : Nic) (west east : List String) (outbound : Bool) (view : FwView) :
    Prop where
  reloaded : view.reloaded = true
  west : Installed (view.rules .west) west
  default : outbound = false → east = [] ∧ view.rules .east = [⟨outRules nic, true⟩]
  lifted : outbound = true → view.hasDefault = false ∧ Installed (view.rules .east) east

theorem Placed.congr {nic : Nic} {west west' east east' : List String} {outbound : Bool}
    {view : FwView} (h : Placed nic west east outbound view)
    (hwest : ∀ a, a ∈ west ↔ a ∈ west') (heast : ∀ a, a ∈ east ↔ a ∈ east') :
    Placed nic west' east' outbound view := by
  refine ⟨h.reloaded, h.west.congr hwest, fun hout => ?_, fun hout => ?_⟩
  · obtain ⟨hnil, hrules⟩ := h.default hout
    refine ⟨List.eq_nil_iff_forall_not_mem.mpr fun a ha => ?_, hrules⟩
    rw [← heast, hnil] at ha
    cases ha
  · exact ⟨(h.lifted hout).1, (h.lifted hout).2.congr heast⟩

theorem Placed.hasDefault {nic : Nic} {west east : List String} {outbound : Bool}
    {view : FwView} (h : Placed nic west east outbound view) :
    view.hasDefault = !outbound := by
  cases outbound with
  | true => exact (h.lifted rfl).1
  | false => simp [FwView.hasDefault, (h.default rfl).2]

def OnSides (nic : Nic) (s : Server) : Prop :=
  ∃ view, viewOf nic s = some view ∧
    Placed nic (sideTexts s.model.securityGroups nic .west)
      (sideTexts s.model.securityGroups nic .east)
      (holdsOutbound s.model.securityGroups nic) view

theorem Rebuilt.onSides {nic : Nic} {s : Server} (h : Rebuilt nic s)
    (hout : holdsOutbound s.model.securityGroups nic = false) : OnSides nic s := by
  refine ⟨_, h, rfl, ?_, fun _ => ⟨sideTexts_east_eq_nil hout, rfl⟩, fun hnot => ?_⟩
  · exact (installed_built _ _).congr (mem_admitted_of_inbound hout)
  · rw [hout] at hnot
    cases hnot

structure Unmoved (s s' : Server) (id : String) (nic : Nic) : Prop where
  old : ∃ old, s.model.nics[id]? = some old ∧ viewOf nic s' = viewOf old s ∧
    SameFiltering old nic
  rules : groupRules s'.model.securityGroups nic = groupRules s.model.securityGroups nic
  texts : ∀ rule ∈ groupRules s.model.securityGroups nic,
    fwBuildRule s'.model.securityGroups rule = fwBuildRule s.model.securityGroups rule

theorem Unmoved.onSides {s s' : Server} {id : String} {nic : Nic} (h : Unmoved s s' id nic)
    (hfilter : nic.bypassFiltering = false)
    (hsides : ∀ {old}, s.model.nics[id]? = some old → old.bypassFiltering = false →
      OnSides old s) : OnSides nic s' := by
  obtain ⟨old, hold, hview, hsame⟩ := h.old
  obtain ⟨view, hview', hplaced⟩ := hsides hold (hsame.bypass.symm.trans hfilter)
  have hgroups : groupRules s.model.securityGroups nic =
      groupRules s.model.securityGroups old := by
    rw [groupRules, hsame.groups, groupRules]
  have hout : holdsOutbound s'.model.securityGroups nic =
      holdsOutbound s.model.securityGroups old := by
    rw [holdsOutbound, h.rules, hgroups, holdsOutbound]
  have htexts : ∀ side, sideTexts s'.model.securityGroups nic side =
      sideTexts s.model.securityGroups old side := by
    intro side
    rw [sideTexts, h.rules, List.map_congr_left fun rule hrule =>
      h.texts rule (List.mem_filter.mp hrule).1, hgroups, sideTexts]
  refine ⟨view, hview.trans hview', ?_⟩
  rw [hout, htexts, htexts]
  refine ⟨hplaced.reloaded, hplaced.west, fun hnone => ?_, hplaced.lifted⟩
  obtain ⟨hnil, hrules⟩ := hplaced.default hnone
  exact ⟨hnil, by rw [hsame.outRules, hrules]⟩

/-! ## Rebuilding some firewalls -/

/-- `FwUpdate` on these NICs reads no outbound rule. -/
def NoneOutbound (groups : ExtTreeMap String Sg) (nics : List Nic) : Prop :=
  ∀ nic ∈ nics, nic.bypassFiltering = false → holdsOutbound groups nic = false

structure Spares (s s' : Server) : Prop where
  nics : ∀ {id : String} {nic}, s'.model.nics[id]? = some nic → nic.bypassFiltering = false →
    (Rebuilt nic s' ∧ holdsOutbound s'.model.securityGroups nic = false) ∨ Unmoved s s' id nic

section Rebuilds

variable {P : Platform} {ambient : Ambient} {s s' : Server}

theorem Spares.refl (s : Server) : Spares s s :=
  ⟨fun hnic _ => .inr ⟨⟨_, hnic, rfl, .refl _⟩, rfl, fun _ _ => rfl⟩⟩

theorem unmoved_of_groups {id : String} {nic : Nic} (hnic : s.model.nics[id]? = some nic)
    (hview : viewOf nic s' = viewOf nic s)
    (hrules : ∀ name ∈ nic.securityGroups,
      rulesOf s'.model.securityGroups name = rulesOf s.model.securityGroups name)
    (hmembers : ∀ rule ∈ groupRules s.model.securityGroups nic,
      membersOf s'.model.securityGroups rule.securityGroup =
        membersOf s.model.securityGroups rule.securityGroup) : Unmoved s s' id nic :=
  ⟨⟨nic, hnic, hview, .refl nic⟩, List.flatMap_congr hrules,
    fun rule hrule => fwBuildRule_congr (hmembers rule hrule)⟩

theorem fwUpdates_spec (hok : AcceptsRules ambient) (h : Agree s) {nics : List Nic}
    (hnics : ∀ nic ∈ nics, nic ∈ mapValues s.model.nics) {id : String} {nic : Nic}
    (hnic : s.model.nics[id]? = some nic) (hfilter : nic.bypassFiltering = false) :
    (nic ∈ nics → Rebuilt nic (Api.fwUpdates ambient nics s)) ∧
      (nic ∉ nics → viewOf nic (Api.fwUpdates ambient nics s) = viewOf nic s) := by
  induction nics generalizing s with
  | nil => exact ⟨fun hmem => absurd hmem List.not_mem_nil, fun _ => rfl⟩
  | cons first nics ih =>
      have htuned := fwUpdate_tuned ambient.ok first s
      have hnic' : (fwUpdate ambient.ok first s).model.nics[id]? = some nic := by
        rw [htuned.model]
        exact hnic
      obtain ⟨hlisted, hunlisted⟩ := ih (h.tuned htuned) (fun n hn => by
        rw [htuned.model]
        exact hnics n (List.mem_cons_of_mem _ hn)) hnic'
      refine ⟨fun hmem => ?_, fun hnot => ?_⟩
      · by_cases hrest : nic ∈ nics
        · exact hlisted hrest
        · obtain rfl : nic = first := (List.mem_cons.mp hmem).resolve_right hrest
          refine rebuilt_keeps (fwUpdate_rebuilt hok h.graph.started hfilter (h.findNic hnic))
            (hunlisted hrest) ?_
          exact Api.fwUpdates_model ambient nics _
      · rw [List.mem_cons, not_or] at hnot
        have hstart : Spared nic s s := ⟨h, rfl, rfl⟩
        have hspared : Spared nic s (fwUpdate ambient.ok first s) :=
          hstart.fwUpdate hnic (hnics first List.mem_cons_self) (Ne.symm hnot.1)
        exact (hunlisted hnot.2).trans hspared.view

theorem spares_of_calls (s : Server) {s₁ : Server} {nics : List Nic}
    (hok : AcceptsRules ambient) (h : Agree s₁) (hsame : s₁.model.nics = s.model.nics)
    (hviews : ∀ nic, viewOf nic s₁ = viewOf nic s)
    (hnics : ∀ nic ∈ nics, nic ∈ mapValues s₁.model.nics)
    (hout : NoneOutbound s₁.model.securityGroups nics)
    (hrules : ∀ nic ∈ mapValues s₁.model.nics, nic ∉ nics → ∀ name ∈ nic.securityGroups,
      rulesOf s₁.model.securityGroups name = rulesOf s.model.securityGroups name)
    (hmembers : ∀ nic ∈ mapValues s₁.model.nics, nic ∉ nics →
      ∀ rule ∈ groupRules s.model.securityGroups nic,
        membersOf s₁.model.securityGroups rule.securityGroup =
          membersOf s.model.securityGroups rule.securityGroup) :
    Spares s (Api.fwUpdates ambient nics s₁) := by
  constructor
  intro id nic hnic hfilter
  rw [Api.fwUpdates_model] at hnic ⊢
  obtain ⟨hlisted, hunlisted⟩ := fwUpdates_spec hok h hnics hnic hfilter
  have hmem := mem_mapValues.mpr ⟨id, hnic⟩
  by_cases hcalled : nic ∈ nics
  · exact .inl ⟨hlisted hcalled, hout nic hcalled hfilter⟩
  · have hold := hnic
    rw [hsame] at hold
    refine .inr (unmoved_of_groups hold ((hunlisted hcalled).trans (hviews nic)) ?_ ?_)
    · rw [Api.fwUpdates_model]
      exact hrules nic hmem hcalled
    · rw [Api.fwUpdates_model]
      exact hmembers nic hmem hcalled

/-! ### Groups -/

def replacedCalls (sg : Sg) (m : Model) : List Nic :=
  Api.sgUpdateCalls sg.id m ++ Api.sgUpdateRuleMembersCalls sg m

theorem spares_replaced (s : Server) {s₁ : Server} {id : String} (sg : Sg) (hid : sg.id = id)
    (hok : AcceptsRules ambient) (h : Agree s₁) (hnics : s₁.model.nics = s.model.nics)
    (hviews : ∀ nic, viewOf nic s₁ = viewOf nic s)
    (hgroups : ∀ a, a ≠ id → s₁.model.securityGroups[a]? = s.model.securityGroups[a]?)
    (hout : NoneOutbound s₁.model.securityGroups (replacedCalls sg s₁.model)) :
    Spares s (Api.sgUpdateRuleMembers ambient sg (Api.sgUpdate ambient sg s₁)) := by
  have hkeys : Api.SgKeys s₁.model := fun _ _ => h.sgIds
  rw [Api.sgUpdateRuleMembers_eq, Api.sgUpdate_eq, Api.fwUpdates_model, ← Api.fwUpdates_append]
  have hunlisted : ∀ nic ∈ mapValues s₁.model.nics, nic ∉ replacedCalls sg s₁.model →
      id ∉ nic.securityGroups ∧
        ∀ name ∈ nic.securityGroups, ¬Refers s₁.model.securityGroups name id := by
    intro nic hnic hnot
    rw [replacedCalls, List.mem_append, not_or] at hnot
    rw [← hid]
    exact ⟨fun hlists => hnot.1 (Api.mem_sgUpdateCalls.mpr ⟨hnic, hlists⟩),
      fun name hname hrefers => hnot.2
        ((Api.mem_sgUpdateRuleMembersCalls hkeys).mpr ⟨hnic, name, hname, hrefers⟩)⟩
  have hrules : ∀ nic ∈ mapValues s₁.model.nics, nic ∉ replacedCalls sg s₁.model →
      ∀ name ∈ nic.securityGroups,
        rulesOf s₁.model.securityGroups name = rulesOf s.model.securityGroups name := by
    intro nic hnic hnot name hname
    refine rulesOf_congr (hgroups name ?_)
    rintro rfl
    exact (hunlisted nic hnic hnot).1 hname
  refine spares_of_calls s hok h hnics hviews (fun nic hnic => ?_) hout hrules ?_
  · rcases List.mem_append.mp hnic with hnic | hnic
    · exact (Api.mem_sgUpdateCalls.mp hnic).1
    · exact ((Api.mem_sgUpdateRuleMembersCalls hkeys).mp hnic).1
  · intro nic hnic hnot rule hrule
    obtain ⟨name, hname, hrule⟩ := mem_groupRules.mp hrule
    refine membersOf_congr (hgroups _ fun hnamed => ?_)
    refine (hunlisted nic hnic hnot).2 name hname (refers_iff.mpr ⟨rule, ?_, hnamed⟩)
    rw [hrules nic hnic hnot name hname]
    exact hrule

theorem spares_rules (s : Server) {id : String} {sg : Sg} (sg' : Sg)
    (hok : AcceptsRules ambient) (h : Agree s)
    (hsg : s.model.securityGroups[id]? = some sg) (hid : sg'.id = id)
    (hmembers : sg'.members = sg.members)
    (hout : NoneOutbound (Api.setSg id sg' s).model.securityGroups
      (Api.sgUpdateCalls id (Api.setSg id sg' s).model)) :
    Spares s (Api.sgUpdate ambient sg' (Api.setSg id sg' s)) := by
  rw [Api.sgUpdate_eq, hid]
  refine spares_of_calls s hok (h.setSg sg' hid) rfl (fun _ => rfl)
    (fun nic hnic => (Api.mem_sgUpdateCalls.mp hnic).1) hout ?_ ?_
  · intro nic hnic hnot name hname
    apply rulesOf_congr
    rw [groups_setSg, if_neg]
    rintro rfl
    exact hnot (Api.mem_sgUpdateCalls.mpr ⟨hnic, hname⟩)
  · intro nic hnic hnot rule hrule
    rw [membersOf, groups_setSg]
    split
    · next heq => rw [Option.map_some, hmembers, membersOf, ← heq, hsg, Option.map_some]
    · rfl

theorem spares_members (s : Server) {id : String} {sg : Sg} (members : List Ip)
    (hok : AcceptsRules ambient) (h : Agree s) (hid : sg.id = id)
    (hrules : mapValues sg.rules = rulesOf s.model.securityGroups id)
    (hout : NoneOutbound (Api.setSg id { sg with members := members } s).model.securityGroups
      (Api.sgUpdateRuleMembersCalls { sg with members := members }
        (Api.setSg id { sg with members := members } s).model)) :
    Spares s (Api.sgUpdateRuleMembers ambient { sg with members := members }
      (Api.setSg id { sg with members := members } s)) := by
  have hagree := h.setSg { sg with members := members } hid
  have hkeys : Api.SgKeys (Api.setSg id { sg with members := members } s).model :=
    fun _ _ => hagree.sgIds
  have hsame : ∀ name, rulesOf (Api.setSg id { sg with members := members }
      s).model.securityGroups name = rulesOf s.model.securityGroups name := by
    intro name
    by_cases hname : id = name
    · subst hname
      rw [← hrules, rulesOf, groups_setSg, if_pos rfl]
      rfl
    · apply rulesOf_congr
      rw [groups_setSg, if_neg hname]
  rw [Api.sgUpdateRuleMembers_eq]
  refine spares_of_calls s hok hagree rfl (fun _ => rfl)
    (fun nic hnic => ((Api.mem_sgUpdateRuleMembersCalls hkeys).mp hnic).1) hout
    (fun _ _ _ name _ => hsame name) ?_
  intro nic hnic hnot rule hrule
  obtain ⟨name, hname, hrule⟩ := mem_groupRules.mp hrule
  apply membersOf_congr
  rw [groups_setSg, if_neg]
  intro hnamed
  refine hnot ((Api.mem_sgUpdateRuleMembersCalls hkeys).mpr ⟨hnic, name, hname, ?_⟩)
  rw [refers_iff]
  exact ⟨rule, by rw [hsame]; exact hrule, hnamed.symm.trans hid.symm⟩

end Rebuilds

/-! ## The condition on an action -/

def KeepsSides (P : Platform) (ambient : Ambient) (s : Server) : Action → Prop
  | .nicAdd nic => (∃ s', perform P ambient (.nicAdd nic) s = some (true, s')) →
      NoneOutbound s.model.securityGroups [nic]
  | .nicUpdate update => ∀ old, s.model.nics[update.id]? = some old →
      (Api.ipChanged update old || Api.groupsChanged update old) = true →
      NoneOutbound s.model.securityGroups [Api.revise update old]
  | .nicDel _ => True
  | .sgAdd sg => (∀ known, s.model.securityGroups[sg.id]? = some known → sg.eq known = false) →
      let m := (Api.setSg sg.id sg s).model
      NoneOutbound m.securityGroups (replacedCalls sg m)
  | .sgDel id => ∀ sg, s.model.securityGroups[id]? = some sg →
      let m := { s.model with securityGroups := s.model.securityGroups.erase id }
      NoneOutbound m.securityGroups (replacedCalls sg m)
  | .sgRuleAdd sgId rule => rule.direction = .outbound →
      rule.hash P ∉ (Api.ensureSg sgId s).1.rules →
      (∃ nic ∈ Api.sgUpdateCalls sgId s.model, nic.bypassFiltering = false) →
      fwBuildRule s.model.securityGroups rule ≠ ""
  | .sgRuleDel sgId rule => ∀ sg, s.model.securityGroups[sgId]? = some sg →
      rule.hash P ∈ sg.rules →
      let m := (Api.setSg sgId { sg with rules := sg.rules.erase (rule.hash P) } s).model
      NoneOutbound m.securityGroups (Api.sgUpdateCalls sgId m)
  | .sgMemberAdd sgId ip => findIp (Api.ensureSg sgId s).1.members ip = false →
      let sg := { (Api.ensureSg sgId s).1 with
        members := (Api.ensureSg sgId s).1.members ++ [ip] }
      let m := (Api.setSg sgId sg (Api.ensureSg sgId s).2).model
      NoneOutbound m.securityGroups (Api.sgUpdateRuleMembersCalls sg m)
  | .sgMemberDel sgId ip => ∀ known, s.model.securityGroups[sgId]? = some known →
      findIp known.members ip = true →
      let sg := { known with members := known.members.eraseP fun known => known.eq ip }
      let m := (Api.setSg sgId sg s).model
      NoneOutbound m.securityGroups (Api.sgUpdateRuleMembersCalls sg m)

section Actions

variable {P : Platform} {ambient : Ambient} {s s' : Server}

theorem Api.ensureSg_lookup (s : Server) {id name : String} (hname : name ≠ id) :
    (Api.ensureSg id s).2.model.securityGroups[name]? = s.model.securityGroups[name]? := by
  unfold Api.ensureSg
  split
  · rfl
  · rw [groups_setSg, if_neg (Ne.symm hname)]

theorem Api.ensureSg_rulesOf (s : Server) (id name : String) :
    rulesOf (Api.ensureSg id s).2.model.securityGroups name =
      rulesOf s.model.securityGroups name := by
  by_cases hname : name = id
  · subst hname
    unfold Api.ensureSg
    cases hsg : s.model.securityGroups[name]? with
    | some sg => rfl
    | none => simp [rulesOf, groups_setSg, hsg]
  · exact rulesOf_congr (Api.ensureSg_lookup s hname)

theorem Api.ensureSg_membersOf (s : Server) (id name : String) :
    membersOf (Api.ensureSg id s).2.model.securityGroups name =
      membersOf s.model.securityGroups name := by
  by_cases hname : name = id
  · subst hname
    unfold Api.ensureSg
    cases hsg : s.model.securityGroups[name]? with
    | some sg => rfl
    | none => simp [membersOf, groups_setSg, hsg]
  · exact membersOf_congr (Api.ensureSg_lookup s hname)

theorem spares_ensureSg {id : String} (h : Spares (Api.ensureSg id s).2 s') : Spares s s' := by
  constructor
  intro a nic hnic hfilter
  rcases h.nics hnic hfilter with hrebuilt | hunmoved
  · exact .inl hrebuilt
  · obtain ⟨old, hold, hview, hsame⟩ := hunmoved.old
    rw [ensureSg_nics] at hold
    rw [viewOf_ensureSg] at hview
    have hgroups : groupRules (Api.ensureSg id s).2.model.securityGroups nic =
        groupRules s.model.securityGroups nic :=
      List.flatMap_congr fun name _ => Api.ensureSg_rulesOf s id name
    refine .inr ⟨⟨old, hold, hview, hsame⟩, hunmoved.rules.trans hgroups, fun rule hrule => ?_⟩
    rw [hunmoved.texts rule (by rw [hgroups]; exact hrule),
      fwBuildRule_congr (Api.ensureSg_membersOf s id _)]

theorem Api.ensureSg_rules (s : Server) (id : String) :
    mapValues (Api.ensureSg id s).1.rules =
      rulesOf (Api.ensureSg id s).2.model.securityGroups id := (texts_ensureSg s id {}).2

theorem actionNicAdd_spares (hok : AcceptsRules ambient) (h : Agree s) {nic : Nic}
    {added : Option Nic} (hkeeps : KeepsSides P ambient s (.nicAdd nic))
    (hadd : Api.actionNicAdd P ambient nic s = some (added, s')) : Spares s s' := by
  obtain ⟨hgroups, hothers, hown⟩ := actionNicAdd_views h hadd
  constructor
  intro id other hother hfilter
  rw [hgroups]
  by_cases hid : id = nic.id
  · subst hid
    refine .inl ⟨hown hok hother hfilter, ?_⟩
    rw [(stored_nicAdd h hadd).nics, nicsAfter] at hother
    cases added with
    | none => simp at hother
    | some nic' =>
        simp only [Option.isSome_some, if_true, lookup_insertIfNew, lookup_erase,
          Option.getD_none, Option.some_inj] at hother
        subst hother
        have hperform : perform P ambient (.nicAdd nic) s = some (true, s') := by
          rw [perform, hadd]
          rfl
        exact hkeeps ⟨s', hperform⟩ nic List.mem_cons_self hfilter
  · obtain ⟨hold, hview⟩ := hothers hid hother
    exact .inr ⟨⟨other, hold, hview, .refl other⟩, by rw [hgroups], fun _ _ => by rw [hgroups]⟩

theorem actionNicDel_spares (h : Agree s) {id : String}
    (hdel : Api.actionNicDel id s = some s') : Spares s s' := by
  obtain ⟨-, -, hmodel⟩ := h.removeNic hdel
  constructor
  intro id' nic hnic _
  obtain ⟨hold, hview⟩ := removeNic_views h hdel hnic
  exact .inr ⟨⟨nic, hold, hview, .refl nic⟩, by rw [hmodel], fun _ _ => by rw [hmodel]⟩

theorem actionNicUpdate_spares (hok : AcceptsRules ambient) (h : Agree s)
    {update : NicUpdate} {error : Option String}
    (hkeeps : KeepsSides P ambient s (.nicUpdate update))
    (hupdate : Api.actionNicUpdate P ambient update s = some (error, s')) : Spares s s' := by
  rcases actionNicUpdate_cases hupdate with ⟨-, -, rfl⟩ |
      ⟨-, old, hold, n₂, n₃, s₁, s₂, s₃, hstages⟩
  · exact .refl s'
  obtain ⟨-, -, hthree, hfinal⟩ := hstages.holds h hold
  have helse := hstages.elsewhere
  have hfiltering := hstages.filtering
  have htuned : Tuned _ s₃ (Api.refreshFirewall ambient update old n₃ s₃) :=
    refreshFirewall_tuned update old n₃ s₃
  rw [← hstages.firewall] at htuned
  have hgroups : s'.model.securityGroups = s.model.securityGroups := by
    rw [htuned.model, helse.groups]
  constructor
  intro id nic hnic hfilter
  rw [hgroups]
  by_cases hid : id = update.id
  · subst hid
    obtain rfl : n₃ = nic := Option.some.inj (hfinal.lookup.symm.trans hnic)
    by_cases hchanged : (Api.ipChanged update old || Api.groupsChanged update old) = true
    · left
      constructor
      · rw [hstages.firewall, Api.refreshFirewall, if_pos hchanged]
        exact fwUpdate_rebuilt hok hthree.agree.graph.started hfilter hthree.findNic
      · have hout := hkeeps old hold hchanged _ List.mem_cons_self
          (hfiltering.bypass.symm.trans hfilter)
        rw [holdsOutbound, groupRules, hfiltering.groups]
        exact hout
    · -- Neither addresses nor groups have changed.
      have hsame : SameFiltering old n₃ := by
        simp only [Bool.or_eq_true, not_or, Bool.not_eq_true] at hchanged
        have hrevised : SameFiltering old (Api.revise update old) :=
          ⟨rfl, by simp [Api.revise, hchanged.1], by simp [Api.revise, hchanged.2]⟩
        exact hrevised.trans hfiltering
      refine .inr ⟨⟨old, hold, ?_, hsame⟩, by rw [hgroups], fun _ _ => by rw [hgroups]⟩
      rw [hstages.firewall, Api.refreshFirewall, if_neg hchanged, helse.views, viewOf, viewOf,
        Server.findNic_eq, Server.findNic_eq, (updateTracePath_stage hstages.path).id,
        (updateTrace_stage hstages.trace).id, (updateTracePath_stage hstages.path).vni,
        (updateTrace_stage hstages.trace).vni]
      rfl
  · have hnic₃ := hnic
    rw [htuned.model] at hnic₃
    have hother := hnic₃
    rw [helse.nics id hid] at hother
    refine .inr ⟨⟨nic, hother, ?_, .refl nic⟩, by rw [hgroups], fun _ _ => by rw [hgroups]⟩
    rw [← helse.views, hstages.firewall, Api.refreshFirewall]
    split
    · exact viewOf_tuned (fwUpdate_tunedOwn ambient.ok n₃ s₃)
        (hthree.agree.off_other hthree.lookup hnic₃ (Ne.symm hid))
    · rfl

theorem perform_spares {a : Action} {accepted : Bool} (hok : AcceptsRules ambient)
    (h : Agree s) (hkeeps : KeepsSides P ambient s a)
    (ha : perform P ambient a s = some (accepted, s')) (hrule : ¬a.AddsRule) :
    Spares s s' := by
  cases a with
  | nicAdd nic =>
      obtain ⟨⟨added, t⟩, hadd, heq⟩ := Option.map_eq_some_iff.mp ha
      cases heq
      exact actionNicAdd_spares hok h hkeeps hadd
  | nicUpdate update =>
      obtain ⟨⟨error, t⟩, hupdate, heq⟩ := Option.map_eq_some_iff.mp ha
      cases heq
      exact actionNicUpdate_spares hok h hkeeps hupdate
  | nicDel id =>
      obtain ⟨t, hdel, heq⟩ := Option.map_eq_some_iff.mp ha
      cases heq
      exact actionNicDel_spares h hdel
  | sgAdd sg =>
      cases ha
      have hreplaced : (∀ known, s.model.securityGroups[sg.id]? = some known →
          sg.eq known = false) → Spares s (Api.sgUpdateRuleMembers ambient sg
            (Api.sgUpdate ambient sg (Api.setSg sg.id sg s))) := by
        intro hnew
        refine spares_replaced s sg rfl hok (h.setSg sg rfl) rfl (fun _ => rfl)
          (fun a ha => ?_) (hkeeps hnew)
        rw [groups_setSg, if_neg (Ne.symm ha)]
      unfold Api.actionSgAdd
      split
      · next known hsg =>
          split
          · exact .refl s
          · next hne =>
              refine hreplaced fun known' hknown => ?_
              cases hsg.symm.trans hknown
              simpa using hne
      · next hsg =>
          refine hreplaced fun known hknown => ?_
          cases hsg.symm.trans hknown
  | sgDel id =>
      cases ha
      unfold Api.actionSgDel
      split
      · exact .refl s
      · next sg hsg =>
          refine spares_replaced s sg (h.sgIds hsg) hok (h.eraseSg id) rfl (fun _ => rfl)
            (fun a ha => ?_) (hkeeps sg hsg)
          simp only [Server.modifyModel_model, lookup_erase, if_neg (Ne.symm ha)]
  | sgRuleAdd sgId rule => exact absurd trivial hrule
  | sgRuleDel sgId rule =>
      cases ha
      unfold Api.actionSgRuleDel
      split
      · exact .refl s
      · next sg hsg =>
          split
          · exact .refl s
          · next hmem =>
              let sg' := { sg with rules := sg.rules.erase (rule.hash P) }
              have hid : sg.id = sgId := h.sgIds hsg
              exact spares_rules s sg' hok h hsg hid rfl
                (hkeeps sg hsg (Classical.not_not.mp hmem))
  | sgMemberAdd sgId ip =>
      cases ha
      obtain ⟨hagree, -, hid⟩ := h.ensureSg sgId
      have hrules := Api.ensureSg_rules s sgId
      have hmembers := hkeeps
      have hafter : Spares (Api.ensureSg sgId s).2 (Api.actionSgMemberAdd ambient sgId ip s) := by
        unfold Api.actionSgMemberAdd
        split
        next sg s₁ heq =>
          simp only [KeepsSides, heq] at hagree hid hrules hmembers ⊢
          split
          · exact .refl s₁
          · next hnew =>
              exact spares_members s₁ (sg.members ++ [ip]) hok hagree hid hrules
                (hmembers (by simpa using hnew))
      exact spares_ensureSg hafter
  | sgMemberDel sgId ip =>
      cases ha
      unfold Api.actionSgMemberDel
      split
      · exact .refl s
      · next sg hsg =>
          split
          · exact .refl s
          · next hmem =>
              exact spares_members s _ hok h (h.sgIds hsg) (by simp [rulesOf, hsg])
                (hkeeps sg hsg (by simpa using hmem))

end Actions

end Butterfly
