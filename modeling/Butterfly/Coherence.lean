import Butterfly.Access
import Butterfly.Run

/-!
# Firewalls and the model

Whatever way a firewall was filled, by `FwUpdate` or rule by rule, its rules
admit what the current rules and members of the NIC's groups say.
-/

namespace Butterfly

open Std Foundation Butterfly.Graph

/-! ## Installed filters -/

def admitted (groups : ExtTreeMap String Sg) (nic : Nic) : List String :=
  (ruleTexts groups nic).flatten.filter (· ≠ "")

/-- The rules of one side stand for these texts, one by one or joined. -/
def Installed (rules : List FwRule) (texts : List String) : Prop :=
  ∃ parts : List (List String),
    List.Forall₂ (fun rule atoms => Joins rule.filter atoms) rules parts ∧
      ∀ a, a ∈ parts.flatten ↔ a ∈ texts

theorem Installed.congr {rules : List FwRule} {texts texts' : List String}
    (h : Installed rules texts) (heq : ∀ a, a ∈ texts ↔ a ∈ texts') :
    Installed rules texts' := by
  obtain ⟨parts, hparts, hmem⟩ := h
  exact ⟨parts, hparts, fun a => (hmem a).trans (heq a)⟩

theorem Installed.append {rules : List FwRule} {texts : List String}
    (h : Installed rules texts) (text : String) :
    Installed (rules ++ [⟨text, false⟩]) (texts ++ [text]) := by
  obtain ⟨parts, hparts, hmem⟩ := h
  refine ⟨parts ++ [[text]], List.rel_append hparts (.cons (.text text) .nil), ?_⟩
  intro a
  simp [hmem]

theorem installed_built (groups : ExtTreeMap String Sg) (nic : Nic) :
    Installed (builtRules (inRules groups nic) (outRules nic) .west)
      (admitted groups nic) := by
  simp only [builtRules, admitted, inRules_eq]
  split
  · next hempty =>
      refine ⟨[], .nil, fun a => ?_⟩
      rw [orLoop_eq_empty_iff] at hempty
      simp only [List.flatten_nil, List.not_mem_nil, List.mem_filter, List.mem_flatten,
        decide_eq_true_eq, false_iff]
      rintro ⟨⟨texts, htexts, ha⟩, hne⟩
      have hgroup := hempty _ (List.mem_map_of_mem htexts)
      rw [orLoop_eq_empty_iff] at hgroup
      exact hne (hgroup a ha)
  · next hne =>
      obtain ⟨atoms, hjoins, hatoms⟩ := joins_orLoop_map hne
      exact ⟨[atoms], .cons hjoins .nil, by simpa using hatoms⟩

/-! ## The invariant -/

/-- The firewall of a NIC holds these filters on its west side. -/
def Fits (texts : List String) (nic : Nic) (s : Server) : Prop :=
  ∃ view, viewOf nic s = some view ∧ view.reloaded = true ∧
    view.rules .east = [⟨outRules nic, true⟩] ∧ Installed (view.rules .west) texts

structure Coherent (s : Server) : Prop where
  fits : ∀ {id : String} {nic}, s.model.nics[id]? = some nic →
    nic.bypassFiltering = false → Fits (admitted s.model.securityGroups nic) nic s

theorem Rebuilt.fits {nic : Nic} {s : Server} (h : Rebuilt nic s) :
    Fits (admitted s.model.securityGroups nic) nic s :=
  ⟨_, h, rfl, rfl, installed_built _ _⟩

theorem SameFiltering.admitted {n n' : Nic} (h : SameFiltering n n')
    (groups : ExtTreeMap String Sg) :
    Butterfly.admitted groups n' = Butterfly.admitted groups n := by
  simp only [Butterfly.admitted, ruleTexts, h.groups]

theorem SameFiltering.outRules {n n' : Nic} (h : SameFiltering n n') :
    Graph.outRules n' = Graph.outRules n := by
  simp only [Graph.outRules, h.ips]

theorem Coherent.settles {s s' : Server} (h : Coherent s) (hs : Settles s s') :
    Coherent s' := by
  constructor
  intro id nic hnic hfilter
  rcases hs.nics hnic hfilter with hrebuilt | hkept
  · exact hrebuilt.fits
  · obtain ⟨old, hold, hview, hsame⟩ := hkept.old
    obtain ⟨view, hview', hreloaded, heast, hwest⟩ :=
      h.fits hold (hsame.bypass.symm.trans hfilter)
    refine ⟨view, hview.trans hview', hreloaded, ?_, ?_⟩
    · rw [hsame.outRules]
      exact heast
    · rw [Butterfly.admitted, hkept.texts, ← Butterfly.admitted, hsame.admitted]
      exact hwest

/-! ## Adding one rule -/

section Rules

variable {P : Platform} {ambient : Ambient} {s : Server}

theorem FwView.after_addRuleOps {ok : PgCall → Bool}
    (hok : ∀ b filter side, ok (.ruleAdd b filter side) = true) {gn : GraphNic}
    {rule : Rule} (hrule : rule.direction ≠ .outbound) (r : String) (view : FwView) :
    view.after gn.firewall (addRuleOps ok gn rule r) =
      ⟨Function.update view.rules .west (view.rules .west ++ [⟨r, false⟩]), true⟩ := by
  simp [addRuleOps, hrule, hok, ruleSide, FwView.step, Direct.firewall?, Direct.edit]

theorem fwAddRule_fits (hok : AcceptsRules ambient) {nic : Nic} {rule : Rule}
    {texts : List String} (hstarted : s.started = true)
    (hfilter : nic.bypassFiltering = false) (hrule : rule.direction ≠ .outbound)
    (h : Fits texts nic s) :
    Fits (texts ++ [fwBuildRule s.model.securityGroups rule].filter (· ≠ "")) nic
      (fwAddRule ambient.ok nic rule s) := by
  obtain ⟨view, hview, hreloaded, heast, hwest⟩ := h
  by_cases hempty : fwBuildRule s.model.securityGroups rule = ""
  · have hsame : fwAddRule ambient.ok nic rule s = s := by
      simp [fwAddRule, hempty]
    rw [hsame, hempty]
    exact ⟨view, hview, hreloaded, heast, by simpa using hwest⟩
  · obtain ⟨gn, hgn, hgnView⟩ := Option.map_eq_some_iff.mp hview
    rw [fwAddRule_eq hstarted hfilter hempty hgn]
    have hafter : afterRule gn rule = fun n => n := by
      funext n
      simp [afterRule, hrule]
    refine ⟨⟨Function.update view.rules .west (view.rules .west ++
      [⟨fwBuildRule s.model.securityGroups rule, false⟩]), true⟩, ?_, rfl, ?_, ?_⟩
    · rw [viewOf, Server.emits_findNic, Server.findNic_eq, Server.branch_updateNic,
        if_pos ⟨rfl, rfl⟩, ← Server.findNic_eq, hgn, hafter]
      simp only [Option.map_some, Server.emits_ops, Server.updateNic_ops, fwView_append,
        hgnView, FwView.after_addRuleOps hok hrule]
    · simpa using heast
    · simpa [hempty] using hwest.append (fwBuildRule s.model.securityGroups rule)

theorem Fits.congr {texts texts' : List String} {nic : Nic} (h : Fits texts nic s)
    (heq : ∀ a, a ∈ texts ↔ a ∈ texts') : Fits texts' nic s := by
  obtain ⟨view, hview, hreloaded, heast, hwest⟩ := h
  exact ⟨view, hview, hreloaded, heast, hwest.congr heq⟩

theorem mem_admitted {groups : ExtTreeMap String Sg} {nic : Nic} {a : String} :
    a ∈ admitted groups nic ↔ a ≠ "" ∧ ∃ name ∈ nic.securityGroups,
      ∃ rule ∈ rulesOf groups name, fwBuildRule groups rule = a := by
  simp only [admitted, ruleTexts, List.mem_filter, List.mem_flatten, List.mem_map,
    decide_eq_true_eq]
  constructor
  · rintro ⟨⟨texts, ⟨name, hname, rfl⟩, ha⟩, hne⟩
    obtain ⟨rule, hrule, rfl⟩ := List.mem_map.mp ha
    exact ⟨hne, name, hname, rule, hrule, rfl⟩
  · rintro ⟨hne, name, hname, rule, hrule, rfl⟩
    exact ⟨⟨_, ⟨name, hname, rfl⟩, List.mem_map_of_mem hrule⟩, hne⟩

def withRule (P : Platform) (rule : Rule) (sg : Sg) : Sg :=
  { sg with rules := sg.rules.insertIfNew (rule.hash P) rule }

theorem mem_withRule {rule rule' : Rule} {sg : Sg} (hnew : rule.hash P ∉ sg.rules) :
    rule' ∈ mapValues (withRule P rule sg).rules ↔
      rule' = rule ∨ rule' ∈ mapValues sg.rules := by
  have hnone : sg.rules[rule.hash P]? = none := by simpa using hnew
  simp only [mem_mapValues, withRule, lookup_insertIfNew, hnone, Option.getD_none]
  constructor
  · rintro ⟨k, hk⟩
    split at hk
    · exact .inl (Option.some.inj hk).symm
    · exact .inr ⟨k, hk⟩
  · rintro (rfl | ⟨k, hk⟩)
    · exact ⟨rule'.hash P, by simp⟩
    · refine ⟨k, ?_⟩
      rw [if_neg]
      · exact hk
      · rintro rfl
        rw [hnone] at hk
        cases hk

theorem fwBuildRule_withRule {sgId : String} (rule : Rule) {sg : Sg}
    (hmembers : sg.members = membersOf s.model.securityGroups sgId) (r : Rule) :
    fwBuildRule (Api.setSg sgId (withRule P rule sg) s).model.securityGroups r =
      fwBuildRule s.model.securityGroups r := by
  apply fwBuildRule_congr
  by_cases hname : sgId = r.securityGroup
  · rw [← hname, ← hmembers, membersOf, groups_setSg, if_pos rfl]
    rfl
  · apply membersOf_congr
    rw [groups_setSg, if_neg hname]

theorem mem_rulesOf_withRule {sgId : String} {rule : Rule} {sg : Sg}
    (hsg : mapValues sg.rules = rulesOf s.model.securityGroups sgId)
    (hnew : rule.hash P ∉ sg.rules) {name : String} {r : Rule} :
    r ∈ rulesOf (Api.setSg sgId (withRule P rule sg) s).model.securityGroups name ↔
      name = sgId ∧ r = rule ∨ r ∈ rulesOf s.model.securityGroups name := by
  by_cases hname : sgId = name
  · subst hname
    rw [rulesOf, groups_setSg, if_pos rfl, Option.map_some, Option.getD_some,
      mem_withRule hnew, hsg]
    simp
  · have hsame : rulesOf (Api.setSg sgId (withRule P rule sg) s).model.securityGroups
        name = rulesOf s.model.securityGroups name :=
      rulesOf_congr (by rw [groups_setSg, if_neg hname])
    rw [hsame]
    simp [Ne.symm hname]

theorem mem_admitted_withRule {sgId : String} {rule : Rule} {sg : Sg} (nic : Nic)
    (hsg : mapValues sg.rules = rulesOf s.model.securityGroups sgId)
    (hmembers : sg.members = membersOf s.model.securityGroups sgId)
    (hnew : rule.hash P ∉ sg.rules) (a : String) :
    a ∈ admitted (Api.setSg sgId (withRule P rule sg) s).model.securityGroups nic ↔
      a ∈ admitted s.model.securityGroups nic ∨
        sgId ∈ nic.securityGroups ∧
          a ∈ [fwBuildRule s.model.securityGroups rule].filter (· ≠ "") := by
  have hbuild := fwBuildRule_withRule (P := P) rule hmembers
  have hrules := @mem_rulesOf_withRule P s sgId rule sg hsg hnew
  simp only [mem_admitted, hbuild, hrules, List.mem_filter, List.mem_singleton,
    decide_eq_true_eq]
  constructor
  · rintro ⟨hne, name, hname, r, ⟨rfl, rfl⟩ | hr, rfl⟩
    · exact .inr ⟨hname, rfl, hne⟩
    · exact .inl ⟨hne, name, hname, r, hr, rfl⟩
  · rintro (⟨hne, name, hname, r, hr, rfl⟩ | ⟨hlists, rfl, hne⟩)
    · exact ⟨hne, name, hname, r, .inr hr, rfl⟩
    · exact ⟨hne, sgId, hlists, rule, .inl ⟨rfl, rfl⟩, rfl⟩

theorem sgUpdateRule_coherent (hok : AcceptsRules ambient) (h : Agree s)
    (hc : Coherent s) {sgId : String} {rule : Rule} {sg : Sg} (hid : sg.id = sgId)
    (hsg : mapValues sg.rules = rulesOf s.model.securityGroups sgId)
    (hmembers : sg.members = membersOf s.model.securityGroups sgId)
    (hnew : rule.hash P ∉ sg.rules) (hrule : rule.direction ≠ .outbound) :
    Coherent (Api.sgUpdateRule ambient (withRule P rule sg) rule
      (Api.setSg sgId (withRule P rule sg) s)) := by
  subst hid
  have hbuild := fwBuildRule_withRule (P := P) rule hmembers rule
  have hrefresher : Refresher (Api.setSg sg.id (withRule P rule sg) s)
      (fun nic => fwAddRule ambient.ok nic rule) (fun nic t =>
        Fits (admitted s.model.securityGroups nic ++
          [fwBuildRule s.model.securityGroups rule].filter (· ≠ "")) nic t) := by
    refine ⟨fun nic t => fwAddRule_tunedOwn ambient.ok nic rule t, ?_, ?_⟩
    · intro id nic t ht hmodel hnic hfilter hbefore
      rw [← hbuild, ← hmodel] at hbefore ⊢
      rcases hbefore with hview | hdone
      · have hfits : Fits (admitted s.model.securityGroups nic) nic t := by
          obtain ⟨view, hview', hrest⟩ := hc.fits (by rw [hmodel] at hnic; exact hnic) hfilter
          exact ⟨view, hview.trans hview', hrest⟩
        exact fwAddRule_fits hok ht.graph.started hfilter hrule hfits
      · refine (fwAddRule_fits hok ht.graph.started hfilter hrule hdone).congr ?_
        simp
    · rintro nic t t' ⟨view, hview, hrest⟩ hsame -
      exact ⟨view, hsame.trans hview, hrest⟩
  obtain ⟨hloop, hgoal⟩ := forGroup_spec hrefresher (h.setSg _ rfl) sg.id
  constructor
  intro id nic hnic hfilter
  have hmodel : (Api.sgUpdateRule ambient (withRule P rule sg) rule
      (Api.setSg sg.id (withRule P rule sg) s)).model = _ := hloop.model
  rw [hmodel] at hnic ⊢
  have hmem := fun a => mem_admitted_withRule nic hsg hmembers hnew a
  by_cases hlists : sg.id ∈ nic.securityGroups
  · refine (hgoal hnic hfilter hlists).congr fun a => ?_
    rw [hmem, List.mem_append, and_iff_right hlists]
  · have hview : viewOf nic (Api.sgUpdateRule ambient (withRule P rule sg) rule
        (Api.setSg sg.id (withRule P rule sg) s)) = viewOf nic s := by
      rcases hloop.views (by rw [hloop.model]; exact hnic) hfilter with hview | ⟨hbad, -⟩
      · exact hview
      · exact absurd hbad hlists
    obtain ⟨view, hview', hreloaded, heast, hwest⟩ := hc.fits hnic hfilter
    refine ⟨view, hview.trans hview', hreloaded, heast, hwest.congr fun a => ?_⟩
    rw [hmem]
    simp [hlists]

theorem members_ensureSg (s : Server) (id : String) :
    (Api.ensureSg id s).1.members =
      membersOf (Api.ensureSg id s).2.model.securityGroups id := by
  unfold Api.ensureSg
  cases hsg : s.model.securityGroups[id]? with
  | some sg => simp [membersOf, hsg]
  | none => simp [membersOf, groups_setSg]

theorem actionSgRuleAdd_coherent (hok : AcceptsRules ambient) (h : Agree s)
    (hc : Coherent s) (sgId : String) {rule : Rule}
    (hrule : rule.direction ≠ .outbound) :
    Coherent (Api.actionSgRuleAdd P ambient sgId rule s) := by
  obtain ⟨hagree, -, hid⟩ := h.ensureSg sgId
  have hcoherent : Coherent (Api.ensureSg sgId s).2 :=
    hc.settles (settles_ensureSg sgId (.refl _))
  have hrules := (texts_ensureSg s sgId {}).2
  have hmembers := members_ensureSg s sgId
  unfold Api.actionSgRuleAdd
  split
  next sg s₁ heq =>
    rw [heq] at hagree hid hcoherent hrules hmembers
    split
    · exact hcoherent
    · next hnew =>
        exact sgUpdateRule_coherent hok hagree hcoherent hid hrules hmembers hnew hrule

end Rules

/-! ## Runs with inbound rules -/

def Api0.Command.rules : Api0.Command → List MessageV0.Rule
  | .sgAdd sg => sg.rule
  | .sgRuleAdd req | .sgRuleDel req => [req.rule]
  | _ => []

/-- `pg_firewall_rule_add` accepts every filter and all rules are inbound. -/
def inboundOnly : Allowed := fun _ ambient request =>
  AcceptsRules ambient ∧ ∀ rq c, request = some rq → Api0.command rq = some c →
    ∀ rule ∈ c.rules, rule.direction = .inbound

theorem convertRule_direction {P : Platform} {m : MessageV0.Rule} {rule : Rule}
    (h : Api0.convertRule P m = .ok rule) (hm : m.direction = .inbound) :
    rule.direction ≠ .outbound := by
  unfold Api0.convertRule at h
  simp only [hm] at h
  split at h
  · cases h
    simp
  · next cidr _ _ =>
      cases hcidr : Api0.convertCidr P cidr with
      | error e =>
          rw [hcidr] at h
          cases h
      | ok cidr =>
          rw [hcidr] at h
          cases h
          simp
  · cases h

theorem Coherent.sameCore {s s' : Server} (h : Coherent s) (hcore : SameCore s s') :
    Coherent s' := by
  have hview : ∀ nic, viewOf nic s' = viewOf nic s := by
    intro nic
    simp only [viewOf, Server.findNic, hcore.vnis, hcore.ops]
  constructor
  intro id nic hnic hfilter
  rw [hcore.model] at hnic ⊢
  obtain ⟨view, hv, hrest⟩ := h.fits hnic hfilter
  exact ⟨view, (hview nic).trans hv, hrest⟩

theorem Coherent.perform {P : Platform} {ambient : Ambient} {s s' : Server}
    {a : Action} {accepted : Bool} (hok : AcceptsRules ambient) (h : Agree s)
    (hc : Coherent s)
    (hrule : ∀ sgId rule, a = .sgRuleAdd sgId rule → rule.direction ≠ .outbound)
    (ha : perform P ambient a s = some (accepted, s')) : Coherent s' := by
  by_cases hadds : a.AddsRule
  · cases a with
    | sgRuleAdd sgId rule =>
        cases ha
        exact actionSgRuleAdd_coherent hok h hc sgId (hrule sgId rule rfl)
    | _ => exact hadds.elim
  · exact hc.settles (perform_settles hok h ha hadds)

theorem coherent_of_reachable {P : Platform} {s : Server}
    (h : Reachable P inboundOnly s) : Coherent s := by
  induction h with
  | start config pid startDate =>
      constructor
      intro id nic hnic
      rw [Server.start_nics] at hnic
      cases hnic
  | count _ ih => exact ih.sameCore ⟨rfl, rfl, rfl, rfl, rfl, rfl, rfl⟩
  | @respond s s' ambient request response hs hallowed hrespond ih =>
      obtain ⟨hok, hinbound⟩ := hallowed
      have hsound := hs.sound
      rcases respond_outcome hsound.agree hsound.clean hrespond with
        hnok | ⟨rq, c, rfl, hc, houtcome⟩
      · exact ih.sameCore hnok.core
      · cases houtcome with
        | nok _ hnok => exact ih.sameCore hnok.core
        | read _ hcore _ _ => exact ih.sameCore hcore
        | @act a accepted s₁ hasks hperform hcore _ _ =>
            refine (ih.perform hok hsound.agree ?_ hperform).sameCore hcore
            rintro sgId rule rfl
            cases hasks with
            | sgRuleAdd _ hrule =>
                exact convertRule_direction hrule
                  (hinbound rq _ rfl hc _ List.mem_cons_self)

/-! ## Packets -/

/--
The meaning of filter texts.  `||` between parenthesised filters is a disjunction
as long as each of them is a filter on its own.
-/
structure Pcap (Packet : Type) where
  filter : String → Prop
  accepts : String → Packet → Prop
  filter_orText : ∀ {texts}, texts ≠ [] → (∀ text ∈ texts, filter text) →
    filter (orText texts)
  accepts_orText : ∀ {texts}, texts ≠ [] → (∀ text ∈ texts, filter text) →
    ∀ p, accepts (orText texts) p ↔ ∃ text ∈ texts, accepts text p

def Pcap.Matches {Packet : Type} (pcap : Pcap Packet) (rules : List FwRule)
    (p : Packet) : Prop := ∃ rule ∈ rules, pcap.accepts rule.filter p

theorem Installed.matches {Packet : Type} (pcap : Pcap Packet) {rules : List FwRule}
    {texts : List String} (h : Installed rules texts)
    (htexts : ∀ text ∈ texts, pcap.filter text) (p : Packet) :
    pcap.Matches rules p ↔ ∃ text ∈ texts, pcap.accepts text p := by
  obtain ⟨parts, hparts, hmem⟩ := h
  simp only [← hmem] at htexts ⊢
  clear hmem
  unfold Pcap.Matches
  induction hparts with
  | nil => simp
  | @cons rule atoms rules parts hjoins _ ih =>
      have hrule := (hjoins.holds pcap.filter (fun text => pcap.accepts text p)
        pcap.filter_orText
        (fun hne hall => pcap.accepts_orText hne hall p)
        fun a ha => htexts a (by simp [ha])).2
      have hrest := ih fun a ha => htexts a (by
        rw [List.flatten_cons, List.mem_append]
        exact .inr ha)
      simp only [List.mem_cons, List.flatten_cons, List.mem_append, or_and_right,
        exists_or, exists_eq_left]
      rw [hrule, hrest]

/--
In every interleaving, once the poller is done, the west side of a filtering NIC
admits what the rules of its groups in the current model say and the east side
has the filter of its addresses; the NIC is filtered as after a rebuild.
-/
theorem firewall_matches_model {P : Platform} {Packet : Type} (pcap : Pcap Packet)
    {s : Server} {pg : Packetgraph} {id : String} {nic : Nic}
    (h : Reachable P inboundOnly s) (hdrained : Drained s pg)
    (hnic : s.model.nics[id]? = some nic) (hfilter : nic.bypassFiltering = false)
    (hfilters : ∀ name ∈ nic.securityGroups, ∀ sg : Sg,
      s.model.securityGroups[name]? = some sg → ∀ r ∈ mapValues sg.rules,
        fwBuildRule s.model.securityGroups r ≠ "" →
        pcap.filter (fwBuildRule s.model.securityGroups r)) :
    ∃ gn, s.findNic nic = some gn ∧
      (∀ p, pcap.Matches (pg.firewalls.loaded gn.firewall .west) p ↔
        ∃ name ∈ nic.securityGroups, ∃ sg : Sg,
          s.model.securityGroups[name]? = some sg ∧ ∃ r ∈ mapValues sg.rules,
            fwBuildRule s.model.securityGroups r ≠ "" ∧
            pcap.accepts (fwBuildRule s.model.securityGroups r) p) ∧
      pg.firewalls.loaded gn.firewall .east = [⟨outRules nic, true⟩] ∧
      ∀ p, pcap.Matches (pg.firewalls.loaded gn.firewall .west) p ↔
        pcap.Matches (builtRules (inRules s.model.securityGroups nic) (outRules nic)
          .west) p := by
  obtain ⟨view, hview, hreloaded, heast, hwest⟩ :=
    (coherent_of_reachable h).fits hnic hfilter
  obtain ⟨gn, hgn, rfl⟩ := Option.map_eq_some_iff.mp hview
  have hloaded := hdrained.loaded hreloaded
  have htexts : ∀ text ∈ admitted s.model.securityGroups nic, pcap.filter text := by
    intro text htext
    obtain ⟨hne, name, hname, r, hr, rfl⟩ := mem_admitted.mp htext
    obtain ⟨sg, hsg, hr⟩ := mem_rulesOf.mp hr
    exact hfilters name hname sg hsg r hr hne
  have hmatches := hwest.matches pcap htexts
  have hbuilt := (installed_built s.model.securityGroups nic).matches pcap htexts
  refine ⟨gn, hgn, fun p => ?_, ?_, fun p => ?_⟩
  · rw [hloaded, hmatches]
    constructor
    · rintro ⟨text, htext, hp⟩
      obtain ⟨hne, name, hname, r, hr, rfl⟩ := mem_admitted.mp htext
      obtain ⟨sg, hsg, hr⟩ := mem_rulesOf.mp hr
      exact ⟨name, hname, sg, hsg, r, hr, hne, hp⟩
    · rintro ⟨name, hname, sg, hsg, r, hr, hne, hp⟩
      exact ⟨_, mem_admitted.mpr ⟨hne, name, hname, r,
        mem_rulesOf.mpr ⟨sg, hsg, hr⟩, rfl⟩, hp⟩
  · rw [hloaded, heast]
  · rw [hloaded, hmatches, hbuilt]

theorem mem_orText {c : Char} (hc : c ∉ ['(', ')', '|']) (texts : List String) :
    c ∈ (orText texts).toList ↔ ∃ text ∈ texts, c ∈ text.toList := by
  induction texts with
  | nil => simp [orText]
  | cons text texts ih =>
      cases texts with
      | nil => simp_all [orText, paren]
      | cons next texts =>
          rw [orText_cons_of_ne_nil (List.cons_ne_nil _ _)]
          simp_all [paren]

def Pcap.ipFilters : Pcap IpType where
  filter text := ∀ c ∈ text.toList, c ∈ ['(', ')', '|'] ∨ c = 'i' ∨ c = 'p'
  accepts text p := p = .v4 ∧ 'i' ∈ text.toList
  filter_orText {texts} _ h := by
    intro c hc
    by_cases hmark : c ∈ ['(', ')', '|']
    · exact .inl hmark
    · obtain ⟨text, htext, hmem⟩ := (mem_orText hmark texts).mp hc
      exact h text htext c hmem
  accepts_orText {texts} _ _ p := by
    rw [mem_orText (by decide)]
    constructor
    · rintro ⟨hp, text, htext, hmem⟩
      exact ⟨text, htext, hp, hmem⟩
    · rintro ⟨text, htext, hp, hmem⟩
      exact ⟨hp, text, htext, hmem⟩

def nicThenRule : List MessageV0.Request :=
  [{ nicAdd := some { id := "nic-1", mac := "52:54:00:12:34:01", vni := 42
                      ip := ["42.0.0.1"], securityGroup := ["sg-1"] } },
   { sgRuleAdd := some { sgId := "sg-1", rule :=
      { direction := .inbound, protocol := -1
        cidr := some { address := "0.0.0.0", maskSize := 0 } } } }]

theorem firewall_matches_model_nic_then_rule :
    ∃ s nic gn, Reachable Libc.platform inboundOnly s ∧
      s.model.nics["nic-1"]? = some nic ∧ s.findNic nic = some gn ∧
      (∀ p, Pcap.ipFilters.Matches
        (s.settled.firewalls.loaded gn.firewall .west) p ↔ p = .v4) ∧
      s.settled.firewalls.loaded gn.firewall .east = [⟨outRules nic, true⟩] := by
  have hserve : ∃ s nic, serve Libc.platform {} nicThenRule (Server.start {} 1 0) = some s ∧
      s.model.nics["nic-1"]? = some nic ∧ nic.bypassFiltering = false ∧
      nic.securityGroups = ["sg-1"] ∧
      (rulesOf s.model.securityGroups "sg-1").map (fwBuildRule s.model.securityGroups) =
        ["ip"] := by
    refine ⟨(serve Libc.platform {} nicThenRule (Server.start {} 1 0)).get ?_,
      (((serve Libc.platform {} nicThenRule (Server.start {} 1 0)).get ?_).model.nics[
        "nic-1"]?).get ?_, ?_, ?_, ?_, ?_, ?_⟩
    · decide +kernel
    · decide +kernel
    · decide +kernel
    · simp
    · simp
    · decide +kernel
    · decide +kernel
    · decide +kernel
  obtain ⟨s, nic, hs, hnic, hfilter, hgroups, htexts⟩ := hserve
  have hreachable : Reachable Libc.platform inboundOnly s := by
    refine (Reachable.start {} 1 0).serve (fun rq hrq _ => ⟨fun _ _ _ => rfl, ?_⟩) hs
    rintro _ c ⟨⟩ hc rule hrule
    simp only [nicThenRule, List.mem_cons, List.not_mem_nil, or_false] at hrq
    rcases hrq with rfl | rfl
    · cases hc
      cases hrule
    · cases hc
      obtain rfl := List.mem_singleton.mp hrule
      rfl
  have hip : ∀ sg : Sg, s.model.securityGroups["sg-1"]? = some sg →
      ∀ r ∈ mapValues sg.rules, fwBuildRule s.model.securityGroups r = "ip" := by
    intro sg hsg r hr
    have hmem := List.mem_map_of_mem (f := fwBuildRule s.model.securityGroups)
      (mem_rulesOf.mpr ⟨sg, hsg, hr⟩)
    rw [htexts, List.mem_singleton] at hmem
    exact hmem
  obtain ⟨gn, hgn, hwest, heast, -⟩ := firewall_matches_model Pcap.ipFilters hreachable
    (drained_settled s) hnic hfilter (by
      intro name hname sg hsg r hr _
      rw [hgroups, List.mem_singleton] at hname
      subst hname
      rw [hip sg hsg r hr]
      simp [Pcap.ipFilters])
  refine ⟨s, nic, gn, hreachable, hnic, hgn, fun p => (hwest p).trans ?_, heast⟩
  constructor
  · rintro ⟨-, -, -, -, -, -, -, hp, -⟩
    exact hp
  · rintro rfl
    obtain ⟨r, hr, htext⟩ : ∃ r ∈ rulesOf s.model.securityGroups "sg-1",
        fwBuildRule s.model.securityGroups r = "ip" := by
      rw [← List.mem_map, htexts]
      exact List.mem_cons_self
    obtain ⟨sg, hsg, hr⟩ := mem_rulesOf.mp hr
    refine ⟨"sg-1", by rw [hgroups]; exact List.mem_cons_self, sg, hsg, r, hr, ?_⟩
    rw [htext]
    exact ⟨by decide, rfl, by decide⟩

end Butterfly
