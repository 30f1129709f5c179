import Butterfly.Sides
import Butterfly.Steps

/-!
# Runs that keep the sides

`FwAddRule` on one NIC after the other, and from it the sides of all rules in every
run whose actions rebuild no firewall with outbound rules.
-/

namespace Butterfly

open Std Foundation Butterfly.Graph

/-! ## Adding one rule -/

section Rules

variable {P : Platform} {ambient : Ambient} {s : Server}

def broughtTexts (groups : ExtTreeMap String Sg) (rule : Rule) (side : Side) : List String :=
  if ruleSide rule = side then [fwBuildRule groups rule].filter (· ≠ "") else []

theorem viewOf_fwAddRule {nic : Nic} {rule : Rule} {gn : GraphNic}
    (hstarted : s.started = true) (hfilter : nic.bypassFiltering = false)
    (hrule : fwBuildRule s.model.securityGroups rule ≠ "") (hgn : s.findNic nic = some gn) :
    viewOf nic (fwAddRule ambient.ok nic rule s) =
      some ((fwView gn.firewall s.ops).after gn.firewall
        (addRuleOps ambient.ok gn rule (fwBuildRule s.model.securityGroups rule))) := by
  rw [fwAddRule_eq hstarted hfilter hrule hgn, viewOf, Server.emits_findNic, Server.findNic_eq,
    Server.branch_updateNic, if_pos ⟨rfl, rfl⟩, ← Server.findNic_eq, hgn]
  have hfw : (afterRule gn rule gn).firewall = gn.firewall := by
    unfold afterRule
    split <;> rfl
  simp only [Option.map_some, hfw, Server.emits_ops, Server.updateNic_ops, fwView_append]

theorem fwAddRule_placed (hok : AcceptsRules ambient) (hmarks : Marks s) {nic : Nic}
    {rule : Rule} {west east : List String} {outbound : Bool} {view : FwView}
    (hstarted : s.started = true) (hfilter : nic.bypassFiltering = false)
    (hbuilds : rule.direction = .outbound → fwBuildRule s.model.securityGroups rule ≠ "")
    (hview : viewOf nic s = some view) (h : Placed nic west east outbound view) :
    ∃ view', viewOf nic (fwAddRule ambient.ok nic rule s) = some view' ∧
      Placed nic (west ++ broughtTexts s.model.securityGroups rule .west)
        (east ++ broughtTexts s.model.securityGroups rule .east)
        (outbound || decide (rule.direction = .outbound)) view' := by
  by_cases hempty : fwBuildRule s.model.securityGroups rule = ""
  · have hin : rule.direction ≠ .outbound := fun hout => hbuilds hout hempty
    have hsame : fwAddRule ambient.ok nic rule s = s := by
      simp [fwAddRule, hempty]
    rw [hsame]
    refine ⟨view, hview, ?_⟩
    simpa [broughtTexts, hempty, hin] using h
  obtain ⟨gn, hgn, rfl⟩ := Option.map_eq_some_iff.mp hview
  refine ⟨_, viewOf_fwAddRule hstarted hfilter hempty hgn, ?_⟩
  by_cases hout : rule.direction = .outbound
  · rw [FwView.after_outbound hok hout, hmarks.mark (Server.findNic_eq nic s ▸ hgn),
      h.hasDefault]
    have hwest : broughtTexts s.model.securityGroups rule .west = [] :=
      if_neg fun hside => ruleSide_eq_west.mp hside hout
    have heast : broughtTexts s.model.securityGroups rule .east =
        [fwBuildRule s.model.securityGroups rule] := by
      rw [broughtTexts, if_pos (ruleSide_eq_east.mpr hout)]
      simp [hempty]
    rw [hwest, List.append_nil, heast]
    have hinstalled : Installed ((if !outbound then [] else
        (fwView gn.firewall s.ops).rules .east) ++
          [⟨fwBuildRule s.model.securityGroups rule, false⟩])
        (east ++ [fwBuildRule s.model.securityGroups rule]) := by
      cases outbound with
      | false =>
          rw [(h.default rfl).1]
          have hnone : Installed [] [] := ⟨[], .nil, fun _ => Iff.rfl⟩
          exact hnone.append _
      | true => exact (h.lifted rfl).2.append _
    refine ⟨rfl, by simpa using h.west, fun hnot => by simp [hout] at hnot, fun _ => ⟨?_, ?_⟩⟩
    · cases outbound with
      | false => simp [FwView.hasDefault]
      | true => simpa [FwView.hasDefault] using (h.lifted rfl).1
    · simpa using hinstalled
  · rw [FwView.after_addRuleOps hok hout]
    have heast : broughtTexts s.model.securityGroups rule .east = [] :=
      if_neg fun hside => hout (ruleSide_eq_east.mp hside)
    have hwest : broughtTexts s.model.securityGroups rule .west =
        [fwBuildRule s.model.securityGroups rule] := by
      rw [broughtTexts, if_pos (ruleSide_eq_west.mpr hout)]
      simp [hempty]
    rw [heast, List.append_nil, hwest, decide_eq_false hout, Bool.or_false]
    refine ⟨rfl, by simpa using h.west.append _, fun hnone => ?_, fun hlifted => ?_⟩
    · simpa using h.default hnone
    · simpa [FwView.hasDefault] using h.lifted hlifted

/-- In the loop of `SgUpdateRule`: the NICs called so far have the rule, the others do not. -/
structure Adding (rule : Rule) (groups : ExtTreeMap String Sg) (s₀ : Server)
    (done : List Nic) (s : Server) : Prop where
  agree : Agree s
  marks : Marks s
  model : s.model = s₀.model
  called : ∀ {id : String} {nic}, s.model.nics[id]? = some nic →
    nic.bypassFiltering = false → nic ∈ done → ∃ view, viewOf nic s = some view ∧
      Placed nic (sideTexts groups nic .west ++ broughtTexts groups rule .west)
        (sideTexts groups nic .east ++ broughtTexts groups rule .east)
        (holdsOutbound groups nic || decide (rule.direction = .outbound)) view
  others : ∀ {id : String} {nic}, s.model.nics[id]? = some nic →
    nic.bypassFiltering = false → nic ∉ done → ∃ view, viewOf nic s = some view ∧
      Placed nic (sideTexts groups nic .west) (sideTexts groups nic .east)
        (holdsOutbound groups nic) view

theorem Adding.step (hok : AcceptsRules ambient) {rule : Rule}
    {groups : ExtTreeMap String Sg} {s₀ : Server} {done : List Nic}
    (h : Adding rule groups s₀ done s)
    (hbuild : fwBuildRule s.model.securityGroups rule = fwBuildRule groups rule)
    {nic : Nic} (hnic : nic ∈ mapValues s.model.nics)
    (hbuilds : rule.direction = .outbound → nic.bypassFiltering = false →
      fwBuildRule groups rule ≠ "") :
    Adding rule groups s₀ (done ++ [nic]) (fwAddRule ambient.ok nic rule s) := by
  have hown := fwAddRule_tunedOwn ambient.ok nic rule s
  obtain ⟨id, hnic⟩ := mem_mapValues.mp hnic
  have hview : ∀ {id' : String} {other : Nic}, s.model.nics[id']? = some other → other ≠ nic →
      viewOf other (fwAddRule ambient.ok nic rule s) = viewOf other s := by
    intro id' other hother hne
    refine viewOf_tuned hown (h.agree.off_other hnic hother ?_)
    rintro rfl
    rw [hnic] at hother
    exact hne (Option.some.inj hother).symm
  have hbrought : ∀ side, broughtTexts s.model.securityGroups rule side =
      broughtTexts groups rule side := by
    intro side
    rw [broughtTexts, hbuild, broughtTexts]
  refine ⟨h.agree.tuned hown, h.marks.fwAddRule hok h.agree.graph nic rule,
    hown.model.trans h.model, ?_, ?_⟩
  · intro id' other hother hfilter hmem
    rw [hown.model] at hother
    by_cases hsame : other = nic
    · subst hsame
      by_cases hdone : other ∈ done
      · -- A NIC that lists the group twice gets the rule twice.
        obtain ⟨view, hview, hplaced⟩ := h.called hother hfilter hdone
        obtain ⟨view', hview', hplaced'⟩ := fwAddRule_placed hok h.marks h.agree.graph.started
          hfilter (fun hout => by rw [hbuild]; exact hbuilds hout hfilter) hview hplaced
        rw [hbrought, hbrought, Bool.or_assoc, Bool.or_self] at hplaced'
        exact ⟨view', hview', hplaced'.congr (by simp) (by simp)⟩
      · obtain ⟨view, hview, hplaced⟩ := h.others hother hfilter hdone
        obtain ⟨view', hview', hplaced'⟩ := fwAddRule_placed hok h.marks h.agree.graph.started
          hfilter (fun hout => by rw [hbuild]; exact hbuilds hout hfilter) hview hplaced
        rw [hbrought, hbrought] at hplaced'
        exact ⟨view', hview', hplaced'⟩
    · rw [hview hother hsame]
      refine h.called hother hfilter ?_
      simpa [hsame] using hmem
  · intro id' other hother hfilter hnot
    rw [hown.model] at hother
    rw [List.mem_append, List.mem_singleton, not_or] at hnot
    rw [hview hother hnot.2]
    exact h.others hother hfilter hnot.1

theorem Adding.run (hok : AcceptsRules ambient) {rule : Rule}
    {groups : ExtTreeMap String Sg} {s₀ : Server} (nics : List Nic) {done : List Nic}
    (h : Adding rule groups s₀ done s)
    (hbuild : fwBuildRule s₀.model.securityGroups rule = fwBuildRule groups rule)
    (hnics : ∀ nic ∈ nics, nic ∈ mapValues s₀.model.nics)
    (hbuilds : ∀ nic ∈ nics, rule.direction = .outbound → nic.bypassFiltering = false →
      fwBuildRule groups rule ≠ "") :
    Adding rule groups s₀ (done ++ nics)
      (nics.foldl (fun s nic => fwAddRule ambient.ok nic rule s) s) := by
  induction nics generalizing s done with
  | nil => simpa using h
  | cons nic nics ih =>
      have hmem : nic ∈ mapValues s.model.nics := by
        rw [h.model]
        exact hnics nic List.mem_cons_self
      have hstep := h.step hok (by rw [h.model]; exact hbuild) hmem
        (hbuilds nic List.mem_cons_self)
      have hrest := ih hstep (fun n hn => hnics n (List.mem_cons_of_mem _ hn))
        fun n hn => hbuilds n (List.mem_cons_of_mem _ hn)
      simpa using hrest

theorem mem_groupRules_withRule {sgId : String} {rule : Rule} {sg : Sg} {nic : Nic}
    (hsg : mapValues sg.rules = rulesOf s.model.securityGroups sgId)
    (hnew : rule.hash P ∉ sg.rules) {r : Rule} :
    r ∈ groupRules (Api.setSg sgId (withRule P rule sg) s).model.securityGroups nic ↔
      sgId ∈ nic.securityGroups ∧ r = rule ∨ r ∈ groupRules s.model.securityGroups nic := by
  simp only [mem_groupRules, mem_rulesOf_withRule hsg hnew]
  constructor
  · rintro ⟨name, hname, ⟨rfl, rfl⟩ | hr⟩
    · exact .inl ⟨hname, rfl⟩
    · exact .inr ⟨name, hname, hr⟩
  · rintro (⟨hlists, rfl⟩ | ⟨name, hname, hr⟩)
    · exact ⟨sgId, hlists, .inl ⟨rfl, rfl⟩⟩
    · exact ⟨name, hname, .inr hr⟩

theorem mem_broughtTexts {groups : ExtTreeMap String Sg} {rule : Rule} {side : Side}
    {a : String} : a ∈ broughtTexts groups rule side ↔
      a ≠ "" ∧ ruleSide rule = side ∧ fwBuildRule groups rule = a := by
  unfold broughtTexts
  split
  · next hside =>
      simp only [hside, true_and, List.mem_filter, List.mem_singleton, decide_eq_true_eq]
      rw [and_comm, eq_comm]
  · next hside => simp [hside]

theorem mem_sideTexts_withRule {sgId : String} {rule : Rule} {sg : Sg} (nic : Nic)
    (hsg : mapValues sg.rules = rulesOf s.model.securityGroups sgId)
    (hmembers : sg.members = membersOf s.model.securityGroups sgId)
    (hnew : rule.hash P ∉ sg.rules) (side : Side) (a : String) :
    a ∈ sideTexts (Api.setSg sgId (withRule P rule sg) s).model.securityGroups nic side ↔
      a ∈ sideTexts s.model.securityGroups nic side ∨
        sgId ∈ nic.securityGroups ∧ a ∈ broughtTexts s.model.securityGroups rule side := by
  simp only [mem_sideTexts, mem_broughtTexts, mem_groupRules_withRule hsg hnew,
    fwBuildRule_withRule rule hmembers]
  constructor
  · rintro ⟨hne, r, ⟨hlists, rfl⟩ | hr, hside, rfl⟩
    · exact .inr ⟨hlists, hne, hside, rfl⟩
    · exact .inl ⟨hne, r, hr, hside, rfl⟩
  · rintro (⟨hne, r, hr, hside, rfl⟩ | ⟨hlists, hne, hside, rfl⟩)
    · exact ⟨hne, r, .inr hr, hside, rfl⟩
    · exact ⟨hne, rule, .inl ⟨hlists, rfl⟩, hside, rfl⟩

theorem holdsOutbound_withRule {sgId : String} {rule : Rule} {sg : Sg} (nic : Nic)
    (hsg : mapValues sg.rules = rulesOf s.model.securityGroups sgId)
    (hnew : rule.hash P ∉ sg.rules) :
    holdsOutbound (Api.setSg sgId (withRule P rule sg) s).model.securityGroups nic =
      (holdsOutbound s.model.securityGroups nic ||
        decide (sgId ∈ nic.securityGroups) && decide (rule.direction = .outbound)) := by
  rw [Bool.eq_iff_iff]
  simp only [Bool.or_eq_true, Bool.and_eq_true, decide_eq_true_eq, holdsOutbound_iff,
    mem_groupRules_withRule hsg hnew]
  constructor
  · rintro ⟨r, ⟨hlists, rfl⟩ | hr, hout⟩
    · exact .inr ⟨hlists, hout⟩
    · exact .inl ⟨r, hr, hout⟩
  · rintro (⟨r, hr, hout⟩ | ⟨hlists, hout⟩)
    · exact ⟨r, .inr hr, hout⟩
    · exact ⟨rule, .inl ⟨hlists, rfl⟩, hout⟩

end Rules

/-! ## Runs -/

/-- Every filtering NIC has its rules on their sides. -/
structure Sided (s : Server) : Prop where
  nics : ∀ {id : String} {nic}, s.model.nics[id]? = some nic → nic.bypassFiltering = false →
    OnSides nic s

section Runs

variable {P : Platform} {ambient : Ambient} {s s' : Server}

theorem Sided.spares (h : Sided s) (hspares : Spares s s') : Sided s' := by
  constructor
  intro id nic hnic hfilter
  rcases hspares.nics hnic hfilter with ⟨hrebuilt, hout⟩ | hunmoved
  · exact hrebuilt.onSides hout
  · exact hunmoved.onSides hfilter h.nics

theorem sgUpdateRule_sided (hok : AcceptsRules ambient) (h : Agree s) (hmarks : Marks s)
    (hs : Sided s) {sgId : String} {rule : Rule} {sg : Sg} (hid : sg.id = sgId)
    (hsg : mapValues sg.rules = rulesOf s.model.securityGroups sgId)
    (hmembers : sg.members = membersOf s.model.securityGroups sgId)
    (hnew : rule.hash P ∉ sg.rules)
    (hbuilds : ∀ nic ∈ Api.sgUpdateCalls sgId s.model, rule.direction = .outbound →
      nic.bypassFiltering = false → fwBuildRule s.model.securityGroups rule ≠ "") :
    Sided (Api.sgUpdateRule ambient (withRule P rule sg) rule
      (Api.setSg sgId (withRule P rule sg) s)) := by
  subst hid
  have hstart : Adding rule s.model.securityGroups (Api.setSg sg.id (withRule P rule sg) s) []
      (Api.setSg sg.id (withRule P rule sg) s) :=
    ⟨h.setSg _ rfl, hmarks.setSg _ _, rfl, fun _ _ hmem => absurd hmem List.not_mem_nil,
      fun hnic hfilter _ => hs.nics hnic hfilter⟩
  have hall := hstart.run hok (Api.sgUpdateCalls sg.id s.model)
    (fwBuildRule_withRule rule hmembers rule)
    (fun nic hnic => (Api.mem_sgUpdateCalls.mp hnic).1) hbuilds
  rw [List.nil_append] at hall
  have hloop : Api.sgUpdateRule ambient (withRule P rule sg) rule
      (Api.setSg sg.id (withRule P rule sg) s) =
        (Api.sgUpdateCalls sg.id s.model).foldl (fun s nic => fwAddRule ambient.ok nic rule s)
          (Api.setSg sg.id (withRule P rule sg) s) :=
    Api.forGroup_eq sg.id (fun nic => fwAddRule ambient.ok nic rule) _
  rw [hloop]
  constructor
  intro id nic hnic hfilter
  have hnic' := hnic
  rw [hall.model] at hnic'
  have hlisted : nic ∈ Api.sgUpdateCalls sg.id s.model ↔ sg.id ∈ nic.securityGroups := by
    rw [Api.mem_sgUpdateCalls]
    exact and_iff_right (mem_mapValues.mpr ⟨id, hnic'⟩)
  have htexts := mem_sideTexts_withRule nic hsg hmembers hnew
  rw [OnSides, hall.model, holdsOutbound_withRule nic hsg hnew]
  by_cases hlists : sg.id ∈ nic.securityGroups
  · obtain ⟨view, hview, hplaced⟩ := hall.called hnic hfilter (hlisted.mpr hlists)
    refine ⟨view, hview, ?_⟩
    rw [decide_eq_true hlists, Bool.true_and]
    refine hplaced.congr (fun a => ?_) fun a => ?_
    · rw [htexts, List.mem_append, and_iff_right hlists]
    · rw [htexts, List.mem_append, and_iff_right hlists]
  · obtain ⟨view, hview, hplaced⟩ := hall.others hnic hfilter (mt hlisted.mp hlists)
    refine ⟨view, hview, ?_⟩
    rw [decide_eq_false hlists, Bool.false_and, Bool.or_false]
    refine hplaced.congr (fun a => ?_) fun a => ?_
    · simp [htexts, hlists]
    · simp [htexts, hlists]

theorem actionSgRuleAdd_sided (hok : AcceptsRules ambient) (h : Agree s) (hmarks : Marks s)
    (hs : Sided s) {sgId : String} {rule : Rule}
    (hkeeps : KeepsSides P ambient s (.sgRuleAdd sgId rule)) :
    Sided (Api.actionSgRuleAdd P ambient sgId rule s) := by
  obtain ⟨hagree, -, hid⟩ := h.ensureSg sgId
  have hmarked := hmarks.ensureSg sgId
  have hsided : Sided (Api.ensureSg sgId s).2 := hs.spares (spares_ensureSg (.refl _))
  have hrules := Api.ensureSg_rules s sgId
  have hmembers := members_ensureSg s sgId
  have hcalls : Api.sgUpdateCalls sgId (Api.ensureSg sgId s).2.model =
      Api.sgUpdateCalls sgId s.model := by
    rw [Api.sgUpdateCalls, ensureSg_nics, Api.sgUpdateCalls]
  have hbuilds : rule.hash P ∉ (Api.ensureSg sgId s).1.rules →
      ∀ nic ∈ Api.sgUpdateCalls sgId (Api.ensureSg sgId s).2.model,
        rule.direction = .outbound → nic.bypassFiltering = false →
          fwBuildRule (Api.ensureSg sgId s).2.model.securityGroups rule ≠ "" := by
    intro hnew nic hnic hout hfilter
    rw [fwBuildRule_congr (Api.ensureSg_membersOf s sgId _)]
    rw [hcalls] at hnic
    exact hkeeps hout hnew ⟨nic, hnic, hfilter⟩
  unfold Api.actionSgRuleAdd
  split
  next sg s₁ heq =>
    rw [heq] at hagree hid hmarked hsided hrules hmembers hbuilds
    split
    · exact hsided
    · next hnew =>
        exact sgUpdateRule_sided hok hagree hmarked hsided hid hrules hmembers hnew
          (hbuilds hnew)

theorem Sided.perform {a : Action} {accepted : Bool} (hok : AcceptsRules ambient)
    (h : Agree s) (hmarks : Marks s) (hs : Sided s) (hkeeps : KeepsSides P ambient s a)
    (ha : perform P ambient a s = some (accepted, s')) : Sided s' := by
  by_cases hadds : a.AddsRule
  · cases a with
    | sgRuleAdd sgId rule =>
        cases ha
        exact actionSgRuleAdd_sided hok h hmarks hs hkeeps
    | _ => exact hadds.elim
  · exact hs.spares (perform_spares hok h hkeeps ha hadds)

theorem Sided.sameCore (h : Sided s) (hcore : SameCore s s') : Sided s' := by
  have hview : ∀ nic, viewOf nic s' = viewOf nic s := by
    intro nic
    simp only [viewOf, Server.findNic, hcore.vnis, hcore.ops]
  constructor
  intro id nic hnic hfilter
  rw [hcore.model] at hnic
  rw [OnSides, hview, hcore.model]
  exact h.nics hnic hfilter

/-- `pg_firewall_rule_add` accepts every filter and no action breaks the sides. -/
def sidesKept (P : Platform) : Allowed := fun s ambient request =>
  AcceptsRules ambient ∧ ∀ rq c a, request = some rq → Api0.command rq = some c →
    Asks P ambient s c a → KeepsSides P ambient s a

theorem sided_start (config : AppConfig) (pid : Nat) (startDate : UInt64) :
    Sided (Server.start config pid startDate) := by
  constructor
  intro id nic hnic
  rw [Server.start_nics] at hnic
  cases hnic

theorem sided_of_reachable (h : Reachable P (sidesKept P) s) : Sided s ∧ Marks s := by
  refine h.invariant (I := fun t => Sided t ∧ Marks t) ?_ ?_ ?_
  · exact fun config pid startDate =>
      ⟨sided_start config pid startDate, marks_start config pid startDate⟩
  · rintro t t' hcore ⟨hsided, hmarks⟩
    exact ⟨hsided.sameCore hcore, hmarks.sameCore hcore⟩
  · rintro ambient t t' rq c a accepted ht ⟨hok, hkeeps⟩ hc hasks ⟨hsided, hmarks⟩ hperform
    have hagree := ht.sound.agree
    exact ⟨hsided.perform hok hagree hmarks (hkeeps rq c a rfl hc hasks) hperform,
      hmarks.perform hok hagree hperform⟩

end Runs

/-! ## Packets -/

theorem Placed.matches {Packet : Type} (pcap : Pcap Packet) {nic : Nic}
    {view view' : FwView} {west east : List String} {outbound : Bool}
    (h : Placed nic west east outbound view) (h' : Placed nic west east outbound view')
    (hwest : ∀ text ∈ west, pcap.filter text) (heast : ∀ text ∈ east, pcap.filter text)
    (side : Side) (p : Packet) :
    pcap.Matches (view'.rules side) p ↔ pcap.Matches (view.rules side) p := by
  cases side with
  | west => rw [h'.west.matches pcap hwest, h.west.matches pcap hwest]
  | east =>
      cases outbound with
      | false => rw [(h'.default rfl).2, (h.default rfl).2]
      | true =>
          rw [(h'.lifted rfl).2.matches pcap heast, (h.lifted rfl).2.matches pcap heast]

/--
In every run that rebuilds no firewall with outbound rules, in any interleaving,
once the poller is done: the west side of a filtering NIC stands for the rules of
its groups that are not outbound and the east side for the outbound ones, with the
default filter there exactly if no group has an outbound rule.  Two such runs to
the same NICs and groups admit the same packets on each side.
-/
theorem sides_agree {P : Platform} {Packet : Type} (pcap : Pcap Packet) {s : Server}
    {pg : Packetgraph} {id : String} {nic : Nic} (h : Reachable P (sidesKept P) s)
    (hdrained : Drained s pg) (hnic : s.model.nics[id]? = some nic)
    (hfilter : nic.bypassFiltering = false) :
    ∃ gn, s.findNic nic = some gn ∧
      Installed (pg.firewalls.loaded gn.firewall .west)
        (sideTexts s.model.securityGroups nic .west) ∧
      (holdsOutbound s.model.securityGroups nic = true →
        Installed (pg.firewalls.loaded gn.firewall .east)
          (sideTexts s.model.securityGroups nic .east)) ∧
      (holdsOutbound s.model.securityGroups nic = false →
        pg.firewalls.loaded gn.firewall .east = [⟨outRules nic, true⟩]) ∧
      (⟨outRules nic, true⟩ ∈ pg.firewalls.loaded gn.firewall .east ↔
        holdsOutbound s.model.securityGroups nic = false) ∧
      gn.defaultOutboundRule = !holdsOutbound s.model.securityGroups nic ∧
      ((∀ rule ∈ groupRules s.model.securityGroups nic,
          fwBuildRule s.model.securityGroups rule ≠ "" →
            pcap.filter (fwBuildRule s.model.securityGroups rule)) →
        ∀ {s' : Server} {pg' : Packetgraph}, Reachable P (sidesKept P) s' → Drained s' pg' →
          s'.model.nics = s.model.nics → s'.model.securityGroups = s.model.securityGroups →
          ∃ gn', s'.findNic nic = some gn' ∧ ∀ side p,
            pcap.Matches (pg'.firewalls.loaded gn'.firewall side) p ↔
              pcap.Matches (pg.firewalls.loaded gn.firewall side) p) := by
  obtain ⟨hsided, hmarks⟩ := sided_of_reachable h
  obtain ⟨view, hview, hplaced⟩ := hsided.nics hnic hfilter
  obtain ⟨gn, hgn, rfl⟩ := Option.map_eq_some_iff.mp hview
  have hloaded := hdrained.loaded hplaced.reloaded
  refine ⟨gn, hgn, ?_, fun hout => ?_, fun hnone => ?_, ⟨fun hmem => ?_, fun hnone => ?_⟩, ?_, ?_⟩
  · rw [hloaded]
    exact hplaced.west
  · rw [hloaded]
    exact (hplaced.lifted hout).2
  · rw [hloaded]
    exact (hplaced.default hnone).2
  · rw [hloaded] at hmem
    have hdefault : (fwView gn.firewall s.ops).hasDefault = true :=
      List.any_eq_true.mpr ⟨_, hmem, rfl⟩
    rw [hplaced.hasDefault] at hdefault
    simpa using hdefault
  · rw [hloaded, (hplaced.default hnone).2]
    exact List.mem_cons_self
  · rw [hmarks.mark (Server.findNic_eq nic s ▸ hgn), hplaced.hasDefault]
  · intro hfilters s' pg' h' hdrained' hnics hgroups
    have hnic' := hnic
    rw [← hnics] at hnic'
    obtain ⟨view', hview', hplaced'⟩ := (sided_of_reachable h').1.nics hnic' hfilter
    obtain ⟨gn', hgn', rfl⟩ := Option.map_eq_some_iff.mp hview'
    have htexts : ∀ side, ∀ text ∈ sideTexts s.model.securityGroups nic side,
        pcap.filter text := by
      intro side text htext
      obtain ⟨hne, rule, hrule, -, rfl⟩ := mem_sideTexts.mp htext
      exact hfilters rule hrule hne
    rw [hgroups] at hplaced'
    refine ⟨gn', hgn', fun side p => ?_⟩
    rw [hdrained'.loaded hplaced'.reloaded, hloaded]
    exact hplaced.matches pcap hplaced' (htexts .west) (htexts .east) side p

def lonelyNic : MessageV0.Request :=
  { nicAdd := some { id := "nic-1", mac := "52:54:00:12:34:01", vni := 42
                     ip := ["42.0.0.1"], securityGroup := ["sg-1"] } }

def netRule (direction : MessageV0.RuleDirection) (address : String) (maskSize : UInt32) :
    MessageV0.Rule :=
  { direction := direction, protocol := -1
    cidr := some { address := address, maskSize := maskSize } }

def addRule (rule : MessageV0.Rule) : MessageV0.Request :=
  { sgRuleAdd := some { sgId := "sg-1", rule := rule } }

theorem sidesKept_lonelyNic :
    sidesKept Libc.platform (Server.start {} 1 0) {} (some lonelyNic) := by
  refine ⟨fun _ _ _ => rfl, ?_⟩
  rintro _ _ _ ⟨⟩ ⟨⟩ ⟨⟩
  rintro - nic - -
  simp [holdsOutbound, groupRules, rulesOf]

theorem sidesKept_netRule (s : Server) (direction : MessageV0.RuleDirection)
    (address : String) (maskSize : UInt32) :
    sidesKept Libc.platform s {} (some (addRule (netRule direction address maskSize))) := by
  refine ⟨fun _ _ _ => rfl, ?_⟩
  rintro _ _ _ ⟨⟩ ⟨⟩ hasks
  cases hasks with
  | @sgRuleAdd _ rule _ hrule =>
      intro _ _ _
      simp only [netRule, Api0.convertRule] at hrule
      cases hcidr : Api0.convertCidr Libc.platform ⟨address, maskSize⟩ with
      | error e =>
          rw [hcidr] at hrule
          cases hrule
      | ok cidr =>
          rw [hcidr] at hrule
          cases hrule
          exact fwBuildRule_ne_empty rfl rfl

def bothSides : Server :=
  (serve Libc.platform {} [lonelyNic, addRule (netRule .inbound "0.0.0.0" 0),
    addRule (netRule .outbound "10.0.0.0" 8)] (Server.start {} 1 0)).getD (Server.start {} 1 0)

theorem bothSides_reachable : Reachable Libc.platform (sidesKept Libc.platform) bothSides := by
  have hsome : (serve Libc.platform {} [lonelyNic, addRule (netRule .inbound "0.0.0.0" 0),
      addRule (netRule .outbound "10.0.0.0" 8)] (Server.start {} 1 0)).isSome = true := by
    decide +kernel
  obtain ⟨s, hs⟩ := Option.isSome_iff_exists.mp hsome
  rw [bothSides, hs]
  rw [serve] at hs
  obtain ⟨⟨response, s₁⟩, hrespond, hrest⟩ := Option.bind_eq_some_iff.mp hs
  have hfirst : Reachable Libc.platform (sidesKept Libc.platform) s₁ :=
    (Reachable.start {} 1 0).respond sidesKept_lonelyNic hrespond
  refine hfirst.serve (fun rq hrq t => ?_) hrest
  simp only [List.mem_cons, List.not_mem_nil, or_false] at hrq
  rcases hrq with rfl | rfl
  · exact sidesKept_netRule t .inbound "0.0.0.0" 0
  · exact sidesKept_netRule t .outbound "10.0.0.0" 8

theorem sides_agree_both_sides :
    ∃ nic gn, bothSides.model.nics["nic-1"]? = some nic ∧ bothSides.findNic nic = some gn ∧
      Installed (bothSides.settled.firewalls.loaded gn.firewall .west) ["ip"] ∧
      Installed (bothSides.settled.firewalls.loaded gn.firewall .east) ["dst net 10.0.0.0/8"] ∧
      gn.defaultOutboundRule = false := by
  have hnic : ∃ nic, bothSides.model.nics["nic-1"]? = some nic ∧
      nic.bypassFiltering = false ∧
      sideTexts bothSides.model.securityGroups nic .west = ["ip"] ∧
      sideTexts bothSides.model.securityGroups nic .east = ["dst net 10.0.0.0/8"] ∧
      holdsOutbound bothSides.model.securityGroups nic = true :=
    ⟨(bothSides.model.nics["nic-1"]?).get (by decide +kernel), by simp, by decide +kernel,
      by decide +kernel, by decide +kernel, by decide +kernel⟩
  obtain ⟨nic, hnic, hfilter, hwest, heast, hout⟩ := hnic
  obtain ⟨gn, hgn, hwest', heast', -, -, hmark, -⟩ := sides_agree Pcap.ipFilters
    bothSides_reachable (drained_settled _) hnic hfilter
  rw [hwest] at hwest'
  rw [heast] at heast'
  rw [hout] at heast' hmark
  exact ⟨nic, gn, hnic, hgn, hwest', heast' rfl, hmark⟩

def ruleFirst : Server :=
  (serve Libc.platform {} [addRule (netRule .outbound "10.0.0.0" 8), lonelyNic]
    (Server.start {} 1 0)).getD (Server.start {} 1 0)

def nicFirst : Server :=
  (serve Libc.platform {} [lonelyNic, addRule (netRule .outbound "10.0.0.0" 8)]
    (Server.start {} 1 0)).getD (Server.start {} 1 0)

theorem reachable_of_served {requests : List MessageV0.Request}
    (h : (serve Libc.platform {} requests (Server.start {} 1 0)).isSome = true) :
    Reachable Libc.platform anything
      ((serve Libc.platform {} requests (Server.start {} 1 0)).getD (Server.start {} 1 0)) := by
  obtain ⟨s, hs⟩ := Option.isSome_iff_exists.mp h
  rw [hs]
  exact (Reachable.start {} 1 0).serve (fun _ _ _ => trivial) hs

/--
With the rule first it is on the west side, next to the default filter; with the NIC
first it is on the east side alone.  The models are the same.
-/
theorem outbound_rule_on_west :
    Reachable Libc.platform anything ruleFirst ∧ Reachable Libc.platform anything nicFirst ∧
      nicFirst.model.nics = ruleFirst.model.nics ∧
      nicFirst.model.securityGroups = ruleFirst.model.securityGroups ∧
      ∃ nic gn gn', ruleFirst.model.nics["nic-1"]? = some nic ∧
        nic.bypassFiltering = false ∧
        holdsOutbound ruleFirst.model.securityGroups nic = true ∧
        ruleFirst.findNic nic = some gn ∧ nicFirst.findNic nic = some gn' ∧
        ruleFirst.settled.firewalls.loaded gn.firewall .west = [⟨"((dst net 10.0.0.0/8))", false⟩] ∧
        ruleFirst.settled.firewalls.loaded gn.firewall .east = [⟨outRules nic, true⟩] ∧
        nicFirst.settled.firewalls.loaded gn'.firewall .west = [] ∧
        nicFirst.settled.firewalls.loaded gn'.firewall .east = [⟨"dst net 10.0.0.0/8", false⟩] := by
  refine ⟨reachable_of_served (by decide +kernel), reachable_of_served (by decide +kernel),
    by decide +kernel, by decide +kernel,
    (ruleFirst.model.nics["nic-1"]?).get (by decide +kernel),
    (ruleFirst.findNic ((ruleFirst.model.nics["nic-1"]?).get (by decide +kernel))).get
      (by decide +kernel),
    (nicFirst.findNic ((ruleFirst.model.nics["nic-1"]?).get (by decide +kernel))).get
      (by decide +kernel), by simp, by decide +kernel, by decide +kernel, by simp, by simp,
      by decide +kernel, by decide +kernel, by decide +kernel, by decide +kernel⟩

end Butterfly
