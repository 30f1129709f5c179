import Butterfly.Agreement
import Butterfly.Firewall

/-!
# Refreshing firewalls

`FwUpdate` rebuilds the firewall of one NIC and leaves the others alone.  From
this follows which firewalls the fan-out functions `SgUpdate` and
`SgUpdateRuleMembers` rebuild.
-/

namespace Butterfly

open Std Foundation Butterfly.Graph

def AcceptsRules (ambient : Ambient) : Prop :=
  ∀ b filter side, ambient.ok (.ruleAdd b filter side) = true

/-! ## The firewall of a NIC -/

def viewOf (nic : Nic) (s : Server) : Option FwView :=
  (s.findNic nic).map fun gn => fwView gn.firewall s.ops

def builtView (groups : ExtTreeMap String Sg) (nic : Nic) : FwView :=
  ⟨builtRules (inRules groups nic) (outRules nic), true⟩

/-- The firewall is the one `FwUpdate` would build from scratch. -/
def Rebuilt (nic : Nic) (s : Server) : Prop :=
  viewOf nic s = some (builtView s.model.securityGroups nic)

theorem viewOf_tuned {p : Op Rpc Direct → Prop} {nic : Nic} {s s' : Server}
    (ht : Tuned p s s')
    (hoff : ∀ gn op, s.findNic nic = some gn → p op → ¬FirewallOp gn.firewall op) :
    viewOf nic s' = viewOf nic s := by
  have hbranch := ht.branch nic.vni nic.id
  obtain ⟨ops, hops, hp⟩ := ht.appends
  unfold viewOf
  rw [Server.findNic_eq, Server.findNic_eq]
  cases hgn : s.branch nic.vni nic.id with
  | none =>
      rw [hgn, Option.map_none, Option.map_eq_none_iff] at hbranch
      rw [hbranch]
      rfl
  | some gn =>
      rw [hgn, Option.map_some] at hbranch
      obtain ⟨gn', hgn', hkin⟩ := Option.map_eq_some_iff.mp hbranch
      have hfw : gn'.kin.firewall = gn.kin.firewall := congrArg GraphNic.firewall hkin
      change gn'.firewall = gn.firewall at hfw
      rw [hgn', Option.map_some, Option.map_some, hfw, hops, fwView_append,
        FwView.after_of_off fun op hop => hoff gn op hgn (hp op hop)]

theorem viewOf_offFirewall {nic : Nic} {s s' : Server} (ht : Tuned OffFirewall s s') :
    viewOf nic s' = viewOf nic s :=
  viewOf_tuned ht fun _ _ _ hop => hop _

theorem Agree.off_other {s : Server} (h : Agree s) {id id' : String}
    {nic other : Nic} (hnic : s.model.nics[id]? = some nic)
    (hother : s.model.nics[id']? = some other) (hne : id ≠ id') :
    ∀ gn op, s.findNic other = some gn → OwnFirewallOp nic s op →
      ¬FirewallOp gn.firewall op := by
  rintro gn op hgn ⟨gn', hgn', hop⟩ hop'
  have hsame := h.graph.distinct hgn' hgn (hop.unique hop')
  rw [h.nicIds hnic, h.nicIds hother] at hsame
  exact hne hsame.2

theorem fwUpdate_rebuilt {ambient : Ambient} {nic : Nic} {s : Server}
    (hok : AcceptsRules ambient) (hstarted : s.started = true)
    (hfilter : nic.bypassFiltering = false) (hfind : (s.findNic nic).isSome) :
    Rebuilt nic (fwUpdate ambient.ok nic s) := by
  obtain ⟨gn, hgn⟩ := Option.isSome_iff_exists.mp hfind
  rw [Server.findNic_eq] at hgn
  rw [Rebuilt, fwUpdate_eq hstarted hfilter hgn, fwUpdateOps_eq hok, viewOf,
    Server.emits_findNic, Server.findNic_eq, Server.branch_updateNic, if_pos ⟨rfl, rfl⟩,
    hgn]
  simp only [Option.map_some, Server.emits_ops, Server.updateNic_ops, fwView_append,
    setDefaultOutboundRule, FwView.after_rebuildOps, Server.emits_model,
    Server.updateNic_model, builtView]

/-! ## Any number of rebuilds -/

structure Refreshes (s s' : Server) : Prop where
  tuned : Tuned (fun op => ∃ b, FirewallOp b op) s s'
  views : ∀ {id : String} {nic}, s.model.nics[id]? = some nic →
    nic.bypassFiltering = false → viewOf nic s' = viewOf nic s ∨ Rebuilt nic s'

namespace Refreshes

variable {a b c s s' : Server}

theorem refl (s : Server) : Refreshes s s :=
  ⟨.refl _ s, fun _ _ => .inl rfl⟩

theorem rebuilt (h : Refreshes s s') {id : String} {nic : Nic}
    (hnic : s.model.nics[id]? = some nic) (hfilter : nic.bypassFiltering = false)
    (hrebuilt : Rebuilt nic s) : Rebuilt nic s' := by
  rcases h.views hnic hfilter with hsame | hnew
  · rw [Rebuilt, hsame, h.tuned.model]
    exact hrebuilt
  · exact hnew

theorem trans (hab : Refreshes a b) (hbc : Refreshes b c) : Refreshes a c := by
  refine ⟨hab.tuned.trans hbc.tuned, fun hnic hfilter => ?_⟩
  have hnic' := hnic
  rw [← hab.tuned.model] at hnic'
  rcases hab.views hnic hfilter with hsame | hnew
  · rcases hbc.views hnic' hfilter with hsame' | hnew'
    · exact .inl (hsame'.trans hsame)
    · exact .inr hnew'
  · exact .inr (hbc.rebuilt hnic' hfilter hnew)

end Refreshes

section Fanout

variable {ambient : Ambient} {s : Server}

/-! ### The double loop over NICs and their groups -/

/--
A refresh of one NIC after which `goal` holds of it, if before that its firewall
was as at the start or `goal` held already.
-/
structure Refresher (s₀ : Server) (refresh : Nic → Server → Server)
    (goal : Nic → Server → Prop) : Prop where
  own : ∀ nic s, Tuned (OwnFirewallOp nic s) s (refresh nic s)
  establishes : ∀ {id : String} {nic s}, Agree s → s.model = s₀.model →
    s.model.nics[id]? = some nic → nic.bypassFiltering = false →
    viewOf nic s = viewOf nic s₀ ∨ goal nic s → goal nic (refresh nic s)
  keeps : ∀ {nic s s'}, goal nic s → viewOf nic s' = viewOf nic s →
    s'.model = s.model → goal nic s'

/-- The loop invariant: who does not list the group is left alone. -/
structure Looped (s₀ : Server) (goal : Nic → Server → Prop) (sgId : String)
    (s : Server) : Prop where
  agree : Agree s
  model : s.model = s₀.model
  views : ∀ {id : String} {nic}, s.model.nics[id]? = some nic →
    nic.bypassFiltering = false →
    viewOf nic s = viewOf nic s₀ ∨ (sgId ∈ nic.securityGroups ∧ goal nic s)

theorem Looped.step {s₀ : Server} {refresh : Nic → Server → Server}
    {goal : Nic → Server → Prop} {sgId id : String} {nic : Nic}
    (hrefresher : Refresher s₀ refresh goal) (h : Looped s₀ goal sgId s)
    (hnic : s.model.nics[id]? = some nic) (hlists : sgId ∈ nic.securityGroups) :
    Looped s₀ goal sgId (refresh nic s) ∧
      (nic.bypassFiltering = false → goal nic (refresh nic s)) := by
  have hown := hrefresher.own nic s
  have hgoal : nic.bypassFiltering = false → goal nic (refresh nic s) := by
    intro hfilter
    refine hrefresher.establishes h.agree h.model hnic hfilter ?_
    exact (h.views hnic hfilter).imp_right And.right
  refine ⟨⟨h.agree.tuned hown, hown.model.trans h.model, ?_⟩, hgoal⟩
  intro id' other hother hfilter
  rw [hown.model] at hother
  by_cases hid : id = id'
  · subst hid
    rw [hnic] at hother
    cases hother
    exact .inr ⟨hlists, hgoal hfilter⟩
  · have hsame := viewOf_tuned hown (h.agree.off_other hnic hother hid)
    rcases h.views hother hfilter with hview | ⟨hmem, hdone⟩
    · exact .inl (hsame.trans hview)
    · exact .inr ⟨hmem, hrefresher.keeps hdone hsame hown.model⟩

theorem Looped.goal_step {s₀ : Server} {refresh : Nic → Server → Server}
    {goal : Nic → Server → Prop} {sgId id id' : String} {nic other : Nic}
    (hrefresher : Refresher s₀ refresh goal) (h : Looped s₀ goal sgId s)
    (hnic : s.model.nics[id]? = some nic) (hlists : sgId ∈ nic.securityGroups)
    (hother : s.model.nics[id']? = some other)
    (hfilter : other.bypassFiltering = false) (hgoal : goal other s) :
    goal other (refresh nic s) := by
  by_cases hid : id = id'
  · subst hid
    rw [hnic] at hother
    cases hother
    exact (h.step hrefresher hnic hlists).2 hfilter
  · exact hrefresher.keeps hgoal (viewOf_tuned (hrefresher.own nic s)
      (h.agree.off_other hnic hother hid)) (hrefresher.own nic s).model

theorem Looped.names {s₀ : Server} {refresh : Nic → Server → Server}
    {goal : Nic → Server → Prop} {sgId id : String} {nic : Nic}
    (hrefresher : Refresher s₀ refresh goal) (names : List String)
    (hsubset : names ⊆ nic.securityGroups) (h : Looped s₀ goal sgId s)
    (hnic : s.model.nics[id]? = some nic) :
    let s' := names.foldl (fun s name =>
      if name = sgId then refresh nic s else s) s
    Looped s₀ goal sgId s' ∧
      (nic.bypassFiltering = false → sgId ∈ names → goal nic s') ∧
      ∀ {id' : String} {other}, s.model.nics[id']? = some other →
        other.bypassFiltering = false → goal other s → goal other s' := by
  induction names generalizing s with
  | nil => exact ⟨h, by simp, fun _ _ hgoal => hgoal⟩
  | cons name names ih =>
      have hrest : names ⊆ nic.securityGroups :=
        fun a ha => hsubset (List.mem_cons_of_mem _ ha)
      simp only [List.foldl_cons]
      by_cases hname : name = sgId
      · rw [if_pos hname]
        have hlists : sgId ∈ nic.securityGroups :=
          hsubset (by rw [← hname]; exact List.mem_cons_self)
        obtain ⟨hstep, hgoal⟩ := h.step hrefresher hnic hlists
        have hmodel : (refresh nic s).model = s.model :=
          (hrefresher.own nic s).model
        obtain ⟨hloop, -, hkeep⟩ := ih hrest hstep (by rw [hmodel]; exact hnic)
        refine ⟨hloop, fun hfilter _ => hkeep (by rw [hmodel]; exact hnic) hfilter
          (hgoal hfilter), fun hother hfilter hdone => ?_⟩
        exact hkeep (by rw [hmodel]; exact hother) hfilter
          (h.goal_step hrefresher hnic hlists hother hfilter hdone)
      · rw [if_neg hname]
        obtain ⟨hloop, hgoal, hkeep⟩ := ih hrest h hnic
        refine ⟨hloop, fun hfilter hmem => hgoal hfilter ?_, hkeep⟩
        rcases List.mem_cons.mp hmem with heq | hmem
        · exact absurd heq.symm hname
        · exact hmem

theorem forGroup_spec {refresh : Nic → Server → Server}
    {goal : Nic → Server → Prop} (hrefresher : Refresher s refresh goal)
    (h : Agree s) (sgId : String) :
    Looped s goal sgId (Api.forGroup sgId refresh s) ∧
      ∀ {id : String} {nic}, s.model.nics[id]? = some nic →
        nic.bypassFiltering = false → sgId ∈ nic.securityGroups →
        goal nic (Api.forGroup sgId refresh s) := by
  unfold Api.forGroup
  have hfold : ∀ (nics : List Nic) (t : Server), Looped s goal sgId t →
      (∀ nic ∈ nics, ∃ id : String, t.model.nics[id]? = some nic) →
      let t' := nics.foldl (fun t nic => nic.securityGroups.foldl (fun t name =>
        if name = sgId then refresh nic t else t) t) t
      Looped s goal sgId t' ∧
        (∀ nic ∈ nics, nic.bypassFiltering = false → sgId ∈ nic.securityGroups →
          goal nic t') ∧
        ∀ {id : String} {other}, t.model.nics[id]? = some other →
          other.bypassFiltering = false → goal other t → goal other t' := by
    intro nics
    induction nics with
    | nil => exact fun t ht _ => ⟨ht, by simp, fun _ _ hgoal => hgoal⟩
    | cons first nics ih =>
        intro t ht hmodel
        obtain ⟨id, hfirst⟩ := hmodel first List.mem_cons_self
        obtain ⟨hloop, hgoal, hkeep⟩ :=
          ht.names hrefresher first.securityGroups (List.Subset.refl _) hfirst
        have hsame := hloop.model.trans ht.model.symm
        obtain ⟨hloop', hall, hkeep'⟩ := ih _ hloop fun nic hnic => by
          rw [hsame]
          exact hmodel nic (List.mem_cons_of_mem _ hnic)
        refine ⟨hloop', fun nic hnic hfilter hlists => ?_, fun hother hfilter hdone =>
          hkeep' (by rw [hsame]; exact hother) hfilter (hkeep hother hfilter hdone)⟩
        rcases List.mem_cons.mp hnic with rfl | hnic
        · exact hkeep' (by rw [hsame]; exact hfirst) hfilter (hgoal hfilter hlists)
        · exact hall nic hnic hfilter hlists
  obtain ⟨hloop, hall, -⟩ := hfold (mapValues s.model.nics) s
    ⟨h, rfl, fun _ _ => .inl rfl⟩ fun nic hnic => mem_mapValues.mp hnic
  exact ⟨hloop, fun hnic hfilter hlists =>
    hall _ (mem_mapValues.mpr ⟨_, hnic⟩) hfilter hlists⟩

/-! ### Rebuilding -/

theorem rebuilt_keeps {nic : Nic} {s s' : Server} (h : Rebuilt nic s)
    (hview : viewOf nic s' = viewOf nic s) (hmodel : s'.model = s.model) :
    Rebuilt nic s' := by
  rw [Rebuilt, hview, hmodel]
  exact h

theorem fwUpdate_refresher (hok : AcceptsRules ambient) (s : Server) :
    Refresher s (fwUpdate ambient.ok) Rebuilt where
  own := fwUpdate_tunedOwn ambient.ok
  establishes h _ hnic hfilter _ :=
    fwUpdate_rebuilt hok h.graph.started hfilter (h.findNic hnic)
  keeps := rebuilt_keeps

theorem sgUpdate_refreshes (hok : AcceptsRules ambient) (h : Agree s) (sg : Sg) :
    Refreshes s (Api.sgUpdate ambient sg s) ∧
      ∀ {id : String} {nic}, s.model.nics[id]? = some nic →
        nic.bypassFiltering = false → sg.id ∈ nic.securityGroups →
        Rebuilt nic (Api.sgUpdate ambient sg s) := by
  obtain ⟨hloop, hgoal⟩ := forGroup_spec (fwUpdate_refresher hok s) h sg.id
  refine ⟨⟨Api.sgUpdate_tuned ambient sg s, fun hnic hfilter => ?_⟩, hgoal⟩
  rw [← hloop.model] at hnic
  exact (hloop.views hnic hfilter).imp_right And.right

def Refers (groups : ExtTreeMap String Sg) (name named : String) : Prop :=
  ∃ sg, groups[name]? = some sg ∧
    ∃ rule ∈ mapValues sg.rules, rule.securityGroup = named

structure Fanned (s₀ : Server) (state : List String × Server) : Prop where
  refreshes : Refreshes s₀ state.2
  updated : ∀ name ∈ state.1, ∀ {id : String} {nic : Nic},
    s₀.model.nics[id]? = some nic → nic.bypassFiltering = false →
    name ∈ nic.securityGroups → Rebuilt nic state.2

theorem Fanned.step (hok : AcceptsRules ambient) (h : Agree s) (modifiedSg : Sg)
    {state : List String × Server} (hstate : Fanned s state) (name : String) :
    Fanned s (Api.updateReferring ambient modifiedSg state name) ∧
      state.1 ⊆ (Api.updateReferring ambient modifiedSg state name).1 ∧
      (Refers s.model.securityGroups name modifiedSg.id →
        name ∈ (Api.updateReferring ambient modifiedSg state name).1) := by
  have hmodel := hstate.refreshes.tuned.model
  unfold Api.updateReferring
  rw [hmodel]
  cases hsg : s.model.securityGroups[name]? with
  | none =>
      refine ⟨hstate, List.Subset.refl _, ?_⟩
      rintro ⟨sg, hsg', -⟩
      rw [hsg] at hsg'
      cases hsg'
  | some sg =>
      have hid : sg.id = name := h.sgIds hsg
      simp only [Api.updateIfRefers]
      split
      · next hrefers =>
          obtain ⟨hrefresh, hrebuilt⟩ :=
            sgUpdate_refreshes hok (h.tuned hstate.refreshes.tuned) sg
          refine ⟨⟨hstate.refreshes.trans hrefresh, ?_⟩,
            List.subset_append_left _ _, fun _ => by simp [hid]⟩
          intro name' hname' id nic hnic hfilter hlists
          have hnic' := hnic
          rw [← hmodel] at hnic'
          rcases List.mem_append.mp hname' with hold | hnew
          · exact hrefresh.rebuilt hnic' hfilter
              (hstate.updated name' hold hnic hfilter hlists)
          · rw [List.mem_singleton] at hnew
            subst hnew
            exact hrebuilt hnic' hfilter hlists
      · next hrefers =>
          refine ⟨hstate, List.Subset.refl _, ?_⟩
          rintro ⟨sg', hsg', rule, hrule, hnamed⟩
          rw [hsg] at hsg'
          cases hsg'
          by_contra hnot
          apply hrefers
          refine ⟨?_, by rw [hid]; exact hnot⟩
          rw [List.any_eq_true]
          exact ⟨rule, hrule, by simpa using hnamed⟩

theorem Fanned.names (hok : AcceptsRules ambient) (h : Agree s) (modifiedSg : Sg)
    (names : List String) {state : List String × Server} (hstate : Fanned s state) :
    Fanned s (names.foldl (Api.updateReferring ambient modifiedSg) state) ∧
      state.1 ⊆ (names.foldl (Api.updateReferring ambient modifiedSg) state).1 ∧
      ∀ name ∈ names, Refers s.model.securityGroups name modifiedSg.id →
        name ∈ (names.foldl (Api.updateReferring ambient modifiedSg) state).1 := by
  induction names generalizing state with
  | nil => exact ⟨hstate, List.Subset.refl _, by simp⟩
  | cons first names ih =>
      obtain ⟨hfirst, hsubset, hmem⟩ := hstate.step hok h modifiedSg first
      obtain ⟨hrest, hsubset', hmem'⟩ := ih hfirst
      refine ⟨hrest, List.Subset.trans hsubset hsubset', fun name hname hrefers => ?_⟩
      rcases List.mem_cons.mp hname with rfl | hname
      · exact hsubset' (hmem hrefers)
      · exact hmem' name hname hrefers

theorem sgUpdateRuleMembers_refreshes (hok : AcceptsRules ambient) (h : Agree s)
    (modifiedSg : Sg) :
    Refreshes s (Api.sgUpdateRuleMembers ambient modifiedSg s) ∧
      ∀ {id : String} {nic name}, s.model.nics[id]? = some nic →
        nic.bypassFiltering = false → name ∈ nic.securityGroups →
        Refers s.model.securityGroups name modifiedSg.id →
        Rebuilt nic (Api.sgUpdateRuleMembers ambient modifiedSg s) := by
  unfold Api.sgUpdateRuleMembers
  have hfold : ∀ (nics : List Nic) (state : List String × Server), Fanned s state →
      Fanned s (nics.foldl (fun state nic => nic.securityGroups.foldl
        (Api.updateReferring ambient modifiedSg) state) state) ∧
      state.1 ⊆ (nics.foldl (fun state nic => nic.securityGroups.foldl
        (Api.updateReferring ambient modifiedSg) state) state).1 ∧
      ∀ nic ∈ nics, ∀ name ∈ nic.securityGroups,
        Refers s.model.securityGroups name modifiedSg.id →
        name ∈ (nics.foldl (fun state nic => nic.securityGroups.foldl
          (Api.updateReferring ambient modifiedSg) state) state).1 := by
    intro nics
    induction nics with
    | nil => exact fun state hstate => ⟨hstate, List.Subset.refl _, by simp⟩
    | cons first nics ih =>
        intro state hstate
        obtain ⟨hfirst, hsubset, hmem⟩ :=
          hstate.names hok h modifiedSg first.securityGroups
        obtain ⟨hrest, hsubset', hmem'⟩ := ih _ hfirst
        refine ⟨hrest, List.Subset.trans hsubset hsubset', fun nic hnic name hname hrefers => ?_⟩
        rcases List.mem_cons.mp hnic with rfl | hnic
        · exact hsubset' (hmem name hname hrefers)
        · exact hmem' nic hnic name hname hrefers
  obtain ⟨hfanned, -, hmem⟩ := hfold (mapValues s.model.nics) ([], s)
    ⟨.refl s, by simp⟩
  refine ⟨hfanned.refreshes, fun {id} {nic} {name} hnic hfilter hname hrefers => ?_⟩
  have hupdated := hmem nic (mem_mapValues.mpr ⟨id, hnic⟩) name hname hrefers
  exact hfanned.updated name hupdated hnic hfilter hname

/-! ### Firewalls that no loop reaches -/

structure Spared (nic : Nic) (s₀ s : Server) : Prop where
  agree : Agree s
  model : s.model = s₀.model
  view : viewOf nic s = viewOf nic s₀

theorem Spared.fwUpdate {nic other : Nic} {id : String} {s₀ : Server}
    (h : Spared nic s₀ s) (hnic : s₀.model.nics[id]? = some nic)
    (hother : other ∈ mapValues s₀.model.nics) (hne : other ≠ nic) :
    Spared nic s₀ (fwUpdate ambient.ok other s) := by
  have hown := fwUpdate_tunedOwn ambient.ok other s
  obtain ⟨id', hother⟩ := mem_mapValues.mp hother
  rw [← h.model] at hnic hother
  have hid : id' ≠ id := by
    rintro rfl
    rw [hnic] at hother
    exact hne (Option.some.inj hother).symm
  exact ⟨h.agree.tuned hown, hown.model.trans h.model,
    (viewOf_tuned hown (h.agree.off_other hother hnic hid)).trans h.view⟩

end Fanout

end Butterfly
