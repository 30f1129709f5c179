import Butterfly.Numbering
import Butterfly.Responses

/-!
# Refused requests

A request that is refused leaves the model and the graph alone, unless it is a
`nic_add` that gets as far as the graph: the old NIC of the same id is gone by then,
the VNI has an entry, and a switch may have come or gone.
-/

namespace Butterfly

open Std Foundation MessageV0 Butterfly.Graph

/-! ## What stays -/

def KeepsEdges (s : Server) (ops : List (Op Rpc Direct)) : Prop :=
  ∀ c c', Packetgraph.machine.Reachable (Machine.start s.ops s.startGraph) c → c.todo = [] →
    Packetgraph.machine.Reachable { c with todo := ops } c' → c'.todo = [] →
    c'.pending = [] →
    c'.state.graph.edges = (Packetgraph.machine.settle c).graph.edges

structure Unchanged (s s' : Server) : Prop where
  model : s'.model = s.model
  vnis : s'.vnis = s.vnis
  edges : ∃ ops, s'.ops = s.ops ++ ops ∧ KeepsEdges s ops

theorem keepsEdges_of_sync {s : Server} {ops : List (Op Rpc Direct)} (h : Numbered s)
    (hops : ∀ g, pacing.Checked .dirty g ops)
    (hsync : ∀ g, (∀ e ∈ g.edges, e.Below s.nextSerial) →
      (BrickGraph.machine.sync ops g).edges = g.edges) : KeepsEdges s ops := by
  intro c c' hc htodo hc' htodo' hpending
  have halong : ∀ (commands : List Rpc) (g : BrickGraph), pacing.Along commands g := by
    intro commands
    induction commands with
    | nil => exact fun _ => trivial
    | cons k commands ih => exact fun g => ⟨trivial, trivial, ih _⟩
  have hreach : BrickGraph.machine.Reachable { c.map Packetgraph.graph with todo := ops }
      (c'.map Packetgraph.graph) := projects_graph.reachable hc'
  have hsettle := pacing.settle_of_resumed (halong _ _) (hops _) hreach htodo'
  have hsame : (c'.map Packetgraph.graph).pending = [] := hpending
  rw [Machine.settle, hsame] at hsettle
  have hbelow := h.config (reachable_graph hc)
  rw [projects_graph.settle c, ← hsync _ hbelow.settle, ← hsettle]
  rfl

theorem unchanged_of_sameCore {s s' : Server} (h : Numbered s) (hcore : SameCore s s') :
    Unchanged s s' :=
  ⟨hcore.model, hcore.vnis, [], by rw [hcore.ops, List.append_nil],
    keepsEdges_of_sync h (fun _ => trivial) fun _ _ => rfl⟩

/-! ## A refused `NicAdd` -/

theorem edges_destroyOps (bricks : List Brick) (g : BrickGraph) :
    (BrickGraph.machine.sync (destroyOps bricks) g).edges =
      g.edges.filter fun e => bricks.all fun b => e.avoids b := by
  induction bricks generalizing g with
  | nil => simp [destroyOps]
  | cons b bricks ih =>
      have hcons : destroyOps (b :: bricks) = .direct (.destroy b) :: destroyOps bricks := rfl
      rw [hcons, Machine.sync_cons, ih]
      change List.filter _ (List.filter _ g.edges) = _
      rw [List.filter_filter]
      congr 1
      funext e
      simp [Edge.avoids, Bool.and_comm]

theorem Edge.Below.avoids {n : Nat} {e : Edge} (h : e.Below n) {b : Brick} (hb : b.serial = n) :
    e.avoids b = true := by
  obtain ⟨hwest, heast⟩ := h
  have hne : ∀ a : Brick, a.serial < n → a ≠ b := by
    rintro a ha rfl
    exact Nat.lt_irrefl _ (hb ▸ ha)
  simpa [Edge.avoids] using ⟨hne _ hwest, hne _ heast⟩

theorem sync_scrap_edges {n : Nat} {ops : List (Op Rpc Direct)} {g : BrickGraph}
    (hops : ∀ op ∈ ops, ScrapOp n op) (h : ∀ e ∈ g.edges, e.Below n) :
    (BrickGraph.machine.sync ops g).edges = g.edges := by
  induction ops generalizing g with
  | nil => rfl
  | cons op ops ih =>
      have hop : (BrickGraph.machine.syncOp g op).edges = g.edges := by
        cases hops op List.mem_cons_self with
        | calm hcalm => cases hcalm <;> rfl
        | @destroy kind _ =>
            change List.filter _ g.edges = g.edges
            rw [List.filter_eq_self]
            intro e he
            simpa [Edge.avoids] using (h e he).avoids (rfl : (⟨kind, n⟩ : Brick).serial = n)
      rw [Machine.sync_cons, ih (fun op hop => hops op (List.mem_cons_of_mem _ hop)), hop]
      rw [hop]
      exact h

theorem sync_calm_graph {ops : List (Op Rpc Direct)} (hops : ∀ op ∈ ops, CalmOp op)
    (g : BrickGraph) : BrickGraph.machine.sync ops g = g := by
  induction ops generalizing g with
  | nil => rfl
  | cons op ops ih =>
      have hop : BrickGraph.machine.syncOp g op = g := by
        cases hops op List.mem_cons_self <;> rfl
      rw [Machine.sync_cons, hop, ih fun op hop => hops op (List.mem_cons_of_mem _ hop)]

theorem sync_links_edges (links : List (Brick × Brick)) (g : BrickGraph) :
    (BrickGraph.machine.sync (links.map linkOp) g).edges =
      g.edges ++ links.map fun link => ⟨link.1, link.2, []⟩ := by
  induction links generalizing g with
  | nil => simp
  | cons link links ih =>
      rw [List.map_cons, Machine.sync_cons, ih, List.map_cons, List.append_cons]
      rfl

theorem innerLinks_destroyed {ok : PgCall → Bool} {nic : Nic} {n : Nat} {trace : Bool}
    {link : Brick × Brick} (h : link ∈ innerLinks ok nic n trace) :
    ∃ b ∈ branchBricks (newBranch nic n), link.1 = b ∨ link.2 = b := by
  have hantispoof : (⟨.antispoof, n⟩ : Brick) ∈ branchBricks (newBranch nic n) := by
    simp only [branchBricks, newBranch]
    split_ifs <;> simp
  have hvhost : (⟨.vhost, n⟩ : Brick) ∈ branchBricks (newBranch nic n) := by
    simp only [branchBricks, newBranch]
    split_ifs <;> simp_all
  have hfour : innerLinks ok nic n trace ⊆
      [(⟨.sniffer, n⟩, ⟨.vhost, n⟩), (⟨.firewall, n⟩, ⟨.antispoof, n⟩),
        (⟨.antispoof, n⟩, ⟨.sniffer, n⟩), (⟨.antispoof, n⟩, ⟨.vhost, n⟩)] := by
    simp only [innerLinks]
    split_ifs <;> simp
  have hmem := hfour h
  simp only [List.mem_cons, List.not_mem_nil, or_false] at hmem
  rcases hmem with rfl | rfl | rfl | rfl
  · exact ⟨_, hvhost, .inr rfl⟩
  · exact ⟨_, hantispoof, .inr rfl⟩
  · exact ⟨_, hantispoof, .inl rfl⟩
  · exact ⟨_, hantispoof, .inl rfl⟩

theorem checked_dirty_fwNewOps (ok : PgCall → Bool) (nic : Nic) (n : Nat) (ds : List Direct)
    (g : BrickGraph) : pacing.Checked .dirty g (fwNewOps ok nic n ++ ds.map .direct) := by
  have hdirects : ∀ g, pacing.Checked .clean g (ds.map .direct) := by
    induction ds with
    | nil => exact fun _ => trivial
    | cons d ds ih => exact fun g => ⟨.inl rfl, trivial, trivial, ih _⟩
  rw [Discipline.checked_append]
  exact ⟨⟨trivial, trivial, trivial, trivial, trivial⟩, hdirects _⟩

theorem sync_fwNewOps (ok : PgCall → Bool) (nic : Nic) (n : Nat) (g : BrickGraph) :
    BrickGraph.machine.sync (fwNewOps ok nic n) g = g := rfl

theorem directs_of_scrap {n : Nat} {ops : List (Op Rpc Direct)}
    (h : ∀ op ∈ ops, ScrapOp n op) : ∃ ds : List Direct, ops = ds.map .direct := by
  induction ops with
  | nil => exact ⟨[], rfl⟩
  | cons op ops ih =>
      obtain ⟨ds, rfl⟩ := ih fun op hop => h op (List.mem_cons_of_mem _ hop)
      cases h op List.mem_cons_self with
      | calm hcalm => cases hcalm <;> exact ⟨_ :: ds, rfl⟩
      | destroy _ => exact ⟨_ :: ds, rfl⟩

section Added

variable {ok : PgCall → Bool} {nic : Nic} {s s' : Server}

theorem Graph.Abandoned.keepsEdges (h : Numbered s)
    (hs' : Abandoned ok nic (openVni nic.vni s) s') :
    ∃ ops, s'.ops = s.ops ++ ops ∧ KeepsEdges s ops := by
  obtain ⟨-, ops, hscrap, rfl⟩ := hs'
  obtain ⟨ds, hds⟩ := directs_of_scrap hscrap
  refine ⟨_, rfl, keepsEdges_of_sync h (fun g => ?_) fun g hg => ?_⟩
  · rw [hds]
    exact checked_dirty_fwNewOps _ _ _ _ _
  · rw [Machine.sync_append, sync_fwNewOps]
    exact sync_scrap_edges hscrap hg

theorem Graph.Created.keepsEdges (h : Numbered s) {s₁ : Server}
    (hs₁ : Created ok nic (openVni nic.vni s) s₁) :
    ∃ ops, s₁.ops ++ destroyOps (branchBricks (newBranch nic s.nextSerial)) = s.ops ++ ops ∧
      KeepsEdges s ops := by
  obtain ⟨-, -, calm, hcalm, rfl⟩ := hs₁
  obtain ⟨ds, rfl⟩ := directs_of_calm hcalm
  have hserial : (openVni nic.vni s).nextSerial = s.nextSerial := rfl
  have hconfig : (openVni nic.vni s).config = s.config := rfl
  refine ⟨fwNewOps ok nic s.nextSerial ++ (ds ++
      (innerLinks ok nic s.nextSerial s.config.packetTrace).map
        (fun link => Direct.link link.1 link.2) ++
      (branchBricks (newBranch nic s.nextSerial)).map Direct.destroy).map .direct, ?_,
    keepsEdges_of_sync h (fun g => checked_dirty_fwNewOps _ _ _ _ _) fun g hg => ?_⟩
  · rw [Server.emits_ops, Server.takeSerial_ops, hserial, hconfig]
    simp only [List.map_append, List.map_map, List.append_assoc, destroyOps]
    rfl
  · -- The new edges are those between the new bricks.
    have hlinks : ((innerLinks ok nic s.nextSerial s.config.packetTrace).map
        (fun link => Direct.link link.1 link.2)).map Op.direct =
          (innerLinks ok nic s.nextSerial s.config.packetTrace).map linkOp := by
      rw [List.map_map]
      rfl
    have hdestroys : ((branchBricks (newBranch nic s.nextSerial)).map Direct.destroy).map
        Op.direct = destroyOps (branchBricks (newBranch nic s.nextSerial)) := by
      rw [List.map_map]
      rfl
    rw [Machine.sync_append, sync_fwNewOps, List.map_append, List.map_append, hlinks, hdestroys,
      Machine.sync_append, Machine.sync_append, sync_calm_graph hcalm, edges_destroyOps,
      sync_links_edges, List.filter_append]
    have hold : g.edges.filter (fun e => (branchBricks (newBranch nic s.nextSerial)).all
        fun b => e.avoids b) = g.edges := by
      rw [List.filter_eq_self]
      intro e he
      rw [List.all_eq_true]
      exact fun b hb => (hg e he).avoids
        (newBranch_bricks nic s.nextSerial b (branchBricks_subset _ hb))
    have hnew : ((innerLinks ok nic s.nextSerial s.config.packetTrace).map
        fun link => (⟨link.1, link.2, []⟩ : Edge)).filter (fun e =>
          (branchBricks (newBranch nic s.nextSerial)).all fun b => e.avoids b) = [] := by
      rw [List.filter_eq_nil_iff]
      intro e he
      obtain ⟨link, hlink, rfl⟩ := List.mem_map.mp he
      obtain ⟨b, hb, hend⟩ := innerLinks_destroyed hlink
      rw [List.all_eq_true]
      intro hall
      have havoids := hall b hb
      simp only [Edge.avoids, ne_eq, decide_not, Bool.and_eq_true, Bool.not_eq_true',
        decide_eq_false_iff_not] at havoids
      exact hend.elim havoids.1 havoids.2
    rw [hold, hnew, List.append_nil]

/-- A failed `NicAdd` of a new NIC leaves something behind in `vnis_`. -/
inductive Residue (ok : PgCall → Bool) (nic : Nic) (s : Server) : Prop
  /-- The entry of the VNI is made first. -/
  | opened : s.vnis[nic.vni]? = none → Residue ok nic s
  /-- The new switch stays when the first NIC cannot be unlinked. -/
  | switched {vni gn₁} : s.vnis[nic.vni]? = some vni → mapValues vni.nics = [gn₁] →
      creates ok nic s.nextSerial = true → ok (switchCall nic.vni) = true →
      ok (.unlinkEdge vtepBrick gn₁.head) = false → Residue ok nic s
  /-- The pointer to a switch left behind earlier is lost when there is no new one. -/
  | unswitched {vni sw} : s.vnis[nic.vni]? = some vni → vni.nics.size = 1 →
      vni.sw = some sw → creates ok nic s.nextSerial = true →
      ok (switchCall nic.vni) = false → Residue ok nic s

theorem vniEntry_of_lookup {v : UInt32} {vni : GraphVni} (h : s.vnis[v]? = some vni) :
    vniEntry v s = vni := by
  rw [vniEntry, h, Option.getD_some]

theorem lookup_switched {s₁ : Server} (hs₁ : Created ok nic (openVni nic.vni s) s₁)
    (sw : Option Brick) : (s₁.takeSerial.updateVni nic.vni (withSwitch sw)).vnis[nic.vni]? =
      some (withSwitch sw (vniEntry nic.vni s)) := by
  have hlookup : s₁.takeSerial.vnis[nic.vni]? = some (vniEntry nic.vni s) := hs₁.lookup
  rw [lookup_updateVni _ hlookup, if_pos rfl]

theorem unchanged_of_switch {s₁ : Server} (h : Numbered s)
    (hs₁ : Created ok nic (openVni nic.vni s) s₁)
    (hvni : s.vnis[nic.vni]? = some (vniEntry nic.vni s)) (hsw : (vniEntry nic.vni s).sw = none) :
    Unchanged s ((s₁.takeSerial.updateVni nic.vni (withSwitch none)).emits
      (destroyOps (vniEntry nic.vni s).sw.toList ++
        destroyOps (branchBricks (newBranch nic s.nextSerial)))) := by
  obtain ⟨-, hmodel, -, hvnis⟩ := Created.effect hs₁
  have hsame : withSwitch none (vniEntry nic.vni s) = vniEntry nic.vni s := by
    rw [withSwitch, ← hsw]
  have hlookup : s₁.takeSerial.vnis[nic.vni]? = some (vniEntry nic.vni s) := hs₁.lookup
  refine ⟨hmodel, ExtTreeMap.ext_getElem? fun a => ?_, ?_⟩
  · rw [Server.emits_vnis, lookup_updateVni _ hlookup, Server.takeSerial_vnis, hvnis a, hsame]
    split
    · next ha => rw [← ha, hvni]
    · rfl
  · have hkeeps := Created.keepsEdges h hs₁
    rw [hsw]
    exact hkeeps

theorem Graph.NicAdded.unchanged_iff (h : Numbered s) (hadd : NicAdded ok nic s false s') :
    Unchanged s s' ↔ ¬Residue ok nic s := by
  cases hadd with
  | abandoned habandoned =>
      have hfail : creates ok nic s.nextSerial = false := habandoned.1
      have hresidue : Residue ok nic s ↔ s.vnis[nic.vni]? = none := by
        constructor
        · intro hres
          cases hres with
          | opened hnone => exact hnone
          | switched _ _ hcreates => rw [hfail] at hcreates; cases hcreates
          | unswitched _ _ _ hcreates => rw [hfail] at hcreates; cases hcreates
        · exact .opened
      have hedges := Abandoned.keepsEdges h habandoned
      obtain ⟨-, ops, -, rfl⟩ := habandoned
      rw [hresidue]
      constructor
      · intro hunchanged hnone
        have hvnis := congrArg (fun m : ExtTreeMap UInt32 GraphVni => m[nic.vni]?) hunchanged.vnis
        change (openVni nic.vni s).vnis[nic.vni]? = s.vnis[nic.vni]? at hvnis
        rw [openVni_lookup, hnone] at hvnis
        cases hvnis
      · intro hsome
        obtain ⟨vni, hvni⟩ := Option.ne_none_iff_exists'.mp hsome
        exact ⟨rfl, insertIfNew_of_lookup hvni, hedges⟩
  | noSwitch hcreated hsize hfail =>
      have hvni := vniEntry_of_size (s := s) (v := nic.vni) (by omega)
      have hresidue : Residue ok nic s ↔ (vniEntry nic.vni s).sw ≠ none := by
        constructor
        · intro hres
          cases hres with
          | opened hnone => rw [hvni] at hnone; cases hnone
          | switched _ _ _ hsucceed => rw [hfail] at hsucceed; cases hsucceed
          | unswitched hlookup _ hsw =>
              rw [vniEntry_of_lookup hlookup, hsw]
              exact Option.some_ne_none _
        · intro hsw
          obtain ⟨sw, hsw⟩ := Option.ne_none_iff_exists'.mp hsw
          exact .unswitched hvni hsize hsw hcreated.1 hfail
      rw [hresidue, not_not]
      constructor
      · intro hunchanged
        have hvnis := congrArg (fun m : ExtTreeMap UInt32 GraphVni => m[nic.vni]?) hunchanged.vnis
        simp only [Server.emits_vnis, lookup_switched hcreated, hvni, Option.some_inj] at hvnis
        rw [← hvnis]
        rfl
      · exact unchanged_of_switch h hcreated hvni
  | @stuck s₁ gn₁ hcreated hsize hsucceed hvalues hfail =>
      have hvni := vniEntry_of_size (s := s) (v := nic.vni) (by omega)
      refine ⟨fun hunchanged => ?_, fun hres =>
        absurd (.switched hvni hvalues hcreated.1 hsucceed hfail) hres⟩
      -- The old switch, if any, has an older number.
      have hvnis := congrArg (fun m : ExtTreeMap UInt32 GraphVni => m[nic.vni]?) hunchanged.vnis
      simp only [Server.emits_vnis, lookup_switched hcreated, hvni, Option.some_inj] at hvnis
      have hsw : (vniEntry nic.vni s).sw = some ⟨.switch, s.nextSerial + 1⟩ := by
        rw [← hvnis]
        rfl
      have hlt := h.switches hvni hsw
      change s.nextSerial + 1 < s.nextSerial at hlt
      omega

end Added

/-! ## Requests -/

section Requests

variable {P : Platform} {ambient : Ambient} {s s' : Server}

/-- What a `nic_add` that is refused leaves behind. -/
def LeavesTrace (ambient : Ambient) (nic : Butterfly.Nic) (s : Server) : Prop :=
  s.model.nics[nic.id]? ≠ none ∨ Residue ambient.ok nic s

theorem actionNicAdd_unchanged_iff (hagree : Agree s) (h : Numbered s) {nic : Butterfly.Nic}
    (hadd : Api.actionNicAdd P ambient nic s = some (none, s')) :
    Unchanged s s' ↔ ¬LeavesTrace ambient nic s := by
  simp only [Api.actionNicAdd, Option.bind_eq_bind] at hadd
  obtain ⟨s₀, hs₀, hadd⟩ := Option.bind_eq_some_iff.mp hadd
  obtain ⟨⟨result, s₁⟩, hs₁, hadd⟩ := Option.bind_eq_some_iff.mp hadd
  obtain ⟨hagree₀, -, hmodel⟩ := hagree.removeNic hs₀
  cases result with
  | some nic' => cases hadd
  | none =>
      cases hadd
      obtain ⟨-, hadded⟩ | ⟨heq, -⟩ := nicAdd_cases hagree₀.graph.started hs₁
      · cases hold : s.model.nics[nic.id]? with
        | none =>
            have hsame : s₀ = s := by
              simpa [Api.removeNic, hold] using hs₀.symm
            rw [hsame] at hadded
            rw [hadded.unchanged_iff h, LeavesTrace, hold]
            simp
        | some old =>
            have htrace : LeavesTrace ambient nic s := .inl (by simp [hold])
            refine ⟨fun hunchanged => ?_, fun hnot => absurd htrace hnot⟩
            have hnew : (vniEntry nic.vni s₀).nics[nic.id]? = none := by
              rw [vniEntry_lookup]
              exact hagree₀.branch_eq_none (by simp [hmodel]) nic.vni
            have heffect := hadded.effect hagree₀.graph.started hnew
            have hgone := congrArg (fun m : Model => m.nics[nic.id]?) hunchanged.model
            simp only [heffect.model, hmodel, hold, lookup_erase, if_true] at hgone
            cases hgone
      · cases heq

theorem Unchanged.sameCore {s₁ : Server} (h : SameCore s₁ s') :
    Unchanged s s' ↔ Unchanged s s₁ := by
  constructor
  · rintro ⟨hmodel, hvnis, ops, hops, hkeeps⟩
    exact ⟨h.model.symm.trans hmodel, h.vnis.symm.trans hvnis, ops, h.ops.symm.trans hops, hkeeps⟩
  · rintro ⟨hmodel, hvnis, ops, hops, hkeeps⟩
    exact ⟨h.model.trans hmodel, h.vnis.trans hvnis, ops, h.ops.trans hops, hkeeps⟩

theorem Answers.refused {success : Prop} {res : Response} (h : Answers success res)
    (hrefused : Refused res) : res.status.status = some false := by
  by_cases hsuccess : success
  · have hstatus := h.ok hsuccess
    rcases hrefused with hfalse | herror
    · rw [hstatus] at hfalse
      cases hfalse
    · rw [hstatus] at herror
      cases herror
  · exact (h.nok hsuccess).1

theorem perform_refused {a : Action} (h : perform P ambient a s = some (false, s')) :
    (∃ update, a = .nicUpdate update ∧ s' = s) ∨
      ∃ nic, a = .nicAdd nic ∧ Api.actionNicAdd P ambient nic s = some (none, s') := by
  cases a with
  | nicAdd nic =>
      obtain ⟨⟨added, s₁⟩, hs₁, heq⟩ := Option.map_eq_some_iff.mp h
      cases added with
      | none =>
          cases heq
          exact .inr ⟨nic, rfl, hs₁⟩
      | some nic' => cases heq
  | nicUpdate update =>
      obtain ⟨⟨error, s₁⟩, hs₁, heq⟩ := Option.map_eq_some_iff.mp h
      obtain ⟨herror, rfl⟩ := Prod.mk.inj heq
      rcases actionNicUpdate_cases hs₁ with ⟨-, -, rfl⟩ | ⟨rfl, -⟩
      · exact .inl ⟨update, rfl, rfl⟩
      · cases herror
  | nicDel id =>
      obtain ⟨s₁, -, heq⟩ := Option.map_eq_some_iff.mp h
      cases heq
  | sgAdd | sgDel | sgRuleAdd | sgRuleDel | sgMemberAdd | sgMemberDel => cases h

theorem respond_no_command {request : Option Request} {r : Response × Server}
    (h : Api0.respond P ambient request s = some r) (hnone : request.bind Api0.command = none) :
    Nok s r := by
  unfold Api0.respond at h
  split at h
  · cases h
    exact buildNokText_nok _ _
  · split at h
    · cases h
      exact buildNokText_nok _ _
    · next c hc => cases hc.symm.trans hnone

theorem respond_command {request : Option Request} {r : Response × Server} {c : Api0.Command}
    (h : Api0.respond P ambient request s = some r) (hc : request.bind Api0.command = some c) :
    Api0.handle P ambient c s = some r := by
  obtain ⟨rq, rfl, hrq⟩ := Option.bind_eq_some_iff.mp hc
  rwa [Api0.respond, hrq] at h

/--
A refused request leaves the model, `vnis_` and the edges as they were, if and only if
it is no `nic_add` that leaves a trace.
-/
theorem refused_unchanged_iff (h : Reachable P anything s) {req answer : MessageV0}
    {res : Response} (hprocess : Api0.process P ambient req s = some (answer, s'))
    (hres : answer.response = some res) (hrefused : Refused res) :
    Unchanged s s' ↔
      ∀ n nic, req.request.bind Api0.command = some (.nicAdd n) →
        Api0.validateNic P n = true →
        Api0.convertNic P s.config.packetTrace s.pid n = .ok nic →
        ¬LeavesTrace ambient nic s := by
  obtain ⟨hagree, hclean⟩ := h.sound
  have hnumbered := h.numbered
  obtain ⟨⟨response, s₁⟩, hrespond, heq⟩ := Option.bind_eq_some_iff.mp hprocess
  cases heq
  cases hres
  cases hcommand : req.request.bind Api0.command with
  | none =>
      refine ⟨fun _ n nic hc => (nomatch hc), fun _ => ?_⟩
      exact unchanged_of_sameCore hnumbered (respond_no_command hrespond hcommand).core
  | some c =>
      have hhandle := respond_command hrespond hcommand
      have hstatus := (handle_answers hagree hclean h.wellFormed hhandle).refused hrefused
      cases handle_outcome hagree hclean hhandle with
      | nok hasks hnok =>
          refine ⟨fun _ n nic hc hvalid hconvert => ?_, fun _ =>
            unchanged_of_sameCore hnumbered hnok.core⟩
          cases hc
          exact absurd (.nicAdd hvalid hconvert) (hasks (.nicAdd nic))
      | read hasks hcore haccepted _ =>
          cases haccepted.symm.trans hstatus
      | @act a accepted s₂ hasks hperform hcore haccepted _ =>
          cases haccepted.symm.trans hstatus
          rw [Unchanged.sameCore hcore]
          rcases perform_refused hperform with ⟨update, rfl, rfl⟩ | ⟨nic, rfl, hadd⟩
          · refine ⟨fun _ n nic hc => ?_, fun _ => unchanged_of_sameCore hnumbered (.refl _)⟩
            cases hasks
            cases hc
          · cases hasks with
            | @nicAdd n _ hvalid hconvert =>
                rw [actionNicAdd_unchanged_iff hagree hnumbered hadd]
                constructor
                · intro hnot n' nic' hc' _ hconvert'
                  cases hc'
                  cases hconvert.symm.trans hconvert'
                  exact hnot
                · exact fun hall => hall n nic rfl hvalid hconvert

end Requests

theorem refused_unchanged_bad_nic :
    ∃ answer res s', Api0.process Libc.platform {} { request := some badNic }
        (Server.start {} 1 0) = some (answer, s') ∧ answer.response = some res ∧ Refused res ∧
      Unchanged (Server.start {} 1 0) s' := by
  have hrun : (Api0.process Libc.platform {} { request := some badNic }
      (Server.start {} 1 0)).any (fun r =>
        r.1.response.any fun res => res.status.status = some false) = true := by
    decide +kernel
  obtain ⟨⟨answer, s'⟩, hprocess, hres⟩ := (Option.any_eq_true _ _).mp hrun
  obtain ⟨res, hres, hstatus⟩ := (Option.any_eq_true _ _).mp hres
  have hrefused : Refused res := .inl (of_decide_eq_true hstatus)
  refine ⟨answer, res, s', hprocess, hres, hrefused, ?_⟩
  refine (refused_unchanged_iff (Reachable.start {} 1 0) hprocess hres hrefused).mpr ?_
  intro n nic hc hvalid
  cases hc
  exact absurd hvalid (by decide +kernel)

def twiceNic : Request :=
  { nicAdd := some { id := "nic-1", mac := "52:54:00:12:34:01", vni := 42 } }

def onceServer : Server :=
  (serve Libc.platform {} [twiceNic] (Server.start {} 1 0)).getD (Server.start {} 1 0)

theorem onceServer_reachable : Reachable Libc.platform anything onceServer := by
  obtain ⟨s, hs⟩ := Option.isSome_iff_exists.mp
    (by decide +kernel : (serve Libc.platform {} [twiceNic] (Server.start {} 1 0)).isSome = true)
  have heq : onceServer = s := by rw [onceServer, hs, Option.getD_some]
  rw [heq]
  exact (Reachable.start {} 1 0).serve (fun _ _ _ => trivial) hs

theorem refused_nic_add_deletes :
    ¬∀ (s s' : Server) (ambient : Ambient) (req answer : MessageV0) (res : Response),
      Reachable Libc.platform anything s →
      Api0.process Libc.platform ambient req s = some (answer, s') →
      answer.response = some res → Refused res → Unchanged s s' := by
  intro hclaim
  have hrefused : (Api0.process Libc.platform { ok := fun _ => false }
      { request := some twiceNic } onceServer).any (fun r =>
        r.1.response.any (fun res => res.status.status = some false) &&
          !r.2.model.nics.contains "nic-1" && onceServer.model.nics.contains "nic-1") = true := by
    decide +kernel
  obtain ⟨⟨answer, s'⟩, hprocess, hrest⟩ := (Option.any_eq_true _ _).mp hrefused
  simp only [Bool.and_eq_true, Bool.not_eq_true'] at hrest
  obtain ⟨⟨hres, hgone⟩, hthere⟩ := hrest
  obtain ⟨res, hres, hstatus⟩ := (Option.any_eq_true _ _).mp hres
  have hunchanged := hclaim onceServer s' _ _ answer res onceServer_reachable hprocess hres
    (.inl (of_decide_eq_true hstatus))
  rw [hunchanged.model, hthere] at hgone
  cases hgone

end Butterfly
