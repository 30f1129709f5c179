import Butterfly.Steps
import Butterfly.Wiring

/-!
# Numbers of bricks

A brick gets the next free number when it is created, and nothing is linked before
it is there.  So no edge has a brick with a number that is still free, whatever the
interleaving.
-/

namespace Butterfly

open Std Foundation Butterfly.Graph

def GraphNic.bricks (n : GraphNic) : List Brick :=
  [n.head, n.firewall, n.antispoof, n.vhost] ++ n.sniffer.toList

def Below (n : Nat) : Op Rpc Direct → Prop
  | .push (.link w e) => w.serial < n ∧ e.serial < n
  | .direct (.link w e) => w.serial < n ∧ e.serial < n
  | _ => True

structure Numbered (s : Server) : Prop where
  positive : 0 < s.nextSerial
  branches : ∀ {v id gn}, s.branch v id = some gn → ∀ b ∈ gn.bricks,
    b.serial < s.nextSerial
  switches : ∀ {v : UInt32} {vni sw}, s.vnis[v]? = some vni → vni.sw = some sw →
    sw.serial < s.nextSerial
  links : ∀ op ∈ s.ops, Below s.nextSerial op

/-! ## Edges -/

def Edge.Below (n : Nat) (e : Edge) : Prop := e.west.serial < n ∧ e.east.serial < n

theorem below_syncOp {n : Nat} {g : BrickGraph} {op : Op Rpc Direct}
    (h : ∀ e ∈ g.edges, e.Below n) (hop : Below n op) :
    ∀ e ∈ (BrickGraph.machine.syncOp g op).edges, e.Below n := by
  have hlink : ∀ w b, w.serial < n ∧ b.serial < n → ∀ e ∈ (g.link w b).edges, e.Below n := by
    intro w b hlt e he
    rcases List.mem_append.mp he with he | he
    · exact h e he
    · rw [List.mem_singleton.mp he]
      exact hlt
  have hunlink : ∀ b, ∀ e ∈ (g.unlink b).edges, e.Below n :=
    fun b e he => h e (List.mem_of_mem_filter he)
  have hunlinkEdge : ∀ w b, ∀ e ∈ (g.unlinkEdge w b).edges, e.Below n :=
    fun w b e he => h e (List.mem_of_mem_eraseP he)
  have haddVni : ∀ w b v, ∀ e ∈ (g.addVni w b v).edges, e.Below n := by
    intro w b v e he
    obtain ⟨old, hold, rfl⟩ := List.mem_map.mp he
    split <;> exact h old hold
  cases op with
  | push c =>
      cases c with
      | link w b => exact hlink w b hop
      | unlink b => exact hunlink b
      | unlinkEdge w b => exact hunlinkEdge w b
      | addVni w b v => exact haddVni w b v
      | brickDestroy b => exact hunlink b
      | _ => exact h
  | wait => exact h
  | direct d =>
      cases d with
      | link w b => exact hlink w b hop
      | unlinkEdge w b => exact hunlinkEdge w b
      | destroy b => exact hunlink b
      | _ => exact h

/-- The edges and all that is still to come name bricks with taken numbers. -/
structure BelowConfig (n : Nat) (c : Config BrickGraph Rpc Direct) : Prop where
  edges : ∀ e ∈ c.state.edges, e.Below n
  todo : ∀ op ∈ c.todo, Below n op
  pending : ∀ command ∈ c.pending, Below n (.push command)

theorem BelowConfig.step {n : Nat} {c c' : Config BrickGraph Rpc Direct}
    (h : BelowConfig n c) (hstep : BrickGraph.machine.Step c c') : BelowConfig n c' := by
  obtain ⟨hedges, htodo, hpending⟩ := h
  rcases hstep with hproducer | hconsumer
  · cases hproducer with
    | push k todo queue running polling g =>
        refine ⟨hedges, fun op hop => htodo op (List.mem_cons_of_mem _ hop), ?_⟩
        intro command hcommand
        simp only [Config.pending, ← List.append_assoc] at hcommand
        rcases List.mem_append.mp hcommand with hold | hnew
        · exact hpending command hold
        · rw [List.mem_singleton.mp hnew]
          exact htodo _ List.mem_cons_self
    | wait todo running polling g =>
        exact ⟨hedges, fun op hop => htodo op (List.mem_cons_of_mem _ hop), hpending⟩
    | direct d todo queue running polling g =>
        exact ⟨below_syncOp hedges (htodo _ List.mem_cons_self),
          fun op hop => htodo op (List.mem_cons_of_mem _ hop), hpending⟩
  · cases hconsumer with
    | enter todo queue g => exact ⟨hedges, htodo, hpending⟩
    | pop k todo queue g => exact ⟨hedges, htodo, hpending⟩
    | run k todo queue g =>
        refine ⟨?_, htodo, fun command hcommand =>
          hpending command (List.mem_cons_of_mem _ hcommand)⟩
        have hrun := below_syncOp hedges (hpending k List.mem_cons_self)
        exact hrun
    | leave todo g => exact ⟨hedges, htodo, hpending⟩

theorem BelowConfig.reachable {n : Nat} {c c' : Config BrickGraph Rpc Direct}
    (h : BelowConfig n c) (hc : BrickGraph.machine.Reachable c c') : BelowConfig n c' := by
  induction hc with
  | refl => exact h
  | tail _ hstep ih => exact ih.step hstep

theorem startGraph_edges (s : Server) (h : 0 < s.nextSerial) :
    ∀ e ∈ s.startGraph.graph.edges, e.Below s.nextSerial := by
  have hbricks : ∀ b ∈ [nicBrick, mainSniffer, vtepBrick], b.serial < s.nextSerial := by
    simpa [nicBrick, mainSniffer, vtepBrick] using h
  unfold Server.startGraph
  split
  · simp only [List.forall_mem_cons, List.not_mem_nil, false_implies, implies_true, and_true]
    exact ⟨⟨hbricks _ (by simp), hbricks _ (by simp)⟩, hbricks _ (by simp), hbricks _ (by simp)⟩
  · simp only [List.forall_mem_cons, List.not_mem_nil, false_implies, implies_true, and_true]
    exact ⟨hbricks _ (by simp), hbricks _ (by simp)⟩

theorem Numbered.config {s : Server} (h : Numbered s) {c : Config BrickGraph Rpc Direct}
    (hc : BrickGraph.machine.Reachable (Machine.start s.ops s.startGraph.graph) c) :
    BelowConfig s.nextSerial c := by
  have hstart : BelowConfig s.nextSerial (Machine.start s.ops s.startGraph.graph) :=
    ⟨startGraph_edges s h.positive, h.links, fun command hcommand => nomatch hcommand⟩
  exact hstart.reachable hc

theorem BelowConfig.settle {n : Nat} {c : Config BrickGraph Rpc Direct} (h : BelowConfig n c) :
    ∀ e ∈ (BrickGraph.machine.settle c).edges, e.Below n := by
  have hexec : ∀ (commands : List Rpc) (g : BrickGraph), (∀ e ∈ g.edges, e.Below n) →
      (∀ command ∈ commands, Below n (.push command)) →
      ∀ e ∈ (BrickGraph.machine.execAll commands g).edges, e.Below n := by
    intro commands
    induction commands with
    | nil => exact fun g hg _ => hg
    | cons k commands ih =>
        intro g hg hcommands
        have hrun := below_syncOp hg (hcommands k List.mem_cons_self)
        exact ih _ hrun fun command hcommand => hcommands command (List.mem_cons_of_mem _ hcommand)
  exact hexec _ _ h.edges h.pending

/-! ## Steps -/

theorem Below.mono {n m : Nat} (h : n ≤ m) {op : Op Rpc Direct} (hop : Below n op) :
    Below m op := by
  cases op with
  | push c =>
      cases c with
      | link w e => exact ⟨Nat.lt_of_lt_of_le hop.1 h, Nat.lt_of_lt_of_le hop.2 h⟩
      | _ => trivial
  | wait => trivial
  | direct d =>
      cases d with
      | link w e => exact ⟨Nat.lt_of_lt_of_le hop.1 h, Nat.lt_of_lt_of_le hop.2 h⟩
      | _ => trivial

theorem below_calm {n : Nat} {op : Op Rpc Direct} (h : CalmOp op) : Below n op := by
  cases h <;> trivial

theorem below_firewallOp {n : Nat} {b : Brick} {op : Op Rpc Direct} (h : FirewallOp b op) :
    Below n op := by
  cases h <;> trivial

theorem below_destroyOps (n : Nat) (bricks : List Brick) :
    ∀ op ∈ destroyOps bricks, Below n op := by
  intro op hop
  obtain ⟨b, -, rfl⟩ := List.mem_map.mp hop
  trivial

namespace Numbered

variable {s s' : Server}

theorem emits (h : Numbered s) {ops : List (Op Rpc Direct)}
    (hops : ∀ op ∈ ops, Below s.nextSerial op) : Numbered (s.emits ops) :=
  ⟨h.positive, h.branches, h.switches, List.forall_mem_append.mpr ⟨h.links, hops⟩⟩

theorem modifyModel (h : Numbered s) (f : Model → Model) : Numbered (s.modifyModel f) :=
  ⟨h.positive, h.branches, h.switches, h.links⟩

theorem takeSerial (h : Numbered s) : Numbered s.takeSerial :=
  ⟨Nat.succ_pos _, fun hgn b hb => Nat.lt_succ_of_lt (h.branches hgn b hb),
    fun hvni hsw => Nat.lt_succ_of_lt (h.switches hvni hsw),
    fun op hop => (h.links op hop).mono (Nat.le_succ _)⟩

theorem updateNic (h : Numbered s) (nic : Nic) (f : GraphNic → GraphNic)
    (hf : ∀ gn, s.findNic nic = some gn → ∀ b ∈ (f gn).bricks, b.serial < s.nextSerial) :
    Numbered (s.updateNic nic f) := by
  refine ⟨h.positive, ?_, ?_, h.links⟩
  · intro v id gn hgn
    rw [Server.branch_updateNic] at hgn
    split at hgn
    · next hnic =>
        obtain ⟨rfl, rfl⟩ := hnic
        obtain ⟨old, hold, rfl⟩ := Option.map_eq_some_iff.mp hgn
        exact hf old (Server.findNic_eq nic s ▸ hold)
    · exact h.branches hgn
  · intro v vni' sw hvni' hsw
    rw [Server.updateNic, Server.updateVni] at hvni'
    simp only [lookup_modify] at hvni'
    split at hvni'
    · next hv =>
        subst hv
        obtain ⟨vni, hvni, rfl⟩ := Option.map_eq_some_iff.mp hvni'
        exact h.switches hvni hsw
    · exact h.switches hvni' hsw

theorem find (h : Numbered s) {nic : Nic} {gn : GraphNic} (hgn : s.findNic nic = some gn) :
    ∀ b ∈ gn.bricks, b.serial < s.nextSerial :=
  h.branches (Server.findNic_eq nic s ▸ hgn)

/-! ### Rules and addresses -/

theorem fwUpdate (h : Numbered s) (ok : PgCall → Bool) (nic : Nic) :
    Numbered (Graph.fwUpdate ok nic s) := by
  rcases fwUpdate_cases ok nic s with heq | ⟨gn, hstarted, hfilter, hgn⟩
  · rw [heq]
    exact h
  · rw [fwUpdate_eq hstarted hfilter hgn]
    refine (h.updateNic nic (setDefaultOutboundRule true) fun gn hgn => ?_).emits
      fun op hop => below_firewallOp (fwUpdateOps_firewallOp hop)
    have hbricks := h.find hgn
    exact hbricks

theorem fwAddRule (h : Numbered s) (ok : PgCall → Bool) (nic : Nic) (rule : Rule) :
    Numbered (Graph.fwAddRule ok nic rule s) := by
  rcases fwAddRule_cases ok nic rule s with heq | ⟨gn, hstarted, hfilter, hrule, hgn⟩
  · rw [heq]
    exact h
  · rw [fwAddRule_eq hstarted hfilter hrule hgn]
    refine (h.updateNic nic _ fun gn' hgn' => ?_).emits fun op hop =>
      below_firewallOp (addRuleOps_firewallOp hop)
    have hbricks : (afterRule gn rule gn').bricks = gn'.bricks := by
      unfold afterRule
      split <;> rfl
    rw [hbricks]
    exact h.find hgn'

theorem calm (h : Numbered s) {ops : List (Op Rpc Direct)} (hops : ∀ op ∈ ops, CalmOp op) :
    Numbered (s.emits ops) :=
  h.emits fun op hop => below_calm (hops op hop)

/-! ### Traces -/

theorem updatePoll (h : Numbered s) : Numbered (Graph.updatePoll s) := by
  rw [Graph.updatePoll, Server.push_eq]
  exact h.emits (by simp [Below])

theorem linked (h : Numbered s) {nic : Nic} {gn : GraphNic} (hgn : s.findNic nic = some gn)
    {b : Brick} (hb : b.serial < s.nextSerial) : Numbered (Graph.linked nic gn b s) := by
  have hbricks := h.find hgn
  have hvhost := hbricks gn.vhost (by simp [GraphNic.bricks])
  have hantispoof := hbricks gn.antispoof (by simp [GraphNic.bricks])
  have hvtep : vtepBrick.serial < s.nextSerial := h.positive
  unfold Graph.linked
  refine (h.updateNic nic _ fun gn' hgn' => ?_).emits ?_
  · obtain rfl : gn = gn' := Option.some_inj.mp (hgn.symm.trans hgn')
    simp only [withHead, GraphNic.bricks, List.cons_append, List.forall_mem_cons] at hbricks ⊢
    exact ⟨hb, hbricks.2⟩
  · unfold linkOps
    rw [Server.updateNic_nextSerial]
    split
    · refine List.forall_mem_cons.mpr ⟨trivial, List.forall_mem_append.mpr
        ⟨below_destroyOps _ _, ?_⟩⟩
      simpa [Below] using ⟨⟨hb, hvhost⟩, hvtep, hb⟩
    · refine List.forall_mem_cons.mpr ⟨trivial, List.forall_mem_append.mpr
        ⟨below_destroyOps _ _, ?_⟩⟩
      simpa [Below] using ⟨⟨hantispoof, hb⟩, hb, hvhost⟩

theorem unlinked (h : Numbered s) {nic : Nic} {gn : GraphNic} (hgn : s.findNic nic = some gn)
    (b : Brick) : Numbered (Graph.unlinked nic gn b s) := by
  have hbricks := h.find hgn
  have hvhost := hbricks gn.vhost (by simp [GraphNic.bricks])
  have hantispoof := hbricks gn.antispoof (by simp [GraphNic.bricks])
  have hvtep : vtepBrick.serial < s.nextSerial := h.positive
  have hhead : (plainHead nic gn).serial < s.nextSerial := by
    unfold plainHead
    split
    · exact hvhost
    · exact hantispoof
  unfold Graph.unlinked
  refine (h.updateNic nic _ fun gn' hgn' => ?_).emits ?_
  · obtain rfl : gn = gn' := Option.some_inj.mp (hgn.symm.trans hgn')
    simp only [withHead, GraphNic.bricks, List.cons_append, List.forall_mem_cons] at hbricks ⊢
    exact ⟨hhead, hbricks.2⟩
  · unfold unlinkOps
    rw [Server.updateNic_nextSerial]
    refine List.forall_mem_cons.mpr ⟨trivial, List.forall_mem_append.mpr
      ⟨below_destroyOps _ _, ?_⟩⟩
    split
    · simpa [Below] using ⟨hvtep, hvhost⟩
    · simpa [Below] using ⟨hantispoof, hvhost⟩

theorem printed (h : Numbered s) (path : String) : Numbered (Graph.printed path s) :=
  h.takeSerial.emits (by simp [Below])

theorem sniffed (h : Numbered s) (nic : Nic) (path : String) :
    Numbered (Graph.sniffed nic path s) := by
  refine (h.printed path).updateNic nic _ fun gn hgn => ?_
  have hbricks := h.branches (Server.findNic_eq nic s ▸ hgn)
  simp only [withSniffer, GraphNic.bricks, List.forall_mem_append] at hbricks ⊢
  refine ⟨fun b hb => Nat.lt_succ_of_lt (hbricks.1 b hb), ?_⟩
  simp [Graph.printed]

theorem traceStep (h : Numbered s) {nic : Nic} (hstep : TraceStep nic s s') : Numbered s' := by
  cases hstep with
  | poll => exact h.updatePoll
  | link hgn hb => exact h.linked hgn (h.find hgn _ (by simp [GraphNic.bricks, hb]))
  | linkNew hgn hnone =>
      exact (h.sniffed nic _).linked (sniffed_findNic hgn) (Nat.lt_succ_self _)
  | linkPath hgn => exact (h.printed _).linked hgn (Nat.lt_succ_self _)
  | unlink hgn hb => exact h.unlinked hgn _

/-! ### NICs -/

theorem replaceVni (h : Numbered s) {v : UInt32} {entry : Option GraphVni}
    (hserial : s.nextSerial ≤ s'.nextSerial)
    (hvnis : ∀ a : UInt32, s'.vnis[a]? = if v = a then entry else s.vnis[a]?)
    (hnics : ∀ vni : GraphVni, entry = some vni → ∀ (id : String) gn,
      vni.nics[id]? = some gn → ∀ b ∈ gn.bricks, b.serial < s'.nextSerial)
    (hsw : ∀ vni, entry = some vni → ∀ sw, vni.sw = some sw → sw.serial < s'.nextSerial)
    (hops : ∃ ops, s'.ops = s.ops ++ ops ∧ ∀ op ∈ ops, Below s'.nextSerial op) :
    Numbered s' := by
  obtain ⟨ops, heq, hbelow⟩ := hops
  constructor
  · exact Nat.lt_of_lt_of_le h.positive hserial
  · intro a id gn hgn b hb
    obtain ⟨vni, hvni, hgn⟩ := Server.branch_eq_some.mp hgn
    rw [hvnis a] at hvni
    split at hvni
    · exact hnics vni hvni id gn hgn b hb
    · exact Nat.lt_of_lt_of_le
        (h.branches (Server.branch_eq_some.mpr ⟨vni, hvni, hgn⟩) b hb) hserial
  · intro a vni sw hvni hswitch
    rw [hvnis a] at hvni
    split at hvni
    · exact hsw vni hvni sw hswitch
    · exact Nat.lt_of_lt_of_le (h.switches hvni hswitch) hserial
  · rw [heq]
    exact List.forall_mem_append.mpr
      ⟨fun op hop => (h.links op hop).mono hserial, hbelow⟩

theorem entry (h : Numbered s) (v : UInt32) :
    (∀ (id : String) gn, (vniEntry v s).nics[id]? = some gn → ∀ b ∈ gn.bricks,
        b.serial < s.nextSerial) ∧
      ∀ sw, (vniEntry v s).sw = some sw → sw.serial < s.nextSerial := by
  constructor
  · intro id gn hgn
    rw [vniEntry_lookup] at hgn
    exact h.branches hgn
  · intro sw hsw
    unfold vniEntry at hsw
    cases hvni : s.vnis[v]? with
    | none => simp [hvni] at hsw
    | some vni =>
        rw [hvni] at hsw
        exact h.switches hvni hsw

end Numbered

theorem below_fwNewOps (n : Nat) (ok : PgCall → Bool) (nic : Nic) (serial : Nat) :
    ∀ op ∈ fwNewOps ok nic serial, Below n op := by
  simp [fwNewOps, Below]

theorem below_scrap {n serial : Nat} {op : Op Rpc Direct} (h : ScrapOp serial op) :
    Below n op := by
  cases h with
  | calm hcalm => exact below_calm hcalm
  | destroy _ => trivial

theorem below_innerLinks (ok : PgCall → Bool) (nic : Nic) (serial : Nat) (trace : Bool) :
    ∀ op ∈ (innerLinks ok nic serial trace).map linkOp, Below (serial + 1) op := by
  intro op hop
  obtain ⟨link, hlink, rfl⟩ := List.mem_map.mp hop
  obtain ⟨-, hwest, -, heast⟩ := mem_innerLinks hlink
  exact ⟨by rw [hwest]; exact Nat.lt_succ_self _, by rw [heast]; exact Nat.lt_succ_self _⟩

theorem Graph.Created.below {ok : PgCall → Bool} {nic : Nic} {s s₁ : Server}
    (h : Created ok nic (openVni nic.vni s) s₁) :
    ∃ ops, s₁.ops = s.ops ++ ops ∧ ∀ op ∈ ops, Below (s.nextSerial + 1) op := by
  obtain ⟨-, -, ops, hcalm, rfl⟩ := h
  refine ⟨_, rfl, List.forall_mem_append.mpr ⟨List.forall_mem_append.mpr
    ⟨below_fwNewOps _ _ _ _, fun op hop => below_calm (hcalm op hop)⟩, ?_⟩⟩
  exact below_innerLinks _ _ _ _

theorem filled_bricks (nic : Nic) (gn : GraphNic) : (filled nic gn).bricks = gn.bricks := by
  unfold filled
  split <;> rfl

theorem newBranch_bricks (nic : Nic) (n : Nat) :
    ∀ b ∈ (newBranch nic n).bricks, b.serial = n := by
  simp only [GraphNic.bricks, newBranch]
  split_ifs <;> simp

theorem branchBricks_subset (gn : GraphNic) : branchBricks gn ⊆ gn.bricks := by
  intro b hb
  simp only [branchBricks, List.mem_append, List.mem_filter] at hb
  rcases hb with ⟨hmem, -⟩ | hmem
  · simp only [List.mem_cons, List.not_mem_nil, or_false] at hmem
    rcases hmem with hmem | rfl | rfl
    · exact List.mem_append_right _ hmem
    · simp [GraphNic.bricks]
    · simp [GraphNic.bricks]
  · split at hmem
    · cases hmem
    · rw [List.mem_singleton.mp hmem]
      simp [GraphNic.bricks]

namespace Numbered

variable {s s' : Server} {ok : PgCall → Bool} {nic : Nic}

theorem updateVni (h : Numbered s) {v : UInt32} {vni : GraphVni}
    (hvni : s.vnis[v]? = some vni) (f : GraphVni → GraphVni)
    (hnics : ∀ (id : String) gn, (f vni).nics[id]? = some gn → ∀ b ∈ gn.bricks,
      b.serial < s.nextSerial)
    (hsw : ∀ sw, (f vni).sw = some sw → sw.serial < s.nextSerial) :
    Numbered (s.updateVni v f) := by
  refine h.replaceVni (Nat.le_refl _) (lookup_updateVni f hvni) ?_ ?_ ⟨[], by simp, by simp⟩
  · rintro _ ⟨⟩
    exact hnics
  · rintro _ ⟨⟩
    exact hsw

theorem created (h : Numbered s) {s₁ : Server}
    (hcreated : Created ok nic (openVni nic.vni s) s₁) : Numbered s₁ := by
  obtain ⟨-, -, -, hvnis⟩ := Created.effect hcreated
  obtain ⟨ops, hops, hbelow⟩ := hcreated.below
  have hserial := hcreated.nextSerial
  obtain ⟨hnics, hsw⟩ := h.entry nic.vni
  have hlt : ∀ {n}, n < s.nextSerial → n < s₁.nextSerial := by
    rw [hserial]
    exact Nat.lt_succ_of_lt
  refine h.replaceVni (by rw [hserial]; exact Nat.le_succ _) hvnis ?_ ?_
    ⟨ops, hops, by rw [hserial]; exact hbelow⟩
  · rintro _ ⟨⟩ id gn hgn b hb
    exact hlt (hnics id gn hgn b hb)
  · rintro _ ⟨⟩ sw hswitch
    exact hlt (hsw sw hswitch)

theorem keep (h : Numbered s) {vni : GraphVni} (hstarted : s.started = true)
    (hvni : s.vnis[nic.vni]? = some vni) (hnew : vni.nics[nic.id]? = none) {n : Nat}
    (hn : n < s.nextSerial) : Numbered (keepBranch ok nic (newBranch nic n) s) := by
  rw [keepBranch_eq hstarted hvni hnew]
  have hbranch : ∀ (id : String) gn, (withBranch nic.id (filled nic (newBranch nic n))
      vni).nics[id]? = some gn → ∀ b ∈ gn.bricks, b.serial < s.nextSerial := by
    intro id gn hgn b hb
    simp only [withBranch, lookup_insertIfNew, hnew, Option.getD_none] at hgn
    split at hgn
    · cases hgn
      rw [filled_bricks] at hb
      rw [newBranch_bricks nic n b hb]
      exact hn
    · exact h.branches (Server.branch_eq_some.mpr ⟨vni, hvni, hgn⟩) b hb
  refine (h.updateVni hvni _ hbranch fun sw hsw => h.switches hvni hsw).emits
    (List.forall_mem_cons.mpr ⟨trivial, ?_⟩)
  split
  · simp
  · exact fun op hop => below_firewallOp (fwUpdateOps_firewallOp hop)

theorem added (h : Numbered s) {accepted : Bool} (hstarted : s.started = true)
    (hnew : (vniEntry nic.vni s).nics[nic.id]? = none)
    (hadd : NicAdded ok nic s accepted s') : Numbered s' := by
  have hhead : (newBranch nic s.nextSerial).head.serial = s.nextSerial := by
    simp only [newBranch]
    split_ifs <;> rfl
  -- The state with a new switch, or none.
  have hswitched : ∀ {s₁}, Created ok nic (openVni nic.vni s) s₁ → ∀ sw : Option Brick,
      (∀ b, sw = some b → b.serial ≤ s.nextSerial + 1) →
      Numbered (s₁.takeSerial.updateVni nic.vni (withSwitch sw)) ∧
        (s₁.takeSerial.updateVni nic.vni (withSwitch sw)).vnis[nic.vni]? =
          some (withSwitch sw (vniEntry nic.vni s)) := by
    intro s₁ hcreated sw hle
    have hnumbered := (h.created hcreated).takeSerial
    have hlookup : s₁.takeSerial.vnis[nic.vni]? = some (vniEntry nic.vni s) :=
      hcreated.lookup
    constructor
    · refine hnumbered.updateVni hlookup _ (fun id gn hgn => ?_) fun b hb => ?_
      · exact hnumbered.branches (Server.branch_eq_some.mpr ⟨_, hlookup, hgn⟩)
      · rw [Server.takeSerial_nextSerial, hcreated.nextSerial]
        exact Nat.lt_succ_of_le (hle b hb)
    · rw [lookup_updateVni _ hlookup, if_pos rfl]
  cases hadd with
  | abandoned habandoned =>
      obtain ⟨-, ops, hscrap, rfl⟩ := habandoned
      have hopened : Numbered (openVni nic.vni s) := by
        refine h.replaceVni (Nat.le_refl _) (fun a => lookup_openVni nic.vni a s) ?_ ?_
          ⟨[], by simp [openVni], by simp⟩
        · rintro _ ⟨⟩
          exact (h.entry nic.vni).1
        · rintro _ ⟨⟩
          exact (h.entry nic.vni).2
      exact hopened.takeSerial.emits (List.forall_mem_append.mpr
        ⟨below_fwNewOps _ _ _ _, fun op hop => below_scrap (hscrap op hop)⟩)
  | @first s₁ hcreated _ =>
      have hs₁ := h.created hcreated
      have hlt : s.nextSerial < s₁.nextSerial := by
        rw [hcreated.nextSerial]
        exact Nat.lt_succ_self _
      have hframe := (Created.effect hcreated).1
      refine keep (hs₁.emits ?_) (hframe.started.trans hstarted) hcreated.lookup hnew hlt
      simp only [List.forall_mem_cons, List.not_mem_nil, false_implies, implies_true, and_true]
      exact ⟨⟨hs₁.positive, by rw [hhead]; exact hlt⟩, trivial⟩
  | noSwitch hcreated _ _ =>
      exact (hswitched hcreated none (by simp)).1.emits
        (List.forall_mem_append.mpr ⟨below_destroyOps _ _, below_destroyOps _ _⟩)
  | stuck hcreated _ _ _ _ =>
      exact (hswitched hcreated (some ⟨.switch, s.nextSerial + 1⟩) (by simp)).1.emits
        (List.forall_mem_append.mpr ⟨below_destroyOps _ _, below_destroyOps _ _⟩)
  | @second s₁ gn₁ hcreated hsize _ hvalues _ =>
      obtain ⟨hs₂, hlookup⟩ := hswitched hcreated (some ⟨.switch, s.nextSerial + 1⟩) (by simp)
      have hnext : (s₁.takeSerial.updateVni nic.vni
          (withSwitch (some ⟨.switch, s.nextSerial + 1⟩))).nextSerial = s.nextSerial + 2 := by
        rw [Server.updateVni_nextSerial, Server.takeSerial_nextSerial, hcreated.nextSerial]
      have hframe := (Created.effect hcreated).1
      have hhead₁ : gn₁.head.serial < s.nextSerial + 2 := by
        obtain ⟨id, hgn₁⟩ : ∃ id : String, (vniEntry nic.vni s).nics[id]? = some gn₁ :=
          mem_mapValues.mp (by rw [hvalues]; exact List.mem_singleton_self _)
        have hlt := (h.entry nic.vni).1 id gn₁ hgn₁ gn₁.head (by simp [GraphNic.bricks])
        omega
      refine keep (hs₂.emits ?_) (hframe.started.trans hstarted) hlookup hnew
        (by rw [Server.emits_nextSerial, hnext]; omega)
      rw [hnext]
      refine List.forall_mem_append.mpr ⟨below_destroyOps _ _, ?_⟩
      simp only [List.forall_mem_cons, List.not_mem_nil, false_implies, implies_true, and_true,
        Below, true_and, vtepBrick, hhead]
      omega
  | @further s₁ sw hcreated _ hsw =>
      have hs₁ := h.created hcreated
      have hlt : s.nextSerial < s₁.nextSerial := by
        rw [hcreated.nextSerial]
        exact Nat.lt_succ_self _
      have hframe := (Created.effect hcreated).1
      refine keep (hs₁.emits ?_) (hframe.started.trans hstarted) hcreated.lookup hnew hlt
      simp only [List.forall_mem_cons, List.not_mem_nil, false_implies, implies_true, and_true]
      exact ⟨Nat.lt_trans ((h.entry nic.vni).2 sw hsw) hlt, by rw [hhead]; exact hlt⟩

theorem eraseVni (h : Numbered s) (v : UInt32) : Numbered (s.eraseVni v) := by
  have hvnis : ∀ a : UInt32, (s.eraseVni v).vnis[a]? = if v = a then none else s.vnis[a]? := by
    intro a
    rw [Server.eraseVni]
    exact lookup_erase _ _ _
  refine h.replaceVni (Nat.le_refl _) hvnis ?_ ?_ ⟨[], by simp [Server.eraseVni], by simp⟩
  · rintro vni ⟨⟩
  · rintro vni ⟨⟩

theorem without (h : Numbered s) {vni : GraphVni} (hvni : s.vnis[nic.vni]? = some vni)
    (f : GraphVni → GraphVni) (hnics : (f vni).nics = vni.nics.erase nic.id)
    (hsw : (f vni).sw = vni.sw ∨ (f vni).sw = none) : Numbered (s.updateVni nic.vni f) := by
  refine h.updateVni hvni f (fun id gn hgn => ?_) fun sw hswitch => ?_
  · rw [hnics, lookup_erase] at hgn
    split at hgn
    · cases hgn
    · exact h.branches (Server.branch_eq_some.mpr ⟨vni, hvni, hgn⟩)
  · rcases hsw with hsame | hnone
    · exact h.switches hvni (hsame ▸ hswitch)
    · rw [hnone] at hswitch
      cases hswitch

theorem deleted (h : Numbered s) (hdel : NicDeleted nic s s') : Numbered s' := by
  have hfirewall : ∀ (n : GraphNic) (m : Nat), ∀ op ∈ destroyFirewallOps n, Below m op := by
    simp [destroyFirewallOps, Below]
  cases hdel with
  | absent _ => exact h
  | last =>
      refine (h.eraseVni nic.vni).emits (List.forall_mem_cons.mpr ⟨trivial,
        List.forall_mem_cons.mpr ⟨trivial, ?_⟩⟩)
      exact List.forall_mem_append.mpr ⟨List.forall_mem_append.mpr
        ⟨hfirewall _ _, below_destroyOps _ _⟩, below_destroyOps _ _⟩
  | @ofTwo vni n other sw hvni hn hsize hother hsw =>
      have hhead : other.head.serial < s.nextSerial := by
        have hmem : other ∈ mapValues vni.nics := by
          unfold otherBranch at hother
          split at hother
          · cases hother
          · next first rest hvalues =>
              rw [hvalues]
              split at hother
              · exact List.mem_cons_of_mem _ (List.mem_of_mem_head? hother)
              · cases hother
                exact List.mem_cons_self
        obtain ⟨id, hid⟩ := mem_mapValues.mp hmem
        exact h.branches (Server.branch_eq_some.mpr ⟨vni, hvni, hid⟩) _
          (by simp [GraphNic.bricks])
      refine (h.without hvni _ rfl (.inr rfl)).emits (List.forall_mem_append.mpr
        ⟨?_, List.forall_mem_append.mpr ⟨hfirewall _ _, below_destroyOps _ _⟩⟩)
      simp only [List.forall_mem_cons, List.not_mem_nil, false_implies, implies_true, and_true,
        Below, true_and]
      exact ⟨h.positive, hhead⟩
  | ofMany hvni hn hsize =>
      refine (h.without hvni _ rfl (.inl rfl)).emits (List.forall_mem_cons.mpr ⟨trivial,
        List.forall_mem_cons.mpr ⟨trivial, ?_⟩⟩)
      exact List.forall_mem_append.mpr ⟨hfirewall _ _, below_destroyOps _ _⟩

end Numbered

/-! ## Runs -/

section Runs

variable {P : Platform} {ambient : Ambient} {s s' : Server}

theorem numbered_kept (ambient : Ambient) : KeptByStep ambient Numbered where
  model f h := h.modifyModel f
  calm h hops := h.calm hops
  trace h hstep := h.traceStep hstep
  update nic h := h.fwUpdate _ nic
  rule nic rule h := h.fwAddRule _ nic rule
  added h hstarted hnew hadded _ := h.added hstarted (by rw [vniEntry_lookup, hnew]) hadded
  deleted h _ hdeleted := h.deleted hdeleted

theorem Numbered.sameCore (h : Numbered s) (hcore : SameCore s s') : Numbered s' := by
  obtain ⟨-, -, -, -, hvnis, hserial, hops⟩ := hcore
  refine ⟨by rw [hserial]; exact h.positive, fun hgn => ?_, fun hvni => ?_, ?_⟩
  · rw [hserial]
    rw [Server.branch, hvnis] at hgn
    exact h.branches hgn
  · rw [hserial]
    rw [hvnis] at hvni
    exact h.switches hvni
  · rw [hserial, hops]
    exact h.links

theorem numbered_start (config : AppConfig) (pid : Nat) (startDate : UInt64) :
    Numbered (Server.start config pid startDate) := by
  refine ⟨Nat.one_pos, ?_, ?_, ?_⟩
  · intro v id gn hgn
    simp at hgn
  · intro v vni sw hvni
    simp at hvni
  · intro op hop
    have hops : (Server.start config pid startDate).ops = [.push .vhostStart] := rfl
    rw [hops] at hop
    rw [List.mem_singleton.mp hop]
    trivial

theorem Reachable.numbered {allowed : Allowed} (h : Reachable P allowed s) : Numbered s :=
  h.invariant numbered_start (fun hcore h => h.sameCore hcore)
    fun hs _ _ _ h hperform => (numbered_kept _).perform hs.sound.agree h hperform

end Runs

end Butterfly
