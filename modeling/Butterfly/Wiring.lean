import Butterfly.Firewall

/-!
# The brick graph of the log

What the log of the API thread says about the edges between bricks.  Operations
on the graph that do not go through the queue are only done after a wait behind
an idle command, so every interleaving ends with the edges of the synchronous
run.
-/

namespace Butterfly

open Std Foundation Butterfly.Graph

/-! ## Every interleaving ends with the same edges -/

theorem projects_graph :
    Packetgraph.machine.Projects BrickGraph.machine Packetgraph.graph :=
  ⟨fun _ _ => rfl, fun _ _ => rfl⟩

def Server.wiring (s : Server) : BrickGraph :=
  BrickGraph.machine.sync s.ops s.startGraph.graph

theorem Server.wiring_emits (s : Server) (ops : List (Op Rpc Direct)) :
    (s.emits ops).wiring = BrickGraph.machine.sync ops s.wiring := by
  simp [Server.wiring]

def OffGraph (d : Direct) : Prop := ∀ g, BrickGraph.act d g = g

theorem OffGraph.comm {d : Direct} (h : OffGraph d) (c : Rpc) (g : BrickGraph) :
    BrickGraph.exec c (BrickGraph.act d g) = BrickGraph.act d (BrickGraph.exec c g) := by
  rw [h, h]

/-- Calls that change the graph wait for the poller. -/
def pacing : Discipline BrickGraph.machine where
  free := OffGraph
  inv _ := True
  pre _ _ := True
  safe _ _ := True
  free_comm h := h.comm _ _
  free_inv _ _ := trivial
  free_pre _ _ := trivial
  free_safe _ := trivial
  pre_of_exec _ := trivial
  pre_idle _ := trivial

def Paced (s : Server) : Prop :=
  pacing.Checked .clean s.startGraph.graph s.ops

theorem reachable_graph {s : Server} {c : Config Packetgraph Rpc Direct}
    (h : Packetgraph.machine.Reachable (Machine.start s.ops s.startGraph) c) :
    BrickGraph.machine.Reachable (Machine.start s.ops s.startGraph.graph)
      (c.map Packetgraph.graph) := projects_graph.reachable h

theorem Drained.graph {s : Server} {pg : Packetgraph} (h : Drained s pg)
    (hpaced : Paced s) : pg.graph = s.wiring := by
  obtain ⟨c, hc, htodo, hpending, rfl⟩ := h
  have hsettle := pacing.settle_of_reachable trivial hpaced (reachable_graph hc) htodo
  have hsame : (c.map Packetgraph.graph).pending = [] := hpending
  rw [Machine.settle, hsame] at hsettle
  exact hsettle

/-! ## Pacing of operations -/

theorem offGraph_of_calm {d : Direct} (h : CalmOp (.direct d)) : OffGraph d := by
  intro g
  cases h <;> rfl

theorem offGraph_of_firewallOp {b : Brick} {d : Direct}
    (h : FirewallOp b (.direct d)) : OffGraph d := by
  intro g
  cases h <;> rfl

theorem sync_firewallOps {ops : List (Op Rpc Direct)}
    (h : ∀ op ∈ ops, ∃ b, FirewallOp b op) (g : BrickGraph) :
    BrickGraph.machine.sync ops g = g := by
  induction ops generalizing g with
  | nil => rfl
  | cons op ops ih =>
      have hop : BrickGraph.machine.syncOp g op = g := by
        obtain ⟨b, hb⟩ := h op List.mem_cons_self
        cases hb <;> rfl
      rw [Machine.sync_cons, hop]
      exact ih (fun op hop => h op (List.mem_cons_of_mem _ hop)) g

/-- Paced, and the poller has executed all that was asked for. -/
structure Poised (s : Server) : Prop where
  paced : Paced s
  clean : Discipline.modeAfter BrickGraph.machine .clean s.ops = .clean

theorem modeAfter_directs {ops : List (Op Rpc Direct)} (ds : List Direct)
    (h : Discipline.modeAfter BrickGraph.machine .clean ops = .clean) :
    Discipline.modeAfter BrickGraph.machine .clean (ops ++ ds.map .direct) = .clean := by
  rw [Discipline.modeAfter] at h
  rw [Discipline.modeAfter, List.foldl_append, h]
  clear h
  induction ds with
  | nil => rfl
  | cons d ds ih => exact ih

theorem modeAfter_fence (ops : List (Op Rpc Direct)) :
    Discipline.modeAfter BrickGraph.machine .clean (ops ++ [.push .nothing, .wait]) =
      .clean := by
  simp only [Discipline.modeAfter, List.foldl_append, List.foldl_cons, List.foldl_nil]
  rfl

theorem Paced.emits {s : Server} (h : Paced s) (ops : List (Op Rpc Direct))
    (hops : ∀ d, .direct d ∈ ops → OffGraph d) : Paced (s.emits ops) := by
  change pacing.Checked .clean s.startGraph.graph (s.ops ++ ops)
  rw [Discipline.checked_append]
  exact ⟨h, pacing.checked_of_free (fun _ => trivial) (fun _ _ => trivial) hops⟩

theorem Paced.fence {s : Server} (h : Paced s) (ops : List (Op Rpc Direct))
    (hops : ∀ d, .direct d ∈ ops → OffGraph d) :
    Poised (s.emits (ops ++ [.push .nothing, .wait])) := by
  refine ⟨h.emits _ (by simpa using hops), ?_⟩
  rw [Server.emits_ops, ← List.append_assoc]
  exact modeAfter_fence _

theorem Poised.directs {s : Server} (h : Poised s) (ds : List Direct) :
    Poised (s.emits (ds.map .direct)) := by
  have hchecked : ∀ g, pacing.Checked .clean g (ds.map .direct) := by
    clear h
    induction ds with
    | nil => exact fun _ => trivial
    | cons d ds ih => exact fun g => ⟨.inl rfl, trivial, trivial, ih _⟩
  constructor
  · change pacing.Checked .clean s.startGraph.graph (s.ops ++ ds.map .direct)
    rw [Discipline.checked_append, h.clean]
    exact ⟨h.paced, hchecked _⟩
  · exact modeAfter_directs ds h.clean

theorem directs_of_calm {ops : List (Op Rpc Direct)} (h : ∀ op ∈ ops, CalmOp op) :
    ∃ ds : List Direct, ops = ds.map .direct := by
  induction ops with
  | nil => exact ⟨[], rfl⟩
  | cons op ops ih =>
      obtain ⟨ds, rfl⟩ := ih fun op hop => h op (List.mem_cons_of_mem _ hop)
      have hop := h op List.mem_cons_self
      cases hop <;> exact ⟨_ :: ds, rfl⟩

/-! ## Edges at the vtep and at switches -/

def Edge.attaches (e : Edge) : Bool :=
  e.west.kind = .vtep || e.west.kind = .switch

/-- The edges by which branches hang on the vtep or on a switch. -/
def BrickGraph.attachments (g : BrickGraph) : List Edge := g.edges.filter Edge.attaches

def Edge.avoids (b : Brick) (e : Edge) : Bool := e.west ≠ b && e.east ≠ b

namespace BrickGraph

variable (g : BrickGraph)

theorem attachments_link {w : Brick} (h : w.kind = .vtep ∨ w.kind = .switch)
    (e : Brick) : (g.link w e).attachments = g.attachments ++ [⟨w, e, []⟩] := by
  have hattaches : Edge.attaches ⟨w, e, []⟩ = true := by
    simpa [Edge.attaches] using h
  simp [attachments, link, List.filter_append, hattaches]

theorem attachments_link_inner {w : Brick} (h : w.kind ≠ .vtep) (h' : w.kind ≠ .switch)
    (e : Brick) : (g.link w e).attachments = g.attachments := by
  simp [attachments, link, List.filter_append, Edge.attaches, h, h']

theorem attachments_unlink (b : Brick) :
    (g.unlink b).attachments = g.attachments.filter (Edge.avoids b) := by
  simp only [attachments, unlink, List.filter_filter]
  congr 1
  funext e
  simp [Edge.avoids, Bool.and_comm]

theorem attachments_destroy (b : Brick) :
    (g.destroy b).attachments = g.attachments.filter (Edge.avoids b) :=
  attachments_unlink g b

theorem attachments_addVni (b : Brick) (v : UInt32) :
    (g.addVni vtepBrick b v).attachments = g.attachments.map fun e =>
      if e.west = vtepBrick ∧ e.east = b then { e with vnis := e.vnis ++ [v] }
      else e := by
  simp only [attachments, addVni, List.filter_map]
  congr 1
  apply List.filter_congr
  intro e _
  simp only [Function.comp]
  split <;> rfl

theorem attachments_link_addVni {b : Brick} (v : UInt32)
    (h : ∀ e ∈ g.attachments, ¬(e.west = vtepBrick ∧ e.east = b)) :
    ((g.link vtepBrick b).addVni vtepBrick b v).attachments =
      g.attachments ++ [⟨vtepBrick, b, [v]⟩] := by
  have hold : g.attachments.map (fun e =>
      if e.west = vtepBrick ∧ e.east = b then { e with vnis := e.vnis ++ [v] }
      else e) = g.attachments := by
    rw [List.map_congr_left (g := fun e => e) fun e he => if_neg (h e he)]
    exact List.map_id _
  rw [attachments_addVni, attachments_link _ (.inl rfl), List.map_append, hold]
  simp

theorem attachments_unlinkEdge (b : Brick) :
    (g.unlinkEdge vtepBrick b).attachments =
      g.attachments.eraseP fun e => e.west = vtepBrick ∧ e.east = b := by
  simp only [attachments, unlinkEdge]
  rw [List.eraseP_filter]
  congr 2
  funext e
  by_cases hw : e.west = vtepBrick
  · simp [hw, Edge.attaches, vtepBrick]
  · simp [hw]

end BrickGraph

def Inert (op : Op Rpc Direct) : Prop :=
  ∀ g, (BrickGraph.machine.syncOp g op).attachments = g.attachments

theorem attachments_inert {ops : List (Op Rpc Direct)} (h : ∀ op ∈ ops, Inert op)
    (g : BrickGraph) :
    (BrickGraph.machine.sync ops g).attachments = g.attachments := by
  induction ops generalizing g with
  | nil => rfl
  | cons op ops ih =>
      rw [Machine.sync_cons, ih (fun op hop => h op (List.mem_cons_of_mem _ hop)),
        h op List.mem_cons_self]

theorem inert_of_calm {op : Op Rpc Direct} (h : CalmOp op) : Inert op := by
  intro g
  cases h <;> rfl

theorem inert_of_firewallOp {b : Brick} {op : Op Rpc Direct} (h : FirewallOp b op) :
    Inert op := by
  intro g
  cases h <;> rfl

theorem inert_fwNewOps (ok : PgCall → Bool) (nic : Nic) (serial : Nat) :
    ∀ op ∈ fwNewOps ok nic serial, Inert op := by
  simp only [fwNewOps, List.forall_mem_cons]
  exact ⟨fun _ => rfl, fun _ => rfl, fun _ => rfl, by simp⟩

theorem mem_innerLinks {ok : PgCall → Bool} {nic : Nic} {serial : Nat} {trace : Bool}
    {link : Brick × Brick} (h : link ∈ innerLinks ok nic serial trace) :
    BranchKind link.1.kind ∧ link.1.serial = serial ∧
      BranchKind link.2.kind ∧ link.2.serial = serial := by
  have hfour : innerLinks ok nic serial trace ⊆
      [(⟨.sniffer, serial⟩, ⟨.vhost, serial⟩), (⟨.firewall, serial⟩, ⟨.antispoof, serial⟩),
        (⟨.antispoof, serial⟩, ⟨.sniffer, serial⟩),
        (⟨.antispoof, serial⟩, ⟨.vhost, serial⟩)] := by
    simp only [innerLinks]
    split_ifs <;> simp
  have hmem := hfour h
  simp only [List.mem_cons, List.not_mem_nil, or_false] at hmem
  rcases hmem with rfl | rfl | rfl | rfl
  · exact ⟨.sniffer, rfl, .vhost, rfl⟩
  · exact ⟨.firewall, rfl, .antispoof, rfl⟩
  · exact ⟨.antispoof, rfl, .sniffer, rfl⟩
  · exact ⟨.antispoof, rfl, .vhost, rfl⟩

theorem BranchKind.not_attached {kind : BrickKind} (h : BranchKind kind) :
    kind ≠ .vtep ∧ kind ≠ .switch := by
  cases h <;> exact ⟨by decide, by decide⟩

theorem inert_innerLinks (ok : PgCall → Bool) (nic : Nic) (serial : Nat)
    (trace : Bool) : ∀ op ∈ (innerLinks ok nic serial trace).map linkOp, Inert op := by
  intro op hop
  obtain ⟨link, hlink, rfl⟩ := List.mem_map.mp hop
  obtain ⟨hvtep, hswitch⟩ := BranchKind.not_attached (mem_innerLinks hlink).1
  exact fun g => g.attachments_link_inner hvtep hswitch link.2

theorem attachments_destroyOps (bricks : List Brick) (g : BrickGraph) :
    (BrickGraph.machine.sync (destroyOps bricks) g).attachments =
      g.attachments.filter fun e => bricks.all fun b => e.avoids b := by
  induction bricks generalizing g with
  | nil => simp [destroyOps]
  | cons b bricks ih =>
      have hcons : destroyOps (b :: bricks) =
          .direct (.destroy b) :: destroyOps bricks := rfl
      rw [hcons, Machine.sync_cons, ih]
      change List.filter _ (g.destroy b).attachments = _
      rw [BrickGraph.attachments_destroy, List.filter_filter]
      congr 1
      funext e
      simp [Bool.and_comm]

end Butterfly
