import Butterfly.Attachment

/-!
# What the vtep reaches

The poller walks the edges from the vtep.  Bricks that no path joins to the vtep
form islands; the API thread may link and destroy them while the poller is at
work, and none of the edges the poller can see changes.
-/

namespace Butterfly

open Std Foundation Butterfly.Graph

namespace BrickGraph

/-! ## Connected bricks -/

def Joined (g : BrickGraph) (w e : Brick) : Prop :=
  ∃ edge ∈ g.edges, edge.west = w ∧ edge.east = e

def Adjacent (g : BrickGraph) (a b : Brick) : Prop := g.Joined a b ∨ g.Joined b a

/-- A path of edges, in either direction, leads to the brick from the vtep. -/
def Connected (g : BrickGraph) (b : Brick) : Prop :=
  Relation.ReflTransGen g.Adjacent vtepBrick b

def Live (g : BrickGraph) (e : Edge) : Prop := g.Connected e.west ∨ g.Connected e.east

def SameLive (g g' : BrickGraph) : Prop :=
  ∀ e, g.Live e ∨ g'.Live e → g'.edges.count e = g.edges.count e

theorem SameLive.refl (g : BrickGraph) : SameLive g g := fun _ _ => rfl

section Joined

variable {g : BrickGraph} {a b w e : Brick}

theorem joined_link : (g.link w e).Joined a b ↔ g.Joined a b ∨ (a = w ∧ b = e) := by
  constructor
  · rintro ⟨edge, hedge, rfl, rfl⟩
    rcases List.mem_append.mp hedge with hold | hnew
    · exact .inl ⟨edge, hold, rfl, rfl⟩
    · obtain rfl := List.mem_singleton.mp hnew
      exact .inr ⟨rfl, rfl⟩
  · rintro (⟨edge, hedge, hends⟩ | ⟨rfl, rfl⟩)
    · exact ⟨edge, List.mem_append_left _ hedge, hends⟩
    · exact ⟨_, List.mem_append_right _ List.mem_cons_self, rfl, rfl⟩

theorem joined_unlink {x : Brick} :
    (g.unlink x).Joined a b ↔ g.Joined a b ∧ a ≠ x ∧ b ≠ x := by
  constructor
  · rintro ⟨edge, hedge, rfl, rfl⟩
    obtain ⟨hold, havoids⟩ := List.mem_filter.mp hedge
    exact ⟨⟨edge, hold, rfl, rfl⟩, by simpa using havoids⟩
  · rintro ⟨⟨edge, hedge, rfl, rfl⟩, havoids⟩
    exact ⟨edge, List.mem_filter.mpr ⟨hedge, by simpa using havoids⟩, rfl, rfl⟩

theorem joined_destroy {x : Brick} :
    (g.destroy x).Joined a b ↔ g.Joined a b ∧ a ≠ x ∧ b ≠ x := joined_unlink

theorem joined_addVni {x : Brick} {v : UInt32} :
    (g.addVni w x v).Joined a b ↔ g.Joined a b := by
  have hends : ∀ edge : Edge, (if edge.west = w ∧ edge.east = x then
      { edge with vnis := edge.vnis ++ [v] } else edge).west = edge.west ∧
      (if edge.west = w ∧ edge.east = x then
        { edge with vnis := edge.vnis ++ [v] } else edge).east = edge.east := by
    intro edge
    split <;> exact ⟨rfl, rfl⟩
  constructor
  · rintro ⟨edge, hedge, rfl, rfl⟩
    obtain ⟨old, hold, rfl⟩ := List.mem_map.mp hedge
    exact ⟨old, hold, (hends old).1.symm, (hends old).2.symm⟩
  · rintro ⟨edge, hedge, rfl, rfl⟩
    exact ⟨_, List.mem_map_of_mem hedge, (hends edge).1, (hends edge).2⟩

theorem joined_of_unlinkEdge (h : (g.unlinkEdge w e).Joined a b) : g.Joined a b := by
  obtain ⟨edge, hedge, hends⟩ := h
  exact ⟨edge, List.mem_of_mem_eraseP hedge, hends⟩

end Joined

end BrickGraph

open BrickGraph

/-! ## Islands -/

/-- No edge joins the bricks of the island to others, of which the vtep is one. -/
structure Island (p : Brick → Prop) (g : BrickGraph) : Prop where
  vtep : ¬p vtepBrick
  closed : ∀ {a b}, g.Joined a b → (p a ↔ p b)

def Direct.Within (p : Brick → Prop) : Direct → Prop
  | .link w e => p w ∧ p e
  | .destroy b => p b
  | .unlinkEdge _ _ => False
  | _ => True

section Islands

variable {p : Brick → Prop} {g g' : BrickGraph} {d : Direct}

theorem Island.not_connected (h : Island p g) {b : Brick} (hb : g.Connected b) : ¬p b := by
  induction hb with
  | refl => exact h.vtep
  | tail _ hadjacent ih =>
      rcases hadjacent with hjoined | hjoined
      · rwa [← h.closed hjoined]
      · rwa [h.closed hjoined]

theorem Island.count_eq_zero (h : Island p g) {e : Edge} (hends : ¬(p e.west ↔ p e.east)) :
    g.edges.count e = 0 :=
  List.count_eq_zero.mpr fun he => hends (h.closed ⟨e, he, rfl, rfl⟩)

theorem Island.sameLive (h : Island p g) (h' : Island p g')
    (hrest : ∀ e : Edge, ¬p e.west → ¬p e.east → g'.edges.count e = g.edges.count e) :
    SameLive g g' := by
  intro e hlive
  have hend : ¬p e.west ∨ ¬p e.east := by
    rcases hlive with hlive | hlive
    · exact hlive.imp h.not_connected h.not_connected
    · exact hlive.imp h'.not_connected h'.not_connected
  by_cases hends : p e.west ↔ p e.east
  · refine hrest e ?_ ?_
    · exact hend.elim id fun heast hwest => heast (hends.mp hwest)
    · exact hend.elim (fun hwest heast => hwest (hends.mpr heast)) id
  · rw [h.count_eq_zero hends, h'.count_eq_zero hends]

theorem Island.act (h : Island p g) (hd : d.Within p) :
    Island p (BrickGraph.act d g) ∧ SameLive g (BrickGraph.act d g) := by
  cases d with
  | link w e =>
      have hisland : Island p (g.link w e) := by
        refine ⟨h.vtep, fun hjoined => ?_⟩
        rcases joined_link.mp hjoined with hold | ⟨rfl, rfl⟩
        · exact h.closed hold
        · exact iff_of_true hd.1 hd.2
      refine ⟨hisland, h.sameLive hisland fun edge hwest _ => ?_⟩
      have hne : (⟨w, e, []⟩ : Edge) ≠ edge := by
        rintro rfl
        exact hwest hd.1
      change (g.edges ++ [(⟨w, e, []⟩ : Edge)]).count edge = g.edges.count edge
      rw [List.count_append, List.count_singleton, if_neg (by simpa using hne), Nat.add_zero]
  | destroy b =>
      have hisland : Island p (g.destroy b) :=
        ⟨h.vtep, fun hjoined => h.closed (joined_destroy.mp hjoined).1⟩
      refine ⟨hisland, h.sameLive hisland fun edge hwest heast => ?_⟩
      refine List.count_filter ?_
      have hw : edge.west ≠ b := fun heq => hwest (heq ▸ hd)
      have he : edge.east ≠ b := fun heq => heast (heq ▸ hd)
      simp [hw, he]
  | unlinkEdge => exact hd.elim
  | _ => exact ⟨h, .refl g⟩

theorem Island.mono {ops : List Direct} (h : Island p g) (hops : ∀ d ∈ ops, d.Within p) :
    Island p (BrickGraph.machine.sync (ops.map .direct) g) := by
  induction ops generalizing g with
  | nil => exact h
  | cons d ops ih =>
      exact ih (h.act (hops d List.mem_cons_self)).1
        fun d hd => hops d (List.mem_cons_of_mem _ hd)

end Islands

/-! ## The discipline -/

def hidden : Discipline BrickGraph.machine where
  free := OffGraph
  inv _ := True
  pre _ _ := True
  safe d g := SameLive g (BrickGraph.act d g)
  free_comm h := h.comm _ _
  free_inv _ _ := trivial
  free_pre _ _ := trivial
  free_safe {d g} h := by
    rw [h g]
    exact .refl g
  pre_of_exec _ := trivial
  pre_idle _ := trivial

def Hidden (s : Server) : Prop := hidden.Checked .clean s.startGraph.graph s.ops

structure HiddenClean (s : Server) : Prop where
  kept : Hidden s
  clean : Discipline.modeAfter BrickGraph.machine .clean s.ops = .clean

section Emits

variable {s : Server}

theorem Hidden.emits (h : Hidden s) (ops : List (Op Rpc Direct))
    (hops : ∀ d, .direct d ∈ ops → OffGraph d) : Hidden (s.emits ops) := by
  change hidden.Checked .clean s.startGraph.graph (s.ops ++ ops)
  rw [Discipline.checked_append]
  exact ⟨h, hidden.checked_of_free (fun _ => trivial) (fun _ _ => trivial) hops⟩

theorem Hidden.fence (h : Hidden s) (ops : List (Op Rpc Direct))
    (hops : ∀ d, .direct d ∈ ops → OffGraph d) :
    HiddenClean (s.emits (ops ++ [.push .nothing, .wait])) := by
  refine ⟨h.emits _ (by simpa using hops), ?_⟩
  rw [Server.emits_ops, ← List.append_assoc]
  exact modeAfter_fence _

theorem HiddenClean.directs {p : Brick → Prop} (h : HiddenClean s) (hp : Island p s.wiring)
    (ds : List Direct) (hds : ∀ d ∈ ds, d.Within p) : HiddenClean (s.emits (ds.map .direct)) := by
  have hchecked : ∀ {g}, Island p g → hidden.Checked .clean g (ds.map .direct) := by
    clear hp h
    induction ds with
    | nil => exact fun _ => trivial
    | cons d ds ih =>
        intro g hg
        obtain ⟨hg', hsame⟩ := hg.act (hds d List.mem_cons_self)
        exact ⟨.inl rfl, hsame, trivial, ih (fun d hd => hds d (List.mem_cons_of_mem _ hd)) hg'⟩
  constructor
  · change hidden.Checked .clean s.startGraph.graph (s.ops ++ ds.map .direct)
    rw [Discipline.checked_append, h.clean]
    exact ⟨h.kept, hchecked hp⟩
  · exact modeAfter_directs ds h.clean

/-- While the poller polls, no step changes an edge that it can reach. -/
theorem Hidden.sameLive (h : Hidden s) {c c' : Config Packetgraph Rpc Direct}
    (hc : Packetgraph.machine.Reachable (Machine.start s.ops s.startGraph) c)
    (hpolling : c.polling = true) (hstep : Packetgraph.machine.Step c c') :
    SameLive c.state.graph c'.state.graph := by
  rcases hstep with hproducer | hconsumer
  · cases hproducer with
    | push => exact .refl _
    | wait => exact .refl _
    | direct d todo =>
        exact hidden.safe_of_reachable trivial h (reachable_graph hc) rfl
  · cases hconsumer with
    | enter => exact .refl _
    | pop => cases hpolling
    | run => cases hpolling
    | leave => cases hpolling

end Emits

end Butterfly
