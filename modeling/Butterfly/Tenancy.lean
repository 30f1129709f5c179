import Butterfly.Disposal

/-!
# VNIs stay apart

No path joins bricks of different VNIs but through the vtep, and the vtep records on
each of its edges the VNI of the bricks behind it.  This holds at every moment of every
interleaving, and whichever calls fail.
-/

namespace Butterfly

open Std Foundation MessageV0 Butterfly.Graph BrickGraph

/-! ## Marks on bricks -/

/-- Bricks from the number `n` on get new marks. -/
def remark {α : Type} (n : Nat) (new old : Brick → α) (b : Brick) : α :=
  if b.serial < n then old b else new b

/-- A marking that the server keeps to, and that goes on from the one at the number `n`. -/
structure Marked {α : Type} (I : (Brick → α) → Server → Prop) (n : Nat) (old : Brick → α)
    (s : Server) : Prop where
  tidy : Tidy ∅ s
  serial : n ≤ s.nextSerial
  marks : ∃ marks, I marks s ∧ ∀ b, b.serial < n → marks b = old b

section Marks

variable {α : Type} {n : Nat} {new old : Brick → α} {I : (Brick → α) → Server → Prop}
  {s s' : Server}

theorem remark_of_lt {b : Brick} (h : b.serial < n) : remark n new old b = old b := if_pos h

theorem remark_of_le {b : Brick} (h : n ≤ b.serial) : remark n new old b = new b :=
  if_neg (Nat.not_lt.mpr h)

theorem Marked.remark (h : Marked I n old s) (htidy : Tidy ∅ s')
    (hserial : s.nextSerial ≤ s'.nextSerial)
    (hstep : ∀ {marks}, I marks s → ∃ new, I (Butterfly.remark s.nextSerial new marks) s') :
    Marked I n old s' := by
  obtain ⟨marks, hmarks, hsame⟩ := h.marks
  obtain ⟨new, hnew⟩ := hstep hmarks
  refine ⟨htidy, h.serial.trans hserial, _, hnew, fun b hb => ?_⟩
  rw [remark_of_lt (Nat.lt_of_lt_of_le hb h.serial)]
  exact hsame b hb

theorem Marked.same (h : Marked I n old s) (htidy : Tidy ∅ s')
    (hserial : s'.nextSerial = s.nextSerial) (hstep : ∀ {marks}, I marks s → I marks s') :
    Marked I n old s' := by
  obtain ⟨marks, hmarks, hsame⟩ := h.marks
  exact ⟨htidy, hserial ▸ h.serial, marks, hstep hmarks, hsame⟩

end Marks

/-! ## Properties of edges -/

section Edges

variable {Q : Op Rpc Direct → Prop} {p : Edge → Prop} {g : BrickGraph}

/-- What holds of the edges that are linked, and of edges with a VNI more, holds of all edges. -/
theorem edges_kept (hpush : ∀ {a b}, Q (.push (.link a b)) → p ⟨a, b, []⟩)
    (hdirect : ∀ {a b}, Q (.direct (.link a b)) → p ⟨a, b, []⟩)
    (hadd : ∀ {e v}, Q (.push (.addVni e.west e.east v)) → p e →
      p { e with vnis := e.vnis ++ [v] }) :
    BrickGraph.machine.Keeps Q fun g => ∀ e ∈ g.edges, p e := by
  have hlink : ∀ {g : BrickGraph} {a b}, (∀ e ∈ g.edges, p e) → p ⟨a, b, []⟩ →
      ∀ e ∈ (g.link a b).edges, p e := fun h hnew =>
    List.forall_mem_append.mpr ⟨h, List.forall_mem_singleton.mpr hnew⟩
  have hunlink : ∀ {g : BrickGraph} {b}, (∀ e ∈ g.edges, p e) → ∀ e ∈ (g.unlink b).edges, p e :=
    fun h e he => h e (List.mem_of_mem_filter he)
  have hunlinkEdge : ∀ {g : BrickGraph} {a b}, (∀ e ∈ g.edges, p e) →
      ∀ e ∈ (g.unlinkEdge a b).edges, p e := fun h e he => h e (List.mem_of_mem_eraseP he)
  constructor
  · intro c g hc h
    cases c with
    | link a b => exact hlink h (hpush hc)
    | unlink b => exact hunlink h
    | unlinkEdge a b => exact hunlinkEdge h
    | addVni w b v =>
        intro e he
        obtain ⟨old, hold, rfl⟩ := List.mem_map.mp he
        split
        · next hends =>
            obtain ⟨rfl, rfl⟩ := hends
            exact hadd hc (h old hold)
        · exact h old hold
    | brickDestroy b => exact hunlink h
    | _ => exact h
  · intro d g hd h
    cases d with
    | link a b => exact hlink h (hdirect hd)
    | unlinkEdge a b => exact hunlinkEdge h
    | destroy b => exact hunlink h
    | _ => exact h

end Edges

/-! ## Paths and tenants -/

/-- A path leads from the first brick to the second, and `x` is not on it. -/
def BrickGraph.Around (g : BrickGraph) (x : Brick) : Brick → Brick → Prop :=
  Relation.ReflTransGen fun a b => g.Adjacent a b ∧ a ≠ x ∧ b ≠ x

structure Edge.Inside (tenant : Brick → Option UInt32) (e : Edge) : Prop where
  ends : e.west = vtepBrick ∨ e.east = vtepBrick ∨ tenant e.west = tenant e.east
  vnis : ∀ v ∈ e.vnis, e.west = vtepBrick ∧ tenant e.east = some v

def LinksInside (tenant : Brick → Option UInt32) : Op Rpc Direct → Prop
  | .push (.link a b) | .direct (.link a b) =>
      a = vtepBrick ∨ b = vtepBrick ∨ tenant a = tenant b
  | .push (.addVni w b v) => w = vtepBrick ∧ tenant b = some v
  | _ => True

section Paths

variable {tenant : Brick → Option UInt32} {g : BrickGraph}

theorem around_tenant (h : ∀ e ∈ g.edges, e.Inside tenant) {a b : Brick}
    (haround : g.Around vtepBrick a b) : tenant a = tenant b := by
  induction haround with
  | refl => rfl
  | tail _ hstep ih =>
      obtain ⟨hadjacent, hne, hne'⟩ := hstep
      rw [ih]
      rcases hadjacent with ⟨e, he, rfl, rfl⟩ | ⟨e, he, rfl, rfl⟩
      · exact ((h e he).ends.resolve_left hne).resolve_left hne'
      · exact (((h e he).ends.resolve_left hne').resolve_left hne).symm

theorem inside_kept : BrickGraph.machine.Keeps (LinksInside tenant)
    fun g => ∀ e ∈ g.edges, e.Inside tenant := by
  refine edges_kept (fun hends => ⟨hends, by simp⟩) (fun hends => ⟨hends, by simp⟩) ?_
  intro e v hop h
  refine ⟨h.ends, fun u hu => ?_⟩
  rcases List.mem_append.mp hu with hu | hu
  · exact h.vnis u hu
  · rw [List.mem_singleton.mp hu]
    exact hop

/-- What a step for one VNI links. -/
theorem LinksOnly.inside {p q : Brick → Prop} {v : UInt32} {op : Op Rpc Direct}
    (h : LinksOnly p q v op) (hp : ∀ b, p b → tenant b = some v)
    (hq : ∀ b, q b → tenant b = some v) : LinksInside tenant op := by
  have hends : ∀ {a b : Brick}, (p a ∧ p b) ∨ ((a = vtepBrick ∨ q a) ∧ q b) →
      a = vtepBrick ∨ b = vtepBrick ∨ tenant a = tenant b := by
    rintro a b (⟨ha, hb⟩ | ⟨ha | ha, hb⟩)
    · exact .inr (.inr ((hp a ha).trans (hp b hb).symm))
    · exact .inl ha
    · exact .inr (.inr ((hq a ha).trans (hq b hb).symm))
  cases op with
  | push c =>
      cases c with
      | link a b => exact hends h
      | addVni w b u => exact ⟨h.1, h.2.2 ▸ hq b h.2.1⟩
      | _ => trivial
  | wait => trivial
  | direct d =>
      cases d with
      | link a b => exact hends h
      | _ => trivial

end Paths

/-! ## Every brick has one tenant -/

/-- The VNI that each brick has been created for. -/
structure Tenancy (tenant : Brick → Option UInt32) (s : Server) : Prop where
  shared : ∀ b, b.serial = 0 → tenant b = none
  held : ∀ {v b}, s.InVni v b → tenant b = some v
  links : ∀ op ∈ s.ops, LinksInside tenant op
  named : ∀ {w b v}, .push (.addVni w b v) ∈ s.ops → b.serial < s.nextSerial

section Steps

variable {tenant : Brick → Option UInt32} {s s' : Server}

theorem Numbered.inVni (h : Numbered s) {v : UInt32} {b : Brick} (hb : s.InVni v b) :
    b.serial < s.nextSerial :=
  h.holds (hb.imp (fun hbranch => ⟨v, hbranch⟩) fun hsw => ⟨v, hsw⟩)

/-- Old operations do not name new bricks. -/
theorem LinksInside.remark {n : Nat} {op : Op Rpc Direct} (h : LinksInside tenant op)
    (hbelow : Below n op) (hnamed : ∀ w b v, op = .push (.addVni w b v) → b.serial < n)
    (new : Brick → Option UInt32) : LinksInside (Butterfly.remark n new tenant) op := by
  cases op with
  | push c =>
      cases c with
      | link a b =>
          change _ ∨ _ ∨ Butterfly.remark n new tenant a = Butterfly.remark n new tenant b
          rwa [remark_of_lt hbelow.1, remark_of_lt hbelow.2]
      | addVni w b u =>
          change _ ∧ Butterfly.remark n new tenant b = some u
          rwa [remark_of_lt (hnamed w b u rfl)]
      | _ => trivial
  | wait => trivial
  | direct d =>
      cases d with
      | link a b =>
          change _ ∨ _ ∨ Butterfly.remark n new tenant a = Butterfly.remark n new tenant b
          rwa [remark_of_lt hbelow.1, remark_of_lt hbelow.2]
      | _ => trivial

/-- A step for one VNI: it gets the new bricks, and links only what is its own. -/
theorem Tenancy.step (h : Tenancy tenant s) (hnumbered : Numbered s) {v : UInt32}
    {p q : Brick → Prop} {ops : List (Op Rpc Direct)} (hlog : s'.ops = s.ops ++ ops)
    (hserial : s.nextSerial ≤ s'.nextSerial)
    (hback : ∀ {u b}, s'.InVni u b → s.InVni u b ∨ u = v ∧ s.nextSerial ≤ b.serial)
    (hlinks : ∀ op ∈ ops, LinksOnly p q v op)
    (hp : ∀ b, p b → s.InVni v b ∨ s.nextSerial ≤ b.serial)
    (hq : ∀ b, q b → (s.InVni v b ∨ s.nextSerial ≤ b.serial) ∧ b.serial < s'.nextSerial) :
    Tenancy (remark s.nextSerial (fun _ => some v) tenant) s' := by
  have hheld : ∀ {u b}, s.InVni u b →
      remark s.nextSerial (fun _ => some v) tenant b = some u := fun hb =>
    (remark_of_lt (hnumbered.inVni hb)).trans (h.held hb)
  have hnew : ∀ b, s.InVni v b ∨ s.nextSerial ≤ b.serial →
      remark s.nextSerial (fun _ => some v) tenant b = some v := by
    rintro b (hold | hfresh)
    · exact hheld hold
    · exact remark_of_le hfresh
  refine ⟨fun b hb => ?_, fun {u b} hb => ?_, fun op hop => ?_, fun {w b u} hop => ?_⟩
  · rw [remark_of_lt (hb ▸ hnumbered.positive)]
    exact h.shared b hb
  · rcases hback hb with hold | ⟨rfl, hfresh⟩
    · exact hheld hold
    · exact remark_of_le hfresh
  · rw [hlog] at hop
    rcases List.mem_append.mp hop with hold | hop
    · exact (h.links op hold).remark (hnumbered.links op hold)
        (fun w b u heq => h.named (heq ▸ hold)) _
    · exact (hlinks op hop).inside (fun b hb => hnew b (hp b hb)) fun b hb => hnew b (hq b hb).1
  · rw [hlog] at hop
    rcases List.mem_append.mp hop with hold | hop
    · exact Nat.lt_of_lt_of_le (h.named hold) hserial
    · exact (hq b (hlinks _ hop).2.1).2

namespace Tenancy

theorem emits (h : Tenancy tenant s) {ops : List (Op Rpc Direct)}
    (hlinks : ∀ op ∈ ops, LinksOnly (fun _ => False) (fun _ => False) 0 op) :
    Tenancy tenant (s.emits ops) := by
  refine ⟨h.shared, h.held, fun op hop => ?_, fun hop => ?_⟩
  · rcases List.mem_append.mp hop with hold | hop
    · exact h.links op hold
    · exact (hlinks op hop).inside (fun _ hfalse => hfalse.elim) fun _ hfalse => hfalse.elim
  · rcases List.mem_append.mp hop with hold | hop
    · exact h.named hold
    · exact (hlinks _ hop).2.1.elim

theorem reshape (h : Tenancy tenant s) (hnumbered : Numbered s) (hnumbered' : Numbered s')
    {nic : Butterfly.Nic} {gn gn' : GraphNic} {ops : List (Op Rpc Direct)}
    (hr : Reshapes nic gn gn' ops s s') :
    Tenancy (remark s.nextSerial (fun _ => some nic.vni) tenant) s' := by
  have hgn : s.branch nic.vni nic.id = some gn := (Server.findNic_eq nic s).symm.trans hr.found
  have hgn' : s'.branch nic.vni nic.id = some gn' := by rw [hr.branch, if_pos ⟨rfl, rfl⟩]
  have hbricks : ∀ b ∈ gn'.bricks, s.InVni nic.vni b ∨ s.nextSerial ≤ b.serial := fun b hb =>
    (hr.bricks b hb).imp_left fun hold => .inl ⟨nic.id, gn, hgn, hold⟩
  refine h.step hnumbered hr.log hr.serial ?_ hr.links hbricks fun b hb =>
    ⟨hbricks b hb.2, hnumbered'.branches hgn' b hb.2⟩
  rintro u b (⟨id, g, hg, hb⟩ | hsw)
  · rw [hr.branch] at hg
    split at hg
    · next hkey =>
        obtain ⟨rfl, rfl⟩ := hkey
        cases hg
        exact (hbricks b hb).imp_right fun hfresh => ⟨rfl, hfresh⟩
    · exact .inl (.inl ⟨id, g, hg, hb⟩)
  · exact .inl (.inr (hr.switches u ▸ hsw))

theorem retire (h : Tenancy tenant s) (hnumbered : Numbered s) {nic : Butterfly.Nic}
    {gn : GraphNic} {sw : Option Brick} {ops : List (Op Rpc Direct)}
    (hr : Retires nic gn sw ops s s') :
    Tenancy (remark s.nextSerial (fun _ => some nic.vni) tenant) s' := by
  refine h.step hnumbered hr.log hr.effect.serial.ge ?_ hr.links (fun _ hfalse => hfalse.elim) ?_
  · rintro u b (⟨id, g, hg, hb⟩ | hsw)
    · rw [hr.effect.branch] at hg
      split at hg
      · cases hg
      · exact .inl (.inl ⟨id, g, hg, hb⟩)
    · exact .inl (.inr (hr.switches hsw).1)
  · rintro b ⟨id, other, -, hother, rfl⟩
    have hin : s.InVni nic.vni other.head :=
      .inl ⟨id, other, hother, by simp [GraphNic.bricks]⟩
    exact ⟨.inl hin, hr.effect.serial ▸ hnumbered.inVni hin⟩

theorem grow (h : Tenancy tenant s) (hnumbered : Numbered s) (hnumbered' : Numbered s')
    {nic : Butterfly.Nic} {accepted : Bool} {sw : Option Brick} {ops : List (Op Rpc Direct)}
    (hg : Grows nic accepted sw ops s s') (hnew : s.branch nic.vni nic.id = none) :
    Tenancy (remark s.nextSerial (fun _ => some nic.vni) tenant) s' := by
  have hswitch : ∀ b, sw = some b → s.switch? nic.vni = some b ∨ s.nextSerial ≤ b.serial := by
    rintro b rfl
    rcases hg.choice with hold | hnone | ⟨hfresh, -⟩
    · exact .inl hold.symm
    · cases hnone
    · cases hfresh
      exact .inr (Nat.le_succ _)
  refine h.step hnumbered hg.log hg.effect.serial.le ?_ hg.links
    (fun b hb => .inr (newBranch_bricks nic _ b hb).ge) ?_
  · rintro u b (⟨id, gn, hgn, hb⟩ | hsw)
    · rw [hg.effect.branch hnew] at hgn
      split at hgn
      · next hkey =>
          cases hgn
          rw [filled_bricks] at hb
          exact .inr ⟨hkey.2.1.symm, (newBranch_bricks nic _ b hb).ge⟩
      · exact .inl (.inl ⟨id, gn, hgn, hb⟩)
    · rw [hg.switches] at hsw
      split at hsw
      · next hv =>
          subst hv
          exact (hswitch b hsw).imp .inr fun hfresh => ⟨rfl, hfresh⟩
      · exact .inl (.inr hsw)
  · rintro b (hsw | rfl | ⟨id, gn, hgn, rfl⟩)
    · have hafter : s'.switch? nic.vni = some b := by rw [hg.switches, if_pos rfl, hsw]
      exact ⟨(hswitch b hsw).imp_left .inr, hnumbered'.inVni (.inr hafter)⟩
    · have hserial := newBranch_bricks nic s.nextSerial _
        (by simp [GraphNic.bricks] : (newBranch nic s.nextSerial).head ∈ _)
      exact ⟨.inr hserial.ge, hserial.trans_lt hg.effect.serial⟩
    · have hin : s.InVni nic.vni gn.head := .inl ⟨id, gn, hgn, by simp [GraphNic.bricks]⟩
      exact ⟨.inl hin, Nat.lt_trans (hnumbered.inVni hin) hg.effect.serial⟩

end Tenancy

end Steps

/-! ## Runs -/

section Runs

variable {P : Platform} {n : Nat} {tenant : Brick → Option UInt32} {s s' : Server}

theorem tenancy_kept (ambient : Ambient) (n : Nat) (tenant : Brick → Option UInt32) :
    KeptByStep ambient (Marked Tenancy n tenant) where
  model f h := h.same (h.tidy.modifyModel f) rfl fun htenancy =>
    ⟨htenancy.shared, htenancy.held, htenancy.links, htenancy.named⟩
  calm h hops := h.same ((tidy_kept ambient ∅).calm h.tidy hops) rfl fun htenancy =>
    htenancy.emits fun op hop => links_calm (hops op hop)
  trace {t t' nic} h hstep := by
    have htidy := h.tidy.traceStep hstep
    rcases hstep.reshapes with rfl | ⟨gn, gn', ops, hr⟩
    · exact h.same htidy rfl fun htenancy => htenancy.emits (by simp [LinksOnly])
    · exact h.remark htidy hr.serial fun htenancy =>
        ⟨_, htenancy.reshape h.tidy.numbered htidy.numbered hr⟩
  update {t} nic h := by
    have htidy := h.tidy.fwUpdate ambient.ok nic
    rcases fwUpdate_reshapes ambient.ok nic t with heq | ⟨-, gn, gn', ops, hr⟩
    · rwa [heq]
    · exact h.remark htidy hr.serial fun htenancy =>
        ⟨_, htenancy.reshape h.tidy.numbered htidy.numbered hr⟩
  rule {t} nic rule h := by
    have htidy := h.tidy.fwAddRule ambient.ok nic rule
    rcases fwAddRule_reshapes ambient.ok nic rule t with heq | ⟨-, gn, gn', ops, hr⟩
    · rwa [heq]
    · exact h.remark htidy hr.serial fun htenancy =>
        ⟨_, htenancy.reshape h.tidy.numbered htidy.numbered hr⟩
  added {t t' nic accepted} h hstarted hnew hadded hback := by
    have htidy := h.tidy.added hstarted hnew hadded hback
    obtain ⟨sw, ops, hg⟩ :=
      hadded.grows h.tidy.numbered h.tidy.switched.kind hstarted hnew hback
    exact h.remark htidy hg.effect.serial.le fun htenancy =>
      ⟨_, htenancy.grow h.tidy.numbered htidy.numbered hg hnew⟩
  deleted {t t' nic} h hok hdeleted := by
    rcases hdeleted.retires hok with rfl | ⟨gn, sw, ops, hr⟩
    · exact h
    · exact h.remark (h.tidy.deleted hok hdeleted) hr.effect.serial.ge fun htenancy =>
        ⟨_, htenancy.retire h.tidy.numbered hr⟩

theorem Tenancy.sameCore (h : Tenancy tenant s) (hcore : SameCore s s') : Tenancy tenant s' := by
  have hin : ∀ {v b}, s'.InVni v b → s.InVni v b := by
    intro v b hb
    simpa only [Server.InVni, Server.branch, Server.switch?, hcore.vnis] using hb
  refine ⟨h.shared, fun hb => h.held (hin hb), hcore.ops ▸ h.links, fun hop => ?_⟩
  rw [hcore.nextSerial]
  exact h.named (hcore.ops ▸ hop)

theorem tenancy_start (config : AppConfig) (pid : Nat) (startDate : UInt64) :
    Tenancy (fun _ => none) (Server.start config pid startDate) := by
  refine ⟨fun _ _ => rfl, fun hb => ?_, fun op hop => ?_, fun {w b v} hop => ?_⟩
  · simp [Server.InVni, Server.switch?] at hb
  · obtain rfl : op = .push .vhostStart := List.mem_singleton.mp hop
    trivial
  · cases List.mem_singleton.mp hop

theorem Reachable.tenancy (h : Reachable P anything s) : ∃ tenant, Tenancy tenant s := by
  have hmarked : Marked Tenancy 0 (fun _ => none) s := h.invariant
    (fun config pid startDate => ⟨tidy_start config pid startDate, Nat.zero_le _, _,
      tenancy_start config pid startDate, fun _ _ => rfl⟩)
    (fun hcore h => h.same (h.tidy.sameCore hcore) hcore.nextSerial fun htenancy =>
      htenancy.sameCore hcore)
    fun hs _ _ _ h hperform => (tenancy_kept _ _ _).perform hs.sound.agree h hperform
  obtain ⟨tenant, htenancy, -⟩ := hmarked.marks
  exact ⟨tenant, htenancy⟩

/-- Bricks keep their tenant. -/
theorem Later.tenancy (h : Later P anything s s') (hs : Reachable P anything s)
    (htenancy : Tenancy tenant s) : Marked Tenancy s.nextSerial tenant s' :=
  h.invariant hs
    (fun hcore h => h.same (h.tidy.sameCore hcore) hcore.nextSerial fun htenancy =>
      htenancy.sameCore hcore)
    (fun ht _ _ _ h hperform => (tenancy_kept _ _ _).perform ht.sound.agree h hperform)
    ⟨hs.tidy, le_rfl, tenant, htenancy, fun _ _ => rfl⟩

/-! ## Interleavings -/

theorem Tenancy.inside (h : Tenancy tenant s) {c : Config Packetgraph Rpc Direct}
    (hc : Packetgraph.machine.Reachable (Machine.start s.ops s.startGraph) c) :
    ∀ e ∈ c.state.graph.edges, e.Inside tenant := by
  refine inside_kept.of_reachable ?_ h.links (reachable_graph hc)
  have hends : tenant nicBrick = tenant mainSniffer :=
    (h.shared nicBrick rfl).trans (h.shared mainSniffer rfl).symm
  unfold Server.startGraph
  split
  · simp only [List.forall_mem_cons, List.not_mem_nil, false_implies, implies_true, and_true]
    exact ⟨⟨.inr (.inr hends), by simp⟩, ⟨.inr (.inl rfl), by simp⟩⟩
  · simp only [List.forall_mem_cons, List.not_mem_nil, false_implies, implies_true, and_true]
    exact ⟨.inr (.inl rfl), by simp⟩

/--
At every moment of every interleaving: bricks that belong to different VNIs, be it at
different times, are joined through the vtep only, and so are they and the physical NIC.
A VNI that the vtep has recorded on an edge is the one of all bricks behind it.
-/
theorem vnis_stay_apart {t t' s : Server} (ht : Reachable P anything t)
    (hlater : Later P anything t t') (hlater' : Later P anything t' s)
    {c : Config Packetgraph Rpc Direct}
    (hc : Packetgraph.machine.Reachable (Machine.start s.ops s.startGraph) c) :
    (∀ {v v' b b'}, t.InVni v b → t'.InVni v' b' → c.state.graph.Around vtepBrick b b' → v = v') ∧
      (∀ {v b}, t.InVni v b → ¬c.state.graph.Around vtepBrick nicBrick b) ∧
      ∀ e ∈ c.state.graph.edges, ∀ v ∈ e.vnis, e.west = vtepBrick ∧
        ∀ {v' b}, t.InVni v' b → c.state.graph.Around vtepBrick e.east b → v' = v := by
  have ht' := hlater.reachable ht
  obtain ⟨tenant, htenancy⟩ := ht.tenancy
  have hmarked := hlater.tenancy ht htenancy
  obtain ⟨tenant', htenancy', hsame⟩ := hmarked.marks
  obtain ⟨tenant'', htenancy'', hsame'⟩ := (hlater'.tenancy ht' htenancy').marks
  have hold : ∀ {v b}, t.InVni v b → tenant'' b = some v := by
    intro v b hb
    have hlt := ht.tidy.numbered.inVni hb
    rw [hsame' b (Nat.lt_of_lt_of_le hlt hmarked.serial), hsame b hlt]
    exact htenancy.held hb
  have hnew : ∀ {v b}, t'.InVni v b → tenant'' b = some v := by
    intro v b hb
    rw [hsame' b (ht'.tidy.numbered.inVni hb)]
    exact htenancy'.held hb
  have hinside := htenancy''.inside hc
  refine ⟨fun hb hb' haround => ?_, fun hb haround => ?_, fun e he v hv => ?_⟩
  · have heq := around_tenant hinside haround
    rw [hold hb, hnew hb'] at heq
    exact Option.some.inj heq
  · have heq := around_tenant hinside haround
    rw [htenancy''.shared nicBrick rfl, hold hb] at heq
    cases heq
  · obtain ⟨hwest, heast⟩ := (hinside e he).vnis v hv
    refine ⟨hwest, fun hb haround => ?_⟩
    have heq := around_tenant hinside haround
    rw [heast, hold hb] at heq
    exact (Option.some.inj heq).symm

def twoVnis : Request × Request :=
  ({ nicAdd := some { id := "nic-1", mac := "52:54:00:12:34:01", vni := 42 } },
   { nicAdd := some { id := "nic-2", mac := "52:54:00:12:34:02", vni := 43 } })

theorem vnis_stay_apart_two_vnis :
    ∃ t s a b, Reachable Libc.platform anything t ∧ Later Libc.platform anything t s ∧
      t.InVni 42 a ∧ s.InVni 43 b ∧
      ∀ c, Packetgraph.machine.Reachable (Machine.start s.ops s.startGraph) c →
        ¬c.state.graph.Around vtepBrick a b := by
  have hserve : (serve Libc.platform {} [twoVnis.1] (Server.start {} 1 0)).any (fun t =>
      (t.branch 42 "nic-1").isSome && (Api0.respond Libc.platform {} (some twoVnis.2) t).any
        fun answer => (answer.2.branch 43 "nic-2").isSome) = true := by
    decide +kernel
  obtain ⟨t, ht, hany⟩ := (Option.any_eq_true _ _).mp hserve
  obtain ⟨hbranch, hanswer⟩ := Bool.and_eq_true_iff.mp hany
  obtain ⟨gn, hgn⟩ := Option.isSome_iff_exists.mp hbranch
  obtain ⟨⟨response, s⟩, hrespond, hbranch'⟩ := (Option.any_eq_true _ _).mp hanswer
  obtain ⟨gn', hgn'⟩ := Option.isSome_iff_exists.mp hbranch'
  have hreachable : Reachable Libc.platform anything t :=
    (Reachable.start {} 1 0).serve (fun _ _ _ => trivial) ht
  have hlater : Later Libc.platform anything t s := .respond .refl trivial hrespond
  have ha : t.InVni 42 gn.vhost := .inl ⟨"nic-1", gn, hgn, by simp [GraphNic.bricks]⟩
  have hb : s.InVni 43 gn'.vhost := .inl ⟨"nic-2", gn', hgn', by simp [GraphNic.bricks]⟩
  refine ⟨t, s, gn.vhost, gn'.vhost, hreachable, hlater, ha, hb, fun c hc haround => ?_⟩
  exact absurd ((vnis_stay_apart hreachable hlater .refl hc).1 ha hb haround) (by decide)

end Runs

end Butterfly
