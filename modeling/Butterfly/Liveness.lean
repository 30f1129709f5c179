import Butterfly.Detachment

/-!
# Bricks that are in use are alive

A brick is destroyed only after the poller has got a list without it and has
executed every command that names it.
-/

namespace Butterfly

open Std Foundation Butterfly.Graph

/-! ## The discipline -/

theorem dead_exec {b : Brick} (c : Rpc) {g : BrickGraph} (h : b ∈ g.dead) :
    b ∈ (BrickGraph.exec c g).dead := by
  cases c <;> simp_all [BrickGraph.exec, BrickGraph.link, BrickGraph.unlink,
    BrickGraph.unlinkEdge, BrickGraph.addVni, BrickGraph.destroy]

/-- Bricks of the poller's list and of pending commands are not destroyed. -/
def lifetime : Discipline BrickGraph.machine where
  free := OffGraph
  inv g := ∀ entry ∈ g.poll, entry.1 ∉ g.dead ∧ entry.2 ∉ g.dead
  pre c g := ∀ b ∈ c.refs, b ∉ g.dead
  safe _ _ := True
  free_comm h := h.comm _ _
  free_inv {d g} h hinv := by
    change ∀ entry ∈ (BrickGraph.act d g).poll, entry.1 ∉ (BrickGraph.act d g).dead ∧
      entry.2 ∉ (BrickGraph.act d g).dead
    rw [h]
    exact hinv
  free_pre {d c g} h hpre := by
    change ∀ b ∈ c.refs, b ∉ (BrickGraph.act d g).dead
    rw [h]
    exact hpre
  free_safe _ := trivial
  pre_of_exec {c c' g} hpre := fun b hb hdead => hpre b hb (dead_exec c' hdead)
  pre_idle _ := by simp [BrickGraph.machine, Rpc.refs]

/-- The discipline is kept by the log. -/
structure Alive (s : Server) : Prop where
  checked : lifetime.Checked .clean s.startGraph.graph s.ops
  inv : lifetime.inv s.wiring

structure AliveClean (s : Server) : Prop extends Alive s where
  clean : Discipline.modeAfter BrickGraph.machine .clean s.ops = .clean

/-- An operation that destroys nothing and names nothing that is destroyed. -/
def Gentle (dead : List Brick) : Op Rpc Direct → Prop
  | .push c => (∀ b, c ≠ .brickDestroy b) ∧ ∀ b ∈ c.refs, b ∉ dead
  | .wait => True
  | .direct d => OffGraph d

theorem gentle_exec {c : Rpc} {g : BrickGraph} (h : Gentle g.dead (.push c))
    (hinv : lifetime.inv g) :
    (BrickGraph.exec c g).dead = g.dead ∧ lifetime.inv (BrickGraph.exec c g) := by
  obtain ⟨hdestroy, hrefs⟩ := h
  cases c with
  | brickDestroy b => exact absurd rfl (hdestroy b)
  | updatePoll list =>
      refine ⟨rfl, fun entry hentry => ?_⟩
      have hmem : ∀ b ∈ [entry.1, entry.2], b ∈ Rpc.refs (.updatePoll list) :=
        fun b hb => List.mem_flatMap.mpr ⟨entry, hentry, hb⟩
      exact ⟨hrefs _ (hmem _ (by simp)), hrefs _ (hmem _ (by simp))⟩
  | _ => exact ⟨rfl, hinv⟩

theorem checked_gentle {ops : List (Op Rpc Direct)} {g : BrickGraph} (mode : Mode)
    (hinv : lifetime.inv g) (hops : ∀ op ∈ ops, Gentle g.dead op) :
    lifetime.Checked mode g ops ∧
      (BrickGraph.machine.sync ops g).dead = g.dead ∧
      lifetime.inv (BrickGraph.machine.sync ops g) := by
  induction ops generalizing g mode with
  | nil => exact ⟨trivial, rfl, hinv⟩
  | cons op ops ih =>
      have hop := hops op List.mem_cons_self
      have hrest : ∀ op ∈ ops, Gentle g.dead op :=
        fun op hop => hops op (List.mem_cons_of_mem _ hop)
      cases op with
      | push c =>
          obtain ⟨hdead, hinv'⟩ := gentle_exec hop hinv
          obtain ⟨hchecked, hdead', hdone⟩ := ih (g := BrickGraph.exec c g) _ hinv'
            (by rw [hdead]; exact hrest)
          exact ⟨⟨hop.2, hinv', hchecked⟩, hdead'.trans hdead, hdone⟩
      | wait => exact ih _ hinv hrest
      | direct d =>
          have hsame : BrickGraph.machine.act d g = g := hop g
          obtain ⟨hchecked, hdead, hdone⟩ := ih mode hinv hrest
          rw [Machine.sync_cons, Machine.syncOp, hsame]
          refine ⟨⟨.inr hop, trivial, ?_, ?_⟩, hdead, hdone⟩
          · rw [hsame]
            exact hinv
          · rw [hsame]
            exact hchecked

def Direct.victim : Direct → Option Brick
  | .destroy b => some b
  | _ => none

theorem checked_directs {ds : List Direct} {g : BrickGraph} (hinv : lifetime.inv g)
    (hds : ∀ d ∈ ds, ∀ b ∈ d.victim, ∀ entry ∈ g.poll, entry.1 ≠ b ∧ entry.2 ≠ b) :
    lifetime.Checked .clean g (ds.map .direct) ∧
      (BrickGraph.machine.sync (ds.map .direct) g).poll = g.poll ∧
      (∀ b, b ∈ (BrickGraph.machine.sync (ds.map .direct) g).dead →
        b ∈ g.dead ∨ ∃ d ∈ ds, d.victim = some b) ∧
      lifetime.inv (BrickGraph.machine.sync (ds.map .direct) g) := by
  induction ds generalizing g with
  | nil => exact ⟨trivial, rfl, fun b hb => .inl hb, hinv⟩
  | cons d ds ih =>
      have hstep : (BrickGraph.act d g).poll = g.poll ∧
          (∀ b, b ∈ (BrickGraph.act d g).dead → b ∈ g.dead ∨ d.victim = some b) ∧
          lifetime.inv (BrickGraph.act d g) := by
        cases d with
        | destroy b =>
            refine ⟨rfl, fun a ha => ?_, fun entry hentry => ?_⟩
            · rcases List.mem_cons.mp ha with rfl | ha
              · exact .inr rfl
              · exact .inl ha
            · obtain ⟨hvhost, hfirewall⟩ := hds _ List.mem_cons_self b rfl entry hentry
              obtain ⟨halive, halive'⟩ := hinv entry hentry
              exact ⟨fun h => (List.mem_cons.mp h).elim hvhost halive,
                fun h => (List.mem_cons.mp h).elim hfirewall halive'⟩
        | _ => exact ⟨rfl, fun a ha => .inl ha, hinv⟩
      obtain ⟨hpoll, hdead, hinv'⟩ := hstep
      obtain ⟨hchecked, hpoll', hdead', hdone⟩ := ih (g := BrickGraph.act d g) hinv'
        fun d' hd' => by
          rw [hpoll]
          exact hds d' (List.mem_cons_of_mem _ hd')
      refine ⟨⟨.inl rfl, trivial, hinv', hchecked⟩, hpoll'.trans hpoll, fun b hb => ?_,
        hdone⟩
      rcases hdead' b hb with hb | ⟨d', hd', hvictim⟩
      · rcases hdead b hb with hb | hvictim
        · exact .inl hb
        · exact .inr ⟨d, List.mem_cons_self, hvictim⟩
      · exact .inr ⟨d', List.mem_cons_of_mem _ hd', hvictim⟩

section Emits

variable {s : Server}

theorem Alive.gentle (h : Alive s) (ops : List (Op Rpc Direct))
    (hops : ∀ op ∈ ops, Gentle s.wiring.dead op) :
    Alive (s.emits ops) ∧ (s.emits ops).wiring.dead = s.wiring.dead := by
  obtain ⟨hchecked, hdead, hinv⟩ := checked_gentle
    (Discipline.modeAfter BrickGraph.machine .clean s.ops) h.inv hops
  refine ⟨⟨?_, ?_⟩, ?_⟩
  · change lifetime.Checked .clean s.startGraph.graph (s.ops ++ ops)
    rw [Discipline.checked_append]
    exact ⟨h.checked, hchecked⟩
  · rw [Server.wiring_emits]
    exact hinv
  · rw [Server.wiring_emits, hdead]

theorem Alive.fence (h : Alive s) :
    AliveClean (s.emits [.push .nothing, .wait]) ∧
      (s.emits [.push .nothing, .wait]).wiring = s.wiring := by
  have hops : ∀ op ∈ ([.push .nothing, .wait] : List (Op Rpc Direct)),
      Gentle s.wiring.dead op := by
    simp [Gentle, Rpc.refs]
  refine ⟨⟨(h.gentle _ hops).1, modeAfter_fence _⟩, ?_⟩
  rw [Server.wiring_emits]
  rfl

theorem AliveClean.directs (h : AliveClean s) (ds : List Direct)
    (hds : ∀ d ∈ ds, ∀ b ∈ d.victim,
      ∀ entry ∈ s.wiring.poll, entry.1 ≠ b ∧ entry.2 ≠ b) :
    AliveClean (s.emits (ds.map .direct)) ∧
      (s.emits (ds.map .direct)).wiring.poll = s.wiring.poll ∧
      ∀ b, b ∈ (s.emits (ds.map .direct)).wiring.dead →
        b ∈ s.wiring.dead ∨ ∃ d ∈ ds, d.victim = some b := by
  obtain ⟨hchecked, hpoll, hdead, hinv⟩ := checked_directs h.inv hds
  refine ⟨⟨⟨?_, ?_⟩, ?_⟩, ?_, ?_⟩
  · change lifetime.Checked .clean s.startGraph.graph (s.ops ++ ds.map .direct)
    rw [Discipline.checked_append, h.clean]
    exact ⟨h.checked, hchecked⟩
  · rw [Server.wiring_emits]
    exact hinv
  · exact modeAfter_directs ds h.clean
  · rw [Server.wiring_emits, hpoll]
  · rw [Server.wiring_emits]
    exact hdead

theorem Alive.kill (h : Alive s) {b : Brick} (hb : b ∉ s.wiring.dead)
    (hpoll : ∀ entry ∈ s.wiring.poll, entry.1 ≠ b ∧ entry.2 ≠ b) :
    Alive (s.emits [.push (.brickDestroy b)]) ∧
      (s.emits [.push (.brickDestroy b)]).wiring = s.wiring.destroy b := by
  have hinv : lifetime.inv (s.wiring.destroy b) := by
    intro entry hentry
    obtain ⟨hvhost, hfirewall⟩ := hpoll entry hentry
    obtain ⟨halive, halive'⟩ := h.inv entry hentry
    exact ⟨fun h => (List.mem_cons.mp h).elim hvhost halive,
      fun h => (List.mem_cons.mp h).elim hfirewall halive'⟩
  have hwiring : (s.emits [.push (.brickDestroy b)]).wiring = s.wiring.destroy b := by
    rw [Server.wiring_emits]
    rfl
  refine ⟨⟨?_, ?_⟩, hwiring⟩
  · change lifetime.Checked .clean s.startGraph.graph (s.ops ++ [.push (.brickDestroy b)])
    rw [Discipline.checked_append]
    exact ⟨h.checked, by simpa [lifetime, Rpc.refs, Server.wiring] using hb, hinv, trivial⟩
  · rw [hwiring]
    exact hinv

end Emits

/-! ## Who is alive -/

/-- What is destroyed belongs to nobody, what is polled to some NIC. -/
structure Living (s : Server) : Prop extends Alive s where
  dead : ∀ b ∈ s.wiring.dead, 0 < b.serial ∧ b.serial < s.nextSerial ∧
    ∀ x, s.serial? x ≠ some b.serial
  poll : ∀ entry ∈ s.wiring.poll, ∃ v id gn, s.branch v id = some gn ∧
    entry = (gn.vhost, gn.firewall)

namespace Living

variable {s : Server}

theorem vtep (h : Living s) : vtepBrick ∉ s.wiring.dead := by
  intro hdead
  exact absurd (h.dead _ hdead).1 (by decide)

theorem fresh (h : Living s) {b : Brick} (hb : s.nextSerial ≤ b.serial) :
    b ∉ s.wiring.dead := by
  intro hdead
  exact absurd (h.dead _ hdead).2.1 (Nat.not_lt.mpr hb)

theorem part (h : Living s) {x : Part} {b : Brick} (hx : s.serial? x = some b.serial) :
    b ∉ s.wiring.dead := by
  intro hdead
  exact (h.dead _ hdead).2.2 x hx

end Living

theorem mem_pollBranch {nics : List GraphNic} {p : PollList} {entry : Brick × Brick}
    (h : entry ∈ pollBranch nics p) :
    entry ∈ p ∨ ∃ n ∈ nics, n.enable = true ∧ entry = (n.vhost, n.firewall) := by
  induction nics generalizing p with
  | nil => exact .inl h
  | cons n nics ih =>
      have hstep : ∀ {q : PollList}, entry ∈ pollBranch nics q →
          entry ∈ q ∨ ∃ m ∈ n :: nics, m.enable = true ∧ entry = (m.vhost, m.firewall) := by
        intro q hq
        refine (ih hq).imp_right ?_
        rintro ⟨m, hm, hrest⟩
        exact ⟨m, List.mem_cons_of_mem _ hm, hrest⟩
      unfold pollBranch at h
      split at h
      · exact .inl h
      split at h
      · exact hstep h
      · next henable =>
          rcases hstep h with hmem | hmem
          · rcases List.mem_append.mp hmem with hmem | hmem
            · exact .inl hmem
            · refine .inr ⟨n, List.mem_cons_self, by simpa using henable, ?_⟩
              exact List.mem_singleton.mp hmem
          · exact .inr hmem

theorem mem_pollables {s : Server} {entry : Brick × Brick} (h : entry ∈ pollables s.vnis) :
    ∃ v id n, s.branch v id = some n ∧ n.enable = true ∧
      entry = (n.vhost, n.firewall) := by
  have hfold : ∀ (entries : List GraphVni) (p : PollList),
      entry ∈ entries.foldl (fun p vni => pollBranch (mapValues vni.nics) p) p →
      entry ∈ p ∨ ∃ vni ∈ entries, ∃ n ∈ mapValues vni.nics, n.enable = true ∧
        entry = (n.vhost, n.firewall) := by
    intro entries
    induction entries with
    | nil => exact fun p hp => .inl hp
    | cons vni entries ih =>
        intro p hp
        rcases ih _ hp with hmem | ⟨vni', hvni', hrest⟩
        · refine (mem_pollBranch hmem).imp_right fun hn => ⟨vni, List.mem_cons_self, hn⟩
        · exact .inr ⟨vni', List.mem_cons_of_mem _ hvni', hrest⟩
  rcases hfold _ _ h with hnil | ⟨vni, hvni, n, hn, henable, heq⟩
  · cases hnil
  · obtain ⟨v, hv⟩ := mem_mapValues.mp hvni
    obtain ⟨id, hid⟩ := mem_mapValues.mp hn
    exact ⟨v, id, n, Server.branch_eq_some.mpr ⟨vni, hv, hid⟩, henable, heq⟩

/-! ## Adding a NIC -/

theorem AddEffect.serial?_old {nic : Nic} {s s' : Server} (h : AddEffect nic true s s')
    (hnew : s.branch nic.vni nic.id = none) {x : Part} {n : Nat}
    (hx : s'.serial? x = some n) : s.serial? x = some n ∨ s.nextSerial ≤ n := by
  cases x with
  | nic v id =>
      obtain ⟨gn, hgn, rfl⟩ := Option.map_eq_some_iff.mp hx
      rw [h.branch hnew] at hgn
      split at hgn
      · cases hgn
        exact .inr (Nat.le_of_eq (newBranch_serial nic s.nextSerial).1.symm)
      · left
        simp [Server.serial?, hgn]
  | switch v =>
      obtain ⟨sw, hsw, rfl⟩ := Option.map_eq_some_iff.mp hx
      obtain ⟨vni', hvni', hsw⟩ := Option.bind_eq_some_iff.mp hsw
      rcases h.switch hvni' hsw with ⟨vni, hvni, hsw⟩ | hle
      · exact .inl (serial?_switch hvni hsw)
      · exact .inr hle

theorem victim_of_calm {d : Direct} (h : CalmOp (.direct d)) : d.victim = none := by
  cases h <;> rfl

theorem AliveClean.harmless {s : Server} (h : AliveClean s) (ds : List Direct)
    (hds : ∀ d ∈ ds, d.victim = none) :
    AliveClean (s.emits (ds.map .direct)) ∧
      (s.emits (ds.map .direct)).wiring.dead ⊆ s.wiring.dead := by
  obtain ⟨hclean, -, hdead⟩ := h.directs ds fun d hd b hb => by
    rw [hds d hd] at hb
    cases hb
  refine ⟨hclean, fun b hb => ?_⟩
  rcases hdead b hb with hold | ⟨d, hd, hvictim⟩
  · exact hold
  · rw [hds d hd] at hvictim
    cases hvictim

theorem Graph.Created.alive {ok : PgCall → Bool} {nic : Nic} {s s₁ : Server}
    (h : Created ok nic (openVni nic.vni s) s₁) (hs : Alive s) :
    AliveClean s₁ ∧ s₁.wiring.dead ⊆ s.wiring.dead := by
  obtain ⟨-, -, ops, hops, rfl⟩ := h
  obtain ⟨ds, rfl⟩ := directs_of_calm hops
  have hlinks : (innerLinks ok nic (openVni nic.vni s).nextSerial
      (openVni nic.vni s).config.packetTrace).map linkOp =
        ((innerLinks ok nic (openVni nic.vni s).nextSerial
          (openVni nic.vni s).config.packetTrace).map fun link =>
            Direct.link link.1 link.2).map .direct := by
    rw [List.map_map]
    rfl
  have hstart : Alive (openVni nic.vni s).takeSerial := ⟨hs.checked, hs.inv⟩
  obtain ⟨halive, hdead⟩ := hstart.gentle [.push (.fwNew ("firewall-" ++ nic.id)
    (if ok (.firewallNew ("firewall-" ++ nic.id)) then
      some ⟨.firewall, (openVni nic.vni s).nextSerial⟩ else none))]
    (by simp [Gentle, Rpc.refs])
  obtain ⟨hfenced, hsame⟩ := halive.fence
  obtain ⟨hcalm, hcalmDead⟩ := hfenced.harmless ds fun d hd =>
    victim_of_calm (hops _ (List.mem_map_of_mem hd))
  obtain ⟨hlinked, hlinkedDead⟩ := hcalm.harmless
    ((innerLinks ok nic (openVni nic.vni s).nextSerial
      (openVni nic.vni s).config.packetTrace).map fun link => Direct.link link.1 link.2)
    fun d hd => by
      obtain ⟨link, -, rfl⟩ := List.mem_map.mp hd
      rfl
  have hback := List.Subset.trans hlinkedDead hcalmDead
  rw [hsame, hdead] at hback
  rw [← hlinks] at hlinked hback
  simp only [Server.emits_emits] at hlinked hback
  exact ⟨hlinked, hback⟩

theorem Living.branch {s : Server} (h : Living s) (hw : Wired s) {v : UInt32} {id : String}
    {gn : GraphNic} (hgn : s.branch v id = some gn) :
    gn.vhost ∉ s.wiring.dead ∧ gn.firewall ∉ s.wiring.dead := by
  have hserial : s.serial? (.nic v id) = some gn.vhost.serial := by
    simp [Server.serial?, hgn]
  refine ⟨h.part hserial, ?_⟩
  rw [← ((hw.pristine hgn).bricks gn.firewall (by simp)).2] at hserial
  exact h.part hserial

theorem Living.head {s : Server} (h : Living s) (hw : Wired s) {v : UInt32} {id : String}
    {gn : GraphNic} (hgn : s.branch v id = some gn) : gn.head ∉ s.wiring.dead := by
  apply h.part (x := .nic v id)
  rw [Server.serial?, hgn, Option.map_some, (hw.pristine hgn).head.2]

/-- A list of living bricks may be polled. -/
theorem gentle_updatePoll {dead : List Brick} {list : PollList}
    (h : ∀ entry ∈ list, entry.1 ∉ dead ∧ entry.2 ∉ dead) :
    Gentle dead (.push (.updatePoll list)) := by
  refine ⟨by simp, fun b hb => ?_⟩
  obtain ⟨entry, hentry, hb⟩ := List.mem_flatMap.mp hb
  obtain ⟨hvhost, hfirewall⟩ := h entry hentry
  simp only [List.mem_cons, List.not_mem_nil, or_false] at hb
  rcases hb with rfl | rfl
  · exact hvhost
  · exact hfirewall

section Keep

variable {ok : PgCall → Bool} {nic : Nic} {s s₂ : Server} {entry : GraphVni}

/-- The branches that the poller is told of. -/
theorem branch_kept (hlookup : s₂.vnis[nic.vni]? = some entry)
    (hvnis : ∀ a : UInt32, s₂.vnis[a]? = if nic.vni = a then some entry else s.vnis[a]?)
    (hnics : entry.nics = (vniEntry nic.vni s).nics)
    (hnone : entry.nics[nic.id]? = none) (gn : GraphNic) (v : UInt32) (id : String) :
    (s₂.updateVni nic.vni (withBranch nic.id gn)).branch v id =
      if nic.vni = v ∧ nic.id = id then some gn else s.branch v id := by
  have hsame : s₂.branch v id = s.branch v id := by
    rw [Server.branch, hvnis]
    split
    · next hv =>
        subst hv
        rw [Option.bind_some, hnics, vniEntry_lookup]
    · rfl
  have hfree : s₂.branch nic.vni nic.id = none := by
    rw [Server.branch, hlookup]
    exact hnone
  rw [branch_withBranch hlookup, hsame, hfree]
  rfl

theorem Living.polled (h : Living s) (hw : Wired s) (hnew : s.branch nic.vni nic.id = none)
    {s' : Server} (heffect : AddEffect nic true s s')
    (hbranch : ∀ v id, (s₂.updateVni nic.vni
      (withBranch nic.id (newBranch nic s.nextSerial))).branch v id =
        if nic.vni = v ∧ nic.id = id then some (newBranch nic s.nextSerial)
        else s.branch v id) :
    ∀ polled ∈ pollables (s₂.updateVni nic.vni
      (withBranch nic.id (newBranch nic s.nextSerial))).vnis,
      (polled.1 ∉ s.wiring.dead ∧ polled.2 ∉ s.wiring.dead) ∧
        ∃ v id gn, s'.branch v id = some gn ∧ polled = (gn.vhost, gn.firewall) := by
  intro polled hpolled
  obtain ⟨v, id, gn, hgn, -, rfl⟩ := mem_pollables hpolled
  rw [hbranch] at hgn
  split at hgn
  · next hnic =>
      cases hgn
      obtain ⟨hvhost, hfirewall⟩ := filled_ends nic (newBranch nic s.nextSerial)
      refine ⟨⟨h.fresh (Nat.le_refl _), h.fresh (Nat.le_refl _)⟩, v, id,
        filled nic (newBranch nic s.nextSerial), ?_, ?_⟩
      · rw [heffect.branch hnew, if_pos ⟨rfl, hnic⟩]
      · rw [hvhost, hfirewall]
  · next hnic =>
      refine ⟨h.branch hw hgn, v, id, gn, ?_, rfl⟩
      rw [heffect.branch hnew, if_neg (by simpa using hnic)]
      exact hgn

/-- The rules that `FwUpdate` gives to the firewall of the NIC, if it is filtered. -/
def fillOps (ok : PgCall → Bool) (nic : Nic) (n : Nat) (groups : ExtTreeMap String Sg) :
    List (Op Rpc Direct) :=
  if nic.bypassFiltering then []
  else fwUpdateOps ok (newBranch nic n).firewall (inRules groups nic) (outRules nic)

theorem fillOps_firewallOp {n : Nat} {groups : ExtTreeMap String Sg} {op : Op Rpc Direct}
    (hop : op ∈ fillOps ok nic n groups) : FirewallOp (newBranch nic n).firewall op := by
  rw [fillOps] at hop
  split at hop
  · cases hop
  · exact fwUpdateOps_firewallOp hop

theorem gentle_fillOps {dead : List Brick} {n : Nat} {groups : ExtTreeMap String Sg}
    (hfirewall : (newBranch nic n).firewall ∉ dead) :
    ∀ op ∈ fillOps ok nic n groups, Gentle dead op := by
  intro op hop
  cases fillOps_firewallOp hop with
  | flush | flushSide | add => exact fun g => rfl
  | reload => exact ⟨by simp, by simpa [Rpc.refs] using hfirewall⟩

theorem Living.keep (h : Living s) (entry : GraphVni) (hw : Wired s)
    (hnew : s.branch nic.vni nic.id = none)
    (heffect : AddEffect nic true s (keepBranch ok nic (newBranch nic s.nextSerial) s₂))
    (halive : Alive s₂) (hdead : s₂.wiring.dead ⊆ s.wiring.dead)
    (hstarted : s₂.started = true)
    (hvnis : ∀ a : UInt32, s₂.vnis[a]? =
      if nic.vni = a then some entry else s.vnis[a]?)
    (hnics : entry.nics = (vniEntry nic.vni s).nics) :
    Living (keepBranch ok nic (newBranch nic s.nextSerial) s₂) := by
  have hlookup : s₂.vnis[nic.vni]? = some entry := by simpa using hvnis nic.vni
  have hnone : entry.nics[nic.id]? = none := by
    rw [hnics, vniEntry_lookup, hnew]
  have hpolled := h.polled hw hnew heffect (branch_kept hlookup hvnis hnics hnone _)
  have hkept := @keepBranch_eq ok nic (newBranch nic s.nextSerial) s₂ entry hstarted hlookup
    hnone
  have hstart : Alive (s₂.updateVni nic.vni (withBranch nic.id
      (filled nic (newBranch nic s.nextSerial)))) := ⟨halive.checked, halive.inv⟩
  obtain ⟨hdone, hdoneDead⟩ := hstart.gentle
    (.push (.updatePoll (pollables (s₂.updateVni nic.vni
      (withBranch nic.id (newBranch nic s.nextSerial))).vnis)) ::
        fillOps ok nic s.nextSerial s₂.model.securityGroups)
    (List.forall_mem_cons.mpr ⟨gentle_updatePoll fun polled hmem =>
        ⟨fun hb => (hpolled polled hmem).1.1 (hdead hb),
          fun hb => (hpolled polled hmem).1.2 (hdead hb)⟩,
      gentle_fillOps fun hb => h.fresh (Nat.le_refl _) (hdead hb)⟩)
  rw [hkept] at hpolled heffect ⊢
  refine ⟨hdone, fun b hb => ?_, fun polled hmem => ?_⟩
  · obtain ⟨hpos, hlt, hnobody⟩ := h.dead b (hdead (hdoneDead ▸ hb))
    refine ⟨hpos, Nat.lt_trans hlt heffect.serial, fun x hx => ?_⟩
    rcases heffect.serial?_old hnew hx with hx | hle
    · exact hnobody x hx
    · omega
  · have hrules : ∀ op ∈ fillOps ok nic s.nextSerial s₂.model.securityGroups,
        ∃ b, FirewallOp b op := fun op hop => ⟨_, fillOps_firewallOp hop⟩
    rw [fillOps] at hrules
    rw [Server.wiring_emits, Machine.sync_cons, sync_firewallOps hrules] at hmem
    exact (hpolled polled hmem).2

end Keep

section Added

variable {ok : PgCall → Bool} {nic : Nic} {s s₁ : Server}

/-- A branch that is linked to one living brick. -/
theorem Living.linked (h : Living s) (hw : Wired s) (hnew : s.branch nic.vni nic.id = none)
    (hcreated : Created ok nic (openVni nic.vni s) s₁) {links : List (Op Rpc Direct)}
    (hlinks : ∀ op ∈ links, Gentle s₁.wiring.dead op)
    (heffect : AddEffect nic true s
      (keepBranch ok nic (newBranch nic s.nextSerial) (s₁.emits links))) :
    Living (keepBranch ok nic (newBranch nic s.nextSerial) (s₁.emits links)) := by
  obtain ⟨hframe, -, -, hvnis⟩ := Created.effect hcreated
  obtain ⟨hclean, hdead⟩ := hcreated.alive h.toAlive
  obtain ⟨halive, hsame⟩ := hclean.toAlive.gentle links hlinks
  exact h.keep _ hw hnew heffect halive (by rw [hsame]; exact hdead)
    (hframe.started.trans hw.ok.started) hvnis rfl

/-- The commands that put the switch before both NICs name living bricks only. -/
theorem Living.switchOps_gentle (h : Living s) {gn₁ : GraphNic} {dead : List Brick}
    (hback : dead ⊆ s.wiring.dead) (hgn₁ : gn₁.head ∉ s.wiring.dead) :
    ∀ op ∈ (switchOps nic gn₁ s).tail, Gentle dead op := by
  have halive : ∀ {b : Brick}, b ∉ s.wiring.dead → b ∉ dead :=
    fun hb hmem => hb (hback hmem)
  have hsw : newSwitch s ∉ s.wiring.dead := h.fresh (Nat.le_succ _)
  have hhead : (newBranch nic s.nextSerial).head ∉ s.wiring.dead :=
    h.fresh (Nat.le_of_eq (newBranch_serial nic s.nextSerial).2.symm)
  simp only [switchOps, List.tail_cons, Gentle, Rpc.refs, List.forall_mem_cons,
    List.not_mem_nil, false_implies, implies_true, and_true, ne_eq, reduceCtorEq,
    not_false_eq_true, true_and]
  exact ⟨⟨halive h.vtep, halive hsw⟩, ⟨halive h.vtep, halive hsw⟩,
    ⟨halive hsw, halive hgn₁⟩, halive hsw, halive hhead⟩

theorem Living.addedSecond (h : Living s) (hw : Wired s) {gn₁ : GraphNic}
    (hnew : s.branch nic.vni nic.id = none)
    (hcreated : Created ok nic (openVni nic.vni s) s₁)
    (hsize : (vniEntry nic.vni s).nics.size = 1)
    (hvalues : mapValues (vniEntry nic.vni s).nics = [gn₁])
    (heffect : AddEffect nic true s
      (keepBranch ok nic (newBranch nic s.nextSerial) (switched nic gn₁ s s₁))) :
    Living (keepBranch ok nic (newBranch nic s.nextSerial) (switched nic gn₁ s s₁)) := by
  obtain ⟨hframe, -, -, hvnis⟩ := Created.effect hcreated
  obtain ⟨hclean, hdead⟩ := hcreated.alive h.toAlive
  have hvni := vniEntry_of_size (s := s) (v := nic.vni) (by omega)
  obtain ⟨k, gn, hvalues', honly⟩ := exists_of_size_one hsize
  obtain rfl : gn = gn₁ := by simpa [hvalues'] using hvalues
  have hgn := (honly k gn).mpr ⟨rfl, rfl⟩
  have hlookup : s₁.takeSerial.vnis[nic.vni]? = some (vniEntry nic.vni s) := hcreated.lookup
  rw [switched, hw.no_switch hvni hsize, Option.toList_none, destroyOps_nil,
    List.nil_append] at heffect ⊢
  have hstart : AliveClean (s₁.takeSerial.updateVni nic.vni
      (withSwitch (some (newSwitch s)))) :=
    ⟨⟨hclean.checked, hclean.inv⟩, hclean.clean⟩
  obtain ⟨hedge, hedgeDead⟩ := hstart.harmless [.unlinkEdge vtepBrick gn.head]
    (by simp [Direct.victim])
  have hback := List.Subset.trans hedgeDead hdead
  obtain ⟨halive, hsame⟩ := hedge.toAlive.gentle (switchOps nic gn s).tail
    (h.switchOps_gentle hback (h.head hw (Server.branch_eq_some.mpr ⟨_, hvni, hgn⟩)))
  rw [Server.emits_emits] at halive hsame
  refine h.keep (withSwitch (some (newSwitch s)) (vniEntry nic.vni s)) hw hnew heffect halive
    (fun b hb => hback (hsame ▸ hb)) (hframe.started.trans hw.ok.started) (fun a => ?_) rfl
  rw [Server.emits_vnis, lookup_updateVni _ hlookup, Server.takeSerial_vnis, hvnis]
  split <;> rfl

theorem Living.added {s' : Server} (h : Living s)
    (hw : Wired s) (hnew : s.branch nic.vni nic.id = none)
    (hadd : NicAdded ok nic s true s') : Living s' := by
  have hnone : (vniEntry nic.vni s).nics[nic.id]? = none := by
    rw [vniEntry_lookup, hnew]
  have heffect := hadd.effect hw.ok.started hnone
  have hhead : (newBranch nic s.nextSerial).head ∉ s.wiring.dead :=
    h.fresh (Nat.le_of_eq (newBranch_serial nic s.nextSerial).2.symm)
  cases hadd with
  | @first s₁ hcreated hsize =>
      have hdead := (hcreated.alive h.toAlive).2
      have hvtep : vtepBrick ∉ s₁.wiring.dead := fun hb => h.vtep (hdead hb)
      have hown : (newBranch nic s.nextSerial).head ∉ s₁.wiring.dead :=
        fun hb => hhead (hdead hb)
      exact h.linked hw hnew hcreated (by simp [Gentle, Rpc.refs, hvtep, hown]) heffect
  | second hcreated hsize _ hvalues _ =>
      exact h.addedSecond hw hnew hcreated hsize hvalues heffect
  | @further s₁ sw hcreated hsize hsw =>
      have hdead := (hcreated.alive h.toAlive).2
      have hvni := vniEntry_of_size (s := s) (v := nic.vni) (by omega)
      have hport : sw ∉ s₁.wiring.dead :=
        fun hb => h.part (serial?_switch hvni hsw) (hdead hb)
      have hown : (newBranch nic s.nextSerial).head ∉ s₁.wiring.dead :=
        fun hb => hhead (hdead hb)
      exact h.linked hw hnew hcreated (by simp [Gentle, Rpc.refs, hport, hown]) heffect

end Added

/-! ## Deleting a NIC -/

theorem Alive.retire {t : Server} {n : GraphNic} (h : Alive t)
    (hfirewall : n.firewall ∉ t.wiring.dead)
    (hbricks : ∀ b ∈ n.firewall :: branchBricks n, b.serial = n.vhost.serial)
    (hpoll : ∀ entry ∈ t.wiring.poll, entry.1.serial ≠ n.vhost.serial ∧
      entry.2.serial ≠ n.vhost.serial) :
    let t' := t.emits (retireOps n)
    Alive t' ∧ t'.wiring.poll = t.wiring.poll ∧
      ∀ b ∈ t'.wiring.dead, b ∈ t.wiring.dead ∨ b.serial = n.vhost.serial := by
  have hclear : ∀ b ∈ n.firewall :: branchBricks n, ∀ entry ∈ t.wiring.poll,
      entry.1 ≠ b ∧ entry.2 ≠ b := by
    intro b hb entry hentry
    obtain ⟨hvhost, hfw⟩ := hpoll entry hentry
    constructor
    · rintro rfl
      exact hvhost (hbricks _ hb)
    · rintro rfl
      exact hfw (hbricks _ hb)
  obtain ⟨hkilled, hwiring⟩ := h.kill hfirewall (hclear _ List.mem_cons_self)
  obtain ⟨hfenced, hsame⟩ := hkilled.fence
  have hpollSame : t.wiring.poll = (Server.emits [.push .nothing, .wait]
      (t.emits [.push (.brickDestroy n.firewall)])).wiring.poll := by
    rw [hsame, hwiring]
    rfl
  obtain ⟨hdone, hdonePoll, hdead⟩ := hfenced.directs
    ((branchBricks n).map .destroy) fun d hd b hb => by
      obtain ⟨b', hb', rfl⟩ := List.mem_map.mp hd
      cases hb
      rw [← hpollSame]
      exact hclear _ (List.mem_cons_of_mem _ hb')
  simp only [Server.emits_emits, List.map_map] at hdone hdonePoll hdead
  refine ⟨hdone.toAlive, ?_, fun b hb => ?_⟩
  · rw [hpollSame, Server.emits_emits]
    exact hdonePoll
  · rcases hdead b hb with hold | ⟨d, hd, hvictim⟩
    · rw [Server.emits_emits] at hsame
      rw [hsame, hwiring] at hold
      rcases List.mem_cons.mp hold with rfl | hold
      · exact .inr (hbricks _ List.mem_cons_self)
      · exact .inl hold
    · obtain ⟨b', hb', rfl⟩ := List.mem_map.mp hd
      cases hvictim
      exact .inr (hbricks _ (List.mem_cons_of_mem _ hb'))

theorem mem_pollWithout {nic : Nic} {s : Server} {entry : Brick × Brick}
    (h : entry ∈ pollWithout nic s) : ∃ v id gn, ¬(nic.vni = v ∧ nic.id = id) ∧
      s.branch v id = some gn ∧ entry = (gn.vhost, gn.firewall) := by
  obtain ⟨v, id, gn, hgn, henable, rfl⟩ := mem_pollables h
  rw [Server.branch_updateNic] at hgn
  split at hgn
  · obtain ⟨gn', -, rfl⟩ := Option.map_eq_some_iff.mp hgn
    simp [disable] at henable
  · next hne => exact ⟨v, id, gn, hne, hgn, rfl⟩

theorem DelEffect.serial?_back {nic : Nic} {s s' : Server} (h : DelEffect nic s s')
    {x : Part} {m : Nat} (hx : s'.serial? x = some m) :
    s.serial? x = some m ∧ x ≠ .nic nic.vni nic.id := by
  cases x with
  | nic v id =>
      obtain ⟨gn, hgn, rfl⟩ := Option.map_eq_some_iff.mp hx
      rw [h.branch] at hgn
      split at hgn
      · cases hgn
      · next hne =>
          refine ⟨by simp [Server.serial?, hgn], ?_⟩
          rintro ⟨⟩
          exact hne ⟨rfl, rfl⟩
  | switch v =>
      obtain ⟨sw, hsw, rfl⟩ := Option.map_eq_some_iff.mp hx
      obtain ⟨vni', hvni', hsw⟩ := Option.bind_eq_some_iff.mp hsw
      obtain ⟨vni, hvni, -, hsame | hnone, -⟩ := h.entries hvni'
      · exact ⟨serial?_switch hvni (by rw [← hsame, hsw]), by simp⟩
      · rw [hnone] at hsw
        cases hsw

/-- The new list of the poller has nothing of the branch that goes. -/
theorem Wired.pollWithout_apart {nic : Nic} {s : Server} (h : Wired s) {n : GraphNic}
    (hn : s.branch nic.vni nic.id = some n) :
    ∀ entry ∈ pollWithout nic s, entry.1.serial ≠ n.vhost.serial ∧
      entry.2.serial ≠ n.vhost.serial := by
  intro entry hentry
  obtain ⟨v, id, gn, hne, hgn, rfl⟩ := mem_pollWithout hentry
  have hserial : s.serial? (.nic nic.vni nic.id) = some n.vhost.serial := by
    simp [Server.serial?, hn]
  have hgnSerial : s.serial? (.nic v id) = some gn.vhost.serial := by
    simp [Server.serial?, hgn]
  have hfirewall := ((h.pristine hgn).bricks gn.firewall (by simp)).2
  have hvhost : gn.vhost.serial ≠ n.vhost.serial := by
    intro heq
    rw [heq] at hgnSerial
    have hsame := h.apart hgnSerial hserial
    cases hsame
    exact hne ⟨rfl, rfl⟩
  exact ⟨hvhost, by rw [hfirewall]; exact hvhost⟩

theorem Living.without {nic : Nic} {s s' : Server} (h : Living s) (hw : Wired s)
    (heffect : DelEffect nic s s') {n : GraphNic}
    (hn : s.branch nic.vni nic.id = some n) {t : Server} (spare : List Brick)
    (halive : Alive t) (hpoll : t.wiring.poll = pollWithout nic s)
    (hdead : ∀ b ∈ t.wiring.dead, b ∈ s.wiring.dead ∨ b ∈ spare)
    (hspare : ∀ b ∈ spare, b.kind = .switch ∧ s.serial? (.switch nic.vni) = some b.serial ∧
      s'.serial? (.switch nic.vni) = none)
    (hs' : s'.wiring = (t.emits (retireOps n)).wiring)
    (hops : Alive (t.emits (retireOps n)) → Alive s') : Living s' := by
  have hserial : s.serial? (.nic nic.vni nic.id) = some n.vhost.serial := by
    simp [Server.serial?, hn]
  have hbricks : ∀ b ∈ n.firewall :: branchBricks n, b.serial = n.vhost.serial :=
    fun b hb => ((hw.pristine hn).bricks b (List.mem_cons_of_mem _ hb)).2
  have hfirewall : n.firewall ∉ t.wiring.dead := by
    intro hmem
    rcases hdead _ hmem with hold | hsw
    · exact (h.branch hw hn).2 hold
    · have hkind := ((hw.pristine hn).bricks n.firewall (by simp)).1
      rw [(hspare _ hsw).1] at hkind
      cases hkind
  obtain ⟨hdone, hdonePoll, hdoneDead⟩ := halive.retire hfirewall hbricks
    (by rw [hpoll]; exact hw.pollWithout_apart hn)
  refine ⟨hops hdone, fun b hb => ?_, fun entry hentry => ?_⟩
  · rw [hs'] at hb
    rw [heffect.serial]
    rcases hdoneDead b hb with hb | hb
    · rcases hdead b hb with hold | hsw
      · obtain ⟨hpos, hlt, hnobody⟩ := h.dead b hold
        exact ⟨hpos, hlt, fun x hx => hnobody x (heffect.serial?_back hx).1⟩
      · obtain ⟨-, hswitch, hgone⟩ := hspare b hsw
        obtain ⟨hpos, hlt⟩ := hw.bounded hswitch
        refine ⟨hpos, hlt, fun x hx => ?_⟩
        rw [hw.apart (heffect.serial?_back hx).1 hswitch, hgone] at hx
        cases hx
    · obtain ⟨hpos, hlt⟩ := hw.bounded hserial
      rw [hb]
      refine ⟨hpos, hlt, fun x hx => ?_⟩
      obtain ⟨hback, hne⟩ := heffect.serial?_back hx
      exact hne (hw.apart hback hserial)
  · rw [hs', hdonePoll, hpoll] at hentry
    obtain ⟨v, id, gn, hne, hgn, rfl⟩ := mem_pollWithout hentry
    refine ⟨v, id, gn, ?_, rfl⟩
    rw [heffect.branch, if_neg hne]
    exact hgn

theorem Living.pollWithout_gentle {s : Server} (h : Living s) (nic : Nic) (hw : Wired s) :
    Gentle s.wiring.dead (.push (.updatePoll (pollWithout nic s))) := by
  refine gentle_updatePoll fun entry hentry => ?_
  obtain ⟨v, id, gn, -, hgn, rfl⟩ := mem_pollWithout hentry
  exact h.branch hw hgn

section Deleted

variable {nic : Nic} {s : Server} {vni : GraphVni} {n : GraphNic}

/-- A branch leaves that the switch, if there is one, outlives. -/
theorem Living.left {t : Server} (h : Living s) (hw : Wired s)
    (hn : s.branch nic.vni nic.id = some n) (hstart : Alive t)
    (ht : t.wiring = s.wiring) (heffect : DelEffect nic s (t.emits (leaveOps nic n s))) :
    Living (t.emits (leaveOps nic n s)) := by
  have hhead : n.head ∉ t.wiring.dead := by
    rw [ht]
    exact h.head hw hn
  obtain ⟨halive, hdead⟩ := hstart.gentle
    [.push (.updatePoll (pollWithout nic s)), .push (.unlink n.head)]
    (List.forall_mem_cons.mpr ⟨by rw [ht]; exact h.pollWithout_gentle nic hw, by
      simpa [Gentle, Rpc.refs] using hhead⟩)
  refine h.without hw heffect hn [] halive (by rw [Server.wiring_emits]; rfl)
    (fun b hb => .inl ?_) (by simp) ?_ fun hdone => ?_
  · rw [hdead, ht] at hb
    exact hb
  · rw [Server.emits_emits]
    rfl
  · rw [Server.emits_emits] at hdone
    exact hdone

/-- The poller does not poll a switch. -/
theorem Wired.pollWithout_switch (h : Wired s) {sw : Brick} (hkind : sw.kind = .switch) :
    ∀ entry ∈ pollWithout nic s, entry.1 ≠ sw ∧ entry.2 ≠ sw := by
  intro entry hentry
  obtain ⟨v, id, gn, -, hgn, rfl⟩ := mem_pollWithout hentry
  obtain ⟨m, -, hfirewall, -, hvhost⟩ := h.ok.bricks hgn
  rw [hfirewall, hvhost]
  constructor
  · rintro rfl
    cases hkind
  · rintro rfl
    cases hkind

theorem Living.unswitchOps_gentle (h : Living s) (hw : Wired s) {other : GraphNic}
    {k : String} {sw : Brick} (hvni : s.vnis[nic.vni]? = some vni)
    (hother : vni.nics[k]? = some other) (hsw : vni.sw = some sw) :
    ∀ op ∈ unswitchOps nic other sw s, Gentle s.wiring.dead op := by
  have hhead := h.head hw (Server.branch_eq_some.mpr ⟨vni, hvni, hother⟩)
  refine List.forall_mem_cons.mpr ⟨h.pollWithout_gentle nic hw, ?_⟩
  simp only [Gentle, Rpc.refs, List.forall_mem_cons, List.not_mem_nil, false_implies,
    implies_true, and_true, ne_eq, reduceCtorEq, not_false_eq_true, true_and]
  exact ⟨h.part (serial?_switch hvni hsw), ⟨h.vtep, hhead⟩, h.vtep, hhead⟩

theorem Living.deletedOfTwo (h : Living s) (hw : Wired s) {other : GraphNic} {sw : Brick}
    (hvni : s.vnis[nic.vni]? = some vni) (hn : vni.nics[nic.id]? = some n)
    (hsize : vni.nics.size = 2) (hother : otherBranch vni nic.id = some other)
    (hsw : vni.sw = some sw) (heffect : DelEffect nic s (Graph.unswitched nic n other sw s)) :
    Living (Graph.unswitched nic n other sw s) := by
  obtain ⟨k, -, hlookup, -⟩ := otherBranch_spec hw.ok hvni hn hsize hother
  have hkind := (hw.switches hvni hsw).1
  have hstart : Alive (s.updateVni nic.vni fun vni =>
      withoutBranch nic.id (withSwitch none vni)) := ⟨h.checked, h.inv⟩
  obtain ⟨halive, hdead⟩ := hstart.gentle (unswitchOps nic other sw s)
    (h.unswitchOps_gentle hw hvni hlookup hsw)
  obtain ⟨hfenced, hsame⟩ := halive.fence
  have hpoll : (Server.emits [.push .nothing, .wait] (Server.emits (unswitchOps nic other sw s)
      (s.updateVni nic.vni fun vni =>
        withoutBranch nic.id (withSwitch none vni)))).wiring.poll = pollWithout nic s := by
    rw [hsame, Server.wiring_emits]
    rfl
  obtain ⟨hdone, hdonePoll, hdoneDead⟩ := hfenced.directs [.destroy sw] fun d hd b hb => by
    rw [List.mem_singleton.mp hd] at hb
    cases hb
    rw [hpoll]
    exact hw.pollWithout_switch hkind
  have hvnis := lookup_updateVni
    (fun vni => withoutBranch nic.id (withSwitch none vni)) hvni
  refine h.without hw heffect (Server.branch_eq_some.mpr ⟨vni, hvni, hn⟩) [sw] hdone.toAlive
    (hdonePoll.trans hpoll) (fun b hb => ?_) ?_ ?_ fun hdone => ?_
  · rcases hdoneDead b hb with hold | ⟨d, hd, hvictim⟩
    · left
      rw [hsame, hdead] at hold
      exact hold
    · right
      rw [List.mem_singleton.mp hd] at hvictim
      cases hvictim
      exact List.mem_singleton_self _
  · intro b hb
    obtain rfl := List.mem_singleton.mp hb
    refine ⟨hkind, serial?_switch hvni hsw, ?_⟩
    simp only [Graph.unswitched, Server.serial?, Server.emits_vnis, hvnis, if_true]
    rfl
  · simp only [Server.emits_emits]
    rfl
  · simp only [Server.emits_emits] at hdone
    exact hdone

theorem Living.deleted {s' : Server} (h : Living s) (hw : Wired s)
    (hdel : NicDeleted nic s s') : Living s' := by
  have heffect := hdel.effect
  cases hdel with
  | absent => exact h
  | @last vni n hvni hn hsize =>
      rw [hw.no_switch hvni hsize, Option.toList_none, destroyOps_nil,
        List.append_nil] at heffect ⊢
      have hstart : Alive (s.eraseVni nic.vni) := ⟨h.checked, h.inv⟩
      exact h.left hw (Server.branch_eq_some.mpr ⟨vni, hvni, hn⟩) hstart rfl heffect
  | ofTwo hvni hn hsize hother hsw => exact h.deletedOfTwo hw hvni hn hsize hother hsw heffect
  | @ofMany vni n hvni hn hsize =>
      have hstart : Alive (s.updateVni nic.vni (withoutBranch nic.id)) := ⟨h.checked, h.inv⟩
      exact h.left hw (Server.branch_eq_some.mpr ⟨vni, hvni, hn⟩) hstart rfl heffect

end Deleted

/-! ## Every interleaving -/

theorem living_start (config : AppConfig) (pid : Nat) (startDate : UInt64) :
    Living (Server.start config pid startDate) := by
  have hdead : (Server.start config pid startDate).wiring.dead = [] := by
    cases htrace : config.packetTrace <;>
      simp [Server.wiring, Server.start, Server.startGraph, htrace, Machine.syncOp,
        BrickGraph.machine, BrickGraph.exec]
  have hpoll : (Server.start config pid startDate).wiring.poll = [] := by
    cases htrace : config.packetTrace <;>
      simp [Server.wiring, Server.start, Server.startGraph, htrace, Machine.syncOp,
        BrickGraph.machine, BrickGraph.exec]
  have hpollStart : (Server.start config pid startDate).startGraph.graph.poll = [] := by
    cases htrace : config.packetTrace <;> simp [Server.start, Server.startGraph, htrace]
  refine ⟨⟨⟨?_, ?_, trivial⟩, ?_⟩, ?_, ?_⟩
  · intro b hb
    cases hb
  · intro entry hentry
    change entry ∈ (Server.start config pid startDate).startGraph.graph.poll at hentry
    rw [hpollStart] at hentry
    cases hentry
  · intro entry hentry
    rw [hpoll] at hentry
    cases hentry
  · intro b hb
    rw [hdead] at hb
    cases hb
  · intro entry hentry
    rw [hpoll] at hentry
    cases hentry

theorem living_of_graphRun {P : Platform} {live : Set (UInt32 × String)} {s : Server}
    (h : GraphRun P live s) : Living s := by
  induction h with
  | start config pid startDate => exact living_start config pid startDate
  | model f _ ih => exact ⟨⟨ih.checked, ih.inv⟩, ih.dead, ih.poll⟩
  | add hrun hnew hadd ih =>
      have hlives := lives_of_graphRun hrun
      exact ih.added hlives.wired (hlives.new hnew)
        (graphRun_add hlives.wired.ok.started hadd)
  | del hrun hdel ih =>
      have hwired := (lives_of_graphRun hrun).wired
      exact ih.deleted hwired (nicDel_cases hwired.ok.started hwired.ok.keyed hdel)

/--
Whatever the interleaving, the poller polls and its commands touch bricks that
have not been destroyed.
-/
theorem used_bricks_alive {P : Platform} {live : Set (UInt32 × String)} {s : Server}
    (h : GraphRun P live s) {c : Config Packetgraph Rpc Direct}
    (hc : Packetgraph.machine.Reachable (Machine.start s.ops s.startGraph) c) :
    (∀ entry ∈ c.state.graph.poll,
      entry.1 ∉ c.state.graph.dead ∧ entry.2 ∉ c.state.graph.dead) ∧
    ∀ command ∈ c.pending, ∀ b ∈ command.refs, b ∉ c.state.graph.dead := by
  have hliving := living_of_graphRun h
  have hstart : lifetime.inv s.startGraph.graph := by
    intro entry hentry
    unfold Server.startGraph at hentry
    split at hentry <;> cases hentry
  have hgraph := reachable_graph hc
  exact ⟨lifetime.inv_of_reachable hstart hliving.checked hgraph,
    lifetime.pre_of_reachable hstart hliving.checked hgraph⟩

theorem used_bricks_alive_three_nics :
    ∃ live s, GraphRun Libc.platform live s ∧ s.settled.graph.poll.length = 2 ∧
      s.settled.graph.dead.length = 4 ∧
      ∀ entry ∈ s.settled.graph.poll,
        entry.1 ∉ s.settled.graph.dead ∧ entry.2 ∉ s.settled.graph.dead := by
  have hrun : ∃ s₁ s₂, addAll Libc.platform threeNics (Server.start {} 1 0) = some s₁ ∧
      Graph.nicDel { id := "a", vni := 42 } s₁ = some s₂ ∧
      s₂.settled.graph.poll.length = 2 ∧ s₂.settled.graph.dead.length = 4 := by
    refine ⟨(addAll Libc.platform threeNics (Server.start {} 1 0)).get ?_,
      (Graph.nicDel { id := "a", vni := 42 }
        ((addAll Libc.platform threeNics (Server.start {} 1 0)).get ?_)).get ?_,
      ?_, ?_, ?_, ?_⟩
    · decide +kernel
    · decide +kernel
    · decide +kernel
    · simp
    · simp
    · decide +kernel
    · decide +kernel
  obtain ⟨s₁, s₂, hs₁, hs₂, hpoll, hdead⟩ := hrun
  obtain ⟨live, hlive⟩ := (GraphRun.start {} 1 0).addAll (by decide) (by simp [Afresh]) hs₁
  have hdel := hlive.del hs₂
  have hsync := Packetgraph.machine.reachable_sync s₂.ops [] s₂.startGraph
  rw [List.append_nil] at hsync
  exact ⟨_, s₂, hdel, hpoll, hdead, (used_bricks_alive hdel hsync).1⟩

def sameNicTwice : List Nic :=
  [{ id := "a", vni := 42, bypassFiltering := true },
    { id := "a", vni := 42, bypassFiltering := true }]

/-- The second branch goes with the local `gn`, and the queue still names its head. -/
theorem added_again_dies :
    ¬∀ nics s c, addAll Libc.platform nics (Server.start {} 1 0) = some s →
      Packetgraph.machine.Reachable (Machine.start s.ops s.startGraph) c →
        (∀ entry ∈ c.state.graph.poll,
          entry.1 ∉ c.state.graph.dead ∧ entry.2 ∉ c.state.graph.dead) ∧
        ∀ command ∈ c.pending, ∀ b ∈ command.refs, b ∉ c.state.graph.dead := by
  intro hall
  have hrun : (addAll Libc.platform sameNicTwice (Server.start {} 1 0)).any (fun s =>
      let ahead := Packetgraph.machine.ahead (s.ops.drop 11) []
        (Packetgraph.machine.sync (s.ops.take 11) s.startGraph)
      decide (.wait ∉ s.ops.drop 11) && ahead.1.any fun command =>
        command.refs.any fun b => decide (b ∈ ahead.2.graph.dead)) = true := by
    decide +kernel
  obtain ⟨s, hs, hany⟩ := (Option.any_eq_true _ _).mp hrun
  simp only [Bool.and_eq_true, decide_eq_true_eq, List.any_eq_true] at hany
  obtain ⟨hwait, command, hcommand, b, hb, hdead⟩ := hany
  have hsync := Packetgraph.machine.reachable_sync (s.ops.take 11) (s.ops.drop 11) s.startGraph
  rw [List.take_append_drop] at hsync
  have hahead := Packetgraph.machine.reachable_ahead (s.ops.drop 11) [] []
    (Packetgraph.machine.sync (s.ops.take 11) s.startGraph) hwait
  rw [List.append_nil] at hahead
  exact (hall sameNicTwice s _ hs (hsync.trans hahead)).2 command hcommand b hb hdead

end Butterfly
