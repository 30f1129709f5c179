import Butterfly.Attachment
import Butterfly.Libc

/-!
# How NICs are taken off the vtep

The counterpart of `Attachment` for `NicDel`, and runs of both.
-/

namespace Butterfly

open Std Foundation Butterfly.Graph

/-! ## Deleting a NIC -/

section Deleted

variable {nic : Nic} {s : Server} {vni : GraphVni} {n : GraphNic}

theorem Wired.avoids (h : Wired s) (hvni : s.vnis[nic.vni]? = some vni)
    (hn : vni.nics[nic.id]? = some n) {e : Edge} (he : CanonicalEdge s e)
    {bricks : List Brick} (hhead : n.head ∈ bricks)
    (hbricks : ∀ b ∈ bricks, b.serial = n.vhost.serial) :
    (∀ b ∈ bricks, e.avoids b = true) ↔ e.east.serial ≠ n.vhost.serial := by
  have hserial := serial?_nic hvni hn
  have hpristine := h.pristine (Server.branch_eq_some.mpr ⟨vni, hvni, hn⟩)
  obtain ⟨v, vni', hvni', hedge⟩ := he
  obtain ⟨hwest, x, -, hx⟩ := h.ends hvni' hedge
  constructor
  · intro hall heq
    rw [heq] at hx
    obtain rfl := h.apart hx hserial
    have heast : e.east = n.head := by
      have hpart : ∀ {id : String} {gn}, vni'.nics[id]? = some gn →
          e.east = gn.head → e.east = n.head := by
        intro id gn hgn hhead
        have hgnSerial := serial?_nic hvni' hgn
        have hgnPristine := h.pristine (Server.branch_eq_some.mpr ⟨vni', hvni', hgn⟩)
        rw [← hgnPristine.head.2, ← hhead, heq] at hgnSerial
        have hsame := h.apart hgnSerial hserial
        cases hsame
        rw [hvni] at hvni'
        cases hvni'
        rw [hn] at hgn
        cases hgn
        exact hhead
      cases hedge with
      | single _ hgn => exact hpart hgn rfl
      | uplink _ hsw =>
          have hswitch := serial?_switch hvni' hsw
          rw [show _ = n.vhost.serial from heq] at hswitch
          exact absurd (h.apart hswitch hserial) (by simp)
      | port _ _ hgn => exact hpart hgn rfl
    have havoids := hall _ hhead
    simp [Edge.avoids, heast] at havoids
  · intro hne b hb
    have hbSerial := hbricks b hb
    have heast : e.east ≠ b := by
      rintro rfl
      exact hne hbSerial
    have hw : e.west ≠ b := by
      rintro rfl
      rcases hwest with hwest | hwest
      · rw [hwest] at hbSerial
        have hpos := (h.bounded hserial).1
        rw [← hbSerial] at hpos
        exact absurd hpos (by decide)
      · rw [hbSerial] at hwest
        exact absurd (h.apart hwest hserial) (by simp)
    simp [Edge.avoids, hw, heast]

theorem Wired.without (h : Wired s) (hvni : s.vnis[nic.vni]? = some vni)
    (hn : vni.nics[nic.id]? = some n) (e : Edge) :
    CanonicalEdge s e ∧ e.east.serial ≠ n.vhost.serial ↔
      (EntryEdge nic.vni vni e ∧ e.east.serial ≠ n.vhost.serial) ∨
        OtherEdge nic.vni s e := by
  have hserial := serial?_nic hvni hn
  rw [canonical_split s nic.vni, hvni]
  simp only [Option.some.injEq, exists_eq_left']
  constructor
  · rintro ⟨hedge | hother, hne⟩
    · exact .inl ⟨hedge, hne⟩
    · exact .inr hother
  · rintro (⟨hedge, hne⟩ | hother)
    · exact ⟨.inl hedge, hne⟩
    · exact ⟨.inr hother, (h.other hserial hother).2⟩

theorem Wired.detach {s' : Server} (h : Wired s) (entry : Option GraphVni)
    (hvni : s.vnis[nic.vni]? = some vni) (hok : GraphOk s') (hpaced : Paced s')
    (hvnis : ∀ a : UInt32, s'.vnis[a]? = if nic.vni = a then entry else s.vnis[a]?)
    (hnext : s'.nextSerial = s.nextSerial)
    (hentry : ∀ {vni'}, entry = some vni' → vni'.nics = vni.nics.erase nic.id ∧
      vni'.nics.size ≠ 0 ∧ ∀ {sw}, vni'.sw = some sw →
        vni.sw = some sw ∧ 2 ≤ vni'.nics.size)
    (hnodup : s'.wiring.attachments.Nodup)
    (hedges : ∀ e, e ∈ s'.wiring.attachments ↔
      (∃ vni', entry = some vni' ∧ EntryEdge nic.vni vni' e) ∨
        OtherEdge nic.vni s e) : Wired s' := by
  have hlookup : ∀ {vni'} {id : String} {gn}, entry = some vni' →
      vni'.nics[id]? = some gn → vni.nics[id]? = some gn := by
    intro vni' id gn hsome hgn
    rw [(hentry hsome).1, lookup_erase] at hgn
    split at hgn
    · cases hgn
    · exact hgn
  refine h.assemble (fun _ => .switch nic.vni) hok hpaced hvnis (Nat.le_of_eq hnext.symm)
    ?_ ?_ (fun hsome => (hentry hsome).2.1) ?_ hnodup hedges
  · intro vni' id gn hsome hgn
    exact h.pristine (Server.branch_eq_some.mpr ⟨vni, hvni, hlookup hsome hgn⟩)
  · intro vni' sw hsome hsw
    obtain ⟨hold, htwo⟩ := (hentry hsome).2.2 hsw
    exact ⟨(h.switches hvni hold).1, htwo⟩
  · intro x k hx hserial
    left
    cases x with
    | nic a id =>
        obtain rfl : a = nic.vni := hx
        simp only [Server.serial?, Server.branch, hvnis, if_true] at hserial
        obtain ⟨gn, hgn, rfl⟩ := Option.map_eq_some_iff.mp hserial
        obtain ⟨vni', hsome, hgn⟩ := Option.bind_eq_some_iff.mp hgn
        exact serial?_nic hvni (hlookup hsome hgn)
    | switch a =>
        obtain rfl : a = nic.vni := hx
        simp only [Server.serial?, hvnis, if_true] at hserial
        obtain ⟨sw, hsw, rfl⟩ := Option.map_eq_some_iff.mp hserial
        obtain ⟨vni', hsome, hsw⟩ := Option.bind_eq_some_iff.mp hsw
        exact serial?_switch hvni ((hentry hsome).2.2 hsw).1

theorem attachments_retired (n : GraphNic) (g : BrickGraph) :
    (BrickGraph.machine.sync (retireOps n) g).attachments =
      g.attachments.filter fun e => (n.firewall :: branchBricks n).all fun b => e.avoids b := by
  rw [retireOps, Machine.sync_append, attachments_destroyOps]
  change List.filter _ (g.destroy n.firewall).attachments = _
  rw [BrickGraph.attachments_destroy, List.filter_filter]
  congr 1
  funext e
  simp [Bool.and_comm]

theorem Paced.retired {s' : Server} (hs : Paced s') (n : GraphNic) :
    Paced (s'.emits (retireOps n)) := by
  have hfence := hs.fence [.push (.brickDestroy n.firewall)] (by simp)
  have hdone := hfence.directs ((branchBricks n).map .destroy)
  rw [Server.emits_emits, List.map_map] at hdone
  exact hdone.paced

theorem Wired.unlinked (h : Wired s) (hvni : s.vnis[nic.vni]? = some vni)
    (hn : vni.nics[nic.id]? = some n) (s' : Server) (hs' : s'.wiring = s.wiring)
    (hpaced : Paced s') :
    let t := s'.emits (leaveOps nic n s)
    Paced t ∧ t.wiring.attachments.Nodup ∧
      ∀ e, e ∈ t.wiring.attachments ↔
        (EntryEdge nic.vni vni e ∧ e.east.serial ≠ n.vhost.serial) ∨
          OtherEdge nic.vni s e := by
  have hpristine := h.pristine (Server.branch_eq_some.mpr ⟨vni, hvni, hn⟩)
  have hedges : (s'.emits (leaveOps nic n s)).wiring.attachments =
      s.wiring.attachments.filter fun e =>
        (n.head :: n.firewall :: branchBricks n).all fun b => e.avoids b := by
    rw [leaveOps, Server.wiring_emits, hs', Machine.sync_cons, Machine.sync_cons,
      attachments_retired]
    change List.filter _ (BrickGraph.unlink n.head _).attachments = _
    rw [BrickGraph.attachments_unlink, List.filter_filter]
    change List.filter _ s.wiring.attachments = _
    congr 1
    funext e
    simp [Bool.and_comm]
  refine ⟨?_, ?_, ?_⟩
  · have hpushes := hpaced.emits
      [.push (.updatePoll (pollWithout nic s)), .push (.unlink n.head)] (by simp)
    have hdone := hpushes.retired n
    rw [Server.emits_emits] at hdone
    exact hdone
  · rw [hedges]
    exact h.nodup.filter _
  · intro e
    rw [hedges, List.mem_filter, h.edges, List.all_eq_true, ← h.without hvni hn]
    refine and_congr_right fun he => ?_
    exact h.avoids hvni hn he List.mem_cons_self
      fun b hb => (hpristine.bricks b hb).2

theorem otherBranch_spec (hok : GraphOk s) (hvni : s.vnis[nic.vni]? = some vni)
    (hn : vni.nics[nic.id]? = some n) (hsize : vni.nics.size = 2) {other : GraphNic}
    (hother : otherBranch vni nic.id = some other) :
    ∃ k, nic.id ≠ k ∧ vni.nics[k]? = some other ∧
      ∀ {id : String} {gn}, vni.nics[id]? = some gn →
        id = nic.id ∨ (id = k ∧ gn = other) := by
  have hids : ∀ {id : String} {gn}, vni.nics[id]? = some gn → gn.id = id :=
    fun hgn => hok.ids (Server.branch_eq_some.mpr ⟨vni, hvni, hgn⟩)
  obtain ⟨k, gn, k', gn', hvalues, hne, hboth⟩ := exists_of_size_two hsize
  have hgn := (hboth k gn).mpr (.inl ⟨rfl, rfl⟩)
  have hgn' := (hboth k' gn').mpr (.inr ⟨rfl, rfl⟩)
  simp only [otherBranch, hvalues, hids hgn] at hother
  split at hother
  · next hk =>
      cases hother
      refine ⟨k', by rw [← hk]; exact hne, hgn', fun hlookup => ?_⟩
      rcases (hboth _ _).mp hlookup with ⟨rfl, -⟩ | hsame
      · exact .inl hk
      · exact .inr hsame
  · next hk =>
      cases hother
      refine ⟨k, Ne.symm hk, hgn, fun hlookup => ?_⟩
      rcases (hboth _ _).mp hlookup with hsame | ⟨rfl, -⟩
      · exact .inr hsame
      · rcases (hboth _ _).mp hn with ⟨heq, -⟩ | ⟨heq, -⟩
        · exact absurd heq.symm hk
        · exact .inl heq.symm

/-- Without its switch a VNI has no edge left. -/
theorem Wired.mem_filter_switch (h : Wired s) {v : UInt32} (hvni : s.vnis[v]? = some vni)
    {sw : Brick} (hsw : vni.sw = some sw) (e : Edge) :
    e ∈ s.wiring.attachments.filter (Edge.avoids sw) ↔ OtherEdge v s e := by
  have htwo := (h.switches hvni hsw).2
  rw [List.mem_filter, h.edges, canonical_split s v, hvni]
  simp only [Option.some.injEq, exists_eq_left']
  constructor
  · rintro ⟨hedge | hedge, havoids⟩
    · cases hedge with
      | single hone => omega
      | uplink _ hsw' =>
          rw [hsw] at hsw'
          cases hsw'
          simp [Edge.avoids] at havoids
      | port _ hsw' =>
          rw [hsw] at hsw'
          cases hsw'
          simp [Edge.avoids] at havoids
    · exact hedge
  · intro hedge
    obtain ⟨hwest, heast⟩ := h.other (serial?_switch hvni hsw) hedge
    refine ⟨.inr hedge, ?_⟩
    simp only [Edge.avoids, Bool.and_eq_true, decide_eq_true_eq]
    exact ⟨fun heq => hwest (by rw [heq]), fun heq => heast (by rw [heq])⟩

theorem Wired.unswitchedEdges (h : Wired s) {k : String} {other : GraphNic} {sw : Brick}
    (hvni : s.vnis[nic.vni]? = some vni) (hother : vni.nics[k]? = some other)
    (hsw : vni.sw = some sw) :
    (BrickGraph.machine.sync (unswitchOps nic other sw s) s.wiring).attachments =
      s.wiring.attachments.filter (Edge.avoids sw) ++ [⟨vtepBrick, other.head, [nic.vni]⟩] := by
  have hpristine := h.pristine (Server.branch_eq_some.mpr ⟨vni, hvni, hother⟩)
  have hunlink : (BrickGraph.unlink sw { s.wiring with
      poll := pollWithout nic s }).attachments =
        s.wiring.attachments.filter (Edge.avoids sw) :=
    BrickGraph.attachments_unlink _ sw
  change (((BrickGraph.unlink sw { s.wiring with poll := pollWithout nic s }).link vtepBrick
    other.head).addVni vtepBrick other.head nic.vni).attachments = _
  rw [BrickGraph.attachments_link_addVni, hunlink]
  intro e he hends
  rw [hunlink, h.mem_filter_switch hvni hsw] at he
  refine (h.other (serial?_nic hvni hother) he).2 ?_
  rw [hends.2, hpristine.head.2]

/-- An edge that has nothing of the branch and nothing of the switch stays. -/
theorem Wired.spares (h : Wired s) (hn : s.branch nic.vni nic.id = some n) {sw : Brick}
    {e : Edge} (hwsw : e.west ≠ sw) (hesw : e.east ≠ sw)
    (hwest : e.west.serial ≠ n.vhost.serial) (heast : e.east.serial ≠ n.vhost.serial) :
    ((sw :: n.firewall :: branchBricks n).all fun b => e.avoids b) = true := by
  rw [List.all_eq_true]
  intro b hb
  rcases List.mem_cons.mp hb with rfl | hb
  · simp [Edge.avoids, hwsw, hesw]
  · have hserial := ((h.pristine hn).bricks b (List.mem_cons_of_mem _ hb)).2
    simp only [Edge.avoids, Bool.and_eq_true, decide_eq_true_eq]
    constructor
    · rintro rfl
      exact hwest hserial
    · rintro rfl
      exact heast hserial

theorem Wired.other_head (h : Wired s) (hvni : s.vnis[nic.vni]? = some vni)
    (hn : vni.nics[nic.id]? = some n) {k : String} {other : GraphNic} {sw : Brick}
    (hk : nic.id ≠ k) (hother : vni.nics[k]? = some other) (hsw : vni.sw = some sw) :
    other.head.serial ≠ n.vhost.serial ∧ other.head ≠ sw := by
  have hserial := serial?_nic hvni hother
  rw [← (h.pristine (Server.branch_eq_some.mpr ⟨vni, hvni, hother⟩)).head.2] at hserial
  constructor
  · intro heq
    rw [heq] at hserial
    have hsame := h.apart hserial (serial?_nic hvni hn)
    simp only [Part.nic.injEq, true_and] at hsame
    exact hk hsame.symm
  · rintro rfl
    exact absurd (h.apart hserial (serial?_switch hvni hsw)) (by simp)

theorem Wired.unswitched (h : Wired s) (hvni : s.vnis[nic.vni]? = some vni)
    (hn : vni.nics[nic.id]? = some n) {k : String} {other : GraphNic} {sw : Brick}
    (hk : nic.id ≠ k) (hother : vni.nics[k]? = some other) (hsw : vni.sw = some sw) :
    let t := Graph.unswitched nic n other sw s
    Paced t ∧ t.wiring.attachments.Nodup ∧
      ∀ e, e ∈ t.wiring.attachments ↔
        e = ⟨vtepBrick, other.head, [nic.vni]⟩ ∨ OtherEdge nic.vni s e := by
  have hbranch := Server.branch_eq_some.mpr ⟨vni, hvni, hn⟩
  have hswSerial := serial?_switch hvni hsw
  have hrest := h.mem_filter_switch hvni hsw
  have hedges : (Graph.unswitched nic n other sw s).wiring.attachments =
      (s.wiring.attachments.filter (Edge.avoids sw) ++
        [(⟨vtepBrick, other.head, [nic.vni]⟩ : Edge)]).filter fun e =>
          (sw :: n.firewall :: branchBricks n).all fun b => e.avoids b := by
    rw [Graph.unswitched, Server.wiring_emits, Machine.sync_append, attachments_retired,
      ← h.unswitchedEdges hvni hother hsw, Machine.sync_append]
    change List.filter _ (BrickGraph.destroy sw (BrickGraph.machine.sync
      (unswitchOps nic other sw s) s.wiring)).attachments = _
    rw [BrickGraph.attachments_destroy, List.filter_filter]
    congr 1
    funext e
    simp [Bool.and_comm]
  intro t
  refine ⟨?_, ?_, ?_⟩
  · have hstart : Paced (s.updateVni nic.vni fun vni =>
        withoutBranch nic.id (withSwitch none vni)) := h.paced
    have hfence := hstart.fence (unswitchOps nic other sw s) (by simp [unswitchOps])
    have hswitch := hfence.directs [.destroy sw]
    have hdone := hswitch.paced.retired n
    rw [Server.emits_emits, Server.emits_emits] at hdone
    exact hdone
  · rw [hedges]
    refine List.Nodup.filter _ (List.nodup_append.mpr ⟨h.nodup.filter _, by simp, ?_⟩)
    rintro e he _ hlast rfl
    rw [List.mem_singleton.mp hlast, hrest] at he
    refine (h.other (serial?_nic hvni hother) he).2 ?_
    exact (h.pristine (Server.branch_eq_some.mpr ⟨vni, hvni, hother⟩)).head.2
  · intro e
    rw [hedges, List.mem_filter, List.mem_append, hrest, List.mem_singleton, or_comm]
    refine and_iff_left_of_imp ?_
    rintro (rfl | hedge)
    · obtain ⟨hserial, hne⟩ := h.other_head hvni hn hk hother hsw
      have hvtep : vtepBrick ≠ sw := by
        rintro rfl
        exact absurd (h.bounded hswSerial).1 (by decide)
      exact h.spares hbranch hvtep hne
        (Nat.ne_of_lt (h.bounded (serial?_nic hvni hn)).1) hserial
    · obtain ⟨hwsw, hesw⟩ := h.other hswSerial hedge
      obtain ⟨hwest, heast⟩ := h.other (serial?_nic hvni hn) hedge
      exact h.spares hbranch (fun heq => hwsw (by rw [heq])) (fun heq => hesw (by rw [heq]))
        hwest heast

theorem Wired.deletedLast (h : Wired s) (hvni : s.vnis[nic.vni]? = some vni)
    (hn : vni.nics[nic.id]? = some n) (hsize : vni.nics.size = 1)
    (hok : GraphOk ((s.eraseVni nic.vni).emits (leaveOps nic n s))) :
    Wired ((s.eraseVni nic.vni).emits (leaveOps nic n s)) := by
  obtain ⟨hpaced, hnodup, hedges⟩ := h.unlinked hvni hn (s.eraseVni nic.vni) rfl h.paced
  refine h.detach none hvni hok hpaced ?_ rfl (by simp) hnodup ?_
  · intro a
    rw [Server.emits_vnis, Server.eraseVni]
    simp only [lookup_erase]
  · intro e
    rw [hedges]
    simp only [reduceCtorEq, false_and, exists_false]
    refine or_congr_left (iff_false_intro ?_)
    rintro ⟨hedge, hne⟩
    obtain ⟨k, gn, -, honly⟩ := exists_of_size_one hsize
    have hpristine := h.pristine (Server.branch_eq_some.mpr ⟨vni, hvni, hn⟩)
    cases hedge with
    | single _ hgn =>
        rw [((honly _ _).mp hgn).2, ← ((honly _ _).mp hn).2, hpristine.head.2] at hne
        exact hne rfl
    | uplink htwo => omega
    | port htwo => omega

theorem Wired.deletedOfTwo (h : Wired s) {other : GraphNic} {sw : Brick}
    (hvni : s.vnis[nic.vni]? = some vni) (hn : vni.nics[nic.id]? = some n)
    (hsize : vni.nics.size = 2) (hother : otherBranch vni nic.id = some other)
    (hsw : vni.sw = some sw) (hok : GraphOk (Graph.unswitched nic n other sw s)) :
    Wired (Graph.unswitched nic n other sw s) := by
  obtain ⟨k, hk, hlookup, honly⟩ := otherBranch_spec h.ok hvni hn hsize hother
  obtain ⟨hpaced, hnodup, hedges⟩ := h.unswitched hvni hn hk hlookup hsw
  have herase := size_erase_of_lookup hn
  have hone : (withoutBranch nic.id (withSwitch none vni)).nics.size = 1 := by
    simp only [withoutBranch, withSwitch]
    omega
  have hleft : (withoutBranch nic.id (withSwitch none vni)).nics[k]? = some other := by
    simp only [withoutBranch, withSwitch, lookup_erase, if_neg hk]
    exact hlookup
  refine h.detach (some (withoutBranch nic.id (withSwitch none vni))) hvni hok
    hpaced (lookup_updateVni _ hvni) rfl ?_ hnodup ?_
  · rintro _ ⟨⟩
    exact ⟨rfl, by omega, fun hsome => by cases hsome⟩
  · intro e
    rw [hedges]
    simp only [Option.some.injEq, exists_eq_left']
    refine or_congr_left ⟨?_, fun hedge => ?_⟩
    · rintro rfl
      exact .single hone hleft
    · cases hedge with
      | single _ hgn =>
          simp only [withoutBranch, withSwitch, lookup_erase] at hgn
          split at hgn
          · cases hgn
          next hne =>
          rcases honly hgn with heq | ⟨-, rfl⟩
          · exact absurd heq.symm hne
          · rfl
      | uplink htwo => omega
      | port htwo => omega

/-- With two NICs left the edges of the VNI are those of before without the one deleted. -/
theorem Wired.entryEdge_without (h : Wired s) (hvni : s.vnis[nic.vni]? = some vni)
    (hn : vni.nics[nic.id]? = some n) (hsize : 3 ≤ vni.nics.size) (e : Edge) :
    EntryEdge nic.vni vni e ∧ e.east.serial ≠ n.vhost.serial ↔
      EntryEdge nic.vni (withoutBranch nic.id vni) e := by
  have herase := size_erase_of_lookup hn
  have htwo : 2 ≤ (withoutBranch nic.id vni).nics.size := by
    simp only [withoutBranch]
    omega
  have hserial := serial?_nic hvni hn
  constructor
  · rintro ⟨hedge, hne⟩
    cases hedge with
    | single hone => omega
    | uplink _ hsw => exact .uplink htwo hsw
    | @port sw id gn _ hsw hgn =>
        refine @EntryEdge.port _ _ _ id _ htwo hsw ?_
        simp only [withoutBranch, lookup_erase]
        rw [if_neg]
        · exact hgn
        · rintro rfl
          rw [hn] at hgn
          cases hgn
          exact hne (h.pristine (Server.branch_eq_some.mpr ⟨vni, hvni, hn⟩)).head.2
  · intro hedge
    cases hedge with
    | single hone => omega
    | @uplink sw _ hsw =>
        refine ⟨.uplink (by omega) hsw, fun heq => ?_⟩
        have hswitch := serial?_switch hvni hsw
        rw [show sw.serial = _ from heq] at hswitch
        exact absurd (h.apart hswitch hserial) (by simp)
    | @port sw id gn _ hsw hgn =>
        simp only [withoutBranch, lookup_erase] at hgn
        split at hgn
        · cases hgn
        next hne =>
        refine ⟨.port (by omega) hsw hgn, fun heq => hne ?_⟩
        have hgnSerial := serial?_nic hvni hgn
        rw [← (h.pristine (Server.branch_eq_some.mpr ⟨vni, hvni, hgn⟩)).head.2,
          show gn.head.serial = _ from heq] at hgnSerial
        have hsame := h.apart hgnSerial hserial
        simp only [Part.nic.injEq, true_and] at hsame
        exact hsame.symm

theorem Wired.deletedOfMany (h : Wired s) (hvni : s.vnis[nic.vni]? = some vni)
    (hn : vni.nics[nic.id]? = some n) (hsize : 3 ≤ vni.nics.size)
    (hok : GraphOk ((s.updateVni nic.vni (withoutBranch nic.id)).emits (leaveOps nic n s))) :
    Wired ((s.updateVni nic.vni (withoutBranch nic.id)).emits (leaveOps nic n s)) := by
  obtain ⟨hpaced, hnodup, hedges⟩ := h.unlinked hvni hn
    (s.updateVni nic.vni (withoutBranch nic.id)) rfl h.paced
  have htwo : 2 ≤ (withoutBranch nic.id vni).nics.size := by
    have herase := size_erase_of_lookup hn
    simp only [withoutBranch]
    omega
  refine h.detach (some (withoutBranch nic.id vni)) hvni hok
    hpaced (lookup_updateVni _ hvni) rfl ?_ hnodup fun e => ?_
  · rintro _ ⟨⟩
    exact ⟨rfl, by omega, fun hsome => ⟨hsome, htwo⟩⟩
  · rw [hedges, h.entryEdge_without hvni hn hsize]
    simp only [Option.some.injEq, exists_eq_left']

theorem Wired.deleted {s' : Server} (h : Wired s) (hdel : NicDeleted nic s s') :
    Wired s' := by
  have hok := h.ok.deleted hdel.effect
  cases hdel with
  | absent => exact h
  | @last vni n hvni hn hsize =>
      rw [h.no_switch hvni hsize, Option.toList_none, destroyOps_nil, List.append_nil] at hok ⊢
      exact h.deletedLast hvni hn hsize hok
  | ofTwo hvni hn hsize hother hsw => exact h.deletedOfTwo hvni hn hsize hother hsw hok
  | ofMany hvni hn hsize => exact h.deletedOfMany hvni hn hsize hok

end Deleted

/-! ## Runs of `NicAdd` and `NicDel` -/

def allOk : PgCall → Bool := fun _ => true

/-- The VNI has no NIC of this id, or none any more. -/
def Afresh (live : Set (UInt32 × String)) (nic : Nic) : Prop := (nic.vni, nic.id) ∉ live

/--
Calls of `NicAdd` and `NicDel` in which packetgraph never fails, with the set of
NICs that are there after them.  NICs are added afresh, as `ActionNicAdd` does it, which
deletes the NIC of the same id first.  The model may change in between.
-/
inductive GraphRun (P : Platform) : Set (UInt32 × String) → Server → Prop
  | start (config : AppConfig) (pid : Nat) (startDate : UInt64) :
      GraphRun P ∅ (Server.start config pid startDate)
  | model {live s} (f : Model → Model) : GraphRun P live s →
      GraphRun P live (s.modifyModel f)
  | add {live s s' nic added} : GraphRun P live s → Afresh live nic →
      Graph.nicAdd P allOk nic s = some (added, s') →
      GraphRun P (insert (nic.vni, nic.id) live) s'
  | del {live s s' nic} : GraphRun P live s → Graph.nicDel nic s = some s' →
      GraphRun P (live \ {(nic.vni, nic.id)}) s'

theorem Graph.NicAdded.all_ok {nic : Nic} {s s' : Server} {accepted : Bool}
    (h : NicAdded allOk nic s accepted s') : accepted = true := by
  cases h with
  | abandoned h =>
      obtain ⟨hfail, -⟩ := h
      simp [creates, allOk] at hfail
  | noSwitch _ _ hfail => cases hfail
  | stuck _ _ _ _ hfail => cases hfail
  | first | second | further => rfl

theorem wired_start (config : AppConfig) (pid : Nat) (startDate : UInt64) :
    Wired (Server.start config pid startDate) := by
  have hserial : ∀ x, (Server.start config pid startDate).serial? x = none := by
    intro x
    cases x <;> simp [Server.serial?]
  have hedges : (Server.start config pid startDate).wiring.attachments = [] := by
    cases htrace : config.packetTrace <;>
      simp [Server.wiring, Server.start, Server.startGraph, htrace, Machine.syncOp,
        BrickGraph.machine, BrickGraph.exec, BrickGraph.attachments, Edge.attaches,
        nicBrick, mainSniffer]
  refine ⟨(agree_start config pid startDate).graph, ?_, ?_, ?_, ?_, Nat.one_pos, ?_, ?_,
    ?_, ?_⟩
  · exact ⟨trivial, trivial, trivial⟩
  · intro v id gn hgn
    simp at hgn
  · intro v vni sw hvni
    simp at hvni
  · intro v vni hvni
    simp at hvni
  · intro x n hx
    rw [hserial] at hx
    cases hx
  · intro x y n hx
    rw [hserial] at hx
    cases hx
  · rw [hedges]
    exact .nil
  · intro e
    rw [hedges]
    simp only [List.not_mem_nil, false_iff]
    rintro ⟨v, vni, hvni, -⟩
    simp at hvni

theorem Wired.modifyModel {s : Server} (h : Wired s) (f : Model → Model) :
    Wired (s.modifyModel f) :=
  ⟨⟨h.ok.started, h.ok.keyed, h.ok.ids, h.ok.switched, h.ok.bricks, h.ok.distinct⟩,
    h.paced, h.pristine, h.switches, h.nonempty, h.positive, h.bounded, h.apart,
    h.nodup, h.edges⟩

/-- The branches are those of the NICs that are there. -/
structure Lives (live : Set (UInt32 × String)) (s : Server) : Prop where
  wired : Wired s
  live : ∀ v id, (s.branch v id).isSome ↔ (v, id) ∈ live

theorem Lives.new {live : Set (UInt32 × String)} {s : Server} (h : Lives live s)
    {nic : Nic} (hnew : Afresh live nic) : s.branch nic.vni nic.id = none := by
  rw [← Option.not_isSome_iff_eq_none, h.live]
  exact hnew

theorem Lives.added {live : Set (UInt32 × String)} {s s' : Server} (h : Lives live s)
    {nic : Nic} (hnew : Afresh live nic)
    (hadd : NicAdded allOk nic s true s') :
    Lives (insert (nic.vni, nic.id) live) s' := by
  have hbranch := h.new hnew
  have hnone : (vniEntry nic.vni s).nics[nic.id]? = none := by
    rw [vniEntry_lookup, hbranch]
  refine ⟨h.wired.added hbranch hadd, fun v id => ?_⟩
  rw [(hadd.effect h.wired.ok.started hnone).branch hbranch, Set.mem_insert_iff,
    Prod.mk.injEq]
  by_cases hsame : nic.vni = v ∧ nic.id = id
  · simp [hsame]
  · have hne : ¬(v = nic.vni ∧ id = nic.id) := by
      rintro ⟨rfl, rfl⟩
      exact hsame ⟨rfl, rfl⟩
    simp [hsame, hne, h.live]

theorem Lives.deleted {live : Set (UInt32 × String)} {s s' : Server} (h : Lives live s)
    {nic : Nic} (hdel : NicDeleted nic s s') :
    Lives (live \ {(nic.vni, nic.id)}) s' := by
  refine ⟨h.wired.deleted hdel, fun v id => ?_⟩
  rw [hdel.effect.branch, Set.mem_sdiff, Set.mem_singleton_iff, Prod.mk.injEq]
  by_cases hsame : nic.vni = v ∧ nic.id = id
  · simp [hsame]
  · have hne : ¬(v = nic.vni ∧ id = nic.id) := by
      rintro ⟨rfl, rfl⟩
      exact hsame ⟨rfl, rfl⟩
    simp [hsame, hne, h.live]

theorem graphRun_add {P : Platform} {s s' : Server} {nic : Nic} {added : Option Nic}
    (hstarted : s.started = true)
    (hadd : Graph.nicAdd P allOk nic s = some (added, s')) :
    NicAdded allOk nic s true s' := by
  rcases nicAdd_cases hstarted hadd with ⟨-, hadded⟩ | ⟨-, hadded⟩
  · exact absurd hadded.all_ok (by simp)
  · exact hadded

theorem lives_of_graphRun {P : Platform} {live : Set (UInt32 × String)} {s : Server}
    (h : GraphRun P live s) : Lives live s := by
  induction h with
  | start config pid startDate =>
      refine ⟨wired_start config pid startDate, fun v id => ?_⟩
      simp
  | model f _ ih => exact ⟨ih.wired.modifyModel f, ih.live⟩
  | add _ hnew hadd ih => exact ih.added hnew (graphRun_add ih.wired.ok.started hadd)
  | del _ hdel ih =>
      exact ih.deleted (nicDel_cases ih.wired.ok.started ih.wired.ok.keyed hdel)

/--
Whatever the history, once the queue is drained the NICs of each VNI are attached
in the one canonical way, and to nothing of another VNI.
-/
theorem attachment_canonical {P : Platform} {live : Set (UInt32 × String)} {s : Server}
    {pg : Packetgraph} (h : GraphRun P live s) (hdrained : Drained s pg) :
    (∀ (v : UInt32) (id : String), (s.branch v id).isSome ↔ (v, id) ∈ live) ∧
    (∀ v : UInt32, (∀ id, (v, id) ∉ live) → s.vnis[v]? = none) ∧
    (∀ (v : UInt32) (vni : GraphVni), s.vnis[v]? = some vni → vni.nics.size ≠ 0 ∧
      (vni.nics.size = 1 → vni.sw = none) ∧
      (2 ≤ vni.nics.size → ∃ sw, vni.sw = some sw ∧ sw.kind = .switch)) ∧
    pg.graph.attachments.Nodup ∧
    (∀ e, e ∈ pg.graph.attachments ↔
      ∃ v vni, s.vnis[v]? = some vni ∧ EntryEdge v vni e) ∧
    ∀ (v : UInt32) (id : String) (gn : GraphNic) (e : Edge), s.branch v id = some gn →
      e ∈ pg.graph.attachments → e.east = gn.head →
      ∃ vni, s.vnis[v]? = some vni ∧ EntryEdge v vni e := by
  obtain ⟨hwired, hlive⟩ := lives_of_graphRun h
  rw [hdrained.graph hwired.paced]
  refine ⟨hlive, ?_, ?_, hwired.nodup, hwired.edges, ?_⟩
  · intro v hnone
    cases hvni : s.vnis[v]? with
    | none => rfl
    | some vni =>
        obtain ⟨k, gn, hgn⟩ : ∃ k gn, vni.nics[k]? = some gn := by
          obtain ⟨entries, -, -, hlength, hmem⟩ := exists_keys vni.nics
          cases entries with
          | nil => exact absurd hlength.symm (hwired.nonempty hvni)
          | cons entry entries =>
              exact ⟨entry.1, entry.2, (hmem _ _).mp List.mem_cons_self⟩
        have hsome := (hlive v k).mp (by simp [Server.branch, hvni, hgn])
        exact absurd hsome (hnone k)
  · intro v vni hvni
    refine ⟨hwired.nonempty hvni, fun hone => ?_, fun htwo => ?_⟩
    · cases hsw : vni.sw with
      | none => rfl
      | some sw =>
          have htwo := (hwired.switches hvni hsw).2
          omega
    · obtain ⟨sw, hsw⟩ := Option.isSome_iff_exists.mp (hwired.ok.switched hvni htwo)
      exact ⟨sw, hsw, (hwired.switches hvni hsw).1⟩
  · intro v id gn e hgn he heast
    obtain ⟨vni, hvni, hlookup⟩ := Server.branch_eq_some.mp hgn
    rcases (canonical_split s v e).mp ((hwired.edges e).mp he) with hown | hother
    · exact hown
    · refine absurd ?_ (hwired.other (serial?_nic hvni hlookup) hother).2
      rw [heast, (hwired.pristine hgn).head.2]

def threeNics : List Nic :=
  [{ id := "a", vni := 42 }, { id := "b", vni := 42, bypassFiltering := true },
    { id := "c", vni := 43, packetTrace := true }]

def addAll (P : Platform) : List Nic → Server → Option Server
  | [], s => some s
  | nic :: rest, s => do
      let (_, s) ← Graph.nicAdd P allOk nic s
      addAll P rest s

theorem GraphRun.addAll {P : Platform} {nics : List Nic} {live : Set (UInt32 × String)}
    {s s' : Server} (h : GraphRun P live s)
    (hnodup : (nics.map fun nic => (nic.vni, nic.id)).Nodup)
    (hnew : ∀ nic ∈ nics, Afresh live nic)
    (hadd : Butterfly.addAll P nics s = some s') : ∃ live', GraphRun P live' s' := by
  induction nics generalizing s live with
  | nil =>
      cases hadd
      exact ⟨live, h⟩
  | cons nic nics ih =>
      obtain ⟨⟨added, s₁⟩, hs₁, hrest⟩ := Option.bind_eq_some_iff.mp hadd
      rw [List.map_cons, List.nodup_cons] at hnodup
      refine ih (h.add (hnew nic List.mem_cons_self) hs₁) hnodup.2 ?_ hrest
      intro other hother hmem
      rcases Set.mem_insert_iff.mp hmem with heq | hmem
      · exact hnodup.1 (heq ▸ List.mem_map_of_mem hother)
      · exact hnew other (List.mem_cons_of_mem _ hother) hmem

theorem attachment_canonical_three_nics :
    ∃ live s, GraphRun Libc.platform live s ∧ s.vnis.size = 2 ∧
      (s.vnis[(42 : UInt32)]?.bind GraphVni.sw).isNone ∧
      s.settled.graph.attachments.Nodup ∧
      ∀ e, e ∈ s.settled.graph.attachments ↔
        ∃ v vni, s.vnis[v]? = some vni ∧ EntryEdge v vni e := by
  have hrun : ∃ s₁ s₂, addAll Libc.platform threeNics (Server.start {} 1 0) = some s₁ ∧
      Graph.nicDel { id := "a", vni := 42 } s₁ = some s₂ ∧ s₂.vnis.size = 2 ∧
      (s₂.vnis[(42 : UInt32)]?.bind GraphVni.sw).isNone := by
    refine ⟨(addAll Libc.platform threeNics (Server.start {} 1 0)).get ?_,
      (Graph.nicDel { id := "a", vni := 42 }
        ((addAll Libc.platform threeNics (Server.start {} 1 0)).get ?_)).get ?_,
      ?_, ?_, ?_, ?_⟩
    · decide +kernel
    · decide +kernel
    · decide +kernel
    · simp
    · simp
    · decide +kernel
    · decide +kernel
  obtain ⟨s₁, s₂, hs₁, hs₂, hsize, hsw⟩ := hrun
  obtain ⟨live, hlive⟩ := (GraphRun.start {} 1 0).addAll
    (by decide) (by simp [Afresh]) hs₁
  have hdel := hlive.del hs₂
  obtain ⟨-, -, -, hnodup, hedges, -⟩ := attachment_canonical hdel (drained_settled s₂)
  exact ⟨_, s₂, hdel, hsize, hsw, hnodup, hedges⟩

end Butterfly
