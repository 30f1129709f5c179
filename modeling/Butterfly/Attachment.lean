import Butterfly.Agreement
import Butterfly.Wiring

/-!
# How NICs hang on the vtep

The edges at the vtep and at the switches are a function of the NICs that exist:
one NIC of a VNI hangs on the vtep itself, two or more on a switch of their own.
-/

namespace Butterfly

open Std Foundation Butterfly.Graph

/-! ## Canonical edges -/

/-- The edges by which the NICs of one VNI are attached. -/
inductive EntryEdge (v : UInt32) (vni : GraphVni) : Edge → Prop
  | single {id : String} {gn} : vni.nics.size = 1 → vni.nics[id]? = some gn →
      EntryEdge v vni ⟨vtepBrick, gn.head, [v]⟩
  | uplink {sw} : 2 ≤ vni.nics.size → vni.sw = some sw →
      EntryEdge v vni ⟨vtepBrick, sw, [v]⟩
  | port {sw} {id : String} {gn} : 2 ≤ vni.nics.size → vni.sw = some sw →
      vni.nics[id]? = some gn → EntryEdge v vni ⟨sw, gn.head, []⟩

def CanonicalEdge (s : Server) (e : Edge) : Prop :=
  ∃ v vni, s.vnis[v]? = some vni ∧ EntryEdge v vni e

def OtherEdge (v : UInt32) (s : Server) (e : Edge) : Prop :=
  ∃ a vni, a ≠ v ∧ s.vnis[a]? = some vni ∧ EntryEdge a vni e

/-! ## Serials of the parts of the graph -/

inductive Part where
  | nic (v : UInt32) (id : String)
  | switch (v : UInt32)

def Part.vni : Part → UInt32
  | .nic v _ | .switch v => v

def Server.serial? (s : Server) : Part → Option Nat
  | .nic v id => (s.branch v id).map fun gn => gn.vhost.serial
  | .switch v => (s.vnis[v]?.bind GraphVni.sw).map Brick.serial

def Pristine (gn : GraphNic) : Prop :=
  ∃ nic n, gn = filled nic (newBranch nic n)

theorem Pristine.head {gn : GraphNic} (h : Pristine gn) :
    BranchKind gn.head.kind ∧ gn.head.serial = gn.vhost.serial := by
  obtain ⟨nic, n, rfl⟩ := h
  have hhead : (filled nic (newBranch nic n)).head = (newBranch nic n).head ∧
      (filled nic (newBranch nic n)).vhost = (newBranch nic n).vhost := by
    unfold filled
    split <;> exact ⟨rfl, rfl⟩
  rw [hhead.1, hhead.2]
  simp only [newBranch]
  split_ifs
  · exact ⟨.firewall, rfl⟩
  · exact ⟨.sniffer, rfl⟩
  · exact ⟨.vhost, rfl⟩

theorem Pristine.bricks {gn : GraphNic} (h : Pristine gn) :
    ∀ b ∈ gn.head :: gn.firewall :: branchBricks gn,
      BranchKind b.kind ∧ b.serial = gn.vhost.serial := by
  have hhead := h.head
  obtain ⟨nic, n, rfl⟩ := h
  have hgn : (filled nic (newBranch nic n)).firewall = ⟨.firewall, n⟩ ∧
      (filled nic (newBranch nic n)).antispoof = ⟨.antispoof, n⟩ ∧
      (filled nic (newBranch nic n)).vhost = ⟨.vhost, n⟩ ∧
      ((filled nic (newBranch nic n)).sniffer = none ∨
        (filled nic (newBranch nic n)).sniffer = some ⟨.sniffer, n⟩) := by
    unfold filled newBranch setDefaultOutboundRule
    cases nic.packetTrace <;> cases nic.bypassFiltering <;> simp
  generalize filled nic (newBranch nic n) = gn at hhead hgn
  obtain ⟨hfw, has, hvh, hsn⟩ := hgn
  intro b hb
  simp only [List.mem_cons, branchBricks, List.mem_append, List.mem_filter,
    Option.mem_toList, List.not_mem_nil, or_false] at hb
  rcases hb with rfl | rfl | ⟨hmem, -⟩ | hmem
  · exact hhead
  · rw [hfw, hvh]
    exact ⟨.firewall, rfl⟩
  · rcases hmem with hmem | rfl | rfl
    · rcases hsn with hsn | hsn
      · rw [hsn] at hmem
        cases hmem
      · rw [hsn] at hmem
        cases hmem
        rw [hvh]
        exact ⟨.sniffer, rfl⟩
    · rw [hvh]
      exact ⟨.vhost, rfl⟩
    · rw [has, hvh]
      exact ⟨.antispoof, rfl⟩
  · split at hmem
    · cases hmem
    · obtain rfl := List.mem_singleton.mp hmem
      exact hhead

/-! ## The invariant -/

/-- What holds as long as NICs are only added and deleted and no call fails. -/
structure Wired (s : Server) : Prop where
  ok : GraphOk s
  paced : Paced s
  pristine : ∀ {v id gn}, s.branch v id = some gn → Pristine gn
  switches : ∀ {v : UInt32} {vni sw}, s.vnis[v]? = some vni → vni.sw = some sw →
    sw.kind = .switch ∧ 2 ≤ vni.nics.size
  nonempty : ∀ {v : UInt32} {vni}, s.vnis[v]? = some vni → vni.nics.size ≠ 0
  positive : 0 < s.nextSerial
  bounded : ∀ {x n}, s.serial? x = some n → 0 < n ∧ n < s.nextSerial
  apart : ∀ {x y n}, s.serial? x = some n → s.serial? y = some n → x = y
  nodup : s.wiring.attachments.Nodup
  edges : ∀ e, e ∈ s.wiring.attachments ↔ CanonicalEdge s e

theorem canonical_split (s : Server) (v : UInt32) (e : Edge) :
    CanonicalEdge s e ↔
      (∃ vni, s.vnis[v]? = some vni ∧ EntryEdge v vni e) ∨ OtherEdge v s e := by
  constructor
  · rintro ⟨a, vni, hvni, he⟩
    by_cases ha : a = v
    · subst ha
      exact .inl ⟨vni, hvni, he⟩
    · exact .inr ⟨a, vni, ha, hvni, he⟩
  · rintro (⟨vni, hvni, he⟩ | ⟨a, vni, -, hvni, he⟩)
    · exact ⟨v, vni, hvni, he⟩
    · exact ⟨a, vni, hvni, he⟩

theorem serial?_nic {s : Server} {v : UInt32} {vni : GraphVni} {id : String}
    {gn : GraphNic} (hvni : s.vnis[v]? = some vni) (hgn : vni.nics[id]? = some gn) :
    s.serial? (.nic v id) = some gn.vhost.serial := by
  simp [Server.serial?, Server.branch, hvni, hgn]

theorem serial?_switch {s : Server} {v : UInt32} {vni : GraphVni} {sw : Brick}
    (hvni : s.vnis[v]? = some vni) (hsw : vni.sw = some sw) :
    s.serial? (.switch v) = some sw.serial := by
  simp [Server.serial?, hvni, hsw]

theorem Wired.ends {s : Server} (h : Wired s) {v : UInt32} {vni : GraphVni} {e : Edge}
    (hvni : s.vnis[v]? = some vni) (he : EntryEdge v vni e) :
    (e.west = vtepBrick ∨ s.serial? (.switch v) = some e.west.serial) ∧
      ∃ x : Part, x.vni = v ∧ s.serial? x = some e.east.serial := by
  have hhead : ∀ {id : String} {gn}, vni.nics[id]? = some gn →
      s.serial? (.nic v id) = some gn.head.serial := by
    intro id gn hgn
    rw [serial?_nic hvni hgn,
      (h.pristine (Server.branch_eq_some.mpr ⟨vni, hvni, hgn⟩)).head.2]
  cases he with
  | single _ hgn => exact ⟨.inl rfl, .nic v _, rfl, hhead hgn⟩
  | uplink _ hsw => exact ⟨.inl rfl, .switch v, rfl, serial?_switch hvni hsw⟩
  | port _ hsw hgn =>
      exact ⟨.inr (serial?_switch hvni hsw), .nic v _, rfl, hhead hgn⟩

theorem Wired.fresh {s : Server} (h : Wired s) {e : Edge}
    (he : e ∈ s.wiring.attachments) :
    e.west.serial < s.nextSerial ∧ e.east.serial < s.nextSerial := by
  obtain ⟨v, vni, hvni, hentry⟩ := (h.edges e).mp he
  obtain ⟨hwest, x, -, hx⟩ := h.ends hvni hentry
  have hpos := h.bounded hx
  refine ⟨?_, hpos.2⟩
  rcases hwest with hwest | hwest
  · rw [hwest]
    exact Nat.lt_of_le_of_lt (Nat.zero_le _) hpos.2
  · exact (h.bounded hwest).2

theorem Wired.other {s : Server} (h : Wired s) {x : Part} {n : Nat} {e : Edge}
    (hx : s.serial? x = some n) (he : OtherEdge x.vni s e) :
    e.west.serial ≠ n ∧ e.east.serial ≠ n := by
  obtain ⟨a, vni, ha, hvni, hentry⟩ := he
  obtain ⟨hwest, y, hy, hserial⟩ := h.ends hvni hentry
  have hne : ∀ {z : Part}, z.vni = a → s.serial? z ≠ some n := by
    rintro z rfl hz
    rw [h.apart hz hx] at ha
    exact ha rfl
  constructor
  · rcases hwest with hwest | hwest
    · rw [hwest]
      exact Nat.ne_of_lt (h.bounded hx).1
    · intro heq
      rw [heq] at hwest
      exact hne rfl hwest
  · intro heq
    rw [heq] at hserial
    exact hne hy hserial

theorem serial?_of_ne {s s' : Server} {v : UInt32} {entry : Option GraphVni}
    (hvnis : ∀ a : UInt32, s'.vnis[a]? = if v = a then entry else s.vnis[a]?)
    {x : Part} (hx : x.vni ≠ v) : s'.serial? x = s.serial? x := by
  have hsame : s'.vnis[x.vni]? = s.vnis[x.vni]? := by
    rw [hvnis, if_neg (Ne.symm hx)]
  cases x with
  | nic a id =>
      change s'.vnis[a]? = s.vnis[a]? at hsame
      simp only [Server.serial?, Server.branch, hsame]
  | switch a =>
      change s'.vnis[a]? = s.vnis[a]? at hsame
      simp only [Server.serial?, hsame]

theorem canonical_of_entry {s s' : Server} {v : UInt32} {entry : Option GraphVni}
    (hvnis : ∀ a : UInt32, s'.vnis[a]? = if v = a then entry else s.vnis[a]?)
    (e : Edge) : CanonicalEdge s' e ↔
      (∃ vni, entry = some vni ∧ EntryEdge v vni e) ∨ OtherEdge v s e := by
  rw [canonical_split s' v, hvnis v, if_pos rfl]
  have hother : OtherEdge v s' e ↔ OtherEdge v s e := by
    unfold OtherEdge
    constructor
    · rintro ⟨a, vni, ha, hvni, he⟩
      rw [hvnis a, if_neg (Ne.symm ha)] at hvni
      exact ⟨a, vni, ha, hvni, he⟩
    · rintro ⟨a, vni, ha, hvni, he⟩
      refine ⟨a, vni, ha, ?_, he⟩
      rw [hvnis a, if_neg (Ne.symm ha)]
      exact hvni
  rw [hother]

theorem Wired.assemble {s s' : Server} (h : Wired s) {v : UInt32}
    {entry : Option GraphVni} (fresh : Nat → Part) (hok : GraphOk s')
    (hpaced : Paced s')
    (hvnis : ∀ a : UInt32, s'.vnis[a]? = if v = a then entry else s.vnis[a]?)
    (hnext : s.nextSerial ≤ s'.nextSerial)
    (hpristine : ∀ {vni} {id : String} {gn}, entry = some vni →
      vni.nics[id]? = some gn → Pristine gn)
    (hswitches : ∀ {vni sw}, entry = some vni → vni.sw = some sw →
      sw.kind = .switch ∧ 2 ≤ vni.nics.size)
    (hnonempty : ∀ {vni}, entry = some vni → vni.nics.size ≠ 0)
    (hserial : ∀ {x n}, x.vni = v → s'.serial? x = some n →
      s.serial? x = some n ∨ (s.nextSerial ≤ n ∧ n < s'.nextSerial ∧ x = fresh n))
    (hnodup : s'.wiring.attachments.Nodup)
    (hedges : ∀ e, e ∈ s'.wiring.attachments ↔
      (∃ vni, entry = some vni ∧ EntryEdge v vni e) ∨ OtherEdge v s e) :
    Wired s' := by
  have hall : ∀ {x n}, s'.serial? x = some n →
      s.serial? x = some n ∨ (s.nextSerial ≤ n ∧ n < s'.nextSerial ∧ x = fresh n) := by
    intro x n hx
    by_cases hv : x.vni = v
    · exact hserial hv hx
    · rw [serial?_of_ne hvnis hv] at hx
      exact .inl hx
  have hentry : ∀ {a : UInt32} {vni}, s'.vnis[a]? = some vni →
      entry = some vni ∨ s.vnis[a]? = some vni := by
    intro a vni hvni
    rw [hvnis a] at hvni
    split at hvni
    · exact .inl hvni
    · exact .inr hvni
  refine ⟨hok, hpaced, ?_, ?_, ?_, Nat.lt_of_lt_of_le h.positive hnext, ?_, ?_, hnodup,
    fun e => (hedges e).trans (canonical_of_entry hvnis e).symm⟩
  · intro a id gn hgn
    obtain ⟨vni, hvni, hgn⟩ := Server.branch_eq_some.mp hgn
    rcases hentry hvni with hnew | hold
    · exact hpristine hnew hgn
    · exact h.pristine (Server.branch_eq_some.mpr ⟨vni, hold, hgn⟩)
  · intro a vni sw hvni hsw
    rcases hentry hvni with hnew | hold
    · exact hswitches hnew hsw
    · exact h.switches hold hsw
  · intro a vni hvni
    rcases hentry hvni with hnew | hold
    · exact hnonempty hnew
    · exact h.nonempty hold
  · intro x n hx
    rcases hall hx with hold | ⟨hle, hlt, -⟩
    · exact ⟨(h.bounded hold).1, Nat.lt_of_lt_of_le (h.bounded hold).2 hnext⟩
    · exact ⟨Nat.lt_of_lt_of_le h.positive hle, hlt⟩
  · intro x y n hx hy
    rcases hall hx with hx | ⟨hle, -, hfx⟩
    · rcases hall hy with hy | ⟨hle, -, -⟩
      · exact h.apart hx hy
      · exact absurd (h.bounded hx).2 (Nat.not_lt.mpr hle)
    · rcases hall hy with hy | ⟨-, -, hfy⟩
      · exact absurd (h.bounded hy).2 (Nat.not_lt.mpr hle)
      · rw [hfx, hfy]

/-! ## Adding a NIC -/

theorem Graph.Created.wiring {ok : PgCall → Bool} {nic : Nic} {s s₁ : Server}
    (h : Created ok nic (openVni nic.vni s) s₁) :
    s₁.wiring.attachments = s.wiring.attachments ∧ (Paced s → Poised s₁) := by
  obtain ⟨-, -, ops, hops, rfl⟩ := h
  constructor
  · rw [Server.wiring_emits]
    refine attachments_inert ?_ _
    simp only [List.forall_mem_append]
    exact ⟨⟨inert_fwNewOps _ _ _, fun op hop => inert_of_calm (hops op hop)⟩,
      inert_innerLinks _ _ _ _⟩
  · intro hs
    obtain ⟨ds, rfl⟩ := directs_of_calm hops
    have hlinks : (innerLinks ok nic (openVni nic.vni s).nextSerial
        (openVni nic.vni s).config.packetTrace).map linkOp =
          ((innerLinks ok nic (openVni nic.vni s).nextSerial
            (openVni nic.vni s).config.packetTrace).map fun link =>
              Direct.link link.1 link.2).map .direct := by
      rw [List.map_map]
      rfl
    have hstart : Paced (openVni nic.vni s).takeSerial := hs
    have hfence := hstart.fence [.push (.fwNew ("firewall-" ++ nic.id)
      (if ok (.firewallNew ("firewall-" ++ nic.id)) then
        some ⟨.firewall, (openVni nic.vni s).nextSerial⟩ else none))] (by simp)
    have hdone := (hfence.directs ds).directs
      ((innerLinks ok nic (openVni nic.vni s).nextSerial
        (openVni nic.vni s).config.packetTrace).map fun link =>
          Direct.link link.1 link.2)
    rw [← hlinks, Server.emits_emits, Server.emits_emits, ← List.append_assoc] at hdone
    exact hdone

theorem keepBranch_wiring (ok : PgCall → Bool) {nic : Nic} (gn : GraphNic) {s : Server}
    {vni : GraphVni} (hstarted : s.started = true)
    (hvni : s.vnis[nic.vni]? = some vni) (hnew : vni.nics[nic.id]? = none) :
    (keepBranch ok nic gn s).wiring.attachments = s.wiring.attachments ∧
      (Paced s → Paced (keepBranch ok nic gn s)) := by
  have hrules : ∀ op ∈ (if nic.bypassFiltering then [] else fwUpdateOps ok gn.firewall
      (inRules s.model.securityGroups nic) (outRules nic)),
      FirewallOp gn.firewall op := by
    intro op hop
    split at hop
    · cases hop
    · exact fwUpdateOps_firewallOp hop
  rw [keepBranch_eq hstarted hvni hnew]
  constructor
  · rw [Server.wiring_emits]
    refine attachments_inert ?_ _
    rw [List.forall_mem_cons]
    exact ⟨fun _ => rfl, fun op hop => inert_of_firewallOp (hrules op hop)⟩
  · intro hs
    have hstart : Paced (s.updateVni nic.vni (withBranch nic.id (filled nic gn))) := hs
    refine hstart.emits _ fun d hd => ?_
    rcases List.mem_cons.mp hd with hd | hd
    · cases hd
    · exact offGraph_of_firewallOp (hrules _ hd)

theorem keepBranch_vnis {ok : PgCall → Bool} {nic : Nic} {gn : GraphNic} {s : Server}
    {vni : GraphVni} (hstarted : s.started = true)
    (hvni : s.vnis[nic.vni]? = some vni) (hnew : vni.nics[nic.id]? = none)
    (a : UInt32) :
    (keepBranch ok nic gn s).vnis[a]? =
      if nic.vni = a then some (withBranch nic.id (filled nic gn) vni)
      else s.vnis[a]? := by
  rw [keepBranch_eq hstarted hvni hnew, Server.emits_vnis, lookup_updateVni _ hvni]

theorem filled_head (nic : Nic) (gn : GraphNic) : (filled nic gn).head = gn.head := by
  unfold filled
  split <;> rfl

theorem filled_ends (nic : Nic) (gn : GraphNic) :
    (filled nic gn).vhost = gn.vhost ∧ (filled nic gn).firewall = gn.firewall := by
  unfold filled
  split <;> exact ⟨rfl, rfl⟩

theorem newBranch_serial (nic : Nic) (n : Nat) :
    (filled nic (newBranch nic n)).vhost.serial = n ∧ (newBranch nic n).head.serial = n := by
  have hpristine : Pristine (filled nic (newBranch nic n)) := ⟨nic, n, rfl⟩
  have hvhost : (filled nic (newBranch nic n)).vhost.serial = n := by
    unfold filled
    split <;> rfl
  refine ⟨hvhost, ?_⟩
  rw [← filled_head nic, hpristine.head.2, hvhost]

theorem Wired.attach {s s' : Server} (h : Wired s) {nic : Nic} (entry : GraphVni)
    (hnew : s.branch nic.vni nic.id = none) (hok : GraphOk s') (hpaced : Paced s')
    (hvnis : ∀ a : UInt32, s'.vnis[a]? =
      if nic.vni = a then some entry else s.vnis[a]?)
    (hnics : entry.nics = (vniEntry nic.vni s).nics.insertIfNew nic.id
      (filled nic (newBranch nic s.nextSerial)))
    (hlt : s.nextSerial < s'.nextSerial)
    (hsw : entry.sw = (vniEntry nic.vni s).sw ∨
      (entry.sw = some ⟨.switch, s.nextSerial + 1⟩ ∧ s.nextSerial + 1 < s'.nextSerial ∧
        2 ≤ entry.nics.size))
    (hnodup : s'.wiring.attachments.Nodup)
    (hedges : ∀ e, e ∈ s'.wiring.attachments ↔
      EntryEdge nic.vni entry e ∨ OtherEdge nic.vni s e) : Wired s' := by
  have hnew' : (vniEntry nic.vni s).nics[nic.id]? = none := by
    rw [vniEntry_lookup, hnew]
  have hsize := size_insertIfNew_of_none
    (v := filled nic (newBranch nic s.nextSerial)) hnew'
  rw [← hnics] at hsize
  have hlookup : ∀ id : String, entry.nics[id]? =
      if nic.id = id then some (filled nic (newBranch nic s.nextSerial))
      else s.branch nic.vni id := by
    intro id
    rw [hnics, lookup_insertIfNew, hnew', Option.getD_none, vniEntry_lookup]
  have holdSwitch : ∀ {sw}, (vniEntry nic.vni s).sw = some sw →
      ∃ vni, s.vnis[nic.vni]? = some vni ∧ vni.sw = some sw ∧
        (vniEntry nic.vni s) = vni := by
    intro sw hsw
    unfold vniEntry at hsw ⊢
    cases hvni : s.vnis[nic.vni]? with
    | none => simp [hvni] at hsw
    | some vni => exact ⟨vni, rfl, by simpa [hvni] using hsw, rfl⟩
  refine h.assemble (fun n => if n = s.nextSerial then .nic nic.vni nic.id
    else .switch nic.vni) hok hpaced hvnis (Nat.le_of_lt hlt) ?_ ?_ ?_ ?_ hnodup
    (fun e => by simpa using hedges e)
  · rintro _ id gn ⟨⟩ hgn
    rw [hlookup] at hgn
    split at hgn
    · cases hgn
      exact ⟨nic, s.nextSerial, rfl⟩
    · exact h.pristine hgn
  · rintro _ sw ⟨⟩ hsome
    rcases hsw with hold | ⟨hswitch, -, htwo⟩
    · rw [hold] at hsome
      obtain ⟨vni, hvni, hsw', heq⟩ := holdSwitch hsome
      obtain ⟨hkind, htwo⟩ := h.switches hvni hsw'
      refine ⟨hkind, ?_⟩
      rw [heq] at hsize
      omega
    · rw [hswitch] at hsome
      cases hsome
      exact ⟨rfl, htwo⟩
  · rintro _ ⟨⟩
    omega
  · intro x n hx hserial
    cases x with
    | nic a id =>
        obtain rfl : a = nic.vni := hx
        simp only [Server.serial?, Server.branch, hvnis, if_true, Option.bind_some,
          hlookup] at hserial
        split at hserial
        · next hid =>
            obtain ⟨gn, hgn, rfl⟩ := Option.map_eq_some_iff.mp hserial
            cases hgn
            rw [(newBranch_serial nic _).1]
            exact .inr ⟨Nat.le_refl _, hlt, by rw [if_pos rfl, hid]⟩
        · exact .inl hserial
    | switch a =>
        obtain rfl : a = nic.vni := hx
        simp only [Server.serial?, hvnis, if_true, Option.bind_some] at hserial
        rcases hsw with hold | ⟨hswitch, hlt', -⟩
        · rw [hold] at hserial
          obtain ⟨sw, hsome, rfl⟩ := Option.map_eq_some_iff.mp hserial
          obtain ⟨vni, hvni, hsw', -⟩ := holdSwitch hsome
          exact .inl (serial?_switch hvni hsw')
        · rw [hswitch] at hserial
          cases hserial
          refine .inr ⟨Nat.le_succ _, hlt', ?_⟩
          rw [if_neg (by simp)]

theorem eraseP_eq_erase {l : List Edge} {p : Edge → Bool} {a : Edge} (ha : a ∈ l)
    (hp : ∀ x ∈ l, p x = true ↔ x = a) : l.eraseP p = l.erase a := by
  induction l with
  | nil => cases ha
  | cons x l ih =>
      by_cases hx : x = a
      · subst hx
        rw [List.eraseP_cons_of_pos ((hp x List.mem_cons_self).mpr rfl),
          List.erase_cons_head]
      · have hpx : ¬p x = true := fun h => hx ((hp x List.mem_cons_self).mp h)
        rw [List.eraseP_cons_of_neg hpx, List.erase_cons_tail (by simpa using hx)]
        congr 1
        refine ih ?_ fun y hy => hp y (List.mem_cons_of_mem _ hy)
        rcases List.mem_cons.mp ha with heq | hmem
        · exact absurd heq.symm hx
        · exact hmem

section Added

variable {ok : PgCall → Bool} {nic : Nic} {s s₁ : Server}

theorem Wired.no_new_edge (h : Wired s) {b : Brick} (hb : s.nextSerial ≤ b.serial) :
    ∀ e ∈ s.wiring.attachments, e.west ≠ b ∧ e.east ≠ b := by
  intro e he
  obtain ⟨hwest, heast⟩ := h.fresh he
  constructor
  · rintro rfl
    omega
  · rintro rfl
    omega

theorem Wired.keep (h : Wired s) {s₂ : Server} (entry : GraphVni)
    (hnew : s.branch nic.vni nic.id = none)
    (hok : GraphOk (keepBranch ok nic (newBranch nic s.nextSerial) s₂))
    (hstarted : s₂.started = true) (hpaced : Paced s₂)
    (hlt : s.nextSerial < s₂.nextSerial)
    (hvnis : ∀ a : UInt32, s₂.vnis[a]? =
      if nic.vni = a then some entry else s.vnis[a]?)
    (hnics : entry.nics = (vniEntry nic.vni s).nics)
    (hsw : entry.sw = (vniEntry nic.vni s).sw ∨
      (entry.sw = some ⟨.switch, s.nextSerial + 1⟩ ∧ s.nextSerial + 1 < s₂.nextSerial ∧
        1 ≤ entry.nics.size))
    (hnodup : s₂.wiring.attachments.Nodup)
    (hedges : ∀ e, e ∈ s₂.wiring.attachments ↔
      EntryEdge nic.vni (withBranch nic.id
        (filled nic (newBranch nic s.nextSerial)) entry) e ∨ OtherEdge nic.vni s e) :
    Wired (keepBranch ok nic (newBranch nic s.nextSerial) s₂) := by
  have hlookup : s₂.vnis[nic.vni]? = some entry := by simpa using hvnis nic.vni
  have hnone : entry.nics[nic.id]? = none := by
    rw [hnics, vniEntry_lookup, hnew]
  obtain ⟨hsame, hkeep⟩ := keepBranch_wiring ok (newBranch nic s.nextSerial) hstarted hlookup hnone
  have hserial : (keepBranch ok nic (newBranch nic s.nextSerial) s₂).nextSerial =
      s₂.nextSerial := by
    rw [keepBranch_eq hstarted hlookup hnone]
    rfl
  refine h.attach (withBranch nic.id
    (filled nic (newBranch nic s.nextSerial)) entry) hnew hok (hkeep hpaced) ?_ ?_ ?_ ?_ ?_
    (by rw [hsame]; exact hedges)
  · intro a
    rw [keepBranch_vnis hstarted hlookup hnone, hvnis]
    split <;> rfl
  · rw [withBranch, hnics]
  · rw [hserial]
    exact hlt
  · rw [hserial]
    refine hsw.imp id ?_
    rintro ⟨hswitch, hnext, hone⟩
    refine ⟨hswitch, hnext, ?_⟩
    rw [withBranch, size_insertIfNew_of_none hnone]
    omega
  · rw [hsame]
    exact hnodup

theorem lookup_withBranch (entry : GraphVni) (hnone : entry.nics[nic.id]? = none)
    (gn : GraphNic) (id : String) :
    (withBranch nic.id gn entry).nics[id]? =
      if nic.id = id then some gn else entry.nics[id]? := by
  simp only [withBranch, lookup_insertIfNew, hnone, Option.getD_none]

theorem branch_withBranch {s : Server} {v : UInt32} {vni : GraphVni}
    (hvni : s.vnis[v]? = some vni) (id : String) (gn : GraphNic) (a : UInt32)
    (id' : String) :
    (s.updateVni v (withBranch id gn)).branch a id' =
      if v = a ∧ id = id' then some ((s.branch v id).getD gn) else s.branch a id' := by
  rw [Server.branch, lookup_updateVni _ hvni]
  by_cases ha : v = a
  · subst ha
    simp only [if_true, Option.bind_some, withBranch, lookup_insertIfNew, true_and,
      Server.branch, hvni]
  · simp [ha, Server.branch]

theorem Wired.addedFirst (h : Wired s) (hnew : s.branch nic.vni nic.id = none)
    (hok : GraphOk (keepBranch ok nic (newBranch nic s.nextSerial) (s₁.emits
      [.push (.link vtepBrick (newBranch nic s.nextSerial).head),
        .push (.addVni vtepBrick (newBranch nic s.nextSerial).head nic.vni)])))
    (hcreated : Created ok nic (openVni nic.vni s) s₁)
    (hsize : (vniEntry nic.vni s).nics.size = 0) :
    Wired (keepBranch ok nic (newBranch nic s.nextSerial) (s₁.emits
      [.push (.link vtepBrick (newBranch nic s.nextSerial).head),
        .push (.addVni vtepBrick (newBranch nic s.nextSerial).head nic.vni)])) := by
  obtain ⟨hframe, -, hserial, hvnis⟩ := Created.effect hcreated
  obtain ⟨hsame, hpoised⟩ := hcreated.wiring
  have hhead := (newBranch_serial nic s.nextSerial).2
  have hfresh := h.no_new_edge (b := (newBranch nic s.nextSerial).head)
    (Nat.le_of_eq hhead.symm)
  have hnone : (vniEntry nic.vni s).nics[nic.id]? = none := by
    rw [vniEntry_lookup, hnew]
  have hvni : s.vnis[nic.vni]? = none := by
    cases hvni : s.vnis[nic.vni]? with
    | none => rfl
    | some vni =>
        rw [vniEntry, hvni] at hsize
        exact absurd hsize (h.nonempty hvni)
  have hedges : (s₁.emits [.push (.link vtepBrick (newBranch nic s.nextSerial).head),
      .push (.addVni vtepBrick (newBranch nic s.nextSerial).head
        nic.vni)]).wiring.attachments =
        s.wiring.attachments ++
          [⟨vtepBrick, (newBranch nic s.nextSerial).head, [nic.vni]⟩] := by
    rw [← hsame, Server.wiring_emits]
    apply BrickGraph.attachments_link_addVni
    intro e he hends
    rw [hsame] at he
    exact (hfresh e he).2 hends.2
  refine h.keep _ hnew hok (hframe.started.trans h.ok.started)
    ((hpoised h.paced).paced.emits _ (by simp)) hserial hvnis rfl (.inl rfl) ?_ ?_
  · rw [hedges, List.nodup_append]
    refine ⟨h.nodup, by simp, ?_⟩
    rintro e he _ hlast rfl
    rw [List.mem_singleton.mp hlast] at he
    exact (hfresh _ he).2 rfl
  · intro e
    rw [hedges, List.mem_append, List.mem_singleton, h.edges,
      canonical_split s nic.vni, hvni]
    have hone : (withBranch nic.id (filled nic (newBranch nic s.nextSerial))
        (vniEntry nic.vni s)).nics.size = 1 := by
      rw [withBranch, size_insertIfNew_of_none hnone, hsize]
    have hown := lookup_withBranch _ hnone
      (filled nic (newBranch nic s.nextSerial)) nic.id
    rw [if_pos rfl] at hown
    have hentry : EntryEdge nic.vni (withBranch nic.id
        (filled nic (newBranch nic s.nextSerial)) (vniEntry nic.vni s)) e ↔
          e = ⟨vtepBrick, (newBranch nic s.nextSerial).head, [nic.vni]⟩ := by
      obtain ⟨k, gn, -, honly⟩ := exists_of_size_one hone
      constructor
      · intro he
        cases he with
        | single _ hgn =>
            rw [((honly _ _).mp hgn).2, ← ((honly _ _).mp hown).2, filled_head]
        | uplink htwo => omega
        | port htwo => omega
      · rintro rfl
        rw [← filled_head nic]
        exact .single hone hown
    rw [hentry]
    simp [or_comm]

theorem Wired.addedFurther (h : Wired s) {sw : Brick}
    (hnew : s.branch nic.vni nic.id = none)
    (hok : GraphOk (keepBranch ok nic (newBranch nic s.nextSerial)
      (s₁.emits [.push (.link sw (newBranch nic s.nextSerial).head)])))
    (hcreated : Created ok nic (openVni nic.vni s) s₁)
    (hsize : 2 ≤ (vniEntry nic.vni s).nics.size)
    (hsw : (vniEntry nic.vni s).sw = some sw) :
    Wired (keepBranch ok nic (newBranch nic s.nextSerial)
      (s₁.emits [.push (.link sw (newBranch nic s.nextSerial).head)])) := by
  obtain ⟨hframe, -, hserial, hvnis⟩ := Created.effect hcreated
  obtain ⟨hsame, hpoised⟩ := hcreated.wiring
  have hhead := (newBranch_serial nic s.nextSerial).2
  have hfresh := h.no_new_edge (b := (newBranch nic s.nextSerial).head)
    (Nat.le_of_eq hhead.symm)
  have hnone : (vniEntry nic.vni s).nics[nic.id]? = none := by
    rw [vniEntry_lookup, hnew]
  have hvni := vniEntry_of_size (s := s) (v := nic.vni) (by omega)
  have hedges : (s₁.emits
      [.push (.link sw (newBranch nic s.nextSerial).head)]).wiring.attachments =
        s.wiring.attachments ++ [⟨sw, (newBranch nic s.nextSerial).head, []⟩] := by
    rw [← hsame, Server.wiring_emits]
    exact s₁.wiring.attachments_link (.inr (h.switches hvni hsw).1) _
  refine h.keep _ hnew hok (hframe.started.trans h.ok.started)
    ((hpoised h.paced).paced.emits _ (by simp)) hserial hvnis rfl (.inl rfl) ?_ ?_
  · rw [hedges, List.nodup_append]
    refine ⟨h.nodup, by simp, ?_⟩
    rintro e he _ hlast rfl
    rw [List.mem_singleton.mp hlast] at he
    exact (hfresh _ he).2 rfl
  · intro e
    rw [hedges, List.mem_append, List.mem_singleton, h.edges,
      canonical_split s nic.vni]
    have hlookup := lookup_withBranch _ hnone
      (filled nic (newBranch nic s.nextSerial))
    have hbig : 2 ≤ (withBranch nic.id (filled nic (newBranch nic s.nextSerial))
        (vniEntry nic.vni s)).nics.size := by
      rw [withBranch, size_insertIfNew_of_none hnone]
      omega
    have hentry : EntryEdge nic.vni (withBranch nic.id
        (filled nic (newBranch nic s.nextSerial)) (vniEntry nic.vni s)) e ↔
          EntryEdge nic.vni (vniEntry nic.vni s) e ∨
            e = ⟨sw, (newBranch nic s.nextSerial).head, []⟩ := by
      constructor
      · intro he
        cases he with
        | single hone => omega
        | uplink _ hsw' => exact .inl (.uplink hsize hsw')
        | port _ hsw' hgn =>
            rw [hlookup] at hgn
            split at hgn
            · cases hgn
              right
              rw [filled_head, Option.some.inj (hsw.symm.trans hsw')]
            · exact .inl (.port hsize hsw' hgn)
      · rintro (he | rfl)
        · cases he with
          | single hone => omega
          | uplink _ hsw' => exact .uplink hbig hsw'
          | @port _ id gn _ hsw' hgn =>
              refine @EntryEdge.port _ _ _ id _ hbig hsw' ?_
              rw [hlookup, if_neg]
              · exact hgn
              · rintro rfl
                rw [hnone] at hgn
                cases hgn
        · rw [← filled_head nic]
          exact .port hbig hsw (by rw [hlookup, if_pos rfl])
    rw [hentry]
    simp only [hvni, Option.some.injEq, exists_eq_left']
    tauto

theorem Wired.no_switch (h : Wired s) {v : UInt32} {vni : GraphVni}
    (hvni : s.vnis[v]? = some vni) (hsize : vni.nics.size = 1) : vni.sw = none := by
  cases hsw : vni.sw with
  | none => rfl
  | some sw =>
      have htwo := (h.switches hvni hsw).2
      omega

/-- The edge of an only NIC is the one edge of its VNI. -/
theorem Wired.mem_erase_single (h : Wired s) {v : UInt32} {vni : GraphVni} {k : String}
    {gn : GraphNic} (hvni : s.vnis[v]? = some vni) (hsize : vni.nics.size = 1)
    (hgn : vni.nics[k]? = some gn) (e : Edge) :
    e ∈ s.wiring.attachments.erase ⟨vtepBrick, gn.head, [v]⟩ ↔ OtherEdge v s e := by
  obtain ⟨id, gn', -, honly⟩ := exists_of_size_one hsize
  rw [h.nodup.mem_erase_iff, h.edges, canonical_split s v]
  constructor
  · rintro ⟨hne, ⟨entry, hentry, hedge⟩ | hother⟩
    · rw [hvni] at hentry
      cases hentry
      cases hedge with
      | single _ hgn' =>
          rw [((honly _ _).mp hgn').2, ← ((honly _ _).mp hgn).2] at hne
          exact absurd rfl hne
      | uplink htwo => omega
      | port htwo => omega
    · exact hother
  · intro hother
    refine ⟨?_, .inr hother⟩
    rintro rfl
    refine (h.other (serial?_nic hvni hgn) hother).2 ?_
    exact (h.pristine (Server.branch_eq_some.mpr ⟨_, hvni, hgn⟩)).head.2

def switchEdges (nic : Nic) (gn₁ : GraphNic) (s : Server) : List Edge :=
  [⟨vtepBrick, newSwitch s, [nic.vni]⟩, ⟨newSwitch s, gn₁.head, []⟩,
    ⟨newSwitch s, (newBranch nic s.nextSerial).head, []⟩]

theorem Wired.switchedEdges (h : Wired s) {vni : GraphVni} {k : String} {gn₁ : GraphNic}
    (hvni : s.vnis[nic.vni]? = some vni) (hsize : vni.nics.size = 1)
    (hgn₁ : vni.nics[k]? = some gn₁) {g : BrickGraph}
    (hg : g.attachments = s.wiring.attachments) :
    (BrickGraph.machine.sync (switchOps nic gn₁ s) g).attachments =
      s.wiring.attachments.erase ⟨vtepBrick, gn₁.head, [nic.vni]⟩ ++ switchEdges nic gn₁ s := by
  have hmem : (⟨vtepBrick, gn₁.head, [nic.vni]⟩ : Edge) ∈ s.wiring.attachments :=
    (h.edges _).mpr ⟨_, vni, hvni, .single hsize hgn₁⟩
  have hunique : ∀ e ∈ s.wiring.attachments,
      decide (e.west = vtepBrick ∧ e.east = gn₁.head) = true ↔
        e = ⟨vtepBrick, gn₁.head, [nic.vni]⟩ := by
    intro e he
    rw [decide_eq_true_eq]
    constructor
    · rintro ⟨hwest, heast⟩
      by_contra hne
      have hother := (h.mem_erase_single hvni hsize hgn₁ e).mp
        ((h.nodup.mem_erase_iff).mpr ⟨hne, he⟩)
      refine (h.other (serial?_nic hvni hgn₁) hother).2 ?_
      rw [heast, (h.pristine (Server.branch_eq_some.mpr ⟨vni, hvni, hgn₁⟩)).head.2]
    · rintro rfl
      exact ⟨rfl, rfl⟩
  have herase : (g.unlinkEdge vtepBrick gn₁.head).attachments =
      s.wiring.attachments.erase ⟨vtepBrick, gn₁.head, [nic.vni]⟩ := by
    rw [BrickGraph.attachments_unlinkEdge, hg]
    exact eraseP_eq_erase hmem hunique
  have hfresh := h.no_new_edge (b := newSwitch s) (Nat.le_succ _)
  change ((((((g.unlinkEdge vtepBrick gn₁.head).link vtepBrick (newSwitch s)).addVni vtepBrick
    (newSwitch s) nic.vni).link (newSwitch s) gn₁.head).link (newSwitch s)
      (newBranch nic s.nextSerial).head)).attachments = _
  rw [BrickGraph.attachments_link _ (.inr rfl), BrickGraph.attachments_link _ (.inr rfl),
    BrickGraph.attachments_link_addVni, herase]
  · simp [switchEdges]
  · intro e he hends
    rw [herase] at he
    exact (hfresh e (List.mem_of_mem_erase he)).2 hends.2

theorem Wired.nodup_switchEdges (h : Wired s) {gn₁ : GraphNic} {a : Edge}
    (hgn₁ : gn₁.head.serial < s.nextSerial) :
    (s.wiring.attachments.erase a ++ switchEdges nic gn₁ s).Nodup := by
  rw [List.nodup_append]
  refine ⟨h.nodup.erase _, ?_, ?_⟩
  · have hne : gn₁.head ≠ (newBranch nic s.nextSerial).head := by
      intro heq
      rw [heq, (newBranch_serial nic s.nextSerial).2] at hgn₁
      omega
    simp [switchEdges, hne, vtepBrick, newSwitch]
  · rintro e he e' he' rfl
    obtain ⟨hwest, heast⟩ := h.fresh (List.mem_of_mem_erase he)
    simp only [switchEdges, List.mem_cons, List.not_mem_nil, or_false] at he'
    rcases he' with rfl | rfl | rfl
    · simp [newSwitch] at heast
    · simp [newSwitch] at hwest
    · simp [newSwitch] at hwest

def switchedEntry (nic : Nic) (s : Server) : GraphVni :=
  withBranch nic.id (filled nic (newBranch nic s.nextSerial))
    (withSwitch (some (newSwitch s)) (vniEntry nic.vni s))

theorem mem_switchEdges {gn₁ : GraphNic} (hnone : (vniEntry nic.vni s).nics[nic.id]? = none)
    (hsize : (vniEntry nic.vni s).nics.size = 1) {k : String}
    (honly : ∀ id gn, (vniEntry nic.vni s).nics[id]? = some gn ↔ id = k ∧ gn = gn₁) (e : Edge) :
    e ∈ switchEdges nic gn₁ s ↔ EntryEdge nic.vni (switchedEntry nic s) e := by
  have hgn₁ := (honly k gn₁).mpr ⟨rfl, rfl⟩
  have hk : nic.id ≠ k := by
    rintro rfl
    rw [hnone] at hgn₁
    cases hgn₁
  have htwo : 2 ≤ (switchedEntry nic s).nics.size := by
    have hwith := size_insertIfNew_of_none
      (v := filled nic (newBranch nic s.nextSerial)) hnone
    simp only [switchedEntry, withBranch, withSwitch]
    omega
  have hbranches : ∀ id, (switchedEntry nic s).nics[id]? =
      if nic.id = id then some (filled nic (newBranch nic s.nextSerial))
      else (vniEntry nic.vni s).nics[id]? :=
    lookup_withBranch (withSwitch (some (newSwitch s)) (vniEntry nic.vni s)) hnone _
  simp only [switchEdges, List.mem_cons, List.not_mem_nil, or_false]
  constructor
  · rintro (rfl | rfl | rfl)
    · exact .uplink htwo rfl
    · refine @EntryEdge.port _ _ _ k _ htwo rfl ?_
      rw [hbranches, if_neg hk]
      exact hgn₁
    · rw [← filled_head nic]
      exact .port htwo rfl (by rw [hbranches, if_pos rfl])
  · intro hedge
    cases hedge with
    | single hone => omega
    | uplink _ hsw =>
        cases hsw
        exact .inl rfl
    | port _ hsw hgn =>
        cases hsw
        rw [hbranches] at hgn
        split at hgn
        · cases hgn
          rw [filled_head]
          exact .inr (.inr rfl)
        · obtain ⟨-, rfl⟩ := (honly _ _).mp hgn
          exact .inr (.inl rfl)

theorem Wired.addedSecond (h : Wired s) {gn₁ : GraphNic}
    (hnew : s.branch nic.vni nic.id = none)
    (hok : GraphOk (keepBranch ok nic (newBranch nic s.nextSerial) (switched nic gn₁ s s₁)))
    (hcreated : Created ok nic (openVni nic.vni s) s₁)
    (hsize : (vniEntry nic.vni s).nics.size = 1)
    (hvalues : mapValues (vniEntry nic.vni s).nics = [gn₁]) :
    Wired (keepBranch ok nic (newBranch nic s.nextSerial) (switched nic gn₁ s s₁)) := by
  obtain ⟨hframe, -, hserial, hvnis⟩ := Created.effect hcreated
  obtain ⟨hsame, hpoised⟩ := hcreated.wiring
  have hnone : (vniEntry nic.vni s).nics[nic.id]? = none := by
    rw [vniEntry_lookup, hnew]
  have hvni := vniEntry_of_size (s := s) (v := nic.vni) (by omega)
  obtain ⟨k, gn, hvalues', honly⟩ := exists_of_size_one hsize
  obtain rfl : gn = gn₁ := by simpa [hvalues'] using hvalues
  have hgn := (honly k gn).mpr ⟨rfl, rfl⟩
  have hlookup : s₁.takeSerial.vnis[nic.vni]? = some (vniEntry nic.vni s) :=
    hcreated.lookup
  have hnextSerial : s₁.nextSerial = s.nextSerial + 1 := hcreated.nextSerial
  have hedges : (switched nic gn s s₁).wiring.attachments =
      s.wiring.attachments.erase ⟨vtepBrick, gn.head, [nic.vni]⟩ ++ switchEdges nic gn s := by
    rw [switched, h.no_switch hvni hsize, Server.wiring_emits]
    exact h.switchedEdges (g := s₁.wiring) hvni hsize hgn hsame
  refine h.keep (withSwitch (some (newSwitch s)) (vniEntry nic.vni s)) hnew hok
    (hframe.started.trans h.ok.started) ?_ ?_ ?_ rfl (.inr ⟨rfl, ?_, ?_⟩) ?_ ?_
  · have hdirect := (hpoised h.paced).directs [.unlinkEdge vtepBrick gn.head]
    have hpushes := hdirect.paced.emits (switchOps nic gn s).tail (by simp [switchOps])
    rw [Server.emits_emits] at hpushes
    rw [switched, h.no_switch hvni hsize]
    exact hpushes
  · change s.nextSerial < s₁.nextSerial + 1
    omega
  · intro a
    rw [switched, Server.emits_vnis, lookup_updateVni _ hlookup, Server.takeSerial_vnis, hvnis]
    split <;> rfl
  · change s.nextSerial + 1 < s₁.nextSerial + 1
    omega
  · exact Nat.le_of_eq hsize.symm
  · rw [hedges]
    exact h.nodup_switchEdges (h.fresh ((h.edges _).mpr ⟨_, _, hvni, .single hsize hgn⟩)).2
  · intro e
    rw [hedges, List.mem_append, h.mem_erase_single hvni hsize hgn,
      mem_switchEdges hnone hsize honly, or_comm]
    rfl

theorem Wired.added {s' : Server} (h : Wired s) (hnew : s.branch nic.vni nic.id = none)
    (hadd : NicAdded ok nic s true s') : Wired s' := by
  have hnone : (vniEntry nic.vni s).nics[nic.id]? = none := by
    rw [vniEntry_lookup, hnew]
  have hok := h.ok.added hnew (hadd.effect h.ok.started hnone)
  cases hadd with
  | first hcreated hsize => exact h.addedFirst hnew hok hcreated hsize
  | second hcreated hsize _ hvalues _ => exact h.addedSecond hnew hok hcreated hsize hvalues
  | further hcreated hsize hsw => exact h.addedFurther hnew hok hcreated hsize hsw

end Added

end Butterfly
