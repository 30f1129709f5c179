import Butterfly.Islands
import Butterfly.Numbering

/-!
# Who holds a brick

No brick belongs to two branches, and what joins two bricks is in the log.
-/

namespace Butterfly

open Std Foundation Butterfly.Graph BrickGraph

/-! ## Links of the log -/

def Links (ops : List (Op Rpc Direct)) (a b : Brick) : Prop :=
  .push (.link a b) ∈ ops ∨ .direct (.link a b) ∈ ops

theorem joined_syncOp {g : BrickGraph} {op : Op Rpc Direct} {a b : Brick}
    (h : (BrickGraph.machine.syncOp g op).Joined a b) : g.Joined a b ∨ Links [op] a b := by
  cases op with
  | push c =>
      cases c with
      | link w e =>
          rcases joined_link.mp h with hold | ⟨rfl, rfl⟩
          · exact .inl hold
          · exact .inr (.inl List.mem_cons_self)
      | unlink x => exact .inl (joined_unlink.mp h).1
      | unlinkEdge w e => exact .inl (joined_of_unlinkEdge h)
      | addVni w e v => exact .inl (joined_addVni.mp h)
      | brickDestroy x => exact .inl (joined_destroy.mp h).1
      | _ => exact .inl h
  | wait => exact .inl h
  | direct d =>
      cases d with
      | link w e =>
          rcases joined_link.mp h with hold | ⟨rfl, rfl⟩
          · exact .inl hold
          · exact .inr (.inr List.mem_cons_self)
      | unlinkEdge w e => exact .inl (joined_of_unlinkEdge h)
      | destroy x => exact .inl (joined_destroy.mp h).1
      | _ => exact .inl h

theorem joined_sync {g : BrickGraph} {ops : List (Op Rpc Direct)} {a b : Brick}
    (h : (BrickGraph.machine.sync ops g).Joined a b) : g.Joined a b ∨ Links ops a b := by
  induction ops generalizing g with
  | nil => exact .inl h
  | cons op ops ih =>
      rcases ih h with hone | hrest
      · refine (joined_syncOp hone).imp_right fun hlinks => ?_
        rcases hlinks with hlink | hlink
        · exact .inl (List.mem_singleton.mp hlink ▸ List.mem_cons_self)
        · exact .inr (List.mem_singleton.mp hlink ▸ List.mem_cons_self)
      · exact .inr (hrest.imp (List.mem_cons_of_mem _) (List.mem_cons_of_mem _))

theorem Numbered.joined {s : Server} (h : Numbered s) {a b : Brick}
    (hjoined : s.wiring.Joined a b) : a.serial < s.nextSerial ∧ b.serial < s.nextSerial := by
  rcases joined_sync hjoined with ⟨edge, hedge, rfl, rfl⟩ | hlink | hlink
  · exact startGraph_edges s h.positive edge hedge
  · exact h.links _ hlink
  · exact h.links _ hlink

def EdgeFree (op : Op Rpc Direct) : Prop :=
  ∀ g, (BrickGraph.machine.syncOp g op).edges = g.edges

theorem sync_edgeFree {ops : List (Op Rpc Direct)} (h : ∀ op ∈ ops, EdgeFree op)
    (g : BrickGraph) : (BrickGraph.machine.sync ops g).edges = g.edges := by
  induction ops generalizing g with
  | nil => rfl
  | cons op ops ih =>
      rw [Machine.sync_cons, ih fun op hop => h op (List.mem_cons_of_mem _ hop),
        h op List.mem_cons_self]

theorem edgeFree_of_calm {op : Op Rpc Direct} (h : CalmOp op) : EdgeFree op := by
  intro g
  cases h <;> rfl

theorem edgeFree_of_firewallOp {b : Brick} {op : Op Rpc Direct} (h : FirewallOp b op) :
    EdgeFree op := by
  intro g
  cases h <;> rfl

theorem joined_of_edges {g g' : BrickGraph} (h : g'.edges = g.edges) {a b : Brick} :
    g'.Joined a b ↔ g.Joined a b := by
  simp only [BrickGraph.Joined, h]

theorem innerLinks_bricks (ok : PgCall → Bool) (nic : Nic) (n : Nat) (trace : Bool) :
    ∀ link ∈ innerLinks ok nic n trace,
      link.1 ∈ (newBranch nic n).bricks ∧ link.2 ∈ (newBranch nic n).bricks := by
  intro link hlink
  unfold innerLinks at hlink
  simp only [newBranch, GraphNic.bricks]
  grind

/-! ## One owner for each brick -/

structure Owned (s : Server) : Prop where
  kinds : ∀ {v id gn}, s.branch v id = some gn → ∀ b ∈ gn.bricks, BranchKind b.kind
  sniffers : ∀ {v id gn b}, s.branch v id = some gn → gn.sniffer = some b → b.kind = .sniffer
  apart : ∀ {v id gn v' id' gn' b}, s.branch v id = some gn → s.branch v' id' = some gn' →
    b ∈ gn.bricks → b ∈ gn'.bricks → v = v' ∧ id = id'

namespace Owned

variable {s s' : Server}

/-- A change that gives new bricks to one branch only. -/
theorem step (h : Owned s) (hnumbered : Numbered s) (v₀ : UInt32) (id₀ : String)
    (hback : ∀ {v id gn'}, s'.branch v id = some gn' → ∀ b ∈ gn'.bricks,
      (∃ gn, s.branch v id = some gn ∧ b ∈ gn.bricks) ∨
        ((v = v₀ ∧ id = id₀) ∧ BranchKind b.kind ∧ s.nextSerial ≤ b.serial))
    (hsniffer : ∀ {v id gn' b}, s'.branch v id = some gn' → gn'.sniffer = some b →
      (∃ gn, s.branch v id = some gn ∧ gn.sniffer = some b) ∨ b.kind = .sniffer) : Owned s' := by
  refine ⟨fun hgn b hb => ?_, fun hgn hb => ?_,
    fun {v id gn v' id' gn' b} hgn hgn' hb hb' => ?_⟩
  · rcases hback hgn b hb with ⟨old, hold, hmem⟩ | ⟨-, hkind, -⟩
    · exact h.kinds hold b hmem
    · exact hkind
  · rcases hsniffer hgn hb with ⟨old, hold, hsniffer⟩ | hkind
    · exact h.sniffers hold hsniffer
    · exact hkind
  · rcases hback hgn b hb with ⟨old, hold, hmem⟩ | ⟨⟨rfl, rfl⟩, -, hfresh⟩
    · rcases hback hgn' b hb' with ⟨old', hold', hmem'⟩ | ⟨-, -, hfresh⟩
      · exact h.apart hold hold' hmem hmem'
      · exact absurd (hnumbered.branches hold b hmem) (Nat.not_lt.mpr hfresh)
    · rcases hback hgn' b hb' with ⟨old', hold', hmem'⟩ | ⟨⟨rfl, rfl⟩, -, -⟩
      · exact absurd (hnumbered.branches hold' b hmem') (Nat.not_lt.mpr hfresh)
      · exact ⟨rfl, rfl⟩

theorem same (h : Owned s) (hbranch : ∀ v id, s'.branch v id = s.branch v id) : Owned s' :=
  ⟨fun hgn => h.kinds (hbranch _ _ ▸ hgn), fun hgn => h.sniffers (hbranch _ _ ▸ hgn),
    fun hgn hgn' => h.apart (hbranch _ _ ▸ hgn) (hbranch _ _ ▸ hgn')⟩

theorem updateNic (h : Owned s) (hnumbered : Numbered s) {nic : Nic} {f : GraphNic → GraphNic}
    (hf : ∀ gn, s.findNic nic = some gn → ∀ b ∈ (f gn).bricks,
      b ∈ gn.bricks ∨ (BranchKind b.kind ∧ s.nextSerial ≤ b.serial))
    (hsniffer : ∀ gn b, (f gn).sniffer = some b → gn.sniffer = some b ∨ b.kind = .sniffer) :
    Owned (s.updateNic nic f) := by
  refine h.step hnumbered nic.vni nic.id (fun {v id gn'} hgn' b hb => ?_)
    fun {v id gn' b} hgn' hb => ?_
  · rw [Server.branch_updateNic] at hgn'
    split at hgn'
    · next hkey =>
        obtain ⟨rfl, rfl⟩ := hkey
        obtain ⟨gn, hgn, rfl⟩ := Option.map_eq_some_iff.mp hgn'
        rcases hf gn hgn b hb with hmem | hnew
        · exact .inl ⟨gn, hgn, hmem⟩
        · exact .inr ⟨⟨rfl, rfl⟩, hnew⟩
    · exact .inl ⟨gn', hgn', hb⟩
  · rw [Server.branch_updateNic] at hgn'
    split at hgn'
    · obtain ⟨gn, hgn, rfl⟩ := Option.map_eq_some_iff.mp hgn'
      exact (hsniffer gn b hb).imp_left fun hold => ⟨gn, hgn, hold⟩
    · exact .inl ⟨gn', hgn', hb⟩

theorem linked (h : Owned s) (hnumbered : Numbered s) {nic : Nic} {gn : GraphNic} {b : Brick}
    (hb : ∀ gn', s.findNic nic = some gn' →
      b ∈ gn'.bricks ∨ (BranchKind b.kind ∧ s.nextSerial ≤ b.serial)) :
    Owned (Graph.linked nic gn b s) := by
  refine (h.updateNic (f := withHead b) hnumbered (fun gn' hgn' c hc => ?_)
    fun gn' c hc => .inl hc).same fun _ _ => rfl
  simp only [withHead, GraphNic.bricks, List.cons_append, List.mem_cons] at hc
  rcases hc with rfl | hc
  · exact hb gn' hgn'
  · left
    simp only [GraphNic.bricks, List.cons_append, List.mem_cons]
    exact .inr hc

theorem traceStep (h : Owned s) (hnumbered : Numbered s) {nic : Nic}
    (hstep : TraceStep nic s s') : Owned s' := by
  cases hstep with
  | poll => exact h.same fun _ _ => rfl
  | @link gn b hgn hb =>
      refine h.linked hnumbered fun gn' hgn' => .inl ?_
      obtain rfl : gn = gn' := Option.some.inj (hgn.symm.trans hgn')
      simp [GraphNic.bricks, hb]
  | @linkNew gn path hgn hnone =>
      have hsniffed : Owned (sniffed nic path s) := by
        refine (h.updateNic (f := withSniffer ⟨.sniffer, s.nextSerial⟩) hnumbered
          (fun gn' hgn' c hc => ?_) fun gn' c hc => .inr ?_).same (s := s.updateNic nic _)
          fun v id => ?_
        · simp only [withSniffer, GraphNic.bricks, List.mem_append, Option.toList_some,
            List.mem_singleton] at hc
          rcases hc with hc | rfl
          · exact .inl (List.mem_append_left _ hc)
          · exact .inr ⟨.sniffer, le_rfl⟩
        · cases hc
          rfl
        · rw [sniffed, Server.branch_updateNic, Server.branch_updateNic]
          rfl
      refine hsniffed.linked (hnumbered.sniffed nic path) fun gn' hgn' => .inl ?_
      rw [sniffed_findNic hgn] at hgn'
      cases hgn'
      simp [withSniffer, GraphNic.bricks]
  | @linkPath gn path hgn =>
      have hfresh : BranchKind BrickKind.sniffer ∧ s.nextSerial ≤ s.nextSerial :=
        ⟨.sniffer, le_rfl⟩
      have hlinked : Owned (Graph.linked nic gn ⟨.sniffer, s.nextSerial⟩ s) :=
        h.linked hnumbered fun gn' _ => .inr hfresh
      refine hlinked.same fun v id => ?_
      rw [Graph.linked, Graph.linked, Server.emits_branch, Server.emits_branch,
        Server.branch_updateNic, Server.branch_updateNic]
      rfl
  | @unlink gn b hgn hb =>
      refine (h.updateNic (f := withHead (plainHead nic gn)) hnumbered
        (fun gn' hgn' c hc => .inl ?_) fun gn' c hc => .inl hc).same fun _ _ => rfl
      obtain rfl : gn = gn' := Option.some.inj (hgn.symm.trans hgn')
      have hplain : plainHead nic gn ∈ gn.bricks := by
        unfold plainHead
        split <;> simp [GraphNic.bricks]
      simp only [withHead, GraphNic.bricks, List.cons_append, List.mem_cons] at hc
      rcases hc with rfl | hc
      · exact hplain
      · simp only [GraphNic.bricks, List.cons_append, List.mem_cons]
        exact .inr hc

theorem fwUpdate (h : Owned s) (hnumbered : Numbered s) (ok : PgCall → Bool) (nic : Nic) :
    Owned (Graph.fwUpdate ok nic s) := by
  rcases fwUpdate_cases ok nic s with heq | ⟨gn, hstarted, hfilter, hgn⟩
  · rw [heq]
    exact h
  · rw [fwUpdate_eq hstarted hfilter hgn]
    refine (h.updateNic (f := setDefaultOutboundRule true) hnumbered
      (fun gn' _ c hc => .inl ?_) fun gn' c hc => .inl hc).same fun _ _ => rfl
    exact hc

theorem fwAddRule (h : Owned s) (hnumbered : Numbered s) (ok : PgCall → Bool) (nic : Nic)
    (rule : Rule) : Owned (Graph.fwAddRule ok nic rule s) := by
  rcases fwAddRule_cases ok nic rule s with heq | ⟨gn, hstarted, hfilter, hrule, hgn⟩
  · rw [heq]
    exact h
  · rw [fwAddRule_eq hstarted hfilter hrule hgn]
    have hsame : ∀ gn', (afterRule gn rule gn').bricks = gn'.bricks ∧
        (afterRule gn rule gn').sniffer = gn'.sniffer := by
      intro gn'
      unfold afterRule
      split <;> exact ⟨rfl, rfl⟩
    exact (h.updateNic (f := afterRule gn rule) hnumbered
      (fun gn' _ c hc => .inl ((hsame gn').1 ▸ hc))
      fun gn' c hc => .inl ((hsame gn').2 ▸ hc)).same fun _ _ => rfl

theorem newBranch_kinds (nic : Nic) (n : Nat) :
    ∀ b ∈ (newBranch nic n).bricks, BranchKind b.kind := by
  have hfour : ∀ b ∈ (newBranch nic n).bricks,
      b.kind ∈ [BrickKind.firewall, .antispoof, .vhost, .sniffer] := by
    simp only [GraphNic.bricks, newBranch]
    split_ifs <;> simp
  intro b hb
  have hkind := hfour b hb
  simp only [List.mem_cons, List.not_mem_nil, or_false] at hkind
  rcases hkind with hkind | hkind | hkind | hkind
  · exact hkind ▸ .firewall
  · exact hkind ▸ .antispoof
  · exact hkind ▸ .vhost
  · exact hkind ▸ .sniffer

theorem added (h : Owned s) (hnumbered : Numbered s) {ok : PgCall → Bool} {nic : Nic}
    {accepted : Bool} (hstarted : s.started = true) (hnew : s.branch nic.vni nic.id = none)
    (hadded : NicAdded ok nic s accepted s') : Owned s' := by
  have hbranch := (hadded.effect hstarted (by rw [vniEntry_lookup, hnew])).branch hnew
  have hsniffer : ∀ {b}, (filled nic (newBranch nic s.nextSerial)).sniffer = some b →
      b.kind = .sniffer := by
    intro b hb
    have hsame : (filled nic (newBranch nic s.nextSerial)).sniffer =
        if nic.packetTrace then some ⟨.sniffer, s.nextSerial⟩ else none := by
      unfold filled
      split <;> rfl
    rw [hsame] at hb
    split at hb
    · cases hb
      rfl
    · cases hb
  refine h.step hnumbered nic.vni nic.id (fun {v id gn'} hgn' b hb => ?_)
    fun {v id gn' b} hgn' hb => ?_
  · rw [hbranch] at hgn'
    split at hgn'
    · next hkey =>
        cases hgn'
        rw [filled_bricks] at hb
        exact .inr ⟨⟨hkey.2.1.symm, hkey.2.2.symm⟩, newBranch_kinds nic s.nextSerial b hb,
          (newBranch_bricks nic s.nextSerial b hb).ge⟩
    · exact .inl ⟨gn', hgn', hb⟩
  · rw [hbranch] at hgn'
    split at hgn'
    · cases hgn'
      exact .inr (hsniffer hb)
    · exact .inl ⟨gn', hgn', hb⟩

theorem deleted (h : Owned s) {nic : Nic} (hdeleted : NicDeleted nic s s') : Owned s' := by
  have hback : ∀ {v id gn}, s'.branch v id = some gn → s.branch v id = some gn := by
    intro v id gn hgn
    rw [hdeleted.effect.branch] at hgn
    split at hgn
    · cases hgn
    · exact hgn
  exact ⟨fun hgn => h.kinds (hback hgn), fun hgn => h.sniffers (hback hgn),
    fun hgn hgn' => h.apart (hback hgn) (hback hgn')⟩

end Owned

theorem owned_kept (ambient : Ambient) : KeptByStep ambient fun s => Numbered s ∧ Owned s where
  model f h := ⟨(numbered_kept ambient).model f h.1, h.2.same fun _ _ => rfl⟩
  calm h hops := ⟨(numbered_kept ambient).calm h.1 hops, h.2.same fun _ _ => rfl⟩
  trace h hstep := ⟨(numbered_kept ambient).trace h.1 hstep, h.2.traceStep h.1 hstep⟩
  update nic h := ⟨(numbered_kept ambient).update nic h.1, h.2.fwUpdate h.1 _ nic⟩
  rule nic rule h := ⟨(numbered_kept ambient).rule nic rule h.1, h.2.fwAddRule h.1 _ nic rule⟩
  added h hstarted hnew hadded hback :=
    ⟨(numbered_kept ambient).added h.1 hstarted hnew hadded hback,
      h.2.added h.1 hstarted hnew hadded⟩
  deleted h hok hdeleted :=
    ⟨(numbered_kept ambient).deleted h.1 hok hdeleted, h.2.deleted hdeleted⟩

theorem owned_start (config : AppConfig) (pid : Nat) (startDate : UInt64) :
    Owned (Server.start config pid startDate) := by
  refine ⟨fun {v id gn} hgn => ?_, fun {v id gn b} hgn => ?_, fun {v id gn} _ _ _ _ hgn => ?_⟩
  · simp at hgn
  · simp at hgn
  · simp at hgn

end Butterfly
