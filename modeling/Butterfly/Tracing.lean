import Butterfly.Agreement

/-!
# What the trace functions do

`LinkSniffer`, `EnablePacketTrace`, `DisablePacketTrace` and
`NicConfigPacketTracePath` as changes of one branch and operations appended to
the log.
-/

namespace Butterfly.Graph

open Std Foundation

/-! ## Changes of a branch -/

def withHead (head : Brick) (n : GraphNic) : GraphNic := { n with head := head }

def withSniffer (b : Brick) (n : GraphNic) : GraphNic := { n with sniffer := some b }

def dropped (gn : GraphNic) (head : Brick) : List Brick :=
  if gn.head ∈ [gn.firewall, gn.antispoof, gn.vhost, head] ++ gn.sniffer.toList then []
  else [gn.head]

def linkOps (nic : Nic) (gn : GraphNic) (b : Brick) : List (Op Rpc Direct) :=
  if nic.bypassFiltering then
    .push (.unlink gn.vhost) :: (destroyOps (dropped gn b) ++
      [.push (.link b gn.vhost), .push (.link vtepBrick b), .push (.addVni vtepBrick b nic.vni)])
  else
    .push (.unlinkEdge gn.antispoof gn.vhost) :: (destroyOps (dropped gn b) ++
      [.push (.link gn.antispoof b), .push (.link b gn.vhost)])

def linked (nic : Nic) (gn : GraphNic) (b : Brick) (s : Server) : Server :=
  (s.updateNic nic (withHead b)).emits (linkOps nic gn b)

def plainHead (nic : Nic) (gn : GraphNic) : Brick :=
  if nic.bypassFiltering then gn.vhost else gn.antispoof

def unlinkOps (nic : Nic) (gn : GraphNic) (b : Brick) : List (Op Rpc Direct) :=
  .push (.unlink b) :: (destroyOps (dropped gn (plainHead nic gn)) ++
    if nic.bypassFiltering then
      [.push (.link vtepBrick gn.vhost), .push (.addVni vtepBrick gn.vhost nic.vni)]
    else [.push (.link gn.antispoof gn.vhost)])

def unlinked (nic : Nic) (gn : GraphNic) (b : Brick) (s : Server) : Server :=
  (s.updateNic nic (withHead (plainHead nic gn))).emits (unlinkOps nic gn b)

def printed (path : String) (s : Server) : Server :=
  s.takeSerial.emits [.direct (.printNew ⟨.sniffer, s.nextSerial⟩ path)]

def sniffed (nic : Nic) (path : String) (s : Server) : Server :=
  (printed path s).updateNic nic (withSniffer ⟨.sniffer, s.nextSerial⟩)

/-! ## The functions -/

section Cases

variable {ok : PgCall → Bool} {nic : Nic} {s s' : Server} {gn : GraphNic}

theorem setHead_eq (nic : Nic) (gn : GraphNic) (head : Brick) (s : Server) :
    setHead nic gn head s =
      (s.updateNic nic (withHead head)).emits (destroyOps (dropped gn head)) := by
  simp only [setHead, dropped, Server.release_eq, Server.emits_updateNic]
  split <;> rfl

theorem linkSniffer_eq (hgn : s.findNic nic = some gn) (b : Brick) :
    linkSniffer nic b s = some (linked nic gn b s) := by
  simp only [linkSniffer, hgn, Option.bind_eq_bind, Option.bind_some, linked, linkOps]
  split
  · simp [setHead_eq, Server.push_eq]
  · simp [setHead_eq, Server.push_eq]

theorem disablePacketTrace_cases (hgn : s.findNic nic = some gn)
    (h : disablePacketTrace nic s = some s') :
    ((nic.packetTrace = false ∨ gn.sniffer = none) ∧ s' = s) ∨
      (nic.packetTrace = true ∧ ∃ b, gn.sniffer = some b ∧ s' = unlinked nic gn b s) := by
  simp only [disablePacketTrace] at h
  split at h
  · next hoff =>
      cases h
      exact .inl ⟨.inl (by simpa using hoff), rfl⟩
  · next hon =>
      simp only [hgn, Option.bind_eq_bind, Option.bind_some] at h
      split at h
      · next hnone =>
          cases h
          exact .inl ⟨.inr hnone, rfl⟩
      · next b hb =>
          refine .inr ⟨by simpa using hon, b, hb, ?_⟩
          unfold unlinked unlinkOps plainHead
          split at h
          · next hbypass =>
              cases h
              simp [setHead_eq, Server.push_eq, hbypass]
          · next hfilter =>
              cases h
              simp [setHead_eq, Server.push_eq, hfilter]

theorem enablePacketTrace_cases (hgn : s.findNic nic = some gn)
    (h : enablePacketTrace ok nic s = some s') :
    ((nic.packetTrace = true ∨ (gn.sniffer = none ∧
        ok (.printNew ("sniffer-" ++ gn.id) nic.packetTracePath) = false)) ∧ s' = s) ∨
      (nic.packetTrace = false ∧
        ((∃ b, gn.sniffer = some b ∧ s' = linked nic gn b s) ∨
          ((gn.sniffer = none ∧ ok (.printNew ("sniffer-" ++ gn.id) nic.packetTracePath) = true) ∧
            s' = linked nic (withSniffer ⟨.sniffer, s.nextSerial⟩ gn)
              ⟨.sniffer, s.nextSerial⟩ (sniffed nic nic.packetTracePath s)))) := by
  simp only [enablePacketTrace] at h
  split at h
  · next hon =>
      cases h
      exact .inl ⟨.inl hon, rfl⟩
  · next hoff =>
      have hfalse : nic.packetTrace = false := by simpa using hoff
      simp only [hgn, Option.bind_eq_bind, Option.bind_some] at h
      split at h
      · next b hb =>
          rw [linkSniffer_eq hgn] at h
          cases h
          exact .inr ⟨hfalse, .inl ⟨b, hb, rfl⟩⟩
      · next hnone =>
          split at h
          · next hfail =>
              cases h
              exact .inl ⟨.inr ⟨hnone, by simpa using hfail⟩, rfl⟩
          · next hprinted =>
            have hfind : (sniffed nic nic.packetTracePath s).findNic nic =
                some (withSniffer ⟨.sniffer, s.nextSerial⟩ gn) := by
              rw [sniffed, Server.findNic_eq, Server.branch_updateNic, if_pos ⟨rfl, rfl⟩]
              change Option.map _ (s.findNic nic) = _
              rw [hgn]
              rfl
            have hlink := linkSniffer_eq hfind ⟨.sniffer, s.nextSerial⟩
            change linkSniffer nic ⟨.sniffer, s.nextSerial⟩
              (sniffed nic nic.packetTracePath s) = some s' at h
            rw [hlink] at h
            cases h
            exact .inr ⟨hfalse, .inr ⟨⟨hnone, by simpa using hprinted⟩, rfl⟩⟩

theorem nicConfigPacketTrace_cases {isTraceSet : Bool}
    (h : nicConfigPacketTrace ok nic isTraceSet s = some s') :
    ∃ t, s' = updatePoll t ∧ (isTraceSet = true → enablePacketTrace ok nic s = some t) ∧
      (isTraceSet = false → disablePacketTrace nic s = some t) := by
  simp only [nicConfigPacketTrace] at h
  split at h
  · next hset =>
      obtain ⟨t, ht, heq⟩ := Option.bind_eq_some_iff.mp h
      cases heq
      exact ⟨t, rfl, fun _ => ht, fun hnot => by rw [hset] at hnot; cases hnot⟩
  · next hset =>
      obtain ⟨t, ht, heq⟩ := Option.bind_eq_some_iff.mp h
      cases heq
      exact ⟨t, rfl, fun hnot => absurd hnot hset, fun _ => ht⟩

theorem nicConfigPacketTracePath_cases {path : String}
    (h : nicConfigPacketTracePath ok nic path s = some s') :
    (nic.packetTracePath = path ∧ s' = s) ∨
      (nic.packetTracePath ≠ path ∧ ∃ t gn', disablePacketTrace nic s = some t ∧
        t.findNic nic = some gn' ∧
        ((ok (.printNew ("sniffer-" ++ gn'.id) path) = false ∧ s' = t) ∨
          (ok (.printNew ("sniffer-" ++ gn'.id) path) = true ∧
            s' = updatePoll (linked nic gn' ⟨.sniffer, t.nextSerial⟩ (printed path t))))) := by
  simp only [nicConfigPacketTracePath] at h
  split at h
  · next hsame =>
      cases h
      exact .inl ⟨hsame, rfl⟩
  · next hnew =>
      simp only [Option.bind_eq_bind, Option.bind_eq_some_iff] at h
      obtain ⟨t, ht, gn', hgn', h⟩ := h
      refine .inr ⟨hnew, t, gn', ht, hgn', ?_⟩
      split at h
      · next hfail =>
          cases h
          exact .inl ⟨by simpa using hfail, rfl⟩
      · next hok =>
          have hfind : (printed path t).findNic nic = some gn' := hgn'
          have hlink := linkSniffer_eq hfind ⟨.sniffer, t.nextSerial⟩
          obtain ⟨u, hu, heq⟩ := Option.bind_eq_some_iff.mp h
          change linkSniffer nic ⟨.sniffer, t.nextSerial⟩ (printed path t) = some u at hu
          rw [hlink] at hu
          cases hu
          cases heq
          exact .inr ⟨by simpa using hok, rfl⟩

end Cases

/-! ## What they leave alone -/

def SameMarks (s s' : Server) : Prop :=
  ∀ v id, (s'.branch v id).map GraphNic.defaultOutboundRule =
    (s.branch v id).map GraphNic.defaultOutboundRule

section Marks

variable {ok : PgCall → Bool} {nic : Nic} {a b c s s' : Server}

theorem SameMarks.refl (s : Server) : SameMarks s s := fun _ _ => rfl

theorem SameMarks.trans (hab : SameMarks a b) (hbc : SameMarks b c) : SameMarks a c :=
  fun v id => (hbc v id).trans (hab v id)

theorem sameMarks_of_vnis (h : s'.vnis = s.vnis) : SameMarks s s' := by
  intro v id
  rw [Server.branch, h, Server.branch]

theorem sameMarks_updateNic (nic : Nic) (f : GraphNic → GraphNic)
    (hf : ∀ n, (f n).defaultOutboundRule = n.defaultOutboundRule) (s : Server) :
    SameMarks s (s.updateNic nic f) := by
  intro v id
  rw [Server.branch_updateNic]
  split
  · rw [Option.map_map]
    congr 1
    funext n
    exact hf n
  · rfl

theorem sameMarks_linked (nic : Nic) (gn : GraphNic) (b : Brick) (s : Server) :
    SameMarks s (linked nic gn b s) :=
  (sameMarks_updateNic nic (withHead b) (fun _ => rfl) s).trans (sameMarks_of_vnis rfl)

theorem sameMarks_updatePoll (s : Server) : SameMarks s (updatePoll s) :=
  sameMarks_of_vnis rfl

theorem disablePacketTrace_sameMarks (hfind : (s.findNic nic).isSome)
    (h : disablePacketTrace nic s = some s') : SameMarks s s' := by
  obtain ⟨gn, hgn⟩ := Option.isSome_iff_exists.mp hfind
  rcases disablePacketTrace_cases hgn h with ⟨-, rfl⟩ | ⟨-, b, -, rfl⟩
  · exact .refl s'
  · exact (sameMarks_updateNic nic (withHead (plainHead nic gn)) (fun _ => rfl) s).trans
      (sameMarks_of_vnis rfl)

theorem enablePacketTrace_sameMarks (hfind : (s.findNic nic).isSome)
    (h : enablePacketTrace ok nic s = some s') : SameMarks s s' := by
  obtain ⟨gn, hgn⟩ := Option.isSome_iff_exists.mp hfind
  rcases enablePacketTrace_cases hgn h with ⟨-, rfl⟩ | ⟨-, ⟨b, -, rfl⟩ | ⟨-, rfl⟩⟩
  · exact .refl s'
  · exact sameMarks_linked _ _ _ _
  · have hprinted : SameMarks s (printed nic.packetTracePath s) := sameMarks_of_vnis rfl
    have hsniffed := hprinted.trans
      (sameMarks_updateNic nic (withSniffer ⟨.sniffer, s.nextSerial⟩) (fun _ => rfl) _)
    exact hsniffed.trans (sameMarks_linked _ _ _ _)

theorem nicConfigPacketTrace_sameMarks {isTraceSet : Bool} (hfind : (s.findNic nic).isSome)
    (h : nicConfigPacketTrace ok nic isTraceSet s = some s') : SameMarks s s' := by
  obtain ⟨t, rfl, henable, hdisable⟩ := nicConfigPacketTrace_cases h
  refine SameMarks.trans ?_ (sameMarks_updatePoll t)
  cases isTraceSet with
  | true => exact enablePacketTrace_sameMarks hfind (henable rfl)
  | false => exact disablePacketTrace_sameMarks hfind (hdisable rfl)

theorem nicConfigPacketTracePath_sameMarks {path : String} (hfind : (s.findNic nic).isSome)
    (h : nicConfigPacketTracePath ok nic path s = some s') : SameMarks s s' := by
  rcases nicConfigPacketTracePath_cases h with ⟨-, rfl⟩ | ⟨-, t, gn', ht, -, hrest⟩
  · exact .refl s'
  · refine (disablePacketTrace_sameMarks hfind ht).trans ?_
    rcases hrest with ⟨-, rfl⟩ | ⟨-, rfl⟩
    · exact .refl s'
    · have hprinted : SameMarks t (printed path t) := sameMarks_of_vnis rfl
      exact hprinted.trans ((sameMarks_linked _ _ _ _).trans (sameMarks_updatePoll _))

theorem nicConfigAntiSpoof_vnis (P : Platform) (ok : PgCall → Bool) (nic : Nic)
    (enable : Bool) (s : Server) : (nicConfigAntiSpoof P ok nic enable s).vnis = s.vnis := by
  unfold nicConfigAntiSpoof
  split
  · rfl
  · next gn hgn =>
      split
      · obtain ⟨ops, -, heq⟩ := arpAddAll_eq P ok gn.antispoof nic.ipList
          (s.direct (.arpDelAll gn.antispoof))
        rw [heq]
        rfl
      · rfl

end Marks

end Butterfly.Graph
