import Mathlib.Data.List.Forall2
import Mathlib.Data.List.Perm.Basic

/-!
# The responder of a bench NIC

`rx_rcv_callback` and `tx_rcv_callback` share the queue of a NIC of type `ICMP_RCV_LIKE`.
Numbers in a packet are as a host reads them that stores the low byte first.
-/

namespace Butterfly.Responder

/-! ## Packets -/

def htons (x : UInt16) : UInt16 := UInt16.ofNat (x.toNat % 256 * 256 + x.toNat / 256)

def htonl (x : UInt32) : UInt32 :=
  UInt32.ofNat (x.toNat % 256 * 16777216 + x.toNat / 256 % 256 * 65536 +
    x.toNat / 65536 % 256 * 256 + x.toNat / 16777216)

structure EtherHeader where
  etherDhost : Vector UInt8 6
  etherShost : Vector UInt8 6
  etherType : UInt16
  deriving DecidableEq

structure IpHeader where
  ipHl : UInt8
  ipV : UInt8
  ipTos : UInt8
  ipLen : UInt16
  ipId : UInt16
  ipOff : UInt16
  ipTtl : UInt8
  ipP : UInt8
  ipSum : UInt16
  ipSrc : UInt32
  ipDst : UInt32
  deriving DecidableEq

structure Icmp where
  icmpType : UInt8
  icmpCode : UInt8
  icmpCksum : UInt16
  icmpId : UInt16
  icmpSeq : UInt16
  icmpOtime : UInt32
  icmpRtime : UInt32
  icmpTtime : UInt32
  deriving DecidableEq

structure H where
  e : EtherHeader
  ip : IpHeader
  icmp : Icmp
  payload : Vector UInt8 36
  deriving DecidableEq

structure PgPackets where
  computeLen : Nat → Bool
  ipv4Checksum : IpHeader → UInt16
  sum : Icmp → Vector UInt8 36 → UInt16

structure BenchInfo where
  smac : Vector UInt8 6
  dmac : Vector UInt8 6
  ipsrc : Int32
  ipdest : Int32
  seq : UInt16
  time : UInt64
  deriving DecidableEq

/-- The packet in a slot, or `none` for the return value -1. -/
def mkHdr (pg : PgPackets) (slot : Nat) (b : BenchInfo) (icmpType : UInt8) (seq : UInt16)
    (time : UInt32) : Option H :=
  if pg.computeLen slot then
    let ip : IpHeader :=
      { ipHl := 5, ipV := 4, ipTos := 0, ipLen := htons (20 + 28 + 36), ipId := 0,
        ipOff := (4 : UInt16) <<< 4, ipTtl := 64, ipP := 1, ipSum := 0,
        ipSrc := b.ipsrc.toUInt32, ipDst := b.ipdest.toUInt32 }
    let icmp : Icmp :=
      { icmpType := icmpType, icmpCode := 0, icmpCksum := 0, icmpId := 0x0bb0,
        icmpSeq := htons seq, icmpOtime := htonl time, icmpRtime := 0, icmpTtime := 0 }
    let payload := Vector.replicate 36 0
    some
      { e := { etherDhost := b.dmac, etherShost := b.smac, etherType := htons 0x0800 }
        ip := { ip with ipSum := pg.ipv4Checksum ip }
        icmp := { icmp with icmpCksum := ~~~pg.sum icmp payload }
        payload := payload }
  else none

/-! ## The two callbacks -/

def benchRcvMaxL : Nat := 256

structure BenchRcv where
  binfos : Vector BenchInfo benchRcvMaxL
  ipsrc : UInt32
  l : Nat

def BenchInfo.ofPacket (pdata : H) : BenchInfo where
  smac := pdata.e.etherDhost
  dmac := pdata.e.etherShost
  ipdest := pdata.ip.ipSrc.toInt32
  ipsrc := pdata.ip.ipDst.toInt32
  seq := pdata.icmp.icmpSeq
  time := (htonl pdata.icmp.icmpOtime).toUInt64

def BenchRcv.push (nfo : BenchRcv) (pdata : H) (h : nfo.l < benchRcvMaxL) : BenchRcv :=
  { nfo with binfos := nfo.binfos.set nfo.l (BenchInfo.ofPacket pdata) h, l := nfo.l + 1 }

def rxRcvCallback : List H → BenchRcv → BenchRcv
  | [], nfo => nfo
  | pdata :: burst, nfo =>
      if hfull : nfo.l ≥ benchRcvMaxL - 1 then nfo
      else if nfo.ipsrc ≠ pdata.ip.ipDst then rxRcvCallback burst nfo
      else rxRcvCallback burst (nfo.push pdata (by omega))

def txLoop (pg : PgPackets) (binfos : Vector BenchInfo benchRcvMaxL) :
    Nat → Nat → Nat × List (Nat × H)
  | 0, _ => (0, [])
  | i + 1, j =>
      if hj : j < 64 then
        let binfo := binfos.get ⟨j, Nat.lt_trans hj (by decide)⟩
        match mkHdr pg i binfo 0 binfo.seq binfo.time.toUInt32 with
        | none => (i + 1, [])
        | some packet =>
            let (l, packets) := txLoop pg binfos i (j + 1)
            (l, (i, packet) :: packets)
      else (i + 1, [])

structure Transmit where
  nfo : BenchRcv
  burst : List (Nat × H)
  len : Nat

def txRcvCallback (pg : PgPackets) (nfo : BenchRcv) : Transmit :=
  let (l, burst) := txLoop pg nfo.binfos nfo.l 0
  { nfo := { nfo with l := l }, burst := burst, len := nfo.l - l }

/-- The first `*len` slots, each with the packet made in it, if there is one. -/
def Transmit.packets (t : Transmit) : List (Option H) :=
  (List.range t.len).map fun slot => List.lookup slot t.burst

/-! ## What is promised -/

def H.IsRequest (p : H) : Prop := p.icmp.icmpType = 8

/-- The reply to a request: the addresses exchanged, the rest of what identifies it kept. -/
structure Answers (request reply : H) : Prop where
  etherShost : reply.e.etherShost = request.e.etherDhost
  etherDhost : reply.e.etherDhost = request.e.etherShost
  ipSrc : reply.ip.ipSrc = request.ip.ipDst
  ipDst : reply.ip.ipDst = request.ip.ipSrc
  icmpType : reply.icmp.icmpType = 0
  icmpSeq : reply.icmp.icmpSeq = request.icmp.icmpSeq
  icmpOtime : reply.icmp.icmpOtime = request.icmp.icmpOtime

def BenchRcv.accepted (nfo : BenchRcv) (burst : List H) : List H :=
  (burst.filter fun p => nfo.ipsrc = p.ip.ipDst).take (benchRcvMaxL - 1 - nfo.l)

def BenchRcv.pending (nfo : BenchRcv) : List BenchInfo := nfo.binfos.toList.take nfo.l

def Replied (packet : Option H) (p : H) : Prop :=
  p.IsRequest → ∃ reply, packet = some reply ∧ Answers p reply

/-- Each packet of `answered` has a slot of its own, where a request finds its reply. -/
def OneEach (sent : List (Option H)) (answered : List H) : Prop :=
  ∃ order, order.Perm answered ∧ List.Forall₂ Replied sent order

inductive Event where
  | received (burst : List H)
  | transmit

structure World where
  nfo : BenchRcv
  /-- All that was queued, and all slots of the bursts transmitted. -/
  queued : List H := []
  sent : List (Option H) := []

def World.step (pg : PgPackets) (w : World) : Event → World
  | .received burst =>
      { w with nfo := rxRcvCallback burst w.nfo
               queued := w.queued ++ w.nfo.accepted burst }
  | .transmit =>
      let t := txRcvCallback pg w.nfo
      { w with nfo := t.nfo, sent := w.sent ++ t.packets }

def World.run (pg : PgPackets) (w : World) (events : List Event) : World :=
  events.foldl (World.step pg) w

/-- What was queued is answered, once, or still pending. -/
def World.Right (w : World) : Prop :=
  ∃ answered pending, w.queued = answered ++ pending ∧
    w.nfo.pending = pending.map BenchInfo.ofPacket ∧ OneEach w.sent answered

/-! ## When it is kept -/

def EqualBytes (x : UInt16) : Prop := x.toNat % 256 = x.toNat / 256

def World.Calm (w : World) : Event → Prop
  | .received burst =>
      ∀ p ∈ w.nfo.accepted burst, p.IsRequest → EqualBytes p.icmp.icmpSeq
  | .transmit => w.nfo.l ≤ 64

def World.StaysCalm (pg : PgPackets) : World → List Event → Prop
  | _, [] => True
  | w, event :: events => w.Calm event ∧ World.StaysCalm pg (w.step pg event) events

variable {pg : PgPackets} {w : World} {nfo : BenchRcv} {p : H}

theorem htons_eq_self_iff {x : UInt16} : htons x = x ↔ EqualBytes x := by
  have hlt := x.toNat_lt
  have hbound : x.toNat % 256 * 256 + x.toNat / 256 < 2 ^ 16 := by omega
  rw [← UInt16.toNat_inj, htons, UInt16.toNat_ofNat_of_lt' hbound, EqualBytes]
  omega

theorem toNat_htonl {x : UInt32} {a b c d : Nat} (ha : a < 256) (hb : b < 256) (hc : c < 256)
    (hd : d < 256) (hx : x.toNat = a + 256 * b + 65536 * c + 16777216 * d) :
    (htonl x).toNat = d + 256 * c + 65536 * b + 16777216 * a := by
  rw [htonl, hx, UInt32.toNat_ofNat_of_lt' (by simp only [UInt32.size]; omega)]
  omega

theorem htonl_htonl (x : UInt32) : htonl (htonl x) = x := by
  have hlt := x.toNat_lt
  obtain ⟨a, b, c, d, ha, hb, hc, hd, hx⟩ : ∃ a b c d, a < 256 ∧ b < 256 ∧ c < 256 ∧ d < 256 ∧
      x.toNat = a + 256 * b + 65536 * c + 16777216 * d :=
    ⟨x.toNat % 256, x.toNat / 256 % 256, x.toNat / 65536 % 256, x.toNat / 16777216,
      by omega, by omega, by omega, by omega, by omega⟩
  have hback := toNat_htonl hd hc hb ha (toNat_htonl ha hb hc hd hx)
  rw [← UInt32.toNat_inj, hback, hx]

theorem mkHdr_ofPacket {slot : Nat} (hpg : pg.computeLen slot = true) (p : H) :
    ∃ reply, mkHdr pg slot (BenchInfo.ofPacket p) 0 (BenchInfo.ofPacket p).seq
        (BenchInfo.ofPacket p).time.toUInt32 = some reply ∧
      (EqualBytes p.icmp.icmpSeq → Answers p reply) := by
  refine ⟨_, by rw [mkHdr, if_pos hpg], fun hseq => ?_⟩
  exact
    { etherShost := rfl
      etherDhost := rfl
      ipSrc := by simp [BenchInfo.ofPacket]
      ipDst := by simp [BenchInfo.ofPacket]
      icmpType := rfl
      icmpSeq := htons_eq_self_iff.mpr hseq
      icmpOtime := by simp [BenchInfo.ofPacket, htonl_htonl] }

/-! ## One callback -/

@[simp] theorem BenchRcv.push_l (h : nfo.l < benchRcvMaxL) : (nfo.push p h).l = nfo.l + 1 := rfl

@[simp] theorem BenchRcv.push_pending (h : nfo.l < benchRcvMaxL) :
    (nfo.push p h).pending = nfo.pending ++ [BenchInfo.ofPacket p] := by
  have hlength : nfo.l < (nfo.binfos.toList.set nfo.l (BenchInfo.ofPacket p)).length := by
    rw [List.length_set, Vector.length_toList]
    exact h
  rw [pending, push_l, push, Vector.toList_set, List.take_succ_eq_append_getElem hlength,
    List.take_set_of_le (Nat.le_refl _), List.getElem_set_self]
  rfl

theorem BenchRcv.accepted_full {burst : List H} (hfull : nfo.l ≥ benchRcvMaxL - 1) :
    nfo.accepted burst = [] := by
  rw [accepted, Nat.sub_eq_zero_of_le hfull, List.take_zero]

theorem BenchRcv.accepted_other {burst : List H} (hother : nfo.ipsrc ≠ p.ip.ipDst) :
    nfo.accepted (p :: burst) = nfo.accepted burst := by
  rw [accepted, List.filter_cons_of_neg (by simpa using hother)]
  rfl

theorem BenchRcv.accepted_push {burst : List H} (hroom : nfo.l < benchRcvMaxL - 1)
    (hours : nfo.ipsrc = p.ip.ipDst) (h : nfo.l < benchRcvMaxL) :
    nfo.accepted (p :: burst) = p :: (nfo.push p h).accepted burst := by
  have hone : benchRcvMaxL - 1 - nfo.l = benchRcvMaxL - 1 - (nfo.l + 1) + 1 := by omega
  rw [accepted, List.filter_cons_of_pos (by simpa using hours), hone, List.take_succ_cons]
  rfl

theorem rxRcvCallback_pending (burst : List H) (nfo : BenchRcv) :
    (rxRcvCallback burst nfo).pending =
      nfo.pending ++ (nfo.accepted burst).map BenchInfo.ofPacket := by
  induction burst generalizing nfo with
  | nil => simp [rxRcvCallback, BenchRcv.accepted]
  | cons pdata burst ih =>
      unfold rxRcvCallback
      split
      · next hfull => rw [BenchRcv.accepted_full hfull, List.map_nil, List.append_nil]
      · next hroom =>
          split
          · next hother => rw [ih, BenchRcv.accepted_other hother]
          · next hours =>
              rw [ih, BenchRcv.push_pending, List.append_assoc,
                BenchRcv.accepted_push (Nat.lt_of_not_le hroom) (Decidable.not_not.mp hours)
                  (by omega)]
              rfl

theorem txLoop_eq (hpg : ∀ slot, pg.computeLen slot = true)
    (binfos : Vector BenchInfo benchRcvMaxL) {i j : Nat} {pending : List H}
    (hbound : i + j ≤ 64)
    (hinfos : (binfos.toList.drop j).take i = pending.map BenchInfo.ofPacket)
    (hseqs : ∀ p ∈ pending, p.IsRequest → EqualBytes p.icmp.icmpSeq) :
    ∃ packets, txLoop pg binfos i j = (0, packets) ∧
      List.Forall₂ Replied ((List.range i).map fun slot => List.lookup slot packets)
        pending.reverse := by
  -- The queue is walked forwards, the burst backwards.
  induction i generalizing j pending with
  | zero =>
      have hnone : pending = [] := by simpa using hinfos.symm
      subst hnone
      exact ⟨[], rfl, .nil⟩
  | succ i ih =>
      have hj : j < 64 := by omega
      have hin : j < binfos.toList.length := by
        rw [Vector.length_toList]
        exact Nat.lt_trans hj (by decide)
      rw [List.drop_eq_getElem_cons hin, List.take_succ_cons] at hinfos
      obtain ⟨p, rest, rfl, hfirst, hrest⟩ := List.map_eq_cons_iff.mp hinfos.symm
      obtain ⟨hseq, hseqs⟩ := List.forall_mem_cons.mp hseqs
      obtain ⟨packets, hloop, hreplied⟩ := ih (by omega) hrest.symm hseqs
      obtain ⟨reply, hreply, hanswers⟩ := mkHdr_ofPacket (hpg i) p
      have hget : binfos.get ⟨j, Nat.lt_trans hj (by decide)⟩ = BenchInfo.ofPacket p := by
        rw [hfirst]
        rfl
      refine ⟨(i, reply) :: packets, ?_, ?_⟩
      · unfold txLoop
        rw [dif_pos hj]
        simp only [hget, hreply, hloop]
      · have hbelow : ((List.range i).map fun slot => List.lookup slot ((i, reply) :: packets)) =
            (List.range i).map fun slot => List.lookup slot packets := by
          refine List.map_congr_left fun slot hslot => ?_
          have hne : (slot == i) = false := beq_eq_false_iff_ne.mpr
            (Nat.ne_of_lt (List.mem_range.mp hslot))
          rw [List.lookup_cons, hne]
        rw [List.range_succ, List.map_append, hbelow, List.reverse_cons]
        exact List.rel_append hreplied (.cons
          (fun hrequest => ⟨reply, List.lookup_cons_self, hanswers (hseq hrequest)⟩) .nil)

theorem txRcvCallback_answers (hpg : ∀ slot, pg.computeLen slot = true) (hfew : nfo.l ≤ 64)
    {pending : List H} (hpending : nfo.pending = pending.map BenchInfo.ofPacket)
    (hseqs : ∀ p ∈ pending, p.IsRequest → EqualBytes p.icmp.icmpSeq) :
    (txRcvCallback pg nfo).nfo.pending = [] ∧
      OneEach (txRcvCallback pg nfo).packets pending := by
  obtain ⟨packets, hloop, hreplied⟩ := txLoop_eq (j := 0) hpg nfo.binfos
    (Nat.add_zero nfo.l ▸ hfew) (by rw [List.drop_zero]; exact hpending) hseqs
  have hpoll : txRcvCallback pg nfo =
      { nfo := { nfo with l := 0 }, burst := packets, len := nfo.l } := by
    rw [txRcvCallback, hloop]
    rfl
  rw [hpoll]
  exact ⟨List.take_zero, pending.reverse, List.reverse_perm pending, hreplied⟩

/-! ## Runs -/

theorem OneEach.append {sent sent' : List (Option H)} {answered answered' : List H}
    (h : OneEach sent answered) (h' : OneEach sent' answered') :
    OneEach (sent ++ sent') (answered ++ answered') := by
  obtain ⟨order, hperm, hreplied⟩ := h
  obtain ⟨order', hperm', hreplied'⟩ := h'
  exact ⟨order ++ order', hperm.append hperm', List.rel_append hreplied hreplied'⟩

/-- `World.Right` with the requests known to have a good number. -/
structure World.Tidy (w : World) (answered pending : List H) : Prop where
  queued : w.queued = answered ++ pending
  infos : w.nfo.pending = pending.map BenchInfo.ofPacket
  seqs : ∀ p ∈ pending, p.IsRequest → EqualBytes p.icmp.icmpSeq
  sent : OneEach w.sent answered

theorem World.Tidy.right {answered pending : List H} (h : w.Tidy answered pending) : w.Right :=
  ⟨answered, pending, h.queued, h.infos, h.sent⟩

theorem World.Tidy.received {answered pending burst : List H} (h : w.Tidy answered pending)
    (hcalm : w.Calm (.received burst)) :
    (w.step pg (.received burst)).Tidy answered (pending ++ w.nfo.accepted burst) where
  queued := by rw [← List.append_assoc, ← h.queued]; rfl
  infos := by rw [List.map_append, ← h.infos]; exact rxRcvCallback_pending burst w.nfo
  seqs := by
    intro p hp
    rcases List.mem_append.mp hp with hp | hp
    · exact h.seqs p hp
    · exact hcalm p hp
  sent := h.sent

theorem World.Tidy.transmit (hpg : ∀ slot, pg.computeLen slot = true)
    {answered pending : List H} (h : w.Tidy answered pending) (hcalm : w.Calm .transmit) :
    (w.step pg .transmit).Tidy (answered ++ pending) [] := by
  obtain ⟨hnone, hsent⟩ := txRcvCallback_answers hpg hcalm h.infos h.seqs
  exact
    { queued := by rw [List.append_nil, ← h.queued]; rfl
      infos := hnone
      seqs := fun p hp => absurd hp List.not_mem_nil
      sent := h.sent.append hsent }

theorem World.Tidy.run (hpg : ∀ slot, pg.computeLen slot = true) {answered pending : List H}
    {events : List Event} (h : w.Tidy answered pending) (hcalm : w.StaysCalm pg events) :
    ∃ answered pending, (w.run pg events).Tidy answered pending := by
  induction events generalizing w answered pending with
  | nil => exact ⟨answered, pending, h⟩
  | cons event events ih =>
      cases event with
      | received burst => exact ih (h.received hcalm.1) hcalm.2
      | transmit => exact ih (h.transmit hpg hcalm.1) hcalm.2

/--
Every request is answered once or pending, and a poll that finds at most 64 pending leaves
none, as long as no poll finds more and no number of a request changes with the byte order.
-/
theorem responder_answers_once (hpg : ∀ slot, pg.computeLen slot = true) (hempty : nfo.l = 0)
    {events : List Event} (hcalm : World.StaysCalm pg { nfo := nfo } events) :
    (World.run pg { nfo := nfo } events).Right ∧
      ((World.run pg { nfo := nfo } events).Calm .transmit →
        OneEach ((World.run pg { nfo := nfo } events).step pg .transmit).sent
          (World.run pg { nfo := nfo } events).queued) := by
  have hstart : World.Tidy { nfo := nfo } [] [] :=
    { queued := rfl
      infos := by rw [BenchRcv.pending, hempty]; rfl
      seqs := fun p hp => absurd hp List.not_mem_nil
      sent := ⟨[], .refl [], .nil⟩ }
  obtain ⟨answered, pending, htidy⟩ := hstart.run hpg hcalm
  refine ⟨htidy.right, fun hfew => ?_⟩
  rw [htidy.queued]
  exact (htidy.transmit hpg hfew).sent

/-! ## Requests with another number, and too many requests -/

def samplePgPackets : PgPackets where
  computeLen := fun _ => true
  ipv4Checksum := fun _ => 0
  sum := fun _ _ => 0

def ping (seq : UInt16) : H where
  e := { etherDhost := Vector.replicate 6 1, etherShost := Vector.replicate 6 2, etherType := 8 }
  ip :=
    { ipHl := 5, ipV := 4, ipTos := 0, ipLen := htons 84, ipId := 0, ipOff := 0, ipTtl := 64,
      ipP := 1, ipSum := 0, ipSrc := 0x0200000a, ipDst := 0x0100000a }
  icmp :=
    { icmpType := 8, icmpCode := 0, icmpCksum := 0, icmpId := 1, icmpSeq := seq,
      icmpOtime := 1000, icmpRtime := 0, icmpTtime := 0 }
  payload := Vector.replicate 36 0

def sampleResponder : BenchRcv where
  binfos := Vector.replicate benchRcvMaxL (BenchInfo.ofPacket (ping 0))
  ipsrc := 0x0100000a
  l := 0

theorem responder_answers_once_ping :
    (World.run samplePgPackets { nfo := sampleResponder }
        [.received [ping 0, ping 257], .transmit]).Right ∧
      ((World.run samplePgPackets { nfo := sampleResponder }
          [.received [ping 0, ping 257], .transmit]).Calm .transmit →
        OneEach ((World.run samplePgPackets { nfo := sampleResponder }
            [.received [ping 0, ping 257], .transmit]).step samplePgPackets .transmit).sent
          (World.run samplePgPackets { nfo := sampleResponder }
            [.received [ping 0, ping 257], .transmit]).queued) :=
  responder_answers_once (fun _ => rfl) rfl
    ⟨by unfold World.Calm EqualBytes H.IsRequest; decide +kernel,
      by unfold World.Calm; decide +kernel, trivial⟩

theorem World.Right.reply (h : w.Right) (hrequests : ∀ p ∈ w.queued, p.IsRequest) :
    ∀ packet ∈ w.sent, ∃ p ∈ w.queued, ∃ reply, packet = some reply ∧ Answers p reply := by
  obtain ⟨answered, pending, hqueued, -, order, hperm, hreplied⟩ := h
  intro packet hpacket
  obtain ⟨p, hp, hfound⟩ : ∃ p ∈ order, Replied packet p := by
    obtain ⟨hlength, hslots⟩ := List.forall₂_iff_get.mp hreplied
    obtain ⟨i, hi, rfl⟩ := List.mem_iff_getElem.mp hpacket
    exact ⟨_, List.getElem_mem (hlength ▸ hi), hslots i hi (hlength ▸ hi)⟩
  have hmem : p ∈ w.queued := by
    rw [hqueued]
    exact List.mem_append_left _ (hperm.mem_iff.mp hp)
  exact ⟨p, hmem, hfound (hrequests p hmem)⟩

/--
The number 256 comes back as 1, and after 65 requests the first of the 64 slots transmitted
holds no reply.
-/
theorem ping_unanswered :
    ¬(World.run samplePgPackets { nfo := sampleResponder }
        [.received [ping 256], .transmit]).Right ∧
      ¬(World.run samplePgPackets { nfo := sampleResponder }
        [.received (List.replicate 64 (ping 0)), .received [ping 0], .transmit]).Right := by
  constructor
  · intro h
    have hsent : ∃ packet ∈ (World.run samplePgPackets { nfo := sampleResponder }
        [.received [ping 256], .transmit]).sent, ∀ reply ∈ packet, reply.icmp.icmpSeq = 1 := by
      decide +kernel
    have hqueued : ∀ p ∈ (World.run samplePgPackets { nfo := sampleResponder }
        [.received [ping 256], .transmit]).queued, p.IsRequest ∧ p.icmp.icmpSeq = 256 := by
      unfold H.IsRequest
      decide +kernel
    obtain ⟨packet, hpacket, hone⟩ := hsent
    obtain ⟨p, hp, reply, hreply, hanswers⟩ :=
      h.reply (fun p hp => (hqueued p hp).1) packet hpacket
    have hseq := hanswers.icmpSeq
    rw [hone reply hreply, (hqueued p hp).2] at hseq
    exact absurd hseq (by decide)
  · intro h
    have hempty : none ∈ (World.run samplePgPackets { nfo := sampleResponder }
        [.received (List.replicate 64 (ping 0)), .received [ping 0], .transmit]).sent := by
      decide +kernel
    obtain ⟨p, -, reply, hreply, -⟩ := h.reply (by unfold H.IsRequest; decide +kernel) _ hempty
    cases hreply

end Butterfly.Responder
