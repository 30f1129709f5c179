import Butterfly.WellFormed
import Butterfly.GraphSpec
import Butterfly.Libc

/-!
# The parameters of a bench NIC

For a bench NIC `Graph::NicAdd` reads `ip_list[0]` and has `Ip::Bytes` copy
addresses over the four bytes of `ipsrc` and `ipdest`.  Neither the validator
nor the converter looks at what it takes for this to be safe, so whether it is
depends on the request.
-/

namespace Butterfly

open Butterfly.Graph

variable {P : Platform} {ok : PgCall → Bool} {m : MessageV0.Nic} {nic : Nic} {s : Server}

/-! ## What the branch of a bench NIC reads and writes -/

/-- The two bricks made before the `vhost` brick are there. -/
def Graph.ReachesVhost (ok : PgCall → Bool) (nic : Nic) : Prop :=
  ok (.firewallNew ("firewall-" ++ nic.id)) = true ∧
    ok (.antispoofNew ("antispoof-" ++ nic.id)) = true

instance : Decidable (Graph.ReachesVhost ok nic) := inferInstanceAs (Decidable (_ ∧ _))

/-- What is copied over `ipdest` and `ipsrc`, in turn. -/
def Graph.benchCopies (nic : Nic) : List (Option (List UInt8)) :=
  ((benchSnd nic (nic.ipList.headD {})).toList.flatMap fun bsnd =>
      [bsnd.ipdest, bsnd.ipsrc]) ++
    (benchRcv nic (nic.ipList.headD {})).toList.map fun brcv => brcv.ipsrc

def FourBytes (copy : Option (List UInt8)) : Prop :=
  ∃ bytes, copy = some bytes ∧ bytes.length = 4

structure BenchSafe (P : Platform) (ok : PgCall → Bool) (nic : Nic) (s : Server) : Prop where
  reads : createBranch P ok nic s ≠ none
  copies : Graph.ReachesVhost ok nic → ∀ copy ∈ Graph.benchCopies nic, FourBytes copy

theorem Graph.createBranch_eq_none :
    createBranch P ok nic s = none ↔
      Graph.ReachesVhost ok nic ∧ nic.type = .bench ∧ nic.ipList = [] := by
  unfold Graph.ReachesVhost
  cases hfirewall : ok (.firewallNew ("firewall-" ++ nic.id)) with
  | false => simp [createBranch, hfirewall]
  | true =>
      cases hantispoof : ok (.antispoofNew ("antispoof-" ++ nic.id)) with
      | false => simp [createBranch, hfirewall, hantispoof]
      | true =>
          by_cases hempty : nic.type = .bench ∧ nic.ipList = []
          · simp [createBranch, hfirewall, hantispoof, hempty]
          · -- Past the read every way out returns something.
            simp only [createBranch, hfirewall, hantispoof, hempty]
            split_ifs <;> simp_all

/-! ## What the converter leaves in a bench NIC -/

theorem Ip.bytes_ofV4 (a : Vector UInt8 4) : FourBytes (Ip.ofV4 P a).bytes :=
  ⟨_, rfl, by simp [Ip.ofV4]⟩

theorem Ip.bytes_ofV6 (a : Vector UInt8 16) : ¬ FourBytes (Ip.ofV6 P a).bytes := by
  rintro ⟨bytes, hbytes, hlength⟩
  cases hbytes
  simp [Ip.ofV6] at hlength

theorem convertIp_fourBytes {text : String} {ip : Ip} (h : Api0.convertIp P text = .ok ip) :
    FourBytes ip.bytes ↔ (P.inetPton4 text).isSome = true := by
  rcases convertIp_cases h with ⟨a, h4, rfl⟩ | ⟨h4, a, -, rfl⟩
  · simp [h4, Ip.bytes_ofV4]
  · simp [h4, Ip.bytes_ofV6]

theorem convertIps_append {texts : List String} {acc ips : List Ip}
    (h : Api0.convertIps P texts acc = .ok ips) : ∃ rest, ips = acc ++ rest := by
  induction texts generalizing acc with
  | nil =>
      cases h
      exact ⟨[], (List.append_nil _).symm⟩
  | cons text texts ih =>
      unfold Api0.convertIps at h
      cases hip : Api0.convertIp P text with
      | error error =>
          rw [hip] at h
          cases h
      | ok ip =>
          rw [hip] at h
          change (if _ then _ else _) = _ at h
          split at h
          · exact ih h
          · obtain ⟨rest, rfl⟩ := ih h
            exact ⟨ip :: rest, by simp⟩

theorem convertIps_head {text : String} {texts : List String} {ips : List Ip}
    (h : Api0.convertIps P (text :: texts) [] = .ok ips) :
    ∃ ip rest, Api0.convertIp P text = .ok ip ∧ ips = ip :: rest := by
  unfold Api0.convertIps at h
  cases hip : Api0.convertIp P text with
  | error error =>
      rw [hip] at h
      cases h
  | ok ip =>
      rw [hip] at h
      obtain ⟨rest, hrest⟩ := convertIps_append (show Api0.convertIps P texts [ip] = _ from h)
      exact ⟨ip, rest, rfl, by simpa using hrest⟩

theorem convertNic_bench {trace : Bool} {pid : Nat}
    (h : Api0.convertNic P trace pid m = .ok nic) (hbench : nic.type = .bench) :
    (m.btype = some "ICMP_SND_LIKE" ∧ nic.btype = some .icmpSndLike ∧
      ∃ dip ∈ m.dip, Api0.convertIp P dip = .ok nic.dip) ∨
    (m.btype = some "ICMP_RCV_LIKE" ∧ nic.btype = some .icmpRcvLike) := by
  unfold Api0.convertNic at h
  cases hips : Api0.convertIps P m.ip [] with
  | error error =>
      rw [hips] at h
      cases h
  | ok ips =>
      rw [hips] at h
      simp only [bind, Except.bind, Api0.convertNicType] at h
      split at h
      · cases h
        cases hbench
      · split at h
        · cases h
        · next btype hbtype =>
            split at h
            · next hsnd =>
                split at h
                · next dip dmac hdip hdmac =>
                    cases hconvert : Api0.convertIp P dip with
                    | error error =>
                        rw [hconvert] at h
                        cases h
                    | ok ip =>
                        rw [hconvert] at h
                        cases h
                        exact .inl ⟨by rw [hbtype, hsnd], rfl, dip, hdip, hconvert⟩
                · cases h
            · split at h
              · next hrcv =>
                  cases h
                  exact .inr ⟨by rw [hbtype, hrcv], rfl⟩
              · cases h
      · next type hother htype =>
          cases h
          exact absurd hbench hother

/-! ## The accesses are safe for IPv4 requests only -/

/-- The first address of the request is one of IPv4, and so is `dip` where it is used. -/
def MessageV0.Nic.BenchIpv4 (P : Platform) (m : MessageV0.Nic) : Prop :=
  (∃ text ∈ m.ip.head?, (P.inetPton4 text).isSome = true) ∧
    (m.btype = some "ICMP_SND_LIKE" → ∃ text ∈ m.dip, (P.inetPton4 text).isSome = true)

theorem benchCopies_snd (hbench : nic.type = .bench) (hbtype : nic.btype = some .icmpSndLike) :
    Graph.benchCopies nic = [nic.dip.bytes, (nic.ipList.headD {}).bytes] := by
  simp [Graph.benchCopies, benchSnd, benchRcv, hbench, hbtype]

theorem benchCopies_rcv (hbench : nic.type = .bench) (hbtype : nic.btype = some .icmpRcvLike) :
    Graph.benchCopies nic = [(nic.ipList.headD {}).bytes] := by
  simp [Graph.benchCopies, benchSnd, benchRcv, hbench, hbtype]

theorem first_fourBytes (hips : Api0.convertIps P m.ip [] = .ok nic.ipList) :
    (nic.ipList ≠ [] ∧ FourBytes (nic.ipList.headD {}).bytes) ↔
      ∃ text ∈ m.ip.head?, (P.inetPton4 text).isSome = true := by
  cases htexts : m.ip with
  | nil =>
      rw [htexts] at hips
      have hlist : nic.ipList = [] := (Except.ok.inj hips).symm
      simp [hlist]
  | cons text texts =>
      rw [htexts] at hips
      obtain ⟨ip, rest, hip, hlist⟩ := convertIps_head hips
      simp [hlist, convertIp_fourBytes hip]

theorem copies_fourBytes_iff {trace : Bool} {pid : Nat}
    (h : Api0.convertNic P trace pid m = .ok nic) (hbench : nic.type = .bench) :
    (nic.ipList ≠ [] ∧ ∀ copy ∈ Graph.benchCopies nic, FourBytes copy) ↔ m.BenchIpv4 P := by
  unfold MessageV0.Nic.BenchIpv4
  rw [← first_fourBytes (convertNic_fields h).2.2.1]
  rcases convertNic_bench h hbench with ⟨hsnd, hbtype, text, htext, hdip⟩ | ⟨hrcv, hbtype⟩
  · have hdest : FourBytes nic.dip.bytes ↔
        ∃ text ∈ m.dip, (P.inetPton4 text).isSome = true := by
      rw [convertIp_fourBytes hdip, Option.mem_def.mp htext]
      simp
    simp only [benchCopies_snd hbench hbtype, List.forall_mem_cons, hsnd, hdest,
      List.not_mem_nil, false_implies, implies_true, and_true, true_implies]
    tauto
  · simp [benchCopies_rcv hbench hbtype, hrcv]

theorem bench_safe_iff {trace : Bool} {pid : Nat}
    (h : Api0.convertNic P trace pid m = .ok nic) (hbench : nic.type = .bench)
    (ok : PgCall → Bool) (s : Server) :
    BenchSafe P ok nic s ↔ (Graph.ReachesVhost ok nic → m.BenchIpv4 P) := by
  rw [← copies_fourBytes_iff h hbench]
  constructor
  · rintro ⟨hreads, hcopies⟩ hreached
    refine ⟨fun hempty => hreads ?_, hcopies hreached⟩
    exact Graph.createBranch_eq_none.mpr ⟨hreached, hbench, hempty⟩
  · intro hsafe
    refine ⟨fun hnone => ?_, fun hreached => (hsafe hreached).2⟩
    obtain ⟨hreached, -, hempty⟩ := Graph.createBranch_eq_none.mp hnone
    exact (hsafe hreached).1 hempty

theorem bench_safe_iff_one_receiver :
    ∃ nic, Api0.convertNic Libc.platform false 1
        ⟨"bench", "52:54:00:12:34:01", 1, ["10.0.0.1"], [], none, none, none, some .bench,
          none, none, none, some "ICMP_RCV_LIKE", none, none⟩ = .ok nic ∧
      BenchSafe Libc.platform (fun _ => true) nic (Server.start {} 1 0) := by
  have hconvert : Api0.convertNic Libc.platform false 1
      ⟨"bench", "52:54:00:12:34:01", 1, ["10.0.0.1"], [], none, none, none, some .bench,
        none, none, none, some "ICMP_RCV_LIKE", none, none⟩ = .ok _ := rfl
  refine ⟨_, hconvert, (bench_safe_iff hconvert rfl _ _).mpr fun _ => ?_⟩
  exact ⟨⟨"10.0.0.1", rfl, by decide +kernel⟩, by decide⟩

/-- A receiver without addresses is accepted, and the first of them is read. -/
theorem bench_without_address_unsafe :
    ¬ ∀ (m : MessageV0.Nic) (nic : Nic) (ok : PgCall → Bool) (s : Server),
      Api0.validateNic Libc.platform m = true →
      Api0.convertNic Libc.platform false 1 m = .ok nic → nic.type = .bench →
        BenchSafe Libc.platform ok nic s := by
  intro hsafe
  refine (hsafe ⟨"bench", "52:54:00:12:34:01", 1, [], [], none, none, none, some .bench,
    none, none, none, some "ICMP_RCV_LIKE", none, none⟩ _ (fun _ => true)
    (Server.start {} 1 0) (by decide +kernel) rfl rfl).reads ?_
  exact Graph.createBranch_eq_none.mpr ⟨by decide, rfl, rfl⟩

end Butterfly
