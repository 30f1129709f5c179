import Butterfly.Addresses

/-!
# Updates of NICs

`nic_update` replaces the fields that a request has.  The lists have a flag that says
whether they are there, and the options a flag of their own, but the trace path has
none: the converter fills it in whenever the request does not, with a member of
`Api::NicUpdate` that it may not have written.
-/

namespace Butterfly

open Std Foundation MessageV0

variable {P : Platform}

/-! ## What a request asks for -/

/-- The names of a request, each once; a single empty name is none. -/
def providedNames (names : List String) : List String :=
  if Api0.addNames names [] = [""] then [] else Api0.addNames names []

structure Replaces (P : Platform) (req : NicUpdateReq) (old nic : Butterfly.Nic) : Prop where
  ipsKept : req.ip = [] → nic.ipList = old.ipList
  ips : req.ip ≠ [] →
    nic.ipList.map Ip.address = firstSeen (addresses P (req.ip.filter (· ≠ "")))
  groups : nic.securityGroups =
    if req.securityGroup = [] then old.securityGroups else providedNames req.securityGroup
  antiSpoof : nic.ipAntiSpoof = req.ipAntiSpoof.getD old.ipAntiSpoof
  trace : nic.packetTrace = req.packetTrace.getD old.packetTrace
  path : nic.packetTracePath = (Api0.nonEmpty req.packetTracePath).getD old.packetTracePath
  others : nic = { old with
    ipList := nic.ipList, securityGroups := nic.securityGroups, ipAntiSpoof := nic.ipAntiSpoof
    packetTrace := nic.packetTrace, packetTracePath := nic.packetTracePath }

/-- The request is accepted and does what it asks for, whatever the rest of the process is at. -/
def UpdatesExactly (P : Platform) (s : Server) (req : NicUpdateReq) (old : Butterfly.Nic) : Prop :=
  ∃ nic, Replaces P req old nic ∧ ∀ ambient, ∃ res s',
    Api0.respond P ambient (some { nicUpdate := some req }) s = some (res, s') ∧ Accepted res ∧
      s'.model = { s.model with nics := s.model.nics.insert req.id nic }

/-! ## Names -/

theorem mem_addNames (names acc : List String) (a : String) :
    a ∈ Api0.addNames names acc ↔ a ∈ acc ∨ a ∈ names := by
  induction names generalizing acc with
  | nil => simp [Api0.addNames]
  | cons name rest ih =>
      unfold Api0.addNames
      split
      · next hmem =>
          rw [ih, List.mem_cons]
          constructor
          · rintro (h | h)
            · exact .inl h
            · exact .inr (.inr h)
          · rintro (h | rfl | h)
            · exact .inl h
            · exact .inl hmem
            · exact .inr h
      · rw [ih, List.mem_append, List.mem_singleton, List.mem_cons, or_assoc]

theorem addNames_of_subset {names acc : List String} (h : names ⊆ acc) :
    Api0.addNames names acc = acc := by
  induction names with
  | nil => rfl
  | cons name rest ih =>
      rw [Api0.addNames, if_pos (h List.mem_cons_self)]
      exact ih fun a ha => h (List.mem_cons_of_mem _ ha)

theorem addNames_filter_iff {names : List String} (hne : names ≠ []) :
    Api0.addNames (names.filter (· ≠ "")) [] = providedNames names ↔
      "" ∉ names ∨ ∀ name ∈ names, name = "" := by
  have hmem : ∀ a, a ∈ Api0.addNames names [] ↔ a ∈ names := by simp [mem_addNames]
  have hfiltered : "" ∉ Api0.addNames (names.filter (· ≠ "")) [] := by simp [mem_addNames]
  constructor
  · intro heq
    by_contra hboth
    obtain ⟨hempty, hsome⟩ := not_or.mp hboth
    rw [not_not] at hempty
    have hprovided : providedNames names = Api0.addNames names [] := by
      refine if_neg fun hone => hsome fun name hname => ?_
      rw [← hmem, hone] at hname
      exact List.mem_singleton.mp hname
    rw [heq, hprovided, hmem] at hfiltered
    exact hfiltered hempty
  · rintro (hnone | hall)
    · have hfilter : names.filter (· ≠ "") = names := by
        rw [List.filter_eq_self]
        intro name hname
        simpa using fun h : name = "" => hnone (h ▸ hname)
      rw [hfilter, providedNames, if_neg]
      intro hone
      rw [← hmem, hone] at hnone
      exact hnone (List.mem_singleton_self _)
    · have hfilter : names.filter (· ≠ "") = [] := by
        rw [List.filter_eq_nil_iff]
        intro name hname
        simp [hall name hname]
      have hone : Api0.addNames names [] = [""] := by
        obtain ⟨name, rest, rfl⟩ := List.exists_cons_of_ne_nil hne
        rw [hall name List.mem_cons_self, Api0.addNames, if_neg List.not_mem_nil]
        refine addNames_of_subset fun name hname => ?_
        rw [hall name (List.mem_cons_of_mem _ hname)]
        exact List.mem_singleton_self _
      rw [hfilter, providedNames, if_pos hone]
      rfl

/-! ## Addresses -/

theorem convertIps_data_nodup {texts : List String} {acc ips : List Ip}
    (hacc : (acc.map Ip.data).Nodup) (h : Api0.convertIps P texts acc = .ok ips) :
    (ips.map Ip.data).Nodup := by
  induction texts generalizing acc with
  | nil =>
      cases h
      exact hacc
  | cons text rest ih =>
      unfold Api0.convertIps at h
      cases hip : Api0.convertIp P text with
      | error error =>
          rw [hip] at h
          cases h
      | ok ip =>
          rw [hip] at h
          change (if findIp acc ip then _ else _) = _ at h
          split at h
          · exact ih hacc h
          · next hnew =>
              refine ih ?_ h
              rw [List.map_append, List.map_singleton]
              refine hacc.append (List.nodup_singleton _) ?_
              rw [List.disjoint_singleton]
              intro hdata
              obtain ⟨known, hknown, heq⟩ := List.mem_map.mp hdata
              exact hnew (List.any_eq_true.mpr ⟨known, hknown, decide_eq_true heq⟩)

theorem looksLike_data {ips : List Ip} : (ips.map Ip.address).map Prod.snd = ips.map Ip.data := by
  rw [List.map_map]
  rfl

theorem clear_of_data_nodup {as : List Address}
    (h : ((firstSeen as).map Prod.snd).Nodup) : Clear as := by
  have hseen : ∀ a, a ∈ as → a ∈ firstSeen as := by
    intro a ha
    rw [firstSeen, mem_foldl_addAddress]
    exact .inr ha
  intro a ha b hb hdata
  exact List.inj_on_of_nodup_map h (hseen a ha) (hseen b hb) hdata

theorem stored_ips_iff {texts : List String} {ips : List Ip} {old : List Address}
    (hconvert : Api0.convertIps P texts [] = .ok ips) :
    (if LooksLike old (ips.map Ip.address) then old else ips.map Ip.address) =
        firstSeen (addresses P texts) ↔
      Clear (addresses P texts) ∧
        (LooksLike old (firstSeen (addresses P texts)) → old = firstSeen (addresses P texts)) := by
  constructor
  · intro hstored
    have hdata : ((firstSeen (addresses P texts)).map Prod.snd).Nodup := by
      have hnil : (([] : List Ip).map Ip.data).Nodup := List.nodup_nil
      have hnodup := convertIps_data_nodup hnil hconvert
      rw [← looksLike_data] at hnodup
      rw [← hstored]
      split
      · next hlike =>
          rw [show old.map Prod.snd = _ from hlike]
          exact hnodup
      · exact hnodup
    have hclear := clear_of_data_nodup hdata
    refine ⟨hclear, fun hlike => ?_⟩
    rw [convertIps_firstSeen hclear hconvert, if_pos hlike] at hstored
    exact hstored
  · rintro ⟨hclear, hlike⟩
    rw [convertIps_firstSeen hclear hconvert]
    split
    · next h => exact hlike h
    · rfl

theorem convertIp_of_valid {text : String} (h : Api0.validateIp P text = true) :
    ∃ ip, Api0.convertIp P text = .ok ip := by
  unfold Api0.validateIp at h
  unfold Api0.convertIp Ip.set
  cases h4 : P.inetPton4 text with
  | some a => exact ⟨_, rfl⟩
  | none =>
      cases h6 : P.inetPton6 text with
      | some a => exact ⟨_, rfl⟩
      | none =>
          rw [h4, h6] at h
          cases h

theorem convertIps_of_valid {texts : List String}
    (h : ∀ text ∈ texts, Api0.validateIp P text = true) (acc : List Ip) :
    ∃ ips, Api0.convertIps P texts acc = .ok ips := by
  induction texts generalizing acc with
  | nil => exact ⟨acc, rfl⟩
  | cons text rest ih =>
      obtain ⟨ip, hip⟩ := convertIp_of_valid (h text List.mem_cons_self)
      have hrest : ∀ text ∈ rest, Api0.validateIp P text = true :=
        fun text htext => h text (List.mem_cons_of_mem _ htext)
      simp only [Api0.convertIps, hip]
      change ∃ ips, (if findIp acc ip then _ else _) = _
      split
      · exact ih hrest acc
      · exact ih hrest (acc ++ [ip])

theorem convertIps_nicUpdate {req : NicUpdateReq} (h : Api0.validateNicUpdate P req = true) :
    ∃ ips, Api0.convertIps P (req.ip.filter (· ≠ "")) [] = .ok ips := by
  apply convertIps_of_valid
  intro text htext
  obtain ⟨hmem, hne⟩ := List.mem_filter.mp htext
  unfold Api0.validateNicUpdate at h
  split at h
  · next hempty =>
      rw [hempty, List.mem_singleton] at hmem
      exact absurd hmem (of_decide_eq_true hne)
  · exact List.all_eq_true.mp h text hmem

/-! ## The trace path -/

def pathAfter (pid : Nat) (garbage : Api0.Garbage) (req : NicUpdateReq) (old : Butterfly.Nic) :
    String :=
  if req.packetTrace.getD old.packetTrace then
    match req.packetTrace.getD garbage.packetTrace, Api0.nonEmpty req.packetTracePath with
    | true, some path => path
    | _, _ => Api0.defaultTracePath pid req.id
  else old.packetTracePath

/--
When the path is the one it should be: it is taken from a request that turns tracing
on, it changes to the default path if tracing is on and the request has none, and it is
not touched while tracing is off.
-/
def PathAsAsked (pid : Nat) (req : NicUpdateReq) (old : Butterfly.Nic) : Prop :=
  match Api0.nonEmpty req.packetTracePath, req.packetTrace.getD old.packetTrace with
  | some path, true => req.packetTrace.isSome ∨ path = Api0.defaultTracePath pid req.id
  | some path, false => old.packetTracePath = path
  | none, true => old.packetTracePath = Api0.defaultTracePath pid req.id
  | none, false => True

instance : Inhabited Api0.Garbage := ⟨{}⟩

theorem pathAfter_iff (pid : Nat) (req : NicUpdateReq) (old : Butterfly.Nic) :
    (∀ garbage, pathAfter pid garbage req old =
      (Api0.nonEmpty req.packetTracePath).getD old.packetTracePath) ↔
      PathAsAsked pid req old := by
  unfold pathAfter PathAsAsked
  cases Api0.nonEmpty req.packetTracePath with
  | none =>
      cases req.packetTrace.getD old.packetTrace with
      | false => simp
      | true =>
          have hpath : ∀ garbage : Api0.Garbage,
              (match req.packetTrace.getD garbage.packetTrace, (none : Option String) with
                | true, some path => path
                | _, _ => Api0.defaultTracePath pid req.id) =
                  Api0.defaultTracePath pid req.id := by
            intro garbage
            cases req.packetTrace.getD garbage.packetTrace <;> rfl
          simp only [if_true, Option.getD_none, hpath, forall_const]
          exact eq_comm
  | some path =>
      cases htrace : req.packetTrace with
      | some trace =>
          cases trace with
          | false => simp
          | true => simp
      | none =>
          cases old.packetTrace with
          | false => simp
          | true =>
              simp only [Option.getD_none, if_true, Option.getD_some, Option.isSome_none,
                Bool.false_eq_true, false_or]
              constructor
              · intro h
                exact (h { packetTrace := false }).symm
              · intro h garbage
                cases garbage.packetTrace with
                | false => exact h.symm
                | true => rfl

theorem defaultTracePath_ne_empty (pid : Nat) (id : String) :
    Api0.defaultTracePath pid id ≠ "" := by
  unfold Api0.defaultTracePath
  rw [Ne, String.append_eq_empty_iff, not_and]
  intro _
  decide

/-! ## The NIC after an update -/

section Updated

variable {pid : Nat} {garbage : Api0.Garbage} {req : NicUpdateReq} {update : NicUpdate}
  {ips : List Ip}

theorem updatedNic_mk (update : NicUpdate) (old : Butterfly.Nic) :
    updatedNic update old =
      { old with
        ipList := if Api.ipChanged update old then update.ip else old.ipList
        securityGroups :=
          if Api.groupsChanged update old then update.securityGroups else old.securityGroups
        ipAntiSpoof :=
          if Api.antiSpoofChanged update old then update.ipAntiSpoof else old.ipAntiSpoof
        packetTrace := if update.hasPacketTrace then update.packetTrace else old.packetTrace
        packetTracePath :=
          if (if update.hasPacketTrace then update.packetTrace else old.packetTrace) ∧
            update.packetTracePath ≠ "" then update.packetTracePath
          else old.packetTracePath } := by
  unfold updatedNic pathedNic tracedNic Api.revise
  cases update.hasPacketTrace with
  | false =>
      simp only [Bool.false_eq_true, if_false]
      split <;> rfl
  | true =>
      simp only [if_true]
      split <;> rfl

theorem nonEmpty_ne_empty {field : Option String} {text : String}
    (h : Api0.nonEmpty field = some text) : text ≠ "" :=
  of_decide_eq_true (Option.filter_eq_some_iff.mp h).2

def nicAfter (pid : Nat) (garbage : Api0.Garbage) (req : NicUpdateReq) (ips : List Ip)
    (old : Butterfly.Nic) : Butterfly.Nic :=
  { old with
    ipList := if req.ip = [] ∨ ipListEq old.ipList ips then old.ipList else ips
    securityGroups := if req.securityGroup = [] then old.securityGroups
      else Api0.addNames (req.securityGroup.filter (· ≠ "")) []
    ipAntiSpoof := req.ipAntiSpoof.getD old.ipAntiSpoof
    packetTrace := req.packetTrace.getD old.packetTrace
    packetTracePath := pathAfter pid garbage req old }

theorem updatedNic_eq (hconvert : Api0.convertNicUpdate P pid garbage req = .ok update)
    (hips : Api0.convertIps P (req.ip.filter (· ≠ "")) [] = .ok ips) (old : Butterfly.Nic) :
    updatedNic update old = nicAfter pid garbage req ips old := by
  rw [Api0.convertNicUpdate, hips] at hconvert
  cases hconvert
  rw [updatedNic_mk, nicAfter]
  congr 1
  · -- addresses
    unfold Api.ipChanged
    cases req.ip with
    | nil => rfl
    | cons ip more => cases ipListEq old.ipList ips <;> simp
  · -- groups
    unfold Api.groupsChanged
    cases req.securityGroup with
    | nil => rfl
    | cons name names =>
        simp only [List.isEmpty_cons, Bool.not_false, Bool.true_and, decide_eq_true_eq,
          reduceCtorEq, if_false]
        split
        · rfl
        · next heq => exact not_not.mp heq
  · cases req.packetTrace <;> rfl
  · -- the trace path
    have hsent : (match req.packetTrace.getD garbage.packetTrace,
        Api0.nonEmpty req.packetTracePath with
          | true, some path => path
          | _, _ => Api0.defaultTracePath pid req.id) ≠ "" := by
      split
      · next path _ hpath => exact nonEmpty_ne_empty hpath
      · exact defaultTracePath_ne_empty pid req.id
    have htrace : (if req.packetTrace.isSome then req.packetTrace.getD garbage.packetTrace
        else old.packetTrace) = req.packetTrace.getD old.packetTrace := by
      cases req.packetTrace <;> rfl
    unfold pathAfter
    simp only [htrace]
    by_cases hon : req.packetTrace.getD old.packetTrace = true
    · exact (if_pos ⟨hon, hsent⟩).trans (if_pos hon).symm
    · exact (if_neg fun h => hon h.1).trans (if_neg hon).symm
  · unfold Api.antiSpoofChanged
    cases req.ipAntiSpoof with
    | none => rfl
    | some spoof => cases spoof <;> cases old.ipAntiSpoof <;> rfl

end Updated

/-! ## The request -/

section Request

variable {s : Server} {req : NicUpdateReq} {old : Butterfly.Nic}

theorem respond_nicUpdate (h : Agree s) (hvalid : Api0.validateNicUpdate P req = true)
    (hold : s.model.nics[req.id]? = some old) {ips : List Ip}
    (hips : Api0.convertIps P (req.ip.filter (· ≠ "")) [] = .ok ips) (ambient : Ambient) :
    ∃ s', Api0.respond P ambient (some { nicUpdate := some req }) s = some (Api0.okRes, s') ∧
      s'.model = { s.model with
        nics := s.model.nics.insert req.id (nicAfter s.pid ambient.garbage req ips old) } := by
  obtain ⟨update, hconvert⟩ : ∃ update,
      Api0.convertNicUpdate P s.pid ambient.garbage req = .ok update := by
    rw [Api0.convertNicUpdate, hips]
    exact ⟨_, rfl⟩
  obtain ⟨hid, -⟩ := convertNicUpdate_fields hconvert
  obtain ⟨s', -, -, -, -, -, haction, -⟩ := actionNicUpdate_finds P ambient h
    (by rw [hid]; exact hold : s.model.nics[update.id]? = some old)
  refine ⟨s', ?_, ?_⟩
  · have hhandle : Api0.respond P ambient (some { nicUpdate := some req }) s =
        Api0.nicUpdate P ambient req s := rfl
    rw [hhandle, Api0.nicUpdate, hvalid, hconvert]
    simp [haction]
  · have hstored := stored_nicUpdate haction
    have hnics := hstored.nics
    have hgroups : s'.model.securityGroups = s.model.securityGroups := hstored.groups
    simp only [nicsAfter, hid, hold, updatedNic_eq hconvert hips] at hnics
    rw [← hnics]
    change s'.model = ⟨s.model.securityGroups, s'.model.nics⟩
    rw [← hgroups]

theorem replaces_iff {pid : Nat} {garbage : Api0.Garbage} {ips : List Ip}
    (hold : s.model.nics[req.id]? = some old)
    (hips : Api0.convertIps P (req.ip.filter (· ≠ "")) [] = .ok ips) :
    Replaces P req old (nicAfter pid garbage req ips old) ↔
      CommandClear P s (.nicUpdate req) ∧
        ("" ∉ req.securityGroup ∨ ∀ name ∈ req.securityGroup, name = "") ∧
        pathAfter pid garbage req old =
          (Api0.nonEmpty req.packetTracePath).getD old.packetTracePath := by
  have hclear : CommandClear P s (.nicUpdate req) ↔ (req.ip ≠ [] →
      (nicAfter pid garbage req ips old).ipList.map Ip.address =
        firstSeen (addresses P (req.ip.filter (· ≠ "")))) := by
    have hstored : storedIps s req.id = old.ipList.map Ip.address := by
      rw [storedIps, hold]
      rfl
    rw [CommandClear, hstored, ← stored_ips_iff hips, nicAfter]
    by_cases hnone : req.ip = []
    · -- Nothing is converted, and only an empty list looks like an empty one.
      rw [hnone] at hips
      cases hips
      simp only [hnone, List.filter_nil, ne_eq, not_true_eq_false, false_implies, iff_true]
      split
      · next hlike => exact List.map_eq_nil_iff.mp hlike
      · rfl
    · simp only [hnone, false_or, ipListEq_iff, ne_eq, not_false_eq_true, true_implies]
      rw [apply_ite (List.map Ip.address)]
  have hgroups : (nicAfter pid garbage req ips old).securityGroups =
      (if req.securityGroup = [] then old.securityGroups else providedNames req.securityGroup) ↔
      ("" ∉ req.securityGroup ∨ ∀ name ∈ req.securityGroup, name = "") := by
    unfold nicAfter
    by_cases hnone : req.securityGroup = []
    · simp [hnone]
    · rw [if_neg hnone, ← addNames_filter_iff hnone]
      simp only [if_neg hnone]
  constructor
  · intro h
    exact ⟨hclear.mpr h.ips, hgroups.mp h.groups, h.path⟩
  · rintro ⟨hips', hnames, hpath⟩
    refine ⟨fun hnone => ?_, hclear.mp hips', hgroups.mpr hnames, rfl, rfl, hpath, rfl⟩
    simp [nicAfter, hnone]

/--
A valid update of a NIC that exists does what it asks for, and nothing else, in every
reachable state if and only if no address meets one of the other family with the same
bytes, no empty group name stands next to another name, and the trace path is as asked.
-/
theorem nic_update_exact_iff (hs : Reachable P anything s)
    (hvalid : Api0.validateNicUpdate P req = true)
    (hold : s.model.nics[req.id]? = some old) :
    UpdatesExactly P s req old ↔
      CommandClear P s (.nicUpdate req) ∧
        ("" ∉ req.securityGroup ∨ ∀ name ∈ req.securityGroup, name = "") ∧
        PathAsAsked s.pid req old := by
  obtain ⟨ips, hips⟩ := convertIps_nicUpdate hvalid
  have hrespond := respond_nicUpdate hs.sound.agree hvalid hold hips
  rw [← pathAfter_iff]
  constructor
  · rintro ⟨nic, hreplaces, hall⟩
    have hnic : ∀ garbage, nic = nicAfter s.pid garbage req ips old := by
      intro garbage
      obtain ⟨res, s', hres, -, hmodel⟩ := hall { garbage := garbage }
      obtain ⟨s'', hres', hmodel'⟩ := hrespond { garbage := garbage }
      cases hres.symm.trans hres'
      have hlookup := congrArg (fun m : Model => m.nics[req.id]?) (hmodel.symm.trans hmodel')
      simpa using hlookup
    have hconditions := fun garbage => (replaces_iff hold hips).mp (hnic garbage ▸ hreplaces)
    exact ⟨(hconditions default).1, (hconditions default).2.1, fun garbage =>
      (hconditions garbage).2.2⟩
  · rintro ⟨hclear, hnames, hpath⟩
    have hsame : ∀ garbage, nicAfter s.pid garbage req ips old =
        nicAfter s.pid default req ips old := by
      intro garbage
      simp only [nicAfter, hpath]
    refine ⟨nicAfter s.pid default req ips old,
      (replaces_iff hold hips).mpr ⟨hclear, hnames, hpath default⟩, fun ambient => ?_⟩
    obtain ⟨s', hres, hmodel⟩ := hrespond ambient
    exact ⟨Api0.okRes, s', hres, rfl, by rw [hmodel, hsame]⟩

end Request

def tracedServer : Server :=
  (serve Libc.platform {}
    [{ nicAdd := some { id := "nic-1", mac := "52:54:00:12:34:01", vni := 42
                        ip := ["42.0.0.1"], packetTrace := some true
                        packetTracePath := some "/tmp/one.pcap" } }]
    (Server.start {} 1 0)).getD (Server.start {} 1 0)

theorem tracedServer_reachable : Reachable Libc.platform anything tracedServer := by
  have hsome : (serve Libc.platform {}
      [{ nicAdd := some { id := "nic-1", mac := "52:54:00:12:34:01", vni := 42
                          ip := ["42.0.0.1"], packetTrace := some true
                          packetTracePath := some "/tmp/one.pcap" } }]
      (Server.start {} 1 0)).isSome = true := by
    decide +kernel
  obtain ⟨s, hs⟩ := Option.isSome_iff_exists.mp hsome
  rw [tracedServer, hs]
  exact (Reachable.start {} 1 0).serve (fun _ _ _ => trivial) hs

def quietUpdate : NicUpdateReq :=
  { id := "nic-1", ip := ["42.0.0.2", "42.0.0.2"], securityGroup := ["sg-1"]
    packetTrace := some false }

theorem nic_update_exact_quiet_update :
    ∃ old, tracedServer.model.nics["nic-1"]? = some old ∧
      UpdatesExactly Libc.platform tracedServer quietUpdate old := by
  have hold : ∃ old, tracedServer.model.nics["nic-1"]? = some old ∧
      old.ipList.map Ip.address = [(Ip.ofV4 Libc.platform #v[42, 0, 0, 1]).address] :=
    ⟨(tracedServer.model.nics["nic-1"]?).get (by decide +kernel), by simp, by decide +kernel⟩
  obtain ⟨old, hold, hips⟩ := hold
  refine ⟨old, hold, (nic_update_exact_iff tracedServer_reachable (by decide) hold).mpr
    ⟨⟨?_, ?_⟩, ?_, trivial⟩⟩
  · have hone : addresses Libc.platform (quietUpdate.ip.filter (· ≠ "")) =
        List.replicate 2 (Ip.ofV4 Libc.platform #v[42, 0, 0, 2]).address := by decide +kernel
    rw [hone]
    intro a ha b hb _
    rw [List.eq_of_mem_replicate ha, List.eq_of_mem_replicate hb]
  · have hstored : storedIps tracedServer quietUpdate.id =
        [(Ip.ofV4 Libc.platform #v[42, 0, 0, 1]).address] := by
      rw [storedIps, show quietUpdate.id = "nic-1" from rfl, hold, Option.map_some,
        Option.getD_some, hips]
    rw [hstored]
    intro hlike
    exact absurd hlike (by unfold LooksLike; decide +kernel)
  · exact .inl (by decide)

/-- The request has nothing to say about the trace path, and the path changes. -/
theorem trace_path_changes :
    ∃ old, Reachable Libc.platform anything tracedServer ∧
      tracedServer.model.nics["nic-1"]? = some old ∧
      Api0.validateNicUpdate Libc.platform { id := "nic-1", ipAntiSpoof := some true } = true ∧
      ¬UpdatesExactly Libc.platform tracedServer { id := "nic-1", ipAntiSpoof := some true }
        old := by
  have hold : ∃ old, tracedServer.model.nics["nic-1"]? = some old ∧
      pathAfter tracedServer.pid {} { id := "nic-1", ipAntiSpoof := some true } old ≠
        old.packetTracePath :=
    ⟨(tracedServer.model.nics["nic-1"]?).get (by decide +kernel), by simp, by decide +kernel⟩
  obtain ⟨old, hold, hpath⟩ := hold
  refine ⟨old, tracedServer_reachable, hold, by decide, ?_⟩
  rintro ⟨nic, hreplaces, hall⟩
  obtain ⟨res, s', hres, -, hmodel⟩ := hall {}
  have hrespond := respond_nicUpdate tracedServer_reachable.sound.agree
    (by decide : Api0.validateNicUpdate Libc.platform
      { id := "nic-1", ipAntiSpoof := some true } = true) hold rfl {}
  obtain ⟨s'', hres', hmodel'⟩ := hrespond
  cases hres.symm.trans hres'
  have hlookup := congrArg (fun m : Model => m.nics["nic-1"]?) (hmodel.symm.trans hmodel')
  simp only [ExtTreeMap.getElem?_insert_self, Option.some.injEq] at hlookup
  rw [hlookup] at hreplaces
  exact hpath hreplaces.path

end Butterfly
