import Butterfly.WellFormed

/-!
# Address lists

`Nic::ip_list` and `Sg::members` are lists without repetition, compared with an
equality of addresses that looks at the bytes only.  They are the lists one expects
as long as no two addresses of different families with the same bytes meet.
-/

namespace Butterfly

open Std Foundation

variable {P : Platform} {ambient : Ambient}

/-! ## Addresses -/

abbrev Address := IpType × Vector UInt8 16

def Ip.address (ip : Ip) : Address := (ip.type, ip.data)

def textAddress (P : Platform) (text : String) : Option Address :=
  (Api0.convertIp P text).toOption.map Ip.address

def addresses (P : Platform) (texts : List String) : List Address :=
  texts.filterMap (textAddress P)

def addAddress (known : List Address) (a : Address) : List Address :=
  if a ∈ known then known else known ++ [a]

def firstSeen (as : List Address) : List Address := as.foldl addAddress []

def Clear (as : List Address) : Prop := ∀ a ∈ as, ∀ b ∈ as, a.2 = b.2 → a = b

theorem Clear.mono {as bs : List Address} (h : Clear bs) (hsub : as ⊆ bs) : Clear as :=
  fun a ha b hb => h a (hsub ha) b (hsub hb)

theorem addAddress_nodup {known : List Address} (h : known.Nodup) (a : Address) :
    (addAddress known a).Nodup := by
  unfold addAddress
  split
  · exact h
  · next hnew => exact h.append (List.nodup_singleton a) (by simpa using hnew)

theorem foldl_addAddress_nodup (as : List Address) {known : List Address} (h : known.Nodup) :
    (as.foldl addAddress known).Nodup := by
  induction as generalizing known with
  | nil => exact h
  | cons a as ih => exact ih (addAddress_nodup h a)

theorem mem_foldl_addAddress (as known : List Address) (a : Address) :
    a ∈ as.foldl addAddress known ↔ a ∈ known ∨ a ∈ as := by
  induction as generalizing known with
  | nil => simp
  | cons b as ih =>
      rw [List.foldl_cons, ih, List.mem_cons]
      unfold addAddress
      split
      · next hb =>
          constructor
          · rintro (h | h)
            · exact .inl h
            · exact .inr (.inr h)
          · rintro (h | rfl | h)
            · exact .inl h
            · exact .inl hb
            · exact .inr h
      · rw [List.mem_append, List.mem_singleton, or_assoc]

theorem findIp_iff {ips : List Ip} {ip : Ip}
    (h : Clear (ips.map Ip.address ++ [ip.address])) :
    findIp ips ip = true ↔ ip.address ∈ ips.map Ip.address := by
  unfold findIp
  rw [List.any_eq_true, List.mem_map]
  constructor
  · rintro ⟨known, hknown, heq⟩
    refine ⟨known, hknown, h _ ?_ _ ?_ (of_decide_eq_true heq)⟩
    · exact List.mem_append_left _ (List.mem_map_of_mem hknown)
    · exact List.mem_append_right _ List.mem_cons_self
  · rintro ⟨known, hknown, heq⟩
    exact ⟨known, hknown, decide_eq_true (congrArg Prod.snd heq)⟩

theorem textAddress_ok {text : String} {ip : Ip} (h : Api0.convertIp P text = .ok ip) :
    textAddress P text = some ip.address := by
  rw [textAddress, h]
  rfl

theorem textAddress_some {text : String} {a : Address} (h : textAddress P text = some a) :
    ∃ ip, Api0.convertIp P text = .ok ip ∧ ip.address = a := by
  unfold textAddress at h
  cases hip : Api0.convertIp P text with
  | error error =>
      rw [hip] at h
      cases h
  | ok ip =>
      rw [hip] at h
      exact ⟨ip, rfl, Option.some.inj h⟩

theorem convertIps_addresses {texts : List String} {acc ips : List Ip}
    (hclear : Clear (acc.map Ip.address ++ addresses P texts))
    (h : Api0.convertIps P texts acc = .ok ips) :
    ips.map Ip.address = (addresses P texts).foldl addAddress (acc.map Ip.address) := by
  induction texts generalizing acc with
  | nil =>
      cases h
      rfl
  | cons text rest ih =>
      unfold Api0.convertIps at h
      cases hip : Api0.convertIp P text with
      | error error =>
          rw [hip] at h
          cases h
      | ok ip =>
          rw [hip] at h
          have hcons : addresses P (text :: rest) = ip.address :: addresses P rest := by
            rw [addresses, List.filterMap_cons, textAddress_ok hip]
            rfl
          rw [hcons] at hclear ⊢
          have hfind : findIp acc ip = true ↔ ip.address ∈ acc.map Ip.address := by
            apply findIp_iff
            apply hclear.mono
            intro a ha
            simp only [List.mem_append, List.mem_cons, List.not_mem_nil, or_false] at ha ⊢
            tauto
          change (if findIp acc ip then _ else _) = _ at h
          rw [List.foldl_cons, addAddress]
          split at h
          · next hfound =>
              rw [if_pos (hfind.mp hfound)]
              apply ih _ h
              apply hclear.mono
              intro a ha
              simp only [List.mem_append, List.mem_cons] at ha ⊢
              tauto
          · next hnew =>
              rw [if_neg (mt hfind.mpr hnew)]
              have hmap : (acc ++ [ip]).map Ip.address = acc.map Ip.address ++ [ip.address] := by
                simp
              rw [← hmap]
              apply ih _ h
              rw [hmap, List.append_assoc]
              exact hclear

def LooksLike (as bs : List Address) : Prop := as.map Prod.snd = bs.map Prod.snd

theorem ipListEq_iff {left right : List Ip} :
    ipListEq left right = true ↔
      LooksLike (left.map Ip.address) (right.map Ip.address) := by
  unfold ipListEq LooksLike
  induction left generalizing right with
  | nil => cases right <;> simp [List.isEqv]
  | cons a left ih =>
      cases right with
      | nil => simp [List.isEqv]
      | cons b right =>
          rw [List.isEqv, Bool.and_eq_true, ih]
          simp [Ip.eq, Ip.address]

/-! ## The abstract lists -/

structure AddressBook where
  /-- The addresses of a NIC, if there is one with this id. -/
  nics : String → List Address
  groups : String → Option (List Address)

namespace AddressBook

def empty : AddressBook where
  nics _ := []
  groups _ := none

def setNic (book : AddressBook) (id : String) (as : List Address) : AddressBook :=
  { book with nics := Function.update book.nics id as }

def setGroup (book : AddressBook) (id : String) (as : Option (List Address)) : AddressBook :=
  { book with groups := Function.update book.groups id as }

theorem setNic_nics (book : AddressBook) (id : String) (as : List Address) (a : String) :
    (book.setNic id as).nics a = if a = id then as else book.nics a :=
  Function.update_apply _ _ _ _

theorem setGroup_groups (book : AddressBook) (id : String) (as : Option (List Address))
    (a : String) : (book.setGroup id as).groups a = if a = id then as else book.groups a :=
  Function.update_apply _ _ _ _

def members (book : AddressBook) (id : String) : List Address := (book.groups id).getD []

def perform (P : Platform) (c : Api0.Command) (book : AddressBook) : AddressBook :=
  match c with
  | .nicAdd m =>
      -- Neither the configuration nor the process id decides whether a NIC converts.
      if Api0.validateNic P m && (Api0.convertNic P false 0 m).isOk then
        book.setNic m.id (firstSeen (addresses P m.ip))
      else book
  | .nicUpdate req =>
      if Api0.validateNicUpdate P req && (Api0.convertNicUpdate P 0 {} req).isOk then
        if req.ip = [] then book
        else book.setNic req.id (firstSeen (addresses P (req.ip.filter (· ≠ ""))))
      else book
  | .sgAdd m =>
      if Api0.validateSg P m && (Api0.convertSg P m).isOk then
        book.setGroup m.id (some (firstSeen (addresses P m.member)))
      else book
  | .sgDel id => book.setGroup id none
  | .sgRuleAdd req =>
      if Api0.validateSgRule P req.rule && (Api0.convertRule P req.rule).isOk then
        book.setGroup req.sgId (some (book.members req.sgId))
      else book
  | .sgMemberAdd req =>
      match Api0.validateIp P req.member, textAddress P req.member with
      | true, some a => book.setGroup req.sgId (some (addAddress (book.members req.sgId) a))
      | _, _ => book
  | .sgMemberDel req =>
      match Api0.validateIp P req.member, textAddress P req.member with
      | true, some a =>
          book.setGroup req.sgId ((book.groups req.sgId).map fun as => as.erase a)
      | _, _ => book
  | _ => book

def step (P : Platform) (request : Option MessageV0.Request) (book : AddressBook) : AddressBook :=
  match request.bind Api0.command with
  | none => book
  | some c => perform P c book

end AddressBook

/-! ## When addresses meet their likes -/

def storedIps (s : Server) (id : String) : List Address :=
  ((s.model.nics[id]?).map fun nic => nic.ipList.map Ip.address).getD []

def storedMembers (s : Server) (id : String) : List Address :=
  ((s.model.securityGroups[id]?).map fun sg => sg.members.map Ip.address).getD []

/--
No address of a request meets one of the other family with the same bytes: among
the addresses of the request, and in the list that they are compared with.
-/
def CommandClear (P : Platform) (s : Server) : Api0.Command → Prop
  | .nicAdd m => Clear (addresses P m.ip)
  | .nicUpdate req =>
      Clear (addresses P (req.ip.filter (· ≠ ""))) ∧
        (LooksLike (storedIps s req.id) (firstSeen (addresses P (req.ip.filter (· ≠ "")))) →
          storedIps s req.id = firstSeen (addresses P (req.ip.filter (· ≠ ""))))
  | .sgAdd m =>
      Clear (addresses P m.member) ∧
        (LooksLike (firstSeen (addresses P m.member)) (storedMembers s m.id) →
          firstSeen (addresses P m.member) = storedMembers s m.id)
  | .sgMemberAdd req => Clear (storedMembers s req.sgId ++ addresses P [req.member])
  | .sgMemberDel req => Clear (storedMembers s req.sgId ++ addresses P [req.member])
  | _ => True

def NoLookalikes (P : Platform) : Allowed := fun s _ request =>
  ∀ c ∈ request.bind Api0.command, CommandClear P s c

/-! ## Refinement -/

structure Lists (m : Model) (book : AddressBook) : Prop where
  nics : ∀ (id : String) (nic : Nic), m.nics[id]? = some nic →
    nic.ipList.map Ip.address = book.nics id
  groups : ∀ id : String,
    (m.securityGroups[id]?).map (fun sg => sg.members.map Ip.address) = book.groups id
  nicsNodup : ∀ id, (book.nics id).Nodup
  groupsNodup : ∀ id, ∀ as ∈ book.groups id, as.Nodup

namespace Lists

variable {m m' : Model} {book : AddressBook}

theorem members (h : Lists m book) (id : String) :
    (groupOrNew m.securityGroups id).members.map Ip.address = book.members id := by
  unfold groupOrNew AddressBook.members
  rw [← h.groups id]
  cases m.securityGroups[id]? <;> rfl

theorem members_nodup (h : Lists m book) (id : String) : (book.members id).Nodup := by
  unfold AddressBook.members
  cases has : book.groups id with
  | none => exact List.nodup_nil
  | some as => exact h.groupsNodup id as has

theorem setNic (h : Lists m book) {id : String} {as : List Address}
    (hgroups : m'.securityGroups = m.securityGroups) (has : as.Nodup)
    (hnics : ∀ (a : String) (nic : Nic), m'.nics[a]? = some nic →
      if a = id then nic.ipList.map Ip.address = as else m.nics[a]? = some nic) :
    Lists m' (book.setNic id as) := by
  refine ⟨fun a nic hnic => ?_, fun a => ?_, fun a => ?_, h.groupsNodup⟩
  · have hcase := hnics a nic hnic
    rw [AddressBook.setNic_nics]
    split at hcase
    · next ha => rw [if_pos ha, hcase]
    · next ha => rw [if_neg ha, h.nics a nic hcase]
  · rw [hgroups]
    exact h.groups a
  · rw [AddressBook.setNic_nics]
    split
    · exact has
    · exact h.nicsNodup a

theorem setGroup (h : Lists m book) {id : String} {as : Option (List Address)}
    (hnics : m'.nics = m.nics) (has : ∀ l ∈ as, l.Nodup)
    (hgroups : ∀ a : String, (m'.securityGroups[a]?).map (fun sg => sg.members.map Ip.address) =
      if a = id then as
      else (m.securityGroups[a]?).map fun sg => sg.members.map Ip.address) :
    Lists m' (book.setGroup id as) := by
  refine ⟨fun a nic hnic => ?_, fun a => ?_, h.nicsNodup, fun a l hl => ?_⟩
  · rw [hnics] at hnic
    exact h.nics a nic hnic
  · rw [hgroups a, AddressBook.setGroup_groups, h.groups a]
  · rw [AddressBook.setGroup_groups] at hl
    split at hl
    · exact has l hl
    · exact h.groupsNodup a l hl

theorem insertGroup (h : Lists m book) {id : String} (sg : Sg) {as : List Address}
    (hnics : m'.nics = m.nics) (hgroups : m'.securityGroups = m.securityGroups.insert id sg)
    (hmembers : sg.members.map Ip.address = as) (has : as.Nodup) :
    Lists m' (book.setGroup id (some as)) := by
  apply h.setGroup hnics
  · rintro l ⟨⟩
    exact has
  · intro a
    rw [hgroups, lookup_insert]
    by_cases ha : a = id
    · rw [if_pos ha, if_pos ha.symm, Option.map_some, hmembers]
    · rw [if_neg ha, if_neg (Ne.symm ha)]

end Lists

section Actions

variable {s : Server} {m' : Model} {book : AddressBook}

theorem firstSeen_nodup (as : List Address) : (firstSeen as).Nodup :=
  foldl_addAddress_nodup as List.nodup_nil

theorem convertIps_firstSeen {texts : List String} {ips : List Ip}
    (hclear : Clear (addresses P texts)) (h : Api0.convertIps P texts [] = .ok ips) :
    ips.map Ip.address = firstSeen (addresses P texts) :=
  convertIps_addresses (by simpa using hclear) h

theorem lists_nicAdd (h : Lists s.model book) {m : MessageV0.Nic} {nic : Nic} {trace : Bool}
    {pid : Nat} {accepted : Bool} (hclear : Clear (addresses P m.ip))
    (hconvert : Api0.convertNic P trace pid m = .ok nic)
    (hstored : Stored P (.nicAdd nic) accepted s.model m') :
    Lists m' (book.setNic m.id (firstSeen (addresses P m.ip))) := by
  obtain ⟨hid, -, hips, -⟩ := convertNic_fields hconvert
  have hlist := convertIps_firstSeen hclear hips
  refine h.setNic hstored.groups (firstSeen_nodup _) fun a n hn => ?_
  rw [hstored.nics] at hn
  simp only [nicsAfter, hid] at hn
  split at hn
  · rw [lookup_insertIfNew, lookup_erase, lookup_erase] at hn
    split at hn
    · next ha =>
        rw [if_pos rfl, Option.getD_none] at hn
        cases hn
        rw [if_pos ha.symm]
        exact hlist
    · next ha =>
        rw [if_neg (Ne.symm ha)]
        exact hn
  · rw [lookup_erase] at hn
    split at hn
    · cases hn
    · next ha =>
        rw [if_neg (Ne.symm ha)]
        exact hn

theorem updatedNic_addresses {update : NicUpdate} {old : Nic} {as : List Address}
    (hips : update.ip.map Ip.address = as)
    (hlike : LooksLike (old.ipList.map Ip.address) as → old.ipList.map Ip.address = as) :
    (updatedNic update old).ipList.map Ip.address =
      if update.ipOverwrite then as else old.ipList.map Ip.address := by
  rw [(updatedNic_fields update old).2.1, Api.revise]
  dsimp only
  unfold Api.ipChanged
  cases hoverwrite : update.ipOverwrite with
  | false => simp
  | true =>
      cases heq : ipListEq old.ipList update.ip with
      | false => simpa using hips
      | true =>
          rw [ipListEq_iff, hips] at heq
          simpa using hlike heq

theorem lists_nicUpdate (h : Lists s.model book) {req : MessageV0.NicUpdateReq}
    {update : NicUpdate} {pid : Nat} {garbage : Api0.Garbage} {accepted : Bool}
    (hclear : CommandClear P s (.nicUpdate req))
    (hconvert : Api0.convertNicUpdate P pid garbage req = .ok update)
    (hstored : Stored P (.nicUpdate update) accepted s.model m') :
    Lists m' (if req.ip = [] then book
      else book.setNic req.id (firstSeen (addresses P (req.ip.filter (· ≠ ""))))) := by
  obtain ⟨hid, hoverwrite, hips, -⟩ := convertNicUpdate_fields hconvert
  obtain ⟨hclear, hlike⟩ := hclear
  have hlist := convertIps_firstSeen hclear hips
  have hentry : ∀ (a : String) (nic : Nic), m'.nics[a]? = some nic →
      if a = req.id then ∃ old, s.model.nics[req.id]? = some old ∧
        nic.ipList.map Ip.address = if update.ipOverwrite then
          firstSeen (addresses P (req.ip.filter (· ≠ ""))) else old.ipList.map Ip.address
      else s.model.nics[a]? = some nic := by
    intro a nic hnic
    rw [hstored.nics] at hnic
    simp only [nicsAfter, hid] at hnic
    cases hold : s.model.nics[req.id]? with
    | none =>
        rw [hold] at hnic
        split
        · next ha =>
            rw [ha] at hnic
            cases hold.symm.trans hnic
        · exact hnic
    | some old =>
        rw [storedIps, hold] at hlike
        rw [hold] at hnic
        simp only [lookup_insert] at hnic
        split at hnic
        · next ha =>
            cases hnic
            rw [if_pos ha.symm]
            exact ⟨old, rfl, updatedNic_addresses hlist hlike⟩
        · next ha =>
            rw [if_neg (Ne.symm ha)]
            exact hnic
  have hempty : update.ipOverwrite = decide (req.ip ≠ []) := by
    rw [hoverwrite]
    cases req.ip <;> rfl
  split
  · next hnone =>
      refine ⟨fun a nic hnic => ?_, fun a => ?_, h.nicsNodup, h.groupsNodup⟩
      · have hcase := hentry a nic hnic
        split at hcase
        · next ha =>
            obtain ⟨old, hold, heq⟩ := hcase
            rw [hempty, hnone] at heq
            rw [ha, ← h.nics _ old hold]
            simpa using heq
        · exact h.nics a nic hcase
      · rw [hstored.groups]
        exact h.groups a
  · next hsome =>
      refine h.setNic hstored.groups (firstSeen_nodup _) fun a nic hnic => ?_
      have hcase := hentry a nic hnic
      split at hcase
      · next ha =>
          obtain ⟨old, -, heq⟩ := hcase
          rw [if_pos ha]
          simpa [hempty, hsome] using heq
      · next ha =>
          rw [if_neg ha]
          exact hcase

theorem lists_nicDel (h : Lists s.model book) {id : String} {accepted : Bool}
    (hstored : Stored P (.nicDel id) accepted s.model m') : Lists m' book := by
  refine ⟨fun a nic hnic => ?_, fun a => ?_, h.nicsNodup, h.groupsNodup⟩
  · rw [hstored.nics] at hnic
    simp only [nicsAfter, lookup_erase] at hnic
    split at hnic
    · cases hnic
    · exact h.nics a nic hnic
  · rw [hstored.groups]
    exact h.groups a

theorem lists_sgAdd (h : Lists s.model book) {m : MessageV0.Sg} {sg : Sg} {accepted : Bool}
    (hclear : CommandClear P s (.sgAdd m)) (hconvert : Api0.convertSg P m = .ok sg)
    (hstored : Stored P (.sgAdd sg) accepted s.model m') :
    Lists m' (book.setGroup m.id (some (firstSeen (addresses P m.member)))) := by
  obtain ⟨hid, hmembers, -⟩ := convertSg_cases hconvert
  obtain ⟨hclear, hlike⟩ := hclear
  have hlist := convertIps_firstSeen hclear hmembers
  have hgroups := hstored.groups
  have hset (hg : m'.securityGroups = s.model.securityGroups.insert m.id sg) :
      Lists m' (book.setGroup m.id (some (firstSeen (addresses P m.member)))) :=
    h.insertGroup sg hstored.nics hg hlist (firstSeen_nodup _)
  simp only [groupsAfter, hid] at hgroups
  split at hgroups
  · next originalSg horiginal =>
      split at hgroups
      · next heq =>
          -- The group stays: what looks like its members must be its members.
          simp only [Sg.eq, Bool.and_eq_true] at heq
          have hmembers' := ipListEq_iff.mp heq.1.2
          rw [hlist] at hmembers'
          rw [storedMembers, horiginal] at hlike
          refine h.insertGroup originalSg hstored.nics ?_ (hlike hmembers').symm
            (firstSeen_nodup _)
          rw [hgroups, insert_of_lookup horiginal]
      · exact hset hgroups
  · exact hset hgroups

theorem lists_sgDel (h : Lists s.model book) {id : String} {accepted : Bool}
    (hstored : Stored P (.sgDel id) accepted s.model m') :
    Lists m' (book.setGroup id none) := by
  apply h.setGroup hstored.nics
  · intro l hl
    cases hl
  · intro a
    rw [hstored.groups, groupsAfter, lookup_erase]
    by_cases ha : a = id
    · rw [if_pos ha, if_pos ha.symm, Option.map_none]
    · rw [if_neg ha, if_neg (Ne.symm ha)]

theorem lists_sgRuleAdd (h : Lists s.model book) {id : String} {rule : Rule} {accepted : Bool}
    (hstored : Stored P (.sgRuleAdd id rule) accepted s.model m') :
    Lists m' (book.setGroup id (some (book.members id))) :=
  h.insertGroup _ hstored.nics hstored.groups (h.members id) (h.members_nodup id)

theorem lists_sgRuleDel (h : Lists s.model book) {id : String} {rule : Rule} {accepted : Bool}
    (hstored : Stored P (.sgRuleDel id rule) accepted s.model m') : Lists m' book := by
  refine ⟨fun a nic hnic => ?_, fun a => ?_, h.nicsNodup, h.groupsNodup⟩
  · rw [hstored.nics] at hnic
    exact h.nics a nic hnic
  · rw [hstored.groups, ← h.groups a]
    simp only [groupsAfter]
    split
    · rfl
    · next sg hsg =>
        rw [lookup_insert]
        split
        · next ha =>
            rw [← ha, hsg]
            rfl
        · rfl

theorem lists_sgMemberAdd (h : Lists s.model book) {id : String} {ip : Ip} {accepted : Bool}
    (hclear : Clear (storedMembers s id ++ [ip.address]))
    (hstored : Stored P (.sgMemberAdd id ip) accepted s.model m') :
    Lists m' (book.setGroup id (some (addAddress (book.members id) ip.address))) := by
  have hmembers := h.members id
  have hknown : storedMembers s id = book.members id := by
    rw [← hmembers, storedMembers, groupOrNew]
    cases s.model.securityGroups[id]? <;> rfl
  rw [hknown, ← hmembers] at hclear
  have hfind := findIp_iff hclear
  refine h.insertGroup _ hstored.nics hstored.groups ?_ (addAddress_nodup (h.members_nodup id) _)
  dsimp only
  unfold addAddress
  rw [← hmembers]
  split
  · next hfound => rw [if_pos (hfind.mp hfound)]
  · next hnew => rw [if_neg (mt hfind.mpr hnew), List.map_append, List.map_singleton]

theorem eraseP_addresses {ips : List Ip} {ip : Ip}
    (hclear : Clear (ips.map Ip.address ++ [ip.address])) :
    (ips.eraseP fun known => known.eq ip).map Ip.address =
      (ips.map Ip.address).erase ip.address := by
  induction ips with
  | nil => rfl
  | cons known ips ih =>
      have hiff : known.eq ip = true ↔ known.address = ip.address := by
        constructor
        · intro heq
          refine hclear _ ?_ _ ?_ (of_decide_eq_true heq)
          · simp
          · simp
        · intro heq
          exact decide_eq_true (congrArg Prod.snd heq)
      rw [List.eraseP_cons, List.map_cons, List.erase_cons]
      by_cases heq : known.address = ip.address
      · rw [hiff.mpr heq, cond_true, if_pos (by simpa using heq)]
      · rw [if_neg (by simpa using heq), Bool.cond_eq_ite, if_neg (mt hiff.mp heq), List.map_cons,
          ih (hclear.mono (by simp))]

theorem lists_sgMemberDel (h : Lists s.model book) {id : String} {ip : Ip} {accepted : Bool}
    (hclear : Clear (storedMembers s id ++ [ip.address]))
    (hstored : Stored P (.sgMemberDel id ip) accepted s.model m') :
    Lists m' (book.setGroup id ((book.groups id).map fun as => as.erase ip.address)) := by
  have hid := h.groups id
  have hgroups := hstored.groups
  simp only [groupsAfter] at hgroups
  split at hgroups
  · next hnone =>
      rw [hnone] at hid
      apply h.setGroup hstored.nics
      · rw [← hid]
        intro l hl
        cases hl
      · intro a
        rw [hgroups, ← hid]
        split
        · next ha =>
            rw [ha, hnone]
            rfl
        · rfl
  · next sg hsg =>
      rw [hsg] at hid
      rw [storedMembers, hsg] at hclear
      rw [← hid]
      refine h.insertGroup _ hstored.nics hgroups (eraseP_addresses hclear) ?_
      apply List.Nodup.erase
      exact h.groupsNodup id _ hid.symm

/-! ### Refused commands -/

theorem isOk_iff {ε α : Type} {x : Except ε α} : x.isOk = true ↔ ∃ v, x = .ok v := by
  cases x with
  | error e => simp [Except.isOk, Except.toBool]
  | ok v => simp [Except.isOk, Except.toBool]

theorem convertNicType_isOk (m : MessageV0.Nic) (nic nic' : Nic) :
    (Api0.convertNicType P m nic).isOk = (Api0.convertNicType P m nic').isOk := by
  unfold Api0.convertNicType
  split
  · rfl
  · split
    · rfl
    · split
      · split
        · next dip dmac _ _ => cases Api0.convertIp P dip <;> rfl
        · rfl
      · split <;> rfl
  · rfl

theorem convertNic_isOk (m : MessageV0.Nic) (trace trace' : Bool) (pid pid' : Nat) :
    (Api0.convertNic P trace pid m).isOk = (Api0.convertNic P trace' pid' m).isOk := by
  unfold Api0.convertNic
  cases Api0.convertIps P m.ip [] with
  | error error => rfl
  | ok ips => exact convertNicType_isOk m _ _

theorem convertNicUpdate_isOk (req : MessageV0.NicUpdateReq) (pid pid' : Nat)
    (garbage garbage' : Api0.Garbage) :
    (Api0.convertNicUpdate P pid garbage req).isOk =
      (Api0.convertNicUpdate P pid' garbage' req).isOk := by
  unfold Api0.convertNicUpdate
  cases Api0.convertIps P (req.ip.filter (· ≠ "")) [] <;> rfl

theorem book_of_quiet {c : Api0.Command} (h : ∀ a, ¬Asks P ambient s c a)
    (book : AddressBook) : AddressBook.perform P c book = book := by
  cases c with
  | nicAdd m =>
      refine if_neg fun hok => ?_
      obtain ⟨hvalid, hok⟩ := Bool.and_eq_true_iff.mp hok
      rw [convertNic_isOk m false s.config.packetTrace 0 s.pid, isOk_iff] at hok
      obtain ⟨nic, hconvert⟩ := hok
      exact h _ (.nicAdd hvalid hconvert)
  | nicUpdate req =>
      refine if_neg fun hok => ?_
      obtain ⟨hvalid, hok⟩ := Bool.and_eq_true_iff.mp hok
      rw [convertNicUpdate_isOk req 0 s.pid {} ambient.garbage, isOk_iff] at hok
      obtain ⟨update, hconvert⟩ := hok
      exact h _ (.nicUpdate hvalid hconvert)
  | sgAdd m =>
      refine if_neg fun hok => ?_
      obtain ⟨hvalid, hok⟩ := Bool.and_eq_true_iff.mp hok
      obtain ⟨sg, hconvert⟩ := isOk_iff.mp hok
      exact h _ (.sgAdd hvalid hconvert)
  | sgDel id => exact absurd (.sgDel id) (h _)
  | sgRuleAdd req =>
      refine if_neg fun hok => ?_
      obtain ⟨hvalid, hok⟩ := Bool.and_eq_true_iff.mp hok
      obtain ⟨rule, hconvert⟩ := isOk_iff.mp hok
      exact h _ (.sgRuleAdd hvalid hconvert)
  | sgMemberAdd req =>
      simp only [AddressBook.perform]
      split
      · next a hvalid ha =>
          obtain ⟨ip, hip, -⟩ := textAddress_some ha
          exact absurd (.sgMemberAdd hvalid hip) (h _)
      · rfl
  | sgMemberDel req =>
      simp only [AddressBook.perform]
      split
      · next a hvalid ha =>
          obtain ⟨ip, hip, -⟩ := textAddress_some ha
          exact absurd (.sgMemberDel hvalid hip) (h _)
      · rfl
  | _ => rfl

theorem asks_lists (h : Lists s.model book) {c : Api0.Command} {a : Action} {accepted : Bool}
    (hclear : CommandClear P s c) (hasks : Asks P ambient s c a)
    (hstored : Stored P a accepted s.model m') : Lists m' (AddressBook.perform P c book) := by
  cases hasks with
  | @nicAdd m nic hvalid hconvert =>
      have hok : (Api0.convertNic P false 0 m).isOk = true := by
        rw [convertNic_isOk m false s.config.packetTrace 0 s.pid]
        exact isOk_iff.mpr ⟨nic, hconvert⟩
      simp only [AddressBook.perform, hvalid, hok, Bool.and_self, if_true]
      exact lists_nicAdd h hclear hconvert hstored
  | @nicUpdate req update hvalid hconvert =>
      have hok : (Api0.convertNicUpdate P 0 {} req).isOk = true := by
        rw [convertNicUpdate_isOk req 0 s.pid {} ambient.garbage]
        exact isOk_iff.mpr ⟨update, hconvert⟩
      simp only [AddressBook.perform, hvalid, hok, Bool.and_self, if_true]
      exact lists_nicUpdate h hclear hconvert hstored
  | nicDel id => exact lists_nicDel h hstored
  | @sgAdd m sg hvalid hconvert =>
      have hok : (Api0.convertSg P m).isOk = true := isOk_iff.mpr ⟨sg, hconvert⟩
      simp only [AddressBook.perform, hvalid, hok, Bool.and_self, if_true]
      exact lists_sgAdd h hclear hconvert hstored
  | sgDel id => exact lists_sgDel h hstored
  | @sgRuleAdd req rule hvalid hconvert =>
      have hok : (Api0.convertRule P req.rule).isOk = true := isOk_iff.mpr ⟨rule, hconvert⟩
      simp only [AddressBook.perform, hvalid, hok, Bool.and_self, if_true]
      exact lists_sgRuleAdd h hstored
  | sgRuleDel hvalid hconvert => exact lists_sgRuleDel h hstored
  | @sgMemberAdd req ip hvalid hconvert =>
      have haddress := textAddress_ok hconvert
      simp only [AddressBook.perform, hvalid, haddress]
      refine lists_sgMemberAdd h ?_ hstored
      simpa [CommandClear, addresses, haddress] using hclear
  | @sgMemberDel req ip hvalid hconvert =>
      have haddress := textAddress_ok hconvert
      simp only [AddressBook.perform, hvalid, haddress]
      refine lists_sgMemberDel h ?_ hstored
      simpa [CommandClear, addresses, haddress] using hclear

theorem transition_lists {request : Option MessageV0.Request} (h : Lists s.model book)
    (hclear : NoLookalikes P s ambient request) (ht : Transition P ambient s request m') :
    Lists m' (AddressBook.step P request book) := by
  unfold AddressBook.step
  cases ht with
  | quiet hquiet =>
      split
      · exact h
      · next c hc =>
          obtain ⟨rq, hrq, hcommand⟩ := Option.bind_eq_some_iff.mp hc
          rw [book_of_quiet (hquiet rq c · hrq hcommand)]
          exact h
  | act hrq hc hasks hstored =>
      subst hrq
      simp only [Option.bind_some, hc]
      exact asks_lists h (hclear _ (by simpa using hc)) hasks hstored

end Actions

/--
In runs in which no address meets one of the other family with the same bytes, the
addresses of a NIC and the members of a group are those of the abstract lists, each
once and in the order in which they came.
-/
theorem address_lists_refine {s : Server} {book : AddressBook}
    (h : Paired P (NoLookalikes P) AddressBook.empty (AddressBook.step P) s book) :
    (∀ (id : String) (nic : Nic), s.model.nics[id]? = some nic →
      nic.ipList.map Ip.address = book.nics id ∧ (book.nics id).Nodup) ∧
    ∀ id : String,
      (s.model.securityGroups[id]?).map (fun sg => sg.members.map Ip.address) =
        book.groups id ∧ ∀ as ∈ book.groups id, as.Nodup := by
  have hstart : Lists {} AddressBook.empty := by
    refine ⟨fun id nic hnic => ?_, fun id => ?_, fun id => List.nodup_nil, fun id as has => ?_⟩
    · rw [ExtTreeMap.getElem?_empty] at hnic
      cases hnic
    · rw [ExtTreeMap.getElem?_empty]
      rfl
    · cases has
  have hrun : Lists s.model book := by
    refine h.simulates (R := Lists) hstart ?_
    intro s ambient request m' book _ hallowed hmodel ht
    exact transition_lists hmodel hallowed ht
  exact ⟨fun id nic hnic => ⟨hrun.nics id nic hnic, hrun.nicsNodup id⟩,
    fun id => ⟨hrun.groups id, hrun.groupsNodup id⟩⟩

instance (as : List Address) : Decidable (Clear as) :=
  inferInstanceAs (Decidable (∀ a ∈ as, ∀ b ∈ as, a.2 = b.2 → a = b))

instance (as bs : List Address) : Decidable (LooksLike as bs) :=
  inferInstanceAs (Decidable (as.map Prod.snd = bs.map Prod.snd))

def twoMembers : MessageV0.Request :=
  { sgAdd := some { id := "sg-1", member := ["42.0.0.1", "42.0.0.2", "42.0.0.1"] } }

theorem address_lists_refine_two_members :
    ∃ (s : Server) (book : AddressBook),
      Paired Libc.platform (NoLookalikes Libc.platform) AddressBook.empty
        (AddressBook.step Libc.platform) s book ∧
      (s.model.securityGroups["sg-1"]?).map (fun sg => sg.members.map Ip.address) =
        book.groups "sg-1" ∧
      book.groups "sg-1" = some (addresses Libc.platform ["42.0.0.1", "42.0.0.2"]) := by
  have hallowed : NoLookalikes Libc.platform (Server.start {} 1 0) {} (some twoMembers) := by
    rintro c ⟨⟩
    change _ ∧ _
    decide +kernel
  have hrespond : (Api0.respond Libc.platform {} (some twoMembers) (Server.start {} 1 0)).isSome :=
    by decide +kernel
  obtain ⟨⟨response, s⟩, hs⟩ := Option.isSome_iff_exists.mp hrespond
  have hstart : Paired Libc.platform (NoLookalikes Libc.platform) AddressBook.empty
      (AddressBook.step Libc.platform) (Server.start {} 1 0) AddressBook.empty := .start {} 1 0
  have hpaired := hstart.respond hallowed hs
  exact ⟨s, _, hpaired, ((address_lists_refine hpaired).2 "sg-1").1, by decide +kernel⟩

def lookalikes : List MessageV0.Request :=
  [{ sgMemberAdd := some { sgId := "sg-1", member := "1.2.3.4" } },
   { sgMemberAdd := some { sgId := "sg-1"
                           member := "0102:0304:0000:0000:0000:0000:0000:0000" } }]

/-- The second member is taken for the first and not added. -/
theorem lookalike_not_added :
    ∃ (s : Server) (book : AddressBook),
      Paired Libc.platform anything AddressBook.empty (AddressBook.step Libc.platform) s book ∧
      (s.model.securityGroups["sg-1"]?).map (fun sg => sg.members.map Ip.address) ≠
        book.groups "sg-1" := by
  have hserve : ∃ s, serve Libc.platform {} lookalikes (Server.start {} 1 0) = some s ∧
      (s.model.securityGroups["sg-1"]?).map (fun sg => sg.members.map Ip.address) =
        some (addresses Libc.platform ["1.2.3.4"]) := by
    refine ⟨(serve Libc.platform {} lookalikes (Server.start {} 1 0)).get ?_, ?_, ?_⟩
    · decide +kernel
    · simp
    · decide +kernel
  obtain ⟨s, hs, hmembers⟩ := hserve
  have hstart : Paired Libc.platform anything AddressBook.empty
      (AddressBook.step Libc.platform) (Server.start {} 1 0) AddressBook.empty := .start {} 1 0
  refine ⟨s, _, hstart.serve (fun _ _ _ => trivial) hs, ?_⟩
  rw [hmembers]
  decide +kernel

end Butterfly
