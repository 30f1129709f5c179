import Butterfly.Foundation.Decimal
import Butterfly.WellFormed

/-!
# The rule store

`Sg::rules` is keyed by a hash of a text made from the rule.  The text tells rules
apart, so as long as the hash tells the texts apart the map is a set of rules.
-/

namespace Butterfly

open Std Foundation

/-! ## Which rules are the same -/

structure RuleKey where
  direction : Direction
  protocol : Int16
  portStart : Int32
  portEnd : Int32
  family : IpType
  address : Vector UInt8 16
  maskSize : UInt32
  securityGroup : String
  deriving DecidableEq

def Rule.key (r : Rule) : RuleKey :=
  { direction := r.direction, protocol := r.protocol, portStart := r.portStart
    portEnd := r.portEnd, family := r.cidr.address.type, address := r.cidr.address.data
    maskSize := r.cidr.maskSize, securityGroup := r.securityGroup }

/-- What `inet_ntop` writes is not empty and holds no slash. -/
structure PlainTexts (P : Platform) : Prop where
  four : ∀ address, P.inetNtop4 address ≠ "" ∧ '/' ∉ (P.inetNtop4 address).toList
  six : ∀ address, P.inetNtop6 address ≠ "" ∧ '/' ∉ (P.inetNtop6 address).toList

variable {P : Platform} {ambient : Ambient}

namespace Ip

theorem Genuine.plain (hP : PlainTexts P) {ip : Ip} (h : ip.Genuine P) :
    ip.str ≠ "" ∧ '/' ∉ ip.str.toList := by
  cases h with
  | v4 address => exact hP.four address
  | v6 address => exact hP.six address

theorem Genuine.type_ne_none {ip : Ip} (h : ip.Genuine P) : ip.type ≠ .none := by
  cases h <;> simp [ofV4, ofV6]

theorem Genuine.eq_of_str {ip ip' : Ip} (h : ip.Genuine P) (h' : ip'.Genuine P)
    (htext : ip.str = ip'.str) : ip = ip' := by
  cases h with
  | v4 a =>
      cases h' with
      | v4 b =>
          have hread := P.pton4_ntop4 a
          rw [show P.inetNtop4 a = P.inetNtop4 b from htext, P.pton4_ntop4] at hread
          rw [Option.some.inj hread]
      | v6 b =>
          have hread := P.pton6_of_pton4 (P.pton4_ntop4 a)
          rw [show P.inetNtop4 a = P.inetNtop6 b from htext, P.pton6_ntop6] at hread
          cases hread
  | v6 a =>
      cases h' with
      | v4 b =>
          have hread := P.pton6_of_pton4 (P.pton4_ntop4 b)
          rw [← show P.inetNtop6 a = P.inetNtop4 b from htext, P.pton6_ntop6] at hread
          cases hread
      | v6 b =>
          have hread := P.pton6_ntop6 a
          rw [show P.inetNtop6 a = P.inetNtop6 b from htext, P.pton6_ntop6] at hread
          rw [Option.some.inj hread]

theorem copy4_injective {data : Vector UInt8 16} {a b : Vector UInt8 4}
    (h : copy4 data a = copy4 data b) : a = b := by
  apply Vector.ext
  intro i hi
  have hbyte := Vector.ext_iff.mp h i (by omega)
  simpa [copy4, hi] using hbyte

theorem Genuine.eq_of_data {ip ip' : Ip} (h : ip.Genuine P) (h' : ip'.Genuine P)
    (htype : ip.type = ip'.type) (hdata : ip.data = ip'.data) : ip = ip' := by
  cases h with
  | v4 a =>
      cases h' with
      | v4 b => rw [copy4_injective hdata]
      | v6 b => cases htype
  | v6 a =>
      cases h' with
      | v4 b => cases htype
      | v6 b => rw [show a = b from hdata]

end Ip

namespace Rule

theorem hashText_toList (r : Rule) : r.hashText.toList =
    (toString r.direction.toNat).toList ++ '-' :: ((toString r.protocol.toInt).toList ++
      '-' :: ((toString r.portStart.toInt).toList ++ '-' :: ((toString r.portEnd.toInt).toList ++
        '-' :: (r.cidr.address.str.toList ++ '/' :: ((toString r.cidr.maskSize.toNat).toList ++
          '-' :: r.securityGroup.toList))))) := by
  simp [hashText, Cidr.str]

theorem hashText_injective (hP : PlainTexts P) {r r' : Rule} (hr : r.WellFormed P)
    (hr' : r'.WellFormed P) (h : r.hashText = r'.hashText) : r = r' := by
  have hlist := congrArg String.toList h
  rw [hashText_toList, hashText_toList] at hlist
  have hslash {r : Rule} (hr : r.WellFormed P) : '/' ∉ r.cidr.address.str.toList := by
    cases hr.source with
    | group hnone =>
        rw [hnone]
        exact List.not_mem_nil
    | cidr _ hgenuine => exact (hgenuine.plain hP).2
  obtain ⟨hdirection, hlist⟩ := nat_field_eq (by decide) hlist
  obtain ⟨hprotocol, hlist⟩ := int_field_eq hlist
  obtain ⟨hstart, hlist⟩ := int_field_eq hlist
  obtain ⟨hend, hlist⟩ := int_field_eq hlist
  obtain ⟨haddress, hlist⟩ := field_eq (hslash hr) (hslash hr') hlist
  obtain ⟨hmask, hgroup⟩ := nat_field_eq (by decide) hlist
  have hip : r.cidr.address = r'.cidr.address := by
    have htext := String.toList_inj.mp haddress
    cases hr.source with
    | group hnone =>
        cases hr'.source with
        | group hnone' => rw [hnone, hnone']
        | cidr _ hgenuine =>
            rw [hnone] at htext
            exact absurd htext.symm (hgenuine.plain hP).1
    | cidr _ hgenuine =>
        cases hr'.source with
        | group hnone' =>
            rw [hnone'] at htext
            exact absurd htext (hgenuine.plain hP).1
        | cidr _ hgenuine' => exact hgenuine.eq_of_str hgenuine' htext
  have hcidr : r.cidr = r'.cidr := by
    rcases hc : r.cidr with ⟨address, maskSize⟩
    rcases hc' : r'.cidr with ⟨address', maskSize'⟩
    rw [hc, hc'] at hip hmask
    rw [show address = address' from hip, show maskSize = maskSize' from UInt32.toNat_inj.mp hmask]
  rcases r with ⟨direction, protocol, portStart, portEnd, cidr, securityGroup⟩
  rcases r' with ⟨direction', protocol', portStart', portEnd', cidr', securityGroup'⟩
  obtain rfl : direction = direction' := by
    cases direction <;> cases direction' <;> first | rfl | cases hdirection
  obtain rfl : protocol = protocol' := Int16.toInt_inj.mp hprotocol
  obtain rfl : portStart = portStart' := Int32.toInt_inj.mp hstart
  obtain rfl : portEnd = portEnd' := Int32.toInt_inj.mp hend
  obtain rfl : cidr = cidr' := hcidr
  obtain rfl : securityGroup = securityGroup' := String.toList_inj.mp hgroup
  rfl

theorem eq_of_key {r r' : Rule} (hr : r.WellFormed P) (hr' : r'.WellFormed P)
    (h : r.key = r'.key) : r = r' := by
  have hip : r.cidr.address = r'.cidr.address := by
    have htype : r.cidr.address.type = r'.cidr.address.type := congrArg RuleKey.family h
    have hdata : r.cidr.address.data = r'.cidr.address.data := congrArg RuleKey.address h
    cases hr.source with
    | group hnone =>
        cases hr'.source with
        | group hnone' => rw [hnone, hnone']
        | cidr _ hgenuine =>
            rw [hnone] at htype
            cases hgenuine.type_ne_none htype.symm
    | cidr _ hgenuine =>
        cases hr'.source with
        | group hnone' =>
            rw [hnone'] at htype
            cases hgenuine.type_ne_none htype
        | cidr _ hgenuine' => exact hgenuine.eq_of_data hgenuine' htype hdata
  rcases r with ⟨direction, protocol, portStart, portEnd, ⟨address, maskSize⟩, securityGroup⟩
  rcases r' with ⟨direction', protocol', portStart', portEnd', ⟨address', maskSize'⟩,
    securityGroup'⟩
  obtain rfl : address = address' := hip
  simp only [key, RuleKey.mk.injEq, true_and] at h
  obtain ⟨rfl, rfl, rfl, rfl, rfl, rfl⟩ := h
  rfl

end Rule

/-! ## Rule maps -/

def ruleSet (rules : ExtTreeMap UInt64 Rule) : Set RuleKey :=
  { k | ∃ (h : UInt64) (r : Rule), rules[h]? = some r ∧ r.key = k }

def Keyed (P : Platform) (texts : Set String) (rules : ExtTreeMap UInt64 Rule) : Prop :=
  ∀ (h : UInt64) (r : Rule), rules[h]? = some r →
    h = r.hash P ∧ r.WellFormed P ∧ r.hashText ∈ texts

section Keyed

variable {texts : Set String} {rules rules' : ExtTreeMap UInt64 Rule}

theorem keyed_empty : Keyed P texts ∅ := by
  intro h r hr
  rw [ExtTreeMap.getElem?_empty] at hr
  cases hr

@[simp] theorem ruleSet_empty : ruleSet ∅ = ∅ := by
  ext k
  simp [ruleSet]

theorem eq_of_hash (hP : PlainTexts P) (htexts : texts.InjOn P.hashString) {r r' : Rule}
    (hr : r.WellFormed P) (hr' : r'.WellFormed P) (ht : r.hashText ∈ texts)
    (ht' : r'.hashText ∈ texts) (h : r.hash P = r'.hash P) : r = r' :=
  Rule.hashText_injective hP hr hr' (htexts ht ht' h)

theorem Keyed.insertIfNew (h : Keyed P texts rules) {rule : Rule} (hrule : rule.WellFormed P)
    (htext : rule.hashText ∈ texts) : Keyed P texts (rules.insertIfNew (rule.hash P) rule) := by
  intro hash r hr
  rw [lookup_insertIfNew] at hr
  split at hr
  · next heq =>
      subst heq
      cases hknown : rules[rule.hash P]? with
      | none =>
          rw [hknown] at hr
          cases hr
          exact ⟨rfl, hrule, htext⟩
      | some known =>
          rw [hknown] at hr
          cases hr
          exact h _ _ hknown
  · exact h hash r hr

theorem Keyed.erase (h : Keyed P texts rules) (hash : UInt64) :
    Keyed P texts (rules.erase hash) := by
  intro a r hr
  rw [lookup_erase] at hr
  split at hr
  · cases hr
  · exact h a r hr

theorem ruleSet_insertIfNew (hP : PlainTexts P) (htexts : texts.InjOn P.hashString)
    (h : Keyed P texts rules) {rule : Rule} (hrule : rule.WellFormed P)
    (htext : rule.hashText ∈ texts) :
    ruleSet (rules.insertIfNew (rule.hash P) rule) = insert rule.key (ruleSet rules) := by
  ext k
  constructor
  · rintro ⟨hash, r, hr, rfl⟩
    rw [lookup_insertIfNew] at hr
    split at hr
    · next heq =>
        cases hknown : rules[rule.hash P]? with
        | none =>
            rw [hknown] at hr
            cases hr
            exact .inl rfl
        | some known =>
            rw [hknown] at hr
            cases hr
            exact .inr ⟨_, _, hknown, rfl⟩
    · exact .inr ⟨hash, r, hr, rfl⟩
  · rintro (rfl | ⟨hash, r, hr, rfl⟩)
    · cases hknown : rules[rule.hash P]? with
      | none => exact ⟨rule.hash P, rule, by rw [lookup_insertIfNew, if_pos rfl, hknown]; rfl, rfl⟩
      | some known =>
          obtain ⟨hhash, hwf, hmem⟩ := h _ _ hknown
          obtain rfl := eq_of_hash hP htexts hrule hwf htext hmem hhash
          exact ⟨_, _, by rw [lookup_insertIfNew, if_pos rfl, hknown]; rfl, rfl⟩
    · refine ⟨hash, r, ?_, rfl⟩
      rw [lookup_insertIfNew]
      split
      · next heq =>
          subst heq
          rw [hr]
          rfl
      · exact hr

theorem ruleSet_erase (hP : PlainTexts P) (htexts : texts.InjOn P.hashString)
    (h : Keyed P texts rules) {rule : Rule} (hrule : rule.WellFormed P)
    (htext : rule.hashText ∈ texts) :
    ruleSet (rules.erase (rule.hash P)) = ruleSet rules \ {rule.key} := by
  ext k
  constructor
  · rintro ⟨hash, r, hr, rfl⟩
    rw [lookup_erase] at hr
    split at hr
    · cases hr
    · next hne =>
        refine ⟨⟨hash, r, hr, rfl⟩, fun heq => ?_⟩
        obtain ⟨hhash, hwf, -⟩ := h hash r hr
        rw [hhash, Rule.eq_of_key hwf hrule heq] at hne
        exact hne rfl
  · rintro ⟨⟨hash, r, hr, rfl⟩, hne⟩
    refine ⟨hash, r, ?_, rfl⟩
    obtain ⟨hhash, hwf, hmem⟩ := h hash r hr
    rw [lookup_erase, if_neg, hr]
    intro heq
    rw [hhash] at heq
    rw [eq_of_hash hP htexts hrule hwf htext hmem heq] at hne
    exact hne rfl

theorem rulesEq_lookup (h : rulesEq rules rules' = true) (hash : UInt64) :
    rules[hash]?.isSome ↔ rules'[hash]?.isSome := by
  have hkeys : rules.toList.map Prod.fst = rules'.toList.map Prod.fst := by
    unfold rulesEq at h
    generalize rules.toList = l at h
    generalize rules'.toList = l' at h
    induction l generalizing l' with
    | nil =>
        cases l' with
        | nil => rfl
        | cons e' l' => cases h
    | cons e l ih =>
        cases l' with
        | nil => cases h
        | cons e' l' =>
            simp only [List.isEqv, Bool.and_eq_true, decide_eq_true_eq] at h
            rw [List.map_cons, List.map_cons, h.1.1, ih l' h.2]
  have hmem (m : ExtTreeMap UInt64 Rule) : m[hash]?.isSome ↔ hash ∈ m.toList.map Prod.fst := by
    rw [List.mem_map, Option.isSome_iff_exists]
    constructor
    · rintro ⟨r, hr⟩
      exact ⟨(hash, r), ExtTreeMap.mem_toList_iff_getElem?_eq_some.mpr hr, rfl⟩
    · rintro ⟨⟨k, r⟩, hr, rfl⟩
      exact ⟨r, ExtTreeMap.mem_toList_iff_getElem?_eq_some.mp hr⟩
  rw [hmem, hmem, hkeys]

theorem ruleSet_of_rulesEq (hP : PlainTexts P) (htexts : texts.InjOn P.hashString)
    (h : Keyed P texts rules) (h' : Keyed P texts rules') (heq : rulesEq rules rules' = true) :
    ruleSet rules = ruleSet rules' := by
  have hlookup : ∀ hash : UInt64, rules[hash]? = rules'[hash]? := by
    intro hash
    have hiff := rulesEq_lookup heq hash
    cases hr : rules[hash]? with
    | none =>
        rw [hr] at hiff
        cases hr' : rules'[hash]? with
        | none => rfl
        | some r' =>
            rw [hr'] at hiff
            cases hiff.mpr rfl
    | some r =>
        rw [hr] at hiff
        obtain ⟨r', hr'⟩ := Option.isSome_iff_exists.mp (hiff.mp rfl)
        obtain ⟨hhash, hwf, hmem⟩ := h hash r hr
        obtain ⟨hhash', hwf', hmem'⟩ := h' hash r' hr'
        rw [hr', eq_of_hash hP htexts hwf hwf' hmem hmem' (hhash.symm.trans hhash')]
  rw [ExtTreeMap.ext_getElem? hlookup]

end Keyed

/-! ## The abstract store -/

abbrev RuleStore := String → Option (Set RuleKey)

def messageKeys (P : Platform) (messages : List MessageV0.Rule) : Set RuleKey :=
  { k | ∃ m ∈ messages, ∃ rule, Api0.convertRule P m = .ok rule ∧ rule.key = k }

namespace RuleStore

def perform (P : Platform) (c : Api0.Command) (store : RuleStore) : RuleStore :=
  match c with
  | .sgAdd m =>
      if Api0.validateSg P m && (Api0.convertSg P m).isOk then
        Function.update store m.id (some (messageKeys P m.rule))
      else store
  | .sgDel id => Function.update store id none
  | .sgRuleAdd req =>
      match Api0.validateSgRule P req.rule, Api0.convertRule P req.rule with
      | true, .ok rule =>
          Function.update store req.sgId (some (insert rule.key ((store req.sgId).getD ∅)))
      | _, _ => store
  | .sgRuleDel req =>
      match Api0.validateSgRule P req.rule, Api0.convertRule P req.rule with
      | true, .ok rule =>
          Function.update store req.sgId ((store req.sgId).map fun rules => rules \ {rule.key})
      | _, _ => store
  | .sgMemberAdd req =>
      -- A group that is missing is created without rules.
      if Api0.validateIp P req.member && (Api0.convertIp P req.member).isOk then
        Function.update store req.sgId (some ((store req.sgId).getD ∅))
      else store
  | _ => store

def step (P : Platform) (request : Option MessageV0.Request) (store : RuleStore) : RuleStore :=
  match request.bind Api0.command with
  | none => store
  | some c => perform P c store

end RuleStore

def commandRules : Api0.Command → List MessageV0.Rule
  | .sgAdd m => m.rule
  | .sgRuleAdd req => [req.rule]
  | .sgRuleDel req => [req.rule]
  | _ => []

/-- The texts hashed for a request are among these. -/
def HashesIn (P : Platform) (texts : Set String) : Allowed := fun _ _ request =>
  ∀ c ∈ request.bind Api0.command, ∀ m ∈ commandRules c, ∀ rule,
    Api0.convertRule P m = .ok rule → rule.hashText ∈ texts

/-! ## Refinement -/

structure Represents (P : Platform) (texts : Set String) (groups : ExtTreeMap String Sg)
    (store : RuleStore) : Prop where
  rules : ∀ id : String, (groups[id]?).map (fun sg => ruleSet sg.rules) = store id
  keyed : ∀ (id : String) (sg : Sg), groups[id]? = some sg → Keyed P texts sg.rules

namespace Represents

variable {texts : Set String} {groups : ExtTreeMap String Sg} {store : RuleStore}

theorem insert (h : Represents P texts groups store) (id : String) (sg : Sg)
    (hsg : Keyed P texts sg.rules) :
    Represents P texts (groups.insert id sg)
      (Function.update store id (some (ruleSet sg.rules))) := by
  constructor
  · intro a
    rw [lookup_insert]
    by_cases ha : id = a
    · subst ha
      simp
    · rw [if_neg ha, Function.update_of_ne (Ne.symm ha)]
      exact h.rules a
  · intro a sg' hsg'
    rw [lookup_insert] at hsg'
    split at hsg'
    · cases hsg'
      exact hsg
    · exact h.keyed a sg' hsg'

theorem erase (h : Represents P texts groups store) (id : String) :
    Represents P texts (groups.erase id) (Function.update store id none) := by
  constructor
  · intro a
    rw [lookup_erase]
    by_cases ha : id = a
    · subst ha
      simp
    · rw [if_neg ha, Function.update_of_ne (Ne.symm ha)]
      exact h.rules a
  · intro a sg' hsg'
    rw [lookup_erase] at hsg'
    split at hsg'
    · cases hsg'
    · exact h.keyed a sg' hsg'

theorem groupOrNew (h : Represents P texts groups store) (id : String) :
    Keyed P texts (groupOrNew groups id).rules ∧
      ruleSet (Butterfly.groupOrNew groups id).rules = (store id).getD ∅ := by
  unfold Butterfly.groupOrNew
  rw [← h.rules id]
  cases hsg : groups[id]? with
  | none => exact ⟨keyed_empty, ruleSet_empty⟩
  | some sg => exact ⟨h.keyed id sg hsg, rfl⟩

theorem same (h : Represents P texts groups store) {id : String} {sg : Sg}
    (hsg : groups[id]? = some sg) :
    Represents P texts groups (Function.update store id (some (ruleSet sg.rules))) := by
  have hid := h.rules id
  rw [hsg, Option.map_some] at hid
  rw [hid, Function.update_eq_self]
  exact h

end Represents

section Refinement

variable {texts : Set String}

theorem convertRules_keyed (hP : PlainTexts P) (htexts : texts.InjOn P.hashString)
    {messages : List MessageV0.Rule} {acc rules : ExtTreeMap UInt64 Rule}
    (hvalid : ∀ m ∈ messages, Api0.validateSgRule P m = true)
    (hmem : ∀ m ∈ messages, ∀ rule, Api0.convertRule P m = .ok rule → rule.hashText ∈ texts)
    (hacc : Keyed P texts acc) (h : Api0.convertRules P messages acc = .ok rules) :
    Keyed P texts rules ∧ ruleSet rules = ruleSet acc ∪ messageKeys P messages := by
  induction messages generalizing acc with
  | nil =>
      cases h
      refine ⟨hacc, ?_⟩
      simp [messageKeys]
  | cons m rest ih =>
      unfold Api0.convertRules at h
      cases hrule : Api0.convertRule P m with
      | error error =>
          rw [hrule] at h
          cases h
      | ok rule =>
          rw [hrule] at h
          have hwf := convertRule_wellFormed (hvalid m List.mem_cons_self) hrule
          have htext := hmem m List.mem_cons_self rule hrule
          obtain ⟨hkeyed, hset⟩ := ih (fun m hm => hvalid m (List.mem_cons_of_mem _ hm))
            (fun m hm => hmem m (List.mem_cons_of_mem _ hm)) (hacc.insertIfNew hwf htext) h
          refine ⟨hkeyed, ?_⟩
          have hkeys : messageKeys P (m :: rest) = {rule.key} ∪ messageKeys P rest := by
            ext k
            simp [messageKeys, hrule, eq_comm]
          rw [hset, ruleSet_insertIfNew hP htexts hacc hwf htext, hkeys, Set.insert_eq,
            Set.union_assoc, Set.union_left_comm]

theorem represents_sgAdd (hP : PlainTexts P) (htexts : texts.InjOn P.hashString)
    {groups : ExtTreeMap String Sg} {store : RuleStore} (h : Represents P texts groups store)
    {m : MessageV0.Sg} {sg : Sg} (hvalid : Api0.validateSg P m = true)
    (hconvert : Api0.convertSg P m = .ok sg)
    (hmem : ∀ r ∈ m.rule, ∀ rule, Api0.convertRule P r = .ok rule → rule.hashText ∈ texts) :
    Represents P texts (groupsAfter P (.sgAdd sg) groups)
      (Function.update store m.id (some (messageKeys P m.rule))) := by
  obtain ⟨hid, -, hrules⟩ := convertSg_cases hconvert
  have hall : ∀ r ∈ m.rule, Api0.validateSgRule P r = true := by
    unfold Api0.validateSg at hvalid
    exact List.all_eq_true.mp (Bool.and_eq_true_iff.mp hvalid).2
  obtain ⟨hkeyed, hset⟩ := convertRules_keyed hP htexts hall hmem keyed_empty hrules
  rw [ruleSet_empty, Set.empty_union] at hset
  rw [← hset, ← hid]
  simp only [groupsAfter]
  split
  · next originalSg horiginal =>
      split
      · next heq =>
          simp only [Sg.eq, Bool.and_eq_true] at heq
          rw [ruleSet_of_rulesEq hP htexts hkeyed (h.keyed _ _ horiginal) heq.2]
          exact h.same horiginal
      · exact h.insert sg.id sg hkeyed
  · exact h.insert sg.id sg hkeyed

theorem represents_sgRuleAdd (hP : PlainTexts P) (htexts : texts.InjOn P.hashString)
    {groups : ExtTreeMap String Sg} {store : RuleStore} (h : Represents P texts groups store)
    (id : String) {rule : Rule} (hrule : rule.WellFormed P) (htext : rule.hashText ∈ texts) :
    Represents P texts (groupsAfter P (.sgRuleAdd id rule) groups)
      (Function.update store id (some (insert rule.key ((store id).getD ∅)))) := by
  obtain ⟨hkeyed, hset⟩ := h.groupOrNew id
  rw [← hset, ← ruleSet_insertIfNew hP htexts hkeyed hrule htext]
  exact h.insert id _ (hkeyed.insertIfNew hrule htext)

theorem represents_sgRuleDel (hP : PlainTexts P) (htexts : texts.InjOn P.hashString)
    {groups : ExtTreeMap String Sg} {store : RuleStore} (h : Represents P texts groups store)
    (id : String) {rule : Rule} (hrule : rule.WellFormed P) (htext : rule.hashText ∈ texts) :
    Represents P texts (groupsAfter P (.sgRuleDel id rule) groups)
      (Function.update store id ((store id).map fun rules => rules \ {rule.key})) := by
  have hid := h.rules id
  simp only [groupsAfter]
  split
  · next hnone =>
      rw [hnone] at hid
      rw [← hid, Option.map_none, Option.map_none]
      rw [show Function.update store id none = store by
        rw [show (none : Option (Set RuleKey)) = store id from hid, Function.update_eq_self]]
      exact h
  · next sg hsg =>
      rw [hsg] at hid
      have hkeyed := h.keyed id sg hsg
      rw [← hid, Option.map_some, Option.map_some,
        ← ruleSet_erase hP htexts hkeyed hrule htext]
      exact h.insert id _ (hkeyed.erase _)

theorem represents_sgMemberAdd {groups : ExtTreeMap String Sg} {store : RuleStore}
    (h : Represents P texts groups store) (id : String) (ip : Ip) :
    Represents P texts (groupsAfter P (.sgMemberAdd id ip) groups)
      (Function.update store id (some ((store id).getD ∅))) := by
  obtain ⟨hkeyed, hset⟩ := h.groupOrNew id
  rw [← hset]
  exact h.insert id _ hkeyed

theorem represents_sgMemberDel {groups : ExtTreeMap String Sg} {store : RuleStore}
    (h : Represents P texts groups store) (id : String) (ip : Ip) :
    Represents P texts (groupsAfter P (.sgMemberDel id ip) groups) store := by
  simp only [groupsAfter]
  split
  · exact h
  · next sg hsg =>
      have hid := h.rules id
      rw [hsg, Option.map_some] at hid
      have hset := h.insert id
        { sg with members := sg.members.eraseP fun known => known.eq ip } (h.keyed id sg hsg)
      rw [hid, Function.update_eq_self] at hset
      exact hset

theorem perform_of_quiet {s : Server} {c : Api0.Command} (h : ∀ a, ¬Asks P ambient s c a)
    (store : RuleStore) : RuleStore.perform P c store = store := by
  cases c with
  | sgAdd m =>
      simp only [RuleStore.perform]
      split
      · next hok =>
          obtain ⟨hvalid, hok⟩ := Bool.and_eq_true_iff.mp hok
          cases hconvert : Api0.convertSg P m with
          | error error =>
              rw [hconvert] at hok
              cases hok
          | ok sg => exact absurd (.sgAdd hvalid hconvert) (h _)
      · rfl
  | sgDel id => exact absurd (.sgDel id) (h _)
  | sgRuleAdd req =>
      simp only [RuleStore.perform]
      split
      · next rule hvalid hconvert => exact absurd (.sgRuleAdd hvalid hconvert) (h _)
      · rfl
  | sgRuleDel req =>
      simp only [RuleStore.perform]
      split
      · next rule hvalid hconvert => exact absurd (.sgRuleDel hvalid hconvert) (h _)
      · rfl
  | sgMemberAdd req =>
      simp only [RuleStore.perform]
      split
      · next hok =>
          obtain ⟨hvalid, hok⟩ := Bool.and_eq_true_iff.mp hok
          cases hconvert : Api0.convertIp P req.member with
          | error error =>
              rw [hconvert] at hok
              cases hok
          | ok ip => exact absurd (.sgMemberAdd hvalid hconvert) (h _)
      · rfl
  | _ => rfl

theorem asks_represents (hP : PlainTexts P) (htexts : texts.InjOn P.hashString) {s : Server}
    {c : Api0.Command} {a : Action} {store : RuleStore}
    (h : Represents P texts s.model.securityGroups store)
    (hmem : ∀ m ∈ commandRules c, ∀ rule, Api0.convertRule P m = .ok rule →
      rule.hashText ∈ texts) (hasks : Asks P ambient s c a) :
    Represents P texts (groupsAfter P a s.model.securityGroups)
      (RuleStore.perform P c store) := by
  cases hasks with
  | nicAdd _ _ => exact h
  | nicUpdate _ _ => exact h
  | nicDel id => exact h
  | sgAdd hvalid hconvert =>
      simp only [RuleStore.perform, hvalid, hconvert, Except.isOk, Except.toBool, Bool.and_self,
        if_true]
      exact represents_sgAdd hP htexts h hvalid hconvert hmem
  | sgDel id => exact h.erase id
  | sgRuleAdd hvalid hconvert =>
      simp only [RuleStore.perform, hvalid, hconvert]
      exact represents_sgRuleAdd hP htexts h _ (convertRule_wellFormed hvalid hconvert)
        (hmem _ List.mem_cons_self _ hconvert)
  | sgRuleDel hvalid hconvert =>
      simp only [RuleStore.perform, hvalid, hconvert]
      exact represents_sgRuleDel hP htexts h _ (convertRule_wellFormed hvalid hconvert)
        (hmem _ List.mem_cons_self _ hconvert)
  | sgMemberAdd hvalid hconvert =>
      simp only [RuleStore.perform, hvalid, hconvert, Except.isOk, Except.toBool, Bool.and_self,
        if_true]
      exact represents_sgMemberAdd h _ _
  | sgMemberDel hvalid hconvert => exact represents_sgMemberDel h _ _

theorem transition_represents (hP : PlainTexts P) (htexts : texts.InjOn P.hashString)
    {s : Server} {request : Option MessageV0.Request} {m' : Model} {store : RuleStore}
    (h : Represents P texts s.model.securityGroups store)
    (hmem : HashesIn P texts s ambient request) (ht : Transition P ambient s request m') :
    Represents P texts m'.securityGroups (RuleStore.step P request store) := by
  unfold RuleStore.step
  cases ht with
  | quiet hquiet =>
      split
      · exact h
      · next c hc =>
          obtain ⟨rq, hrq, hcommand⟩ := Option.bind_eq_some_iff.mp hc
          rw [perform_of_quiet (hquiet rq c · hrq hcommand)]
          exact h
  | act hrq hc hasks hstored =>
      subst hrq
      simp only [Option.bind_some, hc]
      rw [hstored.groups]
      exact asks_represents hP htexts h (hmem _ (by simpa using hc)) hasks

end Refinement

/--
The rule maps of all groups are the abstract store after the same requests: a map
of sets of rules, in which rules are told apart by what they say.  Assumed are texts
of addresses as `inet_ntop` writes them, and no collision among the texts that the
requests of the run have hashed.
-/
theorem rules_refine_store (hP : PlainTexts P) {texts : Set String}
    (htexts : texts.InjOn P.hashString) {s : Server} {store : RuleStore}
    (h : Paired P (HashesIn P texts) (fun _ => none) (RuleStore.step P) s store) (id : String) :
    (s.model.securityGroups[id]?).map (fun sg => ruleSet sg.rules) = store id := by
  have hstart : Represents P texts (∅ : ExtTreeMap String Sg) fun _ => none := by
    constructor
    · intro a
      rw [ExtTreeMap.getElem?_empty, Option.map_none]
    · intro a sg hsg
      rw [ExtTreeMap.getElem?_empty] at hsg
      cases hsg
  have hrun : Represents P texts s.model.securityGroups store := by
    refine h.simulates (R := fun m store => Represents P texts m.securityGroups store) hstart ?_
    intro s ambient request m' store _ hallowed hmodel ht
    exact transition_represents hP htexts hmodel hallowed ht
  exact hrun.rules id

theorem libc_plainTexts : PlainTexts Libc.platform := by
  refine ⟨fun address => ⟨Libc.ntop4_ne_empty address, fun hmem => ?_⟩,
    fun address => ⟨Libc.ntop6_ne_empty address, fun hmem => ?_⟩⟩
  · rcases Libc.ntop4_chars hmem with h | h
    · exact absurd h (by decide)
    · exact absurd h (by decide)
  · rcases Libc.ntop6_chars hmem with h | h
    · exact absurd h (by decide)
    · exact absurd h (by decide)

def addAndDelete : List MessageV0.Request :=
  [{ sgAdd := some { id := "sg-1"
                     rule := [{ direction := .inbound, protocol := -1
                                securityGroup := some "a-b/c" }] } },
   { sgRuleAdd := some { sgId := "sg-1"
                         rule := { direction := .outbound, protocol := 6, portStart := some 80
                                   portEnd := some 443
                                   cidr := some { address := "10.0.0.0", maskSize := 8 } } } },
   { sgRuleDel := some { sgId := "sg-1"
                         rule := { direction := .inbound, protocol := -1
                                   securityGroup := some "a-b/c" } } }]

theorem rules_refine_store_add_and_delete :
    ∃ (s : Server) (store : RuleStore), s.model.securityGroups.size = 1 ∧
      Paired Libc.platform (HashesIn Libc.platform
          {"0--1-0-0-/0-a-b/c", "1-6-80-443-10.0.0.0/8-"}) (fun _ => none)
        (RuleStore.step Libc.platform) s store ∧
      ∀ id : String, (s.model.securityGroups[id]?).map (fun sg => ruleSet sg.rules) = store id := by
  have hserve : ∃ s, serve Libc.platform {} addAndDelete (Server.start {} 1 0) = some s ∧
      s.model.securityGroups.size = 1 := by
    refine ⟨(serve Libc.platform {} addAndDelete (Server.start {} 1 0)).get ?_, ?_, ?_⟩
    · decide +kernel
    · simp
    · decide +kernel
  obtain ⟨s, hs, hsize⟩ := hserve
  have htexts : Set.InjOn Libc.platform.hashString
      {"0--1-0-0-/0-a-b/c", "1-6-80-443-10.0.0.0/8-"} := by
    have hne : Libc.hashString "0--1-0-0-/0-a-b/c" ≠
        Libc.hashString "1-6-80-443-10.0.0.0/8-" := by decide +kernel
    rintro t (rfl | rfl) t' (rfl | rfl) h
    · rfl
    · exact absurd h hne
    · exact absurd h.symm hne
    · rfl
  have hcheck : ∀ rq ∈ addAndDelete, ∀ m ∈ ((Api0.command rq).map commandRules).getD [],
      (Api0.convertRule Libc.platform m).toOption.map Rule.hashText ∈
        [some "0--1-0-0-/0-a-b/c", some "1-6-80-443-10.0.0.0/8-"] := by
    decide +kernel
  have hallowed : ∀ rq ∈ addAndDelete, ∀ s, HashesIn Libc.platform
      {"0--1-0-0-/0-a-b/c", "1-6-80-443-10.0.0.0/8-"} s {} (some rq) := by
    intro rq hrq s c hc m hm rule hrule
    have hm' : m ∈ ((Api0.command rq).map commandRules).getD [] := by
      rw [show Api0.command rq = some c from hc]
      exact hm
    have htext := hcheck rq hrq m hm'
    rw [hrule] at htext
    simpa [Except.toOption] using htext
  have hstart : Paired Libc.platform (HashesIn Libc.platform
      {"0--1-0-0-/0-a-b/c", "1-6-80-443-10.0.0.0/8-"}) (fun _ => none)
        (RuleStore.step Libc.platform) (Server.start {} 1 0) fun _ => none := .start {} 1 0
  have hpaired := hstart.serve hallowed hs
  exact ⟨s, _, hsize, hpaired, rules_refine_store libc_plainTexts htexts hpaired⟩

end Butterfly
