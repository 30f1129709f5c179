import Butterfly.Run

/-!
# The inbound filter of a NIC

`FwUpdate` joins the rules of a group, and then the groups of a NIC.  The two loops
look one element ahead for the separator, and repair the end of the text when the
elements after the last text turn out to be empty.
-/

namespace Butterfly.Graph

open Std Foundation

variable (groups : ExtTreeMap String Sg)

/-! ## The text -/

def cumulated (texts : List String) : String :=
  "||".intercalate ((texts.filter (· ≠ "")).map paren)

def attachedGroups (nic : Nic) : List Sg := nic.securityGroups.filterMap fun id => groups[id]?

theorem orLoop_eq_cumulated (texts : List String) : orLoop texts = cumulated texts := by
  rw [orLoop_eq, orText_eq_intercalate, cumulated]

theorem filter_groupText (ids : List String) :
    (ids.map (groupText groups)).filter (· ≠ "") =
      ((ids.filterMap fun id => groups[id]?).map (fwBuildSg groups)).filter (· ≠ "") := by
  induction ids with
  | nil => rfl
  | cons id ids ih =>
      rw [List.map_cons, List.filter_cons, ih]
      cases hsg : groups[id]? with
      | none => simp [groupText, hsg]
      | some sg => simp [groupText, hsg, List.filter_cons]

theorem inRules_eq_empty_iff (groups : ExtTreeMap String Sg) (nic : Nic) :
    inRules groups nic = "" ↔ ∀ sg ∈ attachedGroups groups nic,
      ∀ rule ∈ mapValues sg.rules, fwBuildRule groups rule = "" := by
  have hempty : ∀ sg, fwBuildSg groups sg = "" ↔
      ∀ rule ∈ mapValues sg.rules, fwBuildRule groups rule = "" := by
    intro sg
    rw [fwBuildSg, orLoop_eq_empty_iff]
    simp
  rw [inRules, orLoop_eq, orText_eq_empty_iff, filter_groupText, List.filter_eq_nil_iff]
  simp only [← hempty, attachedGroups, List.forall_mem_map, decide_not, Bool.not_eq_true,
    Bool.not_eq_false', decide_eq_true_eq]

/--
The inbound text is the join of the groups, and the text of a group is the join of its
rules.  It is empty if and only if nothing was there to join.
-/
theorem inRules_cumulates (groups : ExtTreeMap String Sg) (nic : Nic) :
    inRules groups nic = cumulated ((attachedGroups groups nic).map fun sg =>
      cumulated ((mapValues sg.rules).map (fwBuildRule groups))) ∧
    (inRules groups nic = "" ↔ ∀ sg ∈ attachedGroups groups nic,
      ∀ rule ∈ mapValues sg.rules, fwBuildRule groups rule = "") := by
  have hgroup : fwBuildSg groups = fun sg =>
      cumulated ((mapValues sg.rules).map (fwBuildRule groups)) := by
    funext sg
    exact orLoop_eq_cumulated _
  refine ⟨?_, inRules_eq_empty_iff groups nic⟩
  rw [inRules, orLoop_eq_cumulated, cumulated, filter_groupText, ← cumulated, hgroup]
  rfl

/-! ## Accesses to the last character -/

/-- `FwBuildSg`; `none` is an access to the last character of an empty string. -/
def fwBuildSg? (sg : Sg) : Option String :=
  orLoop? ((mapValues sg.rules).map (fwBuildRule groups))

/-- The loop of `FwUpdate` over the groups still to come. -/
def inRulesFrom? : List String → String → Option String
  | [], r => some r
  | id :: ids, r =>
      match groups[id]? with
      | none => inRulesFrom? ids r
      | some sg => do
          let text ← fwBuildSg? groups sg
          if text = "" then inRulesFrom? ids r
          else inRulesFrom? ids (r ++ paren text ++ if ids = [] then "" else "||")

/-- `in_rules` of `FwUpdate`, with every access checked. -/
def inRules? (nic : Nic) : Option String := do
  let r ← inRulesFrom? groups nic.securityGroups ""
  dropBars? r

/-- Some rule of the group has a filter. -/
def Buildable (sg : Sg) : Prop := ∃ rule ∈ mapValues sg.rules, fwBuildRule groups rule ≠ ""

theorem buildable_iff (sg : Sg) : Buildable groups sg ↔ fwBuildSg groups sg ≠ "" := by
  rw [fwBuildSg, Ne, orLoop_eq_empty_iff]
  simp [Buildable]

theorem fwBuildSg?_of_buildable {sg : Sg} (h : Buildable groups sg) :
    fwBuildSg? groups sg = some (fwBuildSg groups sg) := by
  have hne := (buildable_iff groups sg).mp h
  rw [fwBuildSg] at hne
  rw [fwBuildSg?, orLoop?_eq, if_neg hne, fwBuildSg]

theorem fwBuildSg?_of_not_buildable {sg : Sg} (h : ¬Buildable groups sg) :
    fwBuildSg? groups sg = none := by
  rw [buildable_iff, not_not, fwBuildSg] at h
  rw [fwBuildSg?, orLoop?_eq, if_pos h]

theorem inRulesFrom?_of_buildable {ids : List String}
    (h : ∀ id ∈ ids, ∀ sg, groups[id]? = some sg → Buildable groups sg) (r : String) :
    inRulesFrom? groups ids r = some (orLoopFrom (ids.map (groupText groups)) r) := by
  induction ids generalizing r with
  | nil => rfl
  | cons id ids ih =>
      have hrest := ih fun a ha => h a (List.mem_cons_of_mem _ ha)
      rw [inRulesFrom?, List.map_cons, orLoopFrom]
      cases hsg : groups[id]? with
      | none => simp [groupText, hsg, hrest]
      | some sg =>
          have hbuildable := h id List.mem_cons_self sg hsg
          have hne := (buildable_iff groups sg).mp hbuildable
          simp [groupText, hsg, fwBuildSg?_of_buildable groups hbuildable, hne, hrest]

theorem inRulesFrom?_eq_none {ids : List String} {id : String} {sg : Sg} (hid : id ∈ ids)
    (hsg : groups[id]? = some sg) (h : ¬Buildable groups sg) (r : String) :
    inRulesFrom? groups ids r = none := by
  induction ids generalizing r with
  | nil => cases hid
  | cons a ids ih =>
      rw [inRulesFrom?]
      rcases List.mem_cons.mp hid with rfl | hid
      · simp [hsg, fwBuildSg?_of_not_buildable groups h]
      · cases ha : groups[a]? with
        | none => exact ih hid r
        | some first =>
            change (fwBuildSg? groups first).bind _ = none
            rw [Option.bind_eq_none_iff]
            intro text _
            split <;> exact ih hid _

/--
The accesses to the last character of a text are all made to texts that have one if
and only if the NIC has a group that exists and every such group has a rule with a
filter.
-/
theorem accesses_in_domain_iff (groups : ExtTreeMap String Sg) (nic : Nic) :
    inRules? groups nic = some (inRules groups nic) ↔
      attachedGroups groups nic ≠ [] ∧
        ∀ sg ∈ attachedGroups groups nic, Buildable groups sg := by
  have hattached : ∀ sg, sg ∈ attachedGroups groups nic ↔
      ∃ id ∈ nic.securityGroups, groups[id]? = some sg := by
    simp [attachedGroups]
  by_cases hall : ∀ sg ∈ attachedGroups groups nic, Buildable groups sg
  · have hloop : inRules? groups nic = orLoop? (nic.securityGroups.map (groupText groups)) := by
      rw [inRules?, inRulesFrom?_of_buildable groups fun id hid sg hsg =>
        hall sg ((hattached sg).mpr ⟨id, hid, hsg⟩)]
      rfl
    have hempty : inRules groups nic = "" ↔ attachedGroups groups nic = [] := by
      rw [inRules_eq_empty_iff]
      constructor
      · intro hnone
        rw [List.eq_nil_iff_forall_not_mem]
        intro sg hsg
        obtain ⟨rule, hrule, hne⟩ := hall sg hsg
        exact hne (hnone sg hsg rule hrule)
      · intro hnil
        simp [hnil]
    rw [hloop, orLoop?_eq, ← inRules, and_iff_left hall, Ne, ← hempty]
    split
    · next h => simp [h]
    · next h => simp [h]
  · obtain ⟨sg, hsg, hnot⟩ : ∃ sg ∈ attachedGroups groups nic, ¬Buildable groups sg := by
      simpa using hall
    obtain ⟨id, hid, hlookup⟩ := (hattached sg).mp hsg
    have hnone : inRules? groups nic = none := by
      rw [inRules?, inRulesFrom?_eq_none groups hid hlookup hnot]
      rfl
    simp [hnone, hall]

def nicAlone : List MessageV0.Request :=
  [{ nicAdd := some { id := "nic-1", mac := "52:54:00:12:34:01", vni := 42
                      ip := ["42.0.0.1"] } }]

theorem back_of_empty_text :
    ∃ s nic, Reachable Libc.platform anything s ∧ s.model.nics["nic-1"]? = some nic ∧
      nic.bypassFiltering = false ∧ inRules? s.model.securityGroups nic = none := by
  refine ⟨(serve Libc.platform {} nicAlone (Server.start {} 1 0)).get ?_,
    (((serve Libc.platform {} nicAlone (Server.start {} 1 0)).get ?_).model.nics[
      "nic-1"]?).get ?_, ?_, ?_, ?_, ?_⟩
  · decide +kernel
  · decide +kernel
  · decide +kernel
  · exact (Reachable.start {} 1 0).serve (fun _ _ _ => trivial) (Option.some_get _).symm
  · simp
  · decide +kernel
  · decide +kernel

end Butterfly.Graph
