import Butterfly.Foundation.Join
import Butterfly.Foundation.Pcap

/-!
# What the filter compiler accepts

A net is refused if its address has a bit set behind the mask.  Filters in brackets
can be joined: the join is accepted just when its parts are, and it matches what one
of them matches.
-/

namespace Butterfly.Foundation.Pcap

/-! ## Bits of addresses -/

def bitAt (bytes : List UInt8) (i : Nat) : Bool :=
  ((bytes[i / 8]?).getD 0).toNat.testBit (7 - i % 8)

def listValue (bytes : List UInt8) : Nat := bytes.foldl (fun n b => 256 * n + b.toNat) 0

theorem bitsValue_eq {size : Nat} (bytes : Vector UInt8 size) :
    bitsValue bytes = listValue bytes.toList := rfl

theorem foldl_listValue (bytes : List UInt8) (n : Nat) :
    bytes.foldl (fun n b => 256 * n + b.toNat) n =
      2 ^ (8 * bytes.length) * n + listValue bytes := by
  induction bytes generalizing n with
  | nil => simp [listValue]
  | cons b bytes ih =>
      have hpow : 2 ^ (8 * (bytes.length + 1)) = 2 ^ (8 * bytes.length) * 256 := by
        rw [Nat.mul_add, pow_add]
        rfl
      have hcons : listValue (b :: bytes) =
          bytes.foldl (fun n b => 256 * n + b.toNat) (256 * 0 + b.toNat) := rfl
      rw [List.foldl_cons, ih, hcons, ih, List.length_cons, hpow]
      ring

theorem listValue_cons (b : UInt8) (bytes : List UInt8) :
    listValue (b :: bytes) = 2 ^ (8 * bytes.length) * b.toNat + listValue bytes := by
  rw [listValue, List.foldl_cons, foldl_listValue]
  simp

theorem listValue_lt (bytes : List UInt8) : listValue bytes < 2 ^ (8 * bytes.length) := by
  induction bytes with
  | nil => simp [listValue]
  | cons b bytes ih =>
      have hb : b.toNat < 256 := b.toNat_lt
      have hpow : 2 ^ (8 * (bytes.length + 1)) = 256 * 2 ^ (8 * bytes.length) := by
        rw [Nat.mul_add, pow_add]
        ring
      have hmul : 2 ^ (8 * bytes.length) * b.toNat ≤ 2 ^ (8 * bytes.length) * 255 :=
        Nat.mul_le_mul_left _ (by omega)
      rw [listValue_cons, List.length_cons, hpow]
      omega

/-- The bits of the value, from the back, are the bits of the bytes, from the front. -/
theorem testBit_listValue {bytes : List UInt8} {i : Nat} (hi : i < 8 * bytes.length) :
    (listValue bytes).testBit (8 * bytes.length - 1 - i) = bitAt bytes i := by
  induction bytes generalizing i with
  | nil => simp at hi
  | cons b bytes ih =>
      rw [List.length_cons] at hi ⊢
      rw [listValue_cons, Nat.testBit_two_pow_mul_add _ (listValue_lt bytes)]
      by_cases hfirst : i < 8
      · have hindex : i / 8 = 0 := by omega
        have hmod : i % 8 = i := by omega
        rw [if_neg (by omega), bitAt, hindex, hmod]
        simp only [List.getElem?_cons_zero, Option.getD_some]
        congr 1
        omega
      · have hindex : i / 8 = (i - 8) / 8 + 1 := by omega
        have hmod : i % 8 = (i - 8) % 8 := by omega
        have hplace : 8 * (bytes.length + 1) - 1 - i = 8 * bytes.length - 1 - (i - 8) := by
          omega
        rw [if_pos (by omega), hplace, ih (by omega), bitAt, bitAt, hindex, hmod,
          List.getElem?_cons_succ]

/-- The first bits of two addresses are the same, one by one. -/
theorem samePrefix_iff {size mask : Nat} (hmask : mask ≤ 8 * size) (a b : Vector UInt8 size) :
    samePrefix mask a b = true ↔ ∀ i < mask, bitAt a.toList i = bitAt b.toList i := by
  have hbit : ∀ (c : Vector UInt8 size) (i : Nat), i < mask →
      (bitsValue c / 2 ^ (8 * size - mask)).testBit (mask - 1 - i) = bitAt c.toList i := by
    intro c i hi
    have hlength : c.toList.length = size := by simp
    have hplace : mask - 1 - i + (8 * size - mask) = 8 * c.toList.length - 1 - i := by omega
    rw [Nat.testBit_div_two_pow, hplace, bitsValue_eq]
    exact testBit_listValue (by omega)
  rw [samePrefix, beq_iff_eq]
  constructor
  · intro heq i hi
    rw [← hbit a i hi, ← hbit b i hi, heq]
  · intro hall
    apply Nat.eq_of_testBit_eq
    intro j
    by_cases hj : j < mask
    · have hplace : j = mask - 1 - (mask - 1 - j) := by omega
      rw [hplace, hbit a _ (by omega), hbit b _ (by omega)]
      exact hall _ (by omega)
    · -- Nothing is left of an address behind the mask.
      have hzero : ∀ c : Vector UInt8 size,
          (bitsValue c / 2 ^ (8 * size - mask)).testBit j = false := by
        intro c
        have hlt := listValue_lt c.toList
        have hlength : c.toList.length = size := by simp
        rw [hlength] at hlt
        rw [Nat.testBit_div_two_pow, bitsValue_eq]
        apply Nat.testBit_lt_two_pow
        exact Nat.lt_of_lt_of_le hlt (Nat.pow_le_pow_right (by decide) (by omega))
      rw [hzero a, hzero b]

def isNet {size : Nat} (mask : Nat) (a : Vector UInt8 size) : Bool :=
  bitsValue a % 2 ^ (8 * size - mask) == 0

theorem isNet_iff {size mask : Nat} (hmask : mask ≤ 8 * size) (a : Vector UInt8 size) :
    isNet mask a = true ↔ ∀ i, mask ≤ i → i < 8 * size → bitAt a.toList i = false := by
  have hlength : a.toList.length = size := by simp
  have hbit : ∀ i, i < 8 * size →
      (bitsValue a).testBit (8 * size - 1 - i) = bitAt a.toList i := by
    intro i hi
    have h : (listValue a.toList).testBit (8 * a.toList.length - 1 - i) = bitAt a.toList i :=
      testBit_listValue (by omega)
    rwa [hlength] at h
  rw [isNet, beq_iff_eq]
  constructor
  · intro hzero i hlow hhigh
    have hmod : (bitsValue a % 2 ^ (8 * size - mask)).testBit (8 * size - 1 - i) = false := by
      rw [hzero, Nat.zero_testBit]
    rw [Nat.testBit_mod_two_pow, decide_eq_true (by omega), Bool.true_and] at hmod
    rw [← hbit i hhigh, hmod]
  · intro hall
    apply Nat.eq_of_testBit_eq
    intro j
    rw [Nat.testBit_mod_two_pow, Nat.zero_testBit]
    by_cases hj : j < 8 * size - mask
    · have hplace : j = 8 * size - 1 - (8 * size - 1 - j) := by omega
      rw [hplace, hbit _ (by omega), hall _ (by omega) (by omega), Bool.and_false]
    · rw [decide_eq_false hj, Bool.false_and]

/-! ## Validity -/

section Valid

variable (R : Resolver)

/-- A net is refused if its address has bits behind the mask. -/
def Primitive.valid : Primitive → Bool
  | .net _ a mask =>
      (R.read4 (String.ofList a)).any (isNet mask) || (R.read6 (String.ofList a)).any (isNet mask)
  | _ => true

def Filter.valid : Filter → Bool
  | .prim p => p.valid R
  | .and f g => f.valid && g.valid
  | .or f g => f.valid && g.valid

def compiles (text : String) : Bool := (parse text).any (Filter.valid R)

end Valid

/-! ## Filters in brackets -/

/-- A closing bracket makes no start of words that was not there. -/
theorem not_starts_append_rpar {ts rest : List Token} (first : List Token)
    (hfirst : .rpar ∉ first) (h : ∀ more, ts ≠ first ++ more) (more : List Token) :
    ts ++ .rpar :: rest ≠ first ++ more := by
  intro heq
  rcases List.append_eq_append_iff.mp heq with ⟨as, hlong, hrest⟩ | ⟨as, hshort, -⟩
  · cases as with
    | nil => exact h [] (by simpa using hlong.symm)
    | cons a as =>
        obtain ⟨rfl, -⟩ := List.cons.inj hrest
        exact hfirst (by rw [hlong]; simp)
  · exact h as hshort

/-- The words after the first item are grouped the same. -/
theorem group_cons_append {item : Item} {ts rest : List Token} {items : List Item}
    (ih : ∀ {items}, group ts = some items →
      group (ts ++ .rpar :: rest) = (group rest).map fun more => items ++ .rpar :: more)
    (h : (group ts).map (item :: ·) = some items) :
    (group (ts ++ .rpar :: rest)).map (item :: ·) =
      (group rest).map fun more => items ++ .rpar :: more := by
  obtain ⟨tail, htail, rfl⟩ := Option.map_eq_some_iff.mp h
  rw [ih htail, Option.map_map]
  rfl

theorem group_bind_append {α : Type} {o : Option α} {item : α → Item} {ts rest : List Token}
    {items : List Item}
    (ih : ∀ {items}, group ts = some items →
      group (ts ++ .rpar :: rest) = (group rest).map fun more => items ++ .rpar :: more)
    (h : (o.bind fun a => (group ts).map (item a :: ·)) = some items) :
    (o.bind fun a => (group (ts ++ .rpar :: rest)).map (item a :: ·)) =
      (group rest).map fun more => items ++ .rpar :: more := by
  obtain ⟨a, rfl, h⟩ := Option.bind_eq_some_iff.mp h
  exact group_cons_append ih h

/-- A closing bracket ends the last primitive before it. -/
theorem group_append_rpar {ts : List Token} {items : List Item} (h : group ts = some items)
    (rest : List Token) :
    group (ts ++ .rpar :: rest) = (group rest).map fun more => items ++ .rpar :: more := by
  fun_induction group ts generalizing items with
  | case1 =>
      cases h
      rfl
  | case2 ts ih => exact group_cons_append ih h
  | case3 ts ih => exact group_cons_append ih h
  | case4 ts ih => exact group_cons_append ih h
  | case5 ts ih => exact group_cons_append ih h
  | case6 a ts ih => exact group_cons_append ih h
  | case7 a ts ih => exact group_cons_append ih h
  | case8 w ts ih => exact group_bind_append ih h
  | case9 w ts ih => exact group_bind_append ih h
  | case10 w ts ih => exact group_bind_append ih h
  | case11 w ts ih => exact group_bind_append ih h
  | case12 ts hproto ih =>
      rw [List.cons_append, group]
      · exact group_cons_append ih h
      · exact fun w => not_starts_append_rpar [.proto, .word w] (by simp) (hproto w)
  | case13 ts hproto ih =>
      rw [List.cons_append, group]
      · exact group_cons_append ih h
      · exact fun w => not_starts_append_rpar [.proto, .word w] (by simp) (hproto w)
  | case14 ts ih => exact group_cons_append ih h
  | case15 ts ih => exact group_cons_append ih h
  | case16 w ts ih => exact group_bind_append ih h
  | case17 w ts ih => exact group_bind_append ih h
  | case18 w ts ih => exact group_bind_append ih h
  | case19 w ts ih => exact group_bind_append ih h
  | case20 w ts ih => exact group_bind_append ih h
  | case21 ts hport hrange ih =>
      rw [List.cons_append, group]
      · exact group_cons_append ih h
      · exact fun w => not_starts_append_rpar [.dst, .port, .word w] (by simp) (hport w)
      · exact fun w => not_starts_append_rpar [.dst, .portrange, .word w] (by simp) (hrange w)
  | case22 ts hport hsrc hrange ih =>
      rw [List.cons_append, group]
      · exact group_cons_append ih h
      · exact fun w => not_starts_append_rpar [.dst, .port, .word w] (by simp) (hport w)
      · exact fun w => not_starts_append_rpar [.src, .port, .word w] (by simp) (hsrc w)
      · exact fun w => not_starts_append_rpar [.dst, .portrange, .word w] (by simp) (hrange w)
  | case23 => cases h

/-- What stands below the open brackets is not looked at. -/
theorem step_append {item : Item} {frames frames' : List Frame} (hne : frames ≠ [])
    (h : step item frames = some frames') (below : List Frame) :
    frames' ≠ [] ∧ step item (frames ++ below) = some (frames' ++ below) := by
  obtain ⟨frame, frames, rfl⟩ := List.exists_cons_of_ne_nil hne
  cases item with
  | prim p =>
      obtain ⟨frame', hframe, rfl⟩ := Option.map_eq_some_iff.mp h
      exact ⟨List.cons_ne_nil _ _, by rw [List.cons_append, step, hframe]; rfl⟩
  | and =>
      cases frame with
      | whole f =>
          cases h
          exact ⟨List.cons_ne_nil _ _, rfl⟩
      | start => cases h
      | pending join f => cases h
  | or =>
      cases frame with
      | whole f =>
          cases h
          exact ⟨List.cons_ne_nil _ _, rfl⟩
      | start => cases h
      | pending join f => cases h
  | lpar =>
      cases frame with
      | whole f => cases h
      | start =>
          cases h
          exact ⟨List.cons_ne_nil _ _, rfl⟩
      | pending join f =>
          cases h
          exact ⟨List.cons_ne_nil _ _, rfl⟩
  | rpar =>
      cases frames with
      | nil => cases frame <;> cases h
      | cons next frames =>
          cases frame with
          | whole f =>
              obtain ⟨frame', hframe, rfl⟩ := Option.map_eq_some_iff.mp h
              refine ⟨List.cons_ne_nil _ _, ?_⟩
              rw [List.cons_append, List.cons_append, step, hframe]
              rfl
          | start => cases h
          | pending join f => cases h

theorem steps_append {items : List Item} {frames frames' : List Frame} (hne : frames ≠ [])
    (h : steps items frames = some frames') (more : List Item) (below : List Frame) :
    steps (items ++ more) (frames ++ below) = steps more (frames' ++ below) := by
  induction items generalizing frames with
  | nil =>
      cases h
      rfl
  | cons item items ih =>
      obtain ⟨next, hstep, hrest⟩ := Option.bind_eq_some_iff.mp h
      obtain ⟨hnext, happend⟩ := step_append hne hstep below
      rw [List.cons_append, steps, happend]
      exact ih hnext hrest

theorem parse_eq_some {text : String} {f : Filter} (h : parse text = some f) :
    ∃ items, group (tokens text.toList) = some items ∧ steps items [.start] = some [.whole f] := by
  obtain ⟨frames, hrun, hfinish⟩ := Option.bind_eq_some_iff.mp h
  obtain ⟨items, hgroup, hsteps⟩ := Option.bind_eq_some_iff.mp hrun
  unfold finish at hfinish
  split at hfinish
  · cases hfinish
    exact ⟨items, hgroup, hsteps⟩
  · cases hfinish

/-- A filter in brackets is an operand. -/
theorem run_bracketed {text : String} {f : Filter} (h : parse text = some f) {frame frame' : Frame}
    (hframe : frame.operand f = some frame') (rest : List Token) (frames : List Frame) :
    run (.lpar :: (tokens text.toList ++ .rpar :: rest)) (frame :: frames) =
      run rest (frame' :: frames) := by
  obtain ⟨items, hgroup, hsteps⟩ := parse_eq_some h
  have hopen : step .lpar (frame :: frames) = some (.start :: frame :: frames) := by
    cases frame with
    | whole g => cases hframe
    | start => rfl
    | pending join g => rfl
  have hclose : step .rpar (.whole f :: frame :: frames) = some (frame' :: frames) := by
    rw [step, hframe]
    rfl
  rw [run_item rfl hopen, run, run, group_append_rpar hgroup]
  cases group rest with
  | none => rfl
  | some more =>
      change steps (items ++ .rpar :: more) ([.start] ++ frame :: frames) = steps more _
      rw [steps_append (List.cons_ne_nil _ _) hsteps]
      change (step .rpar (.whole f :: frame :: frames)).bind _ = _
      rw [hclose]
      rfl

/-! ## Joined filters -/

theorem tokens_paren (text : String) (cs : List Char) :
    tokens ((paren text).toList ++ cs) = .lpar :: (tokens text.toList ++ .rpar :: tokens cs) := by
  have hlist : (paren text).toList ++ cs = '(' :: (text.toList ++ ')' :: cs) := by
    simp [paren]
  rw [hlist, tokens_lpar, tokens_append_rpar]

theorem lex_orText (text : String) (texts : List String) :
    (lex (orText (text :: texts)).toList).1 = [] := by
  have hstart : ∃ cs, (orText (text :: texts)).toList = '(' :: cs := by
    cases texts with
    | nil => exact ⟨text.toList ++ [')'], by simp [orText, paren]⟩
    | cons next texts =>
        rw [orText_cons_of_ne_nil (List.cons_ne_nil _ _)]
        exact ⟨text.toList ++ ')' :: '|' :: '|' :: (orText (next :: texts)).toList,
          by simp [paren]⟩
  obtain ⟨cs, hcs⟩ := hstart
  rw [hcs]
  exact lex_delimiter (.inr (.inl rfl)) cs

theorem tokens_orText (text next : String) (texts : List String) :
    tokens (orText (text :: next :: texts)).toList =
      .lpar :: (tokens text.toList ++ .rpar :: .or :: tokens (orText (next :: texts)).toList) := by
  have hbars : tokens ("||".toList ++ (orText (next :: texts)).toList) =
      .or :: tokens (orText (next :: texts)).toList := by
    rw [tokens_append (lex_orText next texts)]
    rfl
  rw [orText_cons_of_ne_nil (List.cons_ne_nil _ _), String.toList_append, String.toList_append,
    List.append_assoc, tokens_paren, hbars]

section Joined

variable (R : Resolver)

structure JoinOf (texts : List String) (f : Filter) : Prop where
  valid : f.valid R = texts.all (compiles R)
  eval : ∀ packet, f.eval R packet = texts.any fun text => admits R text packet

variable {R}

theorem run_orText {text : String} {texts : List String} {seen : List String} {frame : Frame}
    {f g : Filter} (hparse : ∀ t ∈ text :: texts, (parse t).isSome) (hf : parse text = some f)
    (hframe : frame.operand f = some (.whole g)) (hg : JoinOf R (seen ++ [text]) g) :
    ∃ h, run (tokens (orText (text :: texts)).toList) [frame] = some [.whole h] ∧
      JoinOf R (seen ++ text :: texts) h := by
  induction texts generalizing text seen frame f g with
  | nil =>
      refine ⟨g, ?_, hg⟩
      have hlast := tokens_paren text []
      rw [List.append_nil] at hlast
      rw [orText, hlast, run_bracketed hf hframe]
      rfl
  | cons next texts ih =>
      obtain ⟨f', hf'⟩ := Option.isSome_iff_exists.mp
        (hparse next (List.mem_cons_of_mem _ List.mem_cons_self))
      have hjoin : JoinOf R (seen ++ [text] ++ [next]) (g.or f') := by
        constructor
        · have hnext : compiles R next = f'.valid R := by simp [compiles, hf']
          rw [Filter.valid, hg.valid, ← hnext]
          simp [Bool.and_assoc]
        · intro packet
          have hnext : admits R next packet = f'.eval R packet := by simp [admits, hf']
          rw [Filter.eval, hg.eval, ← hnext]
          simp [Bool.or_assoc]
      have hpending : (Frame.pending .or g).operand f' = some (.whole (g.or f')) := rfl
      obtain ⟨h, hrun, hh⟩ :=
        ih (fun t ht => hparse t (List.mem_cons_of_mem _ ht)) hf' hpending hjoin
      refine ⟨h, ?_, by simpa using hh⟩
      rw [tokens_orText, run_bracketed hf hframe, run_or, hrun]

/-- Filters in brackets with bars between them are a filter. -/
theorem parse_orText {texts : List String} (hne : texts ≠ [])
    (hparse : ∀ text ∈ texts, (parse text).isSome) :
    ∃ f, parse (orText texts) = some f ∧ JoinOf R texts f := by
  obtain ⟨text, texts, rfl⟩ := List.exists_cons_of_ne_nil hne
  obtain ⟨f, hf⟩ := Option.isSome_iff_exists.mp (hparse text List.mem_cons_self)
  have hfirst : JoinOf R ([] ++ [text]) f := by
    constructor
    · simp [compiles, hf]
    · intro packet
      simp [admits, hf]
  have hstart : Frame.start.operand f = some (.whole f) := rfl
  obtain ⟨h, hrun, hh⟩ := run_orText hparse hf hstart hfirst
  refine ⟨h, ?_, hh⟩
  rw [parse, hrun]
  rfl

end Joined

end Butterfly.Foundation.Pcap
