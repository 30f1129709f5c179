import Butterfly.Foundation.Decimal

/-!
# Packet filter expressions

The part of the filter language of `libpcap` that addresses, nets, protocols and
ports need.  A text is cut into words, words are grouped into primitives, and
primitives are joined by `and` and `or`, which bind alike and to the left.
-/

namespace Butterfly.Foundation.Pcap

/-! ## Words -/

inductive Token where
  | lpar | rpar | and | or
  | src | dst | host | net
  | ip | ip6 | proto
  | icmp | icmp6 | tcp | udp
  | port | portrange
  | word (text : List Char)
  deriving DecidableEq

def keywords : List (List Char × Token) :=
  [("and".toList, .and), ("&&".toList, .and), ("or".toList, .or), ("||".toList, .or),
    ("src".toList, .src), ("dst".toList, .dst), ("host".toList, .host), ("net".toList, .net),
    ("ip".toList, .ip), ("ip6".toList, .ip6), ("proto".toList, .proto),
    ("icmp".toList, .icmp), ("icmp6".toList, .icmp6), ("tcp".toList, .tcp), ("udp".toList, .udp),
    ("port".toList, .port), ("portrange".toList, .portrange)]

def keyword (w : List Char) : Token :=
  ((keywords.find? fun entry => entry.1 = w).map Prod.snd).getD (.word w)

def flush (w : List Char) (ts : List Token) : List Token :=
  if w = [] then ts else keyword w :: ts

def lex : List Char → List Char × List Token
  | [] => ([], [])
  | c :: cs =>
      let (w, ts) := lex cs
      if c = ' ' then ([], flush w ts)
      else if c = '(' then ([], .lpar :: flush w ts)
      else if c = ')' then ([], .rpar :: flush w ts)
      else (c :: w, ts)

def tokens (cs : List Char) : List Token := flush (lex cs).1 (lex cs).2

def IsDelimiter (c : Char) : Prop := c = ' ' ∨ c = '(' ∨ c = ')'

instance (c : Char) : Decidable (IsDelimiter c) :=
  inferInstanceAs (Decidable (c = ' ' ∨ c = '(' ∨ c = ')'))

theorem lex_delimiter {c : Char} (hc : IsDelimiter c) (cs : List Char) :
    (lex (c :: cs)).1 = [] := by
  rcases hc with rfl | rfl | rfl <;> rfl

theorem flush_append (w : List Char) (ts ts' : List Token) :
    flush w (ts ++ ts') = flush w ts ++ ts' := by
  unfold flush
  split <;> rfl

theorem lex_append {bs : List Char} (hbs : (lex bs).1 = []) (cs : List Char) :
    lex (cs ++ bs) = ((lex cs).1, (lex cs).2 ++ tokens bs) := by
  induction cs with
  | nil =>
      rw [List.nil_append, tokens, hbs]
      exact Prod.ext hbs rfl
  | cons c cs ih =>
      rw [List.cons_append, lex, lex, ih]
      simp only [flush_append]
      split
      · rfl
      · split
        · rfl
        · split <;> rfl

/-- A text is cut before a part that does not go on with the last word. -/
theorem tokens_append {bs : List Char} (hbs : (lex bs).1 = []) (cs : List Char) :
    tokens (cs ++ bs) = tokens cs ++ tokens bs := by
  rw [tokens, lex_append hbs, flush_append]
  rfl

@[simp] theorem tokens_nil : tokens [] = [] := rfl

@[simp] theorem tokens_blank (cs : List Char) : tokens (' ' :: cs) = tokens cs := rfl

@[simp] theorem tokens_lpar (cs : List Char) : tokens ('(' :: cs) = .lpar :: tokens cs := rfl

@[simp] theorem tokens_rpar (cs : List Char) : tokens (')' :: cs) = .rpar :: tokens cs := rfl

theorem tokens_append_blank (cs bs : List Char) :
    tokens (cs ++ ' ' :: bs) = tokens cs ++ tokens bs :=
  tokens_append (lex_delimiter (.inl rfl) bs) cs

theorem tokens_append_rpar (cs bs : List Char) :
    tokens (cs ++ ')' :: bs) = tokens cs ++ .rpar :: tokens bs :=
  tokens_append (lex_delimiter (.inr (.inr rfl)) bs) cs

def IsNumeric (c : Char) : Prop :=
  c.isDigit = true ∨ c ∈ ['a', 'b', 'c', 'd', 'e', 'f', 'A', 'B', 'C', 'D', 'E', 'F', '.', ':',
    '/', '-']

instance (c : Char) : Decidable (IsNumeric c) := inferInstanceAs (Decidable (_ ∨ _))

/-- No keyword looks like a number or an address. -/
theorem keyword_numeric {w : List Char} (hw : ∀ c ∈ w, IsNumeric c) : keyword w = .word w := by
  have hkeys : ∀ entry ∈ keywords, ∃ c ∈ entry.1, ¬IsNumeric c := by simp [keywords, IsNumeric]
  have hnone : keywords.find? (fun entry => entry.1 = w) = none := by
    rw [List.find?_eq_none]
    intro entry hentry heq
    obtain ⟨c, hc, hnot⟩ := hkeys entry hentry
    rw [of_decide_eq_true heq] at hc
    exact hnot (hw c hc)
  rw [keyword, hnone]
  rfl

theorem lex_numeric {w : List Char} (hw : ∀ c ∈ w, IsNumeric c) : lex w = (w, []) := by
  induction w with
  | nil => rfl
  | cons c cs ih =>
      have hc : IsNumeric c := hw c List.mem_cons_self
      have hblank : c ≠ ' ' := by
        rintro rfl
        exact absurd hc (by decide)
      have hlpar : c ≠ '(' := by
        rintro rfl
        exact absurd hc (by decide)
      have hrpar : c ≠ ')' := by
        rintro rfl
        exact absurd hc (by decide)
      rw [lex, ih fun d hd => hw d (List.mem_cons_of_mem _ hd)]
      simp [hblank, hlpar, hrpar]

/-- An address or a number in front of a blank, a bracket or the end. -/
theorem tokens_numeric {w : List Char} (hne : w ≠ []) (hw : ∀ c ∈ w, IsNumeric c)
    {bs : List Char} (hbs : (lex bs).1 = []) : tokens (w ++ bs) = .word w :: tokens bs := by
  rw [tokens_append hbs, tokens, lex_numeric hw, flush, if_neg hne, keyword_numeric hw]
  rfl

/-! ## Primitives -/

inductive Side where
  | src
  | dst
  deriving DecidableEq

inductive Primitive where
  | host (side : Side) (address : List Char)
  | net (side : Side) (address : List Char) (mask : Nat)
  /-- `ip` and `ip6`. -/
  | family (v6 : Bool)
  /-- `ip proto` and `ip6 proto`. -/
  | proto (v6 : Bool) (number : Nat)
  /-- `tcp` and `udp`: both families. -/
  | transport (number : Nat)
  | ports (number : Nat) (side : Side) (first last : Nat)
  deriving DecidableEq

inductive Item where
  | lpar
  | rpar
  | and
  | or
  | prim (p : Primitive)
  deriving DecidableEq

def number? (w : List Char) : Option Nat :=
  if w ≠ [] ∧ w.all Char.isDigit then some (Nat.ofDigitChars 10 w 0) else none

def cut? (c : Char) (w : List Char) : Option (List Char × List Char) :=
  match w.dropWhile (· ≠ c) with
  | [] => none
  | _ :: rest => some (w.takeWhile (· ≠ c), rest)

def net? (w : List Char) : Option (List Char × Nat) := do
  let (address, mask) ← cut? '/' w
  let mask ← number? mask
  some (address, mask)

def range? (w : List Char) : Option (Nat × Nat) := do
  let (first, last) ← cut? '-' w
  let first ← number? first
  let last ← number? last
  some (first, last)

def group : List Token → Option (List Item)
  | [] => some []
  | .lpar :: ts => (group ts).map (.lpar :: ·)
  | .rpar :: ts => (group ts).map (.rpar :: ·)
  | .and :: ts => (group ts).map (.and :: ·)
  | .or :: ts => (group ts).map (.or :: ·)
  | .src :: .host :: .word a :: ts => (group ts).map (.prim (.host .src a) :: ·)
  | .dst :: .host :: .word a :: ts => (group ts).map (.prim (.host .dst a) :: ·)
  | .src :: .net :: .word w :: ts => do
      let (a, mask) ← net? w
      (group ts).map (.prim (.net .src a mask) :: ·)
  | .dst :: .net :: .word w :: ts => do
      let (a, mask) ← net? w
      (group ts).map (.prim (.net .dst a mask) :: ·)
  | .ip :: .proto :: .word w :: ts => do
      let n ← number? w
      (group ts).map (.prim (.proto false n) :: ·)
  | .ip6 :: .proto :: .word w :: ts => do
      let n ← number? w
      (group ts).map (.prim (.proto true n) :: ·)
  | .ip :: ts => (group ts).map (.prim (.family false) :: ·)
  | .ip6 :: ts => (group ts).map (.prim (.family true) :: ·)
  | .icmp :: ts => (group ts).map (.prim (.proto false 1) :: ·)
  | .icmp6 :: ts => (group ts).map (.prim (.proto true 58) :: ·)
  | .tcp :: .dst :: .port :: .word w :: ts => do
      let n ← number? w
      (group ts).map (.prim (.ports 6 .dst n n) :: ·)
  | .udp :: .dst :: .port :: .word w :: ts => do
      let n ← number? w
      (group ts).map (.prim (.ports 17 .dst n n) :: ·)
  | .udp :: .src :: .port :: .word w :: ts => do
      let n ← number? w
      (group ts).map (.prim (.ports 17 .src n n) :: ·)
  | .tcp :: .dst :: .portrange :: .word w :: ts => do
      let (first, last) ← range? w
      (group ts).map (.prim (.ports 6 .dst first last) :: ·)
  | .udp :: .dst :: .portrange :: .word w :: ts => do
      let (first, last) ← range? w
      (group ts).map (.prim (.ports 17 .dst first last) :: ·)
  | .tcp :: ts => (group ts).map (.prim (.transport 6) :: ·)
  | .udp :: ts => (group ts).map (.prim (.transport 17) :: ·)
  | _ => none

theorem number?_toString (n : Nat) : number? (toString n).toList = some n := by
  have hne : (toString n).toList ≠ [] := by
    rw [Nat.toString_eq_repr, Nat.toList_repr]
    exact Nat.toDigits_ne_nil
  have hall : (toString n).toList.all Char.isDigit = true :=
    List.all_eq_true.mpr fun c hc => toString_nat_chars hc
  rw [number?, if_pos ⟨hne, hall⟩, Nat.toString_eq_repr, Nat.toList_repr,
    Nat.ofDigitChars_ten_toDigits]

theorem cut?_append {c : Char} {a : List Char} (ha : c ∉ a) (b : List Char) :
    cut? c (a ++ c :: b) = some (a, b) := by
  have hplain : ∀ d ∈ a, decide (d ≠ c) = true := by
    intro d hd
    exact decide_eq_true fun heq => ha (heq ▸ hd)
  unfold cut?
  rw [List.dropWhile_append_of_pos hplain, List.takeWhile_append_of_pos hplain]
  simp

theorem numeric_toString (n : Nat) :
    (toString n).toList ≠ [] ∧ ∀ c ∈ (toString n).toList, IsNumeric c := by
  refine ⟨?_, fun c hc => .inl (toString_nat_chars hc)⟩
  rw [Nat.toString_eq_repr, Nat.toList_repr]
  exact Nat.toDigits_ne_nil

def rangeText (first last : Nat) : List Char :=
  (toString first).toList ++ '-' :: (toString last).toList

theorem numeric_rangeText (first last : Nat) :
    rangeText first last ≠ [] ∧ ∀ c ∈ rangeText first last, IsNumeric c := by
  refine ⟨fun hnil => ?_, fun c hc => ?_⟩
  · exact absurd (List.append_eq_nil_iff.mp hnil).2 (List.cons_ne_nil _ _)
  · rcases List.mem_append.mp hc with hc | hc
    · exact (numeric_toString first).2 c hc
    · rcases List.mem_cons.mp hc with rfl | hc
      · exact .inr (by decide)
      · exact (numeric_toString last).2 c hc

theorem range?_rangeText (first last : Nat) :
    range? (rangeText first last) = some (first, last) := by
  have hnot : '-' ∉ (toString first).toList :=
    fun hmem => absurd (toString_nat_chars hmem) (by decide)
  rw [range?, rangeText, cut?_append hnot]
  change (do let n ← number? (toString first).toList
             let m ← number? (toString last).toList
             some (n, m)) = _
  rw [number?_toString, number?_toString]
  rfl

/-- A word at the end of a text. -/
theorem tokens_last {cs w : List Char} (hne : w ≠ []) (hw : ∀ c ∈ w, IsNumeric c) :
    tokens (cs ++ ' ' :: w) = tokens cs ++ [.word w] := by
  have hword := @tokens_numeric w hne hw [] rfl
  rw [List.append_nil] at hword
  rw [tokens_append_blank, hword]
  rfl

/-! ## Expressions -/

inductive Filter where
  | prim (p : Primitive)
  | and (f g : Filter)
  | or (f g : Filter)
  deriving DecidableEq

/-- What stands inside one pair of brackets so far. -/
inductive Frame where
  | start
  | whole (f : Filter)
  | pending (join : Filter → Filter → Filter) (f : Filter)

def Frame.operand (f : Filter) : Frame → Option Frame
  | .start => some (.whole f)
  | .pending join g => some (.whole (join g f))
  | .whole _ => none

def step : Item → List Frame → Option (List Frame)
  | .prim p, frame :: frames => (frame.operand (.prim p)).map (· :: frames)
  | .and, .whole f :: frames => some (.pending .and f :: frames)
  | .or, .whole f :: frames => some (.pending .or f :: frames)
  | .lpar, .whole _ :: _ => none
  | .lpar, frames => some (.start :: frames)
  | .rpar, .whole f :: frame :: frames => (frame.operand f).map (· :: frames)
  | _, _ => none

def steps : List Item → List Frame → Option (List Frame)
  | [], frames => some frames
  | item :: items, frames => do
      let frames ← step item frames
      steps items frames

def finish : List Frame → Option Filter
  | [.whole f] => some f
  | _ => none

def run (ts : List Token) (frames : List Frame) : Option (List Frame) := do
  let items ← group ts
  steps items frames

def parse (text : String) : Option Filter := do
  let frames ← run (tokens text.toList) [.start]
  finish frames

@[simp] theorem run_nil (frames : List Frame) : run [] frames = some frames := rfl

/-- One item has been read. -/
theorem run_item {item : Item} {ts ts' : List Token} {frames frames' : List Frame}
    (hgroup : group ts = (group ts').map (item :: ·)) (hstep : step item frames = some frames') :
    run ts frames = run ts' frames' := by
  unfold run
  rw [hgroup]
  cases group ts' with
  | none => rfl
  | some items =>
      change (step item frames).bind (steps items) = steps items frames'
      rw [hstep]
      rfl

theorem run_prim {p : Primitive} {ts ts' : List Token} {frame frame' : Frame}
    {frames : List Frame} (hgroup : group ts = (group ts').map (.prim p :: ·))
    (hframe : frame.operand (.prim p) = some frame') :
    run ts (frame :: frames) = run ts' (frame' :: frames) := by
  refine run_item hgroup ?_
  rw [step, hframe]
  rfl

@[simp] theorem run_and (ts : List Token) (f : Filter) (frames : List Frame) :
    run (.and :: ts) (.whole f :: frames) = run ts (.pending .and f :: frames) :=
  run_item rfl rfl

@[simp] theorem run_or (ts : List Token) (f : Filter) (frames : List Frame) :
    run (.or :: ts) (.whole f :: frames) = run ts (.pending .or f :: frames) :=
  run_item rfl rfl

@[simp] theorem run_lpar_start (ts : List Token) (frames : List Frame) :
    run (.lpar :: ts) (.start :: frames) = run ts (.start :: .start :: frames) :=
  run_item rfl rfl

@[simp] theorem run_lpar_pending (ts : List Token) (join : Filter → Filter → Filter) (f : Filter)
    (frames : List Frame) :
    run (.lpar :: ts) (.pending join f :: frames) =
      run ts (.start :: .pending join f :: frames) :=
  run_item rfl rfl

theorem run_rpar (ts : List Token) {f : Filter} {frame frame' : Frame} {frames : List Frame}
    (hframe : frame.operand f = some frame') :
    run (.rpar :: ts) (.whole f :: frame :: frames) = run ts (frame' :: frames) := by
  refine run_item rfl ?_
  rw [step, hframe]
  rfl

/-- A text that stands after a filter: nothing, or another filter behind `and`. -/
structure Continues (cs : List Char) (g : Option Filter) : Prop where
  blank : (lex cs).1 = []
  start : tokens cs = [] ∨ ∃ ts, tokens cs = .and :: ts
  reads : ∀ f, run (tokens cs) [.whole f] = some [.whole (g.elim f f.and)]

theorem Continues.nil : Continues [] none :=
  ⟨rfl, .inl rfl, fun _ => rfl⟩

/-- The words after `and` are one primitive. -/
theorem Continues.prim {cs : List Char} {p : Primitive} {ts : List Token}
    (hblank : (lex cs).1 = []) (htokens : tokens cs = .and :: ts)
    (hgroup : group ts = some [.prim p]) : Continues cs (some (.prim p)) := by
  refine ⟨hblank, .inr ⟨ts, htokens⟩, fun f => ?_⟩
  have hlast : group ts = (group []).map (.prim p :: ·) := hgroup
  rw [htokens, run_and, run_prim hlast rfl]
  rfl

/-- A port behind `tcp` or `udp`. -/
theorem Continues.port {cs : List Char} {number n : Nat}
    (h : number = 6 ∧ cs = " and tcp dst port".toList ∨
      number = 17 ∧ cs = " and udp dst port".toList) :
    Continues (cs ++ ' ' :: (toString n).toList) (some (.prim (.ports number .dst n n))) := by
  obtain ⟨hne, hchars⟩ := numeric_toString n
  rcases h with ⟨rfl, rfl⟩ | ⟨rfl, rfl⟩
  · refine .prim rfl (tokens_last hne hchars) ?_
    change (number? (toString n).toList).bind _ = _
    rw [number?_toString]
    rfl
  · refine .prim rfl (tokens_last hne hchars) ?_
    change (number? (toString n).toList).bind _ = _
    rw [number?_toString]
    rfl

/-- A range of ports behind `tcp` or `udp`. -/
theorem Continues.portrange {cs : List Char} {number first last : Nat}
    (h : number = 6 ∧ cs = " and tcp dst portrange".toList ∨
      number = 17 ∧ cs = " and udp dst portrange".toList) :
    Continues (cs ++ ' ' :: rangeText first last)
      (some (.prim (.ports number .dst first last))) := by
  obtain ⟨hne, hchars⟩ := numeric_rangeText first last
  rcases h with ⟨rfl, rfl⟩ | ⟨rfl, rfl⟩
  · refine .prim rfl (tokens_last hne hchars) ?_
    change (range? (rangeText first last)).bind _ = _
    rw [range?_rangeText]
    rfl
  · refine .prim rfl (tokens_last hne hchars) ?_
    change (range? (rangeText first last)).bind _ = _
    rw [range?_rangeText]
    rfl

/-- The number of a protocol in brackets. -/
theorem Continues.proto {cs : List Char} {v6 : Bool}
    (h : v6 = false ∧ cs = " and (ip proto".toList ∨ v6 = true ∧ cs = " and (ip6 proto".toList)
    (n : Nat) :
    Continues (cs ++ ' ' :: ((toString n).toList ++ [')'])) (some (.prim (.proto v6 n))) := by
  obtain ⟨hne, hchars⟩ := numeric_toString n
  have hword : tokens ((toString n).toList ++ [')']) = [.word (toString n).toList, .rpar] :=
    tokens_numeric hne hchars (lex_delimiter (.inr (.inr rfl)) [])
  obtain ⟨family, hfamily, hgroup, hblank⟩ : ∃ family,
      tokens cs = [.and, .lpar, family, .proto] ∧
      group [family, .proto, .word (toString n).toList, .rpar] =
        (group [.rpar]).map (.prim (.proto v6 n) :: ·) ∧
      ∀ bs, (lex (cs ++ ' ' :: bs)).1 = [] := by
    rcases h with ⟨rfl, rfl⟩ | ⟨rfl, rfl⟩
    · refine ⟨.ip, rfl, ?_, fun bs => rfl⟩
      change (number? (toString n).toList).bind _ = _
      rw [number?_toString]
      rfl
    · refine ⟨.ip6, rfl, ?_, fun bs => rfl⟩
      change (number? (toString n).toList).bind _ = _
      rw [number?_toString]
      rfl
  have htokens : tokens (cs ++ ' ' :: ((toString n).toList ++ [')'])) =
      [.and, .lpar, family, .proto, .word (toString n).toList, .rpar] := by
    rw [tokens_append_blank, hword, hfamily]
    rfl
  refine ⟨hblank _, .inr ⟨_, htokens⟩, fun f => ?_⟩
  rw [htokens, run_and, run_lpar_pending, run_prim hgroup rfl]
  rfl

/-- One primitive in front of a text that continues. -/
theorem Continues.parse_prim {first cs : List Char} {g : Option Filter} {p : Primitive}
    (h : Continues cs g)
    (hgroup : ∀ rest, rest = [] ∨ (∃ more, rest = .and :: more) →
      group (tokens first ++ rest) = (group rest).map (.prim p :: ·)) :
    parse (String.ofList (first ++ cs)) = some (g.elim (.prim p) (Filter.and (.prim p))) := by
  rw [parse, String.toList_ofList, tokens_append h.blank, run_prim (hgroup _ h.start) rfl, h.reads]
  rfl

/-- `ip` and `ip6`. -/
theorem group_family {first : List Char} {v6 : Bool}
    (h : v6 = false ∧ first = "ip".toList ∨ v6 = true ∧ first = "ip6".toList) (rest : List Token)
    (hrest : rest = [] ∨ ∃ more, rest = .and :: more) :
    group (tokens first ++ rest) = (group rest).map (.prim (.family v6) :: ·) := by
  rcases h with ⟨rfl, rfl⟩ | ⟨rfl, rfl⟩
  · rcases hrest with rfl | ⟨more, rfl⟩ <;> rfl
  · rcases hrest with rfl | ⟨more, rfl⟩ <;> rfl

def netText (address : List Char) (mask : Nat) : List Char :=
  address ++ '/' :: (toString mask).toList

theorem net?_netText {address : List Char} (h : '/' ∉ address) (mask : Nat) :
    net? (netText address mask) = some (address, mask) := by
  rw [net?, netText, cut?_append h]
  change (do let n ← number? (toString mask).toList
             some (address, n)) = _
  rw [number?_toString]
  rfl

/-- `src net` and `dst net`. -/
theorem group_net {first address : List Char} {side : Side} {mask : Nat}
    (h : side = .src ∧ first = "src net".toList ∨ side = .dst ∧ first = "dst net".toList)
    (hchars : ∀ c ∈ address, IsNumeric c) (hslash : '/' ∉ address) (rest : List Token) :
    group (tokens (first ++ ' ' :: netText address mask) ++ rest) =
      (group rest).map (.prim (.net side address mask) :: ·) := by
  have hnumeric : ∀ c ∈ netText address mask, IsNumeric c := by
    intro c hc
    rcases List.mem_append.mp hc with hc | hc
    · exact hchars c hc
    · rcases List.mem_cons.mp hc with rfl | hc
      · exact .inr (by decide)
      · exact (numeric_toString mask).2 c hc
  have hne : netText address mask ≠ [] := by
    simp [netText]
  have hnet := net?_netText hslash mask
  rw [tokens_last hne hnumeric]
  rcases h with ⟨rfl, rfl⟩ | ⟨rfl, rfl⟩
  · change (net? (netText address mask)).bind _ = _
    rw [hnet]
    rfl
  · change (net? (netText address mask)).bind _ = _
    rw [hnet]
    rfl

/-! ## Packets -/

inductive Endpoints where
  | v4 (src dst : Vector UInt8 4)
  | v6 (src dst : Vector UInt8 16)
  deriving DecidableEq

structure Packet where
  ends : Endpoints
  /-- The protocol of an IPv4 header, or the next header of an IPv6 header. -/
  protocol : UInt8
  srcPort : UInt16
  dstPort : UInt16
  deriving DecidableEq

structure Resolver where
  read4 : String → Option (Vector UInt8 4)
  read6 : String → Option (Vector UInt8 16)

def bitsValue {size : Nat} (bytes : Vector UInt8 size) : Nat :=
  bytes.toList.foldl (fun n b => 256 * n + b.toNat) 0

def samePrefix {size : Nat} (mask : Nat) (a b : Vector UInt8 size) : Bool :=
  bitsValue a / 2 ^ (8 * size - mask) == bitsValue b / 2 ^ (8 * size - mask)

def Packet.isV6 (p : Packet) : Bool :=
  match p.ends with
  | .v4 _ _ => false
  | .v6 _ _ => true

section Eval

variable (R : Resolver)

def Primitive.eval (packet : Packet) : Primitive → Bool
  | .host side a =>
      match side, packet.ends with
      | .src, .v4 src _ => R.read4 (String.ofList a) == some src
      | .dst, .v4 _ dst => R.read4 (String.ofList a) == some dst
      | .src, .v6 src _ => R.read6 (String.ofList a) == some src
      | .dst, .v6 _ dst => R.read6 (String.ofList a) == some dst
  | .net side a mask =>
      match side, packet.ends with
      | .src, .v4 src _ => (R.read4 (String.ofList a)).any (samePrefix mask · src)
      | .dst, .v4 _ dst => (R.read4 (String.ofList a)).any (samePrefix mask · dst)
      | .src, .v6 src _ => (R.read6 (String.ofList a)).any (samePrefix mask · src)
      | .dst, .v6 _ dst => (R.read6 (String.ofList a)).any (samePrefix mask · dst)
  | .family v6 => packet.isV6 == v6
  | .proto v6 n => packet.isV6 == v6 && packet.protocol.toNat == n
  | .transport n => packet.protocol.toNat == n
  | .ports n side first last =>
      let port := match side with
        | .src => packet.srcPort.toNat
        | .dst => packet.dstPort.toNat
      packet.protocol.toNat == n && decide (first ≤ port ∧ port ≤ last)

def Filter.eval (packet : Packet) : Filter → Bool
  | .prim p => p.eval R packet
  | .and f g => f.eval packet && g.eval packet
  | .or f g => f.eval packet || g.eval packet

def admits (text : String) (packet : Packet) : Bool :=
  (parse text).any fun f => f.eval R packet

end Eval

end Butterfly.Foundation.Pcap
