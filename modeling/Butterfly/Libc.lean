import Butterfly.Foundation.Decimal
import Butterfly.Model

/-!
# A C library

One `Platform`, for evaluating the model on concrete requests.  IPv4 texts are
read and written as `inet_pton` and `inet_ntop` do; IPv6 texts are always written
in full.
-/

namespace Butterfly.Libc

/-! ## IPv4 -/

def octetText (n : UInt8) : List Char := (toString n.toNat).toList

def decimal (cs : List Char) : Nat :=
  cs.foldl (fun n c => 10 * n + (c.toNat - '0'.toNat)) 0

/-- A decimal number below 256 without leading zeros. -/
def readOctet (cs : List Char) : Option UInt8 :=
  let n := UInt8.ofNat (decimal cs)
  if octetText n = cs then some n else none

def inetNtop4 (address : Vector UInt8 4) : String :=
  String.ofList (['.'].intercalate (address.toList.map octetText))

def inetPton4 (text : String) : Option (Vector UInt8 4) :=
  if ':' ∈ text.toList then none
  else match text.toList.splitOn '.' with
    | [a, b, c, d] => do
        let a ← readOctet a
        let b ← readOctet b
        let c ← readOctet c
        let d ← readOctet d
        some #v[a, b, c, d]
    | _ => none

theorem octetText_spec (n : UInt8) :
    readOctet (octetText n) = some n ∧ '.' ∉ octetText n ∧ ':' ∉ octetText n := by
  have hall : ∀ k : Fin 256, readOctet (octetText (UInt8.ofNat k)) = some (UInt8.ofNat k) ∧
      '.' ∉ octetText (UInt8.ofNat k) ∧ ':' ∉ octetText (UInt8.ofNat k) := by
    decide +kernel
  have hn := hall ⟨n.toNat, n.toNat_lt⟩
  simpa using hn

theorem pton4_ntop4 (address : Vector UInt8 4) :
    inetPton4 (inetNtop4 address) = some address := by
  obtain ⟨⟨bytes⟩, hsize⟩ := address
  match bytes, hsize with
  | [a, b, c, d], _ =>
      have hparts : ∀ part ∈ [octetText a, octetText b, octetText c, octetText d],
          '.' ∉ part ∧ ':' ∉ part := by
        intro part hpart
        simp only [List.mem_cons, List.not_mem_nil, or_false] at hpart
        rcases hpart with rfl | rfl | rfl | rfl <;> exact (octetText_spec _).2
      have hsplit := List.splitOn_intercalate '.' (fun part h => (hparts part h).1)
        (by simp)
      have hcolon : ':' ∉ ['.'].intercalate
          [octetText a, octetText b, octetText c, octetText d] := by
        simp [List.intercalate, (octetText_spec _).2.2]
      have htext : (inetNtop4 ⟨⟨[a, b, c, d]⟩, by rfl⟩).toList = ['.'].intercalate
          [octetText a, octetText b, octetText c, octetText d] := by
        rw [inetNtop4, String.toList_ofList]
        rfl
      rw [inetPton4, htext, if_neg hcolon, hsplit]
      simp only [(octetText_spec _).1]
      rfl

/-! ## IPv6 -/

def hexText (n : Nat) : Char := (Nat.digitChar (n % 16))

def byteText (n : UInt8) : List Char := [hexText (n.toNat / 16), hexText n.toNat]

def readByte (high low : Char) : Option UInt8 := do
  let high ← hexDigit? high
  let low ← hexDigit? low
  some (UInt8.ofNat (16 * high + low))

def readBytes : List Char → Option (List UInt8)
  | [] => some []
  | [_] => none
  | high :: low :: rest => do
      let byte ← readByte high low
      let bytes ← readBytes rest
      some (byte :: bytes)

def groupsText : List UInt8 → List Char
  | [] => []
  | [a] => byteText a
  | [a, b] => byteText a ++ byteText b
  | a :: b :: rest => byteText a ++ byteText b ++ ':' :: groupsText rest

def inetNtop6 (address : Vector UInt8 16) : String :=
  String.ofList (groupsText address.toList)

def inetPton6 (text : String) : Option (Vector UInt8 16) :=
  if ':' ∈ text.toList then do
    let bytes ← readBytes (text.toList.filter (· ≠ ':'))
    if h : bytes.length = 16 then some ⟨⟨bytes⟩, h⟩ else none
  else none

theorem byteText_spec (n : UInt8) :
    ∃ high low, byteText n = [high, low] ∧ readByte high low = some n ∧
      high ≠ ':' ∧ low ≠ ':' := by
  have hall : ∀ k : Fin 256,
      readByte (hexText ((UInt8.ofNat k).toNat / 16)) (hexText (UInt8.ofNat k).toNat) =
        some (UInt8.ofNat k) ∧
      hexText ((UInt8.ofNat k).toNat / 16) ≠ ':' ∧
      hexText (UInt8.ofNat k).toNat ≠ ':' := by
    decide +kernel
  have hn := hall ⟨n.toNat, n.toNat_lt⟩
  simp only [UInt8.ofNat_toNat] at hn
  exact ⟨_, _, rfl, hn⟩

theorem filter_byteText (n : UInt8) :
    (byteText n).filter (· ≠ ':') = byteText n := by
  obtain ⟨high, low, htext, -, hhigh, hlow⟩ := byteText_spec n
  simp [htext, hhigh, hlow]

theorem filter_groupsText (bytes : List UInt8) :
    (groupsText bytes).filter (· ≠ ':') = bytes.flatMap byteText := by
  induction bytes using groupsText.induct with
  | case1 => rfl
  | case2 a => simpa [groupsText] using filter_byteText a
  | case3 a b =>
      rw [groupsText, List.filter_append, filter_byteText, filter_byteText]
      simp
  | case4 a b rest hrest ih =>
      rw [groupsText, List.filter_append, List.filter_append, filter_byteText,
        filter_byteText, List.filter_cons_of_neg (by simp), ih]
      · simp
      · exact hrest

theorem readBytes_flatMap (bytes : List UInt8) :
    readBytes (bytes.flatMap byteText) = some bytes := by
  induction bytes with
  | nil => rfl
  | cons byte bytes ih =>
      obtain ⟨high, low, htext, hread, -⟩ := byteText_spec byte
      simp [htext, readBytes, hread, ih]

theorem pton6_ntop6 (address : Vector UInt8 16) :
    inetPton6 (inetNtop6 address) = some address := by
  obtain ⟨⟨bytes⟩, hsize⟩ := address
  have hlength : bytes.length = 16 := hsize
  have hcolon : ':' ∈ groupsText bytes := by
    match bytes, hlength with
    | a :: b :: c :: rest, _ => simp [groupsText]
  have htext : (inetNtop6 ⟨⟨bytes⟩, hsize⟩).toList = groupsText bytes := by
    rw [inetNtop6, String.toList_ofList]
    rfl
  rw [inetPton6, htext, if_pos hcolon, filter_groupsText, readBytes_flatMap]
  simp [hlength]

theorem pton6_of_pton4 {text : String} {address : Vector UInt8 4}
    (h : inetPton4 text = some address) : inetPton6 text = none := by
  unfold inetPton4 at h
  split at h
  · cases h
  · next hcolon => rw [inetPton6, if_neg hcolon]

/-! ## The texts -/

theorem ntop4_chars {address : Vector UInt8 4} {c : Char}
    (hc : c ∈ (inetNtop4 address).toList) : c.isDigit = true ∨ c = '.' := by
  have hoctet : ∀ n, c ∈ octetText n → c.isDigit = true :=
    fun n hmem => Foundation.toString_nat_chars hmem
  rw [inetNtop4, String.toList_ofList] at hc
  obtain ⟨⟨bytes⟩, hsize⟩ := address
  match bytes, hsize with
  | [a, b, c, d], _ =>
      simp only [Vector.toList, List.map_cons, List.map_nil, List.intercalate,
        List.intersperse, List.flatten_cons, List.flatten_nil, List.mem_append,
        List.mem_singleton, List.not_mem_nil, or_false] at hc
      rcases hc with h | h | h | h | h | h | h
      · exact .inl (hoctet a h)
      · exact .inr h
      · exact .inl (hoctet b h)
      · exact .inr h
      · exact .inl (hoctet _ h)
      · exact .inr h
      · exact .inl (hoctet d h)

theorem byteText_chars {n : UInt8} {c : Char} (hc : c ∈ byteText n) :
    c ∈ "0123456789abcdef".toList := by
  have hhex : ∀ k : Fin 16, Nat.digitChar k ∈ "0123456789abcdef".toList := by decide
  simp only [byteText, hexText, List.mem_cons, List.not_mem_nil, or_false] at hc
  rcases hc with rfl | rfl
  · exact hhex ⟨_, Nat.mod_lt _ (by decide)⟩
  · exact hhex ⟨_, Nat.mod_lt _ (by decide)⟩

theorem ntop6_chars {address : Vector UInt8 16} {c : Char}
    (hc : c ∈ (inetNtop6 address).toList) : c ∈ "0123456789abcdef".toList ∨ c = ':' := by
  rw [inetNtop6, String.toList_ofList] at hc
  generalize address.toList = bytes at hc
  induction bytes using groupsText.induct with
  | case1 => exact absurd hc List.not_mem_nil
  | case2 a => exact .inl (byteText_chars hc)
  | case3 a b =>
      rcases List.mem_append.mp hc with h | h
      · exact .inl (byteText_chars h)
      · exact .inl (byteText_chars h)
  | case4 a b rest hrest ih =>
      have htext : groupsText (a :: b :: rest) =
          byteText a ++ byteText b ++ ':' :: groupsText rest := by
        rw [groupsText]
        exact hrest
      rw [htext] at hc
      rcases List.mem_append.mp hc with h | h
      · rcases List.mem_append.mp h with h | h
        · exact .inl (byteText_chars h)
        · exact .inl (byteText_chars h)
      · rcases List.mem_cons.mp h with h | h
        · exact .inr h
        · exact ih h

theorem ntop4_ne_empty (address : Vector UInt8 4) : inetNtop4 address ≠ "" := by
  intro hempty
  have hread := pton4_ntop4 address
  rw [hempty] at hread
  cases hread

theorem ntop6_ne_empty (address : Vector UInt8 16) : inetNtop6 address ≠ "" := by
  intro hempty
  have hread := pton6_ntop6 address
  rw [hempty] at hread
  cases hread

/-! ## The platform -/

def hashString (text : String) : UInt64 :=
  text.toList.foldl (fun h c => (h ^^^ UInt64.ofNat c.toNat) * 1099511628211)
    14695981039346656037

def platform : Platform where
  hashString := hashString
  inetPton4 := inetPton4
  inetNtop4 := inetNtop4
  inetPton6 := inetPton6
  inetNtop6 := inetNtop6
  vhostSocketPath name := "/tmp/qemu-" ++ name
  tapIfname name := name
  pton4_ntop4 := pton4_ntop4
  pton6_ntop6 := pton6_ntop6
  pton6_of_pton4 := pton6_of_pton4

end Butterfly.Libc
