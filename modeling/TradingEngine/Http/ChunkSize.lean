import TradingEngine.Http.WireFormat

/-!
# Http/ChunkSize — the number in a size line

`parse_hex_size` shifts digit after digit into 64 bits and looks at none that it pushes out, so a
long numeral is read as its last sixteen digits: `chunkSizes_iff` says which texts are read as the
numbers they are.
-/

namespace TradingEngine

open Ascii HttpsClientResponse

variable {s : List UInt8} {c : UInt8}

/-- All characters are hexadecimal digits. -/
def IsHex (s : List UInt8) : Prop := ∀ c ∈ s, (hexDigit c).isSome

/-- The number that hexadecimal digits stand for. -/
def hexNumber (s : List UInt8) : ℕ := value 16 (s.map fun c => (hexDigit c).getD 0)

/-- **`parse_hex_size` is right about a text.** -/
def ParsesHex (s : List UInt8) : Prop :=
  ∀ out, parseHexSize s = some out ↔ IsHex s ∧ hexNumber s < 2 ^ 64 ∧ out = hexNumber s

/-- A size line without its extension and the blanks. -/
def sizeText (sizeLine : List UInt8) : List UInt8 :=
  trim (sizeLine.takeWhile fun c => c ≠ semicolon)

/-- **A size line is not taken for a smaller size** than it states. -/
def NotSmaller (sizeLine : List UInt8) : Prop :=
  ∀ chunkSize, sizeOfLine sizeLine = some chunkSize → hexNumber (sizeText sizeLine) ≤ chunkSize

/-- Hexadecimal digits, if they are nothing else, of which at most sixteen stand behind the zeros in
front. -/
def ShortHex (s : List UInt8) : Prop :=
  IsHex s → (s.dropWhile fun c => c = 48).length ≤ 16

/-! ## The size of a numeral -/

theorem hexDigit_eq_zero_iff : hexDigit c = some 0 ↔ c = 48 := by
  constructor
  · intro h
    rw [hexDigit] at h
    simp only [UInt8.le_iff_toNat_le] at h
    split_ifs at h with hdigit hsmall hcapital
    · have h48 : (48 : UInt8).toNat = 48 := rfl
      have hzero := Option.some.inj h
      exact UInt8.toNat_inj.mp (by omega)
    · have hzero := Option.some.inj h
      omega
    · have hzero := Option.some.inj h
      omega
  · rintro rfl
    rfl

/-- Zeros in front do not change the number. -/
theorem hexNumber_dropWhile (s : List UInt8) :
    hexNumber (s.dropWhile fun c => c = 48) = hexNumber s := by
  induction s with
  | nil => rfl
  | cons c s ih =>
    rw [List.dropWhile_cons]
    split
    case isFalse => rfl
    case isTrue hzero =>
      obtain rfl : c = 48 := of_decide_eq_true hzero
      have hcons : hexNumber (48 :: s) = 0 * 16 ^ _ + hexNumber s := value_cons 16 0 _
      rw [ih, hcons]
      omega

theorem hexNumber_lt_pow (h : IsHex s) : hexNumber s < 16 ^ s.length := by
  rw [hexNumber, ← List.length_map fun c => (hexDigit c).getD 0]
  refine value_lt (by decide) fun d hd => ?_
  obtain ⟨c, hc, rfl⟩ := List.mem_map.mp hd
  obtain ⟨d, hd⟩ := Option.isSome_iff_exists.mp (h c hc)
  rw [hd]
  exact hexDigit_lt hd

/-- A digit in front that is not zero counts for its place. -/
theorem pow_le_hexNumber (hc : (hexDigit c).isSome) (hne : c ≠ 48) :
    16 ^ s.length ≤ hexNumber (c :: s) := by
  obtain ⟨d, hd⟩ := Option.isSome_iff_exists.mp hc
  have hpos : 1 ≤ d := by
    rcases Nat.eq_zero_or_pos d with rfl | hpos
    · exact absurd (hexDigit_eq_zero_iff.mp hd) hne
    · exact hpos
  have hcons : hexNumber (c :: s) = d * 16 ^ s.length + hexNumber s := by
    rw [hexNumber, List.map_cons, value_cons, List.length_map, hd]
    rfl
  calc 16 ^ s.length ≤ d * 16 ^ s.length := Nat.le_mul_of_pos_left _ hpos
    _ ≤ hexNumber (c :: s) := hcons ▸ Nat.le_add_right _ _

/-- **Which numbers fit into a word.** -/
theorem hexNumber_lt_iff (h : IsHex s) :
    hexNumber s < 2 ^ 64 ↔ (s.dropWhile fun c => c = 48).length ≤ 16 := by
  have hpow : (2 : ℕ) ^ 64 = 16 ^ 16 := by norm_num
  have hrest : IsHex (s.dropWhile fun c => c = 48) := fun c hc =>
    h c ((List.dropWhile_sublist _).subset hc)
  rw [← hexNumber_dropWhile, hpow]
  constructor
  · intro hlt
    cases hdrop : s.dropWhile fun c => c = 48 with
    | nil => exact Nat.zero_le _
    | cons c rest =>
      rw [hdrop] at hlt hrest
      have hne : c ≠ 48 := by
        have hnil : (s.dropWhile fun c => c = 48) ≠ [] := by
          rw [hdrop]
          exact List.cons_ne_nil c rest
        have hhead := List.head_dropWhile_not _ hnil
        simpa only [hdrop, List.head_cons, decide_eq_false_iff_not] using hhead
      have hle := pow_le_hexNumber (s := rest) (hrest c List.mem_cons_self) hne
      have hexp : rest.length < 16 :=
        (Nat.pow_lt_pow_iff_right (by decide)).mp (Nat.lt_of_le_of_lt hle hlt)
      exact hexp
  · intro hlength
    exact Nat.lt_of_lt_of_le (hexNumber_lt_pow hrest) (Nat.pow_le_pow_right (by decide) hlength)

/-! ## What is read -/

/-- **The loop**: the number is cut to a word. -/
theorem parseHexSize_of_isHex (h : IsHex s) : parseHexSize s = some (hexNumber s % 2 ^ 64) :=
  foldlM_hexDigit h 0

theorem isHex_of_parseHexSize {out : ℕ} (h : parseHexSize s = some out) : IsHex s := by
  rw [parseHexSize] at h
  generalize (0 : ℕ) = v at h
  induction s generalizing v with
  | nil => exact fun _ hc => absurd hc List.not_mem_nil
  | cons c s ih =>
    rw [List.foldlM_cons] at h
    obtain ⟨next, hnext, hrest⟩ := Option.bind_eq_some_iff.mp h
    obtain ⟨d, hd, -⟩ := Option.map_eq_some_iff.mp hnext
    exact List.forall_mem_cons.mpr ⟨Option.isSome_iff_exists.mpr ⟨d, hd⟩, ih _ hrest⟩

theorem parsesHex_iff : ParsesHex s ↔ ShortHex s := by
  constructor
  · intro h hhex
    have hsome := (h (hexNumber s % 2 ^ 64)).mp (parseHexSize_of_isHex hhex)
    exact (hexNumber_lt_iff hhex).mp hsome.2.1
  · intro h out
    constructor
    · intro hparse
      have hhex := isHex_of_parseHexSize hparse
      have hlt := (hexNumber_lt_iff hhex).mpr (h hhex)
      rw [parseHexSize_of_isHex hhex, Nat.mod_eq_of_lt hlt] at hparse
      exact ⟨hhex, hlt, (Option.some.inj hparse).symm⟩
    · rintro ⟨hhex, hlt, rfl⟩
      rw [parseHexSize_of_isHex hhex, Nat.mod_eq_of_lt hlt]

theorem sizeOfLine_eq (sizeLine : List UInt8) :
    sizeOfLine sizeLine =
      if sizeText sizeLine = [] then none else parseHexSize (sizeText sizeLine) := rfl

theorem notSmaller_iff (sizeLine : List UInt8) :
    NotSmaller sizeLine ↔ ShortHex (sizeText sizeLine) := by
  constructor
  · intro h hhex
    rcases eq_or_ne (sizeText sizeLine) [] with hnil | hne
    · rw [hnil]
      exact Nat.zero_le _
    · have hsize : sizeOfLine sizeLine = some (hexNumber (sizeText sizeLine) % 2 ^ 64) := by
        rw [sizeOfLine_eq, if_neg hne, parseHexSize_of_isHex hhex]
      refine (hexNumber_lt_iff hhex).mp (Nat.lt_of_le_of_lt (h _ hsize) (Nat.mod_lt _ ?_))
      decide
  · intro h chunkSize hsize
    rw [sizeOfLine_eq] at hsize
    split at hsize
    case isTrue => cases hsize
    case isFalse =>
      exact Nat.le_of_eq ((parsesHex_iff.mpr h chunkSize).mp hsize).2.2.symm

/-- **Chunk sizes are what they are written as**, and no line is taken for a smaller size, exactly
where at most sixteen digits stand behind the zeros in front. -/
theorem chunkSizes_iff (s sizeLine : List UInt8) :
    (ParsesHex s ↔ ShortHex s) ∧ (NotSmaller sizeLine ↔ ShortHex (sizeText sizeLine)) :=
  ⟨parsesHex_iff, notSmaller_iff sizeLine⟩

/-- A one and sixteen zeros: the line states `2 ^ 64` bytes and is read as the last chunk. -/
theorem wordSize_not_parsed :
    sizeOfLine (text "10000000000000000") = some 0 ∧
      hexNumber (text "10000000000000000") = 2 ^ 64 ∧
      ¬ ParsesHex (text "10000000000000000") ∧ ¬ NotSmaller (text "10000000000000000") := by
  have hread : sizeOfLine (text "10000000000000000") = some 0 := by decide
  have hstates : hexNumber (text "10000000000000000") = 2 ^ 64 := by decide
  have htext : sizeText (text "10000000000000000") = text "10000000000000000" := by decide
  have hparse : parseHexSize (text "10000000000000000") = some 0 := by decide
  refine ⟨hread, hstates, fun h => ?_, fun h => ?_⟩
  · obtain ⟨-, hlt, -⟩ := (h 0).mp hparse
    rw [hstates] at hlt
    exact Nat.lt_irrefl _ hlt
  · have hle := h 0 hread
    rw [htext, hstates] at hle
    exact absurd hle (by decide)

end TradingEngine
