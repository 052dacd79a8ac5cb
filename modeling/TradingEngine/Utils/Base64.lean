import TradingEngine.Utils.SplitString
import TradingEngine.WebSocketServer.UpgradeRequest

/-!
# Utils/Base64 — the two encoders and the decoder

`Utils::base64_encode` takes byte by byte, `HttpWebsocketConnectionIO::base64_encode` three at a
time; their texts are the same (`encode_eq`).  `base64_decode` counts the text with an `int`: it
reads back exactly what is encoded in less than `2 ^ 31` characters (`base64_iff`).
-/

namespace TradingEngine

open Ascii

/-! ## Encoding three bytes at a time -/

namespace HttpWebsocketConnectionIO

/-- `table[index]`. -/
def tableAt (index : UInt32) : UInt8 := WebsocketUpgradeRequest.base64Table.getD index.toNat 0

/-- `base64_encode`, with its words. -/
def base64Encode : List UInt8 → List UInt8
  | b0 :: b1 :: b2 :: data =>
    let triple := b0.toUInt32 <<< 16 ||| b1.toUInt32 <<< 8 ||| b2.toUInt32
    tableAt (triple >>> 18 &&& 0x3F) :: tableAt (triple >>> 12 &&& 0x3F) ::
      tableAt (triple >>> 6 &&& 0x3F) :: tableAt (triple &&& 0x3F) :: base64Encode data
  | [b0, b1] =>
    let triple := b0.toUInt32 <<< 16 ||| b1.toUInt32 <<< 8
    [tableAt (triple >>> 18 &&& 0x3F), tableAt (triple >>> 12 &&& 0x3F),
      tableAt (triple >>> 6 &&& 0x3F), 61]
  | [b0] =>
    let triple := b0.toUInt32 <<< 16 ||| (0 : UInt32) <<< 8
    [tableAt (triple >>> 18 &&& 0x3F), tableAt (triple >>> 12 &&& 0x3F), 61, 61]
  | [] => []

end HttpWebsocketConnectionIO

namespace Utils

/-! ## Encoding byte by byte -/

/-- `base64_chars`. -/
def base64Chars : List UInt8 :=
  text "ABCDEFGHIJKLMNOPQRSTUVWXYZabcdefghijklmnopqrstuvwxyz0123456789+/"

/-- `base64_chars[index]`. -/
def charAt (index : UInt8) : UInt8 := base64Chars.getD index.toNat 0

/-- `char_array_4` of three bytes. -/
def charArray4 (a b c : UInt8) : List UInt8 :=
  [(a &&& 0xfc) >>> 2, ((a &&& 0x03) <<< 4) + ((b &&& 0xf0) >>> 4),
    ((b &&& 0x0f) <<< 2) + ((c &&& 0xc0) >>> 6), c &&& 0x3f]

/-- The front of `char_array_3` or `char_array_4` that is filled, and what is written. -/
structure Coding where
  filled : List UInt8
  ret : List UInt8

/-- The body of the loop of `base64_encode`. -/
def encodeByte (s : Coding) (byte : UInt8) : Coding :=
  match s.filled ++ [byte] with
  | [a, b, c] => ⟨[], s.ret ++ (charArray4 a b c).map charAt⟩
  | filled => ⟨filled, s.ret⟩

/-- What comes behind the loop: the array is filled with zeros. -/
def encodeEnd (s : Coding) : List UInt8 :=
  match s.filled with
  | [] => s.ret
  | a :: rest =>
    s.ret ++ ((charArray4 a (rest.getD 0 0) (rest.getD 1 0)).take (s.filled.length + 1)).map charAt ++
      List.replicate (3 - s.filled.length) 61

/-- `Utils::base64_encode`, of `bufLen` bytes. -/
def base64Encode (buf : List UInt8) : List UInt8 := encodeEnd (buf.foldl encodeByte ⟨[], []⟩)

/-! ## Decoding -/

/-- `is_base64`. -/
def isBase64 (c : UInt8) : Bool := isLetter c || isDigit c || c = 43 || c = 47

/-- `base64_chars.find(c)`, as a `BYTE`. -/
def findChar (c : UInt8) : UInt8 := (base64Chars.idxOf? c).elim 255 UInt8.ofNat

/-- `char_array_3` of four indices. -/
def charArray3 (c0 c1 c2 c3 : UInt8) : List UInt8 :=
  [(c0 <<< 2) + ((c1 &&& 0x30) >>> 4), ((c1 &&& 0xf) <<< 4) + ((c2 &&& 0x3c) >>> 2),
    ((c2 &&& 0x3) <<< 6) + c3]

/-- The body of the loop of `base64_decode`. -/
def decodeChar (s : Coding) (c : UInt8) : Coding :=
  match s.filled ++ [c] with
  | [c0, c1, c2, c3] =>
    ⟨[], s.ret ++ charArray3 (findChar c0) (findChar c1) (findChar c2) (findChar c3)⟩
  | filled => ⟨filled, s.ret⟩

/-- What comes behind the loop: the array is filled with NUL characters. -/
def decodeEnd (s : Coding) : List UInt8 :=
  match s.filled with
  | [] => s.ret
  | c0 :: rest =>
    s.ret ++ (charArray3 (findChar c0) (findChar (rest.getD 0 0)) (findChar (rest.getD 1 0))
      (findChar (rest.getD 2 0))).take (s.filled.length - 1)

/-- The loop goes on at a character. -/
def goesOn (c : UInt8) : Bool := c ≠ 61 ∧ isBase64 c = true

/-- The loop of `base64_decode`, in front of the characters that are left; `none` if an `int`
overflows.  The character behind the last one is NUL. -/
def decodeLoop (inLen inPos : ℤ) (s : Coding) : List UInt8 → Option (List UInt8)
  | [] => if inLen = -2 ^ 31 then none else some (decodeEnd s)
  | c :: rest =>
    if inLen = -2 ^ 31 then none
    else if inLen = 0 then some (decodeEnd s)
    else if goesOn c = true then
      if inPos = 2 ^ 31 - 1 then none
      else decodeLoop (inLen - 1) (inPos + 1) (decodeChar s c) rest
    else some (decodeEnd s)

/-- `Utils::base64_decode`. -/
def base64Decode (encoded : List UInt8) : Option (List UInt8) :=
  decodeLoop (toInt encoded.length) 0 ⟨[], []⟩ encoded

/-! ## Bytes -/

section Bytes

/-- A fact about a byte is checked for all numbers below 256. -/
theorem forall_byte {P : UInt8 → Prop} (h : ∀ n < 256, P (UInt8.ofNat n)) (a : UInt8) : P a := by
  have ha := h a.toNat a.toNat_lt
  rwa [UInt8.ofNat_toNat] at ha

/-- The bits that an encoder takes out of a byte, as numbers. -/
theorem toNat_encode (a : UInt8) :
    ((a &&& 0xfc) >>> 2).toNat = a.toNat / 4 ∧ ((a &&& 0x03) <<< 4).toNat = a.toNat % 4 * 16 ∧
      ((a &&& 0xf0) >>> 4).toNat = a.toNat / 16 ∧ ((a &&& 0x0f) <<< 2).toNat = a.toNat % 16 * 4 ∧
      ((a &&& 0xc0) >>> 6).toNat = a.toNat / 64 ∧ (a &&& 0x3f).toNat = a.toNat % 64 := by
  revert a
  exact forall_byte (by decide +kernel)

/-- The bits that the decoder takes out of an index. -/
theorem toNat_decode (c : UInt8) :
    (c <<< 2).toNat = c.toNat * 4 % 256 ∧ ((c &&& 0x30) >>> 4).toNat = c.toNat / 16 % 4 ∧
      ((c &&& 0xf) <<< 4).toNat = c.toNat % 16 * 16 ∧
      ((c &&& 0x3c) >>> 2).toNat = c.toNat / 4 % 16 ∧
      ((c &&& 0x3) <<< 6).toNat = c.toNat % 4 * 64 := by
  revert c
  exact forall_byte (by decide +kernel)

/-- The indices of three bytes. -/
theorem charArray4_toNat (a b c : UInt8) :
    (charArray4 a b c).map UInt8.toNat =
      [a.toNat / 4, a.toNat % 4 * 16 + b.toNat / 16, b.toNat % 16 * 4 + c.toNat / 64,
        c.toNat % 64] := by
  obtain ⟨ha0, ha1, -, -, -, -⟩ := toNat_encode a
  obtain ⟨-, -, hb1, hb2, -, -⟩ := toNat_encode b
  obtain ⟨-, -, -, -, hc2, hc3⟩ := toNat_encode c
  have hb := b.toNat_lt
  have hc := c.toNat_lt
  simp only [charArray4, List.map_cons, List.map_nil, UInt8.toNat_add, ha0, ha1, hb1, hb2, hc2, hc3]
  have hmid : (a.toNat % 4 * 16 + b.toNat / 16) % 2 ^ 8 = a.toNat % 4 * 16 + b.toNat / 16 := by
    omega
  have hlow : (b.toNat % 16 * 4 + c.toNat / 64) % 2 ^ 8 = b.toNat % 16 * 4 + c.toNat / 64 := by
    omega
  rw [hmid, hlow]

/-- A character and its index. -/
theorem findChar_charAt : ∀ n < 64, findChar (charAt (UInt8.ofNat n)) = UInt8.ofNat n ∧
    goesOn (charAt (UInt8.ofNat n)) = true := by
  simp only [findChar, charAt, base64Chars]
  rw [text_ofList]
  decide +kernel

end Bytes

-- no proof behind looks into the alphabet
attribute [local irreducible] base64Chars

/-! ## The encoders agree -/

section Encoders

open HttpWebsocketConnectionIO

variable {a b c : UInt8} {buf : List UInt8}

theorem map_charAt (l : List UInt8) :
    l.map charAt = (l.map UInt8.toNat).map fun n => base64Chars.getD n 0 := by
  rw [List.map_map]
  refine List.map_congr_left fun c _ => ?_
  rw [charAt, Function.comp_apply]

/-- The tables of the two encoders are the same. -/
theorem tableAt_eq (w : UInt32) : tableAt w = base64Chars.getD w.toNat 0 := by
  rw [tableAt, WebsocketUpgradeRequest.base64Table, base64Chars]

/-- Three bytes in a word. -/
theorem toNat_triple (a b c : UInt8) :
    (a.toUInt32 <<< 16 ||| b.toUInt32 <<< 8 ||| c.toUInt32).toNat =
      a.toNat * 2 ^ 16 + b.toNat * 2 ^ 8 + c.toNat := by
  have ha := a.toNat_lt
  have hb := b.toNat_lt
  have hc := c.toNat_lt
  have hhigh : (a.toUInt32 <<< 16).toNat = a.toNat <<< 16 := by
    rw [UInt32.toNat_shiftLeft, Nat.mod_eq_of_lt]
    · rfl
    · change a.toNat <<< 16 < 2 ^ 32
      rw [Nat.shiftLeft_eq]
      omega
  have hmid : (b.toUInt32 <<< 8).toNat = b.toNat <<< 8 := by
    rw [UInt32.toNat_shiftLeft, Nat.mod_eq_of_lt]
    · rfl
    · change b.toNat <<< 8 < 2 ^ 32
      rw [Nat.shiftLeft_eq]
      omega
  have hpair : a.toNat <<< 16 ||| b.toNat <<< 8 = (a.toNat <<< 8 + b.toNat) <<< 8 := by
    rw [Nat.shiftLeft_add_eq_or_of_lt (by omega), Nat.shiftLeft_or_distrib, ← Nat.shiftLeft_add]
  rw [UInt32.toNat_or, UInt32.toNat_or, hhigh, hmid, UInt8.toNat_toUInt32, hpair,
    ← Nat.shiftLeft_add_eq_or_of_lt (by omega), Nat.shiftLeft_eq, Nat.shiftLeft_eq]
  ring

/-- An index that a word is shifted to. -/
theorem toNat_index (w : UInt32) :
    (w >>> 18 &&& 0x3F).toNat = w.toNat / 2 ^ 18 % 64 ∧
      (w >>> 12 &&& 0x3F).toNat = w.toNat / 2 ^ 12 % 64 ∧
      (w >>> 6 &&& 0x3F).toNat = w.toNat / 2 ^ 6 % 64 ∧ (w &&& 0x3F).toNat = w.toNat % 64 := by
  have hmask : ∀ n : ℕ, n &&& 63 = n % 64 := fun n => Nat.and_two_pow_sub_one_eq_mod n 6
  refine ⟨?_, ?_, ?_, ?_⟩
  · rw [UInt32.toNat_and, UInt32.toNat_shiftRight, ← Nat.shiftRight_eq_div_pow]
    exact hmask _
  · rw [UInt32.toNat_and, UInt32.toNat_shiftRight, ← Nat.shiftRight_eq_div_pow]
    exact hmask _
  · rw [UInt32.toNat_and, UInt32.toNat_shiftRight, ← Nat.shiftRight_eq_div_pow]
    exact hmask _
  · rw [UInt32.toNat_and]
    exact hmask _

/-- **The indices that are shifted out of a word** are those of the three bytes. -/
theorem map_tableAt (a b c : UInt8) :
    [tableAt ((a.toUInt32 <<< 16 ||| b.toUInt32 <<< 8 ||| c.toUInt32) >>> 18 &&& 0x3F),
      tableAt ((a.toUInt32 <<< 16 ||| b.toUInt32 <<< 8 ||| c.toUInt32) >>> 12 &&& 0x3F),
      tableAt ((a.toUInt32 <<< 16 ||| b.toUInt32 <<< 8 ||| c.toUInt32) >>> 6 &&& 0x3F),
      tableAt ((a.toUInt32 <<< 16 ||| b.toUInt32 <<< 8 ||| c.toUInt32) &&& 0x3F)] =
      (charArray4 a b c).map charAt := by
  have ha := a.toNat_lt
  have hb := b.toNat_lt
  have hc := c.toNat_lt
  obtain ⟨h18, h12, h6, h0⟩ :=
    toNat_index (a.toUInt32 <<< 16 ||| b.toUInt32 <<< 8 ||| c.toUInt32)
  rw [toNat_triple] at h18 h12 h6 h0
  rw [map_charAt, charArray4_toNat, tableAt_eq, tableAt_eq, tableAt_eq, tableAt_eq, h18, h12, h6,
    h0]
  have h18' : (a.toNat * 2 ^ 16 + b.toNat * 2 ^ 8 + c.toNat) / 2 ^ 18 % 64 = a.toNat / 4 := by omega
  have h12' : (a.toNat * 2 ^ 16 + b.toNat * 2 ^ 8 + c.toNat) / 2 ^ 12 % 64 =
      a.toNat % 4 * 16 + b.toNat / 16 := by omega
  have h6' : (a.toNat * 2 ^ 16 + b.toNat * 2 ^ 8 + c.toNat) / 2 ^ 6 % 64 =
      b.toNat % 16 * 4 + c.toNat / 64 := by omega
  have h0' : (a.toNat * 2 ^ 16 + b.toNat * 2 ^ 8 + c.toNat) % 64 = c.toNat % 64 := by omega
  rw [h18', h12', h6', h0']
  rfl

/-- Induction over groups of three bytes, with the last group apart. -/
@[elab_as_elim] theorem groups_induction {motive : List UInt8 → Prop}
    (three : ∀ a b c data, motive data → motive (a :: b :: c :: data))
    (two : ∀ a b, motive [a, b]) (one : ∀ a, motive [a]) (nil : motive []) : ∀ buf, motive buf
  | [] => nil
  | [a] => one a
  | [a, b] => two a b
  | a :: b :: c :: data => three a b c data (groups_induction three two one nil data)

/-- Three bytes are encoded in front of the others. -/
theorem encode_three (a b c : UInt8) (data : List UInt8) :
    HttpWebsocketConnectionIO.base64Encode (a :: b :: c :: data) =
      (charArray4 a b c).map charAt ++ HttpWebsocketConnectionIO.base64Encode data := by
  rw [← map_tableAt, HttpWebsocketConnectionIO.base64Encode]
  rfl

/-- The last two bytes. -/
theorem encode_two (a b : UInt8) :
    HttpWebsocketConnectionIO.base64Encode [a, b] =
      ((charArray4 a b 0).take 3).map charAt ++ [61] := by
  have hzero : a.toUInt32 <<< 16 ||| b.toUInt32 <<< 8 ||| (0 : UInt8).toUInt32 =
      a.toUInt32 <<< 16 ||| b.toUInt32 <<< 8 := UInt32.or_zero
  have hwords := map_tableAt a b 0
  rw [hzero] at hwords
  rw [List.map_take, ← hwords]
  rfl

/-- The last byte. -/
theorem encode_one (a : UInt8) :
    HttpWebsocketConnectionIO.base64Encode [a] =
      ((charArray4 a 0 0).take 2).map charAt ++ [61, 61] := by
  have hzero : a.toUInt32 <<< 16 ||| (0 : UInt8).toUInt32 <<< 8 ||| (0 : UInt8).toUInt32 =
      a.toUInt32 <<< 16 ||| (0 : UInt32) <<< 8 := UInt32.or_zero
  have hwords := map_tableAt a 0 0
  rw [hzero] at hwords
  rw [List.map_take, ← hwords]
  rfl

/-- **Byte by byte, and three at a time.** -/
theorem encodeEnd_foldl (buf ret : List UInt8) :
    encodeEnd (buf.foldl encodeByte ⟨[], ret⟩) =
      ret ++ HttpWebsocketConnectionIO.base64Encode buf := by
  induction buf using groups_induction generalizing ret with
  | three a b c data ih =>
    have hgroup : (a :: b :: c :: data).foldl encodeByte ⟨[], ret⟩ =
        data.foldl encodeByte ⟨[], ret ++ (charArray4 a b c).map charAt⟩ := rfl
    rw [hgroup, ih, encode_three, List.append_assoc]
  | two a b =>
    rw [encode_two, ← List.append_assoc]
    rfl
  | one a =>
    rw [encode_one, ← List.append_assoc]
    rfl
  | nil => exact (List.append_nil ret).symm

theorem encode_eq (buf : List UInt8) :
    HttpWebsocketConnectionIO.base64Encode buf = base64Encode buf :=
  (encodeEnd_foldl buf []).symm

/-- The key of a handshake is encoded by the same words. -/
theorem base64Encode_eq (buf : List UInt8) :
    WebsocketUpgradeRequest.base64Encode buf = HttpWebsocketConnectionIO.base64Encode buf := by
  have hnone : (0 : UInt8).toNat = 0 := rfl
  induction buf using groups_induction with
  | three a b c data ih =>
    obtain ⟨h18, h12, h6, h0⟩ :=
      toNat_index (a.toUInt32 <<< 16 ||| b.toUInt32 <<< 8 ||| c.toUInt32)
    rw [toNat_triple] at h18 h12 h6 h0
    simp only [WebsocketUpgradeRequest.base64Encode, WebsocketUpgradeRequest.base64Char,
      HttpWebsocketConnectionIO.base64Encode, tableAt, h18, h12, h6, h0, ih]
  | two a b =>
    have htriple := toNat_triple a b 0
    have hzero : a.toUInt32 <<< 16 ||| b.toUInt32 <<< 8 ||| (0 : UInt8).toUInt32 =
        a.toUInt32 <<< 16 ||| b.toUInt32 <<< 8 := UInt32.or_zero
    obtain ⟨h18, h12, h6, -⟩ := toNat_index (a.toUInt32 <<< 16 ||| b.toUInt32 <<< 8)
    rw [hzero, hnone, Nat.add_zero] at htriple
    rw [htriple] at h18 h12 h6
    simp only [WebsocketUpgradeRequest.base64Encode, WebsocketUpgradeRequest.base64Char,
      HttpWebsocketConnectionIO.base64Encode, tableAt, h18, h12, h6]
  | one a =>
    have htriple := toNat_triple a 0 0
    have hzero : a.toUInt32 <<< 16 ||| (0 : UInt8).toUInt32 <<< 8 ||| (0 : UInt8).toUInt32 =
        a.toUInt32 <<< 16 ||| (0 : UInt32) <<< 8 := UInt32.or_zero
    obtain ⟨h18, h12, -, -⟩ := toNat_index (a.toUInt32 <<< 16 ||| (0 : UInt32) <<< 8)
    rw [hzero, hnone, Nat.zero_mul, Nat.add_zero] at htriple
    rw [htriple] at h18 h12
    simp only [WebsocketUpgradeRequest.base64Encode, WebsocketUpgradeRequest.base64Char,
      HttpWebsocketConnectionIO.base64Encode, tableAt, h18, h12]
  | nil => rfl

end Encoders

/-! ## What is decoded -/

section Decoder

variable {buf : List UInt8}

theorem findChar_of_lt {x : UInt8} (h : x.toNat < 64) :
    findChar (charAt x) = x ∧ goesOn (charAt x) = true := by
  have hx := findChar_charAt x.toNat h
  rwa [UInt8.ofNat_toNat] at hx

/-- The indices are below 64. -/
theorem lt_of_mem_charArray4 {a b c x : UInt8} (h : x ∈ charArray4 a b c) : x.toNat < 64 := by
  have ha := a.toNat_lt
  have hb := b.toNat_lt
  have hc := c.toNat_lt
  have hmem := List.mem_map_of_mem (f := UInt8.toNat) h
  rw [charArray4_toNat] at hmem
  simp only [List.mem_cons, List.not_mem_nil, or_false] at hmem
  omega

/-- The first byte is in the first two indices. -/
theorem decode_first (a b : UInt8) :
    (((a &&& 0xfc) >>> 2) <<< 2) +
      (((((a &&& 0x03) <<< 4) + ((b &&& 0xf0) >>> 4)) &&& 0x30) >>> 4) = a := by
  obtain ⟨ha0, ha1, -, -, -, -⟩ := toNat_encode a
  obtain ⟨-, -, hb1, -, -, -⟩ := toNat_encode b
  have ha := a.toNat_lt
  have hb := b.toNat_lt
  refine UInt8.toNat_inj.mp ?_
  rw [UInt8.toNat_add, (toNat_decode _).1, (toNat_decode _).2.1, UInt8.toNat_add, ha0, ha1, hb1]
  omega

/-- The second one in the next two. -/
theorem decode_second (a b c : UInt8) :
    (((((a &&& 0x03) <<< 4) + ((b &&& 0xf0) >>> 4)) &&& 0xf) <<< 4) +
      (((((b &&& 0x0f) <<< 2) + ((c &&& 0xc0) >>> 6)) &&& 0x3c) >>> 2) = b := by
  obtain ⟨-, ha1, -, -, -, -⟩ := toNat_encode a
  obtain ⟨-, -, hb1, hb2, -, -⟩ := toNat_encode b
  obtain ⟨-, -, -, -, hc2, -⟩ := toNat_encode c
  have ha := a.toNat_lt
  have hb := b.toNat_lt
  have hc := c.toNat_lt
  refine UInt8.toNat_inj.mp ?_
  rw [UInt8.toNat_add, (toNat_decode _).2.2.1, (toNat_decode _).2.2.2.1, UInt8.toNat_add,
    UInt8.toNat_add, ha1, hb1, hb2, hc2]
  omega

/-- And the third one in the last two. -/
theorem decode_third (b c : UInt8) :
    (((((b &&& 0x0f) <<< 2) + ((c &&& 0xc0) >>> 6)) &&& 0x3) <<< 6) + (c &&& 0x3f) = c := by
  obtain ⟨-, -, -, hb2, -, -⟩ := toNat_encode b
  obtain ⟨-, -, -, -, hc2, hc3⟩ := toNat_encode c
  have hb := b.toNat_lt
  have hc := c.toNat_lt
  refine UInt8.toNat_inj.mp ?_
  rw [UInt8.toNat_add, (toNat_decode _).2.2.2.2, UInt8.toNat_add, hb2, hc2, hc3]
  omega

/-- The characters of a group are decoded to its indices. -/
theorem map_findChar (a b c : UInt8) :
    ((charArray4 a b c).map charAt).map findChar = charArray4 a b c := by
  rw [List.map_map]
  refine (List.map_congr_left fun x hx => ?_).trans (List.map_id _)
  exact (findChar_of_lt (lt_of_mem_charArray4 hx)).1

/-- What is read in front of the first character that is not in the alphabet. -/
def readable (encoded : List UInt8) : List UInt8 := encoded.takeWhile goesOn

/-- **A group is decoded.** -/
theorem foldl_decodeChar (a b c : UInt8) (ret : List UInt8) :
    ((charArray4 a b c).map charAt).foldl decodeChar ⟨[], ret⟩ = ⟨[], ret ++ [a, b, c]⟩ := by
  have hfind := map_findChar a b c
  simp only [charArray4, List.map_cons, List.map_nil, List.cons.injEq, and_true] at hfind
  obtain ⟨h0, h1, h2, h3⟩ := hfind
  simp only [charArray4, List.map_cons, List.map_nil, List.foldl_cons, List.foldl_nil, decodeChar,
    List.nil_append, List.cons_append, h0, h1, h2, h3, charArray3, decode_first, decode_second,
    decode_third]

/-- Three characters are decoded behind the loop. -/
theorem decodeEnd_two (a b c : UInt8) (ret : List UInt8) :
    decodeEnd ((((charArray4 a b c).take 3).map charAt).foldl decodeChar ⟨[], ret⟩) =
      ret ++ [a, b] := by
  have hfind := map_findChar a b c
  simp only [charArray4, List.map_cons, List.map_nil, List.cons.injEq, and_true] at hfind
  obtain ⟨h0, h1, h2, -⟩ := hfind
  simp [charArray4, decodeChar, decodeEnd, charArray3, h0, h1, h2, decode_first, decode_second]

/-- So are two. -/
theorem decodeEnd_one (a b c : UInt8) (ret : List UInt8) :
    decodeEnd ((((charArray4 a b c).take 2).map charAt).foldl decodeChar ⟨[], ret⟩) =
      ret ++ [a] := by
  have hfind := map_findChar a b c
  simp only [charArray4, List.map_cons, List.map_nil, List.cons.injEq, and_true] at hfind
  obtain ⟨h0, h1, -, -⟩ := hfind
  simp [charArray4, decodeChar, decodeEnd, charArray3, h0, h1, decode_first]

theorem readable_append {front : List UInt8} (h : ∀ c ∈ front, goesOn c = true)
    (encoded : List UInt8) : readable (front ++ encoded) = front ++ readable encoded :=
  List.takeWhile_append_of_pos h

theorem goesOn_of_mem {a b c d : UInt8} (h : d ∈ (charArray4 a b c).map charAt) :
    goesOn d = true := by
  obtain ⟨x, hx, rfl⟩ := List.mem_map.mp h
  exact (findChar_of_lt (lt_of_mem_charArray4 hx)).2

theorem goesOn_of_mem_take {a b c d : UInt8} {n : ℕ}
    (h : d ∈ ((charArray4 a b c).take n).map charAt) : goesOn d = true := by
  rw [List.map_take] at h
  exact goesOn_of_mem (List.mem_of_mem_take h)

/-- The padding is not read. -/
theorem readable_padding (rest : List UInt8) : readable (61 :: rest) = [] :=
  List.takeWhile_cons_of_neg (by decide)

/-- **What is encoded is decoded**, as far as the text is read. -/
theorem decodeEnd_foldl (buf ret : List UInt8) :
    decodeEnd
        ((readable <| HttpWebsocketConnectionIO.base64Encode buf).foldl decodeChar ⟨[], ret⟩) =
      ret ++ buf := by
  induction buf using groups_induction generalizing ret with
  | three a b c data ih =>
    rw [encode_three, readable_append fun _ => goesOn_of_mem, List.foldl_append, foldl_decodeChar,
      ih, List.append_assoc]
    rfl
  | two a b =>
    rw [encode_two, readable_append fun _ => goesOn_of_mem_take, readable_padding, List.append_nil,
      decodeEnd_two]
  | one a =>
    rw [encode_one, readable_append fun _ => goesOn_of_mem_take, readable_padding, List.append_nil,
      decodeEnd_one]
  | nil => exact (List.append_nil ret).symm

/-- The size of the text, of which at most two characters are padding. -/
theorem length_encode (buf : List UInt8) :
    let encoded := HttpWebsocketConnectionIO.base64Encode buf
    encoded.length = 4 * ((buf.length + 2) / 3) ∧
      encoded.length ≤ (readable encoded).length + 2 := by
  dsimp only
  induction buf using groups_induction with
  | three a b c data ih =>
    obtain ⟨hlength, hpadding⟩ := ih
    rw [encode_three, readable_append fun _ => goesOn_of_mem]
    simp only [List.length_append, List.length_map, List.length_cons, charArray4, List.length_nil]
    omega
  | two a b =>
    rw [encode_two, readable_append fun _ => goesOn_of_mem_take, readable_padding]
    simp [charArray4]
  | one a =>
    rw [encode_one, readable_append fun _ => goesOn_of_mem_take, readable_padding]
    simp [charArray4]
  | nil => exact ⟨rfl, Nat.zero_le _⟩

/-! ## The loop with its `int`s -/

/-- **A text whose length is an `int`** is read up to its first other character. -/
theorem decodeLoop_eq {inPos : ℤ} (s : Coding) {encoded : List UInt8} (hpos : 0 ≤ inPos)
    (hlength : inPos + encoded.length < 2 ^ 31) :
    decodeLoop encoded.length inPos s encoded =
      some (decodeEnd ((readable encoded).foldl decodeChar s)) := by
  induction encoded generalizing inPos s with
  | nil => rfl
  | cons c rest ih =>
    rw [List.length_cons, Nat.cast_add, Nat.cast_one] at hlength
    have hnext : ((c :: rest).length : ℤ) - 1 = rest.length := by
      rw [List.length_cons, Nat.cast_add, Nat.cast_one, Int.add_sub_cancel]
    have hne : ((c :: rest).length : ℤ) ≠ 0 := by
      rw [List.length_cons]
      omega
    rw [decodeLoop, if_neg (by omega), if_neg hne, readable, List.takeWhile_cons]
    split
    case isTrue =>
      rw [if_neg (by omega), hnext]
      exact ih (decodeChar s c) (by omega) (by omega)
    case isFalse => rfl

/-- **A negative length** is counted down until it overflows, if enough is read. -/
theorem decodeLoop_overflow {n : ℕ} (inPos : ℤ) (s : Coding) {encoded : List UInt8}
    (hn : n < 2 ^ 31) (hread : n ≤ (readable encoded).length) :
    decodeLoop ((n : ℤ) - 2 ^ 31) inPos s encoded = none := by
  induction n generalizing inPos s encoded with
  | zero => cases encoded <;> rfl
  | succ n ih =>
    cases encoded with
    | nil => exact absurd hread (Nat.not_succ_le_zero n)
    | cons c rest =>
      rw [readable, List.takeWhile_cons] at hread
      rw [decodeLoop, if_neg (by omega), if_neg (by omega)]
      split at hread
      case isFalse => exact absurd hread (Nat.not_succ_le_zero n)
      case isTrue hgoes =>
        have hnext : ((n + 1 : ℕ) : ℤ) - 2 ^ 31 - 1 = (n : ℤ) - 2 ^ 31 := by omega
        rw [if_pos hgoes, hnext]
        split
        · rfl
        · exact ih _ _ (by omega) (Nat.le_of_succ_le_succ hread)

theorem decode_of_le (h : buf.length ≤ 3 * (2 ^ 29 - 1)) :
    base64Decode (base64Encode buf) = some buf := by
  have hlength := (length_encode buf).1
  rw [← encode_eq, base64Decode, toInt_natCast (by omega), decodeLoop_eq _ (by omega) (by omega),
    decodeEnd_foldl]
  rfl

theorem decode_of_lt (hbuf : buf.length < 2 ^ 31) (h : 3 * (2 ^ 29 - 1) < buf.length) :
    base64Decode (base64Encode buf) = none := by
  obtain ⟨hlength, hpadding⟩ := length_encode buf
  rw [← encode_eq, base64Decode]
  generalize HttpWebsocketConnectionIO.base64Encode buf = encoded at hlength hpadding ⊢
  have hwrap : toInt encoded.length = ((encoded.length - 2 ^ 31 : ℕ) : ℤ) - 2 ^ 31 := by
    rw [toInt, Int.bmod_def]
    split <;> omega
  rw [hwrap]
  exact decodeLoop_overflow 0 _ (by omega) (by omega)

end Decoder

/-- The two encoders agree on some bytes, and they are read back. -/
def Base64Sound (buf : List UInt8) : Prop :=
  base64Decode (base64Encode buf) = some buf ∧
    HttpWebsocketConnectionIO.base64Encode buf = base64Encode buf

/-- **Base64 is read back** exactly if the length of the text is an `int`. -/
theorem base64_iff (buf : List UInt8) (h : buf.length < 2 ^ 31) :
    Base64Sound buf ↔ buf.length ≤ 3 * (2 ^ 29 - 1) := by
  constructor
  · rintro ⟨hdecode, -⟩
    by_contra hlong
    rw [decode_of_lt h (Nat.lt_of_not_le hlong)] at hdecode
    cases hdecode
  · exact fun hshort => ⟨decode_of_le hshort, encode_eq buf⟩

/-- Two bytes. -/
theorem base64_two : Base64Sound (text "Ma") ↔ (text "Ma").length ≤ 3 * (2 ^ 29 - 1) :=
  base64_iff (text "Ma") (by decide)

/-- The shortest text whose length is no `int`. -/
theorem base64_not_sound :
    (List.replicate 1610612734 (0 : UInt8)).length < 2 ^ 31 ∧
      ¬ Base64Sound (List.replicate 1610612734 (0 : UInt8)) := by
  have hlength : (List.replicate 1610612734 (0 : UInt8)).length = 1610612734 :=
    List.length_replicate
  refine ⟨by omega, fun h => ?_⟩
  have hnone : base64Decode (base64Encode (List.replicate 1610612734 (0 : UInt8))) = none :=
    decode_of_lt (by omega) (by omega)
  rw [h.1] at hnone
  cases hnone

end Utils

end TradingEngine
