import VerifierCI.Python.Text

/-! # Decoding UTF-8 with replacement

`bytes.decode("utf-8", errors="replace")`: every maximal prefix of a sequence
that cannot be completed becomes one replacement character. An ASCII byte is
never part of a longer sequence, so decoding respects ASCII separators.
-/

namespace Python

def ascii (text : String) : List UInt8 :=
  text.toList.map fun c => UInt8.ofNat c.toNat

/-- ASCII white space. -/
def isBlankByte (b : UInt8) : Bool :=
  b == 32 || (9 ≤ b && b ≤ 13)

/-- `bytes.strip()` leaves nothing. -/
def isBlank (bytes : List UInt8) : Bool :=
  bytes.all isBlankByte

def replacementCharacter : Char := Char.ofNat 0xfffd

/-- An unfinished sequence: how many bytes it still owes, the range of the next
one, and the bits read so far. -/
structure Pending where
  owed : Nat
  low : Nat
  high : Nat
  bits : Nat
  low_ge : 0x80 ≤ low

namespace Utf8

theorem low_ge_80 : 0x80 ≤ 0x80 := by decide

theorem low_ge_90 : 0x80 ≤ 0x90 := by decide

theorem low_ge_a0 : 0x80 ≤ 0xa0 := by decide

def opens (b : Nat) : Option Pending :=
  if 0xc2 ≤ b ∧ b ≤ 0xdf then some ⟨1, 0x80, 0xbf, b - 0xc0, low_ge_80⟩
  else if b = 0xe0 then some ⟨2, 0xa0, 0xbf, 0, low_ge_a0⟩
  else if b = 0xed then some ⟨2, 0x80, 0x9f, 0xd, low_ge_80⟩
  else if 0xe1 ≤ b ∧ b ≤ 0xef then some ⟨2, 0x80, 0xbf, b - 0xe0, low_ge_80⟩
  else if b = 0xf0 then some ⟨3, 0x90, 0xbf, 0, low_ge_90⟩
  else if 0xf1 ≤ b ∧ b ≤ 0xf3 then some ⟨3, 0x80, 0xbf, b - 0xf0, low_ge_80⟩
  else if b = 0xf4 then some ⟨3, 0x80, 0x8f, 4, low_ge_80⟩
  else none

/-- A byte between sequences: what it decodes to and what it opens. -/
def start (b : Nat) : List Char × Option Pending :=
  if b < 0x80 then ([Char.ofNat b], none)
  else
    match opens b with
    | some pending => ([], some pending)
    | none => ([replacementCharacter], none)

/-- One byte. A byte that does not continue the pending sequence is read again
after a replacement character. -/
def step : Option Pending → Nat → List Char × Option Pending
  | none, b => start b
  | some pending, b =>
      if pending.low ≤ b ∧ b ≤ pending.high then
        let bits := pending.bits * 64 + (b - 0x80)
        if pending.owed = 1 then ([Char.ofNat bits], none)
        else ([], some ⟨pending.owed - 1, 0x80, 0xbf, bits, low_ge_80⟩)
      else
        let (out, next) := start b
        (replacementCharacter :: out, next)

/-- What an unfinished sequence decodes to. -/
def flush : Option Pending → List Char
  | none => []
  | some _ => [replacementCharacter]

def decodeFrom (pending : Option Pending) : List UInt8 → List Char
  | [] => flush pending
  | b :: rest =>
      let (out, next) := step pending b.toNat
      out ++ decodeFrom next rest

end Utf8

open Utf8

/-- `data.decode("utf-8", errors="replace")`. -/
def decode (data : List UInt8) : List Char :=
  decodeFrom none data

theorem decodeFrom_cons (pending : Option Pending) (b : UInt8) (rest : List UInt8) :
    decodeFrom pending (b :: rest) =
      (step pending b.toNat).1 ++ decodeFrom (step pending b.toNat).2 rest := rfl

/-- An ASCII byte ends whatever sequence was unfinished, and stands for itself. -/
theorem decodeFrom_ascii {b : UInt8} (hascii : b.toNat < 0x80) (pending : Option Pending)
    (rest : List UInt8) :
    decodeFrom pending (b :: rest) = flush pending ++ Char.ofNat b.toNat :: decode rest := by
  have hstart : start b.toNat = ([Char.ofNat b.toNat], none) := if_pos hascii
  cases pending with
  | none =>
      simp only [decodeFrom, step, hstart]
      rfl
  | some pending =>
      have hlow : ¬ (pending.low ≤ b.toNat ∧ b.toNat ≤ pending.high) := by
        have hge := pending.low_ge
        omega
      simp only [decodeFrom, step, if_neg hlow, hstart]
      rfl

/-- An ASCII byte separates what is decoded before it from what is decoded after it. -/
theorem decode_append_ascii {b : UInt8} (hascii : b.toNat < 0x80) (before after : List UInt8) :
    decode (before ++ b :: after) = decode before ++ Char.ofNat b.toNat :: decode after := by
  have hfrom : ∀ pending, decodeFrom pending (before ++ b :: after) =
      decodeFrom pending before ++ Char.ofNat b.toNat :: decode after := by
    induction before with
    | nil => exact fun pending => decodeFrom_ascii hascii pending after
    | cons c before ih =>
        intro pending
        rw [List.cons_append, decodeFrom_cons, decodeFrom_cons, ih, List.append_assoc]
  exact hfrom none

/-- An ASCII string in front of other bytes is decoded as it stands. -/
theorem decode_ascii_append {text : String} (hascii : ∀ c ∈ text.toList, c.toNat < 0x80)
    (rest : List UInt8) : decode (ascii text ++ rest) = text.toList ++ decode rest := by
  unfold ascii
  generalize text.toList = chars at hascii
  induction chars with
  | nil => rfl
  | cons c chars ih =>
      have hc : c.toNat < 0x80 := hascii c List.mem_cons_self
      have hbyte : (UInt8.ofNat c.toNat).toNat = c.toNat := by
        rw [UInt8.toNat_ofNat']
        omega
      rw [List.map_cons, List.cons_append, ← List.nil_append (_ :: _),
        decode_append_ascii (by rw [hbyte]; exact hc), hbyte, Char.ofNat_toNat,
        ih fun d hd => hascii d (List.mem_cons_of_mem c hd)]
      rfl

/-- A byte decodes to something or leaves a sequence unfinished. -/
theorem step_productive (pending : Option Pending) (b : Nat) :
    (step pending b).1 ≠ [] ∨ (step pending b).2 ≠ none := by
  cases pending with
  | none =>
      simp only [step, start]
      split
      · exact Or.inl (List.cons_ne_nil _ _)
      · split
        · exact Or.inr (Option.some_ne_none _)
        · exact Or.inl (List.cons_ne_nil _ _)
  | some pending =>
      simp only [step]
      split
      · split
        · exact Or.inl (List.cons_ne_nil _ _)
        · exact Or.inr (Option.some_ne_none _)
      · exact Or.inl (List.cons_ne_nil _ _)

theorem decode_ne_nil {data : List UInt8} (hne : data ≠ []) : decode data ≠ [] := by
  have hfrom : ∀ pending, pending ≠ none ∨ data ≠ [] → decodeFrom pending data ≠ [] := by
    clear hne
    induction data with
    | nil =>
        rintro pending (hpending | hdata)
        · cases pending with
          | none => exact absurd rfl hpending
          | some pending => exact List.cons_ne_nil _ _
        · exact absurd rfl hdata
    | cons b rest ih =>
        intro pending _ hnil
        rw [decodeFrom_cons, List.append_eq_nil_iff] at hnil
        rcases step_productive pending b.toNat with hout | hnext
        · exact hout hnil.1
        · exact ih _ (Or.inl hnext) hnil.2
  exact hfrom none (Or.inr hne)

/-! ## Decoding undoes encoding -/

namespace Utf8

theorem decodeFrom_opens {b : Nat} {pending : Pending} (hb : b < 256) (hascii : 0x80 ≤ b)
    (hopens : opens b = some pending) (rest : List UInt8) :
    decodeFrom none (UInt8.ofNat b :: rest) = decodeFrom (some pending) rest := by
  have hbyte : (UInt8.ofNat b).toNat = b := by
    rw [UInt8.toNat_ofNat']
    omega
  rw [decodeFrom_cons, hbyte]
  simp only [step, start, hopens, if_neg (by omega : ¬ b < 0x80), List.nil_append]

theorem decodeFrom_continue {b : Nat} {pending : Pending} (howed : pending.owed ≠ 1)
    (hlow : pending.low ≤ b + 128) (hhigh : b + 128 ≤ pending.high) (hb : b < 64)
    (rest : List UInt8) :
    decodeFrom (some pending) (UInt8.ofNat (b + 128) :: rest) =
      decodeFrom (some ⟨pending.owed - 1, 0x80, 0xbf, pending.bits * 64 + b, low_ge_80⟩) rest := by
  have hbyte : (UInt8.ofNat (b + 128)).toNat = b + 128 := by
    rw [UInt8.toNat_ofNat']
    omega
  rw [decodeFrom_cons, hbyte]
  simp only [step, if_pos (And.intro hlow hhigh), if_neg howed, List.nil_append,
    Nat.add_sub_cancel]

theorem decodeFrom_last {b : Nat} {pending : Pending} (howed : pending.owed = 1)
    (hlow : pending.low ≤ b + 128) (hhigh : b + 128 ≤ pending.high) (hb : b < 64)
    (rest : List UInt8) :
    decodeFrom (some pending) (UInt8.ofNat (b + 128) :: rest) =
      Char.ofNat (pending.bits * 64 + b) :: decode rest := by
  have hbyte : (UInt8.ofNat (b + 128)).toNat = b + 128 := by
    rw [UInt8.toNat_ofNat']
    omega
  rw [decodeFrom_cons, hbyte]
  simp only [step, if_pos (And.intro hlow hhigh), if_pos howed, Nat.add_sub_cancel]
  rfl

end Utf8

/-- A character is decoded from its encoding. The four lengths are treated one by one, with the
bytes in the ranges the decoder tests. -/
theorem decode_utf8EncodeChar (c : Char) (rest : List UInt8) :
    decode (String.utf8EncodeChar c ++ rest) = c :: decode rest := by
  have hrange : c.val.toNat < 0xd800 ∨ 0xdfff < c.val.toNat ∧ c.val.toNat < 0x110000 := c.valid
  have hc : Char.ofNat c.val.toNat = c := Char.ofNat_toNat c
  simp only [String.utf8EncodeChar]
  generalize c.val.toNat = v at hrange hc ⊢
  -- One case for each length; the bits of the bytes add up to the code point.
  split_ifs with hone htwo hthree
  · have h := decodeFrom_ascii (b := UInt8.ofNat v) (by rw [UInt8.toNat_ofNat']; omega) none rest
    have hbyte : (UInt8.ofNat v).toNat = v := by
      rw [UInt8.toNat_ofNat']
      omega
    rw [hbyte, hc] at h
    exact h
  · have hopens : opens (v / 64 % 32 + 192) = some ⟨1, 0x80, 0xbf, v / 64, low_ge_80⟩ := by
      unfold opens
      rw [if_pos (by omega), (by omega : v / 64 % 32 + 192 - 0xc0 = v / 64)]
    rw [decode, List.cons_append, decodeFrom_opens (by omega) (by omega) hopens, List.cons_append,
      decodeFrom_last rfl (by dsimp only; omega) (by dsimp only; omega) (by omega)]
    have hbits : v / 64 * 64 + v % 64 = v := by omega
    rw [hbits, hc]
    rfl
  · have hopens : ∃ low high, ∃ h : 0x80 ≤ low, opens (v / 4096 % 16 + 224) =
        some ⟨2, low, high, v / 4096, h⟩ ∧ low ≤ v / 64 % 64 + 128 ∧ v / 64 % 64 + 128 ≤ high := by
      have hbits : v / 4096 % 16 + 224 - 0xe0 = v / 4096 := by omega
      unfold opens
      rw [if_neg (by omega), hbits]
      -- The second byte is bounded by the first: neither overlong nor a surrogate.
      split_ifs with he0 hed hmid
      · exact ⟨_, _, low_ge_a0, by rw [(by omega : v / 4096 = 0)], by omega, by omega⟩
      · exact ⟨_, _, low_ge_80, by rw [(by omega : v / 4096 = 0xd)], by omega, by omega⟩
      · exact ⟨_, _, low_ge_80, rfl, by omega, by omega⟩
      all_goals omega
    obtain ⟨low, high, hlow, hopens, hge, hle⟩ := hopens
    rw [decode, List.cons_append, decodeFrom_opens (by omega) (by omega) hopens, List.cons_append,
      decodeFrom_continue (by simp) hge hle (by omega), List.cons_append,
      decodeFrom_last rfl (by dsimp only; omega) (by dsimp only; omega) (by omega)]
    have hbits : (v / 4096 * 64 + v / 64 % 64) * 64 + v % 64 = v := by omega
    rw [hbits, hc]
    rfl
  · have hopens : ∃ low high, ∃ h : 0x80 ≤ low, opens (v / 262144 % 8 + 240) =
        some ⟨3, low, high, v / 262144, h⟩ ∧ low ≤ v / 4096 % 64 + 128 ∧
          v / 4096 % 64 + 128 ≤ high := by
      have hbits : v / 262144 % 8 + 240 - 0xf0 = v / 262144 := by omega
      unfold opens
      rw [if_neg (by omega), if_neg (by omega), if_neg (by omega), if_neg (by omega), hbits]
      split_ifs with hf0 hmid hf4
      · exact ⟨_, _, low_ge_90, by rw [(by omega : v / 262144 = 0)], by omega, by omega⟩
      · exact ⟨_, _, low_ge_80, rfl, by omega, by omega⟩
      · exact ⟨_, _, low_ge_80, by rw [(by omega : v / 262144 = 4)], by omega, by omega⟩
      all_goals omega
    obtain ⟨low, high, hlow, hopens, hge, hle⟩ := hopens
    rw [decode, List.cons_append, decodeFrom_opens (by omega) (by omega) hopens, List.cons_append,
      decodeFrom_continue (by simp) hge hle (by omega), List.cons_append,
      decodeFrom_continue (by simp) (by dsimp only; omega) (by dsimp only; omega) (by omega),
      List.cons_append,
      decodeFrom_last rfl (by dsimp only; omega) (by dsimp only; omega) (by omega)]
    have hbits : ((v / 262144 * 64 + v / 4096 % 64) * 64 + v / 64 % 64) * 64 + v % 64 = v := by
      omega
    rw [hbits, hc]
    rfl

/-- Decoding undoes encoding. -/
theorem decode_encode (text : List Char) :
    decode (text.flatMap String.utf8EncodeChar) = text := by
  induction text with
  | nil => rfl
  | cons c rest ih => rw [List.flatMap_cons, decode_utf8EncodeChar, ih]

end Python
