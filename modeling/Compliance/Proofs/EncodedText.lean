import Compliance.Text.Utf8
import Mathlib.Data.List.Basic

/-! # Text in UTF-8

Bytes are read one character at a time. What is read is exactly what a text is encoded to, so bytes
that are no text have no encoding of a text as their front either.

* `Utf8.Sequence`: the byte sequences of one character, by their length.
* `Utf8.utf8EncodeChar_of_sequence`, `Utf8.sequence_utf8EncodeChar`: they are the encodings of the
  characters.
* `Utf8.step_eq_char`: a step reads the sequence in front.
* `Utf8.decode_eq_ok`: a list of bytes has a text exactly if it is the encoding of the text.
* `Utf8.decodeMarked_eq_ok`: the same behind a byte order mark.
-/

namespace Compliance.Utf8

/-! ## Start bytes and bytes behind them -/

theorem lengthOf_cases (b : UInt8) :
    lengthOf b = 1 ∧ b.toNat < 0x80 ∨
    lengthOf b = 2 ∧ 0xC2 ≤ b.toNat ∧ b.toNat < 0xE0 ∨
    lengthOf b = 3 ∧ 0xE0 ≤ b.toNat ∧ b.toNat < 0xF0 ∨
    lengthOf b = 4 ∧ 0xF0 ≤ b.toNat ∧ b.toNat < 0xF5 ∨
    lengthOf b = 0 ∧ (0x80 ≤ b.toNat ∧ b.toNat < 0xC2 ∨ 0xF5 ≤ b.toNat) := by
  simp only [lengthOf, UInt8.lt_iff_toNat_lt, UInt8.reduceToNat]
  split_ifs <;> simp <;> omega

theorem lengthOf_eq_one {b : UInt8} : lengthOf b = 1 ↔ b.toNat < 0x80 := by
  have hcases := lengthOf_cases b
  omega

theorem lengthOf_eq_two {b : UInt8} : lengthOf b = 2 ↔ 0xC2 ≤ b.toNat ∧ b.toNat < 0xE0 := by
  have hcases := lengthOf_cases b
  omega

theorem lengthOf_eq_three {b : UInt8} : lengthOf b = 3 ↔ 0xE0 ≤ b.toNat ∧ b.toNat < 0xF0 := by
  have hcases := lengthOf_cases b
  omega

theorem lengthOf_eq_four {b : UInt8} : lengthOf b = 4 ↔ 0xF0 ≤ b.toNat ∧ b.toNat < 0xF5 := by
  have hcases := lengthOf_cases b
  omega

theorem isContinuation_iff {b : UInt8} :
    isContinuation b = true ↔ 0x80 ≤ b.toNat ∧ b.toNat < 0xC0 := by
  simp only [isContinuation, beq_iff_eq]
  omega

theorem allowsSecond_iff {b b1 : UInt8} :
    allowsSecond b b1 = true ↔ 0x80 ≤ b1.toNat ∧ b1.toNat < 0xC0 ∧
      (b.toNat = 0xE0 → 0xA0 ≤ b1.toNat) ∧ (b.toNat = 0xED → b1.toNat < 0xA0) ∧
      (b.toNat = 0xF0 → 0x90 ≤ b1.toNat) ∧ (b.toNat = 0xF4 → b1.toNat < 0x90) := by
  simp only [allowsSecond, Bool.and_eq_true, isContinuation_iff, Bool.not_eq_true',
    Bool.and_eq_false_iff, beq_eq_false_iff_ne, ne_eq, decide_eq_false_iff_not, ← UInt8.toNat_inj,
    UInt8.lt_iff_toNat_lt, UInt8.le_iff_toNat_le, UInt8.reduceToNat]
  omega

theorem toNat_ofNat_of_valid {n : Nat} (h : n.isValidChar) : (Char.ofNat n).toNat = n := by
  rw [Char.ofNat, dif_pos h]
  rfl

theorem ofNat_eq {b : UInt8} {n : Nat} (h : n = b.toNat) : UInt8.ofNat n = b := by
  rw [h, UInt8.ofNat_toNat]

theorem toNat_ofNat_of_lt {n : Nat} (h : n < 256) : (UInt8.ofNat n).toNat = n := by
  simpa using h

/-! ## The bytes of one character -/

/-- The bytes that are read as a character. -/
inductive Sequence : UInt8 → List UInt8 → Char → Prop where
  | one {b : UInt8} (hb : lengthOf b = 1) : Sequence b [] (Char.ofNat b.toNat)
  | two {b b1 : UInt8} (hb : lengthOf b = 2) (h1 : allowsSecond b b1 = true) :
    Sequence b [b1] (codePoint (b.toNat % 32) [b1])
  | three {b b1 b2 : UInt8} (hb : lengthOf b = 3) (h1 : allowsSecond b b1 = true)
    (h2 : isContinuation b2 = true) : Sequence b [b1, b2] (codePoint (b.toNat % 16) [b1, b2])
  | four {b b1 b2 b3 : UInt8} (hb : lengthOf b = 4) (h1 : allowsSecond b b1 = true)
    (h2 : isContinuation b2 = true) (h3 : isContinuation b3 = true) :
    Sequence b [b1, b2, b3] (codePoint (b.toNat % 8) [b1, b2, b3])

variable {b : UInt8} {tail : List UInt8} {c : Char}

/-- **A sequence is the encoding of its character.** -/
theorem utf8EncodeChar_of_sequence (h : Sequence b tail c) :
    String.utf8EncodeChar c = b :: tail := by
  cases h with
  | one hb =>
    rw [lengthOf_eq_one] at hb
    have hv : (Char.ofNat b.toNat).toNat = b.toNat := toNat_ofNat_of_valid (by omega)
    simp only [String.utf8EncodeChar, Char.toNat_val, hv]
    rw [if_pos (by omega), UInt8.ofNat_toNat]
  | @two b1 hb h1 =>
    rw [lengthOf_eq_two] at hb
    rw [allowsSecond_iff] at h1
    have hc : codePoint (b.toNat % 32) [b1] =
      Char.ofNat (b.toNat % 32 * 64 + b1.toNat % 64) := rfl
    rw [hc]
    generalize hn : b.toNat % 32 * 64 + b1.toNat % 64 = n
    have hv : (Char.ofNat n).toNat = n := toNat_ofNat_of_valid (by omega)
    simp only [String.utf8EncodeChar, Char.toNat_val, hv]
    rw [if_neg (by omega), if_pos (by omega), ofNat_eq (b := b) (by omega),
      ofNat_eq (b := b1) (by omega)]
  | @three b1 b2 hb h1 h2 =>
    rw [lengthOf_eq_three] at hb
    rw [allowsSecond_iff] at h1
    rw [isContinuation_iff] at h2
    have hc : codePoint (b.toNat % 16) [b1, b2] =
      Char.ofNat ((b.toNat % 16 * 64 + b1.toNat % 64) * 64 + b2.toNat % 64) := rfl
    rw [hc]
    generalize hn : (b.toNat % 16 * 64 + b1.toNat % 64) * 64 + b2.toNat % 64 = n
    have hv : (Char.ofNat n).toNat = n := toNat_ofNat_of_valid (by omega)
    simp only [String.utf8EncodeChar, Char.toNat_val, hv]
    rw [if_neg (by omega), if_neg (by omega), if_pos (by omega), ofNat_eq (b := b) (by omega),
      ofNat_eq (b := b1) (by omega), ofNat_eq (b := b2) (by omega)]
  | @four b1 b2 b3 hb h1 h2 h3 =>
    rw [lengthOf_eq_four] at hb
    rw [allowsSecond_iff] at h1
    rw [isContinuation_iff] at h2 h3
    have hc : codePoint (b.toNat % 8) [b1, b2, b3] =
      Char.ofNat (((b.toNat % 8 * 64 + b1.toNat % 64) * 64 + b2.toNat % 64) * 64 +
        b3.toNat % 64) := rfl
    rw [hc]
    generalize hn :
      ((b.toNat % 8 * 64 + b1.toNat % 64) * 64 + b2.toNat % 64) * 64 + b3.toNat % 64 = n
    have hv : (Char.ofNat n).toNat = n := toNat_ofNat_of_valid (by omega)
    simp only [String.utf8EncodeChar, Char.toNat_val, hv]
    rw [if_neg (by omega), if_neg (by omega), if_neg (by omega), ofNat_eq (b := b) (by omega),
      ofNat_eq (b := b1) (by omega), ofNat_eq (b := b2) (by omega), ofNat_eq (b := b3) (by omega)]

/-- **The encoding of a character is a sequence.** -/
theorem sequence_utf8EncodeChar (c : Char) :
    ∃ b tail, String.utf8EncodeChar c = b :: tail ∧ Sequence b tail c := by
  have hvalid : c.toNat.isValidChar := c.valid
  have hread : ∀ n, n = c.toNat → Char.ofNat n = c := fun n hn => by rw [hn, Char.ofNat_toNat]
  simp only [Nat.isValidChar] at hvalid
  simp only [String.utf8EncodeChar, Char.toNat_val]
  generalize c.toNat = v at hvalid hread
  have hlast : (UInt8.ofNat (v % 64 + 128)).toNat = v % 64 + 128 := toNat_ofNat_of_lt (by omega)
  generalize UInt8.ofNat (v % 64 + 128) = last at hlast
  have hmid : (UInt8.ofNat (v / 64 % 64 + 128)).toNat = v / 64 % 64 + 128 :=
    toNat_ofNat_of_lt (by omega)
  generalize UInt8.ofNat (v / 64 % 64 + 128) = mid at hmid
  have hcont : ∀ {n : Nat} {b : UInt8}, b.toNat = n % 64 + 128 → isContinuation b = true :=
    fun h => isContinuation_iff.mpr (by omega)
  split_ifs with h1 h2 h3
  · have hb : (UInt8.ofNat v).toNat = v := toNat_ofNat_of_lt (by omega)
    generalize UInt8.ofNat v = b at hb
    refine ⟨b, [], rfl, ?_⟩
    rw [← hread _ hb]
    exact .one (lengthOf_eq_one.mpr (by omega))
  · have hb : (UInt8.ofNat (v / 64 % 32 + 192)).toNat = v / 64 % 32 + 192 :=
      toNat_ofNat_of_lt (by omega)
    generalize UInt8.ofNat (v / 64 % 32 + 192) = b at hb
    have hc : codePoint (b.toNat % 32) [last] = c :=
      hread (b.toNat % 32 * 64 + last.toNat % 64) (by omega)
    have h1 : allowsSecond b last = true := allowsSecond_iff.mpr (by omega)
    exact ⟨b, [last], rfl, hc ▸ .two (lengthOf_eq_two.mpr (by omega)) h1⟩
  · have hb : (UInt8.ofNat (v / 4096 % 16 + 224)).toNat = v / 4096 % 16 + 224 :=
      toNat_ofNat_of_lt (by omega)
    generalize UInt8.ofNat (v / 4096 % 16 + 224) = b at hb
    have hc : codePoint (b.toNat % 16) [mid, last] = c :=
      hread ((b.toNat % 16 * 64 + mid.toNat % 64) * 64 + last.toNat % 64) (by omega)
    have h1 : allowsSecond b mid = true := allowsSecond_iff.mpr (by omega)
    exact ⟨b, [mid, last], rfl,
      hc ▸ .three (lengthOf_eq_three.mpr (by omega)) h1 (hcont hlast)⟩
  · have hb : (UInt8.ofNat (v / 262144 % 8 + 240)).toNat = v / 262144 % 8 + 240 :=
      toNat_ofNat_of_lt (by omega)
    generalize UInt8.ofNat (v / 262144 % 8 + 240) = b at hb
    have hsecond : (UInt8.ofNat (v / 4096 % 64 + 128)).toNat = v / 4096 % 64 + 128 :=
      toNat_ofNat_of_lt (by omega)
    generalize UInt8.ofNat (v / 4096 % 64 + 128) = second at hsecond
    have hc : codePoint (b.toNat % 8) [second, mid, last] = c :=
      hread (((b.toNat % 8 * 64 + second.toNat % 64) * 64 + mid.toNat % 64) * 64 +
        last.toNat % 64) (by omega)
    have h1 : allowsSecond b second = true := allowsSecond_iff.mpr (by omega)
    exact ⟨b, [second, mid, last], rfl,
      hc ▸ .four (lengthOf_eq_four.mpr (by omega)) h1 (hcont hmid) (hcont hlast)⟩

/-! ## Steps -/

theorem step_sequence (h : Sequence b tail c) (rest : List UInt8) :
    step b (tail ++ rest) = .char c tail.length := by
  cases h with
  | one hb => simp [step, hb]
  | two hb h1 => simp [step, hb, h1]
  | three hb h1 h2 => simp [step, hb, h1, h2]
  | four hb h1 h2 h3 => simp [step, hb, h1, h2, h3]

theorem sequence_of_step {rest : List UInt8} {used : Nat} (h : step b rest = .char c used) :
    ∃ tail after, rest = tail ++ after ∧ tail.length = used ∧ Sequence b tail c := by
  have hlen := lengthOf_cases b
  unfold step at h
  split at h
  · cases h
  · rename_i hb
    cases h
    exact ⟨[], _, rfl, rfl, .one hb⟩
  · cases h
  · rename_i b1 r hb
    split at h
    · rename_i h1
      cases h
      exact ⟨[b1], r, rfl, rfl, .two hb h1⟩
    · cases h
  · rename_i b1 r hb
    split at h
    · cases h
    rename_i h1
    split at h
    · cases h
    rename_i b2 r
    split at h
    · rename_i h2
      cases h
      exact ⟨[b1, b2], r, rfl, rfl, .three hb (by simpa using h1) h2⟩
    · cases h
  · rename_i b1 r h0 h1 h2 h3
    have hb : lengthOf b = 4 := by
      rcases hlen with hb | hb | hb | hb | hb
      · exact absurd hb.1 h1
      · exact absurd hb.1 h2
      · exact absurd hb.1 h3
      · exact hb.1
      · exact absurd hb.1 h0
    split at h
    · cases h
    rename_i hs
    split at h
    · cases h
    rename_i b2 r
    split at h
    · cases h
    rename_i hc2
    split at h
    · cases h
    rename_i b3 r
    split at h
    · rename_i hc3
      cases h
      exact ⟨[b1, b2, b3], r, rfl, rfl, .four hb (by simpa using hs) (by simpa using hc2) hc3⟩
    · cases h

/-! ## Texts -/

/-- **Bytes have a text exactly if they are its encoding.** -/
theorem decodeFrom_eq_ok {bytes : List UInt8} {at_ : Nat} {done cs : List Char} :
    decodeFrom at_ done bytes = .ok cs ↔
      ∃ new, cs = done.reverse ++ new ∧ bytes = new.flatMap String.utf8EncodeChar := by
  fun_induction decodeFrom at_ done bytes with
  | case1 at_ done =>
    constructor
    · rintro ⟨⟩
      exact ⟨[], by simp, rfl⟩
    · rintro ⟨new, rfl, hnew⟩
      cases new with
      | nil => simp
      | cons c new =>
        obtain ⟨b, tail, hb, -⟩ := sequence_utf8EncodeChar c
        simp [hb] at hnew
  | case2 at_ done b rest c used hstep ih =>
    obtain ⟨tail, after, rfl, rfl, hseq⟩ := sequence_of_step hstep
    have hc := utf8EncodeChar_of_sequence hseq
    rw [ih]
    simp only [List.drop_left, List.reverse_cons, List.append_assoc, List.singleton_append]
    constructor
    · rintro ⟨new, rfl, rfl⟩
      exact ⟨c :: new, rfl, by simp [hc]⟩
    · rintro ⟨new, rfl, hnew⟩
      cases new with
      | nil => cases hnew
      | cons c' new =>
        -- the first character of the text is the one that the step reads
        obtain ⟨b', tail', hb', hseq'⟩ := sequence_utf8EncodeChar c'
        rw [List.flatMap_cons, hb', List.cons_append, List.cons.injEq] at hnew
        obtain ⟨rfl, hrest⟩ := hnew
        rw [hrest, step_sequence hseq'] at hstep
        injection hstep with hchar hused
        obtain ⟨-, rfl⟩ := List.append_inj hrest hused.symm
        exact ⟨new, by rw [hchar], rfl⟩
  | case3 at_ done b rest reason count hstep =>
    refine iff_of_false nofun ?_
    rintro ⟨new, -, hnew⟩
    cases new with
    | nil => cases hnew
    | cons c new =>
      obtain ⟨b', tail, hb, hseq⟩ := sequence_utf8EncodeChar c
      rw [List.flatMap_cons, hb, List.cons_append, List.cons.injEq] at hnew
      obtain ⟨rfl, rfl⟩ := hnew
      rw [step_sequence hseq] at hstep
      cases hstep

theorem decode_eq_ok {bytes : List UInt8} {cs : List Char} :
    decode bytes = .ok cs ↔ bytes = cs.flatMap String.utf8EncodeChar := by
  unfold decode
  rw [decodeFrom_eq_ok]
  simp

theorem toList_eq_data (bytes : ByteArray) : bytes.toList = bytes.data.toList := by
  have hloop : ∀ i r, ByteArray.toList.loop bytes i r = r.reverse ++ bytes.data.toList.drop i := by
    intro i r
    fun_induction ByteArray.toList.loop bytes i r with
    | case1 i r hi ih =>
      have hlt : i < bytes.data.toList.length := hi
      have hget : bytes.get! i = bytes.data.toList[i] := getElem!_pos bytes.data i hi
      rw [ih, List.reverse_cons, List.append_assoc, List.singleton_append, hget,
        List.getElem_cons_drop]
    | case2 i r hi =>
      have hle : bytes.data.toList.length ≤ i := Nat.le_of_not_lt hi
      rw [List.drop_of_length_le hle, List.append_nil]
  rw [ByteArray.toList, hloop]
  simp

/-- A file has the text `s` exactly if it holds the encoding of `s`. -/
theorem decode_toList_eq_ok {bytes : ByteArray} {s : String} :
    decode bytes.toList = .ok s.toList ↔ bytes = s.toUTF8 := by
  have hencoded : s.toUTF8 = (s.toList.flatMap String.utf8EncodeChar).toByteArray := by
    conv_lhs => rw [← String.ofList_toList (s := s)]
    rfl
  rw [decode_eq_ok, toList_eq_data, hencoded, ByteArray.ext_iff, List.data_toByteArray,
    ← Array.toList_inj]

/-! ## Behind a byte order mark -/

/-- The bytes are a byte order mark that breaks off. -/
def BreaksOff (bytes : ByteArray) : Prop :=
  bytes.toList = [0xEF] ∨ bytes.toList = [0xEF, 0xBB]

theorem exists_text {bytes : ByteArray} {P : List Char → Prop} :
    (∃ s : String, bytes = s.toUTF8 ∧ P s.toList) ↔
      ∃ text, decode bytes.toList = .ok text ∧ P text := by
  constructor
  · rintro ⟨s, hs, hp⟩
    exact ⟨s.toList, decode_toList_eq_ok.mpr hs, hp⟩
  · rintro ⟨text, htext, hp⟩
    refine ⟨String.ofList text, decode_toList_eq_ok.mp ?_, ?_⟩ <;> rwa [String.toList_ofList]

theorem decode_mark_one : decode [0xEF] = .error ⟨0xEF, 0, 0, .truncated⟩ := by cbv

theorem decode_mark_two : decode [0xEF, 0xBB] = .error ⟨0xEF, 0, 1, .truncated⟩ := by cbv

theorem not_breaksOff_toUTF8 (s : String) : ¬ BreaksOff s.toUTF8 := by
  have htext : decode s.toUTF8.toList = .ok s.toList := decode_toList_eq_ok.mpr rfl
  rintro (h | h) <;> rw [h] at htext
  · cases decode_mark_one.symm.trans htext
  · cases decode_mark_two.symm.trans htext

/-- **Behind a byte order mark** bytes have a text exactly if they encode it, with or without a mark
in front; a mark that breaks off has an empty one. -/
theorem decodeMarked_eq_ok {bytes : ByteArray} {cs : List Char} :
    decodeMarked bytes.toList = .ok cs ↔
      (∃ s : String, bytes = s.toUTF8 ∧ cs = Text.dropMark s.toList) ∨
        BreaksOff bytes ∧ cs = [] := by
  rw [exists_text (P := fun text => cs = Text.dropMark text)]
  unfold decodeMarked BreaksOff
  generalize bytes.toList = l
  have hnone : decode [] = .ok [] := by cbv
  have hwhole : decode mark = .ok ['\ufeff'] := decode_eq_ok.mpr rfl
  by_cases hprefix : l.isPrefixOf mark = true
  · rw [if_pos hprefix]
    have hparts : l = [] ∨ l = [0xEF] ∨ l = [0xEF, 0xBB] ∨ l = mark := by
      simp only [mark, List.isPrefixOf_iff_prefix, List.prefix_cons_iff, List.prefix_nil] at hprefix
      grind [mark]
    have hempty : (Except.ok [] : Except Fault (List Char)) = .ok cs ↔ cs = [] := by
      rw [Except.ok.injEq, eq_comm]
    rw [hempty]
    rcases hparts with rfl | rfl | rfl | rfl
    · simp [hnone, Text.dropMark]
    · simp [decode_mark_one]
    · simp [decode_mark_two]
    · have hlong : ¬ (mark = [0xEF] ∨ mark = [0xEF, 0xBB]) := by decide
      simp [hwhole, hlong, Text.dropMark]
  · rw [if_neg hprefix]
    have hoff : ¬ (l = [0xEF] ∨ l = [0xEF, 0xBB]) := by
      rintro (rfl | rfl) <;> exact hprefix rfl
    cases decode l with
    | error fault => simp [Except.map, hoff]
    | ok text => simp [Except.map, hoff, eq_comm]

end Compliance.Utf8
