/-
# The headers that are read are the canonical ones

`Rlp.frame` reads exactly what `Rlp.Frame.encode` writes, as long as the item ends at a 64-bit
offset: a header that could be shorter, a length with a zero in front and a single byte in a longer
form are all refused. One equivalence says so, `frame_eq_ok_iff`; nothing below unfolds the header
again.

Key definitions: `Rlp.Frame.encode`.
Key theorems: `Rlp.frame_eq_ok_iff`, `Rlp.opensList_encode`.
-/
import RelayLedger.Proofs.BigEndian
import RelayLedger.Proofs.Outcome
import RelayLedger.Rlp.Decode

namespace RelayLedger
namespace Rlp

/-- The bytes of a frame up to its end. -/
def Frame.encode (f : Frame) : Bytes :=
  if f.isList then header 0xc0 f.payload.length ++ f.payload else encodeString f.payload

/-! ### Writing a header -/

theorem header_of_lt {base length : Nat} (h : length < 56) :
    header base length = [UInt8.ofNat (base + length)] := if_pos h

theorem header_of_le {base length : Nat} (h : 56 ≤ length) :
    header base length =
      UInt8.ofNat (base + 55 + Bytes.width length) :: Bytes.minimal length :=
  if_neg (Nat.not_lt.mpr h)

theorem encodeString_of_shorter {s : Bytes} (h : hasShorterForm s = true) :
    ∃ b : UInt8, s = [b] ∧ b.toNat < 0x80 ∧ encodeString s = [b] := by
  match s, h with
  | [b], h =>
    have hb : b < 0x80 := by simpa [hasShorterForm] using h
    exact ⟨b, rfl, by simpa [UInt8.lt_iff_toNat_lt] using hb, if_pos hb⟩

theorem encodeString_of_not_shorter {s : Bytes} (h : hasShorterForm s = false) :
    encodeString s = header 0x80 s.length ++ s := by
  match s, h with
  | [], _ => rfl
  | [b], h =>
    have hb : ¬ b < 0x80 := by simpa [hasShorterForm] using h
    exact if_neg hb
  | _ :: _ :: _, _ => rfl

/-- A length of 64 bits is spelled in eight bytes or less. -/
theorem width_le_eight {n : Nat} (h : n < Word.bound 64) : Bytes.width n ≤ 8 :=
  Bytes.width_le_iff.mpr h

/-! ### Cutting -/

theorem cut_eq_ok_iff {input p r : Bytes} {offset length : Nat} :
    cut input offset length = .ok (p, r) ↔
      offset + length < Word.bound 64 ∧ p.length = length ∧
        ∃ a : Bytes, a.length = offset ∧ input = a ++ (p ++ r) := by
  unfold cut
  constructor
  · intro h
    split at h
    · cases h
    · split at h
      next hend hle =>
        cases h
        refine ⟨by omega, by rw [List.length_take, List.length_drop]; omega,
          input.take offset, by rw [List.length_take]; omega, ?_⟩
        rw [← List.drop_drop, List.take_append_drop, List.take_append_drop]
      · cases h
  · rintro ⟨hend, rfl, a, rfl, rfl⟩
    rw [if_neg (by omega), if_pos (by simp only [List.length_append]; omega), List.drop_left,
      List.take_left, ← List.drop_drop, List.drop_left, List.drop_left]

theorem frameCut_eq_ok_iff {isList : Bool} {input : Bytes} {offset length : Nat} {f : Frame} :
    Frame.cut isList input offset length = .ok f ↔
      f.isList = isList ∧ offset + length < Word.bound 64 ∧ f.payload.length = length ∧
        ∃ a : Bytes, a.length = offset ∧ input = a ++ (f.payload ++ f.rest) := by
  unfold Frame.cut
  simp only [bind_eq_ok_iff, Prod.exists, cut_eq_ok_iff, pure_eq_ok, Except.ok.injEq]
  constructor
  · rintro ⟨p, r, h, rfl⟩
    exact ⟨rfl, h⟩
  · rintro ⟨rfl, h⟩
    exact ⟨f.payload, f.rest, h, rfl⟩

/-- The length behind a first byte is its shortest spelling, and not one that fits into that
byte. -/
theorem longLength_eq_ok_iff {b : UInt8} {rest : Bytes} {count n : Nat} (hc : count ≤ 8) :
    longLength (b :: rest) count = .ok n ↔
      56 ≤ n ∧ Bytes.width n = count ∧ ∃ r, rest = Bytes.minimal n ++ r := by
  have hbound : 1 + count < Word.bound 64 := by rw [Word.bound_sixtyFour]; omega
  unfold longLength
  simp only [bind_eq_ok_iff, Prod.exists, cut_eq_ok_iff]
  constructor
  · rintro ⟨d, r, ⟨-, hd, a, ha, hinput⟩, h⟩
    obtain ⟨c, rfl⟩ := List.length_eq_one_iff.mp ha
    simp only [List.singleton_append, List.cons.injEq] at hinput
    split at h
    · cases h
    next hzero =>
      split at h
      · cases h
      next h56 =>
        cases h
        refine ⟨by omega, by rw [Bytes.width_toNat hzero, hd], r, ?_⟩
        rw [hinput.2, ← Bytes.eq_minimal_iff.mpr ⟨hzero, rfl⟩]
  · rintro ⟨h56, rfl, r, rfl⟩
    refine ⟨Bytes.minimal n, r, ⟨hbound, Bytes.length_minimal n, [b], rfl, rfl⟩, ?_⟩
    rw [if_neg (Bytes.head?_minimal n), Bytes.toNat_minimal, if_neg (by omega)]

/-! ### The header of an item -/

/-- The short form: the length in the first byte. -/
theorem shortFrame_eq_ok_iff {isList : Bool} {b : UInt8} {rest : Bytes} {n : Nat} {f : Frame}
    (hn : n < 56) :
    Frame.cut isList (b :: rest) 1 n = .ok f ↔
      f.isList = isList ∧ f.payload.length = n ∧ rest = f.payload ++ f.rest := by
  rw [frameCut_eq_ok_iff]
  constructor
  · rintro ⟨hl, -, hp, a, ha, hinput⟩
    obtain ⟨c, rfl⟩ := List.length_eq_one_iff.mp ha
    simp only [List.singleton_append, List.cons.injEq] at hinput
    exact ⟨hl, hp, hinput.2⟩
  · rintro ⟨hl, hp, rfl⟩
    exact ⟨hl, by rw [Word.bound_sixtyFour]; omega, hp, [b], rfl, rfl⟩

/-- The long form: the length of the length in the first byte. -/
theorem longFrame_eq_ok_iff {isList : Bool} {b : UInt8} {rest : Bytes} {count : Nat} {f : Frame}
    (hc : count ≤ 8) :
    (do let length ← longLength (b :: rest) count
        Frame.cut isList (b :: rest) (1 + count) length) = .ok f ↔
      f.isList = isList ∧ 56 ≤ f.payload.length ∧ Bytes.width f.payload.length = count ∧
        1 + count + f.payload.length < Word.bound 64 ∧
        rest = Bytes.minimal f.payload.length ++ (f.payload ++ f.rest) := by
  simp only [bind_eq_ok_iff, longLength_eq_ok_iff hc, frameCut_eq_ok_iff]
  constructor
  · rintro ⟨n, ⟨h56, hw, r, rfl⟩, hl, hend, rfl, a, ha, hinput⟩
    refine ⟨hl, h56, hw, hend, ?_⟩
    have hlen : (b :: Bytes.minimal f.payload.length).length = a.length := by
      rw [List.length_cons, Bytes.length_minimal]; omega
    rw [← List.cons_append] at hinput
    rw [(List.append_inj hinput hlen).2]
  · rintro ⟨hl, h56, hw, hend, rfl⟩
    refine ⟨f.payload.length, ⟨h56, hw, _, rfl⟩, hl, hend, rfl,
      b :: Bytes.minimal f.payload.length, ?_, rfl⟩
    rw [List.length_cons, Bytes.length_minimal]
    omega

/-! ### The three forms of an item -/

/-- The number that first bytes of strings, or of lists, start from. -/
def Frame.base (f : Frame) : Nat := if f.isList then 0xc0 else 0x80

theorem Frame.encode_of_single {f : Frame} {b : UInt8} (hl : f.isList = false)
    (hp : f.payload = [b]) (hb : b.toNat < 0x80) : f.encode = [b] := by
  have hlt : b < 0x80 := by simpa [UInt8.lt_iff_toNat_lt] using hb
  rw [encode, hl, hp, if_neg Bool.false_ne_true]
  exact if_pos hlt

theorem Frame.encode_of_header {f : Frame} (h : f.isList = false → hasShorterForm f.payload = false) :
    f.encode = header f.base f.payload.length ++ f.payload := by
  unfold encode base
  cases hl : f.isList with
  | true => rfl
  | false => exact encodeString_of_not_shorter (h hl)

theorem Frame.encode_of_lt {f : Frame} (h : f.isList = false → hasShorterForm f.payload = false)
    (hlen : f.payload.length < 56) :
    f.encode = UInt8.ofNat (f.base + f.payload.length) :: f.payload := by
  rw [encode_of_header h, header_of_lt hlen, List.singleton_append]

theorem Frame.encode_of_le {f : Frame} (hlen : 56 ≤ f.payload.length) :
    f.encode = UInt8.ofNat (f.base + 55 + Bytes.width f.payload.length) ::
      (Bytes.minimal f.payload.length ++ f.payload) := by
  have h : hasShorterForm f.payload = false := by
    match f.payload, hlen with
    | [b], hlen => simp at hlen
    | _ :: _ :: _, _ => rfl
  rw [encode_of_header fun _ => h, header_of_le hlen, List.cons_append]

/-- Every frame is a byte alone, or has a short header, or a long one. -/
theorem Frame.forms (f : Frame) :
    (∃ b : UInt8, f.isList = false ∧ f.payload = [b] ∧ b.toNat < 0x80) ∨
      ((f.isList = false → hasShorterForm f.payload = false) ∧ f.payload.length < 56) ∨
      56 ≤ f.payload.length := by
  by_cases hlen : 56 ≤ f.payload.length
  · exact .inr (.inr hlen)
  · by_cases hs : f.isList = false ∧ hasShorterForm f.payload = true
    · obtain ⟨b, hp, hb, -⟩ := encodeString_of_shorter hs.2
      exact .inl ⟨b, hs.1, hp, hb⟩
    · refine .inr (.inl ⟨fun hl => ?_, by omega⟩)
      simpa [hl] using hs

theorem Frame.base_eq (f : Frame) : (f.isList = true ∧ f.base = 0xc0) ∨
    (f.isList = false ∧ f.base = 0x80) := by
  unfold base
  cases f.isList <;> simp

/-- A header that goes with a 64-bit end fits into its first byte. -/
theorem Frame.width_le {f : Frame} (hlen : 56 ≤ f.payload.length)
    (h : f.encode.length < Word.bound 64) :
    Bytes.width f.payload.length ≤ 8 ∧
      1 + Bytes.width f.payload.length + f.payload.length < Word.bound 64 := by
  rw [encode_of_le hlen, List.length_cons, List.length_append, Bytes.length_minimal] at h
  exact ⟨width_le_eight (by omega), by omega⟩

theorem toNat_ofNat_of_lt {n : Nat} (h : n < 256) : (UInt8.ofNat n).toNat = n :=
  UInt8.toNat_ofNat_of_lt' h

theorem ofNat_toNat_eq {b : UInt8} {n : Nat} (h : b.toNat = n) : UInt8.ofNat n = b := by
  rw [← h, UInt8.ofNat_toNat]

theorem width_pos {n : Nat} (h : 56 ≤ n) : 1 ≤ Bytes.width n := by
  unfold Bytes.width
  rw [if_neg (by omega)]
  omega

theorem opensList_cons {b : UInt8} {rest : Bytes} :
    opensList (b :: rest) = true ↔ 0xc0 ≤ b.toNat := by
  rw [opensList, decide_eq_true_eq, UInt8.le_iff_toNat_le]
  rfl

/-- The first byte of an item tells whether it is a list. -/
theorem opensList_encode {f : Frame} (h : f.encode.length < Word.bound 64) (rest : Bytes) :
    opensList (f.encode ++ rest) = f.isList := by
  have hopens : ∀ (n : Nat) (s : Bytes), n < 256 →
      opensList (UInt8.ofNat n :: s) = decide (0xc0 ≤ n) := by
    intro n s hn
    simp only [opensList, UInt8.le_iff_toNat_le, toNat_ofNat_of_lt hn]
    rfl
  rcases f.forms with ⟨b, hl, hp, hb⟩ | ⟨hs, hlen⟩ | hlen
  · rw [Frame.encode_of_single hl hp hb, hl, List.singleton_append, ← UInt8.ofNat_toNat (x := b),
      hopens _ _ (by omega)]
    simpa using hb.trans (by decide)
  · rw [Frame.encode_of_lt hs hlen, List.cons_append]
    rcases f.base_eq with ⟨hl, hb⟩ | ⟨hl, hb⟩ <;> rw [hl, hb, hopens _ _ (by omega)]
    · exact decide_eq_true (by omega)
    · exact decide_eq_false (by omega)
  · obtain ⟨hw, -⟩ := Frame.width_le hlen h
    rw [Frame.encode_of_le hlen, List.cons_append]
    rcases f.base_eq with ⟨hl, hb⟩ | ⟨hl, hb⟩ <;> rw [hl, hb, hopens _ _ (by omega)]
    · exact decide_eq_true (by omega)
    · exact decide_eq_false (by omega)

theorem encode_of_frame {input : Bytes} {f : Frame} (h : frame input = .ok f) :
    input = f.encode ++ f.rest ∧ f.encode.length < Word.bound 64 := by
  match input with
  | [] => cases h
  | b :: rest =>
    have hb256 : b.toNat < 256 := b.toNat_lt
    unfold frame at h
    simp only at h
    split at h
    next hb =>
      cases h
      rw [Frame.encode_of_single rfl rfl hb]
      exact ⟨rfl, by rw [List.length_singleton, Word.bound_sixtyFour]; omega⟩
    next hb80 =>
    have short : (f.isList = false → hasShorterForm f.payload = false) → f.payload.length < 56 →
        b.toNat = f.base + f.payload.length → rest = f.payload ++ f.rest →
        b :: rest = f.encode ++ f.rest ∧ f.encode.length < Word.bound 64 := by
      rintro hs hlen hb rfl
      rw [Frame.encode_of_lt hs hlen, ofNat_toNat_eq hb]
      exact ⟨rfl, by rw [List.length_cons, Word.bound_sixtyFour]; omega⟩
    have long : 56 ≤ f.payload.length → b.toNat = f.base + 55 + Bytes.width f.payload.length →
        1 + Bytes.width f.payload.length + f.payload.length < Word.bound 64 →
        rest = Bytes.minimal f.payload.length ++ (f.payload ++ f.rest) →
        b :: rest = f.encode ++ f.rest ∧ f.encode.length < Word.bound 64 := by
      rintro hlen hb hend rfl
      rw [Frame.encode_of_le hlen, ofNat_toNat_eq hb, List.length_cons, List.length_append,
        Bytes.length_minimal]
      exact ⟨by rw [List.cons_append, List.append_assoc], by omega⟩
    split at h
    next hb =>
      obtain ⟨f', hcut, h⟩ := bind_eq_ok_iff.mp h
      split at h
      · cases h
      next hshorter =>
        cases h
        obtain ⟨hl, hlen, hrest⟩ := (shortFrame_eq_ok_iff (by omega)).mp hcut
        refine short (fun _ => by simpa using hshorter) (by omega) ?_ hrest
        rw [Frame.base, hl, if_neg Bool.false_ne_true]
        omega
    next hbb8 =>
    split at h
    next hb =>
      obtain ⟨hl, hlen, hw, hend, hrest⟩ := (longFrame_eq_ok_iff (by omega)).mp h
      refine long hlen ?_ (by omega) hrest
      rw [Frame.base, hl, if_neg Bool.false_ne_true]
      omega
    next hbc0 =>
    split at h
    next hb =>
      obtain ⟨hl, hlen, hrest⟩ := (shortFrame_eq_ok_iff (by omega)).mp h
      refine short (fun hf => by rw [hl] at hf; cases hf) (by omega) ?_ hrest
      rw [Frame.base, hl, if_pos rfl]
      omega
    next hbf8 =>
      obtain ⟨hl, hlen, hw, hend, hrest⟩ := (longFrame_eq_ok_iff (by omega)).mp h
      refine long hlen ?_ (by omega) hrest
      rw [Frame.base, hl, if_pos rfl]
      omega

theorem frame_encode {f : Frame} (h : f.encode.length < Word.bound 64) :
    frame (f.encode ++ f.rest) = .ok f := by
  rcases f.forms with ⟨b, hl, hp, hb⟩ | ⟨hs, hlen⟩ | hlen
  · rw [Frame.encode_of_single hl hp hb, List.singleton_append]
    unfold frame
    simp only
    rw [if_pos hb, ← hp, ← hl]
  · have hb := toNat_ofNat_of_lt (n := f.base + f.payload.length)
      (by rcases f.base_eq with h | h <;> omega)
    rw [Frame.encode_of_lt hs hlen, List.cons_append]
    unfold frame
    simp only
    rw [hb]
    rcases f.base_eq with ⟨hl, hbase⟩ | ⟨hl, hbase⟩
    · rw [if_neg (by omega), if_neg (by omega), if_neg (by omega), if_pos (by omega)]
      exact (shortFrame_eq_ok_iff (by omega)).mpr ⟨hl, by omega, rfl⟩
    · rw [if_neg (by omega), if_pos (by omega)]
      refine bind_eq_ok_iff.mpr ⟨f, (shortFrame_eq_ok_iff (by omega)).mpr ⟨hl, by omega, rfl⟩, ?_⟩
      rw [hs hl, if_neg Bool.false_ne_true]
  · obtain ⟨hw, hend⟩ := Frame.width_le hlen h
    have hw1 := width_pos hlen
    have hb := toNat_ofNat_of_lt (n := f.base + 55 + Bytes.width f.payload.length)
      (by rcases f.base_eq with h | h <;> omega)
    rw [Frame.encode_of_le hlen, List.cons_append]
    unfold frame
    simp only
    rw [hb]
    rcases f.base_eq with ⟨hl, hbase⟩ | ⟨hl, hbase⟩
    · rw [if_neg (by omega), if_neg (by omega), if_neg (by omega), if_neg (by omega)]
      refine (longFrame_eq_ok_iff (by omega)).mpr ⟨hl, hlen, by omega, by omega, ?_⟩
      rw [List.append_assoc]
    · rw [if_neg (by omega), if_neg (by omega), if_pos (by omega)]
      refine (longFrame_eq_ok_iff (by omega)).mpr ⟨hl, hlen, by omega, by omega, ?_⟩
      rw [List.append_assoc]

/-- Reading a header and writing one are inverse. -/
theorem frame_eq_ok_iff {input : Bytes} {f : Frame} :
    frame input = .ok f ↔ input = f.encode ++ f.rest ∧ f.encode.length < Word.bound 64 :=
  ⟨encode_of_frame, fun ⟨hinput, h⟩ => hinput ▸ frame_encode h⟩

end Rlp
end RelayLedger
