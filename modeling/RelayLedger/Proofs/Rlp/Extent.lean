/-
# Items that are cut short, and items with something behind them

The first byte of an item announces how many bytes of length follow it, and these where the item
ends. Both are asked for before anything inside the item is read: bytes that stop in the header are
told how long the header should have been, and bytes that stop behind it how long the item. So what
is missing of an item is known from its header alone, whatever the item is; what stands behind an
item is counted; and no item begins with another.

Key definitions: `Rlp.lengthBytes`, `Rlp.headerLength`.
Key theorems: `Rlp.frame_cut_short`, `Rlp.readItem_cut_short`, `Rlp.decode_extent`.
-/
import RelayLedger.Proofs.Rlp.Canonical

namespace RelayLedger
namespace Rlp

/-- How many bytes of length a first byte announces. -/
def lengthBytes (b : UInt8) : Nat :=
  if b.toNat < 0xb8 then 0
  else if b.toNat < 0xc0 then b.toNat - 0xb7
  else if b.toNat < 0xf8 then 0
  else b.toNat - 0xf7

/-- How long the header of an item is that starts like these bytes. -/
def headerLength : Bytes → Nat
  | [] => 0
  | b :: _ => 1 + lengthBytes b

/-! ### Payloads that are not there -/

variable {input rest : Bytes} {isList : Bool} {offset length count : Nat} {b : UInt8}

theorem cut_of_short (hshort : input.length < offset + length)
    (hend : offset + length < Word.bound 64) :
    cut input offset length = .error (.truncated (offset + length) input.length) := by
  rw [cut, if_neg (Nat.not_le.mpr hend), if_neg (Nat.not_le.mpr hshort)]

theorem frameCut_of_short (hshort : input.length < offset + length)
    (hend : offset + length < Word.bound 64) :
    Frame.cut isList input offset length =
      .error (.truncated (offset + length) input.length) := by
  rw [Frame.cut, cut_of_short hshort hend, error_bind]

/-- The long form, cut short in its length or behind it. -/
theorem longFrame_of_short (hcount : count ≤ 8) (hlen : 56 ≤ length)
    (hwidth : Bytes.width length = count) (hend : 1 + count + length < Word.bound 64)
    {payload missing : Bytes} (hrest : Bytes.minimal length ++ payload = rest ++ missing)
    (hpayload : payload.length = length) (hmissing : missing ≠ []) :
    (do let length ← longLength (b :: rest) count
        Frame.cut isList (b :: rest) (1 + count) length) =
      .error (.truncated (if rest.length < count then 1 + count else 1 + count + length)
        (rest.length + 1)) := by
  have hsize : (Bytes.minimal length).length = count := by rw [Bytes.length_minimal, hwidth]
  by_cases hstop : rest.length < count
  · have hcut : cut (b :: rest) 1 count = .error (.truncated (1 + count) (rest.length + 1)) :=
      cut_of_short (by rw [List.length_cons]; omega) (by omega)
    rw [longLength, hcut, if_pos hstop, error_bind, error_bind]
  · -- the length is all there, so it is read as if nothing were missing
    obtain ⟨more, hmore⟩ : ∃ more, rest = Bytes.minimal length ++ more := by
      have hprefix : Bytes.minimal length <+: rest :=
        List.prefix_of_prefix_length_le ⟨payload, hrest⟩ ⟨missing, rfl⟩ (by omega)
      obtain ⟨more, hmore⟩ := hprefix
      exact ⟨more, hmore.symm⟩
    have hlong : longLength (b :: rest) count = .ok length :=
      (longLength_eq_ok_iff hcount).mpr ⟨hlen, hwidth, more, hmore⟩
    have hshort : (b :: rest).length < 1 + count + length := by
      have htotal := congrArg List.length hrest
      have := List.length_pos_iff.mpr hmissing
      rw [List.length_append, List.length_append, hsize, hpayload] at htotal
      rw [List.length_cons]
      omega
    rw [hlong, ok_bind, frameCut_of_short hshort hend, if_neg hstop, List.length_cons]

/-! ### First bytes -/

variable {f : Frame} {fault : Fault}

theorem lengthBytes_of_short (hb : b.toNat = f.base + length) (hlen : length < 56) :
    lengthBytes b = 0 := by
  rw [lengthBytes, hb]
  rcases f.base_eq with ⟨-, hbase⟩ | ⟨-, hbase⟩
  · rw [if_neg (by omega), if_neg (by omega), if_pos (by omega)]
  · rw [if_pos (by omega)]

theorem lengthBytes_of_long (hb : b.toNat = f.base + 55 + count) (hcount : 1 ≤ count)
    (hcount' : count ≤ 8) : lengthBytes b = count := by
  rw [lengthBytes, hb]
  rcases f.base_eq with ⟨-, hbase⟩ | ⟨-, hbase⟩
  · rw [if_neg (by omega), if_neg (by omega), if_neg (by omega)]
    omega
  · rw [if_neg (by omega), if_pos (by omega)]
    omega

/-- What is wrong with the payload of a short header is wrong with the item. -/
theorem frame_of_short (hb : b.toNat = f.base + length) (hlen : length < 56)
    (hcut : Frame.cut f.isList (b :: rest) 1 length = .error fault) :
    frame (b :: rest) = .error fault := by
  unfold frame
  simp only
  rw [hb]
  rcases f.base_eq with ⟨hl, hbase⟩ | ⟨hl, hbase⟩
  · have hn : f.base + length - 0xc0 = length := by omega
    rw [if_neg (by omega), if_neg (by omega), if_neg (by omega), if_pos (by omega), hn, ← hl, hcut]
  · have hn : f.base + length - 0x80 = length := by omega
    rw [if_neg (by omega), if_pos (by omega), hn, ← hl, hcut, error_bind]

theorem frame_of_long (hb : b.toNat = f.base + 55 + count) (hcount : 1 ≤ count)
    (hcount' : count ≤ 8) :
    frame (b :: rest) =
      (do let length ← longLength (b :: rest) count
          Frame.cut f.isList (b :: rest) (1 + count) length) := by
  unfold frame
  simp only
  rw [hb]
  rcases f.base_eq with ⟨hl, hbase⟩ | ⟨hl, hbase⟩
  · have hn : f.base + 55 + count - 0xf7 = count := by omega
    rw [if_neg (by omega), if_neg (by omega), if_neg (by omega), if_neg (by omega), hn, hl]
  · have hn : f.base + 55 + count - 0xb7 = count := by omega
    rw [if_neg (by omega), if_neg (by omega), if_pos (by omega), hn, hl]

/-! ### Items cut short -/

/-- The header of an item that is cut short tells how many bytes are needed. -/
theorem frame_cut_short (hbound : f.encode.length < Word.bound 64) {missing : Bytes}
    (hcut : f.encode = b :: rest ++ missing) (hmissing : missing ≠ []) :
    frame (b :: rest) = .error (.truncated
      (if rest.length < lengthBytes b then 1 + lengthBytes b else f.encode.length)
      (rest.length + 1)) := by
  have hpos := List.length_pos_iff.mpr hmissing
  have htotal : f.encode.length = rest.length + 1 + missing.length := by
    rw [hcut, List.length_append, List.length_cons]
  rcases f.forms with ⟨c, hl, hp, hc⟩ | ⟨hs, hlen⟩ | hlen
  · -- nothing of a single byte can be missing
    rw [Frame.encode_of_single hl hp hc, List.length_singleton] at htotal
    omega
  · have hb := toNat_ofNat_of_lt (n := f.base + f.payload.length)
      (by rcases f.base_eq with h | h <;> omega)
    have hsize : f.encode.length = 1 + f.payload.length := by
      rw [Frame.encode_of_lt hs hlen, List.length_cons, Nat.add_comm]
    rw [Frame.encode_of_lt hs hlen, List.cons_append, List.cons.injEq] at hcut
    obtain ⟨rfl, -⟩ := hcut
    rw [lengthBytes_of_short hb hlen, if_neg (Nat.not_lt_zero _), hsize]
    refine frame_of_short hb hlen (frameCut_of_short ?_ (by omega))
    rw [List.length_cons]
    omega
  · obtain ⟨hwidth, hend⟩ := Frame.width_le hlen hbound
    have hb := toNat_ofNat_of_lt (n := f.base + 55 + Bytes.width f.payload.length)
      (by rcases f.base_eq with h | h <;> omega)
    have hsize : f.encode.length = 1 + Bytes.width f.payload.length + f.payload.length := by
      rw [Frame.encode_of_le hlen, List.length_cons, List.length_append, Bytes.length_minimal]
      omega
    rw [Frame.encode_of_le hlen, List.cons_append, List.cons.injEq] at hcut
    obtain ⟨rfl, hrest⟩ := hcut
    rw [lengthBytes_of_long hb (width_pos hlen) hwidth, hsize,
      frame_of_long hb (width_pos hlen) hwidth]
    exact longFrame_of_short hwidth hlen rfl hend hrest rfl hmissing

/-- An item that is cut short is refused for its header, before anything inside it is read. -/
theorem readItem_cut_short {t : Item} (hbound : t.encode.length < Word.bound 64)
    {missing : Bytes} (hcut : t.encode = b :: rest ++ missing) (hmissing : missing ≠ [])
    (room : Nat) :
    readItem (room + 1) (b :: rest) = .error (.truncated
      (if rest.length < lengthBytes b then 1 + lengthBytes b else t.encode.length)
      (rest.length + 1)) := by
  rw [← encode_frame [] t] at hbound hcut ⊢
  rw [readItem, frame_cut_short hbound hcut hmissing, error_bind]

/-! ### One item and nothing else -/

theorem decode_append {w rest : Bytes} {t : Item} {n : Nat} (h : decode w = .ok (t, n))
    (hrest : rest ≠ []) : decode (w ++ rest) = .error (.trailingBytes rest.length) := by
  obtain ⟨rfl, -, hbound, hdepth⟩ := decode_eq_ok_iff.mp h
  have hempty : rest.isEmpty = false := by simpa using hrest
  rw [decode, readItem_encode t maxDepth rest hbound, if_pos hdepth, ok_bind]
  simp only
  rw [hempty, if_neg Bool.false_ne_true]

theorem decode_cut_short {w p missing : Bytes} {t : Item} {n : Nat} (h : decode w = .ok (t, n))
    (hcut : w = p ++ missing) (hmissing : missing ≠ []) :
    decode p = .error (if p = [] then .empty
      else .truncated (if p.length < headerLength p then headerLength p else w.length)
        p.length) := by
  obtain ⟨hw, -, hbound, -⟩ := decode_eq_ok_iff.mp h
  cases p with
  | nil => rfl
  | cons b rest =>
    rw [hw] at hcut ⊢
    have hread := readItem_cut_short hbound hcut hmissing 15
    have hheader : rest.length + 1 < 1 + lengthBytes b ↔ rest.length < lengthBytes b := by omega
    rw [decode, maxDepth, hread, error_bind, if_neg (List.cons_ne_nil b rest)]
    simp only [headerLength, List.length_cons, hheader]

/-- What stands behind an item is told by its number of bytes. Of an item that is cut short it is
told how long the bytes that are there should be: as long as the header that the first of them
announces, and once the header is complete as long as the item. So no item begins with another. -/
theorem decode_extent {w : Bytes} {t : Item} {n : Nat} (h : decode w = .ok (t, n)) :
    (∀ s : Bytes, s ≠ [] → decode (w ++ s) = .error (.trailingBytes s.length)) ∧
    (∀ p missing : Bytes, w = p ++ missing → missing ≠ [] →
      decode p = .error (if p = [] then .empty
        else .truncated (if p.length < headerLength p then headerLength p else w.length)
          p.length)) ∧
    (∀ (v : Bytes) (u : Item) (m : Nat), decode v = .ok (u, m) → v <+: w → v = w) := by
  refine ⟨fun s hs => decode_append h hs, fun p missing hcut => decode_cut_short h hcut, ?_⟩
  rintro v u m hv ⟨s, rfl⟩
  by_cases hs : s = []
  · rw [hs, List.append_nil]
  · cases (decode_append hv hs).symm.trans h

/-- A string of 56 bytes: cut short in its header, cut short behind it, and with two bytes too
many. -/
theorem decode_extent_long :
    decode (0xb8 :: 56 :: List.replicate 56 7) = .ok (.str (List.replicate 56 7), 58) ∧
    decode [0xb8] = .error (.truncated 2 1) ∧
    decode (0xb8 :: 56 :: List.replicate 55 7) = .error (.truncated 58 57) ∧
    decode (0xb8 :: 56 :: List.replicate 56 7 ++ [1, 2]) = .error (.trailingBytes 2) := by
  have hread : decode (0xb8 :: 56 :: List.replicate 56 7) = .ok (.str (List.replicate 56 7), 58) :=
    decode_eq_ok_iff.mpr ⟨by decide +kernel, rfl, by decide +kernel, by decide +kernel⟩
  obtain ⟨hbehind, hcut, -⟩ := decode_extent hread
  exact ⟨hread, hcut [0xb8] (56 :: List.replicate 56 7) rfl (List.cons_ne_nil _ _),
    hcut (0xb8 :: 56 :: List.replicate 55 7) [7] rfl (List.cons_ne_nil _ _),
    hbehind [1, 2] (List.cons_ne_nil _ _)⟩

end Rlp
end RelayLedger
