/-
# The items that are read are the canonical ones

`Rlp.decode` and `Item.encode` undo each other on every item that fits into 64-bit offsets and is
nested at most `Rlp.maxDepth` deep; an item nested deeper is refused for that and for nothing else.
Writing is followed by induction on the item (`readItem_encode`), reading by induction on the levels
left (`encode_of_readItem`); `readItem_eq_ok_iff` is both.

Key definitions: `Rlp.Item.frame`.
Key theorems: `Rlp.readItem_eq_ok_iff`, `Rlp.decode_eq_ok_iff`, `Rlp.decode_canonical`.
-/
import RelayLedger.Proofs.Rlp.Frame

namespace RelayLedger
namespace Rlp

/-- The frame of an item with other bytes behind it. -/
def Item.frame (rest : Bytes) : Item → Frame
  | .str s => ⟨false, s, rest⟩
  | .list items => ⟨true, encodeAll items, rest⟩

theorem encode_frame (rest : Bytes) : ∀ t : Item, (t.frame rest).encode = t.encode
  | .str s => by rw [Item.frame, Item.encode, Frame.encode, if_neg Bool.false_ne_true]
  | .list items => by rw [Item.frame, Item.encode, Frame.encode, if_pos rfl]

theorem rest_frame (rest : Bytes) : ∀ t : Item, (t.frame rest).rest = rest
  | .str _ => rfl
  | .list _ => rfl

theorem depth_str (s : Bytes) : (Item.str s).depth = 0 := by rw [Item.depth]

theorem depth_list (items : List Item) : (Item.list items).depth = depthAll items + 1 := by
  rw [Item.depth]

theorem depthAll_nil : depthAll [] = 0 := by rw [depthAll]

theorem depthAll_cons (t : Item) (items : List Item) :
    depthAll (t :: items) = max t.depth (depthAll items) := by rw [depthAll]

theorem encode_ne_nil (t : Item) : t.encode ≠ [] := by
  rw [← encode_frame [] t]
  rcases (t.frame []).forms with ⟨b, hl, hp, hb⟩ | ⟨hs, hlen⟩ | hlen
  · simp [Frame.encode_of_single hl hp hb]
  · simp [Frame.encode_of_lt hs hlen]
  · simp [Frame.encode_of_le hlen]

theorem length_le_encodeAll : ∀ items : List Item, items.length ≤ (encodeAll items).length
  | [] => Nat.zero_le _
  | t :: items => by
    have ht := List.length_pos_iff.mpr (encode_ne_nil t)
    have := length_le_encodeAll items
    rw [encodeAll, List.length_append, List.length_cons]
    omega

theorem length_encodeAll_lt {items : List Item} {n : Nat} (h : (Item.list items).encode.length < n) :
    (encodeAll items).length < n := by
  rw [Item.encode, List.length_append] at h
  omega

/-- The header of what is written, read. -/
theorem frame_encode_append {t : Item} (h : t.encode.length < Word.bound 64) (rest : Bytes) :
    Rlp.frame (t.encode ++ rest) = .ok (t.frame rest) := by
  rw [frame_eq_ok_iff, encode_frame, rest_frame]
  exact ⟨rfl, h⟩

theorem opensList_encode_append {t : Item} (h : t.encode.length < Word.bound 64) (rest : Bytes) :
    opensList (t.encode ++ rest) = (t.frame rest).isList := by
  rw [← encode_frame rest t] at h ⊢
  exact opensList_encode h rest

theorem readAll_cons {read : Bytes → Except Fault (Item × Bytes)} {s : Bytes} (h : s ≠ [])
    (fuel : Nat) :
    readAll read (fuel + 1) s =
      (do let (item, rest) ← read s
          let items ← readAll read fuel rest
          return item :: items) := by
  match s, h with
  | _ :: _, _ => rfl

/-! ### What is written is read -/

mutual

/-- An item is read back if its lists are not nested too deeply, and that is the only reason why it
may not be. -/
theorem readItem_encode : ∀ (t : Item) (room : Nat) (rest : Bytes),
    t.encode.length < Word.bound 64 →
    readItem room (t.encode ++ rest) =
      if t.depth ≤ room then .ok (t, rest) else .error .tooDeep
  | .str s, 0, rest, h => by
    rw [readItem, opensList_encode_append h, frame_encode_append h, depth_str,
      if_pos (Nat.zero_le 0)]
    rfl
  | .str s, room + 1, rest, h => by
    rw [readItem, frame_encode_append h, depth_str, if_pos (Nat.zero_le (room + 1))]
    rfl
  | .list items, 0, rest, h => by
    rw [readItem, opensList_encode_append h, depth_list,
      if_neg (Nat.not_succ_le_zero (depthAll items))]
    rfl
  | .list items, room + 1, rest, h => by
    have hread := readAll_encodeAll items room _ (length_encodeAll_lt h) (length_le_encodeAll items)
    rw [readItem, frame_encode_append h, ok_bind, Item.frame, if_pos rfl, hread, depth_list]
    by_cases hd : depthAll items ≤ room
    · rw [if_pos hd, if_pos (by omega)]
      rfl
    · rw [if_neg hd, if_neg (by omega)]
      rfl

theorem readAll_encodeAll : ∀ (items : List Item) (room fuel : Nat),
    (encodeAll items).length < Word.bound 64 → items.length ≤ fuel →
    readAll (readItem room) fuel (encodeAll items) =
      if depthAll items ≤ room then .ok items else .error .tooDeep
  | [], room, fuel, _, _ => by
    rw [encodeAll, readAll, depthAll_nil, if_pos (Nat.zero_le room)]
  | t :: items, room, 0, _, hf => by simp at hf
  | t :: items, room, fuel + 1, h, hf => by
    rw [encodeAll, List.length_append] at h
    have ht := readItem_encode t room (encodeAll items) (by omega)
    have hall := readAll_encodeAll items room fuel (by omega) (by simpa using hf)
    have hne := List.append_ne_nil_of_left_ne_nil (encode_ne_nil t) (encodeAll items)
    rw [encodeAll, readAll_cons hne, ht, depthAll_cons]
    by_cases hd : t.depth ≤ room
    · rw [if_pos hd, ok_bind]
      simp only
      rw [hall]
      by_cases hds : depthAll items ≤ room
      · rw [if_pos hds, if_pos (Nat.max_le.mpr ⟨hd, hds⟩)]
        rfl
      · rw [if_neg hds, if_neg fun h => hds (Nat.max_le.mp h).2]
        rfl
    · rw [if_neg hd, if_neg fun h => hd (Nat.max_le.mp h).1]
      rfl

end

/-! ### What is read was written -/

/-- What a reader of items may answer: an item whose encoding stands in front. -/
def ReadsCanonical (room : Nat) (read : Bytes → Except Fault (Item × Bytes)) : Prop :=
  ∀ {input rest : Bytes} {t : Item}, read input = .ok (t, rest) →
    input = t.encode ++ rest ∧ t.encode.length < Word.bound 64 ∧ t.depth ≤ room

theorem encodeAll_of_readAll {room : Nat} {read : Bytes → Except Fault (Item × Bytes)}
    (hread : ReadsCanonical room read) : ∀ (fuel : Nat) {s : Bytes} {items : List Item},
    readAll read fuel s = .ok items → s = encodeAll items ∧ depthAll items ≤ room
  | fuel, [], items, h => by
    rw [readAll] at h
    cases h
    exact ⟨rfl, Nat.zero_le _⟩
  | 0, _ :: _, _, h => by
    rw [readAll] at h
    cases h
  | fuel + 1, b :: s, items, h => by
    rw [readAll_cons (List.cons_ne_nil b s)] at h
    obtain ⟨⟨t, rest⟩, ht, h⟩ := bind_eq_ok_iff.mp h
    obtain ⟨ts, hts, h⟩ := bind_eq_ok_iff.mp h
    cases h
    obtain ⟨hs, -, hd⟩ := hread ht
    obtain ⟨hrest, hds⟩ := encodeAll_of_readAll hread fuel hts
    rw [encodeAll, depthAll_cons]
    exact ⟨by rw [hs, hrest], Nat.max_le.mpr ⟨hd, hds⟩⟩

theorem encode_of_readItem : ∀ room : Nat, ReadsCanonical room (readItem room)
  | 0, input, rest, t, h => by
    rw [readItem] at h
    split at h
    · cases h
    next hopens =>
      obtain ⟨f, hf, h⟩ := bind_eq_ok_iff.mp h
      cases h
      obtain ⟨rfl, hlen⟩ := frame_eq_ok_iff.mp hf
      rw [opensList_encode hlen] at hopens
      rw [Frame.encode, if_neg hopens] at hlen ⊢
      exact ⟨rfl, hlen, Nat.le_refl _⟩
  | room + 1, input, rest, t, h => by
    rw [readItem] at h
    obtain ⟨f, hf, hitem⟩ := bind_eq_ok_iff.mp h
    obtain ⟨rfl, hlen⟩ := frame_eq_ok_iff.mp hf
    split at hitem
    next hl =>
      obtain ⟨items, hitems, hitem⟩ := bind_eq_ok_iff.mp hitem
      cases hitem
      obtain ⟨hp, hd⟩ := encodeAll_of_readAll (encode_of_readItem room) _ hitems
      rw [Frame.encode, if_pos hl, hp] at hlen ⊢
      rw [Item.encode, depth_list]
      exact ⟨rfl, hlen, by omega⟩
    next hl =>
      cases hitem
      rw [Frame.encode, if_neg hl] at hlen ⊢
      exact ⟨rfl, hlen, Nat.zero_le _⟩

/-- An item is read from the front of some bytes exactly when its encoding stands there. -/
theorem readItem_eq_ok_iff {room : Nat} {input rest : Bytes} {t : Item} :
    readItem room input = .ok (t, rest) ↔
      input = t.encode ++ rest ∧ t.encode.length < Word.bound 64 ∧ t.depth ≤ room := by
  constructor
  · exact fun h => encode_of_readItem room h
  · rintro ⟨rfl, hlen, hd⟩
    rw [readItem_encode t room rest hlen, if_pos hd]

/-- An item takes some bytes. -/
theorem length_lt_of_readItem {room : Nat} {s rest : Bytes} {t : Item}
    (h : readItem room s = .ok (t, rest)) : rest.length < s.length := by
  obtain ⟨rfl, -, -⟩ := readItem_eq_ok_iff.mp h
  have := List.length_pos_iff.mpr (encode_ne_nil t)
  rw [List.length_append]
  omega

/-! ### One item and nothing else -/

theorem decode_eq_ok_iff {input : Bytes} {t : Item} {n : Nat} :
    decode input = .ok (t, n) ↔
      input = t.encode ∧ n = input.length ∧ t.encode.length < Word.bound 64 ∧
        t.depth ≤ maxDepth := by
  unfold decode
  constructor
  · intro h
    obtain ⟨⟨u, rest⟩, hread, h⟩ := bind_eq_ok_iff.mp h
    simp only at h
    split at h
    next hrest =>
      cases h
      obtain ⟨hinput, hlen, hd⟩ := readItem_eq_ok_iff.mp hread
      rw [List.isEmpty_iff.mp hrest, List.append_nil] at hinput
      exact ⟨hinput, rfl, hlen, hd⟩
    · cases h
  · rintro ⟨hinput, rfl, hlen, hd⟩
    have hread : readItem maxDepth input = .ok (t, []) :=
      readItem_eq_ok_iff.mpr ⟨by rw [hinput, List.append_nil], hlen, hd⟩
    rw [hread]
    rfl

theorem decode_encode {t : Item} (h : t.encode.length < Word.bound 64) :
    decode t.encode =
      if t.depth ≤ maxDepth then .ok (t, t.encode.length) else .error .tooDeep := by
  by_cases hd : t.depth ≤ maxDepth
  · rw [if_pos hd, decode_eq_ok_iff]
    exact ⟨rfl, rfl, h, hd⟩
  · have hread := readItem_encode t maxDepth [] h
    rw [if_neg hd, List.append_nil] at hread
    rw [if_neg hd, decode, hread]
    rfl

/-- Reading accepts the canonical encodings of items that are not nested too deeply, inverts them,
and tells any deeper nesting apart; so no item has two encodings that are read. -/
theorem decode_canonical :
    (∀ t : Item, t.encode.length < Word.bound 64 →
      decode t.encode =
        if t.depth ≤ maxDepth then .ok (t, t.encode.length) else .error .tooDeep) ∧
    (∀ (w : Bytes) (t : Item) (n : Nat), decode w = .ok (t, n) →
      w = t.encode ∧ n = w.length ∧ t.depth ≤ maxDepth) ∧
    (∀ (v w : Bytes) (t : Item) (m n : Nat), decode v = .ok (t, m) → decode w = .ok (t, n) →
      v = w) := by
  refine ⟨fun t h => decode_encode h, fun w t n h => ?_, fun v w t m n hv hw => ?_⟩
  · obtain ⟨hw, hn, -, hd⟩ := decode_eq_ok_iff.mp h
    exact ⟨hw, hn, hd⟩
  · rw [(decode_eq_ok_iff.mp hv).1, (decode_eq_ok_iff.mp hw).1]

/-- An empty list inside so many lists. -/
def nested : Nat → Item
  | 0 => .list []
  | n + 1 => .list [nested n]

theorem depth_nested : ∀ n : Nat, (nested n).depth = n + 1
  | 0 => by rw [nested, depth_list, depthAll_nil]
  | n + 1 => by
    rw [nested, depth_list, depthAll_cons, depthAll_nil, depth_nested n, Nat.max_zero]

/-- A string of the greatest short length beside fifteen lists, which is as deep as may be. -/
def deepest : Item := .list [.str (List.replicate 55 7), nested 14]

theorem depth_deepest : deepest.depth = 16 := by
  rw [deepest, depth_list, depthAll_cons, depthAll_cons, depthAll_nil, depth_str, depth_nested]
  rfl

theorem decode_canonical_deepest :
    deepest.encode.length < Word.bound 64 ∧ decode deepest.encode = .ok (deepest, 73) ∧
      (Item.list [deepest]).encode.length < Word.bound 64 ∧
      decode (Item.list [deepest]).encode = .error .tooDeep ∧
      73 = deepest.encode.length ∧
      0xf8 :: 71 :: 0xb7 :: List.replicate 55 7 ++ (nested 14).encode = deepest.encode := by
  have hlen : deepest.encode.length < Word.bound 64 := by decide +kernel
  have hlen' : (Item.list [deepest]).encode.length < Word.bound 64 := by decide +kernel
  have hsize : deepest.encode.length = 73 := by decide +kernel
  have hd : deepest.depth ≤ maxDepth := Nat.le_of_eq depth_deepest
  have hd' : ¬ (Item.list [deepest]).depth ≤ maxDepth := by
    rw [depth_list, depthAll_cons, depthAll_nil, depth_deepest]
    decide
  have hread : decode deepest.encode = .ok (deepest, 73) := by
    rw [decode_canonical.1 deepest hlen, if_pos hd, hsize]
  have hbytes : decode (0xf8 :: 71 :: 0xb7 :: List.replicate 55 7 ++ (nested 14).encode) =
      .ok (deepest, 73) :=
    decode_eq_ok_iff.mpr ⟨by decide +kernel, by decide +kernel, hlen, hd⟩
  refine ⟨hlen, hread, hlen', ?_, (decode_canonical.2.1 _ _ _ hread).2.1,
    decode_canonical.2.2 _ _ _ _ _ hbytes hread⟩
  rw [decode_canonical.1 _ hlen', if_neg hd']

end Rlp
end RelayLedger
