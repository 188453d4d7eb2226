/-
# Reading with guarded steps

`Sized.item` answers what `Rlp.readItem` answers, with the size of the item in place of the bytes
behind it, and none of its guards is ever sprung. The two go in step (`InStep`): a guarded
computation and a plain one give related answers or the same refusal, and a sequence goes in step if
its parts do. So each guarded step is looked at once. Sums and lengths fit because the bytes that
they count are there: `announced` compares before anything is added, and a length that leads beyond
64 bits is refused there (`frame_of_overflow`). The induction is on the levels of lists still
allowed, and inside it on the rounds of the loop.

Key definitions: `Sized.InStep`, `Sized.Ends`.
Key theorems: `Rlp.frame_of_overflow`, `Sized.itemBy_inStep`, `Sized.item_inStep`,
`Sized.item_eq_ok_iff`, `Sized.item_within_bounds`.
-/
import RelayLedger.Proofs.Rlp.Extent
import RelayLedger.Rlp.Sized

namespace RelayLedger
namespace Rlp

/-! ### Lengths that are too large -/

/-- A first byte that announces bytes of length is that of a long header. -/
theorem exists_base_of_lengthBytes {b : UInt8} (h : lengthBytes b ≠ 0) :
    ∃ f : Frame, b.toNat = f.base + 55 + lengthBytes b ∧ lengthBytes b ≤ 8 := by
  have hb := b.toNat_lt
  unfold lengthBytes at h ⊢
  split at h
  · exact absurd rfl h
  next hb8 =>
  rw [if_neg hb8]
  split at h
  next hc0 =>
    rw [if_pos hc0]
    refine ⟨⟨false, [], []⟩, ?_, by omega⟩
    show b.toNat = 0x80 + 55 + (b.toNat - 0xb7)
    omega
  next hc0 =>
  rw [if_neg hc0]
  split at h
  · exact absurd rfl h
  next hf8 =>
    rw [if_neg hf8]
    refine ⟨⟨true, [], []⟩, ?_, by omega⟩
    show b.toNat = 0xc0 + 55 + (b.toNat - 0xf7)
    omega

/-- A length that leads beyond the 64-bit sizes is refused like one that has a shorter spelling. -/
theorem frame_of_overflow {b : UInt8} {digits rest : Bytes} (hcount : digits.length = lengthBytes b)
    (hend : Word.bound 64 ≤ 1 + digits.length + Bytes.toNat digits) :
    frame (b :: (digits ++ rest)) = .error .nonCanonicalLength := by
  have hsome : digits.length ≠ 0 := fun h => by
    have hnil : digits = [] := List.length_eq_zero_iff.mp h
    rw [hnil, Bytes.toNat_nil, List.length_nil, Word.bound_sixtyFour] at hend
    omega
  obtain ⟨f, hb, hcount'⟩ := exists_base_of_lengthBytes (hcount ▸ hsome)
  rw [← hcount] at hb hcount'
  have hcut : cut (b :: (digits ++ rest)) 1 digits.length = .ok (digits, rest) :=
    cut_eq_ok_iff.mpr ⟨by rw [Word.bound_sixtyFour]; omega, rfl, [b], rfl, rfl⟩
  rw [frame_of_long hb (Nat.pos_of_ne_zero hsome) hcount', longLength, hcut, ok_bind]
  simp only
  split
  · rfl
  split
  · rfl
  rw [ok_bind, Frame.cut, cut, if_pos hend, error_bind]

/-- Nesting comes before what is wrong with a header. -/
theorem readItem_of_frame_error {s : Bytes} {room : Nat} {fault : Fault}
    (h : frame s = .error fault) :
    readItem room s = .error (if opensList s = true ∧ room = 0 then .tooDeep else fault) := by
  cases room with
  | zero =>
    rw [readItem, h, error_bind]
    by_cases hopens : opensList s = true
    · rw [if_pos hopens, if_pos ⟨hopens, rfl⟩]
    · rw [if_neg hopens, if_neg fun h => hopens h.1]
  | succ room => rw [readItem, h, error_bind, if_neg fun h => Nat.succ_ne_zero room h.2]

namespace Sized

/-! ### Going in step -/

section InStep

variable {α α' β β' : Type}

/-- A guarded computation does what a plain one does: the answers are related or the refusals the
same, and no step goes wrong. -/
inductive InStep (R : α → β → Prop) : Except Stop α → Except Fault β → Prop
  | answer {a : α} {b : β} (h : R a b) : InStep R (.ok a) (.ok b)
  | refusal (fault : Fault) : InStep R (.error (.refused fault)) (.error fault)

variable {R : α → β → Prop} {S : α' → β' → Prop} {x : Except Stop α} {y : Except Fault β}

theorem InStep.bind {f : α → Except Stop α'} {g : β → Except Fault β'} (h : InStep R x y)
    (hf : ∀ a b, R a b → InStep S (f a) (g b)) : InStep S (x >>= f) (y >>= g) := by
  cases h with
  | answer h => exact hf _ _ h
  | refusal fault => exact .refusal fault

theorem InStep.map {f : α → α'} {g : β → β'} (h : InStep R x y)
    (hfg : ∀ a b, R a b → S (f a) (g b)) :
    InStep S (x >>= fun a => .ok (f a)) (y >>= fun b => .ok (g b)) :=
  h.bind fun a b hab => .answer (hfg a b hab)

/-- What only the guarded side still does, without fail. -/
theorem InStep.bind_ok {f : α → α'} {S : α' → β → Prop} (h : InStep R x y)
    (hf : ∀ a b, R a b → S (f a) b) : InStep S (x >>= fun a => .ok (f a)) y := by
  cases h with
  | answer h => exact .answer (hf _ _ h)
  | refusal fault => exact .refusal fault

theorem InStep.and_ok (h : InStep R x y) : InStep (fun a b => R a b ∧ y = .ok b) x y := by
  cases h with
  | answer h => exact .answer ⟨h, rfl⟩
  | refusal fault => exact .refusal fault

theorem InStep.of_ok {a : α} (h : InStep R (.ok a) y) : ∃ b, y = .ok b ∧ R a b := by
  cases h with
  | answer h => exact ⟨_, rfl, h⟩

theorem InStep.to_ok {b : β} (h : InStep R x (.ok b)) : ∃ a, x = .ok a ∧ R a b := by
  cases h with
  | answer h => exact ⟨_, rfl, h⟩

theorem InStep.not_trap (h : InStep R x y) (trap : Trap) : x ≠ .error (.trap trap) := by
  cases h <;> simp

theorem InStep.refused_iff (h : InStep R x y) {fault : Fault} :
    x = .error (.refused fault) ↔ y = .error fault := by
  cases h <;> simp

end InStep

/-! ### Guarded steps that go well -/

variable {input : Bytes} {offset length count : Word 64}

theorem fit_of_lt {n : Nat} (h : n < Word.bound 64) : fit n = .ok ⟨n, h⟩ := by
  rw [fit, Word.ofNat?, dif_pos h, orTrap]

theorem above_of_le {b : UInt8} (base : Nat) (h : base ≤ b.toNat) :
    ∃ w : Word 64, w.toNat = b.toNat - base ∧ above b base = .ok w := by
  have hlt : b.toNat - base < Word.bound 64 :=
    lt_of_le_of_lt (Nat.sub_le _ _) (lt_trans b.toNat_lt (by decide))
  exact ⟨⟨_, hlt⟩, rfl, by rw [above, if_pos h, fit_of_lt hlt]⟩

theorem add_of_lt {a b : Word 64} (h : a.toNat + b.toNat < Word.bound 64) :
    ∃ c : Word 64, c.toNat = a.toNat + b.toNat ∧ add a b = .ok c :=
  ⟨⟨_, h⟩, rfl, fit_of_lt h⟩

theorem slice_of_le {s : Bytes} {start stop : Nat} (h : start ≤ stop) (h' : stop ≤ s.length) :
    slice s start stop = .ok ((s.drop start).take (stop - start)) := by
  rw [slice, range?, if_pos ⟨h, h'⟩, orTrap, List.drop_take]

/-- A length stays in 64 bits as its digits are read, if it does in the end. -/
theorem foldlM_shiftIn : ∀ (digits : Bytes) (n : Word 64),
    n.toNat * 256 ^ digits.length + Bytes.toNat digits < Word.bound 64 →
    ∃ w : Word 64, w.toNat = n.toNat * 256 ^ digits.length + Bytes.toNat digits ∧
      digits.foldlM shiftIn n = .ok w
  | [], n, _ => ⟨n, by simp, rfl⟩
  | b :: digits, n, h => by
    have hsum : n.toNat * 256 ^ (b :: digits).length + Bytes.toNat (b :: digits) =
        (n.toNat * 256 + b.toNat) * 256 ^ digits.length + Bytes.toNat digits := by
      rw [Bytes.toNat_cons, List.length_cons]
      ring
    rw [hsum] at h ⊢
    have hlt : n.toNat * 256 + b.toNat < Word.bound 64 :=
      calc n.toNat * 256 + b.toNat
        _ ≤ (n.toNat * 256 + b.toNat) * 256 ^ digits.length :=
          Nat.le_mul_of_pos_right _ (Nat.pow_pos (by decide))
        _ ≤ _ := Nat.le_add_right _ _
        _ < Word.bound 64 := h
    obtain ⟨w, hw, hfold⟩ := foldlM_shiftIn digits ⟨_, hlt⟩ h
    refine ⟨w, hw, ?_⟩
    rw [List.foldlM_cons, shiftIn, fit_of_lt hlt, ok_bind, hfold]

/-! ### Headers -/

/-- A payload as it is cut out of the input: where it lies, and what is behind it. -/
structure Cut (input : Bytes) (offset length : Nat) (payload : Bytes) (p : Bytes × Bytes) :
    Prop where
  parts : p = (payload, input.drop (offset + length))
  size : payload.length = length
  end_le : offset + length ≤ input.length
  end_lt : offset + length < Word.bound 64

theorem announced_inStep :
    InStep (Cut input offset.toNat length.toNat) (announced input offset length)
      (cut input offset.toNat length.toNat) := by
  unfold announced cut
  by_cases hend : offset.toNat + length.toNat < Word.bound 64
  · have hadd : offset.add? length = some ⟨_, hend⟩ := dif_pos hend
    rw [hadd, if_neg (Nat.not_le.mpr hend)]
    simp only [range?]
    by_cases hle : offset.toNat + length.toNat ≤ input.length
    · rw [if_pos ⟨Nat.le_add_right _ _, hle⟩, if_pos hle]
      refine .answer ⟨?_, ?_, hle, hend⟩
      · rw [List.drop_take, Nat.add_sub_cancel_left]
      · rw [List.length_drop, List.length_take]
        omega
    · rw [if_neg fun h => hle h.2, if_neg hle]
      exact .refusal _
  · have hadd : offset.add? length = none := dif_neg hend
    rw [hadd, if_pos (Nat.not_lt.mp hend)]
    exact .refusal _

theorem longLength_inStep (hcount : 1 ≤ count.toNat) (hcount' : count.toNat ≤ 8) :
    InStep (fun w n => w.toNat = n) (longLength input count)
      (Rlp.longLength input count.toNat) := by
  refine announced_inStep.bind fun digits p h => ?_
  obtain ⟨rfl, hsize, -, -⟩ := h
  match digits, hsize with
  | [], hsize =>
    rw [List.length_nil] at hsize
    omega
  | b :: digits, hsize =>
    have hlt : Bytes.toNat (b :: digits) < Word.bound 64 :=
      lt_of_lt_of_le (Bytes.toNat_lt _)
        (Nat.pow_le_pow_right (by decide) (show (b :: digits).length ≤ 8 by omega))
    obtain ⟨w, hw, hfold⟩ := foldlM_shiftIn (b :: digits) 0 (by simpa using hlt)
    rw [Word.toNat_zero, Nat.zero_mul, Nat.zero_add] at hw
    show InStep _ (if b = 0 ∨ 8 < count.toNat then _ else _) _
    simp only [List.head?_cons, Option.some.injEq, Nat.not_lt.mpr hcount', or_false]
    split
    · exact .refusal _
    · rw [hfold, ok_bind, hw]
      split
      · exact .refusal _
      · exact .answer hw

/-! ### Items -/

/-- The item that both answers hold, with its size in one and the bytes behind it in the other. -/
structure Ends (input : Bytes) (a : Item × Word 64) (b : Item × Bytes) : Prop where
  parts : b = (a.1, input.drop a.2.toNat)
  end_le : a.2.toNat ≤ input.length

/-- What a guarded step makes of a payload when the plain one goes on with the bytes behind it. -/
def Makes (rest : Bytes) (t : Item) (b : Item × Bytes) : Prop := b = (t, rest)

variable {isList : Bool} {depth : Nat} {build enter : Bytes → Except Stop Item}
  {g : Frame → Except Fault (Item × Bytes)}

theorem itemAt_inStep (hbuild : ∀ f : Frame, f.isList = isList → f.payload.length = length.toNat →
      InStep (Makes f.rest) (build f.payload) (g f)) :
    InStep (Ends input) (itemAt input offset length build)
      (Frame.cut isList input offset.toNat length.toNat >>= g) := by
  rw [itemAt, Frame.cut, bind_assoc]
  refine announced_inStep.bind fun payload p h => ?_
  obtain ⟨rfl, hsize, hle, hlt⟩ := h
  obtain ⟨consumed, hconsumed, hadd⟩ := add_of_lt hlt
  rw [← hconsumed] at hle
  simp only [hadd, pure_eq_ok, ok_bind, ← hconsumed]
  refine (hbuild ⟨isList, payload, _⟩ rfl hsize).bind_ok fun t b hb => ?_
  exact ⟨hb, hle⟩

theorem longItemAt_inStep (hcount : 1 ≤ count.toNat) (hcount' : count.toNat ≤ 8)
    (hbuild : ∀ f : Frame, f.isList = isList → InStep (Makes f.rest) (build f.payload) (g f)) :
    InStep (Ends input) (longItemAt input count build)
      ((do let length ← Rlp.longLength input count.toNat
           Frame.cut isList input (1 + count.toNat) length) >>= g) := by
  rw [longItemAt, bind_assoc]
  refine (longLength_inStep hcount hcount').bind fun length n h => ?_
  subst h
  obtain ⟨offset, hoffset, hadd⟩ := add_of_lt (a := one) (b := count)
    (show 1 + count.toNat < Word.bound 64 by rw [Word.bound_sixtyFour]; omega)
  have hoffset : offset.toNat = 1 + count.toNat := hoffset
  rw [hadd, ok_bind, ← hoffset]
  exact itemAt_inStep fun f hl _ => hbuild f hl

theorem shortString_eq {payload : Bytes} (h : payload.length = length.toNat) :
    shortString length payload =
      if hasShorterForm payload then .error (.refused .nonCanonicalLength)
      else .ok (.str payload) := by
  match payload, h with
  | [], h =>
    rw [shortString, if_neg (by rw [← h]; exact Nat.zero_ne_one)]
    rfl
  | [b], h =>
    have hone : length.toNat = 1 := h.symm
    rw [shortString, if_pos hone, byteAt, List.getElem?_cons_zero, orTrap, ok_bind]
    simp only [hasShorterForm, decide_eq_true_eq]
  | _ :: _ :: _, h =>
    rw [shortString, if_neg (by rw [← h, List.length_cons, List.length_cons]; omega)]
    rfl

/-- The header of an item is read alike, if its strings and its lists are. -/
theorem itemBy_inStep (hstring : ∀ f : Frame, f.isList = false → g f = .ok (.str f.payload, f.rest))
    (hlist : opensList input = true → depth < maxDepth ∧
      ∀ f : Frame, f.isList = true → InStep (Makes f.rest) (enter f.payload) (g f)) :
    InStep (Ends input) (itemBy enter depth input) (frame input >>= g) := by
  match input, hlist with
  | [], _ => exact .refusal _
  | b :: rest, hlist =>
    have hb := b.toNat_lt
    have hstr : ∀ f : Frame, f.isList = false →
        InStep (Makes f.rest) (.ok (.str f.payload)) (g f) := fun f hl => by
      rw [hstring f hl]
      exact .answer rfl
    rw [opensList_cons] at hlist
    unfold itemBy frame
    simp only
    rw [if_neg fun h => absurd (hlist h.1).1 (Nat.not_lt.mpr h.2)]
    -- both sides now branch alike on the first byte, so each split takes one arm of each
    split
    next h80 =>
      rw [slice_of_le (Nat.zero_le 1) (Nat.le_add_left 1 _), ok_bind, ok_bind, hstring _ rfl]
      exact .answer ⟨rfl, Nat.le_add_left 1 _⟩
    next h80 =>
    split
    next hb8 =>
      obtain ⟨length, hlength, habove⟩ := above_of_le 0x80 (Nat.not_lt.mp h80)
      rw [habove, ok_bind, bind_assoc, ← hlength]
      refine itemAt_inStep fun f hl hsize => ?_
      rw [shortString_eq hsize]
      split
      · exact .refusal _
      · exact hstr f hl
    next hb8 =>
    split
    next hc0 =>
      obtain ⟨count, hcount, habove⟩ := above_of_le (b := b) 0xb7 (by omega)
      rw [habove, ok_bind, ← hcount]
      exact longItemAt_inStep (by omega) (by omega) hstr
    next hc0 =>
    obtain ⟨-, hlist⟩ := hlist (Nat.not_lt.mp hc0)
    split
    next hf8 =>
      obtain ⟨length, hlength, habove⟩ := above_of_le 0xc0 (Nat.not_lt.mp hc0)
      rw [habove, ok_bind, ← hlength]
      exact itemAt_inStep fun f hl _ => hlist f hl
    next hf8 =>
      obtain ⟨count, hcount, habove⟩ := above_of_le (b := b) 0xf7 (by omega)
      rw [habove, ok_bind, ← hcount]
      exact longItemAt_inStep (by omega) (by omega) hlist

/-! ### Lists -/

/-- A loop whose rounds go in step goes in step, if each of its rounds takes some bytes. -/
theorem items_inStep {read : Bytes → Except Stop (Item × Word 64)}
    {read' : Bytes → Except Fault (Item × Bytes)}
    (hread : ∀ s, InStep (Ends s) (read s) (read' s))
    (hforward : ∀ {s rest : Bytes} {t : Item}, read' s = .ok (t, rest) → rest.length < s.length) :
    ∀ (fuel : Nat) (s : Bytes), s.length ≤ fuel → InStep Eq (items read s) (readAll read' fuel s)
  | fuel, [], _ => by
    rw [items, readAll]
    exact .answer rfl
  | 0, _ :: _, h => absurd h (Nat.not_succ_le_zero _)
  | fuel + 1, b :: s, h => by
    rw [items, readAll_cons (List.cons_ne_nil b s), List.isEmpty_cons,
      if_neg Bool.false_ne_true]
    -- the plain answer is kept: it is what says that the round took some bytes
    refine (hread (b :: s)).and_ok.bind fun (t, consumed) (t', rest) ⟨⟨hparts, hle⟩, hok⟩ => ?_
    cases hparts
    have hrest : slice (b :: s) consumed.toNat (b :: s).length =
        .ok ((b :: s).drop consumed.toNat) := by
      rw [slice_of_le hle (Nat.le_refl _), List.take_of_length_le]
      rw [List.length_drop]
    have hless : ((b :: s).drop consumed.toNat).length < (b :: s).length := hforward hok
    have hloop := items_inStep hread hforward fuel _ (Nat.le_of_lt_succ (lt_of_lt_of_le hless h))
    simp only
    rw [hrest, ok_bind, dif_pos hless]
    exact hloop.map fun _ _ hts => congrArg (t :: ·) hts

/-- Inside so many lists an item is read as it is with so many fewer levels to go. -/
theorem item_inStep : ∀ (room depth : Nat), maxDepth - depth = room → ∀ s : Bytes,
    InStep (Ends s) (item depth s) (readItem room s)
  | 0, depth, hroom, s => by
    rw [item, readItem]
    by_cases hopens : opensList s = true
    · rw [if_pos hopens]
      match s, hopens with
      | b :: rest, hopens =>
        unfold itemBy
        simp only
        rw [if_pos ⟨opensList_cons.mp hopens, Nat.sub_eq_zero_iff_le.mp hroom⟩]
        exact .refusal _
    · rw [if_neg hopens]
      exact itemBy_inStep (fun _ _ => rfl) fun h => absurd h hopens
  | room + 1, depth, hroom, s => by
    rw [item, readItem]
    refine itemBy_inStep (fun f hl => ?_) fun _ => ⟨by omega, fun f hl => ?_⟩
    · rw [hl, if_neg Bool.false_ne_true]
      rfl
    · have hloop := items_inStep (item_inStep room (depth + 1) (by omega)) length_lt_of_readItem
        f.payload.length f.payload (Nat.le_refl _)
      rw [dif_pos (by omega), if_pos hl]
      exact hloop.map fun _ _ hts => congrArg (fun ts => (Item.list ts, f.rest)) hts.symm

/-! ### What is answered -/

/-- The size of an item and the bytes behind it are told from one another. -/
theorem item_eq_ok_iff_readItem {t : Item} {n : Word 64} :
    item depth input = .ok (t, n) ↔
      readItem (maxDepth - depth) input = .ok (t, input.drop n.toNat) ∧
        n.toNat ≤ input.length := by
  have hstep := item_inStep (maxDepth - depth) depth rfl input
  constructor
  · intro h
    rw [h] at hstep
    obtain ⟨p, hread, hparts, hle⟩ := hstep.of_ok
    rw [hread, hparts]
    exact ⟨rfl, hle⟩
  · rintro ⟨hread, hle⟩
    rw [hread] at hstep
    obtain ⟨⟨u, m⟩, hitem, hparts, hle'⟩ := hstep.to_ok
    simp only [Prod.mk.injEq] at hparts hle'
    obtain ⟨rfl, hdrop⟩ := hparts
    have hsize := congrArg List.length hdrop
    rw [List.length_drop, List.length_drop] at hsize
    have hnm : n = m := Word.ext_toNat (by omega)
    rw [hitem, hnm]

/-- An item is read exactly when its encoding stands in front, and its size is that of the
encoding. -/
theorem item_eq_ok_iff {t : Item} {n : Word 64} :
    item depth input = .ok (t, n) ↔
      t.encode <+: input ∧ t.encode.length = n.toNat ∧ t.depth ≤ maxDepth - depth := by
  rw [item_eq_ok_iff_readItem, readItem_eq_ok_iff]
  constructor
  · rintro ⟨⟨hinput, -, hdepth⟩, hle⟩
    have hsize := congrArg List.length hinput
    rw [List.length_append, List.length_drop] at hsize
    exact ⟨⟨_, hinput.symm⟩, by omega, hdepth⟩
  · rintro ⟨⟨rest, rfl⟩, hsize, hdepth⟩
    rw [← hsize, List.drop_left, List.length_append]
    exact ⟨⟨rfl, hsize ▸ n.isLt, hdepth⟩, Nat.le_add_right _ _⟩

/-- Only the item itself is looked at: any bytes may stand behind it. -/
theorem item_take_append {t : Item} {n : Word 64} (h : item depth input = .ok (t, n)) (s : Bytes) :
    item depth (input.take n.toNat ++ s) = .ok (t, n) := by
  obtain ⟨⟨rest, rfl⟩, hsize, hdepth⟩ := item_eq_ok_iff.mp h
  rw [← hsize, List.take_left]
  exact item_eq_ok_iff.mpr ⟨List.prefix_append _ _, hsize, hdepth⟩

theorem one_le_of_item {t : Item} {n : Word 64} (h : item depth input = .ok (t, n)) :
    1 ≤ n.toNat := by
  obtain ⟨-, hsize, -⟩ := item_eq_ok_iff.mp h
  rw [← hsize]
  exact List.length_pos_iff.mpr (encode_ne_nil t)

theorem item_of_overflow {b : UInt8} {digits rest : Bytes} (hcount : digits.length = lengthBytes b)
    (hend : Word.bound 64 ≤ 1 + digits.length + Bytes.toNat digits) :
    item depth (b :: (digits ++ rest)) =
      .error (.refused (if 0xc0 ≤ b.toNat ∧ maxDepth ≤ depth then .tooDeep
        else .nonCanonicalLength)) := by
  rw [(item_inStep (maxDepth - depth) depth rfl _).refused_iff,
    readItem_of_frame_error (frame_of_overflow hcount hend)]
  simp only [opensList_cons, Nat.sub_eq_zero_iff_le]

/-! ### The law -/

/-- Reading an item inside any number of lists, and reading items until nothing is left, are done
without a step that could go wrong: no byte or slice is taken that is not there, every number fits,
each round of the loop leaves fewer bytes, and no list is entered below the deepest level. The
answers are those of `Rlp.readItem` and `Rlp.readAll`. An item takes at least one byte and at most
those that are there, and nothing behind it changes the answer; a length that leads beyond the
64-bit sizes is refused. -/
theorem item_within_bounds (depth : Nat) (input : Bytes) :
    (InStep (Ends input) (item depth input) (readItem (maxDepth - depth) input) ∧
      InStep Eq (items (item depth) input)
        (readAll (readItem (maxDepth - depth)) input.length input)) ∧
    (∀ trap : Trap, item depth input ≠ .error (.trap trap) ∧
      items (item depth) input ≠ .error (.trap trap)) ∧
    (∀ (t : Item) (n : Word 64), item depth input = .ok (t, n) →
      1 ≤ n.toNat ∧ n.toNat ≤ input.length ∧ (input.drop n.toNat).length < input.length ∧
        ∀ s : Bytes, item depth (input.take n.toNat ++ s) = .ok (t, n)) ∧
    (∀ (b : UInt8) (digits rest : Bytes), input = b :: (digits ++ rest) →
      digits.length = lengthBytes b → Word.bound 64 ≤ 1 + digits.length + Bytes.toNat digits →
      item depth input = .error (.refused (if 0xc0 ≤ b.toNat ∧ maxDepth ≤ depth then .tooDeep
        else .nonCanonicalLength))) := by
  have hitem := item_inStep (maxDepth - depth) depth rfl
  have hitems := items_inStep hitem length_lt_of_readItem input.length input (Nat.le_refl _)
  refine ⟨⟨hitem input, hitems⟩, fun trap => ⟨(hitem input).not_trap trap, hitems.not_trap trap⟩,
    fun t n h => ?_, ?_⟩
  · have hle := (item_eq_ok_iff_readItem.mp h).2
    have hpos := one_le_of_item h
    refine ⟨hpos, hle, ?_, item_take_append h⟩
    rw [List.length_drop]
    omega
  · rintro b digits rest rfl hcount hend
    exact item_of_overflow hcount hend

/-- The deepest item that is read, with two bytes behind it and with another list; and a length of
2^64 - 1, announced for a string and for a list that lies too deep. -/
theorem item_within_bounds_deepest :
    item 0 (deepest.encode ++ [1, 2]) = .ok (deepest, ⟨73, by decide⟩) ∧
    item 0 (deepest.encode ++ [0xc0]) = .ok (deepest, ⟨73, by decide⟩) ∧
    item 15 (0xbf :: (List.replicate 8 0xff ++ [1])) = .error (.refused .nonCanonicalLength) ∧
    item 16 (0xff :: (List.replicate 8 0xff ++ [1])) = .error (.refused .tooDeep) := by
  have hsize : deepest.encode.length = 73 := by decide +kernel
  have hread : item 0 (deepest.encode ++ [1, 2]) = .ok (deepest, ⟨73, by decide⟩) :=
    item_eq_ok_iff.mpr ⟨List.prefix_append _ _, hsize, Nat.le_of_eq depth_deepest⟩
  obtain ⟨-, -, -, hlocal⟩ := (item_within_bounds 0 _).2.2.1 _ _ hread
  have hbehind := hlocal [0xc0]
  refine ⟨hread, ?_, ?_, ?_⟩
  · rwa [List.take_left' hsize] at hbehind
  · exact (item_within_bounds 15 _).2.2.2 _ _ _ rfl rfl (by decide)
  · exact (item_within_bounds 16 _).2.2.2 _ _ _ rfl rfl (by decide)

end Sized
end Rlp
end RelayLedger
