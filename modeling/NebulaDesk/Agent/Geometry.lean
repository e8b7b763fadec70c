/-
The geometry that is read from a sequence parameter set.

* `dimensions_encode` — what the syntax of H.264 spells is read exactly, unless an offset of the
  picture order is too large for the reader, which then says so;
* `dimensions_panic_iff` — nothing overflows and no index is out of range, as long as fewer than
  `2 ^ 31` zero bytes stand in a row.
-/
import NebulaDesk.Agent.Sps

namespace NebulaDesk

open BitString

namespace Bitstream

open Sps

/-! ### Emulation prevention -/

theorem unescapeLoop_escape (data : List UInt8) {zeros : ℕ} (h : zeros ≤ 2) :
    unescapeLoop zeros (escape zeros data) = .ok data := by
  induction data generalizing zeros with
  | nil => rfl
  | cons byte data ih =>
    by_cases hescaped : zeros = 2 ∧ byte ≤ 3
    · obtain ⟨rfl, hbyte⟩ := hescaped
      rw [escape, if_pos ⟨rfl, hbyte⟩, unescapeLoop, if_pos ⟨rfl, rfl⟩, unescapeLoop,
        if_neg (by simp), if_neg (by simp)]
      by_cases hzero : byte = 0
      · rw [if_pos hzero, ih (by omega)]
        rfl
      · rw [if_neg hzero, ih (by omega)]
        rfl
    · rw [escape, if_neg hescaped, unescapeLoop]
      have hthree : ¬ (zeros = 2 ∧ byte = 3) := by
        rintro ⟨hzeros, rfl⟩
        exact hescaped ⟨hzeros, by decide⟩
      rw [if_neg hthree, if_neg (by omega)]
      by_cases hzero : byte = 0
      · have hlt : zeros ≠ 2 := by
          rintro rfl
          exact hescaped ⟨rfl, by rw [hzero]; decide⟩
        rw [if_pos hzero, ih (by omega)]
        rfl
      · rw [if_neg hzero, ih (by omega)]
        rfl

theorem unescape_escape (data : List UInt8) : unescape (escape 0 data) = .ok data :=
  unescapeLoop_escape data (by omega)

/-! ### Reading -/

namespace Bits

/-- The bits that are left. -/
def rest (bits : Bits) : Option (List Bool) :=
  if bits.offset ≤ 8 * bits.data.length then some ((ofBytes bits.data).drop bits.offset) else none

theorem rest_eq_some_iff {bits : Bits} {tail : List Bool} :
    bits.rest = some tail ↔
      bits.offset ≤ 8 * bits.data.length ∧ (ofBytes bits.data).drop bits.offset = tail := by
  unfold rest
  split
  · next h => simp [h]
  · next h => simp [h]

theorem readLoop_ok {u tail : List Bool} {bits : Bits}
    (h : (ofBytes bits.data).drop bits.offset = u ++ tail) {k value : ℕ} (hvalue : value < 2 ^ k)
    (hk : k + u.length ≤ 32) :
    readLoop u.length value bits =
      (.ok (value * 2 ^ u.length + BitString.value u),
        { bits with offset := bits.offset + u.length }) := by
  induction u generalizing bits k value with
  | nil =>
    rw [List.length_nil, readLoop, pow_zero, Nat.mul_one]
    rfl
  | cons b u ih =>
    have hget : (ofBytes bits.data)[bits.offset]? = some b := by
      rw [← List.head?_drop]
      exact congrArg List.head? h
    rw [getElem?_ofBytes] at hget
    obtain ⟨byte, hbyte, hbit⟩ := Option.map_eq_some_iff.mp hget
    have hrest : (ofBytes bits.data).drop (bits.offset + 1) = u ++ tail := by
      rw [← List.drop_drop]
      exact congrArg (List.drop 1) h
    rw [List.length_cons] at hk
    have hpow : 2 ^ (k + 1) ≤ 2 ^ 32 := Nat.pow_le_pow_right (by omega) (by omega)
    have hb : b.toNat ≤ 1 := Bool.toNat_le b
    have hnext : value * 2 + b.toNat < 2 ^ (k + 1) := by
      rw [pow_succ]
      omega
    have hmod : value * 2 % 2 ^ 32 = value * 2 := Nat.mod_eq_of_lt (by omega)
    have hrun : readLoop (u.length + 1) value bits =
        readLoop u.length (value * 2 % 2 ^ 32 + (byte.toNat.testBit (7 - bits.offset % 8)).toNat)
          ⟨bits.data, bits.offset + 1⟩ := by
      rw [readLoop]
      dsimp only
      rw [hbyte]
    have hsum : (value * 2 + b.toNat) * 2 ^ u.length + BitString.value u =
        value * 2 ^ (u.length + 1) + BitString.value (b :: u) := by
      rw [BitString.value, pow_succ]
      ring
    have hloop := @ih ⟨bits.data, bits.offset + 1⟩ hrest (k + 1) _ hnext (by omega)
    rw [List.length_cons, hrun, hbit, hmod, hloop, hsum]
    refine Prod.ext rfl ?_
    have hoffset : bits.offset + 1 + u.length = bits.offset + (u.length + 1) := by omega
    exact congrArg (Bits.mk bits.data) hoffset

theorem read_reads {u : List Bool} (h : u.length ≤ 32) :
    Reads rest (read u.length) u (BitString.value u) := by
  intro bits tail hrest
  obtain ⟨hoffset, hdrop⟩ := rest_eq_some_iff.mp hrest
  have hlength := congrArg List.length hdrop
  rw [List.length_drop, length_ofBytes, List.length_append] at hlength
  refine ⟨{ bits with offset := bits.offset + u.length }, ?_, rest_eq_some_iff.mpr ⟨?_, ?_⟩⟩
  · rw [read, if_pos (by omega), readLoop_ok hdrop (k := 0) (by omega) (by omega), Nat.zero_mul,
      Nat.zero_add]
  · show bits.offset + u.length ≤ 8 * bits.data.length
    omega
  · show (ofBytes bits.data).drop (bits.offset + u.length) = tail
    rw [← List.drop_drop, hdrop, List.drop_left]

theorem read_one_reads (b : Bool) : Reads rest (read 1) [b] b.toNat := by
  have h := read_reads (u := [b]) (by simp)
  simpa [BitString.value] using h

theorem leadingZeros_reads {n rounds leading : ℕ} (hrounds : n < rounds) (h : leading + n < 31) :
    Reads rest (leadingZeros rounds leading) (List.replicate n false ++ [true]) (leading + n) := by
  induction n generalizing rounds leading with
  | zero =>
    obtain ⟨rounds, rfl⟩ : ∃ r, rounds = r + 1 := ⟨rounds - 1, by omega⟩
    exact (read_one_reads true).bind_last (Reads.pure leading)
  | succ n ih =>
    obtain ⟨rounds, rfl⟩ : ∃ r, rounds = r + 1 := ⟨rounds - 1, by omega⟩
    have hnext := @ih rounds (leading + 1) (by omega) (by omega)
    rw [List.replicate_succ, List.cons_append, leadingZeros]
    have hlt : leading + 1 < 31 := by omega
    have hadd : leading + 1 + n = leading + (n + 1) := by omega
    refine (read_one_reads false).bind (u := [false]) ?_
    rw [hadd] at hnext
    simpa [hlt] using hnext

/-- What the reader says of a code that is too long. -/
def oversized : Fault := .refused "oversized H.264 Exp-Golomb value"

theorem leadingZeros_refuses {rounds leading : ℕ} (hrounds : 31 - leading ≤ rounds)
    (h : leading < 31) :
    Refuses rest oversized (leadingZeros rounds leading) (List.replicate (31 - leading) false) := by
  induction rounds generalizing leading with
  | zero => omega
  | succ rounds ih =>
    have hsub : 31 - leading = 31 - (leading + 1) + 1 := by omega
    rw [hsub, List.replicate_succ, leadingZeros]
    refine (read_one_reads false).bind_refuses (u := [false]) ?_
    by_cases hlt : leading + 1 < 31
    · have hnext := @ih (leading + 1) (by omega) hlt
      simpa [hlt] using hnext
    · intro bits tail _
      refine ⟨bits, ?_⟩
      simp [hlt]
      rfl

theorem ue_reads {k : ℕ} (h : k + 1 < 2 ^ 31) : Reads rest ue (BitString.ue k) k := by
  have hlog : (k + 1).log2 < 31 := (Nat.log2_lt (Nat.succ_ne_zero k)).mpr h
  have hzeros := @leadingZeros_reads (k + 1).log2 31 0 hlog (by omega)
  have hlow := read_reads (u := ofNat (k + 1).log2 (k + 1)) (by rw [length_ofNat]; omega)
  have hvalue := two_pow_sub_one_add_value k
  have hpow : 2 ^ (k + 1).log2 ≤ 2 ^ 31 := Nat.pow_le_pow_right (by omega) (by omega)
  rw [length_ofNat] at hlow
  rw [Nat.zero_add] at hzeros
  have hbits : BitString.ue k =
      (List.replicate (k + 1).log2 false ++ [true]) ++ ([] ++ ofNat (k + 1).log2 (k + 1)) := by
    rw [BitString.ue, List.append_assoc]
    rfl
  have htop : Reads rest (u32 (2 ^ (k + 1).log2)) [] (2 ^ (k + 1).log2) := by
    rw [u32, if_pos (by omega)]
    exact .pure _
  have hsum : Reads rest (u32 (2 ^ (k + 1).log2 - 1 +
      BitString.value (ofNat (k + 1).log2 (k + 1)))) [] k := by
    rw [hvalue, u32, if_pos (by omega)]
    exact .pure _
  rw [hbits, ue]
  exact hzeros.bind (htop.bind (hlow.bind_last hsum))

theorem ue_refuses {k : ℕ} (h : 2 ^ 31 ≤ k + 1) : Refuses rest oversized ue (BitString.ue k) := by
  have hlog : 31 ≤ (k + 1).log2 := (Nat.le_log2 (Nat.succ_ne_zero k)).mpr h
  have hzeros := @leadingZeros_refuses 31 0 (by omega) (by omega)
  have hbits : BitString.ue k = List.replicate 31 false ++
      (List.replicate ((k + 1).log2 - 31) false ++ true :: ofNat (k + 1).log2 (k + 1)) := by
    rw [BitString.ue, ← List.append_assoc, List.replicate_append_replicate]
    congr 2
    omega
  rw [hbits, ue]
  exact hzeros.bind _

theorem se_reads {v : ℤ} (h : v.natAbs < 2 ^ 30) : Reads rest se (BitString.se v) v := by
  unfold BitString.se se
  split
  · next hpos =>
    have hue := ue_reads (k := 2 * v.natAbs - 1) (by omega)
    refine hue.bind_last ?_
    rw [if_pos (by omega), asI32, if_pos (by omega)]
    have hv : (((2 * v.natAbs - 1 + 1) / 2 : ℕ) : ℤ) = v := by omega
    rw [hv]
    exact .pure v
  · next hneg =>
    have hue := ue_reads (k := 2 * v.natAbs) (by omega)
    refine hue.bind_last ?_
    have hdiv : (((2 * v.natAbs : ℕ) : ℤ)).tdiv 2 = -v := by
      rw [Int.tdiv_eq_ediv_of_nonneg (by omega)]
      omega
    rw [if_neg (by omega), asI32, if_pos (by omega), hdiv, neg_neg, i32,
      if_pos (by omega)]
    exact .pure v

theorem se_refuses {v : ℤ} (h : 2 ^ 30 ≤ v.natAbs) :
    Refuses rest oversized se (BitString.se v) := by
  have hue : Refuses rest oversized ue (BitString.se v) := by
    unfold BitString.se
    split
    · exact ue_refuses (by omega)
    · exact ue_refuses (by omega)
  have hrun := hue.bind (f := fun value =>
    if value % 2 ≠ 0 then pure (asI32 ((value + 1) / 2)) else i32 (-(asI32 value).tdiv 2)) []
  rwa [List.append_nil] at hrun

theorem i32_reads {n : ℤ} (h : -2 ^ 31 ≤ n ∧ n < 2 ^ 31) : Reads rest (i32 n) [] n := by
  rw [i32, if_pos h]
  exact .pure n

/-! ### Scaling lists -/

theorem scalingList_reads (count : ℕ) {last next : ℤ} {deltas : ℕ → ℤ}
    (hlast : 0 ≤ last ∧ last < 256) (hdeltas : ∀ j, -128 ≤ deltas j ∧ deltas j ≤ 127) :
    Reads rest (scalingList count last next) (scalingBits count last next deltas) () := by
  induction count generalizing last next deltas with
  | zero => exact .pure ()
  | succ count ih =>
    rw [scalingList, scalingBits]
    by_cases hnext : next ≠ 0
    · rw [if_pos hnext, if_pos hnext]
      obtain ⟨hlow, hhigh⟩ := hdeltas 0
      have hse := se_reads (v := deltas 0) (by omega)
      have hmod : 0 ≤ (last + deltas 0 + 256) % 256 ∧ (last + deltas 0 + 256) % 256 < 256 := by
        omega
      have hrest := @ih (if (last + deltas 0 + 256) % 256 = 0 then last
        else (last + deltas 0 + 256) % 256) ((last + deltas 0 + 256) % 256)
        (fun j => deltas (j + 1)) (by split <;> assumption) fun j => hdeltas (j + 1)
      exact hse.bind (.bind_nil (i32_reads (by omega)) (.bind_nil (i32_reads (by omega))
        (.bind_nil (.pure _) hrest)))
    · rw [if_neg hnext, if_neg hnext]
      have hzero : next = 0 := not_not.mp hnext
      refine .bind_nil (.pure next) ?_
      have hrest := @ih last next (fun j => deltas (j + 1)) hlast fun j => hdeltas (j + 1)
      rw [hzero] at hrest ⊢
      exact hrest

theorem scalingLists_reads (lists : ℕ → Option Deltas) (indices : List ℕ) :
    Reads rest (scalingLists indices) (indices.flatMap (listBits lists)) () := by
  induction indices with
  | nil => exact .pure ()
  | cons index indices ih =>
    rw [scalingLists, List.flatMap_cons, listBits]
    cases lists index with
    | none => exact (read_one_reads false).bind ih
    | some deltas =>
      refine (read_one_reads true).bind (u := [true]) ?_
      exact (scalingList_reads _ (by omega) deltas.2).bind ih

theorem highProfile_reads (f : Format) : Reads rest highProfile f.bits () := by
  rw [highProfile, Format.bits]
  refine (ue_reads (by omega)).bind ?_
  refine (ue_reads (by omega)).bind ?_
  refine (ue_reads (by omega)).bind ?_
  refine (read_one_reads f.bypass).bind ?_
  cases f.scaling with
  | none => exact read_one_reads false |>.bind_last (.pure ())
  | some lists => exact (read_one_reads true).bind (scalingLists_reads lists _)

/-! ### The picture order -/

theorem skipSe_reads {offsets : List Offset} (h : ∀ offset ∈ offsets, offset.1.natAbs < 2 ^ 30) :
    Reads rest (skipSe offsets.length) (offsets.flatMap fun offset => BitString.se offset.1) () := by
  induction offsets with
  | nil => exact .pure ()
  | cons offset offsets ih =>
    rw [List.length_cons, skipSe, List.flatMap_cons]
    exact (se_reads (h offset List.mem_cons_self)).bind
      (ih fun o ho => h o (List.mem_cons_of_mem _ ho))

theorem skipSe_refuses {offsets : List Offset}
    (h : ∃ offset ∈ offsets, ¬ offset.1.natAbs < 2 ^ 30) :
    Refuses rest oversized (skipSe offsets.length)
      (offsets.flatMap fun offset => BitString.se offset.1) := by
  induction offsets with
  | nil => simp at h
  | cons offset offsets ih =>
    rw [List.length_cons, skipSe, List.flatMap_cons]
    by_cases hlt : offset.1.natAbs < 2 ^ 30
    · refine (se_reads hlt).bind_refuses (ih ?_)
      obtain ⟨o, ho, hbig⟩ := h
      rcases List.mem_cons.mp ho with rfl | ho
      · exact absurd hlt hbig
      · exact ⟨o, ho, hbig⟩
    · exact (se_refuses (not_lt.mp hlt)).bind _

theorem pictureOrder_spells (order : PictureOrder) :
    Spells rest pictureOrder order.bits (if order.Small then .ok () else .error oversized) := by
  rw [pictureOrder]
  cases order with
  | lsb log2 =>
    rw [if_pos (by trivial)]
    have hlog2 := log2.2
    exact (ue_reads (by omega)).bind ((ue_reads (by omega)).bind_last (.pure ()))
  | output =>
    rw [if_pos (by trivial)]
    exact (ue_reads (k := 2) (by omega)).bind_last (.pure ())
  | cycle alwaysZero nonRef topToBottom refs =>
    refine (ue_reads (by omega)).bind_spells ((read_one_reads alwaysZero).bind_spells ?_)
    by_cases hnonRef : nonRef.1.natAbs < 2 ^ 30
    · refine (se_reads hnonRef).bind_spells ?_
      by_cases htop : topToBottom.1.natAbs < 2 ^ 30
      · refine (se_reads htop).bind_spells ?_
        have hlen := refs.2
        refine (ue_reads (by omega)).bind_spells ?_
        rw [if_neg (not_not.mpr hlen)]
        by_cases hrefs : ∀ offset ∈ refs.1, offset.1.natAbs < 2 ^ 30
        · rw [if_pos ⟨hnonRef, htop, hrefs⟩]
          exact skipSe_reads hrefs
        · rw [if_neg fun h => hrefs h.2.2]
          exact skipSe_refuses (by simpa using hrefs)
      · rw [if_neg fun h => htop h.2.1]
        exact (se_refuses (not_lt.mp htop)).bind _
    · rw [if_neg fun h => hnonRef h.1]
      exact (se_refuses (not_lt.mp hnonRef)).bind _

/-! ### The whole -/

theorem cropSide_reads {side right : ℕ} (h : 2 * right < side) (hside : side < 2 ^ 32)
    (reason : String) : Reads rest (cropSide side right reason) [] (side - 2 * right) := by
  rw [cropSide, if_pos (by omega), if_pos (by omega)]
  exact .pure _

theorem crop_reads (s : Sps) :
    Reads rest (crop (16 * s.width.1) (16 * s.height.1)) s.cropBits s.size := by
  have hwidth := s.width.2
  have hheight := s.height.2
  rw [crop, cropBits, size]
  cases s.crop with
  | none => exact (read_one_reads false).bind_last (.pure _)
  | some crop =>
    obtain ⟨hright, hbottom⟩ := crop.2
    refine (read_one_reads true).bind (u := [true]) ?_
    refine (ue_reads (k := 0) (by omega)).bind ?_
    refine (ue_reads (by omega)).bind ?_
    refine (ue_reads (by omega)).bind ?_
    refine (ue_reads (by omega)).bind_last ?_
    exact (cropSide_reads hright (by omega) _).bind_nil
      ((cropSide_reads hbottom (by omega) _).bind_nil (.pure _))

theorem two_le_size (s : Sps) : 2 ≤ s.size.1 ∧ 2 ≤ s.size.2 := by
  have hwidth := s.width.2
  have hheight := s.height.2
  rw [size]
  cases s.crop with
  | none =>
    dsimp only
    omega
  | some crop =>
    obtain ⟨hright, hbottom⟩ := crop.2
    dsimp only
    omega

theorem u32_reads {n : ℕ} (h : n < 2 ^ 32) : Reads rest (u32 n) [] n := by
  rw [u32, if_pos h]
  exact .pure n

theorem read_bytes_reads (bytes : List UInt8) (h : bytes.length ≤ 4) :
    Reads rest (read (8 * bytes.length)) (ofBytes bytes) (BitString.value (ofBytes bytes)) := by
  have hread := read_reads (u := ofBytes bytes) (by rw [length_ofBytes]; omega)
  rwa [length_ofBytes] at hread

theorem geometry_tail (s : Sps) {tail : Reading (ℕ × ℕ)}
    (htail : tail = do
      let _ ← ue
      let _ ← read 1
      let macroWidth ← ue
      let macroHeight ← ue
      if ¬ (macroWidth < 512 ∧ macroHeight < 512) then
        refuse "H.264 dimensions exceed 8192 pixels"
      if (← read 1) ≠ 1 then refuse "interlaced H.264 is not supported"
      let _ ← read 1
      let width ← u32 ((macroWidth + 1) * 16)
      let height ← u32 ((macroHeight + 1) * 16)
      let (width, height) ← crop width height
      if ¬ (width ≥ 2 ∧ height ≥ 2) then refuse "empty H.264 picture"
      pure (width, height)) :
    Reads rest tail (BitString.ue s.refFrames.1 ++ ([s.gaps] ++ (BitString.ue (s.width.1 - 1) ++
      (BitString.ue (s.height.1 - 1) ++ ([true] ++ ([s.direct] ++ s.cropBits)))))) s.size := by
  have hframes := s.refFrames.2
  have hwidth := s.width.2
  have hheight := s.height.2
  have hw : (s.width.1 - 1 + 1) * 16 = 16 * s.width.1 := by omega
  have hh : (s.height.1 - 1 + 1) * 16 = 16 * s.height.1 := by omega
  rw [htail]
  refine (ue_reads (by omega)).bind ((read_one_reads s.gaps).bind ?_)
  refine (ue_reads (by omega)).bind ((ue_reads (by omega)).bind ?_)
  rw [if_neg (not_not.mpr ⟨by omega, by omega⟩)]
  refine (read_one_reads true).bind ?_
  refine (read_one_reads s.direct).bind ?_
  refine (u32_reads (by omega)).bind_nil ((u32_reads (by omega)).bind_nil ?_)
  rw [hw, hh]
  refine (crop_reads s).bind_last ?_
  have hsize : 2 ≤ s.size.1 ∧ 2 ≤ s.size.2 := two_le_size s
  dsimp only
  rw [if_neg (not_not.mpr hsize)]
  exact .pure _

theorem geometry_head (s : Sps) {f : Unit → Reading (ℕ × ℕ)} {v : List Bool}
    {r : Except Fault (ℕ × ℕ)} (hf : Spells rest (f ()) v r) :
    Spells rest (do
      let profile ← read 8
      let _ ← read 16
      let _ ← ue
      if profile ∈ highProfiles then highProfile >>= f else f ())
      (ofByte s.profile ++ ((ofByte s.constraints ++ ofByte s.level) ++ (BitString.ue s.id.1 ++
        ((if s.profile.toNat ∈ highProfiles then s.format.bits else []) ++ v)))) r := by
  have hid := s.id.2
  have hprofile : BitString.value (ofBytes [s.profile]) = s.profile.toNat := by
    rw [ofBytes, List.flatMap_cons, List.flatMap_nil, List.append_nil, ofByte, value_ofNat]
    exact Nat.mod_eq_of_lt s.profile.toNat_lt
  have hone := read_bytes_reads [s.profile] (by simp)
  have htwo := read_bytes_reads [s.constraints, s.level] (by simp)
  rw [hprofile] at hone
  simp only [ofBytes, List.flatMap_cons, List.flatMap_nil, List.append_nil] at hone htwo
  refine hone.bind_spells (htwo.bind_spells ((ue_reads (k := s.id.1) (by omega)).bind_spells ?_))
  by_cases hhigh : s.profile.toNat ∈ highProfiles
  · rw [if_pos hhigh, if_pos hhigh]
    exact (highProfile_reads s.format).bind_spells hf
  · rw [if_neg hhigh, if_neg hhigh]
    exact hf

theorem geometry_spells (s : Sps) :
    Spells rest geometry s.bits (if s.order.Small then .ok s.size else .error oversized) := by
  have hframeNum := s.frameNum.2
  have horder := pictureOrder_spells s.order
  rw [geometry, bits]
  refine geometry_head s ?_
  refine (ue_reads (k := s.frameNum.1) (by omega)).bind_spells ?_
  by_cases hsmall : s.order.Small
  · rw [if_pos hsmall] at horder ⊢
    exact Reads.bind horder (geometry_tail s rfl)
  · rw [if_neg hsmall] at horder ⊢
    exact Refuses.bind horder _

/-! ### Nothing overflows -/

/-- The command does not panic, and what it gives satisfies `Q`. -/
def Safe {α : Type} (m : Reading α) (Q : α → Prop) : Prop :=
  Cmd.Triple (fun _ => True) m (fun a _ => Q a) (fun e _ => e ≠ .panic)

section Safe

variable {α β : Type} {m : Reading α} {f : α → Reading β} {Q Q' : α → Prop} {R : β → Prop}

theorem Safe.pure {a : α} (h : Q a) : Safe (Pure.pure a) Q := Cmd.Triple.pure fun _ _ => h

theorem Safe.refuse (reason : String) : Safe (refuse reason) Q :=
  Cmd.Triple.throw fun _ _ => by simp

theorem Safe.bind (hm : Safe m Q) (hf : ∀ a, Q a → Safe (f a) R) : Safe (m >>= f) R :=
  Cmd.Triple.bind hm fun a s h => hf a h s trivial

theorem Safe.mono (hm : Safe m Q) (h : ∀ a, Q a → Q' a) : Safe m Q' :=
  Cmd.Triple.consequence hm (fun _ => id) (fun a _ => h a) fun _ _ => id

theorem Safe.ite {c : Prop} [Decidable c] {n : Reading α} (hpos : c → Safe m Q)
    (hneg : ¬ c → Safe n Q) : Safe (if c then m else n) Q := Cmd.Triple.ite hpos hneg

theorem Safe.check {c : Prop} [Decidable c] {reason : String} {g : Unit → Reading β}
    (h : ¬ c → Safe (g ()) R) : Safe (if c then Bitstream.refuse reason >>= g else g ()) R :=
  .ite (fun _ => (Safe.refuse reason).bind (Q := fun _ => False) fun _ => False.elim) h

end Safe

theorem u32_safe {n : ℕ} (h : n < 2 ^ 32) : Safe (u32 n) (· = n) := by
  rw [u32, if_pos h]
  exact .pure rfl

theorem i32_safe {n : ℤ} (h : -2 ^ 31 ≤ n ∧ n < 2 ^ 31) : Safe (i32 n) (· = n) := by
  rw [i32, if_pos h]
  exact .pure rfl

theorem read_safe {count : ℕ} (h : count ≤ 32) : Safe (read count) (· < 2 ^ count) := by
  intro bits _
  rw [read]
  split
  · next hleft =>
    set u := ((ofBytes bits.data).drop bits.offset).take count with hu
    have hlen : u.length = count := by
      rw [hu, List.length_take, List.length_drop, length_ofBytes]
      omega
    have hrun := @readLoop_ok u _ bits (List.take_append_drop count _).symm 0 0 (by omega)
      (by rw [hlen]; omega)
    rw [hlen, Nat.zero_mul, Nat.zero_add] at hrun
    rw [hrun]
    refine ⟨fun a ha => ?_, fun e he => (by cases he)⟩
    cases ha
    have hlt := value_lt u
    rwa [hlen] at hlt
  · refine ⟨fun a ha => (by cases ha), fun e he => ?_⟩
    cases he
    simp

theorem leadingZeros_safe (rounds : ℕ) {leading : ℕ} (h : leading < 31) :
    Safe (leadingZeros rounds leading) (· < 31) := by
  induction rounds generalizing leading with
  | zero => exact .refuse _
  | succ rounds ih =>
    rw [leadingZeros]
    refine (read_safe (by omega)).bind fun bit _ => .ite (fun _ => .pure h) fun _ => ?_
    exact .ite ih fun _ => .refuse _

theorem ue_safe : Safe ue (· < 2 ^ 31 - 1) := by
  refine (leadingZeros_safe 31 (by omega)).bind fun leading hleading => ?_
  have hpow : 2 ^ leading ≤ 2 ^ 30 := Nat.pow_le_pow_right (by omega) (by omega)
  refine (u32_safe (by omega)).bind fun top htop => ?_
  refine (read_safe (by omega)).bind fun low hlow => ?_
  exact (u32_safe (by omega)).mono fun a ha => by omega

theorem se_safe : Safe se (fun v => -2 ^ 30 ≤ v ∧ v ≤ 2 ^ 30) := by
  refine ue_safe.bind fun value hvalue => .ite (fun _ => .pure ?_) fun _ => ?_
  · rw [asI32, if_pos (by omega)]
    omega
  · rw [asI32, if_pos (by omega), Int.tdiv_eq_ediv_of_nonneg (by omega)]
    exact (i32_safe (by omega)).mono fun a ha => by omega

theorem scalingList_safe (count : ℕ) {last next : ℤ} (hlast : 0 ≤ last ∧ last < 256)
    (hnext : 0 ≤ next ∧ next < 256) : Safe (scalingList count last next) fun _ => True := by
  induction count generalizing last next with
  | zero => exact .pure trivial
  | succ count ih =>
    have hnext' : ∀ {n : ℤ}, 0 ≤ n ∧ n < 256 → Safe (do
        let next ← pure n
        scalingList count (if next = 0 then last else next) next) fun _ => True := by
      intro n hn
      exact Safe.bind (Q := fun n => 0 ≤ n ∧ n < 256) (.pure hn) fun n hn =>
        ih (by split <;> assumption) hn
    rw [scalingList]
    refine .ite (fun _ => se_safe.bind fun delta hdelta => ?_) fun _ => hnext' hnext
    refine (i32_safe (by omega)).bind fun sum hsum => ?_
    exact (i32_safe (by omega)).bind fun sum' _ => hnext' (by omega)

theorem scalingLists_safe (indices : List ℕ) : Safe (scalingLists indices) fun _ => True := by
  induction indices with
  | nil => exact .pure trivial
  | cons index indices ih =>
    rw [scalingLists]
    refine (read_safe (by omega)).bind fun bit _ => .ite (fun _ => ?_) fun _ => ih
    exact (scalingList_safe _ (by omega) (by omega)).bind fun _ _ => ih

theorem highProfile_safe : Safe highProfile fun _ => True := by
  refine ue_safe.bind fun _ _ => .check fun _ => ?_
  refine ue_safe.bind fun _ _ => .check fun _ => ?_
  refine ue_safe.bind fun _ _ => .check fun _ => ?_
  refine (read_safe (by omega)).bind fun _ _ => (read_safe (by omega)).bind fun _ _ => ?_
  exact .ite (fun _ => scalingLists_safe _) fun _ => .pure trivial

theorem skipSe_safe (count : ℕ) : Safe (skipSe count) fun _ => True := by
  induction count with
  | zero => exact .pure trivial
  | succ count ih => exact se_safe.bind fun _ _ => ih

theorem pictureOrder_safe : Safe pictureOrder fun _ => True := by
  refine ue_safe.bind fun order _ => ?_
  split
  · exact ue_safe.bind fun _ _ => .pure trivial
  · refine (read_safe (by omega)).bind fun _ _ => se_safe.bind fun _ _ => ?_
    refine se_safe.bind fun _ _ => ue_safe.bind fun count _ => ?_
    exact .check fun _ => skipSe_safe count
  · exact .pure trivial
  · exact .refuse _

theorem cropSide_safe (side crop : ℕ) (reason : String) :
    Safe (cropSide side crop reason) fun _ => True :=
  .ite (fun _ => .ite (fun _ => .pure trivial) fun _ => .refuse _) fun _ => .refuse _

theorem crop_safe (width height : ℕ) : Safe (crop width height) fun _ => True := by
  refine (read_safe (by omega)).bind fun _ _ => .ite (fun _ => ?_) fun _ => .pure trivial
  refine ue_safe.bind fun _ _ => ue_safe.bind fun right _ => ?_
  refine ue_safe.bind fun _ _ => ue_safe.bind fun bottom _ => .check fun _ => ?_
  refine (cropSide_safe width right _).bind fun _ _ => ?_
  exact (cropSide_safe height bottom _).bind fun _ _ => .pure trivial

theorem geometry_safe : Safe geometry fun _ => True := by
  refine (read_safe (by omega)).bind fun _ _ => (read_safe (by omega)).bind fun _ _ => ?_
  refine ue_safe.bind fun _ _ => .ite (fun _ => highProfile_safe.bind fun _ _ => ?_) fun _ => ?_
  -- the rest is the same for all profiles
  all_goals
    refine ue_safe.bind fun _ _ => pictureOrder_safe.bind fun _ _ => ue_safe.bind fun _ _ => ?_
    refine (read_safe (by omega)).bind fun _ _ => ue_safe.bind fun macroWidth _ => ?_
    refine ue_safe.bind fun macroHeight _ => .check fun hmacros => ?_
    refine (read_safe (by omega)).bind fun _ _ => .check fun _ => ?_
    refine (read_safe (by omega)).bind fun _ _ => (u32_safe (by omega)).bind fun width _ => ?_
    refine (u32_safe (by omega)).bind fun height _ => (crop_safe width height).bind fun size _ => ?_
    exact .check fun _ => .pure trivial

end Bits

theorem not_replicate_prefix {byte : UInt8} (h : byte ≠ 0) {k : ℕ} (hk : 0 < k)
    (data : List UInt8) : ¬ List.replicate k 0 <+: byte :: data := by
  obtain ⟨k, rfl⟩ : ∃ j, k = j + 1 := ⟨k - 1, by omega⟩
  rw [List.replicate_succ, List.cons_prefix_cons]
  exact fun hprefix => h hprefix.1.symm

theorem cons_panic_iff {byte : UInt8} {rbsp : Except Fault (List UInt8)} :
    (do
      let rbsp ← rbsp
      return byte :: rbsp) = .error .panic ↔ rbsp = .error .panic := by
  cases rbsp with
  | ok rbsp => exact iff_of_false (fun h => (by cases h)) fun h => (by cases h)
  | error e => exact Iff.rfl

/-- The counter of the zeros ends where `2 ^ 31` of them stand in a row. -/
theorem unescapeLoop_panic_iff (data : List UInt8) {zeros n : ℕ} (hn : 0 < n)
    (h : zeros + n = 2 ^ 31) :
    unescapeLoop zeros data = .error .panic ↔
      List.replicate n 0 <+: data ∨ List.replicate (2 ^ 31) 0 <:+: data := by
  induction data generalizing zeros n with
  | nil =>
    rw [unescapeLoop, List.prefix_nil, List.infix_nil, List.replicate_eq_nil_iff,
      List.replicate_eq_nil_iff]
    refine ⟨fun h => (by cases h), fun h => ?_⟩
    omega
  | cons byte data ih =>
    by_cases hbyte : byte = 0
    · obtain ⟨m, rfl⟩ : ∃ m, n = m + 1 := ⟨n - 1, by omega⟩
      -- The longer of two runs that begin here is one more than the shorter behind it.
      have hlonger : List.replicate (2 ^ 31) 0 <+: byte :: data → List.replicate m 0 <+: data := by
        intro hprefix
        have hsplit : List.replicate (2 ^ 31) (0 : UInt8) =
            0 :: (List.replicate m 0 ++ List.replicate zeros 0) := by
          rw [List.replicate_append_replicate, ← List.replicate_succ]
          congr 1
          omega
        rw [hsplit, List.cons_prefix_cons] at hprefix
        exact (List.prefix_append _ _).trans hprefix.2
      have hhere : List.replicate (m + 1) 0 <+: byte :: data ↔ List.replicate m 0 <+: data := by
        rw [List.replicate_succ, List.cons_prefix_cons, hbyte, eq_self, true_and]
      rw [unescapeLoop, if_neg (by simp [hbyte]), if_pos hbyte, hhere, List.infix_cons_iff]
      by_cases hlast : m = 0
      · rw [if_pos ⟨hbyte, by omega⟩, hlast]
        exact iff_of_true rfl (.inl (List.nil_prefix))
      · rw [if_neg (by omega), cons_panic_iff, @ih (zeros + 1) m (by omega) (by omega)]
        exact ⟨fun h => h.imp_right .inr, fun h => h.elim .inl fun h => h.imp_left hlonger⟩
    · have hnot := not_replicate_prefix hbyte (k := n) hn data
      have hnot' := not_replicate_prefix hbyte (k := 2 ^ 31) (by omega) data
      have hrest := @ih 0 (2 ^ 31) (by omega) (by omega)
      rw [or_iff_right_of_imp List.IsPrefix.isInfix] at hrest
      rw [unescapeLoop, if_neg hbyte, or_iff_right hnot, List.infix_cons_iff, or_iff_right hnot']
      split
      · exact hrest
      · rw [if_neg fun hzero => hbyte hzero.1, cons_panic_iff]
        exact hrest

theorem unescape_panic_iff (data : List UInt8) :
    unescape data = .error .panic ↔ List.replicate (2 ^ 31) 0 <:+: data := by
  rw [unescape, unescapeLoop_panic_iff data (n := 2 ^ 31) (by omega) (by omega),
    or_iff_right_of_imp List.IsPrefix.isInfix]

theorem dimensions_panic_iff (sps : List UInt8) :
    dimensions sps = .error .panic ↔
      sps.head?.any (· &&& 31 = 7) ∧ List.replicate (2 ^ 31) 0 <:+: sps.drop 1 := by
  rw [dimensions]
  by_cases hkind : sps.head?.any (· &&& 31 = 7)
  · rw [if_neg (not_not.mpr hkind), ← unescape_panic_iff, and_iff_right hkind]
    cases unescape (sps.drop 1) with
    | error e =>
      show Except.error e = Except.error _ ↔ Except.error e = Except.error _
      rw [Except.error.injEq, Except.error.injEq]
    | ok rbsp =>
      have hsafe := (Bits.geometry_safe ⟨rbsp, 0⟩ trivial).2 .panic
      exact iff_of_false (fun h => hsafe h rfl) fun h => (by cases h)
  · rw [if_pos hkind]
    exact iff_of_false (fun h => (by cases h)) fun h => hkind h.1

theorem length_rbsp (s : Sps) : s.rbsp.length % 8 = 0 := by
  rw [rbsp, List.length_append, List.length_replicate]
  omega

theorem dimensions_encode (s : Sps) :
    dimensions s.encode = if s.order.Small then .ok s.size else .error Bits.oversized := by
  have hkind : s.encode.head?.any (· &&& 31 = 7) := by
    simpa [encode] using s.header_kind
  have hrest : Bits.rest ⟨pack s.rbsp, 0⟩ = some (s.bits ++ (s.vui ++ [true] ++
      List.replicate ((8 - (s.bits ++ s.vui ++ [true]).length % 8) % 8) false)) := by
    rw [Bits.rest, if_pos (Nat.zero_le _), List.drop_zero, ofBytes_pack (length_rbsp s), rbsp]
    simp only [List.append_assoc]
  have hspells := Bits.geometry_spells s
  rw [dimensions, if_neg (not_not.mpr hkind), encode, List.drop_one, List.tail_cons,
    unescape_escape]
  show (Bits.geometry ⟨pack s.rbsp, 0⟩).1 = _
  by_cases hsmall : s.order.Small
  · rw [if_pos hsmall] at hspells ⊢
    obtain ⟨bits, hrun, -⟩ := hspells _ _ hrest
    rw [hrun]
  · rw [if_neg hsmall] at hspells ⊢
    obtain ⟨bits, hrun⟩ := hspells _ _ hrest
    rw [hrun]

/-- **Geometry**: the reader neither overflows nor leaves its bytes, and what the syntax of H.264
spells it reads exactly, up to the offsets that it refuses as too large. -/
theorem dimensions_exact :
    (∀ sps : List UInt8, ¬ List.replicate (2 ^ 31) 0 <:+: sps → dimensions sps ≠ .error .panic) ∧
      ∀ s : Sps, dimensions s.encode =
        if s.order.Small then .ok s.size else .error Bits.oversized := by
  refine ⟨fun sps hzeros hpanic => ?_, dimensions_encode⟩
  obtain ⟨-, hrun⟩ := (dimensions_panic_iff sps).mp hpanic
  exact hzeros (hrun.trans (List.drop_suffix 1 sps).isInfix)

/-- Pictures of 1920 by 1080, in the high profile. -/
def fullHd : Sps where
  header := 0x67
  header_kind := by decide
  profile := 100
  constraints := 0
  level := 40
  id := ⟨0, by omega⟩
  format := ⟨false, some fun index => if index = 0 then some ⟨fun _ => -1, fun _ => by norm_num⟩ else none⟩
  frameNum := ⟨0, by omega⟩
  order := .cycle false ⟨0, by omega⟩ ⟨-3, by omega⟩ ⟨[⟨7, by omega⟩], by decide⟩
  refFrames := ⟨4, by omega⟩
  gaps := false
  width := ⟨120, by omega⟩
  height := ⟨68, by omega⟩
  direct := true
  crop := some ⟨(0, 4), by decide⟩
  vui := [false]

theorem dimensions_exact_fullHd :
    dimensions [0x67, 0x68, 1] ≠ .error .panic ∧ dimensions fullHd.encode = .ok (1920, 1080) := by
  refine ⟨dimensions_exact.1 _ fun h => ?_, (dimensions_exact.2 fullHd).trans (if_pos ?_)⟩
  · have hlength := h.length_le
    rw [List.length_replicate] at hlength
    simp at hlength
  · decide

/-- An offset that the syntax allows and the reader does not. -/
def distant : Sps :=
  { fullHd with
    profile := 66
    order := .cycle false ⟨2 ^ 30, by omega⟩ ⟨0, by omega⟩ ⟨[], by decide⟩
    crop := none }

theorem dimensions_distant :
    distant.encode =
        [103, 66, 0, 40, 208, 0, 0, 3, 0, 4, 0, 0, 3, 0, 6, 80, 30, 0, 137, 144] ∧
      dimensions distant.encode = .error (.refused "oversized H.264 Exp-Golomb value") ∧
      distant.size = (1920, 1088) ∧
      dimensions (0x67 :: List.replicate (2 ^ 31) 0) = .error .panic := by
  refine ⟨by decide +kernel, (dimensions_encode distant).trans (if_neg (by decide)), rfl, ?_⟩
  exact (dimensions_panic_iff _).mpr ⟨by decide, List.infix_rfl⟩

end Bitstream

end NebulaDesk
