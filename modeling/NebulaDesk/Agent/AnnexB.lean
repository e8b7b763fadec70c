/-
What becomes of the units of an encoded frame.

* `units_eq_ok_iff` — the scanner finds what `StartCodes.parse` finds;
* `frames_repackaged` — after any calls, a frame that is taken is turned into the units that are
  not parameter sets, before which an IDR has the parameter sets seen last.
-/
import NebulaDesk.Agent.Bitstream
import NebulaDesk.Lib.Layout

namespace NebulaDesk

namespace Bitstream

open StartCodes

/-! ### Scanning -/

theorem scan_marks (rest : List UInt8) (i : ℕ) : Marks rest i (scan rest i) := by
  induction rest, i using scan.induct with
  | case1 a b c d rest i hlong ih =>
    rw [scan, if_pos hlong]
    simp only [List.cons.injEq, and_true] at hlong
    obtain ⟨rfl, rfl, rfl, rfl⟩ := hlong
    exact .long ih
  | case2 a b c d rest i hlong hcode ih =>
    rw [scan, if_neg hlong, if_pos hcode]
    simp only [List.cons.injEq, and_true] at hcode
    obtain ⟨rfl, rfl, rfl⟩ := hcode
    exact .code ih
  | case3 a b c d rest i hlong hcode ih =>
    rw [scan, if_neg hlong, if_neg hcode]
    refine .skip (fun h => hcode ?_) ih
    exact (List.prefix_iff_eq_take.mp h).symm
  | case4 a b c i hcode =>
    rw [scan, if_pos hcode]
    simp only [List.cons.injEq, and_true] at hcode
    obtain ⟨rfl, rfl, rfl⟩ := hcode
    exact .code (.nil _)
  | case5 a b c i hcode =>
    rw [scan, if_neg hcode]
    refine .skip (fun h => hcode ?_) (marks_of_length_lt (by simp) _)
    exact (List.prefix_iff_eq_take.mp h).symm
  | case6 rest i hfour hthree =>
    have hlen : rest.length < 3 := by
      match rest with
      | [] | [_] | [_, _] => simp
      | [a, b, c] => exact absurd rfl (hthree a b c)
      | a :: b :: c :: d :: rest => exact absurd rfl (hfour a b c d rest)
    rw [scan]
    · exact marks_of_length_lt hlen i
    · exact hfour
    · exact hthree

theorem unitsFrom_eq {bytes : List UInt8} {marks : List (ℕ × ℕ)}
    (h : ∀ mark ∈ marks, mark.1 ≤ bytes.length) :
    unitsFrom bytes marks =
      if [] ∈ cut bytes marks then .error (.refused "empty Annex B NAL")
      else .ok (cut bytes marks) := by
  induction marks with
  | nil => rfl
  | cons mark more ih =>
    obtain ⟨_, start⟩ := mark
    have hmore : ∀ mark ∈ more, mark.1 ≤ bytes.length := fun m hm => h m (List.mem_cons_of_mem _ hm)
    have hnil : slice bytes start (trimEnd bytes start (next bytes more)) = [] ↔
        trimEnd bytes start (next bytes more) ≤ start := slice_trimEnd_eq_nil_iff hmore
    rw [unitsFrom, ih hmore, cut]
    by_cases hle : trimEnd bytes start (next bytes more) ≤ start
    · rw [if_pos (List.mem_cons.mpr (.inl (hnil.mpr hle).symm))]
      exact if_pos hle
    · have hunit : [] ≠ slice bytes start (trimEnd bytes start (next bytes more)) :=
        fun h => hle (hnil.mp h.symm)
      refine (if_neg hle).trans ?_
      by_cases hmem : [] ∈ cut bytes more
      · rw [if_pos hmem, if_pos (List.mem_cons_of_mem _ hmem)]
        rfl
      · rw [if_neg hmem, if_neg fun h => (List.mem_cons.mp h).elim hunit hmem]
        rfl

theorem units_eq_ok_iff {bytes : List UInt8} :
    units bytes = .ok nals ↔ parse bytes = some nals := by
  have hmarks := scan_marks bytes 0
  have hle : ∀ mark ∈ scan bytes 0, mark.1 ≤ bytes.length := hmarks.le_length rfl
  rw [hmarks.parse_eq, units]
  cases hscan : scan bytes 0 with
  | nil => simp
  | cons mark more =>
    obtain ⟨first, start⟩ := mark
    rw [hscan] at hle
    have hnext : next bytes ((first, start) :: more) = first := rfl
    have hall : (bytes.take first).all (· = 0) = true ↔ ∀ b ∈ bytes.take first, b = 0 := by
      simp
    dsimp only
    rw [hnext]
    by_cases hzeros : ∀ b ∈ bytes.take first, b = 0
    · rw [if_pos (hall.mpr hzeros), unitsFrom_eq hle]
      split
      · next hmem =>
        rw [if_neg fun h => h.2.2 hmem]
        simp
      · next hmem =>
        rw [if_pos ⟨List.cons_ne_nil _ _, hzeros, hmem⟩]
        simp
    · rw [if_neg fun h => hzeros (hall.mp h), if_neg fun h => hzeros h.2.1]
      simp

theorem units_join {items : List Item} (hne : items ≠ []) (h : ∀ i ∈ items, Clean i.unit) :
    units (join items) = .ok (items.map Item.unit) :=
  units_eq_ok_iff.mpr (parse_join hne h)

/-! ### Lengths -/

theorem fromBeBytes_toBeBytes {n : ℕ} (h : n < 2 ^ 32) : fromBeBytes (toBeBytes n) = n := by
  rw [fromBeBytes, toBeBytes, List.reverse_reverse, Bytes.fromLeBytes_toLeBytes_of_lt h]

theorem exists_toBeBytes (n : ℕ) : ∃ a b c d, toBeBytes n = [a, b, c, d] :=
  ⟨_, _, _, _, rfl⟩

/-- Units behind their lengths. -/
def avcc (units : List (List UInt8)) : List UInt8 :=
  units.flatMap fun unit => toBeBytes unit.length ++ unit

@[simp] theorem avcc_nil : avcc [] = [] := rfl

theorem avcc_cons (unit : List UInt8) (units : List (List UInt8)) :
    avcc (unit :: units) = toBeBytes unit.length ++ (unit ++ avcc units) := by
  rw [avcc, List.flatMap_cons, List.append_assoc]
  rfl

theorem avcc_append (units more : List (List UInt8)) :
    avcc (units ++ more) = avcc units ++ avcc more := List.flatMap_append

/-- A unit that the wire can carry. -/
structure Framed (unit : List UInt8) : Prop where
  ne_nil : unit ≠ []
  length_lt : unit.length < 2 ^ 32
  forbidden : unit.headD 0 &&& 0x80 = 0

theorem annexBLoop_avcc {units : List (List UInt8)} (h : ∀ unit ∈ units, Framed unit)
    (out : List UInt8) :
    annexBLoop (avcc units) out = .ok (out ++ units.flatMap ([0, 0, 0, 1] ++ ·)) := by
  induction units generalizing out with
  | nil => simp [annexBLoop]
  | cons unit units ih =>
    have hunit := h unit List.mem_cons_self
    obtain ⟨a, b, c, d, hlength⟩ := exists_toBeBytes unit.length
    have hread := fromBeBytes_toBeBytes hunit.length_lt
    have hpos : 0 < unit.length := List.length_pos_iff.mpr hunit.ne_nil
    have hhead : (unit ++ avcc units).headD 0 = unit.headD 0 := by
      cases unit with
      | nil => exact absurd rfl hunit.ne_nil
      | cons => rfl
    rw [hlength] at hread
    rw [avcc_cons, hlength]
    show annexBLoop (a :: b :: c :: d :: (unit ++ avcc units)) out = _
    rw [annexBLoop, hread, if_neg (by simp [hpos]), hhead,
      if_neg (not_not.mpr hunit.forbidden), List.drop_left, List.take_left,
      ih fun u hu => h u (List.mem_cons_of_mem _ hu)]
    simp

theorem annexB_nil : annexB [] = .error (.refused "empty H.264 frame") := by
  rw [annexB, annexBLoop]
  rfl

theorem annexB_avcc {units : List (List UInt8)} (hne : units ≠ [])
    (h : ∀ unit ∈ units, Framed unit) :
    annexB (avcc units) = .ok (units.flatMap ([0, 0, 0, 1] ++ ·)) := by
  have hout : units.flatMap ([0, 0, 0, 1] ++ ·) ≠ [] := by
    intro hnil
    obtain ⟨unit, more, rfl⟩ := List.exists_cons_of_ne_nil hne
    simp at hnil
  rw [annexB, annexBLoop_avcc h]
  exact if_neg hout

/-! ### Frames -/

def isParameterSet (unit : List UInt8) : Bool := kind unit = 7 ∨ kind unit = 8

theorem append_eq_ok_iff {out unit out' : List UInt8} :
    append out unit = .ok out' ↔
      unit.length < 2 ^ 32 ∧ out' = out ++ (toBeBytes unit.length ++ unit) := by
  unfold append
  split
  · next h => exact ⟨fun hok => ⟨h, by rw [← Except.ok.inj hok, List.append_assoc]⟩,
      fun hok => by rw [hok.2, List.append_assoc]⟩
  · next h => exact ⟨nofun, fun hok => absurd hok.1 h⟩

theorem appendNals_cons {unit : List UInt8} {out out' : List UInt8}
    (h : appendNals (unit :: nals) out = .ok out') :
    ∃ mid, (if isParameterSet unit then mid = out else append out unit = .ok mid) ∧
      appendNals nals mid = .ok out' := by
  have hadded : (if kind unit = 7 ∨ kind unit = 8 then appendNals nals out
      else append out unit >>= appendNals nals) = .ok out' := by
    rw [appendNals] at h
    split at h
    · obtain ⟨_, _, hadded⟩ := Layout.bind_eq_ok.mp h
      exact hadded
    · exact h
  unfold isParameterSet
  split at hadded
  · next hkind => exact ⟨out, by rw [if_pos (decide_eq_true hkind)], hadded⟩
  · next hkind =>
    obtain ⟨mid, hmid, hrest⟩ := Layout.bind_eq_ok.mp hadded
    exact ⟨mid, by rwa [if_neg (by simpa using hkind)], hrest⟩

theorem appendNals_ok {out out' : List UInt8} (h : appendNals nals out = .ok out') :
    out' = out ++ avcc (nals.filter (!isParameterSet ·)) ∧
      ∀ unit ∈ nals.filter (!isParameterSet ·), unit.length < 2 ^ 32 := by
  induction nals generalizing out with
  | nil =>
    cases h
    simp
  | cons unit nals ih =>
    obtain ⟨mid, hmid, hrest⟩ := appendNals_cons h
    obtain ⟨hout, hlen⟩ := ih hrest
    by_cases hkind : isParameterSet unit
    · rw [if_pos hkind] at hmid
      subst hmid
      rw [List.filter_cons_of_neg (by simp [hkind])]
      exact ⟨hout, hlen⟩
    · rw [if_neg hkind, append_eq_ok_iff] at hmid
      obtain ⟨hunit, rfl⟩ := hmid
      rw [List.filter_cons_of_pos (by simp [hkind]), avcc_cons, hout]
      refine ⟨by simp only [List.append_assoc], fun u hu => ?_⟩
      rcases List.mem_cons.mp hu with rfl | hu
      · exact hunit
      · exact hlen u hu

/-- What `emit` sends: before an IDR the parameter sets, and all units that are none. -/
def ParameterSets.sent (sets : ParameterSets) (nals : List (List UInt8)) : List (List UInt8) :=
  (if nals.any (kind · = 5) then [sets.sps, sets.pps] else []) ++ nals.filter (!isParameterSet ·)

theorem header_ok {sets : ParameterSets} {idr : Bool} {out : List UInt8}
    (h : sets.header idr = .ok out) :
    out = avcc (if idr then [sets.sps, sets.pps] else []) ∧
      (idr = true → ∀ unit ∈ [sets.sps, sets.pps], unit ≠ [] ∧ unit.length < 2 ^ 32) := by
  unfold ParameterSets.header at h
  split at h
  · next hidr =>
    split at h
    · cases h
    next hsome =>
    obtain ⟨first, hfirst, hsecond⟩ := Layout.bind_eq_ok.mp h
    obtain ⟨hsps, rfl⟩ := append_eq_ok_iff.mp hfirst
    obtain ⟨hpps, rfl⟩ := append_eq_ok_iff.mp hsecond
    rw [not_or] at hsome
    refine ⟨?_, fun _ unit hunit => ?_⟩
    · rw [if_pos hidr, avcc_cons, avcc_cons, avcc_nil]
      simp only [List.append_assoc, List.nil_append, List.append_nil]
    · simp only [List.mem_cons, List.not_mem_nil, or_false] at hunit
      rcases hunit with rfl | rfl
      · exact ⟨hsome.1, hsps⟩
      · exact ⟨hsome.2, hpps⟩
  · next hidr =>
    rw [if_neg hidr, ← Except.ok.inj h]
    exact ⟨rfl, fun h => absurd h hidr⟩

theorem emit_ok {sets : ParameterSets} {bytes out : List UInt8}
    {key : Bool} (hunits : units bytes = .ok nals) (h : sets.emit bytes = .ok (key, out)) :
    key = nals.any (kind · = 5) ∧ out = avcc (sets.sent nals) ∧
      (∀ unit ∈ sets.sent nals, unit.length < 2 ^ 32) ∧
      (key = true → sets.sps ≠ [] ∧ sets.pps ≠ []) := by
  rw [ParameterSets.emit, hunits] at h
  obtain ⟨_, hnals, h⟩ := Layout.bind_eq_ok.mp h
  cases hnals
  obtain ⟨head, hhead, h⟩ := Layout.bind_eq_ok.mp h
  obtain ⟨body, hbody, h⟩ := Layout.bind_eq_ok.mp h
  cases h
  obtain ⟨rfl, hsets⟩ := header_ok hhead
  obtain ⟨rfl, hlen⟩ := appendNals_ok hbody
  refine ⟨rfl, by rw [ParameterSets.sent, avcc_append], fun unit hunit => ?_, fun hkey => ?_⟩
  · rcases List.mem_append.mp hunit with hunit | hunit
    · split at hunit
      · next hkey => exact (hsets hkey unit hunit).2
      · cases hunit
    · exact hlen unit hunit
  · exact ⟨(hsets hkey _ (by simp)).1, (hsets hkey _ (by simp)).1⟩

/-! ### Histories -/

/-- What an encoder hands over: units, each behind a start code. -/
structure Stream where
  items : List Item
  clean : ∀ i ∈ items, Clean i.unit
  forbidden : ∀ i ∈ items, i.unit.headD 0 &&& 0x80 = 0

namespace Stream

def bytes (s : Stream) : List UInt8 := join s.items

def units (s : Stream) : List (List UInt8) := s.items.map Item.unit

end Stream

/-- A call on the cached parameter sets. -/
inductive Call
  | absorb (header : Stream)
  | frame (encoded : Stream)

namespace Call

def stream : Call → Stream
  | absorb header => header
  | frame encoded => encoded

/-- The parameter sets that a call leaves, whether it succeeds or not. -/
def run (sets : ParameterSets) : Call → ParameterSets
  | absorb header => (ParameterSets.absorb header.bytes sets).2
  | frame encoded => (ParameterSets.frame encoded.bytes sets).2

end Call

/-- The parameter sets after some calls. -/
def replay (history : List Call) : ParameterSets := history.foldl Call.run {}

/-- The units of some calls. -/
def seen (history : List Call) : List (List UInt8) := history.flatMap fun c => c.stream.units

def lastOf (k : UInt8) (units : List (List UInt8)) : Option (List UInt8) :=
  (units.filter (kind · = k)).getLast?

theorem absorb_snd (s : Stream) (sets : ParameterSets) :
    (ParameterSets.absorb s.bytes sets).2 = s.units.foldl ParameterSets.absorbUnit sets := by
  unfold ParameterSets.absorb
  by_cases hne : s.items = []
  · have hunits : units s.bytes = .error
        (.refused "Media Foundation returned H.264 without Annex B start codes") := by
      rw [Stream.bytes, hne]
      rfl
    rw [hunits, Stream.units, hne]
    rfl
  · rw [Stream.bytes, units_join hne s.clean]
    rfl

theorem frame_snd (bytes : List UInt8) (sets : ParameterSets) :
    (ParameterSets.frame bytes sets).2 = (ParameterSets.absorb bytes sets).2 := by
  cases habsorb : ParameterSets.absorb bytes sets with
  | mk result sets' =>
    unfold ParameterSets.frame
    cases result with
    | ok _ =>
      rw [Cmd.bind_ok habsorb]
      rfl
    | error e => rw [Cmd.bind_error habsorb]

theorem frame_eq {bytes : List UInt8} {nals : List (List UInt8)} (h : units bytes = .ok nals) :
    ParameterSets.frame bytes sets =
      ((nals.foldl ParameterSets.absorbUnit sets).emit bytes,
        nals.foldl ParameterSets.absorbUnit sets) := by
  have habsorb : ParameterSets.absorb bytes sets =
      (.ok (), nals.foldl ParameterSets.absorbUnit sets) := by
    rw [ParameterSets.absorb, h]
  exact Cmd.bind_ok habsorb

theorem units_of_frame {bytes : List UInt8} {r : Bool × List UInt8}
    (h : (ParameterSets.frame bytes sets).1 = .ok r) : ∃ nals, units bytes = .ok nals := by
  cases hunits : units bytes with
  | ok nals => exact ⟨nals, rfl⟩
  | error e =>
    have habsorb : ParameterSets.absorb bytes sets = (.error e, sets) := by
      rw [ParameterSets.absorb, hunits]
    have hframe : ParameterSets.frame bytes sets = (.error e, sets) := Cmd.bind_error habsorb
    rw [hframe] at h
    cases h

theorem run_eq (sets : ParameterSets) (c : Call) :
    c.run sets = c.stream.units.foldl ParameterSets.absorbUnit sets := by
  cases c with
  | absorb header => exact absorb_snd header sets
  | frame encoded => exact (frame_snd _ _).trans (absorb_snd encoded sets)

theorem foldl_run (history : List Call) (sets : ParameterSets) :
    history.foldl Call.run sets = (seen history).foldl ParameterSets.absorbUnit sets := by
  induction history generalizing sets with
  | nil => rfl
  | cons c history ih => rw [List.foldl_cons, ih, run_eq, seen, seen, List.flatMap_cons,
      List.foldl_append]

theorem foldl_absorbUnit (units : List (List UInt8)) (sets : ParameterSets) :
    (units.foldl ParameterSets.absorbUnit sets).sps = (lastOf 7 units).getD sets.sps ∧
      (units.foldl ParameterSets.absorbUnit sets).pps = (lastOf 8 units).getD sets.pps := by
  induction units generalizing sets with
  | nil => exact ⟨rfl, rfl⟩
  | cons unit units ih =>
    obtain ⟨hsps, hpps⟩ := ih (sets.absorbUnit unit)
    rw [List.foldl_cons, hsps, hpps, lastOf, lastOf, lastOf, lastOf, ParameterSets.absorbUnit]
    by_cases hseven : kind unit = 7
    · rw [if_pos hseven, List.filter_cons_of_pos (by simp [hseven]),
        List.filter_cons_of_neg (by simp [hseven]), List.getLast?_cons]
      exact ⟨rfl, rfl⟩
    by_cases height : kind unit = 8
    · rw [if_neg hseven, if_pos height, List.filter_cons_of_neg (by simp [height]),
        List.filter_cons_of_pos (by simp [height]), List.getLast?_cons]
      exact ⟨rfl, rfl⟩
    · rw [if_neg hseven, if_neg height, List.filter_cons_of_neg (by simp [hseven]),
        List.filter_cons_of_neg (by simp [height])]
      exact ⟨rfl, rfl⟩

/-- Before an IDR stand the parameter sets seen last, before other frames nothing. -/
def Lead (all : List (List UInt8)) : Bool → List (List UInt8) → Prop
  | true, lead => ∃ sps pps, lastOf 7 all = some sps ∧ lastOf 8 all = some pps ∧ lead = [sps, pps]
  | false, lead => lead = []

theorem mem_of_lastOf {k : UInt8} {all : List (List UInt8)} {unit : List UInt8}
    (h : lastOf k all = some unit) : unit ∈ all :=
  List.mem_of_mem_filter (List.mem_of_getLast? h)

theorem join_long (units : List (List UInt8)) :
    join (units.map fun unit => ⟨true, unit, 0⟩) = units.flatMap ([0, 0, 0, 1] ++ ·) := by
  rw [join, List.flatMap_map]
  refine List.flatMap_congr fun unit _ => ?_
  rw [Item.spell, List.replicate_zero, List.append_nil]
  rfl

theorem lead_of_sets {all : List (List UInt8)} {key : Bool}
    (hsets : sets = all.foldl ParameterSets.absorbUnit {})
    (h : key = true → sets.sps ≠ [] ∧ sets.pps ≠ []) :
    Lead all key (if key then [sets.sps, sets.pps] else []) := by
  cases key with
  | false => rfl
  | true =>
    obtain ⟨hsps, hpps⟩ := h rfl
    obtain ⟨hseven, height⟩ := foldl_absorbUnit all {}
    rw [← hsets] at hseven height
    cases hlast : lastOf 7 all with
    | none => exact absurd (hseven.trans (by rw [hlast]; rfl)) hsps
    | some sps =>
    cases hlast' : lastOf 8 all with
    | none => exact absurd (height.trans (by rw [hlast']; rfl)) hpps
    | some pps =>
    refine ⟨sps, pps, hlast, hlast', ?_⟩
    rw [if_pos rfl, hseven, height, hlast, hlast']
    rfl

/-- A unit of an encoder. -/
def Sound (unit : List UInt8) : Prop := Clean unit ∧ unit.headD 0 &&& 0x80 = 0

theorem Stream.sound (s : Stream) : ∀ unit ∈ s.units, Sound unit := by
  intro unit hunit
  obtain ⟨i, hi, rfl⟩ := List.mem_map.mp hunit
  exact ⟨s.clean i hi, s.forbidden i hi⟩

theorem Lead.sound {all lead : List (List UInt8)} {key : Bool} (h : Lead all key lead)
    (hall : ∀ unit ∈ all, Sound unit) : ∀ unit ∈ lead, Sound unit := by
  cases key with
  | false =>
    cases h
    nofun
  | true =>
    obtain ⟨sps, pps, hsps, hpps, rfl⟩ := h
    intro unit hunit
    simp only [List.mem_cons, List.not_mem_nil, or_false] at hunit
    rcases hunit with rfl | rfl
    · exact hall _ (mem_of_lastOf hsps)
    · exact hall _ (mem_of_lastOf hpps)

/-- What a frame is turned into is read back by `units` behind `annex_b`. -/
theorem units_annexB {units' : List (List UInt8)} (hne : units' ≠ [])
    (h : ∀ unit ∈ units', Sound unit) (hlen : ∀ unit ∈ units', unit.length < 2 ^ 32) :
    ∃ annexed, annexB (avcc units') = .ok annexed ∧ units annexed = .ok units' := by
  refine ⟨_, annexB_avcc hne fun unit hunit =>
    ⟨(h unit hunit).1.ne_nil, hlen unit hunit, (h unit hunit).2⟩, ?_⟩
  rw [← join_long, units_join]
  · rw [List.map_map]
    exact congrArg Except.ok (List.map_id _)
  · simpa using hne
  · intro i hi
    obtain ⟨unit, hunit, rfl⟩ := List.mem_map.mp hi
    exact (h unit hunit).1

/-- **What becomes of the units of a frame**, after any calls. -/
theorem frames_repackaged (history : List Call) (s : Stream) :
    (s.items ≠ [] → units s.bytes = .ok s.units) ∧
    ∀ key out, (ParameterSets.frame s.bytes (replay history)).1 = .ok (key, out) →
      (key = true ↔ ∃ unit ∈ s.units, kind unit = 5) ∧
      ((∃ unit ∈ s.units, isParameterSet unit = false) →
        ∃ lead annexed, Lead (seen history ++ s.units) key lead ∧ annexB out = .ok annexed ∧
          units annexed = .ok (lead ++ s.units.filter (!isParameterSet ·))) ∧
      ((∀ unit ∈ s.units, isParameterSet unit = true) →
        out = [] ∧ annexB out = .error (.refused "empty H.264 frame")) := by
  refine ⟨fun hne => units_join hne s.clean, fun key out h => ?_⟩
  have hunits : units s.bytes = .ok s.units := by
    by_cases hne : s.items = []
    · obtain ⟨nals, hnals⟩ := units_of_frame h
      rw [Stream.bytes, hne] at hnals
      cases hnals
    · exact units_join hne s.clean
  rw [frame_eq hunits] at h
  obtain ⟨rfl, rfl, hlen, hsome⟩ := emit_ok hunits h
  have hsets : s.units.foldl ParameterSets.absorbUnit (replay history) =
      (seen history ++ s.units).foldl ParameterSets.absorbUnit {} := by
    rw [replay, foldl_run, List.foldl_append]
  have hall : ∀ unit ∈ seen history ++ s.units, Sound unit := by
    intro unit hunit
    rcases List.mem_append.mp hunit with hunit | hunit
    · obtain ⟨c, -, hc⟩ := List.mem_flatMap.mp hunit
      exact c.stream.sound unit hc
    · exact s.sound unit hunit
  have hlead := lead_of_sets hsets hsome
  refine ⟨by simp, fun hslice => ?_, fun hnone => ?_⟩
  · obtain ⟨unit, hunit, hkind⟩ := hslice
    have hmem : unit ∈ s.units.filter (!isParameterSet ·) :=
      List.mem_filter.mpr ⟨hunit, by simp [hkind]⟩
    have hsound : ∀ u ∈ ParameterSets.sent
        (s.units.foldl ParameterSets.absorbUnit (replay history)) s.units, Sound u := by
      intro u hu
      rcases List.mem_append.mp hu with hu | hu
      · exact hlead.sound hall u hu
      · exact s.sound u (List.mem_of_mem_filter hu)
    obtain ⟨annexed, hannexed, hback⟩ :=
      units_annexB (List.ne_nil_of_mem (List.mem_append_right _ hmem)) hsound hlen
    exact ⟨_, annexed, hlead, hannexed, hback⟩
  · -- Without a slice there is no IDR, so that nothing is put in front either.
    have hkey : s.units.any (kind · = 5) = false := by
      rw [List.any_eq_false]
      intro unit hunit hfive
      have hparam := hnone unit hunit
      simp only [isParameterSet, decide_eq_true_eq] at hparam hfive
      rw [hfive] at hparam
      exact absurd hparam (by decide)
    have hfilter : s.units.filter (!isParameterSet ·) = [] :=
      List.filter_eq_nil_iff.mpr fun unit hunit => by simp [hnone unit hunit]
    rw [ParameterSets.sent, hkey, hfilter]
    exact ⟨rfl, annexB_nil⟩

/-! ### An encoder -/

def sampleHeader : Stream where
  items := [⟨true, [0x67, 42], 0⟩, ⟨false, [0x68, 23], 1⟩]
  clean := by decide
  forbidden := by decide

def sampleIdr : Stream where
  items := [⟨true, [0x09, 0x10], 0⟩, ⟨false, [0x65, 0xb8], 2⟩]
  clean := by decide
  forbidden := by decide

theorem frames_repackaged_idr : ∃ lead annexed,
    Lead [[0x67, 42], [0x68, 23], [0x09, 0x10], [0x65, 0xb8]] true lead ∧
      annexB [0, 0, 0, 2, 0x67, 42, 0, 0, 0, 2, 0x68, 23, 0, 0, 0, 2, 0x09, 0x10,
        0, 0, 0, 2, 0x65, 0xb8] = .ok annexed ∧
      units annexed = .ok (lead ++ [[0x09, 0x10], [0x65, 0xb8]]) := by
  have h := (frames_repackaged [.absorb sampleHeader] sampleIdr).2 true
    [0, 0, 0, 2, 0x67, 42, 0, 0, 0, 2, 0x68, 23, 0, 0, 0, 2, 0x09, 0x10, 0, 0, 0, 2, 0x65, 0xb8]
    (by decide)
  exact h.2.1 ⟨[0x65, 0xb8], by decide, by decide⟩

/-- A sequence header that is taken for a frame has nothing to send, and no units have no start
code. -/
theorem header_frame_empty :
    (¬ ∀ (history : List Call) (s : Stream) (key : Bool) (out : List UInt8),
      (ParameterSets.frame s.bytes (replay history)).1 = .ok (key, out) →
        ∃ lead annexed, Lead (seen history ++ s.units) key lead ∧ annexB out = .ok annexed ∧
          units annexed = .ok (lead ++ s.units.filter (!isParameterSet ·))) ∧
      ¬ ∀ s : Stream, units s.bytes = .ok s.units := by
  refine ⟨fun h => ?_, fun h => ?_⟩
  · obtain ⟨_, annexed, -, hannexed, -⟩ := h [] sampleHeader false [] (by decide)
    rw [annexB_nil] at hannexed
    cases hannexed
  · have hnone := h ⟨[], nofun, nofun⟩
    cases hnone

end Bitstream

end NebulaDesk
