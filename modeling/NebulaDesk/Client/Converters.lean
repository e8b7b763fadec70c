/-
The converters of the two agents and the client's reader agree.

The scanner of Windows passes over a start code, that of Linux looks at all windows; both find
the marks of `StartCodes`.  `converters_agree` says that frames which both take come out as the
same bytes, that both take the same AVCC frames, and that the client reads the units of these.
-/
import NebulaDesk.Agent.AnnexB
import NebulaDesk.Agent.H264
import NebulaDesk.Client.Nal

namespace NebulaDesk

namespace Converters

open StartCodes Bitstream

/-! ### The scanner of Linux -/

section Scanner

open H264

theorem starts_cons {a : UInt8} {rest : List UInt8} (h : ¬ [0, 0, 1] <+: a :: rest) (i : ℕ) :
    starts (a :: rest) i = starts rest (i + 1) := by
  match rest with
  | [] | [_] => rfl
  | b :: c :: rest =>
    have hne : ¬ [a, b, c] = [0, 0, 1] := by
      intro heq
      simp only [List.cons.injEq, and_true] at heq
      obtain ⟨rfl, rfl, rfl⟩ := heq
      exact h ⟨rest, rfl⟩
    rw [starts, if_neg hne]

theorem starts_code (rest : List UInt8) (i : ℕ) :
    starts (0 :: 0 :: 1 :: rest) i = i :: starts rest (i + 3) := by
  have hsecond : ¬ ([0, 0, 1] : List UInt8) <+: 0 :: 1 :: rest := by
    rintro ⟨tail, htail⟩
    exact absurd (List.cons.inj (List.cons.inj htail).2).1 (by decide)
  have hthird : ¬ ([0, 0, 1] : List UInt8) <+: 1 :: rest := by
    rintro ⟨tail, htail⟩
    exact absurd (List.cons.inj htail).1 (by decide)
  rw [starts, if_pos rfl, starts_cons hsecond, starts_cons hthird]

/-- Behind a start the code has three bytes. -/
def mark (start : ℕ) : ℕ × ℕ := (start, start + 3)

theorem starts_marks (rest : List UInt8) (i : ℕ) : Marks rest i ((starts rest i).map mark) := by
  induction rest using pieces.induct generalizing i with
  | case1 a b c rest hcode ih =>
    obtain ⟨rfl, rfl, rfl⟩ := hcode
    rw [starts_code]
    exact .code (ih _)
  | case2 a b c rest hcode ih =>
    have hstart : ¬ [0, 0, 1] <+: a :: b :: c :: rest := by
      intro h
      have heq := List.prefix_iff_eq_take.mp h
      simp only [List.length_cons, List.length_nil, List.take_succ_cons, List.take_zero,
        List.cons.injEq, and_true] at heq
      exact hcode ⟨heq.1.symm, heq.2.1.symm, heq.2.2.symm⟩
    rw [starts_cons hstart]
    exact .skip hstart (ih _)
  | case3 short hshort =>
    match short with
    | [] | [_] | [_, _] => exact marks_of_length_lt (by simp) i
    | a :: b :: c :: rest => exact absurd rfl (hshort a b c rest)

theorem next_map_mark (data : List UInt8) (more : List ℕ) :
    next data (more.map mark) = more.head?.getD data.length := by
  cases more <;> rfl

/-- The cache of Linux as that of Windows. -/
def toSets (cache : AccessUnits) : ParameterSets := ⟨cache.sps, cache.pps⟩

/-- What a run over all units has found, if it does not refuse one. -/
structure Found (nals units : List (List UInt8)) (idr : Bool) (cache : AccessUnits)
    (units' : List (List UInt8)) (idr' : Bool) (cache' : AccessUnits) : Prop where
  ne_nil : [] ∉ nals
  units : units' = units ++ nals.filter (!isParameterSet ·)
  idr : idr' = (idr || nals.any (kind · = 5))
  cache : toSets cache' = nals.foldl ParameterSets.absorbUnit (toSets cache)

theorem Found.cons {unit : List UInt8} {nals units units' added : List (List UInt8)}
    {idr idr' idr'' : Bool} {cache cache' cache'' : AccessUnits}
    (h : Found nals added idr'' cache'' units' idr' cache') (hne : unit ≠ [])
    (hadded : added = units ++ [unit].filter (!isParameterSet ·))
    (hidr : idr'' = (idr || kind unit = 5))
    (hcache : toSets cache'' = (toSets cache).absorbUnit unit) :
    Found (unit :: nals) units idr cache units' idr' cache' where
  ne_nil := List.not_mem_cons_of_ne_of_not_mem hne.symm h.ne_nil
  units := by
    rw [h.units, hadded, List.append_assoc, ← List.filter_append]
    rfl
  idr := by rw [h.idr, hidr, List.any_cons, Bool.or_assoc]
  cache := by rw [h.cache, hcache, List.foldl_cons]

variable {cache : AccessUnits}

theorem convertLoop_ok {data : List UInt8} {starts : List ℕ} {units units' : List (List UInt8)}
    {idr idr' : Bool}
    (h : (AccessUnits.convertLoop data starts units idr cache).1 = .ok (units', idr')) :
    Found (cut data (starts.map mark)) units idr cache units' idr'
      (AccessUnits.convertLoop data starts units idr cache).2 := by
  induction starts generalizing units idr cache with
  | nil =>
    cases h
    exact ⟨by simp [cut], by simp [cut], by simp [cut], rfl⟩
  | cons start more ih =>
    have hunit : cut data ((start :: more).map mark) =
        slice data (start + 3) (trimEnd data (start + 3) (more.head?.getD data.length)) ::
          cut data (more.map mark) := by
      rw [List.map_cons, mark, cut, next_map_mark]
    rw [hunit]
    unfold AccessUnits.convertLoop at h ⊢
    dsimp only at h ⊢
    generalize slice data (start + 3) (trimEnd data (start + 3) (more.head?.getD data.length)) =
      unit at h ⊢
    split at h
    · cases h
    next hgood =>
    rw [if_neg hgood]
    have hne : unit ≠ [] := fun hnil => hgood (.inl hnil)
    split at h
    · next hseven =>
      have hkind : kind unit = 7 := hseven
      rw [if_pos hseven]
      refine (ih h).cons hne (by simp [isParameterSet, hkind]) (by simp [hkind]) ?_
      rw [ParameterSets.absorbUnit, if_pos hkind]
      rfl
    next hseven =>
    rw [if_neg hseven]
    have hkind : kind unit ≠ 7 := hseven
    split at h
    · next height =>
      have hpps : kind unit = 8 := height
      rw [if_pos height]
      refine (ih h).cons hne (by simp [isParameterSet, hpps]) (by simp [hpps]) ?_
      rw [ParameterSets.absorbUnit, if_neg hkind, if_pos hpps]
      rfl
    next height =>
    rw [if_neg height]
    have hpps : kind unit ≠ 8 := height
    have hkeep : (toSets cache).absorbUnit unit = toSets cache := by
      rw [ParameterSets.absorbUnit, if_neg hkind, if_neg hpps]
    split at h
    · next hfive =>
      have hidr : kind unit = 5 := hfive
      rw [if_pos hfive]
      exact (ih h).cons hne (by simp [isParameterSet, hidr]) (by simp [hidr]) hkeep.symm
    · next hfive =>
      have hidr : kind unit ≠ 5 := hfive
      rw [if_neg hfive]
      exact (ih h).cons hne (by simp [isParameterSet, hkind, hpps]) (by simp [hidr]) hkeep.symm

theorem appendAll_ok {units : List (List UInt8)} {out out' : List UInt8}
    (h : appendAll units out = .ok out') : out' = out ++ avcc units := by
  induction units generalizing out with
  | nil => rw [← Except.ok.inj h, avcc_nil, List.append_nil]
  | cons unit units ih =>
    obtain ⟨mid, hmid, hrest⟩ := Layout.bind_eq_ok.mp h
    obtain ⟨-, rfl⟩ := append_eq_ok_iff.mp hmid
    rw [ih hrest, avcc_cons, List.append_assoc, List.append_assoc]

theorem header_toSets {idr : Bool} {out : List UInt8}
    (h : cache.header idr = .ok out) : (toSets cache).header idr = .ok out := by
  unfold AccessUnits.header at h
  unfold ParameterSets.header
  split at h
  · next hidr =>
    split at h
    · cases h
    next hsome =>
    rw [if_pos hidr]
    exact (if_neg hsome).trans h
  · next hidr =>
    rw [if_neg hidr]
    exact h

theorem emit_toSets {nals : List (List UInt8)} {idr key : Bool}
    {out : List UInt8} (hidr : idr = nals.any (kind · = 5))
    (h : cache.emit (nals.filter (!isParameterSet ·)) idr = .ok (key, out)) :
    key = nals.any (kind · = 5) ∧ out = avcc ((toSets cache).sent nals) := by
  obtain ⟨head, hhead, h⟩ := Layout.bind_eq_ok.mp h
  obtain ⟨body, hbody, h⟩ := Layout.bind_eq_ok.mp h
  cases h
  obtain ⟨rfl, -⟩ := header_ok (header_toSets hhead)
  rw [appendAll_ok hbody, ParameterSets.sent, avcc_append, ← hidr]
  exact ⟨rfl, rfl⟩

theorem convert_ok {data out : List UInt8} {key : Bool}
    (h : (AccessUnits.convert data cache).1 = .ok (key, out)) :
    ∃ nals, parse data = some nals ∧ key = nals.any (kind · = 5) ∧
      out = avcc ((nals.foldl ParameterSets.absorbUnit (toSets cache)).sent nals) ∧
      toSets (AccessUnits.convert data cache).2 =
        nals.foldl ParameterSets.absorbUnit (toSets cache) := by
  have hmarks := starts_marks data 0
  unfold AccessUnits.convert at h ⊢
  cases hstarts : starts data 0 with
  | nil =>
    rw [hstarts] at h
    cases h
  | cons first more =>
    rw [hstarts] at h hmarks
    dsimp only at h ⊢
    split at h
    · next hzeros =>
      rw [if_pos hzeros]
      cases hloop : AccessUnits.convertLoop data (first :: more) [] false cache with
      | mk result cache' =>
        cases result with
        | error e =>
          rw [Cmd.bind_error hloop] at h
          cases h
        | ok found =>
          obtain ⟨units, idr⟩ := found
          rw [Cmd.bind_ok hloop] at h ⊢
          have hfound := convertLoop_ok (congrArg Prod.fst hloop)
          rw [hloop] at hfound
          have hunits := hfound.units
          rw [List.nil_append] at hunits
          subst hunits
          obtain ⟨hkey, hout⟩ := emit_toSets (hfound.idr.trans (Bool.false_or _)) h
          refine ⟨_, ?_, hkey, ?_, hfound.cache⟩
          · rw [hmarks.parse_eq, if_pos]
            refine ⟨List.cons_ne_nil _ _, fun b hb => ?_, hfound.ne_nil⟩
            exact of_decide_eq_true (List.all_eq_true.mp hzeros b hb)
          · rw [hout, hfound.cache]
    · cases h

end Scanner

/-! ### Histories -/

/-- The states after frames that both have taken. -/
inductive Both : List (List UInt8) → ParameterSets → H264.AccessUnits → Prop
  | start : Both [] {} {}
  | frame {history : List (List UInt8)} {sets : ParameterSets} {cache : H264.AccessUnits}
      {bytes : List UInt8} {r r' : Bool × List UInt8} : Both history sets cache →
      (ParameterSets.frame bytes sets).1 = .ok r →
      (H264.AccessUnits.convert bytes cache).1 = .ok r' →
      Both (history ++ [bytes]) (ParameterSets.frame bytes sets).2
        (H264.AccessUnits.convert bytes cache).2

variable {bytes : List UInt8}

/-- With the same sets before a frame that both take, its outcome and the sets after it are the
same. -/
theorem frame_convert {cache : H264.AccessUnits} {r r' : Bool × List UInt8}
    (h : (ParameterSets.frame bytes (toSets cache)).1 = .ok r)
    (h' : (H264.AccessUnits.convert bytes cache).1 = .ok r') :
    r = r' ∧ (ParameterSets.frame bytes (toSets cache)).2 =
      toSets (H264.AccessUnits.convert bytes cache).2 := by
  obtain ⟨key, out⟩ := r
  obtain ⟨key', out'⟩ := r'
  obtain ⟨nals, hparse, rfl, rfl, hcache⟩ := convert_ok h'
  have hunits := units_eq_ok_iff.mpr hparse
  rw [frame_eq hunits] at h ⊢
  obtain ⟨rfl, rfl, -, -⟩ := emit_ok hunits h
  exact ⟨rfl, hcache.symm⟩

theorem Both.toSets_eq {history : List (List UInt8)} {sets : ParameterSets}
    {cache : H264.AccessUnits} (h : Both history sets cache) : sets = toSets cache := by
  induction h with
  | start => rfl
  | frame _ hframe hconvert ih =>
    subst ih
    exact (frame_convert hframe hconvert).2

/-! ### AVCC -/

theorem annexBLoop_toOption (rest out : List UInt8) :
    (annexBLoop rest out).toOption =
      (H264.avccLoop rest).toOption.map fun units => out ++ units.flatMap ([0, 0, 0, 1] ++ ·) := by
  induction rest, out using annexBLoop.induct with
  | case1 out =>
    rw [annexBLoop, H264.avccLoop]
    exact congrArg some (List.append_nil out).symm
  | case2 out a b c d rest length hlength =>
    rw [annexBLoop, H264.avccLoop, if_pos hlength, if_pos hlength]
    rfl
  | case3 out a b c d rest length hlength hforbidden =>
    rw [annexBLoop, H264.avccLoop, if_neg hlength, if_neg hlength, if_pos hforbidden,
      if_pos hforbidden]
    rfl
  | case4 out a b c d rest length hlength hforbidden ih =>
    rw [annexBLoop, H264.avccLoop, if_neg hlength, if_neg hlength, if_neg hforbidden,
      if_neg hforbidden, ih]
    cases H264.avccLoop (rest.drop length) with
    | error e => rfl
    | ok units =>
      show some _ = some (out ++ (rest.take length :: units).flatMap ([0, 0, 0, 1] ++ ·))
      rw [List.flatMap_cons, ← List.append_assoc, ← List.append_assoc]
  | case5 rest out hnil hcons =>
    rw [annexBLoop, H264.avccLoop]
    · rfl
    · exact hnil
    · exact hcons
    · exact hnil
    · exact hcons

theorem avccLoop_ok (bytes : List UInt8) :
    ∀ units, H264.avccLoop bytes = .ok units → Nal.units bytes = units := by
  induction bytes using H264.avccLoop.induct with
  | case1 =>
    intro units h
    rw [H264.avccLoop] at h
    cases h
    rw [Nal.units]
    simp
  | case2 a b c d bytes size hsize =>
    intro units h
    rw [H264.avccLoop, if_pos hsize] at h
    cases h
  | case3 a b c d bytes size hsize hforbidden =>
    intro units h
    rw [H264.avccLoop, if_neg hsize, if_pos hforbidden] at h
    cases h
  | case4 a b c d bytes size hsize hforbidden ih =>
    intro units h
    rw [H264.avccLoop, if_neg hsize, if_neg hforbidden] at h
    obtain ⟨more, hmore, h⟩ := Layout.bind_eq_ok.mp h
    cases h
    have hbound := not_not.mp hsize
    rw [Nal.units, if_neg (by omega), if_neg (by omega), ih more hmore]
  | case5 bytes hnil hcons =>
    intro units h
    rw [H264.avccLoop] at h
    · cases h
    · exact hnil
    · exact hcons

theorem toBeBytes_fromBeBytes (a b c d : UInt8) :
    toBeBytes (fromBeBytes [a, b, c, d]) = [a, b, c, d] := by
  have hback := Bytes.toLeBytes_fromLeBytes [a, b, c, d].reverse
  rw [toBeBytes, fromBeBytes, ← List.reverse_reverse [a, b, c, d]]
  exact congrArg List.reverse hback

theorem units_prefix (bytes : List UInt8) :
    avcc (Nal.units bytes) <+: bytes ∧ [] ∉ Nal.units bytes := by
  induction bytes using Nal.units.induct with
  | case1 a b c d rest length hshort =>
    rw [Nal.units, if_pos hshort]
    exact ⟨List.nil_prefix, List.not_mem_nil⟩
  | case2 a b c d rest length hshort hzero =>
    rw [Nal.units, if_neg hshort, if_pos hzero]
    exact ⟨List.nil_prefix, List.not_mem_nil⟩
  | case3 a b c d rest length hshort hzero ih =>
    rw [Nal.units, if_neg hshort, if_neg hzero]
    have hlen : (rest.take length).length = length := List.length_take_of_le (by omega)
    obtain ⟨⟨tail, htail⟩, hne⟩ := ih
    refine ⟨⟨tail, ?_⟩, fun hmem => ?_⟩
    · rw [avcc_cons, hlen, toBeBytes_fromBeBytes, List.append_assoc, List.append_assoc, htail,
        List.take_append_drop]
      rfl
    · rcases List.mem_cons.mp hmem with hnil | hmem
      · rw [← hnil, List.length_nil] at hlen
        exact hzero hlen.symm
      · exact hne hmem
  | case4 bytes hcons =>
    rw [Nal.units]
    · exact ⟨List.nil_prefix, List.not_mem_nil⟩
    · exact hcons

theorem avccLoop_ne_nil (hne : bytes ≠ []) : H264.avccLoop bytes ≠ .ok [] := by
  intro h
  unfold H264.avccLoop at h
  split at h
  · exact hne rfl
  · dsimp only at h
    split at h
    · cases h
    split at h
    · cases h
    obtain ⟨more, -, h⟩ := Layout.bind_eq_ok.mp h
    cases h
  · cases h

/-- The two `annex_b` take the same frames. -/
theorem annexB_eq (hne : bytes ≠ []) :
    (annexB bytes).toOption = (H264.avccLoop bytes).toOption.map
      fun units => units.flatMap ([0, 0, 0, 1] ++ ·) := by
  have hloop := annexBLoop_toOption bytes []
  cases hunits : H264.avccLoop bytes with
  | error e =>
    cases hout : annexBLoop bytes [] with
    | error e' =>
      rw [annexB, hout]
      rfl
    | ok out =>
      rw [hout, hunits] at hloop
      cases hloop
  | ok units =>
    cases hout : annexBLoop bytes [] with
    | error e' =>
      rw [hout, hunits] at hloop
      cases hloop
    | ok out =>
      rw [hout, hunits] at hloop
      cases hloop
      have hsome : units.flatMap ([0, 0, 0, 1] ++ ·) ≠ [] := by
        obtain ⟨unit, more, rfl⟩ :=
          List.exists_cons_of_ne_nil fun hnil => avccLoop_ne_nil hne (hnil ▸ hunits)
        exact List.cons_ne_nil _ _
      rw [annexB, hout]
      exact congrArg Except.toOption (if_neg hsome)

theorem annexB_toOption (bytes : List UInt8) :
    (annexB bytes).toOption = (H264.annexB bytes).toOption := by
  by_cases hne : bytes = []
  · subst hne
    rw [annexB_nil]
    rfl
  rw [annexB_eq hne, H264.annexB, H264.avccUnits, if_neg hne]
  cases H264.avccLoop bytes <;> rfl

theorem annexB_ok {bytes out : List UInt8} (h : annexB bytes = .ok out) :
    ∃ units, H264.avccUnits bytes = .ok units ∧ out = units.flatMap ([0, 0, 0, 1] ++ ·) ∧
      Nal.units bytes = units := by
  have hlinux := annexB_toOption bytes
  rw [h] at hlinux
  cases hunits : H264.avccUnits bytes with
  | error e =>
    rw [H264.annexB, hunits] at hlinux
    cases hlinux
  | ok units =>
    rw [H264.annexB, hunits] at hlinux
    refine ⟨units, rfl, Option.some.inj hlinux, avccLoop_ok _ _ ?_⟩
    unfold H264.avccUnits at hunits
    split at hunits
    · cases hunits
    · exact hunits

/-- **The three converters agree.** -/
theorem converters_agree :
    (∀ history sets cache, Both history sets cache → ∀ bytes r r',
      (ParameterSets.frame bytes sets).1 = .ok r →
        (H264.AccessUnits.convert bytes cache).1 = .ok r' → r = r') ∧
      (∀ bytes, (annexB bytes).toOption = (H264.annexB bytes).toOption) ∧
      (∀ bytes out, annexB bytes = .ok out → ∃ units, H264.avccUnits bytes = .ok units ∧
        out = units.flatMap ([0, 0, 0, 1] ++ ·) ∧ Nal.units bytes = units) ∧
      ∀ bytes, avcc (Nal.units bytes) <+: bytes ∧ [] ∉ Nal.units bytes := by
  refine ⟨fun history sets cache hboth bytes r r' hframe hconvert => ?_, annexB_toOption,
    fun bytes out h => annexB_ok h, units_prefix⟩
  rw [hboth.toSets_eq] at hframe
  exact (frame_convert hframe hconvert).1

/-! ### Two frames -/

/-- An IDR with parameter sets, and another that is sent with those of the first. -/
theorem converters_agree_idr : ∃ sets cache r r',
    Both [[0, 0, 0, 1, 0x67, 42, 0, 0, 1, 0x68, 23, 0, 0, 0, 1, 0x65, 0xb8]] sets cache ∧
      (ParameterSets.frame [0, 0, 1, 0x65, 0xb0, 0] sets).1 = .ok r ∧
      (H264.AccessUnits.convert [0, 0, 1, 0x65, 0xb0, 0] cache).1 = .ok r' ∧ r = r' := by
  have hfirst : (ParameterSets.frame
      [0, 0, 0, 1, 0x67, 42, 0, 0, 1, 0x68, 23, 0, 0, 0, 1, 0x65, 0xb8] {}).1 =
      .ok (true, [0, 0, 0, 2, 0x67, 42, 0, 0, 0, 2, 0x68, 23, 0, 0, 0, 2, 0x65, 0xb8]) := by
    decide
  have hfirst' : (H264.AccessUnits.convert
      [0, 0, 0, 1, 0x67, 42, 0, 0, 1, 0x68, 23, 0, 0, 0, 1, 0x65, 0xb8] {}).1 =
      .ok (true, [0, 0, 0, 2, 0x67, 42, 0, 0, 0, 2, 0x68, 23, 0, 0, 0, 2, 0x65, 0xb8]) := by
    decide
  have hboth := Both.frame .start hfirst hfirst'
  have hframe : (ParameterSets.frame [0, 0, 1, 0x65, 0xb0, 0] ⟨[0x67, 42], [0x68, 23]⟩).1 =
      .ok (true, [0, 0, 0, 2, 0x67, 42, 0, 0, 0, 2, 0x68, 23, 0, 0, 0, 2, 0x65, 0xb0]) := by
    decide
  have hconvert : (H264.AccessUnits.convert [0, 0, 1, 0x65, 0xb0, 0]
      ⟨[0x67, 42], [0x68, 23]⟩).1 =
      .ok (true, [0, 0, 0, 2, 0x67, 42, 0, 0, 0, 2, 0x68, 23, 0, 0, 0, 2, 0x65, 0xb0]) := by
    decide
  exact ⟨_, _, _, _, hboth, hframe, hconvert,
    converters_agree.1 _ _ _ hboth _ _ _ hframe hconvert⟩

end Converters

end NebulaDesk
