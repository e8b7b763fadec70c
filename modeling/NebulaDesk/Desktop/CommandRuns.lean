/-
Which commands arrive.

A command is checked by its paths and written by its bytes, so that what is accepted need not fit a
line.

* **`arrives_iff`** — a command arrives if its JSON and the line feed have at most 64 KiB, and only
  then.
* **`inv_step`** — one step of a session that is given such commands only, **`inv_of_reach`** — a
  whole run.
-/
import NebulaDesk.Desktop.Commands

namespace NebulaDesk

open Json (Value)

namespace SessionCommands

/-! ### A line is read as it was written -/

namespace Command

theorem mapM_asString (paths : List Text) :
    (paths.map Value.string).mapM Value.asString = some paths := by
  induction paths with
  | nil => rfl
  | cons p paths ih =>
    rw [List.map_cons, List.mapM_cons, ih]
    rfl

theorem ofValue_value (c : Command) : ofValue c.value = some c := by
  cases c with
  | focus => rfl
  | disconnect => rfl
  | setAudio enabled => rfl
  | setClipboard enabled => rfl
  | sendFiles paths =>
    obtain ⟨fields, hfields⟩ : ∃ fields, [("command".toList, Value.string "send_files".toList),
        ("paths".toList, Value.array (paths.map Value.string))] = fields := ⟨_, rfl⟩
    have hvalue : value (sendFiles paths) = .object fields := by
      rw [← hfields]
      rfl
    have htag : Json.required fields "command".toList = some (.string "send_files".toList) := by
      simp [← hfields, Json.required, Json.member]
    have hpaths : Json.required fields "paths".toList =
        some (.array (paths.map Value.string)) := by
      simp [← hfields, Json.required, Json.member]
    have hknown : knownFields fields ["paths".toList] = true := by
      simp [← hfields, knownFields]
    -- none of the tags before it
    have hfocus : "send_files".toList ≠ "focus".toList := by decide
    have hdisconnect : "send_files".toList ≠ "disconnect".toList := by decide
    have haudio : "send_files".toList ≠ "set_audio".toList := by decide
    have hclipboard : "send_files".toList ≠ "set_clipboard".toList := by decide
    rw [ofValue, hvalue]
    simp only [Value.asObject, Option.bind_eq_bind, Option.bind_some, htag, Value.asString, hfocus,
      hdisconnect, haudio, hclipboard, if_false, if_true, hpaths, Value.asArray, mapM_asString,
      hknown]

theorem fits_value (c : Command) : c.value.fits 128 := by
  have hpaths : ∀ paths : List Text, Json.fitsAll 126 (paths.map Value.string) := by
    intro paths
    induction paths with
    | nil => rfl
    | cons p paths ih =>
      rw [List.map_cons, Json.fitsAll, ih]
      rfl
  cases c with
  | sendFiles paths =>
    simp [value, tagged, Json.Value.fits, Json.fitsFields, hpaths]
  | _ => rfl

theorem lineEnd_notMem_json (c : Command) : 10 ∉ c.json :=
  Json.lineEnd_notMem_utf8 c.value.printed_text

theorem read_line (reader : Json.Reader) (c : Command) :
    (reader.read c.line).bind ofValue = some c := by
  have hread := reader.read_text c.value ['\n'] c.fits_value (by simp [Json.white])
  have hline : Json.utf8 (c.value.text ++ ['\n']) = c.line := by
    rw [line, json, Json.utf8, List.flatMap_append]
    rfl
  rw [← hline, hread]
  exact ofValue_value c

end Command

/-! ### Sizes -/

/-- The bytes of a selection: its paths with their escapes, the commas, and 35 more. -/
theorem length_json_sendFiles (paths : List Text) :
    (Command.sendFiles paths).json.length =
      (paths.map fun p => Json.utf8Size (Json.string p)).sum + (paths.length - 1) + 35 := by
  have htexts : (Json.texts (paths.map Value.string)).map Json.utf8Size =
      paths.map fun p => Json.utf8Size (Json.string p) := by
    rw [Json.texts_eq_map, List.map_map, List.map_map]
    rfl
  have hcount : (Json.texts (paths.map Value.string)).length = paths.length := by
    rw [Json.texts_eq_map, List.length_map, List.length_map]
  have hname : Json.utf8Size (Json.string "command".toList) = 9 := rfl
  have htag : Json.utf8Size (Json.string "send_files".toList) = 12 := rfl
  have hpaths : Json.utf8Size (Json.string "paths".toList) = 7 := rfl
  rw [Command.json, Json.utf8, Json.length_utf8Encode, Command.value, Command.tagged, Value.text,
    Json.utf8Size_object]
  simp only [Json.fieldTexts, Value.text, Json.utf8Size_array, htexts, hcount, List.map_cons,
    List.map_nil, List.sum_cons, List.sum_nil, List.length_cons, List.length_nil, hname, htag,
    hpaths]
  omega

theorem fits_iff (c : Command) : Fits c ↔ c.json.length < maxLineBytes := by
  cases c with
  | sendFiles paths => rw [length_json_sendFiles, Fits]
  | focus => exact iff_of_true trivial (by decide)
  | disconnect => exact iff_of_true trivial (by decide)
  | setAudio enabled => cases enabled <;> exact iff_of_true trivial (by decide)
  | setClipboard enabled => cases enabled <;> exact iff_of_true trivial (by decide)

/-! ### The pipe -/

variable {c : Command} {s s' : SessionCommands}

theorem readMessage_line (reader : Json.Reader) (hfits : Fits c)
    {rest : List UInt8} {chunks : List (List UInt8)} (hfilled : ∀ chunk ∈ chunks, chunk ≠ [])
    (hflat : chunks.flatten = c.line ++ rest) :
    ∃ left, readMessage reader chunks = (.ok (some c), left) ∧ left.flatten = rest := by
  have hsplit : chunks.flatten = c.json ++ 10 :: rest := by
    rw [hflat, Command.line, List.append_assoc, List.singleton_append]
  have hsize : ([] : List UInt8).length + c.json.length + 1 ≤ maxLineBytes := by
    rw [List.length_nil, Nat.zero_add]
    exact (fits_iff c).mp hfits
  obtain ⟨left, hread, hleft, -⟩ :=
    Lines.readLine_line hfilled hsplit c.lineEnd_notMem_json hsize
  refine ⟨left, ?_, hleft⟩
  have hline : [] ++ c.json ++ [10] = c.line := rfl
  rw [hline] at hread
  unfold readMessage
  simp only [hread, Command.read_line]

theorem writeLine_iff (c : Command) : writeLine c = .ok c.line ↔ Fits c := by
  have hlength : c.line.length = c.json.length + 1 := List.length_append
  rw [fits_iff]
  unfold writeLine
  split
  · refine ⟨fun h => (nomatch h), fun h => ?_⟩
    omega
  · exact ⟨fun _ => by omega, fun _ => rfl⟩

theorem arrives_iff (reader : Json.Reader) (c : Command) : Arrives reader c ↔ Fits c :=
  ⟨fun h => (writeLine_iff c).mp h.1, fun h => ⟨(writeLine_iff c).mpr h,
    fun _ _ hfilled hflat => readMessage_line reader h hfilled hflat⟩⟩

/-! ### Runs -/

/-- What has been accepted is read, on its way in the pipe, or in the queue, in this order. -/
structure InOrder (s : SessionCommands) (taken inFlight : List Command) : Prop where
  accepted : s.accepted = taken ++ s.queue
  sent : s.received ++ inFlight = taken ++ if s.told then [.disconnect] else []
  pipe : s.pipe = inFlight.flatMap Command.line
  fits : ∀ c ∈ inFlight, Fits c

structure Inv (s : SessionCommands) : Prop where
  size : s.left ≠ some .size
  told : s.left = none → s.told = false
  queue : ∀ c ∈ s.queue, Fits c
  /-- A write that fails in between may leave half a line. -/
  order : s.left ≠ some .io → s.broken = false ∧ ∃ taken inFlight, InOrder s taken inFlight

theorem command_eq_ok (h : command (some s) c = .ok s') :
    s' = { s with queue := s.queue ++ [c], accepted := s.accepted ++ [c] } := by
  unfold command at h
  split at h
  · cases h
  · split at h
    · cases h
    · next hentry =>
      obtain ⟨heq, -⟩ := Option.filter_eq_some_iff.mp hentry
      cases heq
      split at h
      · cases h
      · split at h
        · cases h
        · exact (Except.ok.inj h).symm

theorem inv_command (hs : s.Inv) (hfits : Fits c) (h : command (some s) c = .ok s') : s'.Inv := by
  rw [command_eq_ok h]
  refine ⟨hs.size, hs.told, fun c' hc' => ?_, fun hio => ?_⟩
  · rcases List.mem_append.mp hc' with hc' | hc'
    · exact hs.queue c' hc'
    · rwa [List.mem_singleton.mp hc']
  · obtain ⟨hbroken, taken, inFlight, horder⟩ := hs.order hio
    refine ⟨hbroken, taken, inFlight, ?_, horder.sent, horder.pipe, horder.fits⟩
    rw [horder.accepted, List.append_assoc]

theorem inv_deliver (hs : s.Inv) (h : s.deliver = some s') : s'.Inv := by
  unfold deliver at h
  split at h
  · next c queue hleft hqueue =>
    have hc : Fits c := hs.queue c (by rw [hqueue]; exact List.mem_cons_self)
    have hrest : ∀ c' ∈ queue, Fits c' := fun c' hc' =>
      hs.queue c' (by rw [hqueue]; exact List.mem_cons_of_mem _ hc')
    rw [(writeLine_iff c).mpr hc] at h
    cases h
    obtain ⟨hbroken, taken, inFlight, horder⟩ := hs.order (by rw [hleft]; simp)
    have htold := hs.told hleft
    have hsent := horder.sent
    rw [htold] at hsent
    refine ⟨hs.size, hs.told, hrest, fun _ => ⟨hbroken, taken ++ [c], inFlight ++ [c], ?_, ?_, ?_,
      ?_⟩⟩
    · simp only
      rw [horder.accepted, hqueue, List.append_assoc, List.singleton_append]
    · simp only [htold]
      rw [← List.append_assoc, hsent]
      simp
    · simp only
      rw [horder.pipe, List.flatMap_append, List.flatMap_singleton]
    · intro c' hc'
      rcases List.mem_append.mp hc' with hc' | hc'
      · exact horder.fits c' hc'
      · rwa [List.mem_singleton.mp hc']
  · cases h

theorem inv_tear (hs : s.Inv) {n : ℕ} (h : s.tear n = some s') : s'.Inv := by
  unfold tear at h
  split at h
  · next c queue hleft hqueue =>
    have hrest : ∀ c' ∈ queue, Fits c' := fun c' hc' =>
      hs.queue c' (by rw [hqueue]; exact List.mem_cons_of_mem _ hc')
    split at h
    · cases h
      exact ⟨by simp, fun hnone => (nomatch hnone), hrest, fun hio => absurd rfl hio⟩
    · cases h
  · cases h

variable {reader : Json.Reader}

theorem inv_read (hs : s.Inv)
    {chunks : List (List UInt8)} (h : s.read reader chunks = some s') : s'.Inv := by
  unfold read at h
  split at h
  · next hchunks =>
    obtain ⟨hflat, hfilled, hline, -⟩ := hchunks
    have hsame : s'.left = s.left ∧ s'.told = s.told ∧ s'.queue = s.queue ∧
        s'.accepted = s.accepted := by
      split at h <;> cases h <;> exact ⟨rfl, rfl, rfl, rfl⟩
    obtain ⟨hleft, htold, hqueue, haccepted⟩ := hsame
    refine ⟨hleft ▸ hs.size, by rw [hleft, htold]; exact hs.told, by rw [hqueue]; exact hs.queue,
      fun hio => ?_⟩
    obtain ⟨hbroken, taken, inFlight, horder⟩ := hs.order (hleft ▸ hio)
    cases inFlight with
    | nil =>
      rw [horder.pipe] at hline
      cases hline
    | cons c inFlight =>
      have hc := horder.fits c List.mem_cons_self
      have hpipe : chunks.flatten = c.line ++ inFlight.flatMap Command.line := by
        rw [hflat, horder.pipe, List.flatMap_cons]
      obtain ⟨left, hread, hrest⟩ := readMessage_line reader hc hfilled hpipe
      rw [hread] at h
      cases h
      refine ⟨hbroken, taken, inFlight, horder.accepted, ?_, hrest, fun c' hc' =>
        horder.fits c' (List.mem_cons_of_mem _ hc')⟩
      simp only
      rw [List.append_assoc, List.singleton_append, horder.sent]
  · cases h

theorem inv_tell {s : SessionCommands} (hs : s.Inv) (hleft : s.left ≠ none)
    (htold : s.told = false) :
    Inv { s with told := true, pipe := s.pipe ++ Command.disconnect.line } := by
  refine ⟨hs.size, fun hnone => absurd hnone hleft, hs.queue, fun hio => ?_⟩
  obtain ⟨hbroken, taken, inFlight, horder⟩ := hs.order hio
  have hsent := horder.sent
  rw [htold] at hsent
  refine ⟨hbroken, taken, inFlight ++ [.disconnect], horder.accepted, ?_, ?_, ?_⟩
  · simp only [if_true]
    rw [← List.append_assoc, hsent]
    simp
  · simp only
    rw [horder.pipe, List.flatMap_append, List.flatMap_singleton]
  · intro c hc
    rcases List.mem_append.mp hc with hc | hc
    · exact horder.fits c hc
    · rw [List.mem_singleton.mp hc]
      trivial

theorem inv_view (hs : s.Inv) (hqueue : s'.queue = s.queue)
    (hsent : s'.accepted = s.accepted ∧ s'.received = s.received ∧ s'.told = s.told ∧
      s'.pipe = s.pipe ∧ s'.broken = s.broken)
    (hleft : s'.left = s.left ∨
      s.left = none ∧ (s'.left = none ∨ ∃ failed, s'.left = some (.other failed))) :
    s'.Inv := by
  obtain ⟨haccepted, hreceived, htold, hpipe, hbroken⟩ := hsent
  have horder : s.left ≠ some .io →
      s'.broken = false ∧ ∃ taken inFlight, InOrder s' taken inFlight := by
    intro hio
    obtain ⟨hb, taken, inFlight, ho⟩ := hs.order hio
    exact ⟨by rw [hbroken, hb], taken, inFlight, by rw [haccepted, hqueue, ho.accepted],
      by rw [hreceived, htold, ho.sent], by rw [hpipe, ho.pipe], ho.fits⟩
  have hfits : ∀ c ∈ s'.queue, Fits c := by
    rw [hqueue]
    exact hs.queue
  rcases hleft with hsame | ⟨hnone, hnow | ⟨failed, hnow⟩⟩
  · exact ⟨hsame ▸ hs.size, by rw [hsame, htold]; exact hs.told, hfits, hsame ▸ horder⟩
  · exact ⟨by simp [hnow], fun _ => by rw [htold]; exact hs.told hnone, hfits,
      fun _ => horder (by simp [hnone])⟩
  · exact ⟨by simp [hnow], fun hnone' => absurd hnone' (by simp [hnow]), hfits,
      fun _ => horder (by simp [hnone])⟩

theorem inv_step (hs : s.Inv) {e : Event} (h : s.fitStep reader e = some s') : s'.Inv := by
  cases e with
  | command c =>
    simp only [fitStep, step] at h
    split at h
    · next hfits =>
      split at h
      · next hok =>
        cases h
        exact inv_command hs hfits hok
      · cases h
    · cases h
  | report state =>
    simp only [fitStep, step] at h
    split at h
    · next hserving =>
      cases h
      refine inv_view hs rfl ⟨rfl, rfl, rfl, rfl, rfl⟩ (.inr ⟨hserving.1, ?_⟩)
      cases state.active with
      | true => exact .inl (by simp)
      | false => exact .inr ⟨false, by simp⟩
    · cases h
  | deliver => exact inv_deliver hs h
  | tear n => exact inv_tear hs h
  | leave failed =>
    simp only [fitStep, step] at h
    split at h
    · next hnone =>
      cases h
      exact inv_view hs rfl ⟨rfl, rfl, rfl, rfl, rfl⟩ (.inr ⟨hnone, .inr ⟨failed, rfl⟩⟩)
    · cases h
  | tell =>
    simp only [fitStep, step] at h
    split at h
    · next htell =>
      cases h
      exact inv_tell hs htell.1 htell.2.1
    · cases h
  | finish failed =>
    simp only [fitStep, step] at h
    split at h
    · cases h
    · split at h
      · cases h
      · cases h
        exact inv_view hs rfl ⟨rfl, rfl, rfl, rfl, rfl⟩ (.inl rfl)
  | read chunks => exact inv_read hs h

theorem inv_start (policy : Sessions.Policy) : (start policy).Inv where
  size := by simp [start]
  told := fun _ => rfl
  queue := by simp [start]
  order := fun _ => ⟨rfl, [], [], rfl, rfl, rfl, by simp⟩

theorem inv_of_reach {policy : Sessions.Policy} {s : SessionCommands}
    (hr : Runs.Reach (fitStep reader) (start policy) s) : s.Inv :=
  hr.invariant (inv_start policy) fun _ _ _ hs h => inv_step hs h

/-! ### A large selection -/

theorem writeLine_eq_error (h : ¬ Fits c) : writeLine c = .error protocol := by
  have hlong : maxLineBytes < c.line.length := by
    have hjson := mt (fits_iff c).mpr h
    rw [Command.line, List.length_append, List.length_singleton]
    omega
  rw [writeLine, if_pos hlong]

def samplePolicy : Sessions.Policy := ⟨true, true, true⟩

/-- What `command` accepts and `write_line` refuses is the end of a connected session. -/
theorem selection_ends_session (reader : Json.Reader) {paths : List Text}
    (hvalid : (Command.sendFiles paths).validate = .ok ())
    (hwrite : writeLine (.sendFiles paths) = .error protocol) :
    ∃ s t u, Runs.tryRun (step reader) (start samplePolicy)
        [.report .connected, .command (.sendFiles paths)] = some s ∧
      s.state = .connected ∧ s.accepted = [.sendFiles paths] ∧
      s.step reader .deliver = some t ∧ t.left = some .size ∧ t.pipe = [] ∧
      t.step reader (.finish false) = some u ∧ u.state = .failed := by
  have hcommand : command (some { start samplePolicy with state := .connected })
      (.sendFiles paths) = .ok
        { start samplePolicy with
          state := .connected, queue := [.sendFiles paths], accepted := [.sendFiles paths] } := by
    rw [command, hvalid]
    rfl
  refine ⟨
    { start samplePolicy with
      state := .connected, queue := [.sendFiles paths], accepted := [.sendFiles paths] },
    { start samplePolicy with
      state := .connected, left := some .size, accepted := [.sendFiles paths] },
    { start samplePolicy with
      state := .failed, left := some .size, finished := true, accepted := [.sendFiles paths] },
    ?_, rfl, rfl, ?_, rfl, rfl, rfl, rfl⟩
  · have hreport : step reader (start samplePolicy) (.report .connected) =
        some { start samplePolicy with state := .connected } := rfl
    rw [Runs.tryRun, List.foldlM_cons, hreport]
    show (step reader _ (.command (.sendFiles paths))).bind _ = _
    rw [step, hcommand]
    rfl
  · unfold step deliver
    simp only [start, hwrite]

/-- The files of a deep directory, all of them allowed by their number. -/
def sampleSelection : Command := .sendFiles (List.replicate 64 ('/' :: List.replicate 1100 'a'))

theorem not_fits_sampleSelection : ¬ Fits sampleSelection := by
  have hplain : ∀ c ∈ '/' :: List.replicate 1100 'a', Json.escape c = [c] := by
    intro c hc
    rcases List.mem_cons.mp hc with rfl | hc
    · rfl
    · rw [List.eq_of_mem_replicate hc]
      rfl
  have hsize : Json.utf8Size ('/' :: List.replicate 1100 'a') = 1101 := by
    have hslash : '/'.utf8Size = 1 := rfl
    have ha : 'a'.utf8Size = 1 := rfl
    rw [Json.utf8Size_cons, Json.utf8Size, List.map_replicate, List.sum_replicate, hslash, ha]
    rfl
  have hpath : Json.utf8Size (Json.string ('/' :: List.replicate 1100 'a')) = 1103 := by
    rw [Json.utf8Size_string_of_plain hplain, hsize]
  have hmax : maxLineBytes = 65536 := rfl
  rw [sampleSelection, Fits, List.map_replicate, List.sum_replicate, hpath, List.length_replicate,
    hmax]
  simp

theorem validate_sampleSelection : sampleSelection.validate = .ok () := by
  have hpath : ¬ ∃ p ∈ List.replicate 64 ('/' :: List.replicate 1100 'a'),
      p = [] ∨ Char.ofNat 0 ∈ p := by
    rintro ⟨p, hp, hbad⟩
    rw [List.eq_of_mem_replicate hp] at hbad
    rcases hbad with hnil | hnul
    · cases hnil
    · rcases List.mem_cons.mp hnul with hslash | ha
      · exact absurd hslash (by decide)
      · exact absurd (List.eq_of_mem_replicate ha) (by decide)
  have hcount : ¬ maxFiles < (List.replicate 64 ('/' :: List.replicate 1100 'a')).length := by
    rw [List.length_replicate]
    decide
  rw [sampleSelection, Command.validate, if_neg (not_or.mpr ⟨hcount, hpath⟩)]

/-! ### What is accepted -/

/-- As long as every command that is accepted has the size of a line, no session ends by the size of
one, and the child reads them all in their order; a command has that size if and only if it
arrives. -/
theorem accepted_command_arrives (reader : Json.Reader) {policy : Sessions.Policy}
    {s : SessionCommands} (hr : Runs.Reach (fitStep reader) (start policy) s) :
    s.left ≠ some .size ∧
      (s.left ≠ some .io → s.broken = false ∧ ∃ taken inFlight, InOrder s taken inFlight) ∧
      ∀ c s', s.step reader (.command c) = some s' → (Arrives reader c ↔ Fits c) := by
  have hs := inv_of_reach hr
  exact ⟨hs.size, hs.order, fun c _ _ => arrives_iff reader c⟩

/-- Two files, one with a name to be escaped. -/
def sampleFiles : Command := .sendFiles ["/home/ulf/a.txt".toList, "/home/ulf/\"b\".txt".toList]

theorem accepted_command_arrives_files :
    ∃ s, Runs.Reach (fitStep Json.reader) (start samplePolicy) s ∧
      s.accepted = [sampleFiles, .focus] ∧ s.received = [sampleFiles] ∧ s.left ≠ some .size := by
  have hrun : (Runs.tryRun (fitStep Json.reader) (start samplePolicy)
      [.report .connected, .command sampleFiles, .command .focus, .deliver, .deliver,
       .read [sampleFiles.line, Command.focus.line]]).map (fun s => (s.accepted, s.received)) =
        some ([sampleFiles, .focus], [sampleFiles]) := by
    decide +kernel
  obtain ⟨s, htry, hs⟩ := Option.map_eq_some_iff.mp hrun
  have hr := Runs.reach_of_tryRun .init htry
  exact ⟨s, hr, congrArg Prod.fst hs, congrArg Prod.snd hs,
    (accepted_command_arrives Json.reader hr).1⟩

/-- A selection of 64 long paths is accepted, and its turn is the end of the session. -/
theorem large_selection_ends_session :
    ∃ s t u, Runs.tryRun (step Json.reader) (start samplePolicy)
        [.report .connected, .command sampleSelection] = some s ∧
      s.state = .connected ∧ s.accepted = [sampleSelection] ∧
      ¬ Arrives Json.reader sampleSelection ∧
      s.step Json.reader .deliver = some t ∧ t.left = some .size ∧ t.pipe = [] ∧
      t.step Json.reader (.finish false) = some u ∧ u.state = .failed := by
  have hlost : ¬ Arrives Json.reader sampleSelection :=
    mt (arrives_iff _ _).mp not_fits_sampleSelection
  have hwrite := writeLine_eq_error not_fits_sampleSelection
  obtain ⟨s, t, u, hrun, hstate, haccepted, hdeliver, hleft, hpipe, hfinish, hfailed⟩ :=
    selection_ends_session Json.reader validate_sampleSelection hwrite
  exact ⟨s, t, u, hrun, hstate, haccepted, hlost, hdeliver, hleft, hpipe, hfinish, hfailed⟩

end SessionCommands

end NebulaDesk
