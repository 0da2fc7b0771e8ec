import Mtrtk.FrameResync
import Mtrtk.NmeaOut
import Mtrtk.Packing

/-!
# NMEA sentences on the wire

What `build_sentences` makes of an epoch goes to TCP clients and serial ports as one text, and to
UDP targets in datagrams (`_datagrams` of `rover/sinks.py`).

A field of a sentence is letters, digits, points and minus signs (`plain_bodies`), so that a sentence
is an NMEA sentence to the core framer (`wellFormed_sentence`). `stream_framed` says what the framer
gets out of the epochs of a stream, `datagrams_framed` what it gets out of each datagram alone.
-/

namespace Mtrtk

namespace Nmea

/-! ## The characters of a field -/

/-- What a field is made of. -/
def plainChar (c : Char) : Bool := c.isAlphanum || c = '.' || c = '-'

def Plain (field : Str) : Prop := ∀ c ∈ field, plainChar c = true

instance : DecidablePred Plain := fun field => List.decidableBAll _ field

section Fields

variable {s t : Str}

@[simp] theorem plain_nil : Plain [] := fun _ h => absurd h List.not_mem_nil

@[simp] theorem plain_cons {c : Char} : Plain (c :: s) ↔ plainChar c = true ∧ Plain s :=
  List.forall_mem_cons

@[simp] theorem plain_append : Plain (s ++ t) ↔ Plain s ∧ Plain t := List.forall_mem_append

theorem Plain.mono (h : Plain t) (hst : s ⊆ t) : Plain s := fun c hc => h c (hst hc)

theorem plain_digits (h : ∀ c ∈ s, c.isDigit = true) : Plain s := fun c hc => by
  simp [plainChar, Char.isAlphanum, h c hc]

@[simp] theorem plain_decimal (n : ℕ) : Plain (decimal n) := plain_digits (isDigit_toDigits n)

@[simp] theorem plain_zeros (n : ℕ) : Plain (List.replicate n '0') := fun c hc => by
  rw [(List.mem_replicate.1 hc).2]
  decide

@[simp] theorem plain_twoDigits (n : ℕ) : Plain (twoDigits n) :=
  plain_append.2 ⟨plain_zeros _, plain_decimal n⟩

@[simp] theorem plain_zfill (width : ℕ) : Plain (zfill width s) ↔ Plain s := by simp [zfill]

@[simp] theorem plain_fixedText (dp : ℕ) (value : ℚ) : Plain (fixedText dp value).toList := by
  have hnumber : ∀ n : ℕ, Plain (toString n).toList := fun n => by
    change Plain (Nat.repr n).toList
    rw [Nat.repr, String.toList_ofList]
    exact plain_decimal n
  have hsign : Plain (if value < 0 then "-" else "").toList := by
    split <;> decide
  have hdot : Plain ".".toList := by decide
  rw [fixedText]
  split <;> simp only [String.toList_append, String.toList_ofList, plain_append, plain_zeros,
    hnumber, hsign, hdot, and_self]

@[simp] theorem plain_dec (dp : ℕ) (value : Option ℚ) : Plain (dec dp value) := by
  cases value with
  | none => exact plain_nil
  | some value =>
    have htext := plain_fixedText dp value
    have htrim : Plain ((fixedText dp value).toList.rdropWhile (· = '0')) :=
      htext.mono (List.rdropWhile_prefix _ _).subset
    simp only [dec]
    split_ifs
    all_goals first
      | decide
      | exact htext
      | exact htrim
      | exact plain_append.2 ⟨htrim, by decide⟩

@[simp] theorem plain_fixed (dp : ℕ) (value : Option ℚ) : Plain (fixed dp value) := by
  cases value with
  | none => exact plain_nil
  | some value => exact plain_fixedText dp value

@[simp] theorem plain_hms (t : DateTime) : Plain (hms t) := by
  simp +decide [hms]

@[simp] theorem plain_angle (degWidth : ℕ) (value : ℚ) : Plain (angle degWidth value) := by
  simp [angle]

@[simp] theorem plain_heading (deg : ℚ) : Plain (heading deg) := by
  simp [heading]

@[simp] theorem plain_modeOf (quality : ℕ) : Plain (modeOf quality) := by
  have hall : ∀ mode ∈ posMode, Plain mode.2 := by decide
  rw [modeOf]
  cases h : posMode.lookup quality with
  | none => exact plain_nil
  | some mode =>
    obtain ⟨a, b, heq, -⟩ := List.lookup_eq_some_iff.1 h
    exact hall (quality, mode) (by simp [heq])

theorem plain_altitude (p : Position) (quality : ℕ) :
    Plain (altitude p quality).1 ∧ Plain (altitude p quality).2 := by
  unfold altitude
  split
  · simp
  · split
    · simp
    · split_ifs <;> simp +decide

theorem plain_corrections (r : RtkStatus) (quality : ℕ) :
    Plain (corrections r quality).1 ∧ Plain (corrections r quality).2 := by
  have hstation : Plain ((r.refStationId.map fun n => zfill 4 (decimal n)).getD []) := by
    cases r.refStationId <;> simp
  unfold corrections
  split_ifs <;> simp [hstation]

end Fields

/-- All fields are plain. -/
def PlainFields (fields : Fields) : Prop := ∀ field ∈ fields, Plain field

@[simp] theorem plainFields_append {a b : Fields} :
    PlainFields (a ++ b) ↔ PlainFields a ∧ PlainFields b := List.forall_mem_append

@[simp] theorem plainFields_cons {field : Str} {fields : Fields} :
    PlainFields (field :: fields) ↔ Plain field ∧ PlainFields fields := List.forall_mem_cons

@[simp] theorem plainFields_nil : PlainFields [] := fun _ h => absurd h List.not_mem_nil

@[simp] theorem plainFields_latLon (lat lon : ℚ) (quality : ℕ) :
    PlainFields (latLon lat lon quality) := by
  unfold latLon
  split_ifs <;> simp +decide

@[simp] theorem plainFields_gsvAngles (sat : Satellite) : PlainFields (gsvAngles sat) := by
  unfold gsvAngles
  repeat' split
  all_goals simp

section Bodies

variable {state : ReceiverState} {fields : Fields}

theorem plainFields_gga (h : fields ∈ gga state) : PlainFields fields := by
  obtain ⟨lat, -, h⟩ := Option.bind_eq_some_iff.1 h
  obtain ⟨lon, -, h⟩ := Option.bind_eq_some_iff.1 h
  obtain ⟨t, -, h⟩ := Option.bind_eq_some_iff.1 h
  obtain rfl := Option.some.inj h
  have hheights := plain_altitude state.position (quality state)
  have hcorr := plain_corrections state.rtk (quality state)
  simp +decide [hheights.1, hheights.2, hcorr.1, hcorr.2]

theorem plainFields_rmc (h : fields ∈ rmc state) : PlainFields fields := by
  obtain ⟨lat, -, h⟩ := Option.bind_eq_some_iff.1 h
  obtain ⟨lon, -, h⟩ := Option.bind_eq_some_iff.1 h
  obtain ⟨t, -, h⟩ := Option.bind_eq_some_iff.1 h
  obtain rfl := Option.some.inj h
  have hstatus : Plain (if quality state = 0 then ['V'] else ['A']) := by
    split_ifs <;> decide
  simp +decide [hstatus]

theorem plainFields_gst {sqrt : ℚ → ℚ} (h : fields ∈ gst sqrt state) : PlainFields fields := by
  obtain ⟨hAcc, -, h⟩ := Option.bind_eq_some_iff.1 h
  obtain ⟨t, -, h⟩ := Option.bind_eq_some_iff.1 h
  obtain rfl := Option.some.inj h
  simp +decide

theorem plainFields_vtg (h : fields ∈ vtg state) : PlainFields fields := by
  obtain ⟨speed, -, h⟩ := Option.bind_eq_some_iff.1 h
  obtain rfl := Option.some.inj h
  simp +decide

theorem plainFields_zda (h : fields ∈ zda state) : PlainFields fields := by
  obtain ⟨t, -, h⟩ := Option.bind_eq_some_iff.1 h
  obtain rfl := Option.some.inj h
  simp +decide

theorem plainFields_hdt (h : fields ∈ hdt state) : PlainFields fields := by
  obtain ⟨att, -, h⟩ := Option.bind_eq_some_iff.1 h
  obtain ⟨deg, -, h⟩ := Option.bind_eq_some_iff.1 h
  obtain rfl := Option.some.inj h
  simp +decide

theorem plainFields_pashr (h : fields ∈ pashr state) : PlainFields fields := by
  obtain ⟨att, -, h⟩ := Option.bind_eq_some_iff.1 h
  obtain ⟨t, -, h⟩ := Option.bind_eq_some_iff.1 h
  obtain ⟨deg, -, h⟩ := Option.bind_eq_some_iff.1 h
  obtain rfl := Option.some.inj h
  have hflag : Plain (if quality state = 4 then ['2'] else if quality state = 0 then ['0']
      else ['1']) := by
    split_ifs <;> decide
  simp +decide [hflag]

/-- A talker is two letters, and an id one digit. -/
theorem plain_systemTalker : ∀ system ∈ systemTalker, Plain system.talker ∧
    Plain (hexText system.systemId) ∧ Plain (hexText system.signalId) := by
  have hid : ∀ n : ℕ, n < 8 → Plain (hexText n) := by
    intro n hn
    interval_cases n <;> decide
  intro system hsystem
  have hsmall : ∀ system ∈ systemTalker, Plain system.talker ∧ system.systemId < 8 ∧
      system.signalId < 8 := by decide
  obtain ⟨htalker, h1, h2⟩ := hsmall system hsystem
  exact ⟨htalker, hid _ h1, hid _ h2⟩

theorem mem_bySystem {sats : List Satellite} {g : Talker × List (ℕ × Satellite)}
    (h : g ∈ bySystem sats) : g.1 ∈ systemTalker ∧ g.2 = group sats g.1 ∧ g.2 ≠ [] := by
  obtain ⟨hmem, hne⟩ := List.mem_filter.1 h
  obtain ⟨system, hsystem, rfl⟩ := List.mem_map.1 hmem
  exact ⟨hsystem, rfl, by simpa using hne⟩

theorem plainFields_gsa (h : fields ∈ gsa state) : PlainFields fields := by
  obtain ⟨⟨system, sats⟩, hg, rfl⟩ := List.mem_map.1 h
  obtain ⟨htalker, hsystem, -⟩ := plain_systemTalker system (mem_bySystem hg).1
  have hmode : Plain (if 3 ≤ state.fix.fixType then ['3'] else if state.fix.fixType = 2 then ['2']
      else ['1']) := by
    split_ifs <;> decide
  have hused : PlainFields (((sats.filter (·.2.used)).map fun s => twoDigits s.1).take 12) := by
    intro field hfield
    obtain ⟨s, -, rfl⟩ := List.mem_map.1 (List.mem_of_mem_take hfield)
    exact plain_twoDigits _
  have hempty : ∀ n, PlainFields (List.replicate n []) := fun n field hfield => by
    rw [(List.mem_replicate.1 hfield).2]
    exact plain_nil
  simp +decide [htalker, hsystem, hmode, hused, hempty]

theorem plainFields_gsvGroup (s : ℕ × Satellite) : PlainFields (gsvGroup s) := by
  unfold gsvGroup
  split_ifs <;> simp

theorem plainFields_gsvChunk {system : Talker} (hsystem : system ∈ systemTalker)
    (total number inView : ℕ) (chunk : List (ℕ × Satellite)) :
    PlainFields ([system.talker ++ "GSV".toList, decimal total, decimal number, twoDigits inView] ++
      chunk.flatMap gsvGroup ++ [hexText system.signalId]) := by
  obtain ⟨htalker, -, hsignal⟩ := plain_systemTalker system hsystem
  have hgroups : PlainFields (chunk.flatMap gsvGroup) := fun field hfield => by
    obtain ⟨s, -, hs⟩ := List.mem_flatMap.1 hfield
    exact plainFields_gsvGroup s field hs
  simp +decide [htalker, hsignal, hgroups]

theorem plainFields_gsv (h : fields ∈ gsv state) : PlainFields fields := by
  obtain ⟨⟨system, sats⟩, hg, hmem⟩ := List.mem_flatMap.1 h
  obtain ⟨⟨chunk, i⟩, -, rfl⟩ := List.mem_map.1 hmem
  exact plainFields_gsvChunk (mem_bySystem hg).1 _ _ _ _

theorem plain_bodies {sqrt : ℚ → ℚ} {wanted : List String} {includeSlow : Bool}
    (h : fields ∈ bodies sqrt state wanted includeSlow) : PlainFields fields := by
  obtain ⟨name, -, hmem⟩ := List.mem_flatMap.1 h
  unfold bodiesOf at hmem
  split at hmem
  · exact plainFields_gga (Option.mem_toList.1 hmem)
  · exact plainFields_rmc (Option.mem_toList.1 hmem)
  · exact plainFields_gst (Option.mem_toList.1 hmem)
  · exact plainFields_vtg (Option.mem_toList.1 hmem)
  · exact plainFields_hdt (Option.mem_toList.1 hmem)
  · exact plainFields_pashr (Option.mem_toList.1 hmem)
  · exact plainFields_gsa hmem
  · exact plainFields_gsv hmem
  · exact plainFields_zda (Option.mem_toList.1 hmem)
  · exact absurd hmem List.not_mem_nil

end Bodies

/-! ## A sentence as a frame -/

theorem plainChar_lt {c : Char} (h : plainChar c = true) : c.toNat < 128 := by
  have hval : c.val.toNat = c.toNat := rfl
  change (((decide (65 ≤ c.val ∧ c.val ≤ 90) || decide (97 ≤ c.val) &&
    decide (c.val ≤ 122)) || decide (48 ≤ c.val) && decide (c.val ≤ 57)) || decide (c = '.') ||
      decide (c = '-')) = true at h
  simp only [Bool.or_eq_true, Bool.and_eq_true, decide_eq_true_eq, UInt32.le_iff_toNat_le] at h
  rcases h with (h | rfl) | rfl
  · have hZ : UInt32.toNat 90 = 90 := rfl
    have hz : UInt32.toNat 122 = 122 := rfl
    have h9 : UInt32.toNat 57 = 57 := rfl
    omega
  all_goals decide

theorem mem_body {fields : Fields} (h : PlainFields fields) {c : Char} (hc : c ∈ body fields) :
    plainChar c = true ∨ c = ',' := by
  induction fields with
  | nil => simp [body] at hc
  | cons field fields ih =>
    obtain ⟨hfield, hfields⟩ := plainFields_cons.1 h
    rcases fields with _ | ⟨field', fields⟩
    · exact Or.inl (hfield c (by simpa [body] using hc))
    · have hsplit : body (field :: field' :: fields) = field ++ ',' :: body (field' :: fields) := by
        simp [body, List.intercalate]
      rw [hsplit] at hc
      rcases List.mem_append.1 hc with hc | hc
      · exact Or.inl (hfield c hc)
      · rcases List.mem_cons.1 hc with rfl | hc
        · exact Or.inr rfl
        · exact ih hfields hc

theorem nmeaChecksum_lt (data : List UInt8) : nmeaChecksum data < 256 := by
  suffices h : ∀ n < 2 ^ 8, data.foldl (fun result byte => result ^^^ byte.toNat) n < 2 ^ 8 from
    h 0 (by decide)
  induction data with
  | nil => exact fun n hn => hn
  | cons byte data ih => exact fun n hn => ih _ (Nat.xor_lt_two_pow hn byte.toNat_lt)

theorem twoHex_eq {n : ℕ} (h : n < 256) :
    encode (twoHex n) = [upperHexDigit (n / 16), upperHexDigit (n % 16)] := by
  have hdigit : ∀ d < 16, encode [Char.ofNat (upperHexDigit d).toNat] = [upperHexDigit d] := by
    decide
  have hlow := hdigit (n % 16) (Nat.mod_lt n (by decide))
  have hhigh := hdigit (n / 16) (by omega)
  rcases Nat.lt_or_ge n 16 with hn | hn
  · have hhex : formatHex n = [upperHexDigit n] := by
      rcases Nat.eq_zero_or_pos n with rfl | hpos
      · rfl
      · rw [formatHex, if_neg hpos.ne', Nat.digits_of_lt 16 n hpos.ne' hn]
        rfl
    have hzero : encode ['0'] = [upperHexDigit 0] := by decide
    rw [Nat.mod_eq_of_lt hn] at hlow ⊢
    rw [Nat.div_eq_of_lt hn, twoHex, hhex]
    change encode (['0'] ++ [Char.ofNat (upperHexDigit n).toNat]) = _
    rw [encode_append, hlow, hzero]
    rfl
  · have hhex : formatHex n = [upperHexDigit (n / 16), upperHexDigit (n % 16)] := by
      rw [formatHex, if_neg (by omega), Nat.digits_def' (by decide) (by omega),
        Nat.digits_of_lt 16 (n / 16) (by omega) (by omega)]
      rfl
    rw [twoHex, hhex]
    change encode ([Char.ofNat (upperHexDigit (n / 16)).toNat] ++
      [Char.ofNat (upperHexDigit (n % 16)).toNat]) = _
    rw [encode_append, hlow, hhigh]
    rfl

theorem findCrlf_line : ∀ {line : List UInt8}, 0x0D ∉ line →
    findCrlf (line ++ [0x0D, 0x0A]) = some line.length
  | [], _ => rfl
  | [a], h => by
    have ha : a ≠ 0x0D := fun heq => h (by simp [heq])
    simp [findCrlf, ha]
  | a :: b :: line, h => by
    obtain ⟨ha, hb⟩ := not_or.1 (List.mem_cons.not.1 h)
    have ih := findCrlf_line hb
    rw [List.cons_append] at ih
    rw [List.cons_append, List.cons_append, findCrlf, if_neg fun hcr => ha hcr.1.symm, ih]
    rfl

/-- The bytes of a sentence. -/
theorem sentence_eq (fields : Fields) :
    sentence fields = nmeaStart :: encode (body fields) ++
      [0x2A, upperHexDigit (nmeaChecksum (encode (body fields)) / 16),
        upperHexDigit (nmeaChecksum (encode (body fields)) % 16), 0x0D, 0x0A] := by
  have hdollar : encode ['$'] = [nmeaStart] := by decide
  have hstar : encode ['*'] = [0x2A] := by decide
  have hend : encode ['\r', '\n'] = [0x0D, 0x0A] := by decide
  have hsplit : sentence fields = encode ['$'] ++ encode (body fields) ++ encode ['*'] ++
      encode (twoHex (nmeaChecksum (encode (body fields)))) ++ encode ['\r', '\n'] := by
    simp only [sentence, ← encode_append]
    congr 1
    simp
  rw [hsplit, hdollar, hstar, hend, twoHex_eq (nmeaChecksum_lt _)]
  simp

theorem notMem_encode_body {fields : Fields} (h : PlainFields fields) {b : UInt8}
    (hb : (Char.ofNat b.toNat).toNat < 128 ∧ plainChar (Char.ofNat b.toNat) = false ∧
      Char.ofNat b.toNat ≠ ',') : b ∉ encode (body fields) := by
  intro hmem
  have hchar : Char.ofNat b.toNat ∈ decodeLatin1 (encode (body fields)) :=
    List.mem_map_of_mem hmem
  rcases mem_body h (mem_of_mem_decodeLatin1_encode hb.1 hchar) with hplain | hcomma
  · simp [hplain] at hb
  · exact hb.2.2 hcomma

theorem wellFormed_sentence {fields : Fields} (h : PlainFields fields)
    (hlen : (sentence fields).length ≤ nmeaMaxLen) :
    (Frame.mk .nmea (sentence fields)).WellFormed := by
  set data := encode (body fields) with hdata
  have hchecksum := nmeaChecksum_lt data
  have hdigit : ∀ d < 16, hexDigit (upperHexDigit d) = some d ∧ upperHexDigit d ≠ 0x0D := by decide
  obtain ⟨hhigh, hhigh'⟩ := hdigit (nmeaChecksum data / 16) (by omega)
  obtain ⟨hlow, hlow'⟩ := hdigit (nmeaChecksum data % 16) (by omega)
  have hline : 0x0D ∉ nmeaStart :: data ++ [0x2A, upperHexDigit (nmeaChecksum data / 16),
      upperHexDigit (nmeaChecksum data % 16)] := by
    have hcr := notMem_encode_body h (b := 0x0D) (by decide)
    simp only [List.cons_append, List.mem_cons, List.mem_append, List.not_mem_nil, or_false, not_or]
    exact ⟨by decide, hcr, by decide, hhigh'.symm, hlow'.symm⟩
  refine ⟨⟨data, upperHexDigit (nmeaChecksum data / 16), upperHexDigit (nmeaChecksum data % 16),
    ?_, sentence_eq fields, ?_, hlen.trans (by decide)⟩, fun _ => hlen⟩
  · rw [parseHexField, hhigh, hlow]
    simp only [Option.some.injEq]
    omega
  · have hcrlf := findCrlf_line hline
    rw [sentence_eq]
    simpa [← hdata] using hcrlf

/-- Sentences one after the other are what the framer gets out of them, however they are cut. -/
theorem feedAll_sentences {M : ℕ} {ps : List (List UInt8)} {ss : List Fields}
    (hfits : (Framer.fresh M).NoOverflow ps) (hss : ∀ fields ∈ ss, PlainFields fields)
    (hlen : ∀ fields ∈ ss, (sentence fields).length ≤ nmeaMaxLen)
    (hps : ps.flatten = (ss.map sentence).flatten) :
    ((Framer.fresh M).feedAll ps).1 = ss.map fun fields => ⟨.nmea, sentence fields⟩ := by
  refine Framer.feedAll_frames (g := []) _ hfits (by simp) ?_ ?_
  · intro f hf
    obtain ⟨fields, hfields, rfl⟩ := List.mem_map.1 hf
    exact wellFormed_sentence (hss fields hfields) (hlen fields hfields)
  · rw [hps, List.nil_append, List.map_map]
    rfl

/-! ## Datagrams -/

/-- `UDP_MAX_PAYLOAD`. -/
def udpMaxPayload : ℕ := 1400

/-- The lines of `_datagrams`, each with its end. -/
def keepLines : List UInt8 → List (List UInt8)
  | [] => []
  | b :: data =>
    if b = 0x0A then [b] :: keepLines data
    else
      match keepLines data with
      | [] => [[b]]
      | line :: lines => (b :: line) :: lines

/-- `_datagrams`. -/
def datagrams (data : List UInt8) : List (List UInt8) :=
  if data.length ≤ udpMaxPayload then [data] else Packing.packs udpMaxPayload (keepLines data)

theorem keepLines_append {line : List UInt8} (h : 0x0A ∉ line) (data : List UInt8) :
    keepLines (line ++ 0x0A :: data) = (line ++ [0x0A]) :: keepLines data := by
  induction line with
  | nil => rfl
  | cons b line ih =>
    obtain ⟨hb, hline⟩ := not_or.1 (List.mem_cons.not.1 h)
    rw [List.cons_append, keepLines, if_neg (Ne.symm hb), ih hline]
    rfl

/-- A sentence ends with its only line feed. -/
theorem exists_line {fields : Fields} (h : PlainFields fields) :
    ∃ line, sentence fields = line ++ [0x0A] ∧ 0x0A ∉ line := by
  have hdigit : ∀ d < 16, upperHexDigit d ≠ 0x0A := by decide
  have hchecksum := nmeaChecksum_lt (encode (body fields))
  refine ⟨_, (sentence_eq fields).trans (List.append_assoc _ [_, _, _, _] [_]).symm, ?_⟩
  simp only [List.cons_append, List.mem_cons, List.mem_append, List.not_mem_nil, or_false, not_or]
  exact ⟨by decide, notMem_encode_body h (b := 0x0A) (by decide), by decide, (hdigit _ (by omega)).symm,
    (hdigit _ (by omega)).symm, by decide⟩

theorem keepLines_sentences {ss : List Fields} (h : ∀ fields ∈ ss, PlainFields fields) :
    keepLines (ss.map sentence).flatten = ss.map sentence := by
  induction ss with
  | nil => rfl
  | cons fields ss ih =>
    obtain ⟨hfields, hss⟩ := List.forall_mem_cons.1 h
    obtain ⟨line, heq, hline⟩ := exists_line hfields
    rw [List.map_cons, List.flatten_cons, heq, List.append_assoc, List.singleton_append,
      keepLines_append hline, ih hss]

/-- The groups of sentences that the datagrams of an epoch hold : a datagram holds as many as fit
into it, and the core framer gets just these out of it, however it is cut. -/
theorem datagrams_framed (sqrt : ℚ → ℚ) (state : ReceiverState) (wanted : List String)
    (includeSlow : Bool)
    (hlen : ∀ s ∈ buildSentences sqrt state wanted includeSlow, s.length ≤ nmeaMaxLen) :
    ∃ groups : List (List (List UInt8)),
      groups.flatten = buildSentences sqrt state wanted includeSlow ∧
      datagrams (buildSentences sqrt state wanted includeSlow).flatten =
        groups.map List.flatten ∧
      (groups.IsChain fun g g' => ∃ s rest, g' = s :: rest ∧
        udpMaxPayload < g.flatten.length + s.length) ∧
      ∀ g ∈ groups, g.flatten.length ≤ udpMaxPayload ∧
        ∀ ps : List (List UInt8), ps.flatten = g.flatten →
          ((Framer.fresh (1 <<< 20)).feedAll ps).1 = g.map (Frame.mk .nmea) := by
  set ss := bodies sqrt state wanted includeSlow with hss
  have hplain : ∀ fields ∈ ss, PlainFields fields := fun fields h => plain_bodies h
  change ∀ s ∈ ss.map sentence, s.length ≤ nmeaMaxLen at hlen
  -- a datagram of whole sentences is framed into them
  have hframed : ∀ g : List (List UInt8), (∀ s ∈ g, s ∈ ss.map sentence) →
      g.flatten.length ≤ udpMaxPayload → ∀ ps : List (List UInt8), ps.flatten = g.flatten →
        ((Framer.fresh (1 <<< 20)).feedAll ps).1 = g.map (Frame.mk .nmea) := by
    intro g hg hfits ps hps
    obtain ⟨bs, rfl, hbs⟩ : ∃ bs : List Fields, g = bs.map sentence ∧ ∀ b ∈ bs, b ∈ ss := by
      clear hfits hps
      induction g with
      | nil => exact ⟨[], rfl, by simp⟩
      | cons s g ih =>
        obtain ⟨hs, hrest⟩ := List.forall_mem_cons.1 hg
        obtain ⟨b, hb, rfl⟩ := List.mem_map.1 hs
        obtain ⟨bs, rfl, hbs⟩ := ih hrest
        exact ⟨b :: bs, rfl, List.forall_mem_cons.2 ⟨hb, hbs⟩⟩
    rw [List.map_map]
    refine feedAll_sentences (Framer.fresh_noOverflow fun p hp => ?_) (fun b hb => hplain b (hbs b hb))
      (fun b hb => hlen _ (List.mem_map_of_mem (hbs b hb))) hps
    have hle : p.length ≤ ps.flatten.length := (List.sublist_flatten_of_mem hp).length_le
    rw [hps] at hle
    have hmax : ubxMaxPayload + 8 + udpMaxPayload ≤ 1 <<< 20 := by decide
    omega
  change ∃ groups : List (List (List UInt8)), groups.flatten = ss.map sentence ∧
    datagrams (ss.map sentence).flatten = _ ∧ _
  unfold datagrams
  split
  · next hfits =>
    refine ⟨[ss.map sentence], by simp, by simp, List.isChain_singleton _, fun g hg => ?_⟩
    obtain rfl := List.mem_singleton.1 hg
    exact ⟨hfits, hframed _ (fun s hs => hs) hfits⟩
  · have hne : [] ∉ ss.map sentence := by
      simp [sentence_eq]
    rw [keepLines_sentences hplain]
    obtain ⟨groups, hpacked, heq⟩ : ∃ groups, Packing.Packed udpMaxPayload _ groups ∧
        Packing.packs udpMaxPayload (ss.map sentence) = groups.map List.flatten :=
      Packing.packed hne
    refine ⟨groups, hpacked.flatten, heq, hpacked.full, fun g hg => ?_⟩
    have hmem : ∀ s ∈ g, s ∈ ss.map sentence := fun s hs => by
      rw [← hpacked.flatten]
      exact List.mem_flatten_of_mem hg hs
    have hfits : g.flatten.length ≤ udpMaxPayload := by
      rcases hpacked.fits g hg with hfits | ⟨s, rfl⟩
      · exact hfits
      · have hshort := hlen s (hmem s (List.mem_singleton_self s))
        have hmax : nmeaMaxLen ≤ udpMaxPayload := by decide
        simpa using hshort.trans hmax
    exact ⟨hfits, hframed g hmem hfits⟩

/-- A fix with a satellite of two constellations. -/
def twoSatellites : ReceiverState where
  position := { lat := some 0, lon := some 0 }
  utc := some { year := 2026, month := 9, day := 19, hour := 12, minute := 0, second := 0 }
  sats := [{ gnssId := 0, gnss := "GPS", svId := 5, cno := 40, elev := some 40, azim := some 360 },
    { gnssId := 6, gnss := "GLONASS", svId := 3, elev := some (-4) }]

/-- A fix with twenty satellites of each of four constellations. -/
def fullSky : ReceiverState where
  position := twoSatellites.position
  utc := twoSatellites.utc
  sats := [(0, "GPS"), (6, "GLONASS"), (2, "Galileo"), (3, "BeiDou")].flatMap fun gnss =>
    (List.range 20).map fun i =>
      { gnssId := gnss.1, gnss := gnss.2, svId := i + 1, cno := 40, elev := some 40,
        azim := some 300 }

/-- Its epoch takes two datagrams. -/
theorem datagrams_framed_fullSky : ∃ groups : List (List (List UInt8)),
    groups.map (fun g => g.flatten.length) = [1391, 216] ∧
    groups.flatten = buildSentences id fullSky ["GGA", "GSA", "GSV"] true ∧
    (groups.IsChain fun g g' => ∃ s rest, g' = s :: rest ∧
      udpMaxPayload < g.flatten.length + s.length) ∧
    ∀ g ∈ groups, g.flatten.length ≤ udpMaxPayload ∧
      ∀ ps : List (List UInt8), ps.flatten = g.flatten →
        ((Framer.fresh (1 <<< 20)).feedAll ps).1 = g.map (Frame.mk .nmea) := by
  obtain ⟨groups, hflat, hdatagrams, hrest⟩ :=
    datagrams_framed id fullSky ["GGA", "GSA", "GSV"] true (by decide +kernel)
  have hsizes : (datagrams (buildSentences id fullSky ["GGA", "GSA", "GSV"] true).flatten).map
      List.length = [1391, 216] := by decide +kernel
  rw [hdatagrams, List.map_map] at hsizes
  exact ⟨groups, hsizes, hflat, hrest⟩

end Nmea

end Mtrtk
