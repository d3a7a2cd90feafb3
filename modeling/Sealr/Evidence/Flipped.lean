import Sealr.Lib.FlippedLine
import Sealr.Evidence.Clocks

/-!
# Flipping one bit of a stream

The loop of the property test reads lines and feeds a verifier, counting findings and lines that do
not parse; `Detected` says that it counted something. A flipped bit of a record line is detected, or
a hash collision is exhibited, except in one case: the hash is taken over the value that is read, so
what reads as the same value goes unnoticed, and turning the last digit of an escaped control
character to upper case does (`flips_detected_iff`).
-/

namespace Sealr.Evidence

open Lib Lexer Rfc8785 StreamVerifier

/-! ## The loop -/

/-- The loop of `any_single_bit_flip_is_detected`: `findings` and `parse_failures`. -/
def verifyLines (E : Externals) : StreamVerifier → List Bytes → Nat × Nat
  | _, [] => (0, 0)
  | sv, line :: lines =>
    match E.fromSlice line with
    | .ok v =>
      match verifyNext E sv v with
      | .ok (fs, sv') =>
        let (findings, parseFailures) := verifyLines E sv' lines
        (fs.length + findings, parseFailures)
      | .error _ =>
        -- a structurally broken record is a finding
        let (findings, parseFailures) := verifyLines E sv lines
        (findings + 1, parseFailures)
    | .error _ =>
      let (findings, parseFailures) := verifyLines E sv lines
      (findings, parseFailures + 1)

/-- What the test asserts: `findings > 0 || parse_failures > 0`. -/
def Detected (E : Externals) (sv : StreamVerifier) (lines : List Bytes) : Prop :=
  0 < (verifyLines E sv lines).1 ∨ 0 < (verifyLines E sv lines).2

instance (E : Externals) (sv : StreamVerifier) (lines : List Bytes) :
    Decidable (Detected E sv lines) :=
  inferInstanceAs (Decidable (_ ∨ _))

/-- The bytes hashed for the record on a line, if it is one. -/
def lineInputs (E : Externals) (line : Bytes) : List Bytes :=
  match E.fromSlice line with
  | .ok v => (hashInput v).toOption.toList
  | .error _ => []

/-- Bit `k` of byte `i` of a line turns the last digit of the escape of a control character, a
letter, to upper case. -/
def Upcases (line : Bytes) (i k : Nat) : Prop :=
  ∃ pre a post, line = utf8 (pre ++ a :: post) ∧ i = (utf8 pre).length ∧ UpcasesEscape k pre a

/-- Neighbours whose clocks the verifier does not report. -/
structure ClocksInStep (E : Externals) (a b : Record) : Prop where
  mono : a.segmentId = b.segmentId → a.tsMonoNs ≤ b.tsMonoNs
  wall : ∃ t, parseWall E b.tsWall = .ok t ∧ ∀ s, parseWall E a.tsWall = .ok s →
    -WALL_TOLERANCE_MS ≤ t.timestampMillis - s.timestampMillis ∨
      b.recordType = .clockAnomaly ∨ a.recordType = .clockAnomaly

section Loop

variable {E : Externals} {sv : StreamVerifier} {lines : List Bytes}

/-- Nothing is detected exactly when every line parses and the verifier has no finding. -/
theorem not_detected_iff : ¬Detected E sv lines ↔
    ∃ raws, lines.map E.fromSlice = raws.map Except.ok ∧ ∃ sv', feed E sv raws = .ok ([], sv') := by
  have hzero : ∀ {sv lines}, ¬Detected E sv lines ↔ verifyLines E sv lines = (0, 0) := by
    intro sv lines
    rw [Detected, Prod.ext_iff]
    simp
  rw [hzero]
  induction lines generalizing sv with
  | nil =>
    refine ⟨fun _ => ⟨[], rfl, sv, rfl⟩, fun _ => rfl⟩
  | cons line lines ih =>
    rw [verifyLines]
    constructor
    · intro h
      split at h
      · next v hv =>
        split at h
        · next fs sv' hnext =>
          simp only [Prod.mk.injEq, Nat.add_eq_zero_iff, List.length_eq_zero_iff] at h
          obtain ⟨⟨rfl, hfindings⟩, hfailures⟩ := h
          obtain ⟨raws, hraws, last, hfeed⟩ := ih.mp (Prod.ext hfindings hfailures)
          refine ⟨v :: raws, by rw [List.map_cons, List.map_cons, hv, hraws], last, ?_⟩
          exact feed_cons.mpr ⟨[], [], sv', hnext, hfeed, rfl⟩
        · simp at h
      · simp at h
    · rintro ⟨raws, hraws, last, hfeed⟩
      cases raws with
      | nil => cases hraws
      | cons v raws =>
        obtain ⟨hv, hraws⟩ := List.cons.inj hraws
        obtain ⟨found, rest, mid, hnext, hrest, hnil⟩ := feed_cons.mp hfeed
        obtain ⟨rfl, rfl⟩ := List.append_eq_nil_iff.mp hnil.symm
        simp only [hv, hnext, ih.mpr ⟨raws, hraws, last, hrest⟩, List.length_nil, Nat.add_zero]

end Loop

/-! ## Chains -/

section Chain

variable {E : Externals} {stream : Ulid} {rs : List Record} {a b r : Record}

theorem RecordType.name_eq_iff {t : RecordType} :
    t.name = "clock_anomaly" ↔ t = .clockAnomaly := by
  cases t <;> simp [RecordType.name]

/-- Behind its predecessor in a chain, a record can be reported for its clocks only. -/
theorem follows_view_iff (hseq : b.seq.toNat = a.seq.toNat + 1)
    (hlink : b.prevHash = a.recordHash) : Follows E a.view b.view ↔ ClocksInStep E a b := by
  constructor
  · intro h
    refine ⟨h.mono, ?_⟩
    obtain ⟨ms, hms, hback⟩ := h.wall
    obtain ⟨t, ht, rfl⟩ := parseWall_of_wallMs hms
    refine ⟨t, ht, fun s hs => ?_⟩
    have hms' : a.view.wallMs E = some s.timestampMillis := wallMs_of_parseWall hs
    have hcase := hback _ hms'
    rwa [Record.view, Record.view, RecordType.name_eq_iff, RecordType.name_eq_iff] at hcase
  · rintro ⟨hmono, t, ht, hback⟩
    have h1 : (1 : UInt64).toNat = 1 := rfl
    have h64 := b.seq.toNat_lt
    have hms : b.view.wallMs E = some t.timestampMillis := wallMs_of_parseWall ht
    refine ⟨?_, fun _ => ?_, hlink, hmono, _, hms, ?_⟩
    · rw [UInt64.lt_iff_toNat_lt]
      simp only [Record.view]
      omega
    · rw [← UInt64.toNat_inj, UInt64.toNat_add]
      simp only [Record.view]
      omega
    · intro prevMs hprev
      obtain ⟨s, hs, rfl⟩ := parseWall_of_wallMs hprev
      rw [Record.view, Record.view, RecordType.name_eq_iff, RecordType.name_eq_iff]
      exact hback s hs

/-- **The verifier asks of a chain that its clocks are in step, and nothing else.** -/
theorem Chained.ordered_iff (h : Chained E stream rs) :
    Ordered E (genesisPrevHash E stream) none (rs.map Record.view) ↔ rs.IsChain (ClocksInStep E) := by
  induction h with
  | nil => exact iff_of_true ⟨by simp, .nil⟩ .nil
  | @snoc rs r hrs hstream hseq hprev hhash ih =>
    cases hlast : rs.getLast? with
    | none =>
      obtain rfl := List.getLast?_eq_none_iff.mp hlast
      refine iff_of_true ⟨?_, .singleton _⟩ (.singleton _)
      intro view hview
      obtain rfl : r.view = view := by simpa using hview
      exact fun _ => hprev
    | some p =>
      have hfollows : Follows E p.view r.view ↔ ClocksInStep E p r := by
        refine follows_view_iff ?_ ?_
        · rw [hseq, hrs.seq_last hlast]
        · rwa [headHashOf, hlast] at hprev
      obtain ⟨init, rfl⟩ := List.getLast?_eq_some_iff.mp hlast
      have hhead : ((init ++ p :: [r]).map Record.view).head? =
          ((init ++ [p]).map Record.view).head? := by
        cases init <;> rfl
      have hviews : ((init ++ p :: [r]).map Record.view).IsChain (Follows E) ↔
          ((init ++ [p]).map Record.view).IsChain (Follows E) ∧ ClocksInStep E p r := by
        rw [List.map_append, List.map_cons, List.map_cons, List.isChain_append_cons_cons, hfollows]
        simp
      rw [List.append_assoc, List.singleton_append, List.isChain_append_cons_cons, ← ih, Ordered,
        Ordered, hhead, hviews]
      simp [and_assoc]

end Chain

/-! ## One line -/

/-- The names of a record's fields. -/
def fieldNames : List String :=
  ["schema_version", "record_id", "stream_id", "segment_id", "seq", "ts_wall", "ts_mono_ns",
    "record_type", "recorder", "subject", "action", "action_detail", "payload_commitment",
    "payload_ref", "verdict", "approval_ref", "links", "prev_hash", "record_hash"]

section Names

/-- A body without escapes is the string. -/
theorem body_eq_of_not_mem {t s : List Char} (h : Rfc8259.StringBody t s) (hb : '\\' ∉ t) :
    t = s := by
  induction h with
  | nil => rfl
  | plain _ _ _ _ ih => rw [ih fun hm => hb (List.mem_cons_of_mem _ hm)]
  | escape | unicode | surrogates => exact absurd List.mem_cons_self hb

/-- No other field's name is one flip away from `record_hash`. -/
theorem eq_recordHash_of_flip {s : String} (hs : s ∈ fieldNames) {k : Nat} {a a' : Char}
    {x q : List Char} (hflip : FlippedChar k a a') (hk : k < 8) (hbody : printBody s = x ++ a :: q)
    (hbody' : Rfc8259.StringBody (x ++ a' :: q) "record_hash".toList) : s = "record_hash" := by
  let letters : List Char := '_' :: "abcdefghijklmnopqrstuvwxyz".toList
  have hplain : ∀ s ∈ fieldNames, printBody s = s.toList ∧
      s.toList.all fun d => d ∈ letters := by
    decide +kernel
  have hletters : ∀ d ∈ letters, d ≠ '\\' ∧ d.toNat < 0x80 ∧
      ∀ j ∈ List.range 8, Char.ofNat (d.toNat ^^^ 2 ^ j) ≠ '\\' :=
    List.all_iff_forall_prop.mp (by decide +kernel)
  obtain ⟨hprint, hmem⟩ := hplain s hs
  have hall := List.all_iff_forall_prop.mp hmem
  rw [hprint] at hbody
  rw [hbody] at hall
  have ha : a ∈ letters := hall a (by simp)
  have hnot : '\\' ∉ x ++ a' :: q := by
    intro hm
    rcases List.mem_append.mp hm with hm | hm
    · exact (hletters _ (hall _ (List.mem_append_left _ hm))).1 rfl
    · rcases List.mem_cons.mp hm with rfl | hm
      · have hne := (hletters a ha).2.2 k (List.mem_range.mpr hk)
        rw [← hflip.toNat_eq (hletters a ha).2.1, Char.ofNat_toNat] at hne
        exact hne rfl
      · exact (hletters _ (hall _ (List.mem_append_right _ (List.mem_cons_of_mem a hm)))).1 rfl
  have htext := body_eq_of_not_mem hbody' hnot
  -- the texts agree but for the character at the place of the flip
  have hnames : ∀ s ∈ fieldNames, ∀ n ∈ List.range 11,
      s.toList.take n = "record_hash".toList.take n →
        s.toList.drop (n + 1) = "record_hash".toList.drop (n + 1) → s = "record_hash" := by
    decide +kernel
  have hlen : x.length < 11 := by
    have hlength := congrArg List.length htext
    have heleven : "record_hash".toList.length = 11 := by decide
    rw [heleven, List.length_append, List.length_cons] at hlength
    omega
  refine hnames s hs x.length (List.mem_range.mpr hlen) ?_ ?_
  · rw [hbody, ← htext]
    simp
  · rw [hbody, ← htext]
    simp

end Names

section Line

variable {E : Externals} {r : Record} {raw w : Json} {i k : Nat} {a a' : Char} {pre post : List Char}
  {view : RecordView} {stream : String}

/-- A line is the text of the canonical form and a line feed. -/
theorem exists_canon_line {line : Bytes} (h : r.toNdjsonLine = .ok line) : ∃ raw : Json,
    canon r.toJson.value = some raw.value ∧ line = utf8 (print raw.value ++ ['\n']) := by
  obtain ⟨b, hb, rfl⟩ := Record.toNdjsonLine_eq_ok.mp h
  obtain ⟨c, hc, rfl⟩ := toJcsBytes_eq_ok.mp hb
  exact ⟨⟨c, wf_canon r.toJson.wf hc⟩, hc, by rw [utf8_append]; rfl⟩

/-- The text of a canonical form is read as that form. -/
theorem fromSlice_jsonText (hread : E.ReadsExactly) {t : List Char}
    (h : Rfc8259.JsonText E.readFloat t raw.value) : E.fromSlice (utf8 t) = .ok raw :=
  (hread _ raw).mpr ⟨t, utf8Decode_utf8 t, h⟩

/-- A record read back is its stream's own. -/
theorem own_of_canon (hhash : r.computeHash E = .ok r.recordHash)
    (hc : canon r.toJson.value = some raw.value) : Own E r.streamId raw r.view := by
  obtain ⟨b, hb, hb'⟩ := computeHashOfValue_eq_ok.mp hhash
  refine ⟨r.view_of.canon hc, rfl, computeHashOfValue_eq_ok.mpr ⟨b, ?_, hb'⟩⟩
  exact hashInput_canon hc r.view_of.get_recordHash hb

/-- The hash does not depend on the hash that is stored. -/
theorem hashInput_middle {p q : List (String × Value)} {x y : Value}
    (hraw : raw.value = .object (p ++ ("record_hash", x) :: q))
    (hw : w.value = .object (p ++ ("record_hash", y) :: q)) : hashInput raw = hashInput w := by
  obtain ⟨v, hv⟩ := raw
  obtain ⟨v', hv'⟩ := w
  obtain rfl : v = _ := hraw
  obtain rfl : v' = _ := hw
  have hnodup := (Value.wf_object.mp hv).1
  rw [List.map_append, List.map_cons, List.nodup_middle, List.nodup_cons, List.mem_append,
    not_or] at hnodup
  have hsame : withoutRecordHash ⟨_, hv⟩ = withoutRecordHash ⟨_, hv'⟩ := by
    simp only [withoutRecordHash, Value.swapRemove_middle x y hnodup.1.1]
  rw [hashInput, hashInput, hsame]

/-- The names of a record read back. -/
theorem names_of_canon (hc : canon r.toJson.value = some raw.value) :
    ∃ ns, raw.value = .object ns ∧ ∀ s ∈ ns.map Prod.fst, s ∈ fieldNames := by
  obtain ⟨ns, hns, hobj⟩ := canon_object.mp hc
  refine ⟨_, hobj, fun s hs => ?_⟩
  have hperm := ((sortMembers_perm ns).map Prod.fst).mem_iff.mp hs
  rw [keys_eq_of_canonMember hns] at hperm
  exact (Json.keys_members_sublist r.fields).subset hperm

/-- A flipped line that still has its own hash: it reads as the record it was, or what was hashed
for the two is a collision. -/
theorem eq_of_own_flip (hzero : E.ReadsMinusZero) (hhash : r.computeHash E = .ok r.recordHash)
    (hc : canon r.toJson.value = some raw.value) (hprint : print raw.value = pre ++ a :: post)
    (hflip : FlippedChar k a a') (hk : k < 8)
    (hw : Rfc8259.JsonText E.readFloat ((pre ++ a' :: post) ++ ['\n']) w.value)
    (hown : Own E stream w view) : (w = raw ∧ UpcasesEscape k pre a) ∨
      ∃ b b', hashInput raw = .ok b ∧ hashInput w = .ok b' ∧ b ≠ b' ∧ E.blake3 b = E.blake3 b' := by
  obtain ⟨b, hb, hrhash⟩ := computeHashOfValue_eq_ok.mp (own_of_canon hhash hc).hash
  obtain ⟨b', hb', hwhash⟩ := computeHashOfValue_eq_ok.mp hown.hash
  have hget := (own_of_canon hhash hc).view_of.get_recordHash
  have hget' := hown.view_of.get_recordHash
  have hcases := flipped_reads hzero r.toJson.wf hc hprint hflip hk hw
  by_cases hsame : r.view.recordHash = view.recordHash
  · by_cases hbytes : b = b'
    · left
      subst hbytes
      rw [← hsame] at hget'
      have hequiv := equiv_of_hashInput_eq hb hb' hget hget'
      rcases hcases with ⟨hne, -⟩ | ⟨s, s', hreplaced, hs, hup, -⟩
      · exact absurd hequiv hne
      · obtain rfl := hs hequiv
        exact ⟨Json.ext (hreplaced.eq_self raw.wf), hup rfl⟩
    · right
      refine ⟨b, b', hb, hb', hbytes, blake3Hex_inj.mp ?_⟩
      rw [← hrhash, ← hwhash, hsame]
  · -- another hash stands there, which none of the flips brings about
    exfalso
    obtain ⟨ns, hns, hnames⟩ := names_of_canon hc
    have hwf := raw.wf
    rw [hns] at hwf hget hcases
    rcases hcases with ⟨-, hstrings⟩ | ⟨s, s', hreplaced, -, -, x, q, hbody, hbody'⟩
    · cases hobj : w.value with
      | object ns' =>
        have hwf' := w.wf
        rw [hobj] at hget' hwf'
        have hmem := (Value.lookup_eq_some_iff (Value.wf_object.mp hwf').1).mp hget'
        have hold := hstrings ns ns' rfl hobj _ _ hmem
        have hlookup := (Value.lookup_eq_some_iff (Value.wf_object.mp hwf).1).mpr hold
        have heq := Option.some.inj (hget.symm.trans hlookup)
        exact hsame (Value.string.inj heq)
      | _ => rw [hobj] at hget'; cases hget'
    · rcases hreplaced.member hwf w.wf hget hget' hsame with
        ⟨p, q', rfl, hobj⟩ | ⟨rfl, hne, hs⟩
      · -- the hash itself was changed, and what is hashed was not
        rw [hashInput_middle hns hobj, hb'] at hb
        obtain rfl := Except.ok.inj hb
        exact hsame (hrhash.trans hwhash.symm)
      · exact hne (eq_recordHash_of_flip (hnames s hs) hflip hk hbody hbody')

/-- The text of a flipped line, if it can be read. -/
theorem flipped_text (hread : E.ReadsExactly)
    (hi : i + 1 < (utf8 (print raw.value ++ ['\n'])).length) (hk : k < 8)
    (hw : E.fromSlice (flipBit i k (utf8 (print raw.value ++ ['\n']))) = .ok w) :
    ∃ pre a a' post, print raw.value = pre ++ a :: post ∧ FlippedChar k a a' ∧
      Rfc8259.JsonText E.readFloat ((pre ++ a' :: post) ++ ['\n']) w.value ∧
      (utf8 pre).length ≤ i ∧ i < (utf8 pre).length + (String.utf8EncodeChar a).length := by
  obtain ⟨cs, hdecode, hjson⟩ := (hread _ w).mp hw
  obtain ⟨pre, a, a', post, htext, rfl, hflip, hle, hlt⟩ :=
    utf8_flip (by omega) hk (utf8_of_utf8Decode hdecode).symm
  have hnewline : (utf8 ['\n']).length = 1 := rfl
  rw [utf8_append, List.length_append, hnewline] at hi
  rcases post.eq_nil_or_concat' with rfl | ⟨post, b, rfl⟩
  · obtain ⟨hpre, -⟩ := List.append_inj' htext rfl
    rw [hpre] at hi
    omega
  · have hsplit : print raw.value ++ ['\n'] = (pre ++ a :: post) ++ [b] := by simpa using htext
    obtain ⟨hprint, hb⟩ := List.append_inj' hsplit rfl
    obtain rfl := List.singleton_inj.mp hb
    exact ⟨pre, a, a', post, hprint, hflip, by simpa using hjson, hle, hlt⟩

/-- **A flip that goes unnoticed** leaves the record as it was read, or exhibits a collision. -/
theorem unnoticed_flip (hread : E.ReadsExactly) (hzero : E.ReadsMinusZero)
    (hhash : r.computeHash E = .ok r.recordHash) {line : Bytes} (hline : r.toNdjsonLine = .ok line)
    (hi : i + 1 < line.length) (hk : k < 8) (hw : E.fromSlice (flipBit i k line) = .ok w)
    (hown : Own E stream w view) : (E.fromSlice line = .ok w ∧ Upcases line i k) ∨
      Collides E.blake3 (lineInputs E line) (lineInputs E (flipBit i k line)) := by
  obtain ⟨raw, hc, rfl⟩ := exists_canon_line hline
  have hraw : E.fromSlice (utf8 (print raw.value ++ ['\n'])) = .ok raw :=
    fromSlice_jsonText hread (jsonText_line (valueText_print _ r.toJson.wf hc))
  obtain ⟨pre, a, a', post, hprint, hflip, hjson, hle, hlt⟩ := flipped_text hread hi hk hw
  rcases eq_of_own_flip hzero hhash hc hprint hflip hk hjson hown with
    ⟨rfl, hup⟩ | ⟨b, b', hb, hb', hne, hcollide⟩
  · refine .inl ⟨hraw, pre, a, post ++ ['\n'], by rw [hprint]; simp, ?_, hup⟩
    have hone : ∀ d ∈ hexLetters, (String.utf8EncodeChar d).length = 1 :=
      List.all_iff_forall_prop.mp (by decide)
    rw [hone a hup.2.1] at hlt
    omega
  · refine .inr ⟨b, ?_, b', ?_, hne, hcollide⟩
    · rw [lineInputs, hraw]
      simp only [hb, Except.toOption, Option.toList, List.mem_singleton]
    · rw [lineInputs, hw]
      simp only [hb', Except.toOption, Option.toList, List.mem_singleton]

/-- **A flip to upper case in an escape is read as the record it was.** -/
theorem fromSlice_upcased (hread : E.ReadsExactly) {line : Bytes}
    (hline : r.toNdjsonLine = .ok line) (hup : Upcases line i k) :
    E.fromSlice (flipBit i k line) = E.fromSlice line := by
  obtain ⟨raw, hc, rfl⟩ := exists_canon_line hline
  obtain ⟨pre, a, post, hbytes, rfl, hescape⟩ := hup
  obtain ⟨rfl, ha, -⟩ := id hescape
  have htext := utf8_injective hbytes
  obtain ⟨post, rfl⟩ : ∃ post', post = post' ++ ['\n'] := by
    rcases post.eq_nil_or_concat' with rfl | ⟨post, b, rfl⟩
    · obtain ⟨-, hlast⟩ := List.append_inj' htext rfl
      obtain rfl := List.singleton_inj.mp hlast
      exact absurd ha (by decide)
    · have hsplit : print raw.value ++ ['\n'] = (pre ++ a :: post) ++ [b] := by simpa using htext
      obtain ⟨-, hb⟩ := List.append_inj' hsplit rfl
      exact ⟨post, by rw [hb]⟩
  have hprint : print raw.value = pre ++ a :: post := by
    have hsplit : print raw.value ++ ['\n'] = (pre ++ a :: post) ++ ['\n'] := by simpa using htext
    exact List.append_cancel_right hsplit
  have hflip : flipBit (utf8 pre).length 5 (utf8 (print raw.value ++ ['\n'])) =
      utf8 ((pre ++ a.toUpper :: post) ++ ['\n']) := by
    have hletter : ∀ d ∈ hexLetters, 0 < (String.utf8EncodeChar d).length ∧
        flipBit 0 5 (String.utf8EncodeChar d) = String.utf8EncodeChar d.toUpper :=
      List.all_iff_forall_prop.mp (by decide)
    rw [hprint, List.append_assoc, List.cons_append, List.append_assoc, List.cons_append,
      utf8_append, utf8_append, utf8_cons, utf8_cons, flipBit_append_right (le_refl _),
      Nat.sub_self, flipBit_append_left (hletter a ha).1, (hletter a ha).2]
  rw [hflip, fromSlice_jsonText hread (upcased_reads r.toJson.wf hc hprint hescape),
    fromSlice_jsonText hread (jsonText_line (valueText_print _ r.toJson.wf hc))]

/-- One line has one input at most. -/
theorem not_collides_of_inputs_eq {line line' : Bytes}
    (h : lineInputs E line' = lineInputs E line) :
    ¬Collides E.blake3 (lineInputs E line) (lineInputs E line') := by
  rintro ⟨x, hx, y, hy, hne, -⟩
  rw [h] at hy
  rw [lineInputs] at hx hy
  cases hread : E.fromSlice line with
  | error e => simp [hread] at hx
  | ok v =>
    simp only [hread, Option.mem_toList] at hx hy
    exact hne (Option.some.inj (hx.symm.trans hy))

end Line

/-! ## Streams -/

section Stream

variable {E : Externals} {stream : Ulid} {rs : List Record} {lines : List Bytes}

/-- The lines of a chain are read back as its own records. -/
theorem exists_raws (hread : E.ReadsExactly) {genesis : String}
    (hhash : ∀ r ∈ rs, r.computeHash E = .ok r.recordHash) (hstream : ∀ r ∈ rs, r.streamId = genesis)
    (hlines : List.Forall₂ (fun r line => r.toNdjsonLine = .ok line) rs lines) :
    ∃ raws, lines.map E.fromSlice = raws.map Except.ok ∧
      List.Forall₂ (Own E genesis) raws (rs.map Record.view) := by
  induction hlines with
  | nil => exact ⟨[], rfl, .nil⟩
  | @cons r line rs lines hline _ ih =>
    rw [List.forall_mem_cons] at hhash hstream
    obtain ⟨raws, hraws, hown⟩ := ih hhash.2 hstream.2
    obtain ⟨raw, hc, rfl⟩ := exists_canon_line hline
    refine ⟨raw :: raws, ?_, .cons (hstream.1 ▸ own_of_canon hhash.1 hc) hown⟩
    rw [List.map_cons, List.map_cons, hraws,
      fromSlice_jsonText hread (jsonText_line (valueText_print _ r.toJson.wf hc))]

theorem map_set_of_eq {α β : Type} {f : α → β} {xs : List α} {j : Nat} {x y : α}
    (hj : xs[j]? = some x) (h : f y = f x) : (xs.set j y).map f = xs.map f := by
  obtain ⟨hlt, rfl⟩ := List.getElem?_eq_some_iff.mp hj
  rw [List.map_set, h]
  refine List.ext_getElem? fun n => ?_
  by_cases hn : j = n
  · subst hn
    simp [hlt]
  · simp [hn]

/-- **When a flipped bit is detected**: over any run of a head, flipping a bit of a record line in
front of its line feed leads to a line that does not parse, an error or a finding, or exhibits a
collision, if and only if it does not turn the last digit of an escape to upper case while the
clocks of the stream are in step. -/
theorem flips_detected_iff (hread : E.ReadsExactly) (hzero : E.ReadsMinusZero)
    (hulid : E.UlidRoundTrip) {head : ChainHead} (hrun : Run E stream head rs)
    (hlines : List.Forall₂ (fun r line => r.toNdjsonLine = .ok line) rs lines) {sv : StreamVerifier}
    (hnew : StreamVerifier.new E (E.ulidToString stream) = .ok sv) {j : Nat} {line : Bytes}
    (hj : lines[j]? = some line) {i k : Nat} (hi : i + 1 < line.length) (hk : k < 8) :
    (Detected E sv (lines.set j (flipBit i k line)) ∨
        Collides E.blake3 (lineInputs E line) (lineInputs E (flipBit i k line))) ↔
      ¬(Upcases line i k ∧ rs.IsChain (ClocksInStep E)) := by
  have hchain := hrun.inv.chained
  obtain ⟨raws, hraws, hown⟩ := exists_raws hread hchain.computeHash hchain.streamId hlines
  obtain ⟨r, hr, hline⟩ := exists_of_mem_forall₂ hlines (List.mem_of_getElem? hj)
  obtain ⟨ulid, hparse, rfl⟩ := new_eq_ok.mp hnew
  obtain rfl : stream = ulid := Except.ok.inj ((hulid stream).symm.trans hparse)
  constructor
  · rintro hnoticed ⟨hup, hclocks⟩
    have hsame := fromSlice_upcased hread hline hup
    rcases hnoticed with hdetected | hcollides
    · have hfeed := (feed_clean new_after).mpr ⟨_, hown, hchain.ordered_iff.mpr hclocks⟩
      have hmap := (map_set_of_eq hj hsame).trans hraws
      exact not_detected_iff.mpr ⟨raws, hmap, hfeed⟩ hdetected
    · have hinputs : lineInputs E (flipBit i k line) = lineInputs E line := by
        rw [lineInputs, lineInputs, hsame]
      exact not_collides_of_inputs_eq hinputs hcollides
  · intro hnot
    by_contra hno
    rw [not_or] at hno
    obtain ⟨raws', hraws', hfeed⟩ := not_detected_iff.mp hno.1
    obtain ⟨views, hviews, hordered⟩ := (feed_clean new_after).mp hfeed
    obtain ⟨hlt, -⟩ := List.getElem?_eq_some_iff.mp hj
    have hflipped : E.fromSlice (flipBit i k line) ∈ raws'.map Except.ok := by
      rw [← hraws']
      exact List.mem_map_of_mem (List.mem_set hlt _)
    obtain ⟨w, hw, hread'⟩ := List.mem_map.mp hflipped
    obtain ⟨view, -, hownw⟩ := exists_of_mem_forall₂ hviews.flip hw
    rcases unnoticed_flip hread hzero (hchain.computeHash r hr) hline hi hk hread'.symm hownw with
      ⟨hsame, hup⟩ | hcollides
    · have hmap := (map_set_of_eq hj (hread'.symm.trans hsame.symm)).symm.trans hraws'
      rw [hraws] at hmap
      obtain rfl := List.map_injective_iff.mpr (fun _ _ => Except.ok.inj) hmap
      obtain rfl : views = rs.map Record.view :=
        List.right_unique_forall₂' (fun _ _ _ h h' => h.unique h') hviews hown
      exact hnot ⟨hup, hchain.ordered_iff.mp hordered⟩
    · exact hno.2 hcollides

end Stream

/-! A record of a terminal escape, whose line has the escape of a control character. -/

namespace Sample

def highlighted : Record := { opened with
  action := ⟨"shell", "segment_start", "write", "\x1b[0m", []⟩
  recordHash := "5ae85aecca89cf152fa5c1e6e85b8d30ee545e9774024b099c974db185a407f4" }

def highlightedRecording : Externals.Recording := { recording with
  blake3 := recording.blake3 ++
    [((hashInput highlighted.toJson).toOption.getD [], ofHex highlighted.recordHash)] }

def highlightedExternals : Externals := .recorded highlightedRecording

def highlightedLine : Bytes := highlighted.toNdjsonLine.toOption.getD []

theorem run_highlighted : Run highlightedExternals stream
    ⟨stream, highlighted.recordHash, some 0⟩ [highlighted] := by
  have hhash : highlighted.computeHash highlightedExternals = .ok highlighted.recordHash := by
    decide +kernel
  have hgenesis : genesisPrevHash highlightedExternals stream = opened.prevHash := by decide
  have happend : (ChainHead.genesis highlightedExternals stream).append highlightedExternals
      highlighted = (.ok (), ⟨stream, highlighted.recordHash, some 0⟩, highlighted) := by
    refine append_of_computeHash (by decide) ?_ hhash
    simp only [ChainHead.genesis, hgenesis]
    rfl
  exact .appended .genesis happend

theorem highlighted_line : highlighted.toNdjsonLine = .ok highlightedLine := by
  cases hline : highlighted.toNdjsonLine with
  | ok line => rw [highlightedLine, hline]; rfl
  | error e =>
    have hsome : highlighted.toNdjsonLine.toOption.isSome := by decide +kernel
    rw [hline] at hsome
    cases hsome

theorem new_highlighted : StreamVerifier.new highlightedExternals
    (highlightedExternals.ulidToString stream) =
      .ok ⟨opened.streamId, opened.prevHash, none, none, 0⟩ := by
  have hid : highlightedExternals.ulidFromString (highlightedExternals.ulidToString stream) =
      .ok stream := Externals.ulidRoundTrip_recorded _ stream
  have hgenesis : genesisPrevHash highlightedExternals stream = opened.prevHash := by decide
  have hstream : highlightedExternals.ulidToString stream = opened.streamId := by decide
  simp only [StreamVerifier.new, hid, hgenesis]
  rw [hstream]

end Sample

theorem flips_detected_iff_sample :
    (Detected Sample.highlightedExternals ⟨Sample.opened.streamId, Sample.opened.prevHash, none,
          none, 0⟩ [flipBit 85 5 Sample.highlightedLine] ∨
        Collides Sample.highlightedExternals.blake3
          (lineInputs Sample.highlightedExternals Sample.highlightedLine)
          (lineInputs Sample.highlightedExternals (flipBit 85 5 Sample.highlightedLine))) ↔
      ¬(Upcases Sample.highlightedLine 85 5 ∧
        [Sample.highlighted].IsChain (ClocksInStep Sample.highlightedExternals)) :=
  flips_detected_iff (Externals.readsExactly_recorded _) (Externals.readsMinusZero_recorded _)
    (Externals.ulidRoundTrip_recorded _) Sample.run_highlighted (.cons Sample.highlighted_line .nil)
    Sample.new_highlighted (j := 0) rfl (by decide +kernel) (by decide)

/-- Of the escape `\u001b` in a line, the last digit in upper case, one bit away: neither the line
nor the stream is refused, and no two inputs were hashed. -/
theorem upcased_unnoticed :
    Sample.highlightedExternals.ReadsExactly ∧
      Run Sample.highlightedExternals Sample.stream
        ⟨Sample.stream, Sample.highlighted.recordHash, some 0⟩ [Sample.highlighted] ∧
      Sample.highlighted.toNdjsonLine = .ok Sample.highlightedLine ∧
      Sample.highlightedLine[85]? = some 0x62 ∧ 85 + 1 < Sample.highlightedLine.length ∧
      ∃ sv, StreamVerifier.new Sample.highlightedExternals
          (Sample.highlightedExternals.ulidToString Sample.stream) = .ok sv ∧
        ¬Detected Sample.highlightedExternals sv [flipBit 85 5 Sample.highlightedLine] ∧
        ¬Collides Sample.highlightedExternals.blake3
          (lineInputs Sample.highlightedExternals Sample.highlightedLine)
          (lineInputs Sample.highlightedExternals (flipBit 85 5 Sample.highlightedLine)) := by
  refine ⟨Externals.readsExactly_recorded _, Sample.run_highlighted, Sample.highlighted_line, by decide +kernel,
    by decide +kernel, _, Sample.new_highlighted, by decide +kernel, ?_⟩
  have hinputs : lineInputs Sample.highlightedExternals (flipBit 85 5 Sample.highlightedLine) =
      lineInputs Sample.highlightedExternals Sample.highlightedLine := by
    decide +kernel
  exact not_collides_of_inputs_eq hinputs

end Sealr.Evidence
