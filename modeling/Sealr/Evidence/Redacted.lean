import Sealr.Evidence.Determined
import Sealr.Evidence.Projection

/-!
# Verifying projections

A projection carries the hash of the record it was made from, but the verifier recomputes the hash
from what it is given. Numbers, times and links are all there, so nothing else changes: a stream of
projections is verified as the stream of records exactly when the projection lost nothing, or BLAKE3
collides.
-/

namespace Sealr.Evidence

open Lib

/-! ## Hashing what is left -/

section Hashing

variable {E : Externals} {r : Record} {b : Bytes}

theorem strings_of_equiv {xs ys : List String}
    (h : (Json.array (xs.map .str)).value.Equiv (Json.array (ys.map .str)).value) : xs = ys := by
  have hall := Value.equiv_array.mp h
  rw [List.map_map, List.map_map, List.forall₂_map_left_iff, List.forall₂_map_right_iff] at hall
  have heq : List.Forall₂ Eq xs ys := hall.imp fun x y hxy => Value.Equiv.asStr_eq hxy rfl rfl
  rwa [List.forall₂_eq_eq_eq] at heq

theorem RecorderInfo.eq_of_equiv {a b : RecorderInfo} (h : a.toJson.value.Equiv b.toJson.value) :
    a = b := by
  obtain ⟨id, version, host, platform⟩ := a
  obtain ⟨id', version', host', platform'⟩ := b
  have h1 : id = id' := Json.str_of_equiv (k := "recorder_id") h (by simp) (by simp)
  have h2 : version = version' := Json.str_of_equiv (k := "version") h (by simp) (by simp)
  have h3 : host = host' := Json.str_of_equiv (k := "host_fingerprint") h (by simp) (by simp)
  have h4 : platform = platform' := Json.str_of_equiv (k := "platform") h (by simp) (by simp)
  rw [h1, h2, h3, h4]

theorem Subject.eq_of_equiv {a b : Subject} (h : a.toJson.value.Equiv b.toJson.value)
    (hattribution : a.attribution = b.attribution) : a = b := by
  obtain ⟨kind, session, principal, attribution, source⟩ := a
  obtain ⟨kind', session', principal', attribution', source'⟩ := b
  have h1 : kind = kind' := Json.str_of_equiv (k := "agent_kind") h (by simp) (by simp)
  have h2 : session = session' := Json.str_of_equiv (k := "agent_session") h (by simp) (by simp)
  have h3 : source = source' := Json.str_of_equiv (k := "source") h (by simp) (by simp)
  have h4 : principal = principal' := by
    obtain ⟨hnone, hnone'⟩ | ⟨j, j', hj, hj', heq⟩ := Json.field_of_equiv (k := "human_principal")
      (o := principal.map .str) (p := principal'.map .str) h (by simp) (by simp)
    · rw [Option.map_eq_none_iff.mp hnone, Option.map_eq_none_iff.mp hnone']
    · obtain ⟨s, rfl, rfl⟩ := Option.map_eq_some_iff.mp hj
      obtain ⟨t, rfl, rfl⟩ := Option.map_eq_some_iff.mp hj'
      rw [Value.Equiv.asStr_eq heq rfl rfl]
  obtain rfl : attribution = attribution' := hattribution
  rw [h1, h2, h3, h4]

theorem Action.eq_of_equiv {a b : Action} (h : a.toJson.value.Equiv b.toJson.value) : a = b := by
  obtain ⟨integration, operation, verb, target, labels⟩ := a
  obtain ⟨integration', operation', verb', target', labels'⟩ := b
  have h1 : integration = integration' :=
    Json.str_of_equiv (k := "integration") h (by simp) (by simp)
  have h2 : operation = operation' := Json.str_of_equiv (k := "operation") h (by simp) (by simp)
  have h3 : verb = verb' := Json.str_of_equiv (k := "verb_class") h (by simp) (by simp)
  have h4 : target = target' := Json.str_of_equiv (k := "target_resource") h (by simp) (by simp)
  have h5 : labels = labels' := by
    obtain ⟨hnone, hnone'⟩ | ⟨j, j', hj, hj', heq⟩ := Json.field_of_equiv (k := "resource_labels")
      (o := listField labels) (p := listField labels') h (by simp) (by simp)
    · simp only [listField, ite_eq_left_iff, reduceCtorEq, imp_false, not_not] at hnone hnone'
      rw [hnone, hnone']
    · simp only [listField, Option.ite_none_left_eq_some, Option.some.injEq] at hj hj'
      obtain ⟨-, rfl⟩ := hj
      obtain ⟨-, rfl⟩ := hj'
      exact strings_of_equiv heq
  rw [h1, h2, h3, h4, h5]

/-- A record that is hashed like what is left of it lost nothing. -/
theorem redacted_eq_of_hashInput (h : hashInput r.toJson = .ok b)
    (h' : hashInput r.redacted.toJson = .ok b) : r.redacted = r := by
  have hkept : ∀ k j j', (k, some j) ∈ r.fields → (k, some j') ∈ r.redacted.fields →
      k ≠ "record_hash" → j.value.Equiv j'.value := by
    intro k j j' hj hj' hk
    obtain ⟨y, hy, heq⟩ := get_of_hashInput_eq h h' hk (Record.get_toJson hj)
    rw [Record.get_toJson hj'] at hy
    cases hy
    exact heq
  have hgone : ∀ k o, (k, none) ∈ r.redacted.fields → k ≠ "record_hash" → (k, o) ∈ r.fields →
      o = none := by
    intro k o hnone hk ho
    cases o with
    | none => rfl
    | some j =>
      obtain ⟨y, hy, -⟩ := get_of_hashInput_eq h h' hk (Record.get_toJson ho)
      rw [show r.redacted.toJson.value.get k = none from Json.get_ofFields_none hnone] at hy
      cases hy
  have hrecorder := RecorderInfo.eq_of_equiv (hkept "recorder" r.recorder.toJson
    r.redacted.recorder.toJson (by simp [Record.fields]) (by simp [Record.fields]) (by decide))
  have hsubject := Subject.eq_of_equiv (hkept "subject" r.subject.toJson
    r.redacted.subject.toJson (by simp [Record.fields]) (by simp [Record.fields]) (by decide)) rfl
  have haction := Action.eq_of_equiv (hkept "action" r.action.toJson r.redacted.action.toJson
    (by simp [Record.fields]) (by simp [Record.fields]) (by decide))
  have hdetail : r.actionDetail = none := hgone "action_detail" r.actionDetail
    (by simp [Record.fields, Record.redacted]) (by decide) (by simp [Record.fields])
  have href : r.payloadRef.map (·.toJson) = none := hgone "payload_ref" _
    (by simp [Record.fields, Record.redacted]) (by decide) (by simp [Record.fields])
  rw [Option.map_eq_none_iff] at href
  calc r.redacted
    _ = { r with
          recorder := r.redacted.recorder
          subject := r.redacted.subject
          action := r.redacted.action
          actionDetail := none
          payloadRef := none } := rfl
    _ = r := by rw [← hrecorder, ← hsubject, ← haction, ← hdetail, ← href]

/-- A hashed record has fields with canonical forms. -/
theorem exists_canon_of_hashInput (h : hashInput r.toJson = .ok b) {k : String} {j : Json}
    (hj : (k, some j) ∈ r.fields) (hk : k ≠ "record_hash") :
    ∃ c, Rfc8785.canon j.value = some c := by
  obtain ⟨w, hw, hb⟩ := hashInput_eq_ok.mp h
  obtain ⟨c, hc, -⟩ := toJcsBytes_eq_ok.mp hb
  have hget : w.value.get k = some j.value := by
    rw [get_withoutRecordHash hw hk]
    exact Record.get_toJson hj
  obtain ⟨y, -, hy⟩ := Rfc8785.get_canon w.wf hc hget
  exact ⟨y, hy⟩

/-- A record whose fields have canonical forms is hashed. -/
theorem hashInput_of_fields
    (h : ∀ k j, (k, some j) ∈ r.fields → ∃ c, Rfc8785.canon j.value = some c) :
    ∃ b, hashInput r.toJson = .ok b := by
  have hmembers : ∀ m ∈ Json.members r.fields, ∃ c, Rfc8785.canon m.2 = some c := by
    intro m hm
    obtain ⟨f, hf, hfm⟩ := List.mem_filterMap.mp hm
    obtain ⟨j, hj, rfl⟩ := Option.map_eq_some_iff.mp hfm
    exact h f.1 j (by rw [← hj]; exact hf)
  have hget : r.toJson.value.get "record_hash" = some (.string r.recordHash) :=
    Record.get_toJson (j := .str r.recordHash) (by simp [Record.fields])
  have hrest : ∃ c, Rfc8785.canon
      (.object (Value.swapRemove "record_hash" (Json.members r.fields))) = some c := by
    apply Rfc8785.exists_canon_object.mpr
    intro m hm
    apply hmembers
    exact (Value.perm_swapRemove hget).mem_iff.mpr (List.mem_cons_of_mem _ hm)
  obtain ⟨c, hc⟩ := hrest
  exact ⟨_, hashInput_eq_ok.mpr ⟨_, rfl, toJcsBytes_eq_ok.mpr ⟨c, hc, rfl⟩⟩⟩

theorem exists_canon_str (s : String) : ∃ c, Rfc8785.canon (Json.str s).value = some c := ⟨_, rfl⟩

theorem exists_canon_recorder (i : RecorderInfo) : ∃ c, Rfc8785.canon i.toJson.value = some c := by
  apply Rfc8785.exists_canon_ofFields
  simp only [List.forall_mem_cons, Option.some.injEq, forall_eq', List.not_mem_nil, false_implies,
    implies_true, and_true]
  exact ⟨exists_canon_str _, exists_canon_str _, exists_canon_str _, exists_canon_str _⟩

theorem exists_canon_subject (s : Subject) : ∃ c, Rfc8785.canon s.toJson.value = some c := by
  apply Rfc8785.exists_canon_ofFields
  simp only [List.forall_mem_cons, Option.some.injEq, forall_eq', List.not_mem_nil, false_implies,
    implies_true, and_true]
  refine ⟨exists_canon_str _, exists_canon_str _, ?_, exists_canon_str _, exists_canon_str _⟩
  intro j hj
  obtain ⟨p, -, rfl⟩ := Option.map_eq_some_iff.mp hj
  exact exists_canon_str p

theorem exists_canon_action (a : Action) : ∃ c, Rfc8785.canon a.toJson.value = some c := by
  apply Rfc8785.exists_canon_ofFields
  simp only [List.forall_mem_cons, Option.some.injEq, forall_eq', List.not_mem_nil, false_implies,
    implies_true, and_true]
  refine ⟨exists_canon_str _, exists_canon_str _, exists_canon_str _, exists_canon_str _, ?_⟩
  intro j hj
  simp only [listField, Option.ite_none_left_eq_some, Option.some.injEq] at hj
  obtain ⟨-, rfl⟩ := hj
  apply Rfc8785.exists_canon_array.mpr
  intro x hx
  obtain ⟨_, hy, rfl⟩ := List.mem_map.mp hx
  obtain ⟨l, -, rfl⟩ := List.mem_map.mp hy
  exact exists_canon_str l

/-- What is left of a record: its fields, but for the three sanitized blocks and the two gaps. -/
theorem Record.mem_fields_redacted {f : String × Option Json} (hf : f ∈ r.redacted.fields) :
    f ∈ r.fields ∨ f.2 = some r.redacted.recorder.toJson ∨ f.2 = some r.redacted.subject.toJson ∨
      f.2 = some r.redacted.action.toJson ∨ f.2 = none := by
  simp only [fields, List.mem_cons, List.not_mem_nil, or_false] at hf ⊢
  obtain rfl | rfl | rfl | rfl | rfl | rfl | rfl | rfl | rfl | rfl | rfl | rfl | rfl | rfl | rfl |
    rfl | rfl | rfl | rfl := hf <;> simp [redacted, ConsoleSafeRecord.fromRecord]

/-- What is left of a hashed record is hashed. -/
theorem hashInput_redacted (h : hashInput r.toJson = .ok b) :
    ∃ b', hashInput r.redacted.toJson = .ok b' := by
  apply hashInput_of_fields
  intro k j hj
  obtain hsame | hrecorder | hsubject | haction | hnone := Record.mem_fields_redacted hj
  · by_cases hk : k = "record_hash"
    · subst hk
      obtain rfl : j = .str r.recordHash := by
        simpa [Record.fields] using hsame
      exact exists_canon_str r.recordHash
    · exact exists_canon_of_hashInput h hsame hk
  · rw [Option.some.inj hrecorder]
    exact exists_canon_recorder _
  · rw [Option.some.inj hsubject]
    exact exists_canon_subject _
  · rw [Option.some.inj haction]
    exact exists_canon_action _
  · cases hnone

/-- The hash of a projection is the one it carries exactly when nothing was lost, or BLAKE3
collides. -/
theorem computeHash_projection (h : r.computeHash E = .ok r.recordHash) :
    ∃ computed, computeHashOfValue E (ConsoleSafeRecord.fromRecord r).toJson = .ok computed ∧
      (computed = r.recordHash ↔ r.Plain ∨
        Collides E.blake3 [inputOf r.toJson] [inputOf (ConsoleSafeRecord.fromRecord r).toJson]) := by
  obtain ⟨b, hb, hhash⟩ := computeHashOfValue_eq_ok.mp h
  obtain ⟨b', hb'⟩ := hashInput_redacted hb
  rw [Record.toJson_projection]
  refine ⟨blake3Hex E b', computeHashOfValue_eq_ok.mpr ⟨b', hb', rfl⟩, ?_⟩
  have hinput : inputOf r.toJson = b := by
    unfold inputOf
    rw [hb]
    rfl
  have hinput' : inputOf r.redacted.toJson = b' := by
    unfold inputOf
    rw [hb']
    rfl
  rw [hhash, blake3Hex_inj, hinput, hinput']
  constructor
  · intro hsame
    obtain rfl | hcollides := eq_or_collides List.mem_cons_self List.mem_cons_self hsame.symm
    · exact .inl (Record.plain_of_redacted_eq (redacted_eq_of_hashInput hb hb'))
    · exact .inr hcollides
  · intro hcond
    obtain hplain | ⟨x, hx, y, hy, -, hsame⟩ := hcond
    · rw [hplain.redacted_eq, hb] at hb'
      rw [Except.ok.inj hb']
    · rw [List.mem_singleton.mp hx, List.mem_singleton.mp hy] at hsame
      exact hsame.symm

end Hashing

/-! ## Streams of projections -/

section Streams

open StreamVerifier

variable {E : Externals} {sv mid : StreamVerifier} {r : Record} {rs : List Record}

/-- A record that is hashed like its projection: nothing was lost, or BLAKE3 collides. -/
def Record.Survives (E : Externals) (r : Record) : Prop :=
  r.Plain ∨ Collides E.blake3 [inputOf r.toJson] [inputOf (ConsoleSafeRecord.fromRecord r).toJson]

theorem view_projection (r : Record) : r.view.Of (ConsoleSafeRecord.fromRecord r).toJson :=
  r.redacted.view_of

/-- One record: the projection leaves the verifier where the record does, and adds one finding
unless the record survives. -/
theorem verifyNext_projection (h : r.computeHash E = .ok r.recordHash) (sv : StreamVerifier) :
    ∃ fs fs', verifyNext E sv r.toJson = .ok (fs, advance E sv r.view) ∧
      verifyNext E sv (ConsoleSafeRecord.fromRecord r).toJson = .ok (fs', advance E sv r.view) ∧
      fs.length ≤ fs'.length ∧ (fs'.length = fs.length ↔ r.Survives E) ∧
      (r.Survives E → fs' = fs) := by
  obtain ⟨computed, hcomputed, hsame⟩ := computeHash_projection h
  have hnil : hashFindings r.view r.recordHash = [] := hashFindings_eq_nil.mpr rfl
  refine ⟨_, _, verifyNext_eq_ok.mpr ⟨r.view, r.recordHash, r.view_of, h, rfl, rfl⟩,
    verifyNext_eq_ok.mpr ⟨r.view, computed, view_projection r, hcomputed, rfl, rfl⟩, ?_, ?_, ?_⟩
  · simp only [hnil, List.length_append, List.length_nil]
    omega
  · rw [show r.Survives E ↔ hashFindings r.view computed = [] from
      (hashFindings_eq_nil.trans hsame).symm, ← List.length_eq_zero_iff]
    simp only [hnil, List.length_append, List.length_nil]
    omega
  · intro hsurvives
    have hcomputed : computed = r.recordHash := hsame.mpr hsurvives
    rw [hcomputed]

/-- All records: the findings are the same exactly when every record survives. -/
theorem feed_projections (h : ∀ r ∈ rs, r.computeHash E = .ok r.recordHash) (sv : StreamVerifier) :
    ∃ fs fs' last, feed E sv (rs.map Record.toJson) = .ok (fs, last) ∧
      feed E sv (rs.map fun r => (ConsoleSafeRecord.fromRecord r).toJson) = .ok (fs', last) ∧
      fs.length ≤ fs'.length ∧ (fs'.length = fs.length ↔ ∀ r ∈ rs, r.Survives E) ∧
      ((∀ r ∈ rs, r.Survives E) → fs' = fs) := by
  induction rs generalizing sv with
  | nil => exact ⟨[], [], sv, rfl, rfl, Nat.le_refl 0, by simp, fun _ => rfl⟩
  | cons r rs ih =>
    rw [List.forall_mem_cons] at h
    obtain ⟨gs, gs', hnext, hnext', hle, hlen, heq⟩ := verifyNext_projection h.1 sv
    obtain ⟨fs, fs', last, hfeed, hfeed', hles, hlens, heqs⟩ := ih h.2 (advance E sv r.view)
    refine ⟨gs ++ fs, gs' ++ fs', last, feed_cons.mpr ⟨gs, fs, _, hnext, hfeed, rfl⟩,
      feed_cons.mpr ⟨gs', fs', _, hnext', hfeed', rfl⟩, ?_, ?_, ?_⟩
    · rw [List.length_append, List.length_append]
      omega
    · rw [List.forall_mem_cons, ← hlen, ← hlens, List.length_append, List.length_append]
      -- both parts can only grow
      omega
    · intro hall
      rw [List.forall_mem_cons] at hall
      rw [heq hall.1, heqs hall.2]

/-- **Projections verify when nothing was lost**: over any run of a head, the projections of the
appended records have the findings of the records, and each projection the hash it carries, if and
only if every record has neither detail nor reference, few labels and clean strings, or BLAKE3
collides on a record and its projection. -/
theorem projections_verify_iff {stream : Ulid} {head : ChainHead} (hrun : Run E stream head rs)
    (sv : StreamVerifier) :
    ((feed E sv (rs.map fun r => (ConsoleSafeRecord.fromRecord r).toJson)).map Prod.fst =
        (feed E sv (rs.map Record.toJson)).map Prod.fst ∧
      ∀ r ∈ rs, computeHashOfValue E (ConsoleSafeRecord.fromRecord r).toJson = .ok r.recordHash) ↔
      ∀ r ∈ rs, r.Plain ∨
        Collides E.blake3 [inputOf r.toJson] [inputOf (ConsoleSafeRecord.fromRecord r).toJson] := by
  have hhash := hrun.inv.chained.computeHash
  obtain ⟨fs, fs', last, hfeed, hfeed', -, hlen, heq⟩ := feed_projections hhash sv
  rw [hfeed, hfeed']
  constructor
  · intro h
    have hfs : fs' = fs := Except.ok.inj h.1
    exact hlen.mp (congrArg List.length hfs)
  · intro hall
    refine ⟨congrArg Except.ok (heq hall), ?_⟩
    intro r hr
    obtain ⟨computed, hcomputed, hsame⟩ := computeHash_projection (hhash r hr)
    rw [hcomputed, hsame.mpr (hall r hr)]

end Streams

theorem projections_verify_sample :
    (StreamVerifier.feed Sample.externals ⟨Sample.opened.streamId, "", none, none, 0⟩
        ([Sample.opened, Sample.updated].map
          fun r => (ConsoleSafeRecord.fromRecord r).toJson)).map Prod.fst =
      (StreamVerifier.feed Sample.externals ⟨Sample.opened.streamId, "", none, none, 0⟩
        ([Sample.opened, Sample.updated].map Record.toJson)).map Prod.fst := by
  have hrun := @Sample.run Sample.externals (by decide) (by decide)
    (by decide +kernel) (by decide +kernel)
  refine ((projections_verify_iff hrun _).mpr ?_).1
  simp only [List.forall_mem_cons, List.not_mem_nil, false_implies, implies_true, and_true]
  exact ⟨.inl (Record.plain_of_redacted_eq (by rfl)), .inl (Record.plain_of_redacted_eq (by rfl))⟩

/-! A record that says what was asked: what is left of it is `Sample.opened`. -/

namespace Sample

def detailed : Record := { opened with
  actionDetail := some (.ofFields [("where_skeleton", some (.str "email = <string>"))] (by simp))
  recordHash := "ee57fb6621cc13da629e9fe10b82f8a813366141cf625af7c6b1fb2c10da2c40" }

def detailedRecording : Externals.Recording := { recording with
  blake3 := recording.blake3 ++
    [((hashInput detailed.toJson).toOption.getD [], ofHex detailed.recordHash)] }

end Sample

theorem detailed_projection_refused :
    Run (.recorded Sample.detailedRecording) Sample.stream
        ⟨Sample.stream, Sample.detailed.recordHash, some 0⟩ [Sample.detailed] ∧
      computeHashOfValue (.recorded Sample.detailedRecording)
          (ConsoleSafeRecord.fromRecord Sample.detailed).toJson = .ok Sample.opened.recordHash ∧
      Sample.opened.recordHash ≠ Sample.detailed.recordHash ∧
      ∃ sv, StreamVerifier.new (.recorded Sample.detailedRecording) Sample.opened.streamId =
          .ok sv ∧
        (StreamVerifier.feed (.recorded Sample.detailedRecording) sv
          [Sample.detailed.toJson]).map Prod.fst = .ok [] ∧
        (StreamVerifier.feed (.recorded Sample.detailedRecording) sv
          [(ConsoleSafeRecord.fromRecord Sample.detailed).toJson]).map Prod.fst =
            .ok [.recordHashMismatch 0 Sample.detailed.recordHash Sample.opened.recordHash] := by
  have hhash : Sample.detailed.computeHash (.recorded Sample.detailedRecording) =
      .ok Sample.detailed.recordHash := by decide +kernel
  have hgenesis : genesisPrevHash (.recorded Sample.detailedRecording) Sample.stream =
      Sample.opened.prevHash := by decide
  have happend : (ChainHead.genesis (.recorded Sample.detailedRecording) Sample.stream).append
      (.recorded Sample.detailedRecording) Sample.detailed =
      (.ok (), ⟨Sample.stream, Sample.detailed.recordHash, some 0⟩, Sample.detailed) := by
    refine append_of_computeHash (by decide) ?_ hhash
    simp only [ChainHead.genesis, hgenesis]
    rfl
  refine ⟨.appended .genesis happend, by decide +kernel, by decide,
    ⟨Sample.opened.streamId, Sample.opened.prevHash, none, none, 0⟩, ?_, by decide +kernel,
    by decide +kernel⟩
  have hid : (Externals.recorded Sample.detailedRecording).ulidFromString Sample.opened.streamId =
      .ok Sample.stream := by decide
  simp only [StreamVerifier.new, hid, hgenesis]

end Sealr.Evidence
