import Sealr.Lib.Shape
import Sealr.Evidence.Agreement

/-!
# Which records can be appended

Hashing a record fails on its numbers only. Everything else that is signed is a string, so `append`
succeeds exactly when the record is of the head's stream and its four counters and every number
inside `action_detail` are safe integers.
-/

namespace Sealr.Evidence

open Lib

/-! ## The numbers of a record -/

/-- A number of an object is a number of one of its fields. -/
theorem mem_numbers_ofFields {fields : List (String × Option Json)}
    {h : (fields.map Prod.fst).Nodup} {n : Number} :
    n ∈ (Json.ofFields fields h).value.numbers ↔
      ∃ f ∈ fields, ∃ j, f.2 = some j ∧ n ∈ j.value.numbers := by
  refine Value.mem_numbers_object.trans ?_
  constructor
  · rintro ⟨m, hm, hn⟩
    obtain ⟨f, hf, hfm⟩ := List.mem_filterMap.mp hm
    obtain ⟨j, hj, rfl⟩ := Option.map_eq_some_iff.mp hfm
    exact ⟨f, hf, j, hj, hn⟩
  · rintro ⟨f, hf, j, hj, hn⟩
    refine ⟨(f.1, j.value), List.mem_filterMap.mpr ⟨f, hf, ?_⟩, hn⟩
    rw [hj, Option.map_some]

theorem numbers_str (s : String) : (Json.str s).value.numbers = [] := rfl

theorem numbers_u64 (n : UInt64) : (Json.u64 n).value.numbers = [.posInt n] := rfl

/-- A list of strings has no numbers. -/
theorem numbers_of_listField {xs : List String} {j : Json} (h : listField xs = some j) :
    j.value.numbers = [] := by
  unfold listField at h
  split_ifs at h
  obtain rfl := Option.some.inj h
  refine List.eq_nil_iff_forall_not_mem.mpr fun n hn => ?_
  obtain ⟨x, hx, hnx⟩ := Value.mem_numbers_array.mp hn
  simp only [List.map_map, List.mem_map, Function.comp_apply] at hx
  obtain ⟨s, -, rfl⟩ := hx
  cases hnx

/-- An object of strings and lists of strings has no numbers. -/
theorem numbers_ofFields_eq_nil {fields : List (String × Option Json)}
    {h : (fields.map Prod.fst).Nodup}
    (hnone : ∀ f ∈ fields, ∀ j, f.2 = some j → j.value.numbers = []) :
    (Json.ofFields fields h).value.numbers = [] := by
  refine List.eq_nil_iff_forall_not_mem.mpr fun n hn => ?_
  obtain ⟨f, hf, j, hj, hnj⟩ := mem_numbers_ofFields.mp hn
  rw [hnone f hf j hj] at hnj
  cases hnj

theorem RecorderInfo.numbers_toJson (r : RecorderInfo) : r.toJson.value.numbers = [] :=
  numbers_ofFields_eq_nil (by simp [numbers_str])

theorem Subject.numbers_toJson (s : Subject) : s.toJson.value.numbers = [] :=
  numbers_ofFields_eq_nil (by simp [numbers_str])

theorem Action.numbers_toJson (a : Action) : a.toJson.value.numbers = [] :=
  numbers_ofFields_eq_nil (by
    simp only [List.forall_mem_cons, Option.some.injEq, forall_eq', numbers_str, true_and]
    exact ⟨fun j hj => numbers_of_listField hj, List.forall_mem_nil _⟩)

theorem PayloadCommitment.numbers_toJson (p : PayloadCommitment) : p.toJson.value.numbers = [] :=
  numbers_ofFields_eq_nil (by simp [numbers_str])

theorem PayloadRef.numbers_toJson (p : PayloadRef) : p.toJson.value.numbers = [] :=
  numbers_ofFields_eq_nil (by simp [numbers_str])

theorem GuardRef.numbers_toJson (g : GuardRef) : g.toJson.value.numbers = [] :=
  numbers_ofFields_eq_nil (by simp [numbers_str])

theorem ApprovalRef.numbers_toJson (a : ApprovalRef) : a.toJson.value.numbers = [] :=
  numbers_ofFields_eq_nil (by simp [numbers_str])

theorem Links.numbers_toJson (l : Links) : l.toJson.value.numbers = [] :=
  numbers_ofFields_eq_nil (by simp [numbers_str])

/-- The numbers of a verdict are its version and its duration. -/
theorem Verdict.mem_numbers_toJson {v : Verdict} {n : Number} :
    n ∈ v.toJson.value.numbers ↔ n = .posInt v.policyVersion ∨ n = .posInt v.evalMs := by
  have hrules : ∀ j, listField v.ruleIds = some j → n ∉ j.value.numbers := by
    intro j hj hn
    rw [numbers_of_listField hj] at hn
    cases hn
  have hcodes : ∀ j, listField v.reasonCodes = some j → n ∉ j.value.numbers := by
    intro j hj hn
    rw [numbers_of_listField hj] at hn
    cases hn
  refine mem_numbers_ofFields.trans ?_
  simp only [List.exists_mem_cons_iff, Option.some.injEq, exists_eq_left', exists_eq_left,
    numbers_str, numbers_u64, GuardRef.numbers_toJson, List.not_mem_nil, List.mem_singleton, false_or]
  constructor
  · rintro (h | ⟨j, hj, hn⟩ | ⟨j, hj, hn⟩ | h)
    exacts [.inl h, absurd hn (hrules j hj), absurd hn (hcodes j hj), .inr h]
  · rintro (h | h)
    exacts [.inl h, .inr (.inr (.inr h))]

/-- The numbers of a record. -/
theorem Record.mem_numbers_toJson {r : Record} {n : Number} :
    n ∈ r.toJson.value.numbers ↔ n = .posInt r.seq ∨ n = .posInt r.tsMonoNs ∨
      (∃ j, r.actionDetail = some j ∧ n ∈ j.value.numbers) ∨
      ∃ v, r.verdict = some v ∧ (n = .posInt v.policyVersion ∨ n = .posInt v.evalMs) := by
  refine mem_numbers_ofFields.trans ?_
  simp only [Record.fields, List.exists_mem_cons_iff, Option.some.injEq, exists_eq_left',
    exists_eq_left, numbers_str, numbers_u64, RecorderInfo.numbers_toJson, Subject.numbers_toJson,
    Action.numbers_toJson, List.not_mem_nil, List.mem_singleton, false_or, or_false, exists_false,
    Option.map_eq_some_iff, exists_exists_and_eq_and, PayloadCommitment.numbers_toJson,
    PayloadRef.numbers_toJson, ApprovalRef.numbers_toJson, Links.numbers_toJson, and_false,
    Verdict.mem_numbers_toJson]

/-! ## What can be hashed -/

/-- A record with a hash in it is hashed exactly when all its numbers are safe. -/
theorem exists_hashInput_iff {v : Json} {s : String}
    (h : v.value.get "record_hash" = some (.string s)) :
    (∃ b, hashInput v = .ok b) ↔ ∀ n ∈ v.value.numbers, n.IsSafe := by
  obtain ⟨value, wf⟩ := v
  cases value with
  | object ms =>
    have hperm := Value.perm_swapRemove (show ms.lookup "record_hash" = some (.string s) from h)
    have hsame : ∀ n, n ∈ (Value.object (Value.swapRemove "record_hash" ms)).numbers ↔
        n ∈ (Value.object ms).numbers := by
      intro n
      rw [Value.mem_numbers_object, Value.mem_numbers_object]
      constructor
      · rintro ⟨m, hm, hn⟩
        exact ⟨m, hperm.mem_iff.mpr (List.mem_cons_of_mem _ hm), hn⟩
      · rintro ⟨m, hm, hn⟩
        rcases List.mem_cons.mp (hperm.mem_iff.mp hm) with rfl | hm
        · cases hn
        · exact ⟨m, hm, hn⟩
    have hcanon : (∃ b, hashInput ⟨.object ms, wf⟩ = .ok b) ↔
        ∃ c, Rfc8785.canon (.object (Value.swapRemove "record_hash" ms)) = some c := by
      constructor
      · rintro ⟨b, hb⟩
        obtain ⟨c, hc, -⟩ := toJcsBytes_eq_ok.mp hb
        exact ⟨c, hc⟩
      · rintro ⟨c, hc⟩
        exact ⟨_, hashInput_eq_ok.mpr ⟨_, rfl, toJcsBytes_eq_ok.mpr ⟨c, hc, rfl⟩⟩⟩
    rw [hcanon, Rfc8785.exists_canon_iff]
    exact forall_congr' fun n => imp_congr (hsame n) Iff.rfl
  | _ => simp [Value.get] at h

theorem exists_finalize_iff {E : Externals} {r : Record} :
    (∃ r', r.finalize E = .ok r') ↔ ∀ n ∈ r.toJson.value.numbers, n.IsSafe := by
  have hget : r.toJson.value.get "record_hash" = some (.string r.recordHash) :=
    Record.get_toJson (j := .str r.recordHash) (by simp [Record.fields])
  rw [← exists_hashInput_iff hget]
  constructor
  · rintro ⟨r', hr'⟩
    obtain ⟨h, hh, -⟩ := bind_eq_ok.mp hr'
    obtain ⟨b, hb, -⟩ := computeHashOfValue_eq_ok.mp hh
    exact ⟨b, hb⟩
  · rintro ⟨b, hb⟩
    exact ⟨_, bind_eq_ok.mpr ⟨_, computeHashOfValue_eq_ok.mpr ⟨b, hb, rfl⟩, rfl⟩⟩

/-! ## What can be appended -/

theorem isSafe_posInt {n : UInt64} : (Number.posInt n).IsSafe ↔ n.toNat ≤ 2 ^ 53 - 1 := by
  have hm : Rfc8785.maxSafe = 2 ^ 53 - 1 := rfl
  rw [← Rfc8785.exists_safeInt, Rfc8785.safeInt_posInt, hm]
  split_ifs with h
  · exact iff_of_true ⟨_, rfl⟩ h
  · exact iff_of_false (fun hsome => by cases hsome.choose_spec) h

/-- Appending is refused for the stream or by the hash. -/
theorem exists_append_iff {E : Externals} {head : ChainHead} {record : Record} :
    (∃ head' final, head.append E record = (.ok (), head', final)) ↔
      record.streamId = E.ulidToString head.streamId ∧
        ∀ n ∈ { record with seq := head.nextSeq, prevHash := head.headHash }.toJson.value.numbers,
          n.IsSafe := by
  rw [← @exists_finalize_iff E]
  unfold ChainHead.append
  split_ifs with hstream
  · simp [hstream]
  · rw [not_not] at hstream
    rw [and_iff_right hstream]
    dsimp only
    split
    · next e he => simp [he]
    · next final hfinal => simp [hfinal]

/-- **Append fails exactly on another stream or an unsafe number, and then changes nothing in the
head.** -/
theorem append_ok_iff {E : Externals} {head : ChainHead} {record : Record}
    (hlast : ∀ s, head.lastSeq = some s → s.toNat < 2 ^ 64 - 1) :
    ((∃ head' final, head.append E record = (.ok (), head', final)) ↔
        record.streamId = E.ulidToString head.streamId ∧
          head.lastSeq.elim 0 (fun s => s.toNat + 1) ≤ 2 ^ 53 - 1 ∧
          record.tsMonoNs.toNat ≤ 2 ^ 53 - 1 ∧
          (∀ v, record.verdict = some v →
            v.policyVersion.toNat ≤ 2 ^ 53 - 1 ∧ v.evalMs.toNat ≤ 2 ^ 53 - 1) ∧
          ∀ j, record.actionDetail = some j → ∀ n ∈ j.value.numbers,
            n.toRat.den = 1 ∧ |n.toRat| ≤ 2 ^ 53 - 1) ∧
      ∀ e head' left, head.append E record = (.error e, head', left) →
        head'.streamId = head.streamId ∧ head'.headHash = head.headHash ∧
          head'.lastSeq = head.lastSeq ∧ head'.nextSeq = head.nextSeq := by
  have hnext : head.nextSeq.toNat = head.lastSeq.elim 0 fun s => s.toNat + 1 := by
    unfold ChainHead.nextSeq
    cases hs : head.lastSeq with
    | none => rfl
    | some s =>
      have hlt := hlast s hs
      have h1 : (1 : UInt64).toNat = 1 := rfl
      simp only [Option.elim_some, UInt64.toNat_add, h1]
      omega
  constructor
  · rw [exists_append_iff, ← hnext]
    refine and_congr_right fun _ => ?_
    simp only [Record.mem_numbers_toJson]
    constructor
    · intro h
      refine ⟨isSafe_posInt.mp (h _ (.inl rfl)), isSafe_posInt.mp (h _ (.inr (.inl rfl))),
        fun v hv => ⟨isSafe_posInt.mp (h _ ?_), isSafe_posInt.mp (h _ ?_)⟩,
        fun j hj n hn => h n (.inr (.inr (.inl ⟨j, hj, hn⟩)))⟩
      · exact .inr (.inr (.inr ⟨v, hv, .inl rfl⟩))
      · exact .inr (.inr (.inr ⟨v, hv, .inr rfl⟩))
    · rintro ⟨hseq, hmono, hverdict, hdetail⟩ n
        (rfl | rfl | ⟨j, hj, hn⟩ | ⟨v, hv, rfl | rfl⟩)
      · exact isSafe_posInt.mpr hseq
      · exact isSafe_posInt.mpr hmono
      · exact hdetail j hj n hn
      · exact isSafe_posInt.mpr (hverdict v hv).1
      · exact isSafe_posInt.mpr (hverdict v hv).2
  · intro e head' left h
    rw [append_eq_error h]
    exact ⟨rfl, rfl, rfl, rfl⟩

/-- Behind record 0, the next record is appended, but not with a number inside that is too large. -/
theorem append_ok_iff_sample :
    (∃ head' final, (ChainHead.resume Sample.stream "" 0).append Sample.externals Sample.update =
        (.ok (), head', final)) ∧
      ¬∃ head' final, (ChainHead.resume Sample.stream "" 0).append Sample.externals
          { Sample.update with
            actionDetail := some ⟨.array [.number (.posInt 9007199254740992)], by decide⟩ } =
        (.ok (), head', final) := by
  have hid : Sample.update.streamId = Sample.externals.ulidToString Sample.stream := by decide
  have hlast : ∀ s, (ChainHead.resume Sample.stream "" 0).lastSeq = some s →
      s.toNat < 2 ^ 64 - 1 := by
    rintro s ⟨⟩
    decide
  refine ⟨(append_ok_iff hlast).1.mpr ⟨hid, by decide, by decide, ?_, ?_⟩, fun h => ?_⟩
  · rintro v ⟨⟩
  · rintro j ⟨⟩
  · obtain ⟨-, -, -, -, hdetail⟩ := (append_ok_iff hlast).1.mp h
    have hsafe := hdetail _ rfl (.posInt 9007199254740992) (List.mem_singleton.mpr rfl)
    have hle : (9007199254740992 : UInt64).toNat ≤ 2 ^ 53 - 1 := isSafe_posInt.mp hsafe
    exact absurd hle (by decide)

end Sealr.Evidence
