import Mathlib.Data.Bool.AllAny
import Sealr.Lib.Runs
import Sealr.Evidence.Checkpoint
import Sealr.Evidence.Inclusion
import Sealr.Evidence.Agreement

/-!
# Gap-free runs

`build_note` compares the count of its records with the span of their numbers, and nothing between
the ends. For numbers that ascend this is enough: it accepts the runs without a gap and no others
(`buildNote_contiguous`).
-/

namespace Sealr.Evidence

open Lib

/-! ## Hexadecimal digests -/

/-- The digits that `hex_decode` reads. -/
def hexDigits : List Char := "0123456789abcdefABCDEF".toList

/-- A text of 64 hexadecimal digits. -/
structure HexDigest (s : String) : Prop where
  length : s.toList.length = 64
  digits : ∀ c ∈ s.toList, c ∈ hexDigits

instance (s : String) : Decidable (HexDigest s) :=
  decidable_of_iff (s.toList.length = 64 ∧ s.toList.all fun c => c ∈ hexDigits)
    ⟨fun h => ⟨h.1, List.all_iff_forall_prop.mp h.2⟩,
      fun h => ⟨h.1, List.all_iff_forall_prop.mpr h.2⟩⟩

section Digests

variable {E : Externals} {field : String}

theorem exists_hexVal {c : Char} (hc : c ∈ hexDigits) :
    ∃ b v, String.utf8EncodeChar c = [b] ∧ hexVal E field b = .ok v := by
  have hall : ∀ c ∈ hexDigits, String.utf8EncodeChar c = [UInt8.ofNat c.toNat] ∧
      (0x30 ≤ UInt8.ofNat c.toNat ∧ UInt8.ofNat c.toNat ≤ 0x39 ∨
        0x61 ≤ UInt8.ofNat c.toNat ∧ UInt8.ofNat c.toNat ≤ 0x66 ∨
        0x41 ≤ UInt8.ofNat c.toNat ∧ UInt8.ofNat c.toNat ≤ 0x46) :=
    List.all_iff_forall_prop.mp (by decide)
  obtain ⟨hchar, hrange⟩ := hall c hc
  obtain ⟨v, hv⟩ : ∃ v, hexVal E field (UInt8.ofNat c.toNat) = .ok v := by
    unfold hexVal
    split_ifs with hdigit hlower hupper
    · exact ⟨_, rfl⟩
    · exact ⟨_, rfl⟩
    · exact ⟨_, rfl⟩
    · simp only [hdigit, hlower, hupper, or_self] at hrange
  exact ⟨_, v, hchar, hv⟩

/-- Pairs of digits are read. -/
theorem exists_hexPairs {n : Nat} {cs : List Char} (hlen : cs.length = 2 * n)
    (hcs : ∀ c ∈ cs, c ∈ hexDigits) :
    (utf8 cs).length = 2 * n ∧ ∃ v, hexPairs E field (utf8 cs) = .ok v ∧ v.length = n := by
  induction n generalizing cs with
  | zero =>
    obtain rfl := List.length_eq_zero_iff.mp hlen
    exact ⟨rfl, [], rfl, rfl⟩
  | succ n ih =>
    match cs with
    | hi :: lo :: cs =>
      rw [List.forall_mem_cons, List.forall_mem_cons] at hcs
      obtain ⟨a, x, ha, hx⟩ := @exists_hexVal E field hi hcs.1
      obtain ⟨b, y, hb, hy⟩ := @exists_hexVal E field lo hcs.2.1
      obtain ⟨hbytes, v, hv, hn⟩ := ih (by simpa [Nat.mul_succ] using hlen) hcs.2.2
      rw [utf8_cons, utf8_cons, ha, hb]
      refine ⟨by simp [hbytes, Nat.mul_succ], (x <<< 4 ||| y) :: v, ?_, by simp [hn]⟩
      simp only [List.singleton_append, hexPairs, hx, hy, hv]
      rfl

theorem HexDigest.decodes {s : String} (h : HexDigest s) :
    ∃ d, hexDecodeDigest E field s = .ok d := by
  obtain ⟨hbytes, v, hv, hn⟩ := @exists_hexPairs E field 32 s.toList h.length h.digits
  have hread : hexDecode E field s = .ok v := by
    rw [hexDecode, asBytes_eq]
    simp only [hbytes, Nat.mul_mod_right, ne_eq, not_true_eq_false, ↓reduceIte]
    exact hv
  refine ⟨⟨v, hn⟩, ?_⟩
  simp only [hexDecodeDigest, hread, bind, Except.bind, hn, ↓reduceDIte]
  rfl

end Digests

/-! ## Notes over runs -/

section Notes

variable {E : Externals} {records : List Record} {first : Record}

/-- Counted as so many records from the first number to the last. -/
theorem tryFromLen_eq_seqSpan_iff {n : Nat} {a b : UInt64} (hpos : 0 < n) (hlen : n < 2 ^ 64)
    (hle : a.toNat ≤ b.toNat) :
    tryFromLen n = seqSpan a b ↔ b.toNat + 1 = a.toNat + n := by
  have hone : (1 : UInt64).toNat = 1 := rfl
  have hb := b.toNat_lt
  have hsub : a ≤ b := UInt64.le_iff_toNat_le.mpr hle
  have hsize : n < UInt64.size := hlen
  rw [tryFromLen, if_pos hsize, seqSpan, if_pos hsub, Option.some.injEq, ← UInt64.toNat_inj,
    UInt64.toNat_ofNat', UInt64.toNat_add, UInt64.toNat_sub_of_le _ _ hsub, hone]
  omega

theorem exists_root {hashes : List String} (h : ∀ s ∈ hashes, HexDigest s) :
    ∃ ds root, decodeHashes E hashes = .ok ds ∧
      root = hexEncode (merkleRoot E (ds.map List.Vector.toList)).toList ∧
      merkleRootOfRecordHashes E hashes = .ok root := by
  have hdecode : ∃ ds, decodeHashes E hashes = .ok ds := by
    induction hashes with
    | nil => exact ⟨[], rfl⟩
    | cons s hashes ih =>
      rw [List.forall_mem_cons] at h
      obtain ⟨d, hd⟩ := @HexDigest.decodes E "record_hash" s h.1
      obtain ⟨ds, hds⟩ := ih h.2
      exact ⟨d :: ds, bind_eq_ok.mpr ⟨d, hd, bind_eq_ok.mpr ⟨ds, hds, rfl⟩⟩⟩
  obtain ⟨ds, hds⟩ := hdecode
  exact ⟨ds, _, hds, rfl, bind_eq_ok.mpr ⟨ds, hds, rfl⟩⟩

/-- The digests over which a root of known leaves verifies are those leaves. -/
theorem digests_of_verifyRoot {signed : SignedCheckpoint} {hashes : List String} {ys : List Digest}
    (hroot : signed.note.merkleRoot = hexEncode (merkleRoot E (ys.map List.Vector.toList)).toList)
    (h : signed.verifyRoot E hashes = .ok ()) :
    ∃ xs, decodeHashes E hashes = .ok xs ∧ (xs = ys ∨
      Collides E.blake3 (rootInputs E (xs.map List.Vector.toList))
        (rootInputs E (ys.map List.Vector.toList))) := by
  obtain ⟨-, hverified, -⟩ := verifyRoot_eq_ok.mp h
  rw [hroot] at hverified
  obtain ⟨xs, hxs, heq⟩ := bind_eq_ok.mp hverified
  have hroots := List.Vector.toList_injective (hexEncode_injective (Except.ok.inj heq))
  refine ⟨xs, hxs, (merkleRoot_determines hroots).imp_left ?_⟩
  exact fun h => List.map_injective_iff.mpr List.Vector.toList_injective h

/-- **What `build_note` accepts**: of the records in the order of their numbers the runs without a gap,
and no others. The note has as many leaves as there are records and numbers; whoever signs it, its
root verifies over their hashes, and over no other digests unless two inputs collide. -/
theorem buildNote_contiguous (checkpointId tsWall fingerprint : String)
    (hfirst : records.head? = some first) (hsorted : records.Pairwise (·.seq < ·.seq))
    (hhex : ∀ r ∈ records, HexDigest r.recordHash) (hlen : records.length < 2 ^ 64) :
    ((∃ note, buildNote E checkpointId records tsWall fingerprint = .ok note) ↔
      records.map (·.seq.toNat) = List.range' first.seq.toNat records.length) ∧
    ∀ note, buildNote E checkpointId records tsWall fingerprint = .ok note →
      note.seqTo.toNat + 1 = note.seqFrom.toNat + note.treeSize.toNat ∧
      note.treeSize.toNat = records.length ∧
      (∀ key signed, signNote E note key = .ok signed → signed.note = note) ∧
      ∀ signed : SignedCheckpoint, signed.note = note →
        signed.verifyRoot E (records.map (·.recordHash)) = .ok () ∧
        ∀ hashes, signed.verifyRoot E hashes = .ok () →
          ∃ xs ys, decodeHashes E hashes = .ok xs ∧
            decodeHashes E (records.map (·.recordHash)) = .ok ys ∧
            (xs = ys ∨ Collides E.blake3 (rootInputs E (xs.map List.Vector.toList))
              (rootInputs E (ys.map List.Vector.toList))) := by
  obtain ⟨last, hlast⟩ : ∃ last, records.getLast? = some last := by
    cases h : records.getLast? with
    | none => simp [List.getLast?_eq_none_iff.mp h] at hfirst
    | some last => exact ⟨last, rfl⟩
  have hpos : 0 < records.length := List.length_pos_of_mem (List.mem_of_mem_head? hfirst)
  have hchain : records.IsChain fun a b => a.seq.toNat < b.seq.toNat :=
    (hsorted.imp fun h => UInt64.lt_iff_toNat_lt.mp h).isChain
  have hspan := span_le hchain hfirst hlast
  have hcount : tryFromLen records.length = seqSpan first.seq last.seq ↔
      last.seq.toNat + 1 = first.seq.toNat + records.length :=
    tryFromLen_eq_seqSpan_iff hpos hlen (by omega)
  obtain ⟨ds, root, hdecode, rfl, hroot⟩ := exists_root (E := E) (List.forall_mem_map.mpr hhex)
  constructor
  · rw [consecutive_iff hchain hfirst hlast, ← hcount]
    constructor
    · rintro ⟨note, hnote⟩
      obtain ⟨a, b, root, ha, hb, heq, -, -⟩ := buildNote_eq_ok.mp hnote
      obtain rfl := Option.some.inj (hfirst.symm.trans ha)
      obtain rfl := Option.some.inj (hlast.symm.trans hb)
      exact heq
    · intro heq
      exact ⟨_, buildNote_eq_ok.mpr ⟨first, last, _, hfirst, hlast, heq, hroot, rfl⟩⟩
  · intro note hnote
    obtain ⟨a, b, root, ha, hb, heq, hroot', rfl⟩ := buildNote_eq_ok.mp hnote
    obtain rfl := Option.some.inj (hfirst.symm.trans ha)
    obtain rfl := Option.some.inj (hlast.symm.trans hb)
    obtain rfl := Except.ok.inj (hroot.symm.trans hroot')
    have hsize : (UInt64.ofNat records.length).toNat = records.length :=
      UInt64.toNat_ofNat_of_lt' hlen
    refine ⟨?_, hsize, ?_, ?_⟩
    · rw [hsize]
      exact hcount.mp heq
    · intro key signed hsigned
      obtain ⟨sig, -, hsig⟩ := bind_eq_ok.mp hsigned
      rw [← Except.ok.inj hsig]
    · intro signed hsigned
      constructor
      · rw [verifyRoot_eq_ok, hsigned, List.length_map]
        exact ⟨rfl, hroot, by rw [List.getLast?_map, hlast, Option.map_some]⟩
      · intro hashes hverify
        obtain ⟨xs, hxs, hsame⟩ := digests_of_verifyRoot (by rw [hsigned]) hverify
        exact ⟨xs, ds, hxs, hdecode, hsame⟩

end Notes

theorem buildNote_contiguous_sample :
    (∃ note, buildNote Sample.externals "cp-1" [Sample.opened, Sample.updated]
      Sample.updated.tsWall "fp" = .ok note) ↔
      [Sample.opened, Sample.updated].map (·.seq.toNat) =
        List.range' Sample.opened.seq.toNat [Sample.opened, Sample.updated].length :=
  (buildNote_contiguous "cp-1" Sample.updated.tsWall "fp" rfl (by decide) (by decide)
    (by decide)).1

end Sealr.Evidence
