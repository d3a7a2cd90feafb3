import Sealr.Lib.HashChain
import Sealr.Evidence.Agreement

/-!
# The chain head determines the stream

Two sequences of raw records that verify without findings from number zero and end in one hash are
the same sequence, up to member order and number spelling, or exhibit a collision
(`feed_determined`).
-/

namespace Sealr.Evidence

open Lib

section Determined

open StreamVerifier

variable {E : Externals} {sv₀ sv svx svy : StreamVerifier} {xs ys : List Json}

/-- What is hashed for a raw record that is accepted. -/
def inputOf (v : Json) : Bytes := (hashInput v).toOption.getD []

def seqOf (v : Json) : Option UInt64 := (v.value.get "seq").bind Value.asU64

def prevHashOf (v : Json) : Option String := (v.value.get "prev_hash").bind Value.asStr

def recordHashOf (v : Json) : Option String := (v.value.get "record_hash").bind Value.asStr

/-- A raw record whose stored hash is the hash of the rest. -/
def SelfHashed (E : Externals) (v : Json) : Prop :=
  ∃ b s, hashInput v = .ok b ∧ recordHashOf v = some s ∧ s = blake3Hex E b

theorem selfHashed_of_view {view : RecordView} {v : Json} (hview : view.Of v)
    (h : computeHashOfValue E v = .ok view.recordHash) : SelfHashed E v := by
  obtain ⟨b, hb, hs⟩ := computeHashOfValue_eq_ok.mp h
  exact ⟨b, _, hb, hview.recordHash, hs⟩

theorem SelfHashed.digest {v : Json} (h : SelfHashed E v) :
    (recordHashOf v).getD "" = blake3Hex E (inputOf v) := by
  obtain ⟨b, s, hb, hs, rfl⟩ := h
  simp [inputOf, hb, hs, Except.toOption]

/-- The records accepted so far are a hash chain that ends in the record last seen. -/
theorem chain_of_feed (hnew : sv₀.prev = none) (hne : xs ≠ [])
    (hzero : xs.head?.bind seqOf = some 0) (h : feed E sv₀ xs = .ok ([], sv)) :
    ∃ last view, Chain (blake3Hex E) inputOf (fun v => (recordHashOf v).getD "")
        (fun v => (prevHashOf v).getD "") (fun v => ((seqOf v).map UInt64.toNat).getD 0) xs last ∧
      xs.getLast? = some last ∧ sv.prev = some view ∧ view.Of last ∧
      ∀ v ∈ xs, SelfHashed E v ∧ ∃ w : RecordView, w.Of v := by
  induction xs using List.reverseRecOn generalizing sv with
  | nil => exact absurd rfl hne
  | append_singleton xs x ih =>
    obtain ⟨found, rest, mid, hfeed, hnext, hnil⟩ := feed_concat.mp h
    obtain ⟨rfl, rfl⟩ := List.append_eq_nil_iff.mp hnil.symm
    obtain ⟨view, computed, hview, hcomp, hfs, rfl⟩ := verifyNext_eq_ok.mp hnext
    have hfs := hfs.symm
    simp only [List.append_eq_nil_iff, hashFindings_eq_nil] at hfs
    obtain ⟨⟨-, rfl⟩, hplace⟩ := hfs
    have hself := selfHashed_of_view hview hcomp
    by_cases hxs : xs = []
    · subst hxs
      have hseq : seqOf x = some 0 := hzero
      refine ⟨x, view, ?_, rfl, rfl, hview, ?_⟩
      · exact .first (by simp [hseq]) hself.digest
      · intro v hv
        obtain rfl : v = x := by simpa using hv
        exact ⟨hself, view, hview⟩
    · have hzero' : xs.head?.bind seqOf = some 0 := by
        rwa [List.head?_append_of_ne_nil _ hxs] at hzero
      obtain ⟨last, pview, hchain, hlast, hprev, hpview, hall⟩ := ih hxs hzero' hfeed
      obtain ⟨hlt, -, hlink⟩ := placeFindings_some hprev hplace
      refine ⟨x, view, ?_, by simp, rfl, hview, ?_⟩
      · refine .snoc hchain ?_ ?_ hself.digest
        · have h1 : seqOf last = some pview.seq := hpview.seq
          have h2 : seqOf x = some view.seq := hview.seq
          simpa [h1, h2] using UInt64.lt_iff_toNat_lt.mp hlt
        · have h1 : recordHashOf last = some pview.recordHash := hpview.recordHash
          have h2 : prevHashOf x = some view.prevHash := hview.prevHash
          simpa [h1, h2] using hlink
      · intro v hv
        rcases List.mem_append.mp hv with hv | hv
        · exact hall v hv
        · obtain rfl : v = x := by simpa using hv
          exact ⟨hself, view, hview⟩

/-- Equal inputs hold the same link and number. -/
theorem inputOf_inj {v w : Json} {a b : RecordView} (hv : SelfHashed E v) (hw : SelfHashed E w)
    (ha : a.Of v) (hb : b.Of w) (h : inputOf v = inputOf w) :
    prevHashOf v = prevHashOf w ∧ seqOf v = seqOf w ∧ v.value.Equiv w.value := by
  obtain ⟨bv, sv, hbv, hsv, rfl⟩ := hv
  obtain ⟨bw, sw, hbw, hsw, rfl⟩ := hw
  obtain rfl : bv = bw := by simpa [inputOf, hbv, hbw, Except.toOption] using h
  refine ⟨?_, ?_, ?_⟩
  · obtain ⟨x, hx, hxs⟩ := Option.bind_eq_some_iff.mp ha.prevHash
    obtain ⟨y, hy, hxy⟩ := get_of_hashInput_eq hbv hbw (by decide) hx
    have hyb := hb.prevHash
    rw [hy, Option.bind_some] at hyb
    rw [prevHashOf, prevHashOf, ha.prevHash, hb.prevHash, hxy.asStr_eq hxs hyb]
  · obtain ⟨x, hx, hxs⟩ := Option.bind_eq_some_iff.mp ha.seq
    obtain ⟨y, hy, hxy⟩ := get_of_hashInput_eq hbv hbw (by decide) hx
    have hyb := hb.seq
    rw [hy, Option.bind_some] at hyb
    rw [seqOf, seqOf, ha.seq, hb.seq, hxy.asU64_eq hxs hyb]
  · have h1 : a.recordHash = blake3Hex E bv := Option.some.inj (ha.recordHash.symm.trans hsv)
    have h2 : b.recordHash = blake3Hex E bv := Option.some.inj (hb.recordHash.symm.trans hsw)
    exact equiv_of_hashInput_eq hbv hbw (h1 ▸ ha.get_recordHash) (h2 ▸ hb.get_recordHash)

theorem collides_of_blake3Hex {S T : List Bytes} (h : Collides (blake3Hex E) S T) :
    Collides E.blake3 S T := by
  obtain ⟨x, hx, y, hy, hne, heq⟩ := h
  exact ⟨x, hx, y, hy, hne, blake3Hex_inj.mp heq⟩

/-- **The chain head determines the whole stream**: two sequences that verify without findings,
both from number zero, and end in one hash, agree record by record up to member order and number
spelling, or two of the byte strings they hash collide. -/
theorem feed_determined {stream : String} (hnew : StreamVerifier.new E stream = .ok sv₀)
    (hx : feed E sv₀ xs = .ok ([], svx)) (hy : feed E sv₀ ys = .ok ([], svy))
    (hx₀ : xs.head?.bind seqOf = some 0) (hy₀ : ys.head?.bind seqOf = some 0)
    (hlast : xs.getLast?.bind recordHashOf = ys.getLast?.bind recordHashOf) :
    List.Forall₂ (fun a b => a.value.Equiv b.value) xs ys ∨
      Collides E.blake3 (xs.map inputOf) (ys.map inputOf) := by
  have hnone : sv₀.prev = none := by
    unfold StreamVerifier.new at hnew
    split at hnew
    · rw [← Except.ok.inj hnew]
    · cases hnew
  have hxne : xs ≠ [] := by rintro rfl; simp at hx₀
  have hyne : ys ≠ [] := by rintro rfl; simp at hy₀
  obtain ⟨x, vx, hcx, hlx, -, -, hax⟩ := chain_of_feed hnone hxne hx₀ hx
  obtain ⟨y, vy, hcy, hly, -, -, hay⟩ := chain_of_feed hnone hyne hy₀ hy
  have hdigest : recordHashOf x = recordHashOf y := by simpa [hlx, hly] using hlast
  have hinj : ∀ a ∈ xs, ∀ b ∈ ys, inputOf a = inputOf b →
      prevHashOf a = prevHashOf b ∧ seqOf a = seqOf b ∧ a.value.Equiv b.value := by
    intro a ha b hb hab
    obtain ⟨hsa, va, hva⟩ := hax a ha
    obtain ⟨hsb, vb, hvb⟩ := hay b hb
    exact inputOf_inj hsa hsb hva hvb hab
  rcases hcx.determined hcy (by rw [hdigest]) fun a ha b hb hab => by
    obtain ⟨h1, h2, -⟩ := hinj a ha b hb hab
    exact ⟨by rw [h1], by rw [h2]⟩ with hall | hcol
  · left
    refine List.forall₂_iff_get.mpr ⟨hall.length_eq, fun i hi hi' => ?_⟩
    exact (hinj _ (List.get_mem _ _) _ (List.get_mem _ _) (hall.get hi hi')).2.2
  · exact .inr (collides_of_blake3Hex hcol)

end Determined

/-- The members of a record in the opposite order. -/
def Sample.reversed (r : Record) : Json := .ofFields r.fields.reverse (by simp [Record.fields])

open Sample in
theorem feed_determined_reversed :
    List.Forall₂ (fun a b => a.value.Equiv b.value) [opened.toJson, updated.toJson]
        [reversed opened, reversed updated] ∨
      Collides externals.blake3 ([opened.toJson, updated.toJson].map inputOf)
        ([reversed opened, reversed updated].map inputOf) := by
  have hnew : StreamVerifier.new externals opened.streamId =
      .ok ⟨opened.streamId, genesisPrevHash externals stream, none, none, 0⟩ := by
    have hid : externals.ulidFromString opened.streamId = .ok stream := by decide
    simp only [StreamVerifier.new, hid]
  obtain ⟨svx, hx⟩ := exists_of_fst (r := StreamVerifier.feed externals
    ⟨opened.streamId, genesisPrevHash externals stream, none, none, 0⟩
    [opened.toJson, updated.toJson]) (a := []) (by decide +kernel)
  obtain ⟨svy, hy⟩ := exists_of_fst (r := StreamVerifier.feed externals
    ⟨opened.streamId, genesisPrevHash externals stream, none, none, 0⟩
    [reversed opened, reversed updated]) (a := []) (by decide +kernel)
  exact feed_determined hnew hx hy (by decide) (by decide) (by decide)

end Sealr.Evidence
