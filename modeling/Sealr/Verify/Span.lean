import Mathlib.Data.String.Basic
import Mathlib.Order.Bounds.Basic
import Sealr.Verify.Extent

/-!
# The span of a report

The span is kept in texts: its ends are the first and the last `ts_wall` of the bundle in byte order,
while the chain rules compare the times that the texts spell. Of a bundle without errors the ends
bound every record in time exactly when the two orders agree on them (`span_bounds_iff`).
-/

namespace Sealr.Verify

open Lib Evidence Bundle

/-! ## Extremes that are kept -/

section Extremes

variable {α : Type*} [LinearOrder α] {S T : Set α} {o p : Option α}

/-- The least element of a set, if it has any element. -/
def LeastOf (S : Set α) : Option α → Prop
  | none => S = ∅
  | some a => IsLeast S a

/-- The greatest element of a set, if it has any element. -/
def GreatestOf (S : Set α) : Option α → Prop
  | none => S = ∅
  | some a => IsGreatest S a

theorem LeastOf.eq_some (h : LeastOf S o) (hS : S.Nonempty) : ∃ a, o = some a ∧ IsLeast S a := by
  cases o with
  | none => exact absurd h hS.ne_empty
  | some a => exact ⟨a, rfl, h⟩

theorem GreatestOf.eq_some (h : GreatestOf S o) (hS : S.Nonempty) :
    ∃ a, o = some a ∧ IsGreatest S a := by
  cases o with
  | none => exact absurd h hS.ne_empty
  | some a => exact ⟨a, rfl, h⟩

theorem LeastOf.lower {a : α} (h : LeastOf S o) (ha : IsLeast T a) :
    IsLeast (S ∪ T) (o.elim a fun b => if a < b then a else b) := by
  cases o with
  | none =>
    obtain rfl : S = ∅ := h
    rwa [Set.empty_union]
  | some b =>
    rw [Option.elim_some, Set.union_comm, ← min_def_lt]
    exact ha.union h

theorem GreatestOf.raise {a : α} (h : GreatestOf S o) (ha : IsGreatest T a) :
    IsGreatest (S ∪ T) (o.elim a fun b => if b < a then a else b) := by
  cases o with
  | none =>
    obtain rfl : S = ∅ := h
    rwa [Set.empty_union]
  | some b =>
    rw [Option.elim_some, ← max_def_lt]
    exact IsGreatest.union h ha

end Extremes

/-! ## One stream -/

/-- The `ts_wall` texts of raw records. -/
def wallTexts (values : List Json) : Set String := {ts | ∃ v ∈ values, strAt v "ts_wall" = some ts}

/-- The ends of what was collected of a stream are the first and last text of its records. -/
structure Spans (texts : Set String) (data : StreamData) : Prop where
  first : LeastOf texts data.tsMin
  last : GreatestOf texts data.tsMax

section Stream

variable {E : Externals} {S : Serde} {reader : BundleReader} {streamId : String}
  {values : List Json} {v : Json} {ts : String} {data : StreamData} {st : ChainState}

theorem wallTexts_concat (hts : strAt v "ts_wall" = some ts) :
    wallTexts (values ++ [v]) = wallTexts values ∪ {ts} := by
  ext t
  simp only [wallTexts, Set.mem_ofPred_eq, Set.mem_union, Set.mem_singleton_iff, List.mem_append,
    List.mem_singleton]
  constructor
  · rintro ⟨w, hw | rfl, ht⟩
    · exact .inl ⟨w, hw, ht⟩
    · exact .inr (Option.some.inj (ht.symm.trans hts))
  · rintro (⟨w, hw, ht⟩ | rfl)
    · exact ⟨w, .inl hw, ht⟩
    · exact ⟨v, .inr rfl, hts⟩

/-- One text more. -/
theorem Spans.collectTs (h : Spans (wallTexts values) data) (hts : strAt v "ts_wall" = some ts) :
    Spans (wallTexts (values ++ [v])) (collectTs v data) := by
  have hfirst := h.first.lower (isLeast_singleton (a := ts))
  have hlast := h.last.raise (isGreatest_singleton (a := ts))
  rw [← wallTexts_concat hts] at hfirst hlast
  unfold Verify.collectTs
  rw [hts]
  constructor
  · cases hmin : data.tsMin with
    | none => rwa [hmin] at hfirst
    | some m =>
      rw [hmin] at hfirst
      dsimp only [Option.elim_some] at hfirst ⊢
      split_ifs at hfirst ⊢ <;> exact hfirst
  · cases hmax : data.tsMax with
    | none => rwa [hmax] at hlast
    | some m =>
      rw [hmax] at hlast
      dsimp only [Option.elim_some] at hlast ⊢
      split_ifs at hlast ⊢ <;> exact hlast

theorem collect_span (hts : strAt v "ts_wall" = some ts) (h : Spans (wallTexts values) st.data) :
    Spans (wallTexts (values ++ [v])) (collect v st).data := by
  have hhash : Spans (wallTexts values) (collectHash v st.data) := by
    unfold collectHash
    split
    · exact ⟨h.first, h.last⟩
    · exact h
  have hcollected := hhash.collectTs hts
  have hgap : Spans (wallTexts (values ++ [v]))
      (collectGap v (Verify.collectTs v (collectHash v st.data))) := by
    unfold collectGap
    split_ifs
    · exact ⟨hcollected.first, hcollected.last⟩
    · exact hcollected
  unfold collect collectSegment
  split <;> exact hgap

/-- The state after lines without errors: the records of the lines are spanned. -/
theorem verifyStreamChain_spans
    (hquiet : ∀ f ∈ (verifyStreamChain E S reader streamId).2, f.severity ≠ .error) :
    Spans (wallTexts (recordValues E (reader.readStreamRecords E S streamId).1))
      (verifyStreamChain E S reader streamId).1 := by
  unfold verifyStreamChain at hquiet ⊢
  cases hnew : StreamVerifier.new E streamId with
  | error e =>
    simp only [hnew, List.mem_singleton, forall_eq] at hquiet
    exact absurd rfl hquiet
  | ok verifier =>
    simp only [hnew, List.mem_append] at hquiet
    have hnone : wallTexts [] = ∅ := by
      ext t
      simp [wallTexts]
    have hstart : Spans (wallTexts (recordValues E [])) (chainStart verifier).data :=
      ⟨hnone, hnone⟩
    have hrun := @foldLog_induction _ _ _ (onLine E streamId) (fun f => f.severity ≠ .error)
      (fun lines (st : ChainState) => Spans (wallTexts (recordValues E lines)) st.data) _ _ hstart
      (fun lines line st h _ hline => ?_) fun f hf => hquiet f (.inl hf)
    · exact ⟨hrun.first, hrun.last⟩
    · obtain ⟨v, view, hparse, hview, -, -, -, hst⟩ := onLine_quiet hline
      have hvalues : recordValues E (lines ++ [line]) = recordValues E lines ++ [v] := by
        simp [recordValues, hparse, Except.toOption]
      rw [hvalues, hst]
      exact collect_span hview.tsWall h

theorem turns_span {trust : Identity} {hashes : Std.TreeMap UInt64 String}
    {cps : List BundleCheckpoint} :
    (cps.foldl (turn E streamId trust hashes) data).tsMin = data.tsMin ∧
      (cps.foldl (turn E streamId trust hashes) data).tsMax = data.tsMax := by
  induction cps generalizing data with
  | nil => exact ⟨rfl, rfl⟩
  | cons bc cps ih =>
    have hturn : (turn E streamId trust hashes data bc).tsMin = data.tsMin ∧
        (turn E streamId trust hashes data bc).tsMax = data.tsMax := by
      unfold turn acceptCheckpoint acceptCountersignature attestRange
      dsimp only
      split_ifs <;> split <;> exact ⟨rfl, rfl⟩
    rw [List.foldl_cons, ih.1, ih.2]
    exact hturn

end Stream

/-! ## The streams together -/

/-- The span of what is proven of records with these texts. -/
structure SpansAll (texts : Set String) (p : Proven) : Prop where
  first : LeastOf texts p.spanFrom
  last : GreatestOf texts p.spanTo

/-- A stream more. -/
theorem SpansAll.addProven {texts more : Set String} {p : Proven} {data : StreamData}
    (h : SpansAll texts p) (hdata : Spans more data) :
    SpansAll (texts ∪ more) (addProven p data) := by
  by_cases hmore : more.Nonempty
  · obtain ⟨lo, hlo, hleast⟩ := hdata.first.eq_some hmore
    obtain ⟨hi, hhi, hgreatest⟩ := hdata.last.eq_some hmore
    have hfirst := h.first.lower hleast
    have hlast := h.last.raise hgreatest
    unfold Verify.addProven
    constructor
    · simp only [hlo, hhi]
      unfold lowerEarliest
      cases hfrom : p.spanFrom with
      | none => rwa [hfrom] at hfirst
      | some m =>
        rw [hfrom] at hfirst
        dsimp only [Option.elim_some] at hfirst ⊢
        split_ifs at hfirst ⊢ <;> exact hfirst
    · simp only [hlo, hhi]
      cases hto : p.spanTo with
      | none => rwa [hto] at hlast
      | some m =>
        rw [hto] at hlast
        dsimp only [Option.elim_some] at hlast ⊢
        split_ifs at hlast ⊢ <;> exact hlast
  · obtain rfl := Set.not_nonempty_iff_eq_empty.mp hmore
    have hmin : data.tsMin = none := by
      cases hdmin : data.tsMin with
      | none => rfl
      | some m =>
        have hleast := hdata.first
        rw [hdmin] at hleast
        exact absurd hleast.1 (Set.notMem_empty m)
    unfold Verify.addProven
    rw [Set.union_empty]
    simp only [hmin]
    exact ⟨h.first, h.last⟩

theorem SpansAll.foldl_addProven {texts : Set String} {p : Proven} {streams : Streams}
    {textsOf : String → Set String} (h : SpansAll texts p)
    (hstreams : ∀ s ∈ streams, Spans (textsOf s.1) s.2) :
    SpansAll (texts ∪ {ts | ∃ s ∈ streams, ts ∈ textsOf s.1})
      (streams.foldl (fun p s => Verify.addProven p s.2) p) := by
  induction streams generalizing texts p with
  | nil =>
    have hnone : {ts | ∃ s ∈ ([] : Streams), ts ∈ textsOf s.1} = ∅ := by
      ext t
      simp
    rw [hnone, Set.union_empty]
    exact h
  | cons s streams ih =>
    obtain ⟨hs, hrest⟩ := List.forall_mem_cons.mp hstreams
    have hall := ih (h.addProven hs) hrest
    have hcons : {ts | ∃ t ∈ s :: streams, ts ∈ textsOf t.1} =
        textsOf s.1 ∪ {ts | ∃ t ∈ streams, ts ∈ textsOf t.1} := by
      ext t
      simp
    rw [hcons, ← Set.union_assoc]
    exact hall

/-! ## The report -/

/-- The records that a bundle yields for the streams in scope. -/
def Yields (E : Externals) (S : Serde) (reader : BundleReader) (v : Json) : Prop :=
  ∃ streamId ∈ scopeIds reader, v ∈ recordValues E (reader.readStreamRecords E S streamId).1

/-- Their `ts_wall` texts. -/
def yieldedTexts (E : Externals) (S : Serde) (reader : BundleReader) : Set String :=
  {ts | ∃ v, Yields E S reader v ∧ strAt v "ts_wall" = some ts}

/-- Texts that spell times, the first of them in byte order the earliest time and the last of them the
latest. -/
structure SpelledInOrder (E : Externals) (texts : Set String) : Prop where
  parses : ∀ ts ∈ texts, ∃ t, parseWall E ts = .ok t
  first : ∀ a ∈ texts, (∀ ts ∈ texts, a ≤ ts) → ∀ s, parseWall E a = .ok s →
    ∀ ts ∈ texts, ∀ t, parseWall E ts = .ok t → s.le t
  last : ∀ b ∈ texts, (∀ ts ∈ texts, ts ≤ b) → ∀ s, parseWall E b = .ok s →
    ∀ ts ∈ texts, ∀ t, parseWall E ts = .ok t → t.le s

section Report

variable {E : Externals} {S : Serde} {now : Int} {reader : BundleReader} {opts : VerifyOptions}

/-- A bundle without errors spans the texts it yields, each record having one. -/
theorem verifyBundle_spans
    (h : ∀ f ∈ (verifyBundle E S now reader opts).findings, f.severity ≠ .error) :
    SpansAll (yieldedTexts E S reader) (verifyBundle E S now reader opts).proven ∧
      ∀ v, Yields E S reader v → ∃ ts ∈ yieldedTexts E S reader, strAt v "ts_wall" = some ts := by
  have hchain : ∀ sid ∈ scopeIds reader, ∀ f ∈ (verifyStreamChain E S reader sid).2,
      f.severity ≠ .error := by
    intro sid hsid f hf
    refine h f ?_
    rw [findings_verifyBundle]
    simp only [List.mem_append]
    exact .inl (.inl (.inl (.inr (mem_chainPass_findings.mpr ⟨sid, hsid, hf⟩))))
  constructor
  · have hstart : SpansAll ∅ Proven.default := ⟨rfl, rfl⟩
    have hfold := @SpansAll.foldl_addProven _ _ (anchoredState E S now reader opts).streams
      (fun sid => wallTexts (recordValues E (reader.readStreamRecords E S sid).1)) hstart
      fun s hs => ?_
    · have htexts : ∅ ∪ {ts | ∃ s ∈ (anchoredState E S now reader opts).streams,
          ts ∈ wallTexts (recordValues E (reader.readStreamRecords E S s.1).1)} =
          yieldedTexts E S reader := by
        rw [Set.empty_union]
        ext ts
        constructor
        · rintro ⟨s, hs, v, hv, hts⟩
          exact ⟨v, ⟨s.1, (final_data hs).1, hv⟩, hts⟩
        · rintro ⟨v, ⟨sid, hsid, hv⟩, hts⟩
          obtain ⟨anchored, hs⟩ := @exists_final E S now reader opts sid hsid
          exact ⟨_, hs, v, hv, hts⟩
      rw [htexts] at hfold
      exact ⟨hfold.first, hfold.last⟩
    · obtain ⟨hsid, anchored, hdata⟩ := final_data hs
      have hspans := verifyStreamChain_spans (hchain s.1 hsid)
      have hturns := @turns_span E s.1 (verifyStreamChain E S reader s.1).1
        (trustOf E S now reader opts) (verifyStreamChain E S reader s.1).1.hashesBySeq
        (checkpointsOf S reader s.1)
      rw [hdata]
      refine ⟨?_, ?_⟩
      · change LeastOf _ (List.foldl _ _ _ : StreamData).tsMin
        rw [hturns.1]
        exact hspans.first
      · change GreatestOf _ (List.foldl _ _ _ : StreamData).tsMax
        rw [hturns.2]
        exact hspans.last
  · rintro v ⟨sid, hsid, hv⟩
    obtain ⟨-, hnumbered, -, -⟩ := verifyStreamChain_quiet (fun _ hf => hf) (hchain sid hsid)
    obtain ⟨view, hview⟩ := hnumbered.viewed v hv
    exact ⟨view.tsWall, ⟨v, ⟨sid, hsid, hv⟩, hview.tsWall⟩, hview.tsWall⟩

/-- The start of the span is the first text in byte order. -/
theorem isLeast_spanFrom
    (h : ∀ f ∈ (verifyBundle E S now reader opts).findings, f.severity ≠ .error) {lo : String}
    (hlo : (verifyBundle E S now reader opts).proven.spanFrom = some lo) :
    IsLeast (yieldedTexts E S reader) lo := by
  have hfirst := (verifyBundle_spans h).1.first
  rwa [hlo] at hfirst

/-- **When the span bounds the records in time**: of a bundle with records and without errors, the
two ends are there, parse, and every record's time lies between them exactly when all the texts
parse and the first and the last of them in byte order spell the earliest and the latest time. -/
theorem span_bounds_iff
    (h : ∀ f ∈ (verifyBundle E S now reader opts).findings, f.severity ≠ .error)
    (hsome : ∃ v, Yields E S reader v) :
    (∃ lo hi earliest latest,
        (verifyBundle E S now reader opts).proven.spanFrom = some lo ∧
        (verifyBundle E S now reader opts).proven.spanTo = some hi ∧
        parseWall E lo = .ok earliest ∧ parseWall E hi = .ok latest ∧
        ∀ v, Yields E S reader v → ∃ ts t, strAt v "ts_wall" = some ts ∧
          parseWall E ts = .ok t ∧ earliest.le t ∧ t.le latest) ↔
      SpelledInOrder E (yieldedTexts E S reader) := by
  obtain ⟨hspans, htext⟩ := verifyBundle_spans h
  obtain ⟨v₀, hv₀⟩ := hsome
  obtain ⟨ts₀, hts₀, -⟩ := htext v₀ hv₀
  obtain ⟨lo, hlo, hleast⟩ := hspans.first.eq_some ⟨ts₀, hts₀⟩
  obtain ⟨hi, hhi, hgreatest⟩ := hspans.last.eq_some ⟨ts₀, hts₀⟩
  constructor
  · rintro ⟨lo', hi', s, t, hlo', hhi', hs, ht, hall⟩
    obtain rfl := Option.some.inj (hlo.symm.trans hlo')
    obtain rfl := Option.some.inj (hhi.symm.trans hhi')
    have hbound : ∀ ts ∈ yieldedTexts E S reader, ∃ u, parseWall E ts = .ok u ∧ s.le u ∧ u.le t := by
      rintro ts ⟨v, hv, hts⟩
      obtain ⟨ts', u, hts', hu, hsu, hut⟩ := hall v hv
      obtain rfl := Option.some.inj (hts.symm.trans hts')
      exact ⟨u, hu, hsu, hut⟩
    refine ⟨fun ts hts => (hbound ts hts).imp fun _ hu => hu.1, ?_, ?_⟩
    · intro a ha hfirst s' hs' ts hts u hu
      obtain rfl : a = lo := le_antisymm (hfirst lo hleast.1) (hleast.2 ha)
      obtain rfl := Except.ok.inj (hs.symm.trans hs')
      obtain ⟨u', hu', hsu, -⟩ := hbound ts hts
      obtain rfl := Except.ok.inj (hu.symm.trans hu')
      exact hsu
    · intro b hb hlast t' ht' ts hts u hu
      obtain rfl : b = hi := le_antisymm (hgreatest.2 hb) (hlast hi hgreatest.1)
      obtain rfl := Except.ok.inj (ht.symm.trans ht')
      obtain ⟨u', hu', -, hut⟩ := hbound ts hts
      obtain rfl := Except.ok.inj (hu.symm.trans hu')
      exact hut
  · intro horder
    obtain ⟨s, hs⟩ := horder.parses lo hleast.1
    obtain ⟨t, ht⟩ := horder.parses hi hgreatest.1
    refine ⟨lo, hi, s, t, hlo, hhi, hs, ht, fun v hv => ?_⟩
    obtain ⟨ts, hmem, hts⟩ := htext v hv
    obtain ⟨u, hu⟩ := horder.parses ts hmem
    exact ⟨ts, u, hts, hu, horder.first lo hleast.1 hleast.2 s hs ts hmem u hu,
      horder.last hi hgreatest.1 hgreatest.2 t ht ts hmem u hu⟩

end Report

theorem mem_yieldedTexts {E : Externals} {S : Serde} {reader : BundleReader} {ts : String} :
    ts ∈ yieldedTexts E S reader ↔ ∃ streamId ∈ scopeIds reader, some ts ∈
      (recordValues E (reader.readStreamRecords E S streamId).1).map (strAt · "ts_wall") := by
  constructor
  · rintro ⟨v, ⟨sid, hsid, hv⟩, hts⟩
    exact ⟨sid, hsid, List.mem_map.mpr ⟨v, hv, hts⟩⟩
  · rintro ⟨sid, hsid, hmem⟩
    obtain ⟨v, hv, hts⟩ := List.mem_map.mp hmem
    exact ⟨v, ⟨sid, hsid, hv⟩, hts⟩

/-! A bundle of two records, the second with another offset from UTC: its text comes first, but its
time is half an hour later. -/

namespace Sample

open Evidence.Sample

theorem yieldedTexts_bundle :
    yieldedTexts bundleExternals bundleDocuments.serde bundle = {opened.tsWall} := by
  have hscope : scopeIds bundle = [opened.streamId] := rfl
  have htexts : (recordValues bundleExternals
      (bundle.readStreamRecords bundleExternals bundleDocuments.serde opened.streamId).1).map
        (strAt · "ts_wall") = [some opened.tsWall] := by
    decide +kernel
  ext ts
  rw [mem_yieldedTexts, hscope]
  simp only [List.mem_singleton, exists_eq_left]
  rw [htexts]
  simp

def shifted : Record := {
  draft "000000002D000000000000003B" "2026-08-11T11:30:00.000-01:00" 2000 .operation "update" with
  seq := 1
  prevHash := opened.recordHash
  recordHash := "53b46a9443e741ead133d90ddc7d56e18e4be33fb22c9090520258cfec72e7a0" }

def mixedLines : Bytes :=
  documentBytes opened.toJson ++ [0x0a] ++ (documentBytes shifted.toJson ++ [0x0a])

def mixedIndex : RecordIndex := ⟨[⟨opened.streamId, [shardPath], 0, 1, 2⟩]⟩

def mixedEntries : List (ZipEntry × String) := [
  (file shardPath (rawFrame mixedLines),
    "7e0fcc2e17450b48d41d03ab2b591c05a8929db78634e24ec2bc69e70b7b90a3"),
  (file "records/index.json" (documentBytes mixedIndex.toJson),
    "d959734feb12a67c982d9607a0d3d0c48ac019cce56183e1702a26db1282b8fb"),
  (file "identity/certs.pem" (asBytes (derToPem leafDer)),
    "c12da398cd2def0b988061f054f722dd209090775516b9afa98e6bbaa3e0c71f"),
  (file "identity/roots.json" (documentBytes roots.toJson),
    "08924c00795b2493026020a117ca2759778d403ba82b4f850f9900019a28be8e")]

def mixedManifest : Manifest := { manifestFor mixedEntries with
  scope := ⟨.full, none, none, [], [⟨opened.streamId, 0, 1, 2⟩]⟩ }

def mixedBundle : BundleReader where
  zip := ⟨mixedEntries.map Prod.fst ++ [file "manifest.json" (documentBytes mixedManifest.toJson)],
    by simp [mixedEntries, file, shardPath]⟩
  manifest := mixedManifest

def mixedRecording : Externals.Recording := { bundleRecording with
  blake3 := ((hashInput shifted.toJson).toOption.getD [], ofHex shifted.recordHash) ::
    bundleRecording.blake3 ++ hashesOf mixedEntries ++
    [(documentBytes mixedManifest.toJson, ofHex "e5f48482501756ea0d1950edf20d64c4aaf5ceaeed18fb48ccae399d34ada126")]
  times := (shifted.tsWall, ⟨1786451400, 0⟩) :: bundleRecording.times
  frames := [(rawFrame mixedLines, mixedLines)] }

def mixedExternals : Externals := .recorded mixedRecording

def mixedDocuments : Documents where
  manifests := [mixedManifest]
  indexes := [mixedIndex]
  roots := [roots]

theorem mixed_identity : identityPass mixedExternals mixedDocuments.serde 1786453200 mixedBundle
    options = (trust, [add .info .rootSource "root source: --root override"]) :=
  identityPass_eq rfl rfl rfl rfl rfl (by decide +kernel)
    (identity_eq rfl rfl rfl (by simp only [mixedDocuments, Documents.serde, readsBack_self]))

theorem mixed_ne_fail :
    (verifyBundle mixedExternals mixedDocuments.serde 0 mixedBundle options).result ≠ .fail := by
  rw [result_of_identity mixed_identity rfl]
  decide +kernel

theorem yieldedTexts_mixed : yieldedTexts mixedExternals mixedDocuments.serde mixedBundle =
    {opened.tsWall, shifted.tsWall} := by
  have hscope : scopeIds mixedBundle = [opened.streamId] := rfl
  have htexts : (recordValues mixedExternals
      (mixedBundle.readStreamRecords mixedExternals mixedDocuments.serde opened.streamId).1).map
        (strAt · "ts_wall") = [some opened.tsWall, some shifted.tsWall] := by
    decide +kernel
  ext ts
  rw [mem_yieldedTexts, hscope]
  simp only [List.mem_singleton, exists_eq_left]
  rw [htexts]
  simp

end Sample

theorem span_bounds_sample : ∃ lo hi earliest latest,
    (verifyBundle Sample.bundleExternals Sample.bundleDocuments.serde 0 Sample.bundle
      Sample.options).proven.spanFrom = some lo ∧
    (verifyBundle Sample.bundleExternals Sample.bundleDocuments.serde 0 Sample.bundle
      Sample.options).proven.spanTo = some hi ∧
    parseWall Sample.bundleExternals lo = .ok earliest ∧
    parseWall Sample.bundleExternals hi = .ok latest ∧
    ∀ v, Yields Sample.bundleExternals Sample.bundleDocuments.serde Sample.bundle v →
      ∃ ts t, strAt v "ts_wall" = some ts ∧ parseWall Sample.bundleExternals ts = .ok t ∧
        earliest.le t ∧ t.le latest := by
  have hquiet := noError_of_unfailed Sample.bundle_ne_fail
  have hparse : parseWall Sample.bundleExternals Evidence.Sample.opened.tsWall =
      .ok ⟨1786449600, 0⟩ := by
    decide
  have hmem : Evidence.Sample.opened.tsWall ∈
      yieldedTexts Sample.bundleExternals Sample.bundleDocuments.serde Sample.bundle := by
    rw [Sample.yieldedTexts_bundle]
    rfl
  obtain ⟨v, hv, -⟩ := hmem
  refine (span_bounds_iff hquiet ⟨v, hv⟩).mpr ?_
  rw [Sample.yieldedTexts_bundle]
  constructor
  · rintro ts rfl
    exact ⟨_, hparse⟩
  · rintro a rfl - s hs ts rfl t ht
    obtain rfl := Except.ok.inj (hs.symm.trans ht)
    simp [DateTime.le]
  · rintro b rfl - s hs ts rfl t ht
    obtain rfl := Except.ok.inj (hs.symm.trans ht)
    simp [DateTime.le]

/-- Of two records half an hour apart, the later one is reported as the start of the span. -/
theorem span_misses_record : ¬∀ (E : Externals) (S : Serde) (now : Int) (reader : BundleReader)
    (opts : VerifyOptions),
    (∀ f ∈ (verifyBundle E S now reader opts).findings, f.severity ≠ .error) →
    (∃ v, Yields E S reader v) → ∃ lo hi earliest latest,
      (verifyBundle E S now reader opts).proven.spanFrom = some lo ∧
      (verifyBundle E S now reader opts).proven.spanTo = some hi ∧
      parseWall E lo = .ok earliest ∧ parseWall E hi = .ok latest ∧
      ∀ v, Yields E S reader v → ∃ ts t, strAt v "ts_wall" = some ts ∧
        parseWall E ts = .ok t ∧ earliest.le t ∧ t.le latest := by
  intro hall
  have hquiet := noError_of_unfailed Sample.mixed_ne_fail
  have hopened : Evidence.Sample.opened.tsWall ∈
      yieldedTexts Sample.mixedExternals Sample.mixedDocuments.serde Sample.mixedBundle := by
    rw [Sample.yieldedTexts_mixed]
    exact .inl rfl
  obtain ⟨v, hv, hts⟩ := hopened
  obtain ⟨lo, _, earliest, _, hlo, -, hparse, -, hbound⟩ :=
    hall _ _ 0 _ Sample.options hquiet ⟨v, hv⟩
  obtain ⟨ts, t, hts', ht, hle, -⟩ := hbound v hv
  obtain rfl := Option.some.inj (hts.symm.trans hts')
  -- the first text in byte order is that of the second record
  have hleast := isLeast_spanFrom hquiet hlo
  rw [Sample.yieldedTexts_mixed] at hleast
  have hshifted : lo = Sample.shifted.tsWall := by
    refine hleast.1.resolve_left ?_
    rintro rfl
    exact absurd (hleast.2 (.inr rfl)) (by decide)
  have hfirst : parseWall Sample.mixedExternals Sample.shifted.tsWall = .ok ⟨1786451400, 0⟩ := by
    decide
  have hsecond : parseWall Sample.mixedExternals Evidence.Sample.opened.tsWall =
      .ok ⟨1786449600, 0⟩ := by
    decide
  rw [hshifted, hfirst] at hparse
  rw [hsecond] at ht
  obtain rfl := Except.ok.inj hparse
  obtain rfl := Except.ok.inj ht
  exact absurd hle (by decide)

end Sealr.Verify
