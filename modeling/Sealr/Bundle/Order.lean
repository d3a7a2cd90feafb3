import Sealr.Bundle.Calls
import Sealr.Lib.Sections

/-!
# The order of the entries

The module promises a canonical order: record shards, the record index, checkpoints, anchors,
identity, vault, instructions. The phases keep the sections in this order whatever is called. That
the index is there is another matter: the operation that leaves the records phase has to write it,
and `add_vault_entry` does not.
-/

namespace Sealr.Bundle

open Lib Evidence

/-! ## Sections -/

/-- The parts of a bundle, in canonical order. -/
inductive Section where
  | shards | index | checkpoints | anchors | identity | vault | verifyMd
  deriving DecidableEq

namespace Section

def all : List Section := [shards, index, checkpoints, anchors, identity, vault, verifyMd]

def rank : Section → Nat
  | shards => 0
  | index => 1
  | checkpoints => 2
  | anchors => 3
  | identity => 4
  | vault => 5
  | verifyMd => 6

/-- The directories. -/
def dirs : List (List Char × Section) :=
  [("records/".toList, shards), ("checkpoints/".toList, checkpoints), ("anchors/".toList, anchors),
    ("identity/".toList, identity), ("vault/".toList, vault)]

end Section

/-- The part of a bundle a path belongs to. -/
def sectionOf (path : String) : Option Section :=
  if path = "records/index.json" then some .index
  else if path = "VERIFY.md" then some .verifyMd
  else (Section.dirs.find? fun d => d.1.isPrefixOf path.toList).map Prod.snd

/-- The section that is written in a phase. -/
def Phase.section : Phase → Section
  | records => .shards
  | checkpoints => .checkpoints
  | anchors => .anchors
  | identity => .identity
  | vault => .vault
  | finished => .verifyMd

theorem Phase.section_rank_le {p q : Phase} (h : p.rank ≤ q.rank) :
    p.section.rank ≤ q.section.rank := by
  cases p <;> cases q <;> simp_all [Phase.rank, Phase.section, Section.rank]

theorem sectionOf_index : sectionOf "records/index.json" = some .index := by
  simp [sectionOf]

theorem sectionOf_verifyMd : sectionOf "VERIFY.md" = some .verifyMd := by
  simp [sectionOf]

theorem sectionOf_shardPath (streamId : String) (n : UInt32) :
    sectionOf (shardPath streamId n) = some .shards := by
  have hlast : (shardPath streamId n).toList.getLast? = some 't' := by
    rw [shardPath, String.toList_append, List.getLast?_append]
    rfl
  have hindex : shardPath streamId n ≠ "records/index.json" := by
    intro heq
    rw [heq] at hlast
    revert hlast
    decide
  have hverify : shardPath streamId n ≠ "VERIFY.md" := by
    intro heq
    rw [heq] at hlast
    revert hlast
    decide
  rw [sectionOf, if_neg hindex, if_neg hverify]
  simp [Section.dirs, shardPath, String.toList_append]

theorem Call.sectionOf_files {K : Sink} {c : Call} {f : String × Bytes} (hf : f ∈ c.files K) :
    sectionOf f.1 = some c.phase.section := by
  cases c with
  | addStreamRecords streamId lines => exact absurd hf List.not_mem_nil
  | addStreamCheckpoints streamId checkpoints =>
    obtain rfl := List.mem_singleton.mp hf
    simp [sectionOf, Section.dirs, String.ext_iff, Call.phase, Phase.section]
  | addRfc3161Token batchId tokenDer =>
    obtain rfl := List.mem_singleton.mp hf
    simp [sectionOf, Section.dirs, String.ext_iff, Call.phase, Phase.section]
  | addQtsToken day tokenDer =>
    obtain rfl := List.mem_singleton.mp hf
    simp [sectionOf, Section.dirs, String.ext_iff, Call.phase, Phase.section]
  | addAnchorProofs proofs =>
    obtain rfl := List.mem_singleton.mp hf
    simp [sectionOf, Section.dirs, String.ext_iff, Call.phase, Phase.section]
  | addIdentity certsPem revocations roots =>
    cases revocations with
    | none =>
      simp only [Call.files, identityFiles, Option.map_none, Option.toList_none,
        List.cons_append, List.nil_append, List.mem_cons, List.not_mem_nil, or_false] at hf
      obtain rfl | rfl := hf
      · simp [sectionOf, Section.dirs, Call.phase, Phase.section]
      · simp [sectionOf, Section.dirs, Call.phase, Phase.section]
    | some rev =>
      simp only [Call.files, identityFiles, Option.map_some, Option.toList_some,
        List.cons_append, List.nil_append, List.mem_cons, List.not_mem_nil, or_false] at hf
      obtain rfl | rfl | rfl := hf
      · simp [sectionOf, Section.dirs, Call.phase, Phase.section]
      · simp [sectionOf, Section.dirs, Call.phase, Phase.section]
      · simp [sectionOf, Section.dirs, Call.phase, Phase.section]
  | addVaultEntry name bytes =>
    obtain rfl := List.mem_singleton.mp hf
    simp [sectionOf, Section.dirs, String.ext_iff, Call.phase, Phase.section]

/-- The operations that close the records phase leave it. -/
theorem Call.closes_phase {c : Call} (h : c.closes) : c.phase ≠ .records := by
  cases c <;> simp_all [Call.closes, Call.phase]

/-- The entries of a section. -/
def entriesIn (contents : List ContentEntry) (s : Section) : List ContentEntry :=
  keyed (fun e => sectionOf e.path) contents (some s)

/-- The order of the sections; what belongs to none comes last. -/
def sectionRank : Option Section → Nat
  | some s => s.rank
  | none => 7

section Append

variable {E : Externals} {new : List (String × Bytes)} {w w' : BundleWriter} {s : Section}

/-- The section that files were written to. -/
theorem Wrote.entriesIn_self (h : Wrote E new w w') (hnew : ∀ f ∈ new, sectionOf f.1 = some s) :
    entriesIn w'.contents s =
      entriesIn w.contents s ++ new.map fun f => contentEntry E f.1 f.2 := by
  unfold entriesIn
  rw [h.contents, keyed_append]
  congr 1
  apply keyed_eq_self
  intro e he
  obtain ⟨f, hf, rfl⟩ := List.mem_map.mp he
  exact hnew f hf

/-- The other sections stay as they are. -/
theorem Wrote.entriesIn_ne {t : Section} (h : Wrote E new w w')
    (hnew : ∀ f ∈ new, sectionOf f.1 = some s) (hne : s ≠ t) :
    entriesIn w'.contents t = entriesIn w.contents t := by
  have hnone : entriesIn (new.map fun f => contentEntry E f.1 f.2) t = [] := by
    apply keyed_eq_nil
    intro e he
    obtain ⟨f, hf, rfl⟩ := List.mem_map.mp he
    change sectionOf f.1 ≠ some t
    rw [hnew f hf]
    simpa using hne
  unfold entriesIn at hnone ⊢
  rw [h.contents, keyed_append, hnone, List.append_nil]

end Append

/-! ## The layout -/

/-- The entries ascend, none is beyond the phase, and the shards are those of the index. -/
structure Laid (w : BundleWriter) : Prop where
  sorted : w.contents.Pairwise fun a b =>
    sectionRank (sectionOf a.path) ≤ sectionRank (sectionOf b.path)
  bounded : ∀ e ∈ w.contents, ∃ s, sectionOf e.path = some s ∧ s.rank ≤ w.phase.section.rank
  shards : (entriesIn w.contents .shards).map (·.path) = w.index.streams.flatMap (·.shards)

namespace Laid

variable {E : Externals} {K : Sink} {new : List (String × Bytes)} {w w' : BundleWriter}

theorem start (bundleId createdAt : String) (tool : ToolInfo) (threshold : UInt64) :
    Laid ((BundleWriter.new bundleId createdAt tool).withShardThreshold threshold) where
  sorted := .nil
  bounded := fun _ he => absurd he List.not_mem_nil
  shards := rfl

/-- Files of a section that is not behind the phase may be appended. -/
theorem append {s : Section} (h : Laid w) (hwrote : Wrote E new w w')
    (hnew : ∀ f ∈ new, sectionOf f.1 = some s) (hlow : w.phase.section.rank ≤ s.rank)
    (hhigh : s.rank ≤ w'.phase.section.rank)
    (hshards : (entriesIn w'.contents .shards).map (·.path) = w'.index.streams.flatMap (·.shards)) :
    Laid w' := by
  have hsection : ∀ e ∈ new.map fun f => contentEntry E f.1 f.2, sectionOf e.path = some s := by
    intro e he
    obtain ⟨f, hf, rfl⟩ := List.mem_map.mp he
    exact hnew f hf
  refine ⟨?_, ?_, hshards⟩
  · rw [hwrote.contents, List.pairwise_append]
    refine ⟨h.sorted, ?_, ?_⟩
    · apply List.pairwise_of_forall_mem_list
      intro a ha b hb
      rw [hsection a ha, hsection b hb]
    · intro a ha b hb
      obtain ⟨t, ht, hle⟩ := h.bounded a ha
      rw [ht, hsection b hb]
      exact hle.trans hlow
  · intro e he
    rw [hwrote.contents, List.mem_append] at he
    obtain he | he := he
    · obtain ⟨t, ht, hle⟩ := h.bounded e he
      exact ⟨t, ht, hle.trans (hlow.trans hhigh)⟩
    · exact ⟨s, hsection e he, hhigh⟩

theorem appended {phase : Phase} (h : Laid w) (happended : Appended E phase new w w')
    (hnew : ∀ f ∈ new, sectionOf f.1 = some phase.section) (hphase : phase ≠ .records) :
    Laid w' := by
  apply h.append happended.wrote hnew (Phase.section_rank_le happended.rank)
  · rw [happended.phase]
  · have hne : phase.section ≠ .shards := by
      cases phase <;> simp_all [Phase.section]
    rw [happended.wrote.entriesIn_ne hnew hne, happended.index]
    exact h.shards

theorem sectionOf_indexFile {index : RecordIndex} :
    ∀ f ∈ [indexFile K index], sectionOf f.1 = some .index := by
  intro f hf
  obtain rfl := List.mem_singleton.mp hf
  exact sectionOf_index

theorem closed (h : Laid w) (hclosed : Closed E K w w') : Laid w' := by
  obtain ⟨hopen, hwrote, hphase, hindex⟩ | ⟨-, rfl⟩ := hclosed
  · apply h.append hwrote sectionOf_indexFile
    · rw [hopen]
      decide
    · rw [hphase]
      decide
    · rw [hwrote.entriesIn_ne sectionOf_indexFile (by decide), hindex]
      exact h.shards
  · exact h

theorem streamAdded {streamId : String} {lines : List Bytes} {chunks : List (List Bytes)}
    {entry : RecordIndexStream} (h : Laid w)
    (hadded : StreamAdded E K streamId lines new chunks entry w w') : Laid w' := by
  have hnew : ∀ f ∈ new, sectionOf f.1 = some .shards := by
    intro f hf
    obtain ⟨n, hn⟩ := hadded.shardPath_of_mem hf
    rw [hn]
    exact sectionOf_shardPath streamId n
  apply h.append hadded.wrote hnew
  · rw [hadded.opened]
    decide
  · rw [hadded.phase]
    decide
  · rw [hadded.wrote.entriesIn_self hnew, List.map_append, h.shards, hadded.index,
      List.flatMap_append, List.flatMap_singleton, hadded.shards, List.map_map]
    rfl

/-- Every call keeps the layout. -/
theorem perform_call {c : Call} {u : Unit} (h : Laid w) (hcall : Succeeds (c.perform E K) w u w') :
    Laid w' := by
  obtain ⟨streamId, lines, new, chunks, entry, rfl, hadded⟩ | ⟨name, bytes, rfl, happended⟩ |
    ⟨hcloses, w₁, hclosed, happended⟩ := Call.perform_cases hcall
  · exact h.streamAdded hadded
  · exact h.appended happended (fun f hf => Call.sectionOf_files hf) Phase.noConfusion
  · exact (h.closed hclosed).appended happended (fun f hf => Call.sectionOf_files hf)
      (Call.closes_phase hcloses)

/-- So does every run. -/
theorem perform {calls : List Call} {u : Unit} (h : Laid w)
    (hrun : Succeeds (perform E K calls) w u w') : Laid w' := by
  induction calls generalizing w with
  | nil =>
    rw [Bundle.perform, succeeds_pure] at hrun
    rwa [hrun.2]
  | cons c calls ih =>
    rw [Bundle.perform, succeeds_bind] at hrun
    obtain ⟨_, w₁, hcall, hrun⟩ := hrun
    exact ih (h.perform_call hcall) hrun

end Laid

/-! ## The index -/

/-- Is the records phase closed by an operation that writes the index? -/
def closesRecords : List Call → Bool
  | [] => true
  | .addStreamRecords _ _ :: calls => closesRecords calls
  | .addVaultEntry _ _ :: _ => false
  | _ :: _ => true

/-- The streams that the calls add. -/
def addedStreams : List Call → List String
  | [] => []
  | .addStreamRecords streamId _ :: calls => streamId :: addedStreams calls
  | _ :: calls => addedStreams calls

/-- What the manifest says about the index. -/
def indexEntry (E : Externals) (K : Sink) (index : RecordIndex) : ContentEntry :=
  contentEntry E "records/index.json" (toVecPretty K index.toJson)

section Index

variable {E : Externals} {K : Sink} {new : List (String × Bytes)} {c : Call} {calls : List Call}
  {u : Unit} {w w' : BundleWriter}

theorem Call.closes_cons (h : c.closes) (calls : List Call) :
    closesRecords (c :: calls) ∧ addedStreams (c :: calls) = addedStreams calls := by
  cases c <;> simp_all [Call.closes, closesRecords, addedStreams]

theorem Closed.index_eq (h : Closed E K w w') : w'.index = w.index := by
  obtain ⟨-, -, -, hindex⟩ | ⟨-, rfl⟩ := h
  · exact hindex
  · rfl

/-- Only the end of the records phase writes the index. -/
theorem Closed.entriesIn_index (h : Closed E K w w') :
    entriesIn w'.contents .index = entriesIn w.contents .index ++
      (if w.phase = .records then [indexEntry E K w.index] else []) := by
  obtain ⟨hphase, hwrote, -, -⟩ | ⟨hphase, rfl⟩ := h
  · rw [hwrote.entriesIn_self Laid.sectionOf_indexFile, if_pos hphase]
    rfl
  · rw [if_neg hphase, List.append_nil]

theorem Appended.entriesIn_index (h : Appended E c.phase (c.files K) w w') :
    entriesIn w'.contents .index = entriesIn w.contents .index := by
  apply h.wrote.entriesIn_ne fun f hf => Call.sectionOf_files hf
  cases c <;> exact Section.noConfusion

theorem StreamAdded.entriesIn_index {streamId : String} {lines : List Bytes}
    {chunks : List (List Bytes)} {entry : RecordIndexStream}
    (h : StreamAdded E K streamId lines new chunks entry w w') :
    entriesIn w'.contents .index = entriesIn w.contents .index := by
  apply h.wrote.entriesIn_ne (s := .shards)
  · intro f hf
    obtain ⟨n, hn⟩ := h.shardPath_of_mem hf
    rw [hn]
    exact sectionOf_shardPath streamId n
  · exact Section.noConfusion

/-- Once the records phase is over, the index does not change, in memory or in the archive. -/
theorem perform_of_phase_ne (h : Succeeds (perform E K calls) w u w') (hphase : w.phase ≠ .records) :
    w'.phase ≠ .records ∧ w'.index = w.index ∧ addedStreams calls = [] ∧
      entriesIn w'.contents .index = entriesIn w.contents .index := by
  induction calls generalizing w with
  | nil =>
    rw [perform, succeeds_pure] at h
    obtain ⟨-, rfl⟩ := h
    exact ⟨hphase, rfl, rfl, rfl⟩
  | cons c calls ih =>
    rw [perform, succeeds_bind] at h
    obtain ⟨_, w₁, hcall, hrun⟩ := h
    obtain ⟨streamId, lines, new, chunks, entry, -, hadded⟩ | ⟨name, bytes, rfl, happended⟩ |
      ⟨hcloses, w₂, hclosed, happended⟩ := Call.perform_cases hcall
    · exact absurd hadded.opened hphase
    · have hne : w₁.phase ≠ .records := by
        rw [happended.phase]
        exact Phase.noConfusion
      obtain ⟨hphase', hindex, hstreams, hentries⟩ := ih hrun hne
      exact ⟨hphase', hindex.trans happended.index, hstreams,
        hentries.trans happended.entriesIn_index⟩
    · have hne : w₁.phase ≠ .records := by
        rw [happended.phase]
        exact Call.closes_phase hcloses
      obtain ⟨hphase', hindex, hstreams, hentries⟩ := ih hrun hne
      refine ⟨hphase', hindex.trans (happended.index.trans hclosed.index_eq), ?_, ?_⟩
      · rw [(Call.closes_cons hcloses calls).2, hstreams]
      · rw [hentries, happended.entriesIn_index, hclosed.entriesIn_index, if_neg hphase,
          List.append_nil]

/-- A run from the records phase: the index is written when that phase ends, unless a vault entry
ends it. -/
theorem perform_of_records (h : Succeeds (perform E K calls) w u w') (hopen : w.phase = .records)
    (hnone : entriesIn w.contents .index = []) :
    w'.index.streams.map (·.streamId) =
        w.index.streams.map (·.streamId) ++ addedStreams calls ∧
      ((w'.phase = .records ∧ closesRecords calls ∧ entriesIn w'.contents .index = []) ∨
        (w'.phase ≠ .records ∧ entriesIn w'.contents .index =
          if closesRecords calls then [indexEntry E K w'.index] else [])) := by
  induction calls generalizing w with
  | nil =>
    rw [perform, succeeds_pure] at h
    obtain ⟨-, rfl⟩ := h
    exact ⟨by simp [addedStreams], .inl ⟨hopen, rfl, hnone⟩⟩
  | cons c calls ih =>
    rw [perform, succeeds_bind] at h
    obtain ⟨_, w₁, hcall, hrun⟩ := h
    obtain ⟨streamId, lines, new, chunks, entry, rfl, hadded⟩ | ⟨name, bytes, rfl, happended⟩ |
      ⟨hcloses, w₂, hclosed, happended⟩ := Call.perform_cases hcall
    · obtain ⟨hstreams, hindex⟩ := ih hrun hadded.phase (hadded.entriesIn_index.trans hnone)
      refine ⟨?_, hindex⟩
      rw [hstreams, hadded.index]
      simp [addedStreams, hadded.streamId]
    · have hne : w₁.phase ≠ .records := by
        rw [happended.phase]
        exact Phase.noConfusion
      obtain ⟨hphase, hindex, hstreams, hentries⟩ := perform_of_phase_ne hrun hne
      refine ⟨?_, .inr ⟨hphase, ?_⟩⟩
      · rw [hindex, happended.index]
        simp [addedStreams, hstreams]
      · rw [hentries, happended.entriesIn_index, hnone]
        rfl
    · obtain ⟨hcloses', hadded⟩ := Call.closes_cons hcloses calls
      have hne : w₁.phase ≠ .records := by
        rw [happended.phase]
        exact Call.closes_phase hcloses
      obtain ⟨hphase, hindex, hstreams, hentries⟩ := perform_of_phase_ne hrun hne
      have hkept : w'.index = w.index := by
        rw [hindex, happended.index, hclosed.index_eq]
      refine ⟨?_, .inr ⟨hphase, ?_⟩⟩
      · rw [hkept, hadded, hstreams, List.append_nil]
      · rw [hentries, happended.entriesIn_index, hclosed.entriesIn_index, hnone, if_pos hopen,
          if_pos hcloses', hkept, List.nil_append]

end Index

/-! ## Canonical order -/

/-- The contents are in canonical order: the shards of the streams, one index that lists the streams
added, the directories in turn, and the instructions at the end. -/
structure CanonicalOrder (E : Externals) (K : Sink) (calls : List Call) (index : RecordIndex)
    (contents : List ContentEntry) : Prop where
  sections : InSections (fun e => sectionOf e.path) (Section.all.map some) contents
  shards : (entriesIn contents .shards).map (·.path) = index.streams.flatMap (·.shards)
  listed : entriesIn contents .index = [indexEntry E K index]
  streams : index.streams.map (·.streamId) = addedStreams calls
  verifyMd : (entriesIn contents .verifyMd).map (·.path) = ["VERIFY.md"]

/-- Contents that ascend are in sections. -/
theorem Laid.inSections {w : BundleWriter} (h : Laid w) :
    InSections (fun e => sectionOf e.path) (Section.all.map some) w.contents := by
  refine @inSections_of_pairwise _ _ _ _ sectionRank _ _ ?_ ?_ h.sorted
  · decide
  · intro e he
    obtain ⟨s, hs, -⟩ := h.bounded e he
    rw [hs]
    cases s <;> decide

/-- Nothing is in the last section before the end. -/
theorem Laid.entriesIn_verifyMd {w : BundleWriter} (h : Laid w) (hphase : w.phase ≠ .finished) :
    entriesIn w.contents .verifyMd = [] := by
  apply keyed_eq_nil
  intro e he hverify
  obtain ⟨s, hs, hle⟩ := h.bounded e he
  rw [hverify] at hs
  cases hs
  cases hp : w.phase <;> simp_all [Phase.section, Section.rank]

/-- Only `finish` ends the writing. -/
theorem perform_phase_ne_finished {E : Externals} {K : Sink} {calls : List Call} {u : Unit}
    {w w' : BundleWriter} (h : Succeeds (perform E K calls) w u w') (hphase : w.phase ≠ .finished) :
    w'.phase ≠ .finished := by
  induction calls generalizing w with
  | nil =>
    rw [perform, succeeds_pure] at h
    rwa [h.2]
  | cons c calls ih =>
    rw [perform, succeeds_bind] at h
    obtain ⟨_, w₁, hcall, hrun⟩ := h
    apply ih hrun
    have hcallPhase : c.phase ≠ .finished := by
      cases c <;> exact Phase.noConfusion
    obtain ⟨streamId, lines, new, chunks, entry, -, hadded⟩ | ⟨name, bytes, -, happended⟩ |
      ⟨-, w₂, -, happended⟩ := Call.perform_cases hcall
    · rw [hadded.phase]
      exact Phase.noConfusion
    · rwa [happended.phase]
    · rwa [happended.phase]

/-- What `finish` lists: the sections in order, and the index of the streams if it was written. -/
theorem finish_layout {E : Externals} {K : Sink} {bundleId createdAt : String} {tool : ToolInfo}
    {threshold : UInt64} {calls : List Call} {level : ExportLevel} {tsFrom tsTo : Option String}
    {resources : List String} {u : Unit} {w w' : BundleWriter} {manifest : Manifest} {hash : String}
    {archive : ZipArchive}
    (hrun : Succeeds (perform E K calls)
      ((BundleWriter.new bundleId createdAt tool).withShardThreshold threshold) u w)
    (hfinish : Succeeds (finish E K level tsFrom tsTo resources) w (manifest, hash, archive) w') :
    InSections (fun e => sectionOf e.path) (Section.all.map some) manifest.contents ∧
      (entriesIn manifest.contents .shards).map (·.path) = w.index.streams.flatMap (·.shards) ∧
      w.index.streams.map (·.streamId) = addedStreams calls ∧
      (entriesIn manifest.contents .verifyMd).map (·.path) = ["VERIFY.md"] ∧
      entriesIn manifest.contents .index =
        if closesRecords calls then [indexEntry E K w.index] else [] := by
  obtain ⟨w₁, w₂, bytes, zip, hclosed, hverify, hindex, rfl, -, -, -, -⟩ := succeeds_finish hfinish
  have hlaid := (Laid.start bundleId createdAt tool threshold).perform hrun
  have hunfinished : w₁.phase ≠ .finished := by
    have hw : w.phase ≠ .finished := perform_phase_ne_finished hrun Phase.noConfusion
    obtain ⟨-, -, hphase, -⟩ | ⟨-, rfl⟩ := hclosed
    · rw [hphase]
      exact Phase.noConfusion
    · exact hw
  obtain ⟨hstreams, hwritten⟩ := perform_of_records hrun rfl rfl
  have hlaid₁ := hlaid.closed hclosed
  have hnew : ∀ f ∈ [("VERIFY.md", asBytes (verifyMdTemplate w₁.tool))],
      sectionOf f.1 = some .verifyMd := by
    intro f hf
    obtain rfl := List.mem_singleton.mp hf
    exact sectionOf_verifyMd
  have hshards : (entriesIn w₂.contents .shards).map (·.path) =
      w.index.streams.flatMap (·.shards) := by
    rw [hverify.entriesIn_ne hnew Section.noConfusion, hlaid₁.shards, hclosed.index_eq]
  have hlaid₂ : Laid { w₂ with phase := .finished } := by
    apply hlaid₁.append hverify.withPhase hnew
    · cases hp : w₁.phase <;> simp [Phase.section, Section.rank]
    · exact Nat.le_refl 6
    · rw [hshards, ← hclosed.index_eq, ← hindex]
  refine ⟨hlaid₂.inSections, hshards, hstreams, ?_, ?_⟩
  · change (entriesIn w₂.contents .verifyMd).map (·.path) = _
    rw [hverify.entriesIn_self hnew, hlaid₁.entriesIn_verifyMd hunfinished]
    rfl
  · change entriesIn w₂.contents .index = _
    rw [hverify.entriesIn_ne hnew Section.noConfusion, hclosed.entriesIn_index]
    obtain ⟨hopen, hcloses, hnone⟩ | ⟨hphase, hentries⟩ := hwritten
    · rw [hnone, if_pos hopen, if_pos hcloses, List.nil_append]
    · rw [hentries, if_neg hphase, List.append_nil]

/-- A bundle is in canonical order exactly when the records phase was closed by another operation
than `add_vault_entry`. -/
theorem canonical_order_iff (E : Externals) (K : Sink) (bundleId createdAt : String)
    (tool : ToolInfo) (threshold : UInt64) (calls : List Call) (level : ExportLevel)
    (tsFrom tsTo : Option String) (resources : List String) (u : Unit) (w w' : BundleWriter)
    (manifest : Manifest) (hash : String) (archive : ZipArchive)
    (hrun : Succeeds (perform E K calls)
      ((BundleWriter.new bundleId createdAt tool).withShardThreshold threshold) u w)
    (hfinish : Succeeds (finish E K level tsFrom tsTo resources) w (manifest, hash, archive) w') :
    (∃ index, CanonicalOrder E K calls index manifest.contents) ↔ closesRecords calls := by
  obtain ⟨hsections, hshards, hstreams, hverify, hindex⟩ := finish_layout hrun hfinish
  constructor
  · intro h
    obtain ⟨index, hcanonical⟩ := h
    by_contra hcloses
    rw [if_neg hcloses, hcanonical.listed] at hindex
    cases hindex
  · intro hcloses
    rw [if_pos hcloses] at hindex
    exact ⟨w.index, hsections, hshards, hindex, hstreams, hverify⟩

namespace Sample

def tool : ToolInfo := ⟨"sealr", "0.1.0"⟩

def writer : BundleWriter :=
  (BundleWriter.new "01BUNDLE" "2026-08-11T13:00:00.000Z" tool).withShardThreshold SHARD_SIZE_BYTES

/-- The manifest of a bundle without streams. -/
def manifestOf (contents : List ContentEntry) : Manifest where
  schemaVersion := BUNDLE_SCHEMA_VERSION
  bundleId := "01BUNDLE"
  createdAt := "2026-08-11T13:00:00.000Z"
  tool
  scope := ⟨.full, none, none, [], []⟩
  contents

def emptyIndex : ContentEntry := ⟨"records/index.json",
  "f46084e4b50c7dc743d9ae896fef973c8a774c7808b58d10d5edff0f97e2982b", 19⟩

def blobHash : String := "0d96a9278b4c0eccf6fbe1c2c289211a2c1706a84fd0f0c76e227d52e2369463"

def verifyMd : ContentEntry := ⟨"VERIFY.md",
  "2d66b0b23a2aee9f77aff3d1c4500a506cfeac674204b9887853901be65027a7", 983⟩

def vaultFirst : List Call := [.addVaultEntry "blob" (asBytes "sealed")]

def vaultLast : List Call := .addQtsToken "2026-08-11" (asBytes "sealed") :: vaultFirst

def recording : Externals.Recording where
  blake3 := [
    (asBytes (verifyMdTemplate tool), ofHex verifyMd.blake3),
    (asBytes "\x7b\n  \"streams\": []\n\x7d", ofHex emptyIndex.blake3),
    (asBytes "sealed", ofHex blobHash),
    (documentBytes (manifestOf [⟨"vault/blob", blobHash, 6⟩, verifyMd]).toJson,
      ofHex "cec882dafd724199e8b0696dc64b30640ed587a71034349ef5f61564783223af"),
    (documentBytes (manifestOf [emptyIndex, ⟨"anchors/qts/2026-08-11.der", blobHash, 6⟩,
        ⟨"vault/blob", blobHash, 6⟩, verifyMd]).toJson,
      ofHex "7ab47de83dfc5f91f2180b7d53df215669e465d8e761e66d261779184eb878d0")]

def externals : Externals := .recorded recording

def sink : Sink := .recorded recording

/-- The calls and the end of the writing. -/
def written (calls : List Call) : WriterM (Manifest × String × ZipArchive) := do
  perform externals sink calls
  finish externals sink .full none none []

end Sample

open Bundle.Sample in
/-- A vault entry is the first call: the bundle is finished without an index. -/
theorem vault_first_unindexed :
    ∃ w w' manifest hash archive, Succeeds (perform externals sink vaultFirst) writer () w ∧
      Succeeds (finish externals sink .full none none []) w (manifest, hash, archive) w' ∧
      ¬∃ index, CanonicalOrder externals sink vaultFirst index manifest.contents := by
  have hok : ((Sample.written vaultFirst).exec writer).1.toBool := by decide +kernel
  obtain ⟨⟨manifest, hash, archive⟩, w', hwritten⟩ := exists_succeeds hok
  obtain ⟨_, w, hrun, hfinish⟩ := succeeds_bind.mp hwritten
  refine ⟨w, w', manifest, hash, archive, hrun, hfinish, ?_⟩
  intro h
  obtain ⟨index, hcanonical⟩ := h
  obtain ⟨-, -, -, -, hindex⟩ := finish_layout hrun hfinish
  rw [hcanonical.listed] at hindex
  cases hindex

open Bundle.Sample in
theorem canonical_order_vault_last :
    ∃ w w' manifest hash archive, Succeeds (perform externals sink vaultLast) writer () w ∧
      Succeeds (finish externals sink .full none none []) w (manifest, hash, archive) w' ∧
      ∃ index, CanonicalOrder externals sink vaultLast index manifest.contents := by
  have hok : ((Sample.written vaultLast).exec writer).1.toBool := by decide +kernel
  obtain ⟨⟨manifest, hash, archive⟩, w', hwritten⟩ := exists_succeeds hok
  obtain ⟨_, w, hrun, hfinish⟩ := succeeds_bind.mp hwritten
  refine ⟨w, w', manifest, hash, archive, hrun, hfinish, ?_⟩
  exact (canonical_order_iff externals sink _ _ tool SHARD_SIZE_BYTES vaultLast .full none none []
    () w w' manifest hash archive hrun hfinish).mpr rfl

end Sealr.Bundle
