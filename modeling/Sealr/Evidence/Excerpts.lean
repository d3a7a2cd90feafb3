import Sealr.Lib.Runs
import Sealr.Evidence.Clean
import Sealr.Evidence.Determined
import Sealr.Evidence.Malformed
import Sealr.Evidence.Spool

/-!
# Excerpts of a stream

What can be made out of the records of a clean stream without a finding. A selection of its records
is clean only if it is a contiguous slice (`selection_clean_iff`), whatever is clean and ends in one
of its records is a slice (`excerpt_determined`), and a block of records that is replaced by other
ones is found out at these or at the first record behind them (`block_replaced`); all of this up to
a collision.
-/

namespace Sealr.Evidence

open Lib StreamVerifier

/-- A record of the stream and the one that follows it. -/
def Steps (E : Externals) (stream : String) (a b : Json) : Prop :=
  ∃ before after, Own E stream a before ∧ Own E stream b after ∧ Follows E before after

/-- The number of a raw record. -/
def numberOf (raw : Json) : Nat := ((seqOf raw).map UInt64.toNat).getD 0

/-- One record, up to member order and number spelling. -/
structure SameRecord (a b : Json) : Prop where
  number : numberOf a = numberOf b
  equiv : a.value.Equiv b.value

section

variable {E : Externals} {stream : String} {a b c d : Json} {view other : RecordView}
  {raws selected : List Json}

theorem Own.selfHashed (h : Own E stream a view) : SelfHashed E a :=
  selfHashed_of_view h.view_of h.hash

theorem Own.digest (h : Own E stream a view) : view.recordHash = blake3Hex E (inputOf a) := by
  have hself := h.selfHashed.digest
  rwa [recordHashOf, h.view_of.recordHash, Option.getD_some] at hself

theorem Own.numberOf (h : Own E stream a view) : numberOf a = view.seq.toNat := by
  rw [Evidence.numberOf, seqOf, h.view_of.seq, Option.map_some, Option.getD_some]

/-- Records with one hash are one record, or what is hashed for them collides. -/
theorem Own.same_or_collides (ha : Own E stream a view) (hb : Own E stream b other)
    (h : view.recordHash = other.recordHash) {S T : List Bytes} (hS : inputOf a ∈ S)
    (hT : inputOf b ∈ T) :
    SameRecord a b ∨ Collides E.blake3 S T := by
  rw [ha.digest, hb.digest, blake3Hex_inj] at h
  refine (eq_or_collides hS hT h).imp_left fun hinput => ?_
  obtain ⟨-, hseq, hequiv⟩ := inputOf_inj ha.selfHashed hb.selfHashed ha.view_of hb.view_of hinput
  refine ⟨?_, hequiv⟩
  rw [Evidence.numberOf, Evidence.numberOf, hseq]

theorem Steps.ascends (h : Steps E stream a b) : numberOf a < numberOf b := by
  obtain ⟨before, after, ha, hb, hfollows⟩ := h
  rw [ha.numberOf, hb.numberOf]
  exact UInt64.lt_iff_toNat_lt.mp hfollows.seq

/-- What leads to one record is one record, or collides. -/
theorem Steps.back (hac : Steps E stream a c) (hbd : Steps E stream b d)
    (hcd : c.value.Equiv d.value) {S T : List Bytes} (hS : inputOf a ∈ S) (hT : inputOf b ∈ T) :
    SameRecord a b ∨ Collides E.blake3 S T := by
  obtain ⟨va, vc, ha, hc, hfollows⟩ := hac
  obtain ⟨vb, vd, hb, hd, hfollows'⟩ := hbd
  refine ha.same_or_collides hb ?_ hS hT
  -- both are named by the link of the record behind them
  obtain ⟨x, hx, hxs⟩ := Option.bind_eq_some_iff.mp hc.view_of.prevHash
  obtain ⟨y, hy, hxy⟩ := hcd.get c.wf d.wf hx
  have hlink : (d.value.get "prev_hash").bind Value.asStr = some vd.prevHash := hd.view_of.prevHash
  rw [hy, Option.bind_some] at hlink
  rw [← hfollows.link, ← hfollows'.link]
  exact hxy.asStr_eq hxs hlink

/-! ## Clean sequences as runs -/

theorem CleanRun.own (h : CleanRun E stream raws) :
    ∀ raw ∈ raws, ∃ view, Own E stream raw view := by
  obtain ⟨-, -, views, hviews, -⟩ := clean_iff.mp h
  intro raw hraw
  obtain ⟨i, hi, rfl⟩ := List.getElem_of_mem hraw
  exact ⟨_, hviews.get hi (hviews.length_eq ▸ hi)⟩

/-- A clean sequence is a run of steps. -/
theorem CleanRun.steps (h : CleanRun E stream raws) : raws.IsChain (Steps E stream) := by
  obtain ⟨-, -, views, hviews, -, hchain⟩ := clean_iff.mp h
  have hlen := hviews.length_eq
  refine List.isChain_iff_getElem.mpr fun i hi => ?_
  have hviewed : ∀ k (hk : k < raws.length), Own E stream raws[k] views[k] := fun k hk =>
    hviews.get hk (hlen ▸ hk)
  exact ⟨_, _, hviewed i (by omega), hviewed (i + 1) hi, hchain.getElem i (by omega)⟩

theorem CleanRun.ascends (h : CleanRun E stream raws) :
    raws.IsChain fun a b => numberOf a < numberOf b :=
  h.steps.imp fun _ _ hstep => hstep.ascends

/-- **Nothing but contiguous slices can be taken out of a clean stream**: a list of its records, in
any order and with repetitions, is clean exactly when it is a slice, or two inputs collide. -/
theorem selection_clean_iff (h : CleanRun E stream raws) (hsel : ∀ r ∈ selected, r ∈ raws) :
    (CleanRun E stream selected ↔ selected <:+: raws) ∨
      Collides E.blake3 (raws.map inputOf) (raws.map inputOf) := by
  by_cases hcol : Collides E.blake3 (raws.map inputOf) (raws.map inputOf)
  · exact .inr hcol
  left
  constructor
  · intro hclean
    refine infix_of_steps h.steps ?_ ?_ hsel hclean.steps
    · intro a ha b hb c hc hac hbc
      have hsame := hac.back hbc (.refl _) (List.mem_map_of_mem ha) (List.mem_map_of_mem hb)
      exact eq_of_rise h.ascends ha hb (hsame.resolve_right hcol).number
    · intro a ha c hc hac
      have hlow := head_le_of_rise h.ascends ha hc
      have hlt := hac.ascends
      omega
  · intro hslice
    exact h.slice hslice

/-- Of two runs of steps that end in one record, the shorter one is the end of the longer one, or
two inputs collide. -/
theorem suffix_or_collides {xs ys : List Json} {x y : Json}
    (hxs : (xs ++ [x]).IsChain (Steps E stream)) (hys : (ys ++ [y]).IsChain (Steps E stream))
    (hend : SameRecord x y) (hlen : xs.length ≤ ys.length) :
    (∃ before after, ys = before ++ after ∧ List.Forall₂ SameRecord xs after) ∨
      Collides E.blake3 (xs.map inputOf) (ys.map inputOf) := by
  by_cases hcol : Collides E.blake3 (xs.map inputOf) (ys.map inputOf)
  · exact .inr hcol
  left
  refine suffix_of_steps hxs hys ?_ hend hlen
  intro a ha b hb c _ d _ hcd hac hbd
  have hsame := hac.back hbd hcd.equiv (List.mem_map_of_mem ha) (List.mem_map_of_mem hb)
  exact hsame.resolve_right hcol

/-- The number of a record in a run of steps is at least the count of those before it. -/
theorem length_le_numberOf {before after : List Json} {q : Json}
    (h : (before ++ q :: after).IsChain (Steps E stream)) : before.length ≤ numberOf q := by
  have hlen : before.length < (before ++ q :: after).length := by simp
  have hrise := rise_le (h.imp fun _ _ hstep => hstep.ascends) (Nat.zero_le before.length) hlen
  rw [List.getElem_append_right (Nat.le_refl _)] at hrise
  simp only [Nat.sub_self, List.getElem_cons_zero] at hrise
  omega

/-- **A clean excerpt is pinned by its last record**: whatever is clean and ends in the hash of a
record of a clean stream that is known from number zero on is a contiguous slice of the stream, up
to member order and number spelling, or two inputs collide. -/
theorem excerpt_determined {excerpt : List Json} (h : CleanRun E stream raws)
    (hzero : raws.head?.bind seqOf = some 0) (hclean : CleanRun E stream excerpt) {r : Json}
    (hr : r ∈ raws) (hlast : excerpt.getLast?.bind recordHashOf = recordHashOf r) :
    (∃ slice, slice <:+: raws ∧ List.Forall₂ (fun a b => a.value.Equiv b.value) excerpt slice) ∨
      Collides E.blake3 (excerpt.map inputOf) (raws.map inputOf) := by
  obtain ⟨view, hview⟩ := h.own r hr
  have hhash : recordHashOf r = some view.recordHash := hview.view_of.recordHash
  rcases excerpt.eq_nil_or_concat' with rfl | ⟨xs, x, rfl⟩
  · rw [hhash] at hlast
    cases hlast
  obtain ⟨other, hother⟩ := hclean.own x (by simp)
  have hsame : other.recordHash = view.recordHash := by
    rw [List.getLast?_concat, Option.bind_some, hhash] at hlast
    exact Option.some.inj (hother.view_of.recordHash.symm.trans hlast)
  obtain ⟨before, after, rfl⟩ := List.append_of_mem hr
  have hchain : (before ++ [r]).IsChain (Steps E stream) := by
    have hpre : before ++ [r] <+: before ++ r :: after := ⟨after, by simp⟩
    exact h.steps.prefix hpre
  rcases Nat.lt_or_ge before.length xs.length with hlt | hle
  · right
    -- the excerpt would go on before number zero
    rcases hview.same_or_collides hother hsame.symm (S := (before ++ r :: after).map inputOf)
      (T := (xs ++ [x]).map inputOf) (by simp) (by simp) with hend | hcol
    · rcases suffix_or_collides hchain hclean.steps hend hlt.le with ⟨init, rest, rfl, hall⟩ | hcol
      · exfalso
        have hends : List.Forall₂ SameRecord (before ++ [r]) (rest ++ [x]) :=
          List.rel_append hall (.cons hend .nil)
        obtain ⟨p, ps, hp⟩ : ∃ p ps, before ++ [r] = p :: ps :=
          List.exists_cons_of_ne_nil (by simp)
        obtain ⟨q, qs, hpq, -, hq⟩ := List.forall₂_cons_left_iff.mp (hp ▸ hends)
        have hfirst : numberOf p = 0 := by
          have hhead : (before ++ r :: after).head? = some p := by
            have heq : before ++ r :: after = p :: (ps ++ after) := by
              rw [← List.cons_append, ← hp, List.append_assoc, List.singleton_append]
            rw [heq, List.head?_cons]
          rw [hhead, Option.bind_some] at hzero
          rw [numberOf, hzero]
          rfl
        have hsteps := hclean.steps
        rw [List.append_assoc, hq] at hsteps
        have hcount := length_le_numberOf hsteps
        have hlen := hall.length_eq
        rw [← hpq.number, hfirst] at hcount
        rw [List.length_append] at hlt
        omega
      · exact hcol.symm.mono (by simp) (by simp)
    · exact hcol.symm
  · rcases hother.same_or_collides hview hsame (S := (xs ++ [x]).map inputOf)
      (T := (before ++ r :: after).map inputOf) (by simp) (by simp) with hend | hcol
    · rcases suffix_or_collides hclean.steps hchain hend hle with ⟨init, slice, rfl, hall⟩ | hcol
      · left
        refine ⟨slice ++ [r], ⟨init, after, by simp⟩, ?_⟩
        exact List.rel_append (hall.imp fun _ _ hsame => hsame.equiv) (.cons hend.equiv .nil)
      · exact .inr (hcol.mono (by simp) (by simp))
    · exact .inr hcol

/-! ## A block that is replaced -/

/-- Over `A ++ X ++ b :: B` the verifier has findings at the block `X` and at `b` behind it, and
nowhere else. -/
def FindingsAt (E : Externals) (stream : String) (A X : List Json) (b : Json) (B : List Json)
    (block follower : List ChainFinding) : Prop :=
  ∃ sv₀ before behind next last, StreamVerifier.new E stream = .ok sv₀ ∧
    feed E sv₀ A = .ok ([], before) ∧ feed E before X = .ok (block, behind) ∧
    verifyNext E behind b = .ok (follower, next) ∧ feed E next B = .ok ([], last)

theorem feed_append {sv last : StreamVerifier} {xs ys : List Json} {fs : List ChainFinding} :
    feed E sv (xs ++ ys) = .ok (fs, last) ↔ ∃ found rest mid, feed E sv xs = .ok (found, mid) ∧
      feed E mid ys = .ok (rest, last) ∧ fs = found ++ rest := by
  induction ys using List.reverseRecOn generalizing fs last with
  | nil =>
    rw [List.append_nil]
    constructor
    · intro h
      exact ⟨fs, [], last, h, rfl, by simp⟩
    · rintro ⟨found, rest, mid, h, hnil, rfl⟩
      obtain ⟨rfl, rfl⟩ := Prod.mk.inj (Except.ok.inj hnil)
      rwa [List.append_nil]
  | append_singleton ys y ih =>
    rw [← List.append_assoc, feed_concat]
    constructor
    · rintro ⟨found, rest, mid, h, hy, rfl⟩
      obtain ⟨first, second, start, hx, hrest, rfl⟩ := ih.mp h
      exact ⟨first, _, start, hx, feed_concat.mpr ⟨_, _, _, hrest, hy, rfl⟩, by simp⟩
    · rintro ⟨first, rest, start, hx, hrest, rfl⟩
      obtain ⟨second, third, mid, hys, hy, rfl⟩ := feed_concat.mp hrest
      exact ⟨_, _, _, ih.mpr ⟨_, _, _, hx, hys, rfl⟩, hy, by simp⟩

/-- A record that some state accepts, every state accepts. -/
theorem verifyNext_of_accepts {sv : StreamVerifier} (h : accepts E sv a = true)
    (sv' : StreamVerifier) : ∃ view computed, view.Of a ∧ computeHashOfValue E a = .ok computed ∧
      verifyNext E sv' a = .ok (streamFindings sv' view ++ hashFindings view computed ++
        placeFindings E sv' view, advance E sv' view) := by
  obtain ⟨_, _, hnext⟩ := accepts_eq_true.mp h
  obtain ⟨view, computed, hview, hcomp, -, -⟩ := verifyNext_eq_ok.mp hnext
  exact ⟨view, computed, hview, hcomp, verifyNext_eq_ok.mpr ⟨_, _, hview, hcomp, rfl, rfl⟩⟩

/-- The stream that is verified stays the same. -/
theorem feed_ids {sv last : StreamVerifier} {xs : List Json} {fs : List ChainFinding}
    (h : feed E sv xs = .ok (fs, last)) :
    last.streamId = sv.streamId ∧ last.genesis = sv.genesis := by
  induction xs generalizing sv fs with
  | nil =>
    obtain ⟨-, rfl⟩ := Prod.mk.inj (Except.ok.inj h)
    exact ⟨rfl, rfl⟩
  | cons x xs ih =>
    obtain ⟨_, _, mid, hnext, hrest, -⟩ := feed_cons.mp h
    obtain ⟨_, _, -, -, -, rfl⟩ := verifyNext_eq_ok.mp hnext
    obtain ⟨hid, hgen⟩ := ih hrest
    exact ⟨hid, hgen⟩

/-- Records that are accepted one by one are accepted in a row. -/
theorem feed_accepted_all {sv : StreamVerifier} {xs : List Json}
    (h : ∀ x ∈ xs, ∃ sv, accepts E sv x = true) : ∃ fs last, feed E sv xs = .ok (fs, last) := by
  induction xs generalizing sv with
  | nil => exact ⟨[], sv, rfl⟩
  | cons x xs ih =>
    obtain ⟨s, hs⟩ := h x List.mem_cons_self
    obtain ⟨view, computed, -, -, hnext⟩ := verifyNext_of_accepts hs sv
    obtain ⟨fs, last, hfeed⟩ :=
      @ih (advance E sv view) fun y hy => h y (List.mem_cons_of_mem x hy)
    exact ⟨_, last, feed_cons.mpr ⟨_, _, _, hnext, hfeed, rfl⟩⟩

theorem Own.accepted (h : Own E stream a view) (sv : StreamVerifier) : accepts E sv a = true :=
  accepts_eq_true.mpr ⟨_, _, verifyNext_eq_ok.mpr ⟨_, _, h.view_of, h.hash, rfl, rfl⟩⟩

theorem asStr_of_equiv {v w : Json} (h : v.value.Equiv w.value) {k s t : String}
    (hs : (v.value.get k).bind Value.asStr = some s)
    (ht : (w.value.get k).bind Value.asStr = some t) : s = t := by
  obtain ⟨x, hx, hxs⟩ := Option.bind_eq_some_iff.mp hs
  obtain ⟨y, hy, hxy⟩ := h.get v.wf w.wf hx
  rw [hy, Option.bind_some] at ht
  exact hxy.asStr_eq hxs ht

theorem asU64_of_equiv {v w : Json} (h : v.value.Equiv w.value) {k : String} {m n : UInt64}
    (hm : (v.value.get k).bind Value.asU64 = some m)
    (hn : (w.value.get k).bind Value.asU64 = some n) : m = n := by
  obtain ⟨x, hx, hxm⟩ := Option.bind_eq_some_iff.mp hm
  obtain ⟨y, hy, hxy⟩ := h.get v.wf w.wf hx
  rw [hy, Option.bind_some] at hn
  exact hxy.asU64_eq hxm hn

/-- A record in another spelling has one view. -/
theorem RecordView.Of.eq_of_equiv (ha : view.Of a) (hb : other.Of b)
    (h : a.value.Equiv b.value) : view = other := by
  cases view
  cases other
  rw [RecordView.mk.injEq]
  exact ⟨asStr_of_equiv h ha.recordId hb.recordId, asStr_of_equiv h ha.streamId hb.streamId,
    asStr_of_equiv h ha.segmentId hb.segmentId, asU64_of_equiv h ha.seq hb.seq,
    asStr_of_equiv h ha.tsWall hb.tsWall, asU64_of_equiv h ha.tsMonoNs hb.tsMonoNs,
    asStr_of_equiv h ha.recordType hb.recordType, asStr_of_equiv h ha.prevHash hb.prevHash,
    asStr_of_equiv h ha.recordHash hb.recordHash⟩

/-- A record in another spelling is the stream's own when it can be hashed. -/
theorem Own.of_equiv {sv : StreamVerifier} (hb : Own E stream b view)
    (ha : accepts E sv a = true) (h : a.value.Equiv b.value) : Own E stream a view := by
  obtain ⟨other, computed, hother, hcomp, -⟩ := verifyNext_of_accepts ha sv
  obtain rfl := hother.eq_of_equiv hb.view_of h
  obtain ⟨x, hx, -⟩ := computeHashOfValue_eq_ok.mp hcomp
  obtain ⟨y, hy, hhash⟩ := computeHashOfValue_eq_ok.mp hb.hash
  have hcanon : ∀ {v : Json} {bytes : Bytes} {s : String}, hashInput v = .ok bytes →
      v.value.get "record_hash" = some (.string s) → ∃ c, Rfc8785.canon v.value = some c :=
    fun h hs => Rfc8785.exists_canon_iff.mpr ((exists_hashInput_iff hs).mp ⟨_, h⟩)
  obtain ⟨c, hc⟩ := hcanon hx hother.get_recordHash
  obtain ⟨d, hd⟩ := hcanon hy hb.view_of.get_recordHash
  obtain rfl := (Rfc8785.canon_eq_iff a.wf b.wf hc hd).mpr h
  have hsame := hashInput_eq_of_canon hc hd hother.get_recordHash hb.view_of.get_recordHash
  exact ⟨hother, hb.streamId, computeHashOfValue_eq_ok.mpr ⟨y, hsame.trans hy, hhash⟩⟩

/-- Records in other spellings leave a clean sequence clean. -/
theorem CleanRun.of_equiv {xs ys : List Json} (h : CleanRun E stream ys)
    (hacc : ∀ x ∈ xs, ∃ sv, accepts E sv x = true)
    (hall : List.Forall₂ (fun a b => a.value.Equiv b.value) xs ys) : CleanRun E stream xs := by
  obtain ⟨ulid, hulid, views, hviews, hordered⟩ := clean_iff.mp h
  refine clean_iff.mpr ⟨ulid, hulid, views, ?_, hordered⟩
  clear h hordered
  induction hall generalizing views with
  | nil => exact hviews
  | cons hxy _ ih =>
    obtain ⟨view, rest, hown, hrest, rfl⟩ := List.forall₂_cons_left_iff.mp hviews
    obtain ⟨sv, hsv⟩ := hacc _ List.mem_cons_self
    exact .cons (hown.of_equiv hsv hxy)
      (ih (fun x hx => hacc x (List.mem_cons_of_mem _ hx)) rest hrest)

/-- Behind a record whose clock can be read, the state is that of this record, whatever came before
it. -/
theorem After.of_advance {genesis : String} {sv : StreamVerifier} (hid : sv.streamId = stream)
    (hgen : sv.genesis = genesis) {ms : Int} (hms : view.wallMs E = some ms) :
    After E stream genesis (some view) (StreamVerifier.advance E sv view) := by
  refine ⟨hid, hgen, rfl, ?_⟩
  rw [Option.bind_some, hms]
  unfold RecordView.wallMs at hms
  unfold StreamVerifier.advance
  cases hwall : parseWall E view.tsWall with
  | error e => simp [hwall] at hms
  | ok wall => simpa [hwall] using hms

/-- What follows a record in a clean sequence is clean behind it, whatever came before it. -/
theorem CleanRun.feed_tail {before after : List Json} {p : Json} {sv : StreamVerifier}
    (h : CleanRun E stream (before ++ p :: a :: after)) {genesis : String}
    (hid : sv.streamId = stream) (hgen : sv.genesis = genesis) (hview : view.Of a) :
    ∃ last, feed E (advance E sv view) after = .ok ([], last) := by
  obtain ⟨ulid, -, views, hviews, -, hchain⟩ := clean_iff.mp h
  obtain ⟨init, tail, -, htail, rfl⟩ := forall₂_append_left hviews
  obtain ⟨vp, behind, -, hbehind, rfl⟩ := List.forall₂_cons_left_iff.mp htail
  obtain ⟨va, rest, ha, hrest, rfl⟩ := List.forall₂_cons_left_iff.mp hbehind
  obtain rfl := hview.unique ha.view_of
  obtain ⟨-, hfollows, hlater⟩ := List.isChain_append_cons_cons.mp hchain
  obtain ⟨ms, hms, -⟩ := hfollows.wall
  refine (feed_clean (After.of_advance hid hgen hms)).mpr ⟨rest, hrest, ?_⟩
  exact List.isChain_cons.mp hlater

/-- Two runs of steps between the same two records pass through the same records, or two inputs
collide. -/
theorem between_same {p : Json} {xs ys : List Json}
    (hxs : (p :: xs ++ [b]).IsChain (Steps E stream))
    (hys : (p :: ys ++ [b]).IsChain (Steps E stream)) :
    List.Forall₂ (fun a b => a.value.Equiv b.value) xs ys ∨
      Collides E.blake3 ((p :: xs).map inputOf) ((p :: ys).map inputOf) := by
  have hend : SameRecord b b := ⟨rfl, .refl _⟩
  have hcut : ∀ {xs ys : List Json}, (p :: xs ++ [b]).IsChain (Steps E stream) →
      (p :: ys ++ [b]).IsChain (Steps E stream) → (p :: xs).length ≤ (p :: ys).length →
      List.Forall₂ SameRecord xs ys ∨
        Collides E.blake3 ((p :: xs).map inputOf) ((p :: ys).map inputOf) := by
    intro xs ys hxs hys hle
    refine (suffix_or_collides hxs hys hend hle).imp_left ?_
    rintro ⟨before, after, heq, hall⟩
    obtain ⟨q, qs, hpq, hrest, rfl⟩ := List.forall₂_cons_left_iff.mp hall
    cases before with
    | nil =>
      obtain ⟨-, rfl⟩ := List.cons.inj heq
      exact hrest
    | cons p' before =>
      -- the first record would stand behind itself
      rw [List.cons_append] at heq
      obtain ⟨rfl, rfl⟩ := List.cons.inj heq
      have hlen : before.length + 1 < (p :: (before ++ q :: qs) ++ [b]).length := by
        simp only [List.length_append, List.length_cons]
        omega
      have hrise := rise_le (hys.imp fun _ _ hstep => hstep.ascends) (Nat.zero_le _) hlen
      have hq : (p :: (before ++ q :: qs) ++ [b])[before.length + 1] = q := by simp
      have hp : (p :: (before ++ q :: qs) ++ [b])[0] = p := rfl
      rw [hq, hp, hpq.number] at hrise
      omega
  rcases Nat.le_total (p :: xs).length (p :: ys).length with hle | hle
  · exact (hcut hxs hys hle).imp_left fun hall => hall.imp fun _ _ hsame => hsame.equiv
  · rcases hcut hys hxs hle with hall | hcol
    · have hback : (p :: xs).length ≤ (p :: ys).length := by
        rw [List.length_cons, List.length_cons, hall.length_eq]
      exact (hcut hxs hys hback).imp_left fun hall => hall.imp fun _ _ hsame => hsame.equiv
    · exact .inr hcol.symm

/-- **A replaced block is found out, and only it is blamed**: of a clean stream, the records between
an earlier one and a later one are replaced by any others (deleted, inserted, reordered or
rewritten). Either one of these is refused wherever it stands, or the verifier has findings about
these and the first record behind them alone, and it has some unless these are the same records in
other spellings or two inputs collide. -/
theorem block_replaced {A Y B : List Json} (hA : A ≠ [])
    (h : CleanRun E stream (A ++ Y ++ b :: B)) (X : List Json) :
    (∃ x ∈ X, ∀ sv, accepts E sv x = false) ∨
      ∃ block follower, FindingsAt E stream A X b B block follower ∧
        ((block = [] ∧ follower = [] ↔ List.Forall₂ (fun a b => a.value.Equiv b.value) X Y) ∨
          Collides E.blake3 ((A ++ X).map inputOf) ((A ++ Y).map inputOf)) := by
  by_cases hacc : ∀ x ∈ X, ∃ sv, accepts E sv x = true
  swap
  · left
    simp only [not_forall, not_exists, Bool.not_eq_true] at hacc
    obtain ⟨x, hx, hno⟩ := hacc
    exact ⟨x, hx, hno⟩
  right
  have hinit : CleanRun E stream (A ++ Y ++ [b]) := h.slice ⟨[], B, by simp⟩
  obtain ⟨sv₀, before, hnew, hfeedA⟩ : CleanRun E stream A := h.slice ⟨[], Y ++ b :: B, by simp⟩
  obtain ⟨block, behind, hfeedX⟩ : ∃ fs last, feed E before X = .ok (fs, last) :=
    feed_accepted_all hacc
  obtain ⟨other, hown⟩ := hinit.own b (by simp)
  obtain ⟨view, _, hview, -, hnext⟩ := verifyNext_of_accepts (hown.accepted sv₀) behind
  obtain rfl := hview.unique hown.view_of
  have hid : behind.streamId = stream := by
    obtain ⟨_, -, rfl⟩ := new_eq_ok.mp hnew
    rw [(feed_ids hfeedX).1, (feed_ids hfeedA).1]
  obtain ⟨init, p, hp⟩ := (A ++ Y).eq_nil_or_concat'.resolve_left (by simp [hA])
  obtain ⟨last, hfeedB⟩ : ∃ last, feed E (advance E behind view) B = .ok ([], last) := by
    rw [hp, List.append_assoc, List.singleton_append] at h
    exact h.feed_tail hid rfl hview
  refine ⟨block, _, ⟨sv₀, before, behind, _, last, hnew, hfeedA, hfeedX, hnext, hfeedB⟩, ?_⟩
  by_cases hcol : Collides E.blake3 ((A ++ X).map inputOf) ((A ++ Y).map inputOf)
  · exact .inr hcol
  left
  constructor
  · rintro ⟨rfl, hnil⟩
    rw [hnil] at hnext
    have hclean : CleanRun E stream (A ++ X ++ [b]) := by
      have hfeed : feed E sv₀ (A ++ X) = .ok ([], behind) :=
        feed_append.mpr ⟨[], [], before, hfeedA, hfeedX, rfl⟩
      exact ⟨sv₀, _, hnew, feed_concat.mpr ⟨[], [], behind, hfeed, hnext, rfl⟩⟩
    obtain ⟨first, rest, rfl⟩ := List.exists_cons_of_ne_nil hA
    have hsame := (between_same hclean.steps hinit.steps).resolve_right hcol
    simpa using List.forall₂_drop rest.length hsame
  · intro hall
    have haccept : ∀ x ∈ A ++ X ++ [b], ∃ sv, accepts E sv x = true := by
      intro x hx
      simp only [List.mem_append, List.mem_singleton] at hx
      rcases hx with (hx | hx) | rfl
      · obtain ⟨_, hown⟩ := hinit.own x (by simp [hx])
        exact ⟨sv₀, hown.accepted sv₀⟩
      · exact hacc x hx
      · exact ⟨sv₀, hown.accepted sv₀⟩
    have hsame : ∀ zs : List Json, List.Forall₂ (fun a b => a.value.Equiv b.value) zs zs :=
      fun zs => List.forall₂_same.mpr fun z _ => .refl _
    obtain ⟨_, _, hnew', hfeed⟩ := hinit.of_equiv haccept
      (List.rel_append (List.rel_append (hsame A) hall) (hsame [b]))
    obtain rfl := Except.ok.inj (hnew.symm.trans hnew')
    obtain ⟨found, rest, mid, hmid, hb, hnil⟩ := feed_concat.mp hfeed
    obtain ⟨rfl, rfl⟩ := List.append_eq_nil_iff.mp hnil.symm
    obtain ⟨found, rest, start, hstart, hx, hnil⟩ := feed_append.mp hmid
    obtain ⟨rfl, rfl⟩ := List.append_eq_nil_iff.mp hnil.symm
    obtain ⟨-, rfl⟩ := Prod.mk.inj (Except.ok.inj (hfeedA.symm.trans hstart))
    obtain ⟨hblock, rfl⟩ := Prod.mk.inj (Except.ok.inj (hfeedX.symm.trans hx))
    exact ⟨hblock, (Prod.mk.inj (Except.ok.inj (hnext.symm.trans hb))).1⟩

end

/-! Two records of a stream in the other order, the last one alone, and a record put between them.
-/

theorem selection_clean_iff_swapped :
    (CleanRun Sample.externals "000000002D000000000000002D"
        [Sample.updated.toJson, Sample.opened.toJson] ↔
      [Sample.updated.toJson, Sample.opened.toJson] <:+:
        [Sample.opened.toJson, Sample.updated.toJson]) ∨
      Collides Sample.externals.blake3 ([Sample.opened.toJson, Sample.updated.toJson].map inputOf)
        ([Sample.opened.toJson, Sample.updated.toJson].map inputOf) := by
  refine selection_clean_iff Sample.clean_recorded fun r hr => ?_
  simp only [List.mem_cons, List.not_mem_nil, or_false] at hr ⊢
  exact hr.symm

theorem excerpt_determined_last :
    (∃ slice, slice <:+: [Sample.opened.toJson, Sample.updated.toJson] ∧
      List.Forall₂ (fun a b => a.value.Equiv b.value) [Sample.updated.toJson] slice) ∨
      Collides Sample.externals.blake3 ([Sample.updated.toJson].map inputOf)
        ([Sample.opened.toJson, Sample.updated.toJson].map inputOf) := by
  have hlast : CleanRun Sample.externals "000000002D000000000000002D" [Sample.updated.toJson] :=
    Sample.clean_recorded.slice ⟨[Sample.opened.toJson], [], rfl⟩
  exact excerpt_determined Sample.clean_recorded (by decide) hlast
    (List.mem_cons_of_mem _ List.mem_cons_self) rfl

theorem block_replaced_inserted :
    (∃ x ∈ [Sample.opened.toJson], ∀ sv, accepts Sample.externals sv x = false) ∨
      ∃ block follower, FindingsAt Sample.externals "000000002D000000000000002D"
          [Sample.opened.toJson] [Sample.opened.toJson] Sample.updated.toJson [] block follower ∧
        ((block = [] ∧ follower = [] ↔
            List.Forall₂ (fun a b : Json => a.value.Equiv b.value) [Sample.opened.toJson] []) ∨
          Collides Sample.externals.blake3
            (([Sample.opened.toJson] ++ [Sample.opened.toJson]).map inputOf)
            (([Sample.opened.toJson] ++ []).map inputOf)) :=
  block_replaced (List.cons_ne_nil _ _) Sample.clean_recorded [Sample.opened.toJson]

end Sealr.Evidence
