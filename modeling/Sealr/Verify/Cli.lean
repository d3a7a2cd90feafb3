import Sealr.Verify.Extent
import Sealr.Verify.Hashed
import Sealr.Verify.Render
import Sealr.Verify.Slices

/-!
# The command line

`main`, from parsed arguments to the exit status. Files are read, the bundle is opened and the pins
are collected, in this order; a run that gets that far reports (`prepare_eq_ok`). What is printed
and the exit status then say the same (`main_prints`), and a run that is not a failure reached the
last pin of every stream in scope (`exit_pins`).
-/

namespace Sealr.Verify

open Lib Evidence Bundle

/-- The parsed arguments; paths are texts. -/
structure Args where
  bundle : String
  root : Option String
  consoleKey : Option String
  expectHighWater : List String
  json : Bool

/-- What the process finds: files, and the clock. -/
structure Host where
  readToString : String → Except String String
  /-- `File::open`, and the archive that the zip library finds in the file -/
  openFile : String → Except String (Except String ZipArchive)
  now : Int

structure Outcome where
  code : UInt8
  stdout : String
  stderr : String

def usageError (msg : String) : Outcome := ⟨30, "", "sealr-verify: " ++ msg ++ "\n"⟩

/-- `read_opt_file`. -/
def readOptFile (H : Host) (path : Option String) (what : String) :
    Except String (Option String) :=
  match path with
  | none => .ok none
  | some p => ((H.readToString p).map some).mapError fun e =>
      "cannot read " ++ what ++ " " ++ p ++ ": " ++ e

/-- `BundleReader::open`. -/
def openReader (S : Serde) (archive : Except String ZipArchive) : BResult BundleReader := do
  BundleReader.fromZip S (← archive.mapError .zip)

/-! ## Pins -/

/-- `char::is_whitespace`, the property White_Space. -/
def isWhitespace (c : Char) : Bool :=
  let n := c.toNat
  (9 ≤ n && n ≤ 13) || n == 0x20 || n == 0x85 || n == 0xa0 || n == 0x1680 ||
    (0x2000 ≤ n && n ≤ 0x200a) || n == 0x2028 || n == 0x2029 || n == 0x202f || n == 0x205f ||
    n == 0x3000

/-- One `--expect-high-water`: a stream and its last number. -/
def parseSpec (E : Externals) (spec : String) : Except String (String × UInt64) :=
  match Text.splitOnce '=' (chars spec) with
  | none => .error ("--expect-high-water expects STREAM_ID=SEQ, got " ++ E.debugStr spec)
  | some (stream, seq) =>
    match Text.parseU64 (Text.trim isWhitespace seq) with
    | none => .error ("--expect-high-water: " ++ E.debugStr (String.ofList seq) ++
        " is not a sequence number")
    | some n => .ok (String.ofList (Text.trim isWhitespace stream), n)

/-- The loop over the pins: a later one replaces an earlier one. -/
def collectPins (E : Externals) (pins : String → Option UInt64) :
    List String → Except String (String → Option UInt64)
  | [] => .ok pins
  | spec :: specs => do
    let (stream, seq) ← parseSpec E spec
    collectPins E (Function.update pins stream (some seq)) specs

/-- A text that pins a stream: blanks around the id and around the number count for nothing, and the
id ends before the first equals sign. -/
def PinText (spec streamId : String) (hw : UInt64) : Prop :=
  ∃ left right, spec.toList = left ++ '=' :: right ∧ '=' ∉ left ∧
    Text.trim isWhitespace left = streamId.toList ∧
    Text.parseU64 (Text.trim isWhitespace right) = some hw

/-- Every text pins a stream. -/
def AllPins (specs : List String) : Prop := ∀ spec ∈ specs, ∃ streamId hw, PinText spec streamId hw

/-- None of the texts pins the stream. -/
def Unpinned (specs : List String) (streamId : String) : Prop :=
  ∀ spec ∈ specs, ∀ hw, ¬PinText spec streamId hw

/-- The last of the texts that pin the stream. -/
def LastPin (specs : List String) (streamId : String) (hw : UInt64) : Prop :=
  ∃ before spec after, specs = before ++ spec :: after ∧ PinText spec streamId hw ∧
    Unpinned after streamId

section Pins

variable {E : Externals} {spec streamId : String} {specs : List String} {hw : UInt64}
  {pins pins' : String → Option UInt64}

theorem parseSpec_eq_ok : parseSpec E spec = .ok (streamId, hw) ↔ PinText spec streamId hw := by
  unfold parseSpec PinText
  rw [chars_eq]
  cases hsplit : Text.splitOnce '=' spec.toList with
  | none =>
    simp only [reduceCtorEq, false_iff]
    rintro ⟨left, right, hspec, hleft, -⟩
    rw [Text.splitOnce_eq_some.mpr ⟨hspec, hleft⟩] at hsplit
    cases hsplit
  | some p =>
    obtain ⟨stream, seq⟩ := p
    have hunique : ∀ left right, spec.toList = left ++ '=' :: right → '=' ∉ left →
        left = stream ∧ right = seq := by
      intro left right hspec hleft
      rw [Text.splitOnce_eq_some.mpr ⟨hspec, hleft⟩] at hsplit
      exact Prod.mk.inj (Option.some.inj hsplit)
    obtain ⟨hspec, hstream⟩ := Text.splitOnce_eq_some.mp hsplit
    constructor
    · intro h
      cases hnum : Text.parseU64 (Text.trim isWhitespace seq) with
      | none => simp [hnum] at h
      | some n =>
        simp only [hnum, Except.ok.injEq, Prod.mk.injEq] at h
        refine ⟨stream, seq, hspec, hstream, ?_, by rw [hnum, h.2]⟩
        rw [← h.1, String.toList_ofList]
    · rintro ⟨left, right, hspec', hleft, htrim, hnum⟩
      obtain ⟨rfl, rfl⟩ := hunique left right hspec' hleft
      simp only [hnum, htrim, String.ofList_toList]

theorem PinText.unique {streamId' : String} {hw' : UInt64} (h : PinText spec streamId hw)
    (h' : PinText spec streamId' hw') : streamId = streamId' ∧ hw = hw' := by
  obtain ⟨left, right, hspec, hleft, hid, hnum⟩ := h
  obtain ⟨left', right', hspec', hleft', hid', hnum'⟩ := h'
  have hsplit := Text.splitOnce_eq_some.mpr ⟨hspec, hleft⟩
  rw [Text.splitOnce_eq_some.mpr ⟨hspec', hleft'⟩] at hsplit
  obtain ⟨rfl, rfl⟩ := Prod.mk.inj (Option.some.inj hsplit)
  exact ⟨String.toList_inj.mp (hid.symm.trans hid'), Option.some.inj (hnum.symm.trans hnum')⟩

/-- An id and a number in decimal, as the Console gives them. -/
theorem pinText_print (hid : '=' ∉ streamId.toList)
    (htrimmed : Text.Trimmed isWhitespace streamId.toList) :
    PinText (streamId ++ "=" ++ toString hw.toNat) streamId hw := by
  have hdigits : ∀ c ∈ Nat.toDigits 10 hw.toNat, isWhitespace c = false := by
    intro c hc
    have hd := Char.isDigit_iff_toNat.mp (Nat.isDigit_of_mem_toDigits (by decide) (by decide) hc)
    have h0 : '0'.toNat = 48 := rfl
    have h9 : '9'.toNat = 57 := rfl
    simp only [isWhitespace, Bool.or_eq_false_iff, Bool.and_eq_false_iff, decide_eq_false_iff_not,
      beq_eq_false_iff_ne]
    omega
  refine ⟨streamId.toList, Nat.toDigits 10 hw.toNat, ?_, hid, htrimmed.trim_eq, ?_⟩
  · have hnum : (toString hw.toNat).toList = Nat.toDigits 10 hw.toNat := Nat.toList_repr
    rw [String.toList_append, String.toList_append, List.append_assoc, hnum]
    rfl
  · rw [(Text.trimmed_of_forall hdigits).trim_eq, Text.parseU64_toDigits]

theorem allPins_cons : AllPins (spec :: specs) ↔
    (∃ streamId hw, PinText spec streamId hw) ∧ AllPins specs := List.forall_mem_cons

theorem unpinned_cons : Unpinned (spec :: specs) streamId ↔
    (∀ hw, ¬PinText spec streamId hw) ∧ Unpinned specs streamId := List.forall_mem_cons

theorem lastPin_cons : LastPin (spec :: specs) streamId hw ↔
    LastPin specs streamId hw ∨ PinText spec streamId hw ∧ Unpinned specs streamId := by
  constructor
  · rintro ⟨before, spec', after, heq, hpin, hafter⟩
    cases before with
    | nil =>
      obtain ⟨rfl, rfl⟩ := List.cons.inj heq
      exact .inr ⟨hpin, hafter⟩
    | cons first before =>
      obtain ⟨-, rfl⟩ := List.cons.inj heq
      exact .inl ⟨before, spec', after, rfl, hpin, hafter⟩
  · rintro (⟨before, spec', after, rfl, hpin, hafter⟩ | ⟨hpin, hafter⟩)
    · exact ⟨spec :: before, spec', after, rfl, hpin, hafter⟩
    · exact ⟨[], spec, specs, rfl, hpin, hafter⟩

theorem collectPins_cons : collectPins E pins (spec :: specs) = .ok pins' ↔
    ∃ streamId hw, PinText spec streamId hw ∧
      collectPins E (Function.update pins streamId (some hw)) specs = .ok pins' := by
  rw [collectPins, bind_eq_ok]
  simp only [Prod.exists, parseSpec_eq_ok]

/-- One turn of the loop: the pins after it and the texts that are left say what the pins before it
and all texts say. -/
theorem update_eq_some_iff {id : String} {n : UInt64} (h : PinText spec id n) :
    (LastPin specs streamId hw ∨
        Unpinned specs streamId ∧ Function.update pins id (some n) streamId = some hw) ↔
      LastPin (spec :: specs) streamId hw ∨
        Unpinned (spec :: specs) streamId ∧ pins streamId = some hw := by
  have hupdate : Function.update pins id (some n) streamId = some hw ↔
      PinText spec streamId hw ∨ (∀ hw, ¬PinText spec streamId hw) ∧ pins streamId = some hw := by
    by_cases hid : streamId = id
    · subst hid
      rw [Function.update_self, Option.some.injEq]
      constructor
      · rintro rfl
        exact .inl h
      · rintro (hpin | ⟨hnone, -⟩)
        · exact (h.unique hpin).2
        · exact absurd h (hnone n)
    · have hnone : ∀ hw, ¬PinText spec streamId hw := fun hw hpin => hid (hpin.unique h).1
      rw [Function.update_of_ne hid]
      simp [hnone]
  rw [hupdate, lastPin_cons, unpinned_cons]
  tauto

/-- What is collected for a stream is its last pin, or what was there before. -/
theorem collectPins_eq_ok : collectPins E pins specs = .ok pins' ↔
    AllPins specs ∧ ∀ streamId hw, pins' streamId = some hw ↔
        LastPin specs streamId hw ∨ Unpinned specs streamId ∧ pins streamId = some hw := by
  induction specs generalizing pins with
  | nil =>
    have hnone : ∀ streamId hw, ¬LastPin [] streamId hw := by
      rintro streamId hw ⟨before, spec, after, heq, -⟩
      simp at heq
    simp only [AllPins, collectPins, Except.ok.injEq, List.not_mem_nil, false_implies, implies_true,
      true_and, hnone, false_or, Unpinned]
    constructor
    · rintro rfl streamId hw
      rfl
    · intro h
      funext streamId
      exact Option.ext fun hw => (h streamId hw).symm
  | cons spec specs ih =>
    rw [collectPins_cons, allPins_cons]
    constructor
    · rintro ⟨id, n, hpin, hrest⟩
      obtain ⟨hnamed, hpins⟩ := ih.mp hrest
      refine ⟨⟨⟨id, n, hpin⟩, hnamed⟩, fun streamId hw => ?_⟩
      rw [hpins, update_eq_some_iff hpin]
    · rintro ⟨⟨⟨id, n, hpin⟩, hnamed⟩, hpins⟩
      refine ⟨id, n, hpin, ih.mpr ⟨hnamed, fun streamId hw => ?_⟩⟩
      rw [hpins, update_eq_some_iff hpin]

theorem exists_collectPins (h : AllPins specs) :
    ∃ pins', collectPins E pins specs = .ok pins' := by
  induction specs generalizing pins with
  | nil => exact ⟨pins, rfl⟩
  | cons spec specs ih =>
    obtain ⟨⟨streamId, hw, hpin⟩, hrest⟩ := allPins_cons.mp h
    obtain ⟨pins', hpins⟩ := @ih (Function.update pins streamId (some hw)) hrest
    exact ⟨pins', collectPins_cons.mpr ⟨streamId, hw, hpin, hpins⟩⟩

end Pins

/-! ## The run -/

/-- Up to the call of `verify_bundle`. -/
def prepare (E : Externals) (S : Serde) (H : Host) (args : Args) :
    Except Outcome (BundleReader × VerifyOptions) := do
  let rootPemOverride ← (readOptFile H args.root "--root").mapError usageError
  let consoleKeyOverride ← (readOptFile H args.consoleKey "--console-key").mapError usageError
  let archive ← (H.openFile args.bundle).mapError fun e =>
    usageError ("cannot open bundle " ++ args.bundle ++ ": " ++ e)
  let reader ← (openReader S archive).mapError fun e =>
    usageError ("not a readable .seal bundle: " ++ e.display E)
  let expectedHighWater ← (collectPins E (fun _ => none) args.expectHighWater).mapError fun e =>
    ⟨2, "", e ++ "\n"⟩
  return (reader, { rootPemOverride, consoleKeyOverride, nowUnix := none, expectedHighWater })

/-- `main`, after the arguments were parsed. -/
def main (E : Externals) (S : Serde) (K : Sink) (H : Host) (args : Args) : Outcome :=
  match prepare E S H args with
  | .error out => out
  | .ok (reader, opts) =>
    let report := verifyBundle E S H.now reader opts
    { code := UInt8.ofInt report.exitCode
      stdout := if args.json then toStringPretty K report.toJson ++ "\n" else report.renderText
      stderr := "" }

/-- A file that is named is read. -/
def IsRead (H : Host) (path text : Option String) : Prop :=
  match path, text with
  | none, none => True
  | some p, some t => H.readToString p = .ok t
  | _, _ => False

/-- What a run verifies, and with which options. -/
structure Invoked (E : Externals) (S : Serde) (H : Host) (args : Args) (reader : BundleReader)
    (opts : VerifyOptions) : Prop where
  root : IsRead H args.root opts.rootPemOverride
  consoleKey : IsRead H args.consoleKey opts.consoleKeyOverride
  opened : ∃ zip, H.openFile args.bundle = .ok (.ok zip) ∧
    BundleReader.fromZip S zip = .ok reader
  clock : opts.nowUnix = none
  specs : AllPins args.expectHighWater
  pins : ∀ streamId hw, opts.expectedHighWater streamId = some hw ↔
    LastPin args.expectHighWater streamId hw

/-- The files are there, and one of them is a bundle. -/
structure FilesRead (S : Serde) (H : Host) (args : Args) : Prop where
  root : ∃ text, IsRead H args.root text
  consoleKey : ∃ text, IsRead H args.consoleKey text
  opened : ∃ zip, H.openFile args.bundle = .ok (.ok zip) ∧
    ∃ reader, BundleReader.fromZip S zip = .ok reader

section Run

variable {E : Externals} {S : Serde} {K : Sink} {H : Host} {args : Args} {reader : BundleReader}
  {opts : VerifyOptions}

theorem readOptFile_eq_ok {path text : Option String} {what : String} :
    readOptFile H path what = .ok text ↔ IsRead H path text := by
  unfold readOptFile IsRead
  cases path with
  | none => cases text <;> simp
  | some p =>
    simp only [mapError_eq_ok]
    cases hread : H.readToString p with
    | error e => cases text <;> simp [Except.map, hread]
    | ok t => cases text <;> simp [Except.map, hread]

theorem openReader_eq_ok {archive : Except String ZipArchive} :
    openReader S archive = .ok reader ↔
      ∃ zip, archive = .ok zip ∧ BundleReader.fromZip S zip = .ok reader := by
  unfold openReader
  simp only [bind_eq_ok, mapError_eq_ok]

theorem prepare_eq_ok :
    prepare E S H args = .ok (reader, opts) ↔ Invoked E S H args reader opts := by
  unfold prepare
  simp only [bind_eq_ok, mapError_eq_ok, readOptFile_eq_ok, openReader_eq_ok, collectPins_eq_ok]
  constructor
  · rintro ⟨root, hroot, key, hkey, archive, harchive, r, ⟨zip, rfl, hzip⟩, pins,
      ⟨hspecs, hpins⟩, h⟩
    cases h
    refine ⟨hroot, hkey, ⟨zip, harchive, hzip⟩, rfl, hspecs, fun streamId hw => ?_⟩
    simp [hpins]
  · rintro ⟨hroot, hkey, ⟨zip, harchive, hzip⟩, hclock, hspecs, hpins⟩
    refine ⟨_, hroot, _, hkey, _, harchive, _, ⟨zip, rfl, hzip⟩, opts.expectedHighWater,
      ⟨hspecs, fun streamId hw => ?_⟩, ?_⟩
    · simp [hpins]
    · rw [← hclock]
      rfl

/-- What is not there ends the run. -/
theorem prepare_unreadable (h : ¬FilesRead S H args) :
    ∃ msg, prepare E S H args = .error (usageError msg) := by
  unfold prepare
  cases hroot : readOptFile H args.root "--root" with
  | error e => exact ⟨e, rfl⟩
  | ok root =>
    cases hkey : readOptFile H args.consoleKey "--console-key" with
    | error e => exact ⟨e, rfl⟩
    | ok key =>
      cases hfile : H.openFile args.bundle with
      | error e => exact ⟨_, rfl⟩
      | ok archive =>
        cases hopen : openReader S archive with
        | error e =>
          exact ⟨"not a readable .seal bundle: " ++ e.display E,
            by simp only [Except.mapError, bind, Except.bind, hopen]⟩
        | ok reader =>
          obtain ⟨zip, rfl, hzip⟩ := openReader_eq_ok.mp hopen
          exact absurd ⟨⟨root, readOptFile_eq_ok.mp hroot⟩, ⟨key, readOptFile_eq_ok.mp hkey⟩,
            ⟨zip, hfile, reader, hzip⟩⟩ h

/-- So does a text that is no pin. -/
theorem prepare_unpinned (h : FilesRead S H args)
    (hspec : ¬AllPins args.expectHighWater) :
    ∃ msg, prepare E S H args = .error ⟨2, "", msg⟩ := by
  obtain ⟨⟨root, hroot⟩, ⟨key, hkey⟩, zip, hfile, reader, hzip⟩ := h
  unfold prepare
  rw [readOptFile_eq_ok.mpr hroot, readOptFile_eq_ok.mpr hkey, hfile]
  have hopen : openReader S (.ok zip) = .ok reader := openReader_eq_ok.mpr ⟨zip, rfl, hzip⟩
  cases hpins : collectPins E (fun _ => none) args.expectHighWater with
  | error e => exact ⟨e ++ "\n", by simp only [Except.mapError, bind, Except.bind, hopen]⟩
  | ok pins => exact absurd (collectPins_eq_ok.mp hpins).1 hspec

/-- Files that are read and texts that are pins start the verification. -/
theorem exists_invoked (E : Externals) (h : FilesRead S H args)
    (hspecs : AllPins args.expectHighWater) :
    ∃ reader opts, Invoked E S H args reader opts := by
  obtain ⟨⟨root, hroot⟩, ⟨key, hkey⟩, zip, hfile, reader, hzip⟩ := h
  obtain ⟨pins, hpins⟩ := @exists_collectPins E _ (fun _ => none) hspecs
  refine ⟨reader, ⟨root, key, none, pins⟩, hroot, hkey, ⟨zip, hfile, hzip⟩, rfl, hspecs, ?_⟩
  intro streamId hw
  simp [(collectPins_eq_ok.mp hpins).2 streamId hw]

theorem prepare_code {out : Outcome} (h : prepare E S H args = .error out) :
    out.code = 30 ∨ out.code = 2 := by
  by_cases hread : FilesRead S H args
  · by_cases hspecs : AllPins args.expectHighWater
    · obtain ⟨reader, opts, hinvoked⟩ := exists_invoked E hread hspecs
      rw [prepare_eq_ok.mpr hinvoked] at h
      cases h
    · obtain ⟨msg, hmsg⟩ := @prepare_unpinned E S H args hread hspecs
      rw [hmsg] at h
      cases h
      exact .inr rfl
  · obtain ⟨msg, hmsg⟩ := @prepare_unreadable E S H args hread
    rw [hmsg] at h
    cases h
    exact .inl rfl

/-- The exit status is the verdict. -/
theorem ofInt_exitCode (r : Report) : (UInt8.ofInt r.exitCode = 0 ↔ r.result = .pass) ∧
    (UInt8.ofInt r.exitCode = 10 ↔ r.result = .passWithFindings) ∧
    (UInt8.ofInt r.exitCode = 11 ↔ r.result = .fail) := by
  unfold Report.exitCode
  cases r.result <;> decide

theorem main_of_invoked (h : Invoked E S H args reader opts) :
    main E S K H args = ⟨UInt8.ofInt (verifyBundle E S H.now reader opts).exitCode,
      if args.json then toStringPretty K (verifyBundle E S H.now reader opts).toJson ++ "\n"
      else (verifyBundle E S H.now reader opts).renderText, ""⟩ := by
  unfold main
  rw [prepare_eq_ok.mpr h]

/-- **What a run prints, and its exit status**: files that cannot be read end it with 30, texts that
are no pins with 2, and nothing is printed. Else the exit status is the verdict on the bundle, the
JSON that is printed is read back as the report, and the fourth line of the text is the verdict,
unless the id of the bundle has line feeds. -/
theorem main_prints (E : Externals) (S : Serde) (K : Sink) (H : Host) (args : Args) :
    (¬FilesRead S H args →
        (main E S K H args).code = 30 ∧ (main E S K H args).stdout = "") ∧
      (FilesRead S H args →
        ¬AllPins args.expectHighWater →
        (main E S K H args).code = 2 ∧ (main E S K H args).stdout = "") ∧
      (FilesRead S H args → AllPins args.expectHighWater →
        ∃ reader opts, Invoked E S H args reader opts ∧
          (main E S K H args).code = UInt8.ofInt (verifyBundle E S H.now reader opts).exitCode ∧
          (args.json = true → (verifyBundle E S H.now reader opts).proven.Fits →
            parsedBy reportOfJson (asBytes (main E S K H args).stdout) =
              .ok (verifyBundle E S H.now reader opts, STANDING_LIMITS)) ∧
          (args.json = false → '\n' ∉ reader.manifest.bundleId.toList →
            Text.lineAt '\n' 3 (main E S K H args).stdout.toList =
              ("RESULT: " ++ (verifyBundle E S H.now reader opts).result.verdict).toList)) := by
  refine ⟨fun h => ?_, fun h hspec => ?_, fun h hspecs => ?_⟩
  · obtain ⟨msg, hmsg⟩ := @prepare_unreadable E S H args h
    simp only [main, hmsg, usageError, and_self]
  · obtain ⟨msg, hmsg⟩ := @prepare_unpinned E S H args h hspec
    simp only [main, hmsg, and_self]
  · obtain ⟨reader, opts, hinvoked⟩ := exists_invoked E h hspecs
    refine ⟨reader, opts, hinvoked, ?_⟩
    rw [main_of_invoked hinvoked]
    refine ⟨rfl, fun hjson hfits => ?_, fun htext hid => ?_⟩
    · simp only [hjson, ↓reduceIte]
      exact parsedBy_line (floatFree_report _) (reportOfJson_toJson hfits)
    · simp only [htext, Bool.false_eq_true, ↓reduceIte]
      exact resultLine_verifyBundle hid

/-- Some record of the stream has the number, or a later one. -/
def Reaches (E : Externals) (S : Serde) (reader : BundleReader) (streamId : String)
    (hw : UInt64) : Prop :=
  ∃ line ∈ (reader.readStreamRecords E S streamId).1, ∃ v, E.fromSlice line = .ok v ∧
    ∃ s, seqOf v = some s ∧ hw ≤ s

theorem reaches_of_unfailed {now : Int} {streamId : String} {hw : UInt64}
    (h : (verifyBundle E S now reader opts).result ≠ .fail) (hscope : streamId ∈ scopeIds reader)
    (hpin : opts.expectedHighWater streamId = some hw) : Reaches E S reader streamId hw := by
  by_contra hnot
  apply h
  apply fail_of_unreached hscope hpin
  intro line hline v hv s hs
  by_contra hle
  exact hnot ⟨line, hline, v, hv, s, hs, UInt64.not_lt.mp hle⟩

/-- **What an exit status of 0 or 10 promises**: every text is a pin, and in every stream in scope
the last pin of the stream is reached. With a status of 0 the records of these streams are in order,
linked, and attested. -/
theorem exit_pins (hexit : (main E S K H args).code = 0 ∨ (main E S K H args).code = 10) :
    ∃ reader opts, Invoked E S H args reader opts ∧ ∀ streamId ∈ scopeIds reader,
      ((main E S K H args).code = 0 →
        StreamProven E S reader (trustOf E S H.now reader opts) streamId) ∧
      ∀ hw, LastPin args.expectHighWater streamId hw → Reaches E S reader streamId hw := by
  cases hprepare : prepare E S H args with
  | error out =>
    obtain hcode | hcode := prepare_code hprepare
    · simp [main, hprepare, hcode] at hexit
    · simp [main, hprepare, hcode] at hexit
  | ok p =>
    obtain ⟨reader, opts⟩ := p
    have hinvoked := prepare_eq_ok.mp hprepare
    refine ⟨reader, opts, hinvoked, fun streamId hscope => ?_⟩
    rw [main_of_invoked hinvoked] at hexit ⊢
    obtain ⟨hpass, hfindings, -⟩ := ofInt_exitCode (verifyBundle E S H.now reader opts)
    refine ⟨fun hzero => ?_, fun hw hpin => ?_⟩
    · have hinfo := computeResult_eq_pass.mp (hpass.mp hzero)
      obtain ⟨s, hs, rfl⟩ := List.mem_map.mp (mem_fst_anchoredState.mpr hscope)
      exact (stream_of_pass hinfo hs).1
    · have hunfailed : (verifyBundle E S H.now reader opts).result ≠ .fail := by
        rcases hexit with hzero | hten
        · simp [hpass.mp hzero]
        · simp [hfindings.mp hten]
      exact reaches_of_unfailed hunfailed hscope ((hinvoked.pins streamId hw).mpr hpin)

/-- The options with a time. -/
def VerifyOptions.clocked (opts : VerifyOptions) (t : Int) : VerifyOptions :=
  { opts with nowUnix := some t }

/-- The clock stands in for a time that the options do not give. -/
theorem verifyBundle_clock {now : Int} (hclock : opts.nowUnix = none) :
    verifyBundle E S now reader opts = verifyBundle E S 0 reader (opts.clocked now) := by
  unfold verifyBundle
  rw [hclock]
  rfl

/-- The options without pins. -/
def VerifyOptions.pinless (opts : VerifyOptions) : VerifyOptions :=
  { opts with expectedHighWater := fun _ => none }

/-- A pin that is reached adds nothing to the cross-checks of a stream. -/
theorem coverageFindings_pinless {streamId : String} {data : StreamData} {f : Finding}
    (hreached : truncationFindings (opts.expectedHighWater streamId) streamId data = [])
    (hf : f ∈ coverageFindings opts streamId data) :
    f ∈ coverageFindings opts.pinless streamId data := by
  simp only [coverageFindings, List.mem_append, hreached, List.not_mem_nil, or_false] at hf
  rcases hf with (((hf | hf) | htail) | hf) | hf
  · simp [coverageFindings, hf]
  · simp [coverageFindings, hf]
  · cases hpin : opts.expectedHighWater streamId with
    | none =>
      rw [hpin] at htail
      simp [coverageFindings, VerifyOptions.pinless, htail]
    | some hw => simp [tailFindings, hpin] at htail
  · simp [coverageFindings, hf]
  · simp [coverageFindings, hf]

/-- A pass without pins stays a pass under pins that are reached. -/
theorem pass_of_pins {now : Int}
    (hpass : (verifyBundle E S now reader opts.pinless).result = .pass)
    (hpins : ∀ streamId ∈ scopeIds reader, ∀ hw, opts.expectedHighWater streamId = some hw →
      ∃ s ∈ (verifyStreamChain E S reader streamId).1.hashesBySeq, hw ≤ s) :
    (verifyBundle E S now reader opts).result = .pass := by
  have hinfo : ∀ f ∈ (verifyBundle E S now reader opts.pinless).findings, f.severity = .info :=
    computeResult_eq_pass.mp hpass
  rw [result_verifyBundle, computeResult_eq_pass, findings_verifyBundle]
  intro f hf
  rcases List.mem_append.mp hf with hf | hf
  · exact hinfo f (List.mem_append_left _ hf)
  obtain ⟨⟨streamId, data⟩, hs, hcoverage⟩ := List.mem_flatMap.mp hf
  have hquiet : ∀ g ∈ coverageFindings opts.pinless streamId data, g.severity = .info := by
    intro g hg
    exact hinfo g (@mem_findings_of_coverage E S now reader opts.pinless _ _ g hs hg)
  obtain ⟨hscope, anchored, hdata⟩ := final_data hs
  have hhashes : data.hashesBySeq = (verifyStreamChain E S reader streamId).1.hashesBySeq := by
    rw [show data = _ from hdata]
    exact hashes_checkedData
  have hlower : ∀ x y : UInt64, x ≤ y → (∃ s ∈ data.hashesBySeq, y ≤ s) →
      ∃ s ∈ data.hashesBySeq, x ≤ s := by
    rintro x y hxy ⟨s, hs, hle⟩
    exact ⟨s, hs, UInt64.le_trans hxy hle⟩
  -- Truncation is an error, so that the marks alone are reached.
  have hmarks : truncationFindings none streamId data = [] := by
    rw [List.eq_nil_iff_forall_not_mem]
    intro g hg
    have herr := (truncationFindings_class hg).2
    rw [hquiet g (by simp [coverageFindings, VerifyOptions.pinless, hg])] at herr
    cases herr
  apply hquiet
  apply coverageFindings_pinless _ hcoverage
  rw [truncationFindings_eq_nil, forall_maxExtent hlower] at hmarks ⊢
  refine ⟨fun hw hpin => ?_, hmarks.2⟩
  rw [hhashes]
  exact hpins streamId hscope hw hpin

end Run

/-! A run on the sample bundle: its stream is pinned twice, and the second pin counts. -/

namespace Sample

def pinnedStream : String := "000000002D000000000000002D"

def host : Host where
  readToString path :=
    if path = "root.pem" then .ok (derToPem rootDer)
    else if path = "console.pem" then .ok consolePem
    else .error "No such file or directory (os error 2)"
  openFile path :=
    if path = "sample.seal" then .ok (.ok bundle.zip)
    else .error "No such file or directory (os error 2)"
  now := 1786453200

def invocation : Args where
  bundle := "sample.seal"
  root := some "root.pem"
  consoleKey := some "console.pem"
  expectHighWater := [pinnedStream ++ "=7", " " ++ pinnedStream ++ "\t= +00\n"]
  json := true

def invokedOptions : VerifyOptions := { options with
  nowUnix := none
  expectedHighWater := Function.update (Function.update (fun _ => none) pinnedStream (some 7))
    pinnedStream (some 0) }

theorem second_pin : PinText (" " ++ pinnedStream ++ "\t= +00\n") pinnedStream 0 :=
  ⟨(" " ++ pinnedStream ++ "\t").toList, " +00\n".toList, by decide, by decide, by decide,
    by decide⟩

theorem invocation_invoked :
    Invoked bundleExternals bundleDocuments.serde host invocation bundle invokedOptions := by
  have hfirst : PinText (pinnedStream ++ "=7") pinnedStream 7 :=
    ⟨pinnedStream.toList, ['7'], by decide, by decide, by decide, by decide⟩
  have hpins : collectPins bundleExternals (fun _ => none) invocation.expectHighWater =
      .ok invokedOptions.expectedHighWater :=
    collectPins_cons.mpr ⟨pinnedStream, 7, hfirst,
      collectPins_cons.mpr ⟨pinnedStream, 0, second_pin, rfl⟩⟩
  obtain ⟨hspecs, hcollected⟩ := collectPins_eq_ok.mp hpins
  refine ⟨rfl, rfl, ⟨bundle.zip, rfl, bundle_opens⟩, rfl, hspecs, fun streamId hw => ?_⟩
  simp [hcollected]

theorem invocation_pass :
    (main bundleExternals bundleDocuments.serde (.recorded bundleRecording) host
      invocation).code = 0 := by
  have hnow : host.now = 1786453200 := rfl
  rw [main_of_invoked invocation_invoked]
  apply (ofInt_exitCode _).1.mpr
  rw [verifyBundle_clock rfl, hnow]
  have hpinless : (invokedOptions.clocked 1786453200).pinless = options := rfl
  apply pass_of_pins (hpinless ▸ bundle_pass)
  intro streamId hscope hw hpin
  have hscopes : scopeIds bundle = [pinnedStream] := by decide
  rw [hscopes] at hscope
  obtain rfl := List.mem_singleton.mp hscope
  obtain rfl : hw = 0 := by
    simpa [invokedOptions, VerifyOptions.clocked, eq_comm] using hpin
  have hrecorded : (verifyStreamChain bundleExternals bundleDocuments.serde bundle
      pinnedStream).1.hashesBySeq.isEmpty = false := by decide +kernel
  obtain ⟨s, hs⟩ := Std.TreeMap.isEmpty_eq_false_iff_exists_mem.mp hrecorded
  exact ⟨s, hs, UInt64.zero_le⟩

end Sample

theorem exit_pins_sample :
    Reaches Sample.bundleExternals Sample.bundleDocuments.serde Sample.bundle
      Sample.pinnedStream 0 := by
  obtain ⟨reader, opts, hinvoked, hstreams⟩ := exit_pins (.inl Sample.invocation_pass)
  have hsame := prepare_eq_ok.mpr hinvoked
  rw [prepare_eq_ok.mpr Sample.invocation_invoked] at hsame
  obtain ⟨rfl, rfl⟩ := Prod.mk.inj (Except.ok.inj hsame)
  have hscope : Sample.pinnedStream ∈ scopeIds Sample.bundle := by decide
  exact (hstreams _ hscope).2 0 ⟨[Sample.pinnedStream ++ "=7"], _, [], rfl, Sample.second_pin,
    List.forall_mem_nil _⟩

end Sealr.Verify
