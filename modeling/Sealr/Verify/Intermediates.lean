import Sealr.Lib.FirstMatch
import Sealr.Evidence.Paths
import Sealr.Verify.Roots

/-!
# The order of the intermediates

`validate_chain` takes the first certificate that bears an issuer's name and asks no other, so the
order of the texts decides which of several it takes. The result is the same in every order unless
some choices lead to the root and others do not (`order_irrelevant_iff`).
-/

namespace Sealr.Verify

open Lib Evidence Bundle

section Defs

variable (E : Externals) (at_ : Int)

/-- The certificate of a text at which the scan for an issuer stops. -/
def answer (name : Bytes) (text : String) : Option Bytes := (pemCerts E text).find? (bears E name)

/-- Does the scan for an issuer stop in this text? -/
def answers (name : Bytes) (text : String) : Bool := (answer E name text).isSome

/-- The certificate passes as the issuer of another one. -/
def Admits (der issuerDer : Bytes) : Prop :=
  IsValid E at_ issuerDer ∧ IsAuthority E issuerDer ∧ E.x509VerifySignature der issuerDer = .ok ()

/-- A way up from a certificate, in so many turns: which text answers to each issuer's name that is
met, and whether the root is reached. Any text that answers may be taken. -/
inductive Climb (texts : List String) (rootDer : Bytes) (root : X509Certificate) :
    Nat → Bytes → List (Bytes × String) → Bool → Prop where
  | tooDeep {der : Bytes} : Climb texts rootDer root 0 der [] false
  | atRoot {hops : Nat} {der : Bytes} {cert : X509Certificate} {reached : Bool}
      (hcert : E.x509FromDer der = .ok cert) (hname : cert.issuer = root.subject)
      (hreached : reached = true ↔ E.x509VerifySignature der rootDer = .ok () ∧ isCa root = true) :
      Climb texts rootDer root (hops + 1) der [] reached
  | noIssuer {hops : Nat} {der : Bytes} {cert : X509Certificate}
      (hcert : E.x509FromDer der = .ok cert) (hname : cert.issuer ≠ root.subject)
      (hnone : ∀ text ∈ texts, answers E cert.issuer text = false) :
      Climb texts rootDer root (hops + 1) der [] false
  | refused {hops : Nat} {der next : Bytes} {cert : X509Certificate} {text : String}
      (hcert : E.x509FromDer der = .ok cert) (hname : cert.issuer ≠ root.subject)
      (hnext : answer E cert.issuer text = some next) (hrefused : ¬Admits E at_ der next) :
      Climb texts rootDer root (hops + 1) der [(cert.issuer, text)] false
  | on {hops : Nat} {der next : Bytes} {cert : X509Certificate} {text : String}
      {picks : List (Bytes × String)} {reached : Bool}
      (hcert : E.x509FromDer der = .ok cert) (hname : cert.issuer ≠ root.subject)
      (hnext : answer E cert.issuer text = some next) (hadmits : Admits E at_ der next)
      (rest : Climb texts rootDer root hops next picks reached) :
      Climb texts rootDer root (hops + 1) der ((cert.issuer, text) :: picks) reached

/-- Some order of the texts makes the issuers of the chain be found so that the root is reached, or
so that it is not. -/
def CanEnd {E : Externals} {at_ : Int} {leafPem rootPem : String} (ends : Ends E at_ leafPem rootPem)
    (texts : List String) (reached : Bool) : Prop :=
  ∃ picks, Climb E at_ texts ends.rootDer ends.root 8 ends.leafDer picks reached ∧
    Pickable (answers E) texts picks

/-- Every text parses. -/
def Readable (texts : List String) : Prop := ∀ text ∈ texts, ∃ ders, parsePemChain E text = .ok ders

end Defs

section Pool

variable {E : Externals} {texts : List String} {pool : List Bytes}

/-- The pool holds the certificates of all texts in turn. -/
theorem parsePool_eq_ok :
    parsePool E texts = .ok pool ↔ Readable E texts ∧ pool = texts.flatMap (pemCerts E) := by
  induction texts generalizing pool with
  | nil =>
    have hnil : Readable E [] := fun _ h => nomatch h
    simp [parsePool, hnil, eq_comm]
  | cons text texts ih =>
    have hcons : Readable E (text :: texts) ↔
        (∃ ders, parsePemChain E text = .ok ders) ∧ Readable E texts := List.forall_mem_cons
    rw [parsePool, hcons, List.flatMap_cons]
    simp only [bind_eq_ok, ih]
    constructor
    · rintro ⟨ders, hders, rest, ⟨hreadable, rfl⟩, hpool⟩
      have hcerts : pemCerts E text = ders := by
        rw [pemCerts, hders]
        rfl
      refine ⟨⟨⟨ders, hders⟩, hreadable⟩, ?_⟩
      rw [hcerts]
      exact (Except.ok.inj hpool).symm
    · rintro ⟨⟨⟨ders, hders⟩, hreadable⟩, rfl⟩
      have hcerts : pemCerts E text = ders := by
        rw [pemCerts, hders]
        rfl
      rw [hcerts]
      exact ⟨ders, hders, _, ⟨hreadable, rfl⟩, rfl⟩

/-- The pool is searched through the first text that answers. -/
theorem find?_pool (name : Bytes) :
    (texts.flatMap (pemCerts E)).find? (bears E name) =
      (texts.find? (answers E name)).bind (answer E name) := by
  induction texts with
  | nil => rfl
  | cons text texts ih =>
    rw [List.flatMap_cons, List.find?_append, ih, List.find?_cons]
    change (answer E name text).or _ = _
    cases hanswer : answer E name text with
    | none =>
      have hanswers : answers E name text = false := by rw [answers, hanswer]; rfl
      rw [hanswers]
      rfl
    | some der =>
      have hanswers : answers E name text = true := by rw [answers, hanswer]; rfl
      rw [hanswers]
      exact hanswer.symm

end Pool

section Climbs

variable {E : Externals} {at_ : Int} {leafPem rootPem : String} {ends : Ends E at_ leafPem rootPem}
  {texts texts' : List String} {hops : Nat} {der : Bytes} {picks : List (Bytes × String)}
  {reached : Bool}

/-- The loop goes the way up whose picks the order finds. -/
theorem walk_eq_ok_of_climb (hperm : texts'.Perm texts)
    (h : Climb E at_ texts ends.rootDer ends.root hops der picks reached)
    (hfinds : Finds (answers E) texts' picks) :
    walk (ends.step (texts'.flatMap (pemCerts E))) (.certificate "chain too deep") hops der = .ok () ↔
      reached = true := by
  have hfind : ∀ {name text}, texts'.find? (answers E name) = some text →
      (texts'.flatMap (pemCerts E)).find? (bears E name) = answer E name text := by
    intro name text htext
    rw [find?_pool, htext, Option.bind_some]
  induction h with
  | tooDeep => simp [walk]
  | @atRoot hops der cert reached hcert hname hreached =>
    rw [hreached, walk_eq_ok]
    constructor
    · rintro ⟨path, htrail, -⟩
      cases htrail with
      | arrived hstep =>
        obtain ⟨-, -, -, hsigned, hca⟩ := stepUp_eq_arrived.mp hstep
        exact ⟨hsigned, hca⟩
      | on hstep _ =>
        obtain ⟨cert', hcert', hother, -⟩ := stepUp_eq_on.mp hstep
        obtain rfl := Except.ok.inj (hcert.symm.trans hcert')
        exact absurd hname hother
    · rintro ⟨hsigned, hca⟩
      exact ⟨[], .arrived (stepUp_eq_arrived.mpr ⟨cert, hcert, hname, hsigned, hca⟩),
        Nat.zero_lt_succ hops⟩
  | @noIssuer hops der cert hcert hname hnone =>
    refine iff_of_false ?_ Bool.false_ne_true
    rw [walk_eq_ok]
    rintro ⟨path, htrail, -⟩
    have hnoText : texts'.find? (answers E cert.issuer) = none := by
      refine List.find?_eq_none.mpr fun text htext => ?_
      rw [hnone text (hperm.mem_iff.mp htext)]
      exact Bool.false_ne_true
    cases htrail with
    | arrived hstep =>
      obtain ⟨cert', hcert', hroot, -⟩ := stepUp_eq_arrived.mp hstep
      obtain rfl := Except.ok.inj (hcert.symm.trans hcert')
      exact hname hroot
    | on hstep _ =>
      obtain ⟨cert', hcert', -, hpool, -⟩ := stepUp_eq_on.mp hstep
      obtain rfl := Except.ok.inj (hcert.symm.trans hcert')
      rw [find?_pool, hnoText] at hpool
      cases hpool
  | @refused hops der next cert text hcert hname hnext hrefused =>
    refine iff_of_false ?_ Bool.false_ne_true
    rw [walk_eq_ok]
    rintro ⟨path, htrail, -⟩
    cases htrail with
    | arrived hstep =>
      obtain ⟨cert', hcert', hroot, -⟩ := stepUp_eq_arrived.mp hstep
      obtain rfl := Except.ok.inj (hcert.symm.trans hcert')
      exact hname hroot
    | on hstep _ =>
      obtain ⟨cert', hcert', -, hpool, hadmits⟩ := stepUp_eq_on.mp hstep
      obtain rfl := Except.ok.inj (hcert.symm.trans hcert')
      rw [hfind (hfinds _ List.mem_cons_self), hnext] at hpool
      obtain rfl := Option.some.inj hpool
      exact hrefused hadmits
  | @on hops der next cert text picks reached hcert hname hnext hadmits rest ih =>
    have hpool : (texts'.flatMap (pemCerts E)).find? (bears E cert.issuer) = some next :=
      (hfind (hfinds _ List.mem_cons_self)).trans hnext
    have hstep : ends.step (texts'.flatMap (pemCerts E)) der = .ok (.on next) :=
      stepUp_eq_on.mpr ⟨cert, hcert, hname, hpool, hadmits⟩
    rw [walk, hstep]
    exact ih fun pick hpick => hfinds pick (List.mem_cons_of_mem _ hpick)

/-- In every order the loop goes some way up. -/
theorem exists_climb (hperm : texts'.Perm texts) (hops : Nat) {cert : X509Certificate}
    (hcert : E.x509FromDer der = .ok cert) :
    ∃ picks reached, Climb E at_ texts ends.rootDer ends.root hops der picks reached ∧
      Finds (answers E) texts' picks := by
  classical
  have hnil : Finds (answers E) texts' [] := fun _ h => nomatch h
  induction hops generalizing der cert with
  | zero => exact ⟨[], false, .tooDeep, hnil⟩
  | succ hops ih =>
    by_cases hname : cert.issuer = ends.root.subject
    · refine ⟨[], decide (E.x509VerifySignature der ends.rootDer = .ok () ∧
        isCa ends.root = true), .atRoot hcert hname decide_eq_true_iff, hnil⟩
    cases htext : texts'.find? (answers E cert.issuer) with
    | none =>
      refine ⟨[], false, .noIssuer hcert hname fun text hin => ?_, hnil⟩
      exact Bool.eq_false_of_not_eq_true (List.find?_eq_none.mp htext text (hperm.mem_iff.mpr hin))
    | some text =>
      have hanswers : answers E cert.issuer text = true := List.find?_some htext
      obtain ⟨next, hnext⟩ := Option.isSome_iff_exists.mp hanswers
      by_cases hadmits : Admits E at_ der next
      · obtain ⟨cert', hcert', -⟩ := hadmits.1
        obtain ⟨picks, reached, hclimb, hfinds⟩ := ih hcert'
        exact ⟨(cert.issuer, text) :: picks, reached, .on hcert hname hnext hadmits hclimb,
          List.forall_mem_cons.mpr ⟨htext, hfinds⟩⟩
      · exact ⟨[(cert.issuer, text)], false, .refused hcert hname hnext hadmits,
          List.forall_mem_cons.mpr ⟨htext, hnil⟩⟩

/-- What `validate_chain` returns in an order is where the way up that it finds ends. -/
theorem validateChain_of_climb (hreadable : Readable E texts) (hperm : texts'.Perm texts)
    (h : Climb E at_ texts ends.rootDer ends.root 8 ends.leafDer picks reached)
    (hfinds : Finds (answers E) texts' picks) :
    (∃ v, validateChain E leafPem texts' rootPem at_ = .ok v) ↔ reached = true := by
  have hpool : parsePool E texts' = .ok (texts'.flatMap (pemCerts E)) :=
    parsePool_eq_ok.mpr ⟨fun text htext => hreadable text (hperm.mem_iff.mp htext), rfl⟩
  rw [← walk_eq_ok_of_climb hperm h hfinds, walk_eq_ok]
  constructor
  · rintro ⟨v, hv⟩
    obtain ⟨ends', pool, path, hpool', htrail, hlt, -⟩ := validateChain_eq_ok.mp hv
    obtain rfl := Subsingleton.elim ends ends'
    obtain rfl := Except.ok.inj (hpool.symm.trans hpool')
    exact ⟨path, htrail, hlt⟩
  · rintro ⟨path, htrail, hlt⟩
    exact ⟨ends.validated, validateChain_eq_ok.mpr ⟨ends, _, path, hpool, htrail, hlt, rfl⟩⟩

/-- Every order ends in some way that it can end. -/
theorem exists_canEnd (ends : Ends E at_ leafPem rootPem) (hreadable : Readable E texts)
    (hperm : texts'.Perm texts) :
    ∃ reached, CanEnd ends texts reached ∧
      ((∃ v, validateChain E leafPem texts' rootPem at_ = .ok v) ↔ reached = true) := by
  obtain ⟨picks, reached, hclimb, hfinds⟩ := exists_climb hperm 8 ends.fromDer_leaf
  exact ⟨reached, ⟨picks, hclimb, exists_perm_finds.mp ⟨texts', hperm, hfinds⟩⟩,
    validateChain_of_climb hreadable hperm hclimb hfinds⟩

/-- **The order of the intermediates makes no difference** exactly when the ends of the chain and
the texts cannot be read anyway, or not both can be: that some choice of issuers that an order finds
leads to the root, and that some leads elsewhere. -/
theorem order_irrelevant_iff :
    (∀ texts' : List String, texts'.Perm texts →
      ((∃ v, validateChain E leafPem texts' rootPem at_ = .ok v) ↔
        ∃ v, validateChain E leafPem texts rootPem at_ = .ok v)) ↔
      (Readable E texts → ∀ ends : Ends E at_ leafPem rootPem,
        ¬(CanEnd ends texts true ∧ CanEnd ends texts false)) := by
  constructor
  · rintro h hreadable ends ⟨⟨up, hup, hupPickable⟩, ⟨off, hoff, hoffPickable⟩⟩
    obtain ⟨texts₁, hperm₁, hfinds₁⟩ := exists_perm_finds.mpr hupPickable
    obtain ⟨texts₂, hperm₂, hfinds₂⟩ := exists_perm_finds.mpr hoffPickable
    have hok := (validateChain_of_climb hreadable hperm₁ hup hfinds₁).mpr rfl
    have hok' := (h texts₂ hperm₂).mpr ((h texts₁ hperm₁).mp hok)
    exact Bool.false_ne_true ((validateChain_of_climb hreadable hperm₂ hoff hfinds₂).mp hok')
  · intro h texts' hperm
    by_cases hends : Readable E texts ∧ Nonempty (Ends E at_ leafPem rootPem)
    · obtain ⟨hreadable, ⟨ends⟩⟩ := hends
      obtain ⟨reached, hcan, hiff⟩ := exists_canEnd ends hreadable (List.Perm.refl texts)
      obtain ⟨reached', hcan', hiff'⟩ := exists_canEnd ends hreadable hperm
      have hsame : reached' = reached := by
        cases reached <;> cases reached'
        · rfl
        · exact absurd ⟨hcan', hcan⟩ (h hreadable ends)
        · exact absurd ⟨hcan, hcan'⟩ (h hreadable ends)
        · rfl
      rw [hiff, hiff', hsame]
    · have hnot : ∀ texts'' : List String, texts''.Perm texts →
          ¬∃ v, validateChain E leafPem texts'' rootPem at_ = .ok v := by
        rintro texts'' hperm'' ⟨v, hv⟩
        obtain ⟨ends, pool, path, hpool, -⟩ := validateChain_eq_ok.mp hv
        have hreadable := (parsePool_eq_ok.mp hpool).1
        exact hends ⟨fun text htext => hreadable text (hperm''.mem_iff.mpr htext), ⟨ends⟩⟩
      exact iff_of_false (hnot texts' hperm) (hnot texts (List.Perm.refl texts))

end Climbs

/-! The sample chain with both certificates of its tenant CA. -/

namespace Renewed

open Evidence.Sample.Chain

theorem pemCerts_tenant : pemCerts externals tenantPem = [tenantDer] := by
  rw [pemCerts, parsePemChain_tenant]
  rfl

theorem parsePemChain_expired : parsePemChain externals expiredPem = .ok [expiredDer] :=
  parsePemChain_eq (.tail _ (.tail _ (.head _)))

theorem pemCerts_expired : pemCerts externals expiredPem = [expiredDer] := by
  rw [pemCerts, parsePemChain_expired]
  rfl

theorem fromDer_expired : externals.x509FromDer expiredDer = .ok expiredCert :=
  fromDer_eq (.tail _ (.tail _ (.head _)))

theorem readable_renewed : Readable externals [tenantPem, expiredPem] := by
  intro text htext
  rcases List.mem_pair.mp htext with rfl | rfl
  · exact ⟨_, parsePemChain_tenant⟩
  · exact ⟨_, parsePemChain_expired⟩

end Renewed

open Evidence.Sample.Chain Renewed in
/-- A tenant CA that was renewed: the chain is accepted when the new certificate comes first, and
refused when the expired one does. -/
theorem refused_in_another_order :
    ¬∀ texts' : List String, texts'.Perm [tenantPem, expiredPem] →
      ((∃ v, validateChain externals leafPem texts' rootPem 1786453200 = .ok v) ↔
        ∃ v, validateChain externals leafPem [tenantPem, expiredPem] rootPem 1786453200 = .ok v) := by
  intro h
  have hok : validateChain externals leafPem [tenantPem, expiredPem] rootPem 1786453200 =
      .ok ends.validated := by
    have hpool : parsePool externals [tenantPem, expiredPem] = .ok [tenantDer, expiredDer] := by
      refine parsePool_eq_ok.mpr ⟨readable_renewed, ?_⟩
      rw [List.flatMap_cons, List.flatMap_cons, pemCerts_tenant, pemCerts_expired]
      rfl
    exact validateChain_eq_ok.mpr ⟨ends, _, _, hpool, trail [expiredDer], by decide, rfl⟩
  obtain ⟨v, hv⟩ := (h [expiredPem, tenantPem] (List.Perm.swap _ _ _)).mpr ⟨_, hok⟩
  obtain ⟨ends', pool, path, hpool, htrail, -⟩ := validateChain_eq_ok.mp hv
  obtain rfl := Subsingleton.elim ends ends'
  obtain ⟨-, hpool⟩ := parsePool_eq_ok.mp hpool
  rcases htrail.first with hstep | ⟨next, hstep⟩
  · obtain ⟨cert, hcert, hname, -⟩ := stepUp_eq_arrived.mp hstep
    obtain rfl := Except.ok.inj (ends.fromDer_leaf.symm.trans hcert)
    revert hname
    decide
  · obtain ⟨cert, hcert, -, hfind, ⟨issuer, hissuer, hvalid⟩, -⟩ := stepUp_eq_on.mp hstep
    obtain rfl := Except.ok.inj (ends.fromDer_leaf.symm.trans hcert)
    -- the scan stops at the expired certificate
    rw [hpool, List.flatMap_cons, pemCerts_expired, List.singleton_append, List.find?_cons,
      bears_of_ok fromDer_expired] at hfind
    obtain rfl : expiredDer = next := Option.some.inj hfind
    obtain rfl := Except.ok.inj (fromDer_expired.symm.trans hissuer)
    revert hvalid
    decide

end Sealr.Verify
