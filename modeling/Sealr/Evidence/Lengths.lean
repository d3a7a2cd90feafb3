import Sealr.Evidence.Paths

/-!
# Path lengths

A CA certificate may say how many CA certificates can stand below it. `validate_chain` looks at the
CA flag of a certificate and never at this number: `within_lengths_iff` says for which inputs it
makes no difference.
-/

namespace Sealr.Evidence

open Lib

/-- The certificates above the leaf, lowest first, keep to the path lengths that they carry: the one
at place `i` has `i` CA certificates below it. -/
def WithinLengths (pathLen : Bytes → Option Nat) (above : List Bytes) : Prop :=
  ∀ i der n, above[i]? = some der → pathLen der = some n → i ≤ n

/-- The certificates that the issuer names lead to up to the root, each the first of the pool at
which a scan stops. Nothing about them is checked. -/
def lineage (E : Externals) (pool : List Bytes) (rootName : Bytes) : Nat → Bytes → Option (List Bytes)
  | 0, _ => none
  | hops + 1, der =>
    match E.x509FromDer der with
    | .error _ => none
    | .ok cert =>
      if cert.issuer = rootName then some []
      else (pool.find? (bears E cert.issuer)).bind fun next =>
        (lineage E pool rootName hops next).map (next :: ·)

/-- The names lead from the leaf to the root, every certificate met passes, and one of them has more
CA certificates below it than its path length allows. -/
def Overreaches (E : Externals) (at_ : Int) (pathLen : Bytes → Option Nat) (leafPem : String)
    (pems : List String) (rootPem : String) : Prop :=
  ∃ (ends : Ends E at_ leafPem rootPem) (pool path : List Bytes), parsePool E pems = .ok pool ∧
    lineage E pool ends.root.subject 8 ends.leafDer = some path ∧
    (ends.leafDer :: (path ++ [ends.rootDer])).IsChain (IssuedBy E) ∧
    (∀ der ∈ path ++ [ends.rootDer], IsAuthority E der) ∧ (∀ der ∈ path, IsValid E at_ der) ∧
    ¬WithinLengths pathLen (path ++ [ends.rootDer])

section Lineage

variable {E : Externals} {at_ : Int} {leafPem rootPem : String} {pems : List String}
  {pool path : List Bytes} {der : Bytes} {hops : Nat}

theorem lineage_of_trail (ends : Ends E at_ leafPem rootPem) (h : Trail (ends.step pool) der path)
    (hlt : path.length < hops) : lineage E pool ends.root.subject hops der = some path := by
  induction h generalizing hops with
  | arrived h =>
    obtain ⟨cert, hcert, hname, -, -⟩ := stepUp_eq_arrived.mp h
    obtain ⟨hops, rfl⟩ := Nat.exists_eq_succ_of_ne_zero (Nat.ne_of_gt hlt)
    rw [lineage, hcert]
    exact if_pos hname
  | on h _ ih =>
    obtain ⟨cert, hcert, hname, hfind, -⟩ := stepUp_eq_on.mp h
    obtain ⟨hops, rfl⟩ := Nat.exists_eq_succ_of_ne_zero (Nat.ne_of_gt (Nat.zero_lt_of_lt hlt))
    rw [lineage, hcert]
    dsimp only
    rw [if_neg hname, hfind, Option.bind_some, ih (Nat.lt_of_succ_lt_succ hlt)]
    rfl

theorem trail_of_lineage (ends : Ends E at_ leafPem rootPem)
    (h : lineage E pool ends.root.subject hops der = some path)
    (hchain : (der :: (path ++ [ends.rootDer])).IsChain (IssuedBy E))
    (hca : ∀ d ∈ path ++ [ends.rootDer], IsAuthority E d) (hvalid : ∀ d ∈ path, IsValid E at_ d) :
    Trail (ends.step pool) der path ∧ path.length < hops := by
  induction hops generalizing der path with
  | zero => cases h
  | succ hops ih =>
    rw [lineage] at h
    cases hcert : E.x509FromDer der with
    | error e =>
      rw [hcert] at h
      cases h
    | ok cert =>
      rw [hcert] at h
      dsimp only at h
      split_ifs at h with hname
      · obtain rfl := Option.some.inj h
        obtain ⟨cert', root, hcert', hroot, -, hsigned⟩ := List.isChain_pair.mp hchain
        obtain ⟨root', hroot', hrootCa⟩ := hca _ (List.mem_singleton_self _)
        obtain rfl := Except.ok.inj (ends.fromDer_root.symm.trans hroot')
        exact ⟨.arrived (stepUp_eq_arrived.mpr ⟨cert, hcert, hname, hsigned, hrootCa⟩),
          Nat.zero_lt_succ hops⟩
      · obtain ⟨next, hfind, h⟩ := Option.bind_eq_some_iff.mp h
        obtain ⟨rest, hrest, rfl⟩ := Option.map_eq_some_iff.mp h
        obtain ⟨hissued, hchain⟩ := List.isChain_cons_cons.mp hchain
        obtain ⟨hnextCa, hca⟩ := List.forall_mem_cons.mp hca
        obtain ⟨hnextValid, hvalid⟩ := List.forall_mem_cons.mp hvalid
        obtain ⟨cert', issuer, hcert', hissuer, hsubject, hsigned⟩ := hissued
        obtain ⟨htrail, hlt⟩ := ih hrest hchain hca hvalid
        exact ⟨.on (stepUp_eq_on.mpr ⟨cert, hcert, hname, hfind, hnextValid, hnextCa, hsigned⟩)
          htrail, Nat.succ_lt_succ hlt⟩

/-- **What `validate_chain` accepts keeps to the path lengths on the path it walks**, whatever they
are, exactly when the input does not overreach them. -/
theorem within_lengths_iff (pathLen : Bytes → Option Nat) :
    (∀ v, validateChain E leafPem pems rootPem at_ = .ok v →
      ∀ (ends : Ends E at_ leafPem rootPem) pool path, parsePool E pems = .ok pool →
        Trail (ends.step pool) ends.leafDer path →
        WithinLengths pathLen (path ++ [ends.rootDer])) ↔
      ¬Overreaches E at_ pathLen leafPem pems rootPem := by
  constructor
  · rintro h ⟨ends, pool, path, hpool, hlineage, hchain, hca, hvalid, hover⟩
    obtain ⟨htrail, hlt⟩ := trail_of_lineage ends hlineage hchain hca hvalid
    exact hover (h ends.validated (validateChain_eq_ok.mpr ⟨ends, pool, path, hpool, htrail, hlt, rfl⟩)
      ends pool path hpool htrail)
  · intro h v hok ends pool path hpool htrail
    obtain ⟨ends', pool', path', hpool', htrail', hlt, -⟩ := validateChain_eq_ok.mp hok
    obtain rfl := Except.ok.inj (hpool.symm.trans hpool')
    by_contra hover
    obtain rfl := Subsingleton.elim ends ends'
    obtain rfl := htrail.unique htrail'
    obtain ⟨-, hchain, hca, hvalid⟩ := ends.path_of_trail htrail
    exact h ⟨ends, pool, path, hpool, lineage_of_trail ends htrail hlt, hchain, hca, hvalid, hover⟩

end Lineage

namespace Sample.Chain

/-- The path lengths in the certificates of the sample: the tenant is issued with 0. -/
def pathLen (der : Bytes) : Option Nat :=
  if der = tenantDer ∨ der = expiredDer then some 0 else none

theorem parsePemChain_sub : parsePemChain externals subPem = .ok [subDer] :=
  parsePemChain_eq (.tail _ (.tail _ (.tail _ (.tail _ (.head _)))))

theorem parsePemChain_subLeaf : parsePemChain externals subLeafPem = .ok [subLeafDer] :=
  parsePemChain_eq (.tail _ (.tail _ (.tail _ (.tail _ (.tail _ (.head _))))))

theorem fromDer_sub : externals.x509FromDer subDer = .ok subCert :=
  fromDer_eq (.tail _ (.tail _ (.tail _ (.tail _ (.head _)))))

def subEnds : Ends externals 1786453200 subLeafPem rootPem where
  leafDer := subLeafDer
  rootDer := rootDer
  leaf := subLeafCert
  root := rootCert
  publicKey := ⟨leafKey⟩
  firstCert_leaf := firstCert_eq parsePemChain_subLeaf
  firstCert_root := firstCert_root
  fromDer_leaf := fromDer_eq (.tail _ (.tail _ (.tail _ (.tail _ (.tail _ (.head _))))))
  fromDer_root := fromDer_root
  asn1Time := asn1Time_none
  valid_leaf := by decide
  valid_root := valid_root
  fromBytes_leaf := by decide

theorem trail_sub : Trail (subEnds.step [tenantDer, subDer]) subLeafDer [subDer, tenantDer] := by
  have hsub : [tenantDer, subDer].find? (bears externals subLeafCert.issuer) = some subDer := by
    rw [List.find?_cons, bears_of_ok fromDer_tenant, List.find?_cons, bears_of_ok fromDer_sub]
    rfl
  have htenant : [tenantDer, subDer].find? (bears externals subCert.issuer) = some tenantDer := by
    rw [List.find?_cons, bears_of_ok fromDer_tenant]
    rfl
  refine .on (stepUp_eq_on.mpr ⟨subLeafCert, subEnds.fromDer_leaf, ?_, hsub,
    ⟨subCert, fromDer_sub, by decide⟩, ⟨subCert, fromDer_sub, rfl⟩, ?_⟩)
    (.on (stepUp_eq_on.mpr ⟨subCert, fromDer_sub, ?_, htenant,
      ⟨tenantCert, fromDer_tenant, by decide⟩, ⟨tenantCert, fromDer_tenant, rfl⟩, ?_⟩)
      (.arrived (stepUp_eq_arrived.mpr ⟨tenantCert, fromDer_tenant, ?_, ?_, ?_⟩)))
  · decide
  · simp [externals, Externals.recorded, recording]
  · decide
  · simp [externals, Externals.recorded, recording]
  · decide
  · simp [externals, Externals.recorded, recording, subEnds]
  · decide

end Sample.Chain

/-- A recorder below a CA that the tenant issued is accepted, although the tenant's path length is
0. -/
theorem sub_ca_accepted :
    ¬∀ v, validateChain Sample.Chain.externals Sample.Chain.subLeafPem
        [Sample.Chain.tenantPem, Sample.Chain.subPem] Sample.Chain.rootPem 1786453200 = .ok v →
      ∀ (ends : Ends Sample.Chain.externals 1786453200 Sample.Chain.subLeafPem
          Sample.Chain.rootPem) pool path,
        parsePool Sample.Chain.externals [Sample.Chain.tenantPem, Sample.Chain.subPem] = .ok pool →
        Trail (ends.step pool) ends.leafDer path →
        WithinLengths Sample.Chain.pathLen (path ++ [ends.rootDer]) := by
  intro h
  have hpool : parsePool Sample.Chain.externals [Sample.Chain.tenantPem, Sample.Chain.subPem] =
      .ok [Sample.Chain.tenantDer, Sample.Chain.subDer] := by
    rw [parsePool, parsePool, Sample.Chain.parsePemChain_tenant, Sample.Chain.parsePemChain_sub]
    rfl
  have hok : validateChain Sample.Chain.externals Sample.Chain.subLeafPem
      [Sample.Chain.tenantPem, Sample.Chain.subPem] Sample.Chain.rootPem 1786453200 =
        .ok Sample.Chain.subEnds.validated :=
    validateChain_eq_ok.mpr ⟨Sample.Chain.subEnds, _, _, hpool, Sample.Chain.trail_sub, by decide,
      rfl⟩
  have hwithin := h _ hok Sample.Chain.subEnds _ _ hpool Sample.Chain.trail_sub
  exact absurd (hwithin 1 Sample.Chain.tenantDer 0 rfl (if_pos (.inl rfl))) (by decide)

end Sealr.Evidence
