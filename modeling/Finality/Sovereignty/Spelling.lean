import Finality.Core.Spelling
import Finality.Sovereignty.Declared

/-!
# The policies and the NFC forms of what they decide on

No digest tells an item of evidence, an approval or a compute context from its NFC form, and an
approval fits the NFC form of the candidate it was given for. `validate` compares the strings
themselves. Where it looks one up in a list of the policy that makes no difference; where it counts
items by their names, or takes a field that is spelled otherwise for a missing one, it does
(`Apart`).
-/

namespace Finality

open Checks KeyOrder

variable {R : Runtime}

/-! ## The NFC forms of the artefacts -/

section
variable (R : Runtime)

/-- The NFC form of a compute context. -/
def ComputeContext.nf (k : ComputeContext) : ComputeContext where
  provider_id := nfStr R k.provider_id
  compute_jurisdiction := nfStr R k.compute_jurisdiction
  workload_id := nfStr R k.workload_id
  model_id := nfStr R k.model_id
  runtime_evidence_digest := nfStr R k.runtime_evidence_digest
  session_id := nfStr R k.session_id

/-- The NFC form of an item of evidence. -/
def JurisdictionEvidence.nf (e : JurisdictionEvidence) : JurisdictionEvidence where
  evidence_id := nfStr R e.evidence_id
  evidence_type := nfStr R e.evidence_type
  asserted_jurisdiction := nfStr R e.asserted_jurisdiction
  issuer := nfStr R e.issuer
  subject := nfStr R e.subject
  observed_at_ns := e.observed_at_ns
  expires_at_ns := e.expires_at_ns
  trust_class := nfStr R e.trust_class
  value_digest := nfStr R e.value_digest
  key_id := nfStr R e.key_id
  signature := nfStr R e.signature

/-- The NFC form of an approval, with its candidate digest kept. -/
def Approval.nf (a : Approval) : Approval where
  approver_id := nfStr R a.approver_id
  role := nfStr R a.role
  candidate_digest := a.candidate_digest
  policy_epoch := a.policy_epoch
  approved_at_ns := a.approved_at_ns
  expires_at_ns := a.expires_at_ns
  key_id := nfStr R a.key_id
  signature := nfStr R a.signature

end

/-- The NFC form of what can be hashed can be hashed. -/
theorem canon_compute_nf {k : ComputeContext} (h : Canon R (.ofFields k.fields)) :
    Canon R (.ofFields (k.nf R).fields) := by
  have hkeys : GoodKeys ["provider_id", "compute_jurisdiction", "workload_id", "model_id",
    "runtime_evidence_digest", "session_id"] := by decide
  rw [canon_ofFields, canon_ofEntries_iff (by simpa [ComputeContext.fields] using hkeys)] at h ⊢
  simp only [ComputeContext.fields, List.map_cons, List.map_nil, List.forall_mem_cons,
    canon_str] at h
  simp [ComputeContext.fields, ComputeContext.nf, h, hasSurrogate_nfStr]

/-- So it is for an item of evidence. -/
theorem canon_evidence_nf {e : JurisdictionEvidence} (h : Canon R e.asdict) :
    Canon R (e.nf R).asdict := by
  have hkeys : GoodKeys ["evidence_id", "evidence_type", "asserted_jurisdiction", "issuer",
    "subject", "observed_at_ns", "expires_at_ns", "trust_class", "value_digest", "key_id",
    "signature"] := by decide
  rw [JurisdictionEvidence.asdict, canon_ofFields,
    canon_ofEntries_iff (by simpa [JurisdictionEvidence.entries] using hkeys)] at h ⊢
  simp only [JurisdictionEvidence.entries, List.cons_append, List.nil_append, List.map_cons,
    List.map_nil, List.forall_mem_cons, canon_str] at h
  simp [JurisdictionEvidence.entries, JurisdictionEvidence.nf, h, hasSurrogate_nfStr]

/-- An approval has canonical bytes when none of its strings has a surrogate and its integers
print. -/
theorem canon_approval {a : Approval} : Canon R a.asdict ↔
    hasSurrogate a.approver_id = false ∧ hasSurrogate a.role = false ∧
      hasSurrogate a.candidate_digest = false ∧ hasSurrogate a.key_id = false ∧
      hasSurrogate a.signature = false ∧ printsInt a.policy_epoch = true ∧
      printsInt a.approved_at_ns = true ∧ printsInt a.expires_at_ns = true := by
  have hkeys : GoodKeys ["approver_id", "role", "candidate_digest", "policy_epoch",
    "approved_at_ns", "expires_at_ns", "key_id", "signature"] := by decide
  rw [Approval.asdict, canon_ofFields,
    canon_ofEntries_iff (by simpa [Approval.entries] using hkeys)]
  simp only [Approval.entries, List.cons_append, List.nil_append, List.map_cons, List.map_nil,
    List.forall_mem_cons, canon_str, canon_int, List.not_mem_nil, false_implies, implies_true,
    and_true]
  tauto

/-- And for an approval. -/
theorem canon_approval_nf {a : Approval} (h : Canon R a.asdict) : Canon R (a.nf R).asdict := by
  rw [canon_approval] at h ⊢
  obtain ⟨hwho, hrole, hsubject, hkey, hsig, hprints⟩ := h
  exact ⟨hasSurrogate_nfStr hwho, hasSurrogate_nfStr hrole, hsubject, hasSurrogate_nfStr hkey,
    hasSurrogate_nfStr hsig, hprints⟩

/-- Where a bundle has a digest, the bundle of the items' NFC forms has one. -/
theorem exists_bundleDigest_map {α : Type} (value : α → PyVal) {f : α → α}
    (hf : ∀ i, Canon R (value i) → Canon R (value (f i))) {items : List α} {d : PyStr}
    (h : bundleDigest R (fun i => sha256Hex R (value i)) items = .ok d) :
    ∃ d', bundleDigest R (fun i => sha256Hex R (value i)) (items.map f) = .ok d' := by
  refine exists_bundleDigest value ?_
  rw [List.forall_mem_map]
  exact fun i hi => hf i (canon_of_bundleDigest h i hi)

/-! ## The policy in NFC -/

namespace SovereigntyPolicy

/-- The strings of the policy's configuration, those of the listed values apart. -/
def strings (p : SovereigntyPolicy) : List PyStr :=
  p.authority_jurisdiction :: (p.allowed_compute_jurisdictions.getD []
  ++ p.allowed_compute_providers.getD [] ++ p.required_runtime_evidence_digest.toList
  ++ p.trusted_evidence_issuers ++ p.allowed_evidence_types ++ p.allowed_trust_classes
  ++ p.required_approval_roles ++ p.payload_required_fields
  ++ p.payload_numeric_limits.map (fun e => e.1) ++ p.payload_allowed_values.map (fun e => e.1))

/-- The policy is configured in NFC: so are its strings, and the values it lists. -/
structure Nfc (R : Runtime) (p : SovereigntyPolicy) : Prop where
  strings : ∀ s ∈ p.strings, IsNfc R s
  values : ∀ name contains, (name, contains) ∈ p.payload_allowed_values →
    ∀ v, contains v = .ok true → nfVal R v = v

/-- `validate` returns, and allows. -/
def Allows (R : Runtime) (p : SovereigntyPolicy) (c : CandidateAct) (k : ComputeContext)
    (es : List JurisdictionEvidence) (as : List Approval) (now : Int) : Prop :=
  ∃ d, p.validate R c k es as now = .ok d ∧ d.allowed = true

/-- What the policy counts by name is as many under NFC names, and no field of the payload that has
listed values is given an unlisted one under another spelling of its name. -/
structure Apart (R : Runtime) (p : SovereigntyPolicy) (candidate : CandidateAct)
    (evidence : List JurisdictionEvidence) (approvals : List Approval) : Prop where
  evidence_ids : (evidence.map fun i => nfStr R i.evidence_id).Nodup
  issuers : p.min_independent_evidence_issuers ≤
    (evidence.map fun i => nfStr R i.issuer).toFinset.card
  approver_ids : (approvals.map fun a => nfStr R a.approver_id).Nodup
  payload : ∀ entries, candidate.payload = .dict entries →
    ∀ name contains, (name, contains) ∈ p.payload_allowed_values →
      ∀ key value, (.str key, value) ∈ entries → key ≠ name → nfStr R key = name →
        contains (nfVal R value) = .ok true

variable {p : SovereigntyPolicy}

/-- The policy allows what it declares, when everything it decides on has a digest. -/
theorem allows_iff {c : CandidateAct} {k : ComputeContext} {es : List JurisdictionEvidence}
    {as : List Approval} {now : Int} :
    p.Allows R c k es as now ↔ Declared R p c k es as now ∧ (∃ d, k.digest R = .ok d) ∧
      (∃ d, evidenceBundleDigest R es = .ok d) ∧ ∃ d, approvalsDigest R as = .ok d := by
  rw [declared_iff_governs]
  refine ⟨?_, ?_⟩
  · rintro ⟨d, h⟩
    obtain ⟨hg, hkd, hed, had, -⟩ := validate_allowed_iff.1 h
    exact ⟨hg, ⟨_, hkd⟩, ⟨_, hed⟩, ⟨_, had⟩⟩
  · rintro ⟨hg, ⟨kd, hkd⟩, ⟨ed, hed⟩, ⟨ad, had⟩⟩
    exact ⟨⟨true, [], kd, ed, ad⟩, validate_allowed_iff.2 ⟨hg, hkd, hed, had, rfl, rfl⟩⟩

/-! ## Part by part -/

/-- Only a dictionary has a dictionary as its NFC form. -/
theorem nfVal_eq_dict {v : PyVal} {entries : List (PyKey × PyVal)} (h : nfVal R v = .dict entries) :
    ∃ es, v = .dict es ∧ entries = nfEntries R es := by
  cases v <;> simp only [nfVal, PyVal.dict.injEq, reduceCtorEq] at h
  case dict es =>
    exact ⟨es, rfl, h.symm⟩

/-- What a name of the policy finds in a payload, it finds in NFC in the payload's NFC form. -/
theorem lookup_nf {es : List (PyKey × PyVal)} (hc : Canon R (.dict es)) {name : PyStr} {v : PyVal}
    (hname : IsNfc R name) (h : es.lookup (.str name) = some v) :
    (nfEntries R es).lookup (.str name) = some (nfVal R v) := by
  obtain ⟨l, r, rfl, -⟩ := List.lookup_eq_some_iff.1 h
  have hl := lookup_nfEntries hc (List.mem_append_right l List.mem_cons_self)
  rwa [hname] at hl

/-- **The payload**: the checks pass on the NFC form of a payload they pass on, unless a field with
listed values is given an unlisted one under another spelling. -/
theorem payloadOk_nf_iff (hp : p.Nfc R) {payload : PyVal} (hc : Canon R payload)
    (h : PayloadOk p payload) : PayloadOk p (nfVal R payload) ↔
      ∀ entries, payload = .dict entries →
        ∀ name contains, (name, contains) ∈ p.payload_allowed_values →
          ∀ key value, (.str key, value) ∈ entries → key ≠ name → nfStr R key = name →
            contains (nfVal R value) = .ok true := by
  have hnames : ∀ s ∈ p.strings, IsNfc R s := hp.strings
  simp only [strings, List.mem_cons, List.mem_append] at hnames
  refine ⟨?_, ?_⟩
  · rintro hnf entries rfl name contains hmem key value hentry - rfl
    have hallowed := hnf.allowed _ rfl _ contains hmem
    rwa [dictGet, lookup_nfEntries hc hentry] at hallowed
  · intro hlisted
    constructor
    case object =>
      intro hconf
      obtain ⟨entries, rfl⟩ := h.object hconf
      exact ⟨_, rfl⟩
    case required =>
      intro entries heq name hname
      obtain ⟨es, rfl, rfl⟩ := nfVal_eq_dict heq
      obtain ⟨v, hv⟩ := h.required es rfl name hname
      exact ⟨_, lookup_nf hc (hnames name (by tauto)) hv⟩
    case numeric =>
      intro entries heq name minimum maximum hmem
      obtain ⟨es, rfl, rfl⟩ := nfVal_eq_dict heq
      obtain ⟨i, hi, hbounds⟩ := h.numeric es rfl name minimum maximum hmem
      have hname : name ∈ p.payload_numeric_limits.map fun e => e.1 :=
        List.mem_map_of_mem (f := fun e => e.1) hmem
      exact ⟨i, lookup_nf hc (hnames name (by tauto)) hi, hbounds⟩
    case allowed =>
      intro entries heq name contains hmem
      obtain ⟨es, rfl, rfl⟩ := nfVal_eq_dict heq
      have hraw := h.allowed es rfl name contains hmem
      have hname : name ∈ p.payload_allowed_values.map fun e => e.1 :=
        List.mem_map_of_mem (f := fun e => e.1) hmem
      rw [dictGet] at hraw ⊢
      cases hget : (nfEntries R es).lookup (.str name) with
      | none =>
        -- the name was not in the payload either
        cases hold : es.lookup (.str name) with
        | none => rwa [hold] at hraw
        | some v =>
          have hl := lookup_nf hc (hnames name (by tauto)) hold
          rw [hget] at hl
          cases hl
      | some w =>
        obtain ⟨key, value, hentry, hkey, rfl⟩ := mem_of_lookup_nfEntries hget
        by_cases hsame : key = name
        case neg => exact hlisted es rfl name contains hmem key value hentry hsame hkey
        case pos =>
          have hold := lookup_of_mem (nodup_keys_of_canon hc) hentry
          rw [hsame] at hold
          rw [hold] at hraw
          rw [Option.getD_some, hp.values name contains hmem value hraw]
          exact hraw

/-- **The context** passes the policy in NFC when it passes as it is. -/
theorem contextOk_nf (hp : p.Nfc R) {c : CandidateAct} {k : ComputeContext}
    (h : ContextOk p c k) : ContextOk p (c.nf R) (k.nf R) := by
  have hlisted : ∀ s ∈ p.strings, nfStr R s = s := hp.strings
  simp only [strings, List.mem_cons, List.mem_append, Option.mem_toList] at hlisted
  constructor
  case jurisdiction =>
    rw [CandidateAct.nf, h.jurisdiction]
    exact hlisted _ (.inl rfl)
  case policy_epoch => exact h.policy_epoch
  case compute_jurisdiction =>
    intro js hjs
    rw [Option.mem_def] at hjs
    simp only [hjs, Option.getD_some] at hlisted
    exact nfStr_mem (fun s hs => hlisted s (by tauto)) (h.compute_jurisdiction js hjs)
  case compute_provider =>
    intro ps hps
    rw [Option.mem_def] at hps
    simp only [hps, Option.getD_some] at hlisted
    exact nfStr_mem (fun s hs => hlisted s (by tauto)) (h.compute_provider ps hps)
  case runtime_evidence =>
    intro d hd
    rw [ComputeContext.nf, h.runtime_evidence d hd]
    exact hlisted d (by tauto)
  case runtime_binding =>
    rw [CandidateAct.nf, ComputeContext.nf, h.runtime_binding]

/-- An item passes the policy in NFC when it passes as it is. -/
theorem evidenceOk_nf (hp : p.Nfc R) {now : Int} {i : JurisdictionEvidence}
    (h : EvidenceOk p now i) : EvidenceOk p now (i.nf R) := by
  have hlisted : ∀ s ∈ p.strings, IsNfc R s := hp.strings
  simp only [strings, List.mem_cons, List.mem_append] at hlisted
  exact
    { h with
      issuer := fun hne => nfStr_mem (fun s hs => hlisted s (by tauto)) (h.issuer hne)
      evidence_type := fun hne => nfStr_mem (fun s hs => hlisted s (by tauto)) (h.evidence_type hne)
      trust_class := nfStr_mem (fun s hs => hlisted s (by tauto)) h.trust_class }

/-- **The evidence**: it passes the policy in NFC when its names still tell it apart. -/
theorem bundleOk_nf_iff (hp : p.Nfc R) {es : List JurisdictionEvidence} {now : Int}
    (h : BundleOk p es now) : BundleOk p (es.map (JurisdictionEvidence.nf R)) now ↔
      (es.map fun i => nfStr R i.evidence_id).Nodup ∧
        p.min_independent_evidence_issuers ≤ (es.map fun i => nfStr R i.issuer).toFinset.card := by
  refine ⟨?_, ?_⟩
  · intro hnf
    have hids := hnf.ids
    have hissuers := hnf.issuers
    rw [List.map_map] at hids hissuers
    exact ⟨hids, hissuers⟩
  · rintro ⟨hids, hissuers⟩
    constructor
    case ids =>
      rw [List.map_map]
      exact hids
    case count =>
      rw [List.length_map]
      exact h.count
    case issuers =>
      rw [List.map_map]
      exact hissuers
    case items =>
      rw [List.forall_mem_map]
      exact fun i hi => evidenceOk_nf hp (h.items i hi)
    case assertion =>
      intro hreq
      obtain ⟨i, hi, heq⟩ := h.assertion hreq
      refine ⟨_, List.mem_map_of_mem hi, ?_⟩
      rw [JurisdictionEvidence.nf, heq]
      exact hp.strings _ List.mem_cons_self

/-- **The approvals**: they pass the policy in NFC, for the NFC form of the candidate, when the
approvers' names still tell them apart. -/
theorem quorumOk_nf_iff (hp : p.Nfc R) {c : CandidateAct} (hc : Canon R c.asdict)
    {as : List Approval} {now : Int} (h : QuorumOk R p c as now) :
    QuorumOk R p (c.nf R) (as.map (Approval.nf R)) now ↔
      (as.map fun a => nfStr R a.approver_id).Nodup := by
  refine ⟨?_, ?_⟩
  · intro hnf
    have happrovers := hnf.approvers
    rw [List.map_map] at happrovers
    exact happrovers
  · intro happrovers
    constructor
    case approvers =>
      rw [List.map_map]
      exact happrovers
    case items =>
      rw [List.forall_mem_map]
      intro a ha
      have hok := h.items a ha
      refine ⟨?_, hok.policy_epoch, hok.not_early, hok.not_late⟩
      have hsubject := (eqv_governanceSubject (eqv_candidate_nf hc)).sha256Hex_eq
      exact hsubject.symm.trans hok.subject
    case threshold =>
      rw [List.length_map]
      exact h.threshold
    case roles =>
      intro r hr
      obtain ⟨a, ha, rfl⟩ := h.roles r hr
      have hrole : a.role ∈ p.strings := by
        simp only [strings, List.mem_cons, List.mem_append]
        tauto
      exact ⟨_, List.mem_map_of_mem ha, hp.strings _ hrole⟩

/-- **A sovereignty policy in NFC** allows the NFC form of what it allows exactly when what it
counts by name stays apart. -/
theorem sovereignty_allows_nf_iff (hp : p.Nfc R) {c : CandidateAct} (hc : Canon R c.asdict)
    {k : ComputeContext} {es : List JurisdictionEvidence} {as : List Approval} {now : Int}
    (h : p.Allows R c k es as now) :
    p.Allows R (c.nf R) (k.nf R) (es.map (JurisdictionEvidence.nf R)) (as.map (Approval.nf R)) now ↔
      Apart R p c es as := by
  obtain ⟨hdecl, ⟨kd, hkd⟩, ⟨ed, hed⟩, ⟨ad, had⟩⟩ := allows_iff.1 h
  have hpayload : Canon R c.payload := (candidateCanon_iff.1 hc).payload
  rw [allows_iff]
  refine ⟨?_, ?_⟩
  · rintro ⟨hnf, -⟩
    obtain ⟨hids, hissuers⟩ := (bundleOk_nf_iff hp hdecl.evidence).1 hnf.evidence
    have happrovers := (quorumOk_nf_iff hp hc hdecl.approvals).1 hnf.approvals
    exact ⟨hids, hissuers, happrovers, (payloadOk_nf_iff hp hpayload hdecl.payload).1 hnf.payload⟩
  · intro hapart
    refine ⟨?_, ?_, ?_, ?_⟩
    · exact
        { context := contextOk_nf hp hdecl.context
          evidence := (bundleOk_nf_iff hp hdecl.evidence).2 ⟨hapart.evidence_ids, hapart.issuers⟩
          approvals := (quorumOk_nf_iff hp hc hdecl.approvals).2 hapart.approver_ids
          payload := (payloadOk_nf_iff hp hpayload hdecl.payload).2 hapart.payload }
    · exact (canon_compute_nf (canon_of_sha256Hex hkd)).sha256Hex
    · exact exists_bundleDigest_map JurisdictionEvidence.asdict (fun _ => canon_evidence_nf) hed
    · exact exists_bundleDigest_map Approval.asdict (fun _ => canon_approval_nf) had

end SovereigntyPolicy

open SovereigntyPolicy

/-- **What another spelling buys.** Policies in NFC that allow an input allow its NFC form, too,
when the NFC form of the source is not revoked and what the sovereignty policy counts by name stays
apart, and only then. -/
theorem allows_nf_iff :
    (∀ (p : Policy) (c : CandidateAct) (now : Int), p.Nfc R → p.Allows c now →
      (p.Allows (c.nf R) now ↔ nfStr R c.source ∉ p.revoked_sources)) ∧
    ∀ (p : SovereigntyPolicy) (c : CandidateAct) (k : ComputeContext)
      (es : List JurisdictionEvidence) (as : List Approval) (now : Int),
      p.Nfc R → Canon R c.asdict → p.Allows R c k es as now →
      (p.Allows R (c.nf R) (k.nf R) (es.map (JurisdictionEvidence.nf R))
          (as.map (Approval.nf R)) now ↔
        Apart R p c es as) :=
  ⟨fun _ _ _ hp h => policy_allows_nf_iff hp h,
    fun _ _ _ _ _ _ hp hc h => sovereignty_allows_nf_iff hp hc h⟩

/-! ## Two spellings of one name -/

/-- `é`, one code point. -/
def acute : PyStr := ofText [Char.ofNat 0xE9]

/-- `e` and a combining acute accent. -/
def acuteDecomposed : PyStr := ofText ['e', Char.ofNat 0x301]

/-- The sample policy with the source `é` revoked. -/
def revokingPolicy : Policy := { samplePolicy with revoked_sources := [acute] }

/-- The sample act from the revoked source, in the other spelling. -/
def revokedCandidate : CandidateAct := { sampleCandidate with source := acuteDecomposed }

/-- The sample policy with two approvers asked for. -/
def twoApproversPolicy : SovereigntyPolicy :=
  { sampleSovereigntyPolicy with approval_threshold := 2 }

/-- Two approvals by the approver `é`, one in each spelling. -/
def respelledApprovals (subject : PyStr) : List Approval :=
  [{ sampleApproval subject [] with approver_id := acute },
   { sampleApproval subject [] with approver_id := acuteDecomposed }]

/-- The policy spells its source in NFC. -/
theorem nfc_revokingPolicy : revokingPolicy.Nfc sampleRuntime := by
  unfold Policy.Nfc IsNfc
  decide

/-- The sample policy is written in ASCII. -/
theorem nfc_sampleSovereigntyPolicy : sampleSovereigntyPolicy.Nfc sampleRuntime := by
  refine ⟨?_, fun _ _ h => absurd h List.not_mem_nil⟩
  unfold IsNfc
  decide

/-- So is the one with two approvers. -/
theorem nfc_twoApproversPolicy : twoApproversPolicy.Nfc sampleRuntime :=
  { nfc_sampleSovereigntyPolicy with }

/-- The sample policy with another source revoked. -/
def otherRevokedPolicy : Policy := { samplePolicy with revoked_sources := [py "agent-B"] }

/-- The approval of an act by the approver `é`, spelled as `e` and an accent. -/
def respelledApproval (subject : PyStr) : Approval :=
  { sampleApproval subject [] with approver_id := acuteDecomposed }

/-- It can be hashed like the other ones. -/
theorem canon_respelledApproval {d : PyStr} (hd : Inert d) :
    Canon sampleRuntime (respelledApproval d).asdict := by
  have hprints : printsInt 7 = true ∧ printsInt 100 = true ∧ printsInt 60000 = true := by decide
  exact canon_approval.2 ⟨rfl, rfl, hd.hasSurrogate, rfl, rfl, hprints⟩

/-- The sample policy allows the act in another spelling, with an approval in another spelling. -/
theorem respelled_declared : ∃ d, Inert d ∧
    Declared sampleRuntime sampleSovereigntyPolicy respelledCandidate sampleCompute
      [sampleEvidence []] [respelledApproval d] 200 := by
  obtain ⟨d, hd⟩ := (eqv_governanceSubject sample_eqv).canon.sha256Hex
  have hdecl : Declared sampleRuntime sampleSovereigntyPolicy respelledCandidate sampleCompute
      [sampleEvidence []] [sampleApproval d []] 200 :=
    declared_iff_governs.2 (sample_governs (sample_fits hd).2 (fitEvidence_singleton [])
      (by decide) (by decide))
  have hok := hdecl.approvals.items _ (List.mem_singleton.2 rfl)
  exact ⟨d, inert_of_sha256Hex hd,
    { hdecl with
      approvals :=
        { approvers := List.nodup_singleton _
          items := List.forall_mem_singleton.2 { hok with }
          threshold := hdecl.approvals.threshold
          roles := fun r hr => ⟨_, List.mem_singleton.2 rfl, (List.mem_singleton.1 hr).symm⟩ } }⟩

/-- A source that is not revoked and an approver that approves alone, both spelled as `e` and an
accent: what is allowed is not in NFC, and its NFC form is allowed. -/
theorem allows_nf_iff_sample :
    otherRevokedPolicy.Allows (revokedCandidate.nf sampleRuntime) 200 ∧
    revokedCandidate.nf sampleRuntime ≠ revokedCandidate ∧
    ∃ d, sampleSovereigntyPolicy.Allows sampleRuntime (respelledCandidate.nf sampleRuntime)
        (sampleCompute.nf sampleRuntime)
        ([sampleEvidence []].map (JurisdictionEvidence.nf sampleRuntime))
        ([respelledApproval d].map (Approval.nf sampleRuntime)) 200 ∧
      respelledCandidate.nf sampleRuntime ≠ respelledCandidate ∧
      (respelledApproval d).nf sampleRuntime ≠ respelledApproval d := by
  refine ⟨?_, ?_, ?_⟩
  · refine ((allows_nf_iff (R := sampleRuntime)).1 otherRevokedPolicy revokedCandidate 200
      ?_ ?_).2 (by decide)
    · unfold Policy.Nfc IsNfc
      decide
    · rw [Policy.allows_iff]
      decide
  · intro h
    exact absurd (congrArg CandidateAct.source h) (by decide)
  · obtain ⟨d, hdi, hdecl⟩ := respelled_declared
    have had := exists_bundleDigest Approval.asdict
      (List.forall_mem_singleton.2 (canon_respelledApproval hdi))
    refine ⟨d, ((allows_nf_iff (R := sampleRuntime)).2 sampleSovereigntyPolicy respelledCandidate
      sampleCompute _ [respelledApproval d] 200 nfc_sampleSovereigntyPolicy sample_canon.2
      (allows_iff.2 ⟨hdecl, sample_digests.1, sample_digests.2, had⟩)).2 ?_, ?_, ?_⟩
    · exact
        { evidence_ids := List.nodup_singleton _
          issuers := by decide
          approver_ids := List.nodup_singleton _
          payload := fun _ _ _ _ h => absurd h List.not_mem_nil }
    · intro h
      exact absurd (congrArg CandidateAct.nonce h) (by decide)
    · intro h
      exact absurd (congrArg Approval.approver_id h)
        (by decide : nfStr sampleRuntime acuteDecomposed ≠ acuteDecomposed)

/-- **One name in two spellings**: a candidate from a revoked source is allowed, and so are two
approvals by one approver where two approvers are asked for. -/
theorem respelled_allowed :
    (revokingPolicy.Nfc sampleRuntime ∧ Canon sampleRuntime revokedCandidate.asdict ∧
      revokingPolicy.Allows revokedCandidate 200 ∧
      ¬ revokingPolicy.Allows (revokedCandidate.nf sampleRuntime) 200) ∧
    ∃ d, governanceSubjectDigest sampleRuntime sampleCandidate = .ok d ∧
      twoApproversPolicy.Nfc sampleRuntime ∧ Canon sampleRuntime sampleCandidate.asdict ∧
      twoApproversPolicy.Allows sampleRuntime sampleCandidate sampleCompute [sampleEvidence []]
        (respelledApprovals d) 200 ∧
      ¬ twoApproversPolicy.Allows sampleRuntime (sampleCandidate.nf sampleRuntime)
        (sampleCompute.nf sampleRuntime)
        ([sampleEvidence []].map (JurisdictionEvidence.nf sampleRuntime))
        ((respelledApprovals d).map (Approval.nf sampleRuntime)) 200 := by
  refine ⟨?_, ?_⟩
  · refine ⟨nfc_revokingPolicy, ⟨_, rfl, rfl⟩, ?_, ?_⟩
    · rw [Policy.allows_iff]
      decide
    · rw [Policy.allows_iff]
      decide
  · obtain ⟨d, hdi, hd, hdecl⟩ := sample_declared
    refine ⟨d, hd, nfc_twoApproversPolicy, sample_canon.1, allows_iff.2 ⟨?_, sample_digests.1,
      sample_digests.2, ?_⟩, ?_⟩
    · have hok := hdecl.approvals.items _ (List.mem_singleton.2 rfl)
      exact
        { context := { hdecl.context with }
          evidence :=
            { hdecl.evidence with
              items := fun i hi => { hdecl.evidence.items i hi with } }
          approvals :=
            { approvers := (by decide : [acute, acuteDecomposed].Nodup)
              items := by
                simp only [respelledApprovals, List.forall_mem_cons, List.not_mem_nil,
                  false_implies, implies_true, and_true]
                exact ⟨{ hok with }, { hok with }⟩
              threshold := (by decide : (2 : Int) ≤ 2)
              roles := fun r hr => ⟨_, List.mem_cons_self, (List.mem_singleton.1 hr).symm⟩ }
          payload := { hdecl.payload with } }
    · refine exists_bundleDigest Approval.asdict ?_
      have hprints : printsInt 7 = true ∧ printsInt 100 = true ∧ printsInt 60000 = true := by decide
      simp only [respelledApprovals, List.forall_mem_cons, List.not_mem_nil, false_implies,
        implies_true, and_true]
      exact ⟨canon_approval.2 ⟨rfl, rfl, hdi.hasSurrogate, rfl, rfl, hprints⟩,
        canon_respelledApproval hdi⟩
    · intro h
      obtain ⟨hnf, -⟩ := allows_iff.1 h
      have happrovers := hnf.approvals.approvers
      have hsame : nfStr sampleRuntime acute = nfStr sampleRuntime acuteDecomposed := by decide
      simp [respelledApprovals, Approval.nf, hsame] at happrovers

end Finality
