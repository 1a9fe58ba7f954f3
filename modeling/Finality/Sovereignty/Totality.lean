import Finality.Python.Sets
import Finality.Sovereignty.Order

/-!
# When the policy returns a decision

`validate` is meant to return a decision on whatever the compute plane submits, with a reason for
each constraint that is violated. Its comparisons and lookups do not raise, and the digests it takes
exist where strings are scalar and integers print. What is left is `payload.get(name) not in
allowed`: a list or a dictionary has no hash, so asking whether it is in a frozenset raises
(`validate_returns_iff`).
-/

namespace Finality

open Checks

/-! ## Fields that are scalar strings or integers that print -/

/-- The strings among the fields are sequences of scalar values. -/
def ScalarStrings (fields : List (String × PyVal)) : Prop :=
  ∀ name s, (name, .str s) ∈ fields → hasSurrogate s = false

@[simp] theorem scalarStrings_nil : ScalarStrings [] := by
  intro name s h
  cases h

/-- A string field counts, another one does not. -/
theorem scalarStrings_cons {name : String} {v : PyVal} {es : List (String × PyVal)} :
    ScalarStrings ((name, v) :: es) ↔ (∀ s, v = .str s → hasSurrogate s = false) ∧
      ScalarStrings es := by
  refine ⟨?_, ?_⟩
  · intro h
    refine ⟨fun s hs => h name s (hs ▸ List.mem_cons_self), fun n s hs => ?_⟩
    exact h n s (List.mem_cons_of_mem _ hs)
  · intro h n s hs
    rcases List.mem_cons.1 hs with heq | hs
    · exact h.1 s (Prod.mk.inj heq).2.symm
    · exact h.2 n s hs

@[simp] theorem scalarStrings_str {name : String} {s : PyStr} {es : List (String × PyVal)} :
    ScalarStrings ((name, .str s) :: es) ↔ hasSurrogate s = false ∧ ScalarStrings es := by
  simp [scalarStrings_cons]

@[simp] theorem scalarStrings_int {name : String} {i : Int} {es : List (String × PyVal)} :
    ScalarStrings ((name, .int i) :: es) ↔ ScalarStrings es := by
  simp [scalarStrings_cons]

/-- The integers among the fields have no more digits than Python prints. -/
def IntegersPrint (fields : List (String × PyVal)) : Prop :=
  ∀ name i, (name, .int i) ∈ fields → printsInt i = true

@[simp] theorem integersPrint_nil : IntegersPrint [] := by
  intro name i h
  cases h

@[simp] theorem integersPrint_str {name : String} {s : PyStr} {es : List (String × PyVal)} :
    IntegersPrint ((name, .str s) :: es) ↔ IntegersPrint es := by
  simp [IntegersPrint]

@[simp] theorem integersPrint_int {name : String} {i : Int} {es : List (String × PyVal)} :
    IntegersPrint ((name, .int i) :: es) ↔ printsInt i = true ∧ IntegersPrint es := by
  refine ⟨?_, ?_⟩
  · intro h
    exact ⟨h name i List.mem_cons_self, fun n j hj => h n j (List.mem_cons_of_mem _ hj)⟩
  · rintro ⟨hi, hes⟩ n j hj
    rcases List.mem_cons.1 hj with heq | hj
    · obtain ⟨-, hv⟩ := Prod.mk.inj heq
      exact PyVal.int.inj hv ▸ hi
    · exact hes n j hj

variable {R : Runtime}

/-- An artefact of scalar strings and integers has canonical bytes when its integers print. -/
theorem canon_iff_integersPrint {es : List (String × PyVal)} (hkeys : GoodKeys (es.map Prod.fst))
    (htypes : ∀ e ∈ es, (∃ s, e.2 = .str s) ∨ ∃ i, e.2 = .int i) (h : ScalarStrings es) :
    Canon R (.ofEntries es) ↔ IntegersPrint es := by
  rw [canon_ofEntries_iff hkeys, List.forall_mem_map]
  refine ⟨?_, ?_⟩
  · intro hcanon name i hi
    exact canon_int.1 (hcanon (name, .int i) hi)
  · intro hprints e he
    rcases htypes e he with ⟨s, hs⟩ | ⟨i, hi⟩
    · rw [hs, canon_str]
      exact h e.1 s (hs ▸ he)
    · rw [hi, canon_int]
      exact hprints e.1 i (hi ▸ he)


/-- A compute context of scalar strings has a digest. -/
theorem exists_computeDigest {k : ComputeContext} (h : ScalarStrings k.fields) :
    ∃ d, k.digest R = .ok d := by
  have hkeys : GoodKeys ["provider_id", "compute_jurisdiction", "workload_id", "model_id",
    "runtime_evidence_digest", "session_id"] := by decide
  refine (canon_ofFields.2 ((canon_iff_integersPrint
    (by simpa [ComputeContext.fields] using hkeys) (by simp [ComputeContext.fields]) h).2
    fun name i hi => ?_)).sha256Hex
  -- there is no integer among its fields
  simp [ComputeContext.fields] at hi

/-- Evidence of scalar strings has a bundle digest when its integers print. -/
theorem exists_evidenceBundleDigest {es : List JurisdictionEvidence}
    (h : ∀ e ∈ es, ScalarStrings (e.entries ++ [("signature", .str e.signature)])) :
    (∃ d, evidenceBundleDigest R es = .ok d) ↔ ∀ e ∈ es, IntegersPrint e.entries := by
  have hkeys : GoodKeys ["evidence_id", "evidence_type", "asserted_jurisdiction", "issuer",
    "subject", "observed_at_ns", "expires_at_ns", "trust_class", "value_digest", "key_id",
    "signature"] := by decide
  refine exists_bundleDigest_iff.trans (forall₂_congr fun e he => ?_)
  rw [JurisdictionEvidence.asdict, canon_ofFields, canon_iff_integersPrint
    (by simpa [JurisdictionEvidence.entries] using hkeys) (by simp [JurisdictionEvidence.entries])
    (h e he)]
  simp [IntegersPrint]

/-- Approvals of scalar strings have a bundle digest when their integers print. -/
theorem exists_approvalsDigest {as : List Approval}
    (h : ∀ a ∈ as, ScalarStrings (a.entries ++ [("signature", .str a.signature)])) :
    (∃ d, approvalsDigest R as = .ok d) ↔ ∀ a ∈ as, IntegersPrint a.entries := by
  have hkeys : GoodKeys ["approver_id", "role", "candidate_digest", "policy_epoch",
    "approved_at_ns", "expires_at_ns", "key_id", "signature"] := by decide
  refine exists_bundleDigest_iff.trans (forall₂_congr fun a ha => ?_)
  rw [Approval.asdict, canon_ofFields, canon_iff_integersPrint
    (by simpa [Approval.entries] using hkeys) (by simp [Approval.entries]) (h a ha)]
  simp [IntegersPrint]

/-- A candidate whose context has canonical bytes has a subject digest when it has canonical bytes
itself. -/
theorem exists_subjectDigest {c : CandidateAct} (hctx : Canon R c.authority_context.toVal) :
    (∃ d, governanceSubjectDigest R c = .ok d) ↔ Canon R c.asdict := by
  refine ⟨?_, ?_⟩
  · intro h
    obtain ⟨d, hd⟩ := h
    have hsubject := candidateCanon_iff.1 (canon_of_sha256Hex hd)
    exact candidateCanon_iff.2 { hsubject with authority_context := hctx }
  · intro h
    exact (eqv_governanceSubject h.eqv).canon.sha256Hex

namespace SovereigntyPolicy

variable {p : SovereigntyPolicy}

/-! ## The payload -/

/-- The checks of the payload return when every value can be looked up in what is listed for it. -/
theorem exists_payloadReasons {payload : PyVal} : (∃ rs, p.payloadReasons payload = .ok rs) ↔
    ∀ entries, payload = .dict entries → ∀ name contains,
      (name, contains) ∈ p.payload_allowed_values →
        ∃ b, contains (dictGet entries name) = .ok b := by
  cases payload with
  | dict entries =>
    have hmap : ∀ e : PyStr × (PyVal → Except PyErr Bool),
        (∃ rs, (e.2 (dictGet entries e.1)).map (fun b : Bool =>
          if b then [] else [py "payload_value_not_allowed:" ++ e.1]) = .ok rs) ↔
        ∃ b, e.2 (dictGet entries e.1) = .ok b := by
      intro e
      simp only [map_eq_ok]
      refine ⟨?_, ?_⟩
      · intro h
        obtain ⟨-, b, hb, -⟩ := h
        exact ⟨b, hb⟩
      · intro h
        obtain ⟨b, hb⟩ := h
        exact ⟨_, b, hb, rfl⟩
    simp only [payloadReasons, bind_eq_ok, mapM_eq_ok]
    refine ⟨?_, ?_⟩
    · rintro ⟨-, rs, hrs, -⟩ entries' heq name contains hmem
      cases heq
      obtain ⟨r, -, hr⟩ := exists_mem_of_forall₂ hrs hmem
      exact (hmap (name, contains)).1 ⟨r, hr⟩
    · intro h
      obtain ⟨rs, hrs⟩ := exists_forall₂.1 fun e he => (hmap e).2 (h entries rfl e.1 e.2 he)
      exact ⟨_, rs, hrs, rfl⟩
  | _ =>
    refine ⟨?_, ?_⟩
    · rintro - entries ⟨⟩
    · intro
      exact ⟨_, rfl⟩

/-- Every constraint that the payload violates is recorded as a reason. -/
structure PayloadRecorded (p : SovereigntyPolicy) (payload : PyVal) (reasons : List PyStr) :
    Prop where
  object : (p.payload_required_fields ≠ [] ∨ p.payload_numeric_limits ≠ [] ∨
    p.payload_allowed_values ≠ []) → (∀ entries, payload ≠ .dict entries) →
      py "payload_not_object" ∈ reasons
  required : ∀ entries, payload = .dict entries → ∀ name ∈ p.payload_required_fields,
    entries.lookup (.str name) = none → py "payload_field_missing:" ++ name ∈ reasons
  numeric : ∀ entries, payload = .dict entries →
    ∀ name minimum maximum, (name, minimum, maximum) ∈ p.payload_numeric_limits →
      (∀ value, dictGet entries name ≠ .int value) →
        py "payload_numeric_invalid:" ++ name ∈ reasons
  range : ∀ entries, payload = .dict entries →
    ∀ name minimum maximum, (name, minimum, maximum) ∈ p.payload_numeric_limits →
      ∀ value, dictGet entries name = .int value → value < minimum ∨ maximum < value →
        py "payload_numeric_out_of_range:" ++ name ∈ reasons
  allowed : ∀ entries, payload = .dict entries → ∀ name contains,
    (name, contains) ∈ p.payload_allowed_values → contains (dictGet entries name) = .ok false →
      py "payload_value_not_allowed:" ++ name ∈ reasons

/-- What is recorded among some reasons is recorded among more. -/
theorem PayloadRecorded.mono {payload : PyVal} {rs rs' : List PyStr} (hsub : rs ⊆ rs')
    (h : PayloadRecorded p payload rs) : PayloadRecorded p payload rs' where
  object := fun hconf hdict => hsub (h.object hconf hdict)
  required := fun entries he name hname hnone => hsub (h.required entries he name hname hnone)
  numeric := fun entries he name lo hi hmem hint => hsub (h.numeric entries he name lo hi hmem hint)
  range := fun entries he name lo hi hmem value hv hout =>
    hsub (h.range entries he name lo hi hmem value hv hout)
  allowed := fun entries he name contains hmem hfalse =>
    hsub (h.allowed entries he name contains hmem hfalse)

/-- The checks of the payload record what it violates. -/
theorem payloadRecorded_of_ok {payload : PyVal} {rs : List PyStr}
    (h : p.payloadReasons payload = .ok rs) : PayloadRecorded p payload rs := by
  cases payload with
  | dict entries =>
    simp only [payloadReasons, bind_eq_ok, mapM_eq_ok] at h
    obtain ⟨allowed, hallowed, h⟩ := h
    obtain rfl := Except.ok.inj h
    constructor
    case object => exact fun _ hdict => absurd rfl (hdict entries)
    case required =>
      rintro _ ⟨⟩ name hname hnone
      refine List.mem_append_left _ (List.mem_append_left _ (List.mem_flatMap.2 ⟨name, hname, ?_⟩))
      rw [hnone]
      exact List.mem_singleton.2 rfl
    case numeric =>
      rintro _ ⟨⟩ name lo hi hmem hint
      refine List.mem_append_left _ (List.mem_append_right _ (List.mem_flatMap.2 ⟨_, hmem, ?_⟩))
      simp only
      cases hv : dictGet entries name with
      | int value => exact absurd hv (hint value)
      | _ => exact List.mem_singleton.2 rfl
    case range =>
      rintro _ ⟨⟩ name lo hi hmem value hv hout
      refine List.mem_append_left _ (List.mem_append_right _ (List.mem_flatMap.2 ⟨_, hmem, ?_⟩))
      simp only [hv, numericReasons]
      rw [if_pos hout]
      exact List.mem_singleton.2 rfl
    case allowed =>
      rintro _ ⟨⟩ name contains hmem hfalse
      obtain ⟨r, hr, heq⟩ := exists_mem_of_forall₂ hallowed hmem
      refine List.mem_append_right _ (List.mem_flatten.2 ⟨r, hr, ?_⟩)
      simp only [hfalse, map_ok] at heq
      rw [← Except.ok.inj heq]
      exact List.mem_singleton.2 rfl
  | _ =>
    constructor
    case object =>
      intro hconf _
      obtain rfl := Except.ok.inj h
      have hconf : p.payload_required_fields ≠ [] ∨ p.payload_numeric_limits.isEmpty = false ∨
          p.payload_allowed_values.isEmpty = false := by
        simpa only [List.isEmpty_eq_false_iff] using hconf
      rw [reasonIf, if_pos hconf]
      exact List.mem_singleton.2 rfl
    all_goals rintro _ ⟨⟩

/-- The reasons of the payload are among those of the decision. -/
theorem payloadRecorded_of_validate {c : CandidateAct} {k : ComputeContext}
    {es : List JurisdictionEvidence} {as : List Approval} {now : Int} {d : GovernanceDecision}
    (h : p.validate R c k es as now = .ok d) : PayloadRecorded p c.payload d.reasons := by
  simp only [validate, bind_eq_ok] at h
  obtain ⟨given, -, rs, hrs, kd, -, ed, -, ad, -, h⟩ := h
  obtain rfl := Except.ok.inj h
  exact (payloadRecorded_of_ok hrs).mono fun r hr => List.mem_append_right _ hr

/-! ## Allowed values from frozensets -/

variable {C : PyClasses}

/-- `payload_allowed_values`, a frozenset for each field. -/
def allowedValues (sets : List (PyStr × PyFrozenSet C)) :
    List (PyStr × (PyVal → Except PyErr Bool)) :=
  sets.map fun e => (e.1, e.2.contains)

/-- With frozensets the checks of the payload return when every listed field holds a value with a
hash. -/
theorem exists_payloadReasons_sets {sets : List (PyStr × PyFrozenSet C)}
    (hsets : p.payload_allowed_values = allowedValues sets) {payload : PyVal} :
    (∃ rs, p.payloadReasons payload = .ok rs) ↔
      ∀ entries, payload = .dict entries → ∀ name s, (name, s) ∈ sets →
        Hashable C (dictGet entries name) := by
  rw [exists_payloadReasons, hsets]
  refine ⟨?_, ?_⟩
  · intro h entries he name s hmem
    exact PyFrozenSet.exists_contains.1 (h entries he name s.contains
      (List.mem_map_of_mem (f := fun e : PyStr × PyFrozenSet C => (e.1, e.2.contains)) hmem))
  · intro h entries he name contains hmem
    obtain ⟨⟨name', s⟩, hs, heq⟩ := List.mem_map.1 hmem
    obtain ⟨rfl, rfl⟩ := Prod.mk.inj heq
    exact PyFrozenSet.exists_contains.2 (h entries he name' s hs)

/-- **When the policy returns a decision.** For a policy with frozensets of allowed values, a
candidate whose context has canonical bytes, and a compute context, evidence and approvals of scalar
strings, `validate` returns a decision that allows what the policy declares and records what the
payload violates, exactly when the integers of the evidence and the approvals print, no listed field
of the payload holds a value without a hash, and, where there are approvals, the candidate has
canonical bytes: its own strings are scalar and its own integers print. -/
theorem validate_returns_iff {sets : List (PyStr × PyFrozenSet C)}
    (hsets : p.payload_allowed_values = allowedValues sets) {c : CandidateAct} {k : ComputeContext}
    {es : List JurisdictionEvidence} {as : List Approval} (now : Int)
    (hctx : Canon R c.authority_context.toVal) (hk : ScalarStrings k.fields)
    (hes : ∀ e ∈ es, ScalarStrings (e.entries ++ [("signature", .str e.signature)]))
    (has : ∀ a ∈ as, ScalarStrings (a.entries ++ [("signature", .str a.signature)])) :
    (∃ d, p.validate R c k es as now = .ok d ∧
      (d.allowed = true ↔ Declared R p c k es as now) ∧ PayloadRecorded p c.payload d.reasons) ↔
    (∀ e ∈ es, IntegersPrint e.entries) ∧ (∀ a ∈ as, IntegersPrint a.entries) ∧
      (as ≠ [] → Canon R c.asdict) ∧ ∀ entries, c.payload = .dict entries →
        ∀ name s, (name, s) ∈ sets → Hashable C (dictGet entries name) := by
  rw [← exists_payloadReasons_sets hsets, ← exists_subjectDigest hctx,
    ← exists_evidenceBundleDigest hes, ← exists_approvalsDigest has]
  refine ⟨?_, ?_⟩
  · intro h
    obtain ⟨d, hd, -⟩ := h
    obtain ⟨hsubject, hpayload, -, hed, had⟩ := exists_validate.1 ⟨d, hd⟩
    exact ⟨hed, had, hsubject, hpayload⟩
  · intro h
    obtain ⟨hed, had, hsubject, hpayload⟩ := h
    obtain ⟨d, hd⟩ :=
      exists_validate.2 ⟨hsubject, hpayload, exists_computeDigest hk, hed, had⟩
    exact ⟨d, hd, (allowed_iff_governs hd).trans declared_iff_governs.symm,
      payloadRecorded_of_validate hd⟩

/-! ## A list under a listed field -/

/-- Of the classes of the program nothing is asked in the samples. -/
def sampleClasses : PyClasses := ⟨fun _ => .ok (), fun _ _ => false⟩

/-- `frozenset({"EUR"})` -/
def sampleCurrencies : PyFrozenSet sampleClasses := ⟨[.str (py "EUR")], by
  rw [List.forall_mem_singleton]
  rfl⟩

/-- The sample policy with an allowed currency. -/
def currencyPolicy : SovereigntyPolicy :=
  { sampleSovereigntyPolicy with
    payload_allowed_values := allowedValues [(py "currency", sampleCurrencies)] }

/-- With a string for the currency the policy returns a decision, here on one item of evidence and
an approval. -/
theorem validate_returns_iff_sample : ∃ d, currencyPolicy.validate sampleRuntime sampleCandidate
    sampleCompute [sampleEvidence []] [sampleApproval (py "00") []] 200 = .ok d := by
  have hk : ScalarStrings sampleCompute.fields := by
    simp [ComputeContext.fields, sampleCompute, py]
  have hes : ∀ e ∈ [sampleEvidence []],
      ScalarStrings (e.entries ++ [("signature", .str e.signature)]) := by
    rw [List.forall_mem_singleton]
    simp [JurisdictionEvidence.entries, sampleEvidence, issuerKey, py,
      show hasSurrogate [] = false from rfl]
  have has : ∀ a ∈ [sampleApproval (py "00") []],
      ScalarStrings (a.entries ++ [("signature", .str a.signature)]) := by
    rw [List.forall_mem_singleton]
    simp [Approval.entries, sampleApproval, approverKey, py,
      show hasSurrogate [] = false from rfl]
  have hprints : (∀ e ∈ [sampleEvidence []], IntegersPrint e.entries) ∧
      ∀ a ∈ [sampleApproval (py "00") []], IntegersPrint a.entries := by
    have hints : printsInt 7 = true ∧ printsInt 100 = true ∧ printsInt 60000 = true := by decide
    simp [JurisdictionEvidence.entries, sampleEvidence, Approval.entries, sampleApproval, hints]
  have hsets : currencyPolicy.payload_allowed_values =
      allowedValues [(py "currency", sampleCurrencies)] := rfl
  obtain ⟨d, hd, -⟩ := (validate_returns_iff hsets (c := sampleCandidate) 200 sample_context hk hes
    has).2 ⟨hprints.1, hprints.2, fun _ => sample_canon.1, fun entries hentries name s hmem => by
      cases hentries
      obtain ⟨rfl, rfl⟩ := Prod.mk.inj (List.mem_singleton.1 hmem)
      rfl⟩
  exact ⟨d, hd⟩

/-- The payload with a list under the field `currency`. -/
def listedCurrencies : PyVal := .dict [(.str (py "currency"), .list [.str (py "EUR")])]

/-- **A list of currencies** has canonical bytes, as the context has, and makes the policy raise a
`TypeError`. -/
theorem list_of_currencies :
    (∃ b, canonicalBytes sampleRuntime listedCurrencies = .ok b) ∧
    Canon sampleRuntime sampleCandidate.authority_context.toVal ∧
    ScalarStrings sampleCompute.fields ∧
    ∃ message, currencyPolicy.validate sampleRuntime
      { sampleCandidate with payload := listedCurrencies } sampleCompute [] [] 200 =
        .error (.typeError message) := by
  refine ⟨⟨_, rfl⟩, sample_context, ?_, _, rfl⟩
  simp [ComputeContext.fields, sampleCompute, py]

end SovereigntyPolicy

end Finality
