import Mathlib.Logic.Relation
import Finality.Sovereignty.Declared

/-!
# Binding and the subject digest

An approval names the subject digest of an act, and its own digest is then bound into the context of
that act. There is no circle because the subject leaves out the entries that binding writes. Two
functions have to agree on those keys: `bind_governance_context` lists them and
`governance_subject_digest` filters by a constant. Binding replaces all five entries, so the last
binding counts (`bind_of_bind`), and the subject digest binds everything else
(`sameSubject_of_digest`).
-/

namespace Finality

open Checks

/-! ## Binding -/

variable {R : Runtime}

/-- **The last binding counts**: what was bound before leaves no trace. -/
theorem bind_of_bind {c c₁ : CandidateAct} {k k' : ComputeContext}
    {es es' : List JurisdictionEvidence} {as as' : List Approval}
    (h : bindGovernanceContext R c k es as = .ok c₁) :
    bindGovernanceContext R c₁ k' es' as' = bindGovernanceContext R c k' es' as' := by
  obtain ⟨kd, -, h⟩ := bind_eq_ok.1 h
  obtain ⟨ed, -, h⟩ := bind_eq_ok.1 h
  obtain ⟨ad, -, h⟩ := bind_eq_ok.1 h
  obtain rfl := Except.ok.inj h
  refine bind_congr_ok fun kd' _ => bind_congr_ok fun ed' _ => bind_congr_ok fun ad' _ => ?_
  have hkeys : (requiredEntries kd ed ad k).map Prod.fst =
      (requiredEntries kd' ed' ad' k').map Prod.fst := rfl
  rw [Updates.foldl_insert_foldl_insert (f := PyVal.str) hkeys
    (by rw [keys_requiredEntries]; decide)]

/-- An act and what becomes of it when it is bound, any number of times. -/
def Rebound (R : Runtime) : CandidateAct → CandidateAct → Prop :=
  Relation.ReflTransGen fun c c' => ∃ k es as, bindGovernanceContext R c k es as = .ok c'

/-- Binding leaves the subject digest as it was. -/
theorem digest_of_bind {c c' : CandidateAct} {k : ComputeContext} {es : List JurisdictionEvidence}
    {as : List Approval} (h : bindGovernanceContext R c k es as = .ok c') :
    governanceSubjectDigest R c' = governanceSubjectDigest R c := by
  obtain ⟨-, -, -, -, -, -, -, -, hsubject⟩ := bindGovernanceContext_ok h
  rw [governanceSubjectDigest, governanceSubjectDigest, hsubject]

/-- A candidate that is bound again and again keeps its subject digest. -/
theorem digest_of_rebound {c c' : CandidateAct} (h : Rebound R c c') :
    governanceSubjectDigest R c' = governanceSubjectDigest R c := by
  induction h with
  | refl => rfl
  | tail _ hbind ih =>
    obtain ⟨k, es, as, hbind⟩ := hbind
    exact (digest_of_bind hbind).trans ih

/-! ## What the subject digest covers -/

/-- The entries of one context outside the reserved keys are in another, up to canonical
equality. -/
def EntriesIn (R : Runtime) (d d' : PyDict PyVal) : Prop :=
  ∀ k v, k ∉ governanceKeys → d.lookup k = some v →
    ∃ k' v', k' ∉ governanceKeys ∧ d'.lookup k' = some v' ∧ NfcEq R k k' ∧ Eqv R v v'

/-- Two candidates are one act up to what binding writes: they agree in every ordinary field and in
the entries of their contexts outside the reserved keys. -/
structure SameSubject (R : Runtime) (c c' : CandidateAct) : Prop where
  fields : CandidateEqv R { c with authority_context := ∅ } { c' with authority_context := ∅ }
  entries : EntriesIn R c.authority_context c'.authority_context
  entries_back : EntriesIn R c'.authority_context c.authority_context

/-- What is found outside the governance entries. -/
theorem lookup_filterKeys {d : PyDict PyVal} {k : PyStr} {v : PyVal} :
    (d.filterKeys fun k => k ∉ governanceKeys).lookup k = some v ↔
      k ∉ governanceKeys ∧ d.lookup k = some v := by
  rw [lookup_eq_some_iff_mem, lookup_eq_some_iff_mem, PyDict.filterKeys, List.mem_filter]
  simp [and_comm]

/-- Canonically equal contexts without their reserved entries have the same entries outside the
reserved keys. -/
theorem entriesIn_of_eqv {d d' : PyDict PyVal}
    (h : Eqv R (d.filterKeys fun k => k ∉ governanceKeys).toVal
      (d'.filterKeys fun k => k ∉ governanceKeys).toVal) : EntriesIn R d d' := by
  intro k v hk hv
  have hmem := lookup_eq_some_iff_mem.1 (lookup_filterKeys.2 ⟨hk, hv⟩)
  obtain ⟨e', he', ⟨n, hn, hn'⟩, heqv⟩ := entry_of_eqv h (List.mem_map_of_mem hmem)
  obtain ⟨⟨k', v'⟩, hmem', rfl⟩ := List.mem_map.1 he'
  obtain ⟨hk', hv'⟩ := lookup_filterKeys.1 (lookup_eq_some_iff_mem.2 hmem')
  rw [normalizeKey, nfcText_eq_ok] at hn hn'
  exact ⟨k', v', hk', hv', ⟨hn.1, hn'.1, hn.2.trans hn'.2.symm⟩, heqv⟩

/-- **The subject digest covers the act.** -/
theorem sameSubject_of_digest (hsha : ShaInjective R) {c c' : CandidateAct} {d : PyStr}
    (h : governanceSubjectDigest R c = .ok d) (h' : governanceSubjectDigest R c' = .ok d) :
    SameSubject R c c' := by
  have heqv := candidateEqv_of_digest hsha h h'
  have hctx := heqv.authority_context
  have hempty : Eqv R (PyDict.toVal ∅) (PyDict.toVal ∅) := ⟨_, ⟨rfl, rfl⟩, rfl, rfl⟩
  exact ⟨{ heqv with authority_context := hempty }, entriesIn_of_eqv hctx,
    entriesIn_of_eqv hctx.symm⟩

/-- An approval is in order for one act only: where it is in order for two candidates, they are the
same act up to what binding writes. -/
theorem sameSubject_of_approvalOk (hsha : ShaInjective R) {p p' : SovereigntyPolicy}
    {c c' : CandidateAct} {now now' : Int} {a : Approval}
    (h : SovereigntyPolicy.ApprovalOk R p c now a)
    (h' : SovereigntyPolicy.ApprovalOk R p' c' now' a) : SameSubject R c c' :=
  sameSubject_of_digest hsha h.subject h'.subject

/-- An approval that is in order stays so when its act is bound. -/
theorem approvalOk_rebound {p : SovereigntyPolicy} {c c' : CandidateAct} (h : Rebound R c c')
    {now : Int} {a : Approval} :
    SovereigntyPolicy.ApprovalOk R p c' now a ↔ SovereigntyPolicy.ApprovalOk R p c now a := by
  have hdigest := digest_of_rebound h
  refine ⟨?_, ?_⟩
  · intro ha
    exact { ha with subject := hdigest.symm.trans ha.subject }
  · intro ha
    exact { ha with subject := hdigest.trans ha.subject }

/-- **Binding and approvals.** Binding leaves the subject digest as it was, and the last binding
counts. Candidates with one subject digest agree in every ordinary field and in every entry of
their contexts outside the reserved keys. So an approval is as good after the act is bound, or bound
again, as it was before, and it is in order for no other act. -/
theorem binding_covers (hsha : ShaInjective R) :
    (∀ c k es as c', bindGovernanceContext R c k es as = .ok c' →
      governanceSubjectDigest R c' = governanceSubjectDigest R c) ∧
    (∀ c k es as c₁ k' es' as', bindGovernanceContext R c k es as = .ok c₁ →
      bindGovernanceContext R c₁ k' es' as' = bindGovernanceContext R c k' es' as') ∧
    (∀ c c' d, governanceSubjectDigest R c = .ok d → governanceSubjectDigest R c' = .ok d →
      SameSubject R c c') ∧
    (∀ p c c' now a, Rebound R c c' → (SovereigntyPolicy.ApprovalOk R p c' now a ↔
      SovereigntyPolicy.ApprovalOk R p c now a)) ∧
    ∀ p p' c c' now now' a, SovereigntyPolicy.ApprovalOk R p c now a →
      SovereigntyPolicy.ApprovalOk R p' c' now' a → SameSubject R c c' :=
  ⟨fun _ _ _ _ _ => digest_of_bind, fun _ _ _ _ _ _ _ _ => bind_of_bind,
    fun _ _ _ => sameSubject_of_digest hsha, fun _ _ _ _ _ h => approvalOk_rebound h,
    fun _ _ _ _ _ _ _ => sameSubject_of_approvalOk hsha⟩

/-- The approval of the sample act is in order after the act is bound with it. -/
theorem binding_covers_sample : ∃ d c₁,
    bindGovernanceContext sampleRuntime sampleCandidate sampleCompute [sampleEvidence []]
      [sampleApproval d []] = .ok c₁ ∧
    governanceSubjectDigest sampleRuntime c₁ = .ok d ∧
    SovereigntyPolicy.ApprovalOk sampleRuntime sampleSovereigntyPolicy c₁ 200
      (sampleApproval d []) := by
  obtain ⟨d, hdi, hd, hdecl⟩ := SovereigntyPolicy.sample_declared
  obtain ⟨⟨kd, hkd⟩, ed, hed⟩ := SovereigntyPolicy.sample_digests
  obtain ⟨ad, had⟩ := SovereigntyPolicy.sample_approvalsDigest hdi
  have hok := hdecl.approvals.items _ (List.mem_singleton.2 rfl)
  obtain ⟨c₁, hbind⟩ : ∃ c₁, bindGovernanceContext sampleRuntime sampleCandidate sampleCompute
      [sampleEvidence []] [sampleApproval d []] = .ok c₁ :=
    ⟨_, bind_eq_ok.2 ⟨kd, hkd, bind_eq_ok.2 ⟨ed, hed, bind_eq_ok.2 ⟨ad, had, rfl⟩⟩⟩⟩
  obtain ⟨hdigest, -, -, happroval, -⟩ := binding_covers sample_injective
  have hrebound : Rebound sampleRuntime sampleCandidate c₁ := .single ⟨_, _, _, hbind⟩
  exact ⟨d, c₁, hbind, (hdigest _ _ _ _ _ hbind).trans hd, (happroval _ _ _ _ _ hrebound).2 hok⟩

end Finality
