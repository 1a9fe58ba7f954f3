import Finality.Sovereignty.Sample

/-!
# One approval, one effect

An approval names the subject digest of an act, which leaves the governance entries of the context
out and binds everything else, the nonce included. So while no reserved nonce is respelled, no two
effects are of acts with one subject digest (`one_effect_per_subject`), and otherwise one approval
can be spent twice (`approval_spent_twice`).
-/

namespace Finality

open Checks Runs

variable {R : Runtime}

/-- **One approval, at most one effect**, while no reserved nonce is respelled: no two effect
records are of candidates with one subject digest. -/
theorem one_effect_per_subject (hsha : ShaInjective R) {a : ProtectedAuthority R}
    {w₀ w : World R} {ops : List (PlaneOp R)} (h0 : w₀.Empty)
    (hrun : Run (PlaneStepAgreeing a) w₀ ops w) :
    w.effects.effector.records.Pairwise fun r r' => ∀ (c c' : CandidateAct) (d : PyStr),
      c.digest R = .ok r.candidate_digest → c'.digest R = .ok r'.candidate_digest →
      governanceSubjectDigest R c = .ok d → governanceSubjectDigest R c' ≠ .ok d :=
  (effects_pairwise_nonce hsha h0 (core_run_agreeing hrun)).imp
    fun hnonce c c' _ hc hc' hd hd' =>
      hnonce c c' hc hc' (nonce_of_governanceSubjectDigest hsha hd hd')

/-- Two acts under two subjects take effect; the first one, submitted once more with the same
evidence and approval, is refused and effected no second time. -/
theorem one_effect_per_subject_sample : ∃ es as ctx es' as' ctx' cap cap' w record record',
    Run (PlaneStepAgreeing sampleAuthority) sampleWorld
      ([.authorize samplePlane (sampleCandidate.withContext ctx) sampleCompute es as 1 200,
        .core (.effectuate sampleSink (sampleCandidate.withContext ctx) cap 200 none)] ++
        ([.authorize samplePlane (nextCandidate.withContext ctx') sampleCompute es' as' 1 201,
          .core (.effectuate sampleSink (nextCandidate.withContext ctx') cap' 201 none)] ++
          [.authorize samplePlane (sampleCandidate.withContext ctx) sampleCompute es as 1 201,
            .core (.effectuate sampleSink (sampleCandidate.withContext ctx) cap 201 none)])) w ∧
    w.effects.effector.records = [record, record'] ∧
    w.effects.effector.records.Pairwise fun r r' => ∀ (c c' : CandidateAct) (d : PyStr),
      c.digest sampleRuntime = .ok r.candidate_digest →
      c'.digest sampleRuntime = .ok r'.candidate_digest →
      governanceSubjectDigest sampleRuntime c = .ok d →
      governanceSubjectDigest sampleRuntime c' ≠ .ok d := by
  obtain ⟨d, hd⟩ := (eqv_governanceSubject sample_eqv).canon.sha256Hex
  obtain ⟨es, as, ctx, hctx, hbundle⟩ := sample_bundle_one (inert_of_sha256Hex hd)
  have hadmits : ∀ {now : Int}, 200 ≤ now → now ≤ 201 →
      samplePlane.admits (sampleCandidate.withContext ctx) sampleCompute es as now = .ok () :=
    fun hnow hlate => (hbundle (sample_fits hd).1 hnow hlate).1
  obtain ⟨es', as', ctx', hctx', hadmits'⟩ := next_submission
  obtain ⟨cap, cap', w₁, w₂, w₃, record, record', hrun₁, hrun₂, hrun₃, hrecs⟩ :=
    replayed_runs hctx (next_grantedNext hctx') (sampleSink_serves_context ctx').2.2
  have hrun := plane_agreeing_of_spellsOnce sampleWorld_empty
    ((plane_run rfl (hadmits (by decide) (by decide)) hrun₁).append
      ((plane_run rfl hadmits' hrun₂).append
        (plane_run rfl (hadmits (by decide) (by decide)) hrun₃)))
    (next_spellsOnce ctx ctx' fun {c cost now} h => by
      obtain ⟨op, hop, hcore⟩ := List.mem_filterMap.1 h
      simp only [List.cons_append, List.nil_append, List.mem_cons, List.not_mem_nil, or_false]
        at hop
      rcases hop with rfl | rfl | rfl | rfl | rfl | rfl
      · exact .inl (Op.authorize.inj (coreCall_eq_some.1 hcore).2).1
      · cases hcore
      · exact .inr (Op.authorize.inj (coreCall_eq_some.1 hcore).2).1
      · cases hcore
      · exact .inl (Op.authorize.inj (coreCall_eq_some.1 hcore).2).1
      · cases hcore)
  exact ⟨es, as, ctx, es', as', ctx', cap, cap', w₃, record, record', hrun, hrecs,
    one_effect_per_subject sample_injective sampleWorld_empty hrun⟩

/-- **An approval spent twice.** The plane admits the act with one evidence bundle and one
approval, and once more with the same bundle and approval after its nonce was respelled; both are
effected, and the two effected candidates have one subject digest. -/
theorem approval_spent_twice : ∃ es as ctx cap cap' w record record' d,
    Run (PlaneStep sampleAuthority) sampleWorld
      ([.authorize samplePlane (sampleCandidate.withContext ctx) sampleCompute es as 1 200,
        .core (.effectuate sampleSink (sampleCandidate.withContext ctx) cap 200 none)] ++
        [.authorize samplePlane (respelledCandidate.withContext ctx) sampleCompute es as 1 201,
        .core (.effectuate sampleSink (respelledCandidate.withContext ctx) cap' 201 none)]) w ∧
    w.effects.effector.records = [record, record'] ∧
    (sampleCandidate.withContext ctx).digest sampleRuntime = .ok record.candidate_digest ∧
    (respelledCandidate.withContext ctx).digest sampleRuntime = .ok record'.candidate_digest ∧
    governanceSubjectDigest sampleRuntime (sampleCandidate.withContext ctx) = .ok d ∧
    governanceSubjectDigest sampleRuntime (respelledCandidate.withContext ctx) = .ok d := by
  obtain ⟨es, as, ctx, d, hctx, hadmits, hadmits', hd, hd'⟩ := sample_submission
  obtain ⟨cap, cap', w₁, w₂, record, record', hrun, -, hrun', hrecs, hc, hc'⟩ := respelled_runs hctx
  exact ⟨es, as, ctx, cap, cap', w₂, record, record', d,
    (plane_run rfl hadmits hrun).append (plane_run rfl hadmits' hrun'), hrecs, hc, hc', hd, hd'⟩

end Finality
