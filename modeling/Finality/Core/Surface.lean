import Mathlib.Data.List.Count
import Mathlib.Data.List.Perm.Basic
import Mathlib.Data.List.TakeWhile
import Finality.Core.Policy

/-!
# The deployment manifest (`surface.py`)

A manifest lists the surfaces through which a deployment has effects. The audit walks the list with
the keys it has seen: a surface whose key was seen is a duplicate, and an externally effective one
that is not behind a privileged, named boundary and a sink is exposed. Duplicates are reported and
block nothing. The walk is separated into the two reports (`audit_perm`), so what blocks a
deployment is read off the surfaces one by one (`blocking_audit`), and the order in which they are
listed does not matter.
-/

namespace Finality

open Checks

/-- `str.isspace` for one character -/
def PyStr.isSpace (c : CodePoint) : Bool :=
  (9 ≤ c.val && c.val ≤ 13) || (28 ≤ c.val && c.val ≤ 32) || c.val = 0x85 || c.val = 0xA0 ||
    c.val = 0x1680 || (0x2000 ≤ c.val && c.val ≤ 0x200A) || c.val = 0x2028 || c.val = 0x2029 ||
    c.val = 0x202F || c.val = 0x205F || c.val = 0x3000

/-- `s.strip()` -/
def PyStr.strip (s : PyStr) : PyStr :=
  ((s.dropWhile isSpace).reverse.dropWhile isSpace).reverse

/-- Only whitespace is stripped to nothing. -/
theorem PyStr.strip_eq_nil {s : PyStr} : s.strip = [] ↔ ∀ c ∈ s, isSpace c = true := by
  rw [strip, List.reverse_eq_nil_iff, List.dropWhile_eq_nil_iff]
  simp only [List.mem_reverse]
  refine ⟨?_, ?_⟩
  · intro h c hc
    by_contra hspace
    have hnil : s.dropWhile isSpace ≠ [] := by
      rw [ne_eq, List.dropWhile_eq_nil_iff]
      exact fun hall => hspace (hall c hc)
    -- the first character left is none that was dropped
    have hhead := List.head_dropWhile_not isSpace hnil
    rw [h _ (List.head_mem hnil)] at hhead
    cases hhead
  · intro h c hc
    exact h c ((List.dropWhile_suffix _).subset hc)

/-- `EffectSurface` -/
structure EffectSurface where
  name : PyStr
  channel : PyStr
  externally_effective : Bool
  sink_mediated : Bool
  enforcement_boundary : PyStr
  privileged : Bool
  deriving DecidableEq

/-- `SurfaceFinding` -/
structure SurfaceFinding where
  severity : PyStr
  surface : PyStr
  reason : PyStr
  deriving DecidableEq

/-- The key under which a surface is seen. -/
def EffectSurface.key (s : EffectSurface) : PyStr × PyStr := (s.name, s.channel)

/-- One check of a surface. -/
def EffectSurface.findIf (s : EffectSurface) (p : Prop) [Decidable p] (severity reason : String) :
    List SurfaceFinding :=
  if p then [⟨py severity, s.name, py reason⟩] else []

/-- What is found against a surface on its own. -/
def EffectSurface.exposures (s : EffectSurface) : List SurfaceFinding :=
  if s.externally_effective = false then []
  else s.findIf (s.sink_mediated = false) "CRITICAL" "unguarded_external_effect_path"
    ++ s.findIf (s.privileged = false) "HIGH" "sink_boundary_not_privileged"
    ++ s.findIf (s.enforcement_boundary.strip = []) "HIGH" "missing_enforcement_boundary"

/-- The local variables of the audit. -/
structure AuditScan where
  findings : List SurfaceFinding
  seen : List (PyStr × PyStr)

/-- One turn of the loop. -/
def auditStep (scan : AuditScan) (s : EffectSurface) : AuditScan where
  findings := scan.findings
    ++ s.findIf (s.key ∈ scan.seen) "MEDIUM" "duplicate_surface_definition"
    ++ s.exposures
  seen := s.key :: scan.seen

/-- `DeploymentManifest` -/
structure DeploymentManifest where
  surfaces : List EffectSurface

namespace DeploymentManifest

/-- The refusal for the findings `critical`. -/
def incomplete (critical : List SurfaceFinding) : PyErr :=
  .runtimeError (py "deployment finality coverage incomplete: " ++
    List.intercalate (py "; ") (critical.map fun f => f.surface ++ py ":" ++ f.reason))

/-- `DeploymentManifest.audit` -/
def audit (m : DeploymentManifest) : List SurfaceFinding :=
  (m.surfaces.foldl auditStep ⟨[], []⟩).findings

/-- `f.severity in {"CRITICAL", "HIGH"}` -/
def blocks (f : SurfaceFinding) : Bool :=
  f.severity = py "CRITICAL" ∨ f.severity = py "HIGH"

/-- `DeploymentManifest.assert_complete` -/
def assertComplete (m : DeploymentManifest) : Except PyErr Unit :=
  match m.audit.filter blocks with
  | [] => .ok ()
  | critical => .error (incomplete critical)

end DeploymentManifest

/-! ## The two reports -/

/-- A surface that may have effects: it is behind a sink, and the sink behind a privileged boundary
with a name. -/
def EffectSurface.Guarded (s : EffectSurface) : Prop :=
  s.sink_mediated = true ∧ s.privileged = true ∧
    ∃ c ∈ s.enforcement_boundary, PyStr.isSpace c = false

/-- A surface has no exposure exactly when it has no effects or is guarded. -/
theorem EffectSurface.exposures_eq_nil {s : EffectSurface} :
    s.exposures = [] ↔ (s.externally_effective = true → s.Guarded) := by
  have hblank : s.enforcement_boundary.strip = [] ↔
      ¬ ∃ c ∈ s.enforcement_boundary, PyStr.isSpace c = false := by
    rw [PyStr.strip_eq_nil]
    simp
  unfold EffectSurface.exposures EffectSurface.Guarded EffectSurface.findIf
  by_cases heffect : s.externally_effective = false
  · simp [heffect]
  · have htrue : s.externally_effective = true := by simpa using heffect
    rw [if_neg heffect, List.append_eq_nil_iff, List.append_eq_nil_iff]
    simp only [ite_eq_right_iff, reduceCtorEq, imp_false, hblank, htrue, true_implies, not_not,
      Bool.not_eq_false, and_assoc]

/-- What is found against a surface seen before. -/
def duplicateOf (key : PyStr × PyStr) : SurfaceFinding :=
  ⟨py "MEDIUM", key.1, py "duplicate_surface_definition"⟩

/-- A duplicate blocks nothing. -/
theorem blocks_duplicateOf (key : PyStr × PyStr) :
    DeploymentManifest.blocks (duplicateOf key) = false := by
  have hsev : ¬ (py "MEDIUM" = py "CRITICAL" ∨ py "MEDIUM" = py "HIGH") := by decide
  exact decide_eq_false hsev

/-- Every exposure blocks. -/
theorem blocks_exposures {s : EffectSurface} {f : SurfaceFinding} (h : f ∈ s.exposures) :
    DeploymentManifest.blocks f = true := by
  have hone : ∀ (p : Prop) [Decidable p] (severity reason : String),
      (severity = "CRITICAL" ∨ severity = "HIGH") → f ∈ s.findIf p severity reason →
        DeploymentManifest.blocks f = true := by
    intro p _ severity reason hsev hf
    unfold EffectSurface.findIf at hf
    split at hf
    · obtain rfl := List.mem_singleton.mp hf
      rcases hsev with rfl | rfl <;> simp [DeploymentManifest.blocks]
    · cases hf
  unfold EffectSurface.exposures at h
  split at h
  · cases h
  · rcases List.mem_append.mp h with h | h
    · rcases List.mem_append.mp h with h | h
      · exact hone _ _ _ (.inl rfl) h
      · exact hone _ _ _ (.inr rfl) h
    · exact hone _ _ _ (.inr rfl) h

/-! ## The walk -/

/-- The keys that are among those before them. -/
def repeats : List (PyStr × PyStr) → List (PyStr × PyStr) → List (PyStr × PyStr)
  | _, [] => []
  | seen, key :: rest => (if key ∈ seen then [key] else []) ++ repeats (key :: seen) rest

/-- A key is repeated once less than it is listed, or as often as that when it was seen. -/
theorem count_repeats (key : PyStr × PyStr) (keys : List (PyStr × PyStr))
    (seen : List (PyStr × PyStr)) :
    (repeats seen keys).count key = keys.count key - (if key ∈ seen then 0 else 1) := by
  induction keys generalizing seen with
  | nil => simp [repeats]
  | cons k rest ih =>
    rw [repeats, List.count_append, ih, List.count_cons]
    by_cases hk : k = key
    · subst hk
      by_cases hseen : k ∈ seen <;> simp [hseen, Nat.add_comm]
    · have hne : ¬ key = k := fun h => hk h.symm
      have hzero : (if k ∈ seen then [k] else []).count key = 0 := by
        split <;> simp [hk]
      simp [hzero, hk, hne]

/-- **What is repeated does not depend on the order.** -/
theorem repeats_perm {keys keys' : List (PyStr × PyStr)} (h : keys.Perm keys') :
    (repeats [] keys).Perm (repeats [] keys') := by
  rw [List.perm_iff_count]
  intro key
  rw [count_repeats, count_repeats, h.count_eq]

/-- Nothing is repeated exactly when the keys are distinct. -/
theorem repeats_eq_nil {keys : List (PyStr × PyStr)} : repeats [] keys = [] ↔ keys.Nodup := by
  rw [List.nodup_iff_count_le_one]
  refine ⟨?_, ?_⟩
  · intro h key
    have hcount := count_repeats key keys []
    rw [h] at hcount
    simp only [List.count_nil, List.not_mem_nil, if_false] at hcount
    omega
  · intro h
    refine List.eq_nil_iff_forall_not_mem.mpr fun key hmem => ?_
    have hpos := List.count_pos_iff.mpr hmem
    rw [count_repeats] at hpos
    have hone := h key
    simp only [List.not_mem_nil, if_false] at hpos
    omega

/-- What the turn for a surface adds. -/
theorem auditStep_findings (scan : AuditScan) (s : EffectSurface) :
    (auditStep scan s).findings = scan.findings
      ++ (if s.key ∈ scan.seen then [s.key] else []).map duplicateOf ++ s.exposures := by
  unfold auditStep EffectSurface.findIf
  split <;> rfl

/-- **The walk finds the duplicates and the exposures.** -/
theorem findings_foldl (surfaces : List EffectSurface) (scan : AuditScan) :
    (surfaces.foldl auditStep scan).findings.Perm
      (scan.findings ++ ((repeats scan.seen (surfaces.map EffectSurface.key)).map duplicateOf ++
        surfaces.flatMap EffectSurface.exposures)) := by
  induction surfaces generalizing scan with
  | nil => simp [repeats]
  | cons s rest ih =>
    refine (ih _).trans ?_
    rw [auditStep_findings]
    simp only [auditStep, List.map_cons, repeats, List.map_append, List.flatMap_cons,
      List.append_assoc]
    refine ((List.perm_append_left_iff _).mpr ((List.perm_append_left_iff _).mpr ?_))
    rw [← List.append_assoc, ← List.append_assoc]
    exact List.perm_append_comm.append_right _

/-- What the walk finds that blocks are the exposures, in the order of the surfaces. -/
theorem blocking_foldl (surfaces : List EffectSurface) (scan : AuditScan) :
    (surfaces.foldl auditStep scan).findings.filter DeploymentManifest.blocks =
      scan.findings.filter DeploymentManifest.blocks ++
        surfaces.flatMap EffectSurface.exposures := by
  induction surfaces generalizing scan with
  | nil => simp
  | cons s rest ih =>
    have hdup : ((if s.key ∈ scan.seen then [s.key] else []).map duplicateOf).filter
        DeploymentManifest.blocks = [] := by
      split <;> simp [blocks_duplicateOf]
    have hown : s.exposures.filter DeploymentManifest.blocks = s.exposures :=
      List.filter_eq_self.mpr fun _ hf => blocks_exposures hf
    rw [List.foldl_cons, ih, auditStep_findings, List.filter_append, List.filter_append, hdup, hown,
      List.append_nil, List.flatMap_cons, List.append_assoc]

/-! ## The audit -/

/-- The audit reports the duplicates and the exposures. -/
theorem audit_perm (m : DeploymentManifest) :
    m.audit.Perm ((repeats [] (m.surfaces.map EffectSurface.key)).map duplicateOf ++
      m.surfaces.flatMap EffectSurface.exposures) := by
  simpa [DeploymentManifest.audit] using findings_foldl m.surfaces ⟨[], []⟩

/-- No surface is exposed exactly when each that has effects is guarded. -/
theorem exposures_eq_nil {surfaces : List EffectSurface} :
    surfaces.flatMap EffectSurface.exposures = [] ↔
      ∀ s ∈ surfaces, s.externally_effective = true → s.Guarded := by
  rw [List.flatMap_eq_nil_iff]
  exact forall₂_congr fun _ _ => EffectSurface.exposures_eq_nil

/-- **What the audit decides.** A deployment is complete exactly when every surface with effects is
guarded, and is otherwise refused with the exposures of its surfaces, in their order and whatever
else is listed twice. The audit is silent exactly when moreover no surface is listed twice, and it
reports the same in whichever order the surfaces are listed. -/
theorem audit_decides (m : DeploymentManifest) :
    (m.assertComplete = .ok () ↔
        ∀ s ∈ m.surfaces, s.externally_effective = true → s.Guarded)
      ∧ (m.assertComplete ≠ .ok () →
        m.assertComplete =
          .error (DeploymentManifest.incomplete (m.surfaces.flatMap EffectSurface.exposures)))
      ∧ (m.audit = [] ↔ (m.surfaces.map EffectSurface.key).Nodup ∧
        ∀ s ∈ m.surfaces, s.externally_effective = true → s.Guarded)
      ∧ ∀ m' : DeploymentManifest, m.surfaces.Perm m'.surfaces → m.audit.Perm m'.audit := by
  have hblocking : m.audit.filter DeploymentManifest.blocks =
      m.surfaces.flatMap EffectSurface.exposures := by
    simpa [DeploymentManifest.audit] using blocking_foldl m.surfaces ⟨[], []⟩
  have hverdict : m.assertComplete =
      if m.surfaces.flatMap EffectSurface.exposures = [] then .ok ()
      else .error (DeploymentManifest.incomplete (m.surfaces.flatMap EffectSurface.exposures)) := by
    unfold DeploymentManifest.assertComplete
    rw [hblocking]
    split
    · rename_i hnil
      rw [if_pos hnil]
    · rename_i hne
      rw [if_neg hne]
  refine ⟨?_, ?_, ?_, ?_⟩
  · rw [← exposures_eq_nil, hverdict]
    split <;> simp_all
  · rw [hverdict]
    split
    · exact fun h => absurd rfl h
    · exact fun _ => rfl
  · rw [← exposures_eq_nil, ← repeats_eq_nil, ← List.length_eq_zero_iff, (audit_perm m).length_eq,
      List.length_eq_zero_iff, List.append_eq_nil_iff, List.map_eq_nil_iff]
  · intro m' h
    refine (audit_perm m).trans (List.Perm.trans ?_ (audit_perm m').symm)
    exact ((repeats_perm (h.map _)).map _).append (h.flatMap_right _)

/-- A surface behind a sink at a privileged boundary. -/
def guardedSurface : EffectSurface :=
  ⟨py "api", py "network-egress", true, true, py "gateway", true⟩

/-- A surface that reaches its channel around the sink. -/
def exposedSurface : EffectSurface :=
  ⟨py "debug", py "network-egress", true, false, py "gateway", true⟩

/-- The exposed surface is what a deployment with both is refused for, and it is reported in either
order. -/
theorem audit_decides_sample :
    (DeploymentManifest.mk [guardedSurface, exposedSurface]).assertComplete =
        .error (DeploymentManifest.incomplete
          ([guardedSurface, exposedSurface].flatMap EffectSurface.exposures))
      ∧ (DeploymentManifest.mk [guardedSurface, exposedSurface]).audit.Perm
        (DeploymentManifest.mk [exposedSurface, guardedSurface]).audit := by
  obtain ⟨hok, herror, _, hperm⟩ := audit_decides ⟨[guardedSurface, exposedSurface]⟩
  refine ⟨herror fun h => ?_, hperm _ (.swap _ _ _)⟩
  have hguarded := hok.mp h exposedSurface (by simp) rfl
  exact absurd hguarded.1 (by decide)

end Finality
