import Finality.Canonical.Coincide
import Finality.Sovereignty.Spelling
import Finality.Sovereignty.Totality

/-!
# Allowed values and canonical identity

The policy asks Python whether a payload value is in a frozenset, and `True == 1 == 1.0`; the act is
identified by canonical bytes, where `true` and `1` differ and floats have none. A value that Python
finds equal to a configured one may be confused with it (`Confused`): a number in it is of another
type, or something in it is never written. Such a value is let in and is no configured value, unless
it is another spelling of one (`allow_lists_iff`).
-/

namespace Finality

open Checks

section
variable (R : Runtime)

mutual

/-- Python may find the values equal although they are not written alike: somewhere they differ in
type, or hold a float, a string with a surrogate, an integer with too many digits or an object. What
an instance of a dataclass equals is up to its class, so there the contents decide. -/
def Confused : PyVal → PyVal → Prop
  | .tuple vs, .tuple ws => ConfusedItems vs ws
  | .str s, .str _ => hasSurrogate s = true
  | .int i, .int _ => printsInt i = false
  | .none, .none | .bool _, .bool _ | .bytes _, .bytes _ => False
  | .dataclass fs, w => ¬ Coincide R (.dataclass fs) w
  | m, .dataclass fs => ¬ Coincide R m (.dataclass fs)
  | _, _ => True

/-- `Confused` in one of the items. -/
def ConfusedItems : List PyVal → List PyVal → Prop
  | v :: vs, w :: ws => Confused v w ∨ ConfusedItems vs ws
  | _, _ => False

end

/-- The value is taken for a configured one: with those that Python finds equal to it, it is
confused, and none of the others is another spelling of it. -/
def TakenForAnother {C : PyClasses} (s : PyFrozenSet C) (v : PyVal) : Prop :=
  (∀ m ∈ s.members, pyEq C m v = true → Confused R m v) ∧
  ∀ m ∈ s.members, pyEq C m v = false → ¬ Coincide R m v

end

variable {R : Runtime} {C : PyClasses}

/-! ## Equal for Python -/

mutual

/-- A value that equals a configured one coincides with it or is confused with it. -/
theorem coincide_or_confused : ∀ {m v : PyVal}, pyEq C m v = true → Coincide R m v ∨ Confused R m v
  | .none, v, _ => by
    cases v with
    | none => exact .inl rfl
    | dataclass fs => exact em _
    | _ => exact .inr trivial
  | .bool b, v, h => by
    cases v with
    | bool c =>
      simp only [pyEq, isObject, asNumber, Bool.or_self, Bool.false_eq_true, if_false,
        decide_eq_true_eq] at h
      refine .inl ?_
      cases b <;> cases c <;> simp_all [Coincide]
    | dataclass fs => exact em _
    | _ => exact .inr trivial
  | .int i, v, h => by
    cases v with
    | int j =>
      simp only [pyEq, isObject, asNumber, Bool.or_self, Bool.false_eq_true, if_false,
        decide_eq_true_eq] at h
      obtain rfl := Rat.intCast_inj.1 h
      cases hp : printsInt i with
      | false => exact .inr hp
      | true => exact .inl ⟨rfl, hp⟩
    | dataclass fs => exact em _
    | _ => exact .inr trivial
  | .float q, v, _ => by
    cases v with
    | dataclass fs => exact em _
    | _ => exact .inr trivial
  | .str s, v, h => by
    cases v with
    | str t =>
      rw [pyEq, decide_eq_true_eq] at h
      subst h
      cases hs : hasSurrogate s with
      | false => exact .inl ⟨s, rfl, .rfl hs⟩
      | true => exact .inr hs
    | dataclass fs => exact em _
    | _ => exact .inr trivial
  | .bytes a, v, h => by
    cases v with
    | bytes b =>
      rw [pyEq, decide_eq_true_eq] at h
      exact .inl (h ▸ rfl)
    | dataclass fs => exact em _
    | _ => exact .inr trivial
  | .list vs, v, _ => by
    cases v with
    | dataclass fs => exact em _
    | _ => exact .inr trivial
  | .tuple vs, v, h => by
    cases v with
    | tuple ws =>
      rw [pyEq] at h
      rcases coincideItems_or_confused h with hsame | hconfused
      · exact .inl ⟨ws, rfl, hsame⟩
      · exact .inr hconfused
    | dataclass fs => exact em _
    | _ => exact .inr trivial
  | .dict es, v, _ => by
    cases v with
    | dataclass fs => exact em _
    | _ => exact .inr trivial
  | .dataclass fs, v, _ => em _
  | .other o, v, _ => by
    cases v with
    | dataclass fs => exact em _
    | _ => exact .inr trivial

/-- `coincide_or_confused`, item by item. -/
theorem coincideItems_or_confused : ∀ {vs ws : List PyVal}, pyEqItems C vs ws = true →
    CoincideItems R vs ws ∨ ConfusedItems R vs ws
  | [], [], _ => .inl rfl
  | [], _ :: _, h | _ :: _, [], h => by simp [pyEqItems] at h
  | v :: vs, w :: ws, h => by
    rw [pyEqItems, Bool.and_eq_true] at h
    rcases coincide_or_confused h.1 with hsame | hconfused
    · rcases coincideItems_or_confused h.2 with hrest | hrest
      · exact .inl ⟨w, ws, rfl, hsame, hrest⟩
      · exact .inr (.inr hrest)
    · exact .inr (.inl hconfused)

end

mutual

/-- Values with a hash that are confused do not coincide. -/
theorem not_coincide_of_confused : ∀ {m v : PyVal}, Hashable C m → Hashable C v →
    Confused R m v → ¬ Coincide R m v
  | .none, v, _, _, hconfused, h => by
    rw [Coincide] at h
    subst h
    exact hconfused
  | .bool b, v, _, _, hconfused, h => by
    rw [Coincide] at h
    subst h
    exact hconfused
  | .int i, v, _, _, hconfused, h => by
    obtain ⟨rfl, hp⟩ := h
    rw [Confused, hp] at hconfused
    cases hconfused
  | .str s, v, _, _, hconfused, h => by
    obtain ⟨t, rfl, hs, -⟩ := h
    rw [Confused, hs] at hconfused
    cases hconfused
  | .bytes a, v, _, hv, hconfused, h => by
    cases v with
    | bytes b => exact hconfused
    | dict es => exact not_hashable_dict hv
    | dataclass fs => exact hconfused h
    | _ => cases h
  | .tuple vs, v, hm, hv, hconfused, h => by
    cases v with
    | tuple ws =>
      obtain ⟨ws', hws, h⟩ := h
      obtain rfl := Option.some.inj hws
      exact not_coincideItems_of_confused (hashable_tuple.1 hm) (hashable_tuple.1 hv) hconfused h
    | list ws => exact not_hashable_list hv
    | dataclass fs => exact hconfused h
    | _ =>
      obtain ⟨ws', hws, -⟩ := h
      cases hws
  | .dataclass fs, v, _, _, hconfused, h => hconfused h
  | .list vs, v, hm, _, _, _ => not_hashable_list hm
  | .dict es, v, hm, _, _, _ => not_hashable_dict hm
  | .float q, _, _, _, _, h | .other o, _, _, _, _, h => h

/-- `not_coincide_of_confused`, item by item. -/
theorem not_coincideItems_of_confused : ∀ {vs ws : List PyVal}, (∀ v ∈ vs, Hashable C v) →
    (∀ w ∈ ws, Hashable C w) → ConfusedItems R vs ws → ¬ CoincideItems R vs ws
  | v :: vs, _, hvs, hws, hconfused, ⟨w, ws, h, hv, hrest⟩ => by
    subst h
    rw [List.forall_mem_cons] at hvs hws
    rcases hconfused with hconfused | hconfused
    · exact not_coincide_of_confused hvs.1 hws.1 hconfused hv
    · exact not_coincideItems_of_confused hvs.2 hws.2 hconfused hrest

end

/-- A value that a set of the policy contains is canonically equal to a member unless it is only
taken for one. -/
theorem exists_eqv_iff {s : PyFrozenSet C} {v : PyVal} (hhash : Hashable C v) :
    (∃ m ∈ s.members, Eqv R m v) ↔ ¬ TakenForAnother R s v := by
  simp only [TakenForAnother, not_and_or, not_forall, not_not, exists_prop, ← coincide_iff_eqv]
  refine ⟨?_, ?_⟩
  · rintro ⟨m, hm, hsame⟩
    cases heq : pyEq C m v with
    | true =>
      refine .inl ⟨m, hm, heq, fun hconfused => ?_⟩
      exact not_coincide_of_confused (s.hashable m hm) hhash hconfused hsame
    | false => exact .inr ⟨m, hm, heq, hsame⟩
  · rintro (⟨m, hm, heq, hconfused⟩ | ⟨m, hm, -, hsame⟩)
    · exact ⟨m, hm, (coincide_or_confused heq).resolve_right hconfused⟩
    · exact ⟨m, hm, hsame⟩

namespace SovereigntyPolicy

variable {p : SovereigntyPolicy} {sets : List (PyStr × PyFrozenSet C)}

/-- What allow-lists and limits are for: the value of every listed field has the canonical bytes of
a configured value, and the value of every limited field is an integer in its range. -/
structure RespectsLists (R : Runtime) (p : SovereigntyPolicy)
    (sets : List (PyStr × PyFrozenSet C)) (payload : PyVal) : Prop where
  listed : ∀ name s, (name, s) ∈ sets → ∃ entries, payload = .dict entries ∧ ∃ m ∈ s.members,
    ∃ b, canonicalBytes R m = .ok b ∧ canonicalBytes R (dictGet entries name) = .ok b
  limited : ∀ name minimum maximum, (name, minimum, maximum) ∈ p.payload_numeric_limits →
    ∃ entries value, payload = .dict entries ∧ dictGet entries name = .int value ∧
      minimum ≤ value ∧ value ≤ maximum

/-- What Python has checked of a payload that meets what the policy declares. -/
theorem contains_of_payloadOk (hsets : p.payload_allowed_values = allowedValues sets)
    {payload : PyVal} (h : PayloadOk p payload) {name : PyStr} {s : PyFrozenSet C}
    (hmem : (name, s) ∈ sets) : ∃ entries, payload = .dict entries ∧
      Hashable C (dictGet entries name) ∧
        ∃ m ∈ s.members, pyEq C m (dictGet entries name) = true := by
  have hlisted : (name, s.contains) ∈ p.payload_allowed_values := by
    rw [hsets]
    exact List.mem_map_of_mem (f := fun e : PyStr × PyFrozenSet C => (e.1, e.2.contains)) hmem
  obtain ⟨entries, hentries⟩ := h.object (.inr (.inr (List.ne_nil_of_mem hlisted)))
  exact ⟨entries, hentries, PyFrozenSet.contains_iff.1
    (h.allowed entries hentries name s.contains hlisted)⟩

/-- A limited field of a payload that meets what the policy declares holds an integer. -/
theorem limited_of_payloadOk {payload : PyVal} (h : PayloadOk p payload)
    {name : PyStr} {minimum maximum : Int}
    (hmem : (name, minimum, maximum) ∈ p.payload_numeric_limits) :
    ∃ entries value, payload = .dict entries ∧ dictGet entries name = .int value ∧
      minimum ≤ value ∧ value ≤ maximum := by
  obtain ⟨entries, hentries⟩ := h.object (.inr (.inl (List.ne_nil_of_mem hmem)))
  obtain ⟨value, hvalue, hlo, hhi⟩ := h.numeric entries hentries name minimum maximum hmem
  exact ⟨entries, value, hentries, by rw [dictGet, hvalue]; rfl, hlo, hhi⟩

/-- **When allow-lists respect canonical identity.** What the policy allows has, in every listed
field, the canonical bytes of a configured value exactly when no value of a listed field is taken
for a configured one that it is only confused with. Its limited fields hold integers in their range
in any case. -/
theorem allow_lists_iff (hsets : p.payload_allowed_values = allowedValues sets)
    {c : CandidateAct} {k : ComputeContext} {es : List JurisdictionEvidence} {as : List Approval}
    {now : Int} {d : GovernanceDecision} (hd : p.validate R c k es as now = .ok d)
    (hallow : d.allowed = true) :
    RespectsLists R p sets c.payload ↔
      ∀ entries, c.payload = .dict entries → ∀ name s, (name, s) ∈ sets →
        ¬ TakenForAnother R s (dictGet entries name) := by
  have hok := (allows_iff.1 ⟨d, hd, hallow⟩).1.payload
  refine ⟨?_, ?_⟩
  · intro hrespects entries hentries name s hmem
    obtain ⟨entries', hentries', m, hm, b, hb, hb'⟩ := hrespects.listed name s hmem
    obtain ⟨entries'', hentries'', hhash, -⟩ := contains_of_payloadOk hsets hok hmem
    obtain rfl : entries' = entries := PyVal.dict.inj (hentries'.symm.trans hentries)
    obtain rfl : entries'' = entries' := PyVal.dict.inj (hentries''.symm.trans hentries')
    exact (exists_eqv_iff hhash).1 ⟨m, hm, eqv_of_canonicalBytes hb hb'⟩
  · intro hlists
    refine ⟨fun name s hmem => ?_, fun name lo hi => limited_of_payloadOk hok⟩
    obtain ⟨entries, hentries, hhash, -⟩ := contains_of_payloadOk hsets hok hmem
    obtain ⟨m, hm, heqv⟩ := (exists_eqv_iff hhash).2 (hlists entries hentries name s hmem)
    obtain ⟨b, hb⟩ := canon_iff_canonicalBytes.1 heqv.canon
    exact ⟨entries, hentries, m, hm, b, hb, heqv.canonicalBytes_eq.symm.trans hb⟩

/-! ## True for one -/

/-- `frozenset({1})` -/
def sampleUnits : PyFrozenSet sampleClasses := ⟨[.int 1], by
  rw [List.forall_mem_singleton]
  rfl⟩

/-- A policy that allows one unit. -/
def unitPolicy : SovereigntyPolicy where
  authority_jurisdiction := py "EU"
  policy_epoch := 7
  payload_allowed_values := allowedValues [(py "units", sampleUnits)]

/-- The policy with a limit on the field as well. -/
def limitedUnitPolicy : SovereigntyPolicy :=
  { unitPolicy with payload_numeric_limits := [(py "units", 1, 10)] }

/-- The sample act with the given number of units. -/
def unitCandidate (units : PyVal) : CandidateAct :=
  { sampleCandidate with payload := .dict [(.str (py "units"), units)] }

/-- One unit is respected. -/
theorem allow_lists_iff_sample : ∃ d,
    limitedUnitPolicy.validate sampleRuntime (unitCandidate (.int 1)) sampleCompute [] [] 200 =
      .ok d ∧ d.allowed = true ∧
    RespectsLists sampleRuntime limitedUnitPolicy [(py "units", sampleUnits)]
      (unitCandidate (.int 1)).payload := by
  have hsets : limitedUnitPolicy.payload_allowed_values =
    allowedValues [(py "units", sampleUnits)] := rfl
  obtain ⟨d, hd, hallow⟩ : ∃ d, limitedUnitPolicy.validate sampleRuntime (unitCandidate (.int 1))
      sampleCompute [] [] 200 = .ok d ∧ d.allowed = true := ⟨_, rfl, rfl⟩
  refine ⟨d, hd, hallow, (allow_lists_iff hsets hd hallow).2 ?_⟩
  intro entries hentries name s hmem htaken
  cases hentries
  obtain ⟨rfl, rfl⟩ := Prod.mk.inj (List.mem_singleton.1 hmem)
  -- the member equals the value, and nothing in the two is confused
  have hconfused : printsInt 1 = false :=
    htaken.1 (.int 1) (List.mem_singleton.2 rfl) (by decide)
  exact absurd hconfused (by decide)

/-- **`True` is let in for `1`**, and has other canonical bytes. -/
theorem true_for_one : ∃ d,
    unitPolicy.validate sampleRuntime (unitCandidate (.bool true)) sampleCompute [] [] 200 = .ok d ∧
    d.allowed = true ∧ ¬ RespectsLists sampleRuntime unitPolicy [(py "units", sampleUnits)]
      (unitCandidate (.bool true)).payload := by
  refine ⟨_, rfl, rfl, fun h => ?_⟩
  obtain ⟨entries, hentries, m, hm, b, hb, hb'⟩ :=
    h.listed (py "units") sampleUnits (List.mem_singleton.2 rfl)
  cases hentries
  obtain rfl := List.mem_singleton.1 hm
  have hvalue : canonicalBytes sampleRuntime (.bool true) = .ok b := hb'
  obtain ⟨hfalse, -⟩ := coincide_iff_eqv.2 (eqv_of_canonicalBytes hb hvalue)
  cases hfalse

end SovereigntyPolicy

end Finality
