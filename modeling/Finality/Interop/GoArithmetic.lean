import Finality.Interop.GoEncode
import Finality.Interop.GoVerify

/-!
# The integers of the Go verifier (`go/cmd/finalityverify/main.go`)

`main` adds and subtracts in `int64` and reads numbers with `strconv.ParseInt`. It does so twice,
at the counters of the transition and at the lifetime of the capability, and both times each number
has been hashed before as a member of an object: encoding it for the digest tests its range.

`main` is cut at the two points (`main_eq`). What it has hashed on the way to each is collected from
the digests themselves, for a decoded document of any shape, and `exactMain`, which computes over
the integers instead, is the same function.
-/

namespace Finality

open JsonText Checks

namespace Go

variable {R : Runtime}

/-! ## What an encoder has checked -/

/-- The numbers of a map that has been encoded are in range. -/
theorem safeNumber_of_canonical {x : Obj} {b : GoStr} (h : canonical R (.map x) = .ok b)
    {k : GoStr} {n : List Char} (hk : (k, Val.number n) ∈ x) : SafeNumber n := by
  obtain ⟨hmap, -⟩ := canonical_eq_ok.1 h
  have hvalue := (not_rejected_map.1 hmap).2.2 _ hk
  rwa [rejected_number, not_not] at hvalue

/-- Every number of an object that was hashed is a safe integer. -/
theorem safeNumber_of_sha {x : Obj} {d : GoStr} (h : sha R (.map x) = .ok d)
    {k : GoStr} {n : List Char} (hk : (k, Val.number n) ∈ x) : SafeNumber n := by
  rw [sha, mapError_eq_ok, sha256, map_eq_ok] at h
  obtain ⟨b, hb, -⟩ := h
  exact safeNumber_of_canonical hb hk

/-- So is every number of one that was authenticated. -/
theorem safeNumber_of_mac {x : Obj} {key : List UInt8} {d : GoStr}
    (h : mac R (.map x) key = .ok d) {k : GoStr} {n : List Char} (hk : (k, Val.number n) ∈ x) :
    SafeNumber n := by
  rw [mac, mapError_eq_ok, hmacSha256, map_eq_ok] at h
  obtain ⟨b, hb, -⟩ := h
  exact safeNumber_of_canonical hb hk

/-- A number that a read finds is a member. -/
theorem mem_of_index {m : Obj} {k : String} {n : List Char} (h : index m k = .number n) :
    (lit k, Val.number n) ∈ m := by
  rw [index] at h
  cases hl : m.lookup (lit k) with
  | none =>
    rw [hl] at h
    cases h
  | some v =>
    rw [hl, Option.getD_some] at h
    obtain ⟨l, r, rfl, -⟩ := List.lookup_eq_some_iff.1 hl
    rw [h]
    exact List.mem_append_right _ List.mem_cons_self

/-- A read that finds no number out of range. -/
def SafeRead (v : Val) : Prop := ∀ n, v = .number n → SafeNumber n

/-- A safe integer is read as itself. -/
theorem num_of_safe {n : List Char} {i : Int} (hi : readInt n = some i) (hs : Safe i) :
    num (.number n) = .ok i := by
  rw [num, hi]
  exact if_pos (inInt64_of_safe hs)

/-! ## `main`, cut at its two computations -/

/-- What `main` has read when it comes to the counters. -/
structure Progress where
  key : List UInt8
  c : Obj
  t : Obj
  e : Obj
  cap : Obj
  ctx : Obj
  transition_id : GoStr

section
variable (R)

/-- `main` up to the counters. -/
def toCounters (d : Obj) : Except Panic Progress := do
  let key_hex ← s (index d "authority_key_hex")
  let key ← decodeString key_hex
  let c ← obj (index d "candidate")
  let h ← obj (index d "hcad")
  let t ← obj (index d "state_transition")
  let e ← obj (index d "validation_evidence")
  let cap ← obj (index d "capability")
  let ctx ← obj (index d "sink_context")
  let cd ← checkCandidate R c cap e
  checkDescriptor R c h cap e ctx
  let id ← sha R (.map (transitionCore t cd))
  let transition_id ← s (index t "transition_id")
  eq id transition_id "transition id"
  .ok ⟨key, c, t, e, cap, ctx, transition_id⟩

/-- The capability in the sink's context, up to its lifetime. -/
def toLifetime (c e cap ctx : Obj) : Except Panic Unit := do
  let cap_sink ← s (index cap "sink_id")
  let ctx_sink ← s (index ctx "sink_id")
  eq cap_sink ctx_sink "sink"
  let cap_boundary ← s (index cap "boundary_id")
  let ctx_boundary ← s (index ctx "boundary_id")
  eq cap_boundary ctx_boundary "boundary"
  let cap_epoch ← num (index cap "policy_epoch")
  let ctx_epoch ← num (index ctx "policy_epoch")
  failIf (cap_epoch ≠ ctx_epoch) (.message "epoch mismatch")
  let cap_nonce ← s (index cap "nonce")
  let c_nonce ← s (index c "nonce")
  eq cap_nonce c_nonce "nonce"
  let cap_authority ← s (index cap "authority_id")
  let e_authority ← s (index e "authority_id")
  eq cap_authority e_authority "authority"
  checkScope c cap ctx
  let c_class ← s (index c "effect_class")
  let ctx_class ← s (index ctx "effect_class")
  eq c_class ctx_class "effect class"

/-- `main` from after the counters up to the lifetime. -/
def fromCounters (x : Progress) : Except Panic Unit := do
  let cap_id ← s (index x.cap "transition_id")
  eq x.transition_id cap_id "transition cap"
  let e_id ← s (index x.e "transition_id")
  eq x.transition_id e_id "transition evidence"
  checkEvidence R x.e x.key
  checkSigned R x.cap x.key "capability_id" "cap HMAC" "cap id"
  toLifetime x.c x.e x.cap x.ctx

end

/-- The lifetime of the capability. -/
def checkLifetime (c cap : Obj) : Except Panic Unit := do
  let expires ← num (index cap "expires_at_ns")
  let issued ← num (index c "issued_at_ns")
  let freshness ← num (index c "freshness_ns")
  failIf (expires > wrap (issued + freshness)) (.message "cap outlives candidate")

/-- **`main` is its parts in sequence.** -/
theorem main_eq (d : Obj) : main R d = (do
    let x ← toCounters R d
    checkCounters x.t
    fromCounters R x
    checkLifetime x.c x.cap) := by
  simp only [main, toCounters, checkTransition, fromCounters, checkContext, toLifetime,
    checkLifetime, bind_assoc, ok_bind]

/-! ## The same over the integers -/

/-- `num` over the integers. -/
def exactNum : Val → Except Panic Int
  | .number n =>
      match readInt n with
      | none => .error (.parseInt n)
      | some i => .ok i
  | _ => .error .typeAssertion

/-- The counters over the integers. -/
def exactCounters (t : Obj) : Except Panic Unit := do
  let after_version ← exactNum (index t "after_version")
  let before_version ← exactNum (index t "before_version")
  failIf (after_version ≠ before_version + 1) (.message "invalid transition")
  let quota_after ← exactNum (index t "quota_after")
  let quota_before ← exactNum (index t "quota_before")
  failIf (quota_after ≠ quota_before - 1) (.message "invalid transition")
  let budget_after ← exactNum (index t "budget_after")
  let budget_before ← exactNum (index t "budget_before")
  failIf (budget_after ≥ budget_before) (.message "invalid transition")

/-- The lifetime over the integers. -/
def exactLifetime (c cap : Obj) : Except Panic Unit := do
  let expires ← exactNum (index cap "expires_at_ns")
  let issued ← exactNum (index c "issued_at_ns")
  let freshness ← exactNum (index c "freshness_ns")
  failIf (expires > issued + freshness) (.message "cap outlives candidate")

/-- `main` with its two computations over the integers. -/
def exactMain (R : Runtime) (d : Obj) : Except Panic Unit := do
  let x ← toCounters R d
  exactCounters x.t
  fromCounters R x
  exactLifetime x.c x.cap

/-- A read in range is the integer it spells. -/
theorem num_eq_exactNum {v : Val} (h : SafeRead v) : num v = exactNum v := by
  cases v with
  | number n =>
    obtain ⟨i, hi, hs⟩ := h n rfl
    rw [num_of_safe hi hs, exactNum, hi]
  | nil | bool | string | slice | map => rfl

/-- What is read as an integer is safe. -/
theorem safe_of_exactNum {v : Val} (h : SafeRead v) {i : Int} (hi : exactNum v = .ok i) :
    Safe i := by
  cases v with
  | number n =>
    obtain ⟨j, hj, hs⟩ := h n rfl
    rw [exactNum, hj] at hi
    exact Except.ok.inj hi ▸ hs
  | nil | bool | string | slice | map => cases hi

/-- Adding one to it does not overflow. -/
theorem wrap_succ {i : Int} (hi : Safe i) : wrap (i + 1) = i + 1 :=
  wrap_add hi (by rw [Safe, Finality.maxSafeInteger]; omega)

/-- Nor does subtracting one. -/
theorem wrap_pred {i : Int} (hi : Safe i) : wrap (i - 1) = i - 1 :=
  wrap_add hi (j := -1) (by rw [Safe, Finality.maxSafeInteger]; omega)

/-- The counters do not wrap around. -/
theorem checkCounters_exact {t : Obj} (h : ∀ k ∈ counterKeys, SafeRead (index t k)) :
    checkCounters t = exactCounters t := by
  simp only [counterKeys, List.forall_mem_cons, List.not_mem_nil, false_implies, implies_true,
    and_true] at h
  obtain ⟨hbv, hav, hqb, hqa, hbb, hba⟩ := h
  rw [checkCounters, exactCounters, num_eq_exactNum hbv, num_eq_exactNum hav, num_eq_exactNum hqb,
    num_eq_exactNum hqa, num_eq_exactNum hbb, num_eq_exactNum hba]
  refine bind_congr_ok fun after_version _ => bind_congr_ok fun before_version hbefore => ?_
  rw [wrap_succ (safe_of_exactNum hbv hbefore)]
  refine bind_congr_ok fun _ _ => bind_congr_ok fun quota_after _ =>
    bind_congr_ok fun quota_before hquota => ?_
  rw [wrap_pred (safe_of_exactNum hqb hquota)]

/-- Nor does the end of the lifetime. -/
theorem checkLifetime_exact {c cap : Obj} (hx : SafeRead (index cap "expires_at_ns"))
    (hi : SafeRead (index c "issued_at_ns")) (hf : SafeRead (index c "freshness_ns")) :
    checkLifetime c cap = exactLifetime c cap := by
  rw [checkLifetime, exactLifetime, num_eq_exactNum hx, num_eq_exactNum hi, num_eq_exactNum hf]
  refine bind_congr_ok fun expires _ => bind_congr_ok fun issued hissued =>
    bind_congr_ok fun freshness hfreshness => ?_
  rw [wrap_add (safe_of_exactNum hi hissued) (safe_of_exactNum hf hfreshness)]

/-! ## What has been hashed by then -/

/-- A member of an object that was hashed is read safely. -/
theorem safeRead_of_sha {m : Obj} {d : GoStr} (h : sha R (.map m) = .ok d) (k : String) :
    SafeRead (index m k) :=
  fun _ hn => safeNumber_of_sha h (mem_of_index hn)

/-- Every member of a signed object but its signature. -/
theorem safeRead_of_signed {m : Obj} {key : List UInt8} {id macMsg idMsg : String}
    (h : checkSigned R m key id macMsg idMsg = .ok ()) {k : String} (hk : k ≠ "signature") :
    SafeRead (index m k) := by
  intro n hn
  simp only [checkSigned, bind_eq_ok] at h
  obtain ⟨_, hmac, -⟩ := h
  refine safeNumber_of_mac hmac (List.mem_filter.2 ⟨mem_of_index hn, ?_⟩)
  have hne : lit k ≠ lit "signature" := fun heq =>
    hk (String.toList_inj.1 (Utf8.utf8_injective heq))
  simpa using hne

/-- **At the counters** the candidate has been hashed, and the counters with the transition. -/
theorem safeRead_of_toCounters {d : Obj} {x : Progress} (h : toCounters R d = .ok x) :
    (∀ k, SafeRead (index x.c k)) ∧ ∀ k ∈ counterKeys, SafeRead (index x.t k) := by
  simp only [toCounters, bind_eq_ok] at h
  obtain ⟨_, -, key, -, c, -, _, -, t, -, e, -, cap, -, ctx, -, cd, hcandidate, -, -, _, hid, id, -,
    -, -, hx⟩ := h
  obtain rfl := Except.ok.inj hx
  refine ⟨fun k => ?_, fun k hk n hn => safeNumber_of_sha hid (k := lit k) ?_⟩
  · simp only [checkCandidate, bind_eq_ok] at hcandidate
    obtain ⟨_, -, -, -, _, hsha, -⟩ := hcandidate
    exact safeRead_of_sha hsha k
  · have hmem : ∀ k ∈ counterKeys, (lit k, index t k) ∈ transitionCore t cd := by
      simp [counterKeys, transitionCore]
    exact hn ▸ hmem k hk

/-- **At the lifetime** the capability has been signed over. -/
theorem safeRead_of_fromCounters {x : Progress} (h : fromCounters R x = .ok ()) :
    SafeRead (index x.cap "expires_at_ns") := by
  simp only [fromCounters, bind_eq_ok, exists_unit] at h
  obtain ⟨_, -, -, _, -, -, -, hsigned, -⟩ := h
  exact safeRead_of_signed hsigned (by decide)

/-- **The verifier computes over the integers.** -/
theorem main_exact (d : Obj) : main R d = exactMain R d := by
  rw [main_eq, exactMain]
  refine bind_congr_ok fun x hx => ?_
  obtain ⟨hc, ht⟩ := safeRead_of_toCounters hx
  rw [checkCounters_exact ht]
  refine bind_congr_ok fun _ _ => bind_congr_ok fun _ hfrom => ?_
  exact checkLifetime_exact (safeRead_of_fromCounters hfrom) (hc _) (hc _)

/-- A number that a digest has tested: `strconv.ParseInt` reads it, and it is far from the ends of
the type. -/
structure Tested (n : List Char) (i : Int) : Prop where
  validated : validateInteger n = .ok ()
  value : readInt n = some i
  parsed : num (.number n) = .ok i
  safe : Safe i

/-- A number that is read safely has been tested. -/
theorem tested_of_safeRead {v : Val} (h : SafeRead v) (n : List Char) (hn : v = .number n) :
    ∃ i, Tested n i := by
  obtain ⟨i, hi, hs⟩ := h n hn
  exact ⟨i, validateInteger_eq_ok.2 ⟨i, hi, hs⟩, hi, num_of_safe hi hs, hs⟩

/-- **The arithmetic of the Go verifier never wraps.** For any decoded document, whenever `main`
comes to the counters each of them that is a number has been tested by a digest, so adding or
subtracting one stays in `int64`; whenever it comes to the lifetime, so has each number of that,
and their sum stays in `int64`; and in both places `main` goes on just when the comparison holds of
the integers. -/
theorem arithmetic_exact (d : Obj) :
    (∀ x, toCounters R d = .ok x →
      (∀ k ∈ counterKeys, ∀ n, index x.t k = .number n →
        ∃ i, Tested n i ∧ InInt64 (i + 1) ∧ InInt64 (i - 1)) ∧
      checkCounters x.t = exactCounters x.t ∧
      (checkCounters x.t = .ok () → fromCounters R x = .ok () →
        (∀ v ∈ [index x.cap "expires_at_ns", index x.c "issued_at_ns", index x.c "freshness_ns"],
          ∀ n, v = .number n → ∃ i, Tested n i) ∧
        (∀ i j, num (index x.c "issued_at_ns") = .ok i → num (index x.c "freshness_ns") = .ok j →
          InInt64 (i + j)) ∧
        checkLifetime x.c x.cap = exactLifetime x.c x.cap)) ∧
    main R d = exactMain R d := by
  refine ⟨fun x hx => ?_, main_exact d⟩
  obtain ⟨hc, ht⟩ := safeRead_of_toCounters hx
  refine ⟨fun k hk n hn => ?_, checkCounters_exact ht, fun _ hfrom => ?_⟩
  · obtain ⟨i, hi⟩ := tested_of_safeRead (ht k hk) n hn
    have hs := hi.safe
    rw [Safe, Finality.maxSafeInteger] at hs
    exact ⟨i, hi, by rw [InInt64]; omega, by rw [InInt64]; omega⟩
  · have hx := safeRead_of_fromCounters hfrom
    refine ⟨?_, fun i j hi hj => ?_, checkLifetime_exact hx (hc _) (hc _)⟩
    · simp only [List.forall_mem_cons, List.not_mem_nil, false_implies, implies_true, and_true]
      exact ⟨tested_of_safeRead hx, tested_of_safeRead (hc _), tested_of_safeRead (hc _)⟩
    · rw [num_eq_exactNum (hc _)] at hi hj
      have hi := safe_of_exactNum (hc _) hi
      have hj := safe_of_exactNum (hc _) hj
      rw [Safe, Finality.maxSafeInteger] at hi hj
      rw [InInt64]
      omega

end Go

end Finality
