import Finality.Core.Refusals
import Finality.Core.Ed25519

/-!
# Keys in another trust domain

Sinks that hold copies of public-key authenticators are the purpose of the class: they belong to
another trust domain than the authority. `trust_domains` compares a run whose sinks hold the
authority's and the presenters' own authenticators with the run of the same calls whose sinks hold
the copies: every effect, claim and protected record is the same, and so is every answer, except
that a sink without a receipt authenticator of its own makes the effect and then raises for want of
a key.
-/

namespace Finality

open Checks ProtectedState ProtectedAuthority FinalitySink

namespace Ed25519Authenticator

variable {S : Ed25519Scheme} {R : Runtime} {e : Ed25519Authenticator S}

/-- Text of bytes is ASCII. -/
theorem isAsciiStr_of_fromHex {s : PyStr} {raw : List UInt8} (h : fromHex s = some raw) :
    isAsciiStr s = true := by
  simp only [isAsciiStr, List.all_eq_true, decide_eq_true_eq]
  exact fun c hc => Hex.lt_of_readSpaced? h c.val (List.mem_map_of_mem hc)

/-- The public-key authenticator is a reference authenticator. -/
theorem reference : (e.toAuthenticator R).Reference where
  ascii_of_verify := by
    intro v s k h
    obtain ⟨-, raw, -, hraw, -⟩ := verify_eq_true.1 h
    exact isAsciiStr_of_fromHex hraw
  hmac_or_total := .inr exists_verify

end Ed25519Authenticator

/-- A dictionary with every value replaced. -/
def PyDict.mapValues {V W : Type} (f : V → W) (d : PyDict V) : PyDict W where
  entries := d.entries.map fun e => ⟨e.1, f e.2⟩
  nodupKeys := by
    have hkeys : (d.entries.map fun e => (⟨e.1, f e.2⟩ : Sigma fun _ : PyStr => W)).keys =
        d.entries.keys := by
      simp [List.keys, Function.comp_def]
    unfold List.NodupKeys
    rw [hkeys]
    exact d.nodupKeys

theorem PyDict.lookup_mapValues {V W : Type} (f : V → W) (d : PyDict V) (k : PyStr) :
    (d.mapValues f).lookup k = (d.lookup k).map f := by
  change (d.entries.map fun e => (⟨e.1, f e.2⟩ : Sigma fun _ : PyStr => W)).dlookup k =
    (d.entries.dlookup k).map f
  generalize d.entries = entries
  induction entries with
  | nil => rfl
  | cons entry rest ih =>
    obtain ⟨k', v⟩ := entry
    by_cases hk : k = k'
    · subst hk
      rw [List.map_cons, List.dlookup_cons_eq, List.dlookup_cons_eq]
      rfl
    · rw [List.map_cons, List.dlookup_cons_ne _ _ hk, List.dlookup_cons_ne _ _ hk, ih]

/-- The authenticators a sink verifies with. -/
structure VerifyingKeys (S : Ed25519Scheme) where
  authority : Ed25519Authenticator S
  presenters : Option (PyDict (Ed25519Authenticator S))

/-- The copies without private keys. -/
def VerifyingKeys.verifiers {S : Ed25519Scheme} (keys : VerifyingKeys S) : VerifyingKeys S where
  authority := keys.authority.verifier
  presenters := keys.presenters.map (PyDict.mapValues Ed25519Authenticator.verifier)

section
variable {S : Ed25519Scheme} {R : Runtime}

/-- `PresenterVerifierRegistry(verifiers)` -/
def presenterRegistry (R : Runtime) (verifiers : PyDict (Ed25519Authenticator S)) :
    PresenterVerifierRegistry R :=
  ⟨verifiers.mapValues (Ed25519Authenticator.toAuthenticator R)⟩

/-- The sink with the given keys to verify with. -/
def FinalitySink.holding (sink : FinalitySink R) (keys : VerifyingKeys S) : FinalitySink R :=
  { sink with
    authenticator := keys.authority.toAuthenticator R
    presenter_verifier := keys.presenters.map (presenterRegistry R) }

/-- The call with the given keys at its sink. -/
def Op.holding (keys : VerifyingKeys S) : Op R → Op R
  | .effectuate sink c cap now proof => .effectuate (sink.holding keys) c cap now proof
  | op => op

/-- A registry of copies accepts exactly what the registry of the originals accepts. -/
theorem presenterRegistry_verifiers (d : PyDict (Ed25519Authenticator S)) :
    (presenterRegistry R (d.mapValues Ed25519Authenticator.verifier)).verify =
      (presenterRegistry R d).verify := by
  funext proof
  simp only [PresenterVerifierRegistry.verify, presenterRegistry, PyDict.lookup_mapValues,
    Option.map_map]
  cases d.lookup proof.presenter_key_id <;> rfl

variable {sink : FinalitySink R} {keys : VerifyingKeys S}

/-- The block on presentations does not depend on the private keys. -/
theorem checkPresentation_verifiers (c : CandidateAct) (cap : Capability) (now : Int)
    (proof : Option PresentationProof) :
    (sink.holding keys.verifiers).checkPresentation c cap now proof =
      (sink.holding keys).checkPresentation c cap now proof := by
  obtain ⟨authority, presenters⟩ := keys
  cases presenters with
  | none => cases proof <;> rfl
  | some d =>
    cases proof with
    | none => rfl
    | some p =>
      simp only [checkPresentation, FinalitySink.holding, VerifyingKeys.verifiers, Option.map_some,
        presenterRegistry_verifiers]
      rfl

/-- Neither does `verify`. -/
theorem verify_verifiers (ev : EvidenceStore R) (st : ProtectedState) (c : CandidateAct)
    (cap : Capability) (now : Int) (proof : Option PresentationProof) :
    (sink.holding keys.verifiers).verify ev st c cap now proof =
      (sink.holding keys).verify ev st c cap now proof := by
  unfold FinalitySink.verify
  rw [checkPresentation_verifiers]
  rfl

/-- The answer of a sink that cannot sign with the key it verifies with: where it needs that key for
the receipt, it raises instead. -/
def FinalitySink.withoutReceipt (sink : FinalitySink R) :
    Except PyErr SinkReceipt → Except PyErr SinkReceipt
  | .ok receipt =>
      if sink.receipt_authenticator.isSome then .ok receipt
      else .error Ed25519Authenticator.verifierOnly
  | .error e => .error e

/-- With an authenticator of its own for receipts the sink issues the same receipt. -/
theorem issueReceipt_of_receipts {receipts : Authenticator R}
    (hreceipts : sink.receipt_authenticator = some receipts) (c : CandidateAct) (cap : Capability)
    (d : PyStr) (now : Int) (ref : Option PyStr) :
    (sink.holding keys.verifiers).issueReceipt c cap d now ref =
      (sink.holding keys).issueReceipt c cap d now ref := by
  simp only [issueReceipt, receiptCore, receiptAuthenticator, holding, hreceipts, Option.getD_some]

section
variable (hreceipts : sink.receipt_authenticator = none)
include hreceipts

/-- Without one it signs receipts with the key it verifies capabilities with. -/
theorem receiptAuthenticator_holding (keys : VerifyingKeys S) :
    (sink.holding keys).receiptAuthenticator = keys.authority.toAuthenticator R := by
  simp [receiptAuthenticator, holding, hreceipts]

/-- What a receipt says is the same with the copies, whose key id is the original's. -/
theorem receiptCore_holding (keys : VerifyingKeys S) :
    (sink.holding keys.verifiers).receiptCore = (sink.holding keys).receiptCore := by
  funext d cap d' now ref
  simp only [receiptCore, receiptAuthenticator_holding hreceipts]
  rfl

/-- An original without a private key is its own copy. -/
theorem issueReceipt_of_public (hkey : keys.authority.private_key = none) (c : CandidateAct)
    (cap : Capability) (d : PyStr) (now : Int) (ref : Option PyStr) :
    (sink.holding keys.verifiers).issueReceipt c cap d now ref =
        (sink.holding keys).issueReceipt c cap d now ref ∧
      ∀ receipt, (sink.holding keys).issueReceipt c cap d now ref ≠ .ok receipt := by
  have heq : keys.authority.verifier = keys.authority := by
    obtain ⟨⟨key_id, private_key, public_key⟩, presenters⟩ := keys
    obtain rfl : private_key = none := hkey
    rfl
  have hcopy : (sink.holding keys.verifiers).receiptAuthenticator =
      keys.authority.toAuthenticator R :=
    (receiptAuthenticator_holding hreceipts _).trans
      (congrArg (Ed25519Authenticator.toAuthenticator R) heq)
  refine ⟨?_, ?_⟩
  · simp only [issueReceipt, receiptCore_holding hreceipts, hcopy,
      receiptAuthenticator_holding hreceipts keys]
    rfl
  · intro receipt hissue
    have hsign := (issueReceipt_ok hissue).signature
    rw [receiptAuthenticator_holding hreceipts, ← heq] at hsign
    cases hsign

/-- A key pair signs every receipt that gets an id; its copy signs none. -/
theorem issueReceipt_of_private (hkey : keys.authority.private_key.isSome) {c : CandidateAct}
    {cap : Capability} {d : PyStr} (hdigest : c.digest R = .ok cap.candidate_digest) (now : Int)
    (ref : Option PyStr) :
    (∃ e, (sink.holding keys).issueReceipt c cap d now ref = .error e ∧
      (sink.holding keys.verifiers).issueReceipt c cap d now ref = .error e) ∨
    ∃ receipt, (sink.holding keys).issueReceipt c cap d now ref = .ok receipt ∧
      (sink.holding keys.verifiers).issueReceipt c cap d now ref =
        .error Ed25519Authenticator.verifierOnly := by
  have hcore := receiptCore_holding hreceipts keys
  cases hid : sha256Hex R (.ofEntries
      ((sink.holding keys).receiptCore cap.candidate_digest cap d now ref)) with
  | error e =>
    exact .inl ⟨e, by simp only [issueReceipt, hdigest, ok_bind, hid, error_bind],
      by simp only [issueReceipt, hdigest, hcore, ok_bind, hid, error_bind]⟩
  | ok i =>
    -- what has an id has canonical bytes, and so has what is signed
    have hkeys : GoodKeys ("receipt_id" :: ((sink.holding keys).receiptCore
        cap.candidate_digest cap d now ref).map Prod.fst) := goodKeys_receiptKeys
    have hunsigned := canon_ofEntries_cons hkeys
      (canon_str.2 (inert_of_sha256Hex hid).hasSurrogate)
      ((canon_ofEntries_iff hkeys.tail).1 (canon_of_sha256Hex hid))
    obtain ⟨signature, hsign⟩ :=
      Ed25519Authenticator.signsCanon (e := keys.authority) hkey _ hunsigned
    have hauth := receiptAuthenticator_holding hreceipts keys
    refine .inr ⟨_, bind_eq_ok.2 ⟨_, hdigest, bind_eq_ok.2 ⟨i, hid,
      bind_eq_ok.2 ⟨signature, hauth ▸ hsign, rfl⟩⟩⟩, ?_⟩
    simp only [issueReceipt, hdigest, hcore, receiptAuthenticator_holding hreceipts, ok_bind, hid]
    rfl

end

/-- The receipt after a verified call, with the copies. -/
theorem issueReceipt_verifiers {ev : EvidenceStore R} {st : ProtectedState} {c : CandidateAct}
    {cap : Capability} {now : Int} {proof : Option PresentationProof} {d : PyStr}
    (hv : Verified (sink.holding keys) ev st c cap now proof d) (ref : Option PyStr) :
    (sink.holding keys.verifiers).issueReceipt c cap d now ref =
      sink.withoutReceipt ((sink.holding keys).issueReceipt c cap d now ref) := by
  cases hreceipts : sink.receipt_authenticator with
  | some receipts =>
    rw [issueReceipt_of_receipts hreceipts]
    cases (sink.holding keys).issueReceipt c cap d now ref with
    | ok receipt => simp [withoutReceipt, hreceipts]
    | error e => rfl
  | none =>
    cases hkey : keys.authority.private_key with
    | none =>
      obtain ⟨hsame, hnone⟩ := issueReceipt_of_public hreceipts hkey c cap d now ref
      rw [hsame]
      cases hissue : (sink.holding keys).issueReceipt c cap d now ref with
      | ok receipt => exact absurd hissue (hnone receipt)
      | error e => rfl
    | some sk =>
      rcases issueReceipt_of_private hreceipts (Option.isSome_of_eq_some hkey)
        hv.candidate_digest now ref with ⟨e, hissue, hcopied⟩ | ⟨receipt, hissue, hcopied⟩
      · rw [hcopied, hissue]
        rfl
      · rw [hcopied, hissue]
        simp [withoutReceipt, hreceipts]

/-- **An `effectuate` with the copies**: the same claims and effects, and the same answer but for
the receipt. -/
theorem effectuate_verifiers (ev : EvidenceStore R) (st : ProtectedState) (stores : EffectStores)
    (c : CandidateAct) (cap : Capability) (now : Int) (proof : Option PresentationProof) :
    (sink.holding keys.verifiers).effectuate ev st stores c cap now proof =
      (sink.withoutReceipt ((sink.holding keys).effectuate ev st stores c cap now proof).1,
        ((sink.holding keys).effectuate ev st stores c cap now proof).2) := by
  have hcontext : (sink.holding keys.verifiers).context = (sink.holding keys).context := rfl
  have hhandle : (sink.holding keys.verifiers).effect_handle = (sink.holding keys).effect_handle :=
    rfl
  unfold effectuate
  rw [verify_verifiers, hcontext, hhandle]
  cases hverify : (sink.holding keys).verify ev st c cap now proof with
  | error e => rfl
  | ok d =>
    have hv := verify_ok.1 hverify
    dsimp only
    cases stores.consumption_store.claim cap.capability_id (sink.holding keys).context.sink_id
        (sink.holding keys).context.boundary_id cap.nonce now with
    | error e => rfl
    | ok claims =>
      dsimp only
      cases hcommit : stores.effector.commit R c (sink.holding keys).effect_handle with
      | mk committed effector =>
        cases committed with
        | error e => rfl
        | ok record =>
          simp only [issueReceipt_verifiers hv]

/-! ## Runs of calls -/

/-- The stores that what a call does depends on are the same; of the signing history, receipts may
be missing. -/
structure SameStores (w w' : World R) : Prop where
  state : w'.authority.state = w.authority.state
  evidence_store : w'.authority.evidence_store = w.authority.evidence_store
  effects : w'.effects = w.effects
  signed : w'.authority.signed.Sublist w.authority.signed

/-- An authorisation does not depend on the signing history. -/
theorem authorize_of_sameStores {a : ProtectedAuthority R} {w w' : World R} (h : SameStores w w')
    (c : CandidateAct) (cost now : Int) :
    (a.authorize w'.authority c cost now).1 = (a.authorize w.authority c cost now).1 ∧
      SameStores { w with authority := (a.authorize w.authority c cost now).2 }
        { w' with authority := (a.authorize w'.authority c cost now).2 } := by
  obtain ⟨⟨state, evidence_store, signed⟩, effects⟩ := w
  obtain ⟨⟨state', evidence_store', signed'⟩, effects'⟩ := w'
  obtain ⟨rfl, rfl, rfl, hsigned⟩ := h
  dsimp only at hsigned ⊢
  unfold ProtectedAuthority.authorize
  cases buildHcad R c none none with
  | error e => exact ⟨rfl, rfl, rfl, rfl, hsigned⟩
  | ok descriptor =>
    dsimp only
    split
    · exact ⟨rfl, rfl, rfl, rfl, hsigned⟩
    · split
      · exact ⟨rfl, rfl, rfl, rfl, hsigned⟩
      · split
        · exact ⟨rfl, rfl, rfl, rfl, hsigned⟩
        · split
          · exact ⟨rfl, rfl, rfl, rfl, hsigned.append (.refl _)⟩
          · split
            · exact ⟨rfl, rfl, rfl, rfl, hsigned.append (.refl _)⟩
            · exact ⟨rfl, rfl, rfl, rfl, (hsigned.append (.refl _)).append (.refl _)⟩

/-- What is signed for an answer without the receipt is signed for the answer. -/
theorem receiptSigned_withoutReceipt (r : Except PyErr SinkReceipt) :
    (receiptSigned (sink.withoutReceipt r)).Sublist (receiptSigned r) := by
  cases r with
  | error e => exact .refl _
  | ok receipt =>
    by_cases hreceipts : sink.receipt_authenticator.isSome = true
    · simp [FinalitySink.withoutReceipt, hreceipts]
    · simp [FinalitySink.withoutReceipt, hreceipts, receiptSigned]

/-- **One call with the copies keeps the stores the same.** -/
theorem SameStores.exec {a : ProtectedAuthority R} {w w' : World R} (h : SameStores w w')
    (keys : VerifyingKeys S) (op : Op R) :
    SameStores (exec a w (op.holding keys)) (exec a w' (op.holding keys.verifiers)) := by
  cases op with
  | authorize c cost now => exact (authorize_of_sameStores h c cost now).2
  | effectuate sink c cap now proof =>
    simp only [Op.holding, Finality.exec, effectuate_verifiers, h.state, h.evidence_store,
      h.effects]
    exact ⟨rfl, rfl, rfl, h.signed.append (receiptSigned_withoutReceipt _)⟩
  | configureSource source quota budget =>
    refine ⟨?_, h.evidence_store, h.effects, h.signed⟩
    simp only [Op.holding, Finality.exec, h.state]
  | snapshot source =>
    refine ⟨?_, h.evidence_store, h.effects, h.signed⟩
    simp only [Op.holding, Finality.exec, h.state]
  | directEffect c => exact h
  | failNext =>
    refine ⟨h.state, h.evidence_store, ?_, h.signed⟩
    simp only [Op.holding, Finality.exec, h.effects]
  | failCommits b =>
    refine ⟨h.state, ?_, h.effects, h.signed⟩
    simp only [Op.holding, Finality.exec, h.evidence_store]

/-- The state after calls, each with the keys its sink holds. -/
def execs (a : ProtectedAuthority R) (w : World R) (calls : List (VerifyingKeys S × Op R)) :
    World R :=
  calls.foldl (fun w call => exec a w (call.2.holding call.1)) w

/-- The same calls with the copies. -/
def withVerifiers (calls : List (VerifyingKeys S × Op R)) : List (VerifyingKeys S × Op R) :=
  calls.map fun call => (call.1.verifiers, call.2)

/-- A run with the copies keeps the stores the same. -/
theorem SameStores.execs {a : ProtectedAuthority R} (calls : List (VerifyingKeys S × Op R))
    {w w' : World R} (h : SameStores w w') :
    SameStores (execs a w calls) (execs a w' (withVerifiers calls)) := by
  induction calls generalizing w w' with
  | nil => exact h
  | cons call rest ih => exact ih (h.exec call.1 call.2)

/-- **The sinks need no private key.** After any calls, whichever keys each sink holds to verify
capabilities and presentations with, the run in which it holds the copies has come to the same
protected state, evidence, claims and effects; the next authorisation and the next effectuation
answer the same, except that a sink without a receipt authenticator has made its effect and raises
that it cannot sign. -/
theorem trust_domains (a : ProtectedAuthority R) (w₀ : World R)
    (calls : List (VerifyingKeys S × Op R)) :
    let w := execs a w₀ calls
    let w' := execs a w₀ (withVerifiers calls)
    SameStores w w' ∧
      (∀ c cost now, (a.authorize w'.authority c cost now).1 =
        (a.authorize w.authority c cost now).1) ∧
      ∀ (keys : VerifyingKeys S) (sink : FinalitySink R) c cap now proof,
        (sink.holding keys.verifiers).effectuate w'.authority.evidence_store w'.authority.state
            w'.effects c cap now proof =
          (sink.withoutReceipt ((sink.holding keys).effectuate w.authority.evidence_store
              w.authority.state w.effects c cap now proof).1,
            ((sink.holding keys).effectuate w.authority.evidence_store w.authority.state w.effects
              c cap now proof).2) := by
  intro w w'
  have hsame : SameStores w w' := SameStores.execs calls ⟨rfl, rfl, rfl, .refl _⟩
  refine ⟨hsame, fun c cost now => (authorize_of_sameStores hsame c cost now).1, ?_⟩
  intro keys sink c cap now proof
  rw [hsame.evidence_store, hsame.state, hsame.effects, effectuate_verifiers]

end

end Finality
