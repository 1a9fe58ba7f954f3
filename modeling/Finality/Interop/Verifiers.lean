import Finality.Interop.NodeAccepts
import Finality.Interop.Refinement

/-!
# The two portable verifiers

Node reads a document without asking for types, Go asks for the type of every field and takes
`null` for a missing member. So the two agree unless a document falls in one of two gaps: every
field is typed and a member that a record is rebuilt from is missing, or some field is of another
type and holds something that Node's comparisons accept.
-/

namespace Finality

open JsonText Checks

/-- The document with another text for its key. The text is put in front and the old one taken out,
so that the names stay distinct. -/
def withKeyText (d : Members) (s : List Char) : Members :=
  ("authority_key_hex".toList, .str s) :: withoutMember "authority_key_hex" d

/-- Its key is the new text. -/
theorem member_withKeyText_self {d : Members} {s : List Char} :
    member (withKeyText d s) "authority_key_hex" = some (.str s) := by
  rw [member, withKeyText, List.lookup_cons_self]

/-- Every other member is as it was. -/
theorem member_withKeyText {d : Members} {s : List Char} {k : String}
    (hk : k ≠ "authority_key_hex") : member (withKeyText d s) k = member d k := by
  have hne : (k.toList == "authority_key_hex".toList) = false :=
    beq_eq_false_iff_ne.2 fun h => hk (String.toList_inj.1 h)
  rw [← member_withoutMember d hk, member, member, withKeyText, List.lookup_cons, hne]

/-- So is every section. -/
theorem object_withKeyText {d : Members} {s : List Char} {k : String}
    (hk : k ≠ "authority_key_hex") : object (withKeyText d s) k = object d k := by
  rw [object, member_withKeyText hk, ← object]

/-- Node takes any text for the key from which `Buffer.from` reads the same bytes: the key is used
as a key and nowhere else. -/
theorem Node.LooselyAccepted.withKeyText {R : Runtime} {d : Members} {s : List Char}
    {key : List UInt8} (h : LooselyAccepted R d)
    (hkey : bufferFromHex (operand d "authority_key_hex") = .ok key)
    (hs : bufferFromHex (textRef s) = .ok key) : LooselyAccepted R (withKeyText d s) := by
  have hsections : ∀ k ∈ sectionKeys, object (Finality.withKeyText d s) k = object d k :=
    fun k hk => object_withKeyText (by rintro rfl; exact absurd hk (by decide))
  simp only [sectionKeys, List.forall_mem_cons, List.not_mem_nil, false_implies, implies_true,
    and_true] at hsections
  obtain ⟨hc, hh, ht, he, hcap, hctx⟩ := hsections
  obtain ⟨⟨hobj, htc, htd, htt, htcap, hte, htev, hts⟩, ⟨hdp, htp⟩, hcp, hca, hda, hid, hidcap,
    hide, hcounters, ⟨key', hkey', hsig⟩, hcontext⟩ := h
  obtain rfl : key' = key := Except.ok.inj (hkey'.symm.trans hkey)
  have hobj' : ∀ k ∈ sectionKeys, IsObject (Finality.withKeyText d s) k := fun k hk => by
    rw [IsObject, member_withKeyText (by rintro rfl; exact absurd hk (by decide))]
    exact hobj k hk
  have hkey'' : bufferFromHex (operand (Finality.withKeyText d s) "authority_key_hex") =
      .ok key' := by
    rw [operand, member_withKeyText_self]
    exact hs
  refine ⟨⟨hobj', ?_, ?_, ?_, ?_, ?_, ?_, ?_⟩, ⟨?_, ?_⟩, ?_, ?_, ?_, ?_, ?_, ?_, ?_,
    ⟨key', hkey'', ?_⟩, ?_⟩ <;> simp only [hc, hh, ht, he, hcap, hctx] <;> assumption

end Finality
