import Finality.Lib.IntLiteral
import Finality.Interop.ScalarStrings
import Finality.Interop.GoCanonical

/-!
# Decoding in Go (`json.Decoder.UseNumber()`)

`decode` reads a JSON text into the values that `Canonical` takes. A number is kept as the literal
that stands in the text, a string is what its pieces spell with U+FFFD for a surrogate outside a
pair, and of two members of one name an object keeps the later. A text with a fraction or an
exponent is not read: it has no integer literal there.
-/

namespace Finality

open JsonText

namespace Go

/-- `m[k] = v` -/
def setKey (k : GoStr) (v : Val) : List (GoStr × Val) → List (GoStr × Val)
  | [] => [(k, v)]
  | (k', v') :: m => if k' = k then (k, v) :: m else (k', v') :: setKey k v m

/-- The string of a literal. -/
def unquote (ps : List Piece) : GoStr := Utf8.utf8 (Utf16.decode (jsUnits ps))

mutual

/-- The value at the front of a text. The fuel bounds the steps into arrays and objects. -/
def readValue : Nat → List Char → Option (Val × List Char)
  | 0, _ => none
  | fuel + 1, s =>
    match s with
    | 'n' :: 'u' :: 'l' :: 'l' :: r => some (.nil, r)
    | 't' :: 'r' :: 'u' :: 'e' :: r => some (.bool true, r)
    | 'f' :: 'a' :: 'l' :: 's' :: 'e' :: r => some (.bool false, r)
    | '"' :: r => (readPieces r).map fun (ps, r) => (.string (unquote ps), r)
    | '[' :: r =>
        match skipSpace r with
        | ']' :: r => some (.slice [], r)
        | r => (readItems fuel r).map fun (x, r) => (.slice x, r)
    | '{' :: r =>
        match skipSpace r with
        | '}' :: r => some (.map [], r)
        | r => (readMembers fuel r []).map fun (x, r) => (.map x, r)
    | s => (readLiteral s).map fun (n, r) => (.number n, r)

/-- The items of an array, from one of them to the closing bracket. -/
def readItems : Nat → List Char → Option (List Val × List Char)
  | 0, _ => none
  | fuel + 1, s =>
    match readValue fuel s with
    | none => none
    | some (e, r) =>
      match skipSpace r with
      | ']' :: r => some ([e], r)
      | ',' :: r => (readItems fuel (skipSpace r)).map fun (x, r) => (e :: x, r)
      | _ => none

/-- The members of an object, from one of them to the closing brace, into the map `m`. -/
def readMembers : Nat → List Char → List (GoStr × Val) → Option (List (GoStr × Val) × List Char)
  | 0, _, _ => none
  | fuel + 1, s, m =>
    match s with
    | '"' :: s =>
      match readPieces s with
      | none => none
      | some (ps, r) =>
        match skipSpace r with
        | ':' :: r =>
          match readValue fuel (skipSpace r) with
          | none => none
          | some (v, r) =>
            match skipSpace r with
            | '}' :: r => some (setKey (unquote ps) v m, r)
            | ',' :: r => readMembers fuel (skipSpace r) (setKey (unquote ps) v m)
            | _ => none
        | _ => none
    | _ => none

end

/-- The value of a text. -/
def decode (s : List Char) : Option Val :=
  match readValue (s.length + 1) (skipSpace s) with
  | some (v, r) => if skipSpace r = [] then some v else none
  | none => none

/-! ## The numbers of a decoded value -/

/-- The number tokens of a value. -/
inductive Token (n : List Char) : Val → Prop
  | number : Token n (.number n)
  | slice {x : List Val} {v : Val} : v ∈ x → Token n v → Token n (.slice x)
  | map {x : List (GoStr × Val)} {e : GoStr × Val} : e ∈ x → Token n e.2 → Token n (.map x)

/-- Every number is an integer literal. -/
def Literals (v : Val) : Prop := ∀ n, Token n v → IsLiteral n

theorem literals_number {n : List Char} : Literals (.number n) ↔ IsLiteral n := by
  refine ⟨fun h => h n .number, fun h m hm => ?_⟩
  cases hm
  exact h

theorem literals_slice {x : List Val} : Literals (.slice x) ↔ ∀ v ∈ x, Literals v := by
  refine ⟨fun h v hv n hn => h n (.slice hv hn), fun h n hn => ?_⟩
  cases hn with
  | slice hv hn => exact h _ hv n hn

theorem literals_map {x : List (GoStr × Val)} : Literals (.map x) ↔ ∀ e ∈ x, Literals e.2 := by
  refine ⟨fun h e he n hn => h n (.map he hn), fun h n hn => ?_⟩
  cases hn with
  | map he hn => exact h _ he n hn

/-- A map that is written to holds the new entry and old ones. -/
theorem mem_setKey {k : GoStr} {v : Val} {e : GoStr × Val} {m : List (GoStr × Val)}
    (h : e ∈ setKey k v m) : e = (k, v) ∨ e ∈ m := by
  induction m with
  | nil => exact .inl (List.mem_singleton.1 h)
  | cons e' m ih =>
    rw [setKey] at h
    split at h
    · exact (List.mem_cons.1 h).imp id fun h => List.mem_cons_of_mem _ h
    · rcases List.mem_cons.1 h with rfl | h
      · exact .inr List.mem_cons_self
      · exact (ih h).imp id fun h => List.mem_cons_of_mem _ h

/-- What is made of the result of another reader. -/
theorem of_map_read {α β : Type} {f : α → β} {x : Option (α × List Char)} {b : β} {r : List Char}
    (h : x.map (fun e => (f e.1, e.2)) = some (b, r)) : ∃ a, x = some (a, r) ∧ f a = b := by
  obtain ⟨⟨a, r'⟩, hx, heq⟩ := Option.map_eq_some_iff.1 h
  obtain ⟨rfl, rfl⟩ := Prod.mk.inj heq
  exact ⟨a, hx, rfl⟩

/-- A value holds the literals that the readers of its parts keep. -/
theorem literals_of_readValue {fuel : Nat}
    (hitems : ∀ s x r, readItems fuel s = some (x, r) → ∀ v ∈ x, Literals v)
    (hmembers : ∀ s m x r, readMembers fuel s m = some (x, r) → (∀ e ∈ m, Literals e.2) →
      ∀ e ∈ x, Literals e.2) {s : List Char} {v : Val} {r : List Char}
    (h : readValue (fuel + 1) s = some (v, r)) : Literals v := by
  unfold readValue at h
  split at h
  case h_1 | h_2 | h_3 =>
    obtain ⟨rfl, -⟩ := Prod.mk.inj (Option.some.inj h)
    exact fun n hn => by cases hn
  case h_4 =>
    obtain ⟨ps, -, rfl⟩ := of_map_read (f := fun ps => Val.string (unquote ps)) h
    exact fun n hn => by cases hn
  case h_5 =>
    split at h
    · obtain ⟨rfl, -⟩ := Prod.mk.inj (Option.some.inj h)
      exact literals_slice.2 fun _ hv => absurd hv List.not_mem_nil
    · obtain ⟨x, hx, rfl⟩ := of_map_read (f := Val.slice) h
      exact literals_slice.2 (hitems _ _ _ hx)
  case h_6 =>
    split at h
    · obtain ⟨rfl, -⟩ := Prod.mk.inj (Option.some.inj h)
      exact literals_map.2 fun _ he => absurd he List.not_mem_nil
    · obtain ⟨x, hx, rfl⟩ := of_map_read (f := Val.map) h
      exact literals_map.2 (hmembers _ _ _ _ hx fun _ he => absurd he List.not_mem_nil)
  case h_7 =>
    obtain ⟨n, hn, rfl⟩ := of_map_read (f := Val.number) h
    exact literals_number.2 (isLiteral_of_readLiteral hn)

/-- Items are read one after the other. -/
theorem literals_of_readItems {fuel : Nat}
    (hvalue : ∀ s v r, readValue fuel s = some (v, r) → Literals v)
    (hitems : ∀ s x r, readItems fuel s = some (x, r) → ∀ v ∈ x, Literals v)
    {s : List Char} {x : List Val} {r : List Char}
    (h : readItems (fuel + 1) s = some (x, r)) : ∀ v ∈ x, Literals v := by
  rw [readItems] at h
  split at h
  · cases h
  · rename_i v r' hv
    split at h
    · obtain ⟨rfl, -⟩ := Prod.mk.inj (Option.some.inj h)
      exact List.forall_mem_singleton.2 (hvalue _ _ _ hv)
    · obtain ⟨x', hx, rfl⟩ := of_map_read (f := List.cons v) h
      exact List.forall_mem_cons.2 ⟨hvalue _ _ _ hv, hitems _ _ _ hx⟩
    · cases h

/-- A member is put into the map that the members before it have filled. -/
theorem literals_of_readMembers {fuel : Nat}
    (hvalue : ∀ s v r, readValue fuel s = some (v, r) → Literals v)
    (hmembers : ∀ s m x r, readMembers fuel s m = some (x, r) → (∀ e ∈ m, Literals e.2) →
      ∀ e ∈ x, Literals e.2) {s : List Char} {m x : List (GoStr × Val)} {r : List Char}
    (h : readMembers (fuel + 1) s m = some (x, r)) (hm : ∀ e ∈ m, Literals e.2) :
    ∀ e ∈ x, Literals e.2 := by
  have hset : ∀ {s v r}, readValue fuel s = some (v, r) → ∀ k, ∀ e ∈ setKey k v m,
      Literals e.2 := by
    intro s v r hv k e he
    rcases mem_setKey he with rfl | he
    · exact hvalue _ _ _ hv
    · exact hm e he
  unfold readMembers at h
  split at h
  · split at h
    · cases h
    · split at h
      · split at h
        · cases h
        · rename_i v r' hv
          split at h
          · obtain ⟨rfl, -⟩ := Prod.mk.inj (Option.some.inj h)
            exact hset hv _
          · exact hmembers _ _ _ _ h (hset hv _)
          · cases h
      · cases h
  · cases h

/-- The readers keep literals only, whatever the fuel. -/
theorem literals_of_read : ∀ fuel : Nat,
    (∀ s v r, readValue fuel s = some (v, r) → Literals v) ∧
    (∀ s x r, readItems fuel s = some (x, r) → ∀ v ∈ x, Literals v) ∧
    ∀ s m x r, readMembers fuel s m = some (x, r) → (∀ e ∈ m, Literals e.2) →
      ∀ e ∈ x, Literals e.2
  | 0 => by
    refine ⟨fun s v r h => ?_, fun s x r h => ?_, fun s m x r h => ?_⟩
    · rw [readValue] at h
      cases h
    · rw [readItems] at h
      cases h
    · rw [readMembers] at h
      cases h
  | fuel + 1 => by
    obtain ⟨hvalue, hitems, hmembers⟩ := literals_of_read fuel
    exact ⟨fun s v r => literals_of_readValue hitems hmembers,
      fun s x r => literals_of_readItems hvalue hitems,
      fun s m x r => literals_of_readMembers hvalue hmembers⟩

/-- **Integer literals pass through verbatim**, so the numbers of a decoded value are literals. -/
theorem literals_of_decode {s : List Char} {v : Val} (h : decode s = some v) : Literals v := by
  unfold decode at h
  split at h
  · rename_i v' r hread
    split at h
    · obtain rfl := Option.some.inj h
      exact (literals_of_read _).1 _ _ _ hread
    · cases h
  · cases h

end Go

end Finality
