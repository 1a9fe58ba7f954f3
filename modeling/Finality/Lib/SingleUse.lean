import Mathlib.Data.List.Nodup
import Mathlib.Data.List.Perm.Basic
import Mathlib.Logic.Relation

/-!
# Single-use tokens

The purpose of a consumption store: a token is claimed once, and a claim is either spent on one
effect or burned. `Step` is that protocol, for any number of claims in flight; `Inv` says that the
claimed tokens are, each once, those spent, those burned and those still pending, and it is kept by
every step. So no token is spent twice, and a burned token is never spent.
-/

namespace SingleUse

variable {T E : Type _}

/-- The claims made, the claims in flight, the claims that came to nothing and the effects. -/
structure State (T E : Type _) where
  claimed : List T
  pending : List T
  burned : List T
  spent : List (T × E)

/-- Nothing has been claimed. -/
def State.empty : State T E := ⟨[], [], [], []⟩

/-- The protocol. -/
inductive Step [DecidableEq T] : State T E → State T E → Prop
  | claim {s : State T E} {t : T} (h : t ∉ s.claimed) :
      Step s { s with claimed := s.claimed ++ [t], pending := s.pending ++ [t] }
  | spend {s : State T E} {t : T} (e : E) (h : t ∈ s.pending) :
      Step s { s with pending := s.pending.erase t, spent := s.spent ++ [(t, e)] }
  | burn {s : State T E} {t : T} (h : t ∈ s.pending) :
      Step s { s with pending := s.pending.erase t, burned := s.burned ++ [t] }

/-- A claim spent at once, with no other claim in flight. -/
theorem claim_spend [DecidableEq T] {s : State T E} {t : T} (e : E) (h : t ∉ s.claimed)
    (hp : s.pending = []) : Relation.ReflTransGen Step s
      { s with claimed := s.claimed ++ [t], spent := s.spent ++ [(t, e)] } := by
  have hspend := Step.spend e (show t ∈ ({ s with
    claimed := s.claimed ++ [t], pending := s.pending ++ [t] } : State T E).pending by simp)
  simp only [hp, List.nil_append, List.erase_cons_head] at hspend
  refine .tail (.single (.claim h)) ?_
  simpa only [hp, List.nil_append] using hspend

/-- A claim burned at once, with no other claim in flight. -/
theorem claim_burn [DecidableEq T] {s : State T E} {t : T} (h : t ∉ s.claimed)
    (hp : s.pending = []) : Relation.ReflTransGen Step s
      { s with claimed := s.claimed ++ [t], burned := s.burned ++ [t] } := by
  have hburn := Step.burn (show t ∈ ({ s with
    claimed := s.claimed ++ [t], pending := s.pending ++ [t] } : State T E).pending by simp)
  simp only [hp, List.nil_append, List.erase_cons_head] at hburn
  refine .tail (.single (.claim h)) ?_
  simpa only [hp, List.nil_append] using hburn

/-- Each claimed token is spent, burned or pending, once. -/
structure Inv (s : State T E) : Prop where
  nodup : s.claimed.Nodup
  accounted : s.claimed.Perm (s.spent.map Prod.fst ++ (s.burned ++ s.pending))

/-- Nothing is issued at the start. -/
theorem inv_empty : Inv (State.empty : State T E) := ⟨List.nodup_nil, .refl _⟩

/-- A token that moves from the second list to the first is still one of them. -/
theorem perm_append_swap_singleton {as bs : List T} {t : T} :
    (as ++ (bs ++ [t])).Perm (as ++ [t] ++ bs) := by
  rw [List.append_assoc]
  exact List.perm_append_comm.append_left as

/-- **Every step keeps the accounts.** -/
theorem Inv.step [DecidableEq T] {s s' : State T E} (hi : Inv s) (h : Step s s') : Inv s' := by
  obtain ⟨hnd, hp⟩ := hi
  cases h with
  | @claim t h =>
    refine ⟨List.nodup_append.2 ⟨hnd, List.nodup_singleton t, ?_⟩, ?_⟩
    · intro a ha b hb
      obtain rfl := List.mem_singleton.1 hb
      rintro rfl
      exact h ha
    · simpa using hp.append_right [t]
  | @spend t e h =>
    have hpt : s.pending.Perm (s.pending.erase t ++ [t]) :=
      (List.perm_cons_erase h).trans (List.perm_append_singleton t _).symm
    refine ⟨hnd, hp.trans ?_⟩
    rw [List.map_append, List.map_singleton]
    refine .trans ?_ perm_append_swap_singleton
    rw [List.append_assoc s.burned]
    exact (hpt.append_left _).append_left _
  | @burn t h =>
    have hpt : s.pending.Perm ([t] ++ s.pending.erase t) := List.perm_cons_erase h
    refine ⟨hnd, hp.trans ?_⟩
    rw [List.append_assoc s.burned]
    exact (hpt.append_left _).append_left _

/-- The invariant holds along every run. -/
theorem Inv.steps [DecidableEq T] {s s' : State T E} (hi : Inv s)
    (h : Relation.ReflTransGen Step s s') : Inv s' := by
  induction h with
  | refl => exact hi
  | tail _ hs ih => exact ih.step hs

/-- No token is spent twice. -/
theorem Inv.spent_nodup {s : State T E} (hi : Inv s) : (s.spent.map Prod.fst).Nodup :=
  (List.nodup_append.1 (hi.accounted.nodup_iff.1 hi.nodup)).1

end SingleUse
