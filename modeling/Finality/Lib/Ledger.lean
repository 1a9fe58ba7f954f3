import Finality.Lib.Runs
import Mathlib.Logic.Function.Basic

/-!
# Ledgers

A ledger keeps a balance for every key. An account is opened with a balance, which forgets what
went before, and each grant takes its balance one charge further. `Posts` is what an event does to
the balances and `account` what the events so far say of one key. Whatever the balances are kept
in, when each step posts its event, the balance of every key is reached from the opening one by
the charges of the grants since then, in order (`charges_of_run`).
-/

namespace Ledger

open Runs

variable {K S G σ : Type _}

/-- What happens to a ledger: an account is opened, a grant is charged, or nothing. -/
inductive Event (K S G : Type _) where
  | opened (key : K) (balance : S)
  | granted (key : K) (grant : G)
  | idle

/-- The opening balance of a key and the grants since then. -/
structure Account (S G : Type _) where
  opening : S
  granted : List G

/-- The grants among the events, whatever their accounts. -/
def grants (events : List (Event K S G)) : List G :=
  events.filterMap fun ev => match ev with
    | .granted _ g => some g
    | _ => none

/-- A grant at the end of a history. -/
theorem grants_snoc_granted (events : List (Event K S G)) (k : K) (g : G) :
    grants (events ++ [.granted k g]) = grants events ++ [g] := by
  simp [grants]

/-- Anything else grants nothing. -/
theorem grants_snoc_of_ne {events : List (Event K S G)} {ev : Event K S G}
    (h : ∀ k g, ev ≠ .granted k g) : grants (events ++ [ev]) = grants events := by
  cases ev with
  | granted k g => exact absurd rfl (h k g)
  | opened => simp [grants]
  | idle => simp [grants]

variable [DecidableEq K]

/-- An event, seen from the account of a key. -/
def Account.post (key : K) (acc : Account S G) : Event K S G → Account S G
  | .opened k balance => if k = key then ⟨balance, []⟩ else acc
  | .granted k grant => if k = key then { acc with granted := acc.granted ++ [grant] } else acc
  | .idle => acc

/-- The account of a key after the events. -/
def account (default : S) (events : List (Event K S G)) (key : K) : Account S G :=
  events.foldl (Account.post key) ⟨default, []⟩

/-- Before anything happened an account has the default balance. -/
theorem account_nil (default : S) (key : K) :
    account (G := G) default [] key = ⟨default, []⟩ := rfl

/-- What happens last is posted last. -/
theorem account_snoc (default : S) (events : List (Event K S G)) (ev : Event K S G) (key : K) :
    account default (events ++ [ev]) key = (account default events key).post key ev := by
  rw [account, List.foldl_append]
  rfl

/-- An event that neither opens the account of a key nor charges it leaves it. -/
theorem account_snoc_of_ne {default : S} {events : List (Event K S G)} {ev : Event K S G} {key : K}
    (hopen : ∀ balance, ev ≠ .opened key balance) (hgrant : ∀ g, ev ≠ .granted key g) :
    account default (events ++ [ev]) key = account default events key := by
  rw [account_snoc]
  cases ev with
  | opened k balance => exact if_neg (by rintro rfl; exact hopen balance rfl)
  | granted k g => exact if_neg (by rintro rfl; exact hgrant g rfl)
  | idle => rfl

/-- What an event does to the balances: it moves the one of its key. -/
inductive Posts (charge : S → G → S → Prop) (b : K → S) : Event K S G → (K → S) → Prop
  | opened (k : K) (balance : S) : Posts charge b (.opened k balance) (Function.update b k balance)
  | granted {k : K} {g : G} {s : S} (h : charge (b k) g s) :
      Posts charge b (.granted k g) (Function.update b k s)
  | idle : Posts charge b .idle b

variable {charge : S → G → S → Prop} {b b' : K → S} {ev : Event K S G} {key : K}

/-- One event keeps the accounts. -/
theorem Posts.charges (h : Posts charge b ev b') {acc : Account S G}
    (hacc : Run charge acc.opening acc.granted (b key)) :
    Run charge (acc.post key ev).opening (acc.post key ev).granted (b' key) := by
  cases h with
  | opened k balance =>
    rw [Account.post]
    split
    case isTrue hk =>
      rw [← hk, Function.update_self]
      exact .nil
    case isFalse hk => rwa [Function.update_of_ne (Ne.symm hk)]
  | @granted k g s hs =>
    rw [Account.post]
    split
    case isTrue hk =>
      subst hk
      rw [Function.update_self]
      exact hacc.snoc hs
    case isFalse hk => rwa [Function.update_of_ne (Ne.symm hk)]
  | idle => exact hacc

/-- An event that neither opens the account of a key nor charges it leaves its balance. -/
theorem Posts.frame (h : Posts charge b ev b') (hopen : ∀ balance, ev ≠ .opened key balance)
    (hgrant : ∀ g, ev ≠ .granted key g) : b' key = b key := by
  cases h with
  | opened k balance =>
    exact Function.update_of_ne (by rintro rfl; exact hopen balance rfl) ..
  | @granted k g s hs => exact Function.update_of_ne (by rintro rfl; exact hgrant g rfl) ..
  | idle => rfl

/-- **The ledger rule.** When every step posts its event, the balance of a key is reached from the
opening one by the charges since then. -/
theorem charges_of_run {step : σ → Event K S G → σ → Prop} {balance : σ → K → S} {default : S}
    {s t : σ} {events : List (Event K S G)} (h : Run step s events t)
    (hinit : ∀ k, balance s k = default)
    (hstep : ∀ s ev t, step s ev t → Posts charge (balance s) ev (balance t)) (key : K) :
    Run charge (account default events key).opening (account default events key).granted
      (balance t key) := by
  induction h with
  | nil =>
    rw [account_nil, hinit]
    exact .nil
  | snoc _ hs ih =>
    rw [account_snoc]
    exact (hstep _ _ _ hs).charges ih

end Ledger
