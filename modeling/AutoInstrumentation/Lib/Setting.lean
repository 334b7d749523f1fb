import Mathlib.Algebra.Ring.Nat
import Mathlib.Data.List.Basic

/-!
# AutoInstrumentation.Lib.Setting

A setting of a database session that is part of its transactions.

An assignment inside a transaction is undone when the transaction is rolled back, or when
it is rolled back to a savepoint that is older. A transaction in which a statement failed
only takes the commands that undo it.
-/

namespace AutoInstrumentation.Lib

/-- A transaction that was begun: whether a statement failed in it, the value of the setting
at its beginning, and the values at its savepoints, the newest first. -/
structure Transaction (ν V : Type) where
  failed : Bool
  atBegin : V
  savepoints : List (ν × V)

/-- The value of the setting and the transaction that is open. -/
structure Setting (ν V : Type) where
  value : V
  transaction : Option (Transaction ν V)

/-- The commands of a session. -/
inductive Command (ν V : Type)
  | begin | commit | rollback
  | savepoint (name : ν) | release (name : ν) | rollbackTo (name : ν)
  | assign (value : V)
  | other

variable {ν V : Type} [DecidableEq ν]

namespace Transaction

/-- The savepoints from the newest one of that name on. -/
def upTo (t : Transaction ν V) (name : ν) : List (ν × V) :=
  t.savepoints.dropWhile (·.1 ≠ name)

theorem mem_of_mem_upTo {t : Transaction ν V} {name : ν} {p : ν × V} (h : p ∈ t.upTo name) :
    p ∈ t.savepoints :=
  (List.dropWhile_sublist _).mem h

/-- The values that a transaction can bring back satisfy `P`. -/
structure Keeps (P : V → Prop) (t : Transaction ν V) : Prop where
  atBegin : P t.atBegin
  savepoints : ∀ p ∈ t.savepoints, P p.2

end Transaction

namespace Setting

/-- A statement failed in the transaction that is open. -/
def failed (s : Setting ν V) : Bool := s.transaction.any (·.failed)

/-- The value that a command brings back. `refused` says that the server rejects it. -/
def restored (s : Setting ν V) (command : Command ν V) (refused : Bool) : Option V :=
  match s.transaction with
  | none => none
  | some t =>
      match command with
      | .rollback => some t.atBegin
      -- a transaction that cannot be committed is rolled back
      | .commit => if t.failed || refused then some t.atBegin else none
      | .rollbackTo name =>
          if refused && !t.failed then none else (t.upTo name).head?.map (·.2)
      | _ => none

/-- The transaction behind a command. -/
def transactionAfter (s : Setting ν V) (command : Command ν V) (refused : Bool) :
    Option (Transaction ν V) :=
  match s.transaction with
  | none =>
      match command with
      | .begin => if refused then none else some ⟨false, s.value, []⟩
      | _ => none
  | some t =>
      match command with
      | .rollback | .commit => none
      | .rollbackTo name =>
          if refused && !t.failed then some { t with failed := true }
          else
            match t.upTo name with
            | [] => some { t with failed := true }
            | savepoints => some { t with failed := false, savepoints := savepoints }
      | command =>
          if t.failed || refused then some { t with failed := true }
          else
            match command with
            | .savepoint name => some { t with savepoints := (name, s.value) :: t.savepoints }
            | .release name =>
                match t.upTo name with
                | [] => some { t with failed := true }
                | _ :: savepoints => some { t with savepoints := savepoints }
            | _ => some t

/-- The value that a command assigns. -/
def assigned (s : Setting ν V) (command : Command ν V) (refused : Bool) : Option V :=
  match command with
  | .assign value => if refused || s.failed then none else some value
  | _ => none

/-- A command of the session. -/
def execute (s : Setting ν V) (command : Command ν V) (refused : Bool) : Setting ν V where
  value := (s.restored command refused).getD ((s.assigned command refused).getD s.value)
  transaction := s.transactionAfter command refused

/-! ### What a transaction keeps -/

/-- The values that a command can bring back satisfy `P`. -/
def Keeps (P : V → Prop) (s : Setting ν V) : Prop := ∀ t, s.transaction = some t → t.Keeps P

/-- The command notes the value of the setting, to bring it back later. -/
def Notes : Command ν V → Prop
  | .begin | .savepoint _ => True
  | _ => False

/-- What is brought back is one of the values that were kept. -/
theorem Keeps.restored {P : V → Prop} {s : Setting ν V} (h : s.Keeps P) {command : Command ν V}
    {refused : Bool} {v : V} (hv : s.restored command refused = some v) : P v := by
  unfold Setting.restored at hv
  split at hv
  · cases hv
  · next t ht =>
      have hkeeps := h t ht
      split at hv
      · obtain rfl := Option.some.inj hv
        exact hkeeps.atBegin
      · split at hv
        · obtain rfl := Option.some.inj hv
          exact hkeeps.atBegin
        · cases hv
      · split at hv
        · cases hv
        · obtain ⟨p, hp, rfl⟩ := Option.map_eq_some_iff.mp hv
          exact hkeeps.savepoints p (Transaction.mem_of_mem_upTo (List.mem_of_head? hp))
      · cases hv

/-- **What a transaction keeps** stays as it is, and a value that is noted comes on top. -/
theorem Keeps.execute {P : V → Prop} {s : Setting ν V} (h : s.Keeps P) (command : Command ν V)
    (refused : Bool) (hnotes : Notes command → P s.value) :
    (s.execute command refused).Keeps P := by
  intro t' ht'
  change s.transactionAfter command refused = some t' at ht'
  unfold transactionAfter at ht'
  split at ht'
  · -- only `BEGIN` opens a transaction
    split at ht'
    · split at ht'
      · cases ht'
      · obtain rfl := Option.some.inj ht'
        exact ⟨hnotes trivial, fun p hp => nomatch hp⟩
    · cases ht'
  · next t ht =>
      have hkeeps := h t ht
      have failed : Transaction.Keeps P { t with failed := true } :=
        ⟨hkeeps.atBegin, hkeeps.savepoints⟩
      have sub {f : Bool} {savepoints : List (ν × V)} (hsub : savepoints ⊆ t.savepoints) :
          Transaction.Keeps P { t with failed := f, savepoints := savepoints } :=
        ⟨hkeeps.atBegin, fun p hp => hkeeps.savepoints p (hsub hp)⟩
      have upTo_subset {name : ν} : t.upTo name ⊆ t.savepoints :=
        fun p hp => Transaction.mem_of_mem_upTo hp
      split at ht'
      · cases ht'
      · cases ht'
      · split at ht'
        · exact Option.some.inj ht' ▸ failed
        · split at ht'
          · exact Option.some.inj ht' ▸ failed
          · exact Option.some.inj ht' ▸ sub upTo_subset
      · split at ht'
        · exact Option.some.inj ht' ▸ failed
        · split at ht'
          · obtain rfl := Option.some.inj ht'
            exact ⟨hkeeps.atBegin, List.forall_mem_cons.mpr ⟨hnotes trivial, hkeeps.savepoints⟩⟩
          · split at ht'
            · exact Option.some.inj ht' ▸ failed
            · next newest older heq =>
                refine Option.some.inj ht' ▸ sub fun p hp => ?_
                have hp : p ∈ newest :: older := List.mem_cons_of_mem newest hp
                rw [← heq] at hp
                exact Transaction.mem_of_mem_upTo hp
          · exact Option.some.inj ht' ▸ hkeeps

/-- A command that assigns nothing leaves the value, unless it brings one back. -/
theorem execute_value {s : Setting ν V} {command : Command ν V} {refused : Bool}
    (h : ∀ v, command ≠ .assign v) :
    (s.execute command refused).value = (s.restored command refused).getD s.value := by
  have hassigned : s.assigned command refused = none := by
    unfold assigned
    split
    · next v => exact absurd rfl (h v)
    · rfl
  rw [execute, hassigned, Option.getD_none]

theorem restored_assign (s : Setting ν V) (v : V) (refused : Bool) :
    s.restored (.assign v) refused = none := by
  unfold restored
  split
  · rfl
  · rfl

theorem execute_assign_refused (s : Setting ν V) (v : V) :
    (s.execute (.assign v) true).value = s.value := by
  rw [execute, restored_assign]
  rfl

theorem execute_assign {s : Setting ν V} (h : s.failed = false) (v : V) :
    (s.execute (.assign v) false).value = v := by
  rw [execute, restored_assign, assigned, h]
  rfl

/-- A transaction in which a statement failed goes on only by bringing a value back. -/
theorem restored_of_recovered {s : Setting ν V} {command : Command ν V} {refused : Bool}
    (h : s.failed = true) (hafter : (s.execute command refused).failed = false) :
    ∃ v, s.restored command refused = some v := by
  obtain ⟨t, ht, hfailed⟩ : ∃ t, s.transaction = some t ∧ t.failed = true := by
    simpa [failed, Option.any_eq_true] using h
  have hafter : (s.transactionAfter command refused).any (·.failed) = false := hafter
  unfold transactionAfter at hafter
  unfold restored
  rw [ht] at hafter ⊢
  cases command with
  | rollback => exact ⟨_, rfl⟩
  | commit => exact ⟨t.atBegin, if_pos (by rw [hfailed, Bool.true_or])⟩
  | rollbackTo name =>
      simp only [hfailed, Bool.not_true, Bool.and_false, Bool.false_eq_true, if_false] at hafter ⊢
      split at hafter
      · cases hafter
      · next hne =>
          obtain ⟨p, rest, hrest⟩ := List.exists_cons_of_ne_nil hne
          exact ⟨p.2, by rw [hrest]; rfl⟩
  | begin | savepoint name | release name | assign value | other =>
      simp [hfailed] at hafter

end Setting

end AutoInstrumentation.Lib
