import AutoInstrumentation.NpgsqlTraceContext

/-!
# AutoInstrumentation.NpgsqlTraceContextSound

When the flag of a connector mirrors the name that its session holds.

A value that a rollback brings back was noted while the session held the default. What was
noted while it held a trace parent comes back behind the propagator's back, with the flag
already cleared.
-/

namespace AutoInstrumentation.NpgsqlTraceContext

open AutoInstrumentation.Lib
open AutoInstrumentation.Cel (WChar WString code)

variable {connector : Connector}

/-- The state of a connector between two calls. -/
def Settled (connector : Connector) (c : Connection) : Prop :=
  ∀ state, c.state = some state → state.isExecutingInternalCommand = false
    ∧ connector.isEnabled = true ∧ connector.isConnector = true

/-- The state that the propagator relies on. -/
structure Inv (connector : Connector) (c : Connection) : Prop where
  mirrors : MirrorsAccepted c
  /-- What a rollback brings back is the default. -/
  keeps : c.applicationName.Keeps (· = none)
  settled : Settled connector c

/-! ### The propagator -/

/-- What a call of the propagator does to the name and the flag, with the command that it
sent, if any. An accepted command leaves `value`. -/
inductive Sends (c : Connection) (value : Option WString) : Option Bool → Connection → Prop
  | nothing {c'} : c'.applicationName = c.applicationName →
      c'.hasPropagatedContext = c.hasPropagatedContext → Sends c value none c'
  | refused {c' v} :
      c'.applicationName = c.applicationName.execute (.assign v) true →
      c'.hasPropagatedContext = c.hasPropagatedContext → Sends c value (some false) c'
  | accepted {c'} : c.applicationName.failed = false →
      c'.applicationName = c.applicationName.execute (.assign value) false →
      c'.hasPropagatedContext = value.isSome → Sends c value (some true) c'

theorem settled_of_some {state : ConnectorContextState} {c : Connection}
    (hstate : c.state = some state) (hexec : state.isExecutingInternalCommand = false)
    (henabled : connector.isEnabled = true) (hconnector : connector.isConnector = true) :
    Settled connector c := by
  intro state' h
  rw [hstate] at h
  obtain rfl := Option.some.inj h
  exact ⟨hexec, henabled, hconnector⟩

/-- `SET` or `RESET`, outside a failed transaction. -/
theorem execute_sends {state : ConnectorContextState} {c c' : Connection} {value : Option WString}
    {refused accepted : Bool}
    (h : executeApplicationNameCommand state c value refused = (c', accepted))
    (hhas : c.hasPropagatedContext = state.hasPropagatedContext)
    (hfailed : c.applicationName.failed = false) :
    accepted = !refused ∧ c'.applicationName = c.applicationName.execute (.assign value) refused
      ∧ c'.hasPropagatedContext = c.hasPropagatedContext
      ∧ c'.state = some { state with isExecutingInternalCommand := false } := by
  unfold executeApplicationNameCommand at h
  obtain ⟨rfl, rfl⟩ := Prod.mk.inj h
  refine ⟨?_, rfl, hhas.symm, rfl⟩
  rw [hfailed, Bool.or_false]

theorem resetApplicationName_sends {state : ConnectorContextState} {c c' : Connection}
    {refused : Bool} {sent : Option Bool}
    (h : resetApplicationName state c refused = (c', sent))
    (hhas : c.hasPropagatedContext = state.hasPropagatedContext)
    (hexec : state.isExecutingInternalCommand = false) :
    Sends c none sent c'
      ∧ (sent = none → c.hasPropagatedContext = false ∨ c.applicationName.failed = true)
      ∧ ∃ state', c'.state = some state' ∧ state'.isExecutingInternalCommand = false := by
  unfold resetApplicationName at h
  split at h
  · next hskip =>
      obtain ⟨rfl, rfl⟩ := Prod.mk.inj h
      refine ⟨.nothing rfl hhas.symm, fun _ => ?_, state, rfl, hexec⟩
      rw [hhas]
      simpa using hskip
  · next hsend =>
      simp only [Bool.or_eq_true, Bool.not_eq_true', not_or, Bool.not_eq_false,
        Bool.not_eq_true] at hsend
      split at h
      · next c₁ hexecute =>
          obtain ⟨haccepted, hname, -, -⟩ := execute_sends hexecute hhas hsend.2
          obtain rfl : refused = false := by simpa using haccepted.symm
          obtain ⟨rfl, rfl⟩ := Prod.mk.inj h
          exact ⟨.accepted hsend.2 hname rfl, (nomatch ·), _, rfl, rfl⟩
      · next c₁ hexecute =>
          obtain ⟨haccepted, hname, hflag, hstate⟩ := execute_sends hexecute hhas hsend.2
          obtain rfl : refused = true := by simpa using haccepted.symm
          obtain ⟨rfl, rfl⟩ := Prod.mk.inj h
          exact ⟨.refused hname hflag, (nomatch ·), _, hstate, rfl⟩

/-- A call with an activity sends nothing, or it sends the name of the activity. -/
theorem propagateActivityCore_sends {activity : Activity} {c c' : Connection} {refused : Bool}
    {sent : Option Bool} (hsettled : Settled connector c) (henabled : connector.isEnabled = true)
    (h : propagateActivityCore connector activity c refused = (c', sent)) :
    Sends c (traceParentOf activity) sent c' ∧ Settled connector c' := by
  unfold propagateActivityCore at h
  split at h
  · obtain ⟨rfl, rfl⟩ := Prod.mk.inj h
    exact ⟨.nothing rfl rfl, hsettled⟩
  · next hconnector =>
      simp only [Bool.or_eq_true, Bool.not_eq_true', not_or, Bool.not_eq_false] at hconnector
      split at h
      · obtain ⟨rfl, rfl⟩ := Prod.mk.inj h
        exact ⟨.nothing rfl rfl, hsettled⟩
      · next traceParent =>
          -- the state of the connector is its entry or a new one
          have hhas : c.hasPropagatedContext = (c.state.getD ⟨false, false⟩).hasPropagatedContext := by
            unfold Connection.hasPropagatedContext
            cases c.state <;> rfl
          have hexec : (c.state.getD ⟨false, false⟩).isExecutingInternalCommand = false := by
            cases hstate : c.state with
            | none => rfl
            | some state => exact (hsettled state hstate).1
          dsimp only at h
          generalize c.state.getD ⟨false, false⟩ = state at h hhas hexec
          have settled {c'' : Connection} {state' : ConnectorContextState}
              (hstate : c''.state = some state')
              (hexec : state'.isExecutingInternalCommand = false) : Settled connector c'' :=
            settled_of_some hstate hexec henabled hconnector.1
          split at h
          · obtain ⟨rfl, rfl⟩ := Prod.mk.inj h
            exact ⟨.nothing rfl hhas.symm, settled rfl hexec⟩
          · next hfailed =>
              rw [Bool.not_eq_true] at hfailed
              split at h
              · next parent hparent =>
                  have hparent : traceParentOf (.ok traceParent) = some parent := hparent
                  rw [hparent]
                  split at h
                  · next c₁ hexecute =>
                      obtain ⟨haccepted, hname, -, -⟩ := execute_sends hexecute hhas hfailed
                      obtain rfl : refused = false := by simpa using haccepted.symm
                      obtain ⟨rfl, rfl⟩ := Prod.mk.inj h
                      exact ⟨.accepted hfailed hname rfl, settled rfl rfl⟩
                  · next c₁ hexecute =>
                      obtain ⟨haccepted, hname, hflag, hstate⟩ :=
                        execute_sends hexecute hhas hfailed
                      obtain rfl : refused = true := by simpa using haccepted.symm
                      obtain ⟨rfl, rfl⟩ := Prod.mk.inj h
                      exact ⟨.refused hname hflag, settled hstate rfl⟩
              · next hnone =>
                  have hnone : traceParentOf (.ok traceParent) = none := hnone
                  rw [hnone]
                  obtain ⟨hsends, -, state', hstate, hexec⟩ :=
                    resetApplicationName_sends h hhas hexec
                  exact ⟨hsends, settled hstate hexec⟩

theorem propagate_sends {command : Option (Except Unit Activity)} {c c' : Connection}
    {refused : Bool} {sent : Option Bool} (hsettled : Settled connector c)
    (h : propagate connector command c refused = (c', sent)) :
    Sends c ((command.bind Except.toOption).bind traceParentOf) sent c'
      ∧ Settled connector c' := by
  unfold propagate at h
  split at h
  · obtain ⟨rfl, rfl⟩ := Prod.mk.inj h
    exact ⟨.nothing rfl rfl, hsettled⟩
  · next henabled =>
      rw [Bool.not_eq_true', Bool.not_eq_false] at henabled
      split at h
      · exact propagateActivityCore_sends hsettled henabled h
      · obtain ⟨rfl, rfl⟩ := Prod.mk.inj h
        exact ⟨.nothing rfl rfl, hsettled⟩

theorem propagateCopyActivity_sends {activity : Activity} {c c' : Connection} {refused : Bool}
    {sent : Option Bool} (hsettled : Settled connector c)
    (h : propagateCopyActivity connector activity c refused = (c', sent)) :
    Sends c (traceParentOf activity) sent c' ∧ Settled connector c' := by
  unfold propagateCopyActivity at h
  split at h
  · obtain ⟨rfl, rfl⟩ := Prod.mk.inj h
    exact ⟨.nothing rfl rfl, hsettled⟩
  · next henabled =>
      rw [Bool.not_eq_true', Bool.not_eq_false] at henabled
      exact propagateActivityCore_sends hsettled henabled h

/-- The end of an action sends `RESET`, unless there is nothing to reset. -/
theorem clearOnUserActionEnd_sends {c c' : Connection} {refused : Bool} {sent : Option Bool}
    (hsettled : Settled connector c)
    (h : clearOnUserActionEnd connector c refused = (c', sent)) :
    Sends c none sent c' ∧ Settled connector c'
      ∧ (sent = none → c.hasPropagatedContext = false ∨ c.applicationName.failed = true) := by
  unfold clearOnUserActionEnd at h
  cases hstate : c.state with
  | none =>
      have hnone : c' = c ∧ sent = none := by
        rw [hstate] at h
        split at h
        · exact ⟨(Prod.mk.inj h).1.symm, (Prod.mk.inj h).2.symm⟩
        · exact ⟨(Prod.mk.inj h).1.symm, (Prod.mk.inj h).2.symm⟩
      obtain ⟨rfl, rfl⟩ := hnone
      refine ⟨.nothing rfl rfl, hsettled, fun _ => .inl ?_⟩
      rw [Connection.hasPropagatedContext, hstate]
      rfl
  | some state =>
      obtain ⟨hexec, henabled, hconnector⟩ := hsettled state hstate
      have hhas : c.hasPropagatedContext = state.hasPropagatedContext := by
        rw [Connection.hasPropagatedContext, hstate]
        rfl
      simp only [hstate, hexec, henabled, hconnector, Bool.not_true, Bool.false_eq_true,
        if_false] at h
      obtain ⟨hsends, hnothing, state', hstate', hexec'⟩ := resetApplicationName_sends h hhas hexec
      exact ⟨hsends, settled_of_some hstate' hexec' henabled hconnector, hnothing⟩

/-! ### The invariant -/

theorem opened_inv (connector : Connector) : Inv connector opened where
  mirrors := ⟨fun _ _ => rfl, fun _ h => (nomatch h), fun _ => rfl⟩
  keeps := fun _ h => nomatch h
  settled := fun _ h => nomatch h

/-- What a call of the propagator keeps, whatever it sends. -/
theorem Sends.keeps {c c' : Connection} {value : Option WString} {sent : Option Bool}
    (h : Sends c value sent c') (hkeeps : c.applicationName.Keeps (· = none)) :
    c'.applicationName.Keeps (· = none) := by
  cases h with
  | nothing hname =>
      rw [hname]
      exact hkeeps
  | refused hname =>
      rw [hname]
      exact hkeeps.execute _ _ False.elim
  | accepted _ hname =>
      rw [hname]
      exact hkeeps.execute _ _ False.elim

theorem Sends.known {c c' : Connection} {value : Option WString} {sent : Option Bool}
    (h : Sends c value sent c')
    (hknown : c.hasPropagatedContext = false → c.applicationName.value = none) :
    c'.hasPropagatedContext = false → c'.applicationName.value = none := by
  intro hflag'
  cases h with
  | nothing hname hflag =>
      rw [hname]
      exact hknown (hflag ▸ hflag')
  | refused hname hflag =>
      rw [hname, Setting.execute_assign_refused]
      exact hknown (hflag ▸ hflag')
  | accepted hfailed hname hflag =>
      rw [hname, Setting.execute_assign hfailed]
      exact Option.isSome_eq_false_iff.mp (hflag ▸ hflag') |> Option.isNone_iff_eq_none.mp

/-- An accepted command leaves its value. -/
theorem Sends.value {c c' : Connection} {value : Option WString}
    (h : Sends c value (some true) c') : c'.applicationName.value = value := by
  cases h with
  | accepted hfailed hname =>
      rw [hname, Setting.execute_assign hfailed]

/-- A call that propagates an activity. -/
theorem Inv.propagates {c c' : Connection} {traceParent : Option WString} {sent : Option Bool}
    (h : Inv connector c) (hsends : Sends c traceParent sent c')
    (hsettled : Settled connector c') :
    Inv connector { c' with action := .running traceParent (sent == some true) } where
  mirrors := by
    refine ⟨fun h => (nomatch h), ?_, hsends.known h.mirrors.known⟩
    intro parent haction _
    obtain ⟨rfl, hsent⟩ := UserAction.running.inj haction
    rw [beq_iff_eq] at hsent
    subst hsent
    exact hsends.value
  keeps := hsends.keeps h.keeps
  settled := hsettled

theorem Inv.clears {c c' : Connection} {sent : Option Bool} (h : Inv connector c)
    (hsends : Sends c none sent c') (hsettled : Settled connector c')
    (hnothing : sent = none → c.hasPropagatedContext = false ∨ c.applicationName.failed = true) :
    Inv connector { c' with action := .ended (sent == some false) } where
  mirrors := by
    refine ⟨?_, fun _ h => (nomatch h), hsends.known h.mirrors.known⟩
    intro haction hfailed
    have hsent := UserAction.ended.inj haction
    cases hsends with
    | nothing hname hflag =>
        rcases hnothing rfl with hhas | hfailed'
        · change c'.applicationName.value = none
          rw [hname]
          exact h.mirrors.known hhas
        · rw [← hname] at hfailed'
          rw [hfailed'] at hfailed
          cases hfailed
    | refused => cases hsent
    | accepted hfailed' hname =>
        change c'.applicationName.value = none
        rw [hname, Setting.execute_assign hfailed']
  keeps := hsends.keeps h.keeps
  settled := hsettled

/-- A command of the application. -/
theorem Inv.command {c : Connection} {command : SessionCommand} {refused : Bool}
    (h : Inv connector c) (hregular : Regular c (.command command refused)) :
    Inv connector (step connector c (.command command refused)) := by
  have hassign : ∀ v, command ≠ .assign v := by
    rintro v rfl
    exact hregular
  have hnotes : Setting.Notes command → c.applicationName.value = none := by
    intro hnotes
    refine h.mirrors.known ?_
    cases command with
    | assign v => exact absurd rfl (hassign v)
    | _ => exact hregular hnotes
  have hvalue : (c.applicationName.execute command refused).value
      = (c.applicationName.restored command refused).getD c.applicationName.value :=
    Setting.execute_value hassign
  refine ⟨?_, h.keeps.execute command refused hnotes, h.settled⟩
  -- a value that is brought back is the default
  cases hrestored : c.applicationName.restored command refused with
  | some v =>
      obtain rfl : v = none := h.keeps.restored hrestored
      rw [hrestored, Option.getD_some] at hvalue
      refine ⟨fun _ _ => hvalue, ?_, fun _ => hvalue⟩
      intro traceParent haction
      simp only [step, hrestored] at haction
      split at haction
      · simp at haction
      · cases haction
  | none =>
      rw [hrestored, Option.getD_none] at hvalue
      -- a failed transaction does not recover without bringing a value back
      have hfailed : (c.applicationName.execute command refused).failed = false →
          c.applicationName.failed = false := by
        intro hafter
        by_contra hbefore
        rw [Bool.not_eq_false] at hbefore
        obtain ⟨v, hv⟩ := Setting.restored_of_recovered hbefore hafter
        rw [hrestored] at hv
        cases hv
      have haction : (step connector c (.command command refused)).action = c.action := by
        simp only [step, hrestored]
        split
        · next heq => rw [heq]; simp
        · next heq => rw [heq]
      refine ⟨fun hended hafter => ?_, fun traceParent hrunning hafter => ?_, fun hflag => ?_⟩
      · rw [haction] at hended
        exact hvalue.trans (h.mirrors.ended hended (hfailed hafter))
      · rw [haction] at hrunning
        exact hvalue.trans (h.mirrors.running traceParent hrunning (hfailed hafter))
      · exact hvalue.trans (h.mirrors.known hflag)

/-- **What one step keeps**, as long as the application leaves the name alone. -/
theorem Inv.step {c : Connection} {a : Step} (h : Inv connector c) (hregular : Regular c a) :
    Inv connector (step connector c a) := by
  cases a with
  | propagate command refused =>
      cases hcall : propagate connector command c refused with
      | mk c' sent =>
          obtain ⟨hsends, hsettled⟩ := propagate_sends h.settled hcall
          simp only [NpgsqlTraceContext.step, hcall]
          exact h.propagates hsends hsettled
  | propagateCopyActivity activity refused =>
      cases hcall : propagateCopyActivity connector activity c refused with
      | mk c' sent =>
          obtain ⟨hsends, hsettled⟩ := propagateCopyActivity_sends h.settled hcall
          simp only [NpgsqlTraceContext.step, hcall]
          exact h.propagates hsends hsettled
  | clearOnUserActionEnd refused =>
      cases hcall : clearOnUserActionEnd connector c refused with
      | mk c' sent =>
          obtain ⟨hsends, hsettled, hnothing⟩ := clearOnUserActionEnd_sends h.settled hcall
          simp only [NpgsqlTraceContext.step, hcall]
          exact h.clears hsends hsettled hnothing
  | command command refused => exact h.command hregular

theorem inductive_inv (connector : Connector) :
    System.Inductive ((system connector).restrict Regular) (Inv connector) where
  init := by
    rintro c rfl
    exact opened_inv connector
  step := by
    rintro c a c' hc ⟨rfl, hregular⟩
    exact hc.step hregular

/-- **The flag mirrors the session** in every run in which the application does not assign
the name, and begins transactions and savepoints only while no context is propagated. -/
theorem mirrorsAccepted_of_reachable {connector : Connector} {c : Connection}
    (h : ((system connector).restrict Regular).Reachable c) : MirrorsAccepted c :=
  ((inductive_inv connector).reachable h).mirrors

/-! ### Runs -/

/-- A connector that is instrumented. -/
def instrumented : Connector := ⟨true, true, false⟩

/-- `00-0…0-0…0-00`. -/
def zeroParent : WString :=
  [code '0', code '0', code '-'] ++ List.replicate 32 (code '0') ++ [code '-']
    ++ List.replicate 16 (code '0') ++ [code '-', code '0', code '0']

/-- A transaction that was begun under a trace parent brings it back when it is rolled back,
after the flag was cleared. -/
example :
    let c := step instrumented (step instrumented (step instrumented (step instrumented opened
      (.propagate (some (.ok (.ok (some zeroParent)))) false)) (.command .begin false))
      (.clearOnUserActionEnd false)) (.command .rollback false)
    c.hasPropagatedContext = false ∧ c.applicationName.value = some zeroParent := by decide

/-- An action with an activity begins, a query of it runs, and it ends. -/
theorem mirrorsAccepted_of_reachable_query :
    MirrorsAccepted (step instrumented (step instrumented (step instrumented opened
      (.propagate (some (.ok (.ok (some zeroParent)))) false)) (.command .other false))
      (.clearOnUserActionEnd false)) := by
  suffices h : ((system instrumented).restrict Regular).Reachable _ from
    mirrorsAccepted_of_reachable h
  refine ⟨opened, _, rfl, .cons ⟨rfl, ?_⟩ (.cons ⟨rfl, ?_⟩ (.cons ⟨rfl, ?_⟩ (.nil _)))⟩
  · exact trivial
  · exact False.elim
  · exact trivial

/-- A `RESET` that the server refuses leaves the trace parent behind. -/
theorem not_mirrors_of_refused :
    ¬∀ c, (system instrumented).Reachable c → Mirrors c := by
  intro h
  have hmirrors := h (step instrumented (step instrumented opened
      (.propagate (some (.ok (.ok (some zeroParent)))) false)) (.clearOnUserActionEnd true))
    ⟨opened, _, rfl, .cons rfl (.cons rfl (.nil _))⟩
  exact absurd (hmirrors.ended true (by decide) (by decide)) (by decide)

end AutoInstrumentation.NpgsqlTraceContext
