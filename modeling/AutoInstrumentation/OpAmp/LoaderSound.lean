import AutoInstrumentation.OpAmp.Loader
import AutoInstrumentation.OpAmp.ManagerSound

/-!
# AutoInstrumentation.OpAmp.LoaderSound

The lifecycle of every manager in every interleaving of the loader with the tasks of its
managers.
-/

namespace AutoInstrumentation.OpAmp

open Lib

namespace Loader

variable {s s' t : Loader} {i : ℕ} {c c' : Candidate} {f : Manager → Manager}

/-! ### What the loader knows of a manager -/

/-- What holds of a manager, and more if it can be reached through the loader. -/
structure Settled (current : Prop) (c : Candidate) : Prop where
  orderly : Orderly c.manager
  fresh : c.preparation ≠ .registered → c.preparation ≠ .dropped →
    c.manager.tasks = [] ∧ c.manager.shutdownStarted = false
  unregistered : c.preparation ≠ .registered → c.manager.startupTask = false
  dropped : c.preparation = .dropped →
    .stopClient ∈ c.manager.tasks ∨ c.manager.shutdownStarted = true
  registered : current → c.preparation = .registered
  running : current → c.manager.shutdownStarted = false
  startupOnly : current → ∀ p ∈ c.manager.tasks, p.ofStartup = true ∨ p = .done

/-- The invariant of the loader. -/
structure Inv (s : Loader) : Prop where
  stopped : s.stopped = true → s.opAmpManager = none
  lt : ∀ i, s.opAmpManager = some i → i < s.managers.length
  settled : ∀ i c, s.managers[i]? = some c → Settled (s.opAmpManager = some i) c

theorem Settled.of_not_current {current current' : Prop} (h : Settled current c)
    (hcurrent : ¬current') : Settled current' c where
  orderly := h.orderly
  fresh := h.fresh
  unregistered := h.unregistered
  dropped := h.dropped
  registered hc := absurd hc hcurrent
  running hc := absurd hc hcurrent
  startupOnly hc := absurd hc hcurrent

/-- One manager is replaced, and what `_opAmpManager` names is kept. -/
theorem Inv.set (hs : Inv s) (hold : s.managers[i]? = some c)
    (hnew : Settled (s.opAmpManager = some i) c') :
    Inv { s with managers := s.managers.set i c' } where
  stopped := hs.stopped
  lt := by
    intro k hk
    simpa using hs.lt k hk
  settled := by
    intro k ck hk
    obtain ⟨hi, -⟩ := List.getElem?_eq_some_iff.1 hold
    rw [List.getElem?_set] at hk
    split at hk
    case isTrue heq =>
      subst heq
      obtain rfl : c' = ck := by simpa [hi] using hk
      exact hnew
    case isFalse => exact hs.settled k ck hk

theorem getElem?_update {k : ℕ} {ck : Candidate}
    (h : (s.update i f).managers[k]? = some ck) :
    ∃ c, s.managers[k]? = some c
      ∧ ck = if k = i then { c with manager := f c.manager } else c := by
  rw [update, List.getElem?_modify] at h
  obtain ⟨c, hc, rfl⟩ := Option.map_eq_some_iff.1 h
  refine ⟨c, hc, ?_⟩
  by_cases hki : k = i
  · simp [hki]
  · simp [hki, Ne.symm hki]

/-! ### The steps -/

theorem Settled.of_task {current : Prop} {j : ℕ} {ok : Bool} {m : Manager} (h : Settled current c)
    (hstep : c.manager.step c.plugin j ok = some m) : Settled current { c with manager := m } := by
  have horderly := h.orderly.of_step hstep
  obtain ⟨p, m₁, p', spawned, hp, heffect, rfl⟩ := exists_of_step hstep
  have hmem : p ∈ c.manager.tasks := List.mem_of_getElem? hp
  constructor
  case orderly => exact horderly
  case fresh =>
    intro hregistered hdropped
    rw [(h.fresh hregistered hdropped).1] at hmem
    cases hmem
  case unregistered => exact fun hc => heffect.startupTask.trans (h.unregistered hc)
  case dropped =>
    intro hdropped
    rcases h.dropped hdropped with hstop | hstarted
    · rcases mem_set_append_of_mem hp hstop with hstop | hstop
      · exact .inl hstop
      · exact .inr (heffect.stopClient hstop.symm)
    · exact .inr (heffect.shutdownStarted hstarted)
  case registered => exact h.registered
  case running =>
    intro hc
    exact (heffect.startupTaskOnly (h.startupOnly hc p hmem)).1.trans (h.running hc)
  case startupOnly =>
    intro hc q hq
    obtain ⟨-, hp', hspawned⟩ := heffect.startupTaskOnly (h.startupOnly hc p hmem)
    rcases mem_of_mem_set_append hq with hq | rfl | hq
    · exact h.startupOnly hc q hq
    · exact hp'
    · rw [hspawned] at hq
      cases hq

theorem Settled.spawn_stopClient {current current' : Prop} (h : Settled current c)
    {preparation : Preparation} (hpreparation : preparation = .registered ∨ preparation = .dropped)
    (hstartup : preparation ≠ .registered → c.manager.startupTask = false)
    (hcurrent : ¬current') :
    Settled current' ⟨preparation, c.plugin, c.manager.spawn .stopClient⟩ where
  orderly := h.orderly.spawn_stopClient
  fresh hregistered hdropped := absurd hpreparation (not_or.2 ⟨hregistered, hdropped⟩)
  unregistered := hstartup
  dropped _ := .inl (List.mem_append_right _ (List.mem_singleton.2 rfl))
  registered hc := absurd hc hcurrent
  running hc := absurd hc hcurrent
  startupOnly hc := absurd hc hcurrent

theorem Settled.startClient {current : Prop} (h : Settled current c) (hcurrent : current) :
    Settled current { c with manager := c.manager.startClient } where
  orderly := h.orderly.startClient (h.running hcurrent)
  fresh hc := absurd (h.registered hcurrent) hc
  unregistered hc := absurd (h.registered hcurrent) hc
  dropped hc := absurd (hc.symm.trans (h.registered hcurrent)) (by decide)
  registered := h.registered
  running := by
    intro hc
    have hrunning := h.running hc
    unfold Manager.startClient
    split <;> exact hrunning
  startupOnly := by
    intro hc q hq
    unfold Manager.startClient at hq
    split at hq
    · exact h.startupOnly hc q hq
    · rcases List.mem_append.1 hq with hq | hq
      · exact h.startupOnly hc q hq
      · obtain rfl := List.mem_singleton.1 hq
        exact .inl rfl

theorem Inv.startClient (hs : Inv s) : Inv s.startClient := by
  unfold Loader.startClient
  split
  · exact hs
  case h_2 i hi =>
    refine ⟨hs.stopped, fun k hk => ?_, fun k ck hk => ?_⟩
    · simpa [update] using hs.lt k hk
    · obtain ⟨c, hc, rfl⟩ := getElem?_update hk
      have hsettled := hs.settled k c hc
      split
      case isTrue heq =>
        subst heq
        exact hsettled.startClient hi
      case isFalse => exact hsettled

theorem Inv.stopIfRunning (hs : Inv s) : Inv s.stopIfRunning := by
  unfold Loader.stopIfRunning
  split
  · refine ⟨fun _ => rfl, nofun, fun k c hk => ?_⟩
    exact (hs.settled k c hk).of_not_current nofun
  · refine ⟨fun _ => rfl, nofun, fun k ck hk => ?_⟩
    obtain ⟨c, hc, rfl⟩ := getElem?_update hk
    have hsettled := hs.settled k c hc
    split
    case isTrue heq =>
      subst heq
      have hregistered : c.preparation = .registered := hsettled.registered ‹_›
      exact hsettled.spawn_stopClient (.inl hregistered) (absurd hregistered) nofun
    case isFalse => exact hsettled.of_not_current nofun

theorem Inv.register {configured : Bool} (hs : Inv s) (hc : s.managers[i]? = some c)
    (hprepared : c.preparation = .prepared configured) : Inv (s.register i c configured) := by
  have hsettled := hs.settled i c hc
  have hneither : c.preparation ≠ .registered ∧ c.preparation ≠ .dropped := by
    rw [hprepared]
    exact ⟨nofun, nofun⟩
  obtain ⟨htasks, hrunning⟩ := hsettled.fresh hneither.1 hneither.2
  obtain ⟨hi, -⟩ := List.getElem?_eq_some_iff.1 hc
  unfold Loader.register
  split
  case isTrue hregister =>
    have hstopped : s.stopped = false := by simp_all
    refine ⟨fun h => ?_, fun k hk => ?_, fun k ck hk => ?_⟩
    · rw [hstopped] at h
      cases h
    · obtain rfl : i = k := Option.some.inj hk
      simpa using hi
    · rw [List.getElem?_set] at hk
      split at hk
      case isTrue heq =>
        subst heq
        obtain rfl := by simpa [hi] using hk
        exact ⟨hsettled.orderly, absurd rfl, absurd rfl, nofun, fun _ => rfl, fun _ => hrunning,
          fun _ p hp => absurd (htasks ▸ hp) List.not_mem_nil⟩
      case isFalse hne =>
        exact (hs.settled k ck hk).of_not_current fun h => hne (Option.some.inj h)
  case isFalse =>
    refine hs.set hc (hsettled.spawn_stopClient (.inr rfl) ?_ ?_)
    · exact fun _ => hsettled.unregistered hneither.1
    · exact fun h => hneither.1 (hsettled.registered h)

theorem Inv.initial : Inv initial where
  stopped h := by cases h
  lt i h := by cases h
  settled i c h := by cases h

theorem Inv.create (hs : Inv s) (plugin : Bool) :
    Inv { s with
      preparing := s.preparing - 1
      managers := s.managers ++ [⟨.configuring, plugin, .initial⟩] } := by
  refine ⟨hs.stopped, fun k hk => ?_, fun k c hk => ?_⟩
  · have := hs.lt k hk
    simp only [List.length_append]
    omega
  · rcases Nat.lt_or_ge k s.managers.length with hlt | hge
    · rw [List.getElem?_append_left hlt] at hk
      exact hs.settled k c hk
    · rw [List.getElem?_append_right hge] at hk
      obtain rfl := List.mem_singleton.1 (List.mem_of_getElem? hk)
      have hcurrent : s.opAmpManager ≠ some k := fun h => absurd (hs.lt k h) (by omega)
      exact ⟨.initial, fun _ _ => ⟨rfl, rfl⟩, fun _ => rfl, nofun, fun h => absurd h hcurrent,
        fun _ => rfl, fun _ _ hp => absurd hp List.not_mem_nil⟩

theorem Inv.configure {ok : Bool} (hs : Inv s) (hc : s.managers[i]? = some c)
    (hconfiguring : c.preparation = .configuring) :
    Inv { s with managers := s.managers.set i { c with preparation := .prepared ok } } := by
  have hsettled := hs.settled i c hc
  have hneither : c.preparation ≠ .registered ∧ c.preparation ≠ .dropped := by
    rw [hconfiguring]
    exact ⟨nofun, nofun⟩
  refine hs.set hc ⟨hsettled.orderly, fun _ _ => hsettled.fresh hneither.1 hneither.2,
    fun _ => hsettled.unregistered hneither.1, nofun, fun h => ?_, hsettled.running,
    hsettled.startupOnly⟩
  exact absurd (hsettled.registered h) hneither.1

theorem Inv.of_step {a : Act} (hs : Inv s) (h : step s a = some s') : Inv s' := by
  cases a with
  | prepare =>
      obtain rfl := Option.some.inj h
      split
      · exact hs
      · exact ⟨hs.stopped, hs.lt, hs.settled⟩
  | create plugin =>
      simp only [step] at h
      split at h
      · cases h
      · obtain rfl := Option.some.inj h
        exact hs.create plugin
  | createFailed =>
      simp only [step] at h
      split at h
      · cases h
      · obtain rfl := Option.some.inj h
        exact ⟨hs.stopped, hs.lt, hs.settled⟩
  | configure i ok =>
      obtain ⟨c, hc, h⟩ := Option.bind_eq_some_iff.1 h
      split at h
      case h_1 hconfiguring =>
        obtain rfl := Option.some.inj h
        exact hs.configure hc hconfiguring
      case h_2 => cases h
  | register i =>
      obtain ⟨c, hc, h⟩ := Option.bind_eq_some_iff.1 h
      split at h
      case h_1 hprepared =>
        obtain rfl := Option.some.inj h
        exact hs.register hc hprepared
      case h_2 => cases h
  | startClient =>
      obtain rfl := Option.some.inj h
      exact hs.startClient
  | stopIfRunning =>
      obtain rfl := Option.some.inj h
      exact hs.stopIfRunning
  | task i j ok =>
      obtain ⟨c, hc, h⟩ := Option.bind_eq_some_iff.1 h
      obtain ⟨m, hm, h⟩ := Option.bind_eq_some_iff.1 h
      obtain rfl := Option.some.inj h
      exact hs.set hc ((hs.settled i c hc).of_task hm)

theorem inductive_inv : System.Inductive system Inv where
  init s h := by
    obtain rfl : s = Loader.initial := h
    exact .initial
  step s a s' hs h := hs.of_step h

/-! ### What lasts -/

/-- What is not taken back: the loader stays stopped, and a manager that was not registered
never is. -/
structure Lasting (s t : Loader) : Prop where
  stopped : s.stopped = true → t.stopped = true
  dropped : ∀ (i : ℕ) (c : Candidate), s.managers[i]? = some c → c.preparation = .dropped →
    ∃ c' : Candidate, t.managers[i]? = some c' ∧ c'.preparation = .dropped

theorem Lasting.refl (s : Loader) : Lasting s s :=
  ⟨id, fun _ c hc hdropped => ⟨c, hc, hdropped⟩⟩

theorem Lasting.trans {u : Loader} (h₁ : Lasting s t) (h₂ : Lasting t u) : Lasting s u where
  stopped h := h₂.stopped (h₁.stopped h)
  dropped i c hc hdropped := by
    obtain ⟨c', hc', hdropped'⟩ := h₁.dropped i c hc hdropped
    exact h₂.dropped i c' hc' hdropped'

theorem Lasting.set (hstopped : t.stopped = s.stopped) (hc : s.managers[i]? = some c)
    (hmanagers : t.managers = s.managers.set i c')
    (hkept : c.preparation = .dropped → c'.preparation = .dropped) : Lasting s t where
  stopped := (hstopped ▸ ·)
  dropped k ck hck hdropped := by
    by_cases hki : i = k
    · subst hki
      obtain rfl : c = ck := Option.some.inj (hc.symm.trans hck)
      obtain ⟨hi, -⟩ := List.getElem?_eq_some_iff.1 hc
      exact ⟨c', by rw [hmanagers, List.getElem?_set_self hi], hkept hdropped⟩
    · exact ⟨ck, by rw [hmanagers, List.getElem?_set_ne hki, hck], hdropped⟩

theorem Lasting.update (hstopped : s.stopped = true → t.stopped = true)
    (hmanagers : t.managers = (s.update i f).managers) : Lasting s t where
  stopped := hstopped
  dropped k ck hck hdropped := by
    rw [hmanagers, Loader.update, List.getElem?_modify, hck]
    refine ⟨_, rfl, ?_⟩
    split <;> exact hdropped

theorem Lasting.of_step {a : Act} (h : step s a = some s') : Lasting s s' := by
  cases a with
  | prepare =>
      obtain rfl := Option.some.inj h
      split
      · exact .refl s
      · exact ⟨id, (Lasting.refl s).dropped⟩
  | create plugin =>
      simp only [step] at h
      split at h
      · cases h
      · obtain rfl := Option.some.inj h
        refine ⟨id, fun k ck hck hdropped => ⟨ck, ?_, hdropped⟩⟩
        obtain ⟨hk, -⟩ := List.getElem?_eq_some_iff.1 hck
        rw [List.getElem?_append_left hk, hck]
  | createFailed =>
      simp only [step] at h
      split at h
      · cases h
      · obtain rfl := Option.some.inj h
        exact ⟨id, (Lasting.refl s).dropped⟩
  | configure i ok =>
      obtain ⟨c, hc, h⟩ := Option.bind_eq_some_iff.1 h
      split at h
      case h_1 hconfiguring =>
        obtain rfl := Option.some.inj h
        exact .set rfl hc rfl (by rw [hconfiguring]; nofun)
      case h_2 => cases h
  | register i =>
      obtain ⟨c, hc, h⟩ := Option.bind_eq_some_iff.1 h
      split at h
      case h_1 hprepared =>
        obtain rfl := Option.some.inj h
        unfold Loader.register
        split <;> exact .set rfl hc rfl (by rw [hprepared]; nofun)
      case h_2 => cases h
  | startClient =>
      obtain rfl := Option.some.inj h
      unfold Loader.startClient
      split
      · exact .refl s
      · exact .update id rfl
  | stopIfRunning =>
      obtain rfl := Option.some.inj h
      unfold Loader.stopIfRunning
      split
      · exact ⟨fun _ => rfl, (Lasting.refl s).dropped⟩
      · exact .update (f := (·.spawn .stopClient)) (fun _ => rfl) rfl
  | task i j ok =>
      obtain ⟨c, hc, h⟩ := Option.bind_eq_some_iff.1 h
      obtain ⟨m, hm, h⟩ := Option.bind_eq_some_iff.1 h
      obtain rfl := Option.some.inj h
      exact .set rfl hc rfl id

theorem Lasting.of_run {l : List Act} (hs : Inv s) (h : System.Run system s l t) : Lasting s t :=
  h.rel_of_step inductive_inv Lasting.refl (fun _ _ _ => Lasting.trans)
    (fun _ _ _ _ hstep => .of_step hstep) hs

/-! ### Every interleaving -/

/-- The calls of one manager are in order. -/
structure CallsInOrder (log : List ManagerEvent) : Prop where
  before : log.count .before ≤ 1
  after : NeverAfter .after .before log
  disposed : log.count .disposed ≤ 1
  /-- Once the stop task has looked for a startup task, none is created. -/
  created : ∀ found, NeverAfter .created (.looked found) log
  /-- Once the stop task has found no startup task, the client is not started. -/
  startAsync : NeverAfter .startAsync (.looked false) log

/-- The lifecycle of the managers is kept. -/
structure LifecycleSound (s : Loader) : Prop where
  calls : ∀ c ∈ s.managers, CallsInOrder c.manager.log
  /-- A manager whose preparation finishes after the stop is never started, and it is
  stopped. -/
  late : s.stopped = true → ∀ i s', step s (.register i) = some s' →
    ∀ l t, System.Run system s' l t → ∃ c, t.managers[i]? = some c
      ∧ .created ∉ c.manager.log ∧ .startAsync ∉ c.manager.log
      ∧ (.stopClient ∈ c.manager.tasks ∨ c.manager.shutdownStarted = true)
  /-- Behind the stop no manager can be reached. -/
  unreachable : s.stopped = true → ∀ l t, System.Run system s l t → t.opAmpManager = none

theorem callsInOrder_of_orderly {m : Manager} (h : Orderly m) : CallsInOrder m.log where
  before := by
    have := h.before
    have := Bool.toNat_le m.beforeStopCallbackInvoked
    omega
  after := h.after_before
  disposed := by
    have := h.disposed
    have := Bool.toNat_le m.clientDisposed
    omega
  created := h.created_looked
  startAsync := h.startAsync_looked

theorem dropped_of_register (hstopped : s.stopped = true) (h : step s (.register i) = some s') :
    ∃ c, s'.managers[i]? = some c ∧ c.preparation = .dropped := by
  obtain ⟨c, hc, h⟩ := Option.bind_eq_some_iff.1 h
  obtain ⟨hi, -⟩ := List.getElem?_eq_some_iff.1 hc
  split at h
  case h_1 =>
    obtain rfl := Option.some.inj h
    rw [Loader.register, if_neg (by simp [hstopped])]
    exact ⟨_, List.getElem?_set_self hi, rfl⟩
  case h_2 => cases h

/-- **The lifecycle of every manager is sound** in every interleaving. -/
theorem lifecycleSound_of_reachable (h : system.Reachable s) : LifecycleSound s := by
  have hs := inductive_inv.reachable h
  constructor
  case calls =>
    intro c hc
    obtain ⟨i, hi⟩ := List.mem_iff_getElem?.1 hc
    exact callsInOrder_of_orderly (hs.settled i c hi).orderly
  case late =>
    intro hstopped i s' hregister l t hrun
    have hs' := hs.of_step hregister
    obtain ⟨c', hc', hdropped'⟩ := dropped_of_register hstopped hregister
    obtain ⟨c, hc, hdropped⟩ := (Lasting.of_run hs' hrun).dropped i c' hc' hdropped'
    have hsettled := (inductive_inv.run hrun hs').settled i c hc
    have hstartup : c.manager.startupTask = false :=
      hsettled.unregistered (by rw [hdropped]; nofun)
    have hnever : ∀ e ∈ c.manager.log, e.ofStartup = false := by
      intro e he
      cases hst : e.ofStartup with
      | false => rfl
      | true => rw [hsettled.orderly.startupLog e he hst] at hstartup; cases hstartup
    exact ⟨c, hc, fun h => Bool.noConfusion (hnever _ h), fun h => Bool.noConfusion (hnever _ h),
      hsettled.dropped hdropped⟩
  case unreachable =>
    intro hstopped l t hrun
    exact (inductive_inv.run hrun hs).stopped ((Lasting.of_run hs hrun).stopped hstopped)

/-- A manager that is prepared while the loader is stopped, and the stop of it. -/
theorem lifecycleSound_of_reachable_late : ∃ s, System.exec step initial
      [.prepare, .create true, .stopIfRunning, .configure 0 true, .register 0, .task 0 0 true]
        = some s ∧ LifecycleSound s :=
  ⟨_, rfl, lifecycleSound_of_reachable (System.reachable_of_exec rfl
    (l := [.prepare, .create true, .stopIfRunning, .configure 0 true, .register 0,
      .task 0 0 true]) rfl)⟩

/-- The startup task that the stop task finds may not have called the client yet. -/
theorem not_startAsync_of_found : ¬∀ s, system.Reachable s → ∀ c ∈ s.managers,
    ∀ found, NeverAfter .startAsync (.looked found) c.manager.log := by
  intro h
  have hreachable : system.Reachable _ := System.reachable_of_exec (s := initial)
    (l := [.prepare, .create true, .configure 0 true, .register 0, .startClient, .stopIfRunning,
      .task 0 1 true, .task 0 1 true, .task 0 2 true, .task 0 0 true]) rfl rfl
  exact h _ hreachable _ (List.mem_singleton.2 rfl) true [] _ rfl (List.mem_cons_self ..)

end Loader

end AutoInstrumentation.OpAmp
