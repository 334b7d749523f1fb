import AutoInstrumentation.IntegrationRegistry
import Mathlib.Data.List.Nodup
import Mathlib.Tactic.IntervalCases

/-!
# AutoInstrumentation.IntegrationRegistrySound

Whatever the order of callbacks and calls, the definitions enqueued for a tracked
module since it was loaded are exactly the stored ones (`Tracked`, unconditionally).

That the definitions of an id are stored once rests on the ids in `definitions_ids`.
`InitializeTraceMethods` looks its id up there but, unlike the other two entry points,
never enters it, so that a second call with the same id goes through. The results are
about the runs in which no id that such a call was given comes back (`Fresh`).
-/

namespace AutoInstrumentation.IntegrationRegistry

open Lib Lib.System Integration

/-! ### What one call brings -/

theorem receive_id {call : Call} {ids : List WString} {p : Pending}
    (h : receive call ids = some p) :
    p.call = call ∧ call.id = some p.definitionsId ∧ p.definitionsId ∉ ids := by
  cases call with
  | internalAddInstrumentation id items size isDerived isInterface =>
      simp only [receive, Option.bind_eq_bind, Option.bind_eq_some_iff, Option.guard_eq_some'] at h
      obtain ⟨-, hid, items, -, hp⟩ := h
      obtain rfl := Option.some.inj hp
      exact ⟨rfl, rfl, hid⟩
  | registerCallTargetDefinitions id items size enabledCategories =>
      simp only [receive, Option.bind_eq_bind, Option.bind_eq_some_iff, Option.guard_eq_some'] at h
      obtain ⟨id, rfl, -, -, -, hid, hp⟩ := h
      obtain rfl := Option.some.inj hp
      exact ⟨rfl, rfl, hid⟩
  | initializeTraceMethods id assembly type configuration =>
      simp only [receive, Option.bind_eq_bind, Option.bind_eq_some_iff, Option.guard_eq_some'] at h
      obtain ⟨-, hid, hp⟩ := h
      obtain rfl := Option.some.inj hp
      exact ⟨rfl, rfl, hid⟩

/-- A call whose payload is rejected is rejected whatever ids are known. -/
theorem receive_rejected {call : Call} {ids : List WString} (h : receive call [] = none) :
    receive call ids = none := by
  rw [Option.eq_none_iff_forall_ne_some] at h ⊢
  intro p hp
  cases call with
  | internalAddInstrumentation id items size isDerived isInterface =>
      simp only [receive, Option.bind_eq_bind, Option.bind_eq_some_iff, Option.guard_eq_some'] at hp
      obtain ⟨-, -, items, rfl, -⟩ := hp
      exact h _ rfl
  | registerCallTargetDefinitions id items size enabledCategories =>
      simp only [receive, Option.bind_eq_bind, Option.bind_eq_some_iff, Option.guard_eq_some'] at hp
      obtain ⟨id, rfl, -, hvalid, -⟩ := hp
      exact h _ (by simp only [receive, hvalid]; rfl)
  | initializeTraceMethods id assembly type configuration => exact h _ rfl

/-! ### Modules and definitions -/

/-- Every tracked module is loaded, is listed once, and has had exactly the stored
definitions enqueued. -/
structure Tracked (s : State) : Prop where
  nodup : s.moduleIds.Nodup
  loaded : ∀ m ∈ s.moduleIds, m ∈ s.loaded
  enqueued : ∀ m ∈ s.moduleIds, s.enqueued m = s.integrationDefinitions

/-- What the second section of a call does to modules and definitions: the new
definitions are appended to those stored and to those enqueued for a tracked module. -/
structure Commits (p : Pending) (s t : State) : Prop where
  loaded : t.loaded = s.loaded
  moduleIds : t.moduleIds = s.moduleIds
  definitionsIds : t.definitionsIds = match p.call with
    | .initializeTraceMethods .. => s.definitionsIds
    | _ => p.definitionsId :: s.definitionsIds
  integrationDefinitions :
    t.integrationDefinitions = s.integrationDefinitions ++ p.integrationDefinitions
  stored : t.stored = if p.integrationDefinitions.isEmpty then s.stored
    else s.stored ++ [(p.definitionsId, p.integrationDefinitions)]
  processed : t.processed = s.processed
  enqueued : ∀ m, t.enqueued m = s.enqueued m
    ++ (List.replicate (s.moduleIds.count m) p.integrationDefinitions).flatten

/-- The early return for an empty list makes no difference to what is enqueued. -/
theorem enqueue_eq (modules : List ModuleId) (definitions : List IntegrationDefinition)
    (s : State) :
    enqueueRequestRejitForLoadedModules modules definitions s
      = { s with enqueued := fun m =>
          s.enqueued m ++ (List.replicate (modules.count m) definitions).flatten } := by
  rw [enqueueRequestRejitForLoadedModules]
  split_ifs with hempty
  · rcases Bool.or_eq_true _ _ ▸ hempty with h | h
    · simp [List.isEmpty_iff.mp h]
    · simp [List.isEmpty_iff.mp h]
  · rfl

theorem commits_commit (p : Pending) (s : State) : Commits p s (commit p s) := by
  obtain ⟨call, id, definitions⟩ := p
  cases call with
  | internalAddInstrumentation =>
      cases definitions with
      | nil => exact ⟨rfl, rfl, rfl, by simp [commit, emplace], rfl, rfl, by simp [commit, emplace]⟩
      | cons d ds =>
          simp only [commit, emplace, enqueue_eq]
          exact ⟨rfl, rfl, rfl, rfl, rfl, rfl, fun m => rfl⟩
  | registerCallTargetDefinitions =>
      cases definitions with
      | nil =>
          exact ⟨rfl, rfl, rfl, rfl, rfl, rfl, by simp [commit, emplace, store]⟩
      | cons d ds =>
          simp only [commit, emplace, enqueue_eq]
          exact ⟨rfl, rfl, rfl, rfl, rfl, rfl, fun m => rfl⟩
  | initializeTraceMethods =>
      simp only [commit, enqueue_eq]
      exact ⟨rfl, rfl, rfl, rfl, rfl, rfl, fun m => rfl⟩

theorem Tracked.commit {s : State} (h : Tracked s) (p : Pending) : Tracked (commit p s) := by
  have hc := commits_commit p s
  refine ⟨by rw [hc.moduleIds]; exact h.nodup, ?_, ?_⟩
  · rw [hc.moduleIds, hc.loaded]
    exact h.loaded
  · rw [hc.moduleIds]
    intro m hm
    rw [hc.enqueued, hc.integrationDefinitions, h.enqueued m hm,
      List.count_eq_one_of_mem h.nodup hm, List.replicate_one, List.flatten_singleton]

/-- A module that has just been loaded gets the definitions stored so far. -/
theorem tryRejitModule_eq (moduleId : ModuleId) (s : State) :
    tryRejitModule moduleId s
      = { s with
          moduleIds := s.moduleIds ++ [moduleId]
          enqueued := fun m => s.enqueued m
            ++ (List.replicate ([moduleId].count m) s.integrationDefinitions).flatten } := by
  rw [tryRejitModule]
  split_ifs with hempty
  · have hnil : s.integrationDefinitions = [] := List.isEmpty_iff.mp hempty
    simp [hnil]
  · rw [enqueue_eq]

theorem Tracked.load {s : State} (h : Tracked s) {moduleId : ModuleId}
    (hnew : moduleId ∉ s.loaded) (tracked : Bool) :
    Tracked (
      let s := { s with
        loaded := moduleId :: s.loaded
        enqueued := Function.update s.enqueued moduleId [] }
      if tracked then tryRejitModule moduleId s else s) := by
  have hother : ∀ m ∈ s.moduleIds, m ≠ moduleId := by
    rintro m hm rfl
    exact hnew (h.loaded m hm)
  cases tracked with
  | false =>
      refine ⟨h.nodup, fun m hm => List.mem_cons_of_mem _ (h.loaded m hm), fun m hm => ?_⟩
      simp only [Bool.false_eq_true, if_false, Function.update_of_ne (hother m hm)]
      exact h.enqueued m hm
  | true =>
      simp only [if_true, tryRejitModule_eq]
      refine ⟨?_, fun m hm => ?_, fun m hm => ?_⟩
      · exact List.nodup_append.mpr ⟨h.nodup, List.nodup_singleton _, fun m hm n hn => by
          rw [List.mem_singleton.mp hn]
          exact hother m hm⟩
      · rcases List.mem_append.mp hm with hm | hm
        · exact List.mem_cons_of_mem _ (h.loaded m hm)
        · rw [List.mem_singleton.mp hm]
          exact List.mem_cons_self
      · rcases List.mem_append.mp hm with hm | hm
        · have hne := hother m hm
          simp only [Function.update_of_ne hne, List.count_singleton, beq_iff_eq, hne.symm,
            if_false, List.replicate_zero, List.flatten_nil, List.append_nil]
          exact h.enqueued m hm
        · rw [List.mem_singleton.mp hm]
          simp

theorem Tracked.unload {s : State} (h : Tracked s) (moduleId : ModuleId) :
    Tracked { moduleUnloadStarted moduleId s with
      loaded := s.loaded.filter (· ≠ moduleId) } := by
  refine ⟨h.nodup.filter _, fun m hm => ?_, fun m hm => ?_⟩
  · obtain ⟨hmem, hne⟩ := List.mem_filter.mp hm
    exact List.mem_filter.mpr ⟨h.loaded m hmem, hne⟩
  · exact h.enqueued m (List.mem_filter.mp hm).1

/-! ### Ids -/

/-- The call went through `InitializeTraceMethods`. -/
def Call.isTrace : Call → Bool
  | initializeTraceMethods .. => true
  | _ => false

/-- A call that is accepted does not bring an id that `InitializeTraceMethods` was given
before. -/
def Fresh (s : State) : Act → Prop
  | .call call => ∀ p, receive call s.definitionsIds = some p →
      ∀ c ∈ s.processed, c.isTrace = true → c.id ≠ call.id
  | _ => True

/-- An id is stored once, by a call that went through, and the ids of such calls are
known unless they came through `InitializeTraceMethods`. -/
structure StoredOnce (s : State) : Prop where
  definitions : s.integrationDefinitions = s.stored.flatMap Prod.snd
  nodup : (s.stored.map Prod.fst).Nodup
  processed : ∀ id ∈ s.stored.map Prod.fst, ∃ c ∈ s.processed, c.id = some id
  known : ∀ c ∈ s.processed, c.isTrace = false → ∀ id, c.id = some id → id ∈ s.definitionsIds
  pending : ∀ p ∈ s.pending, p.call.id = some p.definitionsId ∧
    ∀ c ∈ s.processed, c.id ≠ some p.definitionsId

/-- The id of an accepted call is new. -/
theorem StoredOnce.call {s : State} (h : StoredOnce s) {call : Call} (hf : Fresh s (.call call)) :
    StoredOnce { s with pending := receive call s.definitionsIds } where
  definitions := h.definitions
  nodup := h.nodup
  processed := h.processed
  known := h.known
  pending p hp := by
    obtain ⟨rfl, hid, hnew⟩ := receive_id hp
    refine ⟨hid, fun c hc hcid => ?_⟩
    cases htrace : c.isTrace with
    | true => exact hf p hp c hc htrace (hcid.trans hid.symm)
    | false => exact hnew (h.known c hc htrace _ hcid)

theorem StoredOnce.commit {s : State} (h : StoredOnce s) {p : Pending} (hp : s.pending = some p) :
    StoredOnce { commit p s with pending := none, processed := s.processed ++ [p.call] } := by
  have hc := commits_commit p s
  obtain ⟨hid, hnew⟩ := h.pending p hp
  have hids : ∀ id ∈ s.definitionsIds, id ∈ (IntegrationRegistry.commit p s).definitionsIds := by
    rw [hc.definitionsIds]
    intro id hmem
    cases p.call with
    | initializeTraceMethods => exact hmem
    | _ => exact List.mem_cons_of_mem _ hmem
  have hstored : (IntegrationRegistry.commit p s).stored = s.stored
      ∧ p.integrationDefinitions = [] ∨
      (IntegrationRegistry.commit p s).stored
        = s.stored ++ [(p.definitionsId, p.integrationDefinitions)] := by
    rw [hc.stored]
    split_ifs with hempty
    · exact .inl ⟨rfl, List.isEmpty_iff.mp hempty⟩
    · exact .inr rfl
  refine ⟨?_, ?_, ?_, ?_, nofun⟩
  · rw [hc.integrationDefinitions, h.definitions]
    rcases hstored with ⟨hsame, hempty⟩ | hmore
    · simp only [hsame, hempty, List.append_nil]
    · simp [hmore]
  · rcases hstored with ⟨hsame, -⟩ | hmore
    · rw [hsame]
      exact h.nodup
    · rw [hmore, List.map_append]
      refine List.nodup_append.mpr ⟨h.nodup, List.nodup_singleton _, fun id hmem id' hmem' => ?_⟩
      rw [List.mem_singleton.mp hmem']
      rintro rfl
      obtain ⟨c, hcmem, hcid⟩ := h.processed _ hmem
      exact hnew c hcmem hcid
  · intro id hmem
    have hmem' : id ∈ s.stored.map Prod.fst ∨ id = p.definitionsId := by
      rcases hstored with ⟨hsame, -⟩ | hmore
      · rw [hsame] at hmem
        exact .inl hmem
      · simpa [hmore] using hmem
    rcases hmem' with hold | rfl
    · obtain ⟨c, hcmem, hcid⟩ := h.processed id hold
      exact ⟨c, List.mem_append_left _ hcmem, hcid⟩
    · exact ⟨p.call, by simp, hid⟩
  · intro c hcmem htrace id hcid
    rcases List.mem_append.mp hcmem with hold | hlast
    · exact hids id (h.known c hold htrace id hcid)
    · obtain rfl := List.mem_singleton.mp hlast
      obtain rfl := Option.some.inj (hcid.symm.trans hid)
      show p.definitionsId ∈ (IntegrationRegistry.commit p s).definitionsIds
      rw [hc.definitionsIds]
      cases hcall : p.call with
      | initializeTraceMethods => simp [hcall, Call.isTrace] at htrace
      | _ => exact List.mem_cons_self

/-- Modules coming and going concern none of this. -/
theorem StoredOnce.congr {s t : State} (h : StoredOnce s)
    (hdefinitions : t.integrationDefinitions = s.integrationDefinitions)
    (hstored : t.stored = s.stored) (hprocessed : t.processed = s.processed)
    (hids : t.definitionsIds = s.definitionsIds) (hpending : t.pending = s.pending) :
    StoredOnce t where
  definitions := by rw [hdefinitions, hstored, h.definitions]
  nodup := by rw [hstored]; exact h.nodup
  processed := by rw [hstored, hprocessed]; exact h.processed
  known := by rw [hprocessed, hids]; exact h.known
  pending := by rw [hpending, hprocessed]; exact h.pending

/-! ### Runs -/

theorem inductive_tracked : Inductive profiler Tracked where
  init := by
    rintro s rfl
    exact ⟨List.nodup_nil, nofun, nofun⟩
  step := by
    intro s a t h hstep
    cases a with
    | call call =>
        simp only [profiler, ofStep, step] at hstep
        split at hstep
        · cases hstep
        · obtain rfl := Option.some.inj hstep
          exact ⟨h.nodup, h.loaded, h.enqueued⟩
    | commit =>
        simp only [profiler, ofStep, step] at hstep
        split at hstep
        · cases hstep
        · rename_i p _
          obtain rfl := Option.some.inj hstep
          obtain ⟨hnodup, hloaded, henqueued⟩ := h.commit p
          exact ⟨hnodup, hloaded, henqueued⟩
    | moduleLoadFinished moduleId tracked =>
        simp only [profiler, ofStep, step] at hstep
        split at hstep
        · cases hstep
        · rename_i hnew
          obtain rfl := Option.some.inj hstep
          exact h.load hnew tracked
    | moduleUnloadStarted moduleId =>
        simp only [profiler, ofStep, step] at hstep
        split at hstep
        · obtain rfl := Option.some.inj hstep
          exact h.unload moduleId
        · cases hstep

theorem inductive_storedOnce : Inductive (profiler.restrict Fresh) StoredOnce where
  init := by
    rintro s rfl
    exact ⟨rfl, List.nodup_nil, nofun, nofun, nofun⟩
  step := by
    rintro s a t h ⟨hstep, hfresh⟩
    cases a with
    | call call =>
        simp only [profiler, ofStep, step] at hstep
        split at hstep
        · cases hstep
        · obtain rfl := Option.some.inj hstep
          exact h.call hfresh
    | commit =>
        simp only [profiler, ofStep, step] at hstep
        split at hstep
        · cases hstep
        · rename_i p hp
          obtain rfl := Option.some.inj hstep
          exact h.commit hp
    | moduleLoadFinished moduleId tracked =>
        simp only [profiler, ofStep, step] at hstep
        split at hstep
        · cases hstep
        · obtain rfl := Option.some.inj hstep
          cases tracked with
          | false => exact h.congr rfl rfl rfl rfl rfl
          | true =>
              simp only [if_true, tryRejitModule_eq]
              exact h.congr rfl rfl rfl rfl rfl
    | moduleUnloadStarted moduleId =>
        simp only [profiler, ofStep, step] at hstep
        split at hstep
        · obtain rfl := Option.some.inj hstep
          exact h.congr rfl rfl rfl rfl rfl
        · cases hstep

/-- What the registry is for, in the state `s` of a run of `M`: every tracked module is
still loaded and has had each stored definition enqueued exactly once; the definitions
of an id are stored at most once; and a call that is rejected, or whose id has gone
through before, changes nothing. -/
def Sound (M : System State Act) (s : State) : Prop :=
  (∀ m ∈ s.moduleIds, m ∈ s.loaded ∧ s.enqueued m = s.integrationDefinitions) ∧
  s.integrationDefinitions = s.stored.flatMap Prod.snd ∧ (s.stored.map Prod.fst).Nodup ∧
  ∀ call t, M.step s (.call call) t →
    (receive call [] = none ∨ ∃ c ∈ s.processed, c.id = call.id) → t = s

/-- **The registry.** In every state of every run in which no id comes back that
`InitializeTraceMethods` was given before, modules and definitions have met exactly
once, and calls that must not count do not. -/
theorem integrationRegistry_sound {s : State} (h : (profiler.restrict Fresh).Reachable s) :
    Sound (profiler.restrict Fresh) s := by
  have htracked := inductive_tracked.reachable h.of_restrict
  have honce := inductive_storedOnce.reachable h
  refine ⟨fun m hm => ⟨htracked.loaded m hm, htracked.enqueued m hm⟩, honce.definitions,
    honce.nodup, ?_⟩
  rintro call t ⟨hstep, hfresh⟩ hcall
  simp only [profiler, ofStep, step] at hstep
  split at hstep
  · cases hstep
  · rename_i hidle
    obtain rfl := Option.some.inj hstep
    have hrejected : receive call s.definitionsIds = none := by
      rcases hcall with hpayload | ⟨c, hc, hid⟩
      · exact receive_rejected hpayload
      · rw [Option.eq_none_iff_forall_ne_some]
        intro p hp
        obtain ⟨-, -, hnew⟩ := receive_id hp
        obtain ⟨hid', hnew'⟩ := (honce.call hfresh).pending p hp
        obtain ⟨rfl, -, -⟩ := receive_id hp
        exact hnew' c hc (hid.trans hid')
    rw [hrejected, ← hidle]

/-! ### One id, given twice -/

/-- `T[m]` under the id `X`. -/
def traceOneMethod : Call :=
  .initializeTraceMethods ['X'] ['A'] ['I'] ['T', '[', 'm', ']']

/-- A module is loaded and the trace methods are initialized. -/
theorem integrationRegistry_sound_one_module :
    ∃ s : State, s.moduleIds = [1] ∧ s.stored.length = 1 ∧
      ∀ m ∈ s.moduleIds, m ∈ s.loaded ∧ s.enqueued m = s.integrationDefinitions := by
  let s₁ : State := (step .initial (.moduleLoadFinished 1 true)).get (by decide)
  let s₂ : State := (step s₁ (.call traceOneMethod)).get (by decide)
  let s₃ : State := (step s₂ .commit).get (by decide)
  have hrun : (profiler.restrict Fresh).Reachable s₃ :=
    ⟨_, [.moduleLoadFinished 1 true, .call traceOneMethod, .commit], rfl,
      .cons (t := s₁) ⟨rfl, trivial⟩ (.cons (t := s₂) ⟨rfl, nofun⟩
        (.cons (t := s₃) ⟨rfl, trivial⟩ (.nil _)))⟩
  obtain ⟨htracked, -⟩ := integrationRegistry_sound hrun
  exact ⟨s₃, by decide, by decide, htracked⟩

/-- The same call of `InitializeTraceMethods` twice stores its definitions twice. -/
theorem integrationRegistry_repeated_id :
    ¬ ∀ s, profiler.Reachable s → Sound profiler s := by
  intro h
  let acts : List Act :=
    [.moduleLoadFinished 1 true, .call traceOneMethod, .commit, .call traceOneMethod, .commit]
  let s : State := (exec step .initial acts).get (by decide)
  have hs : profiler.Reachable s := reachable_of_exec (l := acts) rfl (by simp [s])
  obtain ⟨-, -, hnodup, -⟩ := h s hs
  exact absurd hnodup (by decide)

end AutoInstrumentation.IntegrationRegistry
