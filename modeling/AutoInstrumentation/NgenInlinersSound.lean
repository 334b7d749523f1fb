import AutoInstrumentation.NgenInliners

/-!
# AutoInstrumentation.NgenInlinersSound

A handler module is done with an inliner module once all its methods have had their
inliners there enumerated. That this is so rests on two conditions (`Meets`): no method
is added to a handler module that is already done with some inliner module, and the CLR
refuses an enumeration only for incomplete data. `CreateMethodIfNotExists` does not look
at the inliner modules the handler is done with, and any other failure counts as done.

What a handler module is not done with is tried again in every later call, whatever the
conditions (`addNGenInlinerModule_tries`).
-/

namespace AutoInstrumentation.NgenInliners

open Lib Lib.System

/-- The enumeration is about the method `d` of the module `m` in the inliner module `i`. -/
def Enumeration.About (e : Enumeration) (m : ModuleId) (d : MethodDef) (i : ModuleId) : Prop :=
  e.moduleId = m ∧ e.methodDef = d ∧ e.inlinerModule = i

/-- The inliners were listed, and nothing is missing. -/
def Answer.complete (answer : Answer) : Bool := succeeded answer.hr && !answer.incompleteData

/-- One of the enumerations about the pair was complete. -/
def Enumerated (es : List Enumeration) (m : ModuleId) (d : MethodDef) (i : ModuleId) : Prop :=
  ∃ e ∈ es, e.About m d i ∧ e.answer.complete = true

theorem Enumerated.append_left {es : List Enumeration} {m : ModuleId} {d : MethodDef} {i : ModuleId}
    (h : Enumerated es m d i) (es' : List Enumeration) : Enumerated (es ++ es') m d i := by
  obtain ⟨e, he, hpair⟩ := h
  exact ⟨e, List.mem_append_left _ he, hpair⟩

theorem Enumerated.append_right {es : List Enumeration} {m : ModuleId} {d : MethodDef}
    {i : ModuleId} (h : Enumerated es m d i) (es' : List Enumeration) :
    Enumerated (es' ++ es) m d i := by
  obtain ⟨e, he, hpair⟩ := h
  exact ⟨e, List.mem_append_right _ he, hpair⟩

/-- Failures other than for incomplete data do not occur. -/
def Answer.Expected (answer : Answer) : Prop :=
  succeeded answer.hr = true ∨ answer.hr = corprofEDataIncomplete

theorem Answer.Expected.complete {answer : Answer} (h : answer.Expected)
    (hgo : answer.goesOn = true) : answer.complete = true := by
  rw [Answer.goesOn] at hgo
  rcases h with h | h
  · rw [Answer.complete, h]
    simpa [h] using hgo
  · -- incomplete data is the one failure that stops the loop
    have hfail : succeeded corprofEDataIncomplete = false := by decide
    have harg : corprofEDataIncomplete ≠ eInvalidArg := by decide
    simp [h, hfail, harg] at hgo

/-! ### One handler module and one inliner module -/

/-- The loop succeeds only when it has asked about every method. -/
theorem requestMethods_success {clr : Clr} {i m : ModuleId} {methods : List MethodDef}
    (h : (requestMethods clr i m methods).1 = true) :
    ∀ d ∈ methods, ⟨i, m, d, clr i m d⟩ ∈ (requestMethods clr i m methods).2 ∧
      (clr i m d).goesOn = true := by
  induction methods with
  | nil => nofun
  | cons d methods ih =>
      rw [requestMethods] at h ⊢
      split_ifs at h ⊢ with hgo
      intro d' hd'
      rcases List.mem_cons.mp hd' with rfl | hd'
      · exact ⟨List.mem_cons_self, hgo⟩
      · obtain ⟨hmem, hgo'⟩ := ih h d' hd'
        exact ⟨List.mem_cons_of_mem _ hmem, hgo'⟩

/-- When the loop does not succeed, some method has stopped it. -/
theorem requestMethods_failure {clr : Clr} {i m : ModuleId} {methods : List MethodDef}
    (h : (requestMethods clr i m methods).1 = false) :
    ∃ d ∈ methods, ⟨i, m, d, clr i m d⟩ ∈ (requestMethods clr i m methods).2 ∧
      (clr i m d).goesOn = false := by
  induction methods with
  | nil => cases h
  | cons d methods ih =>
      rw [requestMethods] at h ⊢
      split_ifs at h ⊢ with hgo
      · obtain ⟨d', hd', hmem, hstop⟩ := ih h
        exact ⟨d', List.mem_cons_of_mem _ hd', List.mem_cons_of_mem _ hmem, hstop⟩
      · exact ⟨d, List.mem_cons_self, List.mem_cons_self, Bool.eq_false_iff.mpr hgo⟩

/-- What a handler module does with an inliner module: nothing when it is done with it;
otherwise it asks about all methods and is done, or stops at one and is not. -/
inductive Requests (clr : Clr) (i : ModuleId) (h : RejitHandlerModule) :
    RejitHandlerModule × List Enumeration → Prop
  | skipped : i ∈ h.ngenProcessedInlinerModules → Requests clr i h (h, [])
  | done {es : List Enumeration} : i ∉ h.ngenProcessedInlinerModules →
      (∀ d ∈ h.methods, ⟨i, h.moduleId, d, clr i h.moduleId d⟩ ∈ es ∧
        (clr i h.moduleId d).goesOn = true) →
      Requests clr i h
        ({ h with ngenProcessedInlinerModules := i :: h.ngenProcessedInlinerModules }, es)
  | stopped {es : List Enumeration} : i ∉ h.ngenProcessedInlinerModules →
      (∃ d ∈ h.methods, ⟨i, h.moduleId, d, clr i h.moduleId d⟩ ∈ es ∧
        (clr i h.moduleId d).goesOn = false) →
      Requests clr i h (h, es)

theorem requests (clr : Clr) (i : ModuleId) (h : RejitHandlerModule) :
    Requests clr i h (h.requestRejitForInlinersInModule clr i) := by
  rw [RejitHandlerModule.requestRejitForInlinersInModule]
  by_cases hskip : i ∈ h.ngenProcessedInlinerModules
  · rw [if_pos hskip]
    exact .skipped hskip
  · rw [if_neg hskip]
    cases hresult : (requestMethods clr i h.moduleId h.methods).1 with
    | true =>
        simp only [hresult, if_true]
        exact .done hskip (requestMethods_success hresult)
    | false =>
        simp only [hresult, Bool.false_eq_true, if_false]
        exact .stopped hskip (requestMethods_failure hresult)

/-- A request changes nothing but the inliner modules the handler is done with. -/
theorem Requests.fields {clr : Clr} {i : ModuleId} {h : RejitHandlerModule}
    {r : RejitHandlerModule × List Enumeration} (hr : Requests clr i h r) :
    r.1.moduleId = h.moduleId ∧ r.1.methods = h.methods ∧
      ∀ j, j ∈ r.1.ngenProcessedInlinerModules → j = i ∨ j ∈ h.ngenProcessedInlinerModules := by
  cases hr with
  | skipped _ => exact ⟨rfl, rfl, fun j hj => .inr hj⟩
  | done _ _ => exact ⟨rfl, rfl, fun j hj => List.mem_cons.mp hj⟩
  | stopped _ _ => exact ⟨rfl, rfl, fun j hj => .inr hj⟩

/-! ### The tables -/

/-- A handler module is done only with known inliner modules, and all its methods have
been enumerated there. -/
def Done (s : State) : Prop :=
  ∀ h ∈ s.modules, ∀ i ∈ h.ngenProcessedInlinerModules,
    i ∈ s.ngenInlinersModules ∧ ∀ d ∈ h.methods, Enumerated s.enumerations h.moduleId d i

/-- The CLR's answers about the methods registered are as expected wherever a handler
module still asks. -/
def Expects (clr : Clr) (i : ModuleId) (s : State) : Prop :=
  ∀ h ∈ s.modules, i ∉ h.ngenProcessedInlinerModules →
    ∀ d ∈ h.methods, (clr i h.moduleId d).Expected

theorem mem_requestModules {clr : Clr} {i : ModuleId} {s : State} {h' : RejitHandlerModule}
    (h : h' ∈ (requestModules clr i s).modules) :
    ∃ h ∈ s.modules, ∃ es, Requests clr i h (h', es) ∧
      ∀ e ∈ es, e ∈ (requestModules clr i s).enumerations := by
  simp only [requestModules, List.map_map, List.mem_map, Function.comp_apply] at h
  obtain ⟨h, hmem, rfl⟩ := h
  refine ⟨h, hmem, _, requests clr i h, fun e he => ?_⟩
  refine List.mem_append_right _ (List.mem_flatMap.mpr ⟨_, ?_, he⟩)
  exact List.mem_map_of_mem hmem

theorem Done.requestModules {clr : Clr} {i : ModuleId} {s : State} (hs : Done s)
    (hi : i ∈ s.ngenInlinersModules) (hclr : Expects clr i s) : Done (requestModules clr i s) := by
  intro h' hh' j hj
  obtain ⟨h, hmem, es, hreq, hes⟩ := mem_requestModules hh'
  have hold : j ∈ h.ngenProcessedInlinerModules →
      j ∈ s.ngenInlinersModules ∧ ∀ d ∈ h.methods,
        Enumerated (NgenInliners.requestModules clr i s).enumerations h.moduleId d j :=
    fun hj => ⟨(hs h hmem j hj).1, fun d hd => ((hs h hmem j hj).2 d hd).append_left _⟩
  cases hreq with
  | skipped _ => exact hold hj
  | stopped _ _ => exact hold hj
  | done hnew hall =>
      rcases List.mem_cons.mp hj with rfl | hj
      · refine ⟨hi, fun d hd => ?_⟩
        obtain ⟨hasked, hgo⟩ := hall d hd
        exact ⟨_, hes _ hasked, ⟨rfl, rfl, rfl⟩, (hclr h hmem hnew d hd).complete hgo⟩
      · exact hold hj

theorem requestModules_ngenInlinersModules (clr : Clr) (i : ModuleId) (s : State) :
    (requestModules clr i s).ngenInlinersModules = s.ngenInlinersModules := rfl

/-- A handler module asks about fewer pairs as it goes on. -/
theorem Expects.requestModules {clr : Clr} {i j : ModuleId} {s : State} (h : Expects clr j s) :
    Expects clr j (requestModules clr i s) := by
  intro h' hh' hj d hd
  obtain ⟨h₀, hmem, es, hreq, -⟩ := mem_requestModules hh'
  have hpending : j ∉ h₀.ngenProcessedInlinerModules := by
    cases hreq with
    | skipped _ => exact hj
    | stopped _ _ => exact hj
    | done _ _ => exact fun hmem => hj (List.mem_cons_of_mem _ hmem)
  obtain ⟨hid, hmethods, -⟩ := hreq.fields
  simp only at hid hmethods
  rw [hid]
  exact h h₀ hmem hpending d (hmethods ▸ hd)

/-- The loop over the inliner modules seen so far. -/
theorem Done.foldl {clr : Clr} (l : List ModuleId) {s : State} (hs : Done s)
    (hl : ∀ i ∈ l, i ∈ s.ngenInlinersModules) (hclr : ∀ j ∈ l, Expects clr j s) :
    Done (l.foldl (fun s i => NgenInliners.requestModules clr i s) s) := by
  induction l generalizing s with
  | nil => exact hs
  | cons i l ih =>
      refine ih (hs.requestModules (hl i List.mem_cons_self) (hclr i List.mem_cons_self)) ?_ ?_
      · exact fun j hj => hl j (List.mem_cons_of_mem _ hj)
      · exact fun j hj => (hclr j (List.mem_cons_of_mem _ hj)).requestModules

theorem foldl_ngenInlinersModules (clr : Clr) (l : List ModuleId) (s : State) :
    (l.foldl (fun s i => requestModules clr i s) s).ngenInlinersModules
      = s.ngenInlinersModules := by
  induction l generalizing s with
  | nil => rfl
  | cons i l ih => exact ih _

theorem Expects.foldl {clr : Clr} {j : ModuleId} (l : List ModuleId) {s : State}
    (h : Expects clr j s) :
    Expects clr j (l.foldl (fun s i => NgenInliners.requestModules clr i s) s) := by
  induction l generalizing s with
  | nil => exact h
  | cons i l ih => exact ih h.requestModules

theorem Done.addNGenInlinerModule {clr : Clr} {moduleId : ModuleId} {s : State} (hs : Done s)
    (hclr : ∀ i ∈ moduleId :: s.ngenInlinersModules, Expects clr i s) :
    Done (addNGenInlinerModule clr moduleId s) := by
  have hknown : Done (s.ngenInlinersModules.foldl (fun s i => NgenInliners.requestModules clr i s)
      s) :=
    hs.foldl s.ngenInlinersModules (fun _ hi => hi) fun i hi => hclr i (List.mem_cons_of_mem _ hi)
  rw [NgenInliners.addNGenInlinerModule]
  split_ifs with hadded
  · exact hknown
  · refine Done.requestModules ?_ (by simp) ?_
    · intro h hmem i hi
      obtain ⟨hi', hall⟩ := hknown h hmem i hi
      exact ⟨List.mem_append_left _ hi', hall⟩
    · exact (hclr moduleId List.mem_cons_self).foldl _

theorem Done.getOrAddModule {s : State} (hs : Done s) (moduleId : ModuleId) :
    Done (getOrAddModule moduleId s) := by
  rw [NgenInliners.getOrAddModule]
  split_ifs
  · exact hs
  · intro h hmem i hi
    rcases List.mem_append.mp hmem with hmem | hmem
    · exact hs h hmem i hi
    · rw [List.mem_singleton.mp hmem] at hi
      cases hi

theorem Done.createMethodIfNotExists {s : State} (hs : Done s) {moduleId : ModuleId}
    {methodDef : MethodDef} (hnew : ∀ h ∈ s.modules, h.moduleId = moduleId →
      methodDef ∈ h.methods ∨ h.ngenProcessedInlinerModules = []) :
    Done (createMethodIfNotExists moduleId methodDef s) := by
  intro h' hmem' i hi
  obtain ⟨h, hmem, rfl⟩ := List.mem_map.mp hmem'
  split_ifs at hi ⊢ with hid
  · rw [RejitHandlerModule.createMethodIfNotExists] at hi ⊢
    split_ifs at hi ⊢ with hexists
    · exact hs h hmem i hi
    · rcases hnew h hmem hid with hexists' | hnone
      · exact absurd hexists' hexists
      · simp [hnone] at hi
  · exact hs h hmem i hi

theorem Done.rearrange {s : State} (hs : Done s) {modules : List RejitHandlerModule}
    (hr : Rearranged s.modules modules) : Done { s with modules := modules } := by
  obtain ⟨m, hperm, hsame⟩ := hr
  intro h' hmem' i hi
  have hback : ∃ h ∈ m, h'.moduleId = h.moduleId ∧ h'.methods.Perm h.methods
      ∧ h'.ngenProcessedInlinerModules = h.ngenProcessedInlinerModules := by
    clear hperm
    induction hsame with
    | nil => cases hmem'
    | cons hhead _ ih =>
        rcases List.mem_cons.mp hmem' with rfl | hmem'
        · exact ⟨_, List.mem_cons_self, hhead⟩
        · obtain ⟨h, hmem, hfields⟩ := ih hmem'
          exact ⟨h, List.mem_cons_of_mem _ hmem, hfields⟩
  obtain ⟨h, hmem, hid, hmethods, hprocessed⟩ := hback
  obtain ⟨hi', hall⟩ := hs h (hperm.mem_iff.mpr hmem) i (hprocessed ▸ hi)
  exact ⟨hi', fun d hd => hid ▸ hall d (hmethods.mem_iff.mp hd)⟩

/-! ### Trying again -/

/-- Between `s` and `t` the handler module has asked about all its methods in the
inliner module `i`, or about one that stopped it. -/
def Tries (s t : State) (h : RejitHandlerModule) (i : ModuleId) : Prop :=
  ∃ es, t.enumerations = s.enumerations ++ es ∧
    ((∀ d ∈ h.methods, ∃ e ∈ es, e.About h.moduleId d i) ∨
      ∃ d ∈ h.methods, ∃ e ∈ es, e.About h.moduleId d i ∧ e.answer.goesOn = false)

/-- `t` only adds enumerations to `s`. -/
def Extends (s t : State) : Prop := ∃ es, t.enumerations = s.enumerations ++ es

theorem Extends.tries {s t u : State} {h : RejitHandlerModule} {i : ModuleId}
    (hst : Extends s t) (htu : Tries t u h i) : Tries s u h i := by
  obtain ⟨es, hes⟩ := hst
  obtain ⟨es', hes', htries⟩ := htu
  refine ⟨es ++ es', by rw [hes', hes, List.append_assoc], ?_⟩
  rcases htries with hall | ⟨d, hd, e, he, hstop⟩
  · refine .inl fun d hd => ?_
    obtain ⟨e, he, habout⟩ := hall d hd
    exact ⟨e, List.mem_append_right _ he, habout⟩
  · exact .inr ⟨d, hd, e, List.mem_append_right _ he, hstop⟩

theorem Tries.extends {s t u : State} {h : RejitHandlerModule} {i : ModuleId}
    (hst : Tries s t h i) (htu : Extends t u) : Tries s u h i := by
  obtain ⟨es, hes, htries⟩ := hst
  obtain ⟨es', hes'⟩ := htu
  refine ⟨es ++ es', by rw [hes', hes, List.append_assoc], ?_⟩
  rcases htries with hall | ⟨d, hd, e, he, hstop⟩
  · refine .inl fun d hd => ?_
    obtain ⟨e, he, habout⟩ := hall d hd
    exact ⟨e, List.mem_append_left _ he, habout⟩
  · exact .inr ⟨d, hd, e, List.mem_append_left _ he, hstop⟩

theorem extends_requestModules (clr : Clr) (i : ModuleId) (s : State) :
    Extends s (requestModules clr i s) := ⟨_, rfl⟩

theorem extends_foldl (clr : Clr) (l : List ModuleId) (s : State) :
    Extends s (l.foldl (fun s i => requestModules clr i s) s) := by
  induction l generalizing s with
  | nil => exact ⟨[], (List.append_nil _).symm⟩
  | cons i l ih =>
      obtain ⟨es, hes⟩ := ih (requestModules clr i s)
      obtain ⟨es', hes'⟩ := extends_requestModules clr i s
      exact ⟨es' ++ es, by rw [List.foldl_cons, hes, hes', List.append_assoc]⟩

theorem requestModules_tries (clr : Clr) {i : ModuleId} {s : State} {h : RejitHandlerModule}
    (hmem : h ∈ s.modules) (hi : i ∉ h.ngenProcessedInlinerModules) :
    Tries s (requestModules clr i s) h i := by
  refine ⟨_, rfl, ?_⟩
  have hmem' := List.mem_map_of_mem (f := (·.requestRejitForInlinersInModule clr i)) hmem
  generalize hr : h.requestRejitForInlinersInModule clr i = r at hmem'
  have hreq := hr ▸ requests clr i h
  cases hreq with
  | skipped hskip => exact absurd hskip hi
  | done _ hall =>
      refine .inl fun d hd => ?_
      obtain ⟨hasked, -⟩ := hall d hd
      exact ⟨_, List.mem_flatMap.mpr ⟨_, hmem', hasked⟩, rfl, rfl, rfl⟩
  | stopped _ hstop =>
      obtain ⟨d, hd, hasked, hfail⟩ := hstop
      exact .inr ⟨d, hd, _, List.mem_flatMap.mpr ⟨_, hmem', hasked⟩, ⟨rfl, rfl, rfl⟩, hfail⟩

/-- Until its turn comes, an inliner module a handler module is not done with stays so. -/
theorem pending_requestModules (clr : Clr) {i j : ModuleId} (hne : i ≠ j) {s : State}
    {h : RejitHandlerModule} (hmem : h ∈ s.modules) (hi : i ∉ h.ngenProcessedInlinerModules) :
    ∃ h' ∈ (requestModules clr j s).modules, h'.moduleId = h.moduleId ∧ h'.methods = h.methods ∧
      i ∉ h'.ngenProcessedInlinerModules := by
  obtain ⟨hid, hmethods, hprocessed⟩ := (requests clr j h).fields
  refine ⟨_, ?_, hid, hmethods, fun hmem' => ?_⟩
  · simp only [requestModules, List.map_map]
    exact List.mem_map_of_mem hmem
  · rcases hprocessed i hmem' with rfl | hmem'
    · exact hne rfl
    · exact hi hmem'

theorem foldl_tries (clr : Clr) {i : ModuleId} {l : List ModuleId} (hl : i ∈ l) {s : State}
    {h : RejitHandlerModule} (hmem : h ∈ s.modules) (hi : i ∉ h.ngenProcessedInlinerModules) :
    Tries s (l.foldl (fun s i => requestModules clr i s) s) h i := by
  induction l generalizing s h with
  | nil => cases hl
  | cons j l ih =>
      rw [List.foldl_cons]
      by_cases hj : i = j
      · subst hj
        exact (requestModules_tries clr hmem hi).extends (extends_foldl clr l _)
      · obtain ⟨h', hmem', hid, hmethods, hi'⟩ := pending_requestModules clr hj hmem hi
        have hrest : i ∈ l := (List.mem_cons.mp hl).resolve_left hj
        have htries := (extends_requestModules clr j s).tries (ih hrest hmem' hi')
        simpa only [Tries, hid, hmethods] using htries

/-- **Trying again.** A handler module that is not done with a known inliner module asks
again in every call, whichever inliner module the call is about. -/
theorem addNGenInlinerModule_tries (clr : Clr) (moduleId : ModuleId) {i : ModuleId} {s : State}
    (hi : i ∈ s.ngenInlinersModules) {h : RejitHandlerModule} (hmem : h ∈ s.modules)
    (hpending : i ∉ h.ngenProcessedInlinerModules) :
    Tries s (addNGenInlinerModule clr moduleId s) h i := by
  have htries := foldl_tries clr hi hmem hpending
  rw [addNGenInlinerModule]
  split_ifs
  · exact htries
  · exact htries.extends ⟨_, rfl⟩

/-! ### Runs -/

/-- No new method comes to a handler module that is done with some inliner module, and
the CLR refuses enumerations only for incomplete data. -/
def Meets (s : State) : Act → Prop
  | .createMethodIfNotExists moduleId methodDef => ∀ h ∈ s.modules, h.moduleId = moduleId →
      methodDef ∈ h.methods ∨ h.ngenProcessedInlinerModules = []
  | .addNGenInlinerModule moduleId clr => ∀ i ∈ moduleId :: s.ngenInlinersModules, Expects clr i s
  | _ => True

theorem inductive_done : Inductive (preprocessor.restrict Meets) Done where
  init := by
    rintro s rfl
    exact nofun
  step := by
    rintro s a t hs ⟨hstep, hmeets⟩
    cases hstep with
    | getOrAddModule moduleId => exact hs.getOrAddModule moduleId
    | createMethodIfNotExists moduleId methodDef => exact hs.createMethodIfNotExists hmeets
    | addNGenInlinerModule moduleId clr => exact hs.addNGenInlinerModule hmeets
    | rearrange hr => exact hs.rearrange hr

/-- For each method registered and each inliner module known, the inliners have been
enumerated completely, or the pair is still open and every further call tries again. No
handler module is done with an inliner module in which one of its methods has not been
enumerated. -/
def Sound (s : State) : Prop :=
  (∀ h ∈ s.modules, ∀ d ∈ h.methods, ∀ i ∈ s.ngenInlinersModules,
    Enumerated s.enumerations h.moduleId d i ∨
      i ∉ h.ngenProcessedInlinerModules ∧
        ∀ moduleId clr t, Step s (.addNGenInlinerModule moduleId clr) t → Tries s t h i) ∧
  ∀ h ∈ s.modules, ∀ i ∈ h.ngenProcessedInlinerModules, ∀ d ∈ h.methods,
    Enumerated s.enumerations h.moduleId d i

/-- **The inliners.** In every state of every run that meets the conditions, no pair of
a method and an inliner module is lost. -/
theorem ngenInliners_sound {s : State} (h : (preprocessor.restrict Meets).Reachable s) :
    Sound s := by
  have hdone := inductive_done.reachable h
  refine ⟨fun h hmem d hd i hi => ?_, fun h hmem i hi d hd => (hdone h hmem i hi).2 d hd⟩
  by_cases hprocessed : i ∈ h.ngenProcessedInlinerModules
  · exact .inl ((hdone h hmem i hprocessed).2 d hd)
  · refine .inr ⟨hprocessed, ?_⟩
    rintro moduleId clr t ⟨⟩
    exact addNGenInlinerModule_tries clr moduleId hi hmem hprocessed

/-- A CLR that always answers with an empty enumeration. -/
def noInliners : Clr := fun _ _ _ => ⟨0, false, []⟩

/-- A method is registered before the first inliner module comes. -/
theorem ngenInliners_sound_one_method :
    ∃ s : State, s.modules = [⟨1, [10], [2]⟩] ∧ ∀ h ∈ s.modules,
      ∀ i ∈ h.ngenProcessedInlinerModules, ∀ d ∈ h.methods,
        Enumerated s.enumerations h.moduleId d i := by
  have hclr : ∀ s, ∀ i ∈ (2 : ModuleId) :: s.ngenInlinersModules, Expects noInliners i s :=
    fun _ _ _ _ _ _ _ _ => .inl rfl
  have hrun : (preprocessor.restrict Meets).Reachable (addNGenInlinerModule noInliners 2
      (createMethodIfNotExists 1 10 (getOrAddModule 1 .initial))) :=
    ⟨_, _, rfl, .cons ⟨.getOrAddModule 1, trivial⟩
      (.cons ⟨.createMethodIfNotExists 1 10, by simp only [Meets]; decide⟩
        (.cons ⟨.addNGenInlinerModule 2 noInliners, hclr _⟩ (.nil _)))⟩
  exact ⟨_, by decide, (ngenInliners_sound hrun).2⟩

/-- A method that is registered after an inliner module has been processed is never
looked up there. -/
theorem ngenInliners_late_method : ¬ ∀ s, preprocessor.Reachable s → Sound s := by
  intro h
  have hrun : preprocessor.Reachable (addNGenInlinerModule noInliners 2
      (createMethodIfNotExists 1 11 (addNGenInlinerModule noInliners 2
        (createMethodIfNotExists 1 10 (getOrAddModule 1 .initial))))) :=
    ⟨_, _, rfl, .cons (.getOrAddModule 1) (.cons (.createMethodIfNotExists 1 10)
      (.cons (.addNGenInlinerModule 2 noInliners) (.cons (.createMethodIfNotExists 1 11)
        (.cons (.addNGenInlinerModule 2 noInliners) (.nil _)))))⟩
  obtain ⟨-, hdone⟩ := h _ hrun
  have hlate := hdone ⟨1, [10, 11], [2]⟩ (by decide) 2 (by decide) 11 (by decide)
  obtain ⟨e, he, ⟨-, hmethod, -⟩, -⟩ := hlate
  have hasked : ∀ e ∈ (addNGenInlinerModule noInliners 2
      (createMethodIfNotExists 1 11 (addNGenInlinerModule noInliners 2
        (createMethodIfNotExists 1 10 (getOrAddModule 1 .initial))))).enumerations,
      e.methodDef ≠ 11 := by decide
  exact hasked e he hmethod

end AutoInstrumentation.NgenInliners
